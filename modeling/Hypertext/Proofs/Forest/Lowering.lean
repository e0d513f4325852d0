import Hypertext.Proofs.Forest.DocumentOrder
import Hypertext.Proofs.Text.Lowering

/-! # Names in lower case

To put names into lower case while markup is read is to put them into lower case afterwards. Whatever
asks for the lower case of a name (raw text, elements without content, end tags) gets the same from
both, so the tokens are the same but for their names, and the forests as well; of attributes whose
names become equal a node keeps the first.
-/

namespace Hypertext

set_option autoImplicit false

/-! ## Names -/

namespace Casing

def also (casing names : Casing) : Casing where
  tags := casing.tags || names.tags
  attributes := casing.attributes || names.attributes

def tag (casing : Casing) (name : String) : String :=
  if casing.tags then Text.lower name else name

def rename (casing : Casing) (a : Attribute) : Attribute :=
  (if casing.attributes then Text.lower a.1 else a.1, a.2)

/-- The attributes of a node: where names become equal, the first stays with its value. -/
def distinct (casing : Casing) (attributes : List Attribute) : List Attribute :=
  if casing.attributes then
    (attributes.map casing.rename).eraseDupsBy fun a b => a.1 == b.1
  else attributes

variable {casing names : Casing}

@[simp] theorem lower_tag (name : String) : Text.lower (casing.tag name) = Text.lower name := by
  rw [tag]
  split
  · exact Text.lower_lower name
  · rfl

theorem tagName_also (name : List Char) :
    (casing.also names).tagName name = names.tag (casing.tagName name) := by
  cases hCasing : casing.tags <;> cases hNames : names.tags <;>
    simp [also, tagName, tag, hCasing, hNames, Text.lower]

theorem attributeName_also (name : List Char) (value : String) :
    ((casing.also names).attributeName name, value) =
      names.rename (casing.attributeName name, value) := by
  cases hCasing : casing.attributes <;> cases hNames : names.attributes <;>
    simp [also, attributeName, rename, hCasing, hNames, Text.lower]

end Casing

/-! ## Attributes of one name -/

theorem eraseDupsBy_loop_eq (attributes kept : List Attribute) :
    List.eraseDupsBy.loop (fun a b => a.1 == b.1) attributes kept =
      attributes.foldl (fun kept a => if kept.any (·.1 = a.1) then kept else kept ++ [a])
        kept.reverse := by
  induction attributes generalizing kept with
  | nil => rfl
  | cons a attributes ih =>
    have hSame : kept.reverse.any (fun b => decide (b.1 = a.1)) =
        kept.any (fun b => a.1 == b.1) := by
      rw [List.any_reverse]
      congr 1
      funext b
      rw [← Bool.beq_comm, beq_eq_decide]
    rw [List.eraseDupsBy.loop, List.foldl_cons, hSame]
    cases kept.any (fun b => a.1 == b.1) with
    | true => exact ih kept
    | false =>
      have hNext := ih (a :: kept)
      rwa [List.reverse_cons] at hNext

theorem firstOfEachName_eq (attributes : List Attribute) :
    firstOfEachName attributes = attributes.eraseDupsBy fun a b => a.1 == b.1 :=
  (eraseDupsBy_loop_eq attributes []).symm

theorem any_firstOfEachName (attributes : List Attribute) (name : String) :
    (firstOfEachName attributes).any (·.1 = name) = attributes.any (·.1 = name) := by
  have hNames : name ∈ (firstOfEachName attributes).map (·.1) ↔ name ∈ attributes.map (·.1) := by
    rw [(firstOfEachName_spec attributes).1, List.mem_eraseDups]
  rw [Bool.eq_iff_iff]
  simpa [List.any_eq_true, List.mem_map] using hNames

/-- Attributes dropped before names become equal would be dropped afterwards. -/
theorem firstOfEachName_map {rename : Attribute → Attribute}
    (hName : ∀ a b : Attribute, a.1 = b.1 → (rename a).1 = (rename b).1)
    (attributes : List Attribute) :
    firstOfEachName (attributes.map rename) =
      firstOfEachName ((firstOfEachName attributes).map rename) := by
  induction attributes using List.reverseRecOn with
  | nil => rfl
  | append_singleton attributes a ih =>
    rw [List.map_append, List.map_singleton, firstOfEachName_concat, firstOfEachName_concat, ih]
    by_cases hKnown : (firstOfEachName attributes).any (·.1 = a.1) = true
    · have hRenamed : ((firstOfEachName attributes).map rename).any (·.1 = (rename a).1) = true := by
        obtain ⟨b, hb, hSame⟩ := List.any_eq_true.mp hKnown
        refine List.any_eq_true.mpr ⟨rename b, List.mem_map_of_mem hb, ?_⟩
        exact decide_eq_true (hName b a (of_decide_eq_true hSame))
      rw [if_pos hKnown, any_firstOfEachName, if_pos hRenamed]
    · rw [if_neg hKnown, List.map_append, List.map_singleton, firstOfEachName_concat]

theorem Casing.firstOfEachName_rename (casing : Casing) (attributes : List Attribute) :
    firstOfEachName (attributes.map casing.rename) =
      casing.distinct (firstOfEachName attributes) := by
  rw [distinct]
  split
  · rw [← firstOfEachName_eq]
    exact firstOfEachName_map (fun a b hName => by rw [Casing.rename, Casing.rename, hName]) attributes
  · rename_i hKept
    have hSame : casing.rename = id := by
      funext a
      rw [rename, if_neg hKept]
      rfl
    rw [hSame, List.map_id]

/-! ## Tokens -/

def Lexeme.lowered (casing : Casing) : Lexeme → Lexeme
  | .startTag name attributes selfClosing =>
    .startTag (casing.tag name) (attributes.map casing.rename) selfClosing
  | .endTag name => .endTag (casing.tag name)
  | other => other

def Token.lowered (casing : Casing) (token : Token) : Token :=
  { token with lexeme := token.lexeme.lowered casing }

/-- What lower case leaves of a token: everything but its names. -/
structure Token.SameBut (before after : Token) : Prop where
  kind : after.lexeme.kind = before.lexeme.kind
  position : after.position = before.position
  selfClosing : after.lexeme.selfClosing = before.lexeme.selfClosing
  values : after.lexeme.attributes.map (·.2) = before.lexeme.attributes.map (·.2)
  opensRaw : after.lexeme.OpensRaw ↔ before.lexeme.OpensRaw

theorem Lexeme.opensRaw_lowered (casing : Casing) (lexeme : Lexeme) :
    (lexeme.lowered casing).OpensRaw ↔ lexeme.OpensRaw := by
  cases lexeme with
  | startTag name attributes selfClosing => simp [lowered, OpensRaw]
  | text _ | endTag _ | comment _ | directive _ => simp [lowered, OpensRaw]

theorem Token.sameBut_lowered (casing : Casing) (token : Token) :
    token.SameBut (token.lowered casing) := by
  refine ⟨?_, rfl, ?_, ?_, token.lexeme.opensRaw_lowered casing⟩ <;>
    cases hLexeme : token.lexeme <;>
    simp [lowered, Lexeme.lowered, hLexeme, Lexeme.kind, Lexeme.selfClosing, Lexeme.attributes,
      Casing.rename]

namespace Scan

variable {casing names : Casing}

theorem startLexeme_also (tag : StartTag) :
    startLexeme (casing.also names) tag = (startLexeme casing tag).lowered names := by
  simp [startLexeme, Lexeme.lowered, Casing.tagName_also, Casing.attributeName_also]

theorem construct?_also (text : List Char) :
    construct? (casing.also names) text =
      (construct? casing text).map fun read => (read.1.lowered names, read.2) := by
  unfold construct?
  split
  · rfl
  · split
    · cases breakAfter ['>'] text <;> rfl
    · split
      · simp [Function.comp_def, Lexeme.lowered, Casing.tagName_also]
      · simp [Function.comp_def, startLexeme_also]
      · rfl

theorem heldTokens_lowered (s : Scan) :
    s.heldTokens.map (Token.lowered names) = s.heldTokens := by
  unfold heldTokens
  split <;> rfl

theorem step_also (s : Scan) :
    s.step (casing.also names) =
      ((s.step casing).1.map (Token.lowered names), (s.step casing).2) := by
  unfold step
  split
  · rfl
  · rw [construct?_also]
    cases construct? casing s.rest with
    | none => rfl
    | some read =>
      simp only [Option.map_some, emit, List.map_append, heldTokens_lowered]
      rfl
  · rfl

theorem run_also (s : Scan) :
    s.run (casing.also names) = (s.run casing).map (Token.lowered names) := by
  rw [run.eq_def (casing.also names) s, run.eq_def casing s]
  split
  · exact (heldTokens_lowered s).symm
  · rename_i hNe
    have hMeasure := s.measure_step_lt casing hNe
    rw [step_also, List.map_append, run_also (s.step casing).2]
termination_by s.measure

end Scan

/-! ## Forests -/

mutual

def Item.lowered (casing : Casing) : Item → Item
  | .text s => .text s
  | .element tag attributes content =>
    .element (casing.tag tag) (casing.distinct attributes) (Forest.lowered casing content)

def Forest.lowered (casing : Casing) : List Item → List Item
  | [] => []
  | item :: rest => Item.lowered casing item :: Forest.lowered casing rest

end

theorem Forest.lowered_eq_map (casing : Casing) (forest : Forest) :
    Forest.lowered casing forest = forest.map (Item.lowered casing) := by
  induction forest with
  | nil => rfl
  | cons item rest ih => rw [lowered, ih, List.map_cons]

def OpenElement.lowered (casing : Casing) (element : OpenElement) : OpenElement where
  name := element.name
  tag := casing.tag element.tag
  attributes := casing.distinct element.attributes
  before := element.before.map (Item.lowered casing)

namespace Assembly

variable {casing : Casing}

def lowered (casing : Casing) (assembly : Assembly) : Assembly where
  items := assembly.items.map (Item.lowered casing)
  stack := assembly.stack.map (OpenElement.lowered casing)
  counts := assembly.counts

theorem isLeaf_tag (recognizeSelfClosing : Bool) (name : String) (selfClosing : Bool) :
    isLeaf recognizeSelfClosing (casing.tag name) selfClosing =
      isLeaf recognizeSelfClosing name selfClosing := by
  rw [isLeaf, isLeaf, Casing.lower_tag]

theorem close_lowered (count : Nat) (items : List Item) (stack : List OpenElement) :
    close count (items.map (Item.lowered casing)) (stack.map (OpenElement.lowered casing)) =
      ((close count items stack).1.map (Item.lowered casing),
        (close count items stack).2.map (OpenElement.lowered casing)) := by
  induction count generalizing items stack with
  | zero => rfl
  | succ count ih =>
    cases stack with
    | nil => rfl
    | cons element stack =>
      rw [List.map_cons, close, close, ← ih, List.map_cons, Item.lowered, Forest.lowered_eq_map,
        List.map_reverse]
      rfl

theorem findIdx?_lowered (name : String) (stack : List OpenElement) :
    (stack.map (OpenElement.lowered casing)).findIdx? (·.name = name) =
      stack.findIdx? (·.name = name) := by
  rw [List.findIdx?_map]
  rfl

theorem addLexeme_lowered (recognizeSelfClosing : Bool) (assembly : Assembly) (lexeme : Lexeme) :
    addLexeme recognizeSelfClosing (assembly.lowered casing) (lexeme.lowered casing) =
      (addLexeme recognizeSelfClosing assembly lexeme).lowered casing := by
  cases lexeme with
  | startTag name attributes selfClosing =>
    simp only [addLexeme, Lexeme.lowered, isLeaf_tag, Casing.firstOfEachName_rename,
      Casing.lower_tag]
    split
    · simp [lowered, Item.lowered, Forest.lowered]
    · simp [lowered, OpenElement.lowered]
  | endTag name =>
    simp only [addLexeme, Lexeme.lowered, lowered, Casing.lower_tag, findIdx?_lowered]
    cases assembly.stack.findIdx? (·.name = Text.lower name) with
    | none => rfl
    | some index => simp only [close_lowered]
  | text s | comment s | directive s => rfl

theorem foldl_addLexeme_lowered (casing : Casing) (recognizeSelfClosing : Bool) (assembly : Assembly)
    (lexemes : List Lexeme) :
    (lexemes.map (Lexeme.lowered casing)).foldl (addLexeme recognizeSelfClosing)
        (assembly.lowered casing) =
      (lexemes.foldl (addLexeme recognizeSelfClosing) assembly).lowered casing := by
  induction lexemes generalizing assembly with
  | nil => rfl
  | cons lexeme lexemes ih => rw [List.map_cons, List.foldl_cons, List.foldl_cons,
      addLexeme_lowered, ih]

theorem finish_lowered (assembly : Assembly) :
    (assembly.lowered casing).finish =
      (Forest.lowered casing assembly.finish.1, assembly.finish.2) := by
  simp only [finish, lowered, List.length_map, close_lowered, Forest.lowered_eq_map,
    List.map_reverse]

end Assembly

theorem Forest.build_lowered (casing : Casing) (recognizeSelfClosing : Bool)
    (lexemes : List Lexeme) :
    build recognizeSelfClosing (lexemes.map (Lexeme.lowered casing)) =
      (lowered casing (build recognizeSelfClosing lexemes).1,
        (build recognizeSelfClosing lexemes).2) := by
  have hFold := Assembly.foldl_addLexeme_lowered casing recognizeSelfClosing .empty
    lexemes
  rw [build, build, ← Assembly.finish_lowered, ← hFold]
  rfl

/-! ## Parsing -/

theorem parse_also (casing names : Casing) (recognizeSelfClosing : Bool) (text : String) :
    parse ⟨casing.also names, recognizeSelfClosing⟩ text =
      let parsed := parse ⟨casing, recognizeSelfClosing⟩ text
      ⟨parsed.tokens.map (Token.lowered names), Forest.lowered names parsed.forest,
        parsed.counts⟩ := by
  have hScan : Token.scan (casing.also names) text =
      (Token.scan casing text).map (Token.lowered names) := Scan.run_also _
  have hBuild := Forest.build_lowered names recognizeSelfClosing
    ((Token.scan casing text).map (·.lexeme))
  have hLexemes : ((Token.scan casing text).map (Token.lowered names)).map (·.lexeme) =
      ((Token.scan casing text).map (·.lexeme)).map (Lexeme.lowered names) := by
    rw [List.map_map, List.map_map]
    rfl
  simp only [parse, hScan, hLexemes, hBuild]

/-- The options with lower case switched on or off for some of the names. -/
def Options.switched (options : Options) (names : Casing) (on : Bool) : Options :=
  { options with
    lowerCaseTags := if names.tags then .bool on else options.lowerCaseTags
    lowerCaseAttributeNames :=
      if names.attributes then .bool on else options.lowerCaseAttributeNames }

theorem Options.reading_switched (options : Options) (names : Casing) :
    (options.switched names true).reading =
      { (options.switched names false).reading with
        casing := (options.switched names false).reading.casing.also names } := by
  cases hTags : names.tags <;> cases hAttributes : names.attributes <;>
    simp [switched, reading, Casing.also, hTags, hAttributes, Value.truthy, Atom.truthy]

/-- Lower case commutes with parsing. -/
theorem parse_lowers (options : Options) (names : Casing) (text : String) :
    let off := parse (options.switched names false).reading text
    let on := parse (options.switched names true).reading text
    on.forest = Forest.lowered names off.forest ∧
      on.tokens = off.tokens.map (Token.lowered names) ∧
      List.Forall₂ Token.SameBut off.tokens on.tokens ∧ on.counts = off.counts := by
  intro off on
  have hOn : on = ⟨off.tokens.map (Token.lowered names), Forest.lowered names off.forest,
      off.counts⟩ := by
    have hReading := options.reading_switched names
    exact (congrArg (parse · text) hReading).trans (parse_also _ _ _ _)
  rw [hOn]
  refine ⟨rfl, rfl, ?_, rfl⟩
  rw [List.forall₂_map_right_iff]
  exact List.forall₂_same.mpr fun token _ => token.sameBut_lowered names

end Hypertext
