import Hypertext.Proofs.Render.Settled

/-! # Serialising what was parsed

The lexemes of clean markup nest, and what scanning says of each of them makes the item that is
grown from it a settled one. The induction over the nested lexemes keeps the lexemes around them,
for a text may hold a `<` only directly behind the start tag of a raw element, and the text of a
raw element is taken as a whole.
-/

namespace Hypertext

set_option autoImplicit false

open Text Scan

/-- No `<` is left as text outside of raw elements, comments are closed, and the names of start
tags have no blanks. -/
structure CleanLexemes (lexemes : List Lexeme) : Prop where
  texts : ∀ before text after, lexemes = before ++ .text text :: after → '<' ∈ text.toList →
    ∃ last ∈ before.getLast?, last.OpensRaw
  comments : ∀ text, .comment text ∈ lexemes → commentClose <:+: text.toList.drop 4
  names : ∀ name attributes selfClosing, .startTag name attributes selfClosing ∈ lexemes →
    ∀ c ∈ name.toList, isBlank c = false

structure Parsed.IsClean (parsed : Parsed) : Prop where
  unrepaired : parsed.counts.repairs = 0
  lexemes : CleanLexemes (parsed.tokens.map (·.lexeme))

/-! ## Single lexemes -/

theorem IsComment.not_isPlain {text : List Char} (h : IsComment text) : ¬ IsPlain text := by
  obtain ⟨inner, rfl, -⟩ := h
  intro hPlain
  obtain ⟨-, -, hMark, -⟩ := hPlain _ (List.suffix_refl _) '!' rfl
  exact hMark rfl

theorem IsDirective.not_isPlain {text : List Char} (h : IsDirective text) : ¬ IsPlain text := by
  obtain ⟨c, inner, rfl, hMark, -⟩ := h
  intro hPlain
  obtain ⟨-, -, hFirst, hSecond⟩ := hPlain _ (List.suffix_refl _) c rfl
  rcases hMark with rfl | rfl
  · exact hFirst rfl
  · exact hSecond rfl

theorem Item.TakenTag.settled_empty {tag : String} {attributes : List Attribute}
    (h : TakenTag tag attributes) : Settled (.element tag attributes []) := by
  by_cases hVoid : isVoid (lower tag) = true
  · exact .single h hVoid
  · cases hElement : RawElement.ofName? (lower tag) with
    | none => exact .element h (Bool.eq_false_iff.mpr hVoid) hElement nofun .nil
    | some element =>
      have hRaw : IsRaw element [] := by
        intro rest hRest
        rw [List.suffix_nil.mp hRest]
        rfl
      exact .raw h hElement hRaw

namespace CleanLexemes

variable {before after : List Lexeme}

theorem settled_text {lexeme : Lexeme} (h : CleanLexemes (before ++ lexeme :: after))
    (hScanned : lexeme.IsScanned after) (hText : lexeme.isTag = false)
    (hBefore : ∀ last ∈ before.getLast?, ¬ last.OpensRaw) :
    Item.Settled (.text lexeme.value) ∧
      (Value.IsPlainText (.str lexeme.value) → lexeme.kind = .text) := by
  cases lexeme with
  | startTag | endTag => cases hText
  | text s =>
    refine ⟨.text hScanned.1 ?_, fun _ => rfl⟩
    intro hMem
    obtain ⟨last, hLast, hRaw⟩ := h.texts before s after rfl hMem
    exact hBefore last hLast hRaw
  | comment s =>
    have hComment : IsComment s.toList := by
      rcases hScanned with hComment | hOpen
      · exact hComment
      · exact absurd (h.comments s (List.mem_append_right before List.mem_cons_self)) hOpen
    refine ⟨.comment hComment, ?_⟩
    rintro ⟨t, hEq, hPlain⟩
    cases hEq
    exact absurd hPlain hComment.not_isPlain
  | directive s =>
    have hDirective : IsDirective s.toList := hScanned
    refine ⟨.directive hDirective, ?_⟩
    rintro ⟨t, hEq, hPlain⟩
    cases hEq
    exact absurd hPlain hDirective.not_isPlain

theorem takenTag {tag : String} {attributes : List Attribute} {selfClosing : Bool}
    (h : CleanLexemes (before ++ .startTag tag attributes selfClosing :: after))
    (hScanned : (Lexeme.startTag tag attributes selfClosing).IsScanned after) :
    Item.TakenTag tag (firstOfEachName attributes) where
  names := by
    obtain ⟨hName, -, -⟩ := hScanned
    refine ⟨hName.first, ?_⟩
    intro c hc
    exact ⟨hName.chars c hc,
      h.names tag attributes selfClosing (List.mem_append_right before List.mem_cons_self) c hc⟩
  taken := by
    obtain ⟨-, hTaken, -⟩ := hScanned
    exact fun a ha => hTaken a (mem_of_mem_firstOfEachName a ha)
  distinct := nodup_firstOfEachName attributes

end CleanLexemes

/-! ## Nested lexemes -/

theorem Nested.eq_nil_of_endTag {recognizeSelfClosing : Bool} {inner rest more : List Lexeme}
    {content : List Growth} {first second : String}
    (h : Nested recognizeSelfClosing inner content)
    (hEq : inner ++ .endTag first :: rest = .endTag second :: more) : content = [] := by
  cases h with
  | nil => rfl
  | text hText _ =>
    obtain ⟨rfl, -⟩ := List.cons.inj hEq
    cases hText
  | leaf | element => cases (List.cons.inj hEq).1

theorem Nested.items_eq_rawItems {recognizeSelfClosing : Bool} {inner rest more : List Lexeme}
    {content : List Growth} {text : List Char} {first second : String}
    (h : Nested recognizeSelfClosing inner content)
    (hEq : inner ++ .endTag first :: rest = heldLexemes text ++ .endTag second :: more) :
    Growth.items content = Value.rawItems (.ok (String.ofList text)) := by
  rcases Item.rawItems_cases text with ⟨rfl, hItems⟩ | ⟨hText, hItems⟩
  · obtain rfl := h.eq_nil_of_endTag hEq
    exact hItems.symm
  · rw [heldLexemes, if_neg hText] at hEq
    cases h with
    | nil => cases (List.cons.inj hEq).1
    | text _ hRest =>
      obtain ⟨rfl, hTail⟩ := List.cons.inj hEq
      obtain rfl := hRest.eq_nil_of_endTag hTail
      exact hItems.symm
    | leaf | element => cases (List.cons.inj hEq).1

theorem apart_toValues_cons {item : Item} {rest : List Item}
    (hFirst : ∀ next ∈ rest.head?,
      ¬ (Value.IsPlainText item.toValue ∧ Value.IsPlainText next.toValue))
    (hRest : Value.Apart (Item.toValues rest)) : Value.Apart (Item.toValues (item :: rest)) := by
  cases rest with
  | nil => exact .singleton _
  | cons next rest => exact .cons_cons (hFirst next rfl) hRest

theorem not_isPlainText_element (tag : String) (attributes : List Attribute)
    (content : List Item) : ¬ Value.IsPlainText (Item.toValue (.element tag attributes content)) := by
  rintro ⟨s, hEq, -⟩
  cases hEq

/-- Where an induction stands in clean lexemes: what lies behind it ends with no start tag of a raw
element. -/
structure StandsBefore (before lexemes : List Lexeme) : Prop where
  clean : CleanLexemes (before ++ lexemes)
  scanned : AllScanned lexemes
  plain : ∀ last ∈ before.getLast?, ¬ last.OpensRaw

namespace StandsBefore

variable {before skipped rest : List Lexeme} {lexeme : Lexeme}

theorem skip (h : StandsBefore before (skipped ++ lexeme :: rest)) (hPlain : ¬ lexeme.OpensRaw) :
    StandsBefore (before ++ (skipped ++ [lexeme])) rest where
  clean := by
    have hText : before ++ (skipped ++ [lexeme]) ++ rest =
        before ++ (skipped ++ lexeme :: rest) := by simp
    rw [hText]
    exact h.clean
  scanned := h.scanned.of_suffix ⟨skipped ++ [lexeme], by simp⟩
  plain := by
    intro last hLast
    rw [← List.append_assoc, List.getLast?_concat, Option.mem_def, Option.some.injEq] at hLast
    rwa [← hLast]

theorem next (h : StandsBefore before (lexeme :: rest)) (hPlain : ¬ lexeme.OpensRaw) :
    StandsBefore (before ++ [lexeme]) rest := by
  rw [← List.nil_append (lexeme :: rest)] at h
  exact h.skip hPlain

theorem isScanned (h : StandsBefore before (lexeme :: rest)) : lexeme.IsScanned rest :=
  h.scanned lexeme rest (List.suffix_refl _)

theorem settled_text (h : StandsBefore before (lexeme :: rest)) (hText : lexeme.isTag = false) :
    Item.Settled (.text lexeme.value) ∧
      (Value.IsPlainText (.str lexeme.value) → lexeme.kind = .text) :=
  h.clean.settled_text h.isScanned hText h.plain

end StandsBefore

theorem Lexeme.not_opensRaw_of_isTag {lexeme : Lexeme} (h : lexeme.isTag = false) :
    ¬ lexeme.OpensRaw := by
  rintro ⟨name, attributes, element, rfl, -⟩
  cases h

theorem Nested.head_text {recognizeSelfClosing : Bool} {lexemes tail before : List Lexeme}
    {growth : List Growth} (h : Nested recognizeSelfClosing lexemes growth)
    (hStands : StandsBefore before (lexemes ++ tail)) :
    ∀ item ∈ (Growth.items growth).head?, Value.IsPlainText item.toValue →
      ∃ first ∈ (lexemes ++ tail).head?, first.kind = .text := by
  intro item hItem hPlain
  cases h with
  | nil => cases hItem
  | @text lexeme lexemes growth hText _ =>
    cases hItem
    exact ⟨lexeme, rfl, (hStands.settled_text hText).2 hPlain⟩
  | leaf | element =>
    cases hItem
    exact absurd hPlain (not_isPlainText_element _ _ _)

theorem Nested.settled {lexemes : List Lexeme} {growth : List Growth} (h : Nested true lexemes growth)
    {before tail : List Lexeme} (hStands : StandsBefore before (lexemes ++ tail)) :
    (∀ item ∈ Growth.items growth, item.Settled) ∧
      Value.Apart (Item.toValues (Growth.items growth)) := by
  induction h generalizing before tail with
  | nil => exact ⟨nofun, .nil⟩
  | @text lexeme lexemes growth hText hRest ih =>
    obtain ⟨hSettled, hPlain⟩ := hStands.settled_text hText
    have hNext := hStands.next (Lexeme.not_opensRaw_of_isTag hText)
    obtain ⟨hItems, hApart⟩ := ih hNext
    refine ⟨List.forall_mem_cons.mpr ⟨hSettled, hItems⟩, apart_toValues_cons ?_ hApart⟩
    -- Scanning takes two texts that meet for one.
    rintro next hMem ⟨hFirst, hSecond⟩
    obtain ⟨other, hOther, hKind⟩ := hRest.head_text hNext next hMem hSecond
    have hScanned := hStands.isScanned
    cases lexeme with
    | text s => exact hScanned.2 other hOther hKind
    | startTag | endTag => cases hText
    | comment | directive => cases hPlain hFirst
  | @leaf tag attributes selfClosing lexemes growth hLeaf hRest ih =>
    have hTag := hStands.clean.takenTag hStands.isScanned
    have hClosed : ¬ (Lexeme.startTag tag attributes selfClosing).OpensRaw := by
      rintro ⟨name, _, element, hEq, hElement⟩
      cases hEq
      rw [Assembly.isLeaf, Bool.false_and, Bool.or_false] at hLeaf
      rw [ofName?_eq_none_of_isVoid hLeaf] at hElement
      cases hElement
    obtain ⟨hItems, hApart⟩ := ih (hStands.next hClosed)
    refine ⟨List.forall_mem_cons.mpr ⟨hTag.settled_empty, hItems⟩, apart_toValues_cons ?_ hApart⟩
    rintro next - ⟨hFirst, -⟩
    exact not_isPlainText_element _ _ _ hFirst
  | @element tag name attributes selfClosing inner lexemes content growth hOpen hName hContent hRest
      ihContent ih =>
    obtain ⟨hVoid, hSelfClosing⟩ := Bool.or_eq_false_iff.mp hOpen
    rw [Bool.and_true] at hSelfClosing
    rw [List.cons_append, List.append_assoc, List.cons_append] at hStands
    have hTag := hStands.clean.takenTag hStands.isScanned
    have hBehind : StandsBefore before
        (.startTag tag attributes selfClosing :: inner ++ .endTag name :: (lexemes ++ tail)) :=
      hStands
    obtain ⟨hItems, hApart⟩ := ih (hBehind.skip (by
      rintro ⟨_, _, _, hEq, -⟩
      cases hEq))
    refine ⟨List.forall_mem_cons.mpr ⟨?_, hItems⟩, apart_toValues_cons ?_ hApart⟩
    · cases hElement : RawElement.ofName? (lower tag) with
      | some element =>
        -- The induction says nothing of raw text; scanning says that it is all there is.
        obtain ⟨-, -, hRaw⟩ := hStands.isScanned
        rcases hRaw hSelfClosing element hElement with ⟨text, other, more, hEq, hRaw⟩ | hNone
        · rw [Growth.item, hContent.items_eq_rawItems hEq]
          exact .raw hTag hElement hRaw
        · exact absurd (List.mem_append_right inner List.mem_cons_self) (hNone name)
      | none =>
        obtain ⟨hInner, hApart'⟩ := ihContent (hStands.next (by
          rintro ⟨_, _, _, hEq, hSome⟩
          cases hEq
          rw [hElement] at hSome
          cases hSome))
        exact .element hTag hVoid hElement hInner hApart'
    · rintro next - ⟨hFirst, -⟩
      exact not_isPlainText_element _ _ _ hFirst

/-! ## The fixpoint -/

theorem Reads.parseForest_eq {reading : Reading} {a : Prop} {html : String} {items : List Item}
    (h : Reads reading a True html.toList items) : parseForest reading html = items := by
  obtain ⟨lexemes, hAdds, hRead⟩ := h
  obtain ⟨hStream, -⟩ := hRead [] fun _ => Or.inl rfl
  rw [List.append_nil, stream_nil, heldLexemes, if_pos rfl, List.append_nil] at hStream
  rw [parseForest, parse, map_scan, hStream, hAdds.build_eq]

theorem Parsed.IsClean.settled {text : String} (h : (parse plainReading text).IsClean) :
    (∀ item ∈ (parse plainReading text).forest, item.Settled) ∧
      Value.Apart (Item.toValues (parse plainReading text).forest) := by
  have hScanned := allScanned_scan text
  have hClean := h.lexemes
  obtain ⟨repaired, growth, hEdited, hNested, hBuild⟩ := Forest.build_mended true
    ((Token.scan .asWritten text).map (·.lexeme))
  have hForest : (parse plainReading text).forest = Growth.items growth := congrArg Prod.fst hBuild
  have hSame : repaired = (Token.scan .asWritten text).map (·.lexeme) := by
    apply hEdited.eq_of_unrepaired
    rw [Nat.add_comm]
    exact h.unrepaired
  rw [hSame] at hNested
  rw [hForest]
  have hStands : StandsBefore [] ((Token.scan .asWritten text).map (·.lexeme) ++ []) := by
    rw [List.append_nil]
    exact ⟨hClean, hScanned, nofun⟩
  exact hNested.settled hStands

/-- With default options clean markup is serialised to markup that parsing and serialising give
back. -/
theorem render_parse_fixpoint (handle : Option OptionsRef) {text : String}
    (hClean : (parse Options.default.reading text).IsClean) :
    ∃ html,
      render Options.default ((parse Options.default.reading text).forest.toTree handle) =
          .ok html ∧
        render Options.default ((parse Options.default.reading html).forest.toTree handle) =
          .ok html := by
  obtain ⟨hItems, hApart⟩ := hClean.settled
  obtain ⟨html, hMarkup, hReads⟩ :=
    Item.Settled.reads_content (fun item hItem => (hItems item hItem).reads) hApart
  have hForest : (parse plainReading html).forest = _ := hReads.parseForest_eq
  have hAgain := Item.Settled.itemsMarkup_normalItems fun item hItem =>
    (hItems item hItem).markup_normal
  rw [← hForest] at hAgain
  exact ⟨html, hMarkup, hAgain.trans hMarkup⟩

/-- A name that begins with `=`, two attributes of one name, quotes in single quotes, a script that
closes itself, one with a `<` in it, and end tags in another case. -/
theorem render_parse_fixpoint_mixed :
    ∃ html,
      render Options.default ((parse Options.default.reading
        ("<!doctype html><A x='\"' =y X=1 x=2>1 > 0<br/><script/>" ++
          "<Script>if(a<b)</sCRIPT ><!-- c --></a >")).forest.toTree none) = .ok html ∧
        render Options.default ((parse Options.default.reading html).forest.toTree none) =
          .ok html := by
  have hLexemes : (parse Options.default.reading
      ("<!doctype html><A x='\"' =y X=1 x=2>1 > 0<br/><script/>" ++
        "<Script>if(a<b)</sCRIPT ><!-- c --></a >")).tokens.map (·.lexeme) =
      [.directive "<!doctype html>",
        .startTag "A" [("x", "\""), ("=y", ""), ("X", "1"), ("x", "2")] false, .text "1 > 0",
        .startTag "br" [] true, .startTag "script" [] true, .startTag "Script" [] false,
        .text "if(a<b)", .endTag "sCRIPT", .comment "<!-- c -->", .endTag "a"] := by
    decide +kernel
  refine render_parse_fixpoint none ⟨by decide +kernel, ?_⟩
  rw [hLexemes]
  constructor
  · intro before text after hEq hMem
    have hOpener : before = [.directive "<!doctype html>",
        .startTag "A" [("x", "\""), ("=y", ""), ("X", "1"), ("x", "2")] false, .text "1 > 0",
        .startTag "br" [] true, .startTag "script" [] true, .startTag "Script" [] false] := by
      simp only [List.cons_eq_append_iff, List.cons.injEq, reduceCtorEq, false_and, and_false,
        Lexeme.text.injEq, List.nil_eq, List.append_eq_nil_iff, exists_const, or_self, or_false,
        existsAndEq, true_and, false_or] at hEq
      obtain ⟨inner, rfl, ⟨-, rfl, -⟩ | ⟨rfl, -⟩⟩ := hEq
      · exact absurd hMem (by decide)
      · rfl
    rw [hOpener]
    exact ⟨_, rfl, "Script", [], .script, rfl, by decide⟩
  · intro text hMem
    obtain rfl : text = "<!-- c -->" := by simpa using hMem
    exact ⟨[' ', 'c', ' '], [], by decide⟩
  · intro name attributes selfClosing hMem c hChar
    have hBlank : name.toList.all (fun c => !isBlank c) = true := by
      simp only [List.mem_cons, Lexeme.startTag.injEq, reduceCtorEq, List.not_mem_nil, or_false,
        false_or] at hMem
      rcases hMem with ⟨rfl, -⟩ | ⟨rfl, -⟩ | ⟨rfl, -⟩ | ⟨rfl, -⟩ <;> decide
    have hNot := List.all_eq_true.mp hBlank c hChar
    rwa [Bool.not_eq_true'] at hNot

end Hypertext
