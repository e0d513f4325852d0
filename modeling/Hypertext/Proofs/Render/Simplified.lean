import Hypertext.Proofs.Render.Faults
import Hypertext.Proofs.Render.RoundTrip
import Hypertext.Proofs.Value.Entries

/-! # Simplified trees

Markup depends on little of a tree. Nested sequences, truth values, missing values and elements
without a tag of their own can be taken out, numbers can be replaced by their texts and neighbouring
texts be joined, and so can be all that an element does not show. Nothing of this changes the markup,
nor what is refused.
-/

namespace Hypertext

set_option autoImplicit false

/-! ## Changed entries -/

namespace Entries

variable {β : Type} {entries : List (Value × β)} {key other : String}

def change (entries : List (Value × β)) (key : String) : Option β → List (Value × β)
  | some value => set entries (.str key) value
  | none => erase entries (.str key)

theorem at?_change_self (value : Option β) : at? (change entries key value) key = value := by
  cases value with
  | none => exact at?_erase_self entries key
  | some value => exact at?_set_self entries key value

theorem at?_change_ne (h : key ≠ other) (value : Option β) :
    at? (change entries key value) other = at? entries other := by
  cases value with
  | none => exact at?_erase_ne entries h
  | some value => exact at?_set_ne entries (fun hSame => h (Atom.str.inj (Value.atom.inj hSame))) value

end Entries

namespace Value

/-! ## What simplification does -/

/-- What a leaf is in a simplified tree: a number is its text. -/
def leafPieces : Atom → List Value
  | .none | .bool _ => []
  | .int n => [str (Atom.int n).text]
  | .float d => [str (Atom.float d).text]
  | other => [atom other]

def joinTexts : List Value → List Value
  | [] => []
  | str s :: rest =>
    match joinTexts rest with
    | str t :: more => str (s ++ t) :: more
    | others => str s :: others
  | item :: rest => item :: joinTexts rest

def isLeftOut : Value → Bool
  | none => true
  | value => isFalse value

/-- The attributes that are shown, if there are any. Those that are no mapping are left as they are. -/
def shownAttributes : Value → Option Value
  | map kind entries =>
    let shown := entries.filter fun entry => !isLeftOut entry.2
    if shown.isEmpty then Option.none else some (map kind shown)
  | other => if other.truthy then some other else Option.none

/-- The entries of an element with its name, its shown attributes and its simplified content. -/
def simpleEntries (style : RenderStyle) (naming : Value → Value) (entries : List (Value × Value))
    (content : List Value) : List (Value × Value) :=
  let tag := field entries "tag"
  let named := Entries.change entries "tag" (some (naming tag))
  let shown := Entries.change named "attrs" (shownAttributes (field entries "attrs"))
  Entries.change shown "content"
    (if style.isSingle (tagText tag) then Option.none
    else (Entries.at? entries "content").map fun _ => list content)

mutual

def pieces (style : RenderStyle) (naming : Value → Value) : Value → List Value
  | atom a => leafPieces a
  | seq _ items => itemsPieces style naming items
  | map kind entries =>
    let content := contentPieces style naming entries
    if isFalse (field entries "tag") then content
    else [map kind (simpleEntries style naming entries (joinTexts content))]

def itemsPieces (style : RenderStyle) (naming : Value → Value) : List Value → List Value
  | [] => []
  | item :: rest => pieces style naming item ++ itemsPieces style naming rest

def contentPieces (style : RenderStyle) (naming : Value → Value) :
    List (Value × Value) → List Value
  | [] => []
  | (key, value) :: rest =>
    if key.same (str "content") then pieces style naming value
    else contentPieces style naming rest

end

def simplify (style : RenderStyle) (naming : Value → Value) (tree : Value) : List Value :=
  joinTexts (pieces style naming tree)

/-- The text of a tag, which is `div` for all tags that are not true. -/
def named (tag : Value) : Value := str (tagText tag)

/-- A true tag can have an empty text. It is left as it is: an empty text is no true tag. -/
def namedUnlessEmpty (tag : Value) : Value := if tagText tag = "" then tag else named tag

/-! ## What is kept -/

/-- The values at the positions of a tree that simplification keeps, and those around them. The
content of an element that is not shown with one is not kept. -/
inductive Kept (style : RenderStyle) : Value → Value → Prop
  | self (value : Value) : Kept style value value
  | item {kind : SeqKind} {items : List Value} {item value : Value} (hMem : item ∈ items)
    (h : Kept style item value) : Kept style (seq kind items) value
  | content {kind : MapKind} {entries : List (Value × Value)} {value : Value}
    (hShown : isFalse (field entries "tag") = true ∨
      style.isSingle (tagText (field entries "tag")) = false)
    (h : Kept style (field entries "content") value) : Kept style (map kind entries) value

/-- A leaf without markup, or an element with true attributes that are no mapping. -/
def Refused : Value → Prop
  | none | bool _ | int _ | atom (.float _) | str _ => False
  | atom _ => True
  | seq _ _ => False
  | map _ entries => isFalse (field entries "tag") = false ∧
    (field entries "attrs").truthy = true ∧
    ∀ kind others, field entries "attrs" ≠ map kind others

/-! ## Markup piece by piece -/

theorem itemsMarkup_append (style : RenderStyle) (first second : List Value) :
    itemsMarkup style (first ++ second) = do
      let before ← itemsMarkup style first
      let behind ← itemsMarkup style second
      return before ++ behind := by
  induction first with
  | nil =>
    simp only [List.nil_append, itemsMarkup]
    cases itemsMarkup style second <;> simp [bind, Except.bind, pure, Except.pure]
  | cons item first ih =>
    rw [List.cons_append, itemsMarkup, ih, itemsMarkup]
    simp only [bind_assoc, pure_bind, String.append_assoc]

theorem itemsMarkup_joinTexts (style : RenderStyle) (items : List Value) :
    itemsMarkup style (joinTexts items) = itemsMarkup style items := by
  fun_induction joinTexts items with
  | case1 => rfl
  | case2 s rest t more hJoined ih =>
    rw [hJoined] at ih
    rw [itemsMarkup, itemsMarkup, ← ih, itemsMarkup]
    simp only [markup, leafMarkup]
    cases itemsMarkup style more <;> simp [bind, Except.bind, pure, Except.pure, String.append_assoc]
  | case3 s rest _ ih => rw [itemsMarkup, ih, itemsMarkup]
  | case4 item rest _ ih => rw [itemsMarkup, ih, itemsMarkup]

theorem markup_atom (style : RenderStyle) (a : Atom) : markup style (atom a) = leafMarkup a := by
  rw [markup]

theorem markup_list (style : RenderStyle) (items : List Value) :
    markup style (list items) = itemsMarkup style items := by
  rw [markup]

theorem itemsMarkup_singleton (style : RenderStyle) (item : Value) :
    itemsMarkup style [item] = markup style item := by
  rw [itemsMarkup, itemsMarkup]
  cases markup style item <;> simp [bind, Except.bind, pure, Except.pure]

theorem itemsMarkup_leafPieces (style : RenderStyle) (a : Atom) :
    itemsMarkup style (leafPieces a) = leafMarkup a := by
  cases a with
  | none | bool _ => rfl
  | int _ | float _ | str _ | bytes _ | object _ | pattern _ | callable _ | failure _
  | readable _ _ | path _ | again _ => exact (itemsMarkup_singleton style _).trans (markup_atom style _)

/-! ## Attributes -/

theorem attributeMarkup_of_isLeftOut (quoteAll : Bool) (name : Value) {value : Value}
    (h : isLeftOut value = true) : attributeMarkup quoteAll name value = "" := by
  unfold isLeftOut isFalse at h
  split at h
  · rfl
  · split at h
    · rfl
    · cases h

theorem attributeChars_filter (quoteAll : Bool) (entries : List (Value × Value)) :
    attributeChars quoteAll (entries.filter fun entry => !isLeftOut entry.2) =
      attributeChars quoteAll entries := by
  induction entries with
  | nil => rfl
  | cons entry entries ih =>
    rw [attributeChars] at ih ⊢
    cases hOut : isLeftOut entry.2 with
    | true =>
      rw [List.filter_cons_of_neg (by simp [hOut]), ih, attributeChars, attributeChars,
        List.flatMap_cons, attributeMarkup_of_isLeftOut quoteAll entry.1 hOut]
      rfl
    | false =>
      rw [List.filter_cons_of_pos (by simp [hOut]), List.flatMap_cons, ih, attributeChars,
        attributeChars, List.flatMap_cons]

theorem attributesMarkup_false (quoteAll : Bool) {attributes : Value}
    (h : ¬ attributes.truthy = true) : attributesMarkup quoteAll attributes = .ok "" := by
  cases attributes <;> exact if_neg h

theorem attributesMarkup_shown (quoteAll : Bool) (attributes : Value) :
    attributesMarkup quoteAll ((shownAttributes attributes).getD none) =
      attributesMarkup quoteAll attributes := by
  unfold shownAttributes
  split
  · rename_i kind entries
    have hChars := attributeChars_filter quoteAll entries
    dsimp only
    split
    · rename_i hNone
      rw [attributesMarkup_map, ← hChars, List.isEmpty_iff.mp hNone]
      rfl
    · rw [Option.getD_some, attributesMarkup_map, hChars, attributesMarkup_map]
  · split
    · rfl
    · rename_i hFalse
      rw [attributesMarkup_false quoteAll hFalse]
      rfl

/-! ## Simplified trees have the same markup -/

/-- What simplification needs to know of new tags: they have the same text and are not `false`. -/
def KeepsTags (naming : Value → Value) : Prop :=
  ∀ tag, isFalse tag = false → isFalse (naming tag) = false ∧ tagText (naming tag) = tagText tag

variable {style : RenderStyle} {naming : Value → Value}

theorem field_simpleEntries (style : RenderStyle) (naming : Value → Value)
    (entries : List (Value × Value)) (content : List Value) :
    field (simpleEntries style naming entries content) "tag" = naming (field entries "tag") ∧
      field (simpleEntries style naming entries content) "attrs" =
        (shownAttributes (field entries "attrs")).getD none ∧
      Entries.at? (simpleEntries style naming entries content) "content" =
        if style.isSingle (tagText (field entries "tag")) then Option.none
        else (Entries.at? entries "content").map fun _ => list content := by
  refine ⟨?_, ?_, ?_⟩
  · rw [simpleEntries, field, Entries.at?_change_ne (by decide), Entries.at?_change_ne (by decide),
      Entries.at?_change_self]
    rfl
  · rw [simpleEntries, field, Entries.at?_change_ne (by decide), Entries.at?_change_self]
  · rw [simpleEntries, Entries.at?_change_self]

theorem markup_simpleEntries (hNaming : KeepsTags naming) (kind : MapKind)
    {entries : List (Value × Value)} (hTag : isFalse (field entries "tag") = false)
    {content : List Value} (hContent : itemsMarkup style content = contentMarkup style entries) :
    markup style (map kind (simpleEntries style naming entries content)) =
      markup style (map kind entries) := by
  obtain ⟨hName, hAttributes, hAt⟩ := field_simpleEntries style naming entries content
  obtain ⟨hNotFalse, hText⟩ := hNaming _ hTag
  rw [markup, markup, elementMarkup, elementMarkup]
  simp only [hName, hNotFalse, hTag, hText, hAttributes, attributesMarkup_shown]
  cases hSingle : style.isSingle (tagText (field entries "tag")) with
  | true => rfl
  | false =>
    rw [hSingle, if_neg Bool.false_ne_true] at hAt
    -- A content that was not there is not put in, so there are two cases.
    have hSame : contentMarkup style (simpleEntries style naming entries content) =
        contentMarkup style entries := by
      rw [contentMarkup_eq style (simpleEntries style naming entries content), field, hAt]
      cases hGiven : Entries.at? entries "content" with
      | none =>
        rw [contentMarkup_eq, field, hGiven]
        rfl
      | some value => exact (markup_list style content).trans hContent
    rw [hSame]

-- Along a value, its items and its entries: pieces of a content are those of the first entry that
-- holds one, as markup is.
mutual

theorem itemsMarkup_pieces (hNaming : KeepsTags naming) : ∀ value : Value,
    itemsMarkup style (pieces style naming value) = markup style value
  | atom a => by
    rw [pieces, itemsMarkup_leafPieces, markup]
  | seq _ items => by
    rw [pieces, itemsMarkup_itemsPieces hNaming, markup]
  | map kind entries => by
    have hContent := itemsMarkup_contentPieces hNaming entries
    rw [pieces]
    split
    · rename_i hTag
      rw [hContent, markup, elementMarkup, if_pos hTag]
    · rename_i hTag
      rw [itemsMarkup_singleton,
        markup_simpleEntries hNaming kind (Bool.eq_false_iff.mpr hTag)
          ((itemsMarkup_joinTexts style _).trans hContent)]

theorem itemsMarkup_itemsPieces (hNaming : KeepsTags naming) : ∀ items : List Value,
    itemsMarkup style (itemsPieces style naming items) = itemsMarkup style items
  | [] => rfl
  | item :: rest => by
    rw [itemsPieces, itemsMarkup_append, itemsMarkup_pieces hNaming item,
      itemsMarkup_itemsPieces hNaming rest, itemsMarkup]

theorem itemsMarkup_contentPieces (hNaming : KeepsTags naming) :
    ∀ entries : List (Value × Value),
      itemsMarkup style (contentPieces style naming entries) = contentMarkup style entries
  | [] => rfl
  | (key, value) :: rest => by
    rw [contentPieces, contentMarkup]
    split
    · exact itemsMarkup_pieces hNaming value
    · exact itemsMarkup_contentPieces hNaming rest

end

/-! ## What is refused -/

def Accepted (style : RenderStyle) (value : Value) : Prop :=
  ∀ part, Kept style value part → ¬ part.Refused

theorem accepted_atom {a : Atom} : Accepted style (atom a) ↔ ¬ (atom a).Refused := by
  refine ⟨fun h => h _ (.self _), fun h part hKept => ?_⟩
  cases hKept
  exact h

theorem accepted_seq {kind : SeqKind} {items : List Value} :
    Accepted style (seq kind items) ↔ ∀ item ∈ items, Accepted style item := by
  refine ⟨fun h item hItem part hKept => h part (.item hItem hKept), fun h part hKept => ?_⟩
  cases hKept with
  | self => exact id
  | item hMem hPart => exact h _ hMem part hPart

theorem accepted_map {kind : MapKind} {entries : List (Value × Value)} :
    Accepted style (map kind entries) ↔ ¬ (map kind entries).Refused ∧
      (isFalse (field entries "tag") = true ∨
        style.isSingle (tagText (field entries "tag")) = false →
          Accepted style (field entries "content")) := by
  refine ⟨fun h => ⟨h _ (.self _), fun hShown part hKept => h part (.content hShown hKept)⟩,
    fun ⟨hHere, hContent⟩ part hKept => ?_⟩
  cases hKept with
  | self => exact hHere
  | content hShown hPart => exact hContent hShown part hPart

theorem exists_ok_both {first second : Outcome String} {combine : String → String → String} :
    (∃ html, (do let a ← first; let b ← second; return combine a b) = Except.ok html) ↔
      (∃ html, first = .ok html) ∧ ∃ html, second = .ok html := by
  cases first <;> cases second <;> simp [bind, Except.bind, pure, Except.pure]

theorem exists_ok_map {first : Outcome String} {wrap : String → String} :
    (∃ html, (do let a ← first; return wrap a) = Except.ok html) ↔ ∃ html, first = .ok html := by
  cases first <;> simp [bind, Except.bind, pure, Except.pure]

theorem exists_leafMarkup_iff (a : Atom) :
    (∃ html, leafMarkup a = .ok html) ↔ ¬ (atom a).Refused := by
  cases a <;> simp [leafMarkup, Refused]

theorem exists_attributesMarkup_iff (quoteAll : Bool) (attributes : Value) :
    (∃ html, attributesMarkup quoteAll attributes = .ok html) ↔
      ¬ (attributes.truthy = true ∧ ∀ kind entries, attributes ≠ map kind entries) := by
  cases attributes with
  | map kind entries =>
    rw [attributesMarkup_map]
    exact iff_of_true ⟨_, rfl⟩ fun h => h.2 kind entries rfl
  | atom a =>
    cases hTrue : (atom a).truthy with
    | true => simp [attributesMarkup, hTrue]
    | false => simp [attributesMarkup_false, hTrue]
  | seq kind items =>
    cases hTrue : (seq kind items).truthy with
    | true => simp [attributesMarkup, hTrue]
    | false => simp [attributesMarkup_false, hTrue]

mutual

theorem exists_markup_iff (style : RenderStyle) : ∀ value : Value,
    (∃ html, markup style value = .ok html) ↔ Accepted style value
  | atom a => by
    rw [markup_atom, accepted_atom, exists_leafMarkup_iff]
  | seq _ items => by
    rw [markup, accepted_seq]
    exact exists_itemsMarkup_iff style items
  | map kind entries => by
    have hContent := exists_contentMarkup_iff style entries
    have hAttributes := exists_attributesMarkup_iff style.quoteAll (field entries "attrs")
    rw [markup, elementMarkup, accepted_map]
    dsimp only [Refused]
    cases hTag : isFalse (field entries "tag") with
    | true => simp [hContent]
    | false =>
      cases hSingle : style.isSingle (tagText (field entries "tag")) with
      | true =>
        simp only [Bool.false_eq_true, if_false, if_true, exists_ok_map, hAttributes, true_and,
          reduceCtorEq, or_self, false_imp_iff, and_true]
      | false =>
        simp only [Bool.false_eq_true, if_false, exists_ok_both, hAttributes, hContent, true_and,
          or_true, true_imp_iff]

theorem exists_itemsMarkup_iff (style : RenderStyle) : ∀ items : List Value,
    (∃ html, itemsMarkup style items = .ok html) ↔ ∀ item ∈ items, Accepted style item
  | [] => by
    rw [itemsMarkup]
    exact iff_of_true ⟨_, rfl⟩ (List.forall_mem_nil _)
  | item :: rest => by
    rw [itemsMarkup, exists_ok_both, List.forall_mem_cons, exists_markup_iff style item,
      exists_itemsMarkup_iff style rest]

theorem exists_contentMarkup_iff (style : RenderStyle) : ∀ entries : List (Value × Value),
    (∃ html, contentMarkup style entries = .ok html) ↔ Accepted style (field entries "content")
  | [] => by
    rw [contentMarkup]
    exact iff_of_true ⟨_, rfl⟩ (accepted_atom.mpr id)
  | (key, value) :: rest => by
    rw [contentMarkup, field, Entries.at?, Entries.get?, List.find?_cons]
    split
    · rename_i hKey
      rw [hKey]
      exact exists_markup_iff style value
    · rename_i hKey
      rw [Bool.eq_false_iff.mpr hKey]
      exact exists_contentMarkup_iff style rest

end

theorem keepsTags_namedUnlessEmpty : KeepsTags namedUnlessEmpty := by
  intro tag hTag
  rw [namedUnlessEmpty]
  split
  · exact ⟨hTag, rfl⟩
  · rename_i hText
    exact ⟨rfl, if_pos (decide_eq_true hText)⟩

end Value

open Value

/-- With valid options rendering succeeds exactly for the trees of which nothing that is kept is refused,
and otherwise ends with a fault of rendering. A tree and its simplified tree are rendered alike, and
lists behind each other as their markup behind each other. -/
theorem render_simplified {options : Options} (hValid : options.validate = .ok ()) :
    (∀ tree : Value,
      ((∃ html, render options tree = .ok html) ↔
        ∀ value, Kept options.renderStyle tree value → ¬ value.Refused) ∧
      ((∃ html, render options tree = .ok html) ∨
        ∃ cause : RenderFault, render options tree = .error (.render cause)) ∧
      render options tree =
        render options (.list (simplify options.renderStyle namedUnlessEmpty tree))) ∧
    ∀ first second : List Value,
      render options (.list (first ++ second)) = do
        let before ← render options (.list first)
        let behind ← render options (.list second)
        return before ++ behind := by
  have hRender (tree : Value) : render options tree = tree.markup options.renderStyle := by
    rw [render, renderWith, hValid]
  refine ⟨fun tree => ⟨?_, ?_, ?_⟩, fun first second => ?_⟩
  · rw [hRender]
    exact exists_markup_iff options.renderStyle tree
  · rw [hRender]
    exact renders_markup options.renderStyle tree
  · rw [hRender, hRender, markup_list, simplify, itemsMarkup_joinTexts,
      itemsMarkup_pieces keepsTags_namedUnlessEmpty]
  · rw [hRender, hRender, hRender, markup_list, markup_list, markup_list, itemsMarkup_append]

/-- A tree with something of everything that is taken out or replaced. -/
theorem render_simplified_mixed :
    let options := Options.default.set .singleTags (.list [.str "Leaf"])
    let tree : Value := .list [.str "a", .int 1, .seq .tuple [.none, .bool true,
      .dict [(.str "tag", .bool false), (.str "content", .str "b")]],
      .dict [(.str "tag", .int 0), (.str "attrs", .dict [(.str "x", .none)]),
        (.str "content", .str "c")],
      .dict [(.str "tag", .str "LEAF"), (.str "content", .atom (.bytes []))]]
    options.validate = .ok () ∧
      render options tree = render options (.list [.str "a1b",
        .dict [(.str "tag", .str "div"), (.str "content", .list [.str "c"])],
        .dict [(.str "tag", .str "LEAF")]]) ∧
      render options tree = .ok "a1b<div>c</div><LEAF>" := by
  intro options tree
  have hValid : options.validate = .ok () := rfl
  refine ⟨hValid, ((render_simplified hValid).1 tree).2.2, rfl⟩

/-- The name of an element cannot be replaced by its text when that is empty. -/
theorem render_simplified_nameless :
    let tree : Value := .list [.dict [(.str "tag", .atom (.failure (.plain "ValueError" "")))]]
    render .default tree = .ok "<></>" ∧
      render .default (.list (simplify Options.default.renderStyle named tree)) =
        .ok "<div></div>" :=
  ⟨rfl, rfl⟩

end Hypertext
