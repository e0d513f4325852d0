import Mathlib.Logic.Relation
import Hypertext.Pipeline.Processing
import Hypertext.Proofs.Tree.Fresh

/-! # The markup of what stands in a store

Rendering a tree where it stands goes down to a depth. A finite value that stands in a store has its
markup there, once the depth is no less than the number of cells; content that is inside itself has none
at any depth. Between the two, more depth changes only what came to the end of it.
-/

namespace Hypertext

set_option autoImplicit false

namespace Value

variable {style : RenderStyle} {html : String}

theorem itemsMarkup_eq (style : RenderStyle) (items : List Value) :
    itemsMarkup style items = joinMarkup (items.map (markup style)) := by
  induction items with
  | nil => rfl
  | cons item items ih => rw [itemsMarkup, ih, List.map_cons, joinMarkup]

theorem joinMarkup_eq_ok {outcomes : List (Outcome String)} (h : joinMarkup outcomes = .ok html)
    {outcome : Outcome String} (hMem : outcome ∈ outcomes) : ∃ inner, outcome = .ok inner := by
  induction outcomes generalizing html with
  | nil => cases hMem
  | cons first rest ih =>
    obtain ⟨inner, hFirst, hOthers⟩ := Outcome.bind_eq_ok.mp h
    obtain ⟨others, hRest, -⟩ := Outcome.bind_eq_ok.mp hOthers
    rcases List.mem_cons.mp hMem with rfl | hMem
    · exact ⟨inner, hFirst⟩
    · exact ih hRest hMem

theorem elementMarkup_eq_ok {tag attributes : Value} {content : Outcome String}
    (h : elementMarkup style tag attributes content = .ok html)
    (hTag : isFalse tag = false → style.isSingle (tagText tag) = false) :
    ∃ inner, content = .ok inner := by
  cases hFalse : isFalse tag with
  | true =>
    rw [elementMarkup, if_pos hFalse] at h
    exact ⟨html, h⟩
  | false =>
    simp only [elementMarkup, hFalse, hTag hFalse, Bool.false_eq_true, if_false] at h
    obtain ⟨_, -, hWritten⟩ := Outcome.bind_eq_ok.mp h
    obtain ⟨inner, hContent, -⟩ := Outcome.bind_eq_ok.mp hWritten
    exact ⟨inner, hContent⟩

end Value

/-! ## More depth -/

namespace Outcome

/-- The outcome with more depth: the same, unless it was for lack of depth. -/
def Deepens {α : Type} (outcome deeper : Outcome α) : Prop :=
  outcome = .error .exhausted ∨ deeper = outcome

namespace Deepens

variable {α β : Type} {outcome deeper : Outcome α} {next other : α → Outcome β}

theorem bind (h : outcome.Deepens deeper) (hNext : ∀ a, (next a).Deepens (other a)) :
    Deepens (outcome >>= next) (deeper >>= other) := by
  rcases h with rfl | rfl
  · exact .inl rfl
  · cases deeper with
    | error fault => exact .inr rfl
    | ok a => exact hNext a

theorem refl (outcome : Outcome α) : outcome.Deepens outcome := .inr rfl

theorem trans {deepest : Outcome α} (h : outcome.Deepens deeper) (hNext : deeper.Deepens deepest) :
    outcome.Deepens deepest := by
  rcases h with hOut | rfl
  · exact .inl hOut
  · exact hNext

end Deepens

end Outcome

namespace Value

theorem joinMarkup_deepens {α : Type} {items : List α} {markup deeper : α → Outcome String}
    (h : ∀ item ∈ items, (markup item).Deepens (deeper item)) :
    (joinMarkup (items.map markup)).Deepens (joinMarkup (items.map deeper)) := by
  induction items with
  | nil => exact .refl _
  | cons item items ih =>
    obtain ⟨hItem, hRest⟩ := List.forall_mem_cons.mp h
    exact hItem.bind fun _ => (ih hRest).bind fun _ => .refl _

theorem elementMarkup_deepens {content deeper : Outcome String} (h : content.Deepens deeper)
    (style : RenderStyle) (tag attributes : Value) :
    (elementMarkup style tag attributes content).Deepens
      (elementMarkup style tag attributes deeper) := by
  rw [elementMarkup, elementMarkup]
  split
  · exact h
  · refine Outcome.Deepens.bind (.refl _) fun attributes => ?_
    split
    · exact .refl _
    · exact h.bind fun _ => .refl _

end Value

namespace Store

variable {store : Store} {style : RenderStyle} {depth : Nat} {slot : Slot} {html : String}

theorem markup_succ (store : Store) (style : RenderStyle) (depth : Nat) (slot : Slot) :
    (store.markup style depth slot).Deepens (store.markup style (depth + 1) slot) := by
  induction depth generalizing slot with
  | zero =>
    cases slot with
    | atom a => exact .refl _
    | ref r => exact .inl rfl
  | succ depth ih =>
    cases slot with
    | atom a => exact .refl _
    | ref r =>
      rw [markup, markup]
      split
      · exact Value.joinMarkup_deepens fun item _ => ih item
      · exact Value.elementMarkup_deepens (ih _) style _ _
      · exact .refl _

theorem markup_deepens (store : Store) (style : RenderStyle) (slot : Slot) {more : Nat}
    (h : depth ≤ more) : (store.markup style depth slot).Deepens (store.markup style more slot) := by
  induction h with
  | refl => exact .refl _
  | step _ ih => exact ih.trans (store.markup_succ style _ slot)

end Store

/-! ## Finite values -/

namespace Located

variable {store : Store} {style : RenderStyle} {depth : Nat} {tree : Located} {parts : List Located}

/-- The part of a mapping under a key, or the leaf that stands for a missing one. -/
theorem exists_field {P : Located → Prop} (hNone : P (.atom .none)) (hParts : ∀ part ∈ parts, P part)
    (keys : List Value) (name : String) :
    ∃ part : Located, P part ∧ Store.fieldSlot (keys.zip (parts.map slot)) name = part.slot ∧
      Value.field (keys.zip (parts.map value)) name = part.value := by
  rw [Store.fieldSlot, Value.field, Entries.at?_zip_map, Entries.at?_zip_map]
  cases hAt : Entries.at? (keys.zip parts) name with
  | none => exact ⟨.atom .none, hNone, rfl, rfl⟩
  | some part =>
    rw [Entries.at?, Entries.get?, Option.map_eq_some_iff] at hAt
    obtain ⟨⟨key, part⟩, hFind, rfl⟩ := hAt
    exact ⟨part, hParts part (List.of_mem_zip (List.mem_of_find?_eq_some hFind)).2, rfl, rfl⟩

theorem In.surface_eq (h : tree.In store) : store.surface tree.slot = tree.value := by
  cases h with
  | atom a => rfl
  | @object r shape parts hCell hFits hParts =>
    have hSeen : (parts.map slot).map store.view = parts.map value := by
      rw [List.map_map]
      exact List.map_congr_left fun part hPart => (hParts part hPart).view_eq
    rw [value_object, ← hSeen, ← shape.value_map]
    simp only [slot, Store.surface, Store.cell?, hCell]
    cases shape <;> rfl

theorem In.markup_eq (h : tree.In store) (hWithin : tree.Within depth) (style : RenderStyle) :
    store.markup style depth tree.slot = tree.value.markup style := by
  induction hWithin with
  | atom depth a => rw [slot, value, Store.markup, Value.markup]
  | @object depth r shape parts hParts ih =>
    have hEach : ∀ part ∈ parts, store.markup style depth part.slot = part.value.markup style :=
      fun part hPart => ih part hPart (h.of_mem hPart)
    rw [value_object, slot, Store.markup, h.get?_eq]
    cases shape with
    | seq kind =>
      simp only [Shape.cell, Shape.value, Value.markup, Value.itemsMarkup_eq, List.map_map]
      exact congrArg Value.joinMarkup (List.map_congr_left hEach)
    | map kind keys =>
      have hHeld : ∀ part ∈ parts, part.In store := fun part hPart => h.of_mem hPart
      obtain ⟨tag, hTag, hTagSlot, hTagValue⟩ := exists_field (.atom .none) hHeld keys "tag"
      obtain ⟨attrs, hAttrs, hAttrsSlot, hAttrsValue⟩ := exists_field (.atom .none) hHeld keys "attrs"
      obtain ⟨content, hContent, hContentSlot, hContentValue⟩ :=
        exists_field (by rw [slot, value, Store.markup, Value.markup]) hEach keys "content"
      simp only [Shape.cell, Shape.value, Value.markup, Value.contentMarkup_eq, hTagSlot, hTagValue,
        hTag.view_eq, hAttrsSlot, hAttrsValue, hAttrs.surface_eq, hContentSlot, hContentValue, hContent]

end Located

namespace Store

variable {store : Store} {style : RenderStyle} {depth : Nat} {slot target : Slot} {html : String}

theorem Holds.markup_eq {value : Value} (h : store.Holds slot value)
    (hDepth : store.cells.size ≤ depth) (style : RenderStyle) :
    store.markup style depth slot = value.markup style := by
  obtain ⟨tree, hTree, rfl, rfl⟩ := h
  exact hTree.markup_eq (hTree.within hDepth) style

/-! ## Content that is inside itself -/

/-- What the markup of an object is made of: the items of a sequence, and the content of a mapping
that is not written as an element without content. -/
inductive Needs (store : Store) (style : RenderStyle) : Slot → Slot → Prop where
  | item {r : Ref} {kind : SeqKind} {items : List Slot} {slot : Slot}
    (hCell : store.get? r = some (.seq kind items)) (hMem : slot ∈ items) :
    Needs store style (.ref r) slot
  | content {r : Ref} {kind : MapKind} {entries : List (Value × Slot)}
    (hCell : store.get? r = some (.map kind entries))
    (hTag : Value.isFalse (store.view (fieldSlot entries "tag")) = false →
      style.isSingle (Value.tagText (store.view (fieldSlot entries "tag"))) = false) :
    Needs store style (.ref r) (fieldSlot entries "content")

theorem Needs.markup_eq_ok (h : store.Needs style slot target)
    (hMarkup : store.markup style depth slot = .ok html) :
    ∃ shallower inner, shallower < depth ∧ store.markup style shallower target = .ok inner := by
  cases depth with
  | zero => cases h <;> cases hMarkup
  | succ depth =>
    refine ⟨depth, ?_⟩
    cases h with
    | item hCell hMem =>
      rw [markup, hCell] at hMarkup
      obtain ⟨inner, hInner⟩ := Value.joinMarkup_eq_ok hMarkup (List.mem_map_of_mem hMem)
      exact ⟨inner, Nat.lt_succ_self depth, hInner⟩
    | content hCell hTag =>
      rw [markup, hCell] at hMarkup
      obtain ⟨inner, hInner⟩ := Value.elementMarkup_eq_ok hMarkup hTag
      exact ⟨inner, Nat.lt_succ_self depth, hInner⟩

theorem markup_eq_ok_of_needs (h : Relation.TransGen (store.Needs style) slot target)
    (hMarkup : store.markup style depth slot = .ok html) :
    ∃ shallower inner, shallower < depth ∧ store.markup style shallower target = .ok inner := by
  induction h with
  | single hNeeds => exact hNeeds.markup_eq_ok hMarkup
  | tail _ hNeeds ih =>
    obtain ⟨shallower, inner, hDepth, hInner⟩ := ih
    obtain ⟨last, innermost, hLast, hInnermost⟩ := hNeeds.markup_eq_ok hInner
    exact ⟨last, innermost, Nat.lt_trans hLast hDepth, hInnermost⟩

/-- What is inside itself has no markup, however deep rendering may go. -/
theorem markup_ne_ok_of_needs_self (h : Relation.TransGen (store.Needs style) slot slot) :
    store.markup style depth slot ≠ .ok html := by
  induction depth using Nat.strongRecOn generalizing html with
  | _ depth ih =>
    intro hMarkup
    obtain ⟨shallower, inner, hDepth, hInner⟩ := markup_eq_ok_of_needs h hMarkup
    exact ih shallower hDepth hInner

end Store

namespace Processing

variable {σ : Type} {world : World σ} {tree : Slot} {depth : Nat}

/-- Rendering a finite tree where it stands is rendering the value. -/
theorem renderTree_eq {value : Value} (h : world.store.Holds tree value)
    (hDepth : world.store.cells.size ≤ depth) (options : OptionsRef) (correlationId : Value) :
    (renderTree depth tree options correlationId world).1 =
      (render (world.store.getOptions options) value).map fun html => .atom (.str html) := by
  have hMarkup : (world.store.markup · depth tree) = value.markup :=
    funext fun style => h.markup_eq hDepth style
  rw [renderTree, hMarkup]
  cases hRender : renderWith (world.store.getOptions options) value.markup with
  | error fault => rw [render, hRender]; rfl
  | ok html => rw [render, hRender]; rfl

end Processing

end Hypertext
