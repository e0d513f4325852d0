import Hypertext.Proofs.Tree.Fresh
import Hypertext.Proofs.Tree.NodeParts
import Hypertext.Tree.Node

/-! # Changing a node

A new node keeps its attributes and its children in objects of its own, each only while there is something
to keep. Calls that change the node write nothing but these objects, so the node follows its parts, and
whatever was there before the node stays as it was.
-/

namespace Hypertext

set_option autoImplicit false

namespace Store

variable {store next last : Store} {r q : Ref} {since : Nat} {entries : List (Value × Slot)}
  {cell : Cell}

/-! ## Writing in a store -/

/-- Objects that were there before are left as they are. -/
def SparesBefore (since : Nat) (store next : Store) : Prop :=
  ∀ r : Ref, r.index < since → next.get? r = store.get? r

theorem SparesBefore.refl (since : Nat) (store : Store) : SparesBefore since store store :=
  fun _ _ => rfl

theorem SparesBefore.trans (h : SparesBefore since store next)
    (hNext : SparesBefore since next last) : SparesBefore since store last :=
  fun r hr => (hNext r hr).trans (h r hr)

theorem sparesBefore_put (hSince : since ≤ r.index) (cell : Cell) :
    SparesBefore since store (store.put r cell) := by
  intro other hOther
  refine store.get?_put_ne r other cell ?_
  rintro rfl
  omega

theorem sparesBefore_alloc (hSince : since ≤ store.cells.size) (cell : Cell) :
    SparesBefore since store (store.alloc cell).2 :=
  fun _ hr => get?_alloc_of_lt cell (Nat.lt_of_lt_of_le hr hSince)

theorem get?_put_of_apart {old : Cell} (hCell : store.get? q = some cell)
    (hOld : store.get? r = some old) (hApart : cell ≠ old) (written : Cell) :
    (store.put r written).get? q = some cell := by
  refine (store.get?_put_ne r q written ?_).trans hCell
  rintro rfl
  exact hApart (Option.some.inj (hCell.symm.trans hOld))

theorem cell?_ref (store : Store) (r : Ref) : store.cell? (.ref r) = store.get? r := rfl

theorem fieldAt?_eq {kind : MapKind} (hCell : store.get? r = some (.map kind entries))
    (key : String) : store.fieldAt? (.ref r) key = Entries.at? entries key := by
  rw [fieldAt?, cell?_ref, hCell]

theorem setField_eq {kind : MapKind} (hCell : store.get? r = some (.map kind entries))
    (key : Value) (value : Slot) :
    store.setField (.ref r) key value = store.put r (.map kind (Entries.set entries key value)) := by
  rw [setField, hCell]

theorem assignItem_eq {kind : MapKind} (hCell : store.get? r = some (.map kind entries)) {key : Value}
    (hKey : key.checkKey = .ok ()) (value : Slot) :
    store.assignItem (.ref r) key value =
      .ok (store.put r (.map kind (Entries.set entries key value))) := by
  simp only [assignItem, cell?_ref, hCell, assignField, hKey, setField_eq hCell]
  rfl

theorem eraseField_eq {kind : MapKind} (hCell : store.get? r = some (.map kind entries))
    (key : Value) :
    store.eraseField (.ref r) key = store.put r (.map kind (Entries.erase entries key)) := by
  rw [eraseField, hCell]

def addField (store : Store) (slot : Slot) (key : String) (cell : Cell) : Store :=
  (store.alloc cell).2.setField slot (.str key) (store.alloc cell).1

theorem appendTo_list {items : List Slot} (hCell : store.get? q = some (.seq .list items))
    (depth : Nat) (item : Slot) :
    store.appendTo (depth + 1) (.ref q) item = .ok (store.put q (.seq .list (items ++ [item]))) := by
  simp only [appendTo, cell?_ref, hCell]
  rfl

theorem appendTo_node (hCell : store.get? r = some (.map .node entries)) (depth : Nat)
    (item : Slot) :
    store.appendTo (depth + 1) (.ref r) item =
      match Entries.at? entries "content" with
      | some content => store.appendTo depth content item
      | none => .ok (store.addField (.ref r) "content" (.seq .list [item])) := by
  simp only [appendTo, cell?_ref, hCell]
  rfl

end Store

/-! ## Parts in objects of their own -/

def Cell.isEmpty : Cell → Bool
  | seq _ items => items.isEmpty
  | map _ entries => entries.isEmpty

theorem Store.truthy_of_cell? {store : Store} {slot : Slot} {cell : Cell}
    (hCell : store.cell? slot = some cell) : store.truthy slot = !cell.isEmpty := by
  cases slot with
  | atom a => cases hCell
  | ref r => cases cell <;> simp only [truthy, hCell, Cell.isEmpty]

theorem Store.truthy_ref {store : Store} {q : Ref} {cell : Cell} (hCell : store.get? q = some cell)
    (hSome : cell.isEmpty = false) : store.truthy (.ref q) = true := by
  rw [truthy_of_cell? ((store.cell?_ref q).trans hCell), hSome]
  rfl

inductive NodePart where
  | attributes
  | children
  deriving DecidableEq

def NodePart.key : NodePart → String
  | attributes => "attrs"
  | children => "content"

def NodeParts.cell (parts : NodeParts) : NodePart → Cell
  | .attributes => .map .dict parts.attributes
  | .children => .seq .list parts.children

def NodePart.IsNodeKey (key : Value) : Prop :=
  key = .str "tag" ∨ ∃ part : NodePart, key = .str part.key

theorem NodePart.key_inj {part other : NodePart} (h : Value.str part.key = .str other.key) :
    part = other := by
  cases part <;> cases other <;> simp [key] at h ⊢

theorem NodePart.key_ne_tag (part : NodePart) : Value.str part.key ≠ .str "tag" := by
  cases part <;> simp [key]

theorem NodeParts.cell_ne_node (parts : NodeParts) (part : NodePart)
    (entries : List (Value × Slot)) : parts.cell part ≠ .map .node entries := by
  cases part <;> exact nofun

theorem NodeParts.cell_ne (parts : NodeParts) {part other : NodePart} (h : part ≠ other) :
    parts.cell part ≠ parts.cell other := by
  cases part <;> cases other
  case attributes.attributes | children.children => exact absurd rfl h
  case attributes.children | children.attributes => exact nofun

theorem NodeParts.cell_attributes_ne (parts : NodeParts) (attributes : List (Value × Slot))
    {part : NodePart} (h : part ≠ .attributes) :
    NodeParts.cell { parts with attributes := attributes } part = parts.cell part := by
  cases part
  · exact absurd rfl h
  · rfl

theorem NodeParts.cell_children_ne (parts : NodeParts) (children : List Slot) {part : NodePart}
    (h : part ≠ .children) :
    NodeParts.cell { parts with children := children } part = parts.cell part := by
  cases part
  · rfl
  · exact absurd rfl h

namespace Store

variable {store next : Store} {r q : Ref} {since : Nat} {tag : Slot} {parts : NodeParts}
  {entries : List (Value × Slot)} {cell : Cell}

/-- A part of a node: the key is missing when the part is empty, and else holds an object that was not
there before. -/
inductive HasPart (store : Store) (since : Nat) (cell : Cell) : Option Slot → Prop where
  | missing (hEmpty : cell.isEmpty = true) : HasPart store since cell none
  | own {q : Ref} (hSome : cell.isEmpty = false) (hSince : since ≤ q.index)
    (hCell : store.get? q = some cell) : HasPart store since cell (some (.ref q))

theorem HasPart.mono {field : Option Slot} (h : store.HasPart since cell field)
    (hStill : ∀ q, field = some (.ref q) → store.get? q = some cell → next.get? q = some cell) :
    next.HasPart since cell field := by
  cases h with
  | missing hEmpty => exact .missing hEmpty
  | own hSome hSince hCell => exact .own hSome hSince (hStill _ rfl hCell)

/-- An object is a node with parts: it has a tag, and no other keys than those of parts that are not
empty. -/
structure NodeAt (store : Store) (since : Nat) (r : Ref) (tag : Slot) (parts : NodeParts)
    (entries : List (Value × Slot)) : Prop where
  cell : store.get? r = some (.map .node entries)
  since_le : since ≤ r.index
  keys : ∀ entry ∈ entries, NodePart.IsNodeKey entry.1
  distinct : Entries.Distinct entries
  tag : Entries.at? entries "tag" = some tag
  parts : ∀ part : NodePart, store.HasPart since (parts.cell part) (Entries.at? entries part.key)

/-- A slot holds a node with parts, in objects that were not there before. -/
def Represents (store : Store) (since : Nat) (node tag : Slot) (parts : NodeParts) : Prop :=
  ∃ r entries, node = .ref r ∧ store.NodeAt since r tag parts entries

namespace NodeAt

theorem since_le_size (h : store.NodeAt since r tag parts entries) : since ≤ store.cells.size :=
  Nat.le_trans h.since_le (Nat.le_of_lt (index_lt_of_get? h.cell))

theorem fill (h : store.NodeAt since r tag parts entries) (part : NodePart) (after : NodeParts)
    (hSome : (after.cell part).isEmpty = false)
    (hElse : ∀ other, other ≠ part → after.cell other = parts.cell other) :
    (store.addField (.ref r) part.key (after.cell part)).Represents since (.ref r) tag after ∧
      SparesBefore since store (store.addField (.ref r) part.key (after.cell part)) := by
  have hNode := store.get?_alloc_of_some (after.cell part) _ r h.cell
  have hFresh : r ≠ ⟨store.cells.size⟩ := by
    rintro rfl
    exact Nat.lt_irrefl _ (index_lt_of_get? h.cell)
  rw [addField, setField_eq hNode]
  constructor
  · refine ⟨r, _, rfl, get?_put_self _ r _ _ hNode, h.since_le, ?_, h.distinct.set _ _, ?_, ?_⟩
    · exact Entries.forall_key_set h.keys (.inr ⟨part, rfl⟩) _
    · rw [Entries.at?_set_ne entries part.key_ne_tag]
      exact h.tag
    · intro other
      by_cases hOther : other = part
      · subst hOther
        rw [Entries.at?_set_self]
        refine .own hSome h.since_le_size ?_
        exact (get?_put_ne _ r _ _ hFresh).trans (store.get?_alloc_self _)
      · rw [Entries.at?_set_ne entries fun hKey => hOther (NodePart.key_inj hKey).symm,
          hElse other hOther]
        refine (h.parts other).mono fun q _ hCell => ?_
        exact get?_put_of_apart (store.get?_alloc_of_some _ _ q hCell) hNode
          (parts.cell_ne_node other entries) _
  · exact (sparesBefore_alloc h.since_le_size _).trans (sparesBefore_put h.since_le _)

theorem rewrite (h : store.NodeAt since r tag parts entries) (part : NodePart) (after : NodeParts)
    (hField : Entries.at? entries part.key = some (.ref q)) (hSince : since ≤ q.index)
    (hCell : store.get? q = some (parts.cell part)) (hSome : (after.cell part).isEmpty = false)
    (hElse : ∀ other, other ≠ part → after.cell other = parts.cell other) :
    (store.put q (after.cell part)).Represents since (.ref r) tag after ∧
      SparesBefore since store (store.put q (after.cell part)) := by
  refine ⟨⟨r, entries, rfl, ?_, h.since_le, h.keys, h.distinct, h.tag, fun other => ?_⟩,
    sparesBefore_put hSince _⟩
  · exact get?_put_of_apart h.cell hCell (parts.cell_ne_node part entries).symm _
  · by_cases hOther : other = part
    · subst hOther
      rw [hField]
      exact .own hSome hSince (get?_put_self store q _ _ hCell)
    · rw [hElse other hOther]
      exact (h.parts other).mono fun p _ hPart =>
        get?_put_of_apart hPart hCell (parts.cell_ne hOther) _

theorem drop (h : store.NodeAt since r tag parts entries) (part : NodePart) (after : NodeParts)
    (hSince : since ≤ q.index) (hCell : store.get? q = some (parts.cell part))
    (hEmpty : (after.cell part).isEmpty = true)
    (hElse : ∀ other, other ≠ part → after.cell other = parts.cell other) :
    ((store.put q (after.cell part)).eraseField (.ref r) (.str part.key)).Represents since (.ref r)
        tag after ∧
      SparesBefore since store
        ((store.put q (after.cell part)).eraseField (.ref r) (.str part.key)) := by
  have hNode : (store.put q (after.cell part)).get? r = some (.map .node entries) :=
    get?_put_of_apart h.cell hCell (parts.cell_ne_node part entries).symm _
  rw [eraseField_eq hNode]
  refine ⟨⟨r, _, rfl, get?_put_self _ r _ _ hNode, h.since_le, ?_, h.distinct.erase _, ?_, ?_⟩,
    (sparesBefore_put hSince _).trans (sparesBefore_put h.since_le _)⟩
  · exact fun entry hEntry => h.keys entry (List.mem_of_mem_filter hEntry)
  · rw [Entries.at?_erase_ne entries fun hKey => part.key_ne_tag (congrArg Value.str hKey)]
    exact h.tag
  · intro other
    by_cases hOther : other = part
    · subst hOther
      rw [Entries.at?_erase_self]
      exact .missing hEmpty
    · rw [Entries.at?_erase_ne entries fun hKey =>
        hOther (NodePart.key_inj (congrArg Value.str hKey)).symm, hElse other hOther]
      refine (h.parts other).mono fun p _ hPart => ?_
      exact get?_put_of_apart (get?_put_of_apart hPart hCell (parts.cell_ne hOther) _) hNode
        (parts.cell_ne_node other entries) _

theorem part_cases (h : store.NodeAt since r tag parts entries) (part : NodePart) :
    ((parts.cell part).isEmpty = true ∧ Entries.at? entries part.key = none) ∨
      ((parts.cell part).isEmpty = false ∧ ∃ q, Entries.at? entries part.key = some (.ref q) ∧
        since ≤ q.index ∧ store.get? q = some (parts.cell part)) := by
  have hPart := h.parts part
  generalize Entries.at? entries part.key = field at hPart
  cases hPart with
  | missing hEmpty => exact .inl ⟨hEmpty, rfl⟩
  | @own q hSome hSince hCell => exact .inr ⟨hSome, q, rfl, hSince, hCell⟩

theorem attributes_cases (h : store.NodeAt since r tag parts entries) :
    (parts.attributes = [] ∧ Entries.at? entries "attrs" = none) ∨
      (parts.attributes.isEmpty = false ∧ ∃ q, Entries.at? entries "attrs" = some (.ref q) ∧
        since ≤ q.index ∧ store.get? q = some (.map .dict parts.attributes)) :=
  (h.part_cases .attributes).imp_left fun ⟨hEmpty, hField⟩ => ⟨List.isEmpty_iff.mp hEmpty, hField⟩

theorem children_cases (h : store.NodeAt since r tag parts entries) :
    (parts.children = [] ∧ Entries.at? entries "content" = none) ∨
      (parts.children.isEmpty = false ∧ ∃ q, Entries.at? entries "content" = some (.ref q) ∧
        since ≤ q.index ∧ store.get? q = some (.seq .list parts.children)) :=
  (h.part_cases .children).imp_left fun ⟨hEmpty, hField⟩ => ⟨List.isEmpty_iff.mp hEmpty, hField⟩

theorem setAttribute_eq (h : store.NodeAt since r tag parts entries) (name : String)
    (value : Slot) :
    ∃ next, store.setAttribute (.ref r) (.str name) value = .ok next ∧
      next.Represents since (.ref r) tag
        { parts with attributes := Entries.set parts.attributes (.str name) value } ∧
      SparesBefore since store next := by
  have hText : ¬(!Options.isText (.str name)) = true := nofun
  rw [Store.setAttribute, if_neg hText, fieldAt?_eq h.cell]
  rcases h.attributes_cases with ⟨hNone, hField⟩ | ⟨-, q, hField, hSince, hCell⟩
  · obtain ⟨hNode, hSpares⟩ := h.fill .attributes { parts with attributes := [(.str name, value)] }
      rfl fun _ hOther => parts.cell_attributes_ne _ hOther
    rw [hField, hNone]
    exact ⟨_, rfl, hNode, hSpares⟩
  · rw [hField]
    refine ⟨_, assignItem_eq hCell rfl value, ?_⟩
    exact h.rewrite .attributes
      { parts with attributes := Entries.set parts.attributes (.str name) value } hField hSince
      hCell (Entries.isEmpty_set _ _ _) fun _ hOther => parts.cell_attributes_ne _ hOther

theorem attributesOf?_cases (h : store.NodeAt since r tag parts entries) :
    (parts.attributes = [] ∧ store.attributesOf? (.ref r) = none) ∨
      (parts.attributes ≠ [] ∧ ∃ q, Entries.at? entries "attrs" = some (.ref q) ∧
        store.attributesOf? (.ref r) = some (.ref q) ∧ since ≤ q.index ∧
        store.get? q = some (.map .dict parts.attributes)) := by
  rw [attributesOf?, field, fieldAt?_eq h.cell]
  rcases h.attributes_cases with ⟨hNone, hField⟩ | ⟨hSome, q, hField, hSince, hCell⟩
  · rw [hField]
    exact .inl ⟨hNone, rfl⟩
  · rw [hField]
    refine .inr ⟨fun hNone => ?_, q, rfl, if_pos (truthy_ref hCell hSome), hSince, hCell⟩
    rw [hNone] at hSome
    cases hSome

theorem erase (h : store.NodeAt since r tag parts entries)
    (hField : Entries.at? entries "attrs" = some (.ref q)) (hSince : since ≤ q.index)
    (hCell : store.get? q = some (.map .dict parts.attributes)) {rest : Store} {name : Value}
    (hRest : rest = store.put q (.map .dict (Entries.erase parts.attributes name))) :
    (if (Entries.erase parts.attributes name).isEmpty then rest.eraseField (.ref r) (.str "attrs")
        else rest).Represents since (.ref r) tag
        { parts with attributes := Entries.erase parts.attributes name } ∧
      SparesBefore since store (if (Entries.erase parts.attributes name).isEmpty then
        rest.eraseField (.ref r) (.str "attrs") else rest) := by
  subst hRest
  let after : NodeParts := { parts with attributes := Entries.erase parts.attributes name }
  have hElse : ∀ other, other ≠ NodePart.attributes → after.cell other = parts.cell other :=
    fun _ hOther => parts.cell_attributes_ne _ hOther
  cases hEmpty : (Entries.erase parts.attributes name).isEmpty with
  | true => exact h.drop .attributes after hSince hCell hEmpty hElse
  | false => exact h.rewrite .attributes after hField hSince hCell hEmpty hElse

theorem removeAttribute_cases (h : store.NodeAt since r tag parts entries)
    (hNames : Entries.Distinct parts.attributes) (name : Value) :
    (store.removeAttribute (.ref r) name = .ok (false, store) ∧
        parts.Changes (.removeAttribute name) (.ok (.bool false)) parts) ∨
      (∃ fault, store.removeAttribute (.ref r) name = .error fault ∧
        parts.Changes (.removeAttribute name) (.error fault) parts) ∨
      ∃ next after, store.removeAttribute (.ref r) name = .ok (true, next) ∧
        parts.Changes (.removeAttribute name) (.ok (.bool true)) after ∧
        next.Represents since (.ref r) tag after ∧ SparesBefore since store next := by
  rcases h.attributesOf?_cases with ⟨hNone, hOf⟩ | ⟨hSome, q, hField, hOf, hSince, hCell⟩
  · left
    refine ⟨by rw [removeAttribute, hOf]; rfl, .absent (.inl hNone) ?_⟩
    rw [hNone]
    exact List.forall_mem_nil _
  · simp only [removeAttribute, hOf, cell?_ref, hCell]
    cases hName : name.checkKey with
    | error fault => exact .inr (.inl ⟨fault, rfl, .refuse hSome hName⟩)
    | ok _ =>
      cases hContains : Entries.contains parts.attributes name with
      | false =>
        left
        exact ⟨rfl, .absent (.inr hName) (Entries.contains_eq_false_iff.mp hContains)⟩
      | true =>
        right
        right
        obtain ⟨hNode, hSpares⟩ := h.erase hField hSince hCell (eraseField_eq hCell name)
        refine ⟨_, _, ?_, NodeParts.changes_removeAttribute hNames hName hContains, hNode, hSpares⟩
        cases hEmpty : (Entries.erase parts.attributes name).isEmpty <;> rfl

theorem append_eq (h : store.NodeAt since r tag parts entries) (child : Slot) :
    ∃ next, store.append (.ref r) child = .ok next ∧
      next.Represents since (.ref r) tag { parts with children := parts.children ++ [child] } ∧
      SparesBefore since store next := by
  have hSome : (parts.children ++ [child]).isEmpty = false := by simp
  rw [append, appendTo_node h.cell]
  rcases h.children_cases with ⟨hNone, hField⟩ | ⟨-, q, hField, hSince, hCell⟩
  · obtain ⟨hNode, hSpares⟩ := h.fill .children { parts with children := [child] } rfl
      fun _ hOther => parts.cell_children_ne _ hOther
    rw [hField, hNone]
    exact ⟨_, rfl, hNode, hSpares⟩
  · obtain ⟨depth, hDepth⟩ := Nat.exists_eq_add_of_lt (index_lt_of_get? h.cell)
    rw [hField, hDepth]
    refine ⟨_, appendTo_list hCell _ child, ?_⟩
    exact h.rewrite .children { parts with children := parts.children ++ [child] } hField hSince
      hCell hSome fun _ hOther => parts.cell_children_ne _ hOther

/-! ## Reading a node -/

theorem getAttribute_eq (h : store.NodeAt since r tag parts entries) (name : Value)
    (default : Slot) :
    store.getAttribute (.ref r) name default =
      name.checkKey.map fun _ => (Entries.get? parts.attributes name).getD default := by
  rcases h.attributesOf?_cases with ⟨hNone, hOf⟩ | ⟨-, q, -, hOf, -, hCell⟩
  · rw [getAttribute, hOf, hNone]
    cases name.checkKey <;> rfl
  · simp only [getAttribute, hOf, cell?_ref, hCell]
    cases name.checkKey <;> rfl

theorem nodeAttributes_eq (h : store.NodeAt since r tag parts entries) :
    store.nodeAttributes (.ref r) = .ok parts.attributes := by
  rcases h.attributesOf?_cases with ⟨hNone, hOf⟩ | ⟨-, q, -, hOf, -, hCell⟩
  · rw [nodeAttributes, hOf, hNone]
  · simp only [nodeAttributes, hOf, cell?_ref, hCell]

theorem nodeContent_eq (h : store.NodeAt since r tag parts entries) :
    store.nodeContent (.ref r) = (.ok parts.children, store) := by
  rw [nodeContent, field, fieldAt?_eq h.cell]
  rcases h.children_cases with ⟨hNone, hField⟩ | ⟨hSome, q, hField, -, hCell⟩
  · rw [hField, hNone]
    rfl
  · rw [hField]
    simp only [Option.getD_some, truthy_ref hCell hSome, members, cell?_ref, hCell, if_true]

end NodeAt

end Store

/-! ## Calls -/

/-- What a call answers, and the store that it leaves. A call that fails changes nothing. -/
def Mutation.perform (store : Store) (node : Slot) (mutation : Mutation) : Outcome Value × Store :=
  let outcome : Outcome (Value × Store) :=
    match mutation with
    | setAttribute name value => (store.setAttribute node (.str name) value).map (.none, ·)
    | removeAttribute name =>
      (store.removeAttribute node name).map fun done => (.bool done.1, done.2)
    | append child => (store.append node child).map (.none, ·)
  match outcome with
  | .ok (answer, next) => (.ok answer, next)
  | .error fault => (.error fault, store)

theorem Store.Represents.perform {store : Store} {since : Nat} {node tag : Slot}
    {parts : NodeParts} (h : store.Represents since node tag parts)
    (hNames : Entries.Distinct parts.attributes) (mutation : Mutation) :
    ∃ after, parts.Changes mutation (mutation.perform store node).1 after ∧
      (mutation.perform store node).2.Represents since node tag after ∧
      Store.SparesBefore since store (mutation.perform store node).2 := by
  obtain ⟨r, entries, rfl, h⟩ := h
  cases mutation with
  | setAttribute name value =>
    obtain ⟨next, hNext, hNode, hSpares⟩ := h.setAttribute_eq name value
    rw [Mutation.perform, hNext]
    exact ⟨_, NodeParts.changes_setAttribute hNames name value, hNode, hSpares⟩
  | removeAttribute name =>
    rcases h.removeAttribute_cases hNames name with
      ⟨hNext, hChanges⟩ | ⟨fault, hNext, hChanges⟩ | ⟨next, after, hNext, hChanges, hNode, hSpares⟩
    · rw [Mutation.perform, hNext]
      exact ⟨parts, hChanges, ⟨r, entries, rfl, h⟩, .refl since store⟩
    · rw [Mutation.perform, hNext]
      exact ⟨parts, hChanges, ⟨r, entries, rfl, h⟩, .refl since store⟩
    · rw [Mutation.perform, hNext]
      exact ⟨after, hChanges, hNode, hSpares⟩
  | append child =>
    obtain ⟨next, hNext, hNode, hSpares⟩ := h.append_eq child
    rw [Mutation.perform, hNext]
    exact ⟨_, .append child, hNode, hSpares⟩

end Hypertext
