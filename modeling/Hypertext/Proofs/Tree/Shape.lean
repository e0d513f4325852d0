import Mathlib.Data.List.Permutation
import Hypertext.Proofs.Tree.Mutation

/-! # The shape of a node

A node that was made of attributes and content, and was changed by calls since, is still of the shape of a
parsed one. It refines an ordered map together with a list, whatever becomes of other objects between the
calls, and no call touches what it was made of.
-/

namespace Hypertext

set_option autoImplicit false

namespace Store

variable {store next : Store} {slot tag node : Slot} {entries : List (Value × Slot)}
  {items : List Slot} {since : Nat} {parts : NodeParts}

/-! ## A new node -/

/-- The attributes that a node is made of: a mapping, or nothing. -/
inductive GivesAttributes (store : Store) : Slot → List (Value × Slot) → Prop where
  | nothing {a : Atom} (h : a.truthy = false) : GivesAttributes store (.atom a) []
  | mapping {slot : Slot} {kind : MapKind} {entries : List (Value × Slot)}
    (h : store.cell? slot = some (.map kind entries)) : GivesAttributes store slot entries

/-- The content that a node is made of: a sequence, or nothing. Texts and bytes are sequences too. -/
inductive GivesContent (store : Store) : Slot → List Slot → Prop where
  | nothing {a : Atom} (h : a.truthy = false) : GivesContent store (.atom a) []
  | sequence {slot : Slot} {kind : SeqKind} {items : List Slot}
    (h : store.cell? slot = some (.seq kind items)) : GivesContent store slot items
  | text (s : String) :
    GivesContent store (.atom (.str s)) (s.toList.map fun c => .atom (.str (String.singleton c)))
  | bytes (data : Bytes) :
    GivesContent store (.atom (.bytes data)) (data.map fun byte => .atom (.int byte.toNat))

theorem Keeps.cell?_eq {cell : Cell} (h : store.Keeps next) (hCell : store.cell? slot = some cell) :
    next.cell? slot = some cell := by
  cases slot with
  | atom a => cases hCell
  | ref r => exact h.cells r cell hCell

theorem GivesContent.keep (h : store.GivesContent slot items) (hKeeps : store.Keeps next) :
    next.GivesContent slot items := by
  cases h with
  | nothing hFalse => exact .nothing hFalse
  | sequence hCell => exact .sequence (hKeeps.cell?_eq hCell)
  | text s => exact .text s
  | bytes data => exact .bytes data

theorem newItems_atoms (store : Store) (atoms : List Atom) :
    store.newItems (atoms.map .atom) = (atoms.map .atom, store) := by
  induction atoms with
  | nil => rfl
  | cons a atoms ih => simp only [List.map_cons, newItems, new, ih]

theorem members_of_gives (h : store.GivesContent slot items) (hSome : items.isEmpty = false) :
    store.members slot = (.ok items, store) := by
  cases h with
  | nothing => cases hSome
  | sequence hCell => simp only [members, hCell]
  | text s =>
    have hItems := store.newItems_atoms (s.toList.map fun c => .str (String.singleton c))
    rw [List.map_map, List.map_map] at hItems
    exact congrArg (fun made : List Slot × Store => (Except.ok made.1, made.2)) hItems
  | bytes data =>
    have hItems := store.newItems_atoms (data.map fun byte => .int byte.toNat)
    rw [List.map_map, List.map_map] at hItems
    exact congrArg (fun made : List Slot × Store => (Except.ok made.1, made.2)) hItems

theorem truthy_of_gives (h : store.GivesContent slot items) :
    store.truthy slot = !items.isEmpty := by
  cases h with
  | nothing hFalse => exact hFalse
  | sequence hCell => exact truthy_of_cell? hCell
  | text s =>
    rw [List.isEmpty_map, Bool.eq_iff_iff]
    simp [truthy, Atom.truthy]
  | bytes data => rw [List.isEmpty_map]; rfl

def addPart (store : Store) (cell : Cell) : Option Slot × Store :=
  if cell.isEmpty then (none, store) else (some (store.alloc cell).1, (store.alloc cell).2)

def partEntry (part : NodePart) (slot : Option Slot) : List (Value × Slot) :=
  slot.toList.map fun slot => (.str part.key, slot)

theorem copiedEntry_eq {copy : Store → Slot → Outcome Slot × Store} (part : NodePart)
    {cell : Cell} (hTruthy : store.truthy slot = !cell.isEmpty)
    (hCopy : cell.isEmpty = false →
      copy store slot = (.ok (store.alloc cell).1, (store.alloc cell).2)) :
    store.copiedEntry part.key slot copy =
      (.ok (partEntry part (store.addPart cell).1), (store.addPart cell).2) := by
  rw [copiedEntry, addPart, hTruthy]
  cases hEmpty : cell.isEmpty with
  | true => rfl
  | false =>
    rw [hCopy hEmpty]
    rfl

theorem copiedEntry_attributes (h : store.GivesAttributes slot entries) :
    store.copiedEntry "attrs" slot copyMapping =
      (.ok (partEntry .attributes (store.addPart (.map .dict entries)).1),
        (store.addPart (.map .dict entries)).2) := by
  apply copiedEntry_eq .attributes
  · cases h with
    | nothing hFalse => exact hFalse
    | mapping hCell => exact (truthy_of_cell? hCell).trans rfl
  · intro hSome
    cases h with
    | nothing => cases hSome
    | mapping hCell => simp only [copyMapping, hCell]

theorem copiedEntry_content (h : store.GivesContent slot items) :
    store.copiedEntry "content" slot copyMembers =
      (.ok (partEntry .children (store.addPart (.seq .list items)).1),
        (store.addPart (.seq .list items)).2) := by
  apply copiedEntry_eq .children (truthy_of_gives h)
  intro hSome
  rw [copyMembers, members_of_gives h hSome]

theorem addPart_keeps (store : Store) (cell : Cell) : store.Keeps (store.addPart cell).2 := by
  rw [addPart]
  split
  · exact .refl store
  · exact keeps_alloc store cell

theorem size_le_addPart (store : Store) (cell : Cell) :
    store.cells.size ≤ (store.addPart cell).2.cells.size := by
  rw [addPart]
  split
  · exact Nat.le_refl _
  · simp [alloc]

theorem addPart_hasPart (hSince : since ≤ store.cells.size) (cell : Cell) :
    (store.addPart cell).2.HasPart since cell (store.addPart cell).1 := by
  rw [addPart]
  split
  · rename_i hEmpty
    exact .missing hEmpty
  · rename_i hSome
    exact .own (Bool.eq_false_iff.mpr hSome) hSince (store.get?_alloc_self cell)

theorem HasPart.keep {cell : Cell} {field : Option Slot} (h : store.HasPart since cell field)
    (hKeeps : store.Keeps next) : next.HasPart since cell field :=
  h.mono fun q _ hCell => hKeeps.cells q cell hCell

def nodeEntries (tag : Slot) (attributes children : Option Slot) : List (Value × Slot) :=
  (.str "tag", tag) :: (partEntry .attributes attributes ++ partEntry .children children)

theorem keys_nodeEntries (tag : Slot) (attributes children : Option Slot) :
    ∀ entry ∈ nodeEntries tag attributes children, NodePart.IsNodeKey entry.1 := by
  cases attributes <;> cases children <;> simp [nodeEntries, partEntry, NodePart.IsNodeKey]

theorem distinct_nodeEntries (tag : Slot) (attributes children : Option Slot) :
    Entries.Distinct (nodeEntries tag attributes children) := by
  cases attributes <;> cases children <;>
    simp [nodeEntries, partEntry, Entries.Distinct, Value.str_same_str, NodePart.key]

theorem at?_nodeEntries (tag : Slot) (attributes children : Option Slot) :
    Entries.at? (nodeEntries tag attributes children) "tag" = some tag ∧
      Entries.at? (nodeEntries tag attributes children) "attrs" = attributes ∧
      Entries.at? (nodeEntries tag attributes children) "content" = children := by
  cases attributes <;> cases children <;> exact ⟨rfl, rfl, rfl⟩

theorem newElement_represents {attributes content : Slot} (tag : Slot)
    (hAttributes : store.GivesAttributes attributes entries)
    (hContent : store.GivesContent content items) :
    ∃ node made, store.newElement tag attributes content = (.ok node, made) ∧
      made.Represents store.cells.size node tag ⟨entries, items⟩ ∧ store.Keeps made := by
  have hFirst := store.addPart_keeps (.map .dict entries)
  have hSize := store.size_le_addPart (.map .dict entries)
  have hOwn := addPart_hasPart (Nat.le_refl store.cells.size) (.map .dict entries)
  rw [newElement, copiedEntry_attributes hAttributes]
  simp only [copiedEntry_content (hContent.keep hFirst)]
  -- What is made of the content, and then the node, is laid in the store that the attributes left.
  generalize store.addPart (.map .dict entries) = filled at *
  have hSecond := filled.2.addPart_keeps (.seq .list items)
  have hMore := filled.2.size_le_addPart (.seq .list items)
  have hOther := addPart_hasPart hSize (.seq .list items)
  generalize filled.2.addPart (.seq .list items) = whole at *
  have hLast := whole.2.keeps_alloc (.map .node (nodeEntries tag filled.1 whole.1))
  obtain ⟨hTag, hAttrs, hContents⟩ := at?_nodeEntries tag filled.1 whole.1
  refine ⟨_, _, rfl, ⟨⟨whole.2.cells.size⟩, nodeEntries tag filled.1 whole.1, rfl, ?_⟩,
    hFirst.trans (hSecond.trans hLast)⟩
  refine ⟨whole.2.get?_alloc_self _, Nat.le_trans hSize hMore, keys_nodeEntries tag _ _,
    distinct_nodeEntries tag _ _, hTag, fun part => ?_⟩
  cases part with
  | attributes =>
    rw [NodePart.key, hAttrs]
    exact (hOwn.keep hSecond).keep hLast
  | children =>
    rw [NodePart.key, hContents]
    exact hOther.keep hLast

/-! ## Calls, with anything else in between -/

structure SparesNode (node : Slot) (store next : Store) : Prop where
  self : next.cell? node = store.cell? node
  parts : ∀ part : NodePart,
    next.cell? (store.field node part.key) = store.cell? (store.field node part.key)

theorem Represents.spared (h : store.Represents since node tag parts)
    (hSpares : SparesNode node store next) : next.Represents since node tag parts := by
  obtain ⟨r, entries, rfl, h⟩ := h
  refine ⟨r, entries, rfl, hSpares.self.trans h.cell, h.since_le, h.keys, h.distinct, h.tag, ?_⟩
  intro part
  refine (h.parts part).mono fun q hField hCell => ?_
  have hSame := hSpares.parts part
  rw [field, fieldAt?_eq h.cell, hField] at hSame
  exact hSame.trans hCell

theorem Represents.sparesNode_put (h : store.Represents since node tag parts) {r : Ref}
    (hBefore : r.index < since) (cell : Cell) : SparesNode node store (store.put r cell) := by
  obtain ⟨self, entries, rfl, h⟩ := h
  have hApart {q : Ref} (hSince : since ≤ q.index) :
      (store.put r cell).get? q = store.get? q := by
    refine store.get?_put_ne r q cell ?_
    rintro rfl
    omega
  refine ⟨hApart h.since_le, fun part => ?_⟩
  rw [field, fieldAt?_eq h.cell]
  rcases h.part_cases part with ⟨-, hField⟩ | ⟨-, q, hField, hSince, -⟩
  · rw [hField]
    rfl
  · rw [hField]
    exact hApart hSince

end Store

/-- A call with its answer, and the stores it found and left. -/
structure Turn where
  before : Store
  mutation : Mutation
  answer : Outcome Value
  after : Store

namespace Turn

def call (turn : Turn) : Mutation × Outcome Value := (turn.mutation, turn.answer)

def play (before : Store) (node : Slot) (mutation : Mutation) : Turn where
  before := before
  mutation := mutation
  answer := (mutation.perform before node).1
  after := (mutation.perform before node).2

end Turn

/-- Calls on a node, one after the other. Between them anything may happen but to the objects of the
node. -/
inductive Course (node : Slot) (store : Store) : List Turn → Store → Prop where
  | start : Course node store [] store
  | elsewhere {turns : List Turn} {last next : Store} (h : Course node store turns last)
    (hSpares : Store.SparesNode node last next) : Course node store turns next
  | call {turns : List Turn} {last : Store} (h : Course node store turns last)
    (mutation : Mutation) :
    Course node store (turns ++ [Turn.play last node mutation]) (Turn.play last node mutation).after

theorem Course.represents {made last : Store} {since : Nat} {node tag : Slot} {parts : NodeParts}
    {turns : List Turn} (h : Course node made turns last)
    (hMade : made.Represents since node tag parts) (hNames : Entries.Distinct parts.attributes) :
    ∃ after, parts.Runs (turns.map Turn.call) after ∧ last.Represents since node tag after ∧
      ∀ turn ∈ turns, Store.SparesBefore since turn.before turn.after := by
  induction h with
  | start => exact ⟨parts, .start, hMade, List.forall_mem_nil _⟩
  | elsewhere _ hSpares ih =>
    obtain ⟨after, hRuns, hNode, hTurns⟩ := ih
    exact ⟨after, hRuns, hNode.spared hSpares, hTurns⟩
  | call _ mutation ih =>
    obtain ⟨after, hRuns, hNode, hTurns⟩ := ih
    obtain ⟨final, hChanges, hFinal, hBefore⟩ := hNode.perform (hRuns.distinct hNames) mutation
    refine ⟨final, ?_, hFinal, ?_⟩
    · rw [List.map_append]
      exact .call hRuns hChanges
    · exact List.forall_mem_append.mpr ⟨hTurns, List.forall_mem_singleton.mpr hBefore⟩

/-- A node is made of any attributes and content, and after any calls it refines an ordered map together
with a list: the answers and the parts are those of the reference, the keys for attributes and content are
there exactly while there is something under them, what is found under a name is what the last call about
it left, and the children are those it was made of with the appended ones behind them. Neither the making
nor any call changes an object that was there before. -/
theorem mutations_keep_shape {store : Store} {attributes content : Slot}
    {entries : List (Value × Slot)} {items : List Slot} (tag : Slot)
    (hAttributes : store.GivesAttributes attributes entries)
    (hContent : store.GivesContent content items) (hDistinct : Entries.Distinct entries) :
    ∃ node made, store.newElement tag attributes content = (.ok node, made) ∧
      store.Keeps made ∧ ∀ turns last, Course node made turns last →
        ∃ parts : NodeParts, NodeParts.Runs ⟨entries, items⟩ (turns.map Turn.call) parts ∧
          last.Represents store.cells.size node tag parts ∧
          last.nodeAttributes node = .ok parts.attributes ∧
          last.nodeContent node = (.ok parts.children, last) ∧
          parts.children = items ++ turns.filterMap (·.mutation.child?) ∧
          (∀ name default, last.getAttribute node name default = name.checkKey.map fun _ =>
            (Mutation.leftUnder name (Entries.get? entries name) (turns.map (·.mutation))).getD
              default) ∧
          ∀ turn ∈ turns, ∀ r cell, store.get? r = some cell →
            turn.after.get? r = turn.before.get? r := by
  obtain ⟨node, made, hElement, hMade, hKeeps⟩ :=
    Store.newElement_represents tag hAttributes hContent
  refine ⟨node, made, hElement, hKeeps, fun turns last hCourse => ?_⟩
  obtain ⟨parts, hRuns, hNode, hTurns⟩ := hCourse.represents hMade hDistinct
  refine ⟨parts, hRuns, hNode, ?_⟩
  obtain ⟨r, nodeEntries, rfl, hAt⟩ := hNode
  refine ⟨hAt.nodeAttributes_eq, hAt.nodeContent_eq, ?_, fun name default => ?_, ?_⟩
  · rw [hRuns.children_eq, List.filterMap_map]
    rfl
  · rw [hAt.getAttribute_eq]
    cases hName : name.checkKey with
    | error fault => rfl
    | ok _ =>
      rw [hRuns.get?_eq hDistinct (Value.checkKey_eq_ok_iff.mp hName), List.map_map]
      rfl
  · intro turn hTurn r cell hCell
    exact hTurns turn hTurn r (Store.index_lt_of_get? hCell)

/-- The attributes run empty and are filled again while the mapping that they came from is emptied, and
then becomes a child. -/
theorem mutations_keep_shape_refilled :
    let text (s : String) : Slot := .atom (.str s)
    let store : Store := ⟨#[.map .dict [(.str "id", text "a")], .seq .list [text "x"]], #[]⟩
    let made := (store.newElement (text "p") (.ref ⟨0⟩) (.ref ⟨1⟩)).2
    store.GivesAttributes (.ref ⟨0⟩) [(.str "id", text "a")] ∧
      store.GivesContent (.ref ⟨1⟩) [text "x"] ∧
      Entries.Distinct [(Value.str "id", text "a")] ∧
      ∃ turns last parts, Course (.ref ⟨4⟩) made turns last ∧
        turns.map Turn.call =
          [(.setAttribute "class" (text "k"), .ok .none),
            (.removeAttribute (.str "id"), .ok (.bool true)),
            (.removeAttribute (.str "class"), .ok (.bool true)),
            (.removeAttribute (.str "id"), .ok (.bool false)),
            (.setAttribute "class" (text "l"), .ok .none),
            (.setAttribute "id" (text "b"), .ok .none),
            (.setAttribute "class" (text "m"), .ok .none), (.append (.ref ⟨0⟩), .ok .none)] ∧
        last.Represents 2 (.ref ⟨4⟩) (text "p") parts ∧
        parts.attributes = [(.str "class", text "m"), (.str "id", text "b")] ∧
        parts.children = [text "x", .ref ⟨0⟩] ∧
        last.getAttribute (.ref ⟨4⟩) (.str "id") .none = .ok (text "b") ∧
        last.get? ⟨0⟩ = some (.map .dict []) := by
  intro text store made
  have hAttributes : store.GivesAttributes (.ref ⟨0⟩) [(.str "id", text "a")] := .mapping rfl
  have hContent : store.GivesContent (.ref ⟨1⟩) [text "x"] := .sequence rfl
  have hDistinct : Entries.Distinct [(Value.str "id", text "a")] := List.pairwise_singleton _ _
  refine ⟨hAttributes, hContent, hDistinct, ?_⟩
  obtain ⟨node, made', hElement, -, hCourses⟩ :=
    mutations_keep_shape (text "p") hAttributes hContent hDistinct
  have hNode : store.newElement (text "p") (.ref ⟨0⟩) (.ref ⟨1⟩) = (.ok (.ref ⟨4⟩), made) := rfl
  cases hNode.symm.trans hElement
  have hMade : Course (.ref ⟨4⟩) made [] made := .start
  have hEmptied := (((hMade.call (.setAttribute "class" (text "k"))).call
    (.removeAttribute (.str "id"))).call (.removeAttribute (.str "class"))).call
      (.removeAttribute (.str "id"))
  obtain ⟨_, -, hEmpty, -⟩ := hCourses _ _ hEmptied
  have hElsewhere := hEmptied.elsewhere (hEmpty.sparesNode_put (by decide : 0 < 2) (.map .dict []))
  have hCourse := (((hElsewhere.call (.setAttribute "class" (text "l"))).call
    (.setAttribute "id" (text "b"))).call (.setAttribute "class" (text "m"))).call
      (.append (.ref ⟨0⟩))
  obtain ⟨parts, -, hRep, hAttrs, -, hChildren, -⟩ := hCourses _ _ hCourse
  refine ⟨_, _, parts, hCourse, ?_, hRep, ?_, ?_, ?_, ?_⟩
  · cbv
  · refine Except.ok.inj (hAttrs.symm.trans ?_)
    cbv
  · rw [hChildren]
    cbv
  · cbv
  · cbv

end Hypertext
