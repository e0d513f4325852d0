import Hypertext.Pipeline.Roster

/-! # Registering plugins

What is registered are the leaves of the arguments, each at a path of its own. All of them are registered
when all can be called; otherwise those in front of the first one that cannot be, which is reported.
-/

namespace Hypertext

set_option autoImplicit false

namespace Value

/-- At the end of a path through nested sequences stands a value that is none. -/
inductive LeafAt : Value → List Nat → Value → Prop where
  | here {leaf : Value} (hLeaf : ∀ kind items, leaf ≠ .seq kind items) : LeafAt leaf [] leaf
  | inside {kind : SeqKind} {items : List Value} {i : Nat} {item leaf : Value} {path : List Nat}
      (hItem : items[i]? = some item) (hLeaf : LeafAt item path leaf) :
      LeafAt (.seq kind items) (i :: path) leaf

/-- The leaves of a value with their paths, from left to right and each of them once. -/
structure Spreads (v : Value) (placed : List (List Nat × Value)) : Prop where
  ascending : placed.Pairwise fun p q => p.1 < q.1
  mem_iff : ∀ path leaf, (path, leaf) ∈ placed ↔ v.LeafAt path leaf

structure SpreadItems (first : Nat) (items : List Value) (placed : List (List Nat × Value)) :
    Prop where
  ascending : placed.Pairwise fun p q => p.1 < q.1
  mem_iff : ∀ path leaf, (path, leaf) ∈ placed ↔
    ∃ i item rest, path = (first + i) :: rest ∧ items[i]? = some item ∧ item.LeafAt rest leaf

theorem spreads_leaf {leaf : Value} (hLeaf : ∀ kind items, leaf ≠ .seq kind items) :
    leaf.Spreads [([], leaf)] := by
  refine ⟨List.pairwise_singleton _ _, fun path other => ⟨?_, ?_⟩⟩
  · intro hMem
    obtain ⟨rfl, rfl⟩ := Prod.mk.inj (List.mem_singleton.mp hMem)
    exact .here hLeaf
  · intro hOther
    cases hOther with
    | here => exact List.mem_singleton_self _
    | inside => exact absurd rfl (hLeaf _ _)

namespace SpreadItems

variable {first : Nat} {item : Value} {items : List Value} {placed behind : List (List Nat × Value)}

theorem nil (first : Nat) : SpreadItems first [] [] := by
  refine ⟨.nil, fun path leaf => ⟨by rintro ⟨⟩, ?_⟩⟩
  rintro ⟨i, item, rest, -, hItem, -⟩
  cases hItem

theorem cons (hItem : item.Spreads placed) (hItems : SpreadItems (first + 1) items behind) :
    SpreadItems first (item :: items) (placed.map (fun p => (first :: p.1, p.2)) ++ behind) := by
  refine ⟨List.pairwise_append.mpr ⟨?_, hItems.ascending, ?_⟩, fun path leaf => ⟨?_, ?_⟩⟩
  · refine List.pairwise_map.mpr (hItem.ascending.imp fun hLess => ?_)
    exact List.cons_lt_cons_iff.mpr (.inr ⟨rfl, hLess⟩)
  · intro p hp q hq
    obtain ⟨p, -, rfl⟩ := List.mem_map.mp hp
    obtain ⟨i, other, rest, hPath, -⟩ := (hItems.mem_iff q.1 q.2).mp hq
    rw [hPath]
    exact List.cons_lt_cons_iff.mpr (.inl (by omega))
  · intro hMem
    rcases List.mem_append.mp hMem with hHere | hBehind
    · obtain ⟨⟨rest, leaf⟩, hRest, hSame⟩ := List.mem_map.mp hHere
      obtain ⟨rfl, rfl⟩ := Prod.mk.inj hSame
      exact ⟨0, item, rest, rfl, rfl, (hItem.mem_iff rest leaf).mp hRest⟩
    · obtain ⟨i, other, rest, rfl, hOther, hLeaf⟩ := (hItems.mem_iff path leaf).mp hBehind
      exact ⟨i + 1, other, rest, by rw [Nat.add_right_comm, Nat.add_assoc], hOther, hLeaf⟩
  · rintro ⟨i, other, rest, rfl, hOther, hLeaf⟩
    cases i with
    | zero =>
      obtain rfl : item = other := Option.some.inj hOther
      have hRest := (hItem.mem_iff rest leaf).mpr hLeaf
      exact List.mem_append_left _ (List.mem_map.mpr ⟨(rest, leaf), hRest, rfl⟩)
    | succ i =>
      refine List.mem_append_right _ ((hItems.mem_iff _ leaf).mpr ⟨i, other, rest, ?_, hOther, hLeaf⟩)
      rw [Nat.add_right_comm, Nat.add_assoc]

theorem seq (h : SpreadItems 0 items placed) (kind : SeqKind) : (Value.seq kind items).Spreads placed := by
  refine ⟨h.ascending, fun path leaf => (h.mem_iff path leaf).trans ⟨?_, ?_⟩⟩
  · rintro ⟨i, item, rest, rfl, hItem, hLeaf⟩
    rw [Nat.zero_add]
    exact .inside hItem hLeaf
  · intro hLeaf
    cases hLeaf with
    | here hNone => exact absurd rfl (hNone kind items)
    | @inside _ _ i item _ rest hItem hLeaf => exact ⟨i, item, rest, by rw [Nat.zero_add], hItem, hLeaf⟩

end SpreadItems

end Value

namespace Roster

theorem leaves_leaf {leaf : Value} (hLeaf : ∀ kind items, leaf ≠ .seq kind items) :
    leaves leaf = [leaf] := by
  rw [leaves]
  exact hLeaf

mutual

theorem spreads_leaves (v : Value) : ∃ placed, v.Spreads placed ∧ placed.map (·.2) = leaves v := by
  cases v with
  | seq kind items =>
    obtain ⟨placed, hItems, hLeaves⟩ := spreadItems_leavesOf items 0
    exact ⟨placed, hItems.seq kind, by rw [leaves, hLeaves]⟩
  | atom a =>
    have hLeaf (kind : SeqKind) (items : List Value) : Value.atom a ≠ .seq kind items := nofun
    exact ⟨_, Value.spreads_leaf hLeaf, (leaves_leaf hLeaf).symm⟩
  | map kind entries =>
    have hLeaf (other : SeqKind) (items : List Value) :
        Value.map kind entries ≠ .seq other items := nofun
    exact ⟨_, Value.spreads_leaf hLeaf, (leaves_leaf hLeaf).symm⟩

theorem spreadItems_leavesOf (items : List Value) (first : Nat) :
    ∃ placed, Value.SpreadItems first items placed ∧ placed.map (·.2) = leavesOf items := by
  cases items with
  | nil => exact ⟨[], .nil first, by rw [leavesOf]; rfl⟩
  | cons item items =>
    obtain ⟨placed, hItem, hLeaves⟩ := spreads_leaves item
    obtain ⟨behind, hItems, hOthers⟩ := spreadItems_leavesOf items (first + 1)
    refine ⟨_, .cons hItem hItems, ?_⟩
    rw [leavesOf, List.map_append, List.map_map, ← hLeaves, ← hOthers]
    rfl

end

def values (callables : List Callable) : List Value := callables.map fun c => .atom (.callable c)

theorem values_or_refused (leaves : List Value) :
    (∃ callables, leaves = values callables) ∨
      ∃ callables refused behind, leaves = values callables ++ refused :: behind ∧
        ∀ c, refused ≠ .atom (.callable c) := by
  induction leaves with
  | nil => exact .inl ⟨[], rfl⟩
  | cons leaf rest ih =>
    by_cases hLeaf : ∃ c, leaf = .atom (.callable c)
    · obtain ⟨c, rfl⟩ := hLeaf
      rcases ih with ⟨callables, rfl⟩ | ⟨callables, refused, behind, rfl, hRefused⟩
      · exact .inl ⟨c :: callables, rfl⟩
      · exact .inr ⟨c :: callables, refused, behind, rfl, hRefused⟩
    · exact .inr ⟨[], leaf, rest, rfl, fun c hSame => hLeaf ⟨c, hSame⟩⟩

theorem extend_values (roster callables : List Callable) (rest : List Value) :
    extend roster (values callables ++ rest) = extend (roster ++ callables) rest := by
  induction callables generalizing roster with
  | nil => rw [List.append_nil]; rfl
  | cons c callables ih =>
    rw [List.append_cons]
    exact ih (roster ++ [c])

theorem extend_refused (roster : List Callable) {refused : Value} (behind : List Value)
    (hRefused : ∀ c, refused ≠ .atom (.callable c)) :
    extend roster (refused :: behind) = (roster, .error (.notCallable refused.typeName)) := by
  rw [extend]
  rintro c ⟨⟩
  exact hRefused c rfl

end Roster

namespace Pipeline

/-- Registration goes through the leaves of the arguments from left to right. When all of them can be
called, all of them are registered behind the plugins that are there; otherwise the first one that cannot
be called is refused, and what is registered are those in front of it. Nothing else is touched. -/
theorem use_registers (pipeline : Pipeline) (arguments : List Value) :
    ∃ placed, (Value.seq .tuple arguments).Spreads placed ∧
      ((∃ callables, placed.map (·.2) = Roster.values callables ∧
          pipeline.use arguments =
            ({ pipeline with roster := pipeline.roster ++ callables }, .ok ())) ∨
        ∃ callables refused behind,
          placed.map (·.2) = Roster.values callables ++ refused :: behind ∧
          (∀ c, refused ≠ .atom (.callable c)) ∧
          pipeline.use arguments =
            ({ pipeline with roster := pipeline.roster ++ callables },
              .error (.notCallable refused.typeName)) ∧
          ((pipeline.use arguments).1 = pipeline ↔ callables = [])) := by
  obtain ⟨placed, hItems, hLeaves⟩ := Roster.spreadItems_leavesOf arguments 0
  refine ⟨placed, hItems.seq .tuple, ?_⟩
  rcases Roster.values_or_refused (Roster.leavesOf arguments) with
    ⟨callables, hAll⟩ | ⟨callables, refused, behind, hSome, hRefused⟩
  · refine .inl ⟨callables, hLeaves.trans hAll, ?_⟩
    rw [use, Roster.use, hAll, ← List.append_nil (Roster.values callables), Roster.extend_values]
    rfl
  · have hUse : pipeline.use arguments =
        ({ pipeline with roster := pipeline.roster ++ callables },
          .error (.notCallable refused.typeName)) := by
      rw [use, Roster.use, hSome, Roster.extend_values, Roster.extend_refused _ behind hRefused]
    refine .inr ⟨callables, refused, behind, hLeaves.trans hSome, hRefused, hUse, ?_⟩
    rw [hUse]
    constructor
    · intro hSame
      exact List.self_eq_append_right.mp (congrArg Pipeline.roster hSame).symm
    · rintro rfl
      rw [List.append_nil]

/-- A plugin in front of a value that cannot be called stays registered. -/
theorem use_partly :
    let plugin : Callable := ⟨0, .function, "a", none, false, []⟩
    let pipeline := make ⟨0⟩ none
    pipeline.roster = [] ∧
      ((pipeline.use [.atom (.callable plugin), .str "notplugin"]).1.roster = [plugin]) ∧
      (pipeline.use [.atom (.callable plugin), .str "notplugin"]).2 =
        .error (.notCallable "str") := by
  exact ⟨rfl, rfl, rfl⟩

end Pipeline

end Hypertext
