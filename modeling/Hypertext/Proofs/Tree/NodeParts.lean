import Hypertext.Proofs.Value.Keys
import Hypertext.Tree.Store

/-! # The parts of a node

A node is an ordered map of attributes together with a list of children, and calls change it. A name that is
set again keeps its place, a new name goes to the end, and so does one that was removed in between. What is
found under a name was decided by the last call about it.
-/

namespace Hypertext

set_option autoImplicit false

inductive Mutation where
  | setAttribute (name : String) (value : Slot)
  | removeAttribute (name : Value)
  | append (child : Slot)

namespace Mutation

def child? : Mutation → Option Slot
  | append child => some child
  | _ => none

/-- What a call leaves under a name, when the call is about that name: a value, or nothing. -/
def decides? (name : Value) : Mutation → Option (Option Slot)
  | setAttribute other value => if (Value.str other).same name then some (some value) else none
  | removeAttribute other => if other.same name then some none else none
  | append _ => none

/-- What the last call about a name left there, or what was there when none is about it. -/
def leftUnder (name : Value) (initial : Option Slot) (calls : List Mutation) : Option Slot :=
  (calls.reverse.findSome? (decides? name)).getD initial

theorem leftUnder_concat (name : Value) (initial : Option Slot) (calls : List Mutation)
    (last : Mutation) :
    leftUnder name initial (calls ++ [last]) =
      (last.decides? name).getD (leftUnder name initial calls) := by
  rw [leftUnder, List.reverse_append, List.reverse_singleton, List.singleton_append,
    List.findSome?_cons]
  cases last.decides? name <;> rfl

end Mutation

structure NodeParts where
  attributes : List (Value × Slot)
  children : List Slot

namespace NodeParts

/-- What a call makes of the parts, and what it answers. -/
inductive Changes : NodeParts → Mutation → Outcome Value → NodeParts → Prop where
  | replace {front back : List (Value × Slot)} {children : List Slot} {name : String} {old : Slot}
    (value : Slot) :
    Changes ⟨front ++ (.str name, old) :: back, children⟩ (.setAttribute name value) (.ok .none)
      ⟨front ++ (.str name, value) :: back, children⟩
  | add {attributes : List (Value × Slot)} {children : List Slot} {name : String} (value : Slot)
    (hNew : ∀ entry ∈ attributes, entry.1.same (.str name) = false) :
    Changes ⟨attributes, children⟩ (.setAttribute name value) (.ok .none)
      ⟨attributes ++ [(.str name, value)], children⟩
  | remove {front back : List (Value × Slot)} {children : List Slot} {key name : Value} {old : Slot}
    (hName : name.checkKey = .ok ()) (hSame : key.same name = true) :
    Changes ⟨front ++ (key, old) :: back, children⟩ (.removeAttribute name) (.ok (.bool true))
      ⟨front ++ back, children⟩
  | absent {parts : NodeParts} {name : Value}
    (hName : parts.attributes = [] ∨ name.checkKey = .ok ())
    (hNew : ∀ entry ∈ parts.attributes, entry.1.same name = false) :
    Changes parts (.removeAttribute name) (.ok (.bool false)) parts
  | refuse {parts : NodeParts} {name : Value} {fault : Fault} (hSome : parts.attributes ≠ [])
    (hName : name.checkKey = .error fault) :
    Changes parts (.removeAttribute name) (.error fault) parts
  | append {attributes : List (Value × Slot)} {children : List Slot} (child : Slot) :
    Changes ⟨attributes, children⟩ (.append child) (.ok .none)
      ⟨attributes, children ++ [child]⟩

/-- The parts after calls that were answered, one after the other. -/
inductive Runs (parts : NodeParts) : List (Mutation × Outcome Value) → NodeParts → Prop where
  | start : Runs parts [] parts
  | call {calls : List (Mutation × Outcome Value)} {next last : NodeParts} {mutation : Mutation}
    {answer : Outcome Value} (h : Runs parts calls next)
    (hChange : Changes next mutation answer last) : Runs parts (calls ++ [(mutation, answer)]) last

variable {parts next : NodeParts} {mutation : Mutation} {answer : Outcome Value} {name : Value}
  {calls : List (Mutation × Outcome Value)}

theorem Changes.children_eq (h : Changes parts mutation answer next) :
    next.children = parts.children ++ mutation.child?.toList := by
  cases h <;> simp [Mutation.child?]

theorem Changes.distinct (h : Changes parts mutation answer next)
    (hParts : Entries.Distinct parts.attributes) : Entries.Distinct next.attributes := by
  cases h with
  | @replace front back children name old value =>
    rw [← Entries.set_of_mem hParts (Value.isKey_str name) (Value.same_str_iff.mpr rfl)]
    exact hParts.set _ _
  | @add attributes children name value hNew =>
    rw [← Entries.set_of_not_contains (Entries.contains_eq_false_iff.mpr hNew)]
    exact hParts.set _ _
  | @remove front back children key name old hName hSame =>
    rw [← Entries.erase_of_mem hParts (Value.checkKey_eq_ok_iff.mp hName) hSame]
    exact hParts.erase name
  | absent | refuse | append => exact hParts

theorem changes_setAttribute (hParts : Entries.Distinct parts.attributes) (name : String)
    (value : Slot) :
    Changes parts (.setAttribute name value) (.ok .none)
      { parts with attributes := Entries.set parts.attributes (.str name) value } := by
  obtain ⟨attributes, children⟩ := parts
  cases hContains : Entries.contains attributes (.str name) with
  | true =>
    obtain ⟨front, ⟨key, old⟩, back, rfl, hSame⟩ := Entries.exists_of_contains hContains
    obtain rfl := Value.same_str_iff.mp hSame
    rw [Entries.set_of_mem hParts (Value.isKey_str name) hSame]
    exact .replace value
  | false =>
    rw [Entries.set_of_not_contains hContains]
    exact .add value (Entries.contains_eq_false_iff.mp hContains)

theorem changes_removeAttribute (hParts : Entries.Distinct parts.attributes)
    (hName : name.checkKey = .ok ()) (hContains : Entries.contains parts.attributes name = true) :
    Changes parts (.removeAttribute name) (.ok (.bool true))
      { parts with attributes := Entries.erase parts.attributes name } := by
  obtain ⟨attributes, children⟩ := parts
  obtain ⟨front, ⟨key, old⟩, back, rfl, hSame⟩ := Entries.exists_of_contains hContains
  rw [Entries.erase_of_mem hParts (Value.checkKey_eq_ok_iff.mp hName) hSame]
  exact .remove hName hSame

theorem Changes.get?_eq (h : Changes parts mutation answer next)
    (hParts : Entries.Distinct parts.attributes) (hName : name.IsKey) :
    Entries.get? next.attributes name =
      (mutation.decides? name).getD (Entries.get? parts.attributes name) := by
  cases h with
  | @replace front back children other old value =>
    rw [Entries.get?_append, Entries.get?_append, Entries.get?_cons, Entries.get?_cons,
      Mutation.decides?]
    split
    · rename_i hAbout
      have hFront := (List.forall_mem_append.mp (hParts.apart hName hAbout)).1
      rw [Entries.get?_eq_none hFront]
      rfl
    · rfl
  | @add attributes children other value hNew =>
    rw [Entries.get?_append, Entries.get?_cons, Mutation.decides?]
    split
    · rename_i hAbout
      rw [Entries.get?_eq_none_of_same hName hAbout hNew]
      rfl
    · exact Option.or_none
  | @remove front back children key other old hOther hSame =>
    have hOther := Value.checkKey_eq_ok_iff.mp hOther
    rw [Mutation.decides?]
    split
    · rename_i hAbout
      exact Entries.get?_eq_none_of_same hName hAbout (hParts.apart hOther hSame)
    · rename_i hElse
      -- The key that goes is the same as the name of the call, so it is not the name looked for.
      have hKey : key.same name = false := by
        rw [Bool.eq_false_iff]
        intro hKey
        exact hElse ((hOther.of_same hSame).same_trans (hOther.same_symm hSame) hKey)
      rw [Entries.get?_append, Entries.get?_append, Entries.get?_cons, hKey]
      rfl
  | @absent _ other hOther hNew =>
    rw [Mutation.decides?]
    split
    · rename_i hAbout
      exact Entries.get?_eq_none_of_same hName hAbout hNew
    · rfl
  | @refuse _ other fault hSome hOther =>
    rw [Mutation.decides?, if_neg]
    · rfl
    · intro hAbout
      rw [Value.checkKey_eq_ok_iff.mpr (hName.of_same hAbout)] at hOther
      cases hOther
  | append => rfl

/-! ## Runs -/

theorem Runs.distinct (h : Runs parts calls next) (hParts : Entries.Distinct parts.attributes) :
    Entries.Distinct next.attributes := by
  induction h with
  | start => exact hParts
  | call _ hChange ih => exact hChange.distinct ih

theorem Runs.get?_eq (h : Runs parts calls next) (hParts : Entries.Distinct parts.attributes)
    (hName : name.IsKey) :
    Entries.get? next.attributes name =
      Mutation.leftUnder name (Entries.get? parts.attributes name) (calls.map (·.1)) := by
  induction h with
  | start => rfl
  | call hRun hChange ih =>
    rw [hChange.get?_eq (hRun.distinct hParts) hName, ih, List.map_append, List.map_singleton,
      Mutation.leftUnder_concat]

theorem Runs.children_eq (h : Runs parts calls next) :
    next.children = parts.children ++ calls.filterMap fun call => call.1.child? := by
  induction h with
  | start => exact (List.append_nil _).symm
  | call _ hChange ih =>
    rw [hChange.children_eq, ih, List.filterMap_append, List.append_assoc]
    rename_i mutation _ _
    cases hChild : mutation.child? <;> simp [hChild]

end NodeParts

end Hypertext
