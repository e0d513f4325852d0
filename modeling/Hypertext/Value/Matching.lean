import Hypertext.Value.Basic

/-! # Matching

An expression is itself a value. A mapping expression asks only about the keys it names, and
a sequence expression asks of each of its members that some member of the item matches it, so
an expression stands for every item that holds at least as much.
-/

namespace Hypertext

set_option autoImplicit false

namespace Atom

def equalsTyped (expected actual : Atom) : Bool :=
  expected.typeName = actual.typeName && expected.same actual

end Atom

namespace Value

/-- What an expression without parts asks of an item. -/
def leafMatches : Atom → Value → Bool
  | .pattern p, atom (.str s) => p.found s
  | .pattern _, _ => false
  | expected, atom actual => expected.equalsTyped actual
  | _, _ => false

mutual

def isMatch : Value → Value → Bool
  | atom expected, actual => leafMatches expected actual
  | map _ expected, actual =>
    match actual with
    | map _ entries => entriesMatch expected entries
    | _ => false
  | seq _ expected, actual =>
    match actual with
    | seq _ items => membersMatch expected items
    | _ => false

def membersMatch : List Value → List Value → Bool
  | [], _ => true
  | member :: rest, items => items.any (fun item => isMatch member item) && membersMatch rest items

/-- A truth value asks whether the key is there with a value other than `none`. -/
def entriesMatch : List (Value × Value) → List (Value × Value) → Bool
  | [], _ => true
  | (key, expected) :: rest, entries =>
    (match expected, Entries.get? entries key with
      | atom (.bool wanted), found => wanted == !(found matches Option.none | some (atom .none))
      | expected, found => isMatch expected (found.getD (atom .none))) &&
      entriesMatch rest entries

end

end Value

end Hypertext
