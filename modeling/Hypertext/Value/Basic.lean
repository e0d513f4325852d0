import Hypertext.Failure
import Hypertext.Number.Double
import Hypertext.Plugin.Signature
import Hypertext.Text.Pattern

/-! # Values

A tree is handled as a value of a small data language: leaves, sequences and mappings.
A mapping keeps its entries in the order in which their keys first came. Some sequences and
mappings are capable: they carry a handle to the options of a run.

Everything here is a finite value without identity. The store gives values identity.
-/

namespace Hypertext

set_option autoImplicit false

abbrev Bytes := List UInt8

structure OptionsRef where
  index : Nat
  deriving DecidableEq, Repr

inductive SeqKind where
  | list
  | tuple
  | tree (options : Option OptionsRef)
  deriving DecidableEq, Repr

inductive MapKind where
  | dict
  | node
  | root (options : Option OptionsRef)
  deriving DecidableEq, Repr

inductive Content where
  | bytes (data : Bytes)
  | text (data : String)
  deriving DecidableEq, Repr

inductive Atom where
  | none
  | bool (b : Bool)
  | int (n : Int)
  | float (d : Double)
  | str (s : String)
  | bytes (data : Bytes)
  | object (className : String)
  | pattern (p : Text.Pattern)
  | callable (c : Callable)
  | failure (failure : Failure)
  | readable (className : String) (content : Content)
  | path (p : String)
  /-- An object that is met again inside itself, by what it is. -/
  | again (kind : SeqKind ⊕ MapKind)
  deriving DecidableEq, Repr

inductive Value where
  | atom (a : Atom)
  | seq (kind : SeqKind) (items : List Value)
  | map (kind : MapKind) (entries : List (Value × Value))
  deriving Repr

instance : Inhabited Value := ⟨.atom .none⟩

namespace Value

@[match_pattern] abbrev none : Value := .atom .none
@[match_pattern] abbrev bool (b : Bool) : Value := .atom (.bool b)
@[match_pattern] abbrev int (n : Int) : Value := .atom (.int n)
@[match_pattern] abbrev str (s : String) : Value := .atom (.str s)
@[match_pattern] abbrev list (items : List Value) : Value := .seq .list items
@[match_pattern] abbrev dict (entries : List (Value × Value)) : Value := .map .dict entries

end Value

namespace SeqKind

def typeName : SeqKind → String
  | list => "list"
  | tuple => "tuple"
  | tree _ => "Tree"

/-- Only tuples keep their items for good. -/
def isMutable : SeqKind → Bool
  | tuple => false
  | _ => true

def isCapable : SeqKind → Bool
  | tree _ => true
  | _ => false

/-- The kind without its handle. -/
def bare : SeqKind → SeqKind
  | tree _ => tree none
  | kind => kind

end SeqKind

namespace MapKind

def typeName : MapKind → String
  | dict => "dict"
  | node => "Node"
  | root _ => "RootNode"

def isCapable : MapKind → Bool
  | root _ => true
  | _ => false

def bare : MapKind → MapKind
  | root _ => root none
  | kind => kind

end MapKind

namespace Atom

def typeName : Atom → String
  | none => "NoneType"
  | bool _ => "bool"
  | int _ => "int"
  | float _ => "float"
  | str _ => "str"
  | bytes _ => "bytes"
  | object className => className
  | pattern _ => "Pattern"
  | callable c => c.typeName
  | failure f => f.className
  | readable className _ => className
  | path _ => "PosixPath"
  | again (.inl kind) => kind.typeName
  | again (.inr kind) => kind.typeName

def truthy : Atom → Bool
  | none => false
  | bool b => b
  | int n => n ≠ 0
  | float d => !d.isZero
  | str s => s ≠ ""
  | bytes data => !data.isEmpty
  | failure f => f.counts
  | _ => true

/-- Equality: numbers and truth values are compared as numbers, and an object, an exception
or a readable equals nothing that is written separately. -/
def same : Atom → Atom → Bool
  | none, none => true
  | bool a, bool b => a = b
  | bool a, int n => (if a then 1 else 0) = n
  | int n, bool a => (if a then 1 else 0) = n
  | bool a, float d => d.sameInt (if a then 1 else 0)
  | float d, bool a => d.sameInt (if a then 1 else 0)
  | int a, int b => a = b
  | int n, float d => d.sameInt n
  | float d, int n => d.sameInt n
  | float a, float b => a.same b
  | str a, str b => a = b
  | bytes a, bytes b => a = b
  | pattern a, pattern b => a = b
  | callable a, callable b => a = b
  | path a, path b => a = b
  | _, _ => false

end Atom

namespace Value

def typeName : Value → String
  | atom a => a.typeName
  | seq kind _ => kind.typeName
  | map kind _ => kind.typeName

def truthy : Value → Bool
  | atom a => a.truthy
  | seq _ items => !items.isEmpty
  | map _ entries => !entries.isEmpty

def isTreeShaped : Value → Bool
  | atom _ => false
  | seq _ _ | map _ _ => true

def isCapable : Value → Bool
  | atom _ => false
  | seq kind _ => kind.isCapable
  | map kind _ => kind.isCapable

def isCallable : Value → Bool
  | atom (.callable _) => true
  | _ => false

mutual

/-- Equality of values. Sequences are equal when both are tuples or neither is and their items
agree in order; mappings when they have the same number of entries and agree on every key. -/
def same : Value → Value → Bool
  | atom a, atom b => a.same b
  | seq k xs, seq l ys => k.isMutable == l.isMutable && sameItems xs ys
  | map _ es, map _ fs => es.length == fs.length && subsumedEntries es fs
  | _, _ => false

def sameItems : List Value → List Value → Bool
  | [], [] => true
  | x :: xs, y :: ys => same x y && sameItems xs ys
  | _, _ => false

def subsumedEntries : List (Value × Value) → List (Value × Value) → Bool
  | [], _ => true
  | (key, value) :: rest, others =>
    (others.any fun other => same key other.1 && same value other.2) &&
      subsumedEntries rest others

end

theorem same_str_iff {value : Value} {s : String} : value.same (str s) = true ↔ value = str s := by
  constructor
  · intro h
    cases value with
    | atom a =>
      cases a <;> simp [same, Atom.same] at h
      rw [h]
    | seq kind items => simp [same] at h
    | map kind entries => simp [same] at h
  · rintro rfl
    simp [same, Atom.same]

end Value

namespace Value

mutual

/-- The type of the first part that keeps a value from being a key: only what cannot change
can be one. -/
def changeable? : Value → Option String
  | atom _ => Option.none
  | seq kind items => if kind.isMutable then some kind.typeName else firstChangeable? items
  | map kind _ => some kind.typeName

def firstChangeable? : List Value → Option String
  | [] => Option.none
  | item :: rest => (changeable? item).or (firstChangeable? rest)

end

end Value

/-! ## Entries -/

namespace Entries

variable {β : Type}

def get? (entries : List (Value × β)) (key : Value) : Option β :=
  (entries.find? fun entry => entry.1.same key).map (·.2)

def contains (entries : List (Value × β)) (key : Value) : Bool :=
  entries.any fun entry => entry.1.same key

/-- A new key goes to the end; a key already present keeps its place and its spelling. -/
def set (entries : List (Value × β)) (key : Value) (value : β) : List (Value × β) :=
  if contains entries key then
    entries.map fun entry => if entry.1.same key then (entry.1, value) else entry
  else entries ++ [(key, value)]

def erase (entries : List (Value × β)) (key : Value) : List (Value × β) :=
  entries.filter fun entry => !entry.1.same key

def ofPairs (pairs : List (Value × β)) : List (Value × β) :=
  pairs.foldl (fun entries pair => set entries pair.1 pair.2) []

def at? (entries : List (Value × β)) (key : String) : Option β := get? entries (.str key)

end Entries

namespace Value

def field (entries : List (Value × Value)) (key : String) : Value :=
  (Entries.at? entries key).getD .none

end Value

end Hypertext
