import Hypertext.Number.Shortest
import Hypertext.Value.Basic

/-! # Written values

A value has two texts. Inside a container, and in messages that quote it, it is written so
that its type can be seen: texts are quoted. On its own a text stands for itself, and so do
paths and the messages of exceptions.
-/

namespace Hypertext

set_option autoImplicit false

namespace Atom

def written : Atom → String
  | none => "None"
  | bool true => "True"
  | bool false => "False"
  | int n => toString n
  | float d => d.written
  | str s => Text.quoted s
  | bytes data => Text.quotedBytes data
  | object className => "<" ++ className ++ " object>"
  | pattern p => p.written
  | callable c => "<" ++ c.typeName ++ " " ++ c.displayName ++ ">"
  | failure f => f.className ++ "(" ++ Text.quoted f.message ++ ")"
  | readable className _ => "<" ++ className ++ " object>"
  | path p => "PosixPath(" ++ Text.quoted p ++ ")"
  | again (.inl .tuple) => "(...)"
  | again (.inl _) => "[...]"
  | again (.inr _) => "\x7b...\x7d"

/-- A missing key is reported by its quoted name. -/
def failureText (failure : Failure) : String :=
  if failure.className = "KeyError" then Text.quoted failure.message else failure.message

def text : Atom → String
  | str s => s
  | failure f => failureText f
  | path p => p
  | other => other.written

end Atom

namespace Value

/-- The brackets around the written items of a sequence; a single item of a tuple is followed
by a comma. -/
def bracketed (kind : SeqKind) (items : List String) : String :=
  match kind with
  | .tuple =>
    match items with
    | [item] => "(" ++ item ++ ",)"
    | items => "(" ++ ", ".intercalate items ++ ")"
  | _ => "[" ++ ", ".intercalate items ++ "]"

mutual

def written : Value → String
  | atom a => a.written
  | seq kind items => bracketed kind (writtenItems items)
  | map _ entries => "\x7b" ++ ", ".intercalate (writtenEntries entries) ++ "\x7d"

def writtenItems : List Value → List String
  | [] => []
  | item :: rest => item.written :: writtenItems rest

def writtenEntries : List (Value × Value) → List String
  | [] => []
  | (key, value) :: rest => (key.written ++ ": " ++ value.written) :: writtenEntries rest

end

def text : Value → String
  | atom a => a.text
  | other => other.written

@[simp] theorem text_str (s : String) : text (str s) = s := rfl

end Value

end Hypertext
