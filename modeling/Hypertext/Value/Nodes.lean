import Hypertext.Value.Basic

/-! # The elements of a tree

Elements are listed in document order, an element before those in its content. The root of a
tree is not one of its elements.
-/

namespace Hypertext.Value

set_option autoImplicit false

mutual

/-- The mappings among a value and the items inside it. -/
def nodes : Value → List Value
  | atom _ => []
  | seq _ items => itemNodes items
  | map kind entries =>
    (if kind.isCapable then [] else [map kind entries]) ++ contentNodes entries

def itemNodes : List Value → List Value
  | [] => []
  | item :: rest => nodes item ++ itemNodes rest

/-- The elements in the content of a mapping, when that is a sequence. -/
def contentNodes : List (Value × Value) → List Value
  | [] => []
  | (key, value) :: rest =>
    if key.same (str "content") then sequenceNodes value else contentNodes rest

def sequenceNodes : Value → List Value
  | seq _ items => itemNodes items
  | _ => []

end

def tag : Value → Value
  | map _ entries => field entries "tag"
  | _ => none

def nodesTagged (tree wanted : Value) : List Value :=
  tree.nodes.filter fun node => node.tag.same wanted

end Hypertext.Value
