import Hypertext.Text.Lowering
import Hypertext.Token.Basic
import Hypertext.Value.Basic

/-! # Forests

A document is a forest of texts and elements. Comments and directives are texts.
-/

namespace Hypertext

set_option autoImplicit false

inductive Item where
  | text (s : String)
  | element (tag : String) (attributes : List Attribute) (content : List Item)
  deriving Repr

abbrev Forest := List Item

def voidNames : List String :=
  ["area", "base", "br", "col", "command", "embed", "hr", "img", "input", "keygen", "link",
    "menuitem", "meta", "param", "source", "track", "wbr"]

def isVoid (name : String) : Bool := voidNames.contains name

namespace Item

/-- An element as a value. Attributes and content are left out when there are none. -/
def nodeEntries (tag : String) (attributes : List Attribute) (content : List Value) :
    List (Value × Value) :=
  (.str "tag", .str tag) ::
    ((if attributes = [] then []
      else [(.str "attrs", .dict (attributes.map fun a => (.str a.1, .str a.2)))]) ++
    (if content.isEmpty then [] else [(.str "content", .list content)]))

mutual

def toValue : Item → Value
  | text s => .str s
  | element tag attributes content =>
    .map .node (nodeEntries tag attributes (toValues content))

def toValues : List Item → List Value
  | [] => []
  | item :: rest => toValue item :: toValues rest

end

end Item

def Forest.toTree (forest : Forest) (options : Option OptionsRef) : Value :=
  .seq (.tree options) (Item.toValues forest)

end Hypertext
