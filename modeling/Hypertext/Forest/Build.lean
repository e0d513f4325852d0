import Hypertext.Forest.Basic

/-! # Building forests from tokens

Building repairs what does not nest. An end tag closes the nearest open element of its name and
everything opened inside it; an end tag without an open counterpart is dropped; what is still
open at the end is closed there. Every repair is counted.
-/

namespace Hypertext

set_option autoImplicit false

structure BuildCounts where
  elements : Nat
  depth : Nat
  implicitlyClosed : Nat
  droppedEndTags : Nat
  deriving DecidableEq, Repr

namespace BuildCounts

def zero : BuildCounts := ⟨0, 0, 0, 0⟩

def repairs (counts : BuildCounts) : Nat := counts.implicitlyClosed + counts.droppedEndTags

end BuildCounts

/-- An open element, with the items that stand before it in its parent, the last one first. -/
structure OpenElement where
  name : String
  tag : String
  attributes : List Attribute
  before : List Item

/-- A forest under construction: the items at the innermost open level, the last one first, and
the open elements, the innermost first. -/
structure Assembly where
  items : List Item
  stack : List OpenElement
  counts : BuildCounts

/-- The first of several attributes of one name is kept. -/
def firstOfEachName (attributes : List Attribute) : List Attribute :=
  attributes.foldl (fun kept a => if kept.any (·.1 = a.1) then kept else kept ++ [a]) []

namespace Assembly

def empty : Assembly := ⟨[], [], .zero⟩

def add (assembly : Assembly) (item : Item) : Assembly :=
  { assembly with items := item :: assembly.items }

def close : Nat → List Item → List OpenElement → List Item × List OpenElement
  | count + 1, items, element :: stack =>
    close count (.element element.tag element.attributes items.reverse :: element.before) stack
  | _, items, stack => (items, stack)

/-- An element that is complete with its start tag. -/
def isLeaf (recognizeSelfClosing : Bool) (name : String) (selfClosing : Bool) : Bool :=
  isVoid (Text.lower name) || (selfClosing && recognizeSelfClosing)

def addLexeme (recognizeSelfClosing : Bool) (assembly : Assembly) : Lexeme → Assembly
  | .startTag tag attributes selfClosing =>
    let attributes := firstOfEachName attributes
    let counts := { assembly.counts with elements := assembly.counts.elements + 1 }
    if isLeaf recognizeSelfClosing tag selfClosing then
      { assembly with items := .element tag attributes [] :: assembly.items, counts }
    else
      { items := []
        stack := ⟨Text.lower tag, tag, attributes, assembly.items⟩ :: assembly.stack
        counts := { counts with depth := max counts.depth (assembly.stack.length + 1) } }
  | .endTag name =>
    match assembly.stack.findIdx? (·.name = Text.lower name) with
    | some index =>
      let (items, stack) := close (index + 1) assembly.items assembly.stack
      { items
        stack
        counts :=
          { assembly.counts with
            implicitlyClosed := assembly.counts.implicitlyClosed + index } }
    | none =>
      { assembly with
        counts :=
          { assembly.counts with droppedEndTags := assembly.counts.droppedEndTags + 1 } }
  | lexeme => assembly.add (.text lexeme.value)

def finish (assembly : Assembly) : Forest × BuildCounts :=
  ((close assembly.stack.length assembly.items assembly.stack).1.reverse,
    { assembly.counts with
      implicitlyClosed := assembly.counts.implicitlyClosed + assembly.stack.length })

end Assembly

namespace Forest

def build (recognizeSelfClosing : Bool) (lexemes : List Lexeme) : Forest × BuildCounts :=
  (lexemes.foldl (Assembly.addLexeme recognizeSelfClosing) .empty).finish

end Forest

end Hypertext
