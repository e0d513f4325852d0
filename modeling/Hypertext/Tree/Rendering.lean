import Hypertext.Render
import Hypertext.Tree.Store

/-! # Rendering a tree where it stands

Rendering follows the content of a tree through the store, down to a depth: content that is inside
itself has no end. Names and attributes are not followed but written, and a written value ends where
an object is met again inside itself.
-/

namespace Hypertext

set_option autoImplicit false

/-- The markup of items, up to the first that has none. -/
def Value.joinMarkup : List (Outcome String) → Outcome String
  | [] => .ok ""
  | first :: rest => do
    let first ← first
    let others ← joinMarkup rest
    return first ++ others

namespace Store

/-- What a slot holds at its top level. Each part below that is seen for itself. -/
def surface (store : Store) (slot : Slot) : Value :=
  match slot, store.cell? slot with
  | .atom a, _ => .atom a
  | .ref _, some (.seq kind items) => .seq kind.bare (items.map store.view)
  | .ref _, some (.map kind entries) =>
    .map kind.bare (entries.map fun entry => (entry.1, store.view entry.2))
  | .ref _, none => .none

def fieldSlot (entries : List (Value × Slot)) (key : String) : Slot :=
  (Entries.at? entries key).getD .none

def markup (store : Store) (style : RenderStyle) : Nat → Slot → Outcome String
  | _, .atom a => Value.leafMarkup a
  | 0, .ref _ => .error .exhausted
  | depth + 1, .ref r =>
    match store.get? r with
    | some (.seq _ items) => Value.joinMarkup (items.map (store.markup style depth))
    | some (.map _ entries) =>
      Value.elementMarkup style (store.view (fieldSlot entries "tag"))
        (store.surface (fieldSlot entries "attrs"))
        (store.markup style depth (fieldSlot entries "content"))
    | none => .ok ""

end Store

end Hypertext
