import Hypertext.Forest.Basic
import Hypertext.Options

/-! # Rendering

Texts are written as they are and numbers by their text; `none` and truth values are left out,
and nested sequences are flattened. A mapping is written as an element. Rendering fails only at
a value that has no markup or at attributes that are not a mapping.
-/

namespace Hypertext

set_option autoImplicit false

inductive ClosingStyle where
  | plain
  | slash
  | endTag
  deriving DecidableEq, Repr

structure RenderStyle where
  /-- Names, in lower case, of elements without content. -/
  singles : List String
  closing : ClosingStyle
  quoteAll : Bool
  deriving DecidableEq, Repr

namespace RenderStyle

def isSingle (style : RenderStyle) (tag : String) : Bool :=
  let name := Text.lower tag
  isVoid name || style.singles.contains name

end RenderStyle

namespace ClosingStyle

def ofValue (value : Value) : ClosingStyle :=
  if value.same (.str "slash") then slash
  else if value.same (.str "tag") then endTag
  else plain

def markup (style : ClosingStyle) (tag : String) : String :=
  match style with
  | plain => ">"
  | slash => " />"
  | endTag => "></" ++ tag ++ ">"

end ClosingStyle

def Options.renderStyle (options : Options) : RenderStyle where
  singles := options.singleTagNames.map Text.lower
  closing := .ofValue options.closingSingleTag
  quoteAll := options.quoteAllAttributes.truthy

namespace Value

/-- Whether an unquoted value would be read back differently. -/
def needsQuotes (text : List Char) : Bool :=
  text.isEmpty || text.any fun c =>
    Text.isSpacing c || c = '"' || c = '\'' || c = '=' || c = '<' || c = '>' || c = '`'

def quoteEscaped (text : List Char) : List Char :=
  text.flatMap fun c => if c = '"' then ['&', 'q', 'u', 'o', 't', ';'] else [c]

/-- One attribute: a bare name for `true`, nothing for `false` and `none`. -/
def attributeMarkup (quoteAll : Bool) (name value : Value) : String :=
  match value with
  | bool true => " " ++ name.text
  | bool false => ""
  | none => ""
  | value =>
    let text := value.text
    if quoteAll || needsQuotes text.toList then
      " " ++ name.text ++ "=\"" ++ String.ofList (quoteEscaped text.toList) ++ "\""
    else " " ++ name.text ++ "=" ++ text

def attributesMarkup (quoteAll : Bool) (attributes : Value) : Outcome String :=
  if attributes.truthy then
    match attributes with
    | map _ entries =>
      .ok (String.join (entries.map fun entry => attributeMarkup quoteAll entry.1 entry.2))
    | other => .error (.render (.attributes other.typeName))
  else .ok ""

/-- The name of an element: any true value by its text, and `div` for the others. -/
def tagText (tag : Value) : String := if tag.truthy then tag.text else "div"

def leafMarkup : Atom → Outcome String
  | .none => .ok ""
  | .bool _ => .ok ""
  | .str s => .ok s
  | .int n => .ok (toString n)
  | .float d => .ok d.written
  | other => .error (.render (.unsupported other.typeName))

def isFalse : Value → Bool
  | bool false => true
  | _ => false

def elementMarkup (style : RenderStyle) (tag attributes : Value) (content : Outcome String) :
    Outcome String :=
  if isFalse tag then content
  else do
    let tag := tagText tag
    let attributes ← attributesMarkup style.quoteAll attributes
    if style.isSingle tag then return "<" ++ tag ++ attributes ++ style.closing.markup tag
    else
      let content ← content
      return "<" ++ tag ++ attributes ++ ">" ++ content ++ "</" ++ tag ++ ">"

mutual

def markup (style : RenderStyle) : Value → Outcome String
  | atom a => leafMarkup a
  | seq _ items => itemsMarkup style items
  | map _ entries =>
    elementMarkup style (field entries "tag") (field entries "attrs") (contentMarkup style entries)

def itemsMarkup (style : RenderStyle) : List Value → Outcome String
  | [] => .ok ""
  | item :: rest => do
    let first ← markup style item
    let others ← itemsMarkup style rest
    return first ++ others

def contentMarkup (style : RenderStyle) : List (Value × Value) → Outcome String
  | [] => .ok ""
  | (key, value) :: rest =>
    if key.same (str "content") then markup style value else contentMarkup style rest

end

theorem contentMarkup_eq (style : RenderStyle) (entries : List (Value × Value)) :
    contentMarkup style entries = markup style (field entries "content") := by
  induction entries with
  | nil => rfl
  | cons entry entries ih =>
    rw [contentMarkup, field, Entries.at?, Entries.get?, List.find?_cons]
    split
    · rename_i hKey
      rw [hKey]
      rfl
    · rename_i hKey
      rw [Bool.eq_false_iff.mpr hKey]
      exact ih

end Value

/-- Renders with options that may have been changed since they were made. Options that are not
valid any more are a fault of rendering, unless they cannot even be checked. -/
def renderWith (options : Options) (markup : RenderStyle → Outcome String) : Outcome String :=
  match options.validate with
  | .error (.config fault) => .error (.render (.options fault))
  | .error fault => .error fault
  | .ok () => markup options.renderStyle

def render (options : Options) (tree : Value) : Outcome String :=
  renderWith options tree.markup

end Hypertext
