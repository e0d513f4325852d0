/-! # Tokens

Markup is a sequence of tokens, each beginning at a position of the text. Text, comments and
directives stand for themselves; tags are read.
-/

namespace Hypertext

set_option autoImplicit false

/-- A place in a text: lines and columns count from one, the offset from zero. -/
structure Position where
  line : Nat
  column : Nat
  offset : Nat
  deriving DecidableEq, Repr

namespace Position

def start : Position := ⟨1, 1, 0⟩

def next (p : Position) (c : Char) : Position :=
  if c = '\n' then ⟨p.line + 1, 1, p.offset + 1⟩ else ⟨p.line, p.column + 1, p.offset + 1⟩

def after (p : Position) (text : List Char) : Position := text.foldl next p

@[simp] theorem after_nil (p : Position) : p.after [] = p := rfl

@[simp] theorem after_cons (p : Position) (c : Char) (text : List Char) :
    p.after (c :: text) = (p.next c).after text := rfl

theorem after_append (p : Position) (first second : List Char) :
    p.after (first ++ second) = (p.after first).after second := by
  simp [after]

@[simp] theorem next_offset (p : Position) (c : Char) : (p.next c).offset = p.offset + 1 := by
  unfold next
  split <;> rfl

@[simp] theorem after_offset (p : Position) (text : List Char) :
    (p.after text).offset = p.offset + text.length := by
  induction text generalizing p with
  | nil => rfl
  | cons c rest ih =>
    rw [after_cons, ih, next_offset, List.length_cons]
    omega

end Position

abbrev Attribute := String × String

inductive Lexeme where
  | text (s : String)
  | startTag (name : String) (attributes : List Attribute) (selfClosing : Bool)
  | endTag (name : String)
  | comment (s : String)
  | directive (s : String)
  deriving DecidableEq, Repr

structure Token where
  position : Position
  lexeme : Lexeme
  deriving DecidableEq, Repr

inductive TokenKind where
  | text
  | startTag
  | endTag
  | comment
  | directive
  deriving DecidableEq, Repr

namespace Lexeme

def kind : Lexeme → TokenKind
  | text _ => .text
  | startTag _ _ _ => .startTag
  | endTag _ => .endTag
  | comment _ => .comment
  | directive _ => .directive

/-- The name of a tag, and the text of everything else. -/
def value : Lexeme → String
  | text s => s
  | startTag name _ _ => name
  | endTag name => name
  | comment s => s
  | directive s => s

def attributes : Lexeme → List Attribute
  | startTag _ attributes _ => attributes
  | _ => []

def selfClosing : Lexeme → Bool
  | startTag _ _ selfClosing => selfClosing
  | _ => false

end Lexeme

namespace TokenKind

def all : List TokenKind := [text, startTag, endTag, comment, directive]

def name : TokenKind → String
  | text => "TEXT"
  | startTag => "START_TAG"
  | endTag => "END_TAG"
  | comment => "COMMENT"
  | directive => "DIRECTIVE"

def ofName? (name : String) : Option TokenKind := all.find? (·.name = name)

theorem ofName?_name (kind : TokenKind) : ofName? kind.name = some kind := by
  cases kind <;> rfl

end TokenKind

/-- Which names are put into lower case while markup is read. -/
structure Casing where
  tags : Bool
  attributes : Bool
  deriving DecidableEq, Repr

end Hypertext
