import Hypertext.Fault
import Hypertext.Text.Resemblance

/-! # Options of a run

Options are read and changed by plugins while a run is under way, so every option may hold any
value; validation says which values are accepted when options are made and when they are used.
-/

namespace Hypertext

set_option autoImplicit false

inductive Setting where
  | skipParse
  | skipRender
  | sync
  | parser
  | render
  | lowerCaseTags
  | lowerCaseAttributeNames
  | recognizeSelfClosing
  | singleTags
  | closingSingleTag
  | quoteAllAttributes
  deriving DecidableEq, Repr

namespace Setting

/-- All settings, in the order in which options list them. -/
def all : List Setting :=
  [skipParse, skipRender, sync, parser, render, lowerCaseTags, lowerCaseAttributeNames,
    recognizeSelfClosing, singleTags, closingSingleTag, quoteAllAttributes]

theorem mem_all (setting : Setting) : setting ∈ all := by
  cases setting <;> simp [all]

def name : Setting → String
  | skipParse => "skip_parse"
  | skipRender => "skip_render"
  | sync => "sync"
  | parser => "parser"
  | render => "render"
  | lowerCaseTags => "lower_case_tags"
  | lowerCaseAttributeNames => "lower_case_attribute_names"
  | recognizeSelfClosing => "recognize_self_closing"
  | singleTags => "single_tags"
  | closingSingleTag => "closing_single_tag"
  | quoteAllAttributes => "quote_all_attributes"

def ofName? (name : String) : Option Setting := all.find? (·.name = name)

theorem ofName?_name (setting : Setting) : ofName? setting.name = some setting := by
  cases setting <;> rfl

/-- Collaborators take over a stage of the run and are known by their names. -/
def isCollaborator : Setting → Bool
  | parser | render => true
  | _ => false

end Setting

structure Options where
  skipParse : Value
  skipRender : Value
  sync : Value
  parser : Value
  render : Value
  lowerCaseTags : Value
  lowerCaseAttributeNames : Value
  recognizeSelfClosing : Value
  singleTags : Value
  closingSingleTag : Value
  quoteAllAttributes : Value
  deriving Repr

namespace Options

def default : Options where
  skipParse := .bool false
  skipRender := .bool false
  sync := .bool false
  parser := .none
  render := .none
  lowerCaseTags := .bool false
  lowerCaseAttributeNames := .bool false
  recognizeSelfClosing := .bool true
  singleTags := .list []
  closingSingleTag := .str "default"
  quoteAllAttributes := .bool true

instance : Inhabited Options := ⟨default⟩

def get (options : Options) : Setting → Value
  | .skipParse => options.skipParse
  | .skipRender => options.skipRender
  | .sync => options.sync
  | .parser => options.parser
  | .render => options.render
  | .lowerCaseTags => options.lowerCaseTags
  | .lowerCaseAttributeNames => options.lowerCaseAttributeNames
  | .recognizeSelfClosing => options.recognizeSelfClosing
  | .singleTags => options.singleTags
  | .closingSingleTag => options.closingSingleTag
  | .quoteAllAttributes => options.quoteAllAttributes

def set (options : Options) (setting : Setting) (value : Value) : Options :=
  match setting with
  | .skipParse => { options with skipParse := value }
  | .skipRender => { options with skipRender := value }
  | .sync => { options with sync := value }
  | .parser => { options with parser := value }
  | .render => { options with render := value }
  | .lowerCaseTags => { options with lowerCaseTags := value }
  | .lowerCaseAttributeNames => { options with lowerCaseAttributeNames := value }
  | .recognizeSelfClosing => { options with recognizeSelfClosing := value }
  | .singleTags => { options with singleTags := value }
  | .closingSingleTag => { options with closingSingleTag := value }
  | .quoteAllAttributes => { options with quoteAllAttributes := value }

def ofGet (value : Setting → Value) : Options where
  skipParse := value .skipParse
  skipRender := value .skipRender
  sync := value .sync
  parser := value .parser
  render := value .render
  lowerCaseTags := value .lowerCaseTags
  lowerCaseAttributeNames := value .lowerCaseAttributeNames
  recognizeSelfClosing := value .recognizeSelfClosing
  singleTags := value .singleTags
  closingSingleTag := value .closingSingleTag
  quoteAllAttributes := value .quoteAllAttributes

@[simp] theorem get_ofGet (value : Setting → Value) (setting : Setting) :
    (ofGet value).get setting = value setting := by
  cases setting <;> rfl

@[simp] theorem get_set (options : Options) (setting other : Setting) (value : Value) :
    (options.set setting value).get other = if other = setting then value else options.get other := by
  cases setting <;> cases other <;> rfl

theorem ext_get {left right : Options} (h : ∀ setting, left.get setting = right.get setting) :
    left = right := by
  cases left
  cases right
  simp only [Options.mk.injEq]
  exact ⟨h .skipParse, h .skipRender, h .sync, h .parser, h .render, h .lowerCaseTags,
    h .lowerCaseAttributeNames, h .recognizeSelfClosing, h .singleTags, h .closingSingleTag,
    h .quoteAllAttributes⟩

/-! ## Validation -/

/-- Lines, each with the line end behind it. -/
def linesOf {α : Type} [DecidableEq α] (lineEnd : α) (data : List α) : List (List α) :=
  data.splitBy fun a _ => a ≠ lineEnd

/-- What iterating over a value yields, or nothing when it cannot be iterated over. -/
def members? : Value → Option (List Value)
  | .seq _ items => some items
  | .map _ entries => some (entries.map (·.1))
  | .atom (.str s) => some (s.toList.map fun c => .str (String.singleton c))
  | .atom (.bytes data) => some (data.map fun byte => .int byte.toNat)
  | .atom (.readable "StringIO" (.text s)) =>
    some ((linesOf '\n' s.toList).map fun line => .str (String.ofList line))
  | .atom (.readable "BytesIO" (.bytes data)) =>
    some ((linesOf 10 data).map fun line => .atom (.bytes line))
  | _ => none

def isText : Value → Bool
  | .atom (.str _) => true
  | _ => false

def isClosingStyle (value : Value) : Bool :=
  closingStyleNames.any fun name => value.same (.str name)

def checkSingleTags (value : Value) : Outcome Unit :=
  if isText value then .error (.config .singleTags)
  else
    match members? value with
    | none => .error (.wrongType ("'" ++ value.typeName ++ "' object is not iterable"))
    | some members =>
      if members.all isText then .ok () else .error (.config .singleTags)

def checkCollaborator (setting : Setting) (value : Value) : Outcome Unit :=
  match value with
  | .none => .ok ()
  | value => if value.isCallable then .ok () else .error (.config (.collaborator setting.name))

/-- The first setting that is refused, in a fixed order, is the one that is reported. -/
def validate (options : Options) : Outcome Unit := do
  if !isClosingStyle options.closingSingleTag then
    throw (.config (.closingStyle options.closingSingleTag))
  checkSingleTags options.singleTags
  checkCollaborator .parser options.parser
  checkCollaborator .render options.render

/-! ## Making options from options -/

/-- The single tags, when they were found to be valid. That has read a readable object to its end, so
that no name is left in it. -/
def singleTagNames (options : Options) : List String :=
  match options.singleTags with
  | .atom (.readable _ _) => []
  | value =>
    ((members? value).getD []).filterMap fun
      | .atom (.str s) => some s
      | _ => none

def sortedNames : List String := (Setting.all.map Setting.name).mergeSort (fun a b => a ≤ b)

def suggestionsFor (key : String) : List String := Text.closeSpellings key sortedNames 3

def assign (options : Options) (changes : List (String × Value)) : Options :=
  changes.foldl (fun options change =>
    match Setting.ofName? change.1 with
    | some setting => options.set setting change.2
    | none => options) options

/-- Assignment to a name that is no setting has no effect. -/
def assignNamed (options : Options) (field : String) (value : Value) : Options :=
  options.assign [(field, value)]

/-- Appends to the single tags in place, which takes a mutable sequence. -/
def addSingleTag (options : Options) (value : Value) : Outcome Options :=
  match options.singleTags with
  | .seq kind items =>
    if kind.isMutable then .ok { options with singleTags := .seq kind (items ++ [value]) }
    else .error (.missingMember ("'" ++ kind.typeName ++ "' object has no attribute 'append'"))
  | other =>
    .error (.missingMember ("'" ++ other.typeName ++ "' object has no attribute 'append'"))

/-- New options with some settings replaced. An unknown name is refused before anything else,
and the result is validated as a whole. -/
def override (options : Options) (changes : List (String × Value)) : Outcome Options :=
  match changes.find? fun change => (Setting.ofName? change.1).isNone with
  | some (key, _) => .error (.config (.unknownOption key (suggestionsFor key)))
  | none => do
    let result := options.assign changes
    result.validate
    return result

/-- Options from settings alone; here a name that is not known is a mistake of the caller. -/
def ofSettings (settings : List (String × Value)) : Outcome Options :=
  match settings.find? fun change => (Setting.ofName? change.1).isNone with
  | some (key, _) => .error (.unknownKeyword key)
  | none => do
    let result := default.assign settings
    result.validate
    return result

def copy (options : Options) : Outcome Options := options.override []

/-- How a collaborator appears among exported settings: by its name. -/
def collaboratorName (value : Value) : Value :=
  if value.truthy then
    match value with
    | .atom (.callable c) => .str (c.ownName?.getD (Atom.callable c).written)
    | value => .str value.written
  else .none

def exported (setting : Setting) (value : Value) : Value :=
  if setting.isCollaborator then collaboratorName value
  else
    match value with
    | .seq (.tree _) items => .list items
    | value => value

def toEntries (options : Options) : List (String × Value) :=
  Setting.all.map fun setting => (setting.name, exported setting (options.get setting))

def ofEntries (entries : List (String × Value)) : Outcome Options := default.override entries

def same (left right : Options) : Bool :=
  Setting.all.all fun setting => (left.get setting).same (right.get setting)

/-! ## Presets -/

inductive Preset where
  | html5
  | xhtml
  | treeOnly
  deriving DecidableEq, Repr

def Preset.ofName? : String → Option Preset
  | "html5" => some .html5
  | "xhtml" => some .xhtml
  | "tree_only" => some .treeOnly
  | _ => none

def ofPreset : Preset → Options
  | .html5 => default
  | .xhtml =>
    { default with
      closingSingleTag := .str "slash"
      lowerCaseTags := .bool true
      lowerCaseAttributeNames := .bool true }
  | .treeOnly => { default with skipParse := .bool true, skipRender := .bool true }

end Options

end Hypertext
