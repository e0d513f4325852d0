import Hypertext.Text.Decoding
import Hypertext.Value.Written

/-! # Faults

Everything that can end a run early, by its cause. What plugins and collaborators raise is kept as
it is; the wording of all others is fixed here.
-/

namespace Hypertext

set_option autoImplicit false

inductive FileFault where
  | missing
  | isDirectory
  deriving DecidableEq, Repr

inductive ConfigFault where
  | closingStyle (got : Value)
  | singleTags
  | collaborator (field : String)
  | unknownOption (key : String) (suggestions : List String)
  | notOptions (typeName : String)
  deriving Repr

inductive ParseFault where
  | missingFile (path : String)
  | unreadableFile (path : String) (fault : FileFault)
  | undecodableFile (path : String) (fault : Text.DecodeFault)
  | undecodable (fault : Text.DecodeFault)
  | unsupported (typeName : String)
  deriving Repr

inductive RenderFault where
  | options (fault : ConfigFault)
  | unsupported (typeName : String)
  | attributes (typeName : String)
  deriving Repr

inductive ArgumentFault where
  | line
  | column
  | offset
  | timingName
  | timingIndex
  | fileName
  /-- A part that should be a key and its value has another length. -/
  | pairLength (index length : Nat)
  deriving DecidableEq, Repr

inductive Fault where
  | config (fault : ConfigFault)
  | parse (fault : ParseFault)
  | render (fault : RenderFault)
  /-- An asynchronous plugin met in blocking mode. -/
  | modeViolation (plugin : String)
  /-- A failure that is not an exception, handed to a completion callback. -/
  | reported (plugin : String) (reason : Value)
  | raised (failure : Failure)
  | argument (fault : ArgumentFault)
  | notTree (typeName : String)
  | immutableContent
  | notCallable (typeName : String)
  | attributeName
  | nonTextKeyword
  | unknownKeyword (key : String)
  | wrongType (detail : String)
  | missingMember (detail : String)
  | badIndex (assignment : Bool)
  | missingKey (key : Value)
  | logField (key : String)
  | unknownEncoding (name : String)
  | cancelled
  /-- Nesting or repetition went beyond every bound. -/
  | exhausted
  deriving Repr

namespace FileFault

def message (path : String) : FileFault → String
  | missing => "[Errno 2] No such file or directory: " ++ Text.quoted path
  | isDirectory => "[Errno 21] Is a directory: " ++ Text.quoted path

end FileFault

def closingStyleNames : List String := ["default", "slash", "tag"]

namespace ConfigFault

def message : ConfigFault → String
  | closingStyle got =>
    "closing_single_tag must be one of " ++ (Value.list (closingStyleNames.map .str)).written ++
      ", got " ++ got.written
  | singleTags => "single_tags must be a list of tag names"
  | collaborator field => field ++ " must be callable or None"
  | unknownOption key suggestions =>
    let hint :=
      if suggestions.isEmpty then ""
      else " (did you mean " ++ ", ".intercalate suggestions ++ "?)"
    "Unknown process option: " ++ key ++ hint
  | notOptions typeName => "options must be ProcessOptions or a mapping, got " ++ typeName

def field : ConfigFault → String
  | closingStyle _ => "closing_single_tag"
  | singleTags => "single_tags"
  | collaborator field => field
  | unknownOption key _ => key
  | notOptions _ => "options"

def suggestions : ConfigFault → List String
  | closingStyle _ => closingStyleNames
  | unknownOption _ suggestions => suggestions
  | _ => []

end ConfigFault

namespace ParseFault

def message : ParseFault → String
  | missingFile path => "File not found: " ++ path
  | unreadableFile path fault => "Unable to read " ++ path ++ ": " ++ fault.message path
  | undecodableFile path fault => "Unable to read " ++ path ++ ": " ++ fault.message
  | undecodable fault => "Input is not valid UTF-8: " ++ fault.message
  | unsupported typeName =>
    "Cannot parse input of type " ++ typeName ++
      "; pass skip_parse=True to process an existing tree"

/-- Where the input is broken, when it is its bytes that are at fault. -/
def position? : ParseFault → Option Nat
  | undecodable fault => some fault.start
  | _ => none

end ParseFault

namespace RenderFault

def message : RenderFault → String
  | options fault => "Invalid render options: " ++ fault.message
  | unsupported typeName => "Cannot render value of type " ++ typeName
  | attributes typeName => "Node attrs must be a mapping, got " ++ typeName

end RenderFault

namespace ArgumentFault

def message : ArgumentFault → String
  | line => "Line number must be >= 1"
  | column => "Column number must be >= 1"
  | offset => "Offset must be >= 0"
  | timingName => "Plugin name cannot be empty"
  | timingIndex => "Plugin index must be >= 0"
  | fileName => "embedded null byte"
  | pairLength index length =>
    "dictionary update sequence element #" ++ toString index ++ " has length " ++
      toString length ++ "; 2 is required"

end ArgumentFault

namespace Fault

def message : Fault → String
  | config fault => fault.message
  | parse fault => fault.message
  | render fault => fault.message
  | modeViolation plugin => "Can't process synchronously because of async plugin: " ++ plugin
  | reported plugin reason => "Plugin " ++ plugin ++ " reported an error: " ++ reason.text
  | raised failure => failure.message
  | argument fault => fault.message
  | notTree typeName => "Cannot attach tree capabilities to " ++ typeName
  | immutableContent => "Cannot replace items of an immutable content sequence"
  | notCallable typeName => "Plugin must be callable, got " ++ typeName
  | attributeName => "Attribute name must be a string"
  | nonTextKeyword => "keywords must be strings"
  | unknownKeyword key =>
    "ProcessOptions.__init__() got an unexpected keyword argument " ++ Text.quoted key
  | wrongType detail => detail
  | missingMember detail => detail
  | badIndex false => "list index out of range"
  | badIndex true => "list assignment index out of range"
  | missingKey key => key.written
  | logField key => "Attempt to overwrite " ++ Text.quoted key ++ " in LogRecord"
  | unknownEncoding name => "unknown encoding: " ++ name
  | cancelled => ""
  | exhausted => "maximum recursion depth exceeded"

def className : Fault → String
  | config _ => "ConfigValidationError"
  | parse _ => "ParseError"
  | render _ => "RenderError"
  | modeViolation _ => "ModeViolationError"
  | reported _ _ => "PluginReportedError"
  | raised failure => failure.className
  | argument _ => "ValueError"
  | notTree _ | immutableContent | notCallable _ | attributeName | nonTextKeyword
  | unknownKeyword _ | wrongType _ => "TypeError"
  | missingMember _ => "AttributeError"
  | badIndex _ => "IndexError"
  | missingKey _ | logField _ => "KeyError"
  | unknownEncoding _ => "LookupError"
  | cancelled => "CancelledError"
  | exhausted => "RecursionError"

/-- The message as the text of the fault shows it: a missing key is quoted. -/
def text : Fault → String
  | raised failure => Atom.failureText failure
  | logField key => Text.quoted (logField key).message
  | other => other.message

def written : Fault → String
  | missingKey key => "KeyError(" ++ key.written ++ ")"
  | cancelled => "CancelledError()"
  | other => other.className ++ "(" ++ Text.quoted other.message ++ ")"

def isCancellation : Fault → Bool
  | cancelled => true
  | raised failure => failure.kind = .cancellation
  | _ => false

/-- Whether a fault is an exception, which ends a run as a failed one. -/
def isFailure : Fault → Bool
  | cancelled => false
  | raised failure => failure.kind.isException
  | _ => true

def leaving : Fault → Fault
  | raised failure => raised failure.leaving
  | other => other

@[simp] theorem isFailure_leaving (fault : Fault) : fault.leaving.isFailure = fault.isFailure := by
  cases fault with
  | raised failure => exact failure.isException_leaving
  | _ => rfl

end Fault

abbrev Outcome (α : Type) := Except Fault α

namespace Outcome

variable {α : Type} {change : Fault → Fault} {outcome : Outcome α} {a : α}

@[simp] theorem mapError_error {fault : Fault} :
    (Except.error fault : Outcome α).mapError change = .error (change fault) := rfl

theorem ok_bind {β : Type} (a : α) (next : α → Outcome β) : (Except.ok a >>= next) = next a := rfl

theorem bind_eq_ok {β : Type} {next : α → Outcome β} {b : β} :
    outcome >>= next = .ok b ↔ ∃ a, outcome = .ok a ∧ next a = .ok b := by
  cases outcome with
  | error fault =>
    refine iff_of_false nofun ?_
    rintro ⟨a, hOutcome, -⟩
    cases hOutcome
  | ok a =>
    constructor
    · exact fun h => ⟨a, rfl, h⟩
    · rintro ⟨_, ⟨rfl⟩, h⟩
      exact h

end Outcome

def Value.checkKey (key : Value) : Outcome Unit :=
  match key.changeable? with
  | some typeName => .error (.wrongType ("unhashable type: '" ++ typeName ++ "'"))
  | Option.none => .ok ()

end Hypertext
