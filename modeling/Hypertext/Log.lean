import Hypertext.Fault

/-! # Log records

A record carries the component that wrote it and the id that the records of one run share. A
logger adds the fields it is bound to; fields given with a message win over those.
-/

namespace Hypertext

set_option autoImplicit false

inductive LogLevel where
  | debug
  | info
  | warning
  | error
  | critical
  deriving DecidableEq, Repr

namespace LogLevel

def rank : LogLevel → Nat
  | debug => 10
  | info => 20
  | warning => 30
  | error => 40
  | critical => 50

def name : LogLevel → String
  | debug => "DEBUG"
  | info => "INFO"
  | warning => "WARNING"
  | error => "ERROR"
  | critical => "CRITICAL"

def all : List LogLevel := [debug, info, warning, error, critical]

def ofName? (name : String) : Option LogLevel := all.find? (·.name = name)

def reaches (level least : LogLevel) : Bool := least.rank ≤ level.rank

end LogLevel

abbrev Fields := List (String × Value)

namespace Fields

/-- A new field goes to the end; one already present keeps its place. -/
def set (fields : Fields) (field : String × Value) : Fields :=
  if fields.any (·.1 = field.1) then
    fields.map fun f => if f.1 = field.1 then field else f
  else fields ++ [field]

def merge (fields more : Fields) : Fields := more.foldl set fields

def get (fields : Fields) (name : String) : Value :=
  ((fields.find? (·.1 = name)).map (·.2)).getD .none

end Fields

structure LogRecord where
  level : LogLevel
  logger : String
  message : String
  component : Value
  correlationId : Value
  /-- The class of the fault that was being handled. -/
  failure : Option String
  extra : Fields
  deriving Repr

namespace LogRecord

/-- Fields that every record has of its own; no message may bring them along. -/
def reserved : List String :=
  ["message", "asctime", "name", "msg", "args", "levelname", "levelno", "pathname", "filename",
    "module", "exc_info", "exc_text", "stack_info", "lineno", "funcName", "created", "msecs",
    "relativeCreated", "thread", "threadName", "processName", "process"]

/-- The fields by name, without durations. -/
def listedFields (record : LogRecord) : Fields :=
  (record.extra.filter fun field => !field.1.endsWith "_ms").mergeSort fun f g => f.1 ≤ g.1

end LogRecord

structure Logger where
  name : String
  correlationId : Value
  component : String
  context : Fields
  deriving Repr

namespace Logger

def lastSegment (name : String) : String :=
  String.ofList (name.toList.reverse.takeWhile (· ≠ '.')).reverse

/-- A logger without a component of its own takes the last segment of its name. -/
def make (name : String) (correlationId : Value) (component : String) (context : Fields) : Logger :=
  ⟨name, correlationId, if component = "" then lastSegment name else component, context⟩

def bind (logger : Logger) (context : Fields) : Logger :=
  make logger.name logger.correlationId logger.component (Fields.merge logger.context context)

def record (logger : Logger) (level : LogLevel) (message : String) (extra : Fields)
    (failure : Option String) : LogRecord :=
  let own : Fields := [("component", .str logger.component), ("correlation_id", logger.correlationId)]
  let fields := Fields.merge (Fields.merge own logger.context) extra
  { level
    logger := logger.name
    message
    component := Fields.get fields "component"
    correlationId := Fields.get fields "correlation_id"
    failure
    extra := fields.filter fun field => field.1 ≠ "component" && field.1 ≠ "correlation_id" }

/-- The records of one message under a threshold: none below it, and otherwise one, unless a
field is named like a part of every record. -/
def write (logger : Logger) (least level : LogLevel) (message : String) (extra : Fields)
    (failure : Option String) : Outcome (List LogRecord) :=
  if level.reaches least then
    let record := logger.record level message extra failure
    match record.extra.find? fun field => LogRecord.reserved.contains field.1 with
    | some (key, _) => .error (.logField key)
    | none => .ok [record]
  else .ok []

end Logger

end Hypertext
