import Hypertext.Forest.Build
import Hypertext.Log
import Hypertext.Options
import Hypertext.Source
import Hypertext.Token.Scan

/-! # Parsing

Parsing scans markup into tokens and builds their forest. Its settings come from the options of
the run.
-/

namespace Hypertext

set_option autoImplicit false

structure Reading where
  casing : Casing
  recognizeSelfClosing : Bool
  deriving DecidableEq, Repr

def Options.reading (options : Options) : Reading where
  casing := ⟨options.lowerCaseTags.truthy, options.lowerCaseAttributeNames.truthy⟩
  recognizeSelfClosing := options.recognizeSelfClosing.truthy

structure Parsed where
  tokens : List Token
  forest : Forest
  counts : BuildCounts

def parse (reading : Reading) (text : String) : Parsed :=
  let tokens := Token.scan reading.casing text
  let built := Forest.build reading.recognizeSelfClosing (tokens.map (·.lexeme))
  ⟨tokens, built.1, built.2⟩

def parseForest (reading : Reading) (text : String) : Forest := (parse reading text).forest

def parseFrom (files : FileSystem) (reading : Reading) (source : Value) : Outcome Parsed := do
  return parse reading (← Source.read files source)

def parseFile (files : FileSystem) (reading : Reading) (name encoding : String) :
    Outcome Parsed := do
  return parse reading (← Source.load files (FileName.normal name) encoding)

namespace Parsed

def previewLength : Nat := 100

def preview (text : String) : String :=
  if text.length > previewLength then String.ofList (text.toList.take previewLength) ++ "..."
  else text

def log (parsed : Parsed) (correlationId : Value) (text : String) : List LogRecord :=
  let count (n : Nat) : Value := .int n
  let write (name component message : String) (extra : Fields) : LogRecord :=
    (Logger.make name correlationId component []).record .debug message extra none
  [write "markup_pipeline.api.parser" "parse_string" "Starting string parse operation"
      [("content_length", count text.length), ("preview", .str (preview text))],
    write "markup_pipeline.tokenization.tokenizer" "html_tokenizer" "Tokenization completed"
      [("characters", count text.length), ("tokens", count parsed.tokens.length)],
    write "markup_pipeline.tree.builder" "tree_builder" "Tree building completed"
      [("total_elements", count parsed.counts.elements), ("max_depth", count parsed.counts.depth),
        ("repairs", count parsed.counts.repairs)],
    write "markup_pipeline.api.parser" "parse_string" "String parse completed"
      [("total_elements", count parsed.counts.elements),
        ("repairs", count parsed.counts.repairs)]]

end Parsed

end Hypertext
