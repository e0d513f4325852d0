import Hypertext.Fault

/-! # Sources of markup

Markup comes as text, as bytes, from a readable object or from a file. Bytes are decoded as
UTF-8 after a byte order mark; a file read as text is decoded as asked and its line endings
become line feeds.
-/

namespace Hypertext

set_option autoImplicit false

inductive FileEntry where
  | missing
  | directory
  | file (data : Bytes)
  deriving DecidableEq, Repr

abbrev FileSystem := String → FileEntry

namespace FileName

def segments (path : List Char) : List (List Char) :=
  (path.splitOn '/').filter fun segment => segment ≠ [] && segment ≠ ['.']

def normal (path : String) : String :=
  let cs := path.toList
  let root :=
    match cs with
    | '/' :: '/' :: '/' :: _ => "/"
    | '/' :: '/' :: _ => "//"
    | '/' :: _ => "/"
    | _ => ""
  let body := "/".intercalate ((segments cs).map String.ofList)
  if root ++ body = "" then "." else root ++ body

/-- No file can be asked for by a name that holds a NUL. -/
def check (path : String) : Outcome Unit :=
  if '\x00' ∈ path.toList then .error (.argument .fileName) else .ok ()

end FileName

namespace FileSystem

def read (files : FileSystem) (path : String) : Except FileFault Bytes :=
  match files path with
  | .missing => .error .missing
  | .directory => .error .isDirectory
  | .file data => .ok data

end FileSystem

namespace Source

def decode (data : Bytes) : Outcome String :=
  match Text.Utf8.decodeMarked data with
  | .ok text => .ok (String.ofList text)
  | .error fault => .error (.parse (.undecodable fault))

def read (files : FileSystem) : Value → Outcome String
  | .atom (.str s) => .ok s
  | .atom (.bytes data) => decode data
  | .atom (.path path) => do
    FileName.check path
    match files.read path with
    | .ok data => decode data
    | .error fault => .error (.parse (.unreadableFile path fault))
  | .atom (.readable _ (.bytes data)) => decode data
  | .atom (.readable _ (.text s)) => .ok s
  | other => .error (.parse (.unsupported other.typeName))

def load (files : FileSystem) (path : String) (encoding : String) : Outcome String := do
  FileName.check path
  match files.read path with
  | .error .missing => .error (.parse (.missingFile path))
  | .error fault => .error (.parse (.unreadableFile path fault))
  | .ok data =>
    match Text.Encoding.ofName? encoding with
    | none => .error (.unknownEncoding encoding)
    | some encoding =>
      match encoding.decode data with
      | .ok text => .ok (String.ofList (Text.unifyLineEnds text))
      | .error fault => .error (.parse (.undecodableFile path fault))

end Source

end Hypertext
