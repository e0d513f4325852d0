import Hypertext.Text.Visible

/-! # Quoted text

Text and bytes as they appear inside messages and inside written values. A single quote
surrounds the text unless the text holds single quotes and no double ones. The quote in
use, the backslash and the three common control characters are escaped by a backslash;
whatever cannot be seen is written by its code point.
-/

namespace Hypertext.Text

set_option autoImplicit false

def hexDigit (n : Nat) : Char :=
  if n < 10 then Char.ofNat (48 + n) else Char.ofNat (87 + n)

def hex : Nat → Nat → List Char
  | 0, _ => []
  | width + 1, n => hex width (n / 16) ++ [hexDigit (n % 16)]

def codePointEscape (n : Nat) : List Char :=
  if n < 0x100 then '\\' :: 'x' :: hex 2 n
  else if n < 0x10000 then '\\' :: 'u' :: hex 4 n
  else '\\' :: 'U' :: hex 8 n

def quoteFor (hasSingle hasDouble : Bool) : Char :=
  if hasSingle && !hasDouble then '"' else '\''

def escaped (quote c : Char) : List Char :=
  if c = quote || c = '\\' then ['\\', c]
  else if c = '\n' then ['\\', 'n']
  else if c = '\r' then ['\\', 'r']
  else if c = '\t' then ['\\', 't']
  else if isVisible c then [c]
  else codePointEscape c.toNat

def quoted (text : String) : String :=
  let cs := text.toList
  let quote := quoteFor (cs.contains '\'') (cs.contains '"')
  String.ofList (quote :: cs.flatMap (escaped quote) ++ [quote])

def escapedByte (quote : Char) (byte : UInt8) : List Char :=
  if byte < 0x20 || byte ≥ 0x7f then
    if byte = 0x0a then ['\\', 'n']
    else if byte = 0x0d then ['\\', 'r']
    else if byte = 0x09 then ['\\', 't']
    else '\\' :: 'x' :: hex 2 byte.toNat
  else escaped quote (Char.ofNat byte.toNat)

def quotedBytes (bytes : List UInt8) : String :=
  let quote := quoteFor (bytes.contains 0x27) (bytes.contains 0x22)
  String.ofList ('b' :: quote :: bytes.flatMap (escapedByte quote) ++ [quote])

end Hypertext.Text
