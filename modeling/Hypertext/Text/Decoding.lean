import Hypertext.Text.Quoted

/-! # Decoding bytes

Decoding stops at the first byte that begins no well-formed character. The fault tells where
that is and how many bytes belong to the broken character: those that a well-formed character
could have begun with.
-/

namespace Hypertext.Text

set_option autoImplicit false

inductive DecodeReason where
  | invalidStart
  | invalidContinuation
  | unexpectedEnd
  | notAscii
  deriving DecidableEq, Repr

structure DecodeFault where
  codec : String
  start : Nat
  /-- The bytes that are reported, at least one. -/
  broken : List UInt8
  reason : DecodeReason
  deriving DecidableEq, Repr

namespace DecodeReason

def text : DecodeReason → String
  | invalidStart => "invalid start byte"
  | invalidContinuation => "invalid continuation byte"
  | unexpectedEnd => "unexpected end of data"
  | notAscii => "ordinal not in range(128)"

end DecodeReason

namespace DecodeFault

def message (fault : DecodeFault) : String :=
  let subject :=
    match fault.broken with
    | [byte] =>
      "byte 0x" ++ String.ofList (hex 2 byte.toNat) ++ " in position " ++ toString fault.start
    | bytes =>
      "bytes in position " ++ toString fault.start ++ "-" ++
        toString (fault.start + bytes.length - 1)
  "'" ++ fault.codec ++ "' codec can't decode " ++ subject ++ ": " ++ fault.reason.text

end DecodeFault

namespace Utf8

def isContinuation (byte : UInt8) : Bool := 0x80 ≤ byte && byte ≤ 0xbf

/-- The second byte is bounded more tightly after some first bytes, which keeps out overlong
forms, surrogates and values beyond the last code point. -/
def isSecond (first second : UInt8) : Bool :=
  if first = 0xe0 then 0xa0 ≤ second && second ≤ 0xbf
  else if first = 0xed then 0x80 ≤ second && second ≤ 0x9f
  else if first = 0xf0 then 0x90 ≤ second && second ≤ 0xbf
  else if first = 0xf4 then 0x80 ≤ second && second ≤ 0x8f
  else isContinuation second

def isLead (byte : UInt8) : Bool := 0xc2 ≤ byte && byte ≤ 0xf4

def two (b0 b1 : UInt8) : Char := Char.ofNat (b0.toNat % 32 * 64 + b1.toNat % 64)

def three (b0 b1 b2 : UInt8) : Char :=
  Char.ofNat ((b0.toNat % 16 * 64 + b1.toNat % 64) * 64 + b2.toNat % 64)

def four (b0 b1 b2 b3 : UInt8) : Char :=
  Char.ofNat (((b0.toNat % 8 * 64 + b1.toNat % 64) * 64 + b2.toNat % 64) * 64 + b3.toNat % 64)

def fault (start : Nat) (broken : List UInt8) (reason : DecodeReason) :
    Except DecodeFault (List Char) :=
  .error ⟨"utf-8", start, broken, reason⟩

def decodeFrom (start : Nat) : List UInt8 → Except DecodeFault (List Char)
  | [] => .ok []
  | b0 :: bytes0 =>
    if b0 < 0x80 then return Char.ofNat b0.toNat :: (← decodeFrom (start + 1) bytes0)
    else if !isLead b0 then fault start [b0] .invalidStart
    else
      match bytes0 with
      | [] => fault start [b0] .unexpectedEnd
      | b1 :: bytes1 =>
        if !isSecond b0 b1 then fault start [b0] .invalidContinuation
        else if b0 < 0xe0 then return two b0 b1 :: (← decodeFrom (start + 2) bytes1)
        else
          match bytes1 with
          | [] => fault start [b0, b1] .unexpectedEnd
          | b2 :: bytes2 =>
            if !isContinuation b2 then fault start [b0, b1] .invalidContinuation
            else if b0 < 0xf0 then return three b0 b1 b2 :: (← decodeFrom (start + 3) bytes2)
            else
              match bytes2 with
              | [] => fault start [b0, b1, b2] .unexpectedEnd
              | b3 :: bytes3 =>
                if !isContinuation b3 then fault start [b0, b1, b2] .invalidContinuation
                else return four b0 b1 b2 b3 :: (← decodeFrom (start + 4) bytes3)

def byteOrderMark : List UInt8 := [0xef, 0xbb, 0xbf]

def withoutMark : List UInt8 → List UInt8
  | 0xef :: 0xbb :: 0xbf :: rest => rest
  | bytes => bytes

def decode (bytes : List UInt8) : Except DecodeFault (List Char) := decodeFrom 0 bytes

/-- Positions in a fault count from after the mark. -/
def decodeMarked (bytes : List UInt8) : Except DecodeFault (List Char) :=
  decode (withoutMark bytes)

end Utf8

namespace Ascii

def decodeFrom (start : Nat) : List UInt8 → Except DecodeFault (List Char)
  | [] => .ok []
  | byte :: rest =>
    if byte < 0x80 then return Char.ofNat byte.toNat :: (← decodeFrom (start + 1) rest)
    else .error ⟨"ascii", start, [byte], .notAscii⟩

end Ascii

namespace Latin1

def decode (bytes : List UInt8) : List Char := bytes.map fun byte => Char.ofNat byte.toNat

end Latin1

inductive Encoding where
  | utf8
  | utf8Marked
  | ascii
  | latin1
  deriving DecidableEq, Repr

namespace Encoding

def spellings : Encoding → List String
  | utf8 => ["utf-8", "utf8", "u8", "utf"]
  | utf8Marked => ["utf-8-sig", "utf8-sig"]
  | ascii => ["ascii", "us-ascii", "646"]
  | latin1 => ["latin-1", "latin1", "iso-8859-1", "iso8859-1", "8859", "cp819", "l1", "latin"]

/-- Names are read without regard to case, and with either kind of dash. -/
def ofName? (name : String) : Option Encoding :=
  let plain := String.ofList (name.toList.map fun c => if c = '_' then '-' else c.toLower)
  [utf8, utf8Marked, ascii, latin1].find? (·.spellings.contains plain)

def decode : Encoding → List UInt8 → Except DecodeFault (List Char)
  | utf8, bytes => Utf8.decode bytes
  | utf8Marked, bytes => Utf8.decodeMarked bytes
  | ascii, bytes => Ascii.decodeFrom 0 bytes
  | latin1, bytes => .ok (Latin1.decode bytes)

end Encoding

/-- Every line ending becomes a line feed. -/
def unifyLineEnds : List Char → List Char
  | [] => []
  | '\r' :: '\n' :: rest => '\n' :: unifyLineEnds rest
  | '\r' :: rest => '\n' :: unifyLineEnds rest
  | c :: rest => c :: unifyLineEnds rest

end Hypertext.Text
