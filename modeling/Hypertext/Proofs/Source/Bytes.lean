import Hypertext.Pipeline.Processing
import Hypertext.Proofs.Isolation.Viewing
import Hypertext.Proofs.Pipeline.Stages
import Hypertext.Proofs.Text.Decoding

/-! # Sources that give bytes

Bytes are parsed as the text whose bytes they are, after one byte order mark. Bytes of no text are
a fault that tells how far they are well-formed. Whether they come as they are, from an object or
from a file makes no difference.
-/

namespace Hypertext

set_option autoImplicit false

open Text

variable {σ : Type}

namespace Source

/-- What gives `data` when it is read. -/
inductive Gives (files : FileSystem) (data : Bytes) : Atom → Prop where
  | bytes : Gives files data (.bytes data)
  | readable (className : String) : Gives files data (.readable className (.bytes data))
  | file {path : String} (hName : FileName.check path = .ok ()) (hFile : files path = .file data) :
    Gives files data (.path path)

theorem Gives.read_eq {files : FileSystem} {data : Bytes} {source : Atom}
    (h : Gives files data source) : read files (.atom source) = decode data := by
  cases h with
  | bytes => rfl
  | readable className => rfl
  | file hName hFile =>
    rw [read, hName, FileSystem.read, hFile]
    rfl

theorem decode_eq_ok {data : Bytes} {text : String}
    (h : (Utf8.withoutMark data).toByteArray = text.toUTF8) : decode data = .ok text := by
  have hText : Utf8.decodeFrom 0 (Utf8.withoutMark data) = .ok text.toList :=
    Utf8.decodeFrom_eq_ok_iff.mpr (Utf8.toByteArray_eq_iff.mp h)
  rw [decode, Utf8.decodeMarked, Utf8.decode, hText]
  exact congrArg Except.ok String.ofList_toList

theorem decode_eq_error {data : Bytes}
    (h : ¬ (Utf8.withoutMark data).toByteArray.IsValidUTF8) :
    ∃ cause : DecodeFault, decode data = .error (.parse (.undecodable cause)) ∧
      Utf8.IsLongestPrefix (Utf8.withoutMark data) cause.start := by
  cases hDecode : Utf8.decode (Utf8.withoutMark data) with
  | ok text =>
    exact absurd (Utf8.isValidUTF8_iff.mpr ⟨text, Utf8.decodeFrom_eq_ok_iff.mp hDecode⟩) h
  | error cause =>
    refine ⟨cause, ?_, Utf8.isLongestPrefix_of_error hDecode⟩
    rw [decode, Utf8.decodeMarked, hDecode]

end Source

namespace Processing

theorem parseSource_congr {files : FileSystem} {first second : Atom}
    (h : Source.read files (.atom first) = Source.read files (.atom second))
    (options : OptionsRef) (id : Value) (world : World σ) :
    parseSource files (.atom first) options id world =
      parseSource files (.atom second) options id world := by
  simp only [parseSource, Store.view, Store.viewTo_atom, h]

theorem parseSource_text (files : FileSystem) (text : String) (options : OptionsRef) (id : Value)
    (world : World σ) :
    ∃ tree, (parseSource files (.atom (.str text)) options id world).1 = .ok tree := by
  simp only [parseSource, Store.view, Store.viewTo_atom, Source.read]
  exact ⟨_, rfl⟩

theorem parseSource_fault {files : FileSystem} {source : Atom} {fault : Fault}
    (h : Source.read files (.atom source) = .error fault) (options : OptionsRef) (id : Value)
    (world : World σ) :
    parseSource files (.atom source) options id world = (.error fault, world) := by
  simp only [parseSource, Store.view, Store.viewTo_atom, h]

end Processing

/-- Bytes, as they are or read from an object or a file, are parsed as the text they are the bytes of
behind one mark. They are refused when there is no such text, at the end of what is well-formed. -/
theorem parse_decodes (files : FileSystem) (data : Bytes) {source : Atom}
    (hGives : Source.Gives files data source) (options : OptionsRef) (id : Value) (world : World σ) :
    let rest := Utf8.withoutMark data
    let parsed (a : Atom) := Processing.parseSource files (.atom a) options id world
    parsed source = parsed (.bytes data) ∧
    ((∃ tree, (parsed source).1 = .ok tree) ↔ rest.toByteArray.IsValidUTF8) ∧
    (∀ text : String, rest.toByteArray = text.toUTF8 → parsed source = parsed (.str text)) ∧
    (¬ rest.toByteArray.IsValidUTF8 → ∃ cause length, parsed source = (.error (.parse cause), world) ∧
      cause.position? = some length ∧ Utf8.IsLongestPrefix rest length) ∧
    (∀ text : String, text.toList.head? ≠ some '\uFEFF' → data.toByteArray = text.toUTF8 →
      parsed source = parsed (.str text)) ∧
    ∀ text : String, data.toByteArray = Utf8.byteOrderMark.toByteArray ++ text.toUTF8 →
      parsed source = parsed (.str text) := by
  intro rest parsed
  have hText (text : String) (hBytes : rest.toByteArray = text.toUTF8) :
      parsed source = parsed (.str text) := by
    apply Processing.parseSource_congr
    rw [hGives.read_eq, Source.decode_eq_ok hBytes]
    rfl
  have hInvalid (hBytes : ¬ rest.toByteArray.IsValidUTF8) : ∃ cause : DecodeFault,
      parsed source = (.error (.parse (.undecodable cause)), world) ∧
        Utf8.IsLongestPrefix rest cause.start := by
    obtain ⟨cause, hDecode, hLongest⟩ := Source.decode_eq_error hBytes
    exact ⟨cause, Processing.parseSource_fault (hGives.read_eq.trans hDecode) options id world,
      hLongest⟩
  refine ⟨?_, ⟨?_, ?_⟩, hText, ?_, ?_, ?_⟩
  · exact Processing.parseSource_congr (hGives.read_eq.trans (Source.Gives.bytes.read_eq).symm) _ _ _
  · rintro ⟨tree, hTree⟩
    by_contra hBytes
    obtain ⟨cause, hFault, -⟩ := hInvalid hBytes
    rw [hFault] at hTree
    cases hTree
  · intro hValid
    obtain ⟨text, hBytes⟩ := Utf8.exists_toUTF8 hValid
    rw [hText text hBytes]
    exact Processing.parseSource_text files text options id world
  · intro hBytes
    obtain ⟨cause, hFault, hLongest⟩ := hInvalid hBytes
    exact ⟨_, _, hFault, rfl, hLongest⟩
  · intro text hFirst hBytes
    have hEncoded := Utf8.toByteArray_eq_iff.mp hBytes
    have hSame : rest = data :=
      (congrArg Utf8.withoutMark hEncoded).trans
        ((Utf8.withoutMark_encode hFirst).trans hEncoded.symm)
    exact hText text ((congrArg List.toByteArray hSame).trans hBytes)
  · intro text hBytes
    have hMarked : data = Utf8.byteOrderMark ++ Utf8.encode text.toList := by
      rw [← Utf8.toByteArray_inj, hBytes, List.toByteArray_append, Utf8.toUTF8_eq]
    have hRest : rest = Utf8.encode text.toList :=
      (congrArg Utf8.withoutMark hMarked).trans (Utf8.withoutMark_append _)
    exact hText text (Utf8.toByteArray_eq_iff.mpr hRest)

/-- A file that begins with two marks holds one in its text, and its line end stays as it is; an
object gives bytes that would be half of a surrogate pair. -/
theorem parse_decodes_marked :
    let page : Bytes := [0xef, 0xbb, 0xbf, 0xef, 0xbb, 0xbf, 0xc3, 0xa9, 0x0d, 0x0a]
    let broken : Bytes := [0x61, 0xed, 0xa0, 0x80]
    let files : FileSystem := fun path => if path = "page" then .file page else .missing
    let parsed (a : Atom) := Processing.parseSource files (.atom a) ⟨0⟩ .none World.made
    Source.Gives files page (.path "page") ∧
      (Utf8.withoutMark page).toByteArray = "\uFEFFé\r\n".toUTF8 ∧
      parsed (.path "page") = parsed (.str "\uFEFFé\r\n") ∧
      Source.Gives files broken (.readable "BytesIO" (.bytes broken)) ∧
      ¬ (Utf8.withoutMark broken).toByteArray.IsValidUTF8 ∧
      ∃ cause length,
        parsed (.readable "BytesIO" (.bytes broken)) = (.error (.parse cause), World.made) ∧
          cause.position? = some length ∧ Utf8.IsLongestPrefix broken length := by
  intro page broken files parsed
  have hPage : Source.Gives files page (.path "page") := .file rfl rfl
  have hText : (Utf8.withoutMark page).toByteArray = "\uFEFFé\r\n".toUTF8 := by decide
  have hBroken : Source.Gives files broken (.readable "BytesIO" (.bytes broken)) := .readable _
  have hInvalid : ¬ (Utf8.withoutMark broken).toByteArray.IsValidUTF8 := by decide
  obtain ⟨-, -, hParsed, -⟩ := parse_decodes files page hPage ⟨0⟩ .none World.made
  obtain ⟨-, -, -, hRefused, -⟩ := parse_decodes files broken hBroken ⟨0⟩ .none World.made
  exact ⟨hPage, hText, hParsed _ hText, hBroken, hInvalid, hRefused hInvalid⟩

end Hypertext
