import Hypertext.Parse
import Hypertext.Proofs.Source.Bytes

/-! # Files read as text and as bytes

A file that is read as text keeps its byte order mark as a character, and its line ends become line
feeds. One that is read as bytes loses the mark and nothing else. So both ways refuse the same files,
and read the same text from those without a mark and without carriage returns, and from no others.
-/

namespace Hypertext

set_option autoImplicit false

open Text

theorem Text.unifyLineEnds_of_not_mem {text : List Char} (h : '\r' ∉ text) :
    unifyLineEnds text = text := by
  fun_induction unifyLineEnds text with
  | case1 => rfl
  | case2 | case3 => exact absurd List.mem_cons_self h
  | case4 c rest _ _ ih => rw [ih fun hRest => h (List.mem_cons_of_mem c hRest)]

theorem Text.not_mem_unifyLineEnds (text : List Char) : '\r' ∉ unifyLineEnds text := by
  fun_induction unifyLineEnds text with
  | case1 => exact List.not_mem_nil
  | case2 rest ih | case3 rest _ ih => exact List.not_mem_cons_of_ne_of_not_mem (by decide) ih
  | case4 c rest _ hOther ih =>
    exact List.not_mem_cons_of_ne_of_not_mem (fun h => hOther h.symm) ih

theorem Text.count_unifyLineEnds {c : Char} (hReturn : c ≠ '\r') (hFeed : c ≠ '\n')
    (text : List Char) : (unifyLineEnds text).count c = text.count c := by
  fun_induction unifyLineEnds text with
  | case1 => rfl
  | case2 rest ih | case3 rest _ ih =>
    simp only [List.count_cons_of_ne hReturn.symm, List.count_cons_of_ne hFeed.symm, ih]
  | case4 d rest _ _ ih => rw [List.count_cons, List.count_cons, ih]

theorem Text.Utf8.Spells.eq_return {bytes : Bytes} {c : Char} (h : Spells bytes c)
    (hByte : 0x0d ∈ bytes) : c = '\r' := by
  have hNotSecond {b0 : UInt8} : isSecond b0 0x0d ≠ true := by
    rw [Ne, isSecond_iff]
    exact fun h => absurd h.1.1 (by decide)
  cases h with
  | one hFirst =>
    rw [← List.mem_singleton.mp hByte]
    rfl
  | two hLead hFirst hSecond =>
    rcases List.mem_pair.mp hByte with rfl | rfl
    · exact absurd hLead (by decide)
    · exact absurd hSecond hNotSecond
  | three hLead hAbove hFirst hSecond hThird =>
    simp only [List.mem_cons, List.not_mem_nil, or_false] at hByte
    rcases hByte with rfl | rfl | rfl
    · exact absurd hLead (by decide)
    · exact absurd hSecond hNotSecond
    · exact absurd hThird (by decide)
  | four hLead hAbove hSecond hThird hFourth =>
    simp only [List.mem_cons, List.not_mem_nil, or_false] at hByte
    rcases hByte with rfl | rfl | rfl | rfl
    · exact absurd hLead (by decide)
    · exact absurd hSecond hNotSecond
    · exact absurd hThird (by decide)
    · exact absurd hFourth (by decide)

theorem Text.Utf8.mem_encode_return {text : List Char} : 0x0d ∈ encode text ↔ '\r' ∈ text := by
  constructor
  · intro h
    obtain ⟨c, hChar, hByte⟩ := List.mem_flatMap.mp h
    rwa [← (spells_utf8EncodeChar c).eq_return hByte]
  · exact fun h => List.mem_flatMap.mpr ⟨'\r', h, List.mem_singleton.mpr rfl⟩

namespace Source

/-- Bytes without a mark in front and without carriage returns. -/
structure IsPlain (data : Bytes) : Prop where
  unmarked : ¬ Utf8.byteOrderMark <+: data
  noReturn : 0x0d ∉ data

/-- The two ways read the same text from plain bytes only. -/
theorem isPlain_iff {data : Bytes} {text : List Char}
    (hText : Utf8.withoutMark data = Utf8.encode text) :
    IsPlain data ↔ unifyLineEnds (Utf8.markedText data text) = text := by
  rcases Utf8.withoutMark_cases data with hMark | ⟨hSame, hNone⟩
  · have hPrefix : Utf8.byteOrderMark <+: data := ⟨_, hMark.symm⟩
    refine ⟨fun h => absurd hPrefix h.unmarked, fun h => ?_⟩
    -- the character of the mark is one more than there are in the text
    have hCount := Text.count_unifyLineEnds (c := '\uFEFF') (by decide) (by decide)
      (Utf8.markedText data text)
    rw [h, Utf8.markedText, if_pos hPrefix, List.count_cons_self] at hCount
    omega
  · rw [Utf8.markedText, if_neg hNone]
    have hReturn : 0x0d ∈ data ↔ '\r' ∈ text := by
      rw [← hSame, hText, Utf8.mem_encode_return]
    constructor
    · exact fun h => unifyLineEnds_of_not_mem (mt hReturn.mpr h.noReturn)
    · intro h
      refine ⟨hNone, fun hByte => not_mem_unifyLineEnds text ?_⟩
      rw [h]
      exact hReturn.mp hByte

variable {files : FileSystem} {path : String}

theorem load_file {data : Bytes} (hName : FileName.check path = .ok ())
    (hFile : files path = .file data) :
    load files path "utf-8" =
      match Utf8.decode data with
      | .ok text => .ok (.ofList (unifyLineEnds text))
      | .error fault => .error (.parse (.undecodableFile path fault)) := by
  rw [load, hName, FileSystem.read, hFile]
  rfl

theorem load_text {data : Bytes} {text : String} (hName : FileName.check path = .ok ())
    (hFile : files path = .file data) (hText : (Utf8.withoutMark data).toByteArray = text.toUTF8) :
    load files path "utf-8" =
      .ok (.ofList (unifyLineEnds (Utf8.markedText data text.toList))) := by
  have hDecode := Utf8.decode_eq_ok_iff.mpr ⟨text.toList, Utf8.toByteArray_eq_iff.mp hText, rfl⟩
  rw [load_file hName hFile, hDecode]

theorem load_read_refused (hName : FileName.check path = .ok ())
    (hInvalid : ∀ data, files path = .file data →
      ¬ (Utf8.withoutMark data).toByteArray.IsValidUTF8) :
    ∃ first second, load files path "utf-8" = .error (.parse first) ∧
      read files (.atom (.path path)) = .error (.parse second) := by
  cases hFile : files path with
  | missing =>
    refine ⟨.missingFile path, .unreadableFile path .missing, ?_, ?_⟩
    · rw [load, hName, FileSystem.read, hFile]
      rfl
    · rw [read, hName, FileSystem.read, hFile]
      rfl
  | directory =>
    refine ⟨.unreadableFile path .isDirectory, .unreadableFile path .isDirectory, ?_, ?_⟩
    · rw [load, hName, FileSystem.read, hFile]
      rfl
    · rw [read, hName, FileSystem.read, hFile]
      rfl
  | file data =>
    obtain ⟨cause, hRead, -⟩ := decode_eq_error (hInvalid data hFile)
    rw [(Gives.file hName hFile).read_eq, hRead, load_file hName hFile]
    cases hDecode : Utf8.decode data with
    | error fault => exact ⟨_, _, rfl, rfl⟩
    | ok text =>
      obtain ⟨left, hLeft, -⟩ := Utf8.decode_eq_ok_iff.mp hDecode
      exact absurd (Utf8.isValidUTF8_iff.mpr ⟨left, hLeft⟩) (hInvalid data hFile)

end Source

section Parsing

variable {files : FileSystem} {path : String}

theorem parseFrom_eq_ok {reading : Reading} {source : Value} {text : String}
    (h : Source.read files source = .ok text) :
    parseFrom files reading source = .ok (parse reading text) := by
  rw [parseFrom, h]
  rfl

theorem parseFrom_eq_error {reading : Reading} {source : Value} {fault : Fault}
    (h : Source.read files source = .error fault) :
    parseFrom files reading source = .error fault := by
  rw [parseFrom, h]
  rfl

theorem parseFile_eq_ok {reading : Reading} {name encoding text : String}
    (h : Source.load files (FileName.normal name) encoding = .ok text) :
    parseFile files reading name encoding = .ok (parse reading text) := by
  rw [parseFile, h]
  rfl

theorem parseFile_eq_error {reading : Reading} {name encoding : String} {fault : Fault}
    (h : Source.load files (FileName.normal name) encoding = .error fault) :
    parseFile files reading name encoding = .error fault := by
  rw [parseFile, h]
  rfl

end Parsing

/-- A file that cannot be read as text cannot be read as bytes either. Of any other file, the one way
parses its text and the other way its text with the mark and with unified line ends, which is the
same text for plain bytes only. No file has a name that holds a NUL. -/
theorem parseFile_agrees (files : FileSystem) (reading : Reading) (name : String) :
    let path := FileName.normal name
    let asText := parseFile files reading name "utf-8"
    let asBytes := parseFrom files reading (.atom (.path path))
    ('\x00' ∈ path.toList ∧ asText = .error (.argument .fileName) ∧
      asBytes = .error (.argument .fileName)) ∨
    ((∀ data, files path = .file data → ¬ (Utf8.withoutMark data).toByteArray.IsValidUTF8) ∧
      ∃ first second, asText = .error (.parse first) ∧ asBytes = .error (.parse second)) ∨
    ∃ (data : Bytes) (text : String), files path = .file data ∧
      (Utf8.withoutMark data).toByteArray = text.toUTF8 ∧
      asBytes = .ok (parse reading text) ∧
      asText = .ok (parse reading (.ofList (unifyLineEnds (Utf8.markedText data text.toList)))) ∧
      (Source.IsPlain data ↔ unifyLineEnds (Utf8.markedText data text.toList) = text.toList) ∧
      (Source.IsPlain data → asText = asBytes) := by
  intro path asText asBytes
  by_cases hNul : '\x00' ∈ path.toList
  · have hName : FileName.check path = .error (.argument .fileName) := if_pos hNul
    refine .inl ⟨hNul, parseFile_eq_error ?_, parseFrom_eq_error ?_⟩
    · rw [Source.load, hName]
      rfl
    · rw [Source.read, hName]
      rfl
  have hName : FileName.check path = .ok () := if_neg hNul
  right
  by_cases hFile : ∃ data, files path = .file data ∧
    (Utf8.withoutMark data).toByteArray.IsValidUTF8
  · right
    obtain ⟨data, hFile, hValid⟩ := hFile
    obtain ⟨text, hText⟩ := Utf8.exists_toUTF8 hValid
    have hGives : Source.Gives files data (.path path) := .file hName hFile
    have hBytes : asBytes = .ok (parse reading text) :=
      parseFrom_eq_ok (hGives.read_eq.trans (Source.decode_eq_ok hText))
    have hLoad : asText = _ := parseFile_eq_ok (Source.load_text hName hFile hText)
    have hPlain := Source.isPlain_iff (Utf8.toByteArray_eq_iff.mp hText)
    refine ⟨data, text, hFile, hText, hBytes, hLoad, hPlain, fun h => ?_⟩
    rw [hBytes, hLoad, hPlain.mp h, String.ofList_toList]
  · left
    have hInvalid (data : Bytes) (hData : files path = .file data) :
        ¬ (Utf8.withoutMark data).toByteArray.IsValidUTF8 :=
      fun hValid => hFile ⟨data, hData, hValid⟩
    obtain ⟨first, second, hLoad, hRead⟩ := Source.load_read_refused hName hInvalid
    exact ⟨hInvalid, first, second, parseFile_eq_error hLoad, parseFrom_eq_error hRead⟩

/-- A plain file that is asked for by a longer spelling of its name. -/
theorem parseFile_agrees_plain :
    let page : Bytes := [0x3c, 0x70, 0x3e, 0x0a]
    let files : FileSystem := fun path => if path = "site/page" then .file page else .missing
    let reading : Reading := ⟨⟨false, false⟩, true⟩
    Source.IsPlain page ∧
      parseFile files reading "site//./page/" "utf-8" = .ok (parse reading "<p>\n") ∧
      parseFrom files reading (.atom (.path "site/page")) = .ok (parse reading "<p>\n") := by
  intro page files reading
  have hPath : FileName.normal "site//./page/" = "site/page" := by decide +kernel
  have hPage : (Utf8.withoutMark page).toByteArray = "<p>\n".toUTF8 := by decide
  have hPlain : Source.IsPlain page := ⟨by decide, by decide⟩
  have hAgrees := parseFile_agrees files reading "site//./page/"
  rw [hPath] at hAgrees
  rcases hAgrees with ⟨hNul, -⟩ | ⟨hInvalid, -⟩ | ⟨data, text, hData, hText, hBytes, -, -, hSame⟩
  · exact absurd hNul (by decide)
  · exact absurd ⟨"<p>\n".toList, hPage.trans (Utf8.toUTF8_eq _)⟩ (hInvalid page rfl)
  · cases hData
    obtain rfl : text = "<p>\n" := String.toByteArray_inj.mp (hText.symm.trans hPage)
    exact ⟨hPlain, (hSame hPlain).trans hBytes, hBytes⟩

/-- A file with a mark, and one with a line end of two characters, are different documents in the two
ways. -/
theorem parseFile_differs :
    let files : FileSystem := fun path =>
      if path = "marked" then .file [0xef, 0xbb, 0xbf, 0x3c, 0x70, 0x3e]
      else .file [0x61, 0x0d, 0x0a, 0x62]
    let reading : Reading := ⟨⟨false, false⟩, true⟩
    let asText (name : String) := (parseFile files reading name "utf-8").map (·.forest)
    let asBytes (name : String) :=
      (parseFrom files reading (.atom (.path name))).map (·.forest)
    asText "marked" = .ok [.text "\uFEFF", .element "p" [] []] ∧
      asBytes "marked" = .ok [.element "p" [] []] ∧
      asText "lines" = .ok [.text "a\nb"] ∧ asBytes "lines" = .ok [.text "a\r\nb"] := by
  intro files reading asText asBytes
  have hMark : (Token.scan ⟨false, false⟩ "\uFEFF<p>").map (·.lexeme) =
      [.text "\uFEFF", .startTag "p" [] false] := by decide +kernel
  have hTag : (Token.scan ⟨false, false⟩ "<p>").map (·.lexeme) = [.startTag "p" [] false] := by
    decide +kernel
  have hFeed : (Token.scan ⟨false, false⟩ "a\nb").map (·.lexeme) = [.text "a\nb"] := by
    decide +kernel
  have hReturn : (Token.scan ⟨false, false⟩ "a\r\nb").map (·.lexeme) = [.text "a\r\nb"] := by
    decide +kernel
  have hText (name text : String)
      (h : Source.load files (FileName.normal name) "utf-8" = .ok text) :
      asText name = .ok (parseForest reading text) := by
    simp only [asText, parseFile_eq_ok h]
    rfl
  have hBytes (name text : String)
      (h : Source.read files (.atom (.path name)) = .ok text) :
      asBytes name = .ok (parseForest reading text) := by
    simp only [asBytes, parseFrom_eq_ok h]
    rfl
  rw [hText "marked" "\uFEFF<p>" rfl, hBytes "marked" "<p>" rfl, hText "lines" "a\nb" rfl,
    hBytes "lines" "a\r\nb" rfl]
  simp only [parseForest, parse, reading, hMark, hTag, hFeed, hReturn]
  exact ⟨rfl, rfl, rfl, rfl⟩

end Hypertext
