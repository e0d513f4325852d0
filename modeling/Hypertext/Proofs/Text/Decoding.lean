import Hypertext.Text.Decoding

/-! # Decoding and well-formed bytes

Bytes are well-formed when they are the bytes of some text. Decoding takes back the text of
well-formed bytes, and of no others: a character is read exactly where its own bytes stand, so all
other bytes stop it, and it stops as late as it can.
-/

namespace Hypertext.Text.Utf8

set_option autoImplicit false

/-! ## The bytes of a character -/

/-- The sequences of bytes that are read as one character. -/
inductive Spells : List UInt8 → Char → Prop where
  | one {b0 : UInt8} (hFirst : b0 < 0x80) : Spells [b0] (Char.ofNat b0.toNat)
  | two {b0 b1 : UInt8} (hLead : isLead b0 = true) (hFirst : b0 < 0xe0)
    (hSecond : isSecond b0 b1 = true) : Spells [b0, b1] (two b0 b1)
  | three {b0 b1 b2 : UInt8} (hLead : isLead b0 = true) (hAbove : ¬ b0 < 0xe0)
    (hFirst : b0 < 0xf0) (hSecond : isSecond b0 b1 = true) (hThird : isContinuation b2 = true) :
    Spells [b0, b1, b2] (three b0 b1 b2)
  | four {b0 b1 b2 b3 : UInt8} (hLead : isLead b0 = true) (hAbove : ¬ b0 < 0xf0)
    (hSecond : isSecond b0 b1 = true) (hThird : isContinuation b2 = true)
    (hFourth : isContinuation b3 = true) : Spells [b0, b1, b2, b3] (four b0 b1 b2 b3)

theorem isContinuation_iff {b : UInt8} :
    isContinuation b = true ↔ 0x80 ≤ b.toNat ∧ b.toNat ≤ 0xbf := by
  simp [isContinuation, UInt8.le_iff_toNat_le]

theorem isLead_iff {b : UInt8} : isLead b = true ↔ 0xc2 ≤ b.toNat ∧ b.toNat ≤ 0xf4 := by
  simp [isLead, UInt8.le_iff_toNat_le]

theorem isSecond_iff {b0 b1 : UInt8} :
    isSecond b0 b1 = true ↔ (0x80 ≤ b1.toNat ∧ b1.toNat ≤ 0xbf) ∧
      (b0.toNat = 0xe0 → 0xa0 ≤ b1.toNat) ∧ (b0.toNat = 0xed → b1.toNat ≤ 0x9f) ∧
      (b0.toNat = 0xf0 → 0x90 ≤ b1.toNat) ∧ (b0.toNat = 0xf4 → b1.toNat ≤ 0x8f) := by
  have hEq (n : UInt8) : b0 = n ↔ b0.toNat = n.toNat := UInt8.toNat_inj.symm
  have hBounds (low high : UInt8) : (decide (low ≤ b1) && decide (b1 ≤ high)) = true ↔
      low.toNat ≤ b1.toNat ∧ b1.toNat ≤ high.toNat := by
    simp [UInt8.le_iff_toNat_le]
  simp only [isSecond, hEq, apply_ite (· = true), hBounds, isContinuation_iff, UInt8.reduceToNat]
  repeat' split
  all_goals omega

theorem utf8EncodeChar_ofNat {n : Nat} (h : n.isValidChar) :
    String.utf8EncodeChar (Char.ofNat n) =
      if n ≤ 0x7f then [UInt8.ofNat n]
      else if n ≤ 0x7ff then [UInt8.ofNat (n / 64 % 32 + 0xc0), UInt8.ofNat (n % 64 + 0x80)]
      else if n ≤ 0xffff then
        [UInt8.ofNat (n / 4096 % 16 + 0xe0), UInt8.ofNat (n / 64 % 64 + 0x80),
          UInt8.ofNat (n % 64 + 0x80)]
      else
        [UInt8.ofNat (n / 262144 % 8 + 0xf0), UInt8.ofNat (n / 4096 % 64 + 0x80),
          UInt8.ofNat (n / 64 % 64 + 0x80), UInt8.ofNat (n % 64 + 0x80)] := by
  have hCode : (Char.ofNat n).val.toNat = n := by
    rw [Char.ofNat, dif_pos h]
    rfl
  simp only [String.utf8EncodeChar, hCode]

theorem ofNat_eq {n : Nat} (b : UInt8) (h : n = b.toNat) : UInt8.ofNat n = b := by
  rw [h, UInt8.ofNat_toNat]

theorem Spells.eq_utf8EncodeChar {bytes : List UInt8} {c : Char} (h : Spells bytes c) :
    bytes = String.utf8EncodeChar c := by
  cases h with
  | @one b0 hFirst =>
    have hFirst : b0.toNat < 0x80 := hFirst
    rw [utf8EncodeChar_ofNat (by omega), if_pos (by omega), ofNat_eq b0 rfl]
  | @two b0 b1 hLead hFirst hSecond =>
    have hFirst : b0.toNat < 0xe0 := hFirst
    rw [isLead_iff] at hLead
    rw [isSecond_iff] at hSecond
    rw [Utf8.two, utf8EncodeChar_ofNat (by omega), if_neg (by omega), if_pos (by omega),
      ofNat_eq b0 (by omega), ofNat_eq b1 (by omega)]
  | @three b0 b1 b2 hLead hAbove hFirst hSecond hThird =>
    have hAbove : ¬ b0.toNat < 0xe0 := hAbove
    have hFirst : b0.toNat < 0xf0 := hFirst
    rw [isLead_iff] at hLead
    rw [isSecond_iff] at hSecond
    rw [isContinuation_iff] at hThird
    rw [Utf8.three, utf8EncodeChar_ofNat (by omega), if_neg (by omega), if_neg (by omega),
      if_pos (by omega), ofNat_eq b0 (by omega), ofNat_eq b1 (by omega), ofNat_eq b2 (by omega)]
  | @four b0 b1 b2 b3 hLead hAbove hSecond hThird hFourth =>
    have hAbove : ¬ b0.toNat < 0xf0 := hAbove
    rw [isLead_iff] at hLead
    rw [isSecond_iff] at hSecond
    rw [isContinuation_iff] at hThird hFourth
    rw [Utf8.four, utf8EncodeChar_ofNat (by omega), if_neg (by omega), if_neg (by omega),
      if_neg (by omega), ofNat_eq b0 (by omega), ofNat_eq b1 (by omega), ofNat_eq b2 (by omega),
      ofNat_eq b3 (by omega)]

theorem exists_byte {n : Nat} (h : n < 256) : ∃ b : UInt8, UInt8.ofNat n = b ∧ b.toNat = n :=
  ⟨UInt8.ofNat n, rfl, by rw [UInt8.toNat_ofNat', Nat.mod_eq_of_lt h]⟩

theorem spells_utf8EncodeChar (c : Char) : Spells (String.utf8EncodeChar c) c := by
  obtain ⟨n, hn, rfl⟩ : ∃ n : Nat, n.isValidChar ∧ Char.ofNat n = c :=
    ⟨c.toNat, c.valid, Char.ofNat_toNat c⟩
  rw [utf8EncodeChar_ofNat hn]
  split
  · obtain ⟨b0, hByte, h0⟩ := exists_byte (n := n) (by omega)
    rw [hByte, ← h0]
    exact .one (show b0.toNat < 0x80 by omega)
  split
  · obtain ⟨b0, hByte0, h0⟩ := exists_byte (n := n / 64 % 32 + 0xc0) (by omega)
    obtain ⟨b1, hByte1, h1⟩ := exists_byte (n := n % 64 + 0x80) (by omega)
    have hCode : n = b0.toNat % 32 * 64 + b1.toNat % 64 := by omega
    rw [hByte0, hByte1, hCode]
    exact .two (isLead_iff.mpr (by omega)) (show b0.toNat < 0xe0 by omega)
      (isSecond_iff.mpr (by omega))
  split
  · obtain ⟨b0, hByte0, h0⟩ := exists_byte (n := n / 4096 % 16 + 0xe0) (by omega)
    obtain ⟨b1, hByte1, h1⟩ := exists_byte (n := n / 64 % 64 + 0x80) (by omega)
    obtain ⟨b2, hByte2, h2⟩ := exists_byte (n := n % 64 + 0x80) (by omega)
    have hCode : n = (b0.toNat % 16 * 64 + b1.toNat % 64) * 64 + b2.toNat % 64 := by omega
    rw [hByte0, hByte1, hByte2, hCode]
    exact .three (isLead_iff.mpr (by omega)) (show ¬ b0.toNat < 0xe0 by omega)
      (show b0.toNat < 0xf0 by omega) (isSecond_iff.mpr (by omega))
      (isContinuation_iff.mpr (by omega))
  · obtain ⟨b0, hByte0, h0⟩ := exists_byte (n := n / 262144 % 8 + 0xf0) (by omega)
    obtain ⟨b1, hByte1, h1⟩ := exists_byte (n := n / 4096 % 64 + 0x80) (by omega)
    obtain ⟨b2, hByte2, h2⟩ := exists_byte (n := n / 64 % 64 + 0x80) (by omega)
    obtain ⟨b3, hByte3, h3⟩ := exists_byte (n := n % 64 + 0x80) (by omega)
    have hCode : n = ((b0.toNat % 8 * 64 + b1.toNat % 64) * 64 + b2.toNat % 64) * 64 +
        b3.toNat % 64 := by omega
    rw [hByte0, hByte1, hByte2, hByte3, hCode]
    exact .four (isLead_iff.mpr (by omega)) (show ¬ b0.toNat < 0xf0 by omega)
      (isSecond_iff.mpr (by omega)) (isContinuation_iff.mpr (by omega))
      (isContinuation_iff.mpr (by omega))

/-! ## The bytes of a text -/

def encode (text : List Char) : List UInt8 := text.flatMap String.utf8EncodeChar

theorem encode_cons (c : Char) (text : List Char) :
    encode (c :: text) = String.utf8EncodeChar c ++ encode text := List.flatMap_cons

theorem toByteArray_inj {first second : List UInt8} :
    first.toByteArray = second.toByteArray ↔ first = second := by
  refine ⟨fun h => ?_, congrArg _⟩
  rw [← List.toList_data_toByteArray (l := first), h, List.toList_data_toByteArray]

theorem toUTF8_eq (text : String) : text.toUTF8 = (encode text.toList).toByteArray := by
  conv => lhs; rw [← String.ofList_toList (s := text)]
  exact String.toByteArray_ofList

theorem toByteArray_eq_iff {bytes : List UInt8} {text : String} :
    bytes.toByteArray = text.toUTF8 ↔ bytes = encode text.toList := by
  rw [toUTF8_eq, toByteArray_inj]

theorem isValidUTF8_iff {bytes : List UInt8} :
    bytes.toByteArray.IsValidUTF8 ↔ ∃ text, bytes = encode text := by
  constructor
  · rintro ⟨text, hText⟩
    exact ⟨text, toByteArray_inj.mp hText⟩
  · rintro ⟨text, rfl⟩
    exact ⟨text, rfl⟩

theorem exists_toUTF8 {bytes : List UInt8} (h : bytes.toByteArray.IsValidUTF8) :
    ∃ text : String, bytes.toByteArray = text.toUTF8 := by
  obtain ⟨text, hText⟩ := isValidUTF8_iff.mp h
  exact ⟨String.ofList text, toByteArray_eq_iff.mpr (hText.trans (by rw [String.toList_ofList]))⟩

/-! ## Decoding -/

theorem not_ascii_of_isLead {b : UInt8} (h : isLead b = true) : ¬ b < 0x80 := by
  have hLead := isLead_iff.mp h
  exact show ¬ b.toNat < 0x80 by omega

theorem decodeFrom_spelt {bytes : List UInt8} {c : Char} (h : Spells bytes c) (start : Nat)
    (rest : List UInt8) :
    decodeFrom start (bytes ++ rest) = (c :: ·) <$> decodeFrom (start + bytes.length) rest := by
  rw [decodeFrom.eq_def]
  cases h with
  | one hFirst =>
    simp only [List.cons_append, List.nil_append, if_pos hFirst]
    rfl
  | two hLead hFirst hSecond =>
    simp only [List.cons_append, List.nil_append, if_neg (not_ascii_of_isLead hLead), hLead,
      hSecond, if_pos hFirst, Bool.not_true, Bool.false_eq_true, if_false]
    rfl
  | three hLead hAbove hFirst hSecond hThird =>
    simp only [List.cons_append, List.nil_append, if_neg (not_ascii_of_isLead hLead), hLead,
      hSecond, hThird, if_neg hAbove, if_pos hFirst, Bool.not_true, Bool.false_eq_true, if_false]
    rfl
  | @four b0 b1 b2 b3 hLead hAbove hSecond hThird hFourth =>
    have hBelow : ¬ b0 < 0xe0 := by
      have hAbove : ¬ b0.toNat < 0xf0 := hAbove
      exact show ¬ b0.toNat < 0xe0 by omega
    simp only [List.cons_append, List.nil_append, if_neg (not_ascii_of_isLead hLead), hLead,
      hSecond, hThird, hFourth, if_neg hBelow, if_neg hAbove, Bool.not_true, Bool.false_eq_true,
      if_false]
    rfl

theorem decodeFrom_encode (text : List Char) (start : Nat) (rest : List UInt8) :
    decodeFrom start (encode text ++ rest) =
      (text ++ ·) <$> decodeFrom (start + (encode text).length) rest := by
  induction text generalizing start with
  | nil => exact (id_map (decodeFrom start rest)).symm
  | cons c text ih =>
    rw [encode_cons, List.append_assoc, decodeFrom_spelt (spells_utf8EncodeChar c), ih,
      List.length_append, Nat.add_assoc, ← comp_map]
    rfl

/-- How decoding ends: with the text of all bytes, or with a fault behind the bytes of a text. -/
inductive Ends (start : Nat) (bytes : List UInt8) : Except DecodeFault (List Char) → Prop where
  | whole {text : List Char} (hBytes : bytes = encode text) : Ends start bytes (.ok text)
  | stuck {text : List Char} {rest broken : List UInt8} {reason : DecodeReason}
    (hBytes : bytes = encode text ++ rest) :
    Ends start bytes (fault (start + (encode text).length) broken reason)

theorem Ends.here (start : Nat) (bytes broken : List UInt8) (reason : DecodeReason) :
    Ends start bytes (fault start broken reason) :=
  .stuck (show bytes = encode [] ++ bytes from rfl)

theorem Ends.spelt {start : Nat} {bytes rest : List UInt8} {c : Char}
    {outcome : Except DecodeFault (List Char)} (hSpelt : Spells bytes c)
    (h : Ends (start + bytes.length) rest outcome) :
    Ends start (bytes ++ rest) ((c :: ·) <$> outcome) := by
  have hChar := hSpelt.eq_utf8EncodeChar
  cases h with
  | @whole text hRest =>
    have hBytes : bytes ++ rest = encode (c :: text) := by
      rw [encode_cons, hRest, hChar]
    exact .whole hBytes
  | @stuck text left broken reason hRest =>
    have hBytes : bytes ++ rest = encode (c :: text) ++ left := by
      rw [encode_cons, hRest, hChar, List.append_assoc]
    have hEnds : Ends start (bytes ++ rest)
        (fault (start + (encode (c :: text)).length) broken reason) := .stuck hBytes
    rwa [encode_cons, List.length_append, ← hChar, ← Nat.add_assoc] at hEnds

theorem decodeFrom_ends (start : Nat) (bytes : List UInt8) :
    Ends start bytes (decodeFrom start bytes) := by
  fun_induction decodeFrom start bytes with
  | case1 => exact .whole rfl
  | case2 start b0 bytes hFirst ih => exact ih.spelt (.one hFirst)
  | case6 start b0 _ hLead b1 bytes hSecond hFirst ih =>
    exact ih.spelt (.two (by simpa using hLead) hFirst (by simpa using hSecond))
  | case9 start b0 _ hLead b1 hSecond hAbove b2 bytes hThird hFirst ih =>
    exact ih.spelt (.three (by simpa using hLead) hAbove hFirst (by simpa using hSecond)
      (by simpa using hThird))
  | case12 start b0 _ hLead b1 hSecond _ b2 hThird hAbove b3 bytes hFourth ih =>
    exact ih.spelt (.four (by simpa using hLead) hAbove (by simpa using hSecond)
      (by simpa using hThird) (by simpa using hFourth))
  | _ => exact .here _ _ _ _

/-! ## What is decoded, and up to where -/

theorem decodeFrom_eq_ok_iff {start : Nat} {bytes : List UInt8} {text : List Char} :
    decodeFrom start bytes = .ok text ↔ bytes = encode text := by
  constructor
  · intro h
    have hEnds := decodeFrom_ends start bytes
    rw [h] at hEnds
    cases hEnds with
    | whole hBytes => exact hBytes
  · rintro rfl
    have hDecode := decodeFrom_encode text start []
    rw [List.append_nil] at hDecode
    rw [hDecode, decodeFrom]
    exact congrArg Except.ok (List.append_nil text)

/-- The length of the longest well-formed beginning of some bytes. -/
structure IsLongestPrefix (bytes : List UInt8) (length : Nat) : Prop where
  le_length : length ≤ bytes.length
  isValid : (bytes.take length).toByteArray.IsValidUTF8
  longest : ∀ other ≤ bytes.length, (bytes.take other).toByteArray.IsValidUTF8 → other ≤ length

theorem length_le_of_error {text : List Char} {rest : List UInt8} {cause : DecodeFault}
    (h : decode (encode text ++ rest) = .error cause) : (encode text).length ≤ cause.start := by
  rw [decode, decodeFrom_encode, Nat.zero_add] at h
  have hEnds := decodeFrom_ends (encode text).length rest
  cases hRest : decodeFrom (encode text).length rest with
  | ok left =>
    rw [hRest] at h
    cases h
  | error other =>
    rw [hRest] at h hEnds
    cases h
    cases hEnds with
    | stuck hBytes => exact Nat.le_add_right _ _

theorem isLongestPrefix_of_error {bytes : List UInt8} {cause : DecodeFault}
    (h : decode bytes = .error cause) : IsLongestPrefix bytes cause.start := by
  have hEnds := decodeFrom_ends 0 bytes
  rw [show decodeFrom 0 bytes = .error cause from h] at hEnds
  cases hEnds with
  | @stuck text rest broken reason hBytes =>
    dsimp only
    rw [Nat.zero_add]
    refine ⟨?_, ?_, fun other hOther hValid => ?_⟩
    · rw [hBytes, List.length_append]
      exact Nat.le_add_right _ _
    · rw [hBytes, List.take_left, isValidUTF8_iff]
      exact ⟨text, rfl⟩
    · obtain ⟨beginning, hBeginning⟩ := isValidUTF8_iff.mp hValid
      have hLength : (encode beginning).length = other := by
        rw [← hBeginning, List.length_take, Nat.min_eq_left hOther]
      rw [← List.take_append_drop other bytes, hBeginning] at h
      have hLe := length_le_of_error h
      rwa [hLength, Nat.zero_add] at hLe

/-! ## The mark -/

theorem spells_mark : Spells byteOrderMark '\uFEFF' :=
  @Spells.three 0xef 0xbb 0xbf rfl (by decide) (by decide) rfl rfl

theorem encode_mark : String.utf8EncodeChar '\uFEFF' = byteOrderMark :=
  spells_mark.eq_utf8EncodeChar.symm

theorem withoutMark_append (bytes : List UInt8) : withoutMark (byteOrderMark ++ bytes) = bytes := rfl

theorem withoutMark_cases (bytes : List UInt8) :
    bytes = byteOrderMark ++ withoutMark bytes ∨
      (withoutMark bytes = bytes ∧ ¬ byteOrderMark <+: bytes) := by
  unfold withoutMark
  split
  · exact .inl rfl
  · rename_i hOther
    refine .inr ⟨rfl, ?_⟩
    rintro ⟨rest, rfl⟩
    exact hOther rest rfl

theorem exists_of_mark {text : List Char} {rest : List UInt8}
    (h : encode text = byteOrderMark ++ rest) :
    ∃ left, text = '\uFEFF' :: left ∧ rest = encode left := by
  have hDecode := decodeFrom_spelt spells_mark 0 rest
  rw [← h, decodeFrom_eq_ok_iff.mpr rfl] at hDecode
  cases hRest : decodeFrom (0 + byteOrderMark.length) rest with
  | ok left =>
    rw [hRest] at hDecode
    cases hDecode
    exact ⟨left, rfl, decodeFrom_eq_ok_iff.mp hRest⟩
  | error cause =>
    rw [hRest] at hDecode
    cases hDecode

theorem withoutMark_encode {text : List Char} (h : text.head? ≠ some '\uFEFF') :
    withoutMark (encode text) = encode text := by
  rcases withoutMark_cases (encode text) with hMark | ⟨hSame, -⟩
  · obtain ⟨left, rfl, -⟩ := exists_of_mark hMark
    exact absurd rfl h
  · exact hSame

/-- The text of bytes when a mark is read as a character like others. -/
def markedText (bytes : List UInt8) (text : List Char) : List Char :=
  if byteOrderMark <+: bytes then '\uFEFF' :: text else text

/-- Whether the mark is dropped or read, the same bytes are well-formed. -/
theorem decode_eq_ok_iff {bytes : List UInt8} {text : List Char} :
    decode bytes = .ok text ↔
      ∃ left, withoutMark bytes = encode left ∧ text = markedText bytes left := by
  rw [decode, decodeFrom_eq_ok_iff]
  rcases withoutMark_cases bytes with hMark | ⟨hSame, hNone⟩
  · have hPrefix : byteOrderMark <+: bytes := ⟨_, hMark.symm⟩
    simp only [markedText, if_pos hPrefix]
    constructor
    · intro hBytes
      obtain ⟨left, hText, hRest⟩ := exists_of_mark (hBytes.symm.trans hMark)
      exact ⟨left, hRest, hText⟩
    · rintro ⟨left, hRest, rfl⟩
      rw [hMark, hRest, encode_cons, encode_mark]
  · simp only [markedText, if_neg hNone, hSame]
    exact ⟨fun hBytes => ⟨text, hBytes, rfl⟩, fun ⟨left, hBytes, hText⟩ => hText ▸ hBytes⟩

end Hypertext.Text.Utf8
