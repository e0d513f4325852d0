import Hypertext.Proofs.Token.RawText
import Hypertext.Proofs.Token.Stream
import Hypertext.Proofs.Token.Tiling

/-! # Scanning from the middle of a text

Scanning can begin anew at a token, and anywhere inside a text that is not raw: the tokens from
there on are those of the whole text, and a text that was cut gives its rest. Held text is all that
a scan in data carries with it, and it only ever becomes the front of the next text.
-/

namespace Hypertext

set_option autoImplicit false

open Text

namespace Scan

variable {casing : Casing}

/-! ## Held text -/

theorem hold_eq (s : Scan) {span rest : List Char} (mode : Mode) (h : s.rest = span ++ rest) :
    s.hold rest mode =
      ⟨mode, s.position.after span, rest, if s.held = [] then s.position else s.heldFrom,
        s.held ++ span⟩ := by
  rw [hold, s.read_append h]

theorem hold_hold (s : Scan) {first second rest : List Char} (between mode : Mode)
    (h : s.rest = first ++ (second ++ rest)) :
    (s.hold (second ++ rest) between).hold rest mode = s.hold rest mode := by
  have hWhole : s.rest = first ++ second ++ rest := by rw [h, List.append_assoc]
  rw [s.hold_eq between h, hold_eq _ mode rfl, s.hold_eq mode hWhole]
  simp only [Position.after_append, List.append_assoc]
  by_cases hHeld : s.held = []
  · cases first <;> simp [hHeld]
  · simp [hHeld]

theorem run_step (s : Scan) (hRest : s.rest ≠ []) :
    s.run casing = (s.step casing).1 ++ (s.step casing).2.run casing := by
  rw [run, if_neg hRest]

theorem run_data_opening (s : Scan) (hMode : s.mode = .data) {tail : List Char}
    (h : s.rest = '<' :: tail) : s.run casing = (s.hold ('<' :: tail) .tagOpen).run casing := by
  have hDrop : s.rest.dropWhile (· ≠ '<') = '<' :: tail := by
    rw [h, List.dropWhile_cons_of_neg (by decide)]
  rw [s.run_step (by rw [h]; exact List.cons_ne_nil _ _)]
  simp only [step, hMode, hDrop, List.nil_append, reduceCtorEq, if_false]

theorem run_data_char (s : Scan) (hMode : s.mode = .data) {c : Char} {rest : List Char}
    (h : s.rest = c :: rest) (hNone : c = '<' → construct? casing ('<' :: rest) = none) :
    s.run casing = (s.hold rest .data).run casing := by
  by_cases hChar : c = '<'
  · subst hChar
    rw [s.run_data_opening hMode h, run_step _ (List.cons_ne_nil _ _)]
    have hStep : (s.hold ('<' :: rest) .tagOpen).step casing =
        ([], (s.hold ('<' :: rest) .tagOpen).hold rest .data) := by
      simp only [step, hold, hNone rfl, List.drop_one, List.tail_cons]
    rw [hStep, List.nil_append]
    exact congrArg (run casing) (@hold_hold s [] ['<'] rest .tagOpen .data h)
  · have hTest : decide (c ≠ '<') = true := decide_eq_true hChar
    have hDrop : s.rest.dropWhile (· ≠ '<') = rest.dropWhile (· ≠ '<') := by
      rw [h, List.dropWhile_cons_of_pos (p := fun d => decide (d ≠ '<')) hTest]
    rw [s.run_step (by rw [h]; exact List.cons_ne_nil _ _)]
    simp only [step, hMode, hDrop, List.nil_append]
    cases rest with
    | nil => rfl
    | cons d rest =>
      rw [run_step (s.hold (d :: rest) .data) (List.cons_ne_nil _ _)]
      have hText : s.rest = [c] ++ ((d :: rest).takeWhile (· ≠ '<') ++
          (d :: rest).dropWhile (· ≠ '<')) := by
        rw [h, List.takeWhile_append_dropWhile, List.singleton_append]
      have hBoth := s.hold_hold .data
        (if (d :: rest).dropWhile (· ≠ '<') = [] then .data else .tagOpen) hText
      rw [List.takeWhile_append_dropWhile] at hBoth
      have hStep : (s.hold (d :: rest) .data).step casing =
          ([], (s.hold (d :: rest) .data).hold ((d :: rest).dropWhile (· ≠ '<'))
            (if (d :: rest).dropWhile (· ≠ '<') = [] then .data else .tagOpen)) := rfl
      rw [hStep, hBoth, List.nil_append]

theorem run_data_construct (s : Scan) (hMode : s.mode = .data) {tail rest : List Char}
    {lexeme : Lexeme} {mode : Mode} (h : s.rest = '<' :: tail)
    (hSome : construct? casing ('<' :: tail) = some (lexeme, rest, mode)) :
    s.run casing = s.heldTokens ++ ⟨s.position, lexeme⟩ ::
      (⟨mode, s.position.after (s.read rest), rest, s.position, []⟩ : Scan).run casing := by
  have hNone : s.read s.rest = [] := s.read_append (List.nil_append s.rest).symm
  rw [h] at hNone
  have hHold : s.hold ('<' :: tail) .tagOpen =
      ⟨.tagOpen, s.position, s.rest, if s.held = [] then s.position else s.heldFrom, s.held⟩ := by
    simp only [hold, hNone, List.append_nil, Position.after_nil, h]
  rw [s.run_data_opening hMode h, hHold, run_step _ (by rw [h]; exact List.cons_ne_nil _ _)]
  simp only [step, h, hSome, emit, heldTokens, List.append_assoc, List.singleton_append]
  have hRead : (⟨.tagOpen, s.position, '<' :: tail,
      if s.held = [] then s.position else s.heldFrom, s.held⟩ : Scan).read rest = s.read rest := by
    rw [read, read, h]
  rw [hRead]
  by_cases hHeld : s.held = [] <;> simp [hHeld]

theorem run_raw (s : Scan) {element : RawElement} (hMode : s.mode = .raw element) :
    s.run casing = (s.hold (splitRaw element s.rest).2 .data).run casing := by
  have hText := splitRaw_append element s.rest
  by_cases hRest : s.rest = []
  · have hSplit : (splitRaw element s.rest).2 = [] := by rw [hRest, splitRaw]
    rw [hSplit, s.hold_eq .data (List.append_nil s.rest).symm, hRest, run, if_pos hRest, run,
      if_pos rfl, heldTokens, heldTokens, List.append_nil]
    by_cases hHeld : s.held = [] <;> simp [hHeld]
  · rw [s.run_step hRest]
    simp only [step, hMode, List.nil_append]
    split
    · rfl
    · rename_i hLeft
      obtain ⟨tail, hTail⟩ := opens_splitRaw element s.rest hLeft
      rw [hTail, run_data_opening (s.hold ('<' :: tail) .data) rfl rfl]
      have hWhole : s.rest = (splitRaw element s.rest).1 ++ ([] ++ '<' :: tail) := by
        rw [List.nil_append, ← hTail, hText]
      rw [← hold_hold s .data .tagOpen hWhole, List.nil_append]

/-! ## The tokens of a text in data -/

def tokensAt (casing : Casing) (p : Position) (text : List Char) : List Token :=
  (⟨.data, p, text, p, []⟩ : Scan).run casing

/-- Tokens with text in front of them that was held back. -/
def withHeld (start : Position) (held : List Char) (tokens : List Token) : List Token :=
  if held = [] then tokens
  else
    match tokens with
    | ⟨_, .text s⟩ :: rest => ⟨start, .text (String.ofList (held ++ s.toList))⟩ :: rest
    | tokens => ⟨start, .text (String.ofList held)⟩ :: tokens

theorem withHeld_nil (start : Position) (tokens : List Token) :
    withHeld start [] tokens = tokens := if_pos rfl

theorem withHeld_text (start p : Position) {held : List Char} (hHeld : held ≠ []) (s : String)
    (rest : List Token) :
    withHeld start held (⟨p, .text s⟩ :: rest) =
      ⟨start, .text (String.ofList (held ++ s.toList))⟩ :: rest := if_neg hHeld

theorem withHeld_apart (start : Position) {held : List Char} (hHeld : held ≠ [])
    {tokens : List Token} (hTokens : ∀ first ∈ tokens.head?, first.lexeme.kind ≠ .text) :
    withHeld start held tokens = ⟨start, .text (String.ofList held)⟩ :: tokens := by
  unfold withHeld
  rw [if_neg hHeld]
  split
  · exact absurd rfl (hTokens _ rfl)
  · rfl

/-- Tokens begin with a text or stand apart from text in front of them. -/
theorem head_text_or_apart (tokens : List Token) :
    (∃ p s rest, tokens = ⟨p, .text s⟩ :: rest) ∨
      ∀ first ∈ tokens.head?, first.lexeme.kind ≠ .text := by
  match tokens with
  | [] => exact Or.inr nofun
  | ⟨p, .text s⟩ :: rest => exact Or.inl ⟨p, s, rest, rfl⟩
  | ⟨p, .startTag _ _ _⟩ :: rest | ⟨p, .endTag _⟩ :: rest | ⟨p, .comment _⟩ :: rest
  | ⟨p, .directive _⟩ :: rest =>
    refine Or.inr ?_
    rintro first ⟨⟩
    rintro ⟨⟩

theorem withHeld_withHeld (start between : Position) (held : List Char) {more : List Char}
    (hMore : more ≠ []) (tokens : List Token) :
    withHeld start held (withHeld between more tokens) =
      withHeld (if held = [] then between else start) (held ++ more) tokens := by
  by_cases hHeld : held = []
  · rw [hHeld, withHeld_nil, if_pos rfl, List.nil_append]
  · have hBoth : held ++ more ≠ [] := List.append_ne_nil_of_left_ne_nil hHeld more
    rw [if_neg hHeld]
    rcases head_text_or_apart tokens with ⟨p, s, rest, rfl⟩ | hApart
    · rw [withHeld_text _ _ hMore, withHeld_text _ _ hHeld, withHeld_text _ _ hBoth,
        String.toList_ofList, List.append_assoc]
    · rw [withHeld_apart _ hMore hApart, withHeld_text _ _ hHeld, withHeld_apart _ hBoth hApart,
        String.toList_ofList]

theorem run_data (s : Scan) (hMode : s.mode = .data) :
    s.run casing = withHeld s.heldFrom s.held (tokensAt casing s.position s.rest) := by
  induction hLength : s.rest.length generalizing s with
  | zero =>
    have hRest := List.length_eq_zero_iff.mp hLength
    have hNone : tokensAt casing s.position s.rest = [] := by
      rw [hRest, tokensAt, run, if_pos rfl]
      rfl
    rw [hNone, run, if_pos hRest, heldTokens]
    rfl
  | succ length ih =>
    obtain ⟨c, rest, hRest⟩ := List.exists_cons_of_length_eq_add_one hLength
    rw [hRest, List.length_cons, Nat.add_right_cancel_iff] at hLength
    have hHere : tokensAt casing s.position s.rest =
        (⟨.data, s.position, s.rest, s.position, []⟩ : Scan).run casing := rfl
    cases hOpens : (if c = '<' then construct? casing ('<' :: rest) else none) with
    | none =>
      have hNone : c = '<' → construct? casing ('<' :: rest) = none := by
        rintro rfl
        rwa [if_pos rfl] at hOpens
      have hFirst : s.rest = [c] ++ rest := hRest
      rw [hHere, s.run_data_char hMode hRest hNone,
        run_data_char ⟨.data, s.position, s.rest, s.position, []⟩ rfl hRest hNone,
        ih (s.hold rest .data) rfl hLength,
        ih (hold ⟨.data, s.position, s.rest, s.position, []⟩ rest .data) rfl hLength,
        s.hold_eq .data hFirst, hold_eq ⟨.data, s.position, s.rest, s.position, []⟩ .data hFirst]
      simp only [List.nil_append, if_true, withHeld_withHeld _ _ _ (List.cons_ne_nil c [])]
    | some construct =>
      obtain ⟨lexeme, after, mode⟩ := construct
      split at hOpens
      · rename_i hChar
        subst hChar
        have hKind : lexeme.kind ≠ .text := by
          obtain ⟨-, -, -, hKind, -⟩ := spells_construct hOpens
          exact hKind
        rw [hHere, s.run_data_construct hMode hRest hOpens,
          run_data_construct ⟨.data, s.position, s.rest, s.position, []⟩ rfl hRest hOpens,
          heldTokens, heldTokens, if_pos rfl, List.nil_append, read, read]
        by_cases hHeld : s.held = []
        · rw [hHeld, if_pos rfl, withHeld_nil, List.nil_append]
        · rw [if_neg hHeld, withHeld_apart _ hHeld (by rintro first ⟨⟩; exact hKind)]
          rfl
      · cases hOpens

theorem tokensAt_nil (p : Position) : tokensAt casing p [] = [] := by
  rw [tokensAt, run, if_pos rfl]
  rfl

theorem tokensAt_char (p : Position) {c : Char} {rest : List Char}
    (hNone : c = '<' → construct? casing ('<' :: rest) = none) :
    tokensAt casing p (c :: rest) = withHeld p [c] (tokensAt casing (p.next c) rest) := by
  have hFirst : c :: rest = [c] ++ rest := rfl
  rw [tokensAt, run_data_char _ rfl rfl hNone, run_data _ rfl, hold_eq _ .data hFirst]
  rfl

theorem tokensAt_construct (p : Position) {tail span rest : List Char} {lexeme : Lexeme}
    {mode : Mode} (hSome : construct? casing ('<' :: tail) = some (lexeme, rest, mode))
    (hSpan : '<' :: tail = span ++ rest) :
    tokensAt casing p ('<' :: tail) =
      ⟨p, lexeme⟩ :: withHeld (p.after span) (mode.takeRaw rest).1
        (tokensAt casing (p.after (span ++ (mode.takeRaw rest).1)) (mode.takeRaw rest).2) := by
  have hRead : (⟨.data, p, '<' :: tail, p, []⟩ : Scan).read rest = span := read_append _ hSpan
  rw [tokensAt, run_data_construct _ rfl rfl hSome, hRead, Position.after_append]
  refine congrArg (List.cons _) ?_
  cases hMode : mode with
  | data =>
    subst hMode
    rw [run_data _ rfl]
    rfl
  | tagOpen => exact absurd hMode (construct_mode_ne hSome)
  | raw element =>
    subst hMode
    rw [run_raw _ rfl, run_data _ rfl, hold_eq _ .data (splitRaw_append element rest).symm]
    rfl

theorem tiling_tokensAt (casing : Casing) (p : Position) (text : List Char) :
    Tiling casing p text (tokensAt casing p text) :=
  tiling_run casing ⟨.data, p, text, p, []⟩ ⟨rfl, nofun⟩

theorem mode_of_construct {text rest : List Char} {lexeme : Lexeme} {mode : Mode}
    (hSome : construct? casing text = some (lexeme, rest, mode)) :
    (mode = .data ∧ ¬ lexeme.OpensRaw) ∨ ∃ element, mode = .raw element ∧ lexeme.OpensRaw ∧
      RawElement.ofName? (lower lexeme.value) = some element := by
  have hOther (hMode : Mode.data = mode) (hKind : lexeme.kind ≠ .startTag) :
      (mode = .data ∧ ¬ lexeme.OpensRaw) ∨ ∃ element, mode = .raw element ∧ lexeme.OpensRaw ∧
        RawElement.ofName? (lower lexeme.value) = some element := by
    refine Or.inl ⟨hMode.symm, ?_⟩
    rintro ⟨name, attributes, element, rfl, -⟩
    exact hKind rfl
  unfold construct? at hSome
  split at hSome
  · simp only [Option.some.injEq, Prod.mk.injEq] at hSome
    exact hOther hSome.2.2 (by rw [← hSome.1]; exact nofun)
  · split at hSome
    · simp only [Option.map_eq_some_iff, Prod.mk.injEq, Prod.exists] at hSome
      obtain ⟨_, _, _, rfl, _, hMode⟩ := hSome
      exact hOther hMode nofun
    · split at hSome
      · simp only [Option.map_eq_some_iff, Prod.mk.injEq, Prod.exists] at hSome
        obtain ⟨_, _, _, rfl, _, hMode⟩ := hSome
        exact hOther hMode nofun
      · simp only [Option.map_eq_some_iff, Prod.mk.injEq, Prod.exists] at hSome
        obtain ⟨tag, _, _, rfl, _, rfl⟩ := hSome
        have hName := lower_tagName casing tag.name
        rw [modeAfter, startLexeme]
        cases hClosing : tag.selfClosing with
        | true =>
          refine Or.inl ⟨rfl, ?_⟩
          rintro ⟨name, attributes, element, ⟨⟩, -⟩
        | false =>
          cases hElement : RawElement.ofName? (String.ofList (lowerChars tag.name)) with
          | none =>
            refine Or.inl ⟨rfl, ?_⟩
            rintro ⟨name, attributes, element, ⟨⟩, hRaw⟩
            rw [hName, hElement] at hRaw
            cases hRaw
          | some element =>
            rw [← hName] at hElement
            exact Or.inr ⟨element, rfl, ⟨_, _, element, rfl, hElement⟩, hElement⟩
      · cases hSome

theorem opensRaw_of_construct {text rest : List Char} {lexeme : Lexeme} {mode : Mode}
    (hSome : construct? casing text = some (lexeme, rest, mode))
    (hRaw : (mode.takeRaw rest).1 ≠ []) : lexeme.OpensRaw := by
  rcases mode_of_construct hSome with ⟨rfl, -⟩ | ⟨_, -, hOpens, -⟩
  · exact absurd rfl hRaw
  · exact hOpens

/-! ## Cutting -/

end Scan

/-- A token may be cut where it begins, and a text anywhere in it. -/
def Token.CutAt (token : Token) (offset : Nat) : Prop :=
  token.position.offset = offset ∨
    token.lexeme.kind = .text ∧ token.position.offset ≤ offset ∧
      offset < token.position.offset + token.lexeme.value.length

theorem Token.CutAt.le {token : Token} {offset : Nat} (h : token.CutAt offset) :
    token.position.offset ≤ offset := by
  rcases h with hHere | ⟨-, hFrom, -⟩
  · exact Nat.le_of_eq hHere
  · exact hFrom

def Lexeme.dropFront (count : Nat) : Lexeme → Lexeme
  | .text s => .text (String.ofList (s.toList.drop count))
  | lexeme => lexeme

theorem Lexeme.dropFront_zero (lexeme : Lexeme) : lexeme.dropFront 0 = lexeme := by
  cases lexeme with
  | text s => rw [dropFront, List.drop_zero, String.ofList_toList]
  | startTag | endTag | comment | directive => rfl

namespace Scan

variable {casing : Casing}

theorem withHeld_eq_append {start : Position} {held : List Char}
    {tokens before after : List Token} {token : Token} (hBefore : before ≠ [])
    (h : withHeld start held tokens = before ++ token :: after) :
    ∃ front, tokens = front ++ token :: after ∧
      ∀ last ∈ front.getLast?, last.lexeme.kind = .text ∨ before.getLast? = some last := by
  obtain ⟨first, before, rfl⟩ := List.exists_cons_of_ne_nil hBefore
  rw [List.cons_append] at h
  by_cases hHeld : held = []
  · rw [hHeld, withHeld_nil] at h
    exact ⟨first :: before, h, fun last hLast => Or.inr hLast⟩
  · rcases head_text_or_apart tokens with ⟨p, s, rest, rfl⟩ | hApart
    · rw [withHeld_text _ _ hHeld] at h
      refine ⟨⟨p, .text s⟩ :: before, by rw [(List.cons.inj h).2, List.cons_append], ?_⟩
      intro last hLast
      cases before with
      | nil =>
        cases hLast
        exact Or.inl rfl
      | cons other before => exact Or.inr hLast
    · rw [withHeld_apart _ hHeld hApart] at h
      refine ⟨before, (List.cons.inj h).2, ?_⟩
      intro last hLast
      cases before with
      | nil => cases hLast
      | cons other before => exact Or.inr hLast

theorem tokensAt_cut_nil {p : Position} {text : List Char} {before after : List Token}
    {token : Token} (hTokens : tokensAt casing p text = before ++ token :: after)
    (hCut : token.CutAt p.offset) : before = [] ∧ token.position = p := by
  have hTiling := tiling_tokensAt casing p text
  rw [hTokens] at hTiling
  cases before with
  | nil => exact ⟨rfl, hTiling.head_position token rfl⟩
  | cons first before =>
    have hFirst := (hTiling.offset_bounds first List.mem_cons_self).1
    have hLater := List.rel_of_pairwise_cons hTiling.pairwise_offset
      (List.mem_append_right before List.mem_cons_self)
    exact absurd (Nat.lt_of_le_of_lt hFirst hLater) (Nat.not_lt_of_le hCut.le)

theorem withHeld_cut_first {start p : Position} {held text : List Char} {after : List Token}
    {token : Token} {offset : Nat} (hHeld : held ≠ [])
    (h : withHeld start held (tokensAt casing p text) = token :: after)
    (hStart : p.offset = start.offset + held.length) (hCut : token.CutAt offset)
    (hOffset : p.offset ≤ offset) :
    ∃ other, tokensAt casing p text = other :: after ∧ other.CutAt offset ∧
      other.lexeme.dropFront (offset - other.position.offset) =
        token.lexeme.dropFront (offset - token.position.offset) := by
  have hLength := List.length_pos_iff.mpr hHeld
  rcases head_text_or_apart (tokensAt casing p text) with ⟨q, s, rest, hRest⟩ | hApart
  · have hPosition : q = p :=
      (tiling_tokensAt casing p text).head_position _ (by rw [hRest]; rfl)
    rw [hRest, withHeld_text _ _ hHeld] at h
    obtain ⟨rfl, rfl⟩ := List.cons.inj h
    subst hPosition
    refine ⟨⟨q, .text s⟩, hRest, Or.inr ⟨rfl, hOffset, ?_⟩, ?_⟩
    · rcases hCut with hHere | ⟨-, -, hEnd⟩
      · dsimp only at hHere
        omega
      · rw [Lexeme.value, ← String.length_toList, String.toList_ofList, List.length_append,
          String.length_toList] at hEnd
        dsimp only [Lexeme.value] at hEnd ⊢
        omega
    · have hDrop : offset - start.offset = held.length + (offset - q.offset) := by omega
      rw [Lexeme.dropFront, Lexeme.dropFront, String.toList_ofList, hDrop, ← List.drop_drop,
        List.drop_left]
  · rw [withHeld_apart _ hHeld hApart] at h
    obtain ⟨rfl, rfl⟩ := List.cons.inj h
    rcases hCut with hHere | ⟨-, -, hEnd⟩
    · dsimp only at hHere
      omega
    · rw [Lexeme.value, ← String.length_toList, String.toList_ofList] at hEnd
      dsimp only at hEnd
      omega

theorem exists_behind_first {start : Position} {held : List Char} {first token : Token}
    {tokens before after : List Token}
    (hTokens : first :: withHeld start held tokens = before ++ token :: after)
    (hFirst : before ≠ []) (hSecond : held ≠ [] → before ≠ [first]) :
    ∃ list, tokens = list ++ token :: after ∧ ∀ last ∈ list.getLast?,
      last.lexeme.kind = .text ∨ before.getLast? = some last := by
  obtain ⟨other, before, rfl⟩ := List.exists_cons_of_ne_nil hFirst
  obtain ⟨rfl, hOthers⟩ := List.cons.inj hTokens
  by_cases hHeld : held = []
  · rw [hHeld, withHeld_nil] at hOthers
    refine ⟨before, hOthers, fun last hLast => Or.inr ?_⟩
    cases before with
    | nil => cases hLast
    | cons second before => exact hLast
  · have hMore : before ≠ [] := by
      rintro rfl
      exact hSecond hHeld rfl
    obtain ⟨list, hList, hLast⟩ := withHeld_eq_append hMore hOthers
    obtain ⟨second, before, rfl⟩ := List.exists_cons_of_ne_nil hMore
    exact ⟨list, hList, hLast⟩

/-- The tokens of a text from a cut on are those of the text that is left there. -/
theorem tokensAt_cut {p : Position} {text front rest : List Char} {before after : List Token}
    {token : Token} (hText : text = front ++ rest)
    (hTokens : tokensAt casing p text = before ++ token :: after)
    (hBefore : ∀ last ∈ before.getLast?, ¬ last.lexeme.OpensRaw)
    (hCut : token.CutAt (p.offset + front.length)) :
    tokensAt casing (p.after front) rest =
      ⟨p.after front, token.lexeme.dropFront (p.offset + front.length - token.position.offset)⟩ ::
        after := by
  induction hLength : text.length using Nat.strongRecOn
    generalizing p text front before token with
  | ind length ih =>
  have hLater {list : List Token} (hList : ∀ last ∈ list.getLast?,
      last.lexeme.kind = .text ∨ before.getLast? = some last) :
      ∀ last ∈ list.getLast?, ¬ last.lexeme.OpensRaw := by
    intro last hLast
    rcases hList last hLast with hKind | hOld
    · exact Lexeme.not_opensRaw_of_isText hKind
    · exact hBefore last hOld
  cases front with
  | nil =>
    obtain ⟨rfl, hPosition⟩ := tokensAt_cut_nil hTokens hCut
    rw [List.nil_append] at hText
    rw [List.length_nil, Nat.add_zero, hPosition, Nat.sub_self, Lexeme.dropFront_zero,
      Position.after_nil, ← hText, hTokens, ← hPosition]
    rfl
  | cons c front =>
    rw [List.cons_append] at hText
    cases hOpens : (if c = '<' then construct? casing ('<' :: (front ++ rest)) else none) with
    | none =>
      have hNone : c = '<' → construct? casing ('<' :: (front ++ rest)) = none := by
        rintro rfl
        rwa [if_pos rfl] at hOpens
      have hShort : (front ++ rest).length < length := by
        rw [← hLength, hText]
        exact Nat.lt_succ_self _
      have hOffset : p.offset + (c :: front).length = (p.next c).offset + front.length := by
        rw [List.length_cons, Position.next_offset]
        omega
      rw [hOffset] at hCut ⊢
      rw [hText, tokensAt_char p hNone] at hTokens
      by_cases hFirst : before = []
      · rw [hFirst, List.nil_append] at hTokens
        obtain ⟨other, hOther, hOtherCut, hDrop⟩ := withHeld_cut_first (List.cons_ne_nil c []) hTokens
          (Position.next_offset p c) hCut (Nat.le_add_right _ _)
        rw [← hDrop]
        exact @ih _ hShort (p.next c) _ front [] other rfl hOther nofun hOtherCut rfl
      · obtain ⟨list, hList, hLast⟩ := withHeld_eq_append hFirst hTokens
        exact ih _ hShort rfl hList (hLater hLast) hCut rfl
    | some construct =>
      obtain ⟨lexeme, left, mode⟩ := construct
      split at hOpens
      · rename_i hChar
        subst hChar
        obtain ⟨span, hSpan, hNe, hKind, -⟩ := spells_construct hOpens
        rw [hText, tokensAt_construct p hOpens hSpan] at hTokens
        generalize hRaw : (mode.takeRaw left).1 = raw at hTokens
        generalize hBehind : (mode.takeRaw left).2 = behind at hTokens
        have hLeft : left = raw ++ behind := by
          rw [← hRaw, ← hBehind, mode.takeRaw_append]
        -- No cut goes into the construct, nor into raw text behind it.
        have hFirst : before ≠ [] := by
          rintro rfl
          obtain ⟨rfl, -⟩ := List.cons.inj hTokens
          rcases hCut with hHere | ⟨hText, -⟩
          · simp at hHere
          · exact absurd hText hKind
        have hSecond (hHeld : raw ≠ []) : before ≠ [⟨p, lexeme⟩] := by
          rintro rfl
          exact hBefore ⟨p, lexeme⟩ rfl (opensRaw_of_construct hOpens (hRaw ▸ hHeld))
        obtain ⟨list, hList, hLast⟩ := exists_behind_first hTokens hFirst hSecond
        have hReach := ((tiling_tokensAt casing (p.after (span ++ raw)) behind).offset_bounds token
          (by rw [hList]; simp)).1
        rw [Position.after_offset] at hReach
        have hWhole : span ++ raw ++ behind = '<' :: front ++ rest := by
          rw [List.append_assoc, ← hLeft, ← hSpan, List.cons_append]
        have hInside : (span ++ raw).length ≤ ('<' :: front).length :=
          Nat.le_of_add_le_add_left (Nat.le_trans hReach hCut.le)
        obtain ⟨more, hMore⟩ : span ++ raw <+: '<' :: front :=
          List.prefix_of_prefix_length_le ⟨behind, hWhole⟩ (List.prefix_append _ rest) hInside
        have hBehindText : behind = more ++ rest := by
          rw [← hMore, List.append_assoc (span ++ raw) more] at hWhole
          exact List.append_cancel_left hWhole
        have hShort : behind.length < length := by
          have hPositive := List.length_pos_iff.mpr hNe
          rw [← hLength, hText, ← List.cons_append, ← hWhole]
          simp only [List.length_append]
          omega
        have hOffset : p.offset + ('<' :: front).length =
            (p.after (span ++ raw)).offset + more.length := by
          rw [← hMore, Position.after_offset, List.length_append, Nat.add_assoc]
        rw [hOffset] at hCut ⊢
        rw [← hMore, Position.after_append]
        exact ih _ hShort hBehindText hList (hLater hLast) hCut rfl
      · cases hOpens

/-! ## Offsets from another start -/

end Scan

def Token.placed (offset : Nat) (token : Token) : Nat × Lexeme :=
  (offset + token.position.offset, token.lexeme)

namespace Scan

variable {casing : Casing}

theorem placed_withHeld {start start' : Position} {held : List Char} {tokens tokens' : List Token}
    {k l : Nat} (hTokens : tokens.map (Token.placed k) = tokens'.map (Token.placed l))
    (hStart : k + start.offset = l + start'.offset) :
    (withHeld start held tokens).map (Token.placed k) =
      (withHeld start' held tokens').map (Token.placed l) := by
  by_cases hHeld : held = []
  · rwa [hHeld, withHeld_nil, withHeld_nil]
  · have hKinds : tokens.head?.map (·.lexeme) = tokens'.head?.map (·.lexeme) := by
      have hHeads := congrArg (·.head?.map Prod.snd) hTokens
      simpa [List.head?_map, Function.comp_def, Token.placed] using hHeads
    rcases head_text_or_apart tokens with ⟨p, s, rest, rfl⟩ | hApart
    · cases tokens' with
      | nil => cases hKinds
      | cons first rest' =>
        obtain ⟨q, lexeme⟩ := first
        simp only [List.head?_cons, Option.map_some, Option.some.injEq] at hKinds
        subst hKinds
        rw [withHeld_text _ _ hHeld, withHeld_text _ _ hHeld, List.map_cons, List.map_cons,
          (List.cons.inj hTokens).2, Token.placed, Token.placed, hStart]
    · have hApart' : ∀ first ∈ tokens'.head?, first.lexeme.kind ≠ .text := by
        intro first hFirst
        rw [Option.mem_def.mp hFirst, Option.map_some, Option.map_eq_some_iff] at hKinds
        obtain ⟨other, hOther, hSame⟩ := hKinds
        rw [← hSame]
        exact hApart other hOther
      rw [withHeld_apart _ hHeld hApart, withHeld_apart _ hHeld hApart', List.map_cons,
        List.map_cons, hTokens, Token.placed, Token.placed, hStart]

theorem placed_tokensAt (p q : Position) (text : List Char) {k l : Nat}
    (hStart : k + p.offset = l + q.offset) :
    (tokensAt casing p text).map (Token.placed k) =
      (tokensAt casing q text).map (Token.placed l) := by
  induction hLength : text.length using Nat.strongRecOn generalizing p q text with
  | ind length ih =>
  cases text with
  | nil => rw [tokensAt_nil, tokensAt_nil, List.map_nil, List.map_nil]
  | cons c rest =>
    have hNext : k + (p.next c).offset = l + (q.next c).offset := by
      rw [Position.next_offset, Position.next_offset]
      omega
    cases hOpens : (if c = '<' then construct? casing ('<' :: rest) else none) with
    | none =>
      have hNone : c = '<' → construct? casing ('<' :: rest) = none := by
        rintro rfl
        rwa [if_pos rfl] at hOpens
      have hShort : rest.length < length := by
        rw [← hLength]
        exact Nat.lt_succ_self _
      rw [tokensAt_char p hNone, tokensAt_char q hNone]
      exact placed_withHeld (ih _ hShort _ _ _ hNext rfl) hStart
    | some construct =>
      obtain ⟨lexeme, left, mode⟩ := construct
      split at hOpens
      · rename_i hChar
        subst hChar
        obtain ⟨span, hSpan, hNe, -⟩ := spells_construct hOpens
        have hAfter (taken : List Char) :
            k + (p.after taken).offset = l + (q.after taken).offset := by
          rw [Position.after_offset, Position.after_offset]
          omega
        have hShort : (mode.takeRaw left).2.length < length := by
          have hWhole := congrArg List.length (mode.takeRaw_append left)
          have hPositive := List.length_pos_iff.mpr hNe
          rw [← hLength, hSpan]
          simp only [List.length_append] at hWhole ⊢
          omega
        rw [tokensAt_construct p hOpens hSpan, tokensAt_construct q hOpens hSpan, List.map_cons,
          List.map_cons, Token.placed, Token.placed, hStart]
        exact congrArg (List.cons _)
          (placed_withHeld (ih _ hShort _ _ _ (hAfter _) rfl) (hAfter _))
      · cases hOpens

end Scan

namespace Token

open Scan

/-- Reading anew at a cut outside raw text gives the tokens from there on: those of the whole text,
the one that was cut without what stands in front. No text that may be cut at a `<` has a construct
there. -/
theorem scan_restart (casing : Casing) {text : String} {before after : List Token} {token : Token}
    {offset : Nat} (hTokens : scan casing text = before ++ token :: after)
    (hBefore : ∀ last ∈ before.getLast?, ¬ last.lexeme.OpensRaw) (hCut : token.CutAt offset) :
    (scan casing (String.ofList (text.toList.drop offset))).map (Token.placed offset) =
        (offset, token.lexeme.dropFront (offset - token.position.offset)) ::
          after.map (Token.placed 0) ∧
      (token.lexeme.kind = .text → ∀ rest, text.toList.drop offset = '<' :: rest →
        construct? casing ('<' :: rest) = none) := by
  have hTiling := tiling_scan casing text
  have hMember : token ∈ scan casing text := by
    rw [hTokens]
    exact List.mem_append_right before List.mem_cons_self
  have hInside : offset ≤ text.toList.length := by
    have hBound := (hTiling.offset_bounds token hMember).2
    rw [Position.start, Nat.zero_add] at hBound
    rcases hCut with hHere | ⟨hKind, -, hEnd⟩
    · exact Nat.le_of_lt (hHere ▸ hBound)
    · have hLast := hTiling.text_end_le token hMember hKind
      rw [Position.start, Nat.zero_add] at hLast
      exact Nat.le_of_lt (Nat.lt_of_lt_of_le hEnd hLast)
  have hFront : Position.start.offset + (text.toList.take offset).length = offset := by
    rw [Position.start, Nat.zero_add, List.length_take, Nat.min_eq_left hInside]
  have hCutText := tokensAt_cut (List.take_append_drop offset text.toList).symm hTokens hBefore
    (by rwa [hFront])
  rw [hFront] at hCutText
  refine ⟨?_, ?_⟩
  · have hStart : offset + Position.start.offset =
        0 + (Position.start.after (text.toList.take offset)).offset := by
      rw [Position.after_offset, hFront, Position.start, Nat.add_zero, Nat.zero_add]
    have hPlaced := @placed_tokensAt casing .start
      (Position.start.after (text.toList.take offset)) (text.toList.drop offset) offset 0 hStart
    rw [hCutText, List.map_cons, Token.placed, Position.after_offset, hFront, Nat.zero_add]
      at hPlaced
    rw [scan, String.toList_ofList]
    exact hPlaced
  · intro hKind rest hRest
    cases hOpens : construct? casing ('<' :: rest) with
    | none => rfl
    | some construct =>
      obtain ⟨lexeme, left, mode⟩ := construct
      obtain ⟨span, hSpan, -, hOther, -⟩ := spells_construct hOpens
      rw [hRest, tokensAt_construct _ hOpens hSpan] at hCutText
      obtain ⟨name, hName⟩ : ∃ s, token.lexeme = .text s := by
        cases hLexeme : token.lexeme with
        | text s => exact ⟨s, rfl⟩
        | startTag | endTag | comment | directive =>
          rw [hLexeme] at hKind
          cases hKind
      rw [hName] at hCutText
      cases hCutText
      exact absurd rfl hOther

/-- A text behind an end tag, cut in front of a `<`. -/
theorem scan_restart_stray :
    (scan ⟨true, true⟩ (String.ofList ("</b>x < y<br/>".toList.drop 6))).map (Token.placed 6) =
        [(6, .text "< y"), (9, .startTag "br" [] true)] ∧
      Scan.construct? ⟨true, true⟩ ['<', ' ', 'y', '<', 'b', 'r', '/', '>'] = none := by
  have hRestart := @scan_restart ⟨true, true⟩ "</b>x < y<br/>" [⟨⟨1, 1, 0⟩, .endTag "b"⟩]
    [⟨⟨1, 10, 9⟩, .startTag "br" [] true⟩] ⟨⟨1, 5, 4⟩, .text "x < y"⟩ 6 (by decide +kernel)
    (by rintro last ⟨⟩ ⟨_, _, _, ⟨⟩, _⟩) (Or.inr (by decide))
  exact ⟨hRestart.1, hRestart.2 rfl _ (by decide +kernel)⟩

end Token

end Hypertext
