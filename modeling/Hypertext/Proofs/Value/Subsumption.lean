import Mathlib.Data.List.Nodup
import Mathlib.Logic.Relation
import Hypertext.Proofs.Value.Entries
import Hypertext.Value.Matching

/-! # Matching is subsumption

Among plain data an expression is a value that asks for at least itself, and to match is to hold at
least as much. So the relation is reflexive and transitive, and whatever makes an item hold more, or
an expression ask for less, keeps a match. Members of sequences may share the member that they are
matched by, and a key that is missing is never matched by what an expression asks for there.
-/

namespace Hypertext

set_option autoImplicit false

theorem Double.same_iff {d e : Double} (hNumber : d.isNaN = false) :
    d.same e = true ↔ d = e ∨ d.isZero = true ∧ e.isZero = true := by
  have hZero : e.isZero = true → e.isNaN = false := by
    simp only [Double.isZero, Double.isNaN, Bool.and_eq_true, decide_eq_true_eq]
    rintro ⟨hExponent, -⟩
    simp [hExponent]
  simp only [Double.same, hNumber, Bool.not_false, Bool.true_and, Bool.and_eq_true, Bool.or_eq_true,
    Bool.not_eq_true', decide_eq_true_eq]
  constructor
  · rintro ⟨-, hBits | hZeros⟩
    · exact .inl (Double.eq_of_bits_eq hBits)
    · exact .inr hZeros
  · rintro (rfl | hZeros)
    · exact ⟨hNumber, .inl rfl⟩
    · exact ⟨hZero hZeros.2, .inr hZeros⟩

/-- Leaves that an expression asks for by their type and value. -/
def Atom.isData : Atom → Bool
  | .int _ | .str _ | .bytes _ => true
  | .float d => !d.isNaN
  | _ => false

namespace Value

/-- Keys are texts, and no two of them are the same. -/
structure HasTextKeys (entries : List (Value × Value)) : Prop where
  texts : ∀ entry ∈ entries, ∃ name : String, entry.1 = .str name
  nodup : (entries.map (·.1)).Nodup

/-- Leaves, sequences and mappings with text keys: no truth values, nothing missing, no patterns. -/
inductive IsData : Value → Prop where
  | leaf {a : Atom} (hLeaf : a.isData = true) : IsData (.atom a)
  | seq {kind : SeqKind} {items : List Value} (hItems : ∀ item ∈ items, IsData item) :
    IsData (.seq kind items)
  | map {kind : MapKind} {entries : List (Value × Value)} (hKeys : HasTextKeys entries)
    (hEntries : ∀ entry ∈ entries, IsData entry.2) : IsData (.map kind entries)

variable {expected actual : Value}

/-! ## Keys -/

theorem get?_str_eq_some {entries : List (Value × Value)} {name : String} {found : Value}
    (h : Entries.get? entries (.str name) = some found) : (.str name, found) ∈ entries := by
  obtain ⟨entry, hFind, rfl⟩ := Option.map_eq_some_iff.mp h
  have hKey := List.find?_some hFind
  rw [← same_str_iff.mp hKey]
  exact List.mem_of_find?_eq_some hFind

theorem HasTextKeys.of_sublist {entries fewer : List (Value × Value)} (h : HasTextKeys entries)
    (hFewer : fewer.Sublist entries) : HasTextKeys fewer :=
  ⟨fun entry hEntry => h.texts entry (hFewer.subset hEntry), h.nodup.sublist (hFewer.map _)⟩

theorem HasTextKeys.get?_eq_some {entries : List (Value × Value)} (h : HasTextKeys entries)
    {name : String} {value : Value} (hEntry : (.str name, value) ∈ entries) :
    Entries.get? entries (.str name) = some value := by
  induction entries with
  | nil => cases hEntry
  | cons first rest ih =>
    rw [Entries.get?, List.find?_cons]
    rcases List.mem_cons.mp hEntry with rfl | hRest
    · rw [same_str_iff.mpr rfl]
      rfl
    · have hApart : first.1.same (.str name) = false := by
        rw [Bool.eq_false_iff]
        intro hSame
        exact (List.nodup_cons.mp h.nodup).1
          (List.mem_map.mpr ⟨_, hRest, (same_str_iff.mp hSame).symm⟩)
      rw [hApart]
      exact ih (h.of_sublist (List.sublist_cons_self first rest)) hRest

/-! ## What an expression asks of an item -/

theorem isMatch_leaf_iff {a : Atom} (hLeaf : a.isData = true) :
    isMatch (.atom a) actual = true ↔ actual = .atom a ∨
      ∃ d e : Double, a = .float d ∧ actual = .atom (.float e) ∧ d.isZero = true ∧ e.isZero = true := by
  rw [isMatch]
  cases actual with
  | seq kind items => cases a <;> simp [leafMatches]
  | map kind entries => cases a <;> simp [leafMatches]
  | atom b =>
    cases a with
    | float d =>
      have hNumber : d.isNaN = false := by simpa [Atom.isData] using hLeaf
      cases b <;> simp [leafMatches, Atom.equalsTyped, Atom.typeName, Atom.same, Double.same_iff hNumber]
      exact or_congr_left eq_comm
    | int n | str s | bytes data =>
      cases b <;> simp [leafMatches, Atom.equalsTyped, Atom.typeName, Atom.same]
      exact eq_comm
    | _ => cases hLeaf

theorem membersMatch_iff {members items : List Value} :
    membersMatch members items = true ↔
      ∀ member ∈ members, ∃ item ∈ items, isMatch member item = true := by
  induction members with
  | nil => simp [membersMatch]
  | cons member rest ih => simp [membersMatch, ih]

theorem isMatch_seq_iff {kind : SeqKind} {members : List Value} :
    isMatch (.seq kind members) actual = true ↔ ∃ other items, actual = .seq other items ∧
      ∀ member ∈ members, ∃ item ∈ items, isMatch member item = true := by
  cases actual with
  | atom a => simp [isMatch]
  | map other entries => simp [isMatch]
  | seq other items =>
    rw [isMatch, membersMatch_iff]
    constructor
    · exact fun h => ⟨other, items, rfl, h⟩
    · rintro ⟨_, _, ⟨⟩, h⟩
      exact h

theorem IsData.isMatch_none (h : IsData expected) : isMatch expected .none = false := by
  cases h with
  | @leaf a hLeaf =>
    rw [Bool.eq_false_iff]
    intro hMatch
    rcases (isMatch_leaf_iff hLeaf).mp hMatch with hSame | ⟨_, _, _, hFloat, _⟩
    · cases hSame
      cases hLeaf
    · cases hFloat
  | seq hItems => rfl
  | map hKeys hEntries => rfl

theorem entriesMatch_iff {asked entries : List (Value × Value)} (hAsked : ∀ entry ∈ asked, IsData entry.2) :
    entriesMatch asked entries = true ↔ ∀ entry ∈ asked, ∃ value,
      Entries.get? entries entry.1 = some value ∧ isMatch entry.2 value = true := by
  induction asked with
  | nil => simp [entriesMatch]
  | cons entry rest ih =>
    obtain ⟨key, wanted⟩ := entry
    obtain ⟨hWanted, hRest⟩ := List.forall_mem_cons.mp hAsked
    have hHere : entriesMatch ((key, wanted) :: rest) entries =
        (isMatch wanted ((Entries.get? entries key).getD .none) && entriesMatch rest entries) := by
      cases hWanted with
      | @leaf a hLeaf => cases a <;> first | rfl | cases hLeaf
      | seq hItems => rfl
      | map hKeys hEntries => rfl
    rw [hHere, Bool.and_eq_true, ih hRest, List.forall_mem_cons]
    refine and_congr_left' ?_
    cases Entries.get? entries key with
    | none => simp [hWanted.isMatch_none]
    | some value => simp

theorem isMatch_map_iff {kind : MapKind} {asked : List (Value × Value)}
    (hAsked : ∀ entry ∈ asked, IsData entry.2) :
    isMatch (.map kind asked) actual = true ↔ ∃ other entries, actual = .map other entries ∧
      ∀ entry ∈ asked, ∃ value,
        Entries.get? entries entry.1 = some value ∧ isMatch entry.2 value = true := by
  cases actual with
  | atom a => simp [isMatch]
  | seq other items => simp [isMatch]
  | map other entries =>
    rw [isMatch, entriesMatch_iff hAsked]
    constructor
    · exact fun h => ⟨other, entries, rfl, h⟩
    · rintro ⟨_, _, ⟨⟩, h⟩
      exact h

/-! ## A preorder -/

theorem IsData.isMatch_refl (h : IsData expected) : isMatch expected expected = true := by
  induction h with
  | leaf hLeaf => exact (isMatch_leaf_iff hLeaf).mpr (.inl rfl)
  | seq _ ih => exact isMatch_seq_iff.mpr ⟨_, _, rfl, fun item hItem => ⟨item, hItem, ih item hItem⟩⟩
  | map hKeys hEntries ih =>
    refine (isMatch_map_iff hEntries).mpr ⟨_, _, rfl, ?_⟩
    rintro ⟨key, value⟩ hEntry
    obtain ⟨name, rfl⟩ := hKeys.texts _ hEntry
    exact ⟨value, hKeys.get?_eq_some hEntry, ih _ hEntry⟩

/-- The induction is on the expression: each witness for a part of it is the item of a match in the
middle, which has a witness of its own. -/
theorem IsData.isMatch_trans (h : IsData expected) {middle : Value} (hMiddle : IsData middle)
    (hFirst : isMatch expected middle = true) (hSecond : isMatch middle actual = true) :
    isMatch expected actual = true := by
  induction h generalizing middle actual with
  | @leaf a hLeaf =>
    rcases (isMatch_leaf_iff hLeaf).mp hFirst with rfl | ⟨d, e, rfl, rfl, hZero, hOther⟩
    · exact hSecond
    · cases hMiddle with
      | leaf hNumber =>
        refine (isMatch_leaf_iff hLeaf).mpr (.inr ⟨d, ?_⟩)
        rcases (isMatch_leaf_iff hNumber).mp hSecond with rfl | ⟨_, last, ⟨⟩, rfl, -, hLast⟩
        · exact ⟨e, rfl, rfl, hZero, hOther⟩
        · exact ⟨last, rfl, rfl, hZero, hLast⟩
  | seq _ ih =>
    obtain ⟨_, members, rfl, hMembers⟩ := isMatch_seq_iff.mp hFirst
    obtain ⟨other, items, rfl, hItems⟩ := isMatch_seq_iff.mp hSecond
    refine isMatch_seq_iff.mpr ⟨other, items, rfl, fun wanted hWanted => ?_⟩
    obtain ⟨member, hMember, hHere⟩ := hMembers wanted hWanted
    obtain ⟨item, hItem, hThere⟩ := hItems member hMember
    cases hMiddle with
    | seq hData => exact ⟨item, hItem, ih wanted hWanted (hData member hMember) hHere hThere⟩
  | map hKeys hEntries ih =>
    obtain ⟨_, between, rfl, hBetween⟩ := (isMatch_map_iff hEntries).mp hFirst
    cases hMiddle with
    | map _ hData =>
      obtain ⟨other, entries, rfl, hFound⟩ := (isMatch_map_iff hData).mp hSecond
      refine (isMatch_map_iff hEntries).mpr ⟨other, entries, rfl, ?_⟩
      rintro ⟨key, wanted⟩ hEntry
      obtain ⟨name, rfl⟩ := hKeys.texts _ hEntry
      obtain ⟨value, hValue, hHere⟩ := hBetween _ hEntry
      have hMember := get?_str_eq_some hValue
      obtain ⟨last, hLast, hThere⟩ := hFound _ hMember
      exact ⟨last, hLast, ih _ hEntry (hData _ hMember) hHere hThere⟩

/-! ## Holding more -/

/-- One more member or key at some depth, or the members of a sequence in another order. -/
inductive Enlarges : Value → Value → Prop where
  | member (kind : SeqKind) (before after : List Value) (added : Value) :
    Enlarges (.seq kind (before ++ after)) (.seq kind (before ++ added :: after))
  | order (kind : SeqKind) {items others : List Value} (hPerm : items.Perm others) :
    Enlarges (.seq kind items) (.seq kind others)
  | key (kind : MapKind) (before after : List (Value × Value)) (added : Value × Value)
    (hNew : Entries.get? (before ++ after) added.1 = Option.none) :
    Enlarges (.map kind (before ++ after)) (.map kind (before ++ added :: after))
  | inItem (kind : SeqKind) (before after : List Value) {item larger : Value}
    (h : Enlarges item larger) :
    Enlarges (.seq kind (before ++ item :: after)) (.seq kind (before ++ larger :: after))
  | inEntry (kind : MapKind) (before after : List (Value × Value)) (key : Value) {value larger : Value}
    (h : Enlarges value larger) :
    Enlarges (.map kind (before ++ (key, value) :: after))
      (.map kind (before ++ (key, larger) :: after))

theorem get?_added {before after : List (Value × Value)} {added : Value × Value} {name : String}
    {found : Value} (hNew : Entries.get? (before ++ after) added.1 = Option.none)
    (h : Entries.get? (before ++ after) (.str name) = some found) :
    Entries.get? (before ++ added :: after) (.str name) = some found := by
  have hApart : added.1.same (.str name) = false := by
    rw [Bool.eq_false_iff]
    intro hSame
    rw [same_str_iff.mp hSame, h] at hNew
    cases hNew
  rw [Entries.get?_append] at h ⊢
  rw [Entries.get?_cons, hApart]
  exact h

theorem get?_changed {before after : List (Value × Value)} {key value larger : Value} {name : Value}
    {found : Value} (h : Entries.get? (before ++ (key, value) :: after) name = some found) :
    Entries.get? (before ++ (key, larger) :: after) name = some found ∨
      found = value ∧ Entries.get? (before ++ (key, larger) :: after) name = some larger := by
  rw [Entries.get?_append, Entries.get?_cons] at h ⊢
  cases hBefore : Entries.get? before name with
  | some first =>
    rw [hBefore] at h
    exact .inl h
  | none =>
    rw [hBefore, Option.none_or] at h
    by_cases hSame : key.same name = true
    · rw [if_pos hSame] at h ⊢
      exact .inr ⟨(Option.some.inj h).symm, rfl⟩
    · rw [if_neg hSame] at h ⊢
      exact .inl h

/-- Everything that plain data asks of the one, the other has. -/
def HoldsMore (item larger : Value) : Prop :=
  ∀ expected, IsData expected → isMatch expected item = true → isMatch expected larger = true

theorem holdsMore_seq {kind : SeqKind} {items others : List Value}
    (hItems : ∀ item ∈ items, ∃ other ∈ others, HoldsMore item other) :
    HoldsMore (.seq kind items) (.seq kind others) := by
  intro expected hExpected hMatch
  cases hExpected with
  | @leaf a hLeaf =>
    rcases (isMatch_leaf_iff hLeaf).mp hMatch with hSame | ⟨_, _, _, hSame, _⟩ <;> cases hSame
  | map _ hEntries =>
    obtain ⟨_, _, hSame, _⟩ := (isMatch_map_iff hEntries).mp hMatch
    cases hSame
  | seq hMembers =>
    obtain ⟨_, _, ⟨⟩, hFound⟩ := isMatch_seq_iff.mp hMatch
    refine isMatch_seq_iff.mpr ⟨kind, others, rfl, fun member hMember => ?_⟩
    obtain ⟨item, hItem, hHere⟩ := hFound member hMember
    obtain ⟨other, hOther, hMore⟩ := hItems item hItem
    exact ⟨other, hOther, hMore member (hMembers member hMember) hHere⟩

theorem holdsMore_map {kind : MapKind} {entries others : List (Value × Value)}
    (hEntries : ∀ {name : String} {found : Value}, Entries.get? entries (.str name) = some found →
      ∃ other, Entries.get? others (.str name) = some other ∧ HoldsMore found other) :
    HoldsMore (.map kind entries) (.map kind others) := by
  intro expected hExpected hMatch
  cases hExpected with
  | @leaf a hLeaf =>
    rcases (isMatch_leaf_iff hLeaf).mp hMatch with hSame | ⟨_, _, _, hSame, _⟩ <;> cases hSame
  | seq hMembers =>
    obtain ⟨_, _, hSame, _⟩ := isMatch_seq_iff.mp hMatch
    cases hSame
  | map hKeys hAsked =>
    obtain ⟨_, _, ⟨⟩, hFound⟩ := (isMatch_map_iff hAsked).mp hMatch
    refine (isMatch_map_iff hAsked).mpr ⟨kind, others, rfl, ?_⟩
    rintro ⟨key, wanted⟩ hEntry
    obtain ⟨name, rfl⟩ := hKeys.texts _ hEntry
    obtain ⟨found, hHere, hWanted⟩ := hFound _ hEntry
    obtain ⟨other, hOther, hMore⟩ := hEntries hHere
    exact ⟨other, hOther, hMore wanted (hAsked _ hEntry) hWanted⟩

theorem Enlarges.holdsMore {item larger : Value} (h : Enlarges item larger) : HoldsMore item larger := by
  have hSame (value : Value) : HoldsMore value value := fun _ _ hMatch => hMatch
  induction h with
  | member kind before after added =>
    refine holdsMore_seq fun item hItem => ⟨item, ?_, hSame item⟩
    rcases List.mem_append.mp hItem with hBefore | hAfter
    · exact List.mem_append_left _ hBefore
    · exact List.mem_append_right _ (List.mem_cons_of_mem added hAfter)
  | order kind hPerm =>
    exact holdsMore_seq fun item hItem => ⟨item, hPerm.mem_iff.mp hItem, hSame item⟩
  | key kind before after added hNew =>
    exact holdsMore_map fun hFound => ⟨_, get?_added hNew hFound, hSame _⟩
  | @inItem kind before after inner larger _ ih =>
    refine holdsMore_seq fun item hItem => ?_
    rcases List.mem_append.mp hItem with hBefore | hRest
    · exact ⟨item, List.mem_append_left _ hBefore, hSame item⟩
    · rcases List.mem_cons.mp hRest with rfl | hAfter
      · exact ⟨larger, List.mem_append_right _ List.mem_cons_self, ih⟩
      · exact ⟨item, List.mem_append_right _ (List.mem_cons_of_mem larger hAfter), hSame item⟩
  | inEntry kind before after key _ ih =>
    refine holdsMore_map fun hFound => ?_
    rcases get?_changed hFound with hStill | ⟨rfl, hLarger⟩
    · exact ⟨_, hStill, hSame _⟩
    · exact ⟨_, hLarger, ih⟩

theorem Enlarges.isData {item larger : Value} (h : Enlarges item larger) (hLarger : IsData larger) :
    IsData item := by
  induction h with
  | member kind before after added =>
    cases hLarger with
    | seq hItems =>
      exact .seq fun item hItem => hItems item
        ((List.sublist_cons_self added after).append_left before |>.subset hItem)
  | order kind hPerm =>
    cases hLarger with
    | seq hItems => exact .seq fun item hItem => hItems item (hPerm.mem_iff.mp hItem)
  | key kind before after added hNew =>
    have hFewer := (List.sublist_cons_self added after).append_left before
    cases hLarger with
    | map hKeys hEntries =>
      exact .map (hKeys.of_sublist hFewer) fun entry hEntry => hEntries entry (hFewer.subset hEntry)
  | inItem kind before after _ ih =>
    cases hLarger with
    | seq hItems =>
      obtain ⟨hBefore, hRest⟩ := List.forall_mem_append.mp hItems
      obtain ⟨hHere, hAfter⟩ := List.forall_mem_cons.mp hRest
      exact .seq (List.forall_mem_append.mpr ⟨hBefore, List.forall_mem_cons.mpr ⟨ih hHere, hAfter⟩⟩)
  | inEntry kind before after key _ ih =>
    cases hLarger with
    | map hKeys hEntries =>
      obtain ⟨hBefore, hRest⟩ := List.forall_mem_append.mp hEntries
      obtain ⟨hHere, hAfter⟩ := List.forall_mem_cons.mp hRest
      refine .map ⟨?_, ?_⟩
        (List.forall_mem_append.mpr ⟨hBefore, List.forall_mem_cons.mpr ⟨ih hHere, hAfter⟩⟩)
      · have hTexts := List.forall_mem_append.mp hKeys.texts
        exact List.forall_mem_append.mpr ⟨hTexts.1, List.forall_mem_cons.mpr
          (List.forall_mem_cons.mp hTexts.2)⟩
      · simpa using hKeys.nodup

/-! ## Any number of changes -/

theorem holdsMore_of_enlargements {item larger : Value}
    (h : Relation.ReflTransGen Enlarges item larger) : HoldsMore item larger := by
  induction h with
  | refl => exact fun _ _ hMatch => hMatch
  | tail _ hStep ih =>
    exact fun expected hExpected hMatch =>
      hStep.holdsMore expected hExpected (ih expected hExpected hMatch)

theorem isData_of_enlargements {item larger : Value}
    (h : Relation.ReflTransGen Enlarges item larger) (hLarger : IsData larger) : IsData item := by
  induction h with
  | refl => exact hLarger
  | tail _ hStep ih => exact ih (hStep.isData hLarger)

/-- On plain data matching is a preorder. An expression that matches an item goes on matching it when
the item is enlarged, at any depth and any number of times, and when the expression is what it was
before it was enlarged. Leaves are told apart by type and value, the kinds of sequences are not. -/
theorem isMatch_isSubsumption :
    (∀ value, IsData value → isMatch value value = true) ∧
    (∀ expected middle actual, IsData expected → IsData middle → isMatch expected middle = true →
      isMatch middle actual = true → isMatch expected actual = true) ∧
    (∀ expected actual larger, IsData expected → Relation.ReflTransGen Enlarges actual larger →
      isMatch expected actual = true → isMatch expected larger = true) ∧
    (∀ expected smaller actual, IsData expected → Relation.ReflTransGen Enlarges smaller expected →
      isMatch expected actual = true → isMatch smaller actual = true) ∧
    (∀ (a : Atom) (actual : Value), a.isData = true →
      (isMatch (.atom a) actual = true ↔ actual = .atom a ∨ ∃ d e : Double,
        a = .float d ∧ actual = .atom (.float e) ∧ d.isZero = true ∧ e.isZero = true)) ∧
    ∀ (kind other : SeqKind) (items : List Value), (∀ item ∈ items, IsData item) →
      isMatch (.seq kind items) (.seq other items) = true := by
  refine ⟨fun _ h => h.isMatch_refl, fun _ _ _ h hMiddle => h.isMatch_trans hMiddle, ?_, ?_,
    fun _ _ => isMatch_leaf_iff, ?_⟩
  · exact fun expected _ _ hExpected hLarger => holdsMore_of_enlargements hLarger expected hExpected
  · intro expected smaller actual hExpected hSmaller hMatch
    have hData := isData_of_enlargements hSmaller hExpected
    have hLess : isMatch smaller expected = true :=
      holdsMore_of_enlargements hSmaller smaller hData hData.isMatch_refl
    exact hData.isMatch_trans hExpected hLess hMatch
  · exact fun kind other items hItems => isMatch_seq_iff.mpr
      ⟨other, items, rfl, fun item hItem => ⟨item, hItem, (hItems item hItem).isMatch_refl⟩⟩

/-- A tuple in an element, with both zeros: the item has a list there, in another order, and more. -/
theorem isMatch_isSubsumption_zeros :
    let zero : Value := .atom (.float ⟨0⟩)
    let negativeZero : Value := .atom (.float ⟨0x8000000000000000⟩)
    let paragraph (items : Value) : List (Value × Value) :=
      [(.str "tag", .str "p"), (.str "content", items)]
    let bare : Value := .dict [(.str "content", .seq .tuple [.int 1, zero])]
    let expected : Value := .dict (paragraph (.seq .tuple [.int 1, zero]))
    let middle : Value := .dict (paragraph (.list [negativeZero, .str "x", .int 1]))
    let larger : Value :=
      .dict ((.str "attrs", .none) :: paragraph (.list [.str "x", .int 1, negativeZero]))
    IsData expected ∧ IsData middle ∧ isMatch expected middle = true ∧ isMatch middle larger = true ∧
    Relation.ReflTransGen Enlarges middle larger ∧ Relation.ReflTransGen Enlarges bare expected ∧
    (isMatch expected expected = true ∧ isMatch expected larger = true) ∧
    (isMatch expected larger = true ∧ isMatch bare middle = true) ∧
    (isMatch zero negativeZero = true ∧ isMatch zero (.int 0) = false) ∧
    isMatch (.seq .tuple [zero, .str "x"]) (.list [zero, .str "x"]) = true := by
  intro zero negativeZero paragraph bare expected middle larger
  obtain ⟨hRefl, hTrans, hLarger, hSmaller, hLeaf, hKinds⟩ := isMatch_isSubsumption
  have hZero : IsData zero := .leaf rfl
  have hParagraph (items : Value) (hItems : IsData items) : IsData (.dict (paragraph items)) :=
    .map ⟨by simp [paragraph], by simp [paragraph]⟩ (by
      simp only [paragraph, List.forall_mem_cons, List.not_mem_nil, false_imp_iff, implies_true,
        and_true]
      exact ⟨.leaf rfl, hItems⟩)
  have hExpected : IsData expected := by
    refine hParagraph _ (.seq ?_)
    simp only [List.forall_mem_cons, List.not_mem_nil, false_imp_iff, implies_true, and_true]
    exact ⟨.leaf rfl, hZero⟩
  have hMiddle : IsData middle := by
    refine hParagraph _ (.seq ?_)
    simp only [List.forall_mem_cons, List.not_mem_nil, false_imp_iff, implies_true, and_true]
    exact ⟨.leaf rfl, .leaf rfl, .leaf rfl⟩
  have hFirst : isMatch expected middle = true := by decide +kernel
  have hSecond : isMatch middle larger = true := by decide +kernel
  have hMore : Relation.ReflTransGen Enlarges middle larger := by
    refine .tail (.single (.inEntry .dict [(.str "tag", .str "p")] [] (.str "content")
      (.order .list ?_))) (.key .dict [] _ (.str "attrs", .none) rfl)
    exact @List.perm_append_comm _ [negativeZero] [.str "x", .int 1]
  have hLess : Relation.ReflTransGen Enlarges bare expected :=
    .single (.key .dict [] _ (.str "tag", .str "p") rfl)
  refine ⟨hExpected, hMiddle, hFirst, hSecond, hMore, hLess,
    ⟨hRefl _ hExpected, hTrans _ _ _ hExpected hMiddle hFirst hSecond⟩,
    ⟨hLarger _ _ _ hExpected hMore hFirst, hSmaller _ _ _ hExpected hLess hFirst⟩, ⟨?_, ?_⟩, ?_⟩
  · exact (hLeaf _ _ rfl).mpr (.inr ⟨_, _, rfl, rfl, rfl, rfl⟩)
  · rw [Bool.eq_false_iff, ne_eq, hLeaf _ _ rfl]
    rintro (hSame | ⟨_, _, _, hSame, _⟩) <;> cases hSame
  · exact hKinds .tuple .list _ (List.forall_mem_cons.mpr ⟨hZero,
      List.forall_mem_singleton.mpr (.leaf rfl)⟩)

end Value

end Hypertext
