import Hypertext.Proofs.Tree.Rewriting
import Hypertext.Value.Nodes

/-! # Elements and walks

The elements of a tree are the mappings that a walk offers, but for root nodes: as elements are listed,
a root node is left out wherever it stands, and a walk leaves out none but the one it starts from. A
visitor that passes everything by sees all there is to see, unless the tree goes beyond the bounds of a
walk.
-/

namespace Hypertext

set_option autoImplicit false

namespace Value

/-! ## What there is to see -/

mutual

/-- The items inside a value, each followed by those inside it. -/
def offers : Value → List Value
  | atom _ => []
  | seq _ items => itemOffers items
  | map _ entries => contentOffers entries

def itemOffers : List Value → List Value
  | [] => []
  | item :: rest => item :: (offers item ++ itemOffers rest)

def contentOffers : List (Value × Value) → List Value
  | [] => []
  | (key, value) :: rest =>
    if key.same (str "content") then offers value else contentOffers rest

end

def isMapping : Value → Bool
  | map _ _ => true
  | _ => false

def isElement : Value → Bool
  | map kind _ => !kind.isCapable
  | _ => false

mutual

/-- No mapping is the content of another one, however deep. -/
def isListed : Value → Bool
  | atom _ => true
  | seq _ items => itemsListed items
  | map _ entries => contentListed entries

def itemsListed : List Value → Bool
  | [] => true
  | item :: rest => isListed item && itemsListed rest

def contentListed : List (Value × Value) → Bool
  | [] => true
  | (key, value) :: rest =>
    if key.same (str "content") then !isMapping value && isListed value else contentListed rest

end

/-- The value is within the bounds of a walk that may still go down so far. -/
def Fits (length : Nat) : Nat → Value → Prop
  | 0, _ => False
  | _ + 1, atom _ => True
  | depth + 1, seq _ items => items.length < length ∧ ∀ item ∈ items, Fits length depth item
  | depth + 1, map _ entries =>
    ∀ content, Entries.at? entries "content" = some content →
      content = none ∨ Fits length depth content

theorem Fits.mono {length more : Nat} (hMore : length ≤ more) {depth deeper : Nat} {value : Value}
    (hDeeper : depth ≤ deeper) (h : value.Fits length depth) : value.Fits more deeper := by
  induction depth generalizing deeper value with
  | zero => exact h.elim
  | succ depth ih =>
    obtain ⟨deeper, rfl⟩ := Nat.exists_eq_add_of_le' (Nat.le_trans (Nat.le_add_left 1 depth) hDeeper)
    have hLess := Nat.le_of_succ_le_succ hDeeper
    cases value with
    | atom _ => trivial
    | seq _ items =>
      exact ⟨Nat.lt_of_lt_of_le h.1 hMore, fun item hItem => ih hLess (h.2 item hItem)⟩
    | map _ entries =>
      exact fun content hContent => (h content hContent).imp_right (ih hLess)

theorem exists_fits_cons {value : Value} {values : List Value}
    (h : ∃ bounds : Walk.Bounds, value.Fits bounds.length bounds.depth)
    (hRest : ∃ bounds : Walk.Bounds, ∀ item ∈ values, item.Fits bounds.length bounds.depth) :
    ∃ bounds : Walk.Bounds, ∀ item ∈ value :: values, item.Fits bounds.length bounds.depth := by
  obtain ⟨first, hFirst⟩ := h
  obtain ⟨others, hOthers⟩ := hRest
  refine ⟨⟨max first.depth others.depth, max first.length others.length⟩, ?_⟩
  refine List.forall_mem_cons.mpr ⟨hFirst.mono (Nat.le_max_left _ _) (Nat.le_max_left _ _), ?_⟩
  exact fun item hItem => (hOthers item hItem).mono (Nat.le_max_right _ _) (Nat.le_max_right _ _)

mutual

/-- Every value fits within some bounds, and so within all that are wider. -/
theorem exists_fits : ∀ value : Value,
    ∃ bounds : Walk.Bounds, value.Fits bounds.length bounds.depth
  | atom _ => ⟨⟨1, 0⟩, trivial⟩
  | seq _ items => by
    obtain ⟨bounds, hItems⟩ := exists_fits_items items
    refine ⟨⟨bounds.depth + 1, max bounds.length (items.length + 1)⟩, ?_, fun item hItem => ?_⟩
    · exact Nat.lt_of_lt_of_le (Nat.lt_succ_self _) (Nat.le_max_right _ _)
    · exact (hItems item hItem).mono (Nat.le_max_left _ _) (Nat.le_refl _)
  | map _ entries => by
    obtain ⟨bounds, hValues⟩ := exists_fits_entries entries
    refine ⟨⟨bounds.depth + 1, bounds.length⟩, fun content hContent => .inr ?_⟩
    obtain ⟨entry, hFind, rfl⟩ := Option.map_eq_some_iff.mp hContent
    exact hValues _ (List.mem_map_of_mem (List.mem_of_find?_eq_some hFind))

theorem exists_fits_items : ∀ items : List Value,
    ∃ bounds : Walk.Bounds, ∀ item ∈ items, item.Fits bounds.length bounds.depth
  | [] => ⟨⟨0, 0⟩, List.forall_mem_nil _⟩
  | item :: rest => exists_fits_cons (exists_fits item) (exists_fits_items rest)

theorem exists_fits_entries : ∀ entries : List (Value × Value),
    ∃ bounds : Walk.Bounds, ∀ item ∈ entries.map (·.2), item.Fits bounds.length bounds.depth
  | [] => ⟨⟨0, 0⟩, List.forall_mem_nil _⟩
  | (_, value) :: rest => exists_fits_cons (exists_fits value) (exists_fits_entries rest)

end

theorem contentOffers_eq (entries : List (Value × Value)) :
    contentOffers entries = ((Entries.at? entries "content").map offers).getD [] := by
  induction entries with
  | nil => rfl
  | cons entry entries ih =>
    obtain ⟨key, value⟩ := entry
    simp only [Entries.at?, Entries.get?] at ih
    simp only [contentOffers, Entries.at?, Entries.get?, List.find?_cons]
    cases key.same (.str "content") with
    | true => rfl
    | false => exact ih

/-! ## The elements among it -/

mutual

theorem nodes_eq : ∀ value : Value, value.isListed = true →
    value.nodes = (if value.isElement then [value] else []) ++ value.offers.filter isElement
  | atom _, _ => rfl
  | seq _ items, h => by
    rw [isListed] at h
    exact itemNodes_eq items h
  | map kind entries, h => by
    rw [isListed] at h
    rw [nodes, offers, contentNodes_eq entries h, isElement]
    cases kind.isCapable <;> rfl

theorem itemNodes_eq : ∀ items : List Value, itemsListed items = true →
    itemNodes items = (itemOffers items).filter isElement
  | [], _ => rfl
  | item :: rest, h => by
    rw [itemsListed, Bool.and_eq_true] at h
    rw [itemNodes, itemOffers, nodes_eq item h.1, itemNodes_eq rest h.2, List.filter_cons,
      List.filter_append]
    cases isElement item <;> simp

theorem contentNodes_eq : ∀ entries : List (Value × Value), contentListed entries = true →
    contentNodes entries = (contentOffers entries).filter isElement
  | [], _ => rfl
  | (key, value) :: rest, h => by
    rw [contentListed] at h
    rw [contentNodes, contentOffers]
    split
    · rename_i hKey
      rw [if_pos hKey, Bool.and_eq_true] at h
      cases value with
      | atom _ => rfl
      | seq _ items => exact itemNodes_eq items h.2
      | map _ _ => cases h.1
    · rename_i hKey
      rw [if_neg hKey] at h
      exact contentNodes_eq rest h

end

theorem isMatch_tag_iff {name : String} {value : Value} :
    (dict [(str "tag", str name)]).isMatch value = true ↔
      value.isMapping = true ∧ value.tag.same (str name) = true := by
  cases value with
  | atom _ | seq _ _ => simp [isMatch, isMapping]
  | map kind entries =>
    rw [same_str_iff, tag, field]
    simp only [isMatch, entriesMatch, Bool.and_true, isMapping, true_and, Entries.at?]
    cases (Entries.get? entries (str "tag")).getD none with
    | atom a =>
      cases a with
      | str s =>
        simp only [leafMatches, Atom.equalsTyped, Atom.same, Atom.typeName, decide_true,
          Bool.true_and, decide_eq_true_eq, atom.injEq, Atom.str.injEq]
        exact eq_comm
      | _ => simp [leafMatches, Atom.equalsTyped, Atom.same]
    | seq _ _ | map _ _ => simp [leafMatches]

end Value

/-! ## Walks that are only looked at -/

namespace Walk

variable {σ τ : Type} {P : List Value → Store × τ → Prop} {done values more : List Value}
  {fits fits' : Prop} {result : Except Fault Unit × (Store × τ)}

/-- A visitor that passes everything by and keeps account of what it was offered. -/
def Looks (visitor : Visitor τ) (P : List Value → Store × τ → Prop) : Prop :=
  ∀ (done : List Value) (item : Slot) (state : Store × τ), P done state →
    ∃ after, visitor item state = (.ok .pass, after) ∧ P (done ++ [state.1.view item]) after

/-- All has been offered, or the walk ran out of its bounds where not everything fits in them. -/
inductive Shown (P : List Value → Store × τ → Prop) (done values : List Value) (fits : Prop) :
    Except Fault Unit × (Store × τ) → Prop where
  | all {state : Store × τ} (h : P (done ++ values) state) : Shown P done values fits (.ok (), state)
  | narrow {state : Store × τ} (h : ¬ fits) : Shown P done values fits (.error .exhausted, state)

namespace Shown

theorem nothing {state : Store × τ} (h : P done state) : Shown P done [] fits (.ok (), state) :=
  .all (by rwa [List.append_nil])

theorem mono (h : Shown P done values fits result) (hFits : fits' → fits) :
    Shown P done values fits' result := by
  cases h with
  | all h => exact .all h
  | narrow h => exact .narrow (mt hFits h)

theorem cons {value : Value} (h : Shown P (done ++ [value]) values fits result) :
    Shown P done (value :: values) fits result := by
  cases h with
  | all h => exact .all (by rwa [List.append_assoc, List.singleton_append] at h)
  | narrow h => exact .narrow h

theorem bind {step next : Walking τ Unit} {state : Store × τ}
    (hStep : Shown P done values fits (step state))
    (hNext : ∀ middle, P (done ++ values) middle →
      Shown P (done ++ values) more fits' (next middle)) :
    Shown P done (values ++ more) (fits ∧ fits') ((step >>= fun _ => next) state) := by
  cases hRun : step state with
  | mk outcome middle =>
    rw [hRun] at hStep
    cases hStep with
    | all hMiddle =>
      rw [bind_ok hRun]
      cases hRest : next middle with
      | mk outcome last =>
        have hLast := hNext middle hMiddle
        rw [hRest] at hLast
        cases hLast with
        | all h => exact .all (by rwa [List.append_assoc] at h)
        | narrow h => exact .narrow fun hBoth => h hBoth.2
    | narrow h =>
      rw [bind_error hRun]
      exact .narrow fun hBoth => h hBoth.1

end Shown

variable {visitor : Visitor τ}

theorem itemAt?_object {store : Store} {r : Ref} {kind : SeqKind} {before items : List Located}
    (h : (Located.object r (.seq kind) (before ++ items)).In store) :
    itemAt? store r before.length = items.head?.map Located.slot := by
  cases h with
  | object hCell =>
    rw [itemAt?, hCell, List.map_append]
    cases items <;> simp [Shape.cell]

/-- The induction is on how many positions may still be passed. -/
theorem shown_sweep (enter : Slot → Walking τ Unit) (Fit : Value → Prop) (hLooks : Looks visitor P)
    (hEnter : ∀ tree : Located, (∀ done state, P done state → tree.In state.1) →
      ∀ done state, P done state → Shown P done tree.value.offers (Fit tree.value)
        (enter tree.slot state))
    (fuel : Nat) {r : Ref} {kind : SeqKind} (before items : List Located)
    (hTree : ∀ done state, P done state →
      (Located.object r (.seq kind) (before ++ items)).In state.1)
    (done : List Value) (state : Store × τ) (h : P done state) :
    Shown P done (Value.itemOffers (items.map Located.value))
      (items.length < fuel ∧ ∀ item ∈ items, Fit item.value)
      (sweep visitor enter r fuel before.length state) := by
  induction fuel generalizing before items done state with
  | zero => exact .narrow fun hFits => Nat.not_lt_zero _ hFits.1
  | succ fuel ih =>
    have hItem := itemAt?_object (hTree done state h)
    rw [sweep_succ, getStore_bind]
    cases items with
    | nil =>
      simp only [hItem, List.head?_nil, Option.map_none]
      exact .nothing h
    | cons item rest =>
      simp only [hItem, List.head?_cons, Option.map_some]
      have hPart : ∀ done state, P done state → item.In state.1 := fun done state h =>
        (hTree done state h).of_mem (List.mem_append_right _ List.mem_cons_self)
      have hNext : ∀ done state, P done state →
          (Located.object r (.seq kind) ((before ++ [item]) ++ rest)).In state.1 := by
        simpa only [List.append_assoc, List.singleton_append] using hTree
      obtain ⟨after, hCall, hAfter⟩ := hLooks done item.slot state h
      rw [(hPart done state h).view_eq] at hAfter
      rw [bind_ok hCall, settle_pass rfl, List.map_cons, Value.itemOffers]
      have hRest := ih (before ++ [item]) rest hNext
      rw [List.length_append, List.length_singleton] at hRest
      refine ((hEnter item hPart _ _ hAfter).bind (hRest _)).cons.mono ?_
      rintro ⟨hLength, hFits⟩
      obtain ⟨hHere, hThere⟩ := List.forall_mem_cons.mp hFits
      exact ⟨hHere, Nat.lt_of_succ_lt_succ hLength, hThere⟩

theorem at?_content_map {β : Type} {keys : List Value} {parts : List Located} (f : Located → β)
    (h : keys.length = parts.length) :
    Entries.at? (keys.zip (parts.map f)) "content" =
      ((contentIndex? keys).bind (parts[·]?)).map f := by
  rw [at?_content (by rwa [List.length_map])]
  cases contentIndex? keys <;> simp

theorem isNone_of_value {part : Located} (h : part.value = .none) : part.slot.isNone = true := by
  cases part with
  | atom a =>
    cases h
    rfl
  | object _ shape _ => cases shape <;> cases h

/-- The induction is on how deep the walk still may go. -/
theorem shown_enter (hLooks : Looks visitor P) (length depth : Nat) (tree : Located)
    (hTree : ∀ done state, P done state → tree.In state.1) (done : List Value) (state : Store × τ)
    (h : P done state) :
    Shown P done tree.value.offers (tree.value.Fits length depth)
      (Walk.enter visitor length depth tree.slot state) := by
  induction depth generalizing tree done state with
  | zero => exact .narrow id
  | succ depth ih =>
    rw [Walk.enter, getStore_bind]
    cases tree with
    | atom a => exact .nothing h
    | object r shape parts =>
      cases hTree done state h with
      | object hCell hFits hParts =>
        cases shape with
        | seq kind =>
          simp only [Store.cell?, Located.slot, hCell, Shape.cell]
          rw [Located.value_object]
          refine (shown_sweep (Walk.enter visitor length depth) (Value.Fits length depth) hLooks ih
            length [] parts hTree done state h).mono ?_
          rintro ⟨hLength, hItems⟩
          rw [List.length_map] at hLength
          exact ⟨hLength, fun item hItem => hItems _ (List.mem_map_of_mem hItem)⟩
        | map kind keys =>
          have hContent := at?_content_map Located.value hFits
          simp only [Store.cell?, Located.slot, hCell, Shape.cell,
            at?_content_map Located.slot hFits]
          rw [Located.value_object, Shape.value, Value.offers, Value.contentOffers_eq, hContent]
          cases hIndex : (contentIndex? keys).bind (parts[·]?) with
          | none => exact .nothing h
          | some part =>
            obtain ⟨index, -, hPart⟩ := Option.bind_eq_some_iff.mp hIndex
            rw [hIndex, Option.map_some] at hContent
            simp only [Option.map_some]
            cases hNone : part.slot.isNone with
            | true =>
              cases eq_none_of_isNone hNone
              exact .nothing h
            | false =>
              have hInner := ih part
                (fun done state h => (hTree done state h).of_mem (List.mem_of_getElem? hPart))
                done state h
              refine hInner.mono fun hFits => (hFits part.value hContent).resolve_left fun hValue => ?_
              rw [isNone_of_value hValue] at hNone
              cases hNone

end Walk

/-! ## Visitors that pass everything by -/

def Call.shown (call : Call) : Value := call.before.view call.item

/-- The visitor wants nothing of any item and leaves the tree as it is. -/
def Visitor.PassesBy {σ : Type} (visitor : Visitor σ) (tree : Located) : Prop :=
  ∀ (item : Slot) (store : Store) (memory : σ), tree.In store →
    ∃ after kept, visitor item (store, memory) = (.ok .pass, after, kept) ∧ tree.In after

namespace Walk

variable {σ : Type} {visitor : Visitor σ} {tree : Located}

theorem looks_recorded (hPasses : visitor.PassesBy tree) :
    Looks visitor.recorded fun done state =>
      tree.In state.1 ∧ state.2.2.map Call.shown = done := by
  rintro done item ⟨store, memory, calls⟩ ⟨hTree, rfl⟩
  obtain ⟨after, kept, hCall, hAfter⟩ := hPasses item store memory hTree
  refine ⟨_, Visitor.recorded_run hCall calls, hAfter, ?_⟩
  rw [List.map_append]
  rfl

theorem looks_matching (hPasses : visitor.PassesBy tree) (expression : Value) :
    Looks (matching expression visitor.recorded) fun done state =>
      tree.In state.1 ∧ state.2.2.map Call.shown =
        done.filter fun item => (alternatives expression).any (·.isMatch item) := by
  rintro done item ⟨store, memory, calls⟩ ⟨hTree, hCalls⟩
  rw [matching, getStore_bind]
  by_cases hMatch : (alternatives expression).any (·.isMatch (store.view item)) = true
  · obtain ⟨after, kept, hCall, hAfter⟩ := hPasses item store memory hTree
    rw [if_pos hMatch]
    refine ⟨_, Visitor.recorded_run hCall calls, hAfter, ?_⟩
    rw [List.map_append, hCalls, List.filter_append]
    simp only [List.filter_singleton, hMatch, List.map_singleton, Call.shown, cond_true]
  · rw [if_neg hMatch]
    refine ⟨(store, memory, calls), rfl, hTree, ?_⟩
    rw [hCalls, List.filter_append]
    simp only [List.filter_singleton, hMatch, cond_false, List.append_nil]

/-- A recorded walk has called its visitor on these values, in order, or it ran out of its bounds. -/
def Tells (run : Except Fault Unit × Store × σ × List Call) (values : List Value) (fits : Prop) :
    Prop :=
  (run.1 = .ok () ∧ run.2.2.2.map Call.shown = values) ∨ (run.1 = .error .exhausted ∧ ¬ fits)

theorem Shown.tells (choose : List Value → List Value) {values : List Value} {fits : Prop}
    {run : Except Fault Unit × Store × σ × List Call}
    (h : Shown (fun done state => tree.In state.1 ∧ state.2.2.map Call.shown = choose done) []
      values fits run) : Tells run (choose values) fits := by
  cases h with
  | all h => exact .inl ⟨rfl, h.2⟩
  | narrow h => exact .inr ⟨rfl, h⟩

end Walk

/-- The elements of a tree are, in order, the mappings that a walk offers to a visitor that wants
nothing, but for root nodes, and those of a tag are the ones that the walk offers where only that tag
matches. Without a root node inside the tree these are all. -/
theorem nodes_walked {σ : Type} {bounds : Walk.Bounds} {visitor : Visitor σ} {tree : Located}
    {store : Store} {memory : σ} (hTree : tree.In store) (hCapable : (store.view tree.slot).isCapable = true)
    (hListed : (store.view tree.slot).isListed = true) (hPasses : visitor.PassesBy tree) :
    let value := store.view tree.slot
    let fits := value.Fits bounds.length bounds.depth
    Walk.Tells (walk bounds visitor.recorded tree.slot (store, memory, [])) value.offers fits ∧
    (∀ name, Walk.Tells
      (walkMatching bounds (.dict [(.str "tag", .str name)]) visitor.recorded tree.slot
        (store, memory, []))
      (value.offers.filter fun item => item.isMapping && item.tag.same (.str name)) fits) ∧
    value.nodes = value.offers.filter Value.isElement ∧
    (∀ wanted, value.nodesTagged wanted =
      value.offers.filter fun item => item.isElement && item.tag.same wanted) ∧
    ((∀ item ∈ value.offers, item.isMapping = true → item.isCapable = false) →
      value.nodes = value.offers.filter Value.isMapping ∧
      ∀ wanted, value.nodesTagged wanted =
        value.offers.filter fun item => item.isMapping && item.tag.same wanted) := by
  intro value fits
  have hValue : value = tree.value := hTree.view_eq
  have hRoot : value.isElement = false := by
    cases hShape : value with
    | atom _ | seq _ _ => rfl
    | map kind entries =>
      have hKind : value.isCapable = true := hCapable
      rw [hShape] at hKind
      rw [Value.isElement, Bool.not_eq_false']
      exact hKind
  have hNodes : value.nodes = value.offers.filter Value.isElement := by
    rw [Value.nodes_eq value hListed, hRoot]
    rfl
  have hTagged : ∀ wanted, value.nodesTagged wanted =
      value.offers.filter fun item => item.isElement && item.tag.same wanted := fun wanted => by
    rw [Value.nodesTagged, hNodes, List.filter_filter]
    simp only [Bool.and_comm]
  refine ⟨?_, fun name => ?_, hNodes, hTagged, fun hNone => ?_⟩
  · have hShown := Walk.shown_enter (Walk.looks_recorded hPasses) bounds.length bounds.depth tree
      (fun _ _ h => h.1) [] (store, memory, []) ⟨hTree, rfl⟩
    rw [← hValue] at hShown
    exact hShown.tells id
  · have hShown := Walk.shown_enter
      (Walk.looks_matching hPasses (.dict [(.str "tag", .str name)])) bounds.length bounds.depth
      tree (fun _ _ h => h.1) [] (store, memory, []) ⟨hTree, rfl⟩
    rw [← hValue] at hShown
    have hMatch : (fun item : Value => item.isMapping && item.tag.same (.str name)) =
        fun item => (alternatives (.dict [(.str "tag", .str name)])).any (·.isMatch item) := by
      funext item
      rw [Bool.eq_iff_iff, Bool.and_eq_true, ← Value.isMatch_tag_iff]
      simp [alternatives]
    rw [hMatch]
    exact hShown.tells (List.filter _)
  · have hSame : ∀ item ∈ value.offers, item.isElement = item.isMapping := by
      intro item hItem
      cases item with
      | atom _ | seq _ _ => rfl
      | map kind _ =>
        have hKind : kind.isCapable = false := hNone _ hItem rfl
        rw [Value.isElement, hKind]
        rfl
    refine ⟨hNodes.trans (List.filter_congr hSame), fun wanted => (hTagged wanted).trans ?_⟩
    exact List.filter_congr fun item hItem => by rw [hSame item hItem]

def Visitor.idle : Visitor Unit := fun _ => return .pass

/-- A root node that was put inside an element is offered to a visitor but is no element, and is not
found by its tag. -/
theorem nodes_walked_wrapping :
    let inner : Located := .object ⟨3⟩ (.map (.root none) [.str "tag"]) [.atom (.str "a")]
    let content : Located := .object ⟨2⟩ (.seq .tuple) [inner]
    let element : Located := .object ⟨1⟩ (.map .node [.str "tag", .str "content"])
      [.atom (.str "p"), content]
    let tree : Located := .object ⟨0⟩ (.seq (.tree none)) [element]
    let store : Store := ⟨#[.seq (.tree none) [.ref ⟨1⟩],
      .map .node [(.str "tag", .atom (.str "p")), (.str "content", .ref ⟨2⟩)],
      .seq .tuple [.ref ⟨3⟩], .map (.root none) [(.str "tag", .atom (.str "a"))]], #[]⟩
    let value := store.view tree.slot
    let told := walk ⟨8, 8⟩ Visitor.idle.recorded tree.slot (store, (), [])
    let found := walkMatching ⟨8, 8⟩ (.dict [(.str "tag", .str "a")]) Visitor.idle.recorded
      tree.slot (store, (), [])
    (tree.In store ∧ value.isCapable = true ∧ value.isListed = true ∧
      Visitor.idle.PassesBy tree) ∧
    (told.1 = .ok () ∧ told.2.2.2.map Call.shown = [element.value, inner.value]) ∧
    (found.1 = .ok () ∧ found.2.2.2.map Call.shown = [inner.value]) ∧
    value.nodes = [element.value] ∧ value.nodesTagged (.str "a") = [] := by
  intro inner content element tree store value told found
  have hInner : inner.In store :=
    .object rfl rfl (List.forall_mem_singleton.mpr (.atom _))
  have hContent : content.In store := .object rfl trivial (List.forall_mem_singleton.mpr hInner)
  have hElement : element.In store := .object rfl rfl
    (List.forall_mem_cons.mpr ⟨.atom _, List.forall_mem_singleton.mpr hContent⟩)
  have hTree : tree.In store := .object rfl trivial (List.forall_mem_singleton.mpr hElement)
  have hPasses : Visitor.idle.PassesBy tree := fun _ store memory h => ⟨store, memory, rfl, h⟩
  obtain ⟨hWalk, hMatch, hNodes, hTagged, -⟩ := @nodes_walked Unit ⟨8, 8⟩ Visitor.idle tree store ()
    hTree rfl rfl hPasses
  refine ⟨⟨hTree, rfl, rfl, hPasses⟩, ?_, ?_, hNodes, hTagged (.str "a")⟩
  · exact hWalk.resolve_right fun hEnd => nomatch hEnd.1
  · exact (hMatch "a").resolve_right fun hEnd => nomatch hEnd.1

end Hypertext
