import Hypertext.Proofs.Tree.Located
import Hypertext.Proofs.Tree.Offering

/-! # A walk rewrites a tree from the top down

The rewriting is described on located values, without a store: the items of each sequence come in
order, each is offered once, what is given for it takes its place, and what stands there then is gone
into. A walk over a value without sharing rewrites it in just this way, as long as its visitor leaves
the tree alone and what it gives shares no list or mapping with the rest of the tree. An error stops the
rewriting where it has come to.
-/

namespace Hypertext

set_option autoImplicit false

/-- An item that was offered and what was given for it, if anything was. -/
structure Offer where
  item : Located
  answer : Except Fault (Option Located)

namespace Call

/-- The call found the item of an offer and had its answer. -/
structure Shows (call : Call) (offer : Offer) : Prop where
  item : offer.item.slot = call.item
  found : offer.item.In call.before
  answer : offer.answer.map (·.map Located.slot) = call.answer
  given : ∀ given, offer.answer = .ok (some given) → given.In call.after

/-- A call leaves the tree at a root as it is. What it gives is a finite value without sharing, and of
the tree it has nothing in it that can change but parts of the item. -/
structure IsFair (root : Slot) (call : Call) : Prop where
  keeps : ∀ tree : Located, tree.Stands root call.before → tree.In call.after
  gives : ∀ (tree item : Located) (slot : Slot), tree.Stands root call.before →
    item.slot = call.item → item.In call.before → call.answer = .ok (some slot) →
    ∃ given : Located, given.slot = slot ∧ given.In call.after ∧ given.changeable.Nodup ∧
      ∀ r ∈ given.changeable, r ∈ tree.changeable → r ∈ item.changeable

theorem IsFair.of_same {root : Slot} {call : Call} (hStore : call.after = call.before)
    (hAnswer : call.answer = .ok none) : call.IsFair root where
  keeps tree hTree := by
    rw [hStore]
    exact hTree.holds
  gives _ _ slot _ _ _ hSome := by
    rw [hAnswer] at hSome
    cases hSome

end Call

/-! ## The rewriting -/

def contentIndex? (keys : List Value) : Option Nat := keys.findIdx? (·.same (.str "content"))

mutual

/-- Going into a value, with all that is offered on the way, makes another value of it. An error may stop
it there. -/
inductive Enters : Located → List Offer → Located → Option Fault → Prop where
  | atom (a : Atom) : Enters (.atom a) [] (.atom a) none
  | seq {r : Ref} {kind : SeqKind} {items places : List Located} {offers : List Offer}
    {ending : Option Fault} (h : Sweeps kind.isMutable items offers places ending) :
    Enters (.object r (.seq kind) items) offers (.object r (.seq kind) places) ending
  | content {r : Ref} {kind : MapKind} {keys : List Value} {parts : List Located} {index : Nat}
    {part place : Located} {offers : List Offer} {ending : Option Fault}
    (hIndex : contentIndex? keys = some index) (hPart : parts[index]? = some part)
    (h : Enters part offers place ending) :
    Enters (.object r (.map kind keys) parts) offers
      (.object r (.map kind keys) (parts.set index place)) ending
  | bare {r : Ref} {kind : MapKind} {keys : List Value} {parts : List Located}
    (h : contentIndex? keys = none) :
    Enters (.object r (.map kind keys) parts) [] (.object r (.map kind keys) parts) none
  | exhausted (tree : Located) : Enters tree [] tree (some .exhausted)

/-- The items of a sequence, which can change or not, what is offered at them and inside them, and what
stands in their places then. -/
inductive Sweeps : Bool → List Located → List Offer → List Located → Option Fault → Prop where
  | nil (changes : Bool) : Sweeps changes [] [] [] none
  | next {changes : Bool} {item place : Located} {rest places : List Located}
    {answer : Option Located} {offers more : List Offer} {ending : Option Fault}
    (hChanges : answer.isSome = true → changes = true)
    (h : Enters (answer.getD item) offers place none) (hRest : Sweeps changes rest more places ending) :
    Sweeps changes (item :: rest) (⟨item, .ok answer⟩ :: (offers ++ more)) (place :: places) ending
  -- An error inside an item leaves the later items as they are.
  | stopped {changes : Bool} {item place : Located} {rest : List Located} {answer : Option Located}
    {offers : List Offer} {fault : Fault} (hChanges : answer.isSome = true → changes = true)
    (h : Enters (answer.getD item) offers place (some fault)) :
    Sweeps changes (item :: rest) (⟨item, .ok answer⟩ :: offers) (place :: rest) (some fault)
  | raised (changes : Bool) (item : Located) (rest : List Located) (fault : Fault) :
    Sweeps changes (item :: rest) [⟨item, .error fault⟩] (item :: rest) (some fault)
  -- Nothing can be put in a tuple.
  | refused (item : Located) (rest : List Located) (given : Located) :
    Sweeps false (item :: rest) [⟨item, .ok (some given)⟩] (item :: rest) (some .immutableContent)
  | exhausted (changes : Bool) (items : List Located) :
    Sweeps changes items [] items (some .exhausted)

end

/-! ## The answers determine the rewriting -/

/-- Only one rewriting of these items has these answers, whatever answers come behind them. -/
def Enters.Once (tree : Located) (offers : List Offer) (final : Located) (ending : Option Fault) :
    Prop :=
  ∀ {others : List Offer} {other : Located} {tail rest : List (Except Fault (Option Located))},
    ending = none → Enters tree others other none →
    offers.map Offer.answer ++ tail = others.map Offer.answer ++ rest →
    offers = others ∧ final = other ∧ tail = rest

def Sweeps.Once (changes : Bool) (items : List Located) (offers : List Offer)
    (places : List Located) (ending : Option Fault) : Prop :=
  ∀ {others : List Offer} {twins : List Located} {tail rest : List (Except Fault (Option Located))},
    ending = none → Sweeps changes items others twins none →
    offers.map Offer.answer ++ tail = others.map Offer.answer ++ rest →
    offers = others ∧ places = twins ∧ tail = rest

theorem Sweeps.once_next {changes : Bool} {item place : Located} {items places : List Located}
    {answer : Option Located} {offers more : List Offer} {ending : Option Fault}
    (hPlace : Enters.Once (answer.getD item) offers place none)
    (hRest : Sweeps.Once changes items more places ending) :
    Sweeps.Once changes (item :: items) (⟨item, .ok answer⟩ :: (offers ++ more)) (place :: places)
      ending := by
  intro others twins tail rest hEnding hOther hAnswers
  cases hOther with
  | next _ hTwin hTwins =>
    simp only [List.map_cons, List.map_append, List.cons_append, List.cons.injEq, Except.ok.injEq,
      List.append_assoc] at hAnswers
    obtain ⟨rfl, hAnswers⟩ := hAnswers
    obtain ⟨rfl, rfl, hTail⟩ := hPlace rfl hTwin hAnswers
    obtain ⟨rfl, rfl, rfl⟩ := hRest hEnding hTwins hTail
    exact ⟨rfl, rfl, rfl⟩

theorem Enters.once {tree final : Located} {offers : List Offer} {ending : Option Fault}
    (h : Enters tree offers final ending) : Enters.Once tree offers final ending := by
  refine @Enters.rec (fun tree offers final ending _ => Enters.Once tree offers final ending)
    (fun changes items offers places ending _ => Sweeps.Once changes items offers places ending)
    ?atom ?seq ?content ?bare ?exhausted ?nil ?next ?stopped ?raised ?refused ?swept
    tree offers final ending h
  case atom =>
    rintro a _ _ _ _ - ⟨⟩ hAnswers
    exact ⟨rfl, rfl, hAnswers⟩
  case seq =>
    intro r kind items places offers ending _ ih others other tail rest hEnding hOther hAnswers
    cases hOther with
    | seq hItems =>
      obtain ⟨rfl, rfl, rfl⟩ := ih hEnding hItems hAnswers
      exact ⟨rfl, rfl, rfl⟩
  case content =>
    intro r kind keys parts index part place offers ending hIndex hPart _ ih others other tail rest
      hEnding hOther hAnswers
    cases hOther with
    | content hTwinIndex hTwinPart hTwin =>
      cases hIndex.symm.trans hTwinIndex
      cases hPart.symm.trans hTwinPart
      obtain ⟨rfl, rfl, rfl⟩ := ih hEnding hTwin hAnswers
      exact ⟨rfl, rfl, rfl⟩
    | bare hNone => cases hIndex.symm.trans hNone
  case bare =>
    intro r kind keys parts hNone others other tail rest _ hOther hAnswers
    cases hOther with
    | content hIndex => cases hNone.symm.trans hIndex
    | bare => exact ⟨rfl, rfl, hAnswers⟩
  case nil =>
    rintro changes _ _ _ _ - ⟨⟩ hAnswers
    exact ⟨rfl, rfl, hAnswers⟩
  case next => exact fun _ _ _ hPlace hRest => Sweeps.once_next hPlace hRest
  -- An error is no ending that is asked about.
  case exhausted | stopped | raised | refused | swept =>
    intros
    rintro _ _ _ _ ⟨⟩

/-- What a walk makes of a tree, and what it offers, depends on nothing but the answers. -/
theorem Enters.unique {tree final other : Located} {offers others : List Offer}
    (h : Enters tree offers final none) (hOther : Enters tree others other none)
    (hAnswers : offers.map Offer.answer = others.map Offer.answer) :
    offers = others ∧ final = other := by
  have hSame : offers.map Offer.answer ++ [] = others.map Offer.answer ++ [] := by rw [hAnswers]
  obtain ⟨hOffers, hFinal, -⟩ := h.once rfl hOther hSame
  exact ⟨hOffers, hFinal⟩

namespace Walk

open Located

variable {σ : Type} {root : Slot}

def ending : Except Fault Unit → Option Fault
  | .ok _ => none
  | .error fault => some fault

/-- From a tree at the root, a step with fair calls leads to another tree there. -/
structure Rewrites (root : Slot) (step : Walking (σ × List Call) Unit) (tree : Located)
    (Result : List Offer → Located → Option Fault → Prop) : Prop where
  run {store after : Store} {memory kept : σ} {calls made : List Call} {result : Except Fault Unit} :
    step (store, memory, calls) = (result, after, kept, calls ++ made) → tree.Stands root store →
    (∀ call ∈ made, call.IsFair root) →
    ∃ offers final, List.Forall₂ Call.Shows made offers ∧ final.Stands root after ∧
      Result offers final (ending result)

namespace Rewrites

variable {tree : Located} {First Result : List Offer → Located → Option Fault → Prop}

theorem bind {told : Walking (σ × List Call) Unit} {step : Walking σ Unit}
    {toldNext : Unit → Walking (σ × List Call) Unit} {next : Unit → Walking σ Unit}
    (hStep : Recounts told step) (hNext : ∀ a, Recounts (toldNext a) (next a))
    (hFirst : Rewrites root told tree First)
    (hStop : ∀ offers final fault, First offers final (some fault) → Result offers final (some fault))
    (hRest : ∀ offers middle, First offers middle none →
      Rewrites root (toldNext ()) middle fun more => Result (offers ++ more)) :
    Rewrites root (told >>= toldNext) tree Result := by
  refine ⟨fun {store after memory kept calls made result} hRun hTree hFair => ?_⟩
  rcases hStep.bind_cases hNext hRun with
    ⟨fault, hTold, rfl⟩ | ⟨_, middle, memory', first, rest, hTold, hToldNext, rfl⟩
  · obtain ⟨offers, final, hShows, hFinal, hResult⟩ := hFirst.run hTold hTree hFair
    exact ⟨offers, final, hShows, hFinal, hStop offers final fault hResult⟩
  · obtain ⟨hFairFirst, hFairRest⟩ := List.forall_mem_append.mp hFair
    obtain ⟨offers, between, hShows, hBetween, hResult⟩ := hFirst.run hTold hTree hFairFirst
    obtain ⟨more, final, hMore, hFinal, hResult⟩ :=
      (hRest offers between hResult).run hToldNext hBetween hFairRest
    exact ⟨offers ++ more, final, List.rel_append hShows hMore, hFinal, hResult⟩

theorem mono {step : Walking (σ × List Call) Unit} (h : Rewrites root step tree First)
    (hResult : ∀ offers final ending, First offers final ending → Result offers final ending) :
    Rewrites root step tree Result := by
  refine ⟨fun {store after memory kept calls made result} hRun hTree hFair => ?_⟩
  obtain ⟨offers, final, hShows, hFinal, hFirst⟩ := h.run hRun hTree hFair
  exact ⟨offers, final, hShows, hFinal, hResult offers final _ hFirst⟩

theorem idle_made {store after : Store} {memory kept : σ} {calls made : List Call}
    {outcome result : Except Fault Unit}
    (h : (outcome, store, memory, calls) = (result, after, kept, calls ++ made)) :
    result = outcome ∧ after = store ∧ made = [] := by
  injection h with hOutcome hState
  injection hState with hStore hState
  injection hState with hMemory hCalls
  exact ⟨hOutcome.symm, hStore.symm, List.self_eq_append_right.mp hCalls⟩

theorem idle {step : Walking (σ × List Call) Unit} {result : Except Fault Unit}
    (hStep : ∀ state, step state = (result, state)) (hResult : Result [] tree (ending result)) :
    Rewrites root step tree Result := by
  refine ⟨fun {store after memory kept calls made outcome} hRun hTree _ => ?_⟩
  rw [hStep] at hRun
  obtain ⟨rfl, rfl, rfl⟩ := idle_made hRun
  exact ⟨[], tree, .nil, hTree, hResult⟩

end Rewrites

/-! ## A walk is such a rewriting -/

theorem recorded_made {visitor : Visitor σ} {item : Slot} {store after : Store} {memory kept : σ}
    {calls made : List Call} {outcome : Except Fault Answer}
    (h : visitor.recorded item (store, memory, calls) = (outcome, after, kept, calls ++ made)) :
    made = [⟨store, item, outcome, after⟩] := by
  obtain ⟨hOutcome, hState⟩ := Prod.mk.inj (h.symm.trans (Visitor.recorded_run rfl calls))
  obtain ⟨hAfter, hState⟩ := Prod.mk.inj hState
  rw [List.append_cancel_left (Prod.mk.inj hState).2, hOutcome, hAfter]

def Entered (context : List Frame) (tree : Located) (offers : List Offer) (whole : Located)
    (ending : Option Fault) : Prop :=
  ∃ final, whole = plug context final ∧ Enters tree offers final ending

def Swept (context : List Frame) (r : Ref) (kind : SeqKind) (done items : List Located)
    (offers : List Offer) (whole : Located) (ending : Option Fault) : Prop :=
  ∃ places, whole = plug context (.object r (.seq kind) (done ++ places)) ∧
    Sweeps kind.isMutable items offers places ending

theorem itemAt?_sequence {context : List Frame} {r : Ref} {kind : SeqKind}
    {done items : List Located} {store : Store}
    (h : (plug context (.object r (.seq kind) (done ++ items))).In store) :
    itemAt? store r done.length = items.head?.map slot := by
  cases (in_plug_iff.mp h).1 with
  | object hCell =>
    simp only [itemAt?, hCell, Shape.cell]
    rw [List.map_append, List.getElem?_append_right (Nat.le_of_eq (List.length_map slot)),
      List.length_map, Nat.sub_self, ← List.head?_eq_getElem?, List.head?_map]

/-- Steps go on from what stands in the place of an item: inside that, and from the next item on. -/
def GoesOn (root : Slot) (context : List Frame) (r : Ref) (kind : SeqKind) (done rest : List Located)
    (item : Located) (onward : Slot → Walking (σ × List Call) Unit) : Prop :=
  ∀ answer : Option Located, (answer.isSome = true → kind.isMutable = true) →
    Rewrites root (onward (answer.getD item).slot)
      (plug (⟨r, .seq kind, done, rest⟩ :: context) (answer.getD item))
      fun offers => Swept context r kind done (item :: rest) (⟨item, .ok answer⟩ :: offers)

section

variable {visitor : Visitor σ} {toldEnter : Slot → Walking (σ × List Call) Unit}
  {enter : Slot → Walking σ Unit} {context : List Frame} {r : Ref} {kind : SeqKind} {fuel : Nat}
  {done rest : List Located} {item : Located}

theorem goesOn_sweep (hTold : ∀ slot, Recounts (toldEnter slot) (enter slot))
    (hEnter : ∀ context tree, Rewrites root (toldEnter tree.slot) (plug context tree)
      (Entered context tree))
    (hSweep : ∀ done items, Rewrites root (sweep visitor.recorded toldEnter r fuel done.length)
      (plug context (.object r (.seq kind) (done ++ items))) (Swept context r kind done items)) :
    GoesOn root context r kind done rest item fun slot => toldEnter slot >>= fun _ =>
      sweep visitor.recorded toldEnter r fuel (done.length + 1) := by
  intro answer hChanges
  refine .bind (hTold _) (fun _ => .sweep visitor hTold r fuel _) (hEnter _ _) ?_ ?_
  · rintro offers _ fault ⟨place, rfl, hPlace⟩
    exact ⟨place :: rest, rfl, .stopped hChanges hPlace⟩
  · rintro offers _ ⟨place, rfl, hPlace⟩
    have hNext := hSweep (done ++ [place]) rest
    rw [List.length_append, List.length_singleton, List.append_assoc] at hNext
    refine hNext.mono ?_
    rintro more _ ending ⟨places, rfl, hRest⟩
    refine ⟨place :: places, ?_, .next hChanges hPlace hRest⟩
    rw [List.append_assoc]
    rfl

theorem settle_rewrites {onward : Slot → Walking (σ × List Call) Unit}
    (hOnward : GoesOn root context r kind done rest item onward) {store middle after : Store}
    {memory kept : σ} {calls made : List Call} {answer : Answer} {result : Except Fault Unit}
    (hTree : (plug (⟨r, .seq kind, done, rest⟩ :: context) item).Stands root store)
    (hCall : Call.IsFair root ⟨store, item.slot, .ok answer, middle⟩)
    (hRun : settle onward r done.length item.slot answer (middle, memory, calls) =
      (result, after, kept, calls ++ made)) (hFair : ∀ call ∈ made, call.IsFair root) :
    ∃ offers final, List.Forall₂ Call.Shows (⟨store, item.slot, .ok answer, middle⟩ :: made) offers ∧
      final.Stands root after ∧ Swept context r kind done (item :: rest) offers final (ending result) := by
  have hFound := (in_plug_iff.mp hTree.holds).1
  have hStill : (plug (⟨r, .seq kind, done, rest⟩ :: context) item).Stands root middle :=
    ⟨hTree.slot, hCall.keeps _ hTree, hTree.nodup⟩
  cases hAnswer : replacement? item.slot answer with
  | none =>
    rw [settle_pass hAnswer] at hRun
    obtain ⟨offers, final, hShows, hFinal, hSwept⟩ :=
      (hOnward none (by rintro ⟨⟩)).run hRun hStill hFair
    have hShown : Call.Shows ⟨store, item.slot, .ok answer, middle⟩ ⟨item, .ok none⟩ :=
      ⟨rfl, hFound, congrArg Except.ok hAnswer.symm, by rintro _ ⟨⟩⟩
    exact ⟨_ :: offers, final, .cons hShown hShows, hFinal, hSwept⟩
  | some slot =>
    rw [settle_put hAnswer] at hRun
    obtain ⟨given, rfl, hGiven, hNodup, hFresh⟩ :=
      hCall.gives _ item slot hTree rfl hFound (congrArg Except.ok hAnswer)
    have hShown : Call.Shows ⟨store, item.slot, .ok answer, middle⟩ ⟨item, .ok (some given)⟩ :=
      ⟨rfl, hFound, congrArg Except.ok hAnswer.symm, by rintro _ ⟨⟩; exact hGiven⟩
    have hCell : middle.get? r = some (.seq kind (done.map Located.slot ++ item.slot ::
        rest.map Located.slot)) := (in_plug_iff.mp hStill.holds).2.1.cell
    cases hKind : kind.isMutable with
    | false =>
      rw [bind_error (replaceAt_refused hCell hKind done.length given.slot)] at hRun
      obtain ⟨rfl, rfl, rfl⟩ := Rewrites.idle_made hRun
      refine ⟨[_], _, .cons hShown .nil, hStill, item :: rest, rfl, ?_⟩
      rw [hKind]
      exact .refused item rest given
    | true =>
      have hIndex : done.length < (done.map Located.slot ++ item.slot ::
          rest.map Located.slot).length := by
        simp
      have hSet : (done.map Located.slot ++ item.slot :: rest.map Located.slot).set done.length
          given.slot = done.map Located.slot ++ given.slot :: rest.map Located.slot := by
        simp
      rw [bind_ok (replaceAt_written hCell hKind hIndex given.slot), hSet] at hRun
      obtain ⟨offers, final, hShows, hFinal, hSwept⟩ :=
        (hOnward (some given) fun _ => hKind).run hRun
          (hStill.replace rfl hKind hGiven hNodup hFresh) hFair
      exact ⟨_ :: offers, final, .cons hShown hShows, hFinal, hSwept⟩

/-- The induction is on how many positions may still be passed. -/
theorem sweep_rewrites (hTold : ∀ slot, Recounts (toldEnter slot) (enter slot))
    (hEnter : ∀ context tree, Rewrites root (toldEnter tree.slot) (plug context tree)
      (Entered context tree)) (done items : List Located) :
    Rewrites root (sweep visitor.recorded toldEnter r fuel done.length)
      (plug context (.object r (.seq kind) (done ++ items))) (Swept context r kind done items) := by
  induction fuel generalizing done items with
  | zero => exact .idle (fun _ => rfl) ⟨items, rfl, .exhausted _ items⟩
  | succ fuel ih =>
    refine ⟨fun {store after memory kept calls made result} hRun hTree hFair => ?_⟩
    have hItem := itemAt?_sequence hTree.holds
    rw [sweep_succ, getStore_bind] at hRun
    cases items with
    | nil =>
      simp only [hItem, List.head?_nil, Option.map_none] at hRun
      exact (Rewrites.idle (fun _ => rfl) ⟨[], rfl, .nil _⟩).run hRun hTree hFair
    | cons item rest =>
      simp only [hItem, List.head?_cons, Option.map_some] at hRun
      change (plug (⟨r, .seq kind, done, rest⟩ :: context) item).Stands root store at hTree
      have hSettle := Recounts.settle (fun slot => .bind (hTold slot) fun _ =>
        .sweep visitor hTold r fuel (done.length + 1)) r done.length item.slot
      rcases Recounts.bind_cases (.visitor visitor item.slot) hSettle hRun with
        ⟨fault, hCall, rfl⟩ | ⟨answer, middle, _, _, made, hCall, hRest, rfl⟩
      · cases recorded_made hCall
        have hStill := (List.forall_mem_singleton.mp hFair).keeps _ hTree
        have hFound := (in_plug_iff.mp hTree.holds).1
        exact ⟨[⟨item, .error fault⟩], _, .cons ⟨rfl, hFound, rfl, by rintro _ ⟨⟩⟩ .nil,
          ⟨hTree.slot, hStill, hTree.nodup⟩, item :: rest, rfl, .raised _ item rest fault⟩
      · cases recorded_made hCall
        obtain ⟨hCallFair, hFair⟩ := List.forall_mem_cons.mp hFair
        exact settle_rewrites (goesOn_sweep hTold hEnter ih) hTree hCallFair hRest hFair

end

theorem at?_content {β : Type} {keys : List Value} {parts : List β} (h : keys.length = parts.length) :
    Entries.at? (keys.zip parts) "content" = (contentIndex? keys).bind (parts[·]?) := by
  induction keys generalizing parts with
  | nil => rfl
  | cons key keys ih =>
    cases parts with
    | nil => cases h
    | cons part parts =>
      have hRest := ih (Nat.succ.inj h)
      simp only [Entries.at?, Entries.get?] at hRest
      simp only [Entries.at?, Entries.get?, contentIndex?, List.zip_cons_cons, List.find?_cons,
        List.findIdx?_cons]
      cases key.same (.str "content") with
      | true => rfl
      | false =>
        rw [hRest]
        cases hIndex : keys.findIdx? (·.same (.str "content")) <;> simp [contentIndex?, hIndex]

theorem exists_around {parts : List Located} {index : Nat} {part : Located}
    (h : parts[index]? = some part) :
    ∃ before after, parts = before ++ part :: after ∧ before.length = index := by
  obtain ⟨hIndex, rfl⟩ := List.getElem?_eq_some_iff.mp h
  refine ⟨parts.take index, parts.drop (index + 1), ?_, List.length_take_of_le (Nat.le_of_lt hIndex)⟩
  rw [← List.drop_eq_getElem_cons hIndex, List.take_append_drop]

theorem eq_none_of_isNone {part : Located} (h : part.slot.isNone = true) : part = .atom .none := by
  cases part with
  | atom a => cases a <;> first | rfl | cases h
  | object => cases h

theorem entered_content {context : List Frame} {r : Ref} {kind : MapKind} {keys : List Value}
    {before behind : List Located} {part place : Located} {offers : List Offer}
    {ending : Option Fault} (hIndex : contentIndex? keys = some before.length)
    (h : Enters part offers place ending) :
    Entered context (.object r (.map kind keys) (before ++ part :: behind)) offers
      (plug (⟨r, .map kind keys, before, behind⟩ :: context) place) ending := by
  have hPart : (before ++ part :: behind)[before.length]? = some part := by simp
  have hSet : (before ++ part :: behind).set before.length place = before ++ place :: behind := by
    simp
  have hContent := @Enters.content r kind keys _ _ _ _ _ _ hIndex hPart h
  rw [hSet] at hContent
  exact ⟨_, rfl, hContent⟩

/-- The induction is on how deep the walk still may go. -/
theorem enter_rewrites (visitor : Visitor σ) (length depth : Nat) (context : List Frame)
    (tree : Located) :
    Rewrites root (enter visitor.recorded length depth tree.slot) (plug context tree)
      (Entered context tree) := by
  induction depth generalizing context tree with
  | zero => exact .idle (fun _ => rfl) ⟨tree, rfl, .exhausted tree⟩
  | succ depth ih =>
    refine ⟨fun {store after memory kept calls made result} hRun hTree hFair => ?_⟩
    rw [enter, getStore_bind] at hRun
    cases tree with
    | atom a =>
      exact (Rewrites.idle (fun _ => rfl) ⟨_, rfl, .atom a⟩).run hRun hTree hFair
    | object r shape parts =>
      cases (in_plug_iff.mp hTree.holds).1 with
      | object hCell hFits =>
        cases shape with
        | seq kind =>
          simp only [Store.cell?, Located.slot, hCell, Shape.cell] at hRun
          have hSweep := @sweep_rewrites σ root visitor _ _ context r kind length
            (fun slot => .enter visitor length depth slot) (fun context tree => ih context tree) [] parts
          refine (hSweep.mono ?_).run hRun hTree hFair
          rintro offers _ ending ⟨places, rfl, hPlaces⟩
          exact ⟨_, rfl, .seq hPlaces⟩
        | map kind keys =>
          have hLength : keys.length = (parts.map Located.slot).length := by
            rw [List.length_map]
            exact hFits
          simp only [Store.cell?, Located.slot, hCell, Shape.cell, at?_content hLength] at hRun
          cases hIndex : contentIndex? keys with
          | none =>
            simp only [hIndex, Option.bind_none] at hRun
            exact (Rewrites.idle (fun _ => rfl) ⟨_, rfl, .bare hIndex⟩).run hRun hTree hFair
          | some index =>
            obtain ⟨part, hPart⟩ : ∃ part, parts[index]? = some part := by
              obtain ⟨hKeys, -⟩ := List.findIdx?_eq_some_iff_getElem.mp hIndex
              exact ⟨_, List.getElem?_eq_getElem (Nat.lt_of_lt_of_eq hKeys hFits)⟩
            obtain ⟨before, behind, rfl, rfl⟩ := exists_around hPart
            simp only [hIndex, Option.bind_some, List.getElem?_map, hPart, Option.map_some] at hRun
            cases hNone : part.slot.isNone with
            | true =>
              simp only [hNone, if_true] at hRun
              cases eq_none_of_isNone hNone
              exact (Rewrites.idle (fun _ => rfl) (entered_content hIndex (.atom .none))).run
                hRun hTree hFair
            | false =>
              simp only [hNone, Bool.false_eq_true, if_false] at hRun
              refine ((ih (⟨r, .map kind keys, before, behind⟩ :: context) part).mono ?_).run
                hRun hTree hFair
              rintro offers _ ending ⟨place, rfl, hPlace⟩
              exact entered_content hIndex hPlace

end Walk

/-- Whatever the visitor, a walk over a finite value without sharing rewrites it from the top down if the
calls that it makes are fair: these are the offers of the rewriting, in order and one for one, and the
same root holds what has become of the value, also when an error has stopped the walk. To record the
calls is of no consequence. Besides what they do, only positions of lists are written. Without an error
their answers determine everything. -/
theorem walk_rewrites {σ : Type} {bounds : Walk.Bounds} {visitor : Visitor σ} {root : Slot}
    {store after : Store} {memory kept : σ} {calls : List Call} {result : Except Fault Unit}
    {tree : Located} (hTree : tree.Stands root store)
    (hRun : walk bounds visitor.recorded root (store, memory, []) = (result, after, kept, calls))
    (hFair : ∀ call ∈ calls, call.IsFair root) :
    walk bounds visitor root (store, memory) = (result, after, kept) ∧ Walk.Reaches store calls after ∧
    store.view root = tree.value ∧
    ∃ offers final, List.Forall₂ Call.Shows calls offers ∧
      Enters tree offers final (Walk.ending result) ∧ final.Stands root after ∧
      after.view root = final.value ∧
      (result = .ok () → ∀ others other, Enters tree others other none →
        offers.map Offer.answer = others.map Offer.answer → offers = others ∧ final = other) := by
  obtain ⟨_, _, _, made, hPlain, hTold, hReaches⟩ :=
    Walk.Recounts.enter visitor bounds.length bounds.depth root store memory []
  cases hTold.symm.trans hRun
  have hRoot : Walk.enter visitor.recorded bounds.length bounds.depth tree.slot
      (store, memory, []) = (result, after, kept, [] ++ made) := by
    rw [hTree.slot]
    exact hRun
  obtain ⟨offers, final, hShows, hFinal, _, rfl, hEnters⟩ :=
    (Walk.enter_rewrites visitor bounds.length bounds.depth [] tree).run hRoot hTree hFair
  refine ⟨hPlain, hReaches, ?_, offers, final, hShows, hEnters, hFinal, ?_, ?_⟩
  · rw [← hTree.slot]
    exact hTree.holds.view_eq
  · rw [← hFinal.slot]
    exact hFinal.holds.view_eq
  · rintro rfl others other hOther hAnswers
    exact hEnters.unique hOther hAnswers

/-- A visitor that gives answers in order and wants nothing of the items behind them. -/
def Visitor.answering : Visitor (List Answer) := fun _ => do
  let (store, answers) ← get
  set (store, answers.tail)
  return answers.headD .pass

/-- An element gives way to its content, and a text in that to a list that was made before. -/
theorem walk_rewrites_unwrapping :
    let text (s : String) : Located := .atom (.str s)
    let fresh : Located := .object ⟨4⟩ (.seq .list) [text "c"]
    let content (item : Located) : Located := .object ⟨2⟩ (.seq .list) [item]
    let element : Located := .object ⟨1⟩ (.map .dict [.str "tag", .str "content"])
      [text "i", content (text "a")]
    let tree (item : Located) : Located := .object ⟨0⟩ (.seq .list)
      [item, .object ⟨3⟩ (.seq .tuple) [text "b"]]
    let store : Store := ⟨#[.seq .list [.ref ⟨1⟩, .ref ⟨3⟩],
      .map .dict [(.str "tag", .atom (.str "i")), (.str "content", .ref ⟨2⟩)],
      .seq .list [.atom (.str "a")], .seq .tuple [.atom (.str "b")],
      .seq .list [.atom (.str "c")]], #[]⟩
    let run := walk ⟨8, 8⟩ Visitor.answering.recorded (.ref ⟨0⟩)
      (store, [.put (.ref ⟨2⟩), .put (.ref ⟨4⟩)], [])
    (tree element).Stands (.ref ⟨0⟩) store ∧ run.1 = .ok () ∧
    (∀ call ∈ run.2.2.2, call.IsFair (.ref ⟨0⟩)) ∧
    run.2.2.2.map (·.item) =
      [.ref ⟨1⟩, .atom (.str "a"), .atom (.str "c"), .ref ⟨3⟩, .atom (.str "b")] ∧
    ∃ offers, Enters (tree element) offers (tree (content fresh)) none ∧
      List.Forall₂ Call.Shows run.2.2.2 offers := by
  intro text fresh content element tree store run
  have hText (s : String) (store : Store) : (text s).In store := .atom _
  have hContent {next : Store} {slot : Slot} (item : Located) (hItem : item.In next)
      (hSlot : item.slot = slot) (h : next.get? ⟨2⟩ = some (.seq .list [slot])) :
      (content item).In next := by
    subst hSlot
    exact .object h trivial (List.forall_mem_singleton.mpr hItem)
  have hTreeIn {next : Store} {slot : Slot} (item : Located) (hItem : item.In next)
      (hSlot : item.slot = slot) (h : next.get? ⟨0⟩ = some (.seq .list [slot, .ref ⟨3⟩]))
      (hTuple : next.get? ⟨3⟩ = some (.seq .tuple [.atom (.str "b")])) : (tree item).In next := by
    subst hSlot
    exact .object h trivial (List.forall_mem_cons.mpr ⟨hItem, List.forall_mem_singleton.mpr
      (.object hTuple trivial (List.forall_mem_singleton.mpr (hText "b" next)))⟩)
  have hElement : element.In store := .object rfl rfl (List.forall_mem_cons.mpr ⟨hText "i" store,
    List.forall_mem_singleton.mpr (hContent (text "a") (hText "a" store) rfl rfl)⟩)
  have hTree : (tree element).Stands (.ref ⟨0⟩) store :=
    ⟨rfl, hTreeIn element hElement rfl rfl rfl, by decide +kernel⟩
  -- The calls find the store as it is, with the element replaced, and with its text replaced too.
  let unwrapped : Store := store.put ⟨0⟩ (.seq .list [.ref ⟨2⟩, .ref ⟨3⟩])
  let filled : Store := unwrapped.put ⟨2⟩ (.seq .list [.ref ⟨4⟩])
  let calls : List Call := [⟨store, .ref ⟨1⟩, .ok (.put (.ref ⟨2⟩)), store⟩,
      ⟨unwrapped, .atom (.str "a"), .ok (.put (.ref ⟨4⟩)), unwrapped⟩,
      ⟨filled, .atom (.str "c"), .ok .pass, filled⟩, ⟨filled, .ref ⟨3⟩, .ok .pass, filled⟩,
      ⟨filled, .atom (.str "b"), .ok .pass, filled⟩]
  have hOk : run.1 = .ok () := by rfl
  have hAfter : run.2.1 = filled := by rfl
  have hMemory : run.2.2.1 = [] := by rfl
  have hCalls : run.2.2.2 = calls := by rfl
  have hRun : run = (.ok (), filled, [], calls) :=
    Prod.ext hOk (Prod.ext hAfter (Prod.ext hMemory hCalls))
  have hFair : ∀ call ∈ calls, call.IsFair (.ref ⟨0⟩) := by
    simp only [calls, List.forall_mem_cons]
    refine ⟨⟨fun _ h => h.holds, ?_⟩, ⟨fun _ h => h.holds, ?_⟩, .of_same rfl rfl, .of_same rfl rfl,
      .of_same rfl rfl, List.forall_mem_nil _⟩
    · rintro _ item _ - hSlot hItem ⟨⟩
      cases hElement.unique item hItem hSlot.symm
      refine ⟨content (text "a"), rfl, hContent _ (hText _ _) rfl rfl, by decide +kernel, ?_⟩
      exact fun r hr _ => Located.objectsOf_part (List.mem_cons_of_mem _ List.mem_cons_self) hr
    · rintro other item _ hOther - - ⟨⟩
      have hUnwrapped : (tree (content (text "a"))).In unwrapped :=
        hTreeIn _ (hContent _ (hText _ _) rfl rfl) rfl rfl rfl
      cases hUnwrapped.unique other hOther.holds hOther.slot.symm
      refine ⟨fresh, rfl, .object rfl trivial (List.forall_mem_singleton.mpr (hText _ _)),
        by decide +kernel, ?_⟩
      have hApart : ∀ r ∈ fresh.changeable, r ∉ (tree (content (text "a"))).changeable := by
        decide +kernel
      exact fun r hr hMem => absurd hMem (hApart r hr)
  obtain ⟨-, -, -, offers, final, hShows, hEnters, hFinal, -, -⟩ := walk_rewrites hTree hRun hFair
  have hFilled : (tree (content fresh)).In filled :=
    hTreeIn _ (hContent _ (.object rfl trivial (List.forall_mem_singleton.mpr (hText _ _))) rfl rfl)
      rfl rfl rfl
  cases hFilled.unique final hFinal.holds hFinal.slot.symm
  rw [hRun]
  exact ⟨hTree, rfl, hFair, rfl, offers, hEnters, hShows⟩

end Hypertext
