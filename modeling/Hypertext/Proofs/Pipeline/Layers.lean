import Hypertext.Proofs.Isolation.Documents
import Hypertext.Proofs.Options.Overriding
import Hypertext.Proofs.Pipeline.Stages
import Hypertext.Proofs.Tree.Fresh
import Hypertext.Proofs.Value.Entries

/-! # Layers of options

The options of a run come from the pipeline or the call, from settings that are given as options, and from
settings that are given one by one. The mode of the run and its options are found separately, and agree.
-/

namespace Hypertext

set_option autoImplicit false

variable {σ : Type}

/-! ## Requests -/

namespace Request

structure HasDistinctKeys (request : Request Slot) : Prop where
  settings : ∀ entries, request.options = .settings entries → Entries.Distinct entries
  overrides : Entries.Distinct request.overrides

/-- The options that a run starts from, if they are any. -/
def base? (request : Request Slot) (pipeline : Pipeline) : Option OptionsRef :=
  match request.options with
  | .inherit | .settings _ => some pipeline.defaults
  | .object options => some options
  | .other _ => none

/-- What is given for a setting: one by one, or else among settings that are given as options. -/
def given? (request : Request Slot) (setting : Setting) : Option Slot :=
  (Entries.at? request.overrides setting.name).or
    (match request.options with
      | .settings entries => Entries.at? entries setting.name
      | _ => none)

variable {request : Request Slot}

theorem base_brief (pipeline : Pipeline) {base : OptionsRef}
    (h : (request.brief pipeline).base = .inl base) : request.base? pipeline = some base := by
  unfold brief at h
  unfold base?
  cases hOptions : request.options with
  | inherit | settings | object =>
    rw [hOptions] at h
    exact congrArg some (Sum.inl.inj h)
  | other value =>
    rw [hOptions] at h
    cases h

theorem HasDistinctKeys.brief (h : request.HasDistinctKeys) (pipeline : Pipeline) :
    Entries.Distinct (request.brief pipeline).overrides := by
  unfold Request.brief
  cases hOptions : request.options with
  | inherit | object | other => exact h.overrides
  | settings entries =>
    have hNone : Entries.Distinct ([] : List (Value × Slot)) := .nil
    exact (hNone.setAll entries).setAll request.overrides

theorem HasDistinctKeys.at?_brief (h : request.HasDistinctKeys) (pipeline : Pipeline)
    (setting : Setting) :
    Entries.at? (request.brief pipeline).overrides setting.name = request.given? setting := by
  unfold Request.brief given?
  cases hOptions : request.options with
  | inherit | object | other => exact (Option.or_none).symm
  | settings entries =>
    refine (Entries.at?_setAll h.overrides _ _).trans (congrArg _ ?_)
    exact (Entries.at?_setAll (h.settings entries hOptions) [] _).trans Option.or_none

end Request

/-! ## The options of a run -/

namespace Brief

theorem nodup_named {named : List (String × Value)}
    (h : Entries.Distinct (named.map fun entry => (Value.str entry.1, entry.2))) :
    (named.map (·.1)).Nodup := by
  refine List.pairwise_map.mpr ((List.pairwise_map.mp h).imp ?_)
  rintro first second hApart hSame
  rw [hSame, Value.same_str_iff.mpr rfl] at hApart
  cases hApart

theorem lookup_named (named : List (String × Value)) (name : String) :
    named.lookup name = Entries.at? (named.map fun entry => (.str entry.1, entry.2)) name := by
  induction named with
  | nil => rfl
  | cons entry named ih =>
    rw [List.lookup_cons, List.map_cons, Entries.at?_cons, ih]
    cases hSame : name == entry.1 with
    | true => rw [if_pos (Value.same_str_iff.mpr (by rw [eq_of_beq hSame]))]
    | false =>
      rw [if_neg]
      intro hName
      rw [Atom.str.inj (Value.atom.inj (Value.same_str_iff.mp hName)), beq_self_eq_true] at hSame
      cases hSame

variable {conduct : Conduct σ} {brief : Brief} {world next : World σ} {context : Context}

theorem options_overridden (hDistinct : Entries.Distinct brief.overrides)
    (h : brief.context conduct world = .ok (context, next)) :
    ∃ base, brief.base = .inl base ∧
      (∀ setting : Setting, (next.store.getOptions context.options).get setting =
        ((Entries.at? brief.overrides setting.name).map world.store.view).getD
          ((world.store.getOptions base).get setting)) ∧
      world.store.Keeps next.store := by
  obtain ⟨base, named, options, hBase, hNamed, hOptions, hHandle, rfl⟩ := exists_overridden h
  have hEntries := eq_of_namedOverrides hNamed
  have hBare : options.IsBare :=
    Options.isBare_override (world.store.isBare_getOptions base) (isBare_named hNamed) hOptions
  obtain ⟨hSeen, hKeeps⟩ := world.store.getOptions_newOptions hBare
  have hViewed : Entries.Distinct (brief.viewedOverrides world.store) := List.pairwise_map.mpr hDistinct
  rw [hEntries] at hViewed
  obtain ⟨-, hGet, -⟩ := (Options.override_eq_ok_iff (nodup_named hViewed)).mp hOptions
  refine ⟨base, hBase, fun setting => ?_, hKeeps⟩
  have hStore : (world.withStore (world.store.newOptions options).2).store =
      (world.store.newOptions options).2 := rfl
  rw [hStore, hHandle, hSeen, hGet, lookup_named, ← hEntries, viewedOverrides, Entries.at?_map]

theorem isBlocking_eq (hDistinct : Entries.Distinct brief.overrides)
    (h : brief.context conduct world = .ok (context, next)) :
    brief.isBlocking world.store = (next.store.getOptions context.options).sync.truthy := by
  obtain ⟨base, hBase, hGet, -⟩ := options_overridden hDistinct h
  have hSync := hGet .sync
  rw [isBlocking, hBase]
  cases hGiven : Entries.at? brief.overrides Setting.sync.name with
  | some slot =>
    rw [hGiven] at hSync
    exact ((congrArg Value.truthy hSync).trans (world.store.truthy_view slot)).symm
  | none =>
    rw [hGiven] at hSync
    exact (congrArg Value.truthy hSync).symm

end Brief

namespace Request

variable {conduct : Conduct σ} {request : Request Slot} {world : World σ}

/-- How the options of a run that is called in one world are layered. A run in non-blocking mode may begin
in a later world, and makes its options there; the mode is chosen at the call. -/
structure Layered (conduct : Conduct σ) (request : Request Slot) (world : World σ) : Prop where
  options : ∀ (later next : World σ) (context : Context),
    (request.brief world.pipeline).context conduct later = .ok (context, next) →
    ∃ base, request.base? world.pipeline = some base ∧
      (∀ setting : Setting, (next.store.getOptions context.options).get setting =
        ((request.given? setting).map later.store.view).getD
          ((later.store.getOptions base).get setting)) ∧
      later.store.Keeps next.store
  mode : ∀ (next : World σ) (context : Context),
    (request.brief world.pipeline).context conduct world = .ok (context, next) →
    ((∃ outcome, (Processing.process conduct request world).2 = .inl outcome) ↔
      (next.store.getOptions context.options).sync.truthy = true)

theorem process_at_once_iff :
    (∃ outcome, (Processing.process conduct request world).2 = .inl outcome) ↔
      (request.brief world.pipeline).isBlocking world.store = true := by
  rw [Processing.process]
  cases (request.brief world.pipeline).isBlocking world.store with
  | true => exact iff_of_true ⟨_, rfl⟩ rfl
  | false => exact iff_of_false (by rintro ⟨outcome, ⟨⟩⟩) nofun

theorem HasDistinctKeys.layered (h : request.HasDistinctKeys) (conduct : Conduct σ) (world : World σ) :
    request.Layered conduct world where
  options later next context hContext := by
    obtain ⟨base, hBase, hGet, hKeeps⟩ :=
      Brief.options_overridden (h.brief world.pipeline) hContext
    refine ⟨base, base_brief world.pipeline hBase, fun setting => ?_, hKeeps⟩
    rw [hGet, h.at?_brief]
  mode next context hContext := by
    rw [process_at_once_iff, Brief.isBlocking_eq (h.brief world.pipeline) hContext]

end Request

/-- Overriding options is consistent: names that are not known are refused in order, settings come to what
was given last, and copies and exported settings make the same options again. The options of a run are
made of those that it starts from in the same way, and say whether it is in blocking mode. -/
theorem options_layered {options : Options} (hValid : options.validate = .ok ())
    (hLiteral : options.IsLiteral) {given more : Keywords} (hGiven : given.IsLiteral) (hMore : more.IsLiteral)
    (conduct : Conduct σ) {request : Request Slot} (hDistinct : request.HasDistinctKeys)
    (world : World σ) :
    options.Overriding given more ∧ request.Layered conduct world :=
  ⟨Options.overriding hValid hLiteral hGiven hMore, hDistinct.layered conduct world⟩

def Conduct.still : Conduct Unit where
  plugin _ _ world := ⟨world, [], .ok (.value .none)⟩
  collaborator _ subject _ world := (.ok subject, world)
  files _ := .missing
  freshId _ := ""
  depth := 1000

/-- Settings that are given as options ask for blocking mode, and one that is given by itself takes that
back. -/
theorem options_layered_mixed :
    let given : Keywords := ⟨[("sync", .bool true), ("single_tags", .list [.str "x"])], by decide, by decide⟩
    let more : Keywords := ⟨[("skip_render", .int 1), ("sync", .int 0)], by decide, by decide⟩
    let request : Request Slot := ⟨.atom (.str ""),
      .settings [(.str "sync", .atom (.bool true)), (.str "skip_render", .atom (.bool true))],
      [(.str "sync", .atom (.bool false))]⟩
    Options.default.override (given.merge more).entries =
        .ok { Options.default with skipRender := .int 1, sync := .int 0, singleTags := .list [.str "x"] } ∧
      ∃ context next, (request.brief World.made.pipeline).context Conduct.still World.made =
          .ok (context, next) ∧
        (next.store.getOptions context.options).skipRender = .bool true ∧
        ¬ ∃ outcome, (Processing.process Conduct.still request World.made).2 = .inl outcome := by
  intro given more request
  have hLiteral : Options.default.IsLiteral := by
    intro setting hSetting
    cases setting with
    | parser | render => cases hSetting
    | singleTags => exact .list (List.forall_mem_nil _)
    | closingSingleTag => exact .str _
    | _ => exact .bool _
  have hGiven : given.IsLiteral := by
    rintro setting value hValue -
    cases setting <;> cases hValue
    · exact .bool _
    · exact .list (List.forall_mem_singleton.mpr (.str "x"))
  have hMore : more.IsLiteral := by
    rintro setting value hValue -
    cases setting <;> cases hValue
    · exact .int _
    · exact .int _
  have hDistinct : request.HasDistinctKeys := by
    refine ⟨?_, List.pairwise_singleton _ _⟩
    rintro entries ⟨⟩
    exact .cons (List.forall_mem_singleton.mpr rfl) (List.pairwise_singleton _ _)
  obtain ⟨hLaws, hLayers⟩ :=
    options_layered rfl hLiteral hGiven hMore Conduct.still hDistinct World.made
  refine ⟨(hLaws.merged _ _ rfl rfl).1, ?_⟩
  have hAccepted : ((request.brief World.made.pipeline).context Conduct.still World.made).isOk = true := by
    decide +kernel
  cases hContext : (request.brief World.made.pipeline).context Conduct.still World.made with
  | error fault =>
    rw [hContext] at hAccepted
    cases hAccepted
  | ok made =>
    obtain ⟨context, next⟩ := made
    obtain ⟨base, -, hGet, -⟩ := hLayers.options World.made next context hContext
    refine ⟨context, next, rfl, hGet .skipRender, fun hAtOnce => ?_⟩
    have hSync : (next.store.getOptions context.options).sync = .bool false := hGet .sync
    have hMode := (hLayers.mode next context hContext).mp hAtOnce
    rw [hSync] at hMode
    cases hMode

end Hypertext
