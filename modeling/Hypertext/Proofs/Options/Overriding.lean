import Hypertext.Proofs.Render.Faults
import Mathlib.Data.List.Nodup

/-! # Overriding options

What options come to is told setting by setting: by the last mapping that names the setting, and otherwise
by the options that are overridden. So mappings that are applied one after the other are as good as one.
-/

namespace Hypertext

set_option autoImplicit false

/-! ## Plain data -/

namespace Value

/-- Data without numbers that are none, and without trees. -/
inductive IsLiteral : Value → Prop where
  | none : IsLiteral .none
  | bool (b : Bool) : IsLiteral (.bool b)
  | int (n : Int) : IsLiteral (.int n)
  | float {d : Double} (hNumber : d.isNaN = false) : IsLiteral (.atom (.float d))
  | str (s : String) : IsLiteral (.str s)
  | list {items : List Value} (hItems : ∀ item ∈ items, IsLiteral item) : IsLiteral (.list items)
  | tuple {items : List Value} (hItems : ∀ item ∈ items, IsLiteral item) : IsLiteral (.seq .tuple items)
  | dict {entries : List (Value × Value)} (hKeys : ∀ entry ∈ entries, IsLiteral entry.1)
    (hValues : ∀ entry ∈ entries, IsLiteral entry.2) : IsLiteral (.dict entries)

theorem sameItems_self {items : List Value} (h : ∀ item ∈ items, item.same item = true) :
    sameItems items items = true := by
  induction items with
  | nil => rfl
  | cons item items ih =>
    obtain ⟨hItem, hItems⟩ := List.forall_mem_cons.mp h
    rw [sameItems, hItem, ih hItems]
    rfl

theorem subsumedEntries_of_subset {entries others : List (Value × Value)} (hSubset : entries ⊆ others)
    (hKeys : ∀ entry ∈ entries, entry.1.same entry.1 = true)
    (hValues : ∀ entry ∈ entries, entry.2.same entry.2 = true) :
    subsumedEntries entries others = true := by
  induction entries with
  | nil => rfl
  | cons entry entries ih =>
    obtain ⟨hMem, hRest⟩ := List.cons_subset.mp hSubset
    obtain ⟨hKey, hKeys⟩ := List.forall_mem_cons.mp hKeys
    obtain ⟨hValue, hValues⟩ := List.forall_mem_cons.mp hValues
    rw [subsumedEntries, ih hRest hKeys hValues, Bool.and_true, List.any_eq_true]
    exact ⟨entry, hMem, by rw [hKey, hValue]; rfl⟩

theorem IsLiteral.same_self {value : Value} (h : value.IsLiteral) : value.same value = true := by
  induction h with
  | none => rfl
  | bool b => simp [same, Atom.same]
  | int n => simp [same, Atom.same]
  | float hNumber =>
    rw [same, Atom.same]
    exact (Double.same_self_iff _).mpr hNumber
  | str s => exact same_str_iff.mpr rfl
  | list _ ih =>
    rw [same, sameItems_self ih]
    rfl
  | tuple _ ih =>
    rw [same, sameItems_self ih]
    rfl
  | dict _ _ ihKeys ihValues =>
    rw [same, subsumedEntries_of_subset (List.Subset.refl _) ihKeys ihValues, beq_self_eq_true]
    rfl

end Value

/-! ## Keywords -/

theorem Setting.ofName?_eq_some_iff {name : String} {setting : Setting} :
    ofName? name = some setting ↔ setting.name = name := by
  constructor
  · intro h
    have hFound : all.find? (·.name = name) = some setting := h
    have hName := List.find?_some hFound
    exact of_decide_eq_true hName
  · rintro rfl
    exact ofName?_name setting

def Options.Knows (name : String) : Prop := ∃ setting : Setting, setting.name = name

theorem Options.isNone_ofName?_iff {name : String} :
    (Setting.ofName? name).isNone = true ↔ ¬ Knows name := by
  rw [Option.isNone_iff_eq_none, Option.eq_none_iff_forall_ne_some, Knows, not_exists]
  exact forall_congr' fun setting => not_congr Setting.ofName?_eq_some_iff

/-- Values that are given by name, each name once. The receiver of a call cannot be given by name. -/
structure Keywords where
  entries : List (String × Value)
  nodup : (entries.map (·.1)).Nodup
  receiver : "self" ∉ entries.map (·.1)

namespace Keywords

section Lookup

variable {entries : List (String × Value)} {name : String}

theorem lookup_eq_none_iff : entries.lookup name = none ↔ name ∉ entries.map (·.1) := by
  rw [List.lookup_eq_none_iff, List.mem_map]
  constructor
  · rintro h ⟨entry, hEntry, rfl⟩
    exact bne_iff_ne.mp (h entry hEntry) rfl
  · intro h entry hEntry
    exact bne_iff_ne.mpr fun hSame => h ⟨entry, hEntry, hSame.symm⟩

theorem lookup_map (f : String → Value → Value) :
    (entries.map fun entry => (entry.1, f entry.1 entry.2)).lookup name =
      (entries.lookup name).map (f name) := by
  induction entries with
  | nil => rfl
  | cons entry entries ih =>
    rw [List.map_cons, List.lookup_cons, List.lookup_cons, ih]
    cases hSame : name == entry.1 with
    | true =>
      rw [eq_of_beq hSame]
      rfl
    | false => rfl

theorem lookup_filter (test : String → Bool) (hName : test name = true) :
    (entries.filter fun entry => test entry.1).lookup name = entries.lookup name := by
  induction entries with
  | nil => rfl
  | cons entry entries ih =>
    rw [List.filter_cons]
    cases hSame : name == entry.1 with
    | true =>
      rw [← eq_of_beq hSame, if_pos hName, List.lookup_cons, List.lookup_cons, hSame]
    | false =>
      rw [List.lookup_cons, hSame]
      split
      · rw [List.lookup_cons, hSame]
        exact ih
      · exact ih

end Lookup

variable (given more : Keywords)

def value? (setting : Setting) : Option Value := given.entries.lookup setting.name

/-- Both, where what is given more counts. A name that is given already keeps its place. -/
def merge : Keywords where
  entries :=
    given.entries.map (fun entry => (entry.1, (more.entries.lookup entry.1).getD entry.2)) ++
      more.entries.filter fun entry => entry.1 ∉ given.entries.map (·.1)
  nodup := by
    rw [List.map_append, List.map_map, List.nodup_append]
    refine ⟨given.nodup, more.nodup.sublist (List.filter_sublist.map _), ?_⟩
    rintro name hGiven other hMore rfl
    obtain ⟨entry, hEntry, rfl⟩ := List.mem_map.mp hMore
    exact of_decide_eq_true (List.mem_filter.mp hEntry).2 hGiven
  receiver := by
    rw [List.map_append, List.map_map, List.mem_append]
    rintro (hGiven | hMore)
    · exact given.receiver hGiven
    · exact more.receiver ((List.filter_sublist.map _).subset hMore)

theorem lookup_merge (name : String) :
    (given.merge more).entries.lookup name =
      (more.entries.lookup name).or (given.entries.lookup name) := by
  rw [merge, List.lookup_append, lookup_map fun name value => (more.entries.lookup name).getD value]
  cases hGiven : given.entries.lookup name with
  | some value => cases more.entries.lookup name <;> rfl
  | none =>
    have hNew : decide (name ∉ given.entries.map (·.1)) = true :=
      decide_eq_true (lookup_eq_none_iff.mp hGiven)
    rw [lookup_filter (fun name => decide (name ∉ given.entries.map (·.1))) hNew, Option.or_none]
    rfl

theorem mem_merge {name : String} :
    name ∈ (given.merge more).entries.map (·.1) ↔
      name ∈ given.entries.map (·.1) ∨ name ∈ more.entries.map (·.1) := by
  rw [← Decidable.not_iff_not, not_or, ← lookup_eq_none_iff, ← lookup_eq_none_iff,
    ← lookup_eq_none_iff, lookup_merge, Option.or_eq_none_iff, and_comm]

end Keywords

/-! ## What options come to -/

namespace Options

variable {options result : Options} {changes : List (String × Value)}

theorem get_assign (hNodup : (changes.map (·.1)).Nodup) (setting : Setting) :
    (options.assign changes).get setting =
      (changes.lookup setting.name).getD (options.get setting) := by
  induction changes generalizing options with
  | nil => rfl
  | cons change changes ih =>
    obtain ⟨hNew, hNodup⟩ := List.nodup_cons.mp hNodup
    rw [assign, List.foldl_cons, List.lookup_cons]
    refine (ih hNodup).trans ?_
    cases hSame : setting.name == change.1 with
    | true =>
      have hName : setting.name = change.1 := eq_of_beq hSame
      rw [Setting.ofName?_eq_some_iff.mpr hName, Keywords.lookup_eq_none_iff.mpr (hName ▸ hNew)]
      simp
    | false =>
      refine congrArg (List.lookup setting.name changes).getD ?_
      split
      · rename_i other hOther
        have hApart : setting ≠ other := by
          rintro rfl
          exact beq_eq_false_iff_ne.mp hSame (Setting.ofName?_eq_some_iff.mp hOther)
        rw [get_set, if_neg hApart]
      · rfl

/-- Overriding succeeds when every name is known and every setting accepts what it comes to. -/
theorem override_eq_ok_iff (hNodup : (changes.map (·.1)).Nodup) :
    options.override changes = .ok result ↔
      (∀ name ∈ changes.map (·.1), Knows name) ∧
        (∀ setting, result.get setting =
          (changes.lookup setting.name).getD (options.get setting)) ∧
        ∀ setting : Setting, setting.Accepts (result.get setting) := by
  have hKnown : (changes.find? fun change => (Setting.ofName? change.1).isNone) = none ↔
      ∀ name ∈ changes.map (·.1), Knows name := by
    rw [List.find?_eq_none, List.forall_mem_map]
    exact forall₂_congr fun change _ => by rw [isNone_ofName?_iff, not_not]
  have hResult : (∀ setting, result.get setting =
      (changes.lookup setting.name).getD (options.get setting)) ↔ result = options.assign changes := by
    constructor
    · exact fun hAll => ext_get fun setting => (hAll setting).trans (get_assign hNodup setting).symm
    · rintro rfl
      exact get_assign hNodup
  rw [hResult, ← hKnown, ← validate_eq_ok_iff, override]
  cases changes.find? fun change => (Setting.ofName? change.1).isNone with
  | some change => exact iff_of_false nofun nofun
  | none =>
    cases hValid : (options.assign changes).validate with
    | ok _ =>
      simp only [hValid, bind, Except.bind, pure, Except.pure, Except.ok.injEq, true_and]
      constructor
      · rintro rfl
        exact ⟨rfl, hValid⟩
      · rintro ⟨rfl, -⟩
        rfl
    | error fault =>
      simp only [hValid, bind, Except.bind, true_and]
      refine iff_of_false nofun ?_
      rintro ⟨rfl, hOk⟩
      cases hValid.symm.trans hOk

theorem override_unknown {before behind : List (String × Value)} {name : String} {value : Value}
    (hChanges : changes = before ++ (name, value) :: behind)
    (hBefore : ∀ change ∈ before, Knows change.1) (hUnknown : ¬ Knows name) :
    options.override changes = .error (.config (.unknownOption name (suggestionsFor name))) := by
  have hFirst : changes.find? (fun change => (Setting.ofName? change.1).isNone) = some (name, value) := by
    rw [hChanges, List.find?_append, List.find?_cons, isNone_ofName?_iff.mpr hUnknown,
      List.find?_eq_none.mpr fun change hChange hNone =>
        isNone_ofName?_iff.mp hNone (hBefore change hChange)]
    rfl
  rw [override, hFirst]

/-! ## Equality -/

def IsLiteral (options : Options) : Prop :=
  ∀ setting : Setting, setting.isCollaborator = false → (options.get setting).IsLiteral

theorem same_self (hValid : ∀ setting : Setting, setting.Accepts (options.get setting))
    (hLiteral : options.IsLiteral) : options.same options = true := by
  have hCollaborator {value : Value} (hAccepts : value = .none ∨ value.isCallable = true) :
      value.same value = true := by
    rcases hAccepts with rfl | hCallable
    · rfl
    · unfold Value.isCallable at hCallable
      split at hCallable
      · simp [Value.same, Atom.same]
      · cases hCallable
  refine List.all_eq_true.mpr fun setting _ => ?_
  cases hSetting : setting.isCollaborator with
  | false => exact (hLiteral setting hSetting).same_self
  | true =>
    have hAccepts := hValid setting
    cases setting with
    | parser | render => exact hCollaborator hAccepts
    | _ => cases hSetting

end Options

def Keywords.IsLiteral (given : Keywords) : Prop :=
  ∀ (setting : Setting) (value : Value), given.value? setting = some value →
    setting.isCollaborator = false → value.IsLiteral

namespace Options

variable {options result : Options} {given more : Keywords}

theorem isLiteral_override (hLiteral : options.IsLiteral) (hGiven : given.IsLiteral)
    (h : options.override given.entries = .ok result) : result.IsLiteral := by
  obtain ⟨-, hGet, -⟩ := (override_eq_ok_iff given.nodup).mp h
  intro setting hSetting
  rw [hGet setting]
  cases hValue : given.entries.lookup setting.name with
  | none => exact hLiteral setting hSetting
  | some value => exact hGiven setting value hValue hSetting

/-! ## The laws -/

/-- One mapping after the other comes to the same as both at once. -/
theorem override_merge {first second : Options} (hFirst : options.override given.entries = .ok first)
    (hSecond : first.override more.entries = .ok second) :
    options.override (given.merge more).entries = .ok second := by
  obtain ⟨hGiven, hFirstGet, -⟩ := (override_eq_ok_iff given.nodup).mp hFirst
  obtain ⟨hMore, hSecondGet, hValid⟩ := (override_eq_ok_iff more.nodup).mp hSecond
  refine (override_eq_ok_iff (given.merge more).nodup).mpr ⟨?_, ?_, hValid⟩
  · intro name hName
    exact ((given.mem_merge more).mp hName).elim (hGiven name) (hMore name)
  · intro setting
    rw [hSecondGet, hFirstGet, Keywords.lookup_merge]
    cases more.entries.lookup setting.name <;> rfl

theorem exported_eq {setting : Setting} {value : Value}
    (hLiteral : setting.isCollaborator = false → value.IsLiteral)
    (hNone : setting.isCollaborator = true → value = .none) : exported setting value = value := by
  unfold exported
  cases hSetting : setting.isCollaborator with
  | true =>
    rw [hNone hSetting]
    rfl
  | false => cases hLiteral hSetting <;> rfl

theorem lookup_toEntries (options : Options) (setting : Setting) :
    options.toEntries.lookup setting.name = some (exported setting (options.get setting)) := by
  cases setting <;> rfl

/-- Exported settings make the same options again. -/
theorem ofEntries_toEntries (hValid : ∀ setting : Setting, setting.Accepts (options.get setting))
    (hLiteral : options.IsLiteral) (hParser : options.parser = .none) (hRender : options.render = .none) :
    ofEntries options.toEntries = .ok options := by
  have hNames : options.toEntries.map (·.1) = Setting.all.map Setting.name := rfl
  have hNodup : (options.toEntries.map (·.1)).Nodup := by
    rw [hNames]
    decide
  refine (override_eq_ok_iff hNodup).mpr ⟨?_, ?_, hValid⟩
  · rw [hNames]
    rintro name hName
    obtain ⟨setting, -, hSetting⟩ := List.mem_map.mp hName
    exact ⟨setting, hSetting⟩
  · intro setting
    have hNone : setting.isCollaborator = true → options.get setting = .none := by
      intro hSetting
      cases setting with
      | parser => exact hParser
      | render => exact hRender
      | _ => cases hSetting
    rw [lookup_toEntries, exported_eq (hLiteral setting) hNone]
    rfl

/-- The laws of overriding options by what is given and then by more. -/
structure Overriding (options : Options) (given more : Keywords) : Prop where
  unknown : ∀ before name value behind, given.entries = before ++ (name, value) :: behind →
    (∀ entry ∈ before, Knows entry.1) → ¬ Knows name →
    ∃ cause : ConfigFault, options.override given.entries = .error (.config cause) ∧ cause.field = name
  known : (∀ entry ∈ given.entries, Knows entry.1) →
    (∀ setting : Setting, setting.Accepts ((given.value? setting).getD (options.get setting))) →
    ∃ result, options.override given.entries = .ok result ∧
      ∀ setting, result.get setting = (given.value? setting).getD (options.get setting)
  merged : ∀ first second, options.override given.entries = .ok first →
    first.override more.entries = .ok second →
    options.override (given.merge more).entries = .ok second ∧ second.same second = true
  copied : options.copy = .ok options ∧ options.same options = true
  exported : options.parser = .none → options.render = .none → ofEntries options.toEntries = .ok options

theorem overriding (hValid : options.validate = .ok ()) (hLiteral : options.IsLiteral)
    (hGiven : given.IsLiteral) (hMore : more.IsLiteral) : Overriding options given more where
  unknown before name value behind hEntries hBefore hUnknown :=
    ⟨_, override_unknown hEntries hBefore hUnknown, rfl⟩
  known hKnown hAccepts := by
    refine ⟨.ofGet fun setting => (given.value? setting).getD (options.get setting), ?_, get_ofGet _⟩
    refine (override_eq_ok_iff given.nodup).mpr ⟨List.forall_mem_map.mpr hKnown, get_ofGet _, ?_⟩
    intro setting
    rw [get_ofGet]
    exact hAccepts setting
  merged first second hFirst hSecond := by
    have hLiteral := isLiteral_override (isLiteral_override hLiteral hGiven hFirst) hMore hSecond
    obtain ⟨-, -, hAccepts⟩ := (override_eq_ok_iff more.nodup).mp hSecond
    exact ⟨override_merge hFirst hSecond, same_self hAccepts hLiteral⟩
  copied := by
    have hAccepts := validate_eq_ok_iff.mp hValid
    have hNodup : (([] : List (String × Value)).map (·.1)).Nodup := List.nodup_nil
    exact ⟨(override_eq_ok_iff hNodup).mpr ⟨List.forall_mem_nil _, fun _ => rfl, hAccepts⟩,
      same_self hAccepts hLiteral⟩
  exported := ofEntries_toEntries (validate_eq_ok_iff.mp hValid) hLiteral

end Options

end Hypertext
