import Hypertext.Render

/-! # Faults of rendering

Options may hold anything when they are checked, and a tree may hold anything anywhere. What is refused
is refused with a fault of the configuration, which names a setting that does not accept its value, or
with one of rendering. There is one exception: single tags that cannot even be listed end the check, and
rendering with it, as a fault of the wrong type, unless the closing style is refused before them.
-/

namespace Hypertext

set_option autoImplicit false

/-! ## Settings and their values -/

def Setting.Accepts : Setting → Value → Prop
  | .closingSingleTag, value => ∃ name ∈ closingStyleNames, value = .str name
  | .singleTags, value => Options.isText value = false ∧
    ∃ members, Options.members? value = some members ∧
      ∀ member ∈ members, Options.isText member = true
  | .parser, value | .render, value => value = .none ∨ value.isCallable = true
  | _, _ => True

namespace Options

variable {options : Options}

/-- The closing style is fine, and the single tags are nothing that can be iterated over. -/
structure Unlistable (options : Options) : Prop where
  style : Setting.closingSingleTag.Accepts options.closingSingleTag
  tags : members? options.singleTags = none

theorem isClosingStyle_iff {value : Value} :
    isClosingStyle value = true ↔ Setting.closingSingleTag.Accepts value := by
  simp only [isClosingStyle, List.any_eq_true, Value.same_str_iff, Setting.Accepts]

/-- How a check of one value can end: it is accepted, or the setting is refused by its name. -/
def Checks (setting : Setting) (value : Value) (outcome : Outcome Unit) : Prop :=
  (outcome = .ok () ∧ setting.Accepts value) ∨
    ∃ cause : ConfigFault, outcome = .error (.config cause) ∧ cause.field = setting.name ∧
      ¬ setting.Accepts value

theorem checks_singleTags {value : Value} (hListed : members? value ≠ none) :
    Checks .singleTags value (checkSingleTags value) := by
  rw [checkSingleTags]
  cases hText : isText value with
  | true =>
    refine .inr ⟨.singleTags, rfl, rfl, fun hAccepts => ?_⟩
    rw [hAccepts.1] at hText
    cases hText
  | false =>
    obtain ⟨members, hMembers⟩ := Option.ne_none_iff_exists'.mp hListed
    simp only [hMembers, Bool.false_eq_true, if_false]
    split
    · rename_i hAll
      exact .inl ⟨rfl, hText, members, hMembers, List.all_eq_true.mp hAll⟩
    · rename_i hSome
      refine .inr ⟨.singleTags, rfl, rfl, ?_⟩
      rintro ⟨-, others, hOthers, hAll⟩
      cases hMembers.symm.trans hOthers
      exact hSome (List.all_eq_true.mpr hAll)

theorem checkSingleTags_unlisted {value : Value} (hNone : members? value = none) :
    checkSingleTags value = .error (.wrongType ("'" ++ value.typeName ++ "' object is not iterable")) := by
  have hText : isText value = false := by
    cases value with
    | atom a => cases a <;> first | rfl | cases hNone
    | seq kind items => rfl
    | map kind entries => rfl
  simp only [checkSingleTags, hText, hNone, Bool.false_eq_true, if_false]

theorem checks_collaborator (setting : Setting) (hSetting : setting.isCollaborator = true)
    (value : Value) : Checks setting value (checkCollaborator setting value) := by
  have hAccepts : setting.Accepts value ↔ value = .none ∨ value.isCallable = true := by
    cases setting <;> first | exact Iff.rfl | cases hSetting
  rw [Checks, hAccepts]
  by_cases hNone : value = .none
  · subst hNone
    exact .inl ⟨rfl, .inl rfl⟩
  · rw [checkCollaborator]
    · split
      · rename_i hCallable
        exact .inl ⟨rfl, .inr hCallable⟩
      · rename_i hCallable
        exact .inr ⟨_, rfl, rfl, not_or.mpr ⟨hNone, hCallable⟩⟩
    · exact hNone

/-! ## Validation -/

theorem accepts_iff :
    (∀ setting : Setting, setting.Accepts (options.get setting)) ↔
      Setting.closingSingleTag.Accepts options.closingSingleTag ∧
        Setting.singleTags.Accepts options.singleTags ∧
        Setting.parser.Accepts options.parser ∧ Setting.render.Accepts options.render := by
  constructor
  · exact fun hAll => ⟨hAll .closingSingleTag, hAll .singleTags, hAll .parser, hAll .render⟩
  · rintro ⟨hStyle, hTags, hParser, hRender⟩ setting
    cases setting <;> first | assumption | exact trivial

def Refuses (options : Options) (outcome : Outcome Unit) : Prop :=
  ∃ cause : ConfigFault, outcome = .error (.config cause) ∧
    ∃ setting : Setting, cause.field = setting.name ∧ ¬ setting.Accepts (options.get setting)

theorem Checks.accepts_or_refuses {setting : Setting} {outcome : Outcome Unit}
    (h : Checks setting (options.get setting) outcome) :
    (outcome = .ok () ∧ setting.Accepts (options.get setting)) ∨ Refuses options outcome :=
  h.imp_right fun ⟨cause, hFault, hField, hRefused⟩ => ⟨cause, hFault, setting, hField, hRefused⟩

theorem Checks.bind {setting : Setting} {first next : Outcome Unit} {Others : Prop}
    (hFirst : Checks setting (options.get setting) first)
    (hNext : (next = .ok () ∧ Others) ∨ Refuses options next) :
    ((first >>= fun _ => next) = .ok () ∧ setting.Accepts (options.get setting) ∧ Others) ∨
      Refuses options (first >>= fun _ => next) := by
  rcases hFirst.accepts_or_refuses with ⟨rfl, hAccepted⟩ | ⟨cause, rfl, hNamed⟩
  · exact hNext.imp_left fun ⟨hOk, hOthers⟩ => ⟨hOk, hAccepted, hOthers⟩
  · exact .inr ⟨cause, rfl, hNamed⟩

theorem validate_checks (hListable : ¬ options.Unlistable) :
    (options.validate = .ok () ∧ ∀ setting : Setting, setting.Accepts (options.get setting)) ∨
      Refuses options options.validate := by
  rw [accepts_iff, validate]
  cases hStyle : isClosingStyle options.closingSingleTag with
  | true =>
    have hAccepted := isClosingStyle_iff.mp hStyle
    have hTags := checks_singleTags fun hNone => hListable ⟨hAccepted, hNone⟩
    have hParser := checks_collaborator .parser rfl options.parser
    have hRender := checks_collaborator .render rfl options.render
    exact (hTags.bind (hParser.bind hRender.accepts_or_refuses)).imp_left
      fun ⟨hValid, hOthers⟩ => ⟨hValid, hAccepted, hOthers⟩
  | false =>
    refine .inr ⟨.closingStyle options.closingSingleTag, rfl, .closingSingleTag, rfl, ?_⟩
    exact fun hAccepted => Bool.false_ne_true (hStyle.symm.trans (isClosingStyle_iff.mpr hAccepted))

theorem Unlistable.validate_eq (hTags : options.Unlistable) :
    options.validate =
      .error (.wrongType ("'" ++ options.singleTags.typeName ++ "' object is not iterable")) := by
  rw [validate]
  simp [isClosingStyle_iff.mpr hTags.style, checkSingleTags_unlisted hTags.tags, bind, Except.bind]

theorem Unlistable.not_accepts (hTags : options.Unlistable) :
    ¬ Setting.singleTags.Accepts options.singleTags := by
  rintro ⟨-, members, hMembers, -⟩
  exact Option.some_ne_none members (hMembers.symm.trans hTags.tags)

theorem validate_eq_ok_iff :
    options.validate = .ok () ↔ ∀ setting : Setting, setting.Accepts (options.get setting) := by
  by_cases hTags : options.Unlistable
  · rw [hTags.validate_eq]
    exact iff_of_false nofun fun hAll => hTags.not_accepts (hAll .singleTags)
  · rcases validate_checks hTags with ⟨hValid, hAll⟩ | ⟨cause, hFault, setting, -, hRefused⟩
    · exact iff_of_true hValid hAll
    · rw [hFault]
      exact iff_of_false nofun fun hAll => hRefused (hAll setting)

end Options

/-! ## Markup -/

def Renders (outcome : Outcome String) : Prop :=
  (∃ html, outcome = .ok html) ∨ ∃ cause : RenderFault, outcome = .error (.render cause)

theorem Renders.bind {first : Outcome String} {next : String → Outcome String}
    (hFirst : Renders first) (hNext : ∀ html, Renders (next html)) : Renders (first >>= next) := by
  rcases hFirst with ⟨html, rfl⟩ | ⟨cause, rfl⟩
  · exact hNext html
  · exact .inr ⟨cause, rfl⟩

theorem Renders.ok (html : String) : Renders (.ok html) := .inl ⟨html, rfl⟩

namespace Value

theorem renders_leafMarkup (a : Atom) : Renders (leafMarkup a) := by
  cases a with
  | none | bool _ | str _ | int _ | float _ => exact .ok _
  | bytes _ | object _ | pattern _ | callable _ | failure _ | readable _ _ | path _ | again _ =>
    exact .inr ⟨_, rfl⟩

theorem renders_attributesMarkup (quoteAll : Bool) (attributes : Value) :
    Renders (attributesMarkup quoteAll attributes) := by
  unfold attributesMarkup
  split
  · cases attributes with
    | map _ entries => exact .ok _
    | atom _ | seq _ _ => exact .inr ⟨_, rfl⟩
  · exact .ok _

mutual

theorem renders_markup (style : RenderStyle) : ∀ value : Value, Renders (markup style value)
  | atom a => by
    rw [markup]
    exact renders_leafMarkup a
  | seq _ items => by
    rw [markup]
    exact renders_itemsMarkup style items
  | map _ entries => by
    have hContent := renders_contentMarkup style entries
    rw [markup, elementMarkup]
    simp only
    split
    · exact hContent
    · refine (renders_attributesMarkup _ _).bind fun attributes => ?_
      split
      · exact .ok _
      · exact hContent.bind fun content => .ok _

theorem renders_itemsMarkup (style : RenderStyle) : ∀ items : List Value,
    Renders (itemsMarkup style items)
  | [] => .ok _
  | item :: rest => by
    rw [itemsMarkup]
    exact (renders_markup style item).bind fun first =>
      (renders_itemsMarkup style rest).bind fun others => .ok _

theorem renders_contentMarkup (style : RenderStyle) : ∀ entries : List (Value × Value),
    Renders (contentMarkup style entries)
  | [] => .ok _
  | (key, value) :: rest => by
    rw [contentMarkup]
    split
    · exact renders_markup style value
    · exact renders_contentMarkup style rest

end

end Value

/-! ## What can go wrong -/

/-- Single tags that cannot be listed escape every translation, also when a run is to be rendered. -/
theorem render_unlistable {options : Options} (hTags : options.Unlistable) (tree : Value) :
    render options tree =
      .error (.wrongType ("'" ++ options.singleTags.typeName ++ "' object is not iterable")) := by
  rw [render, renderWith, hTags.validate_eq]

theorem Options.ofSettings_eq {settings : List (String × Value)}
    (hKnown : ∀ change ∈ settings, (Setting.ofName? change.1).isSome = true) :
    Options.ofSettings settings = (do
      (Options.default.assign settings).validate
      return Options.default.assign settings) := by
  have hNamed : settings.find? (fun change => (Setting.ofName? change.1).isNone) = none := by
    rw [List.find?_eq_none]
    intro change hChange
    simp [Option.isNone_iff_eq_none, Option.ne_none_iff_isSome.mpr (hKnown change hChange)]
  rw [ofSettings, hNamed]

/-- Rendering with options, checking them and making them are refused with faults of their own kind,
which name a setting whose value is not accepted. Single tags that cannot be listed are the one
exception. -/
theorem render_faults {options : Options} (hListable : ¬ options.Unlistable) :
    (∀ tree : Value, (∃ html, render options tree = .ok html) ∨
      ∃ cause : RenderFault, render options tree = .error (.render cause)) ∧
    ((options.validate = .ok () ∧ ∀ setting : Setting, setting.Accepts (options.get setting)) ∨
      ∃ cause : ConfigFault, options.validate = .error (.config cause) ∧
        ∃ setting : Setting, cause.field = setting.name ∧
          ¬ setting.Accepts (options.get setting)) ∧
    ∀ settings : List (String × Value),
      (∀ change ∈ settings, (Setting.ofName? change.1).isSome = true) →
      Options.default.assign settings = options →
        Options.ofSettings settings = .ok options ∨
          ∃ cause : ConfigFault, Options.ofSettings settings = .error (.config cause) := by
  have hChecks := Options.validate_checks hListable
  refine ⟨fun tree => ?_, hChecks, fun settings hKnown hOptions => ?_⟩
  · rw [render, renderWith]
    rcases hChecks with ⟨hValid, -⟩ | ⟨cause, hFault, -⟩
    · rw [hValid]
      exact Value.renders_markup _ tree
    · rw [hFault]
      exact .inr ⟨_, rfl⟩
  · rw [Options.ofSettings_eq hKnown, hOptions]
    rcases hChecks with ⟨hValid, -⟩ | ⟨cause, hFault, -⟩
    · rw [hValid]
      exact .inl rfl
    · rw [hFault]
      exact .inr ⟨cause, rfl⟩

/-- A parser that is a number is refused, also when a run is to be rendered. -/
theorem render_faults_refused :
    let options := Options.default.set .parser (.int 1)
    ¬ options.Unlistable ∧
      ((∃ html, render options (.list [.str "a"]) = .ok html) ∨
        ∃ cause : RenderFault, render options (.list [.str "a"]) = .error (.render cause)) ∧
      ((options.validate = .ok () ∧ ∀ setting : Setting, setting.Accepts (options.get setting)) ∨
        ∃ cause : ConfigFault, options.validate = .error (.config cause) ∧
          ∃ setting : Setting, cause.field = setting.name ∧
            ¬ setting.Accepts (options.get setting)) ∧
      (Options.ofSettings [("parser", .int 1)] = .ok options ∨
        ∃ cause : ConfigFault, Options.ofSettings [("parser", .int 1)] = .error (.config cause)) := by
  intro options
  have hListable : ¬ options.Unlistable := fun hTags => nomatch hTags.tags
  obtain ⟨hRender, hValidate, hMake⟩ := render_faults hListable
  refine ⟨hListable, hRender _, hValidate, hMake _ ?_ rfl⟩
  simp only [List.mem_singleton, forall_eq]
  rfl

/-- Single tags that are a number: the fault is neither of the configuration nor of rendering. -/
theorem singleTags_number :
    Options.ofSettings [("single_tags", .int 5)] =
        .error (.wrongType "'int' object is not iterable") ∧
      ∀ tree, render (Options.default.set .singleTags (.int 5)) tree =
        .error (.wrongType "'int' object is not iterable") := by
  refine ⟨rfl, fun tree => ?_⟩
  exact render_unlistable ⟨⟨"default", List.mem_cons_self, rfl⟩, rfl⟩ tree

end Hypertext
