import QuditSim.Engine.Settings
import QuditSim.Proofs.Fallible

/-!
# Settings set over an environment

Three variables of the environment feed fields of the settings, and fields that are set one by one
replace what the variables say. A variable that feeds a replaced field should then not matter, and for
the device and for the checks it does not: what their texts say is not judged before the fields are
replaced. The text of the seed is read before, so one that writes no integer is refused although
nothing of it would be used.

- `EngineSettings.foldlM_set_congr`: fields that are set leave nothing of what was in them.
- `EngineSettings.ofEnvironment_of_unreadable` and `EngineSettings.ofEnvironment_of_readable` say what
  is made of an environment, and `EngineSettings.ofEnvironment_eq_seedText_iff` when its seed is to
  blame.
- `EngineSettings.overrides_replace_iff` compares two environments that differ only in variables of
  fields that are set.
-/

namespace QuditSim

open Fallible

/-- A field of the settings. -/
inductive SettingsField where
  /-- The name of the device. -/
  | device
  /-- The element type of states. -/
  | elementType
  /-- The seed of chance. -/
  | seed
  /-- Whether norms are checked. -/
  | checkNormalization
deriving DecidableEq, Repr

/-- The variable of the environment that feeds a field. -/
def SettingsField.source? : SettingsField → Option String
  | device => some deviceVariable
  | elementType => none
  | seed => some seedVariable
  | checkNormalization => some debugVariable

/-- The field that is set, if there is one of the name. -/
def Setting.field? : Setting → Option SettingsField
  | device _ | foreignDevice _ => some .device
  | elementType _ => some .elementType
  | seed _ => some .seed
  | checkNormalization _ => some .checkNormalization
  | unknown _ => none

/-- One of some settings sets a field. -/
def SettingsField.SetBy (field : SettingsField) (fields : List Setting) : Prop :=
  some field ∈ fields.map Setting.field?

instance (field : SettingsField) (fields : List Setting) : Decidable (field.SetBy fields) :=
  inferInstanceAs (Decidable (some field ∈ fields.map Setting.field?))

theorem SettingsField.setBy_cons {field : SettingsField} {setting : Setting} {fields : List Setting} :
    field.SetBy (setting :: fields) ↔ setting.field? = some field ∨ field.SetBy fields := by
  unfold SetBy
  rw [List.map_cons, List.mem_cons, eq_comm]

namespace Environment

/-- Two environments differ at most in variables of fields that are set. -/
def AgreeOff (fields : List Setting) (a b : Environment) : Prop :=
  ∀ (field : SettingsField) (name : String), field.source? = some name → ¬ field.SetBy fields →
    a.lookup name = b.lookup name

theorem agreeOff_iff {fields : List Setting} {a b : Environment} :
    AgreeOff fields a b ↔
      (¬ SettingsField.device.SetBy fields → a.lookup deviceVariable = b.lookup deviceVariable) ∧
      (¬ SettingsField.seed.SetBy fields → a.lookup seedVariable = b.lookup seedVariable) ∧
      (¬ SettingsField.checkNormalization.SetBy fields →
        a.lookup debugVariable = b.lookup debugVariable) := by
  constructor
  · exact fun h => ⟨h .device _ rfl, h .seed _ rfl, h .checkNormalization _ rfl⟩
  · rintro ⟨hdevice, hseed, hcheck⟩ field name hsource
    cases field with
    | device =>
      cases hsource
      exact hdevice
    | elementType => cases hsource
    | seed =>
      cases hsource
      exact hseed
    | checkNormalization =>
      cases hsource
      exact hcheck

instance (fields : List Setting) (a b : Environment) : Decidable (AgreeOff fields a b) :=
  decidable_of_iff' _ agreeOff_iff

/-- The text of the seed, if there is one and it writes no integer. -/
def unreadableSeed? (environment : Environment) : Option String :=
  (environment.text? seedVariable).filter fun text => (Text.integer? text).isNone

/-- The integer that the text of the seed writes. -/
def seed? (environment : Environment) : Option Int :=
  (environment.text? seedVariable).bind Text.integer?

/-- The fields that an environment sets if its seed can be read. -/
def settings (environment : Environment) : List Setting :=
  ((environment.text? deviceVariable).map fun text => Setting.device (Text.lower text)).toList ++
    (environment.seed?.map fun seed => Setting.seed (some (.int seed))).toList ++
    if environment.flag debugVariable then [.checkNormalization true] else []

/-- The settings that an environment states, whether they are allowed or not. -/
def stated (environment : Environment) : EngineSettings where
  device := ((environment.text? deviceVariable).map Text.lower).getD "cpu"
  seed := environment.seed?.map Argument.int
  checkNormalization := environment.flag debugVariable

theorem text?_congr {a b : Environment} {name : String} (h : a.lookup name = b.lookup name) :
    a.text? name = b.text? name := by
  rw [text?, h, text?]

end Environment

namespace EngineSettings

variable {fields : List Setting} {settings other : EngineSettings}

/-! ## Fields that are set -/

/-- Two settings have the same value in a field. -/
def SameIn (field : SettingsField) (settings other : EngineSettings) : Prop :=
  match field with
  | .device => settings.device = other.device
  | .elementType => settings.elementType = other.elementType
  | .seed => settings.seed = other.seed
  | .checkNormalization => settings.checkNormalization = other.checkNormalization

theorem eq_of_sameIn (h : ∀ field, SameIn field settings other) : settings = other := by
  have hdevice : settings.device = other.device := h .device
  have htype : settings.elementType = other.elementType := h .elementType
  have hseed : settings.seed = other.seed := h .seed
  have hcheck : settings.checkNormalization = other.checkNormalization := h .checkNormalization
  cases settings
  cases other
  simp_all

/-- A field is refused whatever the settings are, or it is set and the other fields are left alone. -/
theorem set_cases (setting : Setting) :
    (∃ fault, ∀ settings, set settings setting = .error fault) ∨
      ∃ (field : SettingsField) (put : EngineSettings → EngineSettings),
        setting.field? = some field ∧ (∀ settings, set settings setting = .ok (put settings)) ∧
        (∀ settings other, SameIn field (put settings) (put other)) ∧
        ∀ rest settings other, SameIn rest settings other →
          SameIn rest (put settings) (put other) := by
  cases setting with
  | foreignDevice shown => exact .inl ⟨_, fun _ => rfl⟩
  | unknown name => exact .inl ⟨_, fun _ => rfl⟩
  | device name =>
    refine .inr ⟨.device, fun settings => { settings with device := name }, rfl, fun _ => rfl,
      fun _ _ => rfl, ?_⟩
    rintro (_ | _ | _ | _) _ _ h
    exacts [rfl, h, h, h]
  | elementType type =>
    refine .inr ⟨.elementType, fun settings => { settings with elementType := type }, rfl,
      fun _ => rfl, fun _ _ => rfl, ?_⟩
    rintro (_ | _ | _ | _) _ _ h
    exacts [h, rfl, h, h]
  | seed seed =>
    refine .inr ⟨.seed, fun settings => { settings with seed := seed }, rfl, fun _ => rfl,
      fun _ _ => rfl, ?_⟩
    rintro (_ | _ | _ | _) _ _ h
    exacts [h, h, rfl, h]
  | checkNormalization check =>
    refine .inr ⟨.checkNormalization, fun settings => { settings with checkNormalization := check },
      rfl, fun _ => rfl, fun _ _ => rfl, ?_⟩
    rintro (_ | _ | _ | _) _ _ h
    exacts [h, h, h, rfl]

/-- Whatever was in the fields that are set is replaced. -/
theorem foldlM_set_congr
    (h : ∀ field : SettingsField, ¬ field.SetBy fields → SameIn field settings other) :
    fields.foldlM set settings = fields.foldlM set other := by
  -- a field in which the two differ is set by one of the fields that are left
  induction fields generalizing settings other with
  | nil => rw [eq_of_sameIn fun field => h field List.not_mem_nil]
  | cons setting rest ih =>
    rw [List.foldlM_cons, List.foldlM_cons]
    rcases set_cases setting with ⟨fault, hfault⟩ | ⟨field, put, hfield, hset, hput, hkeep⟩
    · rw [hfault, hfault]
    · rw [hset, hset]
      refine ih fun field' hrest => ?_
      by_cases hsame : field' = field
      · rw [hsame]
        exact hput settings other
      · refine hkeep field' settings other (h field' fun hcons => ?_)
        rcases SettingsField.setBy_cons.mp hcons with hnow | hlater
        · exact hsame (Option.some.inj (hnow.symm.trans hfield))
        · exact hrest hlater

/-! ## What is made of an environment -/

section OfEnvironment

variable {environment : Environment} {text : String}

/-- A seed that cannot be read is refused, whatever is set over it. -/
theorem ofEnvironment_of_unreadable (h : environment.unreadableSeed? = some text) :
    ofEnvironment environment fields = .error (.seedText text) := by
  obtain ⟨htext, hread⟩ := Option.filter_eq_some_iff.mp h
  have hnone : Text.integer? text = none := Option.isNone_iff_eq_none.mp hread
  have hfields : fieldsOf environment = .error (.seedText text) := by
    simp only [fieldsOf, htext, hnone]
    rfl
  rw [ofEnvironment, hfields]
  rfl

theorem fieldsOf_of_readable (h : environment.unreadableSeed? = none) :
    fieldsOf environment = .ok environment.settings := by
  unfold fieldsOf Environment.settings Environment.seed?
  cases htext : environment.text? seedVariable with
  | none => rfl
  | some text =>
    cases hread : Text.integer? text with
    | none => simp [Environment.unreadableSeed?, htext, hread] at h
    | some seed =>
      simp only [hread, Option.bind_some]
      rfl

theorem checkFields_settings_append (environment : Environment) :
    checkFields (environment.settings ++ fields) = checkFields fields := by
  have hnamed : checkFields environment.settings = .ok () := by
    unfold Environment.settings
    cases environment.text? deviceVariable <;> cases environment.seed? <;>
      cases environment.flag debugVariable <;> rfl
  unfold checkFields at hnamed ⊢
  rw [List.forM_eq_forM] at hnamed ⊢
  rw [List.forM_append, hnamed]
  rfl

theorem foldlM_settings (environment : Environment) :
    environment.settings.foldlM set {} = .ok environment.stated := by
  unfold Environment.settings Environment.stated
  cases environment.text? deviceVariable <;> cases environment.seed? <;>
    cases environment.flag debugVariable <;> rfl

/-- If the seed can be read, the fields are set over what the environment states, and only the
outcome of that is judged. -/
theorem ofEnvironment_of_readable (h : environment.unreadableSeed? = none) :
    ofEnvironment environment fields = (do
      checkFields fields
      (← fields.foldlM set environment.stated).validated) := by
  rw [ofEnvironment, fieldsOf_of_readable h]
  show create (environment.settings ++ fields) = _
  unfold create setAll
  rw [checkFields_settings_append, List.foldlM_append, foldlM_settings, bind_assoc]
  rfl

/-! ## Faults of the seed -/

/-- A computation does not fail for a text of the seed. -/
def SparesSeedText {α : Type} (x : Except SettingsFault α) : Prop :=
  ∀ text, x ≠ .error (.seedText text)

theorem SparesSeedText.bind {α β : Type} {x : Except SettingsFault α}
    {f : α → Except SettingsFault β}
    (hx : SparesSeedText x) (hf : ∀ a, SparesSeedText (f a)) : SparesSeedText (x >>= f) := by
  intro text h
  rcases bind_eq_error.mp h with hfault | ⟨a, -, hfault⟩
  · exact hx text hfault
  · exact hf a text hfault

theorem sparesSeedText_checkFields (fields : List Setting) : SparesSeedText (checkFields fields) := by
  unfold checkFields
  induction fields with
  | nil => exact nofun
  | cons setting rest ih =>
    rw [List.forM_eq_forM, List.forM_cons]
    refine .bind ?_ fun _ => ih
    cases setting <;> exact nofun

theorem sparesSeedText_foldlM (settings : EngineSettings) (fields : List Setting) :
    SparesSeedText (fields.foldlM set settings) := by
  induction fields generalizing settings with
  | nil => exact nofun
  | cons setting rest ih =>
    rw [List.foldlM_cons]
    refine .bind ?_ ih
    cases setting <;> exact nofun

theorem sparesSeedText_checkSeed (seed : Argument) : SparesSeedText (checkSeed seed) := by
  unfold checkSeed
  split
  · exact nofun
  · split <;> exact nofun

theorem sparesSeedText_validated (settings : EngineSettings) : SparesSeedText settings.validated := by
  unfold validated
  dsimp only
  split
  · exact nofun
  · split
    · exact nofun
    · split
      · exact .bind (sparesSeedText_checkSeed _) fun _ => nofun
      · exact nofun

/-- Settings fail for a text of the seed just if the environment has it and it cannot be read. -/
theorem ofEnvironment_eq_seedText_iff :
    ofEnvironment environment fields = .error (.seedText text) ↔
      environment.unreadableSeed? = some text := by
  refine ⟨fun h => ?_, ofEnvironment_of_unreadable⟩
  cases hseed : environment.unreadableSeed? with
  | some other =>
    rw [ofEnvironment_of_unreadable hseed] at h
    cases h
    rfl
  | none =>
    rw [ofEnvironment_of_readable hseed] at h
    have hspares : SparesSeedText (do
        checkFields fields
        (← fields.foldlM set environment.stated).validated) :=
      (sparesSeedText_checkFields fields).bind fun _ =>
        (sparesSeedText_foldlM environment.stated fields).bind sparesSeedText_validated
    exact absurd h (hspares text)

end OfEnvironment

/-! ## Environments that differ where fields are set -/

theorem sameIn_stated {a b : Environment} (h : a.AgreeOff fields b) (field : SettingsField)
    (hunset : ¬ field.SetBy fields) : SameIn field a.stated b.stated := by
  cases field with
  | device =>
    have htext := Environment.text?_congr (h .device deviceVariable rfl hunset)
    simp only [SameIn, Environment.stated, htext]
  | elementType => rfl
  | seed =>
    have htext := Environment.text?_congr (h .seed seedVariable rfl hunset)
    simp only [SameIn, Environment.stated, Environment.seed?, htext]
  | checkNormalization =>
    have hlookup := h .checkNormalization debugVariable rfl hunset
    simp only [SameIn, Environment.stated, Environment.flag, hlookup]

/-- Two environments that differ only in variables of fields which are set over them give the same
settings or the same fault, just if they have the same seed that cannot be read, or none. -/
theorem overrides_replace_iff {a b : Environment} (h : a.AgreeOff fields b) :
    ofEnvironment a fields = ofEnvironment b fields ↔ a.unreadableSeed? = b.unreadableSeed? := by
  constructor
  · intro heq
    refine Option.ext fun text => ?_
    calc a.unreadableSeed? = some text
        ↔ ofEnvironment a fields = .error (.seedText text) := ofEnvironment_eq_seedText_iff.symm
      _ ↔ ofEnvironment b fields = .error (.seedText text) := by rw [heq]
      _ ↔ b.unreadableSeed? = some text := ofEnvironment_eq_seedText_iff
  · intro hseed
    cases hb : b.unreadableSeed? with
    | some text => rw [ofEnvironment_of_unreadable (hseed.trans hb), ofEnvironment_of_unreadable hb]
    | none =>
      rw [ofEnvironment_of_readable (hseed.trans hb), ofEnvironment_of_readable hb,
        foldlM_set_congr (sameIn_stated h)]

/-- A device that there is not and a negative seed do no harm where both fields are set. -/
theorem overrides_replace_iff_device :
    let a : Environment := [(deviceVariable, "gpu"), (seedVariable, "-1"), (debugVariable, "1")]
    let b : Environment := [(seedVariable, "17"), (debugVariable, "1")]
    let fields : List Setting := [.device "cuda", .seed none]
    a.AgreeOff fields b ∧ ofEnvironment a fields = ofEnvironment b fields := by
  intro a b fields
  have hagree : a.AgreeOff fields b := by decide +kernel
  exact ⟨hagree, (overrides_replace_iff hagree).mpr (by decide +kernel)⟩

/-- A seed is set over both of two environments, and still one of them is refused for a text that would
not be used. -/
theorem unreadable_seed_not_replaced :
    let a : Environment := []
    let b : Environment := [(seedVariable, "abc")]
    let fields : List Setting := [.seed (some (.int 3))]
    a.AgreeOff fields b ∧ ofEnvironment a fields = .ok { seed := some (.int 3) } ∧
      ofEnvironment b fields = .error (.seedText "abc") := by
  intro a b fields
  refine ⟨by decide +kernel, ?_, ofEnvironment_of_unreadable (by decide +kernel)⟩
  have hflag : a.flag debugVariable = false := by decide +kernel
  have hstated : a.stated = {} := by
    unfold Environment.stated
    rw [hflag]
    rfl
  rw [ofEnvironment_of_readable rfl, hstated]
  rfl

end EngineSettings

end QuditSim
