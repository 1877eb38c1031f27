import Mathlib.Data.List.DropRight
import Mathlib.Data.List.Induction
import QuditSim.Logging.Registry
import QuditSim.Proofs.Fallible

/-!
# Configured loggers

Loggers are asked for, given a level, and configured with a level, a template and a stream, in any
order. The level that was set last is that of every logger that was asked for, before or later, and of
its one handler. The template and the stream that were set last are those of the loggers that were asked
for before: a logger that is asked for only later writes in the standard way.

- `Registry.after` makes calls one after the other, and `Registry.lastLevel`, `Registry.lastOutput` and
  `Registry.asked` read off the calls what was set last and who was asked for.
- `Registry.Orderly` is the invariant. `Registry.Orderly.enroll` and `Registry.Orderly.changeAll` are
  the steps, `Registry.Follows.call` puts them together for a call, and `Registry.follows_after` is the
  run.
- `Registry.uniform_iff` says how every logger writes after any calls, and when all of them write in
  the way that was set last.
-/

namespace QuditSim

open Fallible

/-- What a computation with loggers ends with, and the registry after it. -/
def Logging.outcome {α : Type} (x : Logging α) (registry : Registry) :
    Except LoggingFault α × Registry :=
  x.run.run registry

/-- How and where records are written. -/
abbrev Output : Type := Template × Stream

/-- The output of loggers that were never configured. -/
def Output.standard : Output := (Template.standard, .standardError)

/-- A logger has one handler with an output, and both have a level. -/
def Logger.Writes (logger : Logger) (level : Int) (output : Output) : Prop :=
  logger.level = level ∧ logger.handlers = [⟨level, some output⟩]

instance (logger : Logger) (level : Int) (output : Output) : Decidable (logger.Writes level output) :=
  inferInstanceAs (Decidable (_ ∧ _))

namespace Registry

/-! ## Calls -/

/-- A call that asks for a logger or says how loggers write. -/
inductive Call where
  /-- A logger is asked for. -/
  | obtain (name : Option String)
  /-- A level is set. -/
  | setLevel (choice : LevelChoice)
  /-- A level, a template and a stream are set. -/
  | configure (choice : LevelChoice) (text : Option String) (stream : Stream)

/-- The registry after a call, whether it succeeded or failed. -/
def call (registry : Registry) : Call → Registry
  | .obtain name => ((Registry.obtain name).outcome registry).2
  | .setLevel choice => ((Registry.setLevel choice).outcome registry).2
  | .configure choice text stream => ((Registry.configure choice text stream).outcome registry).2

/-- The registry after calls, one after the other. -/
def after (registry : Registry) (calls : List Call) : Registry := calls.foldl call registry

/-- The template that a text stands for when loggers are configured. -/
def template? (text : Option String) : Except LoggingFault Template :=
  Template.parse? ((text.filter (· ≠ "")).getD Template.standardText)

namespace Call

/-- A call that sets a level is given one, by a number or by a name, and not another value. -/
def HasLevel : Call → Prop
  | obtain _ => True
  | setLevel choice | configure choice _ _ => ∃ level, choice = .level level

/-- The name of the logger that a call asks for. -/
def name? : Call → Option String
  | obtain name => some (fullName name)
  | setLevel _ | configure _ _ _ => none

/-- The output that a call sets, unless it is refused for its template. -/
def output? : Call → Option Output
  | obtain _ | setLevel _ => none
  | configure _ text stream => (template? text).toOption.map (·, stream)

/-- The level that a call sets, unless it is refused. -/
def level? : Call → Option Int
  | obtain _ => none
  | setLevel choice => choice.value.toOption
  | configure choice text _ => (template? text).toOption.bind fun _ => choice.value.toOption

end Call

/-- The level that was set last. -/
def lastLevel (calls : List Call) : Int :=
  (calls.filterMap Call.level?).getLast?.getD LevelChoice.warning

/-- The output that was set last. -/
def lastOutput (calls : List Call) : Output :=
  (calls.filterMap Call.output?).getLast?.getD .standard

/-- The names of the loggers that were asked for, at the start or by the calls. -/
def asked (registry : Registry) (calls : List Call) : List String :=
  registry.obtained ++ calls.filterMap Call.name?

/-- The calls up to the last one that set an output. -/
def untilOutput (calls : List Call) : List Call := calls.rdropWhile (·.output?.isNone)

/-- The output of a logger after calls: the one that was set last, if it was asked for before that. -/
def outputOf (registry : Registry) (calls : List Call) (name : String) : Output :=
  if name ∈ registry.asked (untilOutput calls) then lastOutput calls else .standard

section Calls

variable {registry : Registry} {calls : List Call} {last : Call} {name : String} {output : Output}

theorem after_append (registry : Registry) (calls : List Call) (last : Call) :
    registry.after (calls ++ [last]) = (registry.after calls).call last := by
  simp [after]

theorem lastLevel_append (calls : List Call) (last : Call) :
    lastLevel (calls ++ [last]) = last.level?.getD (lastLevel calls) := by
  unfold lastLevel
  cases h : last.level? <;> simp [h]

theorem lastOutput_append (calls : List Call) (last : Call) :
    lastOutput (calls ++ [last]) = last.output?.getD (lastOutput calls) := by
  unfold lastOutput
  cases h : last.output? <;> simp [h]

theorem mem_asked_append :
    name ∈ registry.asked (calls ++ [last]) ↔
      name ∈ registry.asked calls ∨ last.name? = some name := by
  unfold asked
  cases h : last.name? <;> simp [h, or_assoc, eq_comm]

theorem mem_asked_of_untilOutput (h : name ∈ registry.asked (untilOutput calls)) :
    name ∈ registry.asked calls := by
  have hsublist := (List.rdropWhile_prefix (·.output?.isNone) calls).sublist.filterMap Call.name?
  exact (hsublist.append_left registry.obtained).subset h

/-- A call that sets no output leaves the outputs as they are. -/
theorem outputOf_append_of_none (h : last.output? = none) :
    registry.outputOf (calls ++ [last]) = registry.outputOf calls := by
  have huntil : untilOutput (calls ++ [last]) = untilOutput calls :=
    List.rdropWhile_concat_pos _ _ _ (by rw [h]; rfl)
  funext name
  rw [outputOf, huntil, lastOutput_append, h]
  rfl

/-- A call that sets an output sets it for the loggers that were asked for before. -/
theorem outputOf_append_of_some (hname : last.name? = none) (h : last.output? = some output) :
    registry.outputOf (calls ++ [last]) name =
      if name ∈ registry.asked calls then output else .standard := by
  have huntil : untilOutput (calls ++ [last]) = calls ++ [last] :=
    List.rdropWhile_concat_neg _ _ _ (by rw [h]; exact Bool.false_ne_true)
  have hasked : name ∈ registry.asked (calls ++ [last]) ↔ name ∈ registry.asked calls := by
    rw [mem_asked_append, hname]
    simp
  unfold outputOf
  rw [huntil, lastOutput_append, h]
  exact if_congr hasked rfl rfl

theorem outputOf_eq_lastOutput_iff :
    registry.outputOf calls name = lastOutput calls ↔
      lastOutput calls = .standard ∨ name ∈ registry.asked (untilOutput calls) := by
  unfold outputOf
  split
  · next hearly => simp [hearly]
  · next hlate => simp [hlate, eq_comm]

end Calls

/-! ## How calls end -/

section Outcomes

variable {registry : Registry} {level : Int} {name : Option String} {full : String}

/-- A sequence goes on from where its first part ended. -/
theorem outcome_bind_of_ok {α β : Type} {x : Logging α} {f : α → Logging β} {next : Registry}
    {a : α} (h : x.outcome registry = (.ok a, next)) : (x >>= f).outcome registry = (f a).outcome next :=
  run_bind_of_ok h

/-- The registry with a logger that is asked for and was not before. -/
def enroll (registry : Registry) (full : String) (level : Int) : Registry :=
  { (registry.ensure full).modifyIf (· == full) fun _ =>
      .withHandler full level Template.standard .standardError with
    obtained := registry.obtained ++ [full] }

theorem ensure_eq (registry : Registry) (full : String) :
    registry.ensure full = { registry with loggers := (registry.ensure full).loggers } := by
  unfold ensure
  split <;> rfl

/-- A logger that was asked for before is not changed. -/
theorem outcome_obtain_of_mem (h : fullName name ∈ registry.obtained) :
    ((Registry.obtain name).outcome registry).2 = registry := by
  have hknown : registry.obtained.contains (fullName name) = true := List.contains_iff_mem.mpr h
  unfold Registry.obtain
  rw [outcome_bind_of_ok (x := get) (a := registry) rfl, if_pos hknown]
  rfl

/-- A logger without handlers that is asked for the first time is set up. -/
theorem outcome_obtain_of_not_mem (hlevel : registry.level = .level level)
    (hnew : fullName name ∉ registry.obtained)
    (hbare : (((registry.ensure (fullName name)).find? (fullName name)).getD
      (.bare (fullName name))).handlers = []) :
    ((Registry.obtain name).outcome registry).2 = registry.enroll (fullName name) level := by
  have hknown : ¬ registry.obtained.contains (fullName name) = true := by simpa using hnew
  unfold Registry.obtain
  rw [outcome_bind_of_ok (x := get) (a := registry) rfl, if_neg hknown]
  dsimp only
  rw [outcome_bind_of_ok (x := modify fun registry => registry.ensure (fullName name)) rfl,
    outcome_bind_of_ok (x := get) (a := registry.ensure (fullName name)) rfl,
    hbare, if_pos List.isEmpty_nil, hlevel]
  unfold enroll
  rw [ensure_eq]
  rfl

/-- A level is set for all loggers that were asked for, with whatever else is changed of them. -/
theorem outcome_changeAll (registry : Registry) (level : Int) (f : Int → Logger → Logger) :
    ((changeAll (.level level) f).outcome registry).2 =
      { registry.modifyIf registry.obtained.contains (f level) with level := .level level } := by
  obtain ⟨loggers, obtained, choice⟩ := registry
  cases obtained with
  | nil =>
    -- the choice is not even looked at then, but there is nothing to change either
    have hnone : modifyIf ⟨loggers, [], choice⟩ ([] : List String).contains (f level) =
        ⟨loggers, [], choice⟩ := by
      simp [modifyIf]
    rw [hnone]
    rfl
  | cons first rest => rfl

/-- A template that is refused changes nothing. -/
theorem outcome_configure_of_error {choice : LevelChoice} {text : Option String} {stream : Stream}
    {fault : LoggingFault} (h : template? text = .error fault) :
    ((Registry.configure choice text stream).outcome registry).2 = registry := by
  unfold template? at h
  unfold Registry.configure
  dsimp only
  rw [h]
  rfl

theorem outcome_configure_of_ok {choice : LevelChoice} {text : Option String} {stream : Stream}
    {template : Template} (h : template? text = .ok template) :
    (Registry.configure choice text stream).outcome registry =
      (changeAll choice fun level logger =>
        logger.withOutput level template stream).outcome registry := by
  unfold template? at h
  unfold Registry.configure
  dsimp only
  rw [h]
  rfl

end Outcomes

/-! ## The invariant -/

/-- Every logger that was asked for is there and writes with a level, each to an output of its own. No
other logger has a handler. -/
structure Orderly (registry : Registry) (level : Int) (output : String → Output) : Prop where
  /-- Loggers that are asked for later get the level. -/
  level_eq : registry.level = .level level
  /-- Loggers that were asked for are there. -/
  exists_logger : ∀ name ∈ registry.obtained, ∃ logger ∈ registry.loggers, logger.name = name
  /-- They write with the level, and to their output. -/
  writes : ∀ logger ∈ registry.loggers, logger.name ∈ registry.obtained →
    logger.Writes level (output logger.name)
  /-- Other loggers write nothing themselves. -/
  handlers_eq_nil : ∀ logger ∈ registry.loggers, logger.name ∉ registry.obtained →
    logger.handlers = []

/-- No level, template or stream was set so far, and only the loggers that were asked for have a
handler. -/
def Pristine (registry : Registry) : Prop :=
  registry.Orderly LevelChoice.warning fun _ => .standard

section Steps

variable {registry : Registry} {level : Int} {output : String → Output} {full : String}

theorem mem_modifyIf {test : String → Bool} {f : Logger → Logger} {logger : Logger} :
    logger ∈ (registry.modifyIf test f).loggers ↔
      ∃ old ∈ registry.loggers, (if test old.name then f old else old) = logger :=
  List.mem_map

theorem mem_of_mem_ensure {logger : Logger} (h : logger ∈ (registry.ensure full).loggers) :
    logger ∈ registry.loggers ∨ logger = .bare full := by
  unfold ensure at h
  split at h
  · exact .inl h
  · simpa using h

theorem subset_ensure (registry : Registry) (full : String) :
    registry.loggers ⊆ (registry.ensure full).loggers := by
  unfold ensure
  split
  · exact List.Subset.refl _
  · exact List.subset_append_left _ _

theorem exists_mem_ensure (registry : Registry) (full : String) :
    ∃ logger ∈ (registry.ensure full).loggers, logger.name = full := by
  unfold ensure
  split
  · next logger hlogger =>
    exact ⟨logger, List.mem_of_find?_eq_some hlogger, by simpa using List.find?_some hlogger⟩
  · exact ⟨.bare full, List.mem_append_right _ List.mem_cons_self, rfl⟩

/-- A logger that was not asked for has no handlers when it is. -/
theorem Orderly.handlers_ensure (h : registry.Orderly level output) (hnew : full ∉ registry.obtained) :
    (((registry.ensure full).find? full).getD (.bare full)).handlers = [] := by
  cases hfind : (registry.ensure full).find? full with
  | none => rfl
  | some logger =>
    have hname : logger.name = full := by simpa using List.find?_some hfind
    rcases mem_of_mem_ensure (List.mem_of_find?_eq_some hfind) with hold | rfl
    · exact h.handlers_eq_nil logger hold (hname ▸ hnew)
    · rfl

/-- A logger is there after one was set up just if it is that one, or was there under another name. -/
theorem mem_enroll {logger : Logger} :
    logger ∈ (registry.enroll full level).loggers ↔
      logger = .withHandler full level Template.standard .standardError ∨
        logger ∈ registry.loggers ∧ logger.name ≠ full := by
  show logger ∈ ((registry.ensure full).modifyIf (· == full) fun _ =>
    .withHandler full level Template.standard .standardError).loggers ↔ _
  rw [mem_modifyIf]
  constructor
  · rintro ⟨old, hold, rfl⟩
    by_cases hname : old.name = full
    · exact .inl (by simp [hname])
    · rw [if_neg (by simpa using hname)]
      refine .inr ⟨(mem_of_mem_ensure hold).resolve_right fun hbare => hname ?_, hname⟩
      rw [hbare]
      rfl
  · rintro (rfl | ⟨hold, hname⟩)
    · obtain ⟨logger, hlogger, hname⟩ := registry.exists_mem_ensure full
      exact ⟨logger, hlogger, by simp [hname]⟩
    · exact ⟨logger, registry.subset_ensure full hold, by simp [hname]⟩

/-- A logger that is asked for the first time writes in the standard way, and others as before. -/
theorem Orderly.enroll (h : registry.Orderly level output) (hnew : full ∉ registry.obtained)
    (houtput : output full = .standard) : (registry.enroll full level).Orderly level output := by
  have hlevel : (registry.enroll full level).level = registry.level := by
    show (registry.ensure full).level = registry.level
    rw [ensure_eq]
  refine ⟨hlevel.trans h.level_eq, fun name hname => ?_, fun logger hlogger hname => ?_,
    fun logger hlogger hname => ?_⟩
  · rcases List.mem_append.mp hname with hold | hsame
    · obtain ⟨logger, hlogger, rfl⟩ := h.exists_logger name hold
      exact ⟨logger, mem_enroll.mpr (.inr ⟨hlogger, fun hfull => hnew (hfull ▸ hold)⟩), rfl⟩
    · exact ⟨.withHandler full level Template.standard .standardError, mem_enroll.mpr (.inl rfl),
        (List.mem_singleton.mp hsame).symm⟩
  · rcases mem_enroll.mp hlogger with rfl | ⟨hold, hother⟩
    · show Logger.Writes (.withHandler full level Template.standard .standardError) level (output full)
      rw [houtput]
      exact ⟨rfl, rfl⟩
    · refine h.writes logger hold ((List.mem_append.mp hname).resolve_right fun hsame => ?_)
      exact hother (List.mem_singleton.mp hsame)
  · rcases mem_enroll.mp hlogger with rfl | ⟨hold, -⟩
    · exact absurd (List.mem_append_right _ List.mem_cons_self) hname
    · exact h.handlers_eq_nil logger hold fun hmem => hname (List.mem_append_left _ hmem)

/-- When a level is set, what is changed of the loggers that were asked for is all that changes. -/
theorem Orderly.changeAll {next : Int} {f : Int → Logger → Logger} {output' : String → Output}
    (h : registry.Orderly level output) (hname : ∀ logger, (f next logger).name = logger.name)
    (hwrites : ∀ logger, logger.name ∈ registry.obtained →
      logger.Writes level (output logger.name) → (f next logger).Writes next (output' logger.name)) :
    ((Registry.changeAll (.level next) f).outcome registry).2.Orderly next output' := by
  rw [outcome_changeAll]
  refine ⟨rfl, fun name hmem => ?_, fun logger hlogger hmem => ?_, fun logger hlogger hmem => ?_⟩
  · obtain ⟨logger, hlogger, rfl⟩ := h.exists_logger name hmem
    refine ⟨f next logger, mem_modifyIf.mpr ⟨logger, hlogger, if_pos ?_⟩, hname logger⟩
    exact List.contains_iff_mem.mpr hmem
  · obtain ⟨old, hold, rfl⟩ := mem_modifyIf.mp hlogger
    by_cases hobtained : old.name ∈ registry.obtained
    · rw [if_pos (List.contains_iff_mem.mpr hobtained), hname]
      exact hwrites old hobtained (h.writes old hold hobtained)
    · rw [if_neg (by simpa using hobtained)] at hmem
      exact absurd hmem hobtained
  · obtain ⟨old, hold, rfl⟩ := mem_modifyIf.mp hlogger
    by_cases hobtained : old.name ∈ registry.obtained
    · rw [if_pos (List.contains_iff_mem.mpr hobtained), hname] at hmem
      exact absurd hobtained hmem
    · rw [if_neg (by simpa using hobtained)]
      exact h.handlers_eq_nil old hold hobtained

end Steps

/-! ## Runs -/

/-- A registry is as calls leave it that are made from a start. -/
structure Follows (start : Registry) (calls : List Call) (registry : Registry) : Prop where
  /-- Loggers write with the level that was set last, each to its output. -/
  orderly : registry.Orderly (lastLevel calls) (start.outputOf calls)
  /-- The loggers that were asked for are known. -/
  mem_obtained_iff : ∀ name, name ∈ registry.obtained ↔ name ∈ start.asked calls

section Runs

variable {start registry : Registry} {calls : List Call}

/-- A logger that is asked for gets the standard output, if it was not asked for before. -/
theorem Follows.obtain (h : start.Follows calls registry) (name : Option String) :
    start.Follows (calls ++ [.obtain name]) (registry.call (.obtain name)) := by
  obtain ⟨horderly, hmem⟩ := h
  have houtput : start.outputOf (calls ++ [.obtain name]) = start.outputOf calls :=
    outputOf_append_of_none rfl
  have hasked (other : String) : other ∈ start.asked (calls ++ [.obtain name]) ↔
      other ∈ registry.obtained ∨ fullName name = other := by
    rw [mem_asked_append, hmem, Call.name?, Option.some_inj]
  rw [Registry.call]
  by_cases hknown : fullName name ∈ registry.obtained
  · rw [outcome_obtain_of_mem hknown]
    refine ⟨?_, fun other => ?_⟩
    · rw [lastLevel_append, houtput]
      exact horderly
    · rw [hasked]
      exact ⟨.inl, fun hother => hother.elim id fun hsame => hsame ▸ hknown⟩
  · rw [outcome_obtain_of_not_mem horderly.level_eq hknown (horderly.handlers_ensure hknown)]
    refine ⟨?_, fun other => ?_⟩
    · rw [lastLevel_append, houtput]
      -- who was not asked for so far was not asked for before the output was set
      refine horderly.enroll hknown (if_neg fun huntil => hknown ?_)
      exact (hmem _).mpr (mem_asked_of_untilOutput huntil)
    · rw [hasked]
      show other ∈ registry.obtained ++ [fullName name] ↔ _
      rw [List.mem_append, List.mem_singleton, eq_comm]

/-- A level that is set leaves the outputs as they are. -/
theorem Follows.setLevel (h : start.Follows calls registry) (level : Int) :
    start.Follows (calls ++ [.setLevel (.level level)]) (registry.call (.setLevel (.level level))) := by
  obtain ⟨horderly, hmem⟩ := h
  have houtput : start.outputOf (calls ++ [.setLevel (.level level)]) = start.outputOf calls :=
    outputOf_append_of_none rfl
  refine ⟨?_, fun other => ?_⟩
  · rw [lastLevel_append, houtput]
    refine horderly.changeAll (fun logger => rfl) fun logger _ hwrites => ⟨rfl, ?_⟩
    show logger.handlers.map _ = _
    rw [hwrites.2]
    rfl
  · rw [mem_asked_append, or_iff_left nofun, ← hmem, Registry.call, Registry.setLevel,
      outcome_changeAll]
    rfl

/-- An output that is set is that of all loggers that were asked for so far. -/
theorem Follows.configure (h : start.Follows calls registry) (level : Int) (text : Option String)
    (stream : Stream) :
    start.Follows (calls ++ [.configure (.level level) text stream])
      (registry.call (.configure (.level level) text stream)) := by
  obtain ⟨horderly, hmem⟩ := h
  have hasked (other : String) :
      other ∈ start.asked (calls ++ [.configure (.level level) text stream]) ↔
        other ∈ registry.obtained := by
    rw [mem_asked_append, hmem]
    exact or_iff_left nofun
  rw [Registry.call]
  cases htemplate : template? text with
  | error fault =>
    have hnone : (Call.configure (.level level) text stream).output? = none := by
      rw [Call.output?, htemplate]
      rfl
    have hkeep : lastLevel (calls ++ [.configure (.level level) text stream]) = lastLevel calls := by
      rw [lastLevel_append, Call.level?, htemplate]
      rfl
    rw [outcome_configure_of_error htemplate]
    refine ⟨?_, fun other => (hasked other).symm⟩
    rw [hkeep, outputOf_append_of_none hnone]
    exact horderly
  | ok template =>
    have hsome : (Call.configure (.level level) text stream).output? = some (template, stream) := by
      rw [Call.output?, htemplate]
      rfl
    have hnext : lastLevel (calls ++ [.configure (.level level) text stream]) = level := by
      rw [lastLevel_append, Call.level?, htemplate]
      rfl
    rw [outcome_configure_of_ok htemplate]
    refine ⟨?_, fun other => ?_⟩
    · rw [hnext]
      refine horderly.changeAll (fun logger => rfl) fun logger hobtained _ => ⟨rfl, ?_⟩
      rw [outputOf_append_of_some rfl hsome, if_pos ((hmem _).mp hobtained)]
      rfl
    · rw [hasked, outcome_changeAll]
      rfl

/-- A call leaves the registry as the calls with it do. -/
theorem Follows.call (h : start.Follows calls registry) {last : Call} (hlevel : last.HasLevel) :
    start.Follows (calls ++ [last]) (registry.call last) := by
  cases last with
  | obtain name => exact h.obtain name
  | setLevel choice =>
    obtain ⟨level, rfl⟩ := hlevel
    exact h.setLevel level
  | configure choice text stream =>
    obtain ⟨level, rfl⟩ := hlevel
    exact h.configure level text stream

/-- Calls leave the registry as they say, one after the other. -/
theorem follows_after (hstart : start.Pristine) (hlevels : ∀ call ∈ calls, call.HasLevel) :
    start.Follows calls (start.after calls) := by
  -- the last call decides, so the calls are taken from their end
  induction calls using List.reverseRecOn with
  | nil =>
    have houtput : start.outputOf [] = fun _ => .standard := funext fun name => ite_self _
    refine ⟨?_, fun name => ?_⟩
    · rw [houtput]
      exact hstart
    · rw [asked, List.filterMap_nil, List.append_nil]
      rfl
  | append_singleton calls last ih =>
    rw [after_append]
    have hbefore := ih fun call hcall => hlevels call (List.mem_append_left _ hcall)
    exact hbefore.call (hlevels last (List.mem_append_right _ List.mem_cons_self))

/-- Every logger that was asked for writes with the level that was set last, to its output. -/
theorem exists_writes_after (hstart : start.Pristine) (hlevels : ∀ call ∈ calls, call.HasLevel)
    {name : String} (hname : name ∈ start.asked calls) :
    ∃ logger, (start.after calls).find? name = some logger ∧
      logger.Writes (lastLevel calls) (start.outputOf calls name) := by
  obtain ⟨horderly, hmem⟩ := follows_after hstart hlevels
  have hobtained : name ∈ (start.after calls).obtained := (hmem name).mpr hname
  obtain ⟨logger, hfind⟩ : ∃ logger, (start.after calls).find? name = some logger := by
    obtain ⟨logger, hlogger, hsame⟩ := horderly.exists_logger name hobtained
    exact Option.isSome_iff_exists.mp (List.find?_isSome.mpr ⟨logger, hlogger, by simpa using hsame⟩)
  have hsame : logger.name = name := by simpa using List.find?_some hfind
  refine ⟨logger, hfind, ?_⟩
  rw [← hsame]
  exact horderly.writes logger (List.mem_of_find?_eq_some hfind) (hsame ▸ hobtained)

/-- Every logger that was asked for has one handler, and writes with the level and to the output that
were set last. -/
def Uniform (start : Registry) (calls : List Call) : Prop :=
  ∀ name ∈ start.asked calls, ∃ logger, (start.after calls).find? name = some logger ∧
    logger.Writes (lastLevel calls) (lastOutput calls)

end Runs

/-! ## The library at its start -/

theorem pristine_start : start.Pristine := by
  refine ⟨rfl, ?_, ?_, ?_⟩ <;> decide +kernel

end Registry

end QuditSim
