import Mathlib.Tactic.NormNum
import QuditSim.Proofs.Engine.Stages
import QuditSim.Proofs.Exact

/-!
# What a failing step leaves behind

A step resolves its qudits before it changes anything, but it can fail after that: noise may have
acted already, a gate may have acted on some of its targets, and the norm is checked after a gate or
a measurement was taken over. `Engine.Writes` says that a step writes into its engine whether or not
it then fails.

- `Engine.leaves_performGate` and `Engine.leaves_performMeasurement`: what a gate and a measurement
  write, however they end.
- `Engine.ends_prepare_writes`: what noise writes before a step.
- `Engine.failing_unchanged_iff`: a step that fails leaves its engine unchanged exactly when it does
  not write. `Engine.failing_changed_doubling` is one that fails and writes.
-/

namespace QuditSim

namespace Engine

open Execution Fallible

variable {S R : Type}

/-- An engine agrees with one before in all that a step may write. -/
structure Unchanged (before after : Engine S R) : Prop where
  /-- The state is the same. -/
  state_eq : after.state = before.state
  /-- The dits have the same values. -/
  dits_eq : after.dits = before.dits
  /-- They were written with the same probabilities. -/
  probs_eq : after.probs = before.probs
  /-- The qudits are at the same positions. -/
  layout_eq : after.layout = before.layout
  /-- The same branches of noise are recorded. -/
  noise_eq : after.noiseBranches? = before.noiseBranches?

theorem Unchanged.refl (engine : Engine S R) : Unchanged engine engine := ⟨rfl, rfl, rfl, rfl, rfl⟩

/-- An engine with another record than before has been changed. -/
theorem not_unchanged_of_noise_ne {before after : Engine S R}
    (h : after.noiseBranches? ≠ before.noiseBranches?) : ¬ Unchanged before after :=
  fun hsame => h hsame.noise_eq

/-- The state after the maps of a list, up to the first one that refuses. -/
def reached : List (StateMap R) → StateVector R → StateVector R
  | [], state => state
  | map :: rest, state =>
    match map state with
    | .ok state' => reached rest state'
    | .error _ => state

section Writing

variable [Scalar S] [Scalar R] [Rounding S R] [Rounding R S]

/-- A measurement finds an outcome. -/
def Finds (checking : Bool) (c : Circuit S) (engine : Engine S R) (draws : Draws S)
    (step : MeasureStep) (targets : List Int) : Prop :=
  match step.kind with
  | .none => False
  | .standard => ∃ found draws',
    (engine.state.measureSequential checking (targets.map .int) (.nat c.dim)).run.run draws =
      (.ok found, draws')
  | .basis | .jointBasis => ∃ key basis found draws', step.keys.head? = some key ∧
    operandOf c key = .ok basis ∧
      (engine.state.measure checking (Rounding.round basis) (targets.map .int)
        (.nat c.dim)).run.run draws = (.ok found, draws')

/-- A gate or a measurement writes: the state that a gate reaches is another one, or a measurement
finds an outcome. -/
def Task.Writes (checking : Bool) (c : Circuit S) (engine : Engine S R) (draws : Draws S) :
    Task → Prop
  | .gate step controls targets => ∃ maps,
    gateMaps checking c engine.dits step controls targets = .ok maps ∧
      reached maps engine.state ≠ engine.state
  | .measurement step targets => Finds checking c engine draws step targets

/-- Noise writes: its record is extended to the step, or it acts on the first live qudit. -/
def NoiseWrites (model : NoiseModel S) (branches : List (List Nat)) (engine : Engine S R)
    (draws : Draws S) (ip : Int) : Prop :=
  branches.length ≤ ip ∨ (placeOf? ip branches.length).isSome ∧
    ∃ position rest found draws', engine.layout.livePositions = position :: rest ∧
      (model.apply engine.state position).run.run draws = (.ok found, draws')

/-- A step whose qudits are found writes: its noise does or, without noise, what it carries out
does. -/
def Writes (checking : Bool) (c : Circuit S) (engine : Engine S R) (draws : Draws S)
    (view : StepView) : Prop :=
  view.origin = engine.serial ∧ ∃ task, engine.resolve view = .ok task ∧
    match engine.preStep with
    | .nothing => task.Writes checking c engine draws
    | .hook .. => True
    | .noise model branches => NoiseWrites model branches engine draws view.ip

end Writing

/-! ## Steps without qudits -/

section WithoutQudits

variable [Scalar S] [Scalar R] [Rounding S R]

/-- An act without targets is refused. -/
theorem kernel_nil (checking : Bool) (c : Circuit S) (op : Operator S) (controls : List Int)
    (state : StateVector R) :
    (∃ fault, (Act.plain op []).kernel checking c state = .error fault) ∧
      ∃ fault, (Act.controlled op controls []).kernel checking c state = .error fault := by
  -- Both kinds of acts come to this: the state has to be one of some number of qudits, and then an
  -- operator on no qudits is refused.
  have happly (dim : Argument) (op : Operator R) :
      ∃ fault, state.apply checking op [] dim = .error fault := by
    unfold StateVector.apply
    cases StateVector.quditCount state.size dim with
    | error fault => exact ⟨fault, rfl⟩
    | ok n => exact ⟨_, rfl⟩
  refine ⟨happly _ _, ?_⟩
  show ∃ fault, state.applyControlled checking (Rounding.round op) (controls.map .int) []
    (.nat c.dim) = .error fault
  unfold StateVector.applyControlled
  cases controls with
  | nil =>
    obtain ⟨fault, hfault⟩ := happly (.nat c.dim) (Rounding.round op)
    exact ⟨fault, hfault⟩
  | cons control rest =>
    show ∃ fault, (StateVector.quditCount state.size (.nat c.dim) >>= _) = _
    cases StateVector.quditCount state.size (.nat c.dim) with
    | error fault => exact ⟨fault, rfl⟩
    | ok n => exact ⟨_, rfl⟩

/-- The acts of a gate without targets have none. -/
theorem acts_nil {c : Circuit S} {dits : List Nat} {step : GateStep} {controls : List Int}
    {list : List (Act S)} (h : acts c dits step controls [] = .ok list) :
    ∀ act ∈ list, ∃ op, act = .plain op [] ∨ act = .controlled op controls [] := by
  have hclassical {op : Operator S} {values : List Nat} {list : List (Act S)}
      (h : classicalActs op values [] = .ok list) :
      ∀ act ∈ list, ∃ op, act = .plain op [] ∨ act = .controlled op controls [] := by
    have hsingle (op : Operator S) : ∀ act ∈ [Act.plain op []],
        ∃ op, act = .plain op [] ∨ act = .controlled op controls [] :=
      fun act hact => ⟨op, .inl (List.mem_singleton.mp hact)⟩
    unfold classicalActs at h
    split at h
    · cases h
      exact hsingle op
    · split at h
      · cases h
        exact fun act hact => absurd hact List.not_mem_nil
      · split at h
        · cases h
          exact hsingle _
        · cases h
  have hquantum (h : (do
      let op ← jointOperand c step 0
      return [Act.controlled op controls []]) = Except.ok list) :
      ∀ act ∈ list, ∃ op, act = .plain op [] ∨ act = .controlled op controls [] := by
    obtain ⟨op, -, h⟩ := bind_eq_ok.mp h
    cases h
    exact fun act hact => ⟨op, .inr (List.mem_singleton.mp hact)⟩
  have hdits (h : (do
      let op ← jointOperand c step 0
      let values ← ditValues dits controls
      classicalActs op values []) = Except.ok list) :
      ∀ act ∈ list, ∃ op, act = .plain op [] ∨ act = .controlled op controls [] := by
    obtain ⟨op, -, h⟩ := bind_eq_ok.mp h
    obtain ⟨values, -, h⟩ := bind_eq_ok.mp h
    exact hclassical h
  unfold acts at h
  cases hkind : step.kind with
  | none | fourier | inverseFourier =>
    rw [hkind] at h
    cases h
    exact fun act hact => absurd hact List.not_mem_nil
  | single | two | three | custom =>
    rw [hkind] at h
    obtain ⟨op, -, h⟩ := bind_eq_ok.mp h
    cases h
    exact fun act hact => ⟨op, .inl (List.mem_singleton.mp hact)⟩
  | fan =>
    rw [hkind] at h
    obtain ⟨op, -, h⟩ := bind_eq_ok.mp h
    cases h
    exact fun act hact => absurd hact List.not_mem_nil
  | controlled control controlExtent targetExtent =>
    rw [hkind] at h
    cases control with
    | quantum => exact hquantum h
    | classical => exact hdits h
  | controlledCustom control =>
    rw [hkind] at h
    cases control with
    | quantum => exact hquantum h
    | classical => exact hdits h

/-- A gate without targets reaches no other state. -/
theorem reached_nil {checking : Bool} {c : Circuit S} {dits : List Nat} {step : GateStep}
    {controls : List Int} {maps : List (StateMap R)}
    (h : gateMaps checking c dits step controls [] = .ok maps) (state : StateVector R) :
    reached maps state = state := by
  rw [gateMaps_eq, map_eq_ok] at h
  obtain ⟨list, hlist, rfl⟩ := h
  -- the first act is refused, so the others are not reached
  cases list with
  | nil => rfl
  | cons act list =>
    obtain ⟨op, hact⟩ := acts_nil hlist act List.mem_cons_self
    obtain ⟨fault, hfault⟩ : ∃ fault, act.kernel checking c state = .error fault := by
      rcases hact with rfl | rfl
      · exact (kernel_nil checking c op controls state).1
      · exact (kernel_nil checking c op controls state).2
    rw [List.map_cons]
    unfold reached
    rw [hfault]

end WithoutQudits

/-! ## Gates and measurements -/

section Tasks

/-- What was written by a task that started from an engine. -/
def Wrote (before : Engine S R) (writes : Prop) (run : Run S R) : Prop :=
  run.engine.noiseBranches? = before.noiseBranches? ∧ (Unchanged before run.engine ↔ ¬ writes)

/-- Passing the state through maps leaves it where they reach. -/
theorem leaves_passThrough (maps : List (StateMap R)) (run : Run S R) :
    Leaves (maps.forM passThrough) run fun run' =>
      run'.engine = { run.engine with state := reached maps run.engine.state } := by
  unfold Leaves
  induction maps generalizing run with
  | nil => rfl
  | cons map rest ih =>
    show Ends (passThrough map >>= fun _ => rest.forM passThrough) run _ _
    rw [ends_bind, ends_passThrough]
    unfold reached
    cases map run.engine.state with
    | error fault => rfl
    | ok state => exact ih _

/-- An engine with another state is unchanged just if the state is the same. -/
theorem unchanged_withState_iff {engine : Engine S R} {state : StateVector R} :
    Unchanged engine { engine with state := state } ↔ state = engine.state :=
  ⟨fun h => h.state_eq, fun h => h ▸ Unchanged.refl engine⟩

/-- Taking over an outcome leaves the state that remains, even if there is no such dit. -/
theorem leaves_record (step : MeasureStep) (ip : Int) (state : StateVector R) (outcome : Nat)
    (prob : S) (run : Run S R) :
    Leaves (record step ip state outcome prob) run fun run' =>
      run'.engine.noiseBranches? = run.engine.noiseBranches? ∧ run'.engine.state = state := by
  unfold Leaves record writeDit retire
  rw [ends_bind, ends_update, ends_bind, ends_bind, ends_current]
  cases placeOf? step.dit run.engine.dits.length with
  | none => exact ⟨rfl, rfl⟩
  | some place =>
    dsimp only
    rw [ends_update, ends_bind, ends_current]
    dsimp only
    rw [ends_bind, ends_update]
    split
    · exact ⟨rfl, rfl⟩
    · exact ⟨rfl, rfl⟩

/-- An engine that nothing was written into. -/
theorem wrote_of_eq {before : Engine S R} {writes : Prop} {run : Run S R}
    (hengine : run.engine = before) (hnot : ¬ writes) : Wrote before writes run :=
  ⟨hengine ▸ rfl, fun _ => hnot, fun _ => hengine ▸ Unchanged.refl _⟩

/-- An engine whose state became smaller was written into. -/
theorem wrote_of_size_lt {before : Engine S R} {writes : Prop} {run : Run S R}
    (hnoise : run.engine.noiseBranches? = before.noiseBranches?)
    (hsize : run.engine.state.size < before.state.size) (hwrites : writes) :
    Wrote before writes run := by
  refine ⟨hnoise, fun hsame => ?_, fun hnot => absurd hwrites hnot⟩
  rw [hsame.state_eq] at hsize
  exact absurd hsize (Nat.lt_irrefl _)

/-- Taking over an outcome with a smaller state writes, even if there is no such dit. -/
theorem leaves_record_tell {step : MeasureStep} {ip : Int} {state : StateVector R} {outcome : Nat}
    {prob : S} {text : String} {run : Run S R} {draws : Draws S} {writes : Prop}
    (hsize : state.size < run.engine.state.size) (hwrites : writes) :
    Leaves (record step ip state outcome prob >>= fun _ => tell Event.engineLogger text)
      { run with draws := draws } (Wrote run.engine writes) := by
  have hwrote {run' : Run S R}
      (h : run'.engine.noiseBranches? = run.engine.noiseBranches? ∧ run'.engine.state = state) :
      Wrote run.engine writes run' :=
    wrote_of_size_lt h.1 (h.2 ▸ hsize) hwrites
  unfold Leaves
  rw [ends_bind]
  refine (leaves_record step ip state outcome prob _).mono (fun _ run' h => ?_)
    fun _ run' h => hwrote h
  rw [ends_tell]
  exact hwrote h

variable [Scalar S] [Scalar R] [Rounding S R] [Rounding R S]

/-- A gate writes the state that it reaches. -/
theorem leaves_performGate (checking : Bool) (c : Circuit S) (ip : Int) (step : GateStep)
    (controls targets : List Int) (run : Run S R) :
    Leaves (performGate checking c ip step controls targets) run (Wrote run.engine
      ((Task.gate step controls targets).Writes checking c run.engine run.draws)) := by
  unfold Leaves performGate
  rw [ends_bind, ends_current, ends_bind, ends_lift]
  cases hmaps : (gateMaps checking c run.engine.dits step controls targets :
    Except EngineFault (List (StateMap R))) with
  | error fault =>
    refine wrote_of_eq rfl fun hwrites => ?_
    obtain ⟨maps, hok, -⟩ := hwrites
    rw [hmaps] at hok
    cases hok
  | ok maps =>
    -- maps change the state only, so the engine is unchanged just if they reach the same state
    have hreached {run' : Run S R} (h : run'.engine =
        { run.engine with state := reached maps run.engine.state }) : Wrote run.engine
        ((Task.gate step controls targets).Writes checking c run.engine run.draws) run' := by
      refine ⟨by rw [h]; rfl, ?_⟩
      rw [h, unchanged_withState_iff]
      constructor
      · rintro hsame ⟨maps', hok, hne⟩
        rw [hmaps] at hok
        cases hok
        exact hne hsame
      · intro hnot
        by_contra hne
        exact hnot ⟨maps, hmaps, hne⟩
    dsimp only
    rw [ends_bind, ends_tellAll]
    exact (leaves_passThrough maps _).mono (fun _ _ h => hreached h) fun _ _ h => hreached h

section Finding

variable {checking : Bool} {c : Circuit S} {step : MeasureStep} {targets : List Int}

theorem finds_standard_iff {engine : Engine S R} {draws : Draws S} (h : step.kind = .standard) :
    Finds checking c engine draws step targets ↔ ∃ found draws',
      (engine.state.measureSequential checking (targets.map .int) (.nat c.dim)).run.run draws =
        (.ok found, draws') := by
  unfold Finds
  rw [h]

theorem finds_inBasis_iff {engine : Engine S R} {draws : Draws S}
    (h : step.kind = .basis ∨ step.kind = .jointBasis) :
    Finds checking c engine draws step targets ↔
      ∃ key basis found draws', step.keys.head? = some key ∧ operandOf c key = .ok basis ∧
        (engine.state.measure checking (Rounding.round basis) (targets.map .int)
          (.nat c.dim)).run.run draws = (.ok found, draws') := by
  unfold Finds
  rcases h with h | h
  · rw [h]
  · rw [h]

/-- A measurement of digits writes if it finds them. -/
theorem leaves_measureStandard (hd : 2 ≤ c.dim) (ip : Int) (run : Run S R)
    (hkind : step.kind = .standard) :
    Leaves (performMeasurement checking c ip step targets) run
      (Wrote run.engine (Finds checking c run.engine run.draws step targets)) := by
  unfold Leaves performMeasurement
  rw [ends_bind, ends_current, hkind]
  dsimp only
  rw [ends_bind, ends_drawing]
  split
  · next found draws hfound =>
    exact leaves_record_tell (StateVector.size_measureSequential hd hfound).2
      ((finds_standard_iff hkind).mpr ⟨found, draws, hfound⟩)
  · next fault draws hfault =>
    refine wrote_of_eq rfl fun hfinds => ?_
    obtain ⟨found, draws', hfound⟩ := (finds_standard_iff hkind).mp hfinds
    rw [hfault] at hfound
    cases hfound

/-- A measurement in a basis of its own writes if there is the basis and it finds a column. -/
theorem leaves_measureInBasis (hd : 2 ≤ c.dim) (ip : Int) (run : Run S R)
    (hkind : step.kind = .basis ∨ step.kind = .jointBasis) :
    Leaves (performMeasurement checking c ip step targets) run
      (Wrote run.engine (Finds checking c run.engine run.draws step targets)) := by
  have hfinds : Finds checking c run.engine run.draws step targets ↔ _ := finds_inBasis_iff hkind
  unfold Leaves
  rw [performMeasurement_eq_inBasis hkind, ends_bind, ends_current]
  unfold inBasis
  cases hhead : step.keys.head? with
  | none =>
    refine wrote_of_eq rfl fun hwrites => ?_
    obtain ⟨key, -, -, -, hkey, -⟩ := hfinds.mp hwrites
    rw [hhead] at hkey
    cases hkey
  | some key =>
    dsimp only
    rw [ends_bind, ends_lift]
    cases hbasis : operandOf c key with
    | error fault =>
      refine wrote_of_eq rfl fun hwrites => ?_
      obtain ⟨key', basis, -, -, hkey, hok, -⟩ := hfinds.mp hwrites
      rw [hhead] at hkey
      cases hkey
      rw [hbasis] at hok
      cases hok
    | ok basis =>
      dsimp only
      rw [ends_bind, ends_drawing]
      split
      · next found draws hfound =>
        exact leaves_record_tell (StateVector.size_measure hd hfound).2
          (hfinds.mpr ⟨key, basis, found, draws, hhead, hbasis, hfound⟩)
      · next fault draws hfault =>
        refine wrote_of_eq rfl fun hwrites => ?_
        obtain ⟨key', basis', found, draws', hkey, hok, hfound⟩ := hfinds.mp hwrites
        rw [hhead] at hkey
        cases hkey
        rw [hbasis] at hok
        cases hok
        rw [hfault] at hfound
        cases hfound

end Finding

/-- A measurement writes if it finds an outcome. -/
theorem leaves_performMeasurement {checking : Bool} {c : Circuit S} (hd : 2 ≤ c.dim) (ip : Int)
    (step : MeasureStep) (targets : List Int) (run : Run S R) :
    Leaves (performMeasurement checking c ip step targets) run (Wrote run.engine
      ((Task.measurement step targets).Writes checking c run.engine run.draws)) := by
  cases hkind : step.kind with
  | none =>
    unfold Leaves performMeasurement
    rw [ends_bind, ends_current, hkind]
    refine wrote_of_eq rfl fun hwrites => ?_
    have hfinds : Finds checking c run.engine run.draws step targets := hwrites
    unfold Finds at hfinds
    rw [hkind] at hfinds
    exact hfinds
  | standard => exact leaves_measureStandard hd ip run hkind
  | basis => exact leaves_measureInBasis hd ip run (.inl hkind)
  | jointBasis => exact leaves_measureInBasis hd ip run (.inr hkind)

end Tasks

/-! ## Noise -/

section Noise

theorem placeOf?_lt {i : Int} {n place : Nat} (h : placeOf? i n = some place) : place < n := by
  unfold placeOf? at h
  split at h
  · split at h
    · cases h
      omega
    · cases h
  · split at h
    · cases h
      omega
    · cases h

/-- A record that reaches to the place of a step is not extended. -/
theorem extendedTo_of_lt {ip : Int} {branches : List (List Nat)} (h : ip < branches.length) :
    extendedTo ip branches = branches := by
  have hzero : (ip + 1 - branches.length).toNat = 0 := by omega
  rw [extendedTo, hzero, List.replicate_zero, List.append_nil]

/-- An extended record is longer. -/
theorem length_extendedTo {ip : Int} {branches : List (List Nat)} (h : branches.length ≤ ip) :
    branches.length < (extendedTo ip branches).length := by
  rw [extendedTo, List.length_append, List.length_replicate]
  omega

/-- A branch is added to the list at its place. -/
theorem length_getD_addBranch {branches : List (List Nat)} {place : Nat}
    (hplace : place < branches.length) (branch : Nat) :
    ((addBranch branches place branch).getD place []).length =
      (branches.getD place []).length + 1 := by
  unfold addBranch
  rw [List.getD_eq_getElem?_getD, List.getElem?_modify_eq, List.getElem?_eq_getElem hplace]
  rw [List.getD_eq_getElem?_getD, List.getElem?_eq_getElem hplace]
  exact List.length_append

theorem length_addBranch (branches : List (List Nat)) (place branch : Nat) :
    (addBranch branches place branch).length = branches.length :=
  List.length_modify ..

variable [Scalar S] [Scalar R] [Rounding S R] [Rounding R S]

/-- Noise adds to its record at one place, and writes nothing else until it is done. -/
theorem leaves_noiseOn {place k : Nat} {positions : List Nat} {state : StateVector R}
    {run : Run S R} {model : NoiseModel S} {branches : List (List Nat)}
    (hpre : run.engine.preStep = .noise model branches) (hplace : place < branches.length)
    (hk : k ≤ (branches.getD place []).length) :
    Leaves (noiseOn place positions state) run fun run' => ∃ branches',
      run'.engine.noiseBranches? = some branches' ∧ branches'.length = branches.length ∧
        k ≤ (branches'.getD place []).length := by
  unfold Leaves
  -- the induction is on the positions, and the record has its length and its bound at each of them
  induction positions generalizing run state model branches with
  | nil => exact ⟨branches, noiseBranches?_of_noise hpre, rfl, hk⟩
  | cons position rest ih =>
    unfold noiseOn
    rw [ends_bind, ends_current, hpre]
    dsimp only
    rw [ends_bind, ends_drawing]
    split
    · next found draws hfound =>
      obtain ⟨model', state'⟩ := found
      dsimp only
      rw [ends_bind, ends_update, ends_bind, ends_tellAll]
      have hlength := length_addBranch branches place model'.lastBranch
      rw [← hlength]
      refine ih rfl (hlength.symm ▸ hplace) ?_
      -- the list at the place grows with every branch, so it keeps its bound
      rw [length_getD_addBranch hplace]
      exact Nat.le_succ_of_le hk
    · exact ⟨branches, noiseBranches?_of_noise hpre, rfl, hk⟩

/-- Only a place before the start of a record is none of the extended one. -/
theorem lt_of_placeOf?_extendedTo {ip : Int} {branches : List (List Nat)}
    (h : placeOf? ip (extendedTo ip branches).length = none) : ip < branches.length := by
  by_contra hle
  have hlength := length_extendedTo (Int.not_lt.mp hle)
  unfold placeOf? at h
  split at h
  · split at h
    · cases h
    · simp only [extendedTo, List.length_append, List.length_replicate] at *
      omega
  · omega

/-- Noise has no place to write to before the start of its record. -/
theorem not_noiseWrites_of_none {model : NoiseModel S} {branches : List (List Nat)}
    {engine : Engine S R} {draws : Draws S} {ip : Int}
    (h : placeOf? ip (extendedTo ip branches).length = none) :
    ¬ NoiseWrites model branches engine draws ip := by
  have hlt := lt_of_placeOf?_extendedTo h
  rw [extendedTo_of_lt hlt] at h
  rintro (hle | ⟨hplaced, -⟩)
  · exact absurd hlt (Int.not_lt.mpr hle)
  · rw [h] at hplaced
    cases hplaced

/-- Noise that has a place writes if it extends its record or acts on the first live qudit. -/
theorem noiseWrites_iff {model : NoiseModel S} {branches : List (List Nat)} {engine : Engine S R}
    {draws : Draws S} {ip : Int} {place : Nat}
    (h : placeOf? ip (extendedTo ip branches).length = some place) :
    NoiseWrites model branches engine draws ip ↔ branches.length ≤ ip ∨
      ∃ position rest found draws', engine.layout.livePositions = position :: rest ∧
        (model.apply engine.state position).run.run draws = (.ok found, draws') := by
  refine or_congr_right' fun hle => ?_
  rw [extendedTo_of_lt (Int.not_le.mp hle)] at h
  rw [h]
  exact and_iff_right rfl

/-- Noise that lets a step go on wrote, or there is no live qudit and nothing changed; and noise
that fails leaves the engine unchanged just if it did not write. -/
theorem ends_prepare_writes {checking : Bool} {view : StepView} {run : Run S R}
    {model : NoiseModel S} {branches : List (List Nat)}
    (hpre : run.engine.preStep = .noise model branches) :
    Ends (prepare checking view) run
      (fun _ run' =>
        NoiseWrites model branches run.engine run.draws view.ip ∧
            run'.engine.noiseBranches? ≠ run.engine.noiseBranches? ∨
          ¬ NoiseWrites model branches run.engine run.draws view.ip ∧
            run.engine.layout.livePositions = [] ∧ run'.engine = run.engine ∧
              run'.draws = run.draws)
      fun _ run' => Unchanged run.engine run'.engine ↔
        ¬ NoiseWrites model branches run.engine run.draws view.ip := by
  have hnoise := noiseBranches?_of_noise hpre
  have hsame (h : view.ip < branches.length) :
      ({ run.engine with preStep := .noise model (extendedTo view.ip branches) } : Engine S R) =
        run.engine := by
    rw [extendedTo_of_lt h, ← hpre]
  have hchanged {engine : Engine S R} {branches' : List (List Nat)}
      (h : engine.noiseBranches? = some branches') (hne : branches' ≠ branches) :
      engine.noiseBranches? ≠ run.engine.noiseBranches? := by
    rw [h, hnoise]
    exact fun heq => hne (Option.some.inj heq)
  have hextended (h : branches.length ≤ view.ip) : extendedTo view.ip branches ≠ branches :=
    fun heq => Nat.ne_of_gt (length_extendedTo h) (congrArg List.length heq)
  unfold prepare injectNoise
  rw [ends_bind, ends_current, hpre]
  dsimp only
  rw [ends_bind, ends_update]
  cases hplace : placeOf? view.ip (extendedTo view.ip branches).length with
  | none =>
    refine iff_of_true ?_ (not_noiseWrites_of_none hplace)
    show Unchanged run.engine
      { run.engine with preStep := .noise model (extendedTo view.ip branches) }
    rw [hsame (lt_of_placeOf?_extendedTo hplace)]
    exact .refl _
  | some place =>
    have hplaced := placeOf?_lt hplace
    have hiff : NoiseWrites model branches run.engine run.draws view.ip ↔ _ :=
      noiseWrites_iff hplace
    dsimp only
    rw [ends_bind, ends_current, ends_bind]
    cases hlive : run.engine.layout.livePositions with
    | nil =>
      unfold noiseOn
      rw [ends_pure, ends_bind, ends_current, ends_bind, ends_tell, ends_update]
      by_cases hle : branches.length ≤ view.ip
      · exact .inl ⟨hiff.mpr (.inl hle), hchanged rfl (hextended hle)⟩
      · refine .inr ⟨?_, rfl, hsame (Int.not_le.mp hle), rfl⟩
        rw [hiff]
        rintro (h | ⟨position, rest, -, -, hpositions, -⟩)
        · exact hle h
        · rw [hlive] at hpositions
          cases hpositions
    | cons position rest =>
      unfold noiseOn
      rw [ends_bind, ends_current]
      dsimp only
      rw [ends_bind, ends_drawing]
      dsimp only
      split
      · next found draws hfound =>
        -- the first branch is recorded, so the record is another one from here on
        obtain ⟨model', state⟩ := found
        have hwrites : NoiseWrites model branches run.engine run.draws view.ip :=
          hiff.mpr (.inr ⟨position, rest, _, draws, hlive, hfound⟩)
        have hother {engine : Engine S R} (h : ∃ branches', engine.noiseBranches? = some branches' ∧
            branches'.length = (addBranch (extendedTo view.ip branches) place
              model'.lastBranch).length ∧
            ((extendedTo view.ip branches).getD place []).length + 1 ≤
              (branches'.getD place []).length) :
            engine.noiseBranches? ≠ run.engine.noiseBranches? := by
          -- either the record was extended, or the list at the place is longer than before
          obtain ⟨branches', hbranches, hlength, hgrown⟩ := h
          rw [length_addBranch] at hlength
          refine hchanged hbranches ?_
          rintro rfl
          by_cases hle : (branches'.length : Int) ≤ view.ip
          · exact absurd hlength (Nat.ne_of_lt (length_extendedTo hle))
          · rw [extendedTo_of_lt (Int.not_le.mp hle)] at hgrown
            exact absurd hgrown (Nat.not_succ_le_self _)
        dsimp only
        rw [ends_bind, ends_update, ends_bind, ends_tellAll]
        refine (leaves_noiseOn (k := ((extendedTo view.ip branches).getD place []).length + 1) rfl
          (by rwa [length_addBranch]) (length_getD_addBranch hplaced _).ge).mono
          (fun _ run' h => ?_) fun _ run' h => ?_
        · rw [ends_bind, ends_current, ends_bind, ends_tell, ends_update]
          exact .inl ⟨hwrites, hother h⟩
        · exact iff_of_false (not_unchanged_of_noise_ne (hother h)) (not_not_intro hwrites)
      · next fault draws hfault =>
        -- nothing was drawn, so all that can have been written is the longer record
        by_cases hle : (branches.length : Int) ≤ view.ip
        · exact iff_of_false (not_unchanged_of_noise_ne (hchanged rfl (hextended hle)))
            (not_not_intro (hiff.mpr (.inl hle)))
        · refine iff_of_true ?_ ?_
          · show Unchanged run.engine
              { run.engine with preStep := .noise model (extendedTo view.ip branches) }
            rw [hsame (Int.not_le.mp hle)]
            exact .refl _
          · rw [hiff]
            rintro (h | ⟨position', rest', found, draws', hpositions, hfound⟩)
            · exact hle h
            · rw [hlive] at hpositions
              cases hpositions
              rw [hfault] at hfound
              cases hfound

end Noise

/-! ## A circuit that is not unitary -/

section Doubling

/-- The operator that doubles the first amplitude of a qubit. -/
noncomputable def doubling : Operator ℝ := ⟨[2, 2], #[⟨2, 0⟩, 0, 0, 1], rfl⟩

/-- The circuit that doubles the first amplitude of its qubit. -/
noncomputable def doublingCircuit : Circuit ℝ :=
  (Circuit.empty 0 1 1 2 "" (fun _ => "") fun _ => 0).attemptAll
    [.gate (.operator doubling) [.int 0] ""]

/-- A new engine that checks the norm after each step. -/
noncomputable def checkingEngine : Engine ℝ ℝ :=
  start doublingCircuit { checkNormalization := true } .nothing

/-- The step of the circuit. -/
def doublingStep : GateStep := ⟨.single, 0, [], [0], ""⟩

section

attribute [local instance] Capacity.common

theorem reachable_checkingEngine : Reachable doublingCircuit checkingEngine := by
  have hcreate : Circuit.create? 0 (.int 1) (.int 1) (.int 2) "" (fun _ => .ok fun _ => "")
      (fun _ => 0) = .ok (Circuit.empty 0 1 1 2 "" (fun _ => "") fun _ => 0 : Circuit ℝ) := rfl
  have hbuilt : doublingCircuit.Built := ⟨0, .int 1, .int 1, .int 2, "", _, _, _, _, hcreate, rfl⟩
  exact .made (.intro _ none .nothing hbuilt rfl (fun channel hchannel => nomatch hchannel) rfl)

end

/-- The state that the step reaches has its amplitude doubled. -/
theorem doubled :
    ∃ state, action false doublingCircuit doubling [0] checkingEngine.state = .ok state ∧
      state.size = 2 ∧ (state.amplitude 0).toComplex = 2 ∧ (state.amplitude 1).toComplex = 0 := by
  have htargets : TargetList 1 [0] := ⟨by decide, by decide, by decide⟩
  refine ⟨_, StateVector.apply_eq (m := 1) (Nat.le_refl 2) rfl htargets rfl, rfl, ?_, ?_⟩
  · unfold StateVector.applyOn
    rw [StateVector.amplitude_build _ (by decide), Tensor.round_real, Tensor.toComplex_inner]
    show ∑ b ∈ Finset.range 2, _ = _
    rw [Finset.sum_range_succ, Finset.sum_range_one]
    show (⟨2, 0⟩ : Amplitude ℝ).toComplex * (1 : Amplitude ℝ).toComplex +
      (0 : Amplitude ℝ).toComplex * (0 : Amplitude ℝ).toComplex = 2
    rw [Amplitude.toComplex_one, Amplitude.toComplex_zero, mul_one, mul_zero, add_zero]
    rfl
  · unfold StateVector.applyOn
    rw [StateVector.amplitude_build _ (by decide), Tensor.round_real, Tensor.toComplex_inner]
    show ∑ b ∈ Finset.range 2, _ = _
    rw [Finset.sum_range_succ, Finset.sum_range_one]
    show (0 : Amplitude ℝ).toComplex * (1 : Amplitude ℝ).toComplex +
      (1 : Amplitude ℝ).toComplex * (0 : Amplitude ℝ).toComplex = 0
    rw [Amplitude.toComplex_zero, zero_mul, mul_zero, add_zero]

end Doubling

/-! ## Whole steps -/

section Steps

/-- Without live qudits, qudits are found only if there are none. -/
theorem positions_eq_nil {engine : Engine S R} {indices found : List Int} {ip : Int}
    (h : engine.positions indices ip = .ok found) (hlive : engine.layout.livePositions = []) :
    found = [] := by
  unfold positions at h
  split at h
  · next places hplaces =>
    cases h
    -- positions that are found are live ones
    have hnone : ∀ p ∈ places, p ∈ [] :=
      hlive ▸ Layout.mem_livePositions_of_resolve hplaces
    rw [List.eq_nil_iff_forall_not_mem.mpr fun p hp => List.not_mem_nil (hnone p hp)]
    rfl
  · cases h

variable [Scalar S] [Scalar R] [Rounding S R] [Rounding R S]

/-- Without live qudits, no step writes. -/
theorem not_writes_of_no_live {checking : Bool} {c : Circuit S} (hd : 2 ≤ c.dim)
    {engine : Engine S R} {draws : Draws S} {view : StepView} {task : Task}
    (htask : engine.resolve view = .ok task) (hlive : engine.layout.livePositions = []) :
    ¬ task.Writes checking c engine draws := by
  unfold resolve at htask
  split at htask
  · next step hkind hstep =>
    -- controls are found among qudits or are dits, and either way there are no targets
    have hgate {found : Except EngineFault (List Int)} (h : (do
        let targets ← engine.positions step.targets view.ip
        let controls ← found
        return Task.gate step controls targets) = Except.ok task) :
        ¬ task.Writes checking c engine draws := by
      obtain ⟨targets, htargets, h⟩ := bind_eq_ok.mp h
      obtain ⟨controls, -, h⟩ := bind_eq_ok.mp h
      cases h
      cases positions_eq_nil htargets hlive
      rintro ⟨maps, hmaps, hne⟩
      exact hne (reached_nil hmaps _)
    dsimp only at htask
    cases hreserved : step.kind.isReserved with
    | true =>
      rw [hreserved] at htask
      cases htask
    | false =>
      rw [hreserved] at htask
      cases hquantum : step.kind.isQuantumControlled with
      | true =>
        rw [hquantum] at htask
        exact hgate htask
      | false =>
        rw [hquantum] at htask
        exact hgate htask
  · next step hkind hstep =>
    obtain ⟨targets, htargets, htask⟩ := bind_eq_ok.mp htask
    cases htask
    cases positions_eq_nil htargets hlive
    intro hfinds
    have hfinds : Finds checking c engine draws step [] := hfinds
    unfold Finds at hfinds
    split at hfinds
    · exact hfinds
    · obtain ⟨found, draws', hfound⟩ := hfinds
      exact (StateVector.size_measureSequential hd hfound).1 rfl
    · obtain ⟨-, basis, found, draws', -, -, hfound⟩ := hfinds
      exact (StateVector.size_measure hd hfound).1 rfl
    · obtain ⟨-, basis, found, draws', -, -, hfound⟩ := hfinds
      exact (StateVector.size_measure hd hfound).1 rfl
  · cases htask
  · obtain ⟨-, -, htask⟩ := bind_eq_ok.mp htask
    cases htask

/-- A step whose qudits are found leaves what it wrote, and the check of the norm after it changes
nothing. -/
theorem leaves_task {checking : Bool} {c : Circuit S} (hd : 2 ≤ c.dim) (ip : Int) (task : Task)
    (run : Run S R) :
    Leaves ((match task with
        | .gate step controls targets => performGate checking c ip step controls targets
        | .measurement step targets => performMeasurement checking c ip step targets) >>=
          fun _ => checkNorm) run
      (Wrote run.engine (task.Writes checking c run.engine run.draws)) := by
  -- the check of the norm may refuse, but it reads the engine only
  have hchecked {run' : Run S R} {writes : Prop} (h : Wrote run.engine writes run') :
      Ends checkNorm run' (fun _ run'' => Wrote run.engine writes run'')
        fun _ run'' => Wrote run.engine writes run'' := by
    refine (leaves_checkNorm run').mono (fun _ run'' heq => ?_) fun _ run'' heq => ?_
    · unfold Wrote
      rwa [heq]
    · unfold Wrote
      rwa [heq]
  unfold Leaves
  rw [ends_bind]
  cases task with
  | gate step controls targets =>
    exact (leaves_performGate checking c ip step controls targets run).mono
      (fun _ run' h => hchecked h) fun _ _ h => h
  | measurement step targets =>
    exact (leaves_performMeasurement hd ip step targets run).mono
      (fun _ run' h => hchecked h) fun _ _ h => h

/-- A step that fails leaves the engine unchanged if and only if it does not write. It writes before
it fails where the norm of what it reached is refused, where a later part of it is, or where noise
acted. -/
theorem failing_unchanged_iff [Capacity] {c : Circuit S} {engine : Engine S R}
    (h : Reachable c engine) (checking : Bool) (view : StepView) (draws : Draws S)
    (events : List Event) :
    Ends (execute checking c view) ⟨engine, draws, events⟩ (fun _ _ => True)
      fun _ run' => Unchanged engine run'.engine ↔ ¬ Writes checking c engine draws view := by
  have hd := h.sane.two_le_dim
  by_cases hserial : view.origin = engine.serial
  · cases htask : engine.resolve view with
    | error fault =>
      unfold execute
      rw [ends_bind, ends_current]
      dsimp only
      rw [if_neg (by rw [hserial]; exact not_not_intro rfl), ends_bind, ends_lift, htask]
      refine ⟨?_, fun _ => .refl _⟩
      rintro - ⟨-, task, hok, -⟩
      rw [htask] at hok
      cases hok
    | ok task =>
      have hwrites : Writes checking c engine draws view ↔ match engine.preStep with
          | .nothing => task.Writes checking c engine draws
          | .hook .. => True
          | .noise model branches => NoiseWrites model branches engine draws view.ip := by
        unfold Writes
        constructor
        · rintro ⟨-, task', hok, h⟩
          rw [htask] at hok
          cases hok
          exact h
        · exact fun h => ⟨hserial, task, htask, h⟩
      refine ends_execute hserial htask ?_
      cases hpre : engine.preStep with
      | nothing =>
        rw [hpre] at hwrites
        rw [ends_prepare_nothing hpre]
        intro run hengine hdraws
        refine ends_bind.mp ((leaves_task hd view.ip task run).mono (fun _ _ _ => trivial) ?_)
        intro _ run' hwrote
        rw [hengine, hdraws] at hwrote
        exact hwrote.2.trans (not_congr hwrites.symm)
      | hook act calls =>
        -- the hook belongs to no engine that can be made
        have hfits := h.sane.fits.preStep
        rw [hpre] at hfits
        exact hfits.elim
      | noise model branches =>
        rw [hpre] at hwrites
        refine (ends_prepare_writes hpre).mono (fun _ run hprepared run' hengine hdraws => ?_)
          fun _ run hiff => hiff.trans (not_congr hwrites.symm)
        refine ends_bind.mp ((leaves_task hd view.ip task run').mono (fun _ _ _ => trivial) ?_)
        intro _ run'' hwrote
        refine Iff.trans ?_ (not_congr hwrites.symm)
        -- Either the record of the noise was changed, and no later stage changes it back, or there is no
        -- live qudit, and then the step itself writes nothing.
        rcases hprepared with ⟨hnoise, hother⟩ | ⟨hnoise, hlive, hsame, hsameDraws⟩
        · refine ⟨fun hunchanged => ?_, fun hnot => absurd hnoise hnot⟩
          rw [hengine] at hwrote
          exact absurd (hwrote.1.symm.trans hunchanged.noise_eq) hother
        · rw [hengine, hsame] at hwrote
          refine ⟨fun _ => hnoise, fun _ => hwrote.2.mpr ?_⟩
          exact not_writes_of_no_live hd htask hlive
  · unfold execute
    rw [ends_bind, ends_current]
    dsimp only
    rw [if_pos hserial, ends_bind, ends_throw]
    exact ⟨fun _ hwrites => hserial hwrites.1, fun _ => .refl _⟩

section

attribute [local instance] Capacity.common

theorem failing_unchanged_iff_doubling :
    Reachable doublingCircuit checkingEngine ∧
      Ends (execute false doublingCircuit ((Step.gate doublingStep).view 0 0))
        ⟨checkingEngine, .ofList [], []⟩ (fun _ _ => True)
        fun _ run' => Unchanged checkingEngine run'.engine ↔
          ¬ Writes false doublingCircuit checkingEngine (.ofList [])
            ((Step.gate doublingStep).view 0 0) :=
  ⟨reachable_checkingEngine, failing_unchanged_iff reachable_checkingEngine false _ _ _⟩

end

/-- A step of the circuit of an engine fails, and the engine is not what it was. -/
theorem failing_changed_doubling :
    Ends (execute false doublingCircuit ((Step.gate doublingStep).view 0 0))
      ⟨checkingEngine, .ofList [], []⟩ (fun _ _ => False)
      fun _ run' => ¬ Unchanged checkingEngine run'.engine := by
  obtain ⟨state, haction, hsize, hzero, hone⟩ := doubled
  -- the norm that is refused after the gate has written
  have hnorm : state.norm = 2 := by
    rw [StateVector.norm_real, hsize, Finset.sum_range_succ, Finset.sum_range_one, hzero, hone,
      Complex.normSq_ofNat, map_zero, add_zero]
    exact Real.sqrt_mul_self (by norm_num)
  have hrefused : state.assertNormalized normTolerance ≠ .ok () := by
    rw [Ne, StateVector.assertNormalized_real, hnorm]
    · show ¬ |(2 : ℝ) - 1| ≤ 1e-6
      norm_num
    · show (0 : ℝ) ≤ 1e-6
      norm_num
  have htask : checkingEngine.resolve ((Step.gate doublingStep).view 0 0) =
      .ok (.gate doublingStep [] [0]) := rfl
  refine ends_execute rfl htask ?_
  rw [ends_prepare_nothing rfl]
  intro run hengine hdraws
  show Ends (performGate false doublingCircuit _ doublingStep [] [0]) run _ _
  have hmaps : gateMaps false doublingCircuit run.engine.dits doublingStep [] [0] =
      (.ok [action false doublingCircuit doubling [0]] :
        Except EngineFault (List (StateMap ℝ))) := rfl
  unfold performGate
  rw [ends_bind, ends_current, ends_bind, hmaps, ends_lift]
  dsimp only
  rw [ends_bind, ends_tellAll]
  show Ends (passThrough _ >>= fun _ => pure ()) _ _ _
  rw [ends_bind, ends_passThrough, hengine]
  dsimp only
  rw [haction]
  dsimp only
  rw [ends_pure]
  unfold checkNorm
  rw [ends_bind, ends_current]
  dsimp only
  rw [if_pos (show checkingEngine.settings.checkNormalization = true from rfl)]
  split
  · next hok => exact hrefused hok
  · show ¬ Unchanged checkingEngine { checkingEngine with state := state }
    rw [unchanged_withState_iff]
    rintro rfl
    have hstart : (checkingEngine.state.amplitude 0).toComplex = 1 := rfl
    rw [hstart] at hzero
    norm_num at hzero

end Steps

end Engine

end QuditSim
