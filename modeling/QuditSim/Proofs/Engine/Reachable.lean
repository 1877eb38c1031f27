import QuditSim.Proofs.Circuit.WellFormed
import QuditSim.Proofs.Engine.Twins

/-!
# Engines that can be reached

An engine is reached by making it for a circuit that was built by calls, and then by any calls to
the circuit, any executed steps, whether they succeed or fail, any values set for dits and any
resets. `Engine.Reachable` is this closure, and `Engine.Ready` picks out the engines that were just
made or just reset.

- `Engine.Reachable.sane`: the circuit of a reachable engine is well formed and can be held, and the
  engine is bound to it, with its register and with noise for its dimension (`Engine.Sane`).
- `Engine.Ready.sane`: a ready engine is, besides, at the start of its circuit (`Engine.AtStart`).
-/

namespace QuditSim

open Fallible

/-! ## Circuits that were built -/

namespace Circuit

variable {S : Type}

/-- A circuit that was made has qudits of dimension two or more. -/
theorem two_le_dim_of_create? [Capacity] {serial : Nat} {qudits dits dim : Argument} {name : String}
    {namerFor : Nat → Except ExtentFault (Operator S → String)} {keyOf : Operator S → Int}
    {c : Circuit S} (h : create? serial qudits dits dim name namerFor keyOf = .ok c) :
    2 ≤ c.dim :=
  (extents_of_create? h).2.1

variable [Scalar S]

/-- A circuit that was made and then got any sequence of calls. -/
def Built [Capacity] (c : Circuit S) : Prop :=
  ∃ (serial : Nat) (qudits dits dim : Argument) (name : String)
    (namerFor : Nat → Except ExtentFault (Operator S → String)) (keyOf : Operator S → Int)
    (c₀ : Circuit S) (calls : List (Call S)),
    create? serial qudits dits dim name namerFor keyOf = .ok c₀ ∧ c = c₀.attemptAll calls

theorem Built.wellFormed [Capacity] {c : Circuit S} (h : c.Built) : c.WellFormed := by
  obtain ⟨serial, qudits, dits, dim, name, namerFor, keyOf, c₀, calls, hc₀, rfl⟩ := h
  obtain ⟨n, m, d, namer, rfl⟩ := create?_eq_ok hc₀
  exact (wellFormed_empty serial n m d name namer keyOf).attemptAll calls

theorem Built.attempt [Capacity] {c : Circuit S} (h : c.Built) (call : Call S) :
    (c.attempt call).Built := by
  obtain ⟨serial, qudits, dits, dim, name, namerFor, keyOf, c₀, calls, hc₀, rfl⟩ := h
  refine ⟨serial, qudits, dits, dim, name, namerFor, keyOf, c₀, calls ++ [call], hc₀, ?_⟩
  rw [attemptAll, attemptAll, List.foldl_append]
  rfl

/-- A call keeps the serial number and the registers of a circuit. -/
theorem attempt_eq (c : Circuit S) (call : Call S) :
    (c.attempt call).serial = c.serial ∧ (c.attempt call).qudits = c.qudits ∧
      (c.attempt call).dits = c.dits ∧ (c.attempt call).dim = c.dim := by
  unfold Circuit.attempt Circuit.append
  cases manyTargets? call with
  | some count => exact ⟨rfl, rfl, rfl, rfl⟩
  | none =>
    cases c.plan call with
    | error cause => exact ⟨rfl, rfl, rfl, rfl⟩
    | ok entry => cases entry <;> exact ⟨rfl, rfl, rfl, rfl⟩

theorem dim_attemptAll (c : Circuit S) (calls : List (Call S)) :
    (c.attemptAll calls).dim = c.dim := by
  induction calls generalizing c with
  | nil => rfl
  | cons call calls ih => exact (ih (c.attempt call)).trans (c.attempt_eq call).2.2.2

theorem Built.two_le_dim [Capacity] {c : Circuit S} (h : c.Built) : 2 ≤ c.dim := by
  obtain ⟨serial, qudits, dits, dim, name, namerFor, keyOf, c₀, calls, hc₀, rfl⟩ := h
  rw [dim_attemptAll]
  exact two_le_dim_of_create? hc₀

end Circuit

/-! ## Noise that fits -/

/-- A channel on qudits of a dimension: there are operators, and all have that dimension. -/
structure Channel.Fits {S : Type} (dim : Nat) (channel : Channel S) : Prop where
  /-- The channel is for the dimension. -/
  dim_eq : channel.dim = dim
  /-- There is an operator. -/
  ne_nil : channel.ops ≠ []
  /-- The operators have the dimension. -/
  shape : ∀ op ∈ channel.ops, op.shape = [dim, dim]

/-- A noise model draws the branches of a channel on qudits of a dimension. -/
def NoiseModel.Fits {S : Type} (dim : Nat) : NoiseModel S → Prop
  | .trajectory model => model.channel.Fits dim
  | .recording .. => False

/-- What is done before a step is nothing, or noise on qudits of a dimension. -/
def PreStep.Fits {S R : Type} (dim : Nat) : PreStep S R → Prop
  | .nothing => True
  | .hook .. => False
  | .noise model _ => model.Fits dim

/-- Noise that fits leaves a state of the same register, or the weights of its branches cannot be
sampled. -/
theorem NoiseModel.apply_cases {S R : Type} [Scalar S] [Scalar R] [Rounding S R] [Rounding R S]
    {d m position : Nat} {model : NoiseModel S} {state : StateVector R} (hd : 2 ≤ d)
    (h : model.Fits d) (hsize : state.size = d ^ m) (hposition : position < m) (draws : Draws S) :
    (∃ model' state', (model.apply state position).run.run draws =
        (.ok (model', state'), draws.advance) ∧ model'.Fits d ∧ state'.size = d ^ m) ∨
      ∃ fault, (model.apply state position).run.run draws = (.error fault, draws) ∧
        fault.IsNumeric := by
  cases model with
  | recording dim branch => exact h.elim
  | trajectory model =>
    obtain ⟨hdim, hne, hops⟩ : model.channel.Fits d := h
    unfold NoiseModel.apply
    rw [Sampling.run_bind]
    rcases Trajectory.apply_cases hd hsize hdim hne hops hposition draws with
      ⟨model', state', hrun, hchannel, hsize'⟩ | ⟨fault, hrun, hfault⟩
    · rw [hrun]
      refine .inl ⟨_, _, rfl, ?_, hsize'⟩
      show model'.channel.Fits d
      rw [hchannel]
      exact ⟨hdim, hne, hops⟩
    · rw [hrun]
      exact .inr ⟨fault, rfl, hfault⟩

/-- An operator that a channel takes has its dimension. -/
theorem Channel.shape_of_operatorOf {S : Type} [Scalar S] {dim : Argument} {place : Nat}
    {item : BranchItem S} {op : Operator S} {d : Int} (hd : dim.index? = some d)
    (h : operatorOf dim place item = .ok op) : op.shape = [d.toNat, d.toNat] := by
  -- sizes are compared with the dimension as given, which may be a truth value
  have hsame : ∀ n : Nat, dim.sameValue (.nat n) = true ↔ d = n := by
    intro n
    cases dim with
    | int value =>
      cases hd
      simp [Argument.nat]
    | truth value =>
      cases hd
      simp [Argument.sameValue, Argument.number?, Argument.nat]
    | float value => cases hd
    | foreign text => cases hd
  cases item with
  | foreign kind => cases h
  | operator given =>
    simp only [operatorOf, ne_eq, ite_not] at h
    split at h
    · next hrank =>
      split at h
      · cases h
      · next hall =>
        cases h
        have hmem : ∀ n ∈ op.shape, d = n := by
          intro n hn
          rw [← hsame]
          by_contra hne
          exact hall (List.any_eq_true.mpr ⟨n, hn, by simpa using hne⟩)
        -- both sizes equal the dimension, so the operator is square
        obtain ⟨rows, columns, hshape⟩ := List.length_eq_two.mp hrank
        rw [hshape] at hmem ⊢
        have hrows := hmem rows (by simp)
        have hcolumns := hmem columns (by simp)
        rw [hrows, Int.toNat_natCast]
        rw [hrows, Int.natCast_inj] at hcolumns
        rw [hcolumns]
    · cases h

/-- A channel that was made fits its dimension. -/
theorem Channel.fits_of_create {S : Type} [Scalar S] {name : Json} {items : List (BranchItem S)}
    {dim : Argument} {channel : Channel S} (h : create name items dim = .ok channel) :
    channel.Fits channel.dim := by
  simp only [create, bind_eq_ok, exists_unit] at h
  obtain ⟨hdim, h⟩ := h
  split at h
  · cases h
  · next hitems =>
    rw [bind_eq_ok] at h
    obtain ⟨ops, hops, h⟩ := h
    obtain ⟨hlength, hmem⟩ := mapM_eq_ok hops
    split at h
    · next d hd =>
      split at h
      · cases h
      · cases h
        refine ⟨rfl, ?_, fun op hop => ?_⟩
        · rintro rfl
          have hzero : items.length = 0 := by simpa using hlength.symm
          exact hitems (List.isEmpty_iff.mpr (List.length_eq_zero_iff.mp hzero))
        · obtain ⟨item, -, hitem⟩ := hmem op hop
          exact shape_of_operatorOf hd hitem
    · cases h

/-- What is done before the steps of a circuit, for no noise or for a channel that was made. -/
theorem PreStep.fits_of_preStepFor {S R : Type} {c : Circuit S} {noise : Option (Channel S)}
    {preStep : PreStep S R} (hnoise : ∀ channel ∈ noise, channel.Fits channel.dim)
    (h : Engine.preStepFor c (noise.map fun channel => .trajectory (.start channel)) =
      .ok preStep) : preStep.Fits c.dim := by
  cases noise with
  | none =>
    cases h
    trivial
  | some channel =>
    simp only [Option.map_some, Engine.preStepFor] at h
    split at h
    · next hdim =>
      cases h
      have heq : channel.dim = c.dim := by
        simpa [NoiseModel.dim, Trajectory.start, Argument.nat, Int.natCast_inj] using hdim
      exact heq ▸ hnoise channel rfl
    · cases h

namespace Engine

/-! ## What an engine keeps -/

section Keeps

variable {S R α : Type} {c : Circuit S}

/-- An engine is bound to a circuit, with its register and with noise for its dimension. -/
structure Fits (c : Circuit S) (engine : Engine S R) : Prop where
  /-- The engine has the number of the circuit. -/
  serial_eq : engine.serial = c.serial
  /-- The layout is one of the qudits of the circuit. -/
  size_layout : engine.layout.size = c.qudits
  /-- The noise is for qudits of the dimension. -/
  preStep : engine.preStep.Fits c.dim

/-- The channel of the noise of an engine is one for the dimension of its circuit. -/
theorem Fits.channel {engine : Engine S R} {model : Trajectory S} {branches : List (List Nat)}
    (h : Fits c engine) (hpre : engine.preStep = .noise (.trajectory model) branches) :
    model.channel.Fits c.dim := by
  have hfits := h.preStep
  rw [hpre] at hfits
  exact hfits

/-- An execution keeps an engine bound to a circuit, however it ends. -/
def Keeps (c : Circuit S) (x : Execution S R α) : Prop :=
  ∀ run : Run S R, Fits c run.engine →
    x.Ends run (fun _ run' => Fits c run'.engine) fun _ run' => Fits c run'.engine

/-- An engine that is bound to a circuit is a twin of itself, with noise of a channel that fits. -/
theorem Fits.twins {engine : Engine S R} (h : Fits c engine) : ∃ noise : Option (Channel S),
    (∀ channel ∈ noise, channel.Fits c.dim) ∧ Twins c engine.settings noise engine engine := by
  have hfits := h.preStep
  cases hpre : engine.preStep with
  | nothing =>
    refine ⟨none, nofun, h.serial_eq, rfl, h.size_layout, ?_, rfl⟩
    rw [hpre]
    exact .nothing
  | hook act calls =>
    rw [hpre] at hfits
    exact hfits.elim
  | noise model branches =>
    rw [hpre] at hfits
    cases model with
    | recording dim branch => exact hfits.elim
    | trajectory model =>
      refine ⟨some model.channel, fun channel hchannel => ?_, h.serial_eq, rfl, h.size_layout, ?_, rfl⟩
      · obtain rfl := Option.some.inj hchannel
        exact hfits
      · rw [hpre]
        exact .noise rfl rfl branches

/-- Twins with noise of a channel that fits are bound to their circuit. -/
theorem Twins.fits {settings : EngineSettings} {noise : Option (Channel S)}
    {engine engine' : Engine S R} (h : Twins c settings noise engine engine')
    (hnoise : ∀ channel ∈ noise, channel.Fits c.dim) : Fits c engine := by
  refine ⟨h.serial_eq, h.size_layout, ?_⟩
  have htwins := h.preStep
  generalize engine.preStep = preStep at htwins ⊢
  generalize engine'.preStep = preStep' at htwins
  cases htwins with
  | nothing => trivial
  | @noise channel model _ hchannel _ branches =>
    show model.channel.Fits c.dim
    rw [hchannel]
    exact hnoise channel rfl

/-- Executing a step keeps an engine bound to its circuit, whether it succeeds or fails. -/
theorem keeps_execute [Scalar S] [Scalar R] [Rounding S R] [Rounding R S] (checking : Bool)
    (circuit : Circuit S) (view : StepView) :
    Keeps c (execute checking circuit view : Execution S R Unit) := by
  intro run hrun
  obtain ⟨noise, hnoise, htwins⟩ := hrun.twins
  -- a step of twins leaves twins, and the engine is a twin of itself
  obtain ⟨-, hafter⟩ := alike_execute checking circuit view run run ⟨htwins, rfl, rfl⟩
  exact Execution.leaves_of_outcome (P := fun run => Fits c run.engine) (hafter.engines.fits hnoise)

end Keeps

/-! ## Engines that were made -/

section Made

variable {S R : Type}

/-- What holds of every engine that can be reached, and of its circuit. -/
structure Sane (c : Circuit S) (engine : Engine S R) : Prop where
  /-- The program of the circuit is well formed. -/
  wellFormed : c.WellFormed
  /-- The qudits have a dimension of two or more. -/
  two_le_dim : 2 ≤ c.dim
  /-- The amplitudes of the register can be counted by a word. -/
  size_lt : c.dim ^ c.qudits < 2 ^ 63
  /-- The engine is bound to the circuit. -/
  fits : Fits c engine

/-- Where there is a qudit, its digits are far below the greatest word. -/
theorem Sane.dim_le {c : Circuit S} {engine : Engine S R} (h : Sane c engine)
    (hqudits : 0 < c.qudits) : c.dim ≤ 2 ^ 63 :=
  calc
    c.dim ≤ c.dim ^ c.qudits := Nat.le_self_pow hqudits.ne' c.dim
    _ ≤ 2 ^ 63 := h.size_lt.le

/-- The amplitudes of a register that is not refused can be counted by a word. -/
theorem size_lt_of_checkExtents [Capacity] {c : Circuit S} (h : checkExtents c = .ok ()) :
    c.dim ^ c.qudits < 2 ^ 63 := by
  simp only [checkExtents, bind_eq_ok, exists_unit, mapError_eq_ok] at h
  obtain ⟨hsize, -⟩ := h
  unfold StateVector.checkExtent at hsize
  split at hsize
  · cases hsize
  · unfold StateVector.checkSize at hsize
    split at hsize
    · cases hsize
    · next hlt => exact Nat.lt_of_not_le hlt

variable [Scalar S]

theorem Fits.attempt {c : Circuit S} {engine : Engine S R} (h : Fits c engine) (call : Call S) :
    Fits (c.attempt call) engine := by
  obtain ⟨hserial, hqudits, -, hdim⟩ := c.attempt_eq call
  refine ⟨hserial ▸ h.serial_eq, hqudits ▸ h.size_layout, ?_⟩
  rw [hdim]
  exact h.preStep

theorem Sane.attempt {c : Circuit S} {engine : Engine S R} (h : Sane c engine) (call : Call S) :
    Sane (c.attempt call) engine := by
  obtain ⟨-, hqudits, -, hdim⟩ := c.attempt_eq call
  refine ⟨h.wellFormed.attempt call, ?_, ?_, h.fits.attempt call⟩
  · rw [hdim]
    exact h.two_le_dim
  · rw [hdim, hqudits]
    exact h.size_lt

variable [Scalar R]

/-- An engine is at the start of a circuit: every qudit is live and in its state zero, and no dit
was written. -/
structure AtStart (c : Circuit S) (engine : Engine S R) : Prop where
  /-- The state is that of zeros. -/
  state_eq : engine.state = StateVector.zero c.qudits c.dim
  /-- The dits are zero. -/
  dits_eq : engine.dits = List.replicate c.dits 0
  /-- No dit was written. -/
  probs_eq : engine.probs = List.replicate c.dits 0
  /-- Every qudit is live. -/
  layout_eq : engine.layout = .start c.qudits

theorem Sane.reset {c : Circuit S} {engine : Engine S R} (h : Sane c engine) :
    Sane c (engine.reset c) := by
  refine ⟨h.wellFormed, h.two_le_dim, h.size_lt, h.fits.serial_eq, ?_, ?_⟩
  · exact (Layout.size_reset _).trans h.fits.size_layout
  · have hpre := h.fits.preStep
    unfold Engine.reset freshNoise
    cases hstep : engine.preStep with
    | nothing => trivial
    | hook act calls =>
      rw [hstep] at hpre
      exact hpre.elim
    | noise model branches =>
      rw [hstep] at hpre
      exact hpre

/-- An engine that was just made for a circuit, without noise or with that of a channel. -/
inductive Made [Capacity] (c : Circuit S) : Engine S R → Prop where
  /-- The circuit was built by calls and can be held, and the channel has its dimension. -/
  | intro (settings : EngineSettings) (noise : Option (Channel S)) (preStep : PreStep S R)
      (hbuilt : c.Built) (hextents : checkExtents c = .ok ())
      (hnoise : ∀ channel ∈ noise, ∃ name items dim, Channel.create name items dim = .ok channel)
      (hpreStep : preStepFor c (noise.map fun channel => .trajectory (.start channel)) =
        .ok preStep) : Made c (start c settings preStep)

theorem Made.sane [Capacity] {c : Circuit S} {engine : Engine S R} (h : Made c engine) :
    Sane c engine := by
  obtain ⟨settings, noise, preStep, hbuilt, hextents, hnoise, hpreStep⟩ := h
  refine ⟨hbuilt.wellFormed, hbuilt.two_le_dim, size_lt_of_checkExtents hextents, rfl,
    Layout.size_start _, PreStep.fits_of_preStepFor ?_ hpreStep⟩
  intro channel hchannel
  obtain ⟨name, items, dim, hcreate⟩ := hnoise channel hchannel
  exact Channel.fits_of_create hcreate

end Made

/-! ## Engines that can be reached -/

section Reachable

variable {S R : Type} [Scalar S] [Scalar R] [Rounding S R] [Rounding R S]

/-- An engine that can be reached, with its circuit as it then is. -/
inductive Reachable [Capacity] : Circuit S → Engine S R → Prop where
  /-- The engine was just made. -/
  | made {c : Circuit S} {engine : Engine S R} (h : Made c engine) : Reachable c engine
  /-- The circuit got one more call. -/
  | attempt {c : Circuit S} {engine : Engine S R} (h : Reachable c engine) (call : Call S) :
    Reachable (c.attempt call) engine
  /-- A step was executed, and it succeeded or failed. -/
  | execute {c : Circuit S} {engine : Engine S R} (h : Reachable c engine) (checking : Bool)
      (view : StepView) (draws : Draws S) (events : List Event) :
    Reachable c ((Engine.execute checking c view).outcome ⟨engine, draws, events⟩).2.engine
  /-- A dit was set. -/
  | setDit {c : Circuit S} {engine engine' : Engine S R} (h : Reachable c engine)
      {i value : Argument} (hset : engine.setDit i value = .ok engine') : Reachable c engine'
  /-- The engine was reset. -/
  | reset {c : Circuit S} {engine : Engine S R} (h : Reachable c engine) :
    Reachable c (engine.reset c)

/-- An engine that was just made or just reset, with its circuit as it then is. -/
inductive Ready [Capacity] : Circuit S → Engine S R → Prop where
  /-- The engine was just made. -/
  | made {c : Circuit S} {engine : Engine S R} (h : Made c engine) : Ready c engine
  /-- The engine was just reset. -/
  | reset {c : Circuit S} {engine : Engine S R} (h : Reachable c engine) :
    Ready c (engine.reset c)
  /-- The circuit got one more call. -/
  | attempt {c : Circuit S} {engine : Engine S R} (h : Ready c engine) (call : Call S) :
    Ready (c.attempt call) engine

/-- Every engine that can be reached is sane: each of the ways to go on keeps it so. -/
theorem Reachable.sane [Capacity] {c : Circuit S} {engine : Engine S R} (h : Reachable c engine) :
    Sane c engine := by
  induction h with
  | made h => exact h.sane
  | attempt h call ih => exact ih.attempt call
  -- the view may be one of another circuit, or made by hand
  | @execute c engine h checking view draws events ih =>
    have hkeeps := keeps_execute checking c view ⟨engine, draws, events⟩ ih.fits
    exact ⟨ih.wellFormed, ih.two_le_dim, ih.size_lt,
      Execution.Leaves.holds (P := fun run => Fits c run.engine) hkeeps⟩
  | setDit h hset ih =>
    simp only [Engine.setDit, bind_eq_ok, pure_eq_ok] at hset
    obtain ⟨-, -, value, -, place, -, rfl⟩ := hset
    exact ⟨ih.wellFormed, ih.two_le_dim, ih.size_lt, ih.fits.serial_eq, ih.fits.size_layout,
      ih.fits.preStep⟩
  | reset h ih => exact ih.reset

/-- A ready engine is sane and at the start of its circuit. -/
theorem Ready.sane [Capacity] {c : Circuit S} {engine : Engine S R} (h : Ready c engine) :
    Sane c engine ∧ AtStart c engine := by
  induction h with
  | made h =>
    refine ⟨h.sane, ?_⟩
    obtain ⟨settings, noise, preStep, -, -, -, -⟩ := h
    exact ⟨rfl, rfl, rfl, rfl⟩
  | @reset c engine h =>
    have hsane := h.sane
    refine ⟨hsane.reset, rfl, rfl, rfl, ?_⟩
    -- a reset makes a layout for as many qudits as the old one had
    show Layout.start engine.layout.size = _
    rw [hsane.fits.size_layout]
  | @attempt c engine h call ih =>
    obtain ⟨hsane, hstart⟩ := ih
    obtain ⟨-, hqudits, hdits, hdim⟩ := c.attempt_eq call
    refine ⟨hsane.attempt call, ?_, ?_, ?_, ?_⟩
    · rw [hqudits, hdim]
      exact hstart.state_eq
    · rw [hdits]
      exact hstart.dits_eq
    · rw [hdits]
      exact hstart.probs_eq
    · rw [hqudits]
      exact hstart.layout_eq

end Reachable

end Engine

end QuditSim
