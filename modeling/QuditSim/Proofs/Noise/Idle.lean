import Mathlib.Algebra.BigOperators.Field
import QuditSim.Proofs.Engine.Noise
import QuditSim.Proofs.Engine.Probability

/-!
# Channels that do nothing

A channel is idle if its first operator is the identity and all others are zero. Over the real
numbers, all channels of the library are idle for the parameter zero, and an idle channel leaves a
state of weight one as it is: it draws one number and finds its branch zero, whatever the number is.

- `Channel.Idle` and `Channel.MakesIdle`: idle channels, and what makes one.
- `Channel.makesIdle_qubit` and `Channel.makesIdle_qudit`: the channels for the parameter zero.
- `Trajectory.run_apply_idle` and `Trajectory.run_applyBelow_idle`: an idle channel at one position and
  at several ones.
- `Trajectory.DrawsAt.eq_zero`: the branch that an idle channel draws.
-/

namespace QuditSim

open Finset

namespace Tensor

/-! ## Operators times a number -/

/-- An operator times one is the operator. -/
theorem scale_one (a : Operator ℝ) : a.scale 1 = a := by
  have hid : (fun z : Amplitude ℝ => Amplitude.ofReal 1 * z) = id := by
    funext z
    apply Amplitude.toComplex_injective
    exact one_mul z.toComplex
  unfold scale
  rw [hid]
  exact Tensor.ext rfl (Array.map_id a.entries)

/-- An operator times zero is zero. -/
theorem scale_zero {n : ℕ} {a : Operator ℝ} (ha : a.shape = [n, n]) :
    a.scale 0 = .matrix n n fun _ _ => 0 := by
  refine ext_entry ha rfl fun i hi k hk => ?_
  rw [entry_scale _ ha hi hk, entry_matrix _ hi hk]
  apply Amplitude.toComplex_injective
  exact zero_mul (a.entry i k).toComplex

end Tensor

/-- A matrix of two rows has the entries that they have. -/
theorem Gate.ofRows_eq {a b c e : Amplitude ℝ} {f : ℕ → ℕ → Amplitude ℝ} (ha : f 0 0 = a)
    (hb : f 0 1 = b) (hc : f 1 0 = c) (he : f 1 1 = e) :
    Gate.ofRows [[a, b], [c, e]] = .matrix 2 2 f := by
  refine Tensor.ext_entry (n := 2) rfl rfl fun i hi k hk => ?_
  have hentry : (Gate.ofRows [[a, b], [c, e]]).entry i k = ([[a, b], [c, e]].getD i []).getD k 0 :=
    Tensor.entry_matrix _ hi hk
  rw [hentry, Tensor.entry_matrix _ hi hk]
  obtain rfl | rfl : i = 0 ∨ i = 1 := by omega
  all_goals obtain rfl | rfl : k = 0 ∨ k = 1 := by omega
  exacts [ha.symm, hb.symm, hc.symm, he.symm]

namespace Channel

/-! ## Idle channels -/

/-- A channel does nothing: its first operator is the identity, and all others are zero. -/
def Idle (channel : Channel ℝ) : Prop :=
  ∃ rest, channel.ops = .identity channel.dim :: rest ∧
    ∀ op ∈ rest, op = .matrix channel.dim channel.dim fun _ _ => 0

/-- An idle channel fits its dimension. -/
theorem Idle.fits {channel : Channel ℝ} (h : channel.Idle) : channel.Fits channel.dim := by
  obtain ⟨rest, hops, hrest⟩ := h
  refine ⟨rfl, ?_, ?_⟩
  · rw [hops]
    exact List.cons_ne_nil _ _
  · rw [hops, List.forall_mem_cons]
    refine ⟨rfl, fun op hop => ?_⟩
    rw [hrest op hop]
    rfl

/-- An idle channel keeps the trace. -/
theorem Idle.preserving {channel : Channel ℝ} (h : channel.Idle) : channel.Preserving := by
  have hfits := h.fits
  obtain ⟨rest, hops, hrest⟩ := h
  unfold Preserving
  refine Tensor.ext_entry (shape_total _ _) rfl fun a ha b hb => Amplitude.toComplex_injective ?_
  -- only the product of the identity with itself counts
  have hzero : ∀ x ∈ rest.map (fun op : Operator ℝ => ∑ i ∈ range channel.dim,
      (starRingEnd ℂ) (op.entry i a).toComplex * (op.entry i b).toComplex), x = 0 := by
    intro x hx
    obtain ⟨op, hop, rfl⟩ := List.mem_map.mp hx
    refine sum_eq_zero fun i hi => ?_
    rw [hrest op hop, Tensor.entry_matrix _ (mem_range.mp hi) hb, Amplitude.toComplex_zero, mul_zero]
  have hone : ∑ i ∈ range channel.dim, (starRingEnd ℂ)
      ((Tensor.identity channel.dim : Operator ℝ).entry i a).toComplex *
        ((Tensor.identity channel.dim : Operator ℝ).entry i b).toComplex =
      if a = b then 1 else 0 := by
    rw [sum_eq_single_of_mem a (mem_range.mpr ha) fun i hi hne => ?_]
    · rw [Operator.toComplex_entry_identity ha ha, Operator.toComplex_entry_identity ha hb, if_pos rfl,
        map_one, one_mul]
    · rw [Operator.toComplex_entry_identity (mem_range.mp hi) ha, if_neg hne, map_zero, zero_mul]
  rw [toComplex_entry_total hfits.shape ha hb, Operator.toComplex_entry_identity ha hb, hops,
    List.map_cons, List.sum_cons, hone, List.sum_eq_zero hzero, add_zero]

/-! ## The channels for the parameter zero -/

/-- What makes an idle channel of a dimension. -/
def MakesIdle (d : ℕ) (made : Except ChannelFault (Channel ℝ)) : Prop :=
  ∃ channel, made = .ok channel ∧ channel.dim = d ∧ channel.Idle

/-- The identity and operators that are zero make an idle channel. -/
theorem makesIdle_create (name : Json) {d : ℕ} (hd : 2 ≤ d) {ops rest : List (Operator ℝ)}
    (hops : ops = .identity d :: rest) (hrest : ∀ op ∈ rest, op = .matrix d d fun _ _ => 0) :
    MakesIdle d (create name (ops.map .operator) (.nat d)) := by
  have hidle : Idle ⟨name, d, ops⟩ := ⟨rest, hops, hrest⟩
  exact ⟨_, create_of_preserving name hd hidle.fits.ne_nil hidle.fits.shape hidle.preserving, rfl,
    hidle⟩

/-- A number of the unit interval is accepted as a probability. -/
theorem checkProbability_inside {p : Written ℝ} (hp : 0 ≤ p.value ∧ p.value ≤ 1)
    (label : String) : checkProbability p label = .ok () :=
  if_neg (not_or.mpr ⟨not_lt.mpr hp.1, not_lt.mpr hp.2⟩)

section Zero

variable {p : Written ℝ} (hp : p.value = 0)

include hp

theorem checkProbability_zero (label : String) : checkProbability p label = .ok () :=
  checkProbability_inside ⟨hp.ge, hp.trans_le zero_le_one⟩ label

/-- The weight of no error is one. -/
theorem sqrt_one_sub : Scalar.sqrt (1 - p.value) = (1 : ℝ) := by
  rw [hp]
  show √((1 : ℝ) - 0) = 1
  rw [sub_zero, Real.sqrt_one]

/-- The weight of an error is zero, also divided by a number of errors. -/
theorem sqrt_div (x : ℝ) : Scalar.sqrt (p.value / x) = (0 : ℝ) := by
  rw [hp]
  show √((0 : ℝ) / x) = 0
  rw [zero_div, Real.sqrt_zero]

theorem sqrt_zero : Scalar.sqrt p.value = (0 : ℝ) := by
  rw [hp]
  exact Real.sqrt_zero

theorem makesIdle_flip (label name : String) {error : Operator ℝ} (herror : error.shape = [2, 2]) :
    MakesIdle 2 (flip p label name error) := by
  unfold flip ofPair
  rw [checkProbability_zero hp, sqrt_one_sub hp, sqrt_zero hp, Tensor.scale_one,
    Tensor.scale_zero herror]
  exact makesIdle_create _ (Nat.le_refl 2) rfl fun op hop => List.mem_singleton.mp hop

/-- The operator of no error and those of errors that share the weight zero make an idle channel. -/
theorem makesIdle_errors (name : Json) {d : ℕ} (hd : 2 ≤ d) {errors : List (Operator ℝ)}
    (herrors : ∀ op ∈ errors, op.shape = [d, d]) (x : ℝ) :
    MakesIdle d (create name
      (.operator ((Tensor.identity d).scale (Scalar.sqrt (1 - p.value))) ::
        errors.map fun op => .operator (op.scale (Scalar.sqrt (p.value / x)))) (.nat d)) := by
  have hcreate := makesIdle_create name hd
    (rfl : Tensor.identity d :: errors.map (Tensor.scale 0) = _) fun op hop => by
      obtain ⟨error, herror, rfl⟩ := List.mem_map.mp hop
      exact Tensor.scale_zero (herrors error herror)
  rw [List.map_cons, List.map_map] at hcreate
  rw [sqrt_one_sub hp, sqrt_div hp, Tensor.scale_one]
  exact hcreate

/-- The channels of a qubit are idle for the parameter zero. -/
theorem makesIdle_qubit : ∀ made ∈ qubitChannels p, MakesIdle 2 made := by
  -- both dampings keep the qubit by the same operator, and their other one is zero
  have hkept : Gate.ofRows [[1, 0], [0, .ofReal (Scalar.sqrt (1 - p.value))]] =
      (.identity 2 : Operator ℝ) := by
    rw [sqrt_one_sub hp]
    exact Gate.ofRows_eq rfl rfl rfl rfl
  have hdecay : Gate.ofRows [[0, .ofReal (Scalar.sqrt p.value)], [0, 0]] =
      (.matrix 2 2 fun _ _ => 0 : Operator ℝ) := by
    rw [sqrt_zero hp]
    exact Gate.ofRows_eq rfl rfl rfl rfl
  have hloss : Gate.ofRows [[0, 0], [0, .ofReal (Scalar.sqrt p.value)]] =
      (.matrix 2 2 fun _ _ => 0 : Operator ℝ) := by
    rw [sqrt_zero hp]
    exact Gate.ofRows_eq rfl rfl rfl rfl
  have hpauli : ∀ op ∈ [Gate.pauliX, Gate.pauliY, (Gate.pauliZ : Operator ℝ)], op.shape = [2, 2] := by
    simp only [List.forall_mem_cons, List.not_mem_nil, false_imp_iff, implies_true, and_true]
    exact ⟨rfl, rfl, rfl⟩
  unfold qubitChannels
  simp only [List.forall_mem_cons, List.not_mem_nil, false_imp_iff, implies_true, and_true]
  refine ⟨makesIdle_flip hp _ _ rfl, makesIdle_flip hp _ _ rfl, makesIdle_flip hp _ _ rfl, ?_, ?_,
    ?_⟩
  · unfold depolarizing
    rw [checkProbability_zero hp]
    exact makesIdle_errors hp _ (Nat.le_refl 2) hpauli (1 + 1 + 1)
  · unfold amplitudeDamping ofPair
    rw [checkProbability_zero hp, hkept, hdecay]
    exact makesIdle_create _ (Nat.le_refl 2) rfl fun op hop => List.mem_singleton.mp hop
  · unfold phaseDamping ofPair
    rw [checkProbability_zero hp, hkept, hloss]
    exact makesIdle_create _ (Nat.le_refl 2) rfl fun op hop => List.mem_singleton.mp hop

/-- The channels of a qudit are idle for the parameter zero, in every dimension. -/
theorem makesIdle_qudit {dim : Argument} {d : ℕ} (hdim : quditDimension dim = .ok d) :
    ∀ made ∈ quditChannels p dim, MakesIdle d made := by
  obtain ⟨hd, rfl⟩ := eq_nat_of_quditDimension hdim
  have hclock (e : ℕ) : ((Gate.clock d : Operator ℝ).pow e).shape = [d, d] := Tensor.shape_pow rfl e
  unfold quditChannels
  simp only [List.forall_mem_cons, List.not_mem_nil, false_imp_iff, implies_true, and_true]
  constructor
  · unfold quditDepolarizing
    rw [checkProbability_zero hp, hdim]
    exact makesIdle_errors hp _ hd shape_weylOperators _
  · unfold quditDephasing
    rw [checkProbability_zero hp, hdim]
    have hpowers : ∀ op ∈ (List.range (d - 1)).map fun b => (Gate.clock d : Operator ℝ).pow (b + 1),
        op.shape = [d, d] := by
      intro op hop
      obtain ⟨b, -, rfl⟩ := List.mem_map.mp hop
      exact hclock (b + 1)
    have hmade := makesIdle_errors hp (.string ("qudit_dephasing(p=" ++ p.text ++ ", d=" ++
      (Argument.nat d).text ++ ")")) hd hpowers (Scalar.ofNat (d - 1))
    rw [List.map_map] at hmade
    exact hmade

end Zero

end Channel

/-! ## What an idle channel does -/

namespace StateVector

variable {d m p : ℕ} {state : StateVector ℝ}

/-- The identity at a position makes the same vector. -/
theorem branchOn_identity (hd : 0 < d) (p : ℕ) (state : StateVector ℝ) :
    branchOn d (.identity d) p state = state := by
  unfold branchOn
  refine ext_amplitude (size_build _ _) fun x hx => ?_
  rw [size_build] at hx
  rw [amplitude_build _ hx]
  apply Amplitude.toComplex_injective
  have hdigit : digit d p x < d := digit_lt hd p x
  -- of the sum over the digit, only the term of the digit itself counts
  rw [Tensor.toComplex_inner, sum_eq_single_of_mem _ (mem_range.mpr hdigit) fun b hb hne => ?_]
  · rw [Operator.toComplex_entry_identity hdigit hdigit, if_pos rfl, one_mul,
      insertDigit_removeDigit hd]
  · rw [Operator.toComplex_entry_identity hdigit (mem_range.mp hb), if_neg hne.symm, zero_mul]

/-- Zero at a position makes a vector without weight. -/
theorem chanceWeight_branchOn_zero (hd : 0 < d) (p : ℕ) (state : StateVector ℝ) :
    (chanceWeight (branchOn d (.matrix d d fun _ _ => 0) p state) : ℝ) = 0 := by
  rw [chanceWeight_real, branchOn, size_build]
  refine sum_eq_zero fun x hx => ?_
  rw [amplitude_build _ (mem_range.mp hx), Tensor.toComplex_inner, sum_eq_zero fun b hb => ?_,
    Complex.normSq_zero]
  rw [Tensor.entry_matrix _ (digit_lt hd p x) (mem_range.mp hb), Amplitude.toComplex_zero, zero_mul]

/-- A state divided by the root of one is the state. -/
theorem divRoot_one (state : StateVector ℝ) : state.divRoot (1 : ℝ) = state := by
  refine ext_amplitude (size_divRoot _ _) fun x _ => Amplitude.toComplex_injective ?_
  rw [amplitude_divRoot_real, Real.sqrt_one, Complex.ofReal_one, div_one]

end StateVector

/-- Of weights of which only the first one is not zero, the first one is drawn. -/
theorem sampleIndex_cons_zeros {weights : List ℝ} (hweights : ∀ w ∈ weights, w = 0) (u : ℝ) :
    sampleIndex (1 :: weights) u = .ok 0 := by
  have hnonneg : ∀ w ∈ 1 :: weights, (0 : ℝ) ≤ w := by
    rw [List.forall_mem_cons]
    exact ⟨zero_le_one, fun w hw => (hweights w hw).ge⟩
  have hsum : 0 < (1 :: weights).sum := by
    rw [List.sum_cons, List.sum_eq_zero hweights, add_zero]
    exact one_pos
  obtain ⟨i, hi⟩ := sampleIndex_eq_ok hnonneg hsum u
  cases i with
  | zero => exact hi
  | succ i =>
    -- a later index has no weight, so it is not drawn
    have hpos := pos_of_sampleIndex hi
    have hlt : i < weights.length := by simpa using lt_of_sampleIndex hi
    have hzero : (1 :: weights).getD (i + 1) 0 = 0 := by
      simpa [hlt] using hweights _ (List.getElem_mem hlt)
    exact absurd hpos (by rw [hzero]; exact lt_irrefl 0)

/-- The numbers that are left when some were consumed. -/
def Draws.skip {S : Type} (draws : Draws S) (n : ℕ) : Draws S := { draws with used := draws.used + n }

@[simp] theorem Draws.skip_zero {S : Type} (draws : Draws S) : draws.skip 0 = draws := rfl

theorem Draws.skip_skip {S : Type} (draws : Draws S) (m n : ℕ) :
    (draws.skip m).skip n = draws.skip (m + n) := by
  unfold skip
  rw [Nat.add_assoc]

theorem Draws.advance_eq_skip {S : Type} (draws : Draws S) : draws.advance = draws.skip 1 := rfl

namespace Trajectory

variable {d m : ℕ} {model : Trajectory ℝ} {state : StateVector ℝ} (hd : 2 ≤ d)
  (hidle : model.channel.Idle) (hdim : model.channel.dim = d)
  (hweight : (StateVector.chanceWeight state : ℝ) = 1)

include hd hidle hdim hweight

/-- The first branch of an idle channel is the state, and that is the one that is drawn. -/
theorem branchesOf_idle (p : ℕ) (u : ℝ) :
    ∃ rest, model.branchesOf d p state = state :: rest ∧
      sampleIndex ((model.branchesOf d p state).map StateVector.chanceWeight : List ℝ) u = .ok 0 := by
  have hpos : 0 < d := by omega
  obtain ⟨rest, hops, hrest⟩ := hidle
  rw [hdim] at hops hrest
  unfold branchesOf
  rw [hops, List.map_cons, Tensor.round_real, StateVector.branchOn_identity hpos, List.map_cons,
    hweight]
  refine ⟨_, rfl, sampleIndex_cons_zeros (fun w hw => ?_) u⟩
  obtain ⟨branch, hbranch, rfl⟩ := List.mem_map.mp hw
  obtain ⟨op, hop, rfl⟩ := List.mem_map.mp hbranch
  rw [hrest op hop, Tensor.round_real]
  exact StateVector.chanceWeight_branchOn_zero hpos p state

/-- An idle channel at a position of a state of weight one draws a number and leaves the state. -/
theorem run_apply_idle (hsize : state.size = d ^ m) {p : ℕ} (hp : p < m) (draws : Draws ℝ) :
    ∃ model', (model.apply state (.nat p)).run.run draws = (.ok (model', state), draws.advance) ∧
      model'.channel = model.channel := by
  obtain ⟨rest, hbranches, hdrawn⟩ := branchesOf_idle hd hidle hdim hweight p draws.current
  have hleft : state.divRoot (StateVector.chanceWeight state : ℝ) = state := by
    rw [hweight, StateVector.divRoot_one]
  rw [run_apply hd hsize hdim (hdim ▸ hidle.fits.shape) hp]
  dsimp only
  rw [hdrawn, hbranches, List.map_cons]
  dsimp only
  rw [List.getD_cons_zero, List.getD_cons_zero, hleft]
  exact ⟨_, rfl, rfl⟩

/-- An idle channel at the first positions of a state of weight one draws as many numbers and leaves
the state. -/
theorem run_applyBelow_idle (hsize : state.size = d ^ m) {j : ℕ} (hj : j ≤ m) (draws : Draws ℝ) :
    ∃ model', (model.applyBelow state j).run.run draws = (.ok (model', state), draws.skip j) ∧
      model'.channel = model.channel := by
  -- the state is the same at each position, so its weight stays one
  induction j with
  | zero => exact ⟨model, rfl, rfl⟩
  | succ j ih =>
    obtain ⟨between, hbelow, hchannel⟩ := ih (Nat.le_of_succ_le hj)
    obtain ⟨model', hlast, hchannel'⟩ := run_apply_idle hd (hchannel ▸ hidle) (hchannel ▸ hdim) hweight
      hsize (Nat.lt_of_succ_le hj) (draws.skip j)
    refine ⟨model', ?_, hchannel'.trans hchannel⟩
    rw [run_applyBelow_succ hbelow, hlast, Draws.advance_eq_skip, Draws.skip_skip]

/-- At each position of a state of weight one, an idle channel draws its branch zero. -/
theorem DrawsAt.eq_zero (hsize : state.size = d ^ m) {j branch : ℕ} (hj : j ≤ m) {draws : Draws ℝ}
    (h : model.DrawsAt state draws d j branch) : branch = 0 := by
  obtain ⟨before, state', draws', hbelow, hbranch⟩ := h
  obtain ⟨model', hidles, hchannel⟩ := run_applyBelow_idle hd hidle hdim hweight hsize hj draws
  rw [hidles] at hbelow
  cases hbelow
  obtain ⟨rest, -, hdrawn⟩ := branchesOf_idle hd (hchannel ▸ hidle) (hchannel ▸ hdim) hweight j
    (draws.skip j).current
  exact Except.ok.inj (hbranch.symm.trans hdrawn)

end Trajectory

end QuditSim
