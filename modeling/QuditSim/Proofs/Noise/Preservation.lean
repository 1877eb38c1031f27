import QuditSim.Proofs.Noise.Creation
import QuditSim.Proofs.NotANumber

/-!
# Channels that keep the trace

A channel is made unless its products are too far from the identity, and it keeps the trace if they
are not too far. In double precision these are not the same: a distance that is not a number is
neither above nor below a tolerance, and so is a probability above or below its bounds.

- `Channel.isTracePreserving_iff`: a channel that was made keeps the trace just if the distance is a
  number.
- `Channel.isNaN_deviation`: it is none if a part of an entry of an operator is none.
- `Channel.preserving_iff_isNaN` has both, with the channels of the library: outside of the unit
  interval they refuse every probability that is a number, and no other.
-/

namespace QuditSim

namespace Channel

open NotANumber

/-! ## Operators that are not numbers -/

/-- An operator with a broken entry spoils the entry of the sum on the diagonal of its column. -/
theorem spoiled_entry_total {d : Nat} {ops : List (Operator Float)}
    (hops : ∀ op ∈ ops, op.shape = [d, d]) {i k : Nat} (hi : i < d) (hk : k < d)
    (h : ∃ op ∈ ops, (op.entry i k).Broken) : ((total d ops).entry k k).Spoiled := by
  -- the products are added one after the other, to a sum that may be spoiled already
  have hfold : ∀ sum : Operator Float, sum.shape = [d, d] →
      ((sum.entry k k).Spoiled ∨ ∃ op ∈ ops, (op.entry i k).Broken) →
      ((ops.foldl (fun sum op => sum.add (op.adjoint * op)) sum).entry k k).Spoiled := by
    clear h
    induction ops with
    | nil =>
      rintro sum - (hsum | ⟨op, hop, -⟩)
      · exact hsum
      · cases hop
    | cons op ops ih =>
      obtain ⟨hop, hops⟩ := List.forall_mem_cons.mp hops
      intro sum hsum h
      have hadjoint : op.adjoint.shape = [d, d] := Tensor.shape_adjoint hop
      have hproduct : (op.adjoint * op).shape = [d, d] := Tensor.shape_mul hadjoint hop
      refine ih hops (sum.add (op.adjoint * op)) hsum ?_
      rw [Tensor.entry_add hsum hproduct hk hk]
      rcases h with h | ⟨other, hother, hbroken⟩
      · exact .inl (Amplitude.spoiled_add (.inl h))
      · rcases List.mem_cons.mp hother with rfl | hother
        · refine .inl (Amplitude.spoiled_add (.inr ?_))
          rw [Tensor.entry_mul hadjoint hop hk hk]
          exact Tensor.spoiled_inner hi (.inr hbroken)
        · exact .inr ⟨other, hother, hbroken⟩
  exact hfold _ rfl (.inr h)

/-- The distance from the identity is not a number if a part of an entry is none. -/
theorem isNaN_deviation {d : Nat} {ops : List (Operator Float)}
    (hops : ∀ op ∈ ops, op.shape = [d, d]) {i k : Nat} (hi : i < d) (hk : k < d)
    (h : ∃ op ∈ ops, (op.entry i k).Broken) : (deviation d ops).isNaN = true := by
  have hentry : (total d ops).entry k k = (total d ops).get (k * d + k) := by
    unfold Tensor.entry
    rw [Tensor.columns_of_shape (shape_total d ops)]
  have hspoiled := spoiled_entry_total hops hi hk h
  rw [hentry] at hspoiled
  have hplace : k * d + k < d * d := by
    simpa using Tensor.place_lt hk hk
  refine isNaN_foldl_largest (.inr ⟨_, List.mem_map.mpr ⟨k * d + k, ?_, rfl⟩, ?_⟩)
  · exact List.mem_range.mpr hplace
  · exact hspoiled.sub.isNaN_modulus

/-! ## The guard and the query -/

theorem isNaN_standardTolerance : (standardTolerance : Float).isNaN = false := rfl

/-- A channel that was made keeps the trace just if the distance is a number. -/
theorem isTracePreserving_iff {name : Json} {items : List (BranchItem Float)} {dim : Argument}
    {channel : Channel Float} (h : create name items dim = .ok channel) :
    channel.isTracePreserving standardTolerance = true ↔
      (deviation channel.dim channel.ops).isNaN = false := by
  obtain ⟨-, hguard⟩ := guarded_of_create h
  unfold isTracePreserving
  rw [decide_eq_true_iff]
  constructor
  · intro hle
    by_contra hnan
    exact not_le_of_isNaN (by simpa using hnan) hle
  · intro hnan
    exact (le_iff_not_lt hnan isNaN_standardTolerance).mpr hguard

/-- What makes a channel that does not keep the trace. -/
def MakesLossy (made : Except ChannelFault (Channel Float)) : Prop :=
  ∃ channel, made = .ok channel ∧ channel.isTracePreserving standardTolerance = false

/-- Operators whose products are at a distance that is not a number make a channel, and it does not
keep the trace. -/
theorem makesLossy_create (name : Json) {d : Nat} (hd : 2 ≤ d) {ops : List (Operator Float)}
    (hne : ops ≠ []) (hops : ∀ op ∈ ops, op.shape = [d, d])
    (hnan : (deviation d ops).isNaN = true) :
    MakesLossy (create name (ops.map .operator) (.nat d)) := by
  refine ⟨⟨name, d, ops⟩, ?_, decide_eq_false (not_le_of_isNaN hnan)⟩
  rw [create_operators name hd hne hops, if_neg (not_lt_of_isNaN_right hnan)]

/-- So do operators of which a part of an entry is not a number. -/
theorem makesLossy_of_broken (name : Json) {d : Nat} (hd : 2 ≤ d) {ops : List (Operator Float)}
    (hops : ∀ op ∈ ops, op.shape = [d, d]) {i k : Nat} (hi : i < d) (hk : k < d)
    (h : ∃ op ∈ ops, (op.entry i k).Broken) :
    MakesLossy (create name (ops.map .operator) (.nat d)) := by
  obtain ⟨op, hop, -⟩ := id h
  exact makesLossy_create name hd (List.ne_nil_of_mem hop) hops (isNaN_deviation hops hi hk h)

/-! ## The channels of the library -/

/-- A probability is refused for being outside of the unit interval. -/
def RefusesProbability {S : Type} (p : Written S) (made : Except ChannelFault (Channel S)) : Prop :=
  ∃ label, made = .error (.notProbability label p.text)

section Outside

variable {p : Written Float}

theorem checkProbability_outside (h : p.value < 0 ∨ 1 < p.value) (label : String) :
    checkProbability p label = .error (.notProbability label p.text) :=
  if_pos h

/-- A number outside of the unit interval is refused before anything else is looked at. -/
theorem refusesProbability_qubit (h : p.value < 0 ∨ 1 < p.value) :
    ∀ made ∈ qubitChannels p, RefusesProbability p made := by
  unfold qubitChannels bitFlip phaseFlip bitPhaseFlip flip depolarizing amplitudeDamping phaseDamping
  simp only [checkProbability_outside h, List.forall_mem_cons, List.not_mem_nil, false_imp_iff,
    implies_true, and_true]
  exact ⟨⟨_, rfl⟩, ⟨_, rfl⟩, ⟨_, rfl⟩, ⟨_, rfl⟩, ⟨_, rfl⟩, ⟨_, rfl⟩⟩

theorem refusesProbability_qudit (h : p.value < 0 ∨ 1 < p.value) (dim : Argument) :
    ∀ made ∈ quditChannels p dim, RefusesProbability p made := by
  unfold quditChannels quditDepolarizing quditDephasing
  simp only [checkProbability_outside h, List.forall_mem_cons, List.not_mem_nil, false_imp_iff,
    implies_true, and_true]
  exact ⟨⟨_, rfl⟩, ⟨_, rfl⟩⟩

end Outside

section Undefined

variable {p : Written Float} (hp : p.value.isNaN = true)

include hp

theorem checkProbability_of_isNaN (label : String) : checkProbability p label = .ok () := by
  have hinside : ¬ (p.value < 0 ∨ 1 < p.value) := by
    rintro (h | h)
    · exact not_lt_of_isNaN hp h
    · exact not_lt_of_isNaN_right hp h
  exact if_neg hinside

/-- The weight of no error is not a number. -/
theorem isNaN_sqrt_one_sub : (Scalar.sqrt (1 - p.value)).isNaN = true :=
  isNaN_sqrt (isNaN_sub (.inr hp))

/-- The operator of no error and those of errors make a channel that does not keep the trace. -/
theorem makesLossy_errors (name : Json) {d : Nat} (hd : 2 ≤ d) {errors : List (Operator Float)}
    (herrors : ∀ op ∈ errors, op.shape = [d, d]) (x : Float) :
    MakesLossy (create name
      (.operator ((Tensor.identity d).scale (Scalar.sqrt (1 - p.value))) ::
        errors.map fun op => .operator (op.scale x)) (.nat d)) := by
  have hpos : 0 < d := by omega
  have hops : ∀ op ∈ (Tensor.identity d).scale (Scalar.sqrt (1 - p.value)) ::
      errors.map (Tensor.scale x), op.shape = [d, d] := by
    rw [List.forall_mem_cons, List.forall_mem_map]
    exact ⟨rfl, herrors⟩
  have hlossy := makesLossy_of_broken name hd hops hpos hpos ⟨_, List.mem_cons_self, ?_⟩
  · rwa [List.map_cons, List.map_map] at hlossy
  · have hbroken : (Amplitude.ofReal (Scalar.sqrt (1 - p.value))).Broken :=
      .inl (isNaN_sqrt_one_sub hp)
    rw [Tensor.entry_scale _ rfl hpos hpos]
    exact (Amplitude.spoiled_mul (.inl hbroken)).broken

theorem makesLossy_flip (label name : String) {error : Operator Float} (herror : error.shape = [2, 2]) :
    MakesLossy (flip p label name error) := by
  unfold flip ofPair
  rw [checkProbability_of_isNaN hp]
  exact makesLossy_errors hp _ (Nat.le_refl 2) (List.forall_mem_singleton.mpr herror) _

/-- Both dampings keep the upper state with a weight that is not a number. -/
theorem makesLossy_damping (name : String) {loss : Operator Float} (hloss : loss.shape = [2, 2]) :
    MakesLossy (ofPair name
      (Gate.ofRows [[1, 0], [0, .ofReal (Scalar.sqrt (1 - p.value))]]) loss) := by
  have hpair : ∀ op ∈ [Gate.ofRows [[1, 0], [0, .ofReal (Scalar.sqrt (1 - p.value))]], loss],
      op.shape = [2, 2] := by
    rw [List.forall_mem_cons, List.forall_mem_singleton]
    exact ⟨rfl, hloss⟩
  have hentry : (Gate.ofRows [[1, 0], [0, .ofReal (Scalar.sqrt (1 - p.value))]]).entry 1 1 =
      Amplitude.ofReal (Scalar.sqrt (1 - p.value)) :=
    Tensor.entry_matrix _ Nat.one_lt_two Nat.one_lt_two
  refine makesLossy_of_broken _ (Nat.le_refl 2) hpair Nat.one_lt_two Nat.one_lt_two
    ⟨_, List.mem_cons_self, ?_⟩
  rw [hentry]
  exact .inl (isNaN_sqrt_one_sub hp)

theorem makesLossy_qubit : ∀ made ∈ qubitChannels p, MakesLossy made := by
  have hpauli : ∀ op ∈ [Gate.pauliX, Gate.pauliY, (Gate.pauliZ : Operator Float)],
      op.shape = [2, 2] := by
    simp only [List.forall_mem_cons, List.not_mem_nil, false_imp_iff, implies_true, and_true]
    exact ⟨rfl, rfl, rfl⟩
  unfold qubitChannels
  simp only [List.forall_mem_cons, List.not_mem_nil, false_imp_iff, implies_true, and_true]
  refine ⟨makesLossy_flip hp _ _ rfl, makesLossy_flip hp _ _ rfl, makesLossy_flip hp _ _ rfl, ?_, ?_,
    ?_⟩
  · unfold depolarizing
    rw [checkProbability_of_isNaN hp]
    exact makesLossy_errors hp _ (Nat.le_refl 2) hpauli _
  · have hdecay : (Gate.ofRows [[0, .ofReal (Scalar.sqrt p.value)], [0, 0]]).shape = [2, 2] := rfl
    unfold amplitudeDamping
    rw [checkProbability_of_isNaN hp]
    exact makesLossy_damping hp _ hdecay
  · have hloss : (Gate.ofRows [[0, 0], [0, .ofReal (Scalar.sqrt p.value)]]).shape = [2, 2] := rfl
    unfold phaseDamping
    rw [checkProbability_of_isNaN hp]
    exact makesLossy_damping hp _ hloss

theorem makesLossy_qudit {dim : Argument} {d : Nat} (hdim : quditDimension dim = .ok d) :
    ∀ made ∈ quditChannels p dim, MakesLossy made := by
  obtain ⟨hd, rfl⟩ := eq_nat_of_quditDimension hdim
  unfold quditChannels
  simp only [List.forall_mem_cons, List.not_mem_nil, false_imp_iff, implies_true, and_true]
  constructor
  · unfold quditDepolarizing
    rw [checkProbability_of_isNaN hp, hdim]
    exact makesLossy_errors hp _ hd shape_weylOperators _
  · unfold quditDephasing
    rw [checkProbability_of_isNaN hp, hdim]
    have hpowers : ∀ op ∈ (List.range (d - 1)).map fun b => (Gate.clock d : Operator Float).pow (b + 1),
        op.shape = [d, d] := by
      rw [List.forall_mem_map]
      exact fun b _ => Tensor.shape_pow rfl (b + 1)
    have hmade := makesLossy_errors hp (.string ("qudit_dephasing(p=" ++ p.text ++ ", d=" ++
      (Argument.nat d).text ++ ")")) hd hpowers (Scalar.sqrt (p.value / Scalar.ofNat (d - 1)))
    rw [List.map_map] at hmade
    exact hmade

end Undefined

/-- A channel that was made keeps the trace just if the distance of its products from the identity is
a number, which it is not if any part of an entry is none. The channels of the library are refused
for a number outside of the unit interval; for what is not a number they are made, and do not keep
the trace. -/
theorem preserving_iff_isNaN (name : Json) (items : List (BranchItem Float)) (dim : Argument)
    (p : Written Float) :
    (∀ channel, create name items dim = .ok channel →
      (channel.isTracePreserving standardTolerance = true ↔
        (deviation channel.dim channel.ops).isNaN = false)) ∧
    (∀ d (ops : List (Operator Float)), 2 ≤ d → (∀ op ∈ ops, op.shape = [d, d]) →
      (∃ op ∈ ops, ∃ i < d, ∃ k < d, (op.entry i k).Broken) →
        MakesLossy (create name (ops.map .operator) (.nat d))) ∧
    (p.value.isNaN = false → ¬ (0 ≤ p.value ∧ p.value ≤ 1) →
      ∀ made ∈ qubitChannels p ++ quditChannels p dim, RefusesProbability p made) ∧
    (p.value.isNaN = true → (∀ made ∈ qubitChannels p, MakesLossy made) ∧
      ∀ d, quditDimension dim = .ok d → ∀ made ∈ quditChannels p dim, MakesLossy made) := by
  refine ⟨fun _ => isTracePreserving_iff, ?_, fun hnumber hp => ?_, fun hnan => ?_⟩
  · rintro d ops hd hops ⟨op, hop, i, hi, k, hk, hbroken⟩
    exact makesLossy_of_broken name hd hops hi hk ⟨op, hop, hbroken⟩
  · -- a number that is not in the interval is below it or above it
    have houtside : p.value < 0 ∨ 1 < p.value := by
      rw [le_iff_not_lt rfl hnumber, le_iff_not_lt hnumber rfl] at hp
      by_contra hinside
      rw [not_or] at hinside
      exact hp hinside
    rw [List.forall_mem_append]
    exact ⟨refusesProbability_qubit houtside, refusesProbability_qudit houtside dim⟩
  · exact ⟨makesLossy_qubit hnan, fun d hdim => makesLossy_qudit hnan hdim⟩

/-- A bit flip with a probability that is not a number, and an operator with finite entries whose
products are not: both channels exist and do not keep the trace. -/
theorem lossy_channels :
    let p : Written Float := ⟨0 / 0, "nan"⟩
    let huge : Operator Float :=
      Gate.ofRows [[.ofReal 1e200, .ofReal 1e200], [.ofReal 1e200, .ofReal (-1e200)]]
    ¬ (0 ≤ p.value ∧ p.value ≤ 1) ∧ MakesLossy (bitFlip p) ∧
      MakesLossy (create (.string "huge") [.operator huge] (.int 2)) := by
  intro p huge
  have hp : p.value.isNaN = true := by decide +kernel
  have hdeviation : (deviation 2 [huge]).isNaN = true := by decide +kernel
  refine ⟨fun h => not_le_of_isNaN hp h.2, makesLossy_flip hp _ _ rfl, ?_⟩
  exact makesLossy_create _ (Nat.le_refl 2) (List.cons_ne_nil _ _)
    (List.forall_mem_singleton.mpr rfl) hdeviation

end Channel

end QuditSim
