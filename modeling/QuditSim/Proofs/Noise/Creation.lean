import QuditSim.Proofs.Engine.Reachable
import QuditSim.Proofs.Tensor.Entries

/-!
# What channels are made of

The guard of a channel compares the largest distance of the products from the identity with a
tolerance, over any scalars.

- `Channel.create_operators` says what becomes of square operators of a dimension.
- `Channel.guarded_of_create` is what is known of a channel that was made, besides the shapes.
- `Channel.qubitChannels` and `Channel.quditChannels` are the channels that the library makes.
-/

namespace QuditSim

open Fallible

namespace Channel

variable {S : Type} [Scalar S]

/-- The sum of the products of operators with their adjoints has the dimension. -/
theorem shape_total (dim : Nat) (ops : List (Operator S)) : (total dim ops).shape = [dim, dim] := by
  unfold total
  exact List.foldlRecOn (motive := fun sum : Operator S => sum.shape = [dim, dim]) ops _ rfl
    fun sum hsum op _ => hsum

/-- Square operators of a dimension make a channel, unless their products are too far from the
identity. -/
theorem create_operators (name : Json) {d : Nat} (hd : 2 ≤ d) {ops : List (Operator S)}
    (hne : ops ≠ []) (hops : ∀ op ∈ ops, op.shape = [d, d]) :
    create name (ops.map .operator) (.nat d) =
      if standardTolerance < deviation d ops then
        .error (.notPreserving (Scalar.toFloat (deviation d ops)))
      else .ok ⟨name, d, ops⟩ := by
  have hdimension : checkDimension (.nat d) = .ok () := by
    have hlarge : ¬ (d : Int) < 2 := by omega
    simp [checkDimension, Argument.number?, Argument.nat, Number.below, hlarge]
  have hitems (k : Nat) : ((ops.map BranchItem.operator).zipIdx k).mapM (fun item =>
      operatorOf (.nat d) item.2 item.1) = .ok ops := by
    clear hne
    induction ops generalizing k with
    | nil => rfl
    | cons op ops ih =>
      obtain ⟨hop, hops⟩ := List.forall_mem_cons.mp hops
      rw [List.map_cons, List.zipIdx_cons, mapM_cons_eq_ok]
      refine ⟨op, ops, ?_, ih hops (k + 1), rfl⟩
      simp [operatorOf, Tensor.rank, hop, Argument.nat]
  have hpresent : (ops.map BranchItem.operator).isEmpty = false := by simpa using hne
  unfold create
  rw [hdimension, hpresent]
  dsimp only
  rw [hitems]
  dsimp only [bind, Except.bind, pure, Except.pure, Argument.nat, Argument.index?_int]
  rw [if_neg Bool.false_ne_true, Int.toNat_natCast]
  split <;> rfl

/-- A channel that was made is on two dimensions or more, and its products passed the guard. -/
theorem guarded_of_create {name : Json} {items : List (BranchItem S)} {dim : Argument}
    {channel : Channel S} (h : create name items dim = .ok channel) :
    2 ≤ channel.dim ∧ ¬ standardTolerance < deviation channel.dim channel.ops := by
  simp only [create, bind_eq_ok, exists_unit] at h
  obtain ⟨hdim, h⟩ := h
  split at h
  · cases h
  rw [bind_eq_ok] at h
  obtain ⟨ops, -, h⟩ := h
  split at h
  · next d hd =>
    split at h
    · cases h
    · next hguard =>
      cases h
      refine ⟨?_, hguard⟩
      -- the bound was checked of the dimension as given
      cases dim with
      | int value =>
        cases hd
        have hlarge : ¬ d < 2 := by simpa [checkDimension, Argument.number?, Number.below] using hdim
        show 2 ≤ d.toNat
        omega
      | truth value => cases value <;> cases hdim
      | float value => cases hd
      | foreign text => cases hd
  · cases h

/-! ## The channels of the library -/

/-- The channels of a qubit that the library makes from a parameter. -/
def qubitChannels {S : Type} [Scalar S] (p : Written S) : List (Except ChannelFault (Channel S)) :=
  [bitFlip p, phaseFlip p, bitPhaseFlip p, depolarizing p, amplitudeDamping p, phaseDamping p]

/-- The channels of a qudit that the library makes from a parameter. -/
def quditChannels {S : Type} [Angles S] (p : Written S) (dim : Argument) :
    List (Except ChannelFault (Channel S)) :=
  [quditDepolarizing p dim, quditDephasing p dim]

/-- A dimension of qudits is a natural number from two on. -/
theorem eq_nat_of_quditDimension {dim : Argument} {d : Nat} (h : quditDimension dim = .ok d) :
    2 ≤ d ∧ dim = .nat d := by
  cases dim with
  | int value =>
    obtain ⟨hd, rfl⟩ := (quditDimension_eq_ok_iff value d).mp h
    exact ⟨hd, rfl⟩
  -- a truth value is below two
  | truth value => cases value <;> cases h
  | float value =>
    unfold quditDimension Argument.number? Argument.index? at h
    dsimp only at h
    split at h <;> cases h
  | foreign text => cases h

/-- The products of powers of the shift and the clock have the dimension. -/
theorem shape_weylOperators {S : Type} [Angles S] {d : Nat} :
    ∀ op ∈ (weylOperators d : List (Operator S)), op.shape = [d, d] := by
  intro op hop
  obtain ⟨⟨a, b⟩, -, hop⟩ := List.mem_filterMap.mp hop
  dsimp only at hop
  split at hop
  · cases hop
  · cases hop
    exact Tensor.shape_mul (Tensor.shape_pow rfl a) (Tensor.shape_pow rfl b)

end Channel

end QuditSim
