import QuditSim.Exchange.Library
import QuditSim.Proofs.Gate.Relations

/-!
# Names that are looked up

A library names an operator by the first entry that it matches. Entries are only ever added behind
the others, so a name that was found once is found again, whatever is registered later, and an entry
is hidden by an entry before it only.

- `Operator.Matches` says when an operator matches an entry, and `GateLibrary.agrees_iff` that this
  is what a library tests.
- `GateLibrary.nameOf_eq_of_first` and `GateLibrary.nameOf_eq_blank_iff`: the name is that of the
  first entry that matches, and there is none just if no entry matches.
- `GateLibrary.nameOf_registerAll`: a name stays, whatever is registered later.
- `Gate.not_matches_identity_clock` and its companions: over the real numbers, the gates that a
  library starts with differ from each other in some entry by more than the standard tolerance.
- `GateLibrary.names_first`: all of this for the libraries that come from the standard ones.
-/

open Finset

namespace QuditSim

/-! ## Labels -/

/-- As labels, the empty text names nothing, and any other text names something. -/
class Label.Lawful (N : Type) [Label N] : Prop where
  /-- A text is blank just if it is empty. -/
  isBlank_ofText : ∀ text : String, Label.isBlank (Label.ofText text : N) = (text == "")

instance : Label.Lawful String := ⟨fun _ => rfl⟩

instance : Label.Lawful Json where
  isBlank_ofText text := by
    show Json.isBlank (.string text) = (text == "")
    by_cases h : text = ""
    · rw [h]
      rfl
    · rw [beq_eq_false_iff_ne.mpr h]
      unfold Json.isBlank
      split <;> simp_all

/-! ## Matching operators -/

section Matches

variable {S : Type} [Scalar S]

/-- Two amplitudes are equal, or stand at a finite distance of at most the tolerance. -/
def Amplitude.CloseTo (tolerance : S) (z w : Amplitude S) : Prop :=
  (z == w) = true ∨ Scalar.isFinite (z - w).modulus = true ∧ (z - w).modulus ≤ tolerance

/-- Two operators have the same shape, and their entries are close to each other, place by place. -/
structure Operator.Matches (tolerance : S) (known probe : Operator S) : Prop where
  /-- The shapes are the same. -/
  shape_eq : known.shape = probe.shape
  /-- The entries are close to each other. -/
  close : ∀ place < known.shape.prod, (known.get place).CloseTo tolerance (probe.get place)

/-- A library tests whether an operator matches. -/
theorem GateLibrary.agrees_iff {tolerance : S} {known probe : Operator S} :
    agrees tolerance known probe = true ↔ known.Matches tolerance probe := by
  have hclose (z w : Amplitude S) : (z == w || (Scalar.isFinite (z - w).modulus &&
      decide ((z - w).modulus ≤ tolerance))) = true ↔ z.CloseTo tolerance w := by
    simp [Amplitude.CloseTo]
  unfold agrees Tensor.near
  rw [Bool.and_eq_true, beq_iff_eq, List.all_eq_true]
  -- of operators of one shape, the entries are paired up to the last ones
  refine ⟨fun ⟨hshape, hall⟩ => ⟨hshape, fun place hplace => ?_⟩, fun ⟨hshape, hnear⟩ =>
    ⟨hshape, fun pair hpair => ?_⟩⟩
  · have h : place < known.entries.size := by rwa [known.size_entries]
    have h' : place < probe.entries.size := by rwa [probe.size_entries, ← hshape]
    have hmem : (known.get place, probe.get place) ∈
        known.entries.toList.zip probe.entries.toList :=
      List.mem_iff_getElem.mpr ⟨place, by simpa using ⟨h, h'⟩, by simp [Tensor.get, h, h']⟩
    exact (hclose _ _).mp (hall _ hmem)
  · obtain ⟨place, hplace, rfl⟩ := List.mem_iff_getElem.mp hpair
    obtain ⟨h, h'⟩ : place < known.entries.size ∧ place < probe.entries.size := by
      simpa using hplace
    have hplaces := hnear place (by rwa [← known.size_entries])
    simpa [Tensor.get, h, h'] using (hclose _ _).mpr hplaces

end Matches

/-! ## Libraries -/

namespace GateLibrary

variable {N S : Type} [Label N]

/-- A library after registrations, of which those with a blank name are refused. -/
def registerAll (library : GateLibrary N S) (calls : List (N × Operator S)) : GateLibrary N S :=
  calls.foldl (fun library call => (library.register? call.1 call.2).getD library) library

/-- A registration is refused, or puts its entry behind the others. -/
theorem register_getD (library : GateLibrary N S) (name : N) (op : Operator S) :
    (library.register? name op).getD library =
      { library with
        entries := library.entries ++ if Label.isBlank name then [] else [(name, op)] } := by
  unfold register?
  split
  · rw [List.append_nil]
    rfl
  · rfl

/-- Registrations put their entries behind the others, in order. -/
theorem registerAll_eq (library : GateLibrary N S) (calls : List (N × Operator S)) :
    library.registerAll calls = { library with
      entries := library.entries ++ calls.filter fun call => !Label.isBlank call.1 } := by
  -- the later calls are made to the library that the first one left
  induction calls generalizing library with
  | nil =>
    rw [List.filter_nil, List.append_nil]
    rfl
  | cons call calls ih =>
    have hstep : library.registerAll (call :: calls) =
        ((library.register? call.1 call.2).getD library).registerAll calls := rfl
    rw [hstep, ih, register_getD, List.filter_cons]
    cases Label.isBlank call.1 <;> simp

/-- Every entry has a name. -/
def Labelled (library : GateLibrary N S) : Prop :=
  ∀ entry ∈ library.entries, Label.isBlank entry.1 = false

theorem Labelled.registerAll {library : GateLibrary N S} (h : library.Labelled)
    (calls : List (N × Operator S)) : (library.registerAll calls).Labelled := by
  intro entry hentry
  rw [registerAll_eq] at hentry
  rcases List.mem_append.mp hentry with hold | hnew
  · exact h entry hold
  · simpa using (List.mem_filter.mp hnew).2

variable [Label.Lawful N]

theorem labelled_standard [Angles S] (dim : ℕ) (tolerance : S) :
    (standard dim tolerance : GateLibrary N S).Labelled := by
  -- the names can be read off without a look at the gates
  have hnames : (standardEntries dim : List (String × Operator S)).map Prod.fst =
      (if dim = 2 then ["H", "X", "Y", "Z", "S", "T", "CNOT", "CZ", "SWAP", "TOF"] else []) ++
        ["Id" ++ toString dim, "Xd", "Zd", "Fd"] := by
    unfold standardEntries
    split <;> rfl
  have hne : ∀ name ∈ (standardEntries dim : List (String × Operator S)).map Prod.fst, name ≠ "" := by
    rw [hnames]
    split <;> simp
  intro entry hentry
  obtain ⟨given, hgiven, rfl⟩ := List.mem_map.mp hentry
  show Label.isBlank (Label.ofText given.1 : N) = false
  rw [Label.Lawful.isBlank_ofText]
  exact beq_eq_false_iff_ne.mpr (hne _ (List.mem_map_of_mem hgiven))

variable [Scalar S]

omit [Label.Lawful N] in
/-- The first entry that an operator matches gives the name. -/
theorem nameOf_eq_of_first {library : GateLibrary N S} {probe op : Operator S} {name : N}
    {before after : List (N × Operator S)} (hentries : library.entries = before ++ (name, op) :: after)
    (hmatches : op.Matches library.tolerance probe)
    (hbefore : ∀ entry ∈ before, ¬ entry.2.Matches library.tolerance probe) :
    library.nameOf probe = name := by
  have hfound : library.entries.find? (fun entry => agrees library.tolerance entry.2 probe) =
      some (name, op) := by
    rw [List.find?_eq_some_iff_append]
    refine ⟨agrees_iff.mpr hmatches, before, after, hentries, fun entry hentry => ?_⟩
    rw [Bool.not_eq_true', Bool.eq_false_iff]
    exact fun hagrees => hbefore entry hentry (agrees_iff.mp hagrees)
  unfold nameOf
  rw [hfound]

/-- No name is found just if no entry matches. -/
theorem nameOf_eq_blank_iff {library : GateLibrary N S} (h : library.Labelled) (probe : Operator S) :
    library.nameOf probe = Label.ofText "" ↔
      ∀ entry ∈ library.entries, ¬ entry.2.Matches library.tolerance probe := by
  simp only [← agrees_iff]
  rw [← List.find?_eq_none]
  unfold nameOf
  cases hfound : library.entries.find? fun entry => agrees library.tolerance entry.2 probe with
  | none => simp
  | some entry =>
    have hlabel := h entry (List.mem_of_find?_eq_some hfound)
    simp only [reduceCtorEq, iff_false]
    intro hblank
    rw [hblank, Label.Lawful.isBlank_ofText] at hlabel
    cases hlabel

omit [Label.Lawful N] in
/-- A name that was found is found again, whatever is registered later. -/
theorem nameOf_registerAll {library : GateLibrary N S} {probe : Operator S}
    (h : library.nameOf probe ≠ Label.ofText "") (calls : List (N × Operator S)) :
    (library.registerAll calls).nameOf probe = library.nameOf probe := by
  rw [registerAll_eq]
  unfold nameOf at h ⊢
  rw [List.find?_append]
  -- an entry that is found among the old ones is found before any new one
  cases hfound : library.entries.find? fun entry => agrees library.tolerance entry.2 probe with
  | none =>
    rw [hfound] at h
    exact absurd rfl h
  | some entry => rfl

end GateLibrary

/-! ## Gates that differ -/

/-- Over the real numbers, where every distance is finite, amplitudes are close just if they stand
at most at the tolerance. -/
theorem Amplitude.closeTo_iff {tolerance : ℝ} (htolerance : 0 ≤ tolerance) {z w : Amplitude ℝ} :
    z.CloseTo tolerance w ↔ ‖z.toComplex - w.toComplex‖ ≤ tolerance := by
  have hmodulus : (z - w).modulus = ‖z.toComplex - w.toComplex‖ := by
    rw [Complex.norm_def, Complex.normSq_apply]
    rfl
  unfold CloseTo
  rw [hmodulus]
  refine ⟨?_, fun hle => .inr ⟨rfl, hle⟩⟩
  rintro (heq | ⟨-, hle⟩)
  · obtain ⟨hre, him⟩ := Bool.and_eq_true_iff.mp heq
    obtain rfl : z = w := Amplitude.ext (eq_of_beq hre) (eq_of_beq him)
    rwa [sub_self, norm_zero]
  · exact hle

namespace Operator

variable {known probe : Operator ℝ} {tolerance : ℝ} {d : ℕ}

/-- Over the real numbers, an operator matches itself. -/
theorem matches_self (tolerance : ℝ) (op : Operator ℝ) : op.Matches tolerance op := by
  refine ⟨rfl, fun place _ => .inl (Bool.and_eq_true_iff.mpr ⟨?_, ?_⟩)⟩
  · exact beq_self_eq_true _
  · exact beq_self_eq_true _

/-- The entries of operators that match stand at most at the tolerance. -/
theorem Matches.norm_sub_le (h : known.Matches tolerance probe) (htolerance : 0 ≤ tolerance)
    (hshape : known.shape = [d, d]) (i j : Fin d) :
    ‖known.matrix d i j - probe.matrix d i j‖ ≤ tolerance := by
  have hplace : i.1 * d + j < known.shape.prod := by
    rw [hshape]
    exact Tensor.place_lt i.isLt j.isLt
  have hclose := (Amplitude.closeTo_iff htolerance).mp (h.close _ hplace)
  have hentry : known.entry i j = known.get (i.1 * d + j) := by
    unfold Tensor.entry
    rw [Tensor.columns_of_shape hshape]
  have hentry' : probe.entry i j = probe.get (i.1 * d + j) := by
    unfold Tensor.entry
    rw [Tensor.columns_of_shape (h.shape_eq ▸ hshape)]
  rw [← hentry, ← hentry'] at hclose
  exact hclose

end Operator

namespace Gate

variable {d : ℕ} {tolerance : ℝ}

/-- Operators that differ by more than the tolerance in an entry do not match. -/
theorem not_matches_of_lt {known probe : Operator ℝ} (h0 : 0 ≤ tolerance)
    (hshape : known.shape = [d, d]) (i j : Fin d)
    (hfar : tolerance < ‖known.matrix d i j - probe.matrix d i j‖) :
    ¬ known.Matches tolerance probe :=
  fun h => (h.norm_sub_le h0 hshape i j).not_gt hfar

/-- The shift leaves no basis state where it is. -/
theorem rotation_one_self (hd : 2 ≤ d) (i : Fin d) : rotation d 1 i i = 0 := by
  rw [rotation, Matrix.of_apply]
  refine if_neg fun hi => ?_
  have hlt := i.isLt
  by_cases hlast : i.1 + 1 = d
  · rw [hlast, Nat.mod_self] at hi
    omega
  · rw [Nat.mod_eq_of_lt (by omega)] at hi
    omega

section Apart

variable (hd : 2 ≤ d) (h0 : 0 ≤ tolerance) (h1 : tolerance < 1)

include hd h0 h1

theorem not_matches_identity_shift :
    ¬ Operator.Matches tolerance (.identity d) (shift d : Operator ℝ) := by
  have hfirst : 0 < d := by omega
  refine not_matches_of_lt h0 rfl ⟨0, hfirst⟩ ⟨0, hfirst⟩ ?_
  rw [Operator.matrix_identity, matrix_shift, Matrix.one_apply_eq, rotation_one_self hd, sub_zero,
    norm_one]
  exact h1

theorem not_matches_shift_clock :
    ¬ Operator.Matches tolerance (shift d) (clock d : Operator ℝ) := by
  have hfirst : 0 < d := by omega
  refine not_matches_of_lt h0 rfl ⟨0, hfirst⟩ ⟨0, hfirst⟩ ?_
  rw [matrix_shift, matrix_clock, rotation_one_self hd, Matrix.diagonal_apply_eq, pow_zero, zero_sub,
    norm_neg, norm_one]
  exact h1

/-- The powers of the root cannot all be near to one, because they sum up to zero. -/
theorem not_matches_identity_clock :
    ¬ Operator.Matches tolerance (.identity d) (clock d : Operator ℝ) := by
  intro h
  have hroot := isPrimitiveRoot_root (d := d) (by omega)
  have hnear : ∀ j ∈ range d, ‖1 - root d ^ j‖ ≤ tolerance := by
    intro j hj
    have hle := h.norm_sub_le h0 rfl ⟨j, mem_range.mp hj⟩ ⟨j, mem_range.mp hj⟩
    rwa [Operator.matrix_identity, matrix_clock, Matrix.one_apply_eq, Matrix.diagonal_apply_eq] at hle
  have hpos : (0 : ℝ) < d := Nat.cast_pos.mpr (by omega)
  -- the powers cancel, so their distances to one sum up to at least `d`
  have hle : (d : ℝ) ≤ d * tolerance := by
    calc (d : ℝ) = ‖∑ j ∈ range d, (1 - root d ^ j)‖ := by
          rw [sum_sub_distrib, hroot.geom_sum_eq_zero (by omega), sub_zero, sum_const, card_range,
            nsmul_one, Complex.norm_natCast]
      _ ≤ ∑ j ∈ range d, ‖1 - root d ^ j‖ := norm_sum_le _ _
      _ ≤ d * tolerance := by
          refine (sum_le_card_nsmul _ _ _ hnear).trans_eq ?_
          rw [card_range, nsmul_eq_mul]
  exact hle.not_gt (mul_lt_of_lt_one_right hpos h1)

end Apart

section Fourier

variable (hd : 3 ≤ d) (h0 : 0 ≤ tolerance) (h1 : tolerance < 3⁻¹)

include hd h0 h1

/-- The entries of the Fourier gate are shorter than one, so it differs from an operator with an
entry of modulus one. -/
theorem not_matches_fourier {known : Operator ℝ} (hshape : known.shape = [d, d]) (i j : Fin d)
    (hone : ‖known.matrix d i j‖ = 1) : ¬ known.Matches tolerance (fourier d) := by
  have hroot := (isPrimitiveRoot_root (d := d) (by omega)).norm'_eq_one (by omega)
  -- the entries have the modulus `1 / √d`, which is at most two thirds from three on
  have hsqrt : 3 / 2 ≤ √(d : ℝ) := by
    have hcast : (3 : ℝ) ≤ d := by exact_mod_cast hd
    refine Real.le_sqrt_of_sq_le (le_trans ?_ hcast)
    norm_num
  have hentry : ‖(fourier d : Operator ℝ).matrix d i j‖ ≤ 2 / 3 := by
    have hnorm : ‖(fourier d : Operator ℝ).matrix d i j‖ = 1 / √(d : ℝ) := by
      rw [matrix_fourier, Matrix.of_apply, norm_mul, norm_pow, hroot, one_pow, mul_one,
        Complex.norm_real, Real.norm_of_nonneg (by positivity)]
    have hle := one_div_le_one_div_of_le (by norm_num) hsqrt
    rw [hnorm]
    exact hle.trans_eq (by norm_num)
  refine not_matches_of_lt h0 hshape i j ?_
  calc tolerance < 1 - 2 / 3 := by linarith
    _ ≤ ‖known.matrix d i j‖ - ‖(fourier d : Operator ℝ).matrix d i j‖ := by linarith
    _ ≤ ‖known.matrix d i j - (fourier d : Operator ℝ).matrix d i j‖ := norm_sub_norm_le _ _

theorem not_matches_identity_fourier :
    ¬ Operator.Matches tolerance (.identity d) (fourier d : Operator ℝ) := by
  have hfirst : 0 < d := by omega
  refine not_matches_fourier hd h0 h1 rfl ⟨0, hfirst⟩ ⟨0, hfirst⟩ ?_
  rw [Operator.matrix_identity, Matrix.one_apply_eq, norm_one]

theorem not_matches_shift_fourier :
    ¬ Operator.Matches tolerance (shift d) (fourier d : Operator ℝ) := by
  have hfirst : 0 < d := by omega
  have hsecond : 1 < d := by omega
  refine not_matches_fourier hd h0 h1 rfl ⟨1, hsecond⟩ ⟨0, hfirst⟩ ?_
  rw [matrix_shift, rotation, Matrix.of_apply, if_pos (Nat.mod_eq_of_lt hsecond).symm, norm_one]

theorem not_matches_clock_fourier :
    ¬ Operator.Matches tolerance (clock d) (fourier d : Operator ℝ) := by
  have hfirst : 0 < d := by omega
  refine not_matches_fourier hd h0 h1 rfl ⟨0, hfirst⟩ ⟨0, hfirst⟩ ?_
  rw [matrix_clock, Matrix.diagonal_apply_eq, pow_zero, norm_one]

end Fourier

end Gate

/-! ## Libraries that come from the standard ones -/

namespace GateLibrary

section Standard

variable {N S : Type} [Label N]

/-- The gates of a dimension have the names that a library starts with. -/
structure Unshadowed (dim : ℕ) (library : GateLibrary N ℝ) : Prop where
  /-- The identity has its name. -/
  identity : library.nameOf (.identity dim) = Label.ofText ("Id" ++ toString dim)
  /-- The shift has its name. -/
  shift : library.nameOf (Gate.shift dim) = Label.ofText "Xd"
  /-- The clock has its name. -/
  clock : library.nameOf (Gate.clock dim) = Label.ofText "Zd"
  /-- The Fourier gate has its name. -/
  fourier : library.nameOf (Gate.fourier dim) = Label.ofText "Fd"

/-- The name of an operator is that of the first entry it matches, and it is empty just if it
matches none. -/
structure FirstWins [Scalar S] (library : GateLibrary N S) : Prop where
  /-- The first entry that matches gives the name. -/
  name_eq : ∀ (probe op : Operator S) (name : N) (before after : List (N × Operator S)),
    library.entries = before ++ (name, op) :: after → op.Matches library.tolerance probe →
      (∀ entry ∈ before, ¬ entry.2.Matches library.tolerance probe) → library.nameOf probe = name
  /-- There is no name just if no entry matches. -/
  blank_iff : ∀ probe : Operator S, library.nameOf probe = Label.ofText "" ↔
    ∀ entry ∈ library.entries, ¬ entry.2.Matches library.tolerance probe

theorem standardTolerance_nonneg : 0 ≤ (standardTolerance : ℝ) := by
  show 0 ≤ (1e-12 : ℝ)
  norm_num

theorem standardTolerance_lt : (standardTolerance : ℝ) < 3⁻¹ := by
  show (1e-12 : ℝ) < 3⁻¹
  norm_num

/-- From three on, no gate of the dimension matches an entry before its own. -/
theorem unshadowed_registerAll {dim : ℕ} (hdim : 3 ≤ dim) (calls : List (N × Operator ℝ)) :
    ((standard dim standardTolerance : GateLibrary N ℝ).registerAll calls).Unshadowed dim := by
  have h0 := standardTolerance_nonneg
  have hthird := standardTolerance_lt
  have h1 : (standardTolerance : ℝ) < 1 := hthird.trans (by norm_num)
  have hd : 2 ≤ dim := by omega
  have hqubit : dim ≠ 2 := by omega
  -- a library for other qudits than qubits starts with the four gates of the dimension
  obtain ⟨after, hentries⟩ : ∃ after,
      ((standard dim standardTolerance : GateLibrary N ℝ).registerAll calls).entries =
        (Label.ofText ("Id" ++ toString dim), .identity dim) :: (Label.ofText "Xd", Gate.shift dim) ::
          (Label.ofText "Zd", Gate.clock dim) :: (Label.ofText "Fd", Gate.fourier dim) :: after := by
    rw [registerAll_eq]
    refine ⟨calls.filter fun call => !Label.isBlank call.1, ?_⟩
    unfold standard standardEntries
    rw [if_neg hqubit]
    rfl
  have htolerance : ((standard dim standardTolerance : GateLibrary N ℝ).registerAll calls).tolerance =
      standardTolerance := by
    rw [registerAll_eq]
    rfl
  generalize (standard dim standardTolerance : GateLibrary N ℝ).registerAll calls = library
    at hentries htolerance ⊢
  have hself (op : Operator ℝ) : op.Matches library.tolerance op := Operator.matches_self _ op
  refine ⟨?_, ?_, ?_, ?_⟩
  · have hfirst : library.entries = [] ++ _ := hentries
    exact nameOf_eq_of_first hfirst (hself _) fun entry hentry => nomatch hentry
  · have hfirst : library.entries = [_] ++ _ := hentries
    refine nameOf_eq_of_first hfirst (hself _) ?_
    rw [htolerance, List.forall_mem_singleton]
    exact Gate.not_matches_identity_shift hd h0 h1
  · have hfirst : library.entries = [_, _] ++ _ := hentries
    refine nameOf_eq_of_first hfirst (hself _) ?_
    rw [htolerance, List.forall_mem_cons, List.forall_mem_singleton]
    exact ⟨Gate.not_matches_identity_clock hd h0 h1, Gate.not_matches_shift_clock hd h0 h1⟩
  · have hfirst : library.entries = [_, _, _] ++ _ := hentries
    refine nameOf_eq_of_first hfirst (hself _) ?_
    rw [htolerance, List.forall_mem_cons, List.forall_mem_cons, List.forall_mem_singleton]
    exact ⟨Gate.not_matches_identity_fourier hdim h0 hthird,
      Gate.not_matches_shift_fourier hdim h0 hthird, Gate.not_matches_clock_fourier hdim h0 hthird⟩

variable [Label.Lawful N]

/-- In a library that comes from a standard one by registrations, entries stand in the order of
their registration, the first one that an operator matches gives its name, and later registrations
leave names alone. From dimension three on, over the real numbers, the gates of the dimension have
the names that they were registered with. -/
theorem names_first [Angles S] (dim : ℕ) (tolerance : S) (calls : List (N × Operator S)) :
    let library : GateLibrary N S := (standard dim tolerance).registerAll calls
    (library.entries = (standard dim tolerance : GateLibrary N S).entries ++
        calls.filter fun call => !Label.isBlank call.1) ∧
      library.tolerance = tolerance ∧ library.FirstWins ∧
      (∀ (probe : Operator S) (later : List (N × Operator S)), library.nameOf probe ≠ Label.ofText "" →
        (library.registerAll later).nameOf probe = library.nameOf probe) ∧
      (3 ≤ dim → ∀ calls : List (N × Operator ℝ),
        ((standard dim standardTolerance : GateLibrary N ℝ).registerAll calls).Unshadowed dim) := by
  intro library
  have heq : library = _ := registerAll_eq (standard dim tolerance) calls
  refine ⟨congrArg GateLibrary.entries heq, congrArg GateLibrary.tolerance heq, ⟨?_, ?_⟩, ?_,
    unshadowed_registerAll⟩
  · exact fun probe op name before after hentries hmatches hbefore =>
      nameOf_eq_of_first hentries hmatches hbefore
  · exact nameOf_eq_blank_iff ((labelled_standard dim tolerance).registerAll calls)
  · exact fun probe later hname => nameOf_registerAll hname later

end Standard

/-- Among qutrits, a second name for the shift and an empty one for the clock change nothing. -/
theorem names_first_qutrits :
    let library : GateLibrary String ℝ := (standard 3 standardTolerance).registerAll
      [("Shift", Gate.shift 3), ("", Gate.clock 3)]
    3 ≤ 3 ∧ library.entries.length = 5 ∧ library.FirstWins ∧ library.Unshadowed 3 := by
  intro library
  obtain ⟨hentries, -, hfirst, -, hunshadowed⟩ := names_first 3 standardTolerance
    [("Shift", (Gate.shift 3 : Operator ℝ)), ("", Gate.clock 3)]
  exact ⟨by decide, congrArg List.length hentries, hfirst, hunshadowed (by decide) _⟩

end GateLibrary

end QuditSim
