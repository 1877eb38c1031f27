import Mathlib.Algebra.Module.LinearMap.End
import Mathlib.Algebra.BigOperators.Group.List.Basic
import QuditSim.Proofs.Engine.FullRegister
import QuditSim.Proofs.Placing
import QuditSim.Proofs.Tensor.Entries

/-!
# Operators on the digits of a register

The amplitudes of a register are a vector space, and an operator on some qudits is a linear map of
it. These maps multiply as the operators do, and what the matrices are is not looked at any more
once that is known.

- `FullRun.operatorOn_mul`, `FullRun.operatorOn_pow`: products and powers of operators.
- `FullRun.commute_operatorOn`: operators on different qudits commute.
- `FullRun.operatorOn_kronPow`: a Kronecker power acts on its targets one after the other.
- `FullRun.LocalTo` says that a map mixes only indices that agree off some qudits, and
  `FullRun.selected_mul` that maps under control multiply if they are local to the targets.
- `FullRun.acted_eq_ok`: what a gate does to the full register is what the acts of the program do.
-/

open Finset

namespace QuditSim

namespace FullRun

noncomputable section

variable {d : ℕ}

/-! ## Matrices on digits -/

/-- Matrices of the same entries act in the same way. -/
theorem actOn_congr (hd : 0 < d) {entry entry' : ℕ → ℕ → ℂ} {ts : List ℕ}
    (h : ∀ i < d ^ ts.length, ∀ b < d ^ ts.length, entry i b = entry' i b) (psi : ℕ → ℂ) :
    actOn d entry ts psi = actOn d entry' ts psi := by
  funext x
  refine sum_congr rfl fun b hb => ?_
  rw [h _ (readDigits_lt hd ts x) b (mem_range.mp hb)]

/-- The linear map that a matrix on the digits of some qudits is. -/
def matrixOn (d : ℕ) (entry : ℕ → ℕ → ℂ) (ts : List ℕ) : Module.End ℂ (ℕ → ℂ) where
  toFun := actOn d entry ts
  map_add' psi phi := by
    funext x
    simp only [actOn, Pi.add_apply, mul_add, sum_add_distrib]
  map_smul' c psi := by
    funext x
    simp only [actOn, Pi.smul_apply, smul_eq_mul, RingHom.id_apply, mul_sum]
    exact sum_congr rfl fun b _ => mul_left_comm _ _ _

@[simp] theorem matrixOn_apply (entry : ℕ → ℕ → ℂ) (ts : List ℕ) (psi : ℕ → ℂ) :
    matrixOn d entry ts psi = actOn d entry ts psi := rfl

section Matrices

variable (hd : 2 ≤ d) {entry entry' : ℕ → ℕ → ℂ} {ts us : List ℕ}

include hd

/-- The identity matrix does nothing. -/
theorem matrixOn_one (hts : ts.Nodup) :
    matrixOn d (fun i b => if i = b then 1 else 0) ts = 1 := by
  have hpos : 0 < d := by omega
  ext psi x
  show ∑ b ∈ range (d ^ ts.length),
    (if readDigits d ts x = b then 1 else 0) * psi (placeDigits d ts b x) = psi x
  -- of the sum, the term of the number that is there remains
  rw [sum_eq_single (readDigits d ts x)]
  · rw [if_pos rfl, one_mul, placeDigits_readDigits hd hts]
  · intro b _ hb
    rw [if_neg (Ne.symm hb), zero_mul]
  · exact fun hnot => absurd (mem_range.mpr (readDigits_lt hpos ts x)) hnot

/-- Matrices on the same qudits multiply. -/
theorem matrixOn_mul (hts : ts.Nodup) :
    matrixOn d (fun i b => ∑ k ∈ range (d ^ ts.length), entry i k * entry' k b) ts =
      matrixOn d entry ts * matrixOn d entry' ts := by
  have hpos : 0 < d := by omega
  ext psi x
  show ∑ b ∈ range (d ^ ts.length), (∑ k ∈ range (d ^ ts.length), _) * _ =
    ∑ k ∈ range (d ^ ts.length), _ * ∑ b ∈ range (d ^ ts.length), _
  simp only [sum_mul, mul_sum]
  rw [sum_comm]
  refine sum_congr rfl fun k hk => sum_congr rfl fun b _ => ?_
  -- the second matrix reads the number that the first one placed
  rw [readDigits_placeDigits hpos hts, Nat.mod_eq_of_lt (mem_range.mp hk),
    placeDigits_placeDigits hd hts, mul_assoc]

/-- Matrices on different qudits commute. -/
theorem commute_matrixOn (hts : ts.Nodup) (hdisjoint : ∀ t ∈ ts, t ∉ us) :
    Commute (matrixOn d entry ts) (matrixOn d entry' us) := by
  have hpos : 0 < d := by omega
  have hdisjoint' : ∀ u ∈ us, u ∉ ts := fun u hu ht => hdisjoint u ht hu
  show matrixOn d entry ts * matrixOn d entry' us = matrixOn d entry' us * matrixOn d entry ts
  ext psi x
  show ∑ b ∈ range (d ^ ts.length), _ * ∑ c ∈ range (d ^ us.length), _ =
    ∑ c ∈ range (d ^ us.length), _ * ∑ b ∈ range (d ^ ts.length), _
  simp only [mul_sum]
  rw [sum_comm]
  refine sum_congr rfl fun c _ => sum_congr rfl fun b _ => ?_
  rw [(SameOff.placeDigits hpos ts b x).readDigits_eq hdisjoint',
    (SameOff.placeDigits hpos us c x).readDigits_eq hdisjoint, placeDigits_comm hd hts hdisjoint,
    mul_left_comm]

omit hd in
/-- A sum over the numbers of two parts is one over the parts. -/
theorem sum_range_mul (f : ℕ → ℂ) (m n : ℕ) :
    ∑ i ∈ range (m * n), f i = ∑ b ∈ range m, ∑ c ∈ range n, f (b * n + c) := by
  induction m with
  | zero => simp
  | succ m ih => rw [Nat.succ_mul, sum_range_add, ih, sum_range_succ]

/-- A matrix of two parts acts on the qudits of each part. -/
theorem matrixOn_append (hdisjoint : ∀ u ∈ us, u ∉ ts) :
    matrixOn d (fun i b => entry (i / d ^ us.length) (b / d ^ us.length) *
        entry' (i % d ^ us.length) (b % d ^ us.length)) (ts ++ us) =
      matrixOn d entry ts * matrixOn d entry' us := by
  have hpos : 0 < d := by omega
  have hpow : 0 < d ^ us.length := Nat.pow_pos hpos
  ext psi x
  show ∑ b ∈ range (d ^ (ts ++ us).length), _ * _ * _ =
    ∑ b ∈ range (d ^ ts.length), _ * ∑ c ∈ range (d ^ us.length), _
  rw [List.length_append, Nat.pow_add, sum_range_mul]
  refine sum_congr rfl fun b _ => ?_
  rw [mul_sum]
  refine sum_congr rfl fun c hc => ?_
  have hparts (a e : ℕ) (he : e < d ^ us.length) :
      (a * d ^ us.length + e) / d ^ us.length = a ∧
        (a * d ^ us.length + e) % d ^ us.length = e := by
    rw [Nat.mul_comm, Nat.mul_add_div hpow, Nat.mul_add_mod, Nat.div_eq_of_lt he,
      Nat.mod_eq_of_lt he]
    exact ⟨rfl, rfl⟩
  have hc := mem_range.mp hc
  rw [readDigits_append, (hparts b c hc).1, (hparts b c hc).2,
    (hparts _ _ (readDigits_lt hpos us x)).1, (hparts _ _ (readDigits_lt hpos us x)).2,
    placeDigits_append hpos ts us b hc, (SameOff.placeDigits hpos ts b x).readDigits_eq hdisjoint,
    mul_assoc]

end Matrices

/-! ## Maps that are local to some qudits -/

/-- A map mixes only indices that agree off some qudits: what it makes of amplitudes at an index is
decided by the amplitudes at the indices that differ from it in digits of these qudits. -/
def LocalTo (d : ℕ) (ts : List ℕ) (f : Module.End ℂ (ℕ → ℂ)) : Prop :=
  ∀ (psi phi : ℕ → ℂ) (x : ℕ), (∀ y, SameOff d ts y x → psi y = phi y) → f psi x = f phi x

namespace LocalTo

variable {ts us : List ℕ} {f g : Module.End ℂ (ℕ → ℂ)}

theorem one (ts : List ℕ) : LocalTo d ts 1 := fun _ _ x h => h x (.refl ts x)

theorem mul (hf : LocalTo d ts f) (hg : LocalTo d ts g) : LocalTo d ts (f * g) := by
  intro psi phi x h
  refine hf _ _ x fun y hy => ?_
  exact hg _ _ y fun z hz => h z (hz.trans hy)

theorem pow (hf : LocalTo d ts f) (e : ℕ) : LocalTo d ts (f ^ e) := by
  induction e with
  | zero =>
    rw [pow_zero]
    exact one ts
  | succ e ih =>
    rw [pow_succ]
    exact ih.mul hf

theorem mono (hf : LocalTo d ts f) (hsub : ∀ t ∈ ts, t ∈ us) : LocalTo d us f := by
  intro psi phi x h
  exact hf psi phi x fun y hy => h y (hy.mono hsub)

/-- Amplitudes that are zero wherever a map looks are made zero. -/
theorem eq_zero (hf : LocalTo d ts f) {psi : ℕ → ℂ} {x : ℕ}
    (h : ∀ y, SameOff d ts y x → psi y = 0) : f psi x = 0 := by
  rw [hf psi 0 x h, map_zero, Pi.zero_apply]

end LocalTo

theorem localTo_matrixOn (hd : 0 < d) (entry : ℕ → ℕ → ℂ) (ts : List ℕ) :
    LocalTo d ts (matrixOn d entry ts) := by
  intro psi phi x h
  rw [matrixOn_apply, matrixOn_apply, actOn, actOn]
  refine sum_congr rfl fun b _ => ?_
  rw [h _ (.placeDigits hd ts b x)]

/-! ## Operators -/

/-- The linear map that an operator on some qudits is. -/
def operatorOn (d : ℕ) (op : Operator ℝ) (ts : List ℕ) : Module.End ℂ (ℕ → ℂ) :=
  matrixOn d (fun i b => (op.entry i b).toComplex) ts

theorem localTo_operatorOn (hd : 0 < d) (op : Operator ℝ) (ts : List ℕ) :
    LocalTo d ts (operatorOn d op ts) :=
  localTo_matrixOn hd _ ts

section Operators

variable (hd : 2 ≤ d) {op other : Operator ℝ} {ts us : List ℕ}

include hd

theorem commute_operatorOn (hts : ts.Nodup) (hdisjoint : ∀ t ∈ ts, t ∉ us) :
    Commute (operatorOn d op ts) (operatorOn d other us) :=
  commute_matrixOn hd hts hdisjoint

/-- The product of two operators acts as one after the other. -/
theorem operatorOn_mul (hts : ts.Nodup) (hop : op.shape = [d ^ ts.length, d ^ ts.length])
    (hother : other.shape = [d ^ ts.length, d ^ ts.length]) :
    operatorOn d (op * other) ts = operatorOn d op ts * operatorOn d other ts := by
  rw [operatorOn, operatorOn, operatorOn, ← matrixOn_mul hd hts]
  ext psi x
  simp only [matrixOn_apply]
  rw [actOn_congr (by omega) fun i hi b hb => ?_]
  rw [Tensor.entry_mul hop hother hi hb, Tensor.toComplex_inner]

theorem operatorOn_identity (hts : ts.Nodup) :
    operatorOn d (Tensor.identity (d ^ ts.length)) ts = 1 := by
  rw [operatorOn, ← matrixOn_one hd hts]
  ext psi x
  simp only [matrixOn_apply]
  rw [actOn_congr (by omega) fun i hi b hb => ?_]
  rw [Tensor.entry_identity hi hb]
  split <;> rfl

/-- The power of an operator acts as often as the exponent says. -/
theorem operatorOn_pow (hts : ts.Nodup) (hop : op.shape = [d ^ ts.length, d ^ ts.length]) (e : ℕ) :
    operatorOn d (op.pow e) ts = operatorOn d op ts ^ e := by
  refine Tensor.map_pow (f := fun op => operatorOn d op ts) ?_ (operatorOn_identity hd hts) hop e
  exact fun a b ha hb => operatorOn_mul hd hts ha hb

/-- A Kronecker product acts with each factor on its own qudits. -/
theorem operatorOn_kron (hop : op.shape = [d ^ ts.length, d ^ ts.length])
    (hother : other.shape = [d ^ us.length, d ^ us.length]) (hdisjoint : ∀ u ∈ us, u ∉ ts) :
    operatorOn d (op.kron other) (ts ++ us) = operatorOn d op ts * operatorOn d other us := by
  rw [operatorOn, operatorOn, operatorOn, ← matrixOn_append hd hdisjoint]
  ext psi x
  simp only [matrixOn_apply]
  rw [actOn_congr (by omega) fun i hi b hb => ?_]
  rw [List.length_append, Nat.pow_add] at hi hb
  rw [Tensor.entry_kron hop hother hi hb, Amplitude.toComplex_mul]

/-- Operators on one qudit each, in any order. -/
theorem pairwise_commute_operatorOn (hts : ts.Nodup) :
    (ts.map fun t => operatorOn d op [t]).Pairwise Commute := by
  rw [List.pairwise_map]
  refine hts.imp fun hne => ?_
  exact commute_operatorOn hd (List.nodup_singleton _) (by simpa using hne)

/-- A Kronecker power acts with one factor on each of its targets. -/
theorem operatorOn_kronPow (hop : op.shape = [d, d]) {k : ℕ} (hts : ts.Nodup)
    (hlength : ts.length = k + 1) :
    operatorOn d (op.kronPow k) ts = (ts.map fun t => operatorOn d op [t]).prod := by
  -- the factor that the power has more is the last one, for the last target
  induction k generalizing ts with
  | zero =>
    obtain ⟨t, rfl⟩ := List.length_eq_one_iff.mp hlength
    simp [Tensor.kronPow]
  | succ k ih =>
    obtain ⟨init, t, rfl⟩ := (List.eq_nil_or_concat' ts).resolve_left fun hnil => by
      rw [hnil] at hlength
      cases hlength
    have hinit : init.length = k + 1 := by simpa using hlength
    obtain ⟨hnodup, -, hlast⟩ := List.nodup_append.mp hts
    have hsingle : op.shape = [d ^ [t].length, d ^ [t].length] := by simpa using hop
    have hshape : (op.kronPow k).shape = [d ^ init.length, d ^ init.length] := by
      rw [hinit, Tensor.shape_kronPow hop]
    rw [Tensor.kronPow, operatorOn_kron hd hshape hsingle, ih hnodup hinit, List.map_append,
      List.prod_append, List.map_singleton, List.prod_singleton]
    intro u hu hmem
    exact hlast u hmem u hu rfl

end Operators

/-! ## Maps under control -/

/-- The power of a map that the index selects. -/
def selected (κ : ℕ → ℕ) (f : Module.End ℂ (ℕ → ℂ)) : Module.End ℂ (ℕ → ℂ) where
  toFun psi x := (f ^ κ x) psi x
  map_add' psi phi := by
    funext x
    rw [map_add, Pi.add_apply, Pi.add_apply]
  map_smul' c psi := by
    funext x
    rw [map_smul]
    rfl

theorem selected_apply (κ : ℕ → ℕ) (f : Module.End ℂ (ℕ → ℂ)) (psi : ℕ → ℂ) (x : ℕ) :
    selected κ f psi x = (f ^ κ x) psi x := rfl

section Selected

variable {κ : ℕ → ℕ} {ts : List ℕ} {f g : Module.End ℂ (ℕ → ℂ)}
  (hκ : ∀ x y, SameOff d ts x y → κ x = κ y)

theorem LocalTo.selected (hf : LocalTo d ts f) (κ : ℕ → ℕ) : LocalTo d ts (selected κ f) := by
  intro psi phi x h
  exact hf.pow (κ x) psi phi x h

include hκ

/-- Under control, maps that commute multiply, if they are local to qudits that do not control. -/
theorem selected_mul (hf : LocalTo d ts f) (hcommute : Commute f g) :
    selected κ (f * g) = selected κ f * selected κ g := by
  ext psi x
  show ((f * g) ^ κ x) psi x = (f ^ κ x) (FullRun.selected κ g psi) x
  rw [hcommute.mul_pow]
  -- the indices that the first map mixes select the same power of the second one
  refine hf.pow (κ x) _ _ x fun y hy => ?_
  rw [selected_apply, hκ y x hy]

/-- Under control, several maps that commute multiply. -/
theorem selected_prod {maps : List (Module.End ℂ (ℕ → ℂ))} (hlocal : ∀ f ∈ maps, LocalTo d ts f)
    (hcommute : maps.Pairwise Commute) :
    selected κ maps.prod = (maps.map (selected κ)).prod := by
  induction maps with
  | nil =>
    ext psi x
    show ((1 : Module.End ℂ (ℕ → ℂ)) ^ κ x) psi x = psi x
    rw [one_pow]
    rfl
  | cons f maps ih =>
    obtain ⟨hf, hmaps⟩ := List.forall_mem_cons.mp hlocal
    obtain ⟨hfirst, hrest⟩ := List.pairwise_cons.mp hcommute
    rw [List.prod_cons, List.map_cons, List.prod_cons, ← ih hmaps hrest]
    exact selected_mul hκ hf (Commute.list_prod_right maps f hfirst)

/-- Under control, maps that commute do so as well. -/
theorem pairwise_commute_selected {maps : List (Module.End ℂ (ℕ → ℂ))}
    (hlocal : ∀ f ∈ maps, LocalTo d ts f) (hcommute : maps.Pairwise Commute) :
    (maps.map (selected κ)).Pairwise Commute := by
  rw [List.pairwise_map]
  refine hcommute.imp_of_mem fun {f g} hf hg hfg => ?_
  show selected κ f * selected κ g = selected κ g * selected κ f
  rw [← selected_mul hκ (hlocal f hf) hfg, ← selected_mul hκ (hlocal g hg) hfg.symm, hfg.eq]

end Selected

/-- The power of several maps that commute. -/
theorem prod_pow_of_commute {maps : List (Module.End ℂ (ℕ → ℂ))} (hcommute : maps.Pairwise Commute)
    (v : ℕ) : maps.prod ^ v = (maps.map (· ^ v)).prod := by
  induction maps with
  | nil => exact one_pow v
  | cons f maps ih =>
    obtain ⟨hfirst, hrest⟩ := List.pairwise_cons.mp hcommute
    rw [List.prod_cons, (Commute.list_prod_right maps f hfirst).mul_pow, ih hrest, List.map_cons,
      List.prod_cons]

/-! ## Acts -/

/-- The digits of the controls are the same in indices that agree off other qudits. -/
theorem exponent_eq_of_sameOff {controls ts : List ℕ} (hdisjoint : ∀ q ∈ controls, q ∉ ts) {x y : ℕ}
    (h : SameOff d ts x y) : exponent d controls x = exponent d controls y := by
  unfold exponent
  rw [List.map_congr_left fun q hq => h q (hdisjoint q hq)]

/-- The power of an operator that acts is the power of its linear map. -/
theorem raised_eq (hd : 2 ≤ d) {op : Operator ℝ} {ts : List ℕ} (hts : ts.Nodup)
    (hop : op.shape = [d ^ ts.length, d ^ ts.length]) (v : ℕ) (psi : ℕ → ℂ) :
    raised d op ts v psi = (operatorOn d op ts ^ v) psi := by
  unfold raised
  split
  -- the power zero is the identity, which does nothing either
  · next hzero =>
    rw [hzero, pow_zero]
    rfl
  · rw [← operatorOn_pow hd hts hop]
    rfl

/-- The linear map that an act on the full register is. -/
def mapOf (d : ℕ) : Act ℝ → Module.End ℂ (ℕ → ℂ)
  | .plain op targets => operatorOn d op (targets.map Int.toNat)
  | .controlled op controls targets =>
    selected (exponent d (controls.map Int.toNat)) (operatorOn d op (targets.map Int.toNat))

/-- The places of a list of different qudits are different. -/
theorem nodup_places {n : ℕ} {targets : List Int} (h : TargetList n targets) :
    (targets.map Int.toNat).Nodup := by
  refine List.Nodup.map_on (fun t ht t' ht' heq => ?_) h.nodup
  rw [← (h.inRange t ht).toNat_eq, ← (h.inRange t' ht').toNat_eq, heq]

/-- The places of qudits are places of the register. -/
theorem places_lt {n : ℕ} {targets : List Int} (h : ∀ t ∈ targets, InRange n t) :
    ∀ p ∈ targets.map Int.toNat, p < n := by
  intro p hp
  obtain ⟨t, ht, rfl⟩ := List.mem_map.mp hp
  exact (h t ht).toNat_lt

/-- Different qudits have different places. -/
theorem not_mem_places {n : ℕ} {controls targets : List Int}
    (hcontrols : ∀ q ∈ controls, InRange n q)
    (htargets : ∀ t ∈ targets, InRange n t) (hdisjoint : ∀ q ∈ controls, q ∉ targets) :
    ∀ q ∈ controls.map Int.toNat, q ∉ targets.map Int.toNat := by
  rintro _ hplace hmem
  obtain ⟨q, hq, rfl⟩ := List.mem_map.mp hplace
  obtain ⟨t, ht, heq⟩ := List.mem_map.mp hmem
  apply hdisjoint q hq
  rwa [← (hcontrols q hq).toNat_eq, ← heq, (htargets t ht).toNat_eq]

/-- An act that fits the register is its linear map. -/
theorem act_eq_mapOf {n : ℕ} (hd : 2 ≤ d) {a : Act ℝ} (hfit : a.Fits d n) (psi : ℕ → ℂ) :
    act d psi a = mapOf d a psi := by
  rcases a with ⟨op, targets⟩ | ⟨op, controls, targets⟩
  · rfl
  · obtain ⟨-, htargets, -, hop⟩ := hfit
    have hnodup := nodup_places htargets
    have hshape : op.shape = [d ^ (targets.map Int.toNat).length,
        d ^ (targets.map Int.toNat).length] := by
      rwa [List.length_map]
    funext x
    rw [mapOf, selected_apply, ← raised_eq hd hnodup hshape]
    rfl

/-- Acts one after the other are the product of their maps, the last one in front. -/
theorem foldl_act_eq_prod {n : ℕ} (hd : 2 ≤ d) {list : List (Act ℝ)} (hfit : ∀ a ∈ list, a.Fits d n)
    (psi : ℕ → ℂ) : list.foldl (act d) psi = (list.map (mapOf d)).reverse.prod psi := by
  induction list generalizing psi with
  | nil => rfl
  | cons a list ih =>
    obtain ⟨ha, hlist⟩ := List.forall_mem_cons.mp hfit
    rw [List.foldl_cons, ih hlist, act_eq_mapOf hd ha, List.map_cons, List.reverse_cons,
      List.prod_append, List.prod_singleton]
    rfl

/-! ## Gates -/

section Gates

variable {c : Circuit ℝ} {step : GateStep} {dits : List ℕ} {list : List (Act ℝ)}

/-- Under control of dits, the power of the operator acts that their common value is. -/
theorem foldl_classicalActs {n : ℕ} (hd : 2 ≤ d) {op : Operator ℝ} {values : List ℕ}
    {targets : List Int} (htargets : TargetList n targets)
    (hop : op.shape = [d ^ targets.length, d ^ targets.length]) (hne : values ≠ [])
    (hlist : Engine.classicalActs op values targets = .ok list) (psi : ℕ → ℂ) :
    list.foldl (act d) psi = raised d op (targets.map Int.toNat) (common values) psi := by
  obtain ⟨v, rest, rfl⟩ := List.exists_cons_of_ne_nil hne
  rw [Engine.classicalActs_cons hop] at hlist
  rw [common_cons]
  split at hlist
  · next hagree =>
    rw [if_pos hagree]
    split at hlist
    · cases hlist
      rw [raised_eq hd (nodup_places htargets) (by rwa [List.length_map]),
        ← operatorOn_pow hd (nodup_places htargets) (by rwa [List.length_map])]
      rfl
    · cases hlist
  -- dits that differ select the power zero, as the gate has no acts
  · next hdiffer =>
    cases hlist
    rw [if_neg hdiffer, raised_zero]
    rfl

/-- A gate under control of qudits acts under their control. -/
theorem acted_of_quantum (hcontrol : step.kind.control? = some .quantum) (dits : List ℕ)
    (psi : ℕ → ℂ) :
    acted c dits step psi = (do
      let op ← Engine.jointOperand c step step.targets.length
      return act c.dim psi (.controlled op step.controls step.targets)) := by
  unfold acted
  rcases GateKind.of_control? hcontrol with ⟨_, _, hkind⟩ | hkind
  · rw [hkind]
  · rw [hkind]

/-- A gate under control of dits acts with the power that their values have in common. -/
theorem acted_of_classical (hcontrol : step.kind.control? = some .classical) (dits : List ℕ)
    (psi : ℕ → ℂ) :
    acted c dits step psi = (do
      let op ← Engine.jointOperand c step step.targets.length
      let values := step.controls.map fun i => dits.getD i.toNat 0
      return if values = [] then act c.dim psi (.plain op step.targets)
        else raised c.dim op (step.targets.map Int.toNat) (common values) psi) := by
  unfold acted
  rcases GateKind.of_control? hcontrol with ⟨_, _, hkind⟩ | hkind
  · rw [hkind]
  · rw [hkind]

/-- What a recorded gate does to the full register is what its acts do one after the other. -/
theorem acted_eq_ok (hd : 2 ≤ c.dim) (hstep : step.Recorded c) (hlength : dits.length = c.dits)
    (hlist : Engine.acts c dits step step.controls step.targets = .ok list) (psi : ℕ → ℂ) :
    acted c dits step psi = .ok (list.foldl (act c.dim) psi) := by
  rcases hcontrol : step.kind.control? with _ | _ | _
  · obtain ⟨op, hop, -⟩ := hstep.operator
    unfold Engine.acts at hlist
    unfold acted
    rw [Engine.operandOf_eq_ok hop] at hlist ⊢
    cases hkind : step.kind with
    | none | fourier | inverseFourier | single | two | three | custom =>
      rw [hkind] at hlist
      cases hlist
      rfl
    | fan =>
      rw [hkind] at hlist
      cases hlist
      rw [List.foldl_map]
      rfl
    | controlled | controlledCustom =>
      rw [hkind] at hcontrol
      cases hcontrol
  · obtain ⟨joint, hjoint, -⟩ := Engine.jointOperand_eq_ok hstep (by rw [hcontrol]; rfl)
    rw [Engine.acts_of_quantum hcontrol, hjoint] at hlist
    cases hlist
    rw [acted_of_quantum hcontrol, hjoint]
    rfl
  · obtain ⟨joint, hjoint, hshape⟩ := Engine.jointOperand_eq_ok hstep (by rw [hcontrol]; rfl)
    have hcontrols := hstep.controls
    unfold Circuit.ControlsFit at hcontrols
    rw [hcontrol] at hcontrols
    rw [Engine.acts_of_classical hcontrol, hjoint,
      Engine.ditValues_eq_ok (by rw [hlength]; exact hcontrols)] at hlist
    replace hlist : Engine.classicalActs joint
      (step.controls.map fun i => dits.getD i.toNat 0) step.targets = .ok list := hlist
    rw [acted_of_classical hcontrol, hjoint]
    show Except.ok (if _ then _ else _) = Except.ok _
    congr 1
    split
    · next hnil =>
      rw [hnil] at hlist
      cases hlist
      rfl
    · next hne => exact (foldl_classicalActs hd hstep.targets hshape hne hlist psi).symm

end Gates

end

end FullRun

/-! ## The full register of a state -/

open Layout

section Zeros

variable {d n : ℕ} {gone : List Int}

/-- The findings of a list of qudits that all had the digit zero. -/
def zeros (gone : List Int) : List (Int × ℕ) := gone.map (·, 0)

@[simp] theorem keys_zeros (gone : List Int) : (zeros gone).map Prod.fst = gone := by
  simp [zeros, Function.comp_def]

theorem findings_zeros (hd : 0 < d) (hnodup : gone.Nodup) (hrange : ∀ q ∈ gone, InRange n q) :
    Findings d n (zeros gone) where
  nodup := by rwa [keys_zeros]
  inRange f hf := by
    obtain ⟨q, hq, rfl⟩ := List.mem_map.mp hf
    exact hrange q hq
  digit_lt f hf := by
    obtain ⟨q, -, rfl⟩ := List.mem_map.mp hf
    exact hd

end Zeros

section States

variable {d n : ℕ} {found : List (Int × ℕ)} {state state' : StateVector ℝ} (hd : 0 < d)
  (h : Findings d n found)

include hd h

/-- Every state of the live qudits is that of a full register. -/
theorem exists_restricts (hsize : state.size = d ^ place (found.map Prod.fst) n) :
    ∃ psi, Restricts d n found psi state := by
  classical
  let index (x : ℕ) : Prop := ∃ y < d ^ place (found.map Prod.fst) n, fullIndex d n found y = x
  refine ⟨fun x => if hx : index x then (state.amplitude hx.choose).toComplex else 0, hsize,
    fun y hy => ?_, fun x _ hnot => ?_⟩
  · have hx : index (fullIndex d n found y) := ⟨y, hy, rfl⟩
    -- the full index has no other live index
    have hsame : hx.choose = y := fullIndex_injective hd h hx.choose_spec.1 hy hx.choose_spec.2
    rw [dif_pos hx, hsame]
  · refine dif_neg fun hx => hnot ?_
    obtain ⟨y, -, rfl⟩ := hx
    exact consistent_fullIndex hd h y

/-- A full register has one state of its live qudits. -/
theorem Restricts.state_eq {psi phi : ℕ → ℂ} (hrel : Restricts d n found psi state)
    (hrel' : Restricts d n found phi state') (hsame : ∀ x < d ^ n, psi x = phi x) :
    state = state' := by
  apply StateVector.ext_amplitude (hrel.size_eq.trans hrel'.size_eq.symm)
  intro y hy
  rw [hrel.size_eq] at hy
  apply Amplitude.toComplex_injective
  rw [hrel.amplitude_eq y hy, hrel'.amplitude_eq y hy, hsame _ (fullIndex_lt hd h y)]

/-- Acts on live qudits that do the same to all amplitudes do the same to the state. -/
theorem total_eq_of_acts (hsize : state.size = d ^ place (found.map Prod.fst) n)
    {list list' : List (Act ℝ)} (hfit : ∀ a ∈ list, a.Fits d n) (hfit' : ∀ a ∈ list', a.Fits d n)
    (hlive : ∀ a ∈ list, ∀ q ∈ a.qudits, q ∉ found.map Prod.fst)
    (hlive' : ∀ a ∈ list', ∀ q ∈ a.qudits, q ∉ found.map Prod.fst)
    (hsame : ∀ psi, list.foldl (FullRun.act d) psi = list'.foldl (FullRun.act d) psi) :
    (list.map (Act.rename (Engine.seat (found.map Prod.fst)))).foldl (Act.total d) state =
      (list'.map (Act.rename (Engine.seat (found.map Prod.fst)))).foldl (Act.total d) state := by
  obtain ⟨psi, hrel⟩ := exists_restricts hd h hsize
  apply (hrel.acts hd h hfit hlive).state_eq hd h (hrel.acts hd h hfit' hlive')
  intro x _
  rw [hsame]

end States

end QuditSim
