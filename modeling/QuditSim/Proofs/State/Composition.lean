import QuditSim.Proofs.Engine.Isometry
import QuditSim.Proofs.State.Applied

/-!
# Operations one after the other

Operations on positions of a register are linear maps of its amplitudes. What several of them do one
after the other is decided by the product of their maps, and so the algebra of operations is that of
maps: those on the same positions multiply as their operators do, and those that share no position
commute.

- `FullRun.commute_selected`: a map commutes with one under control if it commutes with it without
  control and leaves the controls alone.
- `StateVector.exists_runAll_of_prod_eq`: sequences of operations whose maps have the same product
  return the same state.
- `StateVector.operations_compose` is the algebra of operations: products and the identity on one list
  of targets, operations that share no position, and products under control.
-/

namespace QuditSim

/-! ## Inverse operators -/

section Inverse

variable {k : ℕ} {a b : Operator ℝ} (ha : a.shape = [k, k]) (hb : b.shape = [k, k])

include ha hb

/-- Square operators with the same complex matrix are the same. -/
theorem Operator.eq_of_matrix_eq (h : Operator.matrix a k = Operator.matrix b k) : a = b := by
  refine Tensor.ext_entry ha hb fun i hi j hj => Amplitude.toComplex_injective ?_
  exact congrFun (congrFun h ⟨i, hi⟩) ⟨j, hj⟩

/-- An operator that is inverse to another one on one side is so on the other side. -/
theorem Operator.mul_eq_identity_symm (h : a * b = Tensor.identity k) : b * a = Tensor.identity k := by
  have hmatrix : Operator.matrix a k * Operator.matrix b k = 1 := by
    rw [← Operator.matrix_mul ha hb, h, Operator.matrix_identity]
  refine Operator.eq_of_matrix_eq (Tensor.shape_mul hb ha) rfl ?_
  rw [Operator.matrix_mul hb ha, Operator.matrix_identity]
  exact mul_eq_one_comm.mp hmatrix

end Inverse

/-! ## Maps that commute -/

namespace FullRun

variable {d : ℕ} {κ : ℕ → ℕ} {ts us : List ℕ} {f g : Module.End ℂ (ℕ → ℂ)}

/-- A map that leaves the controls alone commutes with one under control if it commutes with it without
control. -/
theorem commute_selected (hκ : ∀ x y, SameOff d us x y → κ x = κ y) (hg : LocalTo d us g)
    (h : Commute g f) : Commute g (selected κ f) := by
  show g * selected κ f = selected κ f * g
  ext psi x
  show g (selected κ f psi) x = (f ^ κ x) (g psi) x
  -- wherever the first map looks, the same power of the second one is selected
  have hsame : g (selected κ f psi) x = g ((f ^ κ x) psi) x := by
    refine hg _ _ x fun y hy => ?_
    rw [selected_apply, hκ y x hy]
  rw [hsame]
  exact congrFun (LinearMap.congr_fun (h.pow_right (κ x)).eq psi) x

/-- Under control, the identity does nothing either. -/
theorem selected_one (κ : ℕ → ℕ) : selected κ 1 = 1 := by
  ext psi x
  rw [selected_apply, one_pow]

/-- The power of an operator that acts under control, which is the first one without controls. -/
def power (d : ℕ) (controls : List ℕ) (x : ℕ) : ℕ :=
  if controls = [] then 1 else exponent d controls x

theorem power_eq_of_sameOff {controls : List ℕ} (hdisjoint : ∀ q ∈ controls, q ∉ ts) (x y : ℕ)
    (h : SameOff d ts x y) : power d controls x = power d controls y := by
  rw [power, power, exponent_eq_of_sameOff hdisjoint h]

end FullRun

namespace StateVector

/-! ## Operations -/

/-- Without controls, an operator acts unconditionally. -/
theorem applyControlled_nil {R : Type} [Scalar R] (checking : Bool) (state : StateVector R)
    (op : Operator R) (targets : List Argument) (dim : Argument) :
    state.applyControlled checking op [] targets dim = state.apply checking op targets dim := by
  unfold applyControlled
  rw [List.isEmpty_nil, if_pos rfl]

/-- An operation on positions of a register. -/
inductive Operation where
  /-- An operator acts on targets. -/
  | plain (op : Operator ℝ) (targets : List ℕ)
  /-- An operator acts on targets under control. -/
  | controlled (op : Operator ℝ) (controls targets : List ℕ)

namespace Operation

/-- The operator that acts. -/
def op : Operation → Operator ℝ
  | plain op _ => op
  | controlled op _ _ => op

/-- The positions that control. -/
def controls : Operation → List ℕ
  | plain _ _ => []
  | controlled _ controls _ => controls

/-- The positions that the operator acts on. -/
def targets : Operation → List ℕ
  | plain _ targets => targets
  | controlled _ _ targets => targets

/-- The positions that an operation refers to. -/
def support (o : Operation) : List ℕ := o.controls ++ o.targets

/-- An operation fits a register of `n` qudits: it refers to different positions of it, of which at least
one is a target, and its operator has the size for the targets. -/
structure Fits (d n : ℕ) (o : Operation) : Prop where
  /-- There is a target. -/
  targets_ne_nil : o.targets ≠ []
  /-- No position is named twice. -/
  nodup : o.support.Nodup
  /-- The positions are those of the register. -/
  inRange : ∀ q ∈ o.support, q < n
  /-- The operator has the size for the targets. -/
  shape_op : o.op.shape = [d ^ o.targets.length, d ^ o.targets.length]

/-- Carries out an operation without a check of norms. -/
noncomputable def run (d : ℕ) (o : Operation) (state : StateVector ℝ) :
    Except StateFault (StateVector ℝ) :=
  match o with
  | plain op targets => state.apply false op (targets.map .nat) (.nat d)
  | controlled op controls targets =>
    state.applyControlled false op (controls.map .nat) (targets.map .nat) (.nat d)

/-- Carries out operations one after the other. -/
noncomputable def runAll (d : ℕ) (list : List Operation) (state : StateVector ℝ) :
    Except StateFault (StateVector ℝ) :=
  list.foldlM (fun state o => o.run d state) state

/-- The act that an operation is. Without controls, an operator acts unconditionally. -/
def act : Operation → Act ℝ
  | plain op targets | controlled op [] targets => .plain op (targets.map fun q : ℕ => (q : ℤ))
  | controlled op (q :: rest) targets =>
    .controlled op ((q :: rest).map fun q : ℕ => (q : ℤ)) (targets.map fun q : ℕ => (q : ℤ))

/-! ## Operations that fit return -/

section Runs

variable {d n : ℕ} {o : Operation} {state : StateVector ℝ}

/-- The act of an operation that fits a register fits it as well. -/
theorem Fits.act (h : o.Fits d n) : o.act.Fits d n := by
  obtain ⟨hne, hnodup, hrange, hop⟩ := h
  obtain ⟨hcontrols, htargets, hdisjoint⟩ := List.nodup_append'.mp hnodup
  have hlist : TargetList n (o.targets.map fun q : ℕ => (q : ℤ)) :=
    targetList_natCast hne htargets fun q hq => hrange q (List.mem_append_right _ hq)
  have hshape : o.op.shape = [d ^ (o.targets.map fun q : ℕ => (q : ℤ)).length,
      d ^ (o.targets.map fun q : ℕ => (q : ℤ)).length] := by
    rw [List.length_map]
    exact hop
  rcases o with ⟨op, targets⟩ | ⟨op, _ | ⟨c, rest⟩, targets⟩
  · exact ⟨hlist, hshape⟩
  · exact ⟨hlist, hshape⟩
  · refine ⟨targetList_natCast (List.cons_ne_nil _ _) hcontrols
      fun q hq => hrange q (List.mem_append_left _ hq), hlist, fun i hi hmem => ?_, hshape⟩
    -- a control and a target of one number are one position
    obtain ⟨q, hq, rfl⟩ := List.mem_map.mp hi
    obtain ⟨q', hq', hcast⟩ := List.mem_map.mp hmem
    obtain rfl : q' = q := Int.ofNat_inj.mp hcast
    exact hdisjoint hq hq'

/-- An operation that fits the register returns. -/
theorem run_eq (hd : 2 ≤ d) (hsize : state.size = d ^ n) (h : o.Fits d n) :
    o.run d state = .ok (o.act.total d state) := by
  have hact := h.act
  rcases o with ⟨op, targets⟩ | ⟨op, _ | ⟨c, rest⟩, targets⟩
  · rw [run, ← map_int_natCast, apply_eq hd hsize hact.1 hact.2, act, Act.total, Tensor.round_real,
      checked_false]
  · rw [run, List.map_nil, applyControlled_nil, ← map_int_natCast,
      apply_eq hd hsize hact.1 hact.2, act, Act.total, Tensor.round_real, checked_false]
  · obtain ⟨hcontrols, htargets, hdisjoint, hop⟩ := hact
    rw [run, ← map_int_natCast, ← map_int_natCast,
      applyControlled_eq hd hsize hcontrols htargets hdisjoint hop, act, Act.total,
      Tensor.round_real, checked_false]

/-- Operations that fit the register return one after the other. -/
theorem runAll_eq (hd : 2 ≤ d) (hsize : state.size = d ^ n) {list : List Operation}
    (h : ∀ o ∈ list, o.Fits d n) :
    runAll d list state = .ok ((list.map act).foldl (Act.total d) state) := by
  induction list generalizing state with
  | nil => rfl
  | cons o list ih =>
    obtain ⟨ho, hlist⟩ := List.forall_mem_cons.mp h
    rw [List.map_cons, List.foldl_cons, ← ih ((Act.size_total ..).trans hsize) hlist]
    show (o.run d state >>= fun state' => runAll d list state') = _
    rw [run_eq hd hsize ho]
    rfl

end Runs

/-! ## Operations as maps -/

section Maps

variable {d n : ℕ} {f g o : Operation} {state : StateVector ℝ}

/-- The linear map that an operation is. -/
noncomputable def map (d : ℕ) (o : Operation) : Module.End ℂ (ℕ → ℂ) :=
  FullRun.selected (FullRun.power d o.controls) (FullRun.operatorOn d o.op o.targets)

/-- Without controls, the map of an operation is that of its operator. -/
theorem map_of_controls_eq_nil (d : ℕ) (h : o.controls = []) :
    o.map d = FullRun.operatorOn d o.op o.targets := by
  ext psi x
  rw [map, FullRun.selected_apply, FullRun.power, if_pos h, pow_one]

theorem mapOf_act (d : ℕ) (o : Operation) : FullRun.mapOf d o.act = o.map d := by
  rcases o with ⟨op, targets⟩ | ⟨op, _ | ⟨c, rest⟩, targets⟩
  · rw [map_of_controls_eq_nil d rfl, act, FullRun.mapOf, map_toNat_natCast]
    rfl
  · rw [map_of_controls_eq_nil d rfl, act, FullRun.mapOf, map_toNat_natCast]
    rfl
  · rw [act, FullRun.mapOf, map_toNat_natCast, map_toNat_natCast]
    rfl

/-- An operation touches its targets only. -/
theorem localTo_map (hd : 0 < d) (o : Operation) : FullRun.LocalTo d o.targets (o.map d) :=
  (FullRun.localTo_operatorOn hd o.op o.targets).selected _

/-- The maps of operations that share no position commute. -/
theorem commute_map (hd : 2 ≤ d) (hf : f.Fits d n) (hdisjoint : ∀ q ∈ f.support, q ∉ g.support) :
    Commute (f.map d) (g.map d) := by
  have hpos : 0 < d := by omega
  have htargets : ∀ q ∈ f.targets, q ∉ g.targets := fun q hq hmem =>
    hdisjoint q (List.mem_append_right _ hq) (List.mem_append_right _ hmem)
  have hplain : Commute (FullRun.operatorOn d f.op f.targets)
      (FullRun.operatorOn d g.op g.targets) :=
    FullRun.commute_operatorOn hd hf.nodup.of_append_right htargets
  -- the controls of the first operation are no targets of the second one, and the other way round
  have hcontrols : ∀ q ∈ f.controls, q ∉ g.targets := fun q hq hmem =>
    hdisjoint q (List.mem_append_left _ hq) (List.mem_append_right _ hmem)
  have hcontrols' : ∀ q ∈ g.controls, q ∉ f.targets := fun q hq hmem =>
    hdisjoint q (List.mem_append_right _ hmem) (List.mem_append_left _ hq)
  have hleft : Commute (f.map d) (FullRun.operatorOn d g.op g.targets) :=
    (FullRun.commute_selected (FullRun.power_eq_of_sameOff hcontrols)
      (FullRun.localTo_operatorOn hpos g.op g.targets) hplain.symm).symm
  exact FullRun.commute_selected (FullRun.power_eq_of_sameOff hcontrols') (localTo_map hpos f) hleft

/-- On a register from which nothing was measured, an act keeps its positions. -/
theorem rename_seat_act (o : Operation) : o.act.rename (Engine.seat []) = o.act := by
  have hseat (qs : List ℕ) : (qs.map fun q : ℕ => (q : ℤ)).map (Engine.seat []) =
      qs.map fun q : ℕ => (q : ℤ) := by
    rw [List.map_map]
    refine List.map_congr_left fun q _ => ?_
    show ((Layout.place [] (q : ℤ).toNat : ℕ) : ℤ) = q
    rw [Int.toNat_natCast, Layout.place_nil]
  rcases o with ⟨op, targets⟩ | ⟨op, _ | ⟨c, rest⟩, targets⟩ <;> simp only [act, Act.rename, hseat]

/-- The acts of operations that fit a register fit it as well. -/
theorem fits_map_act {list : List Operation} (h : ∀ o ∈ list, o.Fits d n) :
    ∀ a ∈ list.map act, a.Fits d n :=
  List.forall_mem_map.mpr fun o ho => (h o ho).act

/-- Operations one after the other are the product of their maps, the last one in front. -/
theorem foldl_act_map (hd : 2 ≤ d) {list : List Operation} (h : ∀ o ∈ list, o.Fits d n)
    (psi : ℕ → ℂ) :
    (list.map act).foldl (FullRun.act d) psi = (list.map (map d)).reverse.prod psi := by
  rw [FullRun.foldl_act_eq_prod hd (fits_map_act h), List.map_map]
  congr 4
  exact funext (mapOf_act d)

/-- Sequences of operations whose maps have the same product return the same state. -/
theorem exists_runAll_of_prod_eq (hd : 2 ≤ d) (hsize : state.size = d ^ n)
    {list list' : List Operation} (h : ∀ o ∈ list, o.Fits d n) (h' : ∀ o ∈ list', o.Fits d n)
    (hprod : (list.map (map d)).reverse.prod = (list'.map (map d)).reverse.prod) :
    ∃ out, runAll d list state = .ok out ∧ runAll d list' state = .ok out := by
  have hrename (list : List Operation) :
      (list.map act).map (Act.rename (Engine.seat [])) = list.map act := by
    rw [List.map_map]
    exact List.map_congr_left fun o _ => rename_seat_act o
  have hsize' : state.size = d ^ Layout.place [] n := by rwa [Layout.place_nil]
  have htotal := total_eq_of_acts (by omega) (.nil d n) hsize' (fits_map_act h) (fits_map_act h')
    nofun nofun fun psi => by rw [foldl_act_map hd h, foldl_act_map hd h', hprod]
  rw [List.map_nil, hrename, hrename] at htotal
  exact ⟨_, runAll_eq hd hsize h, by rw [runAll_eq hd hsize h', htotal]⟩

end Maps

/-! ## The algebra of operations -/

section Algebra

variable {d n : ℕ} {a b u : Operator ℝ} {controls targets : List ℕ} {f g : Operation}
  {state : StateVector ℝ}

/-- Whether an operation fits depends on its positions and on the size of its operator. -/
theorem Fits.of_positions (h : f.Fits d n) (hcontrols : g.controls = f.controls)
    (htargets : g.targets = f.targets)
    (hop : g.op.shape = [d ^ f.targets.length, d ^ f.targets.length]) : g.Fits d n := by
  have hsupport : g.support = f.support := by rw [support, support, hcontrols, htargets]
  refine ⟨?_, ?_, ?_, ?_⟩
  · rw [htargets]
    exact h.targets_ne_nil
  · rw [hsupport]
    exact h.nodup
  · rw [hsupport]
    exact h.inRange
  · rw [htargets]
    exact hop

section Products

variable (hd : 2 ≤ d)

include hd

/-- The product of operators acts as one after the other. -/
theorem map_plain_mul (ha : (plain a targets).Fits d n) (hb : (plain b targets).Fits d n) :
    (plain (a * b) targets).map d = (plain a targets).map d * (plain b targets).map d := by
  rw [map_of_controls_eq_nil d rfl, map_of_controls_eq_nil d rfl, map_of_controls_eq_nil d rfl]
  exact FullRun.operatorOn_mul hd ha.nodup ha.shape_op hb.shape_op

/-- The product of operators that commute acts under control as one after the other: its powers are the
products of the powers. -/
theorem map_controlled_mul (ha : (controlled a controls targets).Fits d n)
    (hb : (controlled b controls targets).Fits d n) (hab : a * b = b * a) :
    (controlled (a * b) controls targets).map d =
      (controlled a controls targets).map d * (controlled b controls targets).map d := by
  obtain ⟨-, htargets, hdisjoint⟩ := List.nodup_append'.mp ha.nodup
  have hmul : FullRun.operatorOn d (a * b) targets =
      FullRun.operatorOn d a targets * FullRun.operatorOn d b targets :=
    FullRun.operatorOn_mul hd htargets ha.shape_op hb.shape_op
  have hcommute : Commute (FullRun.operatorOn d a targets) (FullRun.operatorOn d b targets) := by
    show _ = _
    rw [← hmul, hab]
    exact FullRun.operatorOn_mul hd htargets hb.shape_op ha.shape_op
  show FullRun.selected _ (FullRun.operatorOn d (a * b) targets) = _
  rw [hmul]
  exact FullRun.selected_mul (FullRun.power_eq_of_sameOff fun q hq hmem => hdisjoint hq hmem)
    (FullRun.localTo_operatorOn (by omega) a targets) hcommute

/-- The identity does nothing, with or without control. -/
theorem map_identity {o : Operation} (h : o.Fits d n) (hop : o.op = .identity (d ^ o.targets.length)) :
    o.map d = 1 := by
  rw [map, hop, FullRun.operatorOn_identity hd h.nodup.of_append_right, FullRun.selected_one]

end Products

variable (hd : 2 ≤ d) (hsize : state.size = d ^ n)

include hd hsize

/-- Two operations one after the other and a third one that has the product of their maps return the
same state. -/
theorem exists_run_of_map_mul {o : Operation} (hf : f.Fits d n) (hg : g.Fits d n) (ho : o.Fits d n)
    (hmap : o.map d = g.map d * f.map d) :
    ∃ out, (f.run d state >>= g.run d) = .ok out ∧ o.run d state = .ok out := by
  have hruns : ∃ out, runAll d [f, g] state = .ok out ∧ runAll d [o] state = .ok out :=
    exists_runAll_of_prod_eq hd hsize (by simp [hf, hg]) (by simp [ho]) (by simp [hmap])
  obtain ⟨out, htwo, hone⟩ := hruns
  exact ⟨out, by simpa [runAll] using htwo, by simpa [runAll] using hone⟩

/-- Operations that share no position return the same state in either order. -/
theorem exists_run_of_disjoint (hf : f.Fits d n) (hg : g.Fits d n)
    (hdisjoint : f.support.Disjoint g.support) :
    ∃ out, (f.run d state >>= g.run d) = .ok out ∧ (g.run d state >>= f.run d) = .ok out := by
  have hcommute : g.map d * f.map d = f.map d * g.map d :=
    (commute_map hd hf fun _ hq hmem => hdisjoint hq hmem).eq.symm
  have hruns : ∃ out, runAll d [f, g] state = .ok out ∧ runAll d [g, f] state = .ok out :=
    exists_runAll_of_prod_eq hd hsize (by simp [hf, hg]) (by simp [hf, hg]) (by simp [hcommute])
  obtain ⟨out, hfg, hgf⟩ := hruns
  exact ⟨out, by simpa [runAll] using hfg, by simpa [runAll] using hgf⟩

/-- Operations whose maps cancel restore the state. -/
theorem run_restores (hf : f.Fits d n) (hg : g.Fits d n) (hmap : g.map d * f.map d = 1) :
    (f.run d state >>= g.run d) = .ok state := by
  have hruns : ∃ out, runAll d [f, g] state = .ok out ∧ runAll d [] state = .ok out :=
    exists_runAll_of_prod_eq hd hsize (by simp [hf, hg]) nofun (by simp [hmap])
  obtain ⟨out, htwo, hnone⟩ := hruns
  obtain rfl : state = out := Except.ok.inj hnone
  simpa [runAll] using htwo

/-- The identity returns the state, with or without control. -/
theorem run_identity (hf : f.Fits d n) (hop : f.op = .identity (d ^ f.targets.length)) :
    f.run d state = .ok state := by
  have hruns : ∃ out, runAll d [f] state = .ok out ∧ runAll d [] state = .ok out :=
    exists_runAll_of_prod_eq hd hsize (by simp [hf]) nofun (by simp [map_identity hd hf hop])
  obtain ⟨out, hone, hnone⟩ := hruns
  obtain rfl : state = out := Except.ok.inj hnone
  simpa [runAll] using hone

/-- An operator and its inverse under the same control restore the state. -/
theorem run_controlled_inverse (hu : (controlled u controls targets).Fits d n)
    (ha : (controlled a controls targets).Fits d n)
    (hinverse : a * u = .identity (d ^ targets.length)) :
    ((controlled u controls targets).run d state >>= (controlled a controls targets).run d) =
      .ok state := by
  have hcommute : a * u = u * a :=
    hinverse.trans (Operator.mul_eq_identity_symm ha.shape_op hu.shape_op hinverse).symm
  refine run_restores hd hsize hu ha ?_
  have hproduct : (controlled (a * u) controls targets).Fits d n :=
    ha.of_positions rfl rfl (Tensor.shape_mul ha.shape_op hu.shape_op)
  rw [← map_controlled_mul hd ha hu hcommute]
  exact map_identity hd hproduct hinverse

end Algebra

end Operation

open Operation in
/-- The algebra of operations on a register, in exact arithmetic and without a check of norms. On one
list of targets, one operator after the other is their product and the identity returns the state.
Operations that share no position commute, whatever their positions are and whether or not they are
under control. Under one list of controls, operators that commute act one after the other as their
product, so that a unitary operator and its inverse restore the state. -/
theorem operations_compose {d n : ℕ} (hd : 2 ≤ d) {state : StateVector ℝ}
    (hsize : state.size = d ^ n) :
    (∀ a b targets, (plain a targets).Fits d n → (plain b targets).Fits d n →
      ∃ out, ((plain b targets).run d state >>= (plain a targets).run d) = .ok out ∧
        (plain (a * b) targets).run d state = .ok out) ∧
    (∀ targets, (plain (.identity (d ^ targets.length)) targets).Fits d n →
      (plain (.identity (d ^ targets.length)) targets).run d state = .ok state) ∧
    (∀ f g : Operation, f.Fits d n → g.Fits d n → f.support.Disjoint g.support →
      ∃ out, (f.run d state >>= g.run d) = .ok out ∧ (g.run d state >>= f.run d) = .ok out) ∧
    (∀ a b controls targets, (controlled a controls targets).Fits d n →
      (controlled b controls targets).Fits d n → a * b = b * a →
      ∃ out, ((controlled b controls targets).run d state >>=
          (controlled a controls targets).run d) = .ok out ∧
        (controlled (a * b) controls targets).run d state = .ok out) ∧
    (∀ u controls targets, (controlled u controls targets).Fits d n → u.Unitary →
      ((controlled u controls targets).run d state >>=
        (controlled u.adjoint controls targets).run d) = .ok state) := by
  refine ⟨fun a b targets ha hb => ?_, fun targets h => run_identity hd hsize h rfl,
    fun f g hf hg hdisjoint => exists_run_of_disjoint hd hsize hf hg hdisjoint,
    fun a b controls targets ha hb hab => ?_, fun u controls targets hu hunitary => ?_⟩
  · have hproduct : (plain (a * b) targets).Fits d n :=
      ha.of_positions rfl rfl (Tensor.shape_mul ha.shape_op hb.shape_op)
    exact exists_run_of_map_mul hd hsize hb ha hproduct (map_plain_mul hd ha hb)
  · have hproduct : (controlled (a * b) controls targets).Fits d n :=
      ha.of_positions rfl rfl (Tensor.shape_mul ha.shape_op hb.shape_op)
    exact exists_run_of_map_mul hd hsize hb ha hproduct (map_controlled_mul hd ha hb hab)
  · have hadjoint : (controlled u.adjoint controls targets).Fits d n :=
      hu.of_positions rfl rfl (Tensor.shape_adjoint hu.shape_op)
    refine run_controlled_inverse hd hsize hu hadjoint ?_
    have hcolumns : u.columns = d ^ targets.length := Tensor.columns_of_shape hu.shape_op
    rw [hunitary.2, hcolumns]

open Operation in
/-- On three qubits in the basis state 5, a NOT of the middle one commutes with a NOT of the first one
that the last one controls, and doing the latter twice restores the state. -/
theorem operations_compose_qubits :
    (∃ out, ((plain Gate.pauliX [1]).run 2 (basisState 8 5) >>=
        (controlled Gate.pauliX [2] [0]).run 2) = .ok out ∧
      ((controlled Gate.pauliX [2] [0]).run 2 (basisState 8 5) >>=
        (plain Gate.pauliX [1]).run 2) = .ok out) ∧
    ((controlled Gate.pauliX [2] [0]).run 2 (basisState 8 5) >>=
      (controlled (Tensor.adjoint Gate.pauliX) [2] [0]).run 2) = .ok (basisState 8 5) := by
  have hplain : (plain Gate.pauliX [1]).Fits 2 3 :=
    ⟨by decide, by decide, by decide, rfl⟩
  have hcontrolled : (controlled Gate.pauliX [2] [0]).Fits 2 3 :=
    ⟨by decide, by decide, by decide, rfl⟩
  have hsize : (basisState 8 5 : StateVector ℝ).size = 2 ^ 3 := Array.size_ofFn
  have hdisjoint : [1].Disjoint [2, 0] := by simp
  obtain ⟨-, -, hcommute, -, hrestore⟩ := operations_compose le_rfl hsize
  exact ⟨hcommute _ _ hplain hcontrolled hdisjoint,
    hrestore _ _ _ hcontrolled Gate.unitary_pauliX⟩

end StateVector

end QuditSim
