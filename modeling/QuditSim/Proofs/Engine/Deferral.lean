import QuditSim.Proofs.Engine.Effect
import QuditSim.Proofs.Engine.Isometry

/-!
# Deferred measurement

A gate under control of qudits that are then measured does what the gate under control of the dits
does when the qudits are measured before it. The gate keeps the weights of the digits of its
controls, so both programs find the same digits, and on the amplitudes that remain it is the power
of its operator that the digits found select.

- `Engine.Deferring` relates the two programs while the controls are measured one after the other,
  and `Engine.Deferring.measure` is the step lemma.
- `Engine.Deferring.finish` applies the gate under control of the dits at the end.
- `Engine.deferred_measurement` is the equality of the two programs.
-/

open Finset

namespace QuditSim

open Layout

/-- The kind of gates under control of dits that goes with one under control of qudits. -/
def GateKind.byDits : GateKind → GateKind
  | .controlled _ controls targets => .controlled .classical controls targets
  | .controlledCustom _ => .controlledCustom .classical
  | kind => kind

/-- The gate under control of dits that does the same to its targets. -/
def GateStep.byDits (step : GateStep) (dits : List Int) : GateStep :=
  { step with kind := step.kind.byDits, controls := dits }

/-- The measurement of the digit of a qudit into a dit. -/
def MeasureStep.intoDit (name : String) (pair : Int × Int) : MeasureStep :=
  ⟨.standard, [], [pair.1], pair.2, name⟩

/-- The measurements of the digits of several qudits, each into a dit of its own. -/
def measurements (names : Int × Int → String) (pairs : List (Int × Int)) : List Step :=
  pairs.map fun pair => .measure (.intoDit (names pair) pair)

namespace Engine

open Execution

/-! ## While the controls are measured -/

section Measuring

/-- The measurement of the digit of a qudit into a dit is a recorded one. -/
theorem recorded_intoDit {S : Type} {c : Circuit S} {pair : Int × Int}
    (hq : InRange c.qudits pair.1) (hdit : InRange c.dits pair.2) (name : String) :
    (MeasureStep.intoDit name pair).Recorded c where
  targets := ⟨List.cons_ne_nil _ _, List.nodup_singleton _, List.forall_mem_singleton.mpr hq⟩
  dit := hdit
  basis := ⟨rfl, rfl⟩

variable {c : Circuit ℝ} {G : Module.End ℂ (ℕ → ℂ)} {gone : List Int} {done : List (Int × Int)}
  {found : List (Int × ℕ)} {psi : ℕ → ℂ} {engine engine' : Engine ℝ ℝ}

/-- Two engines that measured the same qudits into the same dits, of which the first one applied a
map to all amplitudes before. -/
structure Deferring (c : Circuit ℝ) (G : Module.End ℂ (ℕ → ℂ)) (gone : List Int)
    (done : List (Int × Int)) (found : List (Int × ℕ)) (psi : ℕ → ℂ) (engine engine' : Engine ℝ ℝ) :
    Prop where
  /-- The second one stands without what was measured. -/
  stands : Stands c (gone ++ done.map Prod.fst) engine'
  /-- It does nothing besides its steps. -/
  plain : engine'.Plain
  /-- The engines differ in their states only. -/
  engine_eq : engine = { engine' with state := engine.state }
  /-- The findings are those of the measured qudits. -/
  keys_eq : found.map Prod.fst = gone ++ done.map Prod.fst
  /-- They are digits of the register. -/
  findings : Findings c.dim c.qudits found
  /-- The state of the second engine is that of the full register. -/
  restricts : Restricts c.dim c.qudits found psi engine'.state
  /-- That of the first one has the map applied. -/
  restricts_map : Restricts c.dim c.qudits found (G psi) engine.state
  /-- The dits have the digits found. -/
  noted : ∀ pair ∈ done, (pair.1, engine'.dits.getD pair.2.toNat 0) ∈ found

/-- The first engine stands where the second one does. -/
theorem Deferring.stands_map (h : Deferring c G gone done found psi engine engine') :
    Stands c (gone ++ done.map Prod.fst) engine := by
  rw [h.engine_eq]
  refine h.stands.withState ?_
  rw [h.restricts_map.size_eq, h.keys_eq]

theorem Deferring.plain_map (h : Deferring c G gone done found psi engine engine') :
    engine.Plain := by
  rw [h.engine_eq]
  exact ⟨h.plain.preStep_eq, h.plain.checkNormalization_eq⟩

/-- An engine that carried out an act on live qudits is related to the one before it. -/
theorem exists_deferring (hd : 2 ≤ c.dim) (h : Stands c gone engine) (hplain : engine.Plain)
    {a : Act ℝ} (hfit : a.Fits c.dim c.qudits) (hlive : ∀ q ∈ a.qudits, q ∉ gone) :
    ∃ psi, Deferring c (FullRun.mapOf c.dim a) gone [] (zeros gone) psi
      { engine with
        state := ([a].map (Act.rename (seat gone))).foldl (Act.total c.dim) engine.state }
      engine := by
  have hpos : 0 < c.dim := by omega
  have hfindings : Findings c.dim c.qudits (zeros gone) :=
    findings_zeros hpos h.gone_nodup h.gone_inRange
  have hsize := h.size_state
  rw [← keys_zeros gone] at hsize
  obtain ⟨psi, hrestricts⟩ := exists_restricts hpos hfindings hsize
  have hacted := hrestricts.act hpos hfindings hfit (by rwa [keys_zeros])
  rw [FullRun.act_eq_mapOf hd hfit, keys_zeros] at hacted
  have hstands : Stands c (gone ++ ([] : List (Int × Int)).map Prod.fst) engine := by
    rw [List.map_nil, List.append_nil]
    exact h
  have hkeys : (zeros gone).map Prod.fst = gone ++ ([] : List (Int × Int)).map Prod.fst := by
    rw [keys_zeros, List.map_nil, List.append_nil]
  exact ⟨psi, hstands, hplain, rfl, hkeys, hfindings, hrestricts, hacted, fun _ h => nomatch h⟩

/-- Engines stay related when both take over the same digit of one more qudit. -/
theorem Deferring.collapsed (h : Deferring c G gone done found psi engine engine')
    {pair : Int × Int} (hq : InRange c.qudits pair.1) (hlive : pair.1 ∉ gone ++ done.map Prod.fst)
    (hdit : InRange c.dits pair.2) (hfresh : ∀ pair' ∈ done, pair'.2.toNat ≠ pair.2.toNat)
    {v : ℕ} {phi : ℕ → ℂ} {state state' : StateVector ℝ}
    (hfindings : Findings c.dim c.qudits (found ++ [(pair.1, v)]))
    (hmap : Restricts c.dim c.qudits (found ++ [(pair.1, v)]) (G phi) state)
    (hrest : Restricts c.dim c.qudits (found ++ [(pair.1, v)]) phi state') (name : String)
    (prob : ℝ) :
    let next (engine : Engine ℝ ℝ) (state : StateVector ℝ) : Engine ℝ ℝ :=
      engine.collapsed c (gone ++ done.map Prod.fst) (.intoDit name pair) state v prob
    Deferring c G gone (done ++ [pair]) (found ++ [(pair.1, v)]) phi (next engine state)
      (next engine' state') := by
  intro next
  have hdone : gone ++ (done ++ [pair]).map Prod.fst = gone ++ done.map Prod.fst ++ [pair.1] := by
    rw [List.map_append, List.append_assoc]
    rfl
  have hkeys : (found ++ [(pair.1, v)]).map Prod.fst = gone ++ (done ++ [pair]).map Prod.fst := by
    rw [hdone, List.map_append, h.keys_eq]
    rfl
  have htargets : TargetList c.qudits (MeasureStep.intoDit name pair).targets :=
    ⟨List.cons_ne_nil _ _, List.nodup_singleton _, List.forall_mem_singleton.mpr hq⟩
  have hsize := hrest.size_eq
  rw [hkeys, hdone] at hsize
  refine ⟨?_, ⟨h.plain.preStep_eq, h.plain.checkNormalization_eq⟩, ?_, hkeys, hfindings, hrest,
    hmap, fun pair' hpair' => ?_⟩
  · rw [hdone]
    exact h.stands.collapsed htargets (List.forall_mem_singleton.mpr hlive) hsize v prob
  -- what the engines take over is the same but for the states
  · show engine.collapsed c _ _ state v prob = _
    rw [h.engine_eq]
    rfl
  · show (pair'.1, (engine'.dits.set pair.2.toNat v).getD pair'.2.toNat 0) ∈ _
    rw [List.getD_eq_getElem?_getD, List.getElem?_set]
    rcases List.mem_append.mp hpair' with hold | hnew
    · rw [if_neg (hfresh pair' hold).symm, ← List.getD_eq_getElem?_getD]
      exact List.mem_append_left _ (h.noted pair' hold)
    · have hlength : pair.2.toNat < engine'.dits.length := by
        rw [h.stands.length_dits]
        exact hdit.toNat_lt
      rw [List.mem_singleton.mp hnew, if_pos rfl, if_pos hlength]
      exact List.mem_append_right _ (List.mem_singleton_self _)

variable {ts : List ℕ} (hd : 2 ≤ c.dim) (hlocal : FullRun.LocalTo c.dim ts G)
  (hG : FullRun.Isometric c.dim c.qudits G) (hts : ∀ t ∈ ts, t < c.qudits)
  (h : Deferring c G gone done found psi engine engine')

include hd hlocal hts h

/-- Engines without any amplitude are the same. -/
theorem Deferring.eq_of_total (hzero : FullRun.total c.dim c.qudits psi = 0) :
    engine = engine' := by
  have hpos : 0 < c.dim := by omega
  have hpsi : ∀ x < c.dim ^ c.qudits, psi x = 0 := by
    intro x hx
    have hterms := (sum_eq_zero_iff_of_nonneg fun y _ => Complex.normSq_nonneg (psi y)).mp hzero
    exact Complex.normSq_eq_zero.mp (hterms x (mem_range.mpr hx))
  have hstate : engine.state = engine'.state := by
    refine h.restricts_map.state_eq hpos h.findings h.restricts fun x hx => ?_
    rw [hpsi x hx]
    refine hlocal.eq_zero fun y hy => hpsi y ?_
    exact hy.symm.lt_pow hd hts hx
  rw [h.engine_eq, hstate]

include hG

omit hts in
/-- The digits of another qudit have the same weights in both engines, those of the full register,
and what is left of their states is related as the states are. -/
theorem Deferring.measured {q : Int} (hq : InRange c.qudits q)
    (hlive : q ∉ gone ++ done.map Prod.fst) (hoff : q.toNat ∉ ts) {v : ℕ} (hv : v < c.dim) :
    let p := place (gone ++ done.map Prod.fst) q.toNat
    let phi := FullRun.project c.dim c.qudits [q.toNat] psi v
    (StateVector.chanceWeight (StateVector.slice c.dim p v engine.state) : ℝ) =
        FullRun.weight c.dim c.qudits [q.toNat] psi v ∧
      (StateVector.chanceWeight (StateVector.slice c.dim p v engine'.state) : ℝ) =
        FullRun.weight c.dim c.qudits [q.toNat] psi v ∧
      Findings c.dim c.qudits (found ++ [(q, v)]) ∧
      Restricts c.dim c.qudits (found ++ [(q, v)]) (G phi)
        (StateVector.remaining ℝ c.dim p v engine.state) ∧
      Restricts c.dim c.qudits (found ++ [(q, v)]) phi
        (StateVector.remaining ℝ c.dim p v engine'.state) := by
  intro p phi
  have hpos : 0 < c.dim := by omega
  have hfoundlive : q ∉ found.map Prod.fst := by rwa [h.keys_eq]
  have hsame : ∀ q' ∈ [q.toNat], q' ∉ ts := List.forall_mem_singleton.mpr hoff
  obtain ⟨hweightMap, -, hrestMap⟩ := h.restricts_map.measured hpos h.findings hq hfoundlive hv
  obtain ⟨hweight, hfindings, hrest⟩ := h.restricts.measured hpos h.findings hq hfoundlive hv
  -- the map acts elsewhere, so it can be applied after the measurement
  rw [hG.weight_eq hlocal hsame] at hweightMap
  rw [hG.project hlocal hsame] at hrestMap
  rw [h.keys_eq] at hweightMap hweight hrestMap hrest
  exact ⟨hweightMap, hweight, hfindings, hrestMap, hrest⟩

/-- One more control is measured by both engines: they find the same digit and stay related, or both
are refused with one fault and are the same. -/
theorem Deferring.measure {run run' : Run ℝ ℝ} (hengine : run.engine = engine)
    (hengine' : run'.engine = engine') (hdraws : run'.draws = run.draws) {pair : Int × Int}
    (hq : InRange c.qudits pair.1) (hlive : pair.1 ∉ gone ++ done.map Prod.fst)
    (hoff : pair.1.toNat ∉ ts) (hdit : InRange c.dits pair.2)
    (hfresh : ∀ pair' ∈ done, pair'.2.toNat ≠ pair.2.toNat) (name : String) (ip ip' : ℕ) :
    let step := Step.measure (.intoDit name pair)
    (∃ fault, (execute false c (step.view c.serial ip)).effect run =
        (.error fault, engine', run.draws) ∧
      (execute false c (step.view c.serial ip')).effect run' =
        (.error fault, engine', run.draws)) ∨
    ∃ v next next', (execute false c (step.view c.serial ip)).effect run =
        (.ok (), next, run.draws.advance) ∧
      (execute false c (step.view c.serial ip')).effect run' =
        (.ok (), next', run.draws.advance) ∧
      Deferring c G gone (done ++ [pair]) (found ++ [(pair.1, v)])
        (FullRun.project c.dim c.qudits [pair.1.toNat] psi v) next next' := by
  intro step
  subst hengine hengine'
  have hpos : 0 < c.dim := by omega
  have hrecorded : (MeasureStep.intoDit name pair).Recorded c := recorded_intoDit hq hdit name
  have hmeasured {v : ℕ} (hv : v < c.dim) := h.measured hd hlocal hG hq hlive hoff hv
  dsimp only at hmeasured
  have heffect := effect_measure hd h.stands_map h.plain_map hrecorded rfl rfl hlive ip
  have heffect' := effect_measure hd h.stands h.plain hrecorded rfl rfl hlive ip'
  dsimp only at heffect heffect'
  rw [hdraws] at heffect'
  -- both engines sample from the weights in the full register
  have hweights : (StateVector.digitWeights c.dim
      (place (gone ++ done.map Prod.fst) pair.1.toNat) run.engine.state : List ℝ) =
        (List.range c.dim).map (FullRun.weight c.dim c.qudits [pair.1.toNat] psi) :=
    List.map_congr_left fun v hv => (hmeasured (List.mem_range.mp hv)).1
  have hweights' : (StateVector.digitWeights c.dim
      (place (gone ++ done.map Prod.fst) pair.1.toNat) run'.engine.state : List ℝ) =
        (List.range c.dim).map (FullRun.weight c.dim c.qudits [pair.1.toNat] psi) :=
    List.map_congr_left fun v hv => (hmeasured (List.mem_range.mp hv)).2.1
  rw [hweights] at heffect
  rw [hweights'] at heffect'
  rcases hsample : sampleIndex ((List.range c.dim).map
    (FullRun.weight c.dim c.qudits [pair.1.toNat] psi)) run.draws.current with cause | v
  · rw [hsample] at heffect heffect'
    refine .inl ⟨_, ?_, heffect'⟩
    -- nothing is sampled only from a register without any weight, and then the map did nothing
    have hzero : FullRun.total c.dim c.qudits psi = 0 := by
      by_contra hne
      obtain ⟨v, hv⟩ :=
        FullRun.exists_sampleIndex hpos [pair.1.toNat] hne run.draws.current
      rw [List.length_singleton, pow_one, hsample] at hv
      cases hv
    rw [heffect, h.eq_of_total hd hlocal hts hzero]
  · rw [hsample] at heffect heffect'
    have hv : v < c.dim := by simpa using lt_of_sampleIndex hsample
    refine .inr ⟨v, _, _, heffect, heffect', ?_⟩
    obtain ⟨hweight, hweight', hfindings, hmap, hrest⟩ := hmeasured hv
    rw [hweight, hweight']
    exact h.collapsed hq hlive hdit hfresh hfindings hmap hrest name _

end Measuring

/-! ## When the controls are measured -/

section Finishing

variable {c : Circuit ℝ} {gone : List Int} {step : GateStep} {dits : List Int}

/-- A recorded gate under control of live qudits, together with a dit for each of its controls. -/
structure Deferrable (c : Circuit ℝ) (gone : List Int) (step : GateStep) (dits : List Int) :
    Prop where
  /-- The gate is a recorded one. -/
  recorded : step.Recorded c
  /-- Its controls are qudits. -/
  control_eq : step.kind.control? = some .quantum
  /-- Its qudits are live. -/
  live : ∀ q ∈ (Step.gate step).qudits, q ∉ gone
  /-- The dits are different ones. -/
  nodup : dits.Nodup
  /-- They are dits of the circuit. -/
  inRange : ∀ i ∈ dits, InRange c.dits i
  /-- There are as many as controls. -/
  length_eq : dits.length = step.controls.length

/-- The kinds of gates under control of qudits. -/
theorem kind_of_quantum (h : step.kind.control? = some .quantum) :
    (∃ controls targets, step.kind = .controlled .quantum controls targets) ∨
      step.kind = .controlledCustom .quantum := by
  cases hkind : step.kind with
  | controlled control controls targets =>
    rw [hkind] at h
    cases h
    exact .inl ⟨controls, targets, rfl⟩
  | controlledCustom control =>
    rw [hkind] at h
    cases h
    exact .inr rfl
  | _ =>
    rw [hkind] at h
    cases h

namespace Deferrable

variable (h : Deferrable c gone step dits)

include h

/-- The controls are qudits of the circuit, at least one, and no targets. -/
theorem controls_fit :
    step.controls ≠ [] ∧ (∀ q ∈ step.controls, InRange c.qudits q) ∧
      ∀ q ∈ step.controls, q ∉ step.targets := by
  have hcontrols := h.recorded.controls
  unfold Circuit.ControlsFit at hcontrols
  rwa [h.control_eq] at hcontrols

theorem live_controls : ∀ q ∈ step.controls, q ∉ gone := by
  intro q hq
  apply h.live
  rw [Step.qudits_of_quantum h.control_eq]
  exact List.mem_append_left _ hq

theorem live_targets : ∀ q ∈ step.targets, q ∉ gone :=
  fun q hq => h.live q (Step.mem_qudits_of_mem_targets (.gate step) hq)

/-- The gate under control of the dits has that control. -/
theorem control?_byDits : (step.byDits dits).kind.control? = some .classical := by
  unfold GateStep.byDits
  rcases kind_of_quantum h.control_eq with ⟨controls, targets, hkind⟩ | hkind
  · rw [hkind]
    rfl
  · rw [hkind]
    rfl

/-- It applies the same operator to its targets. -/
theorem jointOperand_byDits (count : ℕ) :
    jointOperand c (step.byDits dits) count = jointOperand c step count := by
  unfold jointOperand GateStep.byDits
  rcases kind_of_quantum h.control_eq with ⟨controls, targets, hkind⟩ | hkind
  · rw [hkind]
    rcases targets with _ | _
    · rfl
    · rfl
  · rw [hkind]
    rfl

/-- It refers to the targets only. -/
theorem qudits_byDits : (Step.gate (step.byDits dits)).qudits = step.targets := by
  unfold Step.qudits GateKind.isQuantumControlled
  dsimp only
  rw [h.control?_byDits]
  rfl

/-- It is a recorded gate as well. -/
theorem recorded_byDits : (step.byDits dits).Recorded c := by
  have htakes := h.recorded.takes
  have hoperator := h.recorded.operator
  refine ⟨h.recorded.targets, h.nodup, ?_, ?_, ?_⟩
  · unfold Circuit.ControlsFit
    rw [h.control?_byDits]
    exact h.inRange
  · unfold GateStep.byDits
    dsimp only
    rw [h.length_eq]
    rcases kind_of_quantum h.control_eq with ⟨controls, targets, hkind⟩ | hkind
    · rw [hkind] at htakes ⊢
      exact htakes
    · rw [hkind]
      exact trivial
  · unfold GateStep.byDits
    rcases kind_of_quantum h.control_eq with ⟨controls, targets, hkind⟩ | hkind
    · rw [hkind] at hoperator ⊢
      exact hoperator
    · rw [hkind] at hoperator ⊢
      exact hoperator

theorem map_fst_zip : (step.controls.zip dits).map Prod.fst = step.controls :=
  List.map_fst_zip (le_of_eq h.length_eq.symm)

theorem map_snd_zip : (step.controls.zip dits).map Prod.snd = dits :=
  List.map_snd_zip (le_of_eq h.length_eq)

/-- The control of a later measurement is none of those that were measured before, and neither is
its dit. -/
theorem fresh {done pairs : List (Int × Int)} {pair : Int × Int}
    (hpairs : done ++ pair :: pairs = step.controls.zip dits) :
    pair.1 ∈ step.controls ∧ pair.2 ∈ dits ∧ pair.1 ∉ done.map Prod.fst ∧
      ∀ pair' ∈ done, pair'.2.toNat ≠ pair.2.toNat := by
  have hcontrols : done.map Prod.fst ++ pair.1 :: pairs.map Prod.fst = step.controls := by
    rw [← h.map_fst_zip, ← hpairs, List.map_append]
    rfl
  have hdits : done.map Prod.snd ++ pair.2 :: pairs.map Prod.snd = dits := by
    rw [← h.map_snd_zip, ← hpairs, List.map_append]
    rfl
  have hcontrol : pair.1 ∈ step.controls := by
    rw [← hcontrols]
    exact List.mem_append_right _ List.mem_cons_self
  have hdit : pair.2 ∈ dits := by
    rw [← hdits]
    exact List.mem_append_right _ List.mem_cons_self
  refine ⟨hcontrol, hdit, fun hmem => ?_, fun pair' hpair' heq => ?_⟩
  · have hnodup := h.recorded.controls_nodup
    rw [← hcontrols] at hnodup
    exact (List.nodup_append.mp hnodup).2.2 _ hmem _ List.mem_cons_self rfl
  · have hnodup := h.nodup
    have hmem : pair'.2 ∈ done.map Prod.snd := List.mem_map_of_mem hpair'
    have hdit' : pair'.2 ∈ dits := by
      rw [← hdits]
      exact List.mem_append_left _ hmem
    rw [← hdits] at hnodup
    apply (List.nodup_append.mp hnodup).2.2 _ hmem _ List.mem_cons_self
    rw [← (h.inRange _ hdit').toNat_eq, heq, (h.inRange _ hdit).toNat_eq]

end Deferrable

/-- The digits of the measured controls in an index that has the digits found are the values of the
dits. -/
theorem Deferring.digits_eq {G : Module.End ℂ (ℕ → ℂ)} {done : List (Int × Int)}
    {found : List (Int × ℕ)} {psi : ℕ → ℂ} {engine engine' : Engine ℝ ℝ}
    (h : Deferring c G gone done found psi engine engine') {x : ℕ} (hx : Consistent c.dim found x) :
    ((done.map Prod.fst).map Int.toNat).map (fun q => digit c.dim q x) =
      (done.map Prod.snd).map fun i => engine'.dits.getD i.toNat 0 := by
  rw [List.map_map, List.map_map, List.map_map]
  exact List.map_congr_left fun pair hpair => hx _ (h.noted pair hpair)

/-- When all controls are measured, the gate under control of the dits applies the power of its
operator that their values select. -/
theorem Deferring.acts_byDits (hd : 2 ≤ c.dim) (hsmall : c.dim ≤ 2 ^ 63)
    (hstep : Deferrable c gone step dits) {joint : Operator ℝ}
    (hjoint : jointOperand c step step.targets.length = .ok joint) {G : Module.End ℂ (ℕ → ℂ)}
    {found : List (Int × ℕ)} {psi : ℕ → ℂ} {engine engine' : Engine ℝ ℝ}
    (h : Deferring c G gone (step.controls.zip dits) found psi engine engine') :
    ∃ list, acts c engine'.dits (step.byDits dits) dits step.targets = .ok list ∧
      ∀ psi, list.foldl (FullRun.act c.dim) psi =
        (FullRun.operatorOn c.dim joint (step.targets.map Int.toNat) ^
          FullRun.common (dits.map fun i => engine'.dits.getD i.toNat 0)) psi := by
  obtain ⟨hne, -, -⟩ := hstep.controls_fit
  obtain ⟨other, hother, hshape⟩ :=
    jointOperand_eq_ok hstep.recorded (by rw [hstep.control_eq]; rfl)
  obtain rfl : joint = other := Except.ok.inj (hjoint.symm.trans hother)
  -- the values of the dits are the digits found, so they are small
  let values := dits.map fun i => engine'.dits.getD i.toNat 0
  have hvalues : ∀ v ∈ values, v < 2 ^ 63 := by
    intro v hv
    obtain ⟨i, hi, rfl⟩ := List.mem_map.mp hv
    rw [← hstep.map_snd_zip] at hi
    obtain ⟨pair, hpair, rfl⟩ := List.mem_map.mp hi
    have hdigit := h.findings.digit_lt _ (h.noted pair hpair)
    exact Nat.lt_of_lt_of_le hdigit hsmall
  have hvalues_ne : values ≠ [] := by
    intro hnil
    have hlength := congrArg List.length hnil
    rw [List.length_map, hstep.length_eq] at hlength
    exact hne (List.length_eq_zero_iff.mp hlength)
  obtain ⟨list, hlist⟩ := classicalActs_eq_ok step.targets hshape hvalues
  refine ⟨list, ?_, fun psi => ?_⟩
  · rw [acts_of_classical hstep.control?_byDits, hstep.jointOperand_byDits, hjoint,
      ditValues_eq_ok (by rw [h.stands.length_dits]; exact hstep.inRange)]
    exact hlist
  · rw [FullRun.foldl_classicalActs hd hstep.recorded.targets hshape hvalues_ne hlist,
      FullRun.raised_eq hd (FullRun.nodup_places hstep.recorded.targets)
        (by rwa [List.length_map])]

/-- When all controls are measured, the gate under control of the dits makes the second engine the
first one. -/
theorem Deferring.finish (hd : 2 ≤ c.dim) (hsmall : c.dim ≤ 2 ^ 63)
    (hstep : Deferrable c gone step dits) {joint : Operator ℝ}
    (hjoint : jointOperand c step step.targets.length = .ok joint) {found : List (Int × ℕ)}
    {psi : ℕ → ℂ} {engine : Engine ℝ ℝ} {run' : Run ℝ ℝ}
    (h : Deferring c (FullRun.mapOf c.dim (.controlled joint step.controls step.targets)) gone
      (step.controls.zip dits) found psi engine run'.engine) (ip : ℕ) :
    (execute false c ((Step.gate (step.byDits dits)).view c.serial ip)).effect run' =
      (.ok (), engine, run'.draws) := by
  have hpos : 0 < c.dim := by omega
  obtain ⟨-, -, hdisjoint⟩ := hstep.controls_fit
  have hrecorded := hstep.recorded_byDits
  obtain ⟨list, hacts, hfold⟩ := h.acts_byDits hd hsmall hstep hjoint
  have hlive : ∀ q ∈ (Step.gate (step.byDits dits)).qudits,
      q ∉ gone ++ (step.controls.zip dits).map Prod.fst := by
    rw [hstep.qudits_byDits, hstep.map_fst_zip]
    intro q hq hmem
    rcases List.mem_append.mp hmem with hgone | hq'
    · exact hstep.live_targets q hq hgone
    · exact hdisjoint q hq' hq
  have hfit := live_of_acts hrecorded hlive hacts
  rw [← h.keys_eq] at hfit
  have hacted := h.restricts.acts hpos h.findings (fun a ha => (hfit a ha).1)
    fun a ha => (hfit a ha).2
  rw [h.keys_eq] at hacted
  -- Where the digits are those found, the gate under control of the qudits selected the power that
  -- the values of the dits select. All other amplitudes are zero.
  have hstate := hacted.state_eq hpos h.findings h.restricts_map fun x hx => by
    by_cases hfound : Consistent c.dim found x
    · have hdigits := h.digits_eq hfound
      rw [hstep.map_fst_zip, hstep.map_snd_zip] at hdigits
      rw [hfold, FullRun.mapOf, FullRun.selected_apply, FullRun.exponent, hdigits]
    · rw [hacted.zero_off x hx hfound, h.restricts_map.zero_off x hx hfound]
  rw [effect_gate hd h.stands h.plain hrecorded hlive hacts, hstate, ← h.engine_eq]

/-- From where some controls are measured, measuring the others is the same as measuring them and
then applying the gate under control of the dits. -/
theorem Deferring.effect_eq (hd : 2 ≤ c.dim) (hsmall : c.dim ≤ 2 ^ 63)
    (hstep : Deferrable c gone step dits) {joint : Operator ℝ}
    (hjoint : jointOperand c step step.targets.length = .ok joint)
    (hG : FullRun.Isometric c.dim c.qudits
      (FullRun.mapOf c.dim (.controlled joint step.controls step.targets)))
    (names : Int × Int → String) {pairs done : List (Int × Int)}
    (hpairs : done ++ pairs = step.controls.zip dits) {found : List (Int × ℕ)} {psi : ℕ → ℂ}
    {run run' : Run ℝ ℝ} (hdraws : run'.draws = run.draws)
    (h : Deferring c (FullRun.mapOf c.dim (.controlled joint step.controls step.targets)) gone
      done found psi run.engine run'.engine) (ip ip' : ℕ) :
    (executeAll false c ip (measurements names pairs)).effect run =
      (executeAll false c ip' (measurements names pairs ++ [.gate (step.byDits dits)])).effect
        run' := by
  have hpos : 0 < c.dim := by omega
  obtain ⟨-, hcrange, hdisjoint⟩ := hstep.controls_fit
  have hlocal : FullRun.LocalTo c.dim (step.targets.map Int.toNat)
      (FullRun.mapOf c.dim (.controlled joint step.controls step.targets)) :=
    (FullRun.localTo_operatorOn hpos joint _).selected _
  have hts := FullRun.places_lt hstep.recorded.targets.inRange
  have hoff := FullRun.not_mem_places hcrange hstep.recorded.targets.inRange hdisjoint
  -- the induction is on the controls that are still to be measured
  induction pairs generalizing done found psi run run' ip ip' with
  | nil =>
    rw [List.append_nil] at hpairs
    subst hpairs
    show (executeAll false c ip []).effect run =
      (executeAll false c ip' [.gate (step.byDits dits)]).effect run'
    rw [effect_executeAll_singleton, h.finish hd hsmall hstep hjoint ip', hdraws]
    rfl
  | cons pair pairs ih =>
    obtain ⟨hq, hdit, hnew, hfresh⟩ := hstep.fresh hpairs
    have hlive : pair.1 ∉ gone ++ done.map Prod.fst := by
      intro hmem
      rcases List.mem_append.mp hmem with hgone | hdone
      · exact hstep.live_controls _ hq hgone
      · exact hnew hdone
    show (executeAll false c ip (.measure (.intoDit (names pair) pair) ::
        measurements names pairs)).effect run =
      (executeAll false c ip' (.measure (.intoDit (names pair) pair) ::
        (measurements names pairs ++ [.gate (step.byDits dits)]))).effect run'
    rw [executeAll_cons, executeAll_cons]
    rcases h.measure hd hlocal hG hts rfl rfl hdraws (hcrange _ hq) hlive
      (hoff _ (List.mem_map_of_mem hq)) (hstep.inRange _ hdit) hfresh (names pair) ip ip' with
      ⟨fault, hfault, hfault'⟩ | ⟨v, next, next', hnext, hnext', hrelated⟩
    · rw [effect_bind_of_error hfault, effect_bind_of_error hfault']
    · refine effect_bind_of_ok hnext fun after hafter hdrawn => ?_
      refine (effect_bind_of_ok hnext' fun after' hafter' hdrawn' => ?_).symm
      rw [← hafter, ← hafter'] at hrelated
      have hrest : done ++ [pair] ++ pairs = step.controls.zip dits := by
        rw [List.append_assoc]
        exact hpairs
      exact (ih hrest (hdrawn'.trans hdrawn.symm) hrelated (ip + 1) (ip' + 1)).symm

/-- Measurements can be made before the gates that their qudits control. Let an engine over the real
numbers do nothing before its steps and check no norms, with any state of the live qudits and any
values of the dits, and let its digits be exponents that a word holds, as those of every state that
can be made are. A recorded gate with a unitary operator under control of live qudits, followed by
the measurements of its controls into different dits, has the effect of these measurements followed
by the same gate under control of the dits: the same result, engine and draws, also where a
measurement is refused. -/
theorem deferred_measurement {run : Run ℝ ℝ} (hd : 2 ≤ c.dim) (hsmall : c.dim ≤ 2 ^ 63)
    (h : Stands c gone run.engine) (hplain : run.engine.Plain)
    (hstep : Deferrable c gone step dits) {op : Operator ℝ}
    (hop : c.operands.get? step.key = some op) (hunitary : op.Unitary)
    (names : Int × Int → String) (ip ip' : ℕ) :
    (executeAll false c ip
        (.gate step :: measurements names (step.controls.zip dits))).effect run =
      (executeAll false c ip'
        (measurements names (step.controls.zip dits) ++ [.gate (step.byDits dits)])).effect
          run := by
  obtain ⟨joint, hjoint, -⟩ := jointOperand_eq_ok hstep.recorded (by rw [hstep.control_eq]; rfl)
  have hlist : acts c run.engine.dits step step.controls step.targets =
      .ok [.controlled joint step.controls step.targets] := by
    rw [acts_of_quantum hstep.control_eq, hjoint]
    rfl
  have hG := isometric_of_acts hd hstep.recorded hop hunitary hlist _ List.mem_cons_self
  obtain ⟨hact, hlive⟩ := live_of_acts hstep.recorded hstep.live hlist _ List.mem_cons_self
  obtain ⟨psi, hrelated⟩ := exists_deferring hd h hplain hact hlive
  rw [executeAll_cons]
  refine effect_bind_of_ok (effect_gate hd h hplain hstep.recorded hstep.live hlist ip) ?_
  intro after hafter hdrawn
  -- after the gate, the two engines are related and no control is measured yet
  rw [← hafter] at hrelated
  exact hrelated.effect_eq hd hsmall hstep hjoint hG names (List.nil_append _) hdrawn.symm (ip + 1)
    ip'

end Finishing

section

attribute [local instance] Capacity.common

/-- The bit flip under control of two qubits that are measured afterwards, on a new engine. -/
theorem deferred_measurement_pair :
    let c : Circuit ℝ := (Circuit.empty 0 3 2 2 "" (fun _ => "") fun _ => 0).attemptAll
      [.ctrl (.operator Gate.pauliX) (.many [.int 0, .int 1]) (.many [.int 2]) ""]
    let step : GateStep := ⟨.controlled .quantum .multiple .multiple, 0, [0, 1], [2], "CTRL"⟩
    let run : Run ℝ ℝ := ⟨start c {} .nothing, .ofList [], []⟩
    2 ≤ c.dim ∧ c.dim ≤ 2 ^ 63 ∧ Stands c [] run.engine ∧ run.engine.Plain ∧
      Deferrable c [] step [0, 1] ∧ c.operands.get? step.key = some Gate.pauliX ∧
      (Gate.pauliX : Operator ℝ).Unitary ∧
      (executeAll false c 0
          (.gate step :: measurements (fun _ => "") (step.controls.zip [0, 1]))).effect run =
        (executeAll false c 0 (measurements (fun _ => "") (step.controls.zip [0, 1]) ++
          [.gate (step.byDits [0, 1])])).effect run := by
  intro c step run
  have hcreate : Circuit.create? 0 (.int 3) (.int 2) (.int 2) "" (fun _ => .ok fun _ => "")
      (fun _ => 0) = .ok (Circuit.empty 0 3 2 2 "" (fun _ => "") fun _ => 0 : Circuit ℝ) := rfl
  have hbuilt : c.Built := ⟨0, .int 3, .int 2, .int 2, "", _, _, _, _, hcreate, rfl⟩
  have hready : Ready c run.engine := .made
    (.intro {} none .nothing hbuilt rfl (fun channel hchannel => nomatch hchannel) rfl)
  obtain ⟨hsane, hstart⟩ := hready.sane
  have hstands : Stands c [] run.engine := (hstart.tracks hsane.fits).toStands
  have hplain : run.engine.Plain := ⟨rfl, rfl⟩
  have hsmall : c.dim ≤ 2 ^ 63 := hsane.dim_le (show (0 : ℕ) < 3 by decide)
  have hlog : c.log = [.gate step] := rfl
  have hrecorded : step.Recorded c := hbuilt.wellFormed.recorded (.gate step) (by simp [hlog])
  have hdits : ∀ i ∈ [(0 : Int), 1], InRange c.dits i := by
    show ∀ i ∈ [(0 : Int), 1], InRange 2 i
    unfold InRange
    decide
  have hstep : Deferrable c [] step [0, 1] :=
    ⟨hrecorded, rfl, fun _ _ => List.not_mem_nil, by decide, hdits, rfl⟩
  have hop : c.operands.get? step.key = some Gate.pauliX := rfl
  exact ⟨hsane.two_le_dim, hsmall, hstands, hplain, hstep, hop, Gate.unitary_pauliX,
    deferred_measurement hsane.two_le_dim hsmall hstands hplain hstep hop Gate.unitary_pauliX
      (fun _ => "") 0 0⟩

end

end Engine

end QuditSim
