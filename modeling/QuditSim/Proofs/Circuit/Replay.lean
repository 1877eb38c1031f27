import QuditSim.Proofs.Circuit.Planned
import QuditSim.Proofs.Gate.Naming

/-!
# Replaying the steps of a circuit

Every step that a circuit recorded can be asked for again. `Entry.call` is the call for an entry,
with the arguments that it was recorded with: each index is given by itself or in a list as the kind
says, and the name is the one that was chosen.

- `Circuit.plan_call`: on a circuit where an entry passes the checks, the call for the entry plans it,
  with a name where it has none.
- `Circuit.Records` is a list of the entries that a circuit recorded, each with the operator that is
  stored for it, and `Circuit.History` one that leads from another circuit to it. `Circuit.Records.commit`
  and `Circuit.History.commit` are the step lemmas.
- `Circuit.history_attemptAll`: whatever was asked of a new circuit has a history, and so the calls
  of the history make the circuit again.
-/

namespace QuditSim

open Fallible

/-! ## The call for an entry -/

/-- The argument for indices with a given extent: the one index by itself, or all of them. -/
def IndexArg.ofExtent : Extent → List Int → IndexArg
  | .single, i :: _ => .ofInt i
  | _, indices => .ofList indices

/-- The indices that are left of a list when an argument has a given extent: the first one, or all
of them. -/
def Extent.taken (extent : Extent) (indices : List Int) : List Int :=
  match extent with
  | single => indices.take 1
  | multiple => indices

/-- The call that asks for an entry once more. -/
def Entry.call {S : Type} : Entry S → Call S
  | .gate kind op controls targets name _ =>
    match kind with
    | .none | .single | .two | .three => .gate (.operator op) (targets.map .int) name
    | .custom => .gateCustom (.operator op) (.ofList targets) name
    | .fan => .gateFan (.operator op) (some (.ofList targets)) name
    | .fourier => .qft
    | .inverseFourier => .tfq
    | .controlled .quantum one other =>
      .ctrl (.operator op) (.ofExtent one controls) (.ofExtent other targets) name
    | .controlled .classical one other =>
      .cctrl (.operator op) (.ofExtent one controls) (.ofExtent other targets) name
    | .controlledCustom .quantum =>
      .ctrlCustom (.operator op) (.ofList controls) (.ofList targets) name
    | .controlledCustom .classical =>
      .cctrlCustom (.operator op) (.ofList controls) (.ofList targets) name
  | .measurement kind basis targets dit name =>
    match kind, basis with
    | .basis, some op => .measureV (.operator op) (.ofExtent .single targets) (.int dit) name
    | .jointBasis, some op => .measureV (.operator op) (.ofList targets) (.int dit) name
    | _, _ => .measureZ (.int (targets.headD 0)) (.int dit) name

namespace IndexArg

variable {extent : Extent} {indices : List Int}

@[simp] theorem indices_ofList : (ofList indices).indices = .ok indices :=
  indicesOf_map_int indices

@[simp] theorem listed_ofList : (ofList indices).listed = .ok indices :=
  indicesOf_map_int indices

/-- An argument with a given extent has that extent, and is read as what is left of the list. -/
theorem ofExtent_taken (h : extent = .single → indices ≠ []) :
    (ofExtent extent indices).extent = extent ∧
      (ofExtent extent indices).indices = .ok (extent.taken indices) := by
  cases extent with
  | single =>
    cases indices with
    | nil => exact absurd rfl (h rfl)
    | cons i rest => exact ⟨rfl, rfl⟩
  | multiple => exact ⟨rfl, indices_ofList⟩

end IndexArg

/-- Nothing is left out just if an extent that is single goes with one index. -/
theorem Extent.taken_eq_self {extent : Extent} {indices : List Int}
    (h : extent = .single → indices ≠ []) :
    extent.taken indices = indices ↔ (extent = .single → indices.length = 1) := by
  cases extent with
  | single =>
    cases indices with
    | nil => exact absurd rfl (h rfl)
    | cons i rest => simp [taken]
  | multiple => simp [taken]

/-- An extent that is single goes with one index. -/
theorem IndexArg.ofExtent_eq {extent : Extent} {indices : List Int}
    (h : extent = .single → indices.length = 1) :
    (ofExtent extent indices).extent = extent ∧
      (ofExtent extent indices).indices = .ok indices := by
  have hne : extent = .single → indices ≠ [] := fun hone =>
    List.ne_nil_of_length_pos (by rw [h hone]; exact Nat.one_pos)
  have htaken := IndexArg.ofExtent_taken hne
  rwa [(Extent.taken_eq_self hne).mpr h] at htaken

namespace Circuit

variable {S : Type} {c : Circuit S}

/-! ## Names and counts -/

/-- Choosing the name of an entry anew gives the name that it has. -/
def Named (c : Circuit S) : Entry S → Prop
  | .gate kind op _ _ name _ =>
    match kind.control? with
    | some control => c.controlledName op name control = name
    | none => c.nameFor op name = name
  | .measurement _ basis _ _ name =>
    match basis with
    | some op => c.nameFor op name = name
    | none => name ≠ ""

/-- An entry with the name that a circuit chooses for it where it has none. -/
def renamed (c : Circuit S) : Entry S → Entry S
  | .gate kind op controls targets name increment =>
    .gate kind op controls targets
      (match kind.control? with
        | some control => c.controlledName op name control
        | none => c.nameFor op name) increment
  | .measurement kind basis targets dit name =>
    .measurement kind basis targets dit
      (match basis with
        | some op => c.nameFor op name
        | none => if name = "" then "Z" else name)

theorem renamed_eq_of_named {entry : Entry S} (h : c.Named entry) : c.renamed entry = entry := by
  cases entry with
  | gate kind op controls targets name increment =>
    unfold Named at h
    unfold renamed
    cases hcontrol : kind.control? <;> simp only [hcontrol] at h ⊢ <;> rw [h]
  | measurement kind basis targets dit name =>
    cases basis with
    | none => exact congrArg _ (if_neg h)
    | some op => exact congrArg _ h

/-- A gate on several qudits by itself is counted for each of them. -/
def Counted : Entry S → Prop
  | .gate kind _ _ targets _ increment => increment = if kind = .fan then targets.length else 1
  | .measurement .. => True

theorem nameFor_nameFor (op : Operator S) (name : String) :
    c.nameFor op (c.nameFor op name) = c.nameFor op name := by
  unfold nameFor
  split
  · split <;> rfl
  · rfl

theorem controlledName_ne_empty (op : Operator S) (name : String) (control : Control) :
    c.controlledName op name control ≠ "" := by
  unfold controlledName
  split
  · dsimp only
    split
    · cases control <;> decide
    -- the mark of the control stands in front of the name of the operator
    · intro hempty
      have hlength := congrArg String.length hempty
      cases control <;> simp [Control.mark] at hlength
  · next hname => exact hname

theorem controlledName_controlledName (op : Operator S) (name : String) (control : Control) :
    c.controlledName op (c.controlledName op name control) control =
      c.controlledName op name control :=
  if_neg (controlledName_ne_empty op name control)

theorem jointKind_ne_fan (count : Nat) : jointKind count ≠ .fan := by
  unfold jointKind
  split <;> exact nofun

/-- What a call records has a name that is not chosen anew, and its count. -/
theorem Planned.named {call : Call S} {entry : Entry S} (h : c.Planned call entry) :
    c.Named entry ∧ Counted entry := by
  cases h with
  | gate htargets =>
    refine ⟨?_, (if_neg (jointKind_ne_fan _)).symm⟩
    simp only [Named, control?_jointKind, nameFor_nameFor]
  | measureZ htarget hdit =>
    refine ⟨?_, trivial⟩
    show (if _ = "" then "Z" else _) ≠ ""
    split
    · decide
    · assumption
  | measureV htargets hdit => exact ⟨nameFor_nameFor _ _, trivial⟩
  | ctrl hcontrols htargets => exact ⟨controlledName_controlledName _ _ _, rfl⟩
  | ctrlCustom hcontrols htargets => exact ⟨controlledName_controlledName _ _ _, rfl⟩
  | cctrl hcontrols htargets => exact ⟨controlledName_controlledName _ _ _, rfl⟩
  | cctrlCustom hcontrols htargets => exact ⟨controlledName_controlledName _ _ _, rfl⟩
  | fanAll => exact ⟨nameFor_nameFor _ _, rfl⟩
  | fan htargets => exact ⟨nameFor_nameFor _ _, rfl⟩
  | custom htargets => exact ⟨nameFor_nameFor _ _, rfl⟩

/-! ## Planning an entry once more -/

section Plans

variable [Scalar S]

theorem checkOperand_of_storable {op : Operator S} {acted : Nat} (h : c.Storable op acted) :
    c.checkOperand (.operator op) acted = .ok op :=
  checkOperand_eq_ok.mpr ⟨rfl, h⟩

/-- A controlled gate that passed its checks passes them again. -/
theorem planControlled_of_sound {control : Control} {kind : GateKind} {op : Operator S}
    {controls targets : List Int} {name : String} {increment acted : Nat}
    (hcontrol : kind.control? = some control)
    (hsound : c.Sound (.gate kind op controls targets name increment))
    (hcounted : Counted (.gate kind op controls targets name increment))
    (hacted : kind.acted targets.length = acted) :
    c.planControlled control kind (.operator op) controls targets acted name =
      .ok (.gate kind op controls targets (c.controlledName op name control) increment) := by
  obtain ⟨htargets, hnc, hfit, -, hop, hlive⟩ := hsound
  have hfan : kind ≠ .fan := by
    rintro rfl
    cases hcontrol
  have hone : 1 = increment := by
    rw [hcounted, if_neg hfan]
  have hop := checkOperand_of_storable (hacted ▸ hop)
  simp only [ControlsFit, hcontrol] at hfit
  cases control with
  | quantum =>
    obtain ⟨hne, hrange, hdisjoint⟩ := hfit
    have hlive : ∀ q ∈ controls ++ targets, q ∉ c.measured := by
      simpa [GateKind.isQuantumControlled, hcontrol] using hlive
    simp only [planControlled, bind_eq_ok, exists_unit, pure_eq_ok, checkNonempty_eq_ok,
      checkQuantum_eq_ok, hop, Except.ok.injEq, exists_eq_left', hone]
    exact ⟨hne, htargets.ne_nil, ⟨hrange, htargets.inRange, hlive, hnc, htargets.nodup, hdisjoint⟩,
      trivial⟩
  | classical =>
    have hlive : ∀ q ∈ targets, q ∉ c.measured := by
      simpa [GateKind.isQuantumControlled, hcontrol] using hlive
    simp only [planControlled, bind_eq_ok, exists_unit, pure_eq_ok, checkNonempty_eq_ok,
      checkClassical_eq_ok, hop, Except.ok.injEq, exists_eq_left', hone]
    exact ⟨htargets.ne_nil, ⟨hfit, htargets.inRange, hlive, hnc, htargets.nodup⟩, trivial⟩

/-- A gate without controls passes its checks again. -/
theorem uncontrolled_of_sound {kind : GateKind} {op : Operator S} {controls targets : List Int}
    {name : String} {increment : Nat} (hcontrol : kind.control? = none)
    (hsound : c.Sound (.gate kind op controls targets name increment)) :
    controls = [] ∧ targets ≠ [] ∧ c.checkQuantum [] targets = .ok () ∧
      c.checkOperand (.operator op) (kind.acted targets.length) = .ok op := by
  obtain ⟨htargets, -, hfit, -, hop, hlive⟩ := hsound
  simp only [ControlsFit, hcontrol] at hfit
  simp only [GateKind.isQuantumControlled, hcontrol] at hlive
  refine ⟨hfit, htargets.ne_nil, checkQuantum_eq_ok.mpr ?_, checkOperand_of_storable hop⟩
  exact ⟨by simp, htargets.inRange, by simpa using hlive, List.nodup_nil, htargets.nodup, by simp⟩

/-- A joint gate is planned again from the list of its targets. -/
theorem plan_gate_of_sound {kind : GateKind} {op : Operator S} {controls targets : List Int}
    {name : String} {increment : Nat} (hcontrol : kind.control? = none)
    (hsound : c.Sound (.gate kind op controls targets name increment))
    (hkind : jointKind targets.length = kind) (hincrement : increment = 1) :
    c.plan (.gate (.operator op) (targets.map .int) name) =
      .ok (.gate kind op controls targets (c.nameFor op name) increment) := by
  obtain ⟨rfl, hne, hquantum, hop⟩ := uncontrolled_of_sound hcontrol hsound
  have hacted : kind.acted targets.length = targets.length := by
    rw [← hkind, acted_jointKind]
  rw [hacted] at hop
  simp only [plan, bind_eq_ok, exists_unit, pure_eq_ok, readIndices_eq_ok, indicesOf_map_int,
    checkNonempty_eq_ok, Except.ok.injEq, exists_eq_left', hop, hquantum, hkind, hincrement,
    and_true]
  simpa using hne

/-- A measurement that passed its checks passes them again. -/
theorem plan_measurement_of_sound {kind : MeasureKind} {basis : Option (Operator S)}
    {targets : List Int} {dit : Int} {name : String}
    (hsound : c.Sound (.measurement kind basis targets dit name)) :
    c.plan (Entry.measurement kind basis targets dit name).call =
      .ok (c.renamed (.measurement kind basis targets dit name)) := by
  obtain ⟨htargets, hdit, hlive, hkind⟩ := hsound
  have hdit : ∀ i ∈ [dit], InRange c.dits i := by simpa using hdit
  -- the call for a measurement in a basis of its own, from an argument that is read as the targets
  have hbasis : ∀ {op : Operator S} {arg : IndexArg}, c.Storable op targets.length →
      arg.indices = .ok targets →
      c.plan (.measureV (.operator op) arg (.int dit) name) =
        .ok (.measurement (basisKind arg.extent) (some op) targets dit (c.nameFor op name)) := by
    intro op arg hop harg
    simp only [plan, bind_eq_ok, exists_unit, pure_eq_ok, readIndices_eq_ok, harg,
      IndexItem.index, Except.mapError, checkNonempty_eq_ok, checkQudits_eq_ok, checkDits_eq_ok,
      checkLive_eq_ok, checkDistinct_eq_ok, Except.ok.injEq, exists_eq_left',
      checkOperand_of_storable hop]
    exact ⟨htargets.ne_nil, htargets.inRange, hdit, hlive, htargets.nodup, rfl⟩
  cases basis with
  | none =>
    cases kind with
    | standard =>
      obtain ⟨q, rfl⟩ := List.length_eq_one_iff.mp hkind
      simp only [Entry.call, List.headD_cons, plan, bind_eq_ok, exists_unit, pure_eq_ok,
        readIndices_eq_ok, show indicesOf [.int q] = .ok [q] from rfl, IndexItem.index,
        Except.mapError, checkQudits_eq_ok, checkDits_eq_ok, checkLive_eq_ok, Except.ok.injEq,
        exists_eq_left', renamed]
      exact ⟨htargets.inRange, hdit, hlive, trivial⟩
    | none => exact hkind.elim
    | basis => exact hkind.elim
    | jointBasis => exact hkind.elim
  | some op =>
    cases kind with
    | basis =>
      obtain ⟨hextent, hindices⟩ := @IndexArg.ofExtent_eq .single _ fun _ => hkind.1
      have hplan := hbasis hkind.2 hindices
      rw [hextent] at hplan
      exact hplan
    | jointBasis => exact hbasis hkind IndexArg.indices_ofList
    | none => exact hkind.elim
    | standard => exact hkind.elim

/-- The call for an entry that passed the checks plans this entry, with a name where it has none. -/
theorem plan_call {entry : Entry S} (hsound : c.Sound entry) (hcounted : Counted entry) :
    c.plan entry.call = .ok (c.renamed entry) := by
  cases entry with
  | gate kind op controls targets name increment =>
    have htakes : kind.Takes controls.length targets.length := hsound.2.2.2.1
    cases kind with
    | none => exact htakes.elim
    | fourier => exact htakes.elim
    | inverseFourier => exact htakes.elim
    -- the kind of a joint gate is chosen anew, by the number of its targets
    | single =>
      exact plan_gate_of_sound rfl hsound (congrArg jointKind htakes) hcounted
    | two =>
      exact plan_gate_of_sound rfl hsound (congrArg jointKind htakes) hcounted
    | three =>
      exact plan_gate_of_sound rfl hsound (congrArg jointKind htakes) hcounted
    | custom =>
      obtain ⟨rfl, hne, hquantum, hop⟩ := uncontrolled_of_sound rfl hsound
      have hone : increment = 1 := hcounted
      simp only [Entry.call, plan, bind_eq_ok, exists_unit, pure_eq_ok, readIndices_eq_ok,
        IndexArg.listed_ofList, checkNonempty_eq_ok, Except.ok.injEq, exists_eq_left', hquantum,
        show c.checkOperand (.operator op) targets.length = .ok op from hop, hone]
      exact ⟨hne, trivial, rfl⟩
    | fan =>
      obtain ⟨rfl, hne, hquantum, hop⟩ := uncontrolled_of_sound rfl hsound
      have hone : increment = targets.length := hcounted
      simp only [Entry.call, plan, bind_eq_ok, exists_unit, pure_eq_ok, readIndices_eq_ok,
        IndexArg.listed_ofList, checkNonempty_eq_ok, Except.ok.injEq, exists_eq_left', hquantum,
        show c.checkOperand (.operator op) 1 = .ok op from hop, hone]
      exact ⟨hne, trivial, rfl⟩
    | controlled control one other =>
      -- an index by itself is the only one, so that nothing is left out
      obtain ⟨hcextent, hcontrols⟩ := IndexArg.ofExtent_eq htakes.1
      obtain ⟨htextent, htargets⟩ := IndexArg.ofExtent_eq htakes.2
      have hplan := planControlled_of_sound rfl hsound hcounted rfl
      cases control with
      | quantum =>
        simp only [Entry.call, plan, bind_eq_ok, readIndices_eq_ok, hcextent, htextent, hcontrols,
          htargets, Except.ok.injEq, exists_eq_left']
        exact hplan
      | classical =>
        simp only [Entry.call, plan, bind_eq_ok, readIndices_eq_ok, hcextent, htextent, hcontrols,
          htargets, Except.ok.injEq, exists_eq_left']
        exact hplan
    | controlledCustom control =>
      have hplan := planControlled_of_sound rfl hsound hcounted rfl
      cases control with
      | quantum =>
        simp only [Entry.call, plan, bind_eq_ok, readIndices_eq_ok, IndexArg.listed_ofList,
          Except.ok.injEq, exists_eq_left']
        exact hplan
      | classical =>
        simp only [Entry.call, plan, bind_eq_ok, readIndices_eq_ok, IndexArg.listed_ofList,
          Except.ok.injEq, exists_eq_left']
        exact hplan
  | measurement kind basis targets dit name => exact plan_measurement_of_sound hsound

theorem manyTargets?_call {entry : Entry S} (hsound : c.Sound entry) :
    manyTargets? entry.call = none := by
  cases entry with
  | gate kind op controls targets name increment =>
    have htakes : kind.Takes controls.length targets.length := hsound.2.2.2.1
    have hjoint : ∀ count ≤ 3, targets.length = count →
        manyTargets? (.gate (.operator op) (targets.map .int) name) = none := by
      rintro count hthree rfl
      simpa [manyTargets?] using hthree
    cases kind with
    | none => exact htakes.elim
    | single => exact hjoint 1 (by decide) htakes
    | two => exact hjoint 2 (by decide) htakes
    | three => exact hjoint 3 (by decide) htakes
    | controlled control one other => cases control <;> rfl
    | controlledCustom control => cases control <;> rfl
    | _ => rfl
  | measurement kind basis targets dit name =>
    cases basis <;> cases kind <;> rfl

/-- On a circuit where it passes the checks, the call for an entry records it, with a name where it
has none. -/
theorem append_call {entry : Entry S} (hsound : c.Sound entry) (hcounted : Counted entry) :
    c.append entry.call = .ok (c.commit (c.renamed entry)) := by
  unfold append
  rw [manyTargets?_call hsound, plan_call hsound hcounted]

end Plans

end Circuit

/-! ## Entries with the operators that are stored -/

/-- An entry with another operator in the place of its own. -/
def Entry.mapOperator {S : Type} (f : Operator S → Operator S) : Entry S → Entry S
  | .gate kind op controls targets name increment =>
    .gate kind (f op) controls targets name increment
  | .measurement kind basis targets dit name => .measurement kind (basis.map f) targets dit name

/-- The keys of a table are those of its operators. -/
def OperandTable.Keyed {S : Type} (table : OperandTable S) : Prop :=
  ∀ key op, table.get? key = some op → table.keyOf op = key

namespace OperandTable

variable {S : Type} {table : OperandTable S}

theorem keyed_empty (keyOf : Operator S → Int) : (empty keyOf).Keyed := by
  intro key op h
  cases h

theorem Keyed.insert (h : table.Keyed) (m : Operator S) : (table.insert m).Keyed := by
  intro key op hop
  rw [keyOf_insert]
  rcases get?_of_insert hop with hold | ⟨hkey, rfl⟩
  · exact h key op hold
  · exact hkey.symm

/-- The operator that stands for another one in a table: the one under its key, or itself. -/
def stored (table : OperandTable S) (m : Operator S) : Operator S :=
  (table.get? (table.keyOf m)).getD m

theorem keyOf_stored (h : table.Keyed) (m : Operator S) :
    table.keyOf (table.stored m) = table.keyOf m := by
  unfold stored
  cases hget : table.get? (table.keyOf m) with
  | none => rfl
  | some known => exact h _ known hget

/-- The table is the same when the operator that stands for another one is stored instead. -/
theorem insert_stored (h : table.Keyed) (m : Operator S) :
    table.insert (table.stored m) = table.insert m := by
  have hkey := keyOf_stored h m
  unfold insert
  dsimp only
  rw [hkey]
  cases hget : table.get? (table.keyOf m) with
  | none => simp only [stored, hget, Option.getD_none]
  | some known => simp only [contains, hget, Option.isSome_some, if_true]

end OperandTable

namespace Circuit

section Stored

variable {c : Circuit Float} {entry : Entry Float}

/-- An entry with the operator that stands for its own in the table. -/
def stored {S : Type} (c : Circuit S) (entry : Entry S) : Entry S :=
  entry.mapOperator c.operands.stored

theorem commit_stored (h : c.operands.Keyed) (entry : Entry Float) :
    c.commit (c.stored entry) = c.commit entry := by
  cases entry with
  | gate kind op controls targets name increment =>
    simp only [stored, Entry.mapOperator, commit, OperandTable.insert_stored h,
      OperandTable.keyOf_stored h]
  | measurement kind basis targets dit name =>
    cases basis with
    | none => rfl
    | some op =>
      simp only [stored, Entry.mapOperator, commit, Option.map_some, OperandTable.insert_stored h,
        OperandTable.keyOf_stored h]

theorem storable_stored {op : Operator Float} {k : Nat} (h : c.operands.Keyed)
    (hop : c.Storable op k) : c.Storable (c.operands.stored op) k := by
  obtain ⟨hshape, hsame⟩ := hop
  unfold Storable
  rw [OperandTable.keyOf_stored h]
  unfold OperandTable.stored
  cases hget : c.operands.get? (c.operands.keyOf op) with
  | none => exact ⟨hshape, by simp⟩
  | some known =>
    have hknown := hsame known hget
    refine ⟨(Tensor.shape_eq_of_same hknown).trans hshape, ?_⟩
    rintro _ ⟨⟩
    exact Operator.same_self_of_same hknown

theorem sound_stored (h : c.operands.Keyed) (hsound : c.Sound entry) :
    c.Sound (c.stored entry) := by
  cases entry with
  | gate kind op controls targets name increment =>
    obtain ⟨htargets, hnc, hcontrols, htakes, hop, hlive⟩ := hsound
    exact ⟨htargets, hnc, hcontrols, htakes, storable_stored h hop, hlive⟩
  | measurement kind basis targets dit name =>
    obtain ⟨htargets, hdit, hlive, hkind⟩ := hsound
    refine ⟨htargets, hdit, hlive, ?_⟩
    cases basis with
    | none => exact hkind
    | some op =>
      cases kind with
      | none => exact hkind
      | standard => exact hkind
      | basis => exact ⟨hkind.1, storable_stored h hkind.2⟩
      | jointBasis => exact storable_stored h hkind

/-- The operator that stands for another one has its name, in a circuit that gives equal operators
equal names. -/
theorem namer_stored (hnamer : ∀ a b : Operator Float, a.same b = true → c.namer a = c.namer b)
    {op : Operator Float} {k : Nat} (hop : c.Storable op k) :
    c.namer (c.operands.stored op) = c.namer op := by
  unfold OperandTable.stored
  cases hget : c.operands.get? (c.operands.keyOf op) with
  | none => rfl
  | some known => exact hnamer known op (hop.2 known hget)

theorem named_stored (hnamer : ∀ a b : Operator Float, a.same b = true → c.namer a = c.namer b)
    (hsound : c.Sound entry) (hnamed : c.Named entry) : c.Named (c.stored entry) := by
  cases entry with
  | gate kind op controls targets name increment =>
    have hname := namer_stored hnamer hsound.2.2.2.2.1
    simp only [Named, stored, Entry.mapOperator, nameFor, controlledName, hname] at hnamed ⊢
    exact hnamed
  | measurement kind basis targets dit name =>
    cases basis with
    | none => exact hnamed
    | some op =>
      obtain ⟨k, hop⟩ := hsound.storable op rfl
      have hname := namer_stored hnamer hop
      simp only [Named, stored, Entry.mapOperator, Option.map_some, nameFor, hname] at hnamed ⊢
      exact hnamed

/-- Asking for an entry with the operator that is stored records what the entry itself records. -/
theorem append_call_stored (h : c.operands.Keyed)
    (hnamer : ∀ a b : Operator Float, a.same b = true → c.namer a = c.namer b)
    (hsound : c.Sound entry) (hnamed : c.Named entry) (hcounted : Counted entry) :
    c.append (c.stored entry).call = .ok (c.commit entry) := by
  have hcounted : Counted (c.stored entry) := by
    cases entry <;> exact hcounted
  rw [append_call (sound_stored h hsound) hcounted,
    renamed_eq_of_named (named_stored hnamer hsound hnamed), commit_stored h]

end Stored

/-! ## Histories -/

/-- Entries that a circuit recorded, each with the operator that is stored for it in the end. -/
structure Records (c : Circuit Float) (entries : List (Entry Float)) : Prop where
  /-- The entries are the steps of the log. -/
  log_eq : c.log = entries.map c.stepOf
  /-- Each operator is the one under its key. -/
  operands : ∀ entry ∈ entries, ∀ op ∈ entry.operator?,
    c.operands.get? (c.operands.keyOf op) = some op
  /-- The kinds go with what they need. -/
  shaped : ∀ entry ∈ entries, Shaped entry
  /-- The keys in the table are those of its operators. -/
  keyed : c.operands.Keyed

/-- Entries that lead from one circuit to another when they are asked for one after the other. -/
structure History (start c : Circuit Float) (entries : List (Entry Float)) : Prop
    extends Records c entries where
  /-- The calls for the entries make the circuit. -/
  appendAll_eq : start.appendAll (entries.map Entry.call) = .ok c

section Commit

variable {c : Circuit Float}

theorem namer_commit {S : Type} (c : Circuit S) (entry : Entry S) :
    (c.commit entry).namer = c.namer := by
  cases entry <;> rfl

theorem stepOf_stored (h : c.operands.Keyed) (entry : Entry Float) :
    c.stepOf (c.stored entry) = c.stepOf entry := by
  cases entry with
  | gate kind op controls targets name increment =>
    simp only [stored, Entry.mapOperator, stepOf, OperandTable.keyOf_stored h]
  | measurement kind basis targets dit name =>
    cases basis with
    | none => rfl
    | some op =>
      simp only [stored, Entry.mapOperator, stepOf, Option.map_some, OperandTable.keyOf_stored h]

theorem keyed_commit (h : c.operands.Keyed) (entry : Entry Float) :
    (c.commit entry).operands.Keyed := by
  cases entry with
  | gate kind op controls targets name increment => exact h.insert op
  | measurement kind basis targets dit name =>
    cases basis with
    | none => exact h
    | some op => exact h.insert op

theorem get?_commit_stored (h : c.operands.Keyed) (entry : Entry Float) :
    ∀ op ∈ (c.stored entry).operator?,
      (c.commit entry).operands.get? (c.operands.keyOf op) = some op := by
  have hmap : (c.stored entry).operator? = entry.operator?.map c.operands.stored := by
    cases entry <;> rfl
  rw [hmap]
  intro op hop
  obtain ⟨given, hgiven, rfl⟩ := Option.map_eq_some_iff.mp hop
  rw [OperandTable.keyOf_stored h]
  exact get?_commit c entry given hgiven

end Commit

variable {start c : Circuit Float} {entries : List (Entry Float)}

theorem records_empty (serial qudits dits dim : Nat) (name : String) (namer : Operator Float → String)
    (keyOf : Operator Float → Int) : Records (empty serial qudits dits dim name namer keyOf) [] :=
  ⟨rfl, nofun, nofun, OperandTable.keyed_empty keyOf⟩

/-- Recording a sound entry makes the list of recorded entries longer by that entry. -/
theorem Records.commit (h : Records c entries) (hordered : c.Ordered) {entry : Entry Float}
    (hsound : c.Sound entry) : Records (c.commit entry) (entries ++ [c.stored entry]) := by
  have hkeyOf := keyOf_commit c entry
  refine ⟨?_, ?_, ?_, keyed_commit h.keyed entry⟩
  · rw [(hordered.commit entry).1, h.log_eq, stepOf_eq_of_keyOf hkeyOf, List.map_append,
      List.map_singleton, stepOf_stored h.keyed]
  · rw [hkeyOf]
    intro other hother op hop
    -- operators that were stored stay, and the new one is found under its key
    rcases List.mem_append.mp hother with hold | hnew
    · exact (goesOn_commit c entry).operands _ op (h.operands other hold op hop)
    · rw [List.mem_singleton.mp hnew] at hop
      exact get?_commit_stored h.keyed entry op hop
  · intro other hother
    rcases List.mem_append.mp hother with hold | hnew
    · exact h.shaped other hold
    · rw [List.mem_singleton.mp hnew]
      exact (sound_stored h.keyed hsound).shaped

/-- Recording a sound entry makes a history longer by that entry. -/
theorem History.commit (h : History start c entries) (hordered : c.Ordered)
    (hnamer : ∀ a b : Operator Float, a.same b = true → c.namer a = c.namer b)
    {entry : Entry Float} (hsound : c.Sound entry) (hnamed : c.Named entry)
    (hcounted : Counted entry) :
    History start (c.commit entry) (entries ++ [c.stored entry]) := by
  refine ⟨h.toRecords.commit hordered hsound, ?_⟩
  -- the calls before make the circuit, and the last one records the entry
  rw [List.map_append, List.map_singleton, appendAll_concat h.appendAll_eq]
  exact append_call_stored h.keyed hnamer hsound hnamed hcounted

/-- Whatever is asked of a circuit with a history, the circuit after it has one. -/
theorem History.attemptAll (h : History start c entries) (hc : c.WellFormed)
    (hnamer : ∀ a b : Operator Float, a.same b = true → c.namer a = c.namer b)
    (calls : List (Call Float)) :
    ∃ entries', History start (c.attemptAll calls) entries' := by
  -- a history is made longer in circuits that are ordered and have the same source of names
  have hkept : (∃ entries', History start (c.attemptAll calls) entries') ∧
      (c.attemptAll calls).Ordered ∧ (c.attemptAll calls).namer = c.namer := by
    refine attemptAll_keeps (P := fun after => (∃ entries', History start after entries') ∧
      after.Ordered ∧ after.namer = c.namer) ?_ ⟨⟨entries, h⟩, hc.ordered, rfl⟩
    rintro before ⟨⟨entries', hbefore⟩, hordered, hsame⟩ call - entry hsound hplanned
    obtain ⟨hnamed, hcounted⟩ := hplanned.named
    rw [← hsame] at hnamer
    exact ⟨⟨_, hbefore.commit hordered hnamer hsound hnamed hcounted⟩,
      (hordered.commit entry).2, (namer_commit before entry).trans hsame⟩
  exact hkept.1

/-- Whatever is asked of a new circuit, there is a history of it. -/
theorem history_attemptAll (serial qudits dits dim : Nat) (name : String)
    {namer : Operator Float → String}
    (hnamer : ∀ a b : Operator Float, a.same b = true → namer a = namer b)
    (keyOf : Operator Float → Int) (calls : List (Call Float)) :
    ∃ entries, History (empty serial qudits dits dim name namer keyOf)
      ((empty serial qudits dits dim name namer keyOf).attemptAll calls) entries := by
  have hstart : History (empty serial qudits dits dim name namer keyOf)
      (empty serial qudits dits dim name namer keyOf) [] :=
    ⟨records_empty serial qudits dits dim name namer keyOf, rfl⟩
  exact hstart.attemptAll (wellFormed_empty serial qudits dits dim name namer keyOf) hnamer calls

end Circuit

end QuditSim
