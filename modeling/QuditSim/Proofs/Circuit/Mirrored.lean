import QuditSim.Proofs.Circuit.Counts
import QuditSim.Proofs.Circuit.Fidelity

/-!
# Steps that are recorded once more under other names and keys

The entries that a circuit recorded can be asked for on another circuit, with a source of names and
a function for keys of its own. A call in which the name is empty gets its name from that source, and
every other name is taken as it is. The keys can stand in the way: an operator is refused where its
new key belongs to an unequal one.

- `OperandTable.Rekeyable` says that the operators of a table can be stored under other keys.
- `Circuit.Mirrors` relates a circuit and its entries to the circuit that the calls for the entries
  make elsewhere; `Circuit.Mirrors.commit` is the step lemma.
- `Circuit.mirrored_attemptAll`: after any calls, there are entries, and they can be recorded once
  more just if the operators can be stored.
-/

namespace QuditSim

/-! ## Operators under other keys -/

namespace OperandTable

/-- Operators under different keys that have one key by another function are equal. -/
def Rekeyable {S : Type} [Scalar S] (table : OperandTable S) (keyOf : Operator S → Int) : Prop :=
  ∀ key key' op op', table.get? key = some op → table.get? key' = some op' → key ≠ key' →
    keyOf op = keyOf op' → op.same op' = true

/-- By the function that the keys were computed by, no two operators have one key. -/
theorem Keyed.rekeyable {S : Type} [Scalar S] {table : OperandTable S} (h : table.Keyed) :
    table.Rekeyable table.keyOf := by
  intro key key' op op' hop hop' hne heq
  rw [h key op hop, h key' op' hop'] at heq
  exact absurd heq hne

end OperandTable

namespace Circuit

variable {S : Type} {c c' : Circuit S}

/-- What can be stored under other keys after a step could be before it. -/
theorem GoesOn.rekeyable [Scalar S] (h : c.GoesOn c') {keyOf : Operator S → Int}
    (hc' : c'.operands.Rekeyable keyOf) : c.operands.Rekeyable keyOf :=
  fun _ _ _ _ hop hop' => hc' _ _ _ _ (h.operands _ _ hop) (h.operands _ _ hop')

/-- An operator that is stored after a step was stored before it, or it is that of the entry. -/
theorem get?_of_commit {entry : Entry S} {key : Int} {op : Operator S}
    (h : (c.commit entry).operands.get? key = some op) :
    c.operands.get? key = some op ∨ op ∈ entry.operator? ∧ key = c.operands.keyOf op := by
  rw [operands_commit] at h
  cases hop : entry.operator? with
  | none =>
    rw [hop] at h
    exact .inl h
  | some given =>
    rw [hop] at h
    rcases OperandTable.get?_of_insert h with hold | ⟨hkey, rfl⟩
    · exact .inl hold
    · exact .inr ⟨rfl, hkey⟩

/-! ## Names that are never left out -/

/-- A controlled gate and a measurement of digits have a name. -/
def Marked : Entry S → Prop
  | .gate kind _ _ _ name _ => kind.control? ≠ none → name ≠ ""
  | .measurement _ basis _ _ name => basis = none → name ≠ ""

theorem Named.marked {entry : Entry S} (h : c.Named entry) : Marked entry := by
  cases entry with
  | gate kind op controls targets name increment =>
    intro hcontrol
    obtain ⟨control, hcontrol⟩ := Option.ne_none_iff_exists'.mp hcontrol
    simp only [Named, hcontrol] at h
    rw [← h]
    exact controlledName_ne_empty op name control
  | measurement kind basis targets dit name =>
    rintro rfl
    exact h

theorem Marked.stored {entry : Entry S} (h : Marked entry) : Marked (c.stored entry) := by
  cases entry with
  | gate kind op controls targets name increment => exact h
  | measurement kind basis targets dit name => exact fun hbasis => h (Option.map_eq_none_iff.mp hbasis)

theorem Counted.stored {entry : Entry S} (h : Counted entry) : Counted (c.stored entry) := by
  cases entry <;> exact h

theorem Counted.renamed {entry : Entry S} (h : Counted entry) : Counted (c.renamed entry) := by
  cases entry <;> exact h

theorem operator?_renamed (entry : Entry S) : (c.renamed entry).operator? = entry.operator? := by
  cases entry <;> rfl

theorem renamed_eq_of_namer (h : c'.namer = c.namer) : c'.renamed = c.renamed := by
  funext entry
  cases entry <;> simp only [renamed, nameFor, controlledName, h]

/-- The name of an entry that is recorded once more is what it was, or that of its operator if it
was empty. -/
theorem name_renamed {entry : Entry S} (h : Marked entry) :
    ((c.stepOf (c.renamed entry)).name) =
      if (c.stepOf entry).name = "" then entry.operator?.elim "" c.namer
      else (c.stepOf entry).name := by
  cases entry with
  | gate kind op controls targets name increment =>
    cases hcontrol : kind.control? with
    | none =>
      simp only [renamed, hcontrol]
      rfl
    | some control =>
      have hname : name ≠ "" := h (by rw [hcontrol]; exact Option.some_ne_none control)
      simp only [renamed, hcontrol, controlledName, if_neg hname]
      exact (if_neg hname).symm
  | measurement kind basis targets dit name =>
    cases basis with
    | none =>
      have hname : name ≠ "" := h rfl
      show (if name = "" then "Z" else name) = if name = "" then "" else name
      rw [if_neg hname, if_neg hname]
    | some op => rfl

/-! ## The circuit that the calls make -/

/-- What the checks establish of an entry does not depend on names, and on keys only in that its
operator's key is free or its own. -/
theorem Sound.transfer [Scalar S] {entry : Entry S} (h : c.Sound entry)
    (hqudits : c'.qudits = c.qudits) (hdits : c'.dits = c.dits) (hdim : c'.dim = c.dim)
    (hmeasured : c'.measured = c.measured)
    (hkey : ∀ op ∈ entry.operator?, ∀ known,
      c'.operands.get? (c'.operands.keyOf op) = some known → known.same op = true) :
    c'.Sound entry := by
  have hstorable : ∀ op ∈ entry.operator?, ∀ k, c.Storable op k → c'.Storable op k := by
    intro op hop k hk
    refine ⟨?_, hkey op hop⟩
    rw [hdim]
    exact hk.1
  cases entry with
  | gate kind op controls targets name increment =>
    obtain ⟨htargets, hnodup, hcontrols, htakes, hop, hlive⟩ := h
    unfold ControlsFit at hcontrols
    unfold Sound ControlsFit
    rw [hqudits, hdits, hmeasured]
    exact ⟨htargets, hnodup, hcontrols, htakes, hstorable op rfl _ hop, hlive⟩
  | measurement kind basis targets dit name =>
    obtain ⟨htargets, hdit, hlive, hkind⟩ := h
    unfold Sound
    rw [hqudits, hdits, hmeasured]
    refine ⟨htargets, hdit, hlive, ?_⟩
    cases basis with
    | none => cases kind <;> exact hkind
    | some op =>
      cases kind with
      | none => exact hkind
      | standard => exact hkind
      | basis => exact ⟨hkind.1, hstorable op rfl _ hkind.2⟩
      | jointBasis => exact hstorable op rfl _ hkind

/-- The calls for the entries of a circuit make another circuit elsewhere: it has the registers and
the marks of the one where they were recorded, and the entries as steps, each with a name where it
had none. -/
structure Mirrors (start c : Circuit Float) (entries : List (Entry Float)) (r : Circuit Float) :
    Prop where
  /-- The calls make the circuit. -/
  appendAll_eq : start.appendAll (entries.map Entry.call) = .ok r
  /-- It has as many qudits. -/
  qudits_eq : r.qudits = c.qudits
  /-- It has as many dits. -/
  dits_eq : r.dits = c.dits
  /-- The qudits have the same dimension. -/
  dim_eq : r.dim = c.dim
  /-- The same qudits were measured. -/
  measured_eq : r.measured = c.measured
  /-- The source of names is that of the circuit at the start. -/
  namer_eq : r.namer = start.namer
  /-- So is the function for keys. -/
  keyOf_eq : r.operands.keyOf = start.operands.keyOf
  /-- The tallies are those of the steps. -/
  tallied : r.Tallied
  /-- Each step is an entry, with a name where it had none. -/
  log_eq : r.log = entries.map fun entry => start.stepOf (start.renamed entry)
  /-- Every entry has a name that has to have one. -/
  marked : ∀ entry ∈ entries, Marked entry
  /-- An operator is stored under its own key, and it is stored in the circuit where the entries
  were recorded, too. -/
  held : ∀ key op, r.operands.get? key = some op →
    start.operands.keyOf op = key ∧ ∃ key', c.operands.get? key' = some op

theorem measured_commit (c : Circuit S) (entry : Entry S) :
    (c.commit entry).measured = c.measured ++ (c.stepOf entry).retired := by
  cases entry with
  | gate kind op controls targets name increment => exact (List.append_nil _).symm
  | measurement kind basis targets dit name => rfl

section Mirrors

variable {start c r : Circuit Float} {entries : List (Entry Float)}

/-- An entry that is recorded can be asked for elsewhere, if its operator can be stored there. -/
theorem Mirrors.sound (h : Mirrors start c entries r) (hkeyed : c.operands.Keyed)
    {entry : Entry Float} (hsound : c.Sound entry)
    (hkeys : (c.commit entry).operands.Rekeyable start.operands.keyOf) :
    r.Sound (c.stored entry) := by
  have hstored := sound_stored hkeyed hsound
  refine hstored.transfer h.qudits_eq h.dits_eq h.dim_eq h.measured_eq fun op hop known hknown => ?_
  rw [h.keyOf_eq] at hknown
  obtain ⟨hkey, key, hheld⟩ := h.held _ known hknown
  by_cases hsame : key = c.operands.keyOf op
  -- both operators have one key in the circuit, and so they were compared there
  · obtain ⟨k, hstorable⟩ := hstored.storable op hop
    exact hstorable.2 known (hsame ▸ hheld)
  · exact hkeys key _ known op ((goesOn_commit c entry).operands key known hheld)
      (get?_commit_stored hkeyed entry op hop) hsame hkey

/-- Recording an entry in the circuit, and its call elsewhere. -/
theorem Mirrors.commit (h : Mirrors start c entries r) (hkeyed : c.operands.Keyed)
    {entry : Entry Float} (hsound : c.Sound entry) (hnamed : c.Named entry)
    (hcounted : Counted entry)
    (hkeys : (c.commit entry).operands.Rekeyable start.operands.keyOf) :
    Mirrors start (c.commit entry) (entries ++ [c.stored entry])
      (r.commit (r.renamed (c.stored entry))) := by
  have hhere := goesOn_commit c entry
  have hthere := goesOn_commit r (r.renamed (c.stored entry))
  have hcounted : Counted (c.stored entry) := hcounted.stored
  have hrenamed : r.renamed = start.renamed := renamed_eq_of_namer h.namer_eq
  have hstepOf : r.stepOf = start.stepOf := stepOf_eq_of_keyOf h.keyOf_eq
  refine
    { appendAll_eq := ?_
      qudits_eq := hthere.qudits_eq.trans (h.qudits_eq.trans hhere.qudits_eq.symm)
      dits_eq := hthere.dits_eq.trans (h.dits_eq.trans hhere.dits_eq.symm)
      dim_eq := hthere.dim_eq.trans (h.dim_eq.trans hhere.dim_eq.symm)
      measured_eq := ?_
      namer_eq := (namer_commit _ _).trans h.namer_eq
      keyOf_eq := (keyOf_commit _ _).trans h.keyOf_eq
      tallied := h.tallied.commit hcounted.renamed
      log_eq := ?_
      marked := ?_
      held := ?_ }
  · rw [List.map_append, List.map_singleton, appendAll_concat h.appendAll_eq]
    exact append_call (h.sound hkeyed hsound hkeys) hcounted
  · rw [measured_commit, measured_commit, h.measured_eq]
    cases entry <;> rfl
  · rw [(h.tallied.ordered.commit _).1, h.log_eq, List.map_append, List.map_singleton, hstepOf,
      hrenamed]
  · intro other hother
    rcases List.mem_append.mp hother with hold | hnew
    · exact h.marked other hold
    · rw [List.mem_singleton.mp hnew]
      exact hnamed.marked.stored
  · intro key op hop
    rcases get?_of_commit hop with hold | ⟨hnew, hkey⟩
    · obtain ⟨hkey, key', hheld⟩ := h.held key op hold
      exact ⟨hkey, key', hhere.operands key' op hheld⟩
    · rw [operator?_renamed] at hnew
      rw [h.keyOf_eq] at hkey
      exact ⟨hkey.symm, _, get?_commit_stored hkeyed entry op hnew⟩

/-! ## What the calls need -/

/-- The call for an entry has the operator of the entry. -/
theorem operator?_call {entry : Entry S} (h : Shaped entry) :
    entry.call.operator? = entry.operator? := by
  cases entry with
  | gate kind op controls targets name increment =>
    cases kind with
    | none => exact h.1.elim
    | fourier => exact h.1.elim
    | inverseFourier => exact h.1.elim
    | controlled control one other => cases control <;> rfl
    | controlledCustom control => cases control <;> rfl
    | _ => rfl
  | measurement kind basis targets dit name =>
    cases basis with
    | none => cases kind <;> rfl
    | some op =>
      cases kind with
      | none => exact h.elim
      | standard => exact h.elim
      | basis => rfl
      | jointBasis => rfl

/-- Every operator that is stored is that of an entry. -/
theorem Records.exists_entry (h : Records c entries) (hc : c.Indexed) {key : Int}
    {op : Operator Float} (hop : c.operands.get? key = some op) :
    ∃ entry ∈ entries, op ∈ entry.operator? := by
  have hkey : key ∈ c.log.flatMap Step.keys := by
    rw [← List.mem_eraseDups, ← hc.keys_eq, ← OperandTable.contains_iff_mem_keys]
    exact Option.isSome_iff_exists.mpr ⟨op, hop⟩
  obtain ⟨step, hstep, hkey⟩ := List.mem_flatMap.mp hkey
  rw [h.log_eq] at hstep
  obtain ⟨entry, hentry, rfl⟩ := List.mem_map.mp hstep
  rw [keys_stepOf, Option.mem_toList, Option.map_eq_some_iff] at hkey
  obtain ⟨given, hgiven, rfl⟩ := hkey
  have hstored := h.operands entry hentry given hgiven
  rw [hop] at hstored
  exact ⟨entry, hentry, Option.some.inj hstored ▸ hgiven⟩

/-- Where the calls for the entries are accepted, the operators can be stored. -/
theorem Records.rekeyable (h : Records c entries) (hc : c.Indexed) (hstart : start.Ordered)
    (hr : start.appendAll (entries.map Entry.call) = .ok r) :
    c.operands.Rekeyable start.operands.keyOf := by
  obtain ⟨⟨steps, -, hsteps⟩, -, -, hkeyOf⟩ := appendAll_records hstart hr
  -- for each operator, the circuit that the calls make has an equal one under its new key
  have hstored : ∀ key op, c.operands.get? key = some op → ∃ known,
      r.operands.get? (start.operands.keyOf op) = some known ∧
        (known = op ∨ known.same op = true) := by
    intro key op hop
    obtain ⟨entry, hentry, hgiven⟩ := h.exists_entry hc hop
    obtain ⟨i, hi, rfl⟩ := List.getElem_of_mem hentry
    obtain ⟨before, recorded, hplanned, -, -, hknown⟩ :=
      hsteps.get (by simpa using hi) (by simpa [← hsteps.length_eq] using hi)
    rw [← hkeyOf]
    refine hknown op ?_
    rw [hplanned.operator?_eq]
    simpa only [List.get_eq_getElem, List.getElem_map, operator?_call (h.shaped _ hentry)] using
      hgiven
  intro key key' op op' hop hop' hne heq
  obtain ⟨known, hknown, hsame⟩ := hstored key op hop
  obtain ⟨known', hknown', hsame'⟩ := hstored key' op' hop'
  rw [heq, hknown', Option.some.injEq] at hknown
  subst hknown
  rcases hsame with rfl | hsame
  · rcases hsame' with rfl | hsame'
    -- one operator has one key in the circuit where it was recorded
    · exact absurd ((h.keyed key _ hop).symm.trans (h.keyed key' _ hop')) hne
    · exact hsame'
  · rcases hsame' with rfl | hsame'
    · exact Operator.same_symm hsame
    · exact Operator.same_of_same hsame hsame'

/-! ## Whatever is asked -/

theorem keyed_attemptAll (h : c.operands.Keyed) (calls : List (Call Float)) :
    (c.attemptAll calls).operands.Keyed :=
  attemptAll_keeps (P := fun c => c.operands.Keyed)
    (fun _ hc _ _ entry _ _ => keyed_commit hc entry) h

/-- Whatever is asked of a new circuit, entries are recorded, and their calls make a circuit
elsewhere just if the operators can be stored there. -/
theorem mirrored_attemptAll (serial qudits dits dim : Nat) (name : String)
    (namer : Operator Float → String) (keyOf : Operator Float → Int) (calls : List (Call Float)) :
    let c := (empty serial qudits dits dim name namer keyOf).attemptAll calls
    ∃ entries, Records c entries ∧ ∀ serial' name' namer' keyOf',
      (∃ r, Mirrors (empty serial' qudits dits dim name' namer' keyOf') c entries r) ↔
        c.operands.Rekeyable keyOf' := by
  intro c
  -- the entries go on with each call, and so does the circuit elsewhere while the keys allow it
  have hkept : ∃ entries, c.Ordered ∧ Records c entries ∧ ∀ serial' name' namer' keyOf',
      c.operands.Rekeyable keyOf' →
        ∃ r, Mirrors (empty serial' qudits dits dim name' namer' keyOf') c entries r := by
    refine attemptAll_keeps (P := fun after => ∃ entries, after.Ordered ∧ Records after entries ∧
      ∀ serial' name' namer' keyOf', after.operands.Rekeyable keyOf' →
        ∃ r, Mirrors (empty serial' qudits dits dim name' namer' keyOf') after entries r) ?_ ?_
    · rintro before ⟨entries, hordered, hrecords, hmirrors⟩ call - entry hsound hplanned
      obtain ⟨hnamed, hcounted⟩ := hplanned.named
      refine ⟨_, (hordered.commit entry).2, hrecords.commit hordered hsound, ?_⟩
      intro serial' name' namer' keyOf' hkeys
      obtain ⟨r, hr⟩ := hmirrors serial' name' namer' keyOf'
        ((goesOn_commit before entry).rekeyable hkeys)
      exact ⟨_, hr.commit hrecords.keyed hsound hnamed hcounted hkeys⟩
    · refine ⟨[], ⟨rfl, rfl, rfl⟩, records_empty .., fun serial' name' namer' keyOf' _ => ?_⟩
      refine ⟨empty serial' qudits dits dim name' namer' keyOf', ?_⟩
      exact
        { appendAll_eq := rfl
          qudits_eq := rfl
          dits_eq := rfl
          dim_eq := rfl
          measured_eq := rfl
          namer_eq := rfl
          keyOf_eq := rfl
          tallied := ⟨⟨rfl, rfl, rfl⟩, rfl, rfl⟩
          log_eq := rfl
          marked := nofun
          held := nofun }
  obtain ⟨entries, -, hrecords, hmirrors⟩ := hkept
  have hindexed : c.Indexed :=
    (indexed_empty serial qudits dits dim name namer keyOf).attemptAll calls
  refine ⟨entries, hrecords, fun serial' name' namer' keyOf' => ⟨?_, hmirrors _ _ _ _⟩⟩
  rintro ⟨r, hr⟩
  exact hrecords.rekeyable hindexed ⟨rfl, rfl, rfl⟩ hr.appendAll_eq

end Mirrors

end Circuit

end QuditSim
