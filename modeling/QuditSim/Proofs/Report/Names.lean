import QuditSim.Proofs.Circuit.Mirrored
import QuditSim.Proofs.Report.Faithful

/-!
# The names of rebuilt steps

A report has the name of each step, but not the source of names that the circuit was made with. When
a step is asked for again, an empty name counts as none, and the usual library chooses one. So the
names of a circuit come back just where the library has none for the operators of steps that have no
name.

- `Circuit.refilled` is the name that a step comes back with, and `Circuit.Unnamed` says that no step
  comes back with another name.
- `Report.rebuild_eq_ok_iff_mirrors`: what a report is rebuilt as.
- `Report.rebuild_names_iff`: whatever source of names and whatever keys a circuit was made with, the
  names of its steps and the counts by name come back just if it is `Unnamed` and its operators can
  be stored under the usual keys.
-/

namespace QuditSim

open Fallible

namespace Circuit

section Names

variable {S : Type}

/-- The name of a step, or where it is empty the one that a source of names has for the operator. -/
def refilled (c : Circuit S) (namer : Operator S → String) (step : Step) : String :=
  if step.name = "" then (step.keys.head?.bind c.operands.get?).elim "" namer else step.name

/-- A source of names has none for the operators of steps without a name. -/
def Unnamed (c : Circuit S) (namer : Operator S → String) : Prop :=
  ∀ step ∈ c.log, step.name = "" → ∀ key ∈ step.keys, ∀ op, c.operands.get? key = some op →
    namer op = ""

/-- The steps of two circuits have the same names in order, and the counts by name are the same. -/
structure SameNames (c r : Circuit S) : Prop where
  /-- The names of the steps. -/
  names_eq : r.log.map Step.name = c.log.map Step.name
  /-- The counts of gates by name. -/
  gateCounts_eq : r.gateCounts = c.gateCounts
  /-- The counts of measurements by name. -/
  measureCounts_eq : r.measureCounts = c.measureCounts

end Names

variable {start c r : Circuit Float} {entries : List (Entry Float)} {namer : Operator Float → String}

/-- The name of an entry is filled in from its operator. -/
theorem Records.refilled_stepOf (h : Records c entries) {entry : Entry Float}
    (hentry : entry ∈ entries) :
    c.refilled namer (c.stepOf entry) =
      if (c.stepOf entry).name = "" then entry.operator?.elim "" namer
      else (c.stepOf entry).name := by
  unfold refilled
  rw [keys_stepOf]
  cases hop : entry.operator? with
  | none => rfl
  | some op =>
    have hstored := h.operands entry hentry op hop
    simp only [Option.map_some, Option.toList_some, List.head?_cons, Option.bind_some, hstored]

/-- The steps without a name have operators without a name just if all names come back. -/
theorem Records.unnamed_iff (h : Records c entries) :
    c.Unnamed namer ↔ ∀ entry ∈ entries,
      c.refilled namer (c.stepOf entry) = (c.stepOf entry).name := by
  unfold Unnamed
  rw [h.log_eq, List.forall_mem_map]
  refine forall₂_congr fun entry hentry => ?_
  rw [h.refilled_stepOf hentry, keys_stepOf]
  by_cases hname : (c.stepOf entry).name = ""
  · rw [if_pos hname, hname]
    cases hop : entry.operator? with
    | none => simp
    | some op =>
      have hstored := h.operands entry hentry op hop
      simp [hstored]
  · simp [hname]

theorem Mirrors.refilled_eq (h : Mirrors start c entries r) (hrecords : Records c entries)
    {entry : Entry Float} (hentry : entry ∈ entries) :
    (start.stepOf (start.renamed entry)).name = c.refilled start.namer (c.stepOf entry) := by
  have hname : (start.stepOf entry).name = (c.stepOf entry).name := by
    cases entry <;> rfl
  rw [name_renamed (h.marked entry hentry), hrecords.refilled_stepOf hentry, hname]

/-- The names that the calls for the entries of a circuit give to the steps. -/
theorem Mirrors.names_eq (h : Mirrors start c entries r) (hrecords : Records c entries) :
    r.log.map Step.name = c.log.map (c.refilled start.namer) := by
  rw [h.log_eq, hrecords.log_eq, List.map_map, List.map_map]
  exact List.map_congr_left fun entry hentry => h.refilled_eq hrecords hentry

/-- What is taken from the steps is the same in both circuits if it is for each entry. -/
theorem Mirrors.filterMap_log_eq {α : Type} (h : Mirrors start c entries r)
    (hrecords : Records c entries) {item : Step → Option α} (hitem : ∀ entry ∈ entries,
      item (start.stepOf (start.renamed entry)) = item (c.stepOf entry)) :
    r.log.filterMap item = c.log.filterMap item := by
  rw [h.log_eq, hrecords.log_eq, List.filterMap_map, List.filterMap_map]
  exact List.filterMap_congr hitem

/-- Where all names come back, so do the counts. -/
theorem Mirrors.sameNames_iff (h : Mirrors start c entries r) (hrecords : Records c entries)
    (hc : c.Tallied) : c.SameNames r ↔ c.Unnamed start.namer := by
  have hnames := h.names_eq hrecords
  constructor
  · intro hsame
    rw [hsame.names_eq, hrecords.log_eq, List.map_map, List.map_map] at hnames
    exact hrecords.unnamed_iff.mpr fun entry hentry => (List.map_inj_left.mp hnames entry hentry).symm
  · intro hunnamed
    have hkept : ∀ entry ∈ entries,
        (start.stepOf (start.renamed entry)).name = (c.stepOf entry).name := fun entry hentry =>
      (h.refilled_eq hrecords hentry).trans (hrecords.unnamed_iff.mp hunnamed entry hentry)
    refine ⟨?_, ?_, ?_⟩
    · rw [h.log_eq, hrecords.log_eq, List.map_map, List.map_map]
      exact List.map_congr_left hkept
    -- the gates and the measurements are those of the log, and count by their names
    · rw [h.tallied.gateCounts_eq, hc.gateCounts_eq, h.tallied.ordered.gates_eq,
        hc.ordered.gates_eq, List.map_filterMap, List.map_filterMap]
      refine congrArg Tally.ofItems (h.filterMap_log_eq hrecords fun entry hentry => ?_)
      have hname := hkept entry hentry
      cases entry with
      | gate kind op controls targets name increment =>
        exact congrArg (fun name => some (name, _)) hname
      | measurement kind basis targets dit name => rfl
    · rw [h.tallied.measureCounts_eq, hc.measureCounts_eq, h.tallied.ordered.measurements_eq,
        hc.ordered.measurements_eq, List.map_filterMap, List.map_filterMap]
      refine congrArg Tally.ofItems (h.filterMap_log_eq hrecords fun entry hentry => ?_)
      have hname := hkept entry hentry
      cases entry with
      | gate kind op controls targets name increment => rfl
      | measurement kind basis targets dit name =>
        exact congrArg (fun name => some (name, _)) hname

end Circuit

namespace Report

open Circuit

/-- The report of a circuit is rebuilt as what the calls for its entries make on a circuit with the
usual names and keys. They make one just if the operators can be stored there. -/
theorem rebuild_eq_ok_iff_mirrors [Capacity] {serial : Nat} {qudits dits dim : Argument}
    {name : String} {namerFor : Nat → Except ExtentFault (Operator Float → String)}
    {keyOf : Operator Float → Int} {start : Circuit Float}
    (hstart : create? serial qudits dits dim name namerFor keyOf = .ok start)
    {calls : List (Call Float)} (hcalls : ∀ call ∈ calls, call.Held)
    (metadata : List (String × Json)) (serial' : Nat) :
    let c := start.attemptAll calls
    let blank := fun namer =>
      empty serial' start.qudits start.dits start.dim start.name namer Operator.contentKey
    ∃ entries, Records c entries ∧
      (∀ r, rebuild serial' (c.report metadata true) = .ok r ↔
        ∃ namer, standardNamer c.dim = .ok namer ∧ Mirrors (blank namer) c entries r) ∧
      ∀ namer, (∃ r, Mirrors (blank namer) c entries r) ↔
        c.operands.Rekeyable Operator.contentKey := by
  intro c blank
  have hc : c.WellFormed := wellFormed_attemptAll hstart calls
  obtain ⟨hn, hd, -, hflags⟩ := extents_of_create? hstart
  obtain ⟨n, m, d, namer₀, rfl⟩ := create?_eq_ok hstart
  have hwritable : c.operands.Writable := writable_attemptAll
    (c := empty serial n m d name namer₀ keyOf) (fun _ h => nomatch h) hcalls
  obtain ⟨entries, hrecords, hmirrors⟩ :=
    mirrored_attemptAll serial n m d name namer₀ keyOf calls
  have hblank : c.blank = empty serial n m d name namer₀ keyOf := blank_attemptAll _ calls
  have hqudits : c.qudits = n := congrArg (fun c : Circuit Float => c.qudits) hblank
  have hdits : c.dits = m := congrArg (fun c : Circuit Float => c.dits) hblank
  have hdim : c.dim = d := congrArg (fun c : Circuit Float => c.dim) hblank
  have hname : c.name = name := congrArg (fun c : Circuit Float => c.name) hblank
  replace hn : 1 ≤ c.qudits := hqudits ▸ hn
  replace hd : 2 ≤ c.dim := hdim ▸ hd
  replace hflags : checkListExtent Capacity.flags c.qudits = .ok () := hqudits ▸ hflags
  have hwritten : ∀ {namer}, standardNamer c.dim = .ok namer →
      rebuild serial' (c.report metadata true) =
        ((blank namer).appendAll (entries.map Entry.call)).mapError .circuit := by
    intro namer hnamer
    have hrebuild := rebuild_written hc hn hd hnamer hflags hrecords hwritable metadata serial'
    rwa [hqudits, hdits, hdim, hname] at hrebuild
  refine ⟨entries, hrecords, fun r => ⟨fun hr => ?_, ?_⟩, fun namer => hmirrors serial' name namer _⟩
  · obtain ⟨-, _, _, _, -, -, hempty, -⟩ := rebuild_eq_ok hr
    obtain ⟨namer, hnamer, -⟩ := (emptyCircuit_report_eq_ok hn hd hflags).mp hempty
    rw [hwritten hnamer, mapError_eq_ok] at hr
    -- the calls are accepted, and so they make what mirrors the circuit
    have hkeys : c.operands.Rekeyable Operator.contentKey :=
      hrecords.rekeyable ((indexed_empty ..).attemptAll calls) ⟨rfl, rfl, rfl⟩ hr
    obtain ⟨r', hr'⟩ := (hmirrors serial' name namer _).mpr hkeys
    obtain rfl : r = r' := Except.ok.inj (hr.symm.trans hr'.appendAll_eq)
    exact ⟨namer, hnamer, hr'⟩
  · rintro ⟨namer, hnamer, hr⟩
    exact (hwritten hnamer).trans (mapError_eq_ok.mpr hr.appendAll_eq)

/-- Whatever source of names and whatever function for keys a circuit was made with, and whatever
was asked of it: where it is rebuilt, each step has the name that it had, or if that was empty, the
one that the library has for its operator. So the circuit is rebuilt with the same names and counts
just if there is a library for its dimension, its operators can be stored under the usual keys, and
the library has no name for the operators of steps without a name. -/
theorem rebuild_names_iff [Capacity] {serial : Nat} {qudits dits dim : Argument} {name : String}
    {namerFor : Nat → Except ExtentFault (Operator Float → String)} {keyOf : Operator Float → Int}
    {start : Circuit Float} (hstart : create? serial qudits dits dim name namerFor keyOf = .ok start)
    {calls : List (Call Float)} (hcalls : ∀ call ∈ calls, call.Held)
    (metadata : List (String × Json)) (serial' : Nat) :
    let c := start.attemptAll calls
    let rebuilt := rebuild serial' (c.report metadata true)
    (∀ r, rebuilt = .ok r → ∃ namer, standardNamer c.dim = .ok namer ∧
        r.log.map Step.name = c.log.map (c.refilled namer)) ∧
      ((∃ r, rebuilt = .ok r ∧ c.SameNames r) ↔ ∃ namer, standardNamer c.dim = .ok namer ∧
        c.operands.Rekeyable Operator.contentKey ∧ c.Unnamed namer) := by
  intro c rebuilt
  obtain ⟨entries, hrecords, hrebuilt, hkeys⟩ :=
    rebuild_eq_ok_iff_mirrors hstart hcalls metadata serial'
  have htallied : c.Tallied := by
    obtain ⟨n, m, d, namer, rfl⟩ := create?_eq_ok hstart
    exact Tallied.attemptAll ⟨⟨rfl, rfl, rfl⟩, rfl, rfl⟩ calls
  refine ⟨fun r hr => ?_, ?_, ?_⟩
  · obtain ⟨namer, hnamer, hmirrors⟩ := (hrebuilt r).mp hr
    exact ⟨namer, hnamer, hmirrors.names_eq hrecords⟩
  · rintro ⟨r, hr, hsame⟩
    obtain ⟨namer, hnamer, hmirrors⟩ := (hrebuilt r).mp hr
    exact ⟨namer, hnamer, (hkeys namer).mp ⟨r, hmirrors⟩,
      (hmirrors.sameNames_iff hrecords htallied).mp hsame⟩
  · rintro ⟨namer, hnamer, hrekeyable, hunnamed⟩
    obtain ⟨r, hmirrors⟩ := (hkeys namer).mpr hrekeyable
    exact ⟨r, (hrebuilt r).mpr ⟨namer, hnamer, hmirrors⟩,
      (hmirrors.sameNames_iff hrecords htallied).mpr hunnamed⟩

theorem held_identity {name : String} :
    (Call.gate (.operator (.identity 3 : Operator Float)) [.int 0] name).Held := by
  rintro _ ⟨⟩ n hn
  have hn : n ∈ [3, 3] := hn
  simp only [List.mem_cons, List.not_mem_nil, or_false, or_self] at hn
  omega

section

attribute [local instance] Capacity.common

theorem standardNamer_three : standardNamer 3 = .ok
    (GateLibrary.standard 3 GateLibrary.standardTolerance : GateLibrary String Float).nameOf := rfl

/-- A gate that was given a name is rebuilt with it, in a circuit that has no names for operators. -/
theorem rebuild_names_iff_given :
    let start : Circuit Float := empty 0 1 0 3 "" (fun _ => "") Operator.contentKey
    let calls : List (Call Float) := [.gate (.operator (.identity 3)) [.int 0] "U"]
    let c := start.attemptAll calls
    create? 0 (.int 1) (.int 0) (.int 3) "" (fun _ => .ok fun _ => "") Operator.contentKey =
        .ok start ∧
      (∀ call ∈ calls, call.Held) ∧ c.log.map Step.name = ["U"] ∧
      ∃ r, rebuild 1 (c.report [] true) = .ok r ∧ c.SameNames r := by
  intro start calls c
  have hstart : create? 0 (.int 1) (.int 0) (.int 3) "" (fun _ => .ok fun _ => "")
      Operator.contentKey = .ok start := rfl
  have hcalls : ∀ call ∈ calls, call.Held := List.forall_mem_singleton.mpr held_identity
  have hlog : c.log = [.gate ⟨.single, Operator.contentKey (.identity 3), [], [0], "U"⟩] := rfl
  refine ⟨hstart, hcalls, congrArg (List.map Step.name) hlog, ?_⟩
  refine (rebuild_names_iff hstart hcalls [] 1).2.mpr ⟨_, standardNamer_three, ?_, ?_⟩
  · exact (keyed_attemptAll (OperandTable.keyed_empty _) calls).rekeyable
  · intro step hstep hname
    rw [hlog, List.mem_singleton] at hstep
    subst hstep
    exact absurd hname (show ¬ "U" = "" by decide)

/-- A gate without a name is rebuilt with the one that the library has for its operator. -/
theorem rebuild_names_filled :
    let start : Circuit Float := empty 0 1 0 3 "" (fun _ => "") Operator.contentKey
    let calls : List (Call Float) := [.gate (.operator (.identity 3)) [.int 0] ""]
    let c := start.attemptAll calls
    create? 0 (.int 1) (.int 0) (.int 3) "" (fun _ => .ok fun _ => "") Operator.contentKey =
        .ok start ∧
      c.log.map Step.name = [""] ∧
      ∃ r, rebuild 1 (c.report [] true) = .ok r ∧ r.log.map Step.name = ["Id3"] ∧
        ¬ c.SameNames r := by
  intro start calls c
  have hstart : create? 0 (.int 1) (.int 0) (.int 3) "" (fun _ => .ok fun _ => "")
      Operator.contentKey = .ok start := rfl
  have hcalls : ∀ call ∈ calls, call.Held := List.forall_mem_singleton.mpr held_identity
  -- whatever the keys are, the gate is recorded without a name, and its operator is stored
  have hrecorded : ∀ (keyOf : Operator Float → Int) (namer : Operator Float → String),
      let c := (empty 0 1 0 3 "" (fun _ => "") keyOf).attemptAll calls
      c.log.map Step.name = [""] ∧ c.log.map (c.refilled namer) = [namer (.identity 3)] := by
    intro keyOf namer c
    have hlog : c.log = [.gate ⟨.single, keyOf (.identity 3), [], [0], ""⟩] := rfl
    have hstored : c.operands.get? (keyOf (.identity 3)) = some (.identity 3) :=
      get?_commit (empty 0 1 0 3 "" (fun _ => "") keyOf)
        (.gate .single (.identity 3) [] [0] "" 1) _ rfl
    rw [hlog]
    exact ⟨rfl, congrArg (fun op => [Option.elim op "" namer]) hstored⟩
  have hlog : c.log.map Step.name = [""] := (hrecorded _ fun _ => "").1
  let library : GateLibrary String Float := .standard 3 GateLibrary.standardTolerance
  have hknown : library.nameOf (.identity 3) = "Id3" := rfl
  obtain ⟨entries, hrecords, hrebuilt, hkeys⟩ := rebuild_eq_ok_iff_mirrors hstart hcalls [] 1
  obtain ⟨r, hr⟩ := (hkeys library.nameOf).mpr
    (keyed_attemptAll (OperandTable.keyed_empty _) calls).rekeyable
  have hnames : r.log.map Step.name = ["Id3"] := by
    have hfilled : r.log.map Step.name = c.log.map (c.refilled library.nameOf) :=
      hr.names_eq hrecords
    rw [hfilled, (hrecorded _ _).2, hknown]
  refine ⟨hstart, hlog, r, (hrebuilt r).mpr ⟨_, standardNamer_three, hr⟩, hnames, fun hsame => ?_⟩
  have hkept := hsame.names_eq
  rw [hnames, hlog] at hkept
  exact absurd hkept (by decide)

end

end Report

end QuditSim
