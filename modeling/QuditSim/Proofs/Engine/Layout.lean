import Mathlib.Data.Nat.Count
import QuditSim.Engine.Layout
import QuditSim.Proofs.Circuit.Checks
import QuditSim.Proofs.Fallible

/-!
# Layouts of measured registers

The position of a live qudit is the number of live qudits below it. `Layout.without` is the
layout in which the qudits of a list were measured and each other one is at that position; it does
not depend on the order of the list.

- `Layout.drop_without` is the step: one more qudit leaves, and those above it move down.
- `Layout.retireAll_without` is the run over several qudits, which meets no fault.
- `Layout.resolve_without` finds the positions of live qudits.
-/

namespace QuditSim

namespace Layout

/-- The number of qudits below a place that are not in a list of measured ones. -/
def place (gone : List Int) (q : Nat) : Nat := Nat.count (fun j : Nat => (j : Int) ∉ gone) q

/-- The layout of `n` qudits of which those of a list were measured. -/
def without (n : Nat) (gone : List Int) : Layout :=
  ⟨(List.range n).map fun q : Nat => if (q : Int) ∈ gone then none else some (place gone q)⟩

/-- Retiring qudits keeps the number of qudits. -/
theorem size_retireAll (layout : Layout) (step : Option Json) (indices : List Argument) :
    (layout.retireAll step indices).1.size = layout.size := by
  induction indices generalizing layout with
  | nil => rfl
  | cons i rest ih =>
    unfold retireAll
    cases hretire : layout.retire i step with
    | error fault => rfl
    | ok layout' =>
      have hsize : layout'.size = layout.size := by
        unfold retire at hretire
        split at hretire
        · cases hretire
        · cases hretire
          exact size_drop layout _
        · cases hretire
      exact (ih layout').trans hsize

/-- Whether qudits are live does not depend on the step that they are looked up for. -/
theorem resolve_step (layout : Layout) (step step' : Option Json) (indices : List Argument) :
    (layout.resolve indices step).toOption = (layout.resolve indices step').toOption := by
  unfold resolve
  induction indices with
  | nil => rfl
  | cons i rest ih =>
    rw [List.mapM_cons, List.mapM_cons]
    generalize rest.mapM (layout.resolveOne step) = found at ih ⊢
    generalize rest.mapM (layout.resolveOne step') = found' at ih ⊢
    unfold resolveOne
    -- the step is named only where a qudit was measured, and then both look-ups fail
    rcases layout.entry "resolve" i with fault | _ | position
    · rfl
    · rfl
    · cases found <;> cases found' <;> cases ih <;> rfl

/-- The same qudits leave a layout, whatever the step is that they are measured by. -/
theorem retireAll_step (layout : Layout) (step step' : Option Json) (indices : List Argument) :
    (layout.retireAll step indices).1 = (layout.retireAll step' indices).1 ∧
      ((layout.retireAll step indices).2 = none ↔ (layout.retireAll step' indices).2 = none) := by
  induction indices generalizing layout with
  | nil => exact ⟨rfl, Iff.rfl⟩
  | cons i rest ih =>
    unfold retireAll retire
    rcases layout.entry "retire" i with fault | _ | position
    · exact ⟨rfl, Iff.rfl⟩
    · exact ⟨rfl, iff_of_false nofun nofun⟩
    · exact ih _

section Place

variable {gone : List Int}

theorem place_zero : place gone 0 = 0 := Nat.count_zero _

theorem place_succ (gone : List Int) (q : Nat) :
    place gone (q + 1) = place gone q + if (q : Int) ∈ gone then 0 else 1 := by
  unfold place
  rw [Nat.count_succ]
  by_cases hq : (q : Int) ∈ gone <;> simp [hq]

/-- Without measured qudits, each one is at its own place. -/
theorem place_nil (q : Nat) : place [] q = q := by
  unfold place
  simp

/-- A live qudit has a position below the number of live ones. -/
theorem place_lt {q n : Nat} (hq : (q : Int) ∉ gone) (hn : q < n) : place gone q < place gone n :=
  Nat.count_strict_mono hq hn

/-- Live qudits at one position are the same. -/
theorem place_injective {p q : Nat} (hp : (p : Int) ∉ gone) (hq : (q : Int) ∉ gone)
    (h : place gone p = place gone q) : p = q :=
  Nat.count_injective hp hq h

/-- Places count the qudits that are not in a list, whatever the order of the list. -/
theorem place_congr {gone' : List Int} {q : Nat}
    (h : ∀ i < q, (i : Int) ∈ gone ↔ (i : Int) ∈ gone') : place gone q = place gone' q := by
  induction q with
  | zero => rfl
  | succ q ih =>
    rw [place_succ, place_succ, ih fun i hi => h i (Nat.lt_succ_of_lt hi)]
    simp only [h q (Nat.lt_succ_self q)]

/-- When a live qudit leaves, those above it move down by one position. -/
theorem place_append {i : Nat} (hi : (i : Int) ∉ gone) (q : Nat) :
    place (gone ++ [(i : Int)]) q = if i < q then place gone q - 1 else place gone q := by
  induction q with
  | zero => simp [place_zero]
  | succ q ih =>
    have hmem : (q : Int) ∈ gone ++ [(i : Int)] ↔ (q : Int) ∈ gone ∨ q = i := by
      rw [List.mem_append, List.mem_singleton, Int.ofNat_inj]
    rw [place_succ, place_succ, ih]
    -- above the qudit that leaves, there was one live qudit more to count
    by_cases hlt : i < q
    · have hpos : 0 < place gone q := Nat.lt_of_le_of_lt (Nat.zero_le _) (place_lt hi hlt)
      rw [if_pos hlt, if_pos (Nat.lt_succ_of_lt hlt)]
      by_cases hq : (q : Int) ∈ gone
      · simp [hmem, hq]
      · have hne : q ≠ i := Nat.ne_of_gt hlt
        simp only [hmem, hq, hne, or_self, if_false]
        omega
    · rw [if_neg hlt]
      by_cases heq : q = i
      · subst heq
        simp [hi]
      · have hle : ¬ i < q + 1 := by omega
        simp only [hmem, heq, or_false, if_neg hle]

/-- One qudit fewer is live after a live one left. -/
theorem place_append_add_one {i n : Nat} (hi : (i : Int) ∉ gone) (hn : i < n) :
    place (gone ++ [(i : Int)]) n + 1 = place gone n := by
  have hpos : 0 < place gone n := Nat.lt_of_le_of_lt (Nat.zero_le _) (place_lt hi hn)
  rw [place_append hi, if_pos hn]
  omega

/-- As many qudits fewer are live as live ones left. -/
theorem place_append_list {n : Nat} {targets : List Int} (hrange : ∀ q ∈ targets, InRange n q)
    (hlive : ∀ q ∈ targets, q ∉ gone) (hnodup : targets.Nodup) :
    place (gone ++ targets) n + targets.length = place gone n := by
  induction targets generalizing gone with
  | nil => rw [List.append_nil, List.length_nil, Nat.add_zero]
  | cons q rest ih =>
    obtain ⟨hq, hrest⟩ := List.nodup_cons.mp hnodup
    have hqrange := hrange q List.mem_cons_self
    have hqlive : ((q.toNat : Int)) ∉ gone := hqrange.toNat_not_mem (hlive q List.mem_cons_self)
    have hone := place_append_add_one hqlive hqrange.toNat_lt
    rw [hqrange.toNat_eq] at hone
    -- the later targets are still live when the first one has left
    have hrestlive : ∀ p ∈ rest, p ∉ gone ++ [q] := by
      intro p hp hmem
      rcases List.mem_append.mp hmem with hgone | heq
      · exact hlive p (List.mem_cons_of_mem _ hp) hgone
      · exact hq (List.mem_singleton.mp heq ▸ hp)
    have hlater := ih (fun p hp => hrange p (List.mem_cons_of_mem _ hp)) hrestlive hrest
    rw [List.append_assoc] at hlater
    rw [List.length_cons, ← hone, ← hlater]
    rfl

end Place

section Without

variable {n : Nat} {gone : List Int}

@[simp] theorem size_without (n : Nat) (gone : List Int) : (without n gone).size = n := by
  simp [without, size]

theorem getD_without {q : Nat} (hq : q < n) :
    (without n gone).positions.getD q none =
      if (q : Int) ∈ gone then none else some (place gone q) := by
  simp [without, hq]

theorem without_nil (n : Nat) : without n [] = start n := by
  simp [without, start, place_nil]

/-- Layouts with the same positions are the same. -/
theorem ext_positions {a b : Layout} (h : a.positions = b.positions) : a = b := by
  cases a
  cases b
  exact congrArg mk h

/-- When one more live qudit leaves, it is one of the measured ones. -/
theorem drop_without {i : Nat} (hi : (i : Int) ∉ gone) :
    (without n gone).drop i = without n (gone ++ [(i : Int)]) := by
  apply ext_positions
  apply List.ext_getElem?
  intro j
  rw [getElem?_drop]
  by_cases hj : j < n
  · have hmem : (j : Int) ∈ gone ++ [(i : Int)] ↔ (j : Int) ∈ gone ∨ j = i := by
      rw [List.mem_append, List.mem_singleton, Int.ofNat_inj]
    simp only [without, List.getElem?_map, List.getElem?_range hj, Option.map_some, hmem,
      place_append hi]
    by_cases heq : j = i
    · simp [heq]
    · by_cases hgone : (j : Int) ∈ gone
      · simp [hgone]
      · by_cases hlt : i < j <;> simp [heq, hgone, hlt]
  · simp [without, hj]

/-- The entry of a qudit of the register. -/
theorem entry_without {operation : String} {i : Int} (hi : InRange n i) :
    (without n gone).entry operation i =
      .ok (if i ∈ gone then none else some (place gone i.toNat)) := by
  have hrange : ¬ (i < 0 ∨ ((without n gone).size : Int) ≤ i) := by
    obtain ⟨h0, hn⟩ := hi
    rw [size_without]
    omega
  rw [entry_int, if_neg hrange, getD_without hi.toNat_lt, hi.toNat_eq]

/-- A live qudit is found at its position. -/
theorem resolveOne_without {step : Option Json} {i : Int} (hi : InRange n i) (hlive : i ∉ gone) :
    (without n gone).resolveOne step i = .ok (place gone i.toNat) := by
  unfold resolveOne
  rw [entry_without hi, if_neg hlive]

/-- Live qudits are found at their positions. -/
theorem resolve_without {step : Option Json} {indices : List Int}
    (hrange : ∀ i ∈ indices, InRange n i) (hlive : ∀ i ∈ indices, i ∉ gone) :
    (without n gone).resolve (indices.map .int) step =
      .ok (indices.map fun i => place gone i.toNat) := by
  unfold resolve
  induction indices with
  | nil => rfl
  | cons i rest ih =>
    rw [List.map_cons, List.mapM_cons, ih (fun j hj => hrange j (List.mem_cons_of_mem _ hj))
      (fun j hj => hlive j (List.mem_cons_of_mem _ hj)),
      resolveOne_without (hrange i List.mem_cons_self) (hlive i List.mem_cons_self)]
    rfl

/-- A measured qudit is not found, and the step is told. -/
theorem resolveOne_without_of_mem {step : Option Json} {i : Int} (hi : InRange n i)
    (hgone : i ∈ gone) :
    (without n gone).resolveOne step i =
      .error (.located ⟨.measured (.int i), some (.string "resolve"), step⟩) := by
  unfold resolveOne
  rw [entry_without hi, if_pos hgone]

/-- Where qudits are looked up of which one was measured, the first such one is told. -/
theorem resolve_without_of_mem (step : Option Json) {indices : List Int}
    (hrange : ∀ i ∈ indices, InRange n i) (h : ∃ i ∈ indices, i ∈ gone) :
    ∃ i ∈ indices, i ∈ gone ∧ (without n gone).resolve (indices.map .int) step =
      .error (.located ⟨.measured (.int i), some (.string "resolve"), step⟩) := by
  unfold resolve
  induction indices with
  | nil => exact absurd h (by simp)
  | cons i rest ih =>
    have hi := hrange i List.mem_cons_self
    rw [List.map_cons, List.mapM_cons]
    by_cases hgone : i ∈ gone
    · refine ⟨i, List.mem_cons_self, hgone, ?_⟩
      rw [resolveOne_without_of_mem hi hgone]
      rfl
    · obtain ⟨j, hj, hjgone, hresolve⟩ :=
        ih (fun j hj => hrange j (List.mem_cons_of_mem _ hj)) (by simpa [hgone] using h)
      refine ⟨j, List.mem_cons_of_mem _ hj, hjgone, ?_⟩
      rw [resolveOne_without hi hgone, hresolve]
      rfl

/-- A live qudit leaves the register. -/
theorem retire_without {step : Option Json} {i : Int} (hi : InRange n i) (hlive : i ∉ gone) :
    (without n gone).retire i step = .ok (without n (gone ++ [i])) := by
  have hnat : ((i.toNat : Int)) ∉ gone := hi.toNat_not_mem hlive
  unfold retire
  rw [entry_without hi, if_neg hlive]
  show Except.ok ((without n gone).drop i.toNat) = _
  rw [drop_without hnat, hi.toNat_eq]

/-- Different live qudits leave the register one after the other. -/
theorem retireAll_without (step : Option Json) {indices : List Int}
    (hrange : ∀ i ∈ indices, InRange n i) (hlive : ∀ i ∈ indices, i ∉ gone)
    (hnodup : indices.Nodup) :
    (without n gone).retireAll step (indices.map .int) = (without n (gone ++ indices), none) := by
  induction indices generalizing gone with
  | nil => simp [retireAll]
  | cons i rest ih =>
    obtain ⟨hi, hrest⟩ := List.nodup_cons.mp hnodup
    rw [List.map_cons, retireAll,
      retire_without (hrange i List.mem_cons_self) (hlive i List.mem_cons_self)]
    show (without n (gone ++ [i])).retireAll step (rest.map .int) = _
    rw [ih (fun j hj => hrange j (List.mem_cons_of_mem _ hj)) ?_ hrest, List.append_assoc]
    · rfl
    -- no qudit is named twice, so the later ones are still live
    · intro j hj hmem
      rcases List.mem_append.mp hmem with hgone | heq
      · exact hlive j (List.mem_cons_of_mem _ hj) hgone
      · exact hi (List.mem_singleton.mp heq ▸ hj)

/-- The measured qudits of the layout are those of the list. -/
theorem measured_without (n : Nat) (gone : List Int) :
    (without n gone).measured = (List.range n).filter fun q : Nat => (q : Int) ∈ gone := by
  unfold measured
  rw [size_without]
  apply List.filter_congr
  intro q hq
  rw [getD_without (List.mem_range.mp hq)]
  by_cases hgone : (q : Int) ∈ gone <;> simp [hgone]

/-- The live qudits of the layout are all but those of the list. -/
theorem live_without (n : Nat) (gone : List Int) :
    (without n gone).live = (List.range n).filter fun q : Nat => (q : Int) ∉ gone := by
  unfold live
  rw [size_without]
  apply List.filter_congr
  intro q hq
  rw [getD_without (List.mem_range.mp hq)]
  by_cases hgone : (q : Int) ∈ gone <;> simp [hgone]

/-- The live qudits in ascending order are at all the positions in ascending order. -/
theorem map_place_live (n : Nat) (gone : List Int) :
    (without n gone).live.map (place gone) = List.range (place gone n) := by
  rw [live_without]
  induction n with
  | zero => rfl
  | succ n ih =>
    rw [List.range_succ, List.filter_append, List.map_append, ih, place_succ]
    by_cases hn : (n : Int) ∈ gone
    · simp [hn]
    · simp [hn, List.range_succ]

theorem length_live_without (n : Nat) (gone : List Int) :
    (without n gone).live.length = place gone n := by
  simpa using congrArg List.length (map_place_live n gone)

theorem isMeasured_without {i : Int} (hi : InRange n i) :
    (without n gone).isMeasured (.int i) = .ok (decide (i ∈ gone)) := by
  unfold isMeasured
  rw [entry_without hi]
  by_cases hgone : i ∈ gone <;> simp [hgone, Except.map]

/-- The live qudits are at all positions of the state. -/
theorem livePositions_without (n : Nat) (gone : List Int) :
    (without n gone).livePositions = List.range (place gone n) := by
  have hpositions : (without n gone).positions.filterMap id = List.range (place gone n) := by
    unfold without
    dsimp only
    induction n with
    | zero => rfl
    | succ n ih =>
      rw [List.range_succ, List.map_append, List.filterMap_append, ih, place_succ]
      by_cases hn : (n : Int) ∈ gone
      · simp [hn]
      · simp [hn, List.range_succ]
  unfold livePositions
  rw [hpositions]
  refine List.mergeSort_of_pairwise (List.pairwise_le_range.imp fun h => ?_)
  exact decide_eq_true h

/-- Every live qudit is at a position below their number. -/
theorem lt_of_mem_livePositions {p : Nat} (h : p ∈ (without n gone).livePositions) :
    p < place gone n := by
  rw [livePositions_without] at h
  exact List.mem_range.mp h

/-- A position that is found is that of a live qudit. -/
theorem mem_livePositions_of_resolve {layout : Layout} {step : Option Json} {indices : List Int}
    {positions : List Nat} (h : layout.resolve (indices.map .int) step = .ok positions) :
    ∀ p ∈ positions, p ∈ layout.livePositions := by
  intro p hp
  obtain ⟨_, hmem, hresolve⟩ := (Fallible.mapM_eq_ok h).2 p hp
  obtain ⟨i, -, rfl⟩ := List.mem_map.mp hmem
  unfold livePositions
  rw [List.mem_mergeSort, List.mem_filterMap]
  unfold resolveOne at hresolve
  rw [entry_int] at hresolve
  split at hresolve
  · cases hresolve
  · next position hentry =>
    cases hresolve
    split at hentry
    · cases hentry
    · refine ⟨some p, ?_, rfl⟩
      injection hentry with hentry
      rw [← hentry, List.getD_eq_getElem?_getD]
      -- an entry that is none of the layout would have been refused
      cases hget : layout.positions[i.toNat]? with
      | none =>
        rw [List.getD_eq_getElem?_getD, hget] at hentry
        cases hentry
      | some found => exact List.mem_of_getElem? hget
  · cases hresolve

/-- The live qudits are all but the measured ones. -/
theorem place_add_length_measured (n : Nat) (gone : List Int) :
    place gone n + ((List.range n).filter fun q : Nat => (q : Int) ∈ gone).length = n := by
  induction n with
  | zero => simp [place_zero]
  | succ n ih =>
    rw [place_succ, List.range_succ, List.filter_append, List.length_append]
    by_cases hn : (n : Int) ∈ gone
    · simp only [hn, if_true, decide_true, List.filter_cons_of_pos, List.filter_nil,
        List.length_singleton]
      omega
    · simp only [hn, if_false, decide_false, Bool.false_eq_true, not_false_eq_true,
        List.filter_cons_of_neg, List.filter_nil, List.length_nil]
      omega

end Without

end Layout

end QuditSim
