import Mathlib.Data.List.Infix
import QuditSim.Proofs.Engine.Layout

/-!
# Layouts under calls

Two calls change a layout: a qudit is retired, or all of them become live again. Either can come at
any time, and retiring is refused for what is no live qudit. What the layout then says depends only
on the qudits that were retired since the last reset (`Layout.Retired`).

- `Layout.call_without` is the step: a call, accepted or refused, leaves the layout without the
  qudits retired so far.
- `Layout.after_start` is the run over any calls.
- `Layout.shows_after` reads off it what the layout answers to every lookup.
-/

namespace QuditSim

namespace Layout

/-- A call that can change a layout. -/
inductive Call where
  /-- A qudit is retired, at a step. -/
  | retire (i : Argument) (step : Option Json)
  /-- Every qudit becomes live again. -/
  | reset

/-- The layout after a call, with the fault of a refused one. -/
def call (layout : Layout) : Call → Layout × Option LayoutFault
  | .retire i step =>
    match layout.retire i step with
    | .ok next => (next, none)
    | .error fault => (layout, some fault)
  | .reset => (layout.reset, none)

/-- The layout after calls, one after the other. -/
def after (layout : Layout) (calls : List Call) : Layout :=
  calls.foldl (fun layout next => (layout.call next).1) layout

/-- One of the calls retires a qudit, and no reset comes behind it. -/
def Retired (calls : List Call) (q : Int) : Prop :=
  ∃ i step behind, Call.retire i step :: behind <:+ calls ∧ i.index? = some q ∧ Call.reset ∉ behind

/-- The qudits that are named by retiring calls behind the last reset, in the order of the calls. -/
def retired (calls : List Call) : List Int :=
  calls.foldl (fun gone next =>
    match next with
    | .retire i _ => gone ++ i.index?.toList
    | .reset => []) []

theorem retired_append_retire (calls : List Call) (i : Argument) (step : Option Json) :
    retired (calls ++ [.retire i step]) = retired calls ++ i.index?.toList := by
  simp [retired]

theorem retired_append_reset (calls : List Call) : retired (calls ++ [.reset]) = [] := by
  simp [retired]

/-- What a call retires is retired, and what was retired before it stays so. -/
theorem retired_append_retire_iff {calls : List Call} {i : Argument} {step : Option Json} {q : Int} :
    Retired (calls ++ [.retire i step]) q ↔ Retired calls q ∨ i.index? = some q := by
  constructor
  · rintro ⟨i', step', behind, hsuffix, hindex, hreset⟩
    rcases List.suffix_concat_iff.mp hsuffix with hnil | ⟨before, hbefore, hrest⟩
    · cases hnil
    -- the retiring call is the last one, or it is one of the calls before
    · rcases before with _ | ⟨first, rest⟩
      · cases hbefore
        exact .inr hindex
      · cases hbefore
        refine .inl ⟨i', step', rest, hrest, hindex, fun hmem => hreset ?_⟩
        exact List.mem_append_left _ hmem
  · rintro (⟨i', step', behind, ⟨before, rfl⟩, hindex, hreset⟩ | hindex)
    · refine ⟨i', step', behind ++ [.retire i step], ⟨before, by simp⟩, hindex, ?_⟩
      simpa using hreset
    · exact ⟨i, step, [], List.suffix_append calls _, hindex, List.not_mem_nil⟩

/-- Nothing is retired right behind a reset. -/
theorem not_retired_append_reset (calls : List Call) (q : Int) :
    ¬ Retired (calls ++ [.reset]) q := by
  rintro ⟨i, step, behind, hsuffix, -, hreset⟩
  rcases List.suffix_concat_iff.mp hsuffix with hnil | ⟨before, hbefore, -⟩
  · cases hnil
  · rcases before with _ | ⟨first, rest⟩
    · cases hbefore
    · cases hbefore
      exact hreset (List.mem_append_right _ List.mem_cons_self)

theorem mem_retired {calls : List Call} {q : Int} : q ∈ retired calls ↔ Retired calls q := by
  -- the last call decides, so the calls are taken from their end
  induction calls using List.reverseRecOn with
  | nil =>
    refine ⟨fun hmem => (nomatch hmem), ?_⟩
    rintro ⟨i, step, behind, hsuffix, -⟩
    exact absurd (List.suffix_nil.mp hsuffix) (List.cons_ne_nil _ _)
  | append_singleton calls last ih =>
    cases last with
    | retire i step =>
      rw [retired_append_retire, List.mem_append, ih, retired_append_retire_iff, Option.mem_toList]
    | reset =>
      rw [retired_append_reset]
      exact ⟨fun hmem => (nomatch hmem), fun h => (not_retired_append_reset calls q h).elim⟩

instance (calls : List Call) (q : Int) : Decidable (Retired calls q) :=
  decidable_of_iff _ mem_retired

/-- The number of live qudits below one. -/
def liveBelow (calls : List Call) (q : Int) : Nat :=
  Nat.count (fun j : Nat => ¬ Retired calls j) q.toNat

/-- An argument is the index of a live qudit. -/
def Addresses (n : Nat) (calls : List Call) (i : Argument) (q : Int) : Prop :=
  i.index? = some q ∧ InRange n q ∧ ¬ Retired calls q

/-- The failure of an operation on an index of no live qudit: it is out of range, or it is that of
a retired qudit, and then the step is named. -/
structure Refuses (n : Nat) (operation : String) (step : Option Json) (i : Argument) (q : Int)
    (failure : Failure) : Prop where
  /-- The family tells an index out of range from one of a retired qudit. -/
  family_eq : failure.family = if InRange n q then .alreadyMeasured else .invalidIndex
  /-- The failure names the index, the operation and the step. -/
  failure_eq : failure =
    if InRange n q then ⟨.measured i, some (.string operation), step⟩
    else .inOperation operation (.quditRange none i n)

/-- What a layout of `n` qudits answers when calls were made. -/
structure Shows (n : Nat) (calls : List Call) (layout : Layout) : Prop where
  /-- A live qudit is at the number of live qudits below it, and a retired one is nowhere. -/
  position?_eq : ∀ (i : Argument) (q : Int), i.index? = some q → layout.position? i =
    if InRange n q then .ok (if Retired calls q then none else some (liveBelow calls q))
    else .error (.located (.inOperation "position" (.quditRange none i n)))
  /-- No two live qudits are at one position. -/
  position?_injective : ∀ (p q position : Nat), layout.position? (.nat p) = .ok (some position) →
    layout.position? (.nat q) = .ok (some position) → p = q
  /-- The positions of the live qudits are those from zero on. -/
  livePositions_eq : layout.livePositions = List.range layout.live.length
  /-- The measured qudits are the retired ones. -/
  mem_measured : ∀ q : Nat, q ∈ layout.measured ↔ q < n ∧ Retired calls q
  /-- The live qudits are the other ones. -/
  mem_live : ∀ q : Nat, q ∈ layout.live ↔ q < n ∧ ¬ Retired calls q
  /-- Measured and live qudits are all qudits, each of them once. -/
  partition : (layout.measured ++ layout.live).Perm (List.range n)
  /-- Measured qudits are listed in ascending order. -/
  measured_ascending : layout.measured.Pairwise (· < ·)
  /-- Live qudits are listed in ascending order. -/
  live_ascending : layout.live.Pairwise (· < ·)
  /-- Live qudits are found at their positions, in the given order. -/
  resolve_eq_ok : ∀ (indices : List Argument) (qudits : List Int) (step : Option Json),
    List.Forall₂ (Addresses n calls) indices qudits →
      layout.resolve indices step = .ok (qudits.map (liveBelow calls))
  /-- The first index of no live qudit decides how finding them fails. -/
  resolve_eq_error : ∀ (before : List Argument) (i : Argument) (behind : List Argument) (q : Int)
    (step : Option Json), (∀ j ∈ before, ∃ p, Addresses n calls j p) → i.index? = some q →
      ¬ (InRange n q ∧ ¬ Retired calls q) → ∃ failure, Refuses n "resolve" step i q failure ∧
        layout.resolve (before ++ i :: behind) step = .error (.located failure)
  /-- The index of a live qudit can be retired. -/
  call_accepted : ∀ (i : Argument) (q : Int) (step : Option Json), Addresses n calls i q →
    (layout.call (.retire i step)).2 = none
  /-- Retiring any other index is refused and changes nothing. -/
  call_refused : ∀ (i : Argument) (q : Int) (step : Option Json), i.index? = some q →
    ¬ (InRange n q ∧ ¬ Retired calls q) → ∃ failure, Refuses n "retire" step i q failure ∧
      layout.call (.retire i step) = (layout, some (.located failure))
  /-- Retiring what is no index is refused and changes nothing. -/
  call_wrongKind : ∀ (i : Argument) (step : Option Json), i.index? = none →
    ∃ fault, layout.call (.retire i step) = (layout, some fault)
  /-- Any calls that retire the same qudits lead to the layout. -/
  eq_after : ∀ calls' : List Call, (∀ q < n, Retired calls' (q : Nat) ↔ Retired calls (q : Nat)) →
    (start n).after calls' = layout

/-! ## Lookups -/

section Without

variable {n : Nat} {gone : List Int}

/-- Layouts without the same qudits are the same. -/
theorem without_congr {gone' : List Int} (h : ∀ q < n, (q : Int) ∈ gone ↔ (q : Int) ∈ gone') :
    without n gone = without n gone' := by
  refine congrArg mk (List.map_congr_left fun q hq => ?_)
  have hlt := List.mem_range.mp hq
  rw [place_congr fun j hj => h j (Nat.lt_trans hj hlt)]
  simp only [h q hlt]

/-- The entry of an argument that is an index. -/
theorem entry_without_of_index? {operation : String} {i : Argument} {q : Int}
    (hindex : i.index? = some q) :
    (without n gone).entry operation i =
      if InRange n q then .ok (if q ∈ gone then none else some (place gone q.toNat))
      else .error (.located (.inOperation operation (.quditRange none i n))) := by
  have hnumber : i.number? = some (.int q) := by
    cases i with
    | int value =>
      cases hindex
      rfl
    | truth value =>
      cases hindex
      rfl
    | float value => cases hindex
    | foreign text => cases hindex
  unfold entry
  rw [hnumber, hindex, size_without]
  by_cases hq : InRange n q
  · have hinside : ((Number.int q).below 0 || (Number.int q).atLeast n) = false := by
      obtain ⟨h0, hn⟩ := hq
      simp [h0, hn]
    simp only [hinside, Bool.false_eq_true, if_false, if_pos hq, getD_without hq.toNat_lt, hq.toNat_eq]
  · have houtside : ((Number.int q).below 0 || (Number.int q).atLeast n) = true := by
      unfold InRange at hq
      simp only [Number.below_int, Number.atLeast_int, Bool.or_eq_true, decide_eq_true_eq]
      omega
    simp only [houtside, if_true, if_neg hq]

/-- What is no index has no entry. -/
theorem exists_entry_eq_error (layout : Layout) (operation : String) {i : Argument}
    (hindex : i.index? = none) : ∃ fault, layout.entry operation i = .error fault := by
  unfold entry
  rw [hindex]
  split
  · exact ⟨_, rfl⟩
  · split
    · exact ⟨_, rfl⟩
    · exact ⟨_, rfl⟩

/-- The index of a live qudit is found at its position. -/
theorem resolveOne_without_of_index? {step : Option Json} {i : Argument} {q : Int}
    (hindex : i.index? = some q) (hq : InRange n q) (hlive : q ∉ gone) :
    (without n gone).resolveOne step i = .ok (place gone q.toNat) := by
  unfold resolveOne
  rw [entry_without_of_index? hindex, if_pos hq, if_neg hlive]

/-- The index of a live qudit can be retired. -/
theorem retire_without_of_index? {step : Option Json} {i : Argument} {q : Int}
    (hindex : i.index? = some q) (hq : InRange n q) (hlive : q ∉ gone) :
    (without n gone).retire i step = .ok (without n (gone ++ [q])) := by
  have hnat : (q.toNat : Int) ∉ gone := hq.toNat_not_mem hlive
  unfold retire
  rw [entry_without_of_index? hindex, if_pos hq, if_neg hlive, hindex]
  show Except.ok ((without n gone).drop q.toNat) = _
  rw [drop_without hnat, hq.toNat_eq]

/-- An index of no live qudit has no position, or it has no entry for the reason that refuses it. -/
theorem entry_without_refused (operation : String) (step : Option Json) {i : Argument} {q : Int}
    (hindex : i.index? = some q) (hlive : ¬ (InRange n q ∧ q ∉ gone)) :
    (without n gone).entry operation i = .ok none ∧
        Refuses n operation step i q ⟨.measured i, some (.string operation), step⟩ ∨
      ∃ failure, (without n gone).entry operation i = .error (.located failure) ∧
        Refuses n operation step i q failure := by
  rw [entry_without_of_index? hindex]
  by_cases hq : InRange n q
  · have hgone : q ∈ gone := of_not_not fun hnot => hlive ⟨hq, hnot⟩
    rw [if_pos hq, if_pos hgone]
    exact .inl ⟨rfl, by rw [if_pos hq]; rfl, by rw [if_pos hq]⟩
  · rw [if_neg hq]
    exact .inr ⟨_, rfl, by rw [if_neg hq]; rfl, by rw [if_neg hq]⟩

/-- An index of no live qudit is not found. -/
theorem resolveOne_without_refused (step : Option Json) {i : Argument} {q : Int}
    (hindex : i.index? = some q) (hlive : ¬ (InRange n q ∧ q ∉ gone)) :
    ∃ failure, Refuses n "resolve" step i q failure ∧
      (without n gone).resolveOne step i = .error (.located failure) := by
  unfold resolveOne
  rcases entry_without_refused "resolve" step hindex hlive with
    ⟨hentry, hrefuses⟩ | ⟨failure, hentry, hrefuses⟩
  · rw [hentry]
    exact ⟨_, hrefuses, rfl⟩
  · rw [hentry]
    exact ⟨failure, hrefuses, rfl⟩

/-- An index of no live qudit cannot be retired. -/
theorem retire_without_refused (step : Option Json) {i : Argument} {q : Int}
    (hindex : i.index? = some q) (hlive : ¬ (InRange n q ∧ q ∉ gone)) :
    ∃ failure, Refuses n "retire" step i q failure ∧
      (without n gone).retire i step = .error (.located failure) := by
  unfold retire
  rcases entry_without_refused "retire" step hindex hlive with
    ⟨hentry, hrefuses⟩ | ⟨failure, hentry, hrefuses⟩
  · rw [hentry]
    exact ⟨_, hrefuses, rfl⟩
  · rw [hentry]
    exact ⟨failure, hrefuses, rfl⟩

/-- What is no index cannot be retired. -/
theorem exists_retire_eq_error (layout : Layout) {i : Argument} (step : Option Json)
    (hindex : i.index? = none) : ∃ fault, layout.retire i step = .error fault := by
  obtain ⟨fault, hentry⟩ := layout.exists_entry_eq_error "retire" hindex
  refine ⟨fault, ?_⟩
  unfold retire
  rw [hentry]

end Without

/-! ## Calls -/

section Call

variable {layout : Layout} {i : Argument} {step : Option Json}

theorem call_of_retire_eq_ok {next : Layout} (h : layout.retire i step = .ok next) :
    layout.call (.retire i step) = (next, none) := by
  unfold call
  dsimp only
  rw [h]

theorem call_of_retire_eq_error {fault : LayoutFault} (h : layout.retire i step = .error fault) :
    layout.call (.retire i step) = (layout, some fault) := by
  unfold call
  dsimp only
  rw [h]

end Call

/-- A call, accepted or refused, leaves the layout without the qudits that were retired so far. -/
theorem call_without (n : Nat) (calls : List Call) (last : Call) :
    ((without n (retired calls)).call last).1 = without n (retired (calls ++ [last])) := by
  cases last with
  | reset =>
    rw [retired_append_reset, without_nil]
    unfold call reset
    rw [size_without]
  | retire i step =>
    rw [retired_append_retire]
    cases hindex : i.index? with
    | none =>
      obtain ⟨fault, hretire⟩ := exists_retire_eq_error (without n (retired calls)) step hindex
      rw [call_of_retire_eq_error hretire, Option.toList_none, List.append_nil]
    | some q =>
      rw [Option.toList_some]
      by_cases hlive : InRange n q ∧ q ∉ retired calls
      · rw [call_of_retire_eq_ok (retire_without_of_index? hindex hlive.1 hlive.2)]
      · obtain ⟨failure, -, hretire⟩ := retire_without_refused step hindex hlive
        rw [call_of_retire_eq_error hretire]
        -- the qudit named by a refused call is not one of the register, or it was retired before
        refine without_congr fun p hp => ?_
        rw [List.mem_append, List.mem_singleton]
        refine ⟨.inl, fun hmem => hmem.elim id ?_⟩
        rintro rfl
        have hrange : InRange n (p : Int) := ⟨Int.natCast_nonneg p, Int.ofNat_lt.mpr hp⟩
        exact of_not_not fun hnot => hlive ⟨hrange, hnot⟩

theorem after_append (layout : Layout) (calls : List Call) (last : Call) :
    layout.after (calls ++ [last]) = ((layout.after calls).call last).1 := by
  simp [after]

/-- Calls leave the layout without the qudits that they have retired. -/
theorem after_start (n : Nat) (calls : List Call) :
    (start n).after calls = without n (retired calls) := by
  induction calls using List.reverseRecOn with
  | nil => exact (without_nil n).symm
  | append_singleton calls last ih => rw [after_append, ih, call_without]

theorem place_retired (calls : List Call) (q : Int) :
    place (retired calls) q.toNat = liveBelow calls q := by
  unfold place liveBelow
  simp only [mem_retired]

/-- A position that is looked up is that of a live qudit of the register. -/
theorem place_of_position?_without {n p position : Nat} {gone : List Int}
    (h : (without n gone).position? (.nat p) = .ok (some position)) :
    (p : Int) ∉ gone ∧ place gone p = position := by
  have hindex : (Argument.nat p).index? = some (p : Int) := rfl
  unfold position? at h
  rw [entry_without_of_index? hindex] at h
  by_cases hp : InRange n (p : Int)
  · rw [if_pos hp] at h
    by_cases hgone : (p : Int) ∈ gone
    · rw [if_pos hgone] at h
      cases h
    · rw [if_neg hgone] at h
      cases h
      exact ⟨hgone, rfl⟩
  · rw [if_neg hp] at h
    cases h

/-- Indices of live qudits are found at the numbers of live qudits below them. -/
theorem resolve_retired {n : Nat} {calls : List Call} {indices : List Argument} {qudits : List Int}
    (step : Option Json) (h : List.Forall₂ (Addresses n calls) indices qudits) :
    (without n (retired calls)).resolve indices step = .ok (qudits.map (liveBelow calls)) := by
  unfold resolve
  induction h with
  | nil => rfl
  | cons hfirst _ ih =>
    obtain ⟨hindex, hq, hlive⟩ := hfirst
    rw [← mem_retired] at hlive
    refine Fallible.mapM_cons_eq_ok.mpr ⟨_, _, ?_, ih, rfl⟩
    rw [resolveOne_without_of_index? hindex hq hlive, place_retired]

/-- The lowest of three qudits leaves once, and the positions of the others move down once. -/
example :
    let layout := (start 3).after [.retire (.int 0) none, .retire (.int 0) none]
    layout.live = [1, 2] ∧ layout.positions = [none, some 0, some 1] := by
  decide

end Layout

end QuditSim
