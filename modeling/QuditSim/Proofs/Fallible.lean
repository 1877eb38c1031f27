import Mathlib.Data.List.Forall2
import Mathlib.Tactic.Common

/-!
# Computations that can fail

Facts about `Except` that read a success off its stages: a sequence succeeds just if each of its
stages does, and a guard succeeds just if its condition holds. Where the stages change a state as well,
a sequence goes on or ends from the state that its first stage left.
-/

namespace QuditSim.Fallible

variable {ε ε' α β : Type}

/-- A sequence succeeds just if its first stage does and the rest does with the value of it. -/
theorem bind_eq_ok {x : Except ε α} {f : α → Except ε β} {b : β} :
    (x >>= f) = .ok b ↔ ∃ a, x = .ok a ∧ f a = .ok b := by
  cases x <;> simp [bind, Except.bind]

/-- A sequence fails just if its first stage does, or the rest does with the value of it. -/
theorem bind_eq_error {x : Except ε α} {f : α → Except ε β} {e : ε} :
    (x >>= f) = .error e ↔ x = .error e ∨ ∃ a, x = .ok a ∧ f a = .error e := by
  cases x <;> simp [bind, Except.bind]

/-- The value of a stage that has none need not be looked for. -/
theorem exists_unit {p : Unit → Prop} : (∃ u, p u) ↔ p () := by
  constructor
  · rintro ⟨⟨⟩, h⟩
    exact h
  · exact fun h => ⟨(), h⟩

theorem pure_eq_ok {a b : α} : (pure a : Except ε α) = .ok b ↔ a = b := by
  simp [pure, Except.pure]

theorem throw_eq_ok {e : ε} {a : α} : (throw e : Except ε α) = .ok a ↔ False := by
  simp [throw, throwThe, MonadExceptOf.throw]

theorem map_eq_ok {x : Except ε α} {f : α → β} {b : β} :
    x.map f = .ok b ↔ ∃ a, x = .ok a ∧ f a = b := by
  cases x <;> simp [Except.map]

theorem map_eq_error {x : Except ε α} {f : α → β} {e : ε} :
    x.map f = .error e ↔ x = .error e := by
  cases x <;> simp [Except.map]

theorem mapError_eq_error {x : Except ε α} {f : ε → ε'} {e : ε'} :
    x.mapError f = .error e ↔ ∃ cause, x = .error cause ∧ e = f cause := by
  cases x <;> simp [Except.mapError, eq_comm]

theorem mapError_eq_ok {x : Except ε α} {f : ε → ε'} {a : α} :
    x.mapError f = .ok a ↔ x = .ok a := by
  cases x <;> simp [Except.mapError]

/-- A guard succeeds just if what it refuses is not the case. -/
theorem refuse_eq_ok {p : Prop} [Decidable p] {e : ε} {u : PUnit} :
    (if p then .error e else .ok u : Except ε PUnit) = .ok u ↔ ¬ p := by
  by_cases hp : p <;> simp [hp]

/-- A guard succeeds just if what it asks for is the case. -/
theorem require_eq_ok {p : Prop} [Decidable p] {e : ε} {u : PUnit} :
    (if p then .ok u else .error e : Except ε PUnit) = .ok u ↔ p := by
  by_cases hp : p <;> simp [hp]

/-- A sequence that begins with a guard succeeds just if what the guard refuses is not the case and
the rest succeeds. -/
theorem guard_eq_ok {p : Prop} [Decidable p] {e : ε} {f : α → Except ε β} {x : Except ε β} {b : β} :
    (if p then throw e >>= f else x) = .ok b ↔ ¬ p ∧ x = .ok b := by
  by_cases hp : p <;> simp [hp, throw, throwThe, MonadExceptOf.throw, bind, Except.bind]

/-- A list of stages succeeds just if the first one does and the others do. -/
theorem mapM_cons_eq_ok {f : α → Except ε β} {x : α} {xs : List α} {ys : List β} :
    (x :: xs).mapM f = .ok ys ↔ ∃ y rest, f x = .ok y ∧ xs.mapM f = .ok rest ∧ y :: rest = ys := by
  simp only [List.mapM_cons, bind_eq_ok, pure_eq_ok, exists_and_left]

/-- A list of stages fails just if one of them does behind others that succeed. -/
theorem mapM_eq_error {f : α → Except ε β} {xs : List α} {e : ε} :
    xs.mapM f = .error e ↔ ∃ before x behind, xs = before ++ x :: behind ∧
      (∀ y ∈ before, ∃ b, f y = .ok b) ∧ f x = .error e := by
  induction xs with
  | nil => simp [pure, Except.pure]
  | cons x xs ih =>
    rw [List.mapM_cons, bind_eq_error]
    constructor
    · rintro (hx | ⟨b, hb, hrest⟩)
      · exact ⟨[], x, xs, rfl, nofun, hx⟩
      · rcases bind_eq_error.mp hrest with hrest | ⟨_, -, hpure⟩
        · obtain ⟨before, y, behind, rfl, hbefore, hy⟩ := ih.mp hrest
          exact ⟨x :: before, y, behind, rfl, List.forall_mem_cons.mpr ⟨⟨b, hb⟩, hbefore⟩, hy⟩
        · cases hpure
    · rintro ⟨_ | ⟨y, before⟩, z, behind, heq, hbefore, hz⟩
      · cases heq
        exact .inl hz
      · cases heq
        obtain ⟨⟨b, hb⟩, hbefore⟩ := List.forall_mem_cons.mp hbefore
        refine .inr ⟨b, hb, bind_eq_error.mpr (.inl ?_)⟩
        exact ih.mpr ⟨before, z, behind, rfl, hbefore, hz⟩

/-- Stages that are made of items at their places succeed with what is known of the items. -/
theorem mapM_mapIdx_eq_ok {γ : Type} {f : Nat → α → β} {g : β → Except ε γ} {h : α → γ} {xs : List α}
    (hg : ∀ i, ∀ x ∈ xs, g (f i x) = .ok (h x)) : (xs.mapIdx f).mapM g = .ok (xs.map h) := by
  induction xs generalizing f with
  | nil => rfl
  | cons x xs ih =>
    rw [List.mapIdx_cons, mapM_cons_eq_ok]
    refine ⟨h x, xs.map h, hg 0 x List.mem_cons_self, ?_, rfl⟩
    exact ih fun i y hy => hg (i + 1) y (List.mem_cons_of_mem _ hy)

/-- The values of a list of stages that succeeds come of the stages in order. -/
theorem forall₂_of_mapM_eq_ok {f : α → Except ε β} {xs : List α} {ys : List β}
    (h : xs.mapM f = .ok ys) : List.Forall₂ (fun x y => f x = .ok y) xs ys := by
  induction xs generalizing ys with
  | nil =>
    cases h
    exact .nil
  | cons x xs ih =>
    obtain ⟨y, rest, hy, hrest, rfl⟩ := mapM_cons_eq_ok.mp h
    exact .cons hy (ih hrest)

/-- A list of stages that succeeds has one value for each stage, and each value comes of one. -/
theorem mapM_eq_ok {f : α → Except ε β} {xs : List α} {ys : List β} (h : xs.mapM f = .ok ys) :
    ys.length = xs.length ∧ ∀ y ∈ ys, ∃ x ∈ xs, f x = .ok y := by
  induction xs generalizing ys with
  | nil =>
    cases h
    exact ⟨rfl, fun y hy => nomatch hy⟩
  | cons x xs ih =>
    obtain ⟨y, rest, hy, hrest, rfl⟩ := mapM_cons_eq_ok.mp h
    obtain ⟨hlength, hmem⟩ := ih hrest
    refine ⟨by rw [List.length_cons, List.length_cons, hlength], fun z hz => ?_⟩
    rcases List.mem_cons.mp hz with rfl | hz
    · exact ⟨x, List.mem_cons_self, hy⟩
    · obtain ⟨x', hx', hz'⟩ := hmem z hz
      exact ⟨x', List.mem_cons_of_mem _ hx', hz'⟩

/-- A check that fails just if a search finds something succeeds just if there is nothing. -/
theorem search_eq_ok {xs : List α} {p : α → Bool} {check : Except ε Unit}
    (hsome : ∀ x, xs.find? p = some x → check ≠ .ok ())
    (hnone : xs.find? p = none → check = .ok ()) :
    check = .ok () ↔ ∀ x ∈ xs, p x = false := by
  cases h : xs.find? p with
  | none =>
    simp only [hnone h, true_iff]
    simpa using h
  | some x =>
    simp only [hsome x h, false_iff, not_forall, Bool.not_eq_false]
    exact ⟨x, List.mem_of_find?_eq_some h, List.find?_some h⟩

section Stateful

variable {σ : Type} {x : ExceptT ε (StateM σ) α} {f : α → ExceptT ε (StateM σ) β} {s s' : σ}

/-- A sequence goes on from where its first stage ended. -/
theorem run_bind_of_ok {a : α} (h : x.run.run s = (.ok a, s')) :
    (x >>= f).run.run s = (f a).run.run s' := by
  rw [ExceptT.run_bind, StateT.run_bind, h]
  rfl

/-- A sequence ends where its first stage failed. -/
theorem run_bind_of_error {e : ε} (h : x.run.run s = (.error e, s')) :
    (x >>= f).run.run s = (.error e, s') := by
  rw [ExceptT.run_bind, StateT.run_bind, h]
  rfl

end Stateful

end QuditSim.Fallible
