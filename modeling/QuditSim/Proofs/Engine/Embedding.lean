import QuditSim.Proofs.Digits
import QuditSim.Proofs.Engine.Layout
import QuditSim.State.Apply

/-!
# The live register in the full one

When qudits are measured, the full register is left in the indices that have the digits found, and
the live register numbers these. `fullIndex` is the index of the full register for one of the live
register: the measured qudits have the digits found, and the live ones have those of the index of
the live register, in ascending order.

- `exists_fullIndex` and `fullIndex_injective`: the indices with the digits found are numbered.
- `fullIndex_append`: finding one more digit is putting it into the live index.
- `readDigits_fullIndex` and `fullIndex_placeDigits`: digits of live qudits are those at their
  places.
- `fullIndex_makeRoom`: making room at the places of several qudits puts back what their joint
  measurement took out, up to their digits.
-/

namespace QuditSim

open Layout

/-- Digits found at different qudits of a register. -/
structure Findings (d n : Nat) (found : List (Int × Nat)) : Prop where
  /-- No qudit was measured twice. -/
  nodup : (found.map Prod.fst).Nodup
  /-- The qudits are those of the register. -/
  inRange : ∀ f ∈ found, InRange n f.1
  /-- The digits are below the base. -/
  digit_lt : ∀ f ∈ found, f.2 < d

/-- An index has the digits found. -/
def Consistent (d : Nat) (found : List (Int × Nat)) (x : Nat) : Prop :=
  ∀ f ∈ found, digit d f.1.toNat x = f.2

/-- The index of the full register whose measured qudits have the digits found and whose live ones
have, in ascending order, the digits of an index of the live register. -/
def fullIndex (d n : Nat) (found : List (Int × Nat)) (y : Nat) : Nat :=
  ofDigits d n fun q => (found.lookup (q : Int)).getD (digit d (place (found.map Prod.fst) q) y)

/-- The digits that a joint measurement finds at its targets: they spell its outcome, the first one
most significant. -/
def spelled (d : Nat) : List Int → Nat → List (Int × Nat)
  | [], _ => []
  | t :: ts, j => (t, j / d ^ ts.length % d) :: spelled d ts j

variable {d n : Nat} {found : List (Int × Nat)}

/-! ## Digits of a full index -/

theorem lookup_of_mem (hnodup : (found.map Prod.fst).Nodup) {f : Int × Nat} (hf : f ∈ found) :
    found.lookup f.1 = some f.2 := by
  induction found with
  | nil => cases hf
  | cons g rest ih =>
    rw [List.map_cons, List.nodup_cons] at hnodup
    rcases List.mem_cons.mp hf with rfl | hmem
    · rw [List.lookup_cons_self]
    -- keys are different, so the lookup passes over the head
    · have hne : f.1 ≠ g.1 := fun heq => hnodup.1 (heq ▸ List.mem_map_of_mem hmem)
      rw [List.lookup_cons, beq_false_of_ne hne]
      exact ih hnodup.2 hmem

theorem lookup_of_not_mem {q : Int} (hq : q ∉ found.map Prod.fst) : found.lookup q = none := by
  rw [List.lookup_eq_none_iff]
  intro f hf
  have hne : q ≠ f.1 := fun heq => hq (heq ▸ List.mem_map_of_mem hf)
  simpa using hne

section Digits

variable (hd : 0 < d) (h : Findings d n found)

include hd h

theorem fullIndex_digit_lt (y : Nat) (q : Nat) :
    (found.lookup (q : Int)).getD (digit d (place (found.map Prod.fst) q) y) < d := by
  cases hlookup : found.lookup (q : Int) with
  | none => exact QuditSim.digit_lt hd _ _
  | some v =>
    obtain ⟨before, after, rfl, -⟩ := List.lookup_eq_some_iff.mp hlookup
    exact h.digit_lt ((q : Int), v) (List.mem_append_right _ List.mem_cons_self)

/-- The full index is one of the full register. -/
theorem fullIndex_lt (y : Nat) : fullIndex d n found y < d ^ n :=
  ofDigits_lt fun q _ => fullIndex_digit_lt hd h y q

/-- A live qudit has the digit at its place. -/
theorem digit_fullIndex_of_live {q : Nat} (hq : q < n) (hlive : (q : Int) ∉ found.map Prod.fst)
    (y : Nat) : digit d q (fullIndex d n found y) = digit d (place (found.map Prod.fst) q) y := by
  unfold fullIndex
  rw [digit_ofDigits (fun q _ => fullIndex_digit_lt hd h y q) hq, lookup_of_not_mem hlive]
  rfl

/-- A measured qudit has the digit found. -/
theorem digit_fullIndex_of_mem {f : Int × Nat} (hf : f ∈ found) (y : Nat) :
    digit d f.1.toNat (fullIndex d n found y) = f.2 := by
  have hrange := h.inRange f hf
  unfold fullIndex
  rw [digit_ofDigits (fun q _ => fullIndex_digit_lt hd h y q) hrange.toNat_lt, hrange.toNat_eq,
    lookup_of_mem h.nodup hf]
  rfl

/-- The full index has the digits found. -/
theorem consistent_fullIndex (y : Nat) : Consistent d found (fullIndex d n found y) :=
  fun _ hf => digit_fullIndex_of_mem hd h hf y

/-- An index with the digits found is a full index if its other digits are right. -/
theorem eq_fullIndex {x y : Nat} (hx : x < d ^ n) (hfound : Consistent d found x)
    (hlive : ∀ q < n, (q : Int) ∉ found.map Prod.fst →
      digit d q x = digit d (place (found.map Prod.fst) q) y) : x = fullIndex d n found y := by
  refine eq_of_digits hx (fullIndex_lt hd h y) fun q hq => ?_
  -- Digit by digit: a measured qudit has the digit found in both indices.
  by_cases hmem : (q : Int) ∈ found.map Prod.fst
  · obtain ⟨f, hf, heq⟩ := List.mem_map.mp hmem
    obtain rfl : q = f.1.toNat := by omega
    rw [hfound f hf, digit_fullIndex_of_mem hd h hf]
  · rw [hlive q hq hmem, digit_fullIndex_of_live hd h hq hmem]

end Digits

theorem Findings.nil (d n : Nat) : Findings d n [] :=
  ⟨List.Pairwise.nil, fun _ hf => (nomatch hf), fun _ hf => nomatch hf⟩

/-- Without measured qudits, the live register is the full one. -/
theorem fullIndex_nil (hd : 0 < d) {y : Nat} (hy : y < d ^ n) : fullIndex d n [] y = y := by
  refine (eq_fullIndex hd (.nil d n) hy (fun _ hf => nomatch hf) fun q _ _ => ?_).symm
  rw [List.map_nil, place_nil]

/-! ## One more digit -/

theorem Findings.of_append {found' : List (Int × Nat)} (h : Findings d n (found ++ found')) :
    Findings d n found where
  nodup := by
    have hnodup := h.nodup
    rw [List.map_append] at hnodup
    exact (List.nodup_append.mp hnodup).1
  inRange f hf := h.inRange f (List.mem_append_left _ hf)
  digit_lt f hf := h.digit_lt f (List.mem_append_left _ hf)

theorem Findings.live_of_append {found' : List (Int × Nat)}
    (h : Findings d n (found ++ found')) {q : Int} (hq : q ∈ found'.map Prod.fst) :
    q ∉ found.map Prod.fst := by
  have hnodup := h.nodup
  rw [List.map_append] at hnodup
  exact fun hmem => (List.nodup_append.mp hnodup).2.2 q hmem q hq rfl

theorem consistent_append {found' : List (Int × Nat)} {x : Nat} :
    Consistent d (found ++ found') x ↔ Consistent d found x ∧ Consistent d found' x := by
  unfold Consistent
  exact List.forall_mem_append

theorem keys_append (found : List (Int × Nat)) (q : Int) (v : Nat) :
    (found ++ [(q, v)]).map Prod.fst = found.map Prod.fst ++ [q] := by
  simp

/-- When one more digit is found, the live index had it at the place of its qudit. -/
theorem fullIndex_append {q : Int} {v : Nat} (h : Findings d n (found ++ [(q, v)])) (y : Nat) :
    fullIndex d n (found ++ [(q, v)]) y =
      fullIndex d n found (insertDigit d (place (found.map Prod.fst) q.toNat) v y) := by
  have hlast : (q, v) ∈ found ++ [(q, v)] := List.mem_append_right _ List.mem_cons_self
  have hq : InRange n q := h.inRange _ hlast
  have hv : v < d := h.digit_lt _ hlast
  have hd : 0 < d := Nat.lt_of_le_of_lt (Nat.zero_le _) hv
  have hold := h.of_append
  have hlive : q ∉ found.map Prod.fst := h.live_of_append List.mem_cons_self
  have hnat : (q.toNat : Int) ∉ found.map Prod.fst := hq.toNat_not_mem hlive
  -- The right side is shown to have the digits that the left one is defined by: those found
  -- before, the new one, and those of the qudits that stay live.
  symm
  refine eq_fullIndex hd h (fullIndex_lt hd hold _) ?_ fun r hr hrlive => ?_
  · rw [consistent_append]
    refine ⟨consistent_fullIndex hd hold _, fun f hf => ?_⟩
    obtain rfl : f = (q, v) := List.mem_singleton.mp hf
    rw [digit_fullIndex_of_live hd hold hq.toNat_lt hnat, digit_insertDigit _ _ hv]
  · rw [keys_append] at hrlive ⊢
    have hrold : (r : Int) ∉ found.map Prod.fst := fun hmem => hrlive (List.mem_append_left _ hmem)
    have hrne : r ≠ q.toNat := by
      rintro rfl
      refine hrlive (List.mem_append_right _ ?_)
      rw [hq.toNat_eq]
      exact List.mem_cons_self
    have happend := place_append hnat r
    rw [hq.toNat_eq] at happend
    rw [digit_fullIndex_of_live hd hold hr hrold, happend]
    -- the places of qudits above the new one move down by one, as their digits do
    rcases Nat.lt_or_gt_of_ne hrne with hlt | hgt
    · rw [digit_insertDigit_of_lt (place_lt hrold hlt), if_neg (by omega)]
    · rw [digit_insertDigit_of_gt (place_lt hnat hgt) hv, if_pos hgt]

/-- Every index with the digits found is a full index of the live register. -/
theorem exists_fullIndex (hd : 0 < d) (h : Findings d n found) {x : Nat} (hx : x < d ^ n)
    (hfound : Consistent d found x) :
    ∃ y < d ^ place (found.map Prod.fst) n, fullIndex d n found y = x := by
  -- Qudits are taken out one at a time, so the induction goes from the last one found.
  induction found using List.reverseRecOn with
  | nil =>
    rw [List.map_nil, place_nil]
    exact ⟨x, hx, fullIndex_nil hd hx⟩
  | append_singleton found f ih =>
    obtain ⟨q, v⟩ := f
    obtain ⟨hold, hlast⟩ := consistent_append.mp hfound
    have hq : InRange n q := h.inRange _ (List.mem_append_right _ List.mem_cons_self)
    have hlive : (q.toNat : Int) ∉ found.map Prod.fst :=
      hq.toNat_not_mem (h.live_of_append List.mem_cons_self)
    obtain ⟨y, hy, rfl⟩ := ih h.of_append hold
    have hdigit : digit d (place (found.map Prod.fst) q.toNat) y = v := by
      rw [← digit_fullIndex_of_live hd h.of_append hq.toNat_lt hlive y]
      exact hlast (q, v) List.mem_cons_self
    have hcount := place_append_add_one hlive hq.toNat_lt
    have hplace := place_lt hlive hq.toNat_lt
    rw [hq.toNat_eq] at hcount
    rw [← hcount] at hy
    -- what is left of the live index when the digit of the last qudit is taken out of it
    refine ⟨removeDigit d (place (found.map Prod.fst) q.toNat) y, ?_, ?_⟩
    · rw [keys_append]
      exact removeDigit_lt hd (by omega) hy
    · rw [fullIndex_append h, ← hdigit, insertDigit_removeDigit hd]

/-- Different live indices have different full ones. -/
theorem fullIndex_injective (hd : 0 < d) (h : Findings d n found) {y y' : Nat}
    (hy : y < d ^ place (found.map Prod.fst) n) (hy' : y' < d ^ place (found.map Prod.fst) n)
    (heq : fullIndex d n found y = fullIndex d n found y') : y = y' := by
  induction found using List.reverseRecOn generalizing y y' with
  | nil =>
    rw [List.map_nil, place_nil] at hy hy'
    rwa [fullIndex_nil hd hy, fullIndex_nil hd hy'] at heq
  | append_singleton found f ih =>
    obtain ⟨q, v⟩ := f
    have hlast : (q, v) ∈ found ++ [(q, v)] := List.mem_append_right _ List.mem_cons_self
    have hq : InRange n q := h.inRange _ hlast
    have hv : v < d := h.digit_lt _ hlast
    have hlive : (q.toNat : Int) ∉ found.map Prod.fst :=
      hq.toNat_not_mem (h.live_of_append List.mem_cons_self)
    have hcount := place_append_add_one hlive hq.toNat_lt
    have hplace := place_lt hlive hq.toNat_lt
    rw [hq.toNat_eq] at hcount
    rw [fullIndex_append h, fullIndex_append h] at heq
    -- the induction speaks of larger live indices, in which the last digit found was put back
    have hlarger {z : Nat} (hz : z < d ^ place ((found ++ [(q, v)]).map Prod.fst) n) :
        insertDigit d (place (found.map Prod.fst) q.toNat) v z <
          d ^ place (found.map Prod.fst) n := by
      rw [keys_append] at hz
      rw [← hcount]
      exact insertDigit_lt (by omega) hv hz
    have hinsert := ih h.of_append (hlarger hy) (hlarger hy') heq
    rw [← removeDigit_insertDigit (place (found.map Prod.fst) q.toNat) y hv, hinsert,
      removeDigit_insertDigit _ y' hv]

/-! ## Digits of live qudits -/

section Live

variable (hd : 0 < d) (h : Findings d n found)

include hd h

/-- Replacing the digit of a live qudit is replacing that at its place. -/
theorem fullIndex_replaceDigit {q v : Nat} (hq : q < n) (hlive : (q : Int) ∉ found.map Prod.fst)
    (hv : v < d) (y : Nat) :
    fullIndex d n found (replaceDigit d (place (found.map Prod.fst) q) v y) =
      replaceDigit d q v (fullIndex d n found y) := by
  symm
  refine eq_fullIndex hd h (replaceDigit_lt hq hv (fullIndex_lt hd h y)) (fun f hf => ?_)
    fun r hr hrlive => ?_
  -- a measured qudit is not the one whose digit is replaced
  · have hne : f.1.toNat ≠ q := by
      rintro rfl
      rw [(h.inRange f hf).toNat_eq] at hlive
      exact hlive (List.mem_map_of_mem hf)
    rw [digit_replaceDigit_of_ne hne hv, digit_fullIndex_of_mem hd h hf]
  · by_cases heq : r = q
    · subst heq
      rw [digit_replaceDigit _ _ hv, digit_replaceDigit _ _ hv]
    -- different live qudits have different places
    · have hne : place (found.map Prod.fst) r ≠ place (found.map Prod.fst) q :=
        fun hplace => heq (place_injective hrlive hlive hplace)
      rw [digit_replaceDigit_of_ne heq hv, digit_replaceDigit_of_ne hne hv,
        digit_fullIndex_of_live hd h hr hrlive]

variable {ts : List Int}

/-- Placing the digits of live qudits is placing those at their places. -/
theorem fullIndex_placeDigits (hrange : ∀ t ∈ ts, InRange n t)
    (hlive : ∀ t ∈ ts, t ∉ found.map Prod.fst) (b y : Nat) :
    fullIndex d n found
        (placeDigits d (ts.map fun t => place (found.map Prod.fst) t.toNat) b y) =
      placeDigits d (ts.map Int.toNat) b (fullIndex d n found y) := by
  induction ts generalizing y with
  | nil => rfl
  | cons t ts ih =>
    have ht := hrange t List.mem_cons_self
    have htlive : (t.toNat : Int) ∉ found.map Prod.fst :=
      ht.toNat_not_mem (hlive t List.mem_cons_self)
    simp only [List.map_cons, placeDigits_cons, List.length_map]
    rw [ih (fun t' ht' => hrange t' (List.mem_cons_of_mem _ ht'))
      (fun t' ht' => hlive t' (List.mem_cons_of_mem _ ht')),
      fullIndex_replaceDigit hd h ht.toNat_lt htlive (Nat.mod_lt _ hd)]

/-- Live qudits spell what their places spell. -/
theorem readDigits_fullIndex (hrange : ∀ t ∈ ts, InRange n t)
    (hlive : ∀ t ∈ ts, t ∉ found.map Prod.fst) (y : Nat) :
    readDigits d (ts.map Int.toNat) (fullIndex d n found y) =
      readDigits d (ts.map fun t => place (found.map Prod.fst) t.toNat) y := by
  induction ts with
  | nil => rfl
  | cons t ts ih =>
    have ht := hrange t List.mem_cons_self
    have htlive : (t.toNat : Int) ∉ found.map Prod.fst :=
      ht.toNat_not_mem (hlive t List.mem_cons_self)
    simp only [List.map_cons, readDigits_cons, List.length_map]
    rw [digit_fullIndex_of_live hd h ht.toNat_lt htlive,
      ih (fun t' ht' => hrange t' (List.mem_cons_of_mem _ ht'))
        fun t' ht' => hlive t' (List.mem_cons_of_mem _ ht')]

/-- Live controls have the common value that their places have. -/
theorem controlValue?_fullIndex (hrange : ∀ t ∈ ts, InRange n t)
    (hlive : ∀ t ∈ ts, t ∉ found.map Prod.fst) (y : Nat) :
    StateVector.controlValue? d (ts.map Int.toNat) (fullIndex d n found y) =
      StateVector.controlValue? d (ts.map fun t => place (found.map Prod.fst) t.toNat) y := by
  have hdigit : ∀ t ∈ ts, digit d t.toNat (fullIndex d n found y) =
      digit d (place (found.map Prod.fst) t.toNat) y := by
    intro t ht
    exact digit_fullIndex_of_live hd h (hrange t ht).toNat_lt
      ((hrange t ht).toNat_not_mem (hlive t ht)) y
  -- the common value is that of the first control, if all others have it
  cases ts with
  | nil => rfl
  | cons t ts =>
    have hall : (ts.all fun t' => digit d t'.toNat (fullIndex d n found y) ==
          digit d t.toNat (fullIndex d n found y)) =
        ts.all fun t' => digit d (place (found.map Prod.fst) t'.toNat) y ==
          digit d (place (found.map Prod.fst) t.toNat) y := by
      rw [Bool.eq_iff_iff, List.all_eq_true, List.all_eq_true]
      refine forall₂_congr fun t' ht' => ?_
      rw [hdigit t List.mem_cons_self, hdigit t' (List.mem_cons_of_mem _ ht')]
    unfold StateVector.controlValue?
    simp only [List.map_cons, List.all_map, Function.comp_def]
    rw [hall, hdigit t List.mem_cons_self]

end Live

/-! ## The digits of an outcome -/

theorem keys_spelled (ts : List Int) (j : Nat) : (spelled d ts j).map Prod.fst = ts := by
  induction ts with
  | nil => rfl
  | cons t ts ih => rw [spelled, List.map_cons, ih]

/-- One target spells one digit. -/
theorem spelled_singleton (q : Int) {v : Nat} (hv : v < d) : spelled d [q] v = [(q, v)] := by
  rw [spelled, spelled, List.length_nil, Nat.pow_zero, Nat.div_one, Nat.mod_eq_of_lt hv]

/-- Spelled digits are there just if the targets spell the outcome. -/
theorem consistent_spelled (hd : 0 < d) {ts : List Int} {j x : Nat} :
    Consistent d (spelled d ts j) x ↔ readDigits d (ts.map Int.toNat) x = j % d ^ ts.length := by
  induction ts with
  | nil =>
    rw [List.map_nil, readDigits_nil, List.length_nil, Nat.pow_zero, Nat.mod_one]
    exact ⟨fun _ => rfl, fun _ _ hf => nomatch hf⟩
  | cons t ts ih =>
    have hcons := readDigits_cons_eq_iff hd (ts.map Int.toNat) t.toNat x j
    rw [List.length_map] at hcons
    rw [List.map_cons, List.length_cons, hcons, ← ih]
    exact List.forall_mem_cons

/-- The digits of a joint outcome are findings at targets that were live. -/
theorem Findings.append_spelled (hd : 0 < d) (h : Findings d n found) {ts : List Int}
    (hts : TargetList n ts) (hlive : ∀ t ∈ ts, t ∉ found.map Prod.fst) (j : Nat) :
    Findings d n (found ++ spelled d ts j) where
  nodup := by
    rw [List.map_append, keys_spelled, List.nodup_append]
    exact ⟨h.nodup, hts.nodup, fun a ha b hb heq => hlive b hb (heq ▸ ha)⟩
  inRange f hf := by
    rcases List.mem_append.mp hf with hold | hnew
    · exact h.inRange f hold
    · refine hts.inRange f.1 ?_
      rw [← keys_spelled (d := d) ts j]
      exact List.mem_map_of_mem hnew
  digit_lt f hf := by
    rcases List.mem_append.mp hf with hold | hnew
    · exact h.digit_lt f hold
    -- each digit spelled is a remainder by the base
    · clear hf hlive hts
      induction ts with
      | nil => cases hnew
      | cons t ts ih =>
        rcases List.mem_cons.mp hnew with rfl | hmem
        · exact Nat.mod_lt _ hd
        · exact ih hmem

/-! ## Room for several digits -/

/-- The live qudits among the live ones: those of a list leave at their places. -/
theorem place_append_map {gone ts : List Int} (hrange : ∀ t ∈ ts, InRange n t)
    (hlive : ∀ t ∈ ts, t ∉ gone) (q : Nat) :
    place (gone ++ ts) q = place (ts.map fun t => (place gone t.toNat : Int)) (place gone q) := by
  induction q with
  | zero => rw [place_zero, place_zero, place_zero]
  | succ q ih =>
    rw [place_succ, place_succ gone, ih]
    by_cases hq : (q : Int) ∈ gone
    · rw [if_pos (List.mem_append_left _ hq), if_pos hq]
      rfl
    · have hmem : (place gone q : Int) ∈ ts.map (fun t => (place gone t.toNat : Int)) ↔
          (q : Int) ∈ ts := by
        rw [List.mem_map]
        constructor
        · rintro ⟨t, ht, heq⟩
          have htlive := (hrange t ht).toNat_not_mem (hlive t ht)
          have hsame := place_injective htlive hq (Int.ofNat_inj.mp heq)
          rwa [← hsame, (hrange t ht).toNat_eq]
        · exact fun hts => ⟨q, hts, rfl⟩
      -- a live qudit is counted on both sides just if it is not in the list
      rw [if_neg hq, place_succ]
      simp only [List.mem_append, hq, false_or, hmem]

/-- Below the items of a list, each place is its own. -/
theorem place_of_forall_le {gone : List Int} {q : Nat} (h : ∀ g ∈ gone, (q : Int) ≤ g) :
    place gone q = q := by
  have hnone : ∀ i < q, (i : Int) ∈ gone ↔ (i : Int) ∈ [] := by
    intro i hi
    refine ⟨fun hmem => ?_, fun hmem => nomatch hmem⟩
    have hle := h i hmem
    omega
  rw [place_congr hnone, place_nil]

/-- Where no room was made, an index has the digit of the place. -/
theorem digit_makeRoom {ps : List Nat} (hd : 0 < d) (hps : ps.Pairwise (· < ·)) {q : Nat}
    (hq : q ∉ ps) (y : Nat) :
    digit d q (makeRoom d ps y) = digit d (place (ps.map Int.ofNat) q) y := by
  induction ps generalizing y with
  | nil => rw [List.map_nil, place_nil, makeRoom, List.foldl_nil]
  | cons p ps ih =>
    obtain ⟨hne, hrest⟩ := List.ne_and_not_mem_of_not_mem_cons hq
    obtain ⟨hfirst, hsorted⟩ := List.pairwise_cons.mp hps
    -- The list ascends, so the rooms that are made after that at `p` are above it and leave the
    -- digits below alone.
    have hlater {i : Nat} (hi : i ≤ p) : place (ps.map Int.ofNat) i = i := by
      refine place_of_forall_le fun g hg => ?_
      obtain ⟨r, hr, rfl⟩ := List.mem_map.mp hg
      exact Int.ofNat_le.mpr (Nat.le_trans hi (Nat.le_of_lt (hfirst r hr)))
    have hp : (p : Int) ∉ ps.map Int.ofNat := by
      rw [List.mem_map]
      rintro ⟨r, hr, heq⟩
      exact Nat.ne_of_gt (hfirst r hr) (Int.ofNat_inj.mp heq)
    -- room at one position more moves the places above it by one
    have hmove : place ((p :: ps).map Int.ofNat) q =
        if p < q then place (ps.map Int.ofNat) q - 1 else place (ps.map Int.ofNat) q := by
      rw [← place_append hp]
      refine place_congr fun i _ => ?_
      rw [List.map_cons, List.mem_cons, List.mem_append, List.mem_singleton, or_comm]
      rfl
    show digit d q (makeRoom d ps (insertDigit d p 0 y)) = _
    rw [ih hsorted hrest, hmove]
    rcases Nat.lt_or_gt_of_ne hne with hlt | hgt
    · rw [hlater (Nat.le_of_lt hlt), if_neg (by omega), digit_insertDigit_of_lt hlt]
    · have hplace := place_lt hp hgt
      rw [hlater (Nat.le_refl p)] at hplace
      rw [if_pos hgt, digit_insertDigit_of_gt hplace hd]

theorem mem_ascending {m p : Nat} {ps : List Nat} : p ∈ ascending m ps ↔ p < m ∧ p ∈ ps := by
  simp [ascending]

theorem pairwise_ascending (m : Nat) (ps : List Nat) : (ascending m ps).Pairwise (· < ·) :=
  List.pairwise_lt_range.filter _

/-- There are as many ascending positions as different ones in a list. -/
theorem length_ascending {m : Nat} {ps : List Nat} (hps : ∀ p ∈ ps, p < m) (hnodup : ps.Nodup) :
    (ascending m ps).length = ps.length := by
  refine ((List.perm_ext_iff_of_nodup ?_ hnodup).mpr fun p => ?_).length_eq
  · exact (pairwise_ascending m ps).imp Nat.ne_of_lt
  · rw [mem_ascending]
    exact ⟨And.right, fun hp => ⟨hps p hp, hp⟩⟩

/-- Below an ascending list of positions there is room for the rest of the register. -/
theorem add_length_le {m p : Nat} {ps : List Nat} (hsorted : (p :: ps).Pairwise (· < ·))
    (hps : ∀ r ∈ p :: ps, r < m) : p + (ps.length + 1) ≤ m := by
  induction ps generalizing p with
  | nil => exact hps p List.mem_cons_self
  | cons r ps ih =>
    obtain ⟨hfirst, hrest⟩ := List.pairwise_cons.mp hsorted
    have hle := ih hrest fun r' hr' => hps r' (List.mem_cons_of_mem _ hr')
    have hlt := hfirst r List.mem_cons_self
    rw [List.length_cons]
    omega

/-- Making room for some digits makes an index that much larger. -/
theorem makeRoom_lt (hd : 0 < d) {m r y : Nat} {ps : List Nat} (hsorted : ps.Pairwise (· < ·))
    (hps : ∀ p ∈ ps, p < m) (hm : r + ps.length = m) (hy : y < d ^ r) :
    makeRoom d ps y < d ^ m := by
  induction ps generalizing r y with
  | nil =>
    rw [List.length_nil, Nat.add_zero] at hm
    rwa [makeRoom, List.foldl_nil, ← hm]
  | cons p ps ih =>
    have hle := add_length_le hsorted hps
    rw [List.length_cons] at hm
    show makeRoom d ps (insertDigit d p 0 y) < d ^ m
    refine ih (List.pairwise_cons.mp hsorted).2 (fun p' hp' => hps p' (List.mem_cons_of_mem _ hp'))
      (r := r + 1) (by omega) ?_
    exact insertDigit_lt (by omega) hd hy

/-- What was found jointly at live qudits is put back by making room at their places, up to the
digits of these qudits. -/
theorem fullIndex_makeRoom (hd : 0 < d) (h : Findings d n found) {ts : List Int}
    (hts : TargetList n ts) (hlive : ∀ t ∈ ts, t ∉ found.map Prod.fst) (j b y : Nat) :
    let places := ts.map fun t => place (found.map Prod.fst) t.toNat
    fullIndex d n found (placeDigits d places b
        (makeRoom d (ascending (place (found.map Prod.fst) n) places) y)) =
      placeDigits d (ts.map Int.toNat) b (fullIndex d n (found ++ spelled d ts j) y) := by
  intro places
  have hnew := h.append_spelled hd hts hlive j
  have hinside : ∀ p ∈ ts.map Int.toNat, p < n := by
    intro p hp
    obtain ⟨t, ht, rfl⟩ := List.mem_map.mp hp
    exact (hts.inRange t ht).toNat_lt
  rw [fullIndex_placeDigits hd h hts.inRange hlive]
  -- the digits of the targets are overwritten, and every other qudit has the same one
  refine eq_of_digits (placeDigits_lt hd hinside (fullIndex_lt hd h _) b)
    (placeDigits_lt hd hinside (fullIndex_lt hd hnew y) b) fun q hq => ?_
  refine digit_placeDigits_congr hd b ?_
  by_cases hqts : (q : Int) ∈ ts
  · exact .inl (List.mem_map.mpr ⟨q, hqts, rfl⟩)
  · right
    by_cases hmem : (q : Int) ∈ found.map Prod.fst
    · obtain ⟨f, hf, heq⟩ := List.mem_map.mp hmem
      obtain rfl : q = f.1.toNat := by omega
      rw [digit_fullIndex_of_mem hd h hf,
        digit_fullIndex_of_mem hd hnew (List.mem_append_left _ hf)]
    · have hqlive : (q : Int) ∉ (found ++ spelled d ts j).map Prod.fst := by
        rw [List.map_append, keys_spelled, List.mem_append]
        exact not_or.mpr ⟨hmem, hqts⟩
      have hplace : place (found.map Prod.fst) q < place (found.map Prod.fst) n := place_lt hmem hq
      have hroom : place (found.map Prod.fst) q ∉
          ascending (place (found.map Prod.fst) n) places := by
        rw [mem_ascending]
        rintro ⟨-, hin⟩
        obtain ⟨t, ht, heq⟩ := List.mem_map.mp hin
        have hsame := place_injective ((hts.inRange t ht).toNat_not_mem (hlive t ht)) hmem heq
        exact hqts (by rwa [← hsame, (hts.inRange t ht).toNat_eq])
      rw [digit_fullIndex_of_live hd h hq hmem, digit_fullIndex_of_live hd hnew hq hqlive,
        digit_makeRoom hd (pairwise_ascending _ _) hroom, List.map_append, keys_spelled,
        place_append_map hts.inRange hlive]
      congr 1
      refine place_congr fun i hi => ?_
      simp only [List.mem_map, mem_ascending, places]
      constructor
      · rintro ⟨p, ⟨-, t, ht, rfl⟩, heq⟩
        exact ⟨t, ht, heq⟩
      · rintro ⟨t, ht, heq⟩
        exact ⟨i, ⟨Nat.lt_trans hi hplace, t, ht, Int.ofNat_inj.mp heq⟩, rfl⟩

end QuditSim
