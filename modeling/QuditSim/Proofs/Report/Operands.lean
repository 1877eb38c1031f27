import Mathlib.Data.List.Basic
import Mathlib.Tactic.Common
import QuditSim.Proofs.Fallible
import QuditSim.Report.Circuit
import QuditSim.Report.Rebuild

/-!
# Operators written and read

Reading an operator back from the object that holds it gives the same operator, entry by entry and
sign by sign of its zeros. Only the extents can stand in the way: they are read as words of 64 bits.
Different keys are written differently, so a whole table of operators is read back as well.

- `Json.tensor_floats`: a list of doubles is read as the vector of them.
- `Operator.decode_encoded`: decoding undoes encoding.
- `operandId_injective`: a key can be read off the text that is written for it.
- `Report.readOperands_encoded` and `Report.lookup_encoded`: a table that was written is read, and
  finds under the text of a key what the table has under the key.
-/

namespace QuditSim

open Fallible

/-! ## Parts -/

namespace Json

theorem extents_floats (xs : List Float) :
    (Json.array (xs.map Json.float)).extents = .ok [xs.length] := by
  cases xs with
  | nil => rfl
  | cons x xs =>
    show (extents (Json.float x)).map ((((x :: xs).map Json.float).length) :: ·) = _
    rw [List.length_map]
    rfl

theorem mapM_floats (xs : List Float) :
    (xs.map Json.float).mapM (flatten floatEntry []) = .ok (xs.map ([·])) := by
  induction xs with
  | nil => rfl
  | cons x xs ih =>
    rw [List.map_cons, List.mapM_cons, ih]
    rfl

/-- A list of doubles is read as the vector of them. -/
theorem tensor_floats (xs : List Float) :
    (Json.array (xs.map Json.float)).tensor floatEntry = .ok (.vector xs.toArray) := by
  have hflatten : flatten floatEntry [xs.length] (Json.array (xs.map Json.float)) = .ok xs := by
    show (if (xs.map Json.float).length ≠ xs.length then _ else _) = _
    rw [if_neg (by simp), mapM_floats]
    show Except.ok (xs.map ([·])).flatten = _
    rw [← List.flatMap_def, List.flatMap_singleton']
  have hmake : Tensor.ofArray? [xs.length] xs.toArray = some (.vector xs.toArray) :=
    dif_pos (by simp)
  have hrank : ¬ rankLimit < [xs.length].length := show ¬ 128 < 1 by decide
  unfold tensor
  simp only [extents_floats, bind_eq_ok, Except.ok.injEq, exists_eq_left', if_neg hrank]
  split
  · next hprod =>
    -- there is nothing to read in a list without items
    rw [List.prod_singleton, List.length_eq_zero_iff] at hprod
    subst hprod
    rfl
  · rw [bind_eq_ok]
    exact ⟨xs, hflatten, by rw [hmake]; rfl⟩

end Json

namespace Operator

theorem part_floats (xs : List Float) :
    part (.array (xs.map Json.float)) = .ok (.vector xs.toArray) := by
  unfold part
  rw [Json.tensor_floats]
  rfl

/-! ## Parts laid over each other -/

/-- A place of a vector stays where it is when another vector of its length is laid over it. -/
theorem underlying_vector {n i : Nat} (h : i < n) : underlying [n] [n] i = i := by
  show (if n = 1 then 0 else i / 1) * 1 + 0 = i
  split
  · omega
  · omega

/-- The parts of amplitudes are laid over each other place by place. -/
theorem ofParts_vector (zs : Array (Amplitude Float)) :
    ofParts (.vector (zs.map Amplitude.re)) (.vector (zs.map Amplitude.im)) = .ok (.vector zs) := by
  have hoverlay : overlay [zs.size] [zs.size] = some [zs.size] := by simp [overlay]
  unfold ofParts
  simp only [Tensor.rank, Tensor.shape_vector, Array.size_map, List.length_singleton, padded,
    Nat.max_self, Nat.sub_self, List.replicate_zero, List.nil_append, hoverlay, Except.ok.injEq]
  refine Tensor.ext rfl (Array.ext (by simp [Tensor.ofFn, Tensor.vector]) fun i _ hi => ?_)
  have hi : i < zs.size := hi
  simp [Tensor.ofFn, Tensor.vector, underlying_vector hi, hi]

/-! ## Extents -/

theorem wordExtent_of_lt {n : Nat} (h : n < 2 ^ 63) : wordExtent n = .ok n := by
  have hword : isWord n = true := by
    unfold isWord
    simp only [Bool.and_eq_true, decide_eq_true_eq]
    omega
  unfold wordExtent
  rw [if_pos hword]

/-- Extents that words hold are fitted to as many entries as they need. -/
theorem fittedExtents_natCast (shape : List Nat) :
    fittedExtents (shape.map Nat.cast) shape.prod = .ok shape := by
  have hsmall : (shape.map (Nat.cast : Nat → Int)).any (· < -1) = false := by
    simp
  have hcount : (shape.map (Nat.cast : Nat → Int)).count (-1) = 0 := by
    rw [List.count_eq_zero]
    simp
  have hknown : ((shape.map (Nat.cast : Nat → Int)).filter (· ≠ -1)).map Int.toNat = shape := by
    rw [List.filter_eq_self.mpr (by simp), List.map_map]
    exact List.map_id'' Int.toNat_natCast shape
  unfold fittedExtents
  simp only [hsmall, hcount, hknown, Bool.false_eq_true, if_false, if_true]

theorem givenExtents_square {n : Nat} (h : n < 2 ^ 63) :
    givenExtents (.array ([n, n].map Json.nat)) = .ok [(n : Int), (n : Int)] := by
  show (do return (← wordExtent n) :: (← [Json.nat n].mapM laterExtent)) = _
  have hlater : [Json.nat n].mapM laterExtent = .ok [(n : Int)] := by
    rw [List.mapM_cons]
    show (wordExtent n >>= _) = _
    rw [wordExtent_of_lt h]
    rfl
  rw [wordExtent_of_lt h, hlater]
  rfl

/-- Decoding undoes encoding, for a square matrix whose extents words of 64 bits hold. -/
theorem decode_encoded {op : Operator Float} {n : Nat} (hshape : op.shape = [n, n])
    (hn : n < 2 ^ 63) : decode op.encoded = .ok op := by
  have hpart : ∀ f : Amplitude Float → Float,
      part (.array (op.entries.toList.map fun z => Json.float (f z))) =
        .ok (.vector (op.entries.map f)) := by
    intro f
    have hvector : (op.entries.toList.map f).toArray = op.entries.map f := by
      rw [← Array.toList_map, Array.toArray_toList]
    have hfloats := part_floats (op.entries.toList.map f)
    rw [List.map_map, hvector] at hfloats
    exact hfloats
  have hgiven : givenExtents (.array (op.shape.map Json.nat)) = .ok (op.shape.map Nat.cast) := by
    rw [hshape]
    exact givenExtents_square hn
  have hfitted : fittedExtents (op.shape.map Nat.cast) op.entries.size = .ok op.shape := by
    rw [op.size_entries]
    exact fittedExtents_natCast op.shape
  have hmake : Tensor.ofArray? op.shape (Tensor.vector op.entries).entries = some op :=
    dif_pos op.size_entries
  have hreshaped : reshaped (.vector op.entries) (.array (op.shape.map Json.nat)) = .ok op := by
    unfold reshaped
    simp only [bind_eq_ok, hgiven, Except.ok.injEq, exists_eq_left']
    refine ⟨op.shape, hfitted, ?_⟩
    rw [hmake]
    rfl
  -- the parts are read, laid over each other, and given the extents of the operator
  unfold decode
  rw [bind_eq_ok]
  refine ⟨_, hpart Amplitude.re, ?_⟩
  rw [bind_eq_ok]
  refine ⟨_, hpart Amplitude.im, ?_⟩
  rw [bind_eq_ok]
  exact ⟨_, ofParts_vector op.entries, hreshaped⟩

end Operator

/-! ## Keys -/

namespace Text

/-- The number that hexadecimal digits spell. -/
def spelled (digits : List Char) (n : Nat) : Nat :=
  digits.foldl (fun n c => 16 * n + (hexadecimalDigit? c).getD 0) n

theorem spelled_append (first rest : List Char) (n : Nat) :
    spelled (first ++ rest) n = spelled rest (spelled first n) :=
  List.foldl_append

theorem spelled_zeros (count : Nat) : spelled (List.replicate count '0') 0 = 0 := by
  induction count with
  | zero => rfl
  | succ count ih => exact ih

theorem spelled_digitChar {d : Nat} (h : d < 16) (n : Nat) :
    spelled [d.digitChar] n = 16 * n + d := by
  have hdigit : ∀ d < 16, (hexadecimalDigit? d.digitChar).getD 0 = d := by decide
  show 16 * n + (hexadecimalDigit? d.digitChar).getD 0 = _
  rw [hdigit d h]

/-- The digits of a number spell it. -/
theorem spelled_toDigits (n : Nat) : spelled (Nat.toDigits 16 n) 0 = n := by
  induction n using Nat.strongRecOn with
  | ind n ih =>
    by_cases h : n < 16
    · rw [Nat.toDigits_of_lt_base h, spelled_digitChar h, Nat.mul_zero, Nat.zero_add]
    · rw [Nat.toDigits_of_base_le (by decide) (by omega), spelled_append, ih _ (by omega),
        spelled_digitChar (by omega)]
      omega

theorem spelled_hexadecimal (n width : Nat) : spelled (hexadecimal n width).toList 0 = n := by
  unfold hexadecimal
  dsimp only
  rw [String.toList_ofList, spelled_append, spelled_zeros, spelled_toDigits]

theorem digitChar_ne_minus {n : Nat} : ∀ c ∈ Nat.toDigits 16 n, c ≠ '-' := by
  induction n using Nat.strongRecOn with
  | ind n ih =>
    have hdigit : ∀ d < 16, d.digitChar ≠ '-' := by decide
    by_cases h : n < 16
    · rw [Nat.toDigits_of_lt_base h]
      simp [hdigit n h]
    · rw [Nat.toDigits_of_base_le (by decide) (by omega)]
      intro c hc
      rcases List.mem_append.mp hc with hc | hc
      · exact ih _ (by omega) c hc
      · rw [List.mem_singleton.mp hc]
        exact hdigit _ (by omega)

theorem hexadecimal_ne_minus (n width : Nat) (rest : List Char) :
    (hexadecimal n width).toList ≠ '-' :: rest := by
  unfold hexadecimal
  dsimp only
  rw [String.toList_ofList]
  intro h
  have hmem : '-' ∈ List.replicate (width - (Nat.toDigits 16 n).length) '0' ++ Nat.toDigits 16 n := by
    rw [h]
    exact List.mem_cons_self
  rcases List.mem_append.mp hmem with hmem | hmem
  · exact absurd (List.eq_of_mem_replicate hmem) (by decide)
  · exact digitChar_ne_minus _ hmem rfl

/-- An integer can be read off its digits and its sign. -/
theorem signedHexadecimal_injective (width : Nat) :
    Function.Injective fun n => signedHexadecimal n width := by
  intro m n h
  have h := congrArg String.toList h
  simp only [signedHexadecimal] at h
  -- the texts of numbers with different signs are told apart by the sign in front
  by_cases hm : m < 0 <;> by_cases hn : n < 0
  · rw [if_pos hm, if_pos hn, String.toList_append, String.toList_append] at h
    have habs := congrArg (spelled · 0) (List.append_cancel_left h)
    simp only [spelled_hexadecimal] at habs
    omega
  · rw [if_pos hm, if_neg hn, String.toList_append] at h
    exact absurd h.symm (hexadecimal_ne_minus _ _ _)
  · rw [if_neg hm, if_pos hn, String.toList_append] at h
    exact absurd h (hexadecimal_ne_minus _ _ _)
  · rw [if_neg hm, if_neg hn] at h
    have habs := congrArg (spelled · 0) h
    simp only [spelled_hexadecimal] at habs
    omega

end Text

theorem operandId_injective : Function.Injective operandId :=
  Text.signedHexadecimal_injective 16

/-! ## Tables -/

namespace Report

variable {table : OperandTable Float}

/-- A table of operators that can be decoded is read as it was written. -/
theorem readOperands_encoded {entries : List (Int × Operator Float)}
    (h : ∀ entry ∈ entries, Operator.decode entry.2.encoded = .ok entry.2) :
    readOperands (entries.map fun (key, op) => (operandId key, op.encoded)) =
      .ok (entries.map fun (key, op) => (operandId key, op)) := by
  induction entries with
  | nil => rfl
  | cons entry entries ih =>
    obtain ⟨hentry, hrest⟩ := List.forall_mem_cons.mp h
    unfold readOperands at ih ⊢
    rw [List.map_cons, List.mapM_cons, bind_eq_ok]
    refine ⟨(operandId entry.1, entry.2), ?_, ?_⟩
    · dsimp only
      rw [hentry]
    · rw [ih hrest]
      rfl

/-- Under the text of a key there is what the table has under the key. -/
theorem lookup_encoded (entries : List (Int × Operator Float)) (key : Int) :
    (entries.map fun (key, op) => (operandId key, op)).lookup (operandId key) =
      entries.lookup key := by
  induction entries with
  | nil => rfl
  | cons entry entries ih =>
    obtain ⟨known, op⟩ := entry
    rw [List.map_cons, List.lookup_cons, List.lookup_cons, ih]
    by_cases hkey : key = known
    · subst hkey
      simp
    · have hid : operandId key ≠ operandId known := fun hid => hkey (operandId_injective hid)
      rw [beq_false_of_ne hkey, beq_false_of_ne hid]

end Report

end QuditSim
