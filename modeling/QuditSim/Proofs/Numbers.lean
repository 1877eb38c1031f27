import Mathlib.Tactic.Common
import QuditSim.Number

/-!
# Numbers that are cut down to integers

An extent can be given as a double, which is compared with its bound before it is cut down to an
integer. `Number.pow_le_of_truncate?` says that what is left of a number that is not below a power
of two is at least that power: the comparison looks at sign and exponent, and these decide the
integer part. The bounds of the extents are the powers one and two.
-/

namespace QuditSim

open Float.Model Float.Model.UnpackedFloat

namespace Number

/-- A bound is a power of two as a double, with its mantissa and its exponent. -/
def IsPowerOfTwo (bound : Int) (k : Nat) : Prop :=
  (Float.ofInt bound).toModel.unpack = .finite .positive (2 ^ 52) ((k : Int) - 52) (by decide)

theorem isPowerOfTwo_one : IsPowerOfTwo 1 0 := rfl

theorem isPowerOfTwo_two : IsPowerOfTwo 2 1 := rfl

theorem lt_iff_of_isPowerOfTwo {bound : Int} {k : Nat} (hbound : IsPowerOfTwo bound k) (x : Float) :
    x < Float.ofInt bound ↔
      x.toModel.unpack.compare (.finite .positive (2 ^ 52) ((k : Int) - 52) (by decide)) =
        some .lt := by
  rw [← show _ = _ from hbound]
  show decide ((x.toModel.unpack.compare (Float.ofInt bound).toModel.unpack == some .lt) = true) =
    true ↔ _
  rw [decide_eq_true_iff, beq_iff_eq]

/-- The exponent of a double is read off its bits. -/
theorem toNat_unpackExponent (x : Float) :
    (@unpackExponent Format.binary64 x.toModel.toBits.toBitVec).toNat =
      x.toBits.toNat / 2 ^ 52 % 2 ^ 11 := by
  have hbits : x.toBits = x.toModel.toBits := rfl
  unfold unpackExponent
  rw [BitVec.toNat_cast, hbits]
  simp [BitVec.extractLsb, BitVec.extractLsb', Nat.shiftRight_eq_div_pow]

/-- The sign of a double is its highest bit. -/
theorem toNat_unpackSign (x : Float) :
    (@unpackSign Format.binary64 x.toModel.toBits.toBitVec).toNat =
      x.toBits.toNat / 2 ^ 63 := by
  have hbits : x.toBits = x.toModel.toBits := rfl
  unfold unpackSign
  rw [BitVec.toNat_cast, hbits]
  simp only [BitVec.extractLsb, BitVec.extractLsb', Nat.shiftRight_eq_div_pow]
  have := x.toModel.toBits.toNat_lt
  simp
  omega

/-- A finite double that is not below a power of two has a positive sign and the exponent of that
power or a larger one. -/
theorem exponent_of_not_lt {x : Float} {bound : Int} {k : Nat} (hbound : IsPowerOfTwo bound k)
    (hfinite : x.isFinite = true) (hlt : ¬ x < Float.ofInt bound) :
    1023 + k ≤ x.toBits.toNat / 2 ^ 52 % 2 ^ 11 ∧ x.toBits.toNat / 2 ^ 63 = 0 := by
  rw [lt_iff_of_isPowerOfTwo hbound] at hlt
  have hfinite : x.toModel.unpack.isFinite = true := hfinite
  have hbias : (Format.binary64).exponentBias = 1023 := rfl
  rw [← toNat_unpackExponent, ← toNat_unpackSign]
  unfold Float.Model.unpack Float.Model.UnpackedFloat.unpack at hlt hfinite
  generalize @unpackSign Format.binary64 x.toModel.toBits.toBitVec = sign at *
  generalize @unpackExponent Format.binary64 x.toModel.toBits.toBitVec = exponent at *
  dsimp only at hlt hfinite
  have hsigns : sign = 0#1 ∧ Sign.ofBitVec sign = .positive ∨ Sign.ofBitVec sign = .negative := by
    by_cases hsign : sign = 0#1
    · exact .inl ⟨hsign, if_pos hsign⟩
    · exact .inr (if_neg hsign)
  by_cases hlast : exponent = -1#_
  · -- infinities, and what is not a number
    rw [if_pos hlast] at hfinite
    split at hfinite <;> cases hfinite
  · rw [if_neg hlast] at hlt
    by_cases hfirst : exponent = 0#_
    · -- zeros, and the doubles too small for a leading bit
      exfalso
      apply hlt
      rw [if_pos hfirst]
      by_cases hmantissa : @unpackMantissa Format.binary64 x.toModel.toBits.toBitVec = 0#_
      · rw [dif_pos hmantissa]
        rfl
      · rw [dif_neg hmantissa]
        rcases hsigns with ⟨-, hpositive⟩ | hnegative
        · rw [hpositive]
          have hexponent : compare (((0 : Nat) : Int) - ((1023 : Nat) + (52 : Nat)) + 1)
              ((k : Int) - 52) = .lt := by
            rw [Int.compare_eq_lt]
            omega
          rw [hfirst]
          show some ((compare (((0 : Nat) : Int) - ((1023 : Nat) + (52 : Nat)) + 1)
            ((k : Int) - 52)).then _) = some .lt
          rw [hexponent]
          rfl
        · rw [hnegative]
          rfl
    · rw [if_neg hfirst] at hlt
      rcases hsigns with ⟨hsign, hpositive⟩ | hnegative
      · rw [hpositive] at hlt
        refine ⟨?_, by rw [hsign]; rfl⟩
        by_contra hsmall
        apply hlt
        have hexponent :
            compare ((exponent.toNat : Int) - ((1023 : Nat) + (52 : Nat))) ((k : Int) - 52) = .lt := by
          rw [Int.compare_eq_lt]
          omega
        show some ((compare ((exponent.toNat : Int) - ((1023 : Nat) + (52 : Nat)))
          ((k : Int) - 52)).then _) = some .lt
        rw [hexponent]
        rfl
      · rw [hnegative] at hlt
        exact absurd rfl hlt

/-- Sign and exponent bound the integer part of a double. -/
theorem pow_le_of_exponent {x : Float} {k : Nat} (hk : k ≤ 52)
    (hexponent : 1023 + k ≤ x.toBits.toNat / 2 ^ 52 % 2 ^ 11) (hsign : x.toBits.toNat / 2 ^ 63 = 0) :
    (Decimal.Binary.ofFloat x).negative = false ∧
      2 ^ k ≤ (Decimal.Binary.ofFloat x).num / (Decimal.Binary.ofFloat x).den := by
  unfold Decimal.Binary.ofFloat
  dsimp only
  rw [hsign]
  generalize x.toBits.toNat / 2 ^ 52 % 2 ^ 11 = e at hexponent
  generalize x.toBits.toNat % 2 ^ 52 = fraction
  have hden : 2 ^ k * 2 ^ (1075 - e) ≤ 2 ^ 52 := by
    rw [← Nat.pow_add]
    exact Nat.pow_le_pow_right (by decide) (by omega)
  refine ⟨rfl, ?_⟩
  rw [Nat.max_eq_left (by omega), if_neg (by omega), Nat.le_div_iff_mul_le (Nat.two_pow_pos _)]
  calc 2 ^ k * 2 ^ (1075 - e) ≤ 2 ^ 52 := hden
    _ ≤ 2 ^ 52 + fraction := Nat.le_add_right _ _
    _ = (2 ^ 52 + fraction) * 1 := (Nat.mul_one _).symm
    _ ≤ (2 ^ 52 + fraction) * 2 ^ (e - 1075) := Nat.mul_le_mul_left _ Nat.one_le_two_pow

/-- What is left of a number that is not below a power of two is at least that power. -/
theorem pow_le_of_truncate? {x : Number} {n bound : Int} {k : Nat} (hk : k ≤ 52)
    (hbound : IsPowerOfTwo bound k) (hpow : bound = 2 ^ k) (hx : x.below bound = false)
    (hn : x.truncate? = some n) : bound ≤ n := by
  cases x with
  | int value =>
    cases hn
    have hlt : ¬ n < bound := of_decide_eq_false hx
    omega
  | float x =>
    have hlt : ¬ x < Float.ofInt bound := by simpa [Number.below] using hx
    unfold truncate? at hn
    dsimp only at hn
    split at hn
    · next hfinite =>
      obtain ⟨hexponent, hsign⟩ := exponent_of_not_lt hbound hfinite hlt
      obtain ⟨hpositive, hquotient⟩ := pow_le_of_exponent hk hexponent hsign
      rw [hpositive, if_neg Bool.false_ne_true] at hn
      cases hn
      rw [hpow]
      exact_mod_cast hquotient
    · cases hn

/-- What is left of a number that is not below one is at least one. -/
theorem one_le_of_truncate? {x : Number} {n : Int} (hx : x.below 1 = false)
    (hn : x.truncate? = some n) : 1 ≤ n :=
  pow_le_of_truncate? (by decide) isPowerOfTwo_one rfl hx hn

/-- What is left of a number that is not below two is at least two. -/
theorem two_le_of_truncate? {x : Number} {n : Int} (hx : x.below 2 = false)
    (hn : x.truncate? = some n) : 2 ≤ n :=
  pow_le_of_truncate? (by decide) isPowerOfTwo_two rfl hx hn

end Number

end QuditSim
