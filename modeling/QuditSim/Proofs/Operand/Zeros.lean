import Mathlib.Data.List.Forall2
import QuditSim.Proofs.Numbers
import QuditSim.Proofs.Operand.Content

/-!
# Equal operators under one key

Operators are compared by their entries as doubles, and their keys are computed from the bits of these.
Doubles that are equal have the same bits, but for the two zeros. So equal operators share a key if no
zero of one stands where the other has the zero of the other sign; and if there is such a place, their
messages differ, and only a collision of digests can give them one key.

- `Zeros.unpack_injective`: a double is told by its sign, its exponent and its mantissa.
- `Zeros.eq_iff_of_beq`: equal doubles are the same, or they are zeros of opposite signs.
- `Operator.same_share_key_iff` is about equal operators, and about those that a table or a circuit stores
  under two keys.
-/

namespace QuditSim

open Float.Model Float.Model.UnpackedFloat

/-! ## Doubles and their bits -/

namespace Zeros

/-- The sign, the exponent and the mantissa that the bits of a double are made of. -/
def fields (bits : BitVec Format.binary64.numBits) : Sign × Nat × Nat :=
  (Sign.ofBitVec (unpackSign bits), (unpackExponent bits).toNat, (unpackMantissa bits).toNat)

/-- The fields of the bits from which a double was unpacked. -/
def fieldsOf : UnpackedFloat → Sign × Nat × Nat
  | .notANumber => fields (packedNaN Format.binary64)
  | .infinity sign => (sign, 2047, 0)
  | .zero sign => (sign, 0, 0)
  | .finite sign m e _ =>
    -- a normal number has a leading bit that is not written
    if m < 2 ^ 52 then (sign, 0, m) else (sign, (e + 1075).toNat, m - 2 ^ 52)

/-- The fields of a double are read off what was unpacked. -/
theorem fieldsOf_unpack {bits : BitVec Format.binary64.numBits} (h : Format.binary64.Valid bits) :
    fieldsOf (unpack Format.binary64 bits) = fields bits := by
  have hmantissa : (unpackMantissa bits).toNat < 2 ^ 52 := (unpackMantissa bits).isLt
  unfold UnpackedFloat.unpack
  dsimp only
  by_cases hlast : unpackExponent bits = -1#_
  · rw [if_pos hlast]
    by_cases hzero : unpackMantissa bits = 0#_
    · rw [if_pos hzero, fields, hlast, hzero]
      rfl
    · rw [if_neg hzero, h.eq_packedNaN hlast hzero]
      rfl
  · rw [if_neg hlast]
    by_cases hfirst : unpackExponent bits = 0#_
    · rw [if_pos hfirst]
      by_cases hzero : unpackMantissa bits = 0#_
      · rw [dif_pos hzero, fields, hfirst, hzero]
        rfl
      · rw [dif_neg hzero, fields, hfirst]
        exact if_pos hmantissa
    · have hleading : (1#1 ++ unpackMantissa bits).toNat = 2 ^ 52 + (unpackMantissa bits).toNat := by
        rw [BitVec.toNat_append, ← Nat.shiftLeft_add_eq_or_of_lt hmantissa]
        rfl
      have hbias : (Format.binary64.exponentBias : Int) +
          Format.binary64.mantissaBitsWithoutImplicit = 1075 := rfl
      rw [if_neg hfirst]
      show (if (1#1 ++ unpackMantissa bits).toNat < 2 ^ 52 then _ else _) = _
      rw [hleading, if_neg (by omega), hbias, Int.sub_add_cancel, Int.toNat_natCast,
        Nat.add_sub_cancel_left, fields]

/-- The bits of a double are those of its fields. -/
theorem toNat_toBits (x : Float) :
    x.toBits.toNat = 2 ^ 63 * (@unpackSign Format.binary64 x.toModel.toBits.toBitVec).toNat +
      2 ^ 52 * (@unpackExponent Format.binary64 x.toModel.toBits.toBitVec).toNat +
        (@unpackMantissa Format.binary64 x.toModel.toBits.toBitVec).toNat := by
  have hmantissa : (@unpackMantissa Format.binary64 x.toModel.toBits.toBitVec).toNat =
      x.toBits.toNat % 2 ^ 52 := by
    have hbits : x.toBits = x.toModel.toBits := rfl
    rw [hbits]
    simp [unpackMantissa]
  rw [Number.toNat_unpackSign, Number.toNat_unpackExponent, hmantissa]
  omega

theorem ofBitVec_injective : Function.Injective Sign.ofBitVec := by
  intro a b h
  unfold Sign.ofBitVec at h
  have ha := a.isLt
  have hb := b.isLt
  split at h <;> split at h
  · next hzero hzero' => exact hzero.trans hzero'.symm
  · cases h
  · cases h
  · next hone hone' =>
    rw [BitVec.toNat_eq, BitVec.toNat_zero] at hone hone'
    exact BitVec.eq_of_toNat_eq (by omega)

/-- Doubles from which the same is unpacked are the same. -/
theorem unpack_injective {x y : Float} (h : x.toModel.unpack = y.toModel.unpack) : x = y := by
  have hfields : fields x.toModel.toBits.toBitVec = fields y.toModel.toBits.toBitVec := by
    rw [← fieldsOf_unpack x.toModel.valid, ← fieldsOf_unpack y.toModel.valid]
    exact congrArg fieldsOf h
  obtain ⟨hsign, hparts⟩ := Prod.mk.inj hfields
  obtain ⟨hexponent, hmantissa⟩ := Prod.mk.inj hparts
  refine toBits_injective (UInt64.toNat_inj.mp ?_)
  rw [toNat_toBits x, toNat_toBits y, ofBitVec_injective hsign, hexponent, hmantissa]

/-- Zeros of opposite signs. -/
def Opposite (x y : Float) : Prop :=
  ∃ sign, x.toModel.unpack = .zero sign ∧ y.toModel.unpack = .zero (-sign)

theorem not_opposite_self (x : Float) : ¬ Opposite x x := by
  rintro ⟨sign, hx, hx'⟩
  have hsign : sign = -sign := UnpackedFloat.zero.inj (hx.symm.trans hx')
  cases sign <;> cases hsign

/-- Equal doubles are the same if they are not zeros of opposite signs. -/
theorem eq_iff_of_beq {x y : Float} (h : (x == y) = true) : x = y ↔ ¬ Opposite x y := by
  constructor
  · rintro rfl
    exact not_opposite_self x
  · intro hopposite
    rcases alikeUnpacked_of_beq h with heq | ⟨⟨sign, hx⟩, sign', hy⟩
    · exact unpack_injective heq
    · have hsign : sign' = sign ∨ sign' = -sign := by
        cases sign <;> cases sign' <;> first | exact .inl rfl | exact .inr rfl
      rcases hsign with rfl | rfl
      · exact unpack_injective (hx.trans hy.symm)
      · exact absurd ⟨sign, hx, hy⟩ hopposite

end Zeros

/-! ## Equal operators -/

namespace Operator

variable {a b : Operator Float}

/-- A part of an entry of one operator is a zero, and that of the other operator is the zero of the other
sign. -/
def OppositeZeros (a b : Operator Float) : Prop :=
  ∃ pair ∈ a.entries.toList.zip b.entries.toList,
    Zeros.Opposite pair.1.re pair.2.re ∨ Zeros.Opposite pair.1.im pair.2.im

/-- Equal operators are the same if no zeros of theirs have opposite signs. -/
theorem eq_iff_of_same (h : a.same b = true) : a = b ↔ ¬ OppositeZeros a b := by
  obtain ⟨hshape, hlength, hentries⟩ := same_parts h
  rw [List.all_eq_true] at hentries
  constructor
  · rintro rfl ⟨pair, hpair, hopposite⟩
    rw [List.zip_eq_zipWith, List.zipWith_self] at hpair
    obtain ⟨z, -, rfl⟩ := List.mem_map.mp hpair
    exact hopposite.elim (Zeros.not_opposite_self _) (Zeros.not_opposite_self _)
  · intro hopposite
    have heq : List.Forall₂ (· = ·) a.entries.toList b.entries.toList := by
      refine List.forall₂_iff_zip.mpr ⟨hlength, fun {z w} hzw => ?_⟩
      obtain ⟨hre, him⟩ := Amplitude.beq_parts (hentries (z, w) hzw)
      exact Amplitude.ext
        ((Zeros.eq_iff_of_beq hre).mpr fun hzeros => hopposite ⟨(z, w), hzw, .inl hzeros⟩)
        ((Zeros.eq_iff_of_beq him).mpr fun hzeros => hopposite ⟨(z, w), hzw, .inr hzeros⟩)
    rw [List.forall₂_eq_eq_eq] at heq
    exact Tensor.ext hshape (Array.toList_inj.mp heq)

/-- Equal operators have one message if no zeros of theirs have opposite signs. -/
theorem contentBytes_eq_iff_of_same (h : a.same b = true) :
    a.contentBytes = b.contentBytes ↔ ¬ OppositeZeros a b := by
  rw [← eq_iff_of_same h]
  constructor
  · intro hbytes
    exact eq_of_bits_eq (same_parts h).1 (contentBytes_eq_iff.mp hbytes).1
  · rintro rfl
    rfl

/-- Equal operators that are stored under two keys have zeros of opposite signs. -/
theorem oppositeZeros_of_stored {ms : List (Operator Float)} {key key' : Int}
    (ha : ((OperandTable.empty contentKey).attemptAll ms).get? key = some a)
    (hb : ((OperandTable.empty contentKey).attemptAll ms).get? key' = some b) (hne : key ≠ key')
    (hsame : a.same b = true) : OppositeZeros a b := by
  obtain ⟨-, rfl⟩ := OperandTable.get?_attemptAll_empty ha
  obtain ⟨-, rfl⟩ := OperandTable.get?_attemptAll_empty hb
  by_contra hopposite
  exact hne (contentKey_eq_iff_collide.mpr (.inl ((contentBytes_eq_iff_of_same hsame).mpr hopposite)))

/-- Equal operators have one message, and so one key, just if no zero of one of them stands where the
other has the zero of the other sign; where there is one, only a collision of digests gives them one key.
So a table or a circuit stores them under two keys only if they have zeros of opposite signs. -/
theorem same_share_key_iff [Capacity] {a b : Operator Float} (hsame : a.same b = true) :
    (a.contentBytes = b.contentBytes ↔ ¬ OppositeZeros a b) ∧
    (a.contentKey = b.contentKey ↔
      ¬ OppositeZeros a b ∨ Digest.Collide a.contentBytes b.contentBytes) ∧
    (∀ (ms : List (Operator Float)) (key key' : Int),
      let table := (OperandTable.empty contentKey).attemptAll ms
      table.get? key = some a → table.get? key' = some b → key ≠ key' → OppositeZeros a b) ∧
    (∀ (serial : Nat) (qudits dits dim : Argument) (name : String)
      (namerFor : Nat → Except ExtentFault (Operator Float → String)) (c : Circuit Float),
      Circuit.create? serial qudits dits dim name namerFor contentKey = .ok c →
      ∀ (calls : List (Call Float)) (key key' : Int),
        let table := (c.attemptAll calls).operands
        table.get? key = some a → table.get? key' = some b → key ≠ key' → OppositeZeros a b) := by
  have hbytes := contentBytes_eq_iff_of_same hsame
  refine ⟨hbytes, by rw [contentKey_eq_iff_collide, hbytes],
    fun ms key key' ha hb hne => oppositeZeros_of_stored ha hb hne hsame, ?_⟩
  intro serial qudits dits dim name namerFor c hc calls key key' table ha hb hne
  obtain ⟨n, m, d, namer, rfl⟩ := Circuit.create?_eq_ok hc
  obtain ⟨ms, hms⟩ := (Circuit.empty serial n m d name namer contentKey).exists_operands_eq calls
  have htable : table = (OperandTable.empty contentKey).attemptAll ms := hms
  rw [htable] at ha hb
  exact oppositeZeros_of_stored ha hb hne hsame

section

attribute [local instance] Capacity.common

/-- The matrices of one zero of each sign are equal and have different messages. -/
theorem same_share_key_iff_signed :
    let plain : Operator Float := Gate.ofRows [[0]]
    let signed : Operator Float := Gate.ofRows [[.ofReal (-0.0)]]
    plain.same signed = true ∧ plain.contentBytes ≠ signed.contentBytes ∧
      OppositeZeros plain signed := by
  intro plain signed
  have hsame : plain.same signed = true := by decide +kernel
  have hbytes : plain.contentBytes ≠ signed.contentBytes := by decide +kernel
  exact ⟨hsame, hbytes, not_not.mp fun h => hbytes ((same_share_key_iff hsame).1.mpr h)⟩

end

set_option maxRecDepth 10000 in
/-- The matrices of one zero of each sign are equal and have different keys, and a table stores both. -/
theorem same_split_keys :
    let plain : Operator Float := Gate.ofRows [[0]]
    let signed : Operator Float := Gate.ofRows [[.ofReal (-0.0)]]
    let table := (OperandTable.empty contentKey).insert plain
    plain.same signed = true ∧ plain.contentKey ≠ signed.contentKey ∧
      (OperandTable.empty contentKey).register plain = .ok (plain.contentKey, table) ∧
      table.register signed = .ok (signed.contentKey, table.insert signed) ∧
      (table.insert signed).keys = [plain.contentKey, signed.contentKey] := by
  intro plain signed table
  have hne : plain.contentKey ≠ signed.contentKey := by decide +kernel
  have hkeyOf : table.keyOf = contentKey := OperandTable.keyOf_insert _ _
  have hkeys : table.keys = [plain.contentKey] :=
    (OperandTable.keys_insert _ _).trans (if_neg List.not_mem_nil)
  have hfree : signed.contentKey ∉ table.keys := by
    rw [hkeys, List.mem_singleton]
    exact hne.symm
  have hkey : table.keyFor signed = .ok signed.contentKey := by
    refine OperandTable.keyFor_eq_ok.mpr ⟨(congrFun hkeyOf signed).symm, fun known hknown => ?_⟩
    have hcontains : table.contains signed.contentKey = true := by
      rw [OperandTable.contains, hknown]
      rfl
    exact absurd ((table.contains_iff_mem_keys _).mp hcontains) hfree
  refine ⟨by decide +kernel, hne, OperandTable.register_eq_ok.mpr ⟨rfl, rfl⟩,
    OperandTable.register_eq_ok.mpr ⟨hkey, rfl⟩, ?_⟩
  rw [OperandTable.keys_insert, hkeyOf, if_neg hfree, hkeys]
  rfl

end Operator

end QuditSim
