import QuditSim.Proofs.Operand.Table
import QuditSim.Proofs.Report.Malformed

/-!
# The bytes that stand for an operator

The key of an operator is cut from the digest of a message: the text of its shape with the bytes of its
entries behind it. Nothing separates the two but the bracket that closes the shape. The message still
tells the operator, since it can be read: the extents up to the bracket, and then the entries, each in
sixteen bytes. Only a single number and a vector of one number have the same message.

- `readExtents_shape`: the extents of a shape are read off its bytes, whatever bytes follow.
- `littleEndian_floatBytes`: a double is read off its bytes.
- `Operator.contentBytes_eq_iff`: operators with the same message have the same entries, and the same
  shape up to that of a single number.
- `Operator.message_identifies` is about messages and about refusals: where the usual keys are used, an
  operator is refused for a collision of digests, or for being a single number where a vector of one is
  stored, or the other way round.
-/

namespace QuditSim

/-! ## Texts as bytes -/

theorem toList_loop (bytes : ByteArray) (i : Nat) (read : List UInt8) :
    ByteArray.toList.loop bytes i read = read.reverse ++ bytes.data.toList.drop i := by
  fun_induction ByteArray.toList.loop bytes i read with
  | case1 i read h ih =>
    have hi : i < bytes.data.toList.length := h
    have hget : bytes.get! i = bytes.data.toList[i] := getElem!_pos bytes.data i h
    rw [ih, List.drop_eq_getElem_cons hi, hget, List.reverse_cons, List.append_assoc]
    rfl
  | case2 i read h =>
    have hi : bytes.data.toList.length ≤ i := Nat.le_of_not_lt h
    rw [List.drop_eq_nil_of_le hi, List.append_nil]

/-- The bytes of a text are those of its characters. -/
theorem toList_toUTF8 (text : String) :
    text.toUTF8.toList = text.toList.flatMap String.utf8EncodeChar := by
  obtain ⟨cs, rfl⟩ : ∃ cs, text = String.ofList cs := ⟨text.toList, by simp⟩
  show ByteArray.toList.loop (String.ofList cs).toByteArray 0 [] = _
  rw [toList_loop, String.toByteArray_ofList]
  simp [List.utf8Encode]

/-! ## Extents in a message -/

/-- Reads extents up to the bracket that closes them, and returns them with the bytes that follow. The
digits that were read since the last comma spell `number`. -/
def readExtents (extents : List Nat) (number : Option Nat) : List UInt8 → List Nat × List UInt8
  | [] => (extents, [])
  | byte :: rest =>
    -- a closing bracket ends the shape, and a comma an extent
    if byte = 41 then (extents ++ number.toList, rest)
    else if byte = 44 then readExtents (extents ++ number.toList) none rest
    else if byte = 40 ∨ byte = 32 then readExtents extents number rest
    else readExtents extents (some (10 * number.getD 0 + (byte.toNat - 48))) rest

section Extents

variable (extents : List Nat) (number : Option Nat) (rest : List UInt8)

/-- One more digit of a number is read. -/
theorem readExtents_digit {c : Char} (hc : c.isDigit = true) :
    readExtents extents number (String.utf8EncodeChar c ++ rest) =
      readExtents extents (some (10 * number.getD 0 + (c.toNat - 48))) rest := by
  obtain ⟨hlow, hhigh⟩ : 48 ≤ c.toNat ∧ c.toNat ≤ 57 := Char.isDigit_iff_toNat.mp hc
  have hone : c.utf8Size = 1 := by
    rw [Char.utf8Size, if_pos]
    rw [UInt32.le_iff_toNat_le]
    exact Nat.le_trans hhigh (by decide)
  have hbyte : c.val.toUInt8.toNat = c.toNat := by
    rw [UInt32.toNat_toUInt8]
    exact Nat.mod_eq_of_lt (Nat.lt_of_le_of_lt hhigh (by decide))
  have hne : ∀ byte : UInt8, byte.toNat < 48 → c.val.toUInt8 ≠ byte := by
    rintro byte hbyte' rfl
    omega
  rw [String.utf8EncodeChar_eq_singleton hone, List.singleton_append, readExtents,
    if_neg (hne 41 (by decide)), if_neg (hne 44 (by decide)),
    if_neg (not_or.mpr ⟨hne 40 (by decide), hne 32 (by decide)⟩), hbyte]

/-- The digits of a number are read as the number. -/
theorem readExtents_digits (n : Nat) :
    readExtents extents none ((Nat.toDigits 10 n).flatMap String.utf8EncodeChar ++ rest) =
      readExtents extents (some n) rest := by
  have hread : ∀ (cs : List Char) (k : Nat), (∀ c ∈ cs, c.isDigit = true) →
      readExtents extents (some k) (cs.flatMap String.utf8EncodeChar ++ rest) =
        readExtents extents (some (Nat.ofDigitChars 10 cs k)) rest := by
    intro cs
    induction cs with
    | nil => intro k _; rfl
    | cons c cs ih =>
      intro k hcs
      rw [List.flatMap_cons, List.append_assoc,
        readExtents_digit _ _ _ (hcs c List.mem_cons_self),
        ih _ fun c hc => hcs c (List.mem_cons_of_mem _ hc), Nat.ofDigitChars_cons]
      rfl
  have hdigits : ∀ c ∈ Nat.toDigits 10 n, c.isDigit = true := fun c =>
    Nat.isDigit_of_mem_toDigits (by decide) (by decide)
  -- there is a first digit, and what it starts from is zero
  obtain ⟨c, cs, hcs⟩ := List.exists_cons_of_ne_nil (Nat.toDigits_ne_nil (n := n) (b := 10))
  rw [hcs] at hdigits
  have hvalue : Nat.ofDigitChars 10 cs (10 * 0 + (c.toNat - 48)) = n := by
    rw [← Nat.ofDigitChars_ten_toDigits (n := n), hcs, Nat.ofDigitChars_cons]
    rfl
  rw [hcs, List.flatMap_cons, List.append_assoc,
    readExtents_digit _ _ _ (hdigits c List.mem_cons_self),
    hread cs _ fun c hc => hdigits c (List.mem_cons_of_mem _ hc), Option.getD_none, hvalue]

/-- Numbers between commas are read one by one. -/
theorem readExtents_intercalate (n : Nat) (ns : List Nat) :
    readExtents extents none
        (([',', ' '].intercalate ((n :: ns).map (Nat.toDigits 10))).flatMap String.utf8EncodeChar ++
          41 :: rest) = (extents ++ n :: ns, rest) := by
  induction ns generalizing n extents with
  | nil =>
    rw [List.map_singleton, List.intercalate_singleton, readExtents_digits, readExtents, if_pos rfl]
    rfl
  | cons m ns ih =>
    have hcomma : ∀ bytes, readExtents extents (some n)
        ([',', ' '].flatMap String.utf8EncodeChar ++ bytes) =
          readExtents (extents ++ [n]) none bytes := fun _ => rfl
    rw [List.map_cons, List.map_cons, List.intercalate_cons_cons, ← List.map_cons,
      List.flatMap_append, List.flatMap_append, List.append_assoc, List.append_assoc,
      readExtents_digits, hcomma, ih, List.append_assoc, List.singleton_append]

/-- The extents of a shape are read off its text, whatever follows it. -/
theorem readExtents_shape :
    readExtents [] none ((Text.shape extents).toUTF8.toList ++ rest) = (extents, rest) := by
  have hopen : ∀ bytes, readExtents [] none ("(".toList.flatMap String.utf8EncodeChar ++ bytes) =
      readExtents [] none bytes := fun _ => rfl
  have hclose : ")".toList.flatMap String.utf8EncodeChar = [41] := by decide
  have hdigits : ∀ ns : List Nat, (ns.map toString).map String.toList = ns.map (Nat.toDigits 10) := by
    intro ns
    rw [List.map_map]
    exact List.map_congr_left fun n _ => Nat.toList_repr
  rw [toList_toUTF8]
  match extents with
  | [] => rfl
  | [n] =>
    have hend : readExtents [] (some n) (",)".toList.flatMap String.utf8EncodeChar ++ rest) =
        ([n], rest) := rfl
    rw [Text.shape, List.map_singleton, Text.tupled, String.toList_append, String.toList_append,
      List.flatMap_append, List.flatMap_append, List.append_assoc, List.append_assoc, hopen,
      Nat.toString_eq_repr, Nat.toList_repr, readExtents_digits, hend]
  | n :: m :: ns =>
    have hshape : Text.shape (n :: m :: ns) =
        "(" ++ ", ".intercalate ((n :: m :: ns).map toString) ++ ")" := rfl
    rw [hshape, String.toList_append, String.toList_append, String.toList_intercalate, hdigits,
      List.flatMap_append, List.flatMap_append, List.append_assoc, List.append_assoc, hopen, hclose]
    exact readExtents_intercalate [] rest n (m :: ns)

end Extents

/-! ## Doubles in a message -/

/-- Bytes of a number spell it, as far as they go. -/
theorem littleEndian_range (n count : Nat) :
    littleEndian ((List.range count).map fun i => (n / 256 ^ i).toUInt8) = n % 256 ^ count := by
  induction count generalizing n with
  | zero => rw [Nat.pow_zero, Nat.mod_one]; rfl
  | succ count ih =>
    have hshift : (List.range count).map ((fun i => (n / 256 ^ i).toUInt8) ∘ Nat.succ) =
        (List.range count).map fun i => (n / 256 / 256 ^ i).toUInt8 :=
      List.map_congr_left fun i _ => by
        rw [Function.comp_apply, Nat.pow_succ', Nat.div_div_eq_div_mul]
    have hfirst : (n / 256 ^ 0).toUInt8.toNat = n % 256 := by
      rw [Nat.pow_zero, Nat.div_one]
      rfl
    rw [List.range_succ_eq_map, List.map_cons, List.map_map, hshift]
    show (n / 256 ^ 0).toUInt8.toNat + 256 * littleEndian _ = _
    rw [ih, hfirst, Nat.pow_succ', Nat.mod_mul]

/-- The bits of a double are read off its bytes. -/
theorem littleEndian_floatBytes (x : Float) : littleEndian (floatBytes x) = x.toBits.toNat := by
  rw [floatBytes, littleEndian_range]
  exact Nat.mod_eq_of_lt x.toBits.toNat_lt

/-- Bytes that spell a number are those of it, if there are as many of them. -/
theorem littleEndian_injective {xs ys : List UInt8} (hlength : xs.length = ys.length)
    (h : littleEndian xs = littleEndian ys) : xs = ys := by
  induction xs generalizing ys with
  | nil => exact (List.eq_nil_of_length_eq_zero hlength.symm).symm
  | cons x xs ih =>
    cases ys with
    | nil => cases hlength
    | cons y ys =>
      have hsum : x.toNat + 256 * littleEndian xs = y.toNat + 256 * littleEndian ys := h
      have hx := x.toNat_lt
      have hy := y.toNat_lt
      obtain ⟨hbyte, hrest⟩ : x.toNat = y.toNat ∧ littleEndian xs = littleEndian ys := by omega
      rw [UInt8.toNat_inj.mp hbyte, ih (Nat.succ.inj hlength) hrest]

/-- Doubles with the same bits are the same. -/
theorem toBits_injective {x y : Float} (h : x.toBits = y.toBits) : x = y := by
  obtain ⟨⟨bits, valid⟩⟩ := x
  obtain ⟨⟨bits', valid'⟩⟩ := y
  obtain rfl : bits = bits' := h
  rfl

theorem length_floatBytes (x : Float) : (floatBytes x).length = 8 := by
  rw [floatBytes, List.length_map, List.length_range]

theorem floatBytes_injective : Function.Injective floatBytes := fun x y h =>
  toBits_injective (UInt64.toNat_inj.mp (by
    rw [← littleEndian_floatBytes, ← littleEndian_floatBytes, h]))

/-- Blocks of one width are told apart when they stand one behind the other. -/
theorem flatMap_injective {α β : Type} {f : α → List β} (width : Nat)
    (hlength : ∀ x, (f x).length = width + 1) (hf : Function.Injective f) :
    Function.Injective (List.flatMap f) := by
  have hne : ∀ x xs, (x :: xs).flatMap f ≠ [] := by
    intro x xs h
    have hempty := congrArg List.length h
    rw [List.flatMap_cons, List.length_append, hlength, List.length_nil] at hempty
    omega
  intro xs
  induction xs with
  | nil =>
    intro ys h
    cases ys with
    | nil => rfl
    | cons y ys => exact absurd h.symm (hne y ys)
  | cons x xs ih =>
    intro ys h
    cases ys with
    | nil => exact absurd h (hne x xs)
    | cons y ys =>
      rw [List.flatMap_cons, List.flatMap_cons] at h
      obtain ⟨hfirst, hrest⟩ := List.append_inj h ((hlength x).trans (hlength y).symm)
      rw [hf hfirst, ih hrest]

/-- The entries of an operator are read off their bytes. -/
theorem entryBytes_injective :
    Function.Injective (List.flatMap fun z : Amplitude Float => floatBytes z.re ++ floatBytes z.im) := by
  refine flatMap_injective 15 (fun z => ?_) fun z w h => ?_
  · rw [List.length_append, length_floatBytes, length_floatBytes]
  · obtain ⟨hre, him⟩ := List.append_inj h (by rw [length_floatBytes, length_floatBytes])
    exact Amplitude.ext (floatBytes_injective hre) (floatBytes_injective him)

/-! ## Messages -/

namespace Operator

variable {a b : Operator Float}

/-- The bits of the parts of the entries of an operator. -/
def bits (m : Operator Float) : List (UInt64 × UInt64) :=
  m.entries.toList.map fun z => (z.re.toBits, z.im.toBits)

theorem bits_eq_iff : a.bits = b.bits ↔ a.entries = b.entries := by
  constructor
  · intro h
    refine Array.toList_inj.mp (List.map_injective_iff.mpr (fun z w hzw => ?_) h)
    obtain ⟨hre, him⟩ := Prod.mk.inj hzw
    exact Amplitude.ext (toBits_injective hre) (toBits_injective him)
  · intro h
    rw [bits, bits, h]

/-- Operators with the same entries and the same shape are the same. -/
theorem eq_of_bits_eq (hshape : a.shape = b.shape) (h : a.bits = b.bits) : a = b :=
  Tensor.ext hshape (bits_eq_iff.mp h)

/-- One of two operators is a single number and the other one a vector of one. -/
def SingleAndVector (a b : Operator Float) : Prop :=
  a.shape = [] ∧ b.shape = [1] ∨ a.shape = [1] ∧ b.shape = []

/-- Operators with the same message have the same entries, bit by bit, and the same shape, or one of
them is a single number and the other one a vector of one. -/
theorem contentBytes_eq_iff : a.contentBytes = b.contentBytes ↔
    a.bits = b.bits ∧ (a.shape = b.shape ∨ SingleAndVector a b) := by
  have hshape : (if a.shape = [] then [1] else a.shape) = (if b.shape = [] then [1] else b.shape) ↔
      a.shape = b.shape ∨ SingleAndVector a b := by
    unfold SingleAndVector
    by_cases ha : a.shape = [] <;> by_cases hb : b.shape = [] <;> simp [ha, hb, eq_comm]
  rw [← hshape, bits_eq_iff]
  constructor
  · intro h
    have hread := congrArg (readExtents [] none) h
    rw [contentBytes, contentBytes, readExtents_shape, readExtents_shape] at hread
    obtain ⟨hextents, hentries⟩ := Prod.mk.inj hread
    exact ⟨Array.toList_inj.mp (entryBytes_injective hentries), hextents⟩
  · rintro ⟨hentries, hextents⟩
    rw [contentBytes, contentBytes, hentries, hextents]

end Operator

/-! ## Digests -/

namespace Digest

theorem length_sha256 (message : List UInt8) : (sha256 message).length = 32 := rfl

/-- Different messages have the same first eight bytes of their digests. -/
def Collide (first second : List UInt8) : Prop :=
  first ≠ second ∧ (sha256 first).take 8 = (sha256 second).take 8

end Digest

/-- A call that fails for the integrity of the operators is given one whose key is taken, and nothing
else is wrong with it. -/
theorem Circuit.taken_of_integrityViolation {S : Type} [Scalar S] {c : Circuit S} {call : Call S}
    {failure : Failure} (h : c.append call = .error (.located failure))
    (hfamily : failure.family = .integrityViolation) :
    ∃ op known after, c.Taken call op known ∧ c.cleared.append call = .ok after := by
  have hrequest : c.request? call ≠ none := by
    intro hnone
    cases call with
    | qft =>
      cases h
      cases hfamily
    | tfq =>
      cases h
      cases hfamily
    | _ => cases hnone
  cases hmany : manyTargets? call with
  | some count =>
    unfold append at h
    rw [hmany] at h
    cases h
  | none =>
    cases hplan : c.plan call with
    | ok entry =>
      rw [append_eq_ok.mpr ⟨entry, hmany, hplan, rfl⟩] at h
      cases h
    | error cause =>
      rw [append_of_plan_error hmany hplan] at h
      obtain rfl := CircuitFault.eq_of_ofFailure (Except.error.inj h)
      have hvalue : ¬ cause.IsValue := by
        have hfamily : cause.family = .integrityViolation := hfamily
        simp [Cause.IsValue, hfamily, Family.broader]
      obtain ⟨op, known, after, htaken, hfree, -⟩ := taken_of_plan hrequest hmany hplan hvalue
      exact ⟨op, known, after, htaken, hfree⟩

namespace Operator

variable {a b : Operator Float}

/-- Operators have one key just if the digests of their messages start with the same eight bytes. -/
theorem contentKey_eq_iff : a.contentKey = b.contentKey ↔
    (Digest.sha256 a.contentBytes).take 8 = (Digest.sha256 b.contentBytes).take 8 := by
  unfold contentKey
  rw [Int.natCast_inj]
  refine ⟨littleEndian_injective ?_, fun h => by rw [h]⟩
  rw [List.length_take, List.length_take, Digest.length_sha256, Digest.length_sha256]

/-- Operators have one key just if they have one message, or messages that collide. -/
theorem contentKey_eq_iff_collide : a.contentKey = b.contentKey ↔
    a.contentBytes = b.contentBytes ∨ Digest.Collide a.contentBytes b.contentBytes := by
  rw [contentKey_eq_iff]
  constructor
  · intro hdigest
    by_cases hbytes : a.contentBytes = b.contentBytes
    · exact .inl hbytes
    · exact .inr ⟨hbytes, hdigest⟩
  · rintro (hbytes | hcollide)
    · rw [hbytes]
    · exact hcollide.2

/-- Unequal operators with one key have messages that collide, or one of them is a single number and
the other one a vector of one, unless their entries are not numbers. -/
theorem collide_of_contentKey_eq (hkey : a.contentKey = b.contentKey) (hsame : a.same b = false)
    (hnumbers : b.AllNumbers) : Digest.Collide a.contentBytes b.contentBytes ∨
      a.bits = b.bits ∧ SingleAndVector a b := by
  rcases contentKey_eq_iff_collide.mp hkey with hbytes | hcollide
  · obtain ⟨hbits, hshape | hshape⟩ := contentBytes_eq_iff.mp hbytes
    -- an operator of numbers is equal to itself
    · obtain rfl := eq_of_bits_eq hshape hbits
      rw [same_self_iff.mpr hnumbers] at hsame
      cases hsame
    · exact .inr ⟨hbits, hshape⟩
  · exact .inl hcollide

/-- A matrix is no single number, and no vector. -/
theorem not_singleAndVector {rows columns : Nat} (h : b.shape = [rows, columns]) :
    ¬ SingleAndVector a b := by
  rintro (⟨-, hb⟩ | ⟨-, hb⟩) <;>
    · rw [h] at hb
      cases hb

/-- The message of an operator tells its entries, bit by bit, and its shape, except that a single number
and a vector of one have the same message. So a table with the usual keys refuses an operator of numbers
for a collision of digests, or for one of these two where the other one is stored. The operators of a
circuit are matrices, and it refuses them for a collision only. -/
theorem message_identifies [Capacity] (m : Operator Float) :
    (∀ other : Operator Float, other.contentBytes = m.contentBytes ↔
      other.bits = m.bits ∧ (other.shape = m.shape ∨ SingleAndVector other m)) ∧
    (m.AllNumbers → ∀ (ms : List (Operator Float)) (cause : Cause),
      ((OperandTable.empty contentKey).attemptAll ms).keyFor m = .error cause →
      ∃ known ∈ ms, cause = .keyTaken m.contentKey known.shape ∧
        (Digest.Collide known.contentBytes m.contentBytes ∨
          known.bits = m.bits ∧ SingleAndVector known m)) ∧
    (m.AllNumbers → ∀ (serial : Nat) (qudits dits dim : Argument) (name : String)
      (namerFor : Nat → Except ExtentFault (Operator Float → String)) (c : Circuit Float),
      Circuit.create? serial qudits dits dim name namerFor contentKey = .ok c →
      ∀ (calls : List (Call Float)) (call : Call Float) (failure : Failure),
        call.operator? = some m → (c.attemptAll calls).append call = .error (.located failure) →
        failure.family = .integrityViolation →
        ∃ known, (c.attemptAll calls).Taken call m known ∧
          Digest.Collide known.contentBytes m.contentBytes) := by
  refine ⟨fun other => contentBytes_eq_iff, fun hnumbers ms cause h => ?_, fun hnumbers => ?_⟩
  · obtain ⟨known, hknown, hsame, rfl⟩ := OperandTable.keyFor_eq_error.mp h
    rw [((OperandTable.empty contentKey).extends_attemptAll ms).keyOf_eq] at hknown ⊢
    obtain ⟨hmem, hkey⟩ := OperandTable.get?_attemptAll_empty hknown
    exact ⟨known, hmem, rfl, collide_of_contentKey_eq hkey hsame hnumbers⟩
  · intro serial qudits dits dim name namerFor c hc calls call failure hcall h hfamily
    obtain ⟨n, k, d, namer, rfl⟩ := Circuit.create?_eq_ok hc
    obtain ⟨op, known, after, htaken, hfree⟩ := Circuit.taken_of_integrityViolation h hfamily
    obtain rfl : m = op := Option.some.inj (hcall.symm.trans htaken.operator_eq)
    refine ⟨known, htaken, ?_⟩
    -- the operator that is given is a matrix
    obtain ⟨entry, hmany, hplan, -⟩ := Circuit.append_eq_ok.mp hfree
    have hop : m ∈ entry.operator? := (Circuit.planned_of_plan hplan).operator?_eq.trans hcall
    obtain ⟨acted, hshape, -⟩ := (Circuit.sound_of_plan hmany hplan).storable m hop
    obtain ⟨ms, hms⟩ := (Circuit.empty serial n k d name namer contentKey).exists_operands_eq calls
    have hkeyOf := ((OperandTable.empty contentKey).extends_attemptAll ms).keyOf_eq
    have hknown : ((OperandTable.empty contentKey).attemptAll ms).get?
        (((OperandTable.empty contentKey).attemptAll ms).keyOf m) = some known := by
      have hknown := htaken.known_eq
      rwa [hms] at hknown
    rw [hkeyOf] at hknown
    have hkey := (OperandTable.get?_attemptAll_empty hknown).2
    exact (collide_of_contentKey_eq hkey htaken.not_same hnumbers).resolve_right
      fun hpair => not_singleAndVector hshape hpair.2

/-- The number one and the vector of it have the same message, though not the same shape. A table that
stores one of them refuses the other, and no digests collide. -/
theorem message_ambiguous :
    let single : Operator Float := .ofFn [] fun _ => 1
    let vector : Operator Float := .ofFn [1] fun _ => 1
    let table := (OperandTable.empty contentKey).insert single
    single.contentBytes = vector.contentBytes ∧ single.shape ≠ vector.shape ∧
      single.AllNumbers ∧ vector.AllNumbers ∧
      (OperandTable.empty contentKey).register single = .ok (single.contentKey, table) ∧
      table.Refuses vector (.keyTaken vector.contentKey []) ∧
      ¬ Digest.Collide single.contentBytes vector.contentBytes := by
  intro single vector table
  have hbytes : single.contentBytes = vector.contentBytes :=
    contentBytes_eq_iff.mpr ⟨rfl, .inr (.inl ⟨rfl, rfl⟩)⟩
  have hkey : vector.contentKey = single.contentKey := by rw [contentKey, contentKey, hbytes]
  have hknown : table.get? (table.keyOf vector) = some single := by
    rw [OperandTable.keyOf_insert]
    show table.get? vector.contentKey = some single
    rw [hkey]
    exact OperandTable.get?_insert (OperandTable.empty contentKey) single
  have hrefuses := OperandTable.refuses_of_not_same hknown (by decide +kernel)
  rw [OperandTable.keyOf_insert] at hrefuses
  exact ⟨hbytes, by decide, same_self_iff.mp (by decide +kernel), same_self_iff.mp (by decide +kernel),
    OperandTable.register_eq_ok.mpr ⟨rfl, rfl⟩, hrefuses, fun h => h.1 hbytes⟩

end Operator

end QuditSim
