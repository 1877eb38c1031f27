/-!
# Arithmetic of numbers

Powers of numbers, and the zero and the one that sums and products of lists start from, are those
of the core library. They stay so where other libraries bring instances of their own.
-/

namespace QuditSim

/-- Powers of a number with natural exponents. -/
@[default_instance 20000]
instance (priority := 2000) instPowNumber {K : Type} [NatPow K] : Pow K Nat := ⟨NatPow.pow⟩

/-- The zero of the natural numbers. -/
instance (priority := 2000) instZeroNat : Zero Nat := ⟨0⟩

/-- The one of the natural numbers. -/
instance (priority := 2000) instOneNat : One Nat := ⟨1⟩

end QuditSim
