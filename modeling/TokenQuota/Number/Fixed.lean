/-! Integers of 64 bits: their ranges, saturation and wrapping. -/

namespace TokenQuota

def minSigned : Int := -9223372036854775808

def maxSigned : Int := 9223372036854775807

def maxUnsigned : Nat := 18446744073709551615

def IsSigned (n : Int) : Prop :=
  minSigned ≤ n ∧ n ≤ maxSigned

instance (n : Int) : Decidable (IsSigned n) :=
  inferInstanceAs (Decidable (_ ∧ _))

def saturate (n : Int) : Int :=
  max minSigned (min maxSigned n)

/-- The integer of 64 bits that is congruent modulo `2 ^ 64`. -/
def wrap (n : Int) : Int :=
  n.bmod (Nat.pow 2 64)

theorem saturate_eq_self {n : Int} (h : IsSigned n) : saturate n = n := by
  simp only [saturate, IsSigned] at *
  omega

theorem isSigned_saturate (n : Int) : IsSigned (saturate n) := by
  simp only [saturate, IsSigned, minSigned, maxSigned]
  omega

end TokenQuota
