import TokenQuota.Text.Bytes

/-! Decimal digits of natural numbers and integers. -/

namespace TokenQuota.Digits

def ofDigit (d : Nat) : UInt8 :=
  UInt8.ofNat (48 + d)

def isDigit (b : UInt8) : Bool :=
  48 ≤ b.toNat && b.toNat ≤ 57

def value (b : UInt8) : Nat :=
  b.toNat - 48

def ofNat (n : Nat) : Bytes :=
  if n < 10 then [ofDigit n] else ofNat (n / 10) ++ [ofDigit (n % 10)]
termination_by n

/-- The decimal digits of an integer, after a minus sign if it is negative. -/
def ofInt (n : Int) : Bytes :=
  if n < 0 then 0x2D :: ofNat n.natAbs else ofNat n.natAbs

def toNat (digits : Bytes) : Nat :=
  digits.foldl (fun n b => 10 * n + value b) 0

theorem value_ofDigit {d : Nat} (h : d < 10) : value (ofDigit d) = d := by
  simp only [value, ofDigit, UInt8.toNat_ofNat']
  omega

theorem isDigit_ofDigit {d : Nat} (h : d < 10) : isDigit (ofDigit d) = true := by
  simp only [isDigit, ofDigit, UInt8.toNat_ofNat', Bool.and_eq_true, decide_eq_true_eq]
  omega

theorem isDigit_of_mem_ofNat {n : Nat} {b : UInt8} (h : b ∈ ofNat n) : isDigit b = true := by
  induction n using ofNat.induct with
  | case1 n hn =>
    rw [ofNat, if_pos hn] at h
    simp only [List.mem_singleton] at h
    exact h ▸ isDigit_ofDigit hn
  | case2 n hn ih =>
    rw [ofNat, if_neg hn] at h
    rcases List.mem_append.mp h with h | h
    · exact ih h
    · simp only [List.mem_singleton] at h
      exact h ▸ isDigit_ofDigit (Nat.mod_lt _ (by omega))

@[simp] theorem toNat_ofNat (n : Nat) : toNat (ofNat n) = n := by
  induction n using ofNat.induct with
  | case1 n hn => simp [ofNat, hn, toNat, value_ofDigit hn]
  | case2 n hn ih =>
    rw [ofNat, if_neg hn, toNat, List.foldl_append, ← toNat, ih]
    simp only [List.foldl_cons, List.foldl_nil, value_ofDigit (Nat.mod_lt n (by omega : 10 > 0))]
    omega

def text (n : Nat) : String :=
  String.ofList ((ofNat n).map fun b => Char.ofNat b.toNat)

def textInt (n : Int) : String :=
  if n < 0 then "-" ++ text n.natAbs else text n.natAbs

end TokenQuota.Digits
