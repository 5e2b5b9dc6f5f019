import TokenQuota.Number.Fixed

/-! A clock that only moves when told to. -/

namespace TokenQuota.Clock

/-- The reading after a number of nanoseconds; the clock goes round at the end of its
64 bits. -/
def advance (now : Int) (nanos : Nat) : Int :=
  wrap (now + min (nanos : Int) maxSigned)

/-- The whole seconds since 1970 of a reading. -/
def seconds (now : Int) : Nat :=
  (now.tdiv 1000000000).toNat

end TokenQuota.Clock
