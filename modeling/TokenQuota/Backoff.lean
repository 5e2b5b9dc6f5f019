import TokenQuota.Number.Fixed

/-! Exponential backoff with jitter between attempts to reach the store. -/

namespace TokenQuota.Backoff

/-- A power of two, up to the greatest unsigned integer. -/
def doubling (exponent : Nat) : Nat :=
  if exponent < 64 then Nat.pow 2 exponent else maxUnsigned

/-- Milliseconds before an attempt, jitter aside: the base doubles from the second retry on, up
to a ceiling. The first attempt never waits. -/
def ceiling (attempt base greatest : Nat) : Nat :=
  if attempt = 0 ∨ base = 0 then 0
  else min (min (base * doubling (attempt - 1)) maxUnsigned) greatest

/-- The number of values that the jitter takes: up to a tenth of the delay, so that callers
that retry after one outage spread out. -/
def jitterRange (delay : Nat) : Nat :=
  max (delay / 10) 1

/-- Milliseconds before an attempt, with a draw for the jitter. -/
def delay (attempt base greatest draw : Nat) : Nat :=
  let capped := ceiling attempt base greatest
  capped + draw % jitterRange capped

/-- The least and the greatest delay over all draws. -/
def bounds (attempt base greatest : Nat) : Nat × Nat :=
  let capped := ceiling attempt base greatest
  (capped, capped + (jitterRange capped - 1))

end TokenQuota.Backoff
