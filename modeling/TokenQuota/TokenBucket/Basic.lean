import TokenQuota.Config.Basic
import TokenQuota.Number.Fixed

/-! The token bucket: how a request is decided from the two cells of a bucket. -/

namespace TokenQuota

/-- Nanoseconds in a second. -/
def nanosPerSecond : Int := 1000000000

/-- Nanoseconds in a millisecond. -/
def nanosPerMilli : Int := 1000000

/-- The limits of a bucket, in the units of its cells. -/
structure Limits where
  /-- Nanoseconds between two tokens. -/
  interval : Int
  /-- The most tokens that accumulate. -/
  size : Int
  /-- Milliseconds until idle cells expire; zero keeps them for ever. -/
  maxIdleMillis : Int
  /-- Nanoseconds by which the bucket may run ahead of the clock. -/
  maxDebt : Int
deriving DecidableEq

/-- The limits that a configuration sets. A fill rate below one counts as one, and one above
`10 ^ 9` as `10 ^ 9`. -/
def BucketConfig.limits (c : BucketConfig) : Limits where
  interval := max (nanosPerSecond / max c.fillRate.toInt 1) 1
  size := c.size.toInt
  maxIdleMillis := max c.maxIdleMillis.toInt 0
  maxDebt := saturate (c.maxDebtMillis.toInt * nanosPerMilli)

/-- A request for tokens at a reading of the clock, with the limits of its bucket. -/
structure Take where
  now : Int
  interval : Int
  size : Int
  requested : Int
  /-- Nanoseconds that the caller is willing to wait. -/
  maxWait : Int
  maxIdleMillis : Int
  maxDebt : Int
deriving DecidableEq

/-- A request under the limits; a longer wait than 64 bits can hold counts as the longest. -/
def Limits.take (l : Limits) (now requested : Int) (maxWait : Nat) : Take :=
  ⟨now, l.interval, l.size, requested, min (maxWait : Int) maxSigned, l.maxIdleMillis, l.maxDebt⟩

/-- The numbers of a request in the order in which the script takes them. -/
def Take.arguments (t : Take) : List Int :=
  [t.now, t.interval, t.size, t.requested, t.maxWait, t.maxIdleMillis, t.maxDebt]

structure Cells where
  /-- The nanosecond at which the bucket is out of debt. -/
  nextAvailable : Int
  /-- The tokens that are there. -/
  accumulated : Int
deriving DecidableEq

inductive Decision
  /-- The cells change, and the caller waits before it uses the tokens. -/
  | admitted (wait : Int) (cells : Cells)
  /-- The cells stay as they are. -/
  | rejected
deriving DecidableEq

/-- How sums and products that may leave 64 bits are brought back. -/
structure Arithmetic where
  clamp : Int → Int

/-- Sums and products stop at the ends of 64 bits. -/
def Arithmetic.saturating : Arithmetic := ⟨saturate⟩

def Arithmetic.exact : Arithmetic := ⟨id⟩

/-- The numbers met while a request is decided. -/
structure Reckoning where
  /-- Nanoseconds since the bucket was out of debt, if it is. -/
  elapsed : Int
  /-- Tokens that came in that time. -/
  fresh : Int
  /-- The tokens that are there. -/
  available : Int
  /-- The nanosecond at which the bucket is out of debt. -/
  start : Int
  /-- Nanoseconds until then. -/
  wait : Int
  /-- The tokens that the request takes from those that are there. -/
  used : Int
  /-- The tokens that the request borrows. -/
  deficit : Int
  /-- The nanosecond at which the bucket would be out of debt after the request. -/
  nextAvailable : Int
  /-- The tokens that would be left. -/
  accumulated : Int
  /-- Nanoseconds by which the bucket would run ahead of the clock. -/
  debt : Int
deriving DecidableEq

/-- Reckons a request against the cells. An absent time is zero, and absent tokens are a full
bucket. -/
def Take.reckon (a : Arithmetic) (t : Take) (nextAvailable accumulated : Option Int) :
    Reckoning :=
  let interval := max t.interval 1
  let before := nextAvailable.getD 0
  let stored := accumulated.getD t.size
  let elapsed := if before < t.now then t.now - before else 0
  let fresh := elapsed / interval
  let available := if before < t.now then min t.size (a.clamp (stored + fresh)) else stored
  let start := if before < t.now then t.now else before
  let used := min available t.requested
  let deficit := t.requested - used
  let next := a.clamp (start + a.clamp (deficit * interval))
  { elapsed, fresh, available, start
    wait := start - t.now
    used, deficit
    nextAvailable := next
    accumulated := available - used
    debt := next - t.now }

/-- A request is rejected if it would leave more debt than allowed, or if the caller would have
to wait for longer than it is willing to. -/
def Take.decide (a : Arithmetic) (t : Take) (nextAvailable accumulated : Option Int) :
    Decision :=
  let r := t.reckon a nextAvailable accumulated
  if t.maxDebt < r.debt ∨ (0 < r.wait ∧ t.maxWait < r.wait) then .rejected
  else .admitted r.wait ⟨r.nextAvailable, r.accumulated⟩

def Take.evaluate (t : Take) (nextAvailable accumulated : Option Int) : Decision :=
  t.decide .saturating nextAvailable accumulated

def rejectedResult : Int := -1

/-- The number that reports a decision: the wait, or a negative number. -/
def Decision.result : Decision → Int
  | .admitted wait _ => wait
  | .rejected => rejectedResult

/-- What the caller of a request is told. -/
structure Verdict where
  /-- Nanoseconds to wait. -/
  wait : Nat
  admitted : Bool
deriving DecidableEq

/-- Reads a reported decision. An admitted request never waits a negative time, since a bucket
out of debt is brought up to the clock first. -/
def Verdict.ofResult (result : Int) : Verdict :=
  if result < 0 then ⟨0, false⟩ else ⟨result.toNat, true⟩

end TokenQuota
