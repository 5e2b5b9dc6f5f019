import TokenQuota.Backoff
import TokenQuota.Bucket.Basic
import TokenQuota.Store.Connections

/-! Taking tokens from a bucket, with as many attempts as allowed. -/

namespace TokenQuota

/-- How often a request is tried, and how long it waits between attempts. -/
structure Retry where
  attempts : Nat
  /-- Milliseconds of the shortest delay; zero waits never. -/
  baseMillis : Nat
  /-- What is drawn for the jitter before each attempt. -/
  draw : Nat → Nat

namespace Retry

/-- Milliseconds of the longest delay, jitter aside. -/
def greatestMillis : Nat := 2000

/-- The number of attempts; there is at least one. -/
def count (r : Retry) : Nat := max r.attempts 1

/-- Milliseconds before an attempt; the first one has the number zero. The delay goes by the last
32 bits of the number. -/
def delay (r : Retry) (attempt : Nat) : Nat :=
  Backoff.delay (attempt % Nat.pow 2 32) r.baseMillis greatestMillis (r.draw attempt)

end Retry

namespace Link

/-- Asks the store once, at its reading of the clock. -/
def evaluate (h : Handle) (b : Bucket) (requested : Int) (maxWait : Nat) : Client Int :=
  call fun backend =>
    Backend.take h.script b.keys (b.limits.take backend.now requested maxWait) backend

/-- Tries a request for the rest of its attempts. A connection on which the store cannot be
asked is replaced before the next attempt. -/
def takeFrom (retry : Retry) (b : Bucket) (requested : Int) (maxWait : Nat) :
    Nat → Nat → Client Verdict
  | 0, _ => throw (.retriesExhausted retry.count)
  | left + 1, attempt => do
    Action.pause (retry.delay attempt)
    match ← Action.outcome getOrConnect with
    | .error _ => takeFrom retry b requested maxWait left (attempt + 1)
    | .ok h =>
      match ← Action.outcome (evaluate h b requested maxWait) with
      | .ok result => return .ofResult result
      | .error _ => do
        let _ ← Action.outcome (reconnect h)
        takeFrom retry b requested maxWait left (attempt + 1)

def take (retry : Retry) (b : Bucket) (requested : Int) (maxWait : Nat) : Client Verdict :=
  takeFrom retry b requested maxWait retry.count 0

end Link

end TokenQuota
