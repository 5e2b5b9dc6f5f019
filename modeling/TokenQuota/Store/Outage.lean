/-! Which of the calls of one kind fail. -/

namespace TokenQuota

/-- A kind of call: how many were made so far, and which ones fail or are late. -/
structure Outage where
  calls : Nat
  hits : Nat → Bool

namespace Outage

def none : Outage := ⟨0, fun _ => false⟩

def always : Outage := ⟨0, fun _ => true⟩

def next (o : Outage) (count : Nat) : Outage :=
  { o with hits := fun i => o.calls ≤ i && i < o.calls + count }

def isHit (o : Outage) : Bool := o.hits o.calls

def called (o : Outage) : Outage :=
  { o with calls := o.calls + 1 }

end Outage

end TokenQuota
