import TokenQuota.NameMap

/-! Counts of the admitted and the rejected requests of dynamic buckets. -/

namespace TokenQuota

structure Scores where
  hits : Nat
  misses : Nat
deriving DecidableEq

/-- A bucket with one of its counts. -/
structure Rank where
  bucket : String
  score : Nat
deriving DecidableEq

/-- A bucket ranks before another with a lower count, or with the same count and a later
name. -/
def Rank.before (a b : Rank) : Bool :=
  b.score < a.score || (a.score == b.score && a.bucket ≤ b.bucket)

/-- The counts of the buckets of each namespace. -/
structure Stats where
  namespaces : NameMap (NameMap Scores)
deriving DecidableEq

namespace Stats

def shown : Nat := 10

def empty : Stats := ⟨∅⟩

def ofNamespace (s : Stats) (ns : String) : NameMap Scores :=
  (s.namespaces.get? ns).getD ∅

/-- The counts of a bucket, if there are any. -/
def scores? (s : Stats) (ns bucket : String) : Option Scores :=
  (s.ofNamespace ns).get? bucket

def record (s : Stats) (ns bucket : String) (admitted : Bool) : Stats :=
  let before := (s.scores? ns bucket).getD ⟨0, 0⟩
  let after : Scores :=
    if admitted then { before with hits := before.hits + 1 }
    else { before with misses := before.misses + 1 }
  ⟨s.namespaces.insert ns ((s.ofNamespace ns).insert bucket after)⟩

def reset (s : Stats) (ns : String) : Stats :=
  ⟨s.namespaces.erase ns⟩

def top (s : Stats) (ns : String) (count : Scores → Nat) : List Rank :=
  let ranks := (s.ofNamespace ns).entries.map fun e => (⟨e.1, count e.2⟩ : Rank)
  ((ranks.filter fun r => 0 < r.score).mergeSort Rank.before).take shown

def topHits (s : Stats) (ns : String) : List Rank :=
  s.top ns Scores.hits

def topMisses (s : Stats) (ns : String) : List Rank :=
  s.top ns Scores.misses

end Stats

end TokenQuota
