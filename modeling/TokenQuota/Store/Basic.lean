import TokenQuota.NameMap
import TokenQuota.TokenBucket.Basic
import TokenQuota.TokenBucket.StateKey

/-! The store of the cells: numbers under keys, some of which expire. -/

namespace TokenQuota

structure Cell where
  value : Int
  /-- The nanosecond at which the cell expires, if it does. -/
  expiry : Option Int
deriving DecidableEq

def Cell.isLive (now : Int) (c : Cell) : Bool :=
  match c.expiry with
  | none => true
  | some at_ => now < at_

/-- A store. Expired cells stay until they are overwritten or deleted, but nobody sees them. -/
structure Store where
  cells : NameMap Cell
  /-- The scripts that are loaded, by their names. -/
  scripts : List String
  /-- The number of connections opened so far. -/
  connects : Nat

namespace Store

def empty : Store := ⟨∅, [], 0⟩

def get? (s : Store) (now : Int) (key : String) : Option Int :=
  match s.cells.get? key with
  | some c => if c.isLive now then some c.value else none
  | none => none

def set (s : Store) (key : String) (value : Int) : Store :=
  { s with cells := s.cells.insert key ⟨value, none⟩ }

def live (s : Store) (now : Int) : NameMap Cell :=
  s.cells.filter fun _ c => c.isLive now

def keys (s : Store) (now : Int) : List String :=
  (s.live now).names

/-- The nanosecond at which cells that are written now expire, if they do. -/
def expiryAt (now : Int) (t : Take) : Option Int :=
  if 0 < t.maxIdleMillis then some (saturate (now + saturate (t.maxIdleMillis * nanosPerMilli)))
  else none

/-- The decision on a request from the live cells of a bucket. -/
def decision (s : Store) (now : Int) (keys : CellKeys) (t : Take) : Decision :=
  t.evaluate (s.get? now keys.nextAvailable) (s.get? now keys.accumulated)

def write (s : Store) (keys : CellKeys) (cells : Cells) (expiry : Option Int) : Store :=
  let first := s.cells.insert keys.nextAvailable ⟨cells.nextAvailable, expiry⟩
  { s with cells := first.insert keys.accumulated ⟨cells.accumulated, expiry⟩ }

/-- Decides a request, and writes both cells if it is admitted. -/
def take (s : Store) (now : Int) (keys : CellKeys) (t : Take) : Decision × Store :=
  match s.decision now keys t with
  | .rejected => (.rejected, s)
  | .admitted wait cells => (.admitted wait cells, s.write keys cells (expiryAt now t))

def stateKeys (s : Store) (now : Int) : List String :=
  (s.keys now).filter StateKey.isStateKey

/-- Deletes keys one after the other: the number of those that were there. -/
def delete : List String → Store → Nat × Store
  | [], s => (0, s)
  | key :: rest, s =>
    let (n, after) := delete rest { s with cells := s.cells.erase key }
    (if s.cells.contains key then n + 1 else n, after)

/-- Loads a script under its name. -/
def load (s : Store) (name : String) : Store :=
  if s.scripts.contains name then s else { s with scripts := name :: s.scripts }

/-- Forgets all scripts. -/
def flush (s : Store) : Store :=
  { s with scripts := [] }

def connect (s : Store) : Store :=
  { s with connects := s.connects + 1 }

end Store

end TokenQuota
