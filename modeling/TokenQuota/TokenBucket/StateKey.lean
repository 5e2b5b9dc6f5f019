import TokenQuota.Config.Basic

/-! The keys of the cells: namespace, bucket and cell, with colons between them. -/

namespace TokenQuota

namespace StateKey

def separator : Char := ':'

/-- The last part of the key of the time at which a bucket is out of debt. -/
def nextAvailableMark : String := "TNA"

/-- The last part of the key of the tokens of a bucket. -/
def accumulatedMark : String := "AT"

def join (ns bucket mark : String) : String :=
  s!"{ns}:{bucket}:{mark}"

def splitFirst? : List Char → Option (List Char × List Char)
  | [] => none
  | c :: rest =>
    if c = separator then some ([], rest)
    else (splitFirst? rest).map fun (before, after) => (c :: before, after)

def splitLast? : List Char → Option (List Char × List Char)
  | [] => none
  | c :: rest =>
    match splitLast? rest with
    | some (before, after) => some (c :: before, after)
    | none => if c = separator then some ([], rest) else none

/-- The text is the last part of the key of a cell. -/
def isMark (mark : List Char) : Bool :=
  mark == nextAvailableMark.toList || mark == accumulatedMark.toList

/-- The key looks like that of a cell: its last part is a mark, and the rest has a
separator. -/
def isStateKey (key : String) : Bool :=
  match splitLast? key.toList with
  | some (before, mark) => before.contains separator && isMark mark
  | none => false

/-- The namespace and the bucket that a key belongs to: what stands before the mark, split at
its first separator. -/
def owner? (key : String) : Option (String × String) :=
  match splitLast? key.toList with
  | some (before, mark) =>
    if isMark mark then
      (splitFirst? before).map fun (ns, bucket) => (String.ofList ns, String.ofList bucket)
    else none
  | none => none

end StateKey

/-- The keys of the two cells of a bucket. -/
structure CellKeys where
  nextAvailable : String
  accumulated : String
deriving DecidableEq

def CellKeys.of (ns bucket : String) : CellKeys :=
  ⟨StateKey.join ns bucket StateKey.nextAvailableMark,
   StateKey.join ns bucket StateKey.accumulatedMark⟩

end TokenQuota
