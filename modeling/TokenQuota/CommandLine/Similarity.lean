/-! How similar two words are: which letters they share at nearly the same places, and in which
order. -/

namespace TokenQuota.CommandLine

/-- A fraction with a positive denominator. -/
structure Similarity where
  part : Nat
  whole : Nat
deriving DecidableEq

namespace Similarity

def nothing : Similarity := ⟨0, 1⟩

def less (s t : Similarity) : Bool :=
  s.part * t.whole < t.part * s.whole

/-- Words that are similar enough to be taken for one another. -/
def isEnough (s : Similarity) : Bool :=
  less ⟨7, 10⟩ s

/-- The first free place of a letter among numbered letters, between two bounds. -/
def place? (c : Char) (least bound : Nat) (taken : List Nat) (letters : List (Char × Nat)) :
    Option Nat :=
  (letters.find? fun l =>
    l.1 == c && least ≤ l.2 && l.2 < bound && !taken.contains l.2).map Prod.snd

/-- The letters of a word that are found in another, and the places where they are found. Each
place counts once, and a letter is looked for near its own place only. -/
def shared (range : Nat) (word other : List Char) : List Char × List Nat :=
  word.zipIdx.foldl
    (fun (found, taken) (c, i) =>
      match place? c (i - range) (i + range + 1) taken other.zipIdx with
      | some j => (found ++ [c], taken ++ [j])
      | none => (found, taken))
    ([], [])

/-- The similarity of two words: the mean of the shares of common letters in both words, and of
the share of the common letters that keep their order. -/
def of (word other : List Char) : Similarity :=
  let (found, places) := shared (max word.length other.length / 2 - 1) word other
  let partners := (other.zipIdx.filter fun l => places.contains l.2).map Prod.fst
  let common := found.length
  let moved := ((found.zip partners).filter fun p => p.1 != p.2).length / 2
  let (n, m) := (word.length, other.length)
  if common = 0 then nothing
  else ⟨common * common * (n + m) + (common - moved) * n * m, 3 * n * m * common⟩

/-- The word among candidates that is the most similar one, if any is similar enough. Of equally
similar ones it is the last. -/
def best? (word : String) (candidates : List String) : Option String :=
  let scored := candidates.map fun c => (c, of word.toList c.toList)
  let enough := scored.filter fun c => c.2.isEnough
  (enough.foldl
    (fun best c => match best with
      | some b => if c.2.less b.2 then some b else some c
      | none => some c)
    (none : Option (String × Similarity))).map Prod.fst

end Similarity

end TokenQuota.CommandLine
