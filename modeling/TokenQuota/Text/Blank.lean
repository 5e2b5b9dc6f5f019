/-! White space at the ends of a text. -/

namespace TokenQuota.Text

def isBlank (c : Char) : Bool :=
  let n := c.toNat
  (9 ≤ n && n ≤ 13) || n == 0x20 || n == 0x85 || n == 0xA0 || n == 0x1680 ||
    (0x2000 ≤ n && n ≤ 0x200A) || n == 0x2028 || n == 0x2029 || n == 0x202F ||
    n == 0x205F || n == 0x3000

theorem isBlank_of_isWhitespace {c : Char} (h : c.isWhitespace = true) : isBlank c = true := by
  simp only [Char.isWhitespace, Bool.or_eq_true, decide_eq_true_eq] at h
  rcases h with ((h | h) | h) | h <;> subst h <;> decide

def trimChars (cs : List Char) : List Char :=
  ((cs.dropWhile isBlank).reverse.dropWhile isBlank).reverse

def trim (s : String) : String :=
  String.ofList (trimChars s.toList)

def splitOn [DecidableEq α] (separator : α) : List α → List (List α)
  | [] => [[]]
  | a :: rest =>
    if a = separator then [] :: splitOn separator rest
    else match splitOn separator rest with
      | [] => [[a]]
      | part :: parts => (a :: part) :: parts

/-- The lines of a text: a line ends at a line feed, a carriage return before it belongs to
the ending, and nothing after the last line feed is no line. -/
def lines (s : String) : List String :=
  let parts := splitOn '\n' s.toList
  let parts := if parts.getLast? = some [] then parts.dropLast else parts
  parts.map fun part =>
    String.ofList (if part.getLast? = some '\r' then part.dropLast else part)

end TokenQuota.Text
