/-!
# Edit distance

The Levenshtein distance between two texts, counted in characters: the fewest insertions,
deletions and substitutions of one character that turn one text into the other.

* `levenshtein` computes it a row at a time: the row for the first `i` characters of `a`
  holds the distances to every prefix of `b`, and each row is made from the one before.
-/

namespace TinyBasic.Text

/-- The cells of a row after its first, for the character `x` of the first text, given the
rest of the second text, the cells of the previous row from the diagonal on, and the cell to
the left. -/
def rowCells (x : Char) : List Char → List Nat → Nat → List Nat
  | y :: ys, diag :: up :: ups, left =>
    let cell := min (min (up + 1) (left + 1)) (diag + if x = y then 0 else 1)
    cell :: rowCells x ys (up :: ups) cell
  | _, _, _ => []

/-- The row for the first `i` characters of the first text, whose last is `x`, made from the
row before it. Its first cell is `i`, the distance to the empty prefix. -/
def nextRow (x : Char) (b : List Char) (prev : List Nat) (i : Nat) : List Nat :=
  i :: rowCells x b prev i

/-- The rows after the first for the characters `a`, starting from row `i`. -/
def lastRow (b : List Char) : List Char → List Nat → Nat → List Nat
  | [], row, _ => row
  | x :: a, row, i => lastRow b a (nextRow x b row (i + 1)) (i + 1)

/-- The edit distance of two character lists: the last cell of the last row. -/
def levenshtein (a b : List Char) : Nat :=
  (lastRow b a (List.range (b.length + 1)) 0).getLast?.getD 0

/-- The edit distance of two texts, character by character. -/
def distance (a b : String) : Nat :=
  levenshtein a.toList b.toList

end TinyBasic.Text
