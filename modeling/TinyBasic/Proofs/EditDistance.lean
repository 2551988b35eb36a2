import Mathlib.Data.List.Infix
import TinyBasic.Text.Levenshtein
/-!
# The edit distance, by its recursion

The edit distance of two texts is defined by a recursion on their last characters: turning `a`
into the empty text takes `|a|` deletions, turning the empty text into `b` takes `|b|`
insertions, and turning `a ++ [x]` into `b ++ [y]` takes the fewest of three ways: delete `x`
and turn `a` into `b ++ [y]`, turn `a ++ [x]` into `b` and insert `y`, or turn `a` into `b` and
put `y` in the place of `x`, which is free when they are equal.

`levenshtein` keeps one row of that recursion's table at a time. The row for a prefix `p` of the
first text holds the distances from `p` to every prefix of the second, shortest first
(`tableRow p b`); the first row is `0, 1, …, |b|`, and each row is made from the one before and
overwrites it. The invariant of the loop is that after the characters `p` it holds `tableRow p b`.

* `editDistance` is the recursion; `editDistance_nil_left`, `editDistance_nil_right` and
  `editDistance_append_append` are its three equations.
* `rowCells_inits`: the cells made from a row, for every position of the second text.
* `lastRow_tableRow`: the loop, from the row of `p`, ends with the row of `p ++ a`.
* `levenshtein_eq_editDistance` and `distance_eq_editDistance`: the last cell of the last row
  is the edit distance.
-/

namespace TinyBasic.Text

/-- The edit distance of two texts, each given last character first. -/
def revDistance : List Char → List Char → Nat
  | [], b => b.length
  | _ :: a, [] => a.length + 1
  | x :: a, y :: b =>
    min (min (revDistance a (y :: b) + 1) (revDistance (x :: a) b + 1))
      (revDistance a b + if x = y then 0 else 1)

/-- The edit distance of two texts, by the recursion on their last characters. -/
def editDistance (a b : List Char) : Nat :=
  revDistance a.reverse b.reverse

@[simp] theorem editDistance_nil_left (b : List Char) : editDistance [] b = b.length := by
  simp [editDistance, revDistance]

@[simp] theorem editDistance_nil_right (a : List Char) : editDistance a [] = a.length := by
  rw [editDistance, List.reverse_nil]
  cases h : a.reverse with
  | nil => simp_all [revDistance]
  | cons x r =>
    have := congrArg List.length h
    simp only [List.length_reverse, List.length_cons] at this
    simp [revDistance, this]

theorem editDistance_append_append (a b : List Char) (x y : Char) :
    editDistance (a ++ [x]) (b ++ [y]) =
      min (min (editDistance a (b ++ [y]) + 1) (editDistance (a ++ [x]) b + 1))
        (editDistance a b + if x = y then 0 else 1) := by
  simp only [editDistance, List.reverse_append, List.reverse_cons, List.reverse_nil,
    List.nil_append, List.singleton_append]
  rw [revDistance]

/-- The row of the table for the prefix `p` of the first text: the distances from `p` to the
prefixes of `b`, shortest first. -/
def tableRow (p b : List Char) : List Nat :=
  b.inits.map (editDistance p)

/-- Every list has itself for its last prefix. -/
theorem getLast?_inits {α : Type} (l : List α) : l.inits.getLast? = some l := by
  induction l with
  | nil => rfl
  | cons a l ih =>
    rw [List.inits_cons, List.getLast?_cons, List.getLast?_map, ih]
    rfl

/-- The first prefix of a list is the empty one. -/
theorem inits_eq_nil_cons {α : Type} (l : List α) : l.inits = [] :: l.inits.tail := by
  cases l <;> rfl

/-- The cells of the row for `p ++ [x]` after the one for the prefix `pre` of the second text:
made from the cells of the row for `p` from `pre` on and the cell for `pre` to their left, they
are the distances from `p ++ [x]` to the longer prefixes `pre ++ s`. -/
theorem rowCells_inits (x : Char) (p : List Char) :
    ∀ (ys pre : List Char),
      rowCells x ys (ys.inits.map fun s => editDistance p (pre ++ s))
          (editDistance (p ++ [x]) pre) =
        ys.inits.tail.map fun s => editDistance (p ++ [x]) (pre ++ s)
  | [], pre => by simp [rowCells]
  | y :: ys, pre => by
    -- the diagonal is the cell for `pre`, the cell above the one for `pre ++ [y]`
    have hrest : ys.inits.map (fun s => editDistance p (pre ++ y :: s)) =
        editDistance p (pre ++ [y]) ::
          ys.inits.tail.map fun s => editDistance p (pre ++ [y] ++ s) := by
      rw [inits_eq_nil_cons ys]
      simp
    have hcell : min (min (editDistance p (pre ++ [y]) + 1) (editDistance (p ++ [x]) pre + 1))
        (editDistance p pre + if x = y then 0 else 1) = editDistance (p ++ [x]) (pre ++ [y]) :=
      (editDistance_append_append p pre x y).symm
    have ih := rowCells_inits x p ys (pre ++ [y])
    rw [inits_eq_nil_cons ys, List.map_cons, List.append_nil, List.tail_cons] at ih
    rw [List.inits_cons, List.map_cons, List.map_map, List.append_nil]
    simp only [Function.comp_def]
    rw [hrest, rowCells, hcell, ih, List.tail_cons, inits_eq_nil_cons ys]
    simp [Function.comp_def]

/-- A row made from the row of `p` is the row of `p ++ [x]`. -/
theorem nextRow_tableRow (x : Char) (p b : List Char) :
    nextRow x b (tableRow p b) (p.length + 1) = tableRow (p ++ [x]) b := by
  have hcells := rowCells_inits x p b []
  simp only [List.nil_append, editDistance_nil_right, List.length_append,
    List.length_singleton] at hcells
  have hrow : tableRow (p ++ [x]) b =
      (p.length + 1) :: b.inits.tail.map (editDistance (p ++ [x])) := by
    rw [tableRow, inits_eq_nil_cons b, List.map_cons, editDistance_nil_right]
    simp
  rw [nextRow, tableRow, hcells, hrow]

/-- The loop invariant: from the row of `p`, the rows for the characters `a` end with the row of
`p ++ a`. -/
theorem lastRow_tableRow (b : List Char) :
    ∀ (a p : List Char), lastRow b a (tableRow p b) p.length = tableRow (p ++ a) b
  | [], p => by simp [lastRow]
  | x :: a, p => by
    have hlen : (p ++ [x]).length = p.length + 1 := by simp
    rw [lastRow, nextRow_tableRow, ← hlen, lastRow_tableRow b a]
    simp

/-- The first row counts the characters of each prefix of `b`. -/
theorem range_eq_tableRow_nil (b : List Char) : List.range (b.length + 1) = tableRow [] b := by
  induction b with
  | nil => simp [tableRow]
  | cons y b ih =>
    rw [List.length_cons, List.range_succ_eq_map, ih, tableRow, tableRow, List.inits_cons]
    simp [Function.comp_def]

/-- The rolling rows compute the edit distance. -/
theorem levenshtein_eq_editDistance (a b : List Char) : levenshtein a b = editDistance a b := by
  have hloop := lastRow_tableRow b a []
  rw [List.nil_append, List.length_nil, ← range_eq_tableRow_nil] at hloop
  rw [levenshtein, hloop, tableRow, List.getLast?_map, getLast?_inits]
  rfl

/-- The edit distance of two texts, a row at a time, is the one the recursion on last characters
defines. -/
theorem distance_eq_editDistance (a b : String) :
    distance a b = editDistance a.toList b.toList :=
  levenshtein_eq_editDistance a.toList b.toList

end TinyBasic.Text
