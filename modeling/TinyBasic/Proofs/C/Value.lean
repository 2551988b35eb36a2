import TinyBasic.Proofs.C.Expression
import Mathlib.Data.Rat.Cast.Defs
/-!
# The values of C expressions

What C computes for a tree of `C.Tree`, with its integer types taken as unbounded integers and
its floating types as exact rationals.

* A constant with a point is a floating constant with its decimal value; one without is an
  integer constant, read in octal when it starts with `0` (C17 6.4.4.1). A variable is a
  `float`.
* A binary operator converts as the usual arithmetic conversions do (6.3.1.8): two integers
  give an integer, anything else a floating value. `/` on two integers truncates toward zero
  (6.5.5p6); a division by zero has no value.
* `Tree.exact` is the other reading of the same tree, in which every value is a rational,
  constants are read in decimal and `/` is exact division.
* `Tree.eval_toRat`: the two readings agree when no `/` divides two integers and every constant
  has the same value in C as in decimal.
-/

namespace TinyBasic.C

/-- An arithmetic value: of an integer type or of a floating type. -/
inductive Value where
  | int (n : ℤ)
  | float (q : ℚ)
  deriving DecidableEq, Repr

/-- The number a value stands for. -/
def Value.toRat : Value → ℚ
  | .int n => n
  | .float q => q

/-- Whether a value has an integer type. -/
def Value.isInt : Value → Bool
  | .int _ => true
  | .float _ => false

/-- Unary minus keeps the type. -/
def Value.neg : Value → Value
  | .int n => .int (-n)
  | .float q => .float (-q)

/-- A binary operator under the usual arithmetic conversions. -/
def Value.arith (fi : ℤ → ℤ → ℤ) (fq : ℚ → ℚ → ℚ) : Value → Value → Value
  | .int a, .int b => .int (fi a b)
  | x, y => .float (fq x.toRat y.toRat)

/-- Division: of two integers truncated toward zero, and none by zero. -/
def Value.div (x y : Value) : Option Value :=
  if y.toRat = 0 then none
  else
    match x, y with
    | .int a, .int b => some (.int (a.tdiv b))
    | x, y => some (.float (x.toRat / y.toRat))

/-- The number that digits spell in a base. -/
def digitsValue (base : Nat) (ds : List Char) : Nat :=
  ds.foldl (fun n d => base * n + (d.toNat - '0'.toNat)) 0

/-- Digits with at most one point, read in decimal. -/
def decimalValue (s : List Char) : ℚ :=
  let whole := s.takeWhile Char.isDigit
  match s.drop whole.length with
  | '.' :: frac =>
    (digitsValue 10 whole : ℚ) + (digitsValue 10 frac : ℚ) / (Nat.pow 10 frac.length : ℚ)
  | _ => digitsValue 10 whole

/-- The value of a constant: floating with a point, otherwise an integer, octal after a
leading `0`. -/
def constantValue (s : List Char) : Value :=
  let whole := s.takeWhile Char.isDigit
  match s.drop whole.length, whole with
  | '.' :: _, _ => .float (decimalValue s)
  | _, '0' :: _ => .int (digitsValue 8 whole)
  | _, _ => .int (digitsValue 10 whole)

/-- Whether a tree has an integer type: a constant without a point, or operators over
integers only. -/
def Tree.isInt : Tree → Bool
  | .identifier _ => false
  | .constant s => (constantValue s).isInt
  | .unary _ e => e.isInt
  | .multiplicative _ a b | .additive _ a b => a.isInt && b.isInt

/-- Some `/` of the tree divides two integers. -/
def Tree.intDivision : Tree → Bool
  | .identifier _ | .constant _ => false
  | .unary _ e => e.intDivision
  | .multiplicative .div a b => (a.isInt && b.isInt) || a.intDivision || b.intDivision
  | .multiplicative .mul a b | .additive _ a b => a.intDivision || b.intDivision

/-- The constants of a tree. -/
def Tree.constants : Tree → List (List Char)
  | .identifier _ => []
  | .constant s => [s]
  | .unary _ e => e.constants
  | .multiplicative _ a b | .additive _ a b => a.constants ++ b.constants

/-- What C computes for a tree, the variables having the values `ρ`. -/
def Tree.eval (ρ : List Char → ℚ) : Tree → Option Value
  | .identifier n => some (.float (ρ n))
  | .constant s => some (constantValue s)
  | .unary .plus e => e.eval ρ
  | .unary .minus e => (e.eval ρ).map Value.neg
  | .multiplicative .mul a b => do
    let x ← a.eval ρ
    let y ← b.eval ρ
    pure (Value.arith (· * ·) (· * ·) x y)
  | .multiplicative .div a b => do
    let x ← a.eval ρ
    let y ← b.eval ρ
    x.div y
  | .additive .add a b => do
    let x ← a.eval ρ
    let y ← b.eval ρ
    pure (Value.arith (· + ·) (· + ·) x y)
  | .additive .sub a b => do
    let x ← a.eval ρ
    let y ← b.eval ρ
    pure (Value.arith (· - ·) (· - ·) x y)

/-- The exact reading of a tree: every value a rational, constants in decimal, `/` exact. -/
def Tree.exact (ρ : List Char → ℚ) : Tree → Option ℚ
  | .identifier n => some (ρ n)
  | .constant s => some (decimalValue s)
  | .unary .plus e => e.exact ρ
  | .unary .minus e => (e.exact ρ).map (- ·)
  | .multiplicative .mul a b => do
    let x ← a.exact ρ
    let y ← b.exact ρ
    pure (x * y)
  | .multiplicative .div a b => do
    let x ← a.exact ρ
    let y ← b.exact ρ
    if y = 0 then none else pure (x / y)
  | .additive .add a b => do
    let x ← a.exact ρ
    let y ← b.exact ρ
    pure (x + y)
  | .additive .sub a b => do
    let x ← a.exact ρ
    let y ← b.exact ρ
    pure (x - y)

/-! ## Types and values -/

@[simp] theorem Value.toRat_int (n : ℤ) : (Value.int n).toRat = n := rfl

@[simp] theorem Value.toRat_float (q : ℚ) : (Value.float q).toRat = q := rfl

@[simp] theorem Value.toRat_neg (x : Value) : x.neg.toRat = -x.toRat := by
  cases x <;> simp [Value.neg, Value.toRat]

/-- An operator whose integer form agrees with its rational form computes the rational form
of the operands' values. -/
theorem Value.toRat_arith {fi : ℤ → ℤ → ℤ} {fq : ℚ → ℚ → ℚ}
    (h : ∀ a b : ℤ, ((fi a b : ℤ) : ℚ) = fq a b) (x y : Value) :
    (Value.arith fi fq x y).toRat = fq x.toRat y.toRat := by
  cases x <;> cases y <;> simp [Value.arith, Value.toRat, h]

/-- Outside two integers, division is exact. -/
theorem Value.div_of_not_int {x y : Value} (h : (x.isInt && y.isInt) = false) :
    x.div y = if y.toRat = 0 then none else some (.float (x.toRat / y.toRat)) := by
  cases x <;> cases y <;> simp_all [Value.div, Value.isInt]

/-- The value C computes has the tree's type. -/
theorem Tree.eval_isInt (ρ : List Char → ℚ) {t : Tree} {v : Value} (h : t.eval ρ = some v) :
    v.isInt = t.isInt := by
  induction t generalizing v with
  | identifier n =>
    simp only [Tree.eval, Option.some.injEq] at h
    subst h
    rfl
  | constant s =>
    simp only [Tree.eval, Option.some.injEq] at h
    subst h
    rfl
  | unary s e ih =>
    cases s with
    | plus => exact ih h
    | minus =>
      obtain ⟨x, hx, rfl⟩ := Option.map_eq_some_iff.1 h
      cases x <;> simpa [Value.neg, Value.isInt, Tree.isInt] using ih hx
  | multiplicative o a b iha ihb =>
    cases o with
    | mul =>
      simp only [Tree.eval, Option.bind_eq_bind, Option.bind_eq_some_iff, Option.pure_def,
        Option.some.injEq] at h
      obtain ⟨x, hx, y, hy, rfl⟩ := h
      rw [Tree.isInt, ← iha hx, ← ihb hy]
      cases x <;> cases y <;> rfl
    | div =>
      simp only [Tree.eval, Option.bind_eq_bind, Option.bind_eq_some_iff] at h
      obtain ⟨x, hx, y, hy, hxy⟩ := h
      rw [Tree.isInt, ← iha hx, ← ihb hy]
      cases x <;> cases y <;> simp only [Value.div] at hxy <;> split at hxy <;> cases hxy <;> rfl
  | additive o a b iha ihb =>
    cases o <;>
    · simp only [Tree.eval, Option.bind_eq_bind, Option.bind_eq_some_iff, Option.pure_def,
        Option.some.injEq] at h
      obtain ⟨x, hx, y, hy, rfl⟩ := h
      rw [Tree.isInt, ← iha hx, ← ihb hy]
      cases x <;> cases y <;> rfl

/-- Where no `/` divides two integers and every constant has its decimal value, C computes the
exact value of the tree, and has none exactly where a division by zero leaves it none. -/
theorem Tree.eval_toRat (ρ : List Char → ℚ) {t : Tree} (hdiv : t.intDivision = false)
    (hconst : ∀ s ∈ t.constants, (constantValue s).toRat = decimalValue s) :
    (t.eval ρ).map Value.toRat = t.exact ρ := by
  induction t with
  | identifier n => rfl
  | constant s => simp [Tree.eval, Tree.exact, hconst s (by simp [Tree.constants])]
  | unary s e ih =>
    have he := ih hdiv hconst
    cases s with
    | plus => exact he
    | minus =>
      simp only [Tree.eval, Tree.exact, ← he, Option.map_map]
      congr 1
      funext x
      simp
  | multiplicative o a b iha ihb =>
    have hda : a.intDivision = false := by cases o <;> simp_all [Tree.intDivision]
    have hdb : b.intDivision = false := by cases o <;> simp_all [Tree.intDivision]
    have ha := iha hda fun s hs => hconst s (List.mem_append_left _ hs)
    have hb := ihb hdb fun s hs => hconst s (List.mem_append_right _ hs)
    cases o with
    | mul =>
      simp only [Tree.eval, Tree.exact, ← ha, ← hb]
      cases a.eval ρ <;> cases b.eval ρ <;>
        simp [Value.toRat_arith (fun a b => Int.cast_mul a b)]
    | div =>
      -- the operands are not both integers, so C divides exactly
      have hint : (a.isInt && b.isInt) = false := by simp_all [Tree.intDivision]
      simp only [Tree.eval, Tree.exact, ← ha, ← hb]
      cases hx : a.eval ρ with
      | none => rfl
      | some x =>
        cases hy : b.eval ρ with
        | none => rfl
        | some y =>
          have hxy : (x.isInt && y.isInt) = false := by
            rw [Tree.eval_isInt ρ hx, Tree.eval_isInt ρ hy, hint]
          simp only [Option.bind_eq_bind, Option.bind_some, Value.div_of_not_int hxy]
          split <;> simp [*]
  | additive o a b iha ihb =>
    have ha := iha (by simp_all [Tree.intDivision])
      fun s hs => hconst s (List.mem_append_left _ hs)
    have hb := ihb (by simp_all [Tree.intDivision])
      fun s hs => hconst s (List.mem_append_right _ hs)
    cases o <;> simp only [Tree.eval, Tree.exact, ← ha, ← hb] <;>
      cases a.eval ρ <;> cases b.eval ρ <;>
      simp [Value.toRat_arith (fun a b => Int.cast_add a b),
        Value.toRat_arith (fun a b => Int.cast_sub a b)]

end TinyBasic.C
