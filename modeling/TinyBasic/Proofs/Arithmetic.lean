import TinyBasic.Proofs.C.Reading
import TinyBasic.Proofs.C.Value
/-!
# The arithmetic of expressions, in the dialect and in C

In the dialect every value is a number: numbers are read in decimal and `/` is exact division
(`Expr.value`). The translation copies an expression's text into C, where the same text is
typed: a number without a point is an integer constant, octal after a leading `0`, and `/`
between two integers truncates toward zero.

* `Expr.exact_tree`: the value of an expression is the exact reading of its tree.
* `Expr.c_value_iff`: C gives the text of an expression the expression's own value, and no
  other, when C reads the text as the expression, every number has the same value in C, and no
  `/` divides two integers.
-/

namespace TinyBasic

/-! ## Values in the dialect -/

section Values

variable (ρ : String → ℚ)

/-- The value of an operand: a number in decimal, a variable its value in `ρ`. -/
def Atom.value : Atom → ℚ
  | .number t => C.decimalValue t.toList
  | .var n => ρ n

/-- The value of a factor: its operand's, negated after a minus sign. -/
def Factor.value (f : Factor) : ℚ :=
  match f.sign with
  | some .minus => -f.atom.value ρ
  | _ => f.atom.value ρ

/-- Multiplication, or exact division, which has no value by zero. -/
def MulOp.apply : MulOp → ℚ → ℚ → Option ℚ
  | .mul, x, y => some (x * y)
  | .div, x, y => if y = 0 then none else some (x / y)

/-- Addition or subtraction. -/
def AddOp.apply : AddOp → ℚ → ℚ → ℚ
  | .add, x, y => x + y
  | .sub, x, y => x - y

/-- The value of a term, its factors combined from the left. -/
def Term.value (t : Term) : Option ℚ :=
  t.rest.foldl (fun acc p => acc.bind fun x => p.1.apply x (p.2.value ρ))
    (some (t.first.value ρ))

/-- The value of an expression, its terms combined from the left. -/
def Expr.value (e : Expr) : Option ℚ :=
  e.rest.foldl (fun acc p => acc.bind fun x => (p.2.value ρ).map (p.1.apply x))
    (e.first.value ρ)

end Values

/-- Variables named by their characters. -/
def onChars (ρ : String → ℚ) (n : List Char) : ℚ :=
  ρ (String.ofList n)

/-- The value C gives a text: the value of the tree it reads from it. -/
def C.ValueOf (text : String) (ρ : List Char → ℚ) (v : ℚ) : Prop :=
  ∃ tree, C.Reads text tree ∧ (tree.eval ρ).map C.Value.toRat = some v

/-- A number that C reads as a constant of the same value; a variable always passes. -/
def Atom.readsAlike : Atom → Bool
  | .number t =>
    C.isConstant t.toList && (C.constantValue t.toList).toRat == C.decimalValue t.toList
  | .var _ => true

/-! ## The exact reading of the tree -/

section Exact

variable (ρ : String → ℚ)

theorem Atom.exact_tree (a : Atom) : a.tree.exact (onChars ρ) = some (a.value ρ) := by
  cases a with
  | number t => rfl
  | var n => simp [Atom.tree, C.Tree.exact, Atom.value, onChars]

theorem Factor.exact_tree (f : Factor) : f.tree.exact (onChars ρ) = some (f.value ρ) := by
  rcases hs : f.sign with _ | _ | _ <;>
    simp [Factor.tree, Factor.value, hs, C.Tree.exact, Atom.exact_tree]

/-- Folding nodes onto a tree is read exactly as folding their steps onto its value. -/
theorem C.Tree.exact_foldl {α : Type} (ρ' : List Char → ℚ) (f : C.Tree → α → C.Tree)
    (g : Option ℚ → α → Option ℚ) (hfg : ∀ a p, (f a p).exact ρ' = g (a.exact ρ') p)
    (rest : List α) (acc : C.Tree) :
    (rest.foldl f acc).exact ρ' = rest.foldl g (acc.exact ρ') := by
  induction rest generalizing acc with
  | nil => rfl
  | cons p rest ih => simp only [List.foldl_cons, ih, hfg]

/-- One factor more applies its operator to the value so far, in the tree as in the term. -/
theorem Term.exact_step (a : C.Tree) (p : MulOp × Factor) :
    (C.Tree.multiplicative p.1 a p.2.tree).exact (onChars ρ) =
      (a.exact (onChars ρ)).bind fun x => p.1.apply x (p.2.value ρ) := by
  obtain ⟨o, f⟩ := p
  cases o <;> cases ha : a.exact (onChars ρ) <;>
    simp [C.Tree.exact, ha, Factor.exact_tree, MulOp.apply]

theorem Term.exact_tree (t : Term) : t.tree.exact (onChars ρ) = t.value ρ := by
  rw [Term.tree, Term.value, C.Tree.exact_foldl _
    (fun a (p : MulOp × Factor) => .multiplicative p.1 a p.2.tree)
    (fun acc p => acc.bind fun x => p.1.apply x (p.2.value ρ)) (Term.exact_step ρ),
    Factor.exact_tree]

/-- One term more applies its operator to the value so far. -/
theorem Expr.exact_step (a : C.Tree) (p : AddOp × Term) :
    (C.Tree.additive p.1 a p.2.tree).exact (onChars ρ) =
      (a.exact (onChars ρ)).bind fun x => (p.2.value ρ).map (p.1.apply x) := by
  obtain ⟨o, t⟩ := p
  cases o <;> cases ha : a.exact (onChars ρ) <;> cases ht : t.value ρ <;>
    simp [C.Tree.exact, ha, Term.exact_tree, ht, AddOp.apply]

/-- The value of an expression is the exact reading of its tree. -/
theorem Expr.exact_tree (e : Expr) : e.tree.exact (onChars ρ) = e.value ρ := by
  rw [Expr.tree, Expr.value, C.Tree.exact_foldl _
    (fun a (p : AddOp × Term) => .additive p.1 a p.2.tree)
    (fun acc p => acc.bind fun x => (p.2.value ρ).map (p.1.apply x)) (Expr.exact_step ρ),
    Term.exact_tree]

end Exact

/-! ## Constants -/

theorem Factor.constants_tree (f : Factor) :
    f.tree.constants = match f.atom with
      | .number t => [t.toList]
      | .var _ => [] := by
  rcases hs : f.sign with _ | s <;> cases ha : f.atom <;>
    simp [Factor.tree, hs, ha, Atom.tree, C.Tree.constants]

/-- Folding nodes onto a tree adds the constants of each node after the tree's own. -/
theorem C.Tree.constants_foldl {α : Type} (f : C.Tree → α → C.Tree)
    (extra : α → List (List Char)) (hf : ∀ a p, (f a p).constants = a.constants ++ extra p)
    (rest : List α) (acc : C.Tree) :
    (rest.foldl f acc).constants = acc.constants ++ rest.flatMap extra := by
  induction rest generalizing acc with
  | nil => simp
  | cons p rest ih => simp [ih, hf]

/-- The constants of a factor's tree are the spelling of its number, if it has one. -/
theorem Factor.mem_constants_tree {f : Factor} {s : List Char} (hs : s ∈ f.tree.constants) :
    ∃ t, f.atom = .number t ∧ s = t.toList := by
  rw [Factor.constants_tree] at hs
  cases ha : f.atom with
  | number t => simp_all
  | var n => simp_all

theorem Term.mem_constants_tree {t : Term} {s : List Char} (hs : s ∈ t.tree.constants) :
    ∃ n, Atom.number n ∈ t.atoms ∧ s = n.toList := by
  rw [Term.tree, C.Tree.constants_foldl _ (fun p => p.2.tree.constants) fun _ _ => rfl] at hs
  rcases List.mem_append.1 hs with hs | hs
  · obtain ⟨n, ha, rfl⟩ := Factor.mem_constants_tree hs
    exact ⟨n, ha ▸ List.mem_cons_self, rfl⟩
  · obtain ⟨p, hp, hs⟩ := List.mem_flatMap.1 hs
    obtain ⟨n, ha, rfl⟩ := Factor.mem_constants_tree hs
    exact ⟨n, List.mem_cons_of_mem _ (List.mem_map.2 ⟨p, hp, ha⟩), rfl⟩

theorem Expr.mem_constants_tree {e : Expr} {s : List Char} (hs : s ∈ e.tree.constants) :
    ∃ n, Atom.number n ∈ e.atoms ∧ s = n.toList := by
  rw [Expr.tree, C.Tree.constants_foldl _ (fun p => p.2.tree.constants) fun _ _ => rfl] at hs
  rcases List.mem_append.1 hs with hs | hs
  · obtain ⟨n, ha, rfl⟩ := Term.mem_constants_tree hs
    exact ⟨n, List.mem_append_left _ ha, rfl⟩
  · obtain ⟨p, hp, hs⟩ := List.mem_flatMap.1 hs
    obtain ⟨n, ha, rfl⟩ := Term.mem_constants_tree hs
    exact ⟨n, List.mem_append_right _ (List.mem_flatMap.2 ⟨p, hp, ha⟩), rfl⟩

/-! ## Where C computes the expression's value -/

/-- C gives the text of an expression the expression's own value, and no other, when C reads
the text as the expression (no binary `+` or `-` runs into a like sign), every number is a C
constant with its decimal value, and no `/` of the expression divides two integers; a division
by zero leaves both without a value. -/
theorem Expr.c_value_iff (e : Expr) (ρ : String → ℚ) (hs : ∀ a ∈ e.atoms, a.scanned = true)
    (hf : e.fused = false) (halike : ∀ a ∈ e.atoms, a.readsAlike = true)
    (hdiv : e.tree.intDivision = false) (v : ℚ) :
    C.ValueOf e.text (onChars ρ) v ↔ e.value ρ = some v := by
  have hconst : ∀ a ∈ e.atoms, a.isConstant = true := by
    intro a ha
    have h := halike a ha
    cases a with
    | number t =>
      simp only [Atom.readsAlike, Bool.and_eq_true] at h
      exact h.1
    | var n => rfl
  -- every constant of the tree has its decimal value in C
  have hvalue : ∀ s ∈ e.tree.constants, (C.constantValue s).toRat = C.decimalValue s := by
    intro s hs'
    obtain ⟨n, hn, rfl⟩ := Expr.mem_constants_tree hs'
    have h := halike _ hn
    simp only [Atom.readsAlike, Bool.and_eq_true, beq_iff_eq] at h
    exact h.2
  have heval := C.Tree.eval_toRat (onChars ρ) hdiv hvalue
  constructor
  · rintro ⟨tree, hread, hv⟩
    obtain ⟨-, rfl⟩ := (Expr.reads_iff hs hf tree).1 hread
    rw [heval, Expr.exact_tree] at hv
    exact hv
  · intro hv
    refine ⟨e.tree, (Expr.reads_iff hs hf e.tree).2 ⟨hconst, rfl⟩, ?_⟩
    rw [heval, Expr.exact_tree, hv]

/-- `x/2`: a variable over a whole number is divided exactly. -/
theorem c_value_iff_variable_over_two :
    ∃ e : Expr, e.text = "x/2" ∧ (∀ a ∈ e.atoms, a.scanned = true) ∧ e.fused = false ∧
      (∀ a ∈ e.atoms, a.readsAlike = true) ∧ e.tree.intDivision = false ∧
      ∀ ρ v, C.ValueOf e.text (onChars ρ) v ↔ e.value ρ = some v :=
  ⟨⟨⟨⟨none, .var "x"⟩, [(.div, ⟨none, .number "2"⟩)]⟩, []⟩, by decide, by decide, rfl,
    by decide +kernel, rfl,
    fun ρ => Expr.c_value_iff _ ρ (by decide) rfl (by decide +kernel) rfl⟩

/-- `LET a = 1/2` compiles to `a = 1/2;`, where C divides two integers: it computes `0`, and
the dialect `1/2`. -/
theorem compile_truncates_division :
    ∃ c e, compile default "<input>" "LET a = 1/2" = .ok c ∧
      c.parsed.program = [.assign "a" e] ∧
      c.code = "#include <stdio.h>\nint main(void) \x7b\nfloat a;\n\na = 1/2;\nreturn 0;\n\x7d\n" ∧
      (∀ ρ, C.ValueOf e.text ρ 0) ∧ ∀ ρ, e.value ρ = some (1 / 2) := by
  let ts : List Token :=
    [⟨.letKw, "LET", 1, 1⟩, ⟨.identifier, "a", 1, 5⟩, ⟨.eq, "=", 1, 7⟩, ⟨.number, "1", 1, 9⟩,
      ⟨.slash, "/", 1, 10⟩, ⟨.number, "2", 1, 11⟩, ⟨.newline, "\n", 1, 12⟩, ⟨.eof, "", 2, 1⟩]
  have htok : (TokenStream.start "<input>" "LET a = 1/2").tokens = (ts, none) := by
    have hts : (TokenStream.start "<input>" "LET a = 1/2").tokens.1 = ts := by decide +kernel
    have he : (TokenStream.start "<input>" "LET a = 1/2").tokens.2.isNone = true := by
      decide +kernel
    exact Prod.ext hts (Option.isNone_iff_eq_none.1 he)
  let e : Expr := ⟨⟨⟨none, .number "1"⟩, [(.div, ⟨none, .number "2"⟩)]⟩, []⟩
  have hs : SentenceOf ts [.assign "a" e] :=
    .mk .nil (.cons (.assign rfl rfl rfl
      (.mk (.mk (.bare rfl) (.cons rfl (.bare rfl) .nil)) .nil) (.mk rfl .nil)) .nil) rfl
  obtain ⟨c, hc, hprog, hcode⟩ := compile_complete htok hs (WellScoped.assign rfl)
  -- no variable is read, so the value does not depend on `ρ`
  have hvalue : ∀ ρ, e.value ρ = some (1 / 2) := fun _ =>
    show e.value (fun _ => 0) = some (1 / 2) by decide +kernel
  refine ⟨c, e, hc, hprog, by rw [hcode]; decide, fun ρ => ?_, hvalue⟩
  -- C reads the expression's own tree and divides the integer constants
  refine ⟨e.tree, (Expr.reads_iff (by decide) rfl e.tree).2 ⟨by decide, rfl⟩, ?_⟩
  rfl

end TinyBasic
