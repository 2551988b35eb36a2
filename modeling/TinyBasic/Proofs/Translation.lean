import TinyBasic.Proofs.Unambiguous
import TinyBasic.Proofs.Spelling
import TinyBasic.Proofs.Emission
import TinyBasic.Compile
/-!
# The translation, line by line

What a compilation writes, said as a translation of the program's tree into lines of C: the
prologue with one declaration for each variable in the order of first assignment, an empty
line, one template for each statement, and the end of `main`. An expression or a comparison
stands as the texts of its tokens, with nothing between them.

The compiler emits its text in fragments into a buffer with two parts, during the one walk
that reads the program; the translation here is stated by whole lines, from the finished tree,
and knows nothing of either. `Program.parse_out` (module `Emission`) says what the walk leaves
in the buffer; this module joins the parts into lines.

* `Stmt.lines`, `Program.variables` and `Program.translation` give the translation.
* `compile_code_eq_translation`: what an accepted source compiles to is the translation of its
  one parse tree, and the buffer holds its prologue and its body.
-/

namespace TinyBasic

/-- Lines of text, each ended by a line feed. -/
def unlines (ls : List String) : String := String.join (ls.map (· ++ "\n"))

@[simp] theorem unlines_nil : unlines [] = "" := rfl

@[simp] theorem unlines_cons (l : String) (ls : List String) :
    unlines (l :: ls) = l ++ "\n" ++ unlines ls := by
  simp [unlines, String.join_cons]

@[simp] theorem unlines_append (a b : List String) :
    unlines (a ++ b) = unlines a ++ unlines b := by
  simp [unlines, String.join_append]

/-- An expression's text: its tokens' texts, with nothing between them. -/
def Expr.text (e : Expr) : String := String.join e.fragments

/-- A comparison's text: its tokens' texts, with nothing between them. -/
def Comparison.text (c : Comparison) : String := String.join c.fragments

mutual

/-- The lines of C a statement stands for. -/
def Stmt.lines (p : Precision) : Stmt → List String
  | .printText v => ["printf(\"" ++ v ++ "\\n\");"]
  | .printValue e => ["printf(\"%." ++ toString p.digits ++ "f\\n\", (float)(" ++ e.text ++ "));"]
  | .ifThen c body => ("if (" ++ c.text ++ ") \x7b") :: Stmt.blockLines p body ++ ["\x7d"]
  | .whileRepeat c body => ("while (" ++ c.text ++ ") \x7b") :: Stmt.blockLines p body ++ ["\x7d"]
  | .label n => [n ++ ":"]
  | .goto n => ["goto " ++ n ++ ";"]
  | .assign n e => [n ++ " = " ++ e.text ++ ";"]
  | .input n =>
    ["if (0 == scanf(\"%f\", &" ++ n ++ ")) \x7b", n ++ " = 0;", "scanf(\"%*s\");", "\x7d"]

/-- The lines of C a run of statements stands for. -/
def Stmt.blockLines (p : Precision) : List Stmt → List String
  | [] => []
  | s :: ss => Stmt.lines p s ++ Stmt.blockLines p ss

end

/-- The variables of a program: the names that its `LET` and `INPUT` statements assign, each
once, in the order of first assignment. -/
def Program.variables (prog : Program) : List String :=
  ((Stmt.blockMarks prog).filterMap Mark.assignName?).eraseDups

/-- The translation of a program: the prologue with its variables, an empty line, its
statements, and the end of `main`. -/
def Program.translation (p : Precision) (prog : Program) : String :=
  unlines (["#include <stdio.h>", "int main(void) \x7b"] ++
    (Program.variables prog).map (fun v => "float " ++ v ++ ";") ++ [""] ++
    Stmt.blockLines p prog ++ ["return 0;", "\x7d"])

/-! ## The fragments make the lines -/

mutual

theorem Stmt.join_fragments (p : Precision) :
    ∀ s : Stmt, String.join (Stmt.fragments p s) = unlines (Stmt.lines p s)
  | .printText v => by simp [Stmt.fragments, Stmt.lines, String.append_assoc]
  | .printValue e => by
    simp [Stmt.fragments, Stmt.lines, Precision.printOpener, Expr.text, String.join_append,
      String.append_assoc]
  | .ifThen c body => by
    simp [Stmt.fragments, Stmt.lines, Comparison.text, String.join_append, String.append_assoc,
      Stmt.join_blockFragments p body]
  | .whileRepeat c body => by
    simp [Stmt.fragments, Stmt.lines, Comparison.text, String.join_append, String.append_assoc,
      Stmt.join_blockFragments p body]
  | .label n => by simp [Stmt.fragments, Stmt.lines, String.append_assoc]
  | .goto n => by simp [Stmt.fragments, Stmt.lines, String.append_assoc]
  | .assign n e => by
    simp [Stmt.fragments, Stmt.lines, Expr.text, String.join_append, String.append_assoc]
  | .input n => by simp [Stmt.fragments, Stmt.lines, String.append_assoc]

theorem Stmt.join_blockFragments (p : Precision) :
    ∀ ss : List Stmt, String.join (Stmt.blockFragments p ss) = unlines (Stmt.blockLines p ss)
  | [] => by simp [Stmt.blockFragments, Stmt.blockLines]
  | s :: ss => by
    simp [Stmt.blockFragments, Stmt.blockLines, String.join_append, Stmt.join_fragments p s,
      Stmt.join_blockFragments p ss]

end

theorem Program.join_header (names : List String) :
    String.join (Program.header names) =
      unlines (["#include <stdio.h>", "int main(void) \x7b"] ++
        names.map fun v => "float " ++ v ++ ";") := by
  simp [Program.header, unlines, List.map_map, Function.comp_def, String.append_assoc]

theorem Program.join_body (p : Precision) (prog : Program) :
    String.join (Program.body p prog) =
      unlines (Stmt.blockLines p prog ++ ["return 0;", "\x7d"]) := by
  simp [Program.body, String.join_append, Stmt.join_blockFragments]

/-- A buffer whose prologue declares `names` and whose body holds the statements of `prog`
reads as the translation of those statements, declaring `names`. -/
theorem Buffer.text_of_parts (p : Precision) (names : List String) (prog : Program)
    (finished : Bool) :
    ({ header := Program.header names, body := Program.body p prog, finished } : Buffer).text =
      unlines (["#include <stdio.h>", "int main(void) \x7b"] ++
        names.map (fun v => "float " ++ v ++ ";") ++ [""] ++
        Stmt.blockLines p prog ++ ["return 0;", "\x7d"]) := by
  simp only [Buffer.text, Program.join_header, Program.join_body]
  simp [String.append_assoc]

/-! ## Accepted sources -/

/-- The parser records the variables of the program it returns. -/
theorem Program.parse_assigned {p : Precision} {file source : String} {r : Parsed}
    (h : Program.parse p file source = .ok r) : r.assigned = Program.variables r.program := by
  rcases Program.parse_eq_ok h with ⟨w, w₁, sc, w₂, hstart, hskip, hread, -, hr⟩
  rcases htok : (TokenStream.start file source).tokens with ⟨ts, e⟩
  rcases (Window.shows_start htok hstart).skipNewlines hskip with ⟨_, -, hw₁, -⟩
  rcases Program.readFrom_sound hread hw₁ with ⟨_, -, -, -, -, hsc⟩
  -- The scope's variables are what the walk over the program's marks keeps.
  have hvars : sc.assigned = (Names.empty.recordAll (Stmt.blockMarks r.program)).assigned := by
    rw [← Scope.names_initial p, ← hsc]
    rfl
  rw [hr]
  exact hvars.trans (Names.recordAll_empty_assigned _)

/-- A compilation is the parse of its source and the buffer the parse filled, finished. -/
theorem compile_eq (p : Precision) (file source : String) :
    compile p file source = (Program.parse p file source).map fun r =>
      ⟨file, r, { r.out with finished := true }, r.out.text⟩ := by
  rw [compile]
  cases hparse : Program.parse p file source with
  | error d => rfl
  | ok r =>
    -- the parse leaves its buffer open, so finishing it succeeds
    have hopen : r.out.finished = false := by rw [Program.parse_out hparse]
    simp only [bind, Except.bind, Buffer.finish, hopen]
    rfl

theorem compile_eq_ok {p : Precision} {file source : String} {c : Compilation}
    (h : compile p file source = .ok c) :
    Program.parse p file source = .ok c.parsed ∧ c.buffer = { c.parsed.out with finished := true } ∧
      c.code = c.parsed.out.text := by
  rw [compile_eq] at h
  cases hparse : Program.parse p file source with
  | error d =>
    rw [hparse] at h
    cases h
  | ok r =>
    rw [hparse] at h
    cases h
    exact ⟨rfl, rfl, rfl⟩

/-- The text of a compilation is the translation of the program it read. -/
theorem compile_code {p : Precision} {file source : String} {c : Compilation}
    (h : compile p file source = .ok c) : c.code = Program.translation p c.parsed.program := by
  obtain ⟨hparse, -, hcode⟩ := compile_eq_ok h
  rw [hcode, Program.parse_out hparse, Buffer.text_of_parts, Program.parse_assigned hparse]
  rfl

/-- A source whose tokens form a well-scoped program compiles, to that program's translation. -/
theorem compile_complete {p : Precision} {file source : String} {ts : List Token} {prog : Program}
    (htok : (TokenStream.start file source).tokens = (ts, none)) (hs : SentenceOf ts prog)
    (hsc : WellScoped prog) :
    ∃ c, compile p file source = .ok c ∧ c.parsed.program = prog ∧
      c.code = Program.translation p prog := by
  obtain ⟨r, hr, hprog⟩ := Program.parse_complete (p := p) htok hs hsc
  have hc := compile_eq p file source
  rw [hr] at hc
  refine ⟨_, hc, hprog, ?_⟩
  rw [compile_code hc]
  exact congrArg (Program.translation p) hprog

/-- What an accepted source compiles to is the translation of its parse tree: the scanner reads
the whole source into tokens that form a sentence of the grammar for exactly one program, the
one returned; the buffer the parse filled while it read holds the prologue declaring the
program's variables and the body of its statements; the text is that program's translation; and
each expression or comparison among the tokens is translated as the texts of its tokens, with
nothing between them. -/
theorem compile_code_eq_translation {p : Precision} {file source : String} {c : Compilation}
    (h : compile p file source = .ok c) :
    ∃ ts, (TokenStream.start file source).tokens = (ts, none) ∧
      SentenceOf ts c.parsed.program ∧ (∀ prog, SentenceOf ts prog → prog = c.parsed.program) ∧
      c.buffer.header = Program.header (Program.variables c.parsed.program) ∧
      c.buffer.body = Program.body p c.parsed.program ∧
      c.code = Program.translation p c.parsed.program ∧
      ∀ l rest, l <:+ ts →
        (∀ x, ExprOf l x rest → ∃ ph, l = ph ++ rest ∧ String.join (ph.map Token.text) = x.text) ∧
        (∀ cmp, ComparisonOf l cmp rest →
          ∃ ph, l = ph ++ rest ∧ String.join (ph.map Token.text) = cmp.text) := by
  obtain ⟨hparse, hbuffer, -⟩ := compile_eq_ok h
  obtain ⟨ts, htok, hs, -⟩ := Program.parse_sound hparse
  -- the buffer is the one the walk filled, with the parts its simulation gives
  have hout := Program.parse_out hparse
  rw [Program.parse_assigned hparse] at hout
  refine ⟨ts, htok, hs, fun prog hprog => hprog.unique hs, ?_, ?_, compile_code h, ?_⟩
  · rw [hbuffer, hout]
  · rw [hbuffer, hout]
  · -- Every suffix of the scanner's tokens is spelled as the kinds say.
    intro l rest hl
    have hsp : AllSpelled l := fun t ht => TokenStream.tokens_spelled htok t (hl.subset ht)
    refine ⟨fun x hx => ?_, fun cmp hc => ?_⟩
    · obtain ⟨ph, hph, htexts⟩ := hx.texts hsp
      exact ⟨ph, hph, by rw [htexts]; rfl⟩
    · obtain ⟨ph, hph, htexts⟩ := hc.texts hsp
      exact ⟨ph, hph, by rw [htexts]; rfl⟩

/-- A program that reads a number and prints it. -/
theorem compile_input_print :
    ∃ c, compile default "w" "INPUT n\nPRINT n" = .ok c ∧
      c.code = "#include <stdio.h>\nint main(void) \x7b\nfloat n;\n\n" ++
        "if (0 == scanf(\"%f\", &n)) \x7b\nn = 0;\nscanf(\"%*s\");\n\x7d\n" ++
        "printf(\"%.2f\\n\", (float)(n));\nreturn 0;\n\x7d\n" := by
  -- The scanner's tokens, computed.
  let ts : List Token :=
    [⟨.inputKw, "INPUT", 1, 1⟩, ⟨.identifier, "n", 1, 7⟩, ⟨.newline, "\n", 1, 8⟩,
      ⟨.printKw, "PRINT", 2, 1⟩, ⟨.identifier, "n", 2, 7⟩, ⟨.newline, "\n", 2, 8⟩,
      ⟨.eof, "", 3, 1⟩]
  have htok : (TokenStream.start "w" "INPUT n\nPRINT n").tokens = (ts, none) := by
    have hts : (TokenStream.start "w" "INPUT n\nPRINT n").tokens.1 = ts := by decide +kernel
    have he : (TokenStream.start "w" "INPUT n\nPRINT n").tokens.2.isNone = true := by
      decide +kernel
    exact Prod.ext hts (Option.isNone_iff_eq_none.1 he)
  let prog : Program := [.input "n", .printValue ⟨⟨⟨none, .var "n"⟩, []⟩, []⟩]
  have hs : SentenceOf ts prog :=
    .mk .nil (.cons (.input rfl rfl (.mk rfl .nil))
      (.cons (.printValue rfl (.mk (.mk (.bare rfl) .nil) .nil) (.mk rfl .nil)) .nil)) rfl
  have hsc : WellScoped prog := by
    have hadm := Names.admits_empty_iff.1
      (show Names.empty.Admits [.assign "n", .read "n"] from
        ⟨trivial, List.mem_singleton_self _, trivial⟩)
    refine ⟨hadm.1, hadm.2, ?_⟩
    intro n hn
    simp [prog, Stmt.blockMarks, Stmt.marks, Expr.marks, Term.marks, Factor.marks,
      Atom.marks] at hn
  obtain ⟨r, hr, hprog⟩ := Program.parse_complete (p := default) htok hs hsc
  have hc := compile_eq default "w" "INPUT n\nPRINT n"
  rw [hr] at hc
  refine ⟨_, hc, ?_⟩
  obtain ⟨_, _, _, _, _, _, hcode, _⟩ := compile_code_eq_translation hc
  rw [hcode]
  dsimp only
  rw [hprog]
  decide

end TinyBasic
