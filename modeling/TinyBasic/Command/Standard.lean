import TinyBasic.Command
import TinyBasic.Text.Numeral
import TinyBasic.Text.Style
/-!
# The standard reading of the command line

The reading of the command line that the executable uses.

Arguments are read from the left. `--` ends the options. A long option takes its value after
`=` or as the next argument; short options may be run together, and a short option that takes
a value takes the rest of its argument, or the next argument. Options and the input may come in
any order.

Gathered arguments are then looked at in a fixed order (`Settings.ofCollected`): `--version`
and `--help` first, in the order given, each printing its text and ending the run; then the
other options in the order they were first given; then the input. The last output path must
name a file that is no directory, and the last precision must be a whole number from 0 to 17; a
path holding a NUL character names no file, and ends the run with code 1 and nothing printed.

Text printed where no terminal reads it loses its style codes.

* `collect` reads the arguments, or fails with an `ArgFault`.
* `Collected.checkOrder` is the order the options are looked at in.
* `Settings.ofCollected` checks gathered arguments.
* `CommandLine.standard` puts the three together.
-/

namespace TinyBasic

namespace Collected

/-- The options given, each once, in the order they were first given. -/
def firstGiven (c : Collected) : List Opt :=
  c.given.foldl (fun acc g => if acc.contains g.1 then acc else acc ++ [g.1]) []

/-- The options given in the order they are looked at: those that stop the run at once first. -/
def checkOrder (c : Collected) : List Opt :=
  c.firstGiven.filter Opt.isEager ++ c.firstGiven.filter (!·.isEager)

end Collected

/-! ## Reading the arguments -/

/-- Reads a cluster of short options: the letters `cs`, then the arguments `rest`. A letter
that takes a value takes the rest of the cluster, or else the next argument. Gives what was
gathered and the arguments left. -/
def collectShort (c : Collected) (rest : List String) :
    List Char → Except ArgFault (Collected × List String)
  | [] => .ok (c, rest)
  | ch :: more =>
    match Opt.ofShort ch with
    | none => .error .unknown
    | some o =>
      if o.takesValue then
        if more.isEmpty then
          match rest with
          | v :: rest' => .ok (c.add o v, rest')
          | [] => .error (.valueMissing (String.ofList ['-', ch]))
        else .ok (c.add o (String.ofList more), rest)
      else collectShort (c.add o "") rest more

/-- Reading a cluster takes at most one more argument. -/
theorem collectShort_length {c c' : Collected} {rest rest' : List String} {cs : List Char}
    (h : collectShort c rest cs = .ok (c', rest')) : rest'.length ≤ rest.length := by
  induction cs generalizing c with
  | nil =>
    simp only [collectShort, Except.ok.injEq, Prod.mk.injEq] at h
    obtain ⟨-, rfl⟩ := h
    exact Nat.le_refl _
  | cons ch more ih =>
    simp only [collectShort] at h
    split at h
    · simp at h
    · split at h
      · split at h
        · split at h
          · simp only [Except.ok.injEq, Prod.mk.injEq] at h
            rw [← h.2]
            simp
          · simp at h
        · simp only [Except.ok.injEq, Prod.mk.injEq] at h
          obtain ⟨-, rfl⟩ := h
          exact Nat.le_refl _
      · exact ih h

/-- Splits a long option at its first `=`: the name, and the value after it if there is one. -/
def splitLong (a : String) : String × Option String :=
  match (a.toList.splitOn '=').map String.ofList with
  | [] => (a, none)
  | [n] => (n, none)
  | n :: vs => (n, some ("=".intercalate vs))

/-- Reads the arguments from the left. -/
def collect (c : Collected) : List String → Except ArgFault Collected
  | [] => .ok c
  | a :: rest =>
    if a = "--" then .ok { c with positionals := c.positionals ++ rest }
    else if a.startsWith "-" && a.length > 1 then
      let (name, explicit) := splitLong a
      match Opt.ofLong name with
      | some o =>
        if o.takesValue then
          match explicit with
          | some v => collect (c.add o v) rest
          | none =>
            match rest with
            | v :: rest' => collect (c.add o v) rest'
            | [] => .error (.valueMissing name)
        else if explicit.isSome then .error (.valueNotTaken name)
        else collect (c.add o "") rest
      | none =>
        if a.startsWith "--" then .error .unknown
        else
          match h : collectShort c rest (a.toList.drop 1) with
          | .ok (c', rest') =>
            have : rest'.length < rest.length + 1 := Nat.lt_succ_of_le (collectShort_length h)
            collect c' rest'
          | .error f => .error f
    else collect { c with positionals := c.positionals ++ [a] } rest
termination_by args => args.length

/-! ## Checking them -/

/-- The name and version the command reports. -/
def versionLine : String := "b2c, version 1.0.0"

/-- The usage of the command run under the name `prog`, with a line on each option. -/
def helpText (prog : String) : String :=
  "\n".intercalate [
    "Usage: " ++ prog ++ " [OPTIONS] INPUT_FILE",
    "",
    "  Translate a BASIC program to C.",
    "",
    "  INPUT_FILE is the BASIC source file (.bas) to translate.",
    "",
    "  Examples:",
    "      b2c hello.bas                # Outputs hello.c",
    "      b2c hello.bas -o out.c       # Specify output file",
    "      b2c -p 4 hello.bas           # PRINT numbers with 4 decimals",
    "      b2c --stdout hello.bas       # Print C to the terminal",
    "      b2c --tokens hello.bas       # Show tokens",
    "",
    "  Supported statements:",
    "      PRINT \"text\" | PRINT expression",
    "      INPUT var, LET var = expression",
    "      IF cond THEN ... ENDIF",
    "      WHILE cond REPEAT ... ENDWHILE",
    "      LABEL name, GOTO name",
    "",
    "Options:",
    "  -o, --output FILE              Output C file (default: input.c)",
    "  -p, --precision INTEGER RANGE  Digits after the decimal point when PRINT shows",
    "                                 a number  [default: 2; 0<=x<=17]",
    "  --stdout                       Print the generated C to stdout instead of",
    "                                 writing a file",
    "  --tokens                       Print the token stream and exit (for debugging)",
    "  -v, --verbose                  Verbose output",
    "  --version                      Show the version and exit.",
    "  --help                         Show this message and exit."] ++ "\n"

/-- The precision asked for: 2 when none is given, nothing when the last one given is not a
whole number from 0 to 17. -/
def Collected.precision? (c : Collected) : Option Precision :=
  match c.last? .precision with
  | none => some default
  | some v => (Text.readInt? v).bind Precision.ofInt?

/-- Looks at one given option: `--version` and `--help` end the run with their text; the last
output path must name a file that is not a directory, which `outputIsDir` tells; the last
precision must be a whole number from 0 to 17. -/
def Collected.checkOption (prog : String) (c : Collected) (outputIsDir : Bool) :
    Opt → Except Outcome Unit
  | .version => .error ⟨0, versionLine ++ "\n", "", false⟩
  | .help => .error ⟨0, helpText prog, "", false⟩
  | .output =>
    match c.last? .output with
    | some v =>
      if unnameable v then .error .abandoned
      else if outputIsDir then .error .refused
      else .ok ()
    | none => .ok ()
  | .precision => if c.precision?.isSome then .ok () else .error .refused
  | _ => .ok ()

/-- Checks gathered arguments: each given option in the order of `Collected.checkOrder`, then
exactly one input, which must name a file that is not a directory, as `inputIsDir` tells. -/
def Settings.ofCollected (prog : String) (c : Collected) (inputIsDir outputIsDir : Bool) :
    Except Outcome Settings := do
  c.checkOrder.forM (c.checkOption prog outputIsDir)
  match c.positionals, c.precision? with
  | input :: more, some p =>
    if unnameable input then .error .abandoned
    else if inputIsDir || !more.isEmpty then .error .refused
    else .ok ⟨input, c.last? .output, p, c.has .stdout, c.has .tokens, c.has .verbose⟩
  | _, _ => .error .refused

/-- The standard reading: `collect`, the checks of `Settings.ofCollected`, and an echo that
removes style codes from text no terminal reads. -/
def CommandLine.standard : CommandLine where
  collect := TinyBasic.collect
  check := Settings.ofCollected
  echo terminal s := if terminal then s else Text.stripStyleCodes s

end TinyBasic
