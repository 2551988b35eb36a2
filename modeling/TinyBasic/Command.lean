import TinyBasic.Command.Args
import TinyBasic.Compile
import TinyBasic.File.Disk
import TinyBasic.Text.Utf8
import TinyBasic.Text.Lines
/-!
# The command

`b2c FILE` compiles a BASIC file into C. It reads the file as UTF-8 with uniform line ends,
and then, by its options:

* `--tokens` prints the listing of each token, one per line, and stops;
* `--stdout` prints the C text;
* otherwise it writes the C text to the `-o` file, or beside the input with the suffix `.c`,
  and says `Compiled IN -> OUT`.

It ends with 0 when all went well, 1 for a fault in the program (reported on the error
stream), 4 when a file cannot be read or written (`I/O error: ...`), and 2 when the arguments
are refused. `-v` adds what is being done on both streams: a first line naming the input and,
after a written file, its size and the numbers of tokens, variables and labels on the output;
each step of reading, compiling, finishing and writing on the error stream, as `DEBUG:` lines.

The arguments are read, checked and echoed by a reading of the command line that the command
takes as a parameter, a `CommandLine`: it gathers the names and options given, checks them into
the settings of a run or ends the run with an outcome of its own (the version, the usage, a
refusal), and prints text on a stream. `CommandLine.Lawful` is what the command relies on it to
do; `CommandLine.standard` is the reading the executable uses. Before any file is read the
command asks the file system whether the input and the last output path name directories, so
that the checks can refuse them. An input whose path has no name to put the suffix `.c` on,
when no `-o` is given, ends the run with code 1 and nothing printed. The `DEBUG:` lines are
written as they are, not echoed.

* `Files` is what the command needs from a file system, in any monad.
* `Console` tells whether each stream is read by a terminal.
* `Settings` are the arguments once checked.
* `CommandLine` reads, checks and echoes; `CommandLine.Lawful` gives its laws.
* `Command.run` runs the command on a list of arguments.
* `Disk.access` gives the command a `Disk` to work on.
-/

namespace TinyBasic

/-- What the command needs from a file system: whether a path as written names a directory, the
bytes of a file, and writing a file. -/
structure Files (m : Type → Type) where
  isDirectory : String → m Bool
  read : Path → m (Except OsError (List UInt8))
  write : Path → List UInt8 → m (Except OsError Unit)

/-- Whether each stream, output and error, is read by a terminal. -/
structure Console where
  outTerminal : Bool
  errTerminal : Bool
  deriving DecidableEq, Repr, Inhabited

/-- How a run ended: its exit code and what it printed on the output and error streams. A run
that refused its arguments with the usage says so in `usage`. -/
structure Outcome where
  code : Nat
  out : String
  err : String
  usage : Bool := false
  deriving Repr, Inhabited

/-- A run given arguments it cannot work with: code 1, nothing printed. -/
def Outcome.abandoned : Outcome := ⟨1, "", "", false⟩

/-- A run whose arguments are refused with the usage. -/
def Outcome.refused : Outcome := ⟨2, "", "", true⟩

/-- The outcome as the streams read back as text show it: a carriage return just before a line
feed is not seen. -/
def Outcome.captured (o : Outcome) : Outcome :=
  { o with out := o.out.replace "\r\n" "\n", err := o.err.replace "\r\n" "\n" }

/-- The checked arguments of a run that compiles. -/
structure Settings where
  input : String
  output : Option String
  precision : Precision
  toStdout : Bool
  tokens : Bool
  verbose : Bool
  deriving Repr, Inhabited

/-- Whether a path as written can name no file, for it holds a NUL character. -/
def unnameable (s : String) : Bool :=
  s.contains (Char.ofNat 0)

/-- The gathered arguments ask for the precision `p`: 2 when none is given, and `n` when the last
one given is `n` written in decimal. -/
def Collected.AsksPrecision (c : Collected) (p : Precision) : Prop :=
  (c.last? .precision = none → p = default) ∧
    ∀ q : Precision, c.last? .precision = some (toString q.digits) → p = q

/-- A reading of the command line: how the arguments are gathered, checked and echoed. -/
structure CommandLine where
  /-- Reads arguments from the left, adding the names and the options met to what is gathered. -/
  collect : Collected → List String → Except ArgFault Collected
  /-- Checks gathered arguments, under the program name and told whether the input and the last
  output path name directories: the settings of a run, or the outcome that ends it at once. -/
  check : String → Collected → Bool → Bool → Except Outcome Settings
  /-- Text as printed on a stream, told whether a terminal reads the stream. -/
  echo : Bool → String → String

/-- What the command relies on its reading of the command line to do. Arguments are read from the
left: a name is a name, a flag is recorded, and a short option that takes a value takes the next
argument. Checked settings carry what was given; a run is stopped with 0 only for the version or
the usage; and arguments that can name the files and ask for a precision from 0 to 17 pass. -/
structure CommandLine.Lawful (K : CommandLine) : Prop where
  /-- Reading ends with the arguments. -/
  collect_nil : ∀ c, K.collect c [] = .ok c
  /-- An argument that does not start with `-`, or is `-` alone, is a name. -/
  collect_name : ∀ c a rest, a.startsWith "-" = false ∨ a = "-" →
    K.collect c (a :: rest) = K.collect { c with positionals := c.positionals ++ [a] } rest
  /-- A long option that takes no value, written as it is named, is recorded. -/
  collect_flag : ∀ c a o rest, Opt.ofLong a = some o → o.takesValue = false →
    K.collect c (a :: rest) = K.collect (c.add o "") rest
  /-- A short option that takes a value, written alone, takes the next argument as its value. -/
  collect_value : ∀ c ch o v rest, Opt.ofShort ch = some o → o.takesValue = true →
    K.collect c (String.ofList ['-', ch] :: v :: rest) = K.collect (c.add o v) rest
  /-- Checked settings carry the one name as the input, the last output path, the modes asked
  for and the precision asked for. -/
  check_ok : ∀ prog c inputIsDir outputIsDir s, K.check prog c inputIsDir outputIsDir = .ok s →
    c.positionals = [s.input] ∧ s.output = c.last? .output ∧ s.toStdout = c.has .stdout ∧
      s.tokens = c.has .tokens ∧ s.verbose = c.has .verbose ∧ c.AsksPrecision s.precision
  /-- The checks end a run with 0 only when `--version` or `--help` is given. -/
  check_stop : ∀ prog c inputIsDir outputIsDir o,
    K.check prog c inputIsDir outputIsDir = .error o → o.code = 0 →
      c.has .version = true ∨ c.has .help = true
  /-- One input and an output path, if one is given, that can name files and are no directories,
  a precision, if one is given, written in decimal from 0 to 17, and neither `--version` nor
  `--help`: the checks pass. -/
  check_accepts : ∀ prog c F, c.positionals = [F] → unnameable F = false →
    (∀ o, c.last? .output = some o → unnameable o = false) →
    (∀ v, c.last? .precision = some v → ∃ p : Precision, v = toString p.digits) →
    c.has .version = false → c.has .help = false → ∃ s, K.check prog c false false = .ok s

/-- Reads a source file: its bytes as UTF-8, with uniform line ends. -/
def readSource {m : Type → Type} [Monad m] (fs : Files m) (p : Path) :
    m (Except IoFailure String) := do
  match ← fs.read p with
  | .error e => return .error ⟨.read, p, e.text⟩
  | .ok bytes =>
    match Text.decodeUtf8 bytes with
    | .error f => return .error ⟨.read, p, f.message⟩
    | .ok text => return .ok (Text.withUniformLineEnds text)

/-- A line of the error stream that only `-v` shows. -/
def Settings.debug (s : Settings) (msg : String) : String :=
  if s.verbose then "DEBUG: " ++ msg ++ "\n" else ""

/-- The work the settings ask for, printing through `K` to `con`. -/
def Settings.execute {m : Type → Type} [Monad m] (K : CommandLine) (fs : Files m) (con : Console)
    (s : Settings) : m Outcome := do
  let inPath := Path.ofString s.input
  let outPath? := match s.output with
    | some o => some (Path.ofString o)
    | none => inPath.withSuffix? ".c"
  let some outPath := outPath? | return .abandoned
  let inName := inPath.render
  let outName := outPath.render
  let out := if s.verbose then K.echo con.outTerminal ("Translating " ++ inName ++ "...\n") else ""
  match ← readSource fs inPath with
  | .error f =>
    return ⟨4, out, K.echo con.errTerminal ("I/O error: " ++ f.message ++ "\n"), false⟩
  | .ok text =>
    let err := s.debug ("Read " ++ toString text.length ++ " characters from " ++ inName)
    if s.tokens then
      let (ts, fault) := (TokenStream.start inName text).tokens
      let out := out ++ String.join (ts.map fun t => K.echo con.outTerminal (t.listing ++ "\n"))
      match fault with
      | some d => return ⟨1, out, err ++ K.echo con.errTerminal (d.render ++ "\n"), false⟩
      | none => return ⟨0, out, err, false⟩
    else
      let err := err ++ s.debug ("Translating " ++ inName)
      match compile s.precision inName text with
      | .error d => return ⟨1, out, err ++ K.echo con.errTerminal (d.render ++ "\n"), false⟩
      | .ok t =>
        let r := t.parsed
        let err := err ++
          s.debug ("Translated " ++ toString r.tokenCount ++ " tokens: " ++
            toString r.assigned.length ++ " variables, " ++
            toString r.labels.length ++ " labels") ++
          s.debug ("Finalized output: " ++ toString t.buffer.header.length ++ " header lines, " ++
            toString t.buffer.body.length ++ " body fragments")
        -- The buffer is finished before anything is written, so its log line stands even
        -- when the write then fails.
        if s.toStdout then return ⟨0, out ++ K.echo con.outTerminal t.code, err, false⟩
        else
          match ← fs.write outPath t.code.toUTF8.toList with
          | .error e =>
            let f := IoFailure.mk .write outPath e.text
            return ⟨4, out, err ++ K.echo con.errTerminal ("I/O error: " ++ f.message ++ "\n"),
              false⟩
          | .ok () =>
            let size := toString t.code.length
            let err := err ++ s.debug ("Wrote " ++ size ++ " characters to " ++ outName) ++
              s.debug ("Compiled " ++ inName ++ " -> " ++ outName)
            let report :=
              if s.verbose then
                K.echo con.outTerminal ("Wrote " ++ size ++ " bytes to " ++ outName ++ "\n") ++
                "Tokenized: " ++ toString r.tokenCount ++ " tokens\n" ++
                "Declared: " ++ toString r.assigned.length ++ " variables, " ++
                  toString r.labels.length ++ " labels\n"
              else ""
            let done := K.echo con.outTerminal ("Compiled " ++ inName ++ " -> " ++ outName ++ "\n")
            return ⟨0, out ++ report ++ done, err, false⟩

/-- Runs the command, under the name `prog`, on its arguments, read by `K`. -/
def Command.run {m : Type → Type} [Monad m] (K : CommandLine) (fs : Files m) (con : Console)
    (prog : String) (args : List String) : m Outcome := do
  match K.collect {} args with
  | .error f =>
    match f.message? with
    | none => return .refused
    | some msg => return ⟨2, "", K.echo con.errTerminal ("Error: " ++ msg ++ "\n"), false⟩
  | .ok c =>
    let inputIsDir ← match c.positionals with
      | p :: _ => fs.isDirectory p
      | [] => pure false
    let outputIsDir ← match c.last? .output with
      | some o => fs.isDirectory o
      | none => pure false
    match K.check prog c inputIsDir outputIsDir with
    | .error o => return o
    | .ok s => s.execute K fs con

/-- The command's view of a `Disk`, which its writes change. -/
def Disk.access : Files (StateM Disk) where
  isDirectory p := do return (← get).isDirectoryAt p
  read p := do return (← get).read p
  write p bytes := do
    match (← get).write p bytes with
    | .ok d => set d; return .ok ()
    | .error e => return .error e

end TinyBasic
