import TinyBasic.Text.Escape
/-!
# The command line

The command takes one input file and these options:

| option | meaning |
|---|---|
| `-o`, `--output FILE` | where to write the C text |
| `-p`, `--precision N` | digits after the point when a number is printed, 0 to 17 |
| `--stdout` | print the C text instead of writing it |
| `--tokens` | print the tokens instead of compiling |
| `-v`, `--verbose` | say what is being done |
| `--version`, `--help` | print the version or the usage, and stop |

What the arguments give is gathered as the names, in order, and each option given, in order,
with its value; for an option given twice the last value counts.

* `Opt` names the options, by their long names and their short letters.
* `ArgFault` is why arguments cannot be read: an unknown option, a value given to an option that
  takes none, or a value missing.
* `Collected` is what reading the arguments gathers.
-/

namespace TinyBasic

/-- The options of the command. -/
inductive Opt where
  | output
  | precision
  | stdout
  | tokens
  | verbose
  | version
  | help
  deriving DecidableEq, Repr, Inhabited

namespace Opt

/-- Whether the option stops the run as soon as it is looked at. -/
def isEager : Opt → Bool
  | .version | .help => true
  | _ => false

/-- Whether the option takes a value. -/
def takesValue : Opt → Bool
  | .output | .precision => true
  | _ => false

/-- The option a long name spells. -/
def ofLong : String → Option Opt
  | "--output" => some .output
  | "--precision" => some .precision
  | "--stdout" => some .stdout
  | "--tokens" => some .tokens
  | "--verbose" => some .verbose
  | "--version" => some .version
  | "--help" => some .help
  | _ => none

/-- The option a short letter names. -/
def ofShort : Char → Option Opt
  | 'o' => some .output
  | 'p' => some .precision
  | 'v' => some .verbose
  | _ => none

end Opt

/-- Why the arguments could not be read. -/
inductive ArgFault where
  /-- An option the command does not have. -/
  | unknown
  /-- A value, after `=`, for an option that takes none; the option as written. -/
  | valueNotTaken (name : String)
  /-- No value for an option that takes one; the option as written. -/
  | valueMissing (name : String)
  deriving DecidableEq, Repr, Inhabited

/-- What is said about a fault: an unknown option is answered with the usage, the others with a
sentence naming the option. -/
def ArgFault.message? : ArgFault → Option String
  | .unknown => none
  | .valueNotTaken n => some ("Option " ++ Text.quote n ++ " does not take a value.")
  | .valueMissing n => some ("Option " ++ Text.quote n ++ " requires an argument.")

/-- What reading the arguments gathers: the arguments that are not options, and each option
given, in order, with its value (empty for a flag). -/
structure Collected where
  positionals : List String := []
  given : List (Opt × String) := []
  deriving Repr, Inhabited

namespace Collected

/-- Records an option. -/
def add (c : Collected) (o : Opt) (v : String) : Collected :=
  { c with given := c.given ++ [(o, v)] }

/-- Whether an option was given. -/
def has (c : Collected) (o : Opt) : Bool :=
  c.given.any (·.1 == o)

/-- The last value given for an option. -/
def last? (c : Collected) (o : Opt) : Option String :=
  (c.given.filter (·.1 == o)).getLast?.map (·.2)

end Collected

end TinyBasic
