/-!
# Paths

Relative and absolute file paths written with `/`. The written form of a path is canonical:
repeated slashes and `.` parts are dropped, as is a trailing slash, while `..` parts stay,
since what they lead to depends on the directories on the way. A path with no parts is `.`.
Exactly two leading slashes are kept as they are; one or more than two become one.

* `Path.render` writes a path in canonical form.
* `Path.withSuffix?` replaces the suffix of the last part, or adds one when it has none; a
  suffix is the last `.` and what follows it, when the `.` is neither first nor last. A path
  with no parts has no name to give a suffix.
-/

namespace TinyBasic

/-- A path: how many slashes it starts with (0, 1 or 2) and its parts, without empty and `.`
parts. -/
structure Path where
  root : Nat
  parts : List String
  deriving DecidableEq, Repr, Inhabited

namespace Path

/-- How a written path starts: no slash, one slash, exactly two slashes, or more, which count as
one. -/
def rootOf (s : String) : Nat :=
  let slashes := (s.toList.takeWhile (· = '/')).length
  if slashes = 2 then 2 else min slashes 1

/-- Reads a written path. -/
def ofString (s : String) : Path :=
  ⟨rootOf s, ((s.toList.splitOn '/').map String.ofList).filter fun p => p != "" && p != "."⟩

/-- The canonical written form. -/
def render (p : Path) : String :=
  let lead := String.ofList (List.replicate p.root '/')
  if p.parts.isEmpty then (if p.root = 0 then "." else lead)
  else lead ++ "/".intercalate p.parts

/-- The last part, or the empty text for a path with no parts. -/
def name (p : Path) : String :=
  p.parts.getLast?.getD ""

/-- The suffix of a name: from its last `.` on, when that `.` is neither its first nor its last
character. -/
def suffixOf (name : String) : String :=
  let cs := name.toList
  match (List.range cs.length).reverse.find? (fun i => cs[i]? = some '.') with
  | some i => if 0 < i && i + 1 < cs.length then String.ofList (cs.drop i) else ""
  | none => ""

/-- The path with the suffix of its last part replaced by `suffix`, or `suffix` added when the
last part has none; `none` for a path with no parts. -/
def withSuffix? (p : Path) (suffix : String) : Option Path :=
  match p.parts.getLast? with
  | none => none
  | some n =>
    let old := suffixOf n
    let stem := String.ofList (n.toList.take (n.length - old.length))
    some { p with parts := p.parts.dropLast ++ [stem ++ suffix] }

end Path

end TinyBasic
