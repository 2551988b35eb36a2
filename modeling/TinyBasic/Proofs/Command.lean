import TinyBasic.Proofs.CommandLine
import TinyBasic.Proofs.Translation
/-!
# The printing modes of the command

`b2c --stdout -p N FILE` and `b2c --tokens FILE` print what compiling or scanning the file gives,
and touch no file. The text they work on is the file's bytes read as UTF-8 with uniform line
ends, so that a carriage return, alone or before a line feed, reaches the scanner as a line
feed; and the name the diagnostics carry is the file's path in canonical form. What is printed
goes through the echo of the reading of the command line.

All of it holds for every lawful reading of the command line (`CommandLine.Lawful`). The run is
taken apart stage by stage, in the order the command works: the arguments
(`CommandLine.Lawful.collect_stdout`, `CommandLine.Lawful.collect_tokens`), the checked settings
(`CommandLine.Lawful.check_settings`), the questions put to the disk
(`Disk.isDirectoryAt_of_read`, `Disk.withSuffix?_of_read`), and the read (`readSource_access`).

* `Command.run_stdout` and `Command.run_tokens` give the outcome of each mode.
* `Command.print_modes_follow_read_text` puts the two together.
-/

namespace TinyBasic

/-! ## What a lawful reading gives -/

namespace CommandLine.Lawful

variable {K : CommandLine} (hK : K.Lawful)
include hK

/-- `--stdout -p N FILE` is read as two options and a name. -/
theorem collect_stdout (n : String) {F : String} (hF : F.startsWith "-" = false ∨ F = "-") :
    K.collect {} ["--stdout", "-p", n, F] = .ok ⟨[F], [(.stdout, ""), (.precision, n)]⟩ :=
  calc K.collect {} ["--stdout", "-p", n, F]
      _ = K.collect (({} : Collected).add .stdout "") ["-p", n, F] :=
        hK.collect_flag _ _ _ _ rfl rfl
      _ = K.collect ((({} : Collected).add .stdout "").add .precision n) [F] :=
        hK.collect_value _ 'p' _ _ _ rfl rfl
      _ = K.collect ⟨[F], [(.stdout, ""), (.precision, n)]⟩ [] := hK.collect_name _ _ _ hF
      _ = .ok ⟨[F], [(.stdout, ""), (.precision, n)]⟩ := hK.collect_nil _

/-- `--tokens FILE` is read as an option and a name. -/
theorem collect_tokens {F : String} (hF : F.startsWith "-" = false ∨ F = "-") :
    K.collect {} ["--tokens", F] = .ok ⟨[F], [(.tokens, "")]⟩ :=
  calc K.collect {} ["--tokens", F]
      _ = K.collect (({} : Collected).add .tokens "") [F] := hK.collect_flag _ _ _ _ rfl rfl
      _ = K.collect ⟨[F], [(.tokens, "")]⟩ [] := hK.collect_name _ _ _ hF
      _ = .ok ⟨[F], [(.tokens, "")]⟩ := hK.collect_nil _

/-- Settings that the checks give from one name are the settings the arguments ask for. -/
theorem check_eq {prog : String} {c : Collected} {inputIsDir outputIsDir : Bool} {s : Settings}
    {F : String} {p : Precision} (hs : K.check prog c inputIsDir outputIsDir = .ok s)
    (hpos : c.positionals = [F])
    (hp : c.last? .precision = some (toString p.digits) ∨ c.last? .precision = none ∧ p = default) :
    s = ⟨F, c.last? .output, p, c.has .stdout, c.has .tokens, c.has .verbose⟩ := by
  obtain ⟨hin, hout, hstd, htok, hverb, hprec⟩ := hK.check_ok _ _ _ _ _ hs
  have hprecision : s.precision = p := by
    rcases hp with h | ⟨h, rfl⟩
    · exact hprec.2 p h
    · exact hprec.1 h
  obtain ⟨input, output, precision, toStdout, tokens, verbose⟩ := s
  dsimp only at hin hout hstd htok hverb hprecision
  rw [hpos, List.singleton_inj] at hin
  subst hin hout hstd htok hverb hprecision
  rfl

/-- Arguments that can name their files, ask for a precision in decimal, and ask for neither the
version nor the usage are checked into the settings they ask for. -/
theorem check_settings (prog : String) {c : Collected} {F : String} {p : Precision}
    (hpos : c.positionals = [F]) (hnul : unnameable F = false)
    (hout : ∀ o, c.last? .output = some o → unnameable o = false)
    (hp : c.last? .precision = some (toString p.digits) ∨ c.last? .precision = none ∧ p = default)
    (hver : c.has .version = false) (hhelp : c.has .help = false) :
    K.check prog c false false =
      .ok ⟨F, c.last? .output, p, c.has .stdout, c.has .tokens, c.has .verbose⟩ := by
  have hdec : ∀ v, c.last? .precision = some v → ∃ q : Precision, v = toString q.digits := by
    intro v hv
    rcases hp with h | ⟨h, -⟩
    · exact ⟨p, Option.some.inj (hv.symm.trans h)⟩
    · rw [h] at hv
      cases hv
  obtain ⟨s, hs⟩ := hK.check_accepts prog c F hpos hnul hout hdec hver hhelp
  rw [hs, hK.check_eq hs hpos hp]

theorem check_stdout (prog : String) (p : Precision) {F : String} (hnul : unnameable F = false) :
    K.check prog ⟨[F], [(.stdout, ""), (.precision, toString p.digits)]⟩ false false =
      .ok ⟨F, none, p, true, false, false⟩ :=
  hK.check_settings prog rfl hnul (fun _ h => by cases h) (.inl rfl) rfl rfl

theorem check_tokens (prog : String) {F : String} (hnul : unnameable F = false) :
    K.check prog ⟨[F], [(.tokens, "")]⟩ false false = .ok ⟨F, none, default, false, true, false⟩ :=
  hK.check_settings prog rfl hnul (fun _ h => by cases h) (.inr ⟨rfl, rfl⟩) rfl rfl

end CommandLine.Lawful

/-! ## The disk -/

namespace Disk

variable {d : Disk} {P : Path} {bytes : List UInt8}

/-- A path that can be read leads into the tree, to a name whose entry is a file. -/
theorem locate_of_read (h : d.read P = .ok bytes) :
    ∃ ps n, d.locate P = .ok (.inside ps, some n) ∧ d.entry (ps ++ [n]) = .file bytes := by
  unfold read at h
  split at h
  · cases h
  · cases h
  · cases h
  · rename_i ps n hloc
    split at h
    · rename_i b hentry
      cases h
      exact ⟨ps, n, hloc, hentry⟩
    · cases h
    · cases h

/-- A file that can be read is no directory. -/
theorem isDirectory_of_read (h : d.read P = .ok bytes) : d.isDirectory P = false := by
  obtain ⟨ps, n, hloc, hentry⟩ := locate_of_read h
  simp [isDirectory, hloc, hentry]

theorem isDirectoryAt_of_read {s : String} (h : d.read (Path.ofString s) = .ok bytes) :
    d.isDirectoryAt s = false := by
  simp [isDirectoryAt, isDirectory_of_read h]

/-- A file that can be read has a last name, which the suffix `.c` can be put on. -/
theorem withSuffix?_of_read (h : d.read P = .ok bytes) : ∃ out, P.withSuffix? ".c" = some out := by
  obtain ⟨ps, n, hloc, -⟩ := locate_of_read h
  -- a path with no parts names the top directory, with no last name
  have hlast : P.parts.getLast? ≠ none := by
    intro hnone
    unfold locate at hloc
    split at hloc
    · cases hloc
    · rw [hnone] at hloc
      cases hloc
  obtain ⟨last, hl⟩ := Option.ne_none_iff_exists'.1 hlast
  rw [Path.withSuffix?, hl]
  exact ⟨_, rfl⟩

end Disk

/-- Reading a file that decodes gives its text with uniform line ends, and changes nothing. -/
theorem readSource_access {d : Disk} {P : Path} {bytes : List UInt8} {c : String}
    (hread : d.read P = .ok bytes) (hutf : Text.decodeUtf8 bytes = .ok c) :
    (readSource Disk.access P).run d = (.ok (Text.withUniformLineEnds c), d) := by
  simp [readSource, Disk.access, hread, hutf]
  rfl

/-- A program that names no variable and no label passes the checks. -/
theorem WellScoped.of_marks_nil {prog : Program} (h : Stmt.blockMarks prog = []) :
    WellScoped prog := by
  refine ⟨?_, ?_, ?_⟩ <;> rw [h]
  · intro pre n post hpre
    cases pre <;> simp at hpre
  · exact List.nodup_nil
  · intro n hn
    simp at hn

/-! ## The two modes -/

/-- A run whose arguments name one input that is no directory, and no output, works as the
settings they check to say. -/
theorem Command.run_access {K : CommandLine} {d : Disk} (con : Console) (prog : String)
    {args : List String} {c : Collected} {s : Settings} {F : String}
    (hc : K.collect {} args = .ok c) (hpos : c.positionals = [F]) (hno : c.last? .output = none)
    (hdir : d.isDirectoryAt F = false) (hs : K.check prog c false false = .ok s) :
    (Command.run K Disk.access con prog args).run d = (s.execute K Disk.access con).run d := by
  have hask : (Disk.access.isDirectory F).run d = pure (false, d) := by
    rw [← hdir]
    rfl
  simp only [Command.run, hc, hpos, StateT.run_bind, hask, pure_bind, hno, hs]

section Modes

variable {K : CommandLine} (hK : K.Lawful) {d : Disk} {F : String} {bytes : List UInt8} {c : String}
  (con : Console) (prog : String) (hF : F.startsWith "-" = false ∨ F = "-")
  (hnul : unnameable F = false) (hread : d.read (Path.ofString F) = .ok bytes)
  (hutf : Text.decodeUtf8 bytes = .ok c)

include hK hF hnul hread hutf

/-- `--stdout -p N FILE` prints the C text of the file's text, or its diagnostic with code 1,
and leaves the disk as it was. -/
theorem Command.run_stdout (p : Precision) :
    (Command.run K Disk.access con prog ["--stdout", "-p", toString p.digits, F]).run d =
      ((match compile p (Path.ofString F).render (Text.withUniformLineEnds c) with
        | .ok t => ⟨0, K.echo con.outTerminal t.code, "", false⟩
        | .error e => ⟨1, "", K.echo con.errTerminal (e.render ++ "\n"), false⟩), d) := by
  obtain ⟨out, hout⟩ := Disk.withSuffix?_of_read hread
  have hsrc : (readSource Disk.access (Path.ofString F)).run d =
      pure (.ok (Text.withUniformLineEnds c), d) := readSource_access hread hutf
  rw [Command.run_access con prog (hK.collect_stdout _ hF) rfl rfl (Disk.isDirectoryAt_of_read hread)
    (hK.check_stdout prog p hnul)]
  simp only [Settings.execute, hout, StateT.run_bind, hsrc, pure_bind, Bool.false_eq_true,
    if_false, if_true]
  cases compile p (Path.ofString F).render (Text.withUniformLineEnds c) <;>
    · simp only [Settings.debug, Bool.false_eq_true, if_false, String.empty_append]
      rfl

/-- `--tokens FILE` prints the listing of each token the scanner reads from the file's text, and
the scanner's fault, if it meets one, with code 1; it leaves the disk as it was. -/
theorem Command.run_tokens :
    (Command.run K Disk.access con prog ["--tokens", F]).run d =
      (let scan := (TokenStream.start (Path.ofString F).render (Text.withUniformLineEnds c)).tokens
       (⟨if scan.2.isSome then 1 else 0,
         String.join (scan.1.map fun t => K.echo con.outTerminal (t.listing ++ "\n")),
         (scan.2.map fun e => K.echo con.errTerminal (e.render ++ "\n")).getD "", false⟩, d)) := by
  obtain ⟨out, hout⟩ := Disk.withSuffix?_of_read hread
  have hsrc : (readSource Disk.access (Path.ofString F)).run d =
      pure (.ok (Text.withUniformLineEnds c), d) := readSource_access hread hutf
  rw [Command.run_access con prog (hK.collect_tokens hF) rfl rfl (Disk.isDirectoryAt_of_read hread)
    (hK.check_tokens prog hnul)]
  simp only [Settings.execute, hout, StateT.run_bind, hsrc, pure_bind, if_true]
  cases (TokenStream.start (Path.ofString F).render (Text.withUniformLineEnds c)).tokens.2 <;>
    · simp only [Settings.debug, Bool.false_eq_true, if_false, String.empty_append,
        Option.isSome_none, Option.isSome_some, Option.map_none, Option.map_some,
        Option.getD_none, Option.getD_some]
      rfl

/-- The two printing modes follow the file's text as it is read: its bytes as UTF-8, with every
carriage return, alone or before a line feed, made a line feed. `--stdout -p N FILE` prints the
C text that compiling that text gives, with code 0, or the diagnostic with code 1; `--tokens
FILE` prints the listing of each token the scanner reads from it, then its fault, if any, with
code 1. Both name the file by its path in canonical form, lose style codes where no terminal
reads them, and change no file. -/
theorem Command.print_modes_follow_read_text (p : Precision) :
    (Command.run K Disk.access con prog ["--stdout", "-p", toString p.digits, F]).run d =
      ((match compile p (Path.ofString F).render (Text.withUniformLineEnds c) with
        | .ok t => ⟨0, K.echo con.outTerminal t.code, "", false⟩
        | .error e => ⟨1, "", K.echo con.errTerminal (e.render ++ "\n"), false⟩), d) ∧
    (Command.run K Disk.access con prog ["--tokens", F]).run d =
      (let scan := (TokenStream.start (Path.ofString F).render (Text.withUniformLineEnds c)).tokens
       (⟨if scan.2.isSome then 1 else 0,
         String.join (scan.1.map fun t => K.echo con.outTerminal (t.listing ++ "\n")),
         (scan.2.map fun e => K.echo con.errTerminal (e.render ++ "\n")).getD "", false⟩, d)) :=
  ⟨Command.run_stdout hK con prog hF hnul hread hutf p, Command.run_tokens hK con prog hF hnul hread hutf⟩

end Modes

/-- A disk holding one file, `p.bas`, with the given text. -/
def Disk.single (text : String) : Disk :=
  { files := [(["p.bas"], text.toUTF8.toList)] }

theorem Disk.single_read (text : String) :
    (Disk.single text).read (Path.ofString "p.bas") = .ok text.toUTF8.toList := rfl

/-- `p.bas` is read as a name, and can name a file. -/
theorem name_p_bas : ("p.bas".startsWith "-" = false ∨ "p.bas" = "-") ∧ unnameable "p.bas" = false := by
  refine ⟨.inl (by simp), ?_⟩
  simp [unnameable]

-- The decoder's fault carries no decidable equality; its value is compared through toOption.
theorem Text.decodeUtf8_eq_ok {bytes : List UInt8} {s : String}
    (h : (Text.decodeUtf8 bytes).toOption = some s) : Text.decodeUtf8 bytes = .ok s := by
  revert h
  cases Text.decodeUtf8 bytes <;> simp [Except.toOption]

theorem print_modes_follow_read_text_one_file :
    CommandLine.standard.Lawful ∧
    ("p.bas".startsWith "-" = false ∨ "p.bas" = "-") ∧ unnameable "p.bas" = false ∧
    (Disk.single "PRINT 1\n").read (Path.ofString "p.bas") = .ok "PRINT 1\n".toUTF8.toList ∧
    Text.decodeUtf8 "PRINT 1\n".toUTF8.toList = .ok "PRINT 1\n" ∧
    ((Command.run CommandLine.standard Disk.access ⟨true, true⟩ "b2c"
        ["--stdout", "-p", toString (default : Precision).digits, "p.bas"]).run
        (Disk.single "PRINT 1\n") =
      ((match compile default (Path.ofString "p.bas").render
          (Text.withUniformLineEnds "PRINT 1\n") with
        | .ok t => ⟨0, CommandLine.standard.echo true t.code, "", false⟩
        | .error e => ⟨1, "", CommandLine.standard.echo true (e.render ++ "\n"), false⟩),
        Disk.single "PRINT 1\n") ∧
    (Command.run CommandLine.standard Disk.access ⟨true, true⟩ "b2c" ["--tokens", "p.bas"]).run
        (Disk.single "PRINT 1\n") =
      (let scan := (TokenStream.start (Path.ofString "p.bas").render
          (Text.withUniformLineEnds "PRINT 1\n")).tokens
       (⟨if scan.2.isSome then 1 else 0,
         String.join (scan.1.map fun t => CommandLine.standard.echo true (t.listing ++ "\n")),
         (scan.2.map fun e => CommandLine.standard.echo true (e.render ++ "\n")).getD "", false⟩,
         Disk.single "PRINT 1\n"))) := by
  obtain ⟨hF, hnul⟩ := name_p_bas
  have hread := Disk.single_read "PRINT 1\n"
  have hutf : Text.decodeUtf8 "PRINT 1\n".toUTF8.toList = .ok "PRINT 1\n" :=
    Text.decodeUtf8_eq_ok (by decide +kernel)
  exact ⟨CommandLine.standard_lawful, hF, hnul, hread, hutf,
    Command.print_modes_follow_read_text CommandLine.standard_lawful ⟨true, true⟩ "b2c" hF hnul
      hread hutf default⟩

/-- The scan of a comment that a lone carriage return does not end: the comment runs to the one
line feed and hides the statement after the return. -/
theorem scan_comment_past_return :
    (TokenStream.start "p.bas" "# note\rPRINT 1\n").tokens =
      ([⟨.newline, "\n", 1, 15⟩, ⟨.newline, "\n", 2, 1⟩, ⟨.eof, "", 3, 1⟩], none) := by
  -- the fault carries no decidable equality, so the two halves are evaluated apart
  have h : (TokenStream.start "p.bas" "# note\rPRINT 1\n").tokens.1 =
      [⟨.newline, "\n", 1, 15⟩, ⟨.newline, "\n", 2, 1⟩, ⟨.eof, "", 3, 1⟩] ∧
      (TokenStream.start "p.bas" "# note\rPRINT 1\n").tokens.2.isNone = true := by
    decide +kernel
  exact Prod.ext h.1 (Option.isNone_iff_eq_none.1 h.2)

/-- The scan of the same text once the return is a line feed: the statement is on a line of
its own. -/
theorem scan_comment_then_print :
    (TokenStream.start "p.bas" "# note\nPRINT 1\n").tokens =
      ([⟨.newline, "\n", 1, 7⟩, ⟨.printKw, "PRINT", 2, 1⟩, ⟨.number, "1", 2, 7⟩,
        ⟨.newline, "\n", 2, 8⟩, ⟨.newline, "\n", 3, 1⟩, ⟨.eof, "", 4, 1⟩], none) := by
  have h : (TokenStream.start "p.bas" "# note\nPRINT 1\n").tokens.1 =
      [⟨.newline, "\n", 1, 7⟩, ⟨.printKw, "PRINT", 2, 1⟩, ⟨.number, "1", 2, 7⟩,
        ⟨.newline, "\n", 2, 8⟩, ⟨.newline, "\n", 3, 1⟩, ⟨.eof, "", 4, 1⟩] ∧
      (TokenStream.start "p.bas" "# note\nPRINT 1\n").tokens.2.isNone = true := by
    decide +kernel
  exact Prod.ext h.1 (Option.isNone_iff_eq_none.1 h.2)

/-- A carriage return alone, after a comment: the compiler given the decoded text finds it inside
the comment, which then hides `PRINT 1`; the command reads it as a line end and compiles the
`PRINT`. What the command prints is not the C text of the decoded text. -/
theorem stdout_reads_lone_return_as_line_end :
    Text.decodeUtf8 "# note\rPRINT 1\n".toUTF8.toList = .ok "# note\rPRINT 1\n" ∧
    ∃ raw, compile default "p.bas" "# note\rPRINT 1\n" = .ok raw ∧
      ((Command.run CommandLine.standard Disk.access ⟨true, true⟩ "b2c"
        ["--stdout", "-p", "2", "p.bas"]).run
        (Disk.single "# note\rPRINT 1\n")).1.out ≠ raw.code := by
  obtain ⟨hF, hnul⟩ := name_p_bas
  have hutf : Text.decodeUtf8 "# note\rPRINT 1\n".toUTF8.toList = .ok "# note\rPRINT 1\n" :=
    Text.decodeUtf8_eq_ok (by decide +kernel)
  refine ⟨hutf, ?_⟩
  -- the decoded text is an empty program
  obtain ⟨raw, hrawc, -, hrawcode⟩ := compile_complete (p := default) scan_comment_past_return
    (.mk (.cons rfl (.cons rfl .nil)) .nil rfl) (WellScoped.of_marks_nil rfl)
  -- the text the command reads holds one PRINT
  have hread : Text.withUniformLineEnds "# note\rPRINT 1\n" = "# note\nPRINT 1\n" := by
    decide
  let one : Expr := ⟨⟨⟨none, .number "1"⟩, []⟩, []⟩
  have hsentence : SentenceOf [⟨.newline, "\n", 1, 7⟩, ⟨.printKw, "PRINT", 2, 1⟩,
      ⟨.number, "1", 2, 7⟩, ⟨.newline, "\n", 2, 8⟩, ⟨.newline, "\n", 3, 1⟩, ⟨.eof, "", 4, 1⟩]
      [.printValue one] :=
    .mk (.cons rfl .nil) (.cons (.printValue rfl (.mk (.mk (.bare rfl) .nil) .nil)
      (.mk rfl (.cons rfl .nil))) .nil) rfl
  obtain ⟨cli, hclic, -, hclicode⟩ := compile_complete (p := default) scan_comment_then_print
    hsentence (WellScoped.of_marks_nil rfl)
  have hrun := Command.run_stdout CommandLine.standard_lawful ⟨true, true⟩ "b2c" hF hnul
    (Disk.single_read "# note\rPRINT 1\n") hutf default
  have hname : (Path.ofString "p.bas").render = "p.bas" := by decide
  rw [hname, hread, hclic] at hrun
  refine ⟨raw, hrawc, ?_⟩
  rw [show toString (default : Precision).digits = "2" from rfl] at hrun
  rw [hrun]
  -- on a terminal the command prints the text as it is
  show cli.code ≠ raw.code
  rw [hclicode, hrawcode]
  decide

end TinyBasic
