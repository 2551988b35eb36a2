import TinyBasic.Command.Standard
import TinyBasic.Proofs.Reach
/-!
# The standard reading of the command line keeps its laws

`CommandLine.standard` keeps every law of `CommandLine.Lawful`, so what is proved of the command
over a lawful reading holds of the executable.

* Reading, one step of `collect` at a time: a name (`collect_cons_name`), a long option that
  takes no value (`collect_cons_flag`), and a short option followed by its value
  (`collect_cons_short`, through `collect_cons_cluster`).
* Checking: settings carry what was given (`Settings.ofCollected_ok`); a run stops with 0 only
  for `--version` or `--help` (`Settings.ofCollected_stop`); and arguments that can name their
  files and ask for a precision in decimal pass (`Settings.ofCollected_accepts`).
* `CommandLine.standard_lawful` puts them together.
-/

namespace TinyBasic

/-! ## Reading -/

theorem collect_nil (c : Collected) : collect c [] = .ok c := by
  rw [collect]

/-- An argument of two characters or more that starts with `-` is read as an option. -/
theorem optionShaped {a : String} (h : a.startsWith "-" = true) (hl : 1 < a.length) :
    (a.startsWith "-" && decide (a.length > 1)) = true := by
  simp [h, hl]

/-- An argument that does not start with `-`, or is `-` alone, is read as a name. -/
theorem collect_cons_name (c : Collected) (rest : List String) {a : String}
    (ha : a.startsWith "-" = false ∨ a = "-") :
    collect c (a :: rest) = collect { c with positionals := c.positionals ++ [a] } rest := by
  have hdash : a ≠ "--" := by
    rintro rfl
    rcases ha with h | h
    · exact absurd h (by simp)
    · exact absurd h (by decide)
  -- A name is not an option: it does not start with `-`, or it is `-` alone.
  have hname : ¬ (a.startsWith "-" && decide (a.length > 1)) = true := by
    rcases ha with h | rfl
    · simp [h]
    · simp only [Bool.and_eq_true, decide_eq_true_eq, not_and]
      intro _
      decide
  rw [collect, if_neg hdash, if_neg hname]

/-- A long option is written with two dashes and no `=`, so it is read whole as an option. -/
theorem Opt.ofLong_shape {a : String} {o : Opt} (h : Opt.ofLong a = some o) :
    a ≠ "--" ∧ (a.startsWith "-" && decide (a.length > 1)) = true ∧ splitLong a = (a, none) := by
  unfold Opt.ofLong at h
  split at h
  case h_8 => cases h
  all_goals exact ⟨by decide, optionShaped (by simp) (by decide), by decide⟩

/-- A long option that takes no value, written as it is named, is recorded. -/
theorem collect_cons_flag (c : Collected) (rest : List String) {a : String} {o : Opt}
    (ho : Opt.ofLong a = some o) (hv : o.takesValue = false) :
    collect c (a :: rest) = collect (c.add o "") rest := by
  obtain ⟨hdash, hopt, hlong⟩ := Opt.ofLong_shape ho
  rw [collect, if_neg hdash, if_pos hopt, hlong]
  simp only [ho, hv, Bool.false_eq_true, if_false, Option.isSome_none]

/-- An option argument that is no long option is a cluster of short options: reading goes on
where the cluster leaves off. -/
theorem collect_cons_cluster (c : Collected) (rest : List String) {a : String} {c' : Collected}
    {rest' : List String} (hdash : a ≠ "--")
    (hopt : (a.startsWith "-" && decide (a.length > 1)) = true)
    (hsplit : splitLong a = (a, none)) (hlong : Opt.ofLong a = none)
    (hshort : a.startsWith "--" = false)
    (hcluster : collectShort c rest (a.toList.drop 1) = .ok (c', rest')) :
    collect c (a :: rest) = collect c' rest' := by
  rw [collect, if_neg hdash, if_pos hopt, hsplit]
  simp only [hlong, hshort, Bool.false_eq_true, if_false]
  split
  · rename_i c'' rest'' h
    rw [hcluster] at h
    cases h
    rfl
  · rename_i f h
    rw [hcluster] at h
    cases h

/-- A short option that takes a value, written alone, takes the next argument as its value. -/
theorem collect_cons_short (c : Collected) (v : String) (rest : List String) {ch : Char} {o : Opt}
    (ho : Opt.ofShort ch = some o) (hv : o.takesValue = true) :
    collect c (String.ofList ['-', ch] :: v :: rest) = collect (c.add o v) rest := by
  unfold Opt.ofShort at ho
  split at ho
  case h_3 =>
    -- `-v` takes no value
    cases ho
    cases hv
  case h_4 => cases ho
  -- `-o` and `-p` are no long options, and each alone takes the next argument
  all_goals
    cases ho
    exact collect_cons_cluster c (v :: rest) (by decide) (optionShaped (by simp) (by decide))
      (by decide) rfl (by simp) (by simp [collectShort, Opt.ofShort, Opt.takesValue])

/-! ## Checking -/

namespace Collected

theorem mem_foldl_first {o : Opt} (l : List (Opt × String)) (acc : List Opt)
    (h : o ∈ l.foldl (fun acc g => if acc.contains g.1 then acc else acc ++ [g.1]) acc) :
    o ∈ acc ∨ ∃ g ∈ l, g.1 = o := by
  induction l generalizing acc with
  | nil => exact .inl h
  | cons g l ih =>
    rcases ih _ h with h' | ⟨g', hg', rfl⟩
    · dsimp only at h'
      split at h'
      · exact .inl h'
      · rcases List.mem_append.1 h' with h'' | h''
        · exact .inl h''
        · exact .inr ⟨g, List.mem_cons_self, (List.mem_singleton.1 h'').symm⟩
    · exact .inr ⟨g', List.mem_cons_of_mem _ hg', rfl⟩

/-- The options the checks look at were given. -/
theorem has_of_mem_checkOrder {c : Collected} {o : Opt} (h : o ∈ c.checkOrder) :
    c.has o = true := by
  have hfirst : o ∈ c.firstGiven := by
    rcases List.mem_append.1 h with h | h <;> exact (List.mem_filter.1 h).1
  rcases mem_foldl_first c.given [] hfirst with h | ⟨g, hg, rfl⟩
  · cases h
  · exact List.any_eq_true.2 ⟨g, hg, beq_self_eq_true _⟩

/-- A precision from 0 to 17 is read back from its decimal digits. -/
theorem readInt?_precision : ∀ k : Fin 18, Text.readInt? (toString k.val) = some (k.val : Int) := by
  decide

theorem precision?_of_last {c : Collected} {p : Precision}
    (h : c.last? .precision = some (toString p.digits)) : c.precision? = some p := by
  have hread := readInt?_precision ⟨p.digits, Nat.lt_succ_of_le p.bounded⟩
  simp only [Collected.precision?, h, Option.bind_some, hread, Precision.ofInt?]
  rw [dif_pos ⟨Int.natCast_nonneg _, by exact_mod_cast p.bounded⟩]
  rfl

/-- The precision the checks read is the one the arguments ask for. -/
theorem asksPrecision_of_precision? {c : Collected} {p : Precision} (h : c.precision? = some p) :
    c.AsksPrecision p := by
  refine ⟨fun hnone => ?_, fun q hq => ?_⟩
  · simp only [precision?, hnone] at h
    exact (Option.some.inj h).symm
  · rw [precision?_of_last hq] at h
    exact (Option.some.inj h).symm

/-- The last precision given, if any, written in decimal from 0 to 17, is read. -/
theorem precision?_of_decimal {c : Collected}
    (hdec : ∀ v, c.last? .precision = some v → ∃ p : Precision, v = toString p.digits) :
    ∃ p, c.precision? = some p := by
  cases hlast : c.last? .precision with
  | none => exact ⟨default, by simp [precision?, hlast]⟩
  | some v =>
    obtain ⟨p, rfl⟩ := hdec v hlast
    exact ⟨p, precision?_of_last hlast⟩

/-- Of the options, only `--version` and `--help` stop a run with code 0. -/
theorem checkOption_error {prog : String} {c : Collected} {outputIsDir : Bool} {o : Opt}
    {out : Outcome} (h : c.checkOption prog outputIsDir o = .error out) (h0 : out.code = 0) :
    o = .version ∨ o = .help := by
  cases o with
  | version => exact .inl rfl
  | help => exact .inr rfl
  | output =>
    simp only [checkOption] at h
    split at h
    · split at h
      · cases h
        cases h0
      · split at h
        · cases h
          cases h0
        · cases h
    · cases h
  | precision =>
    simp only [checkOption] at h
    split at h
    · cases h
    · cases h
      cases h0
  | stdout => cases h
  | tokens => cases h
  | verbose => cases h

/-- An option other than `--version` and `--help` passes its check when the last output path
can name a file that is no directory and the precision is read. -/
theorem checkOption_ok {prog : String} {c : Collected} {o : Opt} (hver : o ≠ .version)
    (hhelp : o ≠ .help) (hout : ∀ v, c.last? .output = some v → unnameable v = false)
    (hprec : c.precision?.isSome = true) : c.checkOption prog false o = .ok () := by
  cases o with
  | version => exact absurd rfl hver
  | help => exact absurd rfl hhelp
  | output =>
    simp only [checkOption]
    cases hlast : c.last? .output with
    | none => rfl
    | some v => simp [hout v hlast]
  | precision => simp [checkOption, hprec]
  | stdout => rfl
  | tokens => rfl
  | verbose => rfl

end Collected

theorem forM_error {l : List Opt} {f : Opt → Except Outcome Unit} {out : Outcome}
    (h : l.forM f = .error out) : ∃ o ∈ l, f o = .error out := by
  induction l with
  | nil => cases h
  | cons o l ih =>
    simp only [List.forM] at h
    rcases hf : f o with e | u
    · rw [hf] at h
      cases h
      exact ⟨o, List.mem_cons_self, hf⟩
    · rw [hf] at h
      obtain ⟨o', ho', hf'⟩ := ih h
      exact ⟨o', List.mem_cons_of_mem _ ho', hf'⟩

theorem forM_ok {l : List Opt} {f : Opt → Except Outcome Unit} (h : ∀ o ∈ l, f o = .ok ()) :
    l.forM f = .ok () := by
  induction l with
  | nil => rfl
  | cons o l ih =>
    simp only [List.forM, h o List.mem_cons_self]
    exact ih fun o' ho' => h o' (List.mem_cons_of_mem _ ho')

/-- Checked arguments that stop the run with code 0 asked for the version or the usage. -/
theorem Settings.ofCollected_stop {prog : String} {c : Collected} {inputIsDir outputIsDir : Bool}
    {out : Outcome} (h : Settings.ofCollected prog c inputIsDir outputIsDir = .error out)
    (h0 : out.code = 0) : c.has .version = true ∨ c.has .help = true := by
  unfold Settings.ofCollected at h
  rcases bind_eq_error.1 h with hf | ⟨u, hf, h⟩
  · obtain ⟨o, ho, hcheck⟩ := forM_error hf
    rcases Collected.checkOption_error hcheck h0 with rfl | rfl
    · exact .inl (Collected.has_of_mem_checkOrder ho)
    · exact .inr (Collected.has_of_mem_checkOrder ho)
  · -- past the options, the run is refused or abandoned, never with code 0
    split at h
    · split at h
      · cases h
        cases h0
      · split at h
        · cases h
          cases h0
        · cases h
    · cases h
      cases h0

/-- Checked arguments name one input and keep the options as they were given. -/
theorem Settings.ofCollected_ok {prog : String} {c : Collected} {inputIsDir outputIsDir : Bool}
    {s : Settings} (h : Settings.ofCollected prog c inputIsDir outputIsDir = .ok s) :
    c.positionals = [s.input] ∧ s.output = c.last? .output ∧ s.toStdout = c.has .stdout ∧
      s.tokens = c.has .tokens ∧ s.verbose = c.has .verbose ∧ c.AsksPrecision s.precision := by
  unfold Settings.ofCollected at h
  obtain ⟨u, -, h⟩ := bind_eq_ok.1 h
  split at h
  · rename_i input more p hpos hp
    split at h
    · cases h
    · split at h
      · cases h
      · rename_i hmore
        cases h
        have hnil : more = [] := (by simpa using hmore : inputIsDir = false ∧ more = []).2
        exact ⟨by rw [hpos, hnil], rfl, rfl, rfl, rfl, Collected.asksPrecision_of_precision? hp⟩
  · cases h

/-- One input and an output path, if any, that can name files and are no directories, a
precision, if any, in decimal from 0 to 17, and neither `--version` nor `--help`: the checks
pass. -/
theorem Settings.ofCollected_accepts {prog : String} {c : Collected} {F : String}
    (hpos : c.positionals = [F]) (hnul : unnameable F = false)
    (hout : ∀ o, c.last? .output = some o → unnameable o = false)
    (hdec : ∀ v, c.last? .precision = some v → ∃ p : Precision, v = toString p.digits)
    (hver : c.has .version = false) (hhelp : c.has .help = false) :
    ∃ s, Settings.ofCollected prog c false false = .ok s := by
  obtain ⟨p, hp⟩ := Collected.precision?_of_decimal hdec
  have hcheck : c.checkOrder.forM (c.checkOption prog false) = .ok () := by
    apply forM_ok
    intro o ho
    -- only options given are looked at, and neither `--version` nor `--help` was given
    have hgiven := Collected.has_of_mem_checkOrder ho
    apply Collected.checkOption_ok _ _ hout (by simp [hp])
    · rintro rfl
      rw [hver] at hgiven
      cases hgiven
    · rintro rfl
      rw [hhelp] at hgiven
      cases hgiven
  refine ⟨⟨F, c.last? .output, p, c.has .stdout, c.has .tokens, c.has .verbose⟩, ?_⟩
  simp only [Settings.ofCollected, hcheck, hpos, hp, hnul]
  rfl

/-- The standard reading keeps the laws the command relies on. -/
theorem CommandLine.standard_lawful : CommandLine.standard.Lawful where
  collect_nil := collect_nil
  collect_name c _ rest ha := collect_cons_name c rest ha
  collect_flag c _ _ rest ho hv := collect_cons_flag c rest ho hv
  collect_value c _ _ v rest ho hv := collect_cons_short c v rest ho hv
  check_ok _ _ _ _ _ h := Settings.ofCollected_ok h
  check_stop _ _ _ _ _ h h0 := Settings.ofCollected_stop h h0
  check_accepts _ _ _ hpos hnul hout hdec hver hhelp :=
    Settings.ofCollected_accepts hpos hnul hout hdec hver hhelp

end TinyBasic
