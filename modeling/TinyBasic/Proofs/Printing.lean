import TinyBasic.Proofs.Command
import TinyBasic.Proofs.Lexemes
import TinyBasic.Proofs.C.Format
/-!
# What a printed text writes

A statement `PRINT "v"` becomes the line `printf("v\n");`, with `v` copied into the format as
it stands. The scanner keeps out of a string the characters that would change what the format
says: the quote that would end the literal, the backslash that would start an escape, the
percent sign that would start a conversion, and the line ends and the tab. Read as C, the line
then writes the characters of `v` and a line feed, and reads no argument, for every text that
holds no null character.

A null character is not kept out. It passes into the literal as it is, and `printf` stops
there: the line writes what comes before it and no line feed.

* `Stmt.texts` and `Stmt.blockTexts` are the texts a statement or a run of statements prints,
  at any depth.
* `StmtOf.text_token`: each such text is the text of a string token among the tokens the
  statement is read from; `TokenStream.string_text` says which characters such a text holds.
* `compile_print_text`: in what an accepted source compiles to, every printed text stands on a
  line `printf("v\n");` of its own, holds none of the kept-out characters, and the line writes
  the characters of `v` before its first null character, then a line feed unless `v` holds one.
-/

namespace TinyBasic

/-! ## What a phrase leaves -/

/-- What follows a run of line breaks is a suffix of the tokens. -/
theorem BlankOf.suffix {ts r : List Token} (h : BlankOf ts r) : r <:+ ts := by
  induction h with
  | nil => exact List.suffix_refl _
  | cons _ _ ih => exact ih.trans (List.suffix_cons _ _)

theorem BreakOf.suffix {ts r : List Token} (h : BreakOf ts r) : r <:+ ts := by
  cases h with
  | mk _ hr => exact hr.suffix.trans (List.suffix_cons _ _)

theorem FactorOf.suffix {ts r : List Token} {f : Factor} (h : FactorOf ts f r) : r <:+ ts := by
  cases h with
  | bare _ => exact List.suffix_cons _ _
  | signed _ _ => exact (List.suffix_cons _ _).trans (List.suffix_cons _ _)

/-- A chain leaves a suffix when each of its items does. -/
theorem ChainOf.suffix {O E : Type} {op : Kind → Option O}
    {item : List Token → E → List Token → Prop}
    (hitem : ∀ {ts e r}, item ts e r → r <:+ ts) {ts r : List Token} {es : List (O × E)}
    (h : ChainOf op item ts es r) : r <:+ ts := by
  induction h with
  | nil => exact List.suffix_refl _
  | cons _ he _ ih => exact ih.trans ((hitem he).trans (List.suffix_cons _ _))

theorem TermOf.suffix {ts r : List Token} {t : Term} (h : TermOf ts t r) : r <:+ ts := by
  cases h with
  | mk hf hfs => exact (hfs.suffix FactorOf.suffix).trans hf.suffix

theorem ExprOf.suffix {ts r : List Token} {e : Expr} (h : ExprOf ts e r) : r <:+ ts := by
  cases h with
  | mk ht hts => exact (hts.suffix TermOf.suffix).trans ht.suffix

theorem ComparisonOf.suffix {ts r : List Token} {c : Comparison} (h : ComparisonOf ts c r) :
    r <:+ ts := by
  cases h with
  | mk hl _ hr hmore =>
    have hright : _ <:+ _ := hr.suffix.trans ((List.suffix_cons _ _).trans hl.suffix)
    exact (hmore.suffix ExprOf.suffix).trans hright

/-- The body of an `IF` or a `WHILE` is read from a suffix of the statement's tokens. -/
theorem guard_suffix {i th : Token} {r₁ r₂ r₃ : List Token} {c : Comparison}
    (hc : ComparisonOf r₁ c (th :: r₂)) (hb : BreakOf r₂ r₃) : r₃ <:+ i :: r₁ :=
  hb.suffix.trans ((List.suffix_cons _ _).trans (hc.suffix.trans (List.suffix_cons _ _)))

mutual

/-- What follows a statement is a suffix of the tokens. -/
theorem StmtOf.suffix {ts r : List Token} {s : Stmt} (h : StmtOf ts s r) : r <:+ ts :=
  match h with
  | .printText _ _ hb => hb.suffix.trans ((List.suffix_cons _ _).trans (List.suffix_cons _ _))
  | .printValue _ he hb => hb.suffix.trans (he.suffix.trans (List.suffix_cons _ _))
  | .ifThen _ hc _ hb hbody _ hb₂ =>
    hb₂.suffix.trans ((List.suffix_cons _ _).trans (hbody.suffix.trans (guard_suffix hc hb)))
  | .whileRepeat _ hc _ hb hbody _ hb₂ =>
    hb₂.suffix.trans ((List.suffix_cons _ _).trans (hbody.suffix.trans (guard_suffix hc hb)))
  | .label _ _ hb => hb.suffix.trans ((List.suffix_cons _ _).trans (List.suffix_cons _ _))
  | .goto _ _ hb => hb.suffix.trans ((List.suffix_cons _ _).trans (List.suffix_cons _ _))
  | .assign _ _ _ he hb =>
    hb.suffix.trans (he.suffix.trans ((List.suffix_cons _ _).trans
      ((List.suffix_cons _ _).trans (List.suffix_cons _ _))))
  | .input _ _ hb => hb.suffix.trans ((List.suffix_cons _ _).trans (List.suffix_cons _ _))

/-- What follows a run of statements is a suffix of the tokens. -/
theorem BlockOf.suffix {ts r : List Token} {ss : List Stmt} (h : BlockOf ts ss r) : r <:+ ts :=
  match h with
  | .nil => List.suffix_refl _
  | .cons hs hss => hss.suffix.trans hs.suffix

end

/-! ## The printed texts -/

mutual

/-- The texts a statement prints with `PRINT "…"`, at any depth, in order. -/
def Stmt.texts : Stmt → List String
  | .printText v => [v]
  | .printValue _ => []
  | .ifThen _ body => Stmt.blockTexts body
  | .whileRepeat _ body => Stmt.blockTexts body
  | .label _ => []
  | .goto _ => []
  | .assign _ _ => []
  | .input _ => []

/-- The texts a run of statements prints, in order. -/
def Stmt.blockTexts : List Stmt → List String
  | [] => []
  | s :: ss => Stmt.texts s ++ Stmt.blockTexts ss

end

@[simp] theorem Stmt.blockTexts_nil : Stmt.blockTexts [] = [] := by
  simp [Stmt.blockTexts]

@[simp] theorem Stmt.blockTexts_cons (s : Stmt) (ss : List Stmt) :
    Stmt.blockTexts (s :: ss) = s.texts ++ Stmt.blockTexts ss := by
  simp [Stmt.blockTexts]

mutual

/-- Each text a statement prints is the text of a string token among its tokens. -/
theorem StmtOf.text_token {ts r : List Token} {s : Stmt} (h : StmtOf ts s r) {v : String}
    (hv : v ∈ s.texts) : ∃ t ∈ ts, t.kind = .string ∧ t.text = v :=
  match h, hv with
  | .printText _ hs _, hv => by
    rw [Stmt.texts, List.mem_singleton] at hv
    exact ⟨_, List.mem_cons_of_mem _ List.mem_cons_self, hs, hv.symm⟩
  | .printValue _ _ _, hv => by simp [Stmt.texts] at hv
  | .ifThen _ hc _ hb hbody _ _, hv => by
    rw [Stmt.texts] at hv
    obtain ⟨t, ht, hk, rfl⟩ := hbody.text_token hv
    exact ⟨t, (guard_suffix hc hb).subset ht, hk, rfl⟩
  | .whileRepeat _ hc _ hb hbody _ _, hv => by
    rw [Stmt.texts] at hv
    obtain ⟨t, ht, hk, rfl⟩ := hbody.text_token hv
    exact ⟨t, (guard_suffix hc hb).subset ht, hk, rfl⟩
  | .label _ _ _, hv => by simp [Stmt.texts] at hv
  | .goto _ _ _, hv => by simp [Stmt.texts] at hv
  | .assign _ _ _ _ _, hv => by simp [Stmt.texts] at hv
  | .input _ _ _, hv => by simp [Stmt.texts] at hv

/-- Each text a run of statements prints is the text of a string token among its tokens. -/
theorem BlockOf.text_token {ts r : List Token} {ss : List Stmt} (h : BlockOf ts ss r)
    {v : String} (hv : v ∈ Stmt.blockTexts ss) : ∃ t ∈ ts, t.kind = .string ∧ t.text = v :=
  match h, hv with
  | .nil, hv => by simp at hv
  | .cons hs hss, hv => by
    rw [Stmt.blockTexts_cons, List.mem_append] at hv
    rcases hv with hv | hv
    · exact hs.text_token hv
    · obtain ⟨t, ht, hk, rfl⟩ := hss.text_token hv
      exact ⟨t, hs.suffix.subset ht, hk, rfl⟩

end

mutual

/-- Each text a statement prints has its line among the statement's lines of C. -/
theorem Stmt.text_line (p : Precision) :
    ∀ (s : Stmt) {v : String}, v ∈ s.texts → "printf(\"" ++ v ++ "\\n\");" ∈ Stmt.lines p s
  | .printText w, v, hv => by
    rw [Stmt.texts, List.mem_singleton] at hv
    rw [hv, Stmt.lines]
    exact List.mem_singleton_self _
  | .printValue _, _, hv => by simp [Stmt.texts] at hv
  | .ifThen c body, v, hv => by
    rw [Stmt.texts] at hv
    rw [Stmt.lines, List.mem_append, List.mem_cons]
    exact .inl (.inr (Stmt.blockText_line p body hv))
  | .whileRepeat c body, v, hv => by
    rw [Stmt.texts] at hv
    rw [Stmt.lines, List.mem_append, List.mem_cons]
    exact .inl (.inr (Stmt.blockText_line p body hv))
  | .label _, _, hv => by simp [Stmt.texts] at hv
  | .goto _, _, hv => by simp [Stmt.texts] at hv
  | .assign _ _, _, hv => by simp [Stmt.texts] at hv
  | .input _, _, hv => by simp [Stmt.texts] at hv

/-- Each text a run of statements prints has its line among their lines of C. -/
theorem Stmt.blockText_line (p : Precision) :
    ∀ (ss : List Stmt) {v : String}, v ∈ Stmt.blockTexts ss →
      "printf(\"" ++ v ++ "\\n\");" ∈ Stmt.blockLines p ss
  | [], _, hv => by simp at hv
  | s :: ss, v, hv => by
    rw [Stmt.blockTexts_cons, List.mem_append] at hv
    rw [Stmt.blockLines, List.mem_append]
    rcases hv with hv | hv
    · exact .inl (Stmt.text_line p s hv)
    · exact .inr (Stmt.blockText_line p ss hv)

end

/-! ## The characters of a string -/

theorem isStringBreak_eq_false {c : Char} :
    isStringBreak c = false ↔ c ≠ '\r' ∧ c ≠ '\n' ∧ c ≠ '\t' ∧ c ≠ '\\' ∧ c ≠ '%' := by
  simp [isStringBreak, and_assoc]

/-- A character a string may hold stands for itself in a C literal and in a `printf` format. -/
theorem isPlain_of_string {c : Char} (hq : c ≠ '"') (hb : isStringBreak c = false) :
    C.IsPlain c := by
  obtain ⟨hr, hn, -, hbs, hp⟩ := isStringBreak_eq_false.1 hb
  exact ⟨hq, hbs, C.isLineEnd_eq_false.2 ⟨hn, hr⟩, hp⟩

/-- Every token of a whole reading was read from a lexeme of its kind. -/
theorem Lexed.lexeme_of_mem {pre cs pre' cs' : List Char} {ts : List Token}
    (h : Lexed pre cs ts pre' cs') {t : Token} (ht : t ∈ ts) : Lexeme t.kind t.lexeme := by
  induction h with
  | nil => cases ht
  | cons _ hlong _ _ _ ih =>
    rcases List.mem_cons.1 ht with rfl | ht
    · exact hlong.1
    · exact ih ht

/-- The text of a string token the scanner reads holds no quote and no character that breaks a
string; it may hold any other character, the null character among them. -/
theorem TokenStream.string_text {file source : String} {ts : List Token}
    (h : (TokenStream.start file source).tokens = (ts, none)) {t : Token} (ht : t ∈ ts)
    (hk : t.kind = .string) : ∀ c ∈ t.text.toList, c ≠ '"' ∧ isStringBreak c = false := by
  have hstart : (TokenStream.start file source).cursor.After [] := Cursor.after_nil _
  obtain ⟨body, pre, g, hlexed, -, rfl⟩ := TokenStream.tokens_end_lexed hstart h
  rcases List.mem_append.1 ht with ht | ht
  · -- a string lexeme is a quote, its text and a quote
    have hlex := hlexed.lexeme_of_mem ht
    rw [Token.lexeme, hk, Kind.lexemeOf, if_pos rfl, List.cons_append] at hlex
    obtain ⟨-, w, hw, hchars⟩ := Lexeme.of_quote hlex
    rw [List.append_cancel_right hw]
    exact hchars
  · rw [List.mem_singleton] at ht
    rw [ht] at hk
    cases hk

/-! ## The line of a printed text -/

/-- In what an accepted source compiles to, every text the program prints stands on a line
`printf("v\n");` of its own, and holds no quote, backslash, percent sign, carriage return, line
feed or tab. Read as C, that line writes the characters of `v` before its first null character,
then a line feed unless `v` holds a null character, and reads no argument. -/
theorem compile_print_text {p : Precision} {file source : String} {c : Compilation} {v : String}
    (h : compile p file source = .ok c) (hv : v ∈ Stmt.blockTexts c.parsed.program) :
    (∃ above below, c.code = unlines (above ++ ("printf(\"" ++ v ++ "\\n\");") :: below)) ∧
    (∀ ch ∈ v.toList, ch ≠ '"' ∧ ch ≠ '\\' ∧ ch ≠ '%' ∧ ch ≠ '\r' ∧ ch ≠ '\n' ∧ ch ≠ '\t') ∧
    C.printfLine? ("printf(\"" ++ v ++ "\\n\");") =
      some (if '\x00' ∈ v.toList then (v.toList.takeWhile (· != '\x00'), false)
        else (v.toList ++ ['\n'], false)) := by
  obtain ⟨hparse, -⟩ := compile_eq_ok h
  obtain ⟨ts, htok, hs, -⟩ := Program.parse_sound hparse
  -- the text is that of a string token the scanner read
  have hstring : ∀ ch ∈ v.toList, ch ≠ '"' ∧ isStringBreak ch = false := by
    obtain ⟨hblank, hprog, -⟩ := hs
    obtain ⟨t, ht, hk, rfl⟩ := hprog.text_token hv
    exact TokenStream.string_text htok (hblank.suffix.subset ht) hk
  have hchars : ∀ ch ∈ v.toList,
      ch ≠ '"' ∧ ch ≠ '\\' ∧ ch ≠ '%' ∧ ch ≠ '\r' ∧ ch ≠ '\n' ∧ ch ≠ '\t' := by
    intro ch hch
    obtain ⟨hq, hbreak⟩ := hstring ch hch
    obtain ⟨hr, hn, ht, hb, hp⟩ := isStringBreak_eq_false.1 hbreak
    exact ⟨hq, hb, hp, hr, hn, ht⟩
  have hplain : ∀ ch ∈ v.toList, C.IsPlain ch := fun ch hch =>
    isPlain_of_string (hstring ch hch).1 (hstring ch hch).2
  refine ⟨?_, hchars, C.printfLine_text hplain⟩
  -- the line stands among the program's lines, between the prologue and the end of `main`
  obtain ⟨above, below, hlines⟩ := List.append_of_mem (Stmt.blockText_line p _ hv)
  have htrans : c.code = Program.translation p c.parsed.program := compile_code h
  refine ⟨["#include <stdio.h>", "int main(void) \x7b"] ++
    (Program.variables c.parsed.program).map (fun v => "float " ++ v ++ ";") ++ [""] ++ above,
    below ++ ["return 0;", "\x7d"], ?_⟩
  rw [htrans, Program.translation, hlines]
  simp only [List.append_assoc, List.cons_append]

/-- A source whose one statement prints a text with a null character in it. -/
theorem compile_text_with_null :
    ∃ c, compile default "<input>" "PRINT \"a\x00b\"" = .ok c ∧
      c.parsed.program = [.printText "a\x00b"] ∧
      c.code = "#include <stdio.h>\nint main(void) \x7b\n\nprintf(\"a\x00b\\n\");\nreturn 0;\n\x7d\n" := by
  let ts : List Token :=
    [⟨.printKw, "PRINT", 1, 1⟩, ⟨.string, "a\x00b", 1, 7⟩, ⟨.newline, "\n", 1, 12⟩,
      ⟨.eof, "", 2, 1⟩]
  -- the scanner's tokens, computed
  have htok : (TokenStream.start "<input>" "PRINT \"a\x00b\"").tokens = (ts, none) := by
    have h : (TokenStream.start "<input>" "PRINT \"a\x00b\"").tokens.1 = ts ∧
        (TokenStream.start "<input>" "PRINT \"a\x00b\"").tokens.2.isNone = true := by
      decide +kernel
    exact Prod.ext h.1 (Option.isNone_iff_eq_none.1 h.2)
  have hs : SentenceOf ts [.printText "a\x00b"] :=
    .mk .nil (.cons (.printText rfl rfl (.mk rfl .nil)) .nil) rfl
  obtain ⟨c, hc, hprog, hcode⟩ :=
    @compile_complete default _ _ _ _ htok hs (WellScoped.of_marks_nil rfl)
  refine ⟨c, hc, hprog, ?_⟩
  rw [hcode]
  decide

/-- The line a text with a null character compiles to: it writes what precedes the null
character, and no line feed. -/
theorem compile_print_text_at_null :
    ∃ c, compile default "<input>" "PRINT \"a\x00b\"" = .ok c ∧
      "a\x00b" ∈ Stmt.blockTexts c.parsed.program ∧
      C.printfLine? ("printf(\"" ++ "a\x00b" ++ "\\n\");") = some (['a'], false) := by
  obtain ⟨c, hc, hprog, -⟩ := compile_text_with_null
  have hmem : "a\x00b" ∈ Stmt.blockTexts c.parsed.program := by
    rw [hprog]
    simp [Stmt.texts]
  refine ⟨c, hc, hmem, ?_⟩
  have hchars : "a\x00b".toList = ['a', '\x00', 'b'] := by simp
  rw [(compile_print_text hc hmem).2.2, hchars]
  decide

/-- A text with a null character in it is accepted, and the line that prints it stops at the
null character: `printf` writes `a`, and neither `b` nor the line feed. -/
theorem compile_print_text_stops_at_null :
    ∃ c, compile default "<input>" "PRINT \"a\x00b\"" = .ok c ∧
      c.code = "#include <stdio.h>\nint main(void) \x7b\n\nprintf(\"a\x00b\\n\");\nreturn 0;\n\x7d\n" ∧
      C.printfLine? "printf(\"a\x00b\\n\");" ≠ some (['a', '\x00', 'b', '\n'], false) := by
  obtain ⟨c, hc, -, hcode⟩ := compile_text_with_null
  refine ⟨c, hc, hcode, ?_⟩
  have hchars : "a\x00b".toList = ['a', '\x00', 'b'] := by simp
  have hplain : ∀ ch ∈ "a\x00b".toList, C.IsPlain ch := by
    simp [hchars, C.IsPlain, C.isLineEnd]
  have hline : "printf(\"a\x00b\\n\");" = "printf(\"" ++ "a\x00b" ++ "\\n\");" := by decide
  rw [hline, C.printfLine_text hplain, hchars]
  decide

end TinyBasic
