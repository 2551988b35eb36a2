import TinyBasic.Proofs.Lookahead
import TinyBasic.Proofs.C.Lexer
import TinyBasic.Proofs.Lines
/-!
# The lexemes of a text

The scanner cuts the source, with its closing line feed, into gaps and lexemes. Before each
token it passes a gap: blanks, then at most one comment, which runs from `#` up to a line feed.
The token is then read from the longest lexeme that starts where the gap ends, and is placed at
the line and column of the lexeme's first character.

Lexemes are defined here by their classes, without reference to how the scanner finds them:
the operators, of which `==`, `<=`, `>=` and `!=` have two characters; a line feed; a number,
which is digits with at most one point, and digits on both sides of it; a word, which is a run
of ASCII letters and is a keyword exactly when it spells one; and a string, which is a quote,
the characters a string may hold, and a quote.

* `Lexeme k w` says that `w` is a lexeme read as a token of kind `k`; `Lexeme.cases_head` says
  what a lexeme's first character tells about it.
* `Lexed pre cs ts pre' cs'` says that reading on from `cs` passes a gap and the longest lexeme,
  which spells the next token of `ts` and places it, once per token.
* `Fault cs p n` is the fault the rules find at the start of `cs`, `n` characters in.
* `TokenStream.lexes_text` puts the scanner's steps together: its tokens cut the source with its
  closing line feed in this way, and end either with the end of the text, on the line after the
  last line feed, or with the fault the rules find after the last gap.
-/

namespace TinyBasic

/-! ## Gaps -/

/-- A gap between two tokens: blanks, then at most one comment, which runs from `#` up to a
line feed. -/
def IsGap (g : List Char) : Prop :=
  ∃ blanks comment, g = blanks ++ comment ∧ (∀ b ∈ blanks, Cursor.isBlank b = true) ∧
    (comment = [] ∨ ∃ body, comment = '#' :: body ∧ '\n' ∉ body)

theorem drop_length_takeWhile {α : Type} (p : α → Bool) (l : List α) :
    l.drop (l.takeWhile p).length = l.dropWhile p := by
  induction l with
  | nil => rfl
  | cons a l ih => by_cases h : p a <;> simp [h, ih]

namespace Cursor

/-- Skipping a run passes the run's characters. -/
theorem skipWhile_rest (p : Char → Bool) (c : Cursor) :
    c.rest = c.rest.takeWhile p ++ (c.skipWhile p).rest := by
  rw [skipWhile, skip_rest, drop_length_takeWhile, List.takeWhile_append_dropWhile]

/-- The gap the stream passes before a token is a gap, and the cursor skips exactly it. -/
theorem skipGap_split (c : Cursor) :
    ∃ g, IsGap g ∧ c.rest = g ++ c.skipGap.rest ∧ c.skipGap = c.skip g.length := by
  have hblank := skipWhile_rest isBlank c
  have hall : ∀ b ∈ c.rest.takeWhile isBlank, isBlank b = true :=
    fun b hb => List.mem_takeWhile_imp hb
  unfold skipGap passComment
  split
  · -- a comment follows the blanks: it runs up to the line feed
    rename_i t ht
    let c₁ := c.skipWhile isBlank
    have hcomment := skipWhile_rest (· != '\n') c₁
    rw [ht] at hcomment
    refine ⟨c.rest.takeWhile isBlank ++ ('#' :: t).takeWhile (· != '\n'),
      ⟨_, _, rfl, hall, .inr ⟨t.takeWhile (· != '\n'), by simp, fun hn => ?_⟩⟩, ?_, ?_⟩
    · simpa using List.mem_takeWhile_imp hn
    · rw [List.append_assoc, ← hcomment, ← ht]
      exact hblank
    · rw [List.length_append, skip_add]
      show c₁.skip (c₁.rest.takeWhile _).length = _
      rw [ht]
      rfl
  · exact ⟨c.rest.takeWhile isBlank, ⟨_, [], by simp, hall, .inl rfl⟩, hblank, rfl⟩

end Cursor

/-! ## Lexemes -/

/-- The lexemes, each with the kind of token it is read as. -/
inductive Lexeme : Kind → List Char → Prop
  | plus : Lexeme .plus ['+']
  | minus : Lexeme .minus ['-']
  | asterisk : Lexeme .asterisk ['*']
  | slash : Lexeme .slash ['/']
  | eq : Lexeme .eq ['=']
  | gt : Lexeme .gt ['>']
  | lt : Lexeme .lt ['<']
  | eqEq : Lexeme .eqEq ['=', '=']
  | gtEq : Lexeme .gtEq ['>', '=']
  | ltEq : Lexeme .ltEq ['<', '=']
  | notEq : Lexeme .notEq ['!', '=']
  | newline : Lexeme .newline ['\n']
  /-- Digits. -/
  | whole {ds : List Char} : ds ≠ [] → (∀ d ∈ ds, d.isDigit) → Lexeme .number ds
  /-- Digits, a point and digits. -/
  | fraction {ds fs : List Char} : ds ≠ [] → (∀ d ∈ ds, d.isDigit) → fs ≠ [] →
      (∀ d ∈ fs, d.isDigit) → Lexeme .number (ds ++ '.' :: fs)
  /-- A word that spells a keyword exactly. -/
  | keyword {w : List Char} {k : Kind} : (String.ofList w, k) ∈ Kind.keywords → Lexeme k w
  /-- Any other word. -/
  | identifier {w : List Char} : w ≠ [] → (∀ l ∈ w, l.isAlpha) →
      (∀ k, (String.ofList w, k) ∉ Kind.keywords) → Lexeme .identifier w
  /-- A quote, characters that a string may hold, and a quote. -/
  | string {body : List Char} : (∀ ch ∈ body, ch ≠ '"' ∧ isStringBreak ch = false) →
      Lexeme .string ('"' :: body ++ ['"'])

/-- Keywords are spelled with letters. -/
theorem Kind.keywords_letters : Kind.keywords.all (fun p => p.1.toList.all Char.isAlpha) = true := by
  decide

/-- What the first character of a lexeme tells about the rest of it. -/
theorem Lexeme.cases_head {k : Kind} {ch : Char} {w : List Char} (h : Lexeme k (ch :: w)) :
    (w = [] ∧ ch ∈ ['+', '-', '*', '/', '=', '>', '<', '\n']) ∨
    (w = ['='] ∧ ch ∈ ['=', '>', '<', '!']) ∨
    (ch = '"' ∧ k = .string ∧
      ∃ body, w = body ++ ['"'] ∧ ∀ c ∈ body, c ≠ '"' ∧ isStringBreak c = false) ∨
    (ch.isDigit ∧ k = .number ∧ ((∀ c ∈ w, c.isDigit) ∨
      ∃ ds fs, w = ds ++ '.' :: fs ∧ (∀ c ∈ ds, c.isDigit) ∧ fs ≠ [] ∧ ∀ c ∈ fs, c.isDigit)) ∨
    (ch.isAlpha ∧ ∀ c ∈ w, c.isAlpha) := by
  generalize hx : ch :: w = x at h
  cases h with
  | plus | minus | asterisk | slash | eq | gt | lt | newline =>
    simp only [List.cons.injEq] at hx
    obtain ⟨rfl, rfl⟩ := hx
    simp
  | eqEq | gtEq | ltEq | notEq =>
    simp only [List.cons.injEq] at hx
    obtain ⟨rfl, rfl⟩ := hx
    simp
  | @whole ds _ hds =>
    subst hx
    exact .inr (.inr (.inr (.inl ⟨hds ch List.mem_cons_self, rfl,
      .inl fun c hc => hds c (List.mem_cons_of_mem ch hc)⟩)))
  | @fraction ds fs hne hds hfne hfs =>
    -- the first digit is the head of the whole part
    obtain ⟨d, ds', rfl⟩ := List.exists_cons_of_ne_nil hne
    simp only [List.cons_append, List.cons.injEq] at hx
    obtain ⟨rfl, rfl⟩ := hx
    exact .inr (.inr (.inr (.inl ⟨hds _ List.mem_cons_self, rfl,
      .inr ⟨ds', fs, rfl, fun c hc => hds c (List.mem_cons_of_mem _ hc), hfne, hfs⟩⟩)))
  | @keyword x k hmem =>
    -- a keyword is spelled with letters
    have hletters := List.all_eq_true.1 (List.all_eq_true.1 Kind.keywords_letters _ hmem)
    rw [String.toList_ofList, ← hx] at hletters
    exact .inr (.inr (.inr (.inr ⟨hletters ch List.mem_cons_self,
      fun c hc => hletters c (List.mem_cons_of_mem ch hc)⟩)))
  | @identifier x _ hls _ =>
    subst hx
    exact .inr (.inr (.inr (.inr ⟨hls ch List.mem_cons_self,
      fun c hc => hls c (List.mem_cons_of_mem ch hc)⟩)))
  | @string body hbody =>
    simp only [List.cons_append, List.cons.injEq] at hx
    obtain ⟨rfl, rfl⟩ := hx
    exact .inr (.inr (.inl ⟨rfl, rfl, body, rfl, hbody⟩))

namespace Lexeme

variable {k : Kind} {ch : Char} {w : List Char}

/-- A lexeme that starts with an operator character is that character, or it and `=`. -/
theorem tail_of_operator (h : Lexeme k (ch :: w)) (hq : ch ≠ '"') (hd : ch.isDigit = false)
    (ha : ch.isAlpha = false) : w = [] ∨ (w = ['='] ∧ ch ∈ ['=', '>', '<', '!']) := by
  rcases cases_head h with ⟨hw, -⟩ | hpair | ⟨hq', -⟩ | ⟨hd', -⟩ | ⟨ha', -⟩
  · exact .inl hw
  · exact .inr hpair
  · exact absurd hq' hq
  · rw [hd] at hd'
    cases hd'
  · rw [ha] at ha'
    cases ha'

/-- A lexeme that starts with a quote is a string. -/
theorem of_quote (h : Lexeme k ('"' :: w)) :
    k = .string ∧ ∃ body, w = body ++ ['"'] ∧ ∀ c ∈ body, c ≠ '"' ∧ isStringBreak c = false := by
  rcases cases_head h with ⟨-, hm⟩ | ⟨-, hm⟩ | ⟨-, hs⟩ | ⟨hd, -⟩ | ⟨ha, -⟩
  · simp at hm
  · simp at hm
  · exact hs
  · exact absurd hd (by decide)
  · exact absurd ha (by decide)

/-- A lexeme that starts with a digit is a number: digits, or digits, a point and digits. -/
theorem of_digit (h : Lexeme k (ch :: w)) (hd : ch.isDigit) :
    k = .number ∧ ((∀ c ∈ w, c.isDigit) ∨
      ∃ ds fs, w = ds ++ '.' :: fs ∧ (∀ c ∈ ds, c.isDigit) ∧ fs ≠ [] ∧ ∀ c ∈ fs, c.isDigit) := by
  rcases cases_head h with ⟨-, hm⟩ | ⟨-, hm⟩ | ⟨rfl, -⟩ | ⟨-, hn⟩ | ⟨ha, -⟩
  · -- no operator character is a digit
    simp only [List.mem_cons, List.not_mem_nil, or_false] at hm
    rcases hm with rfl | rfl | rfl | rfl | rfl | rfl | rfl | rfl <;> exact absurd hd (by decide)
  · simp only [List.mem_cons, List.not_mem_nil, or_false] at hm
    rcases hm with rfl | rfl | rfl | rfl <;> exact absurd hd (by decide)
  · exact absurd hd (by decide)
  · exact hn
  · rw [C.isAlpha_eq_false_of_isDigit hd] at ha
    cases ha

/-- A lexeme that starts with a letter is a run of letters. -/
theorem of_letter (h : Lexeme k (ch :: w)) (ha : ch.isAlpha) : ∀ c ∈ w, c.isAlpha := by
  rcases cases_head h with ⟨-, hm⟩ | ⟨-, hm⟩ | ⟨rfl, -⟩ | ⟨hd, -⟩ | ⟨-, hw⟩
  · -- no operator character is a letter
    simp only [List.mem_cons, List.not_mem_nil, or_false] at hm
    rcases hm with rfl | rfl | rfl | rfl | rfl | rfl | rfl | rfl <;> exact absurd ha (by decide)
  · simp only [List.mem_cons, List.not_mem_nil, or_false] at hm
    rcases hm with rfl | rfl | rfl | rfl <;> exact absurd ha (by decide)
  · exact absurd ha (by decide)
  · rw [C.isAlpha_eq_false_of_isDigit hd] at ha
    cases ha
  · exact hw

/-- The characters that start a lexeme. -/
theorem head_mem (h : Lexeme k (ch :: w)) :
    ch ∈ ['+', '-', '*', '/', '=', '>', '<', '\n', '!', '"'] ∨ ch.isDigit ∨ ch.isAlpha := by
  rcases cases_head h with ⟨-, hm⟩ | ⟨-, hm⟩ | ⟨rfl, -⟩ | ⟨hd, -⟩ | ⟨ha, -⟩
  · simp only [List.mem_cons, List.not_mem_nil, or_false] at hm
    rcases hm with rfl | rfl | rfl | rfl | rfl | rfl | rfl | rfl <;> simp
  · simp only [List.mem_cons, List.not_mem_nil, or_false] at hm
    rcases hm with rfl | rfl | rfl | rfl <;> simp
  · simp
  · exact .inr (.inl hd)
  · exact .inr (.inr ha)

/-- A run of letters is a word: the keyword it spells, or a name. -/
theorem word (hne : w ≠ []) (hw : ∀ c ∈ w, c.isAlpha) :
    Lexeme (Kind.ofWord (String.ofList w)) w := by
  unfold Kind.ofWord
  split
  · rename_i k hk
    obtain ⟨l₁, l₂, hl, -⟩ := List.lookup_eq_some_iff.1 hk
    exact keyword (hl ▸ List.mem_append_right _ List.mem_cons_self)
  · rename_i hk
    refine identifier hne hw fun k hmem => ?_
    simpa using List.lookup_eq_none_iff.1 hk _ hmem

end Lexeme

/-- A word is never read as a string. -/
theorem Kind.ofWord_ne_string (w : String) : Kind.ofWord w ≠ .string := by
  unfold Kind.ofWord
  split
  · rename_i k hk
    obtain ⟨l₁, l₂, hl, -⟩ := List.lookup_eq_some_iff.1 hk
    have hmem : (w, k) ∈ Kind.keywords := by
      rw [hl]
      exact List.mem_append_right _ List.mem_cons_self
    have hall : ∀ p ∈ Kind.keywords, p.2 ≠ .string := by decide
    exact hall _ hmem
  · simp

/-- The characters a token of kind `k` with text `text` is read from: its text, within quotes
for a string. -/
def Kind.lexemeOf (k : Kind) (text : String) : List Char :=
  if k = .string then '"' :: text.toList ++ ['"'] else text.toList

/-- The characters a token is read from. -/
def Token.lexeme (t : Token) : List Char := t.kind.lexemeOf t.text

/-- `w` is a lexeme of kind `k` at the start of `cs`, and no lexeme at the start of `cs` is
longer. -/
def LongestLexeme (k : Kind) (w cs : List Char) : Prop :=
  Lexeme k w ∧ w <+: cs ∧ ∀ k' w', Lexeme k' w' → w' <+: cs → w'.length ≤ w.length

/-! ## Runs of a class of characters -/

section Runs

variable {p : Char → Bool} {run cs : List Char}

/-- A run of characters of a class at the start of a text is no longer than the longest. -/
theorem length_le_takeWhile (hrun : ∀ x ∈ run, p x) (hpre : run <+: cs) :
    run.length ≤ (cs.takeWhile p).length := by
  obtain ⟨u, rfl⟩ := hpre
  rw [List.takeWhile_append_of_pos hrun, List.length_append]
  exact Nat.le_add_right _ _

/-- A run of characters of a class that a character outside it follows is the longest run. -/
theorem takeWhile_eq_of_stop {c : Char} (hrun : ∀ x ∈ run, p x) (hc : p c = false)
    (hpre : run ++ [c] <+: cs) : cs.takeWhile p = run := by
  obtain ⟨u, rfl⟩ := hpre
  rw [List.append_assoc, List.takeWhile_append_of_pos hrun, List.singleton_append,
    List.takeWhile_cons_of_neg (by simp [hc]), List.append_nil]

/-- A text is its longest run of a class and what follows it. -/
theorem takeWhile_append_drop (p : Char → Bool) (cs : List Char) :
    cs = cs.takeWhile p ++ cs.drop (cs.takeWhile p).length := by
  rw [drop_length_takeWhile, List.takeWhile_append_dropWhile]

end Runs

/-! ## One token -/

/-- A classifier result reads the text `cs` when each token it gives is spelled by the longest
lexeme at the start of `cs`, has that lexeme's kind, and passes exactly that lexeme. -/
def Found.Reads (cs : List Char) (f : Found) : Prop :=
  ∀ k text n, f = .token k text n →
    k.lexemeOf text = cs.take (n + 1) ∧ LongestLexeme k (k.lexemeOf text) cs

namespace Found

variable {cs : List Char} {ch : Char} {r : List Char}

theorem reads_ite {c : Prop} [Decidable c] {a b : Found} (ha : c → a.Reads cs) (hb : b.Reads cs) :
    (if c then a else b).Reads cs := by
  split
  · exact ha ‹_›
  · exact hb

theorem reads_fault {p : Problem} {n : Nat} : (Found.fault p n).Reads cs := by
  rintro k text n' h
  cases h

/-- A token reads a text that begins with its lexeme, when no longer lexeme starts the text. -/
theorem reads_token {k : Kind} {text : String} {n : Nat} (u : List Char)
    (hsplit : cs = k.lexemeOf text ++ u) (hlen : (k.lexemeOf text).length = n + 1)
    (hlex : Lexeme k (k.lexemeOf text))
    (hlong : ∀ k' w', Lexeme k' w' → w' <+: cs → w'.length ≤ n + 1) :
    (Found.token k text n).Reads cs := by
  rintro k' text' n' h
  cases h
  refine ⟨?_, hlex, ⟨u, hsplit.symm⟩, hlen ▸ hlong⟩
  rw [hsplit, List.take_left' hlen]

/-- A character that is a lexeme alone and starts no longer one. -/
theorem reads_single {k : Kind} {text : String} (hch : ch ∈ ['+', '-', '*', '/', '\n'])
    (hk : k ≠ .string) (htext : text.toList = [ch]) (hlex : Lexeme k [ch]) :
    (Found.token k text 0).Reads (ch :: r) := by
  have hw : k.lexemeOf text = [ch] := by simp [Kind.lexemeOf, hk, htext]
  have hclass : ch ≠ '"' ∧ ch.isDigit = false ∧ ch.isAlpha = false ∧ ch ∉ ['=', '>', '<', '!'] := by
    simp only [List.mem_cons, List.not_mem_nil, or_false] at hch
    rcases hch with rfl | rfl | rfl | rfl | rfl <;> decide
  obtain ⟨hq, hd, ha, hpair⟩ := hclass
  refine reads_token r (by rw [hw]; rfl) (by rw [hw]; rfl) (hw ▸ hlex) ?_
  rintro k' (_ | ⟨c, w'⟩) hl hpre
  · simp
  · obtain ⟨rfl, -⟩ := List.cons_prefix_cons.1 hpre
    rcases hl.tail_of_operator hq hd ha with rfl | ⟨-, hm⟩
    · simp
    · exact absurd hm hpair

/-- An operator followed by `=` that forms a two-character lexeme with it. -/
theorem reads_double {k : Kind} {text : String} (hch : ch ∈ ['=', '>', '<', '!'])
    (hk : k ≠ .string) (htext : text.toList = [ch, '=']) (hlex : Lexeme k [ch, '=']) :
    (Found.token k text 1).Reads (ch :: '=' :: r) := by
  have hw : k.lexemeOf text = [ch, '='] := by simp [Kind.lexemeOf, hk, htext]
  have hclass : ch ≠ '"' ∧ ch.isDigit = false ∧ ch.isAlpha = false := by
    simp only [List.mem_cons, List.not_mem_nil, or_false] at hch
    rcases hch with rfl | rfl | rfl | rfl <;> decide
  obtain ⟨hq, hd, ha⟩ := hclass
  refine reads_token r (by rw [hw]; rfl) (by rw [hw]; rfl) (hw ▸ hlex) ?_
  rintro k' (_ | ⟨c, w'⟩) hl hpre
  · simp
  · obtain ⟨rfl, -⟩ := List.cons_prefix_cons.1 hpre
    rcases hl.tail_of_operator hq hd ha with rfl | ⟨rfl, -⟩ <;> simp

/-- An operator that may take `=`: with the `=` when one follows, else alone. -/
theorem reads_pair {single double : Kind} (hch : ch ∈ ['=', '>', '<'])
    (hs : single ≠ .string) (hd : double ≠ .string) (hl₁ : Lexeme single [ch])
    (hl₂ : Lexeme double [ch, '=']) : (Found.pair ch single double r).Reads (ch :: r) := by
  have hclass : ch ≠ '"' ∧ ch.isDigit = false ∧ ch.isAlpha = false ∧ ch ∈ ['=', '>', '<', '!'] := by
    simp only [List.mem_cons, List.not_mem_nil, or_false] at hch
    rcases hch with rfl | rfl | rfl <;> decide
  obtain ⟨hq, hdig, ha, hm⟩ := hclass
  unfold Found.pair
  split
  · exact reads_double hm hd (by simp) hl₂
  · rename_i hne
    have hw : single.lexemeOf (String.singleton ch) = [ch] := by simp [Kind.lexemeOf, hs]
    refine reads_token r (by rw [hw]; rfl) (by rw [hw]; rfl) (hw ▸ hl₁) ?_
    rintro k' (_ | ⟨c, w'⟩) hl hpre
    · simp
    · obtain ⟨rfl, htail⟩ := List.cons_prefix_cons.1 hpre
      rcases hl.tail_of_operator hq hdig ha with rfl | ⟨rfl, -⟩
      · simp
      · -- an `=` after the operator would have been taken with it
        obtain ⟨u, rfl⟩ := htail
        exact (hne u rfl).elim

/-- A string runs to the next quote when every character before it may stand in a string. -/
theorem reads_string (r : List Char) : (Found.string r).Reads ('"' :: r) := by
  unfold Found.string
  dsimp only
  split
  · rename_i rest hdrop
    have hgood : ∀ c ∈ r.takeWhile (fun ch => ch != '"' && !isStringBreak ch),
        c ≠ '"' ∧ isStringBreak c = false := by
      intro c hc
      simpa using List.mem_takeWhile_imp hc
    have hr := takeWhile_append_drop (fun ch => ch != '"' && !isStringBreak ch) r
    rw [hdrop] at hr
    have hw : Kind.string.lexemeOf (String.ofList (r.takeWhile fun ch => ch != '"' && !isStringBreak ch)) =
        '"' :: r.takeWhile (fun ch => ch != '"' && !isStringBreak ch) ++ ['"'] := by
      simp [Kind.lexemeOf]
    refine reads_token rest ?_ ?_ (hw ▸ .string hgood) ?_
    · rw [hw]
      nth_rewrite 1 [hr]
      simp
    · rw [hw]
      simp
    · rintro k' (_ | ⟨c, w'⟩) hl hpre
      · simp
      · obtain ⟨rfl, htail⟩ := List.cons_prefix_cons.1 hpre
        obtain ⟨-, body, rfl, hbody⟩ := hl.of_quote
        -- the body of a string lexeme here is the longest run of characters a string may hold
        have hrun : r.takeWhile (fun ch => ch != '"' && !isStringBreak ch) = body :=
          takeWhile_eq_of_stop (fun x hx => by simp [hbody x hx]) (by simp) htail
        rw [hrun]
        simp
  · exact reads_fault
  · exact reads_fault

/-- A number lexeme with a point, at the start of a text, has the text's run of digits as its
whole part, and its fraction starts after the point that follows the run. -/
theorem point_after_run {ds fs : List Char} (hds : ∀ c ∈ ds, c.isDigit)
    (hpre : ds ++ '.' :: fs <+: r) :
    r.takeWhile Char.isDigit = ds ∧ ∃ after, r = ds ++ '.' :: after ∧ fs <+: after := by
  obtain ⟨u, rfl⟩ := hpre
  refine ⟨takeWhile_eq_of_stop (c := '.') hds (by decide) ⟨fs ++ u, by simp⟩, fs ++ u, by simp,
    List.prefix_append _ _⟩

/-- A number is the longest run of digits, with a point and the run of digits after it when
one follows. -/
theorem reads_number (r : List Char) (hd : ch.isDigit) : (Found.number ch r).Reads (ch :: r) := by
  have hwhole : ∀ c ∈ r.takeWhile Char.isDigit, c.isDigit := fun c hc => List.mem_takeWhile_imp hc
  have hr := takeWhile_append_drop Char.isDigit r
  unfold Found.number
  dsimp only
  split
  · rename_i after hdrop
    rw [hdrop] at hr
    have hfrac : ∀ c ∈ after.takeWhile Char.isDigit, c.isDigit := fun c hc => List.mem_takeWhile_imp hc
    have hafter := takeWhile_append_drop Char.isDigit after
    split
    · exact reads_fault
    · -- digits, a point and digits
      rename_i hne
      have hne' : after.takeWhile Char.isDigit ≠ [] := by simpa using hne
      have hw : Kind.number.lexemeOf (String.ofList (ch :: r.takeWhile Char.isDigit ++
          '.' :: after.takeWhile Char.isDigit)) =
          (ch :: r.takeWhile Char.isDigit) ++ '.' :: after.takeWhile Char.isDigit := by
        simp [Kind.lexemeOf]
      refine reads_token (after.drop (after.takeWhile Char.isDigit).length) ?_ ?_ ?_ ?_
      · rw [hw]
        nth_rewrite 1 [hr, hafter]
        simp
      · rw [hw]
        simp
        omega
      · rw [hw]
        exact .fraction (List.cons_ne_nil _ _) (by simpa [hd] using hwhole) hne' hfrac
      · rintro k' (_ | ⟨c, w'⟩) hl hpre
        · simp
        · obtain ⟨rfl, htail⟩ := List.cons_prefix_cons.1 hpre
          rcases (hl.of_digit hd).2 with hall | ⟨ds, fs, rfl, hds, -, hfs⟩
          · have := length_le_takeWhile hall htail
            simp
            omega
          · -- a point in the lexeme is the point after the run, and its fraction a run of digits
            obtain ⟨hrun, after', hr', hfs'⟩ := point_after_run hds htail
            rw [hrun] at hr
            have : after' = after := by
              rw [hr] at hr'
              simpa using hr'.symm
            subst this
            have := length_le_takeWhile hfs hfs'
            simp [hrun]
            omega
  · -- digits alone, when no point follows them
    rename_i hnot
    have hw : Kind.number.lexemeOf (String.ofList (ch :: r.takeWhile Char.isDigit)) =
        ch :: r.takeWhile Char.isDigit := by
      simp [Kind.lexemeOf]
    refine reads_token (r.drop (r.takeWhile Char.isDigit).length) ?_ ?_ ?_ ?_
    · rw [hw, List.cons_append, ← hr]
    · rw [hw]
      rfl
    · rw [hw]
      exact .whole (List.cons_ne_nil _ _) (by simpa [hd] using hwhole)
    · rintro k' (_ | ⟨c, w'⟩) hl hpre
      · simp
      · obtain ⟨rfl, htail⟩ := List.cons_prefix_cons.1 hpre
        rcases (hl.of_digit hd).2 with hall | ⟨ds, fs, rfl, hds, -, -⟩
        · have := length_le_takeWhile hall htail
          simp
          omega
        · obtain ⟨hrun, after', hr', -⟩ := point_after_run hds htail
          have hdrop : r.drop (r.takeWhile Char.isDigit).length = '.' :: after' := by
            rw [hrun, hr', List.drop_left]
          exact (hnot after' hdrop).elim

/-- A word is the longest run of letters. -/
theorem reads_word (r : List Char) (ha : ch.isAlpha) : (Found.word ch r).Reads (ch :: r) := by
  have hrun : ∀ c ∈ ch :: r.takeWhile Char.isAlpha, c.isAlpha := by
    intro c hc
    rcases List.mem_cons.1 hc with rfl | hc
    · exact ha
    · exact List.mem_takeWhile_imp hc
  have hw : (Kind.ofWord (String.ofList (ch :: r.takeWhile Char.isAlpha))).lexemeOf
      (String.ofList (ch :: r.takeWhile Char.isAlpha)) = ch :: r.takeWhile Char.isAlpha := by
    simp [Kind.lexemeOf, Kind.ofWord_ne_string]
  unfold Found.word
  dsimp only
  refine reads_token (r.drop (r.takeWhile Char.isAlpha).length) ?_ ?_ ?_ ?_
  · rw [hw, List.cons_append, ← takeWhile_append_drop]
  · rw [hw]
    rfl
  · rw [hw]
    exact Lexeme.word (List.cons_ne_nil _ _) hrun
  · rintro k' (_ | ⟨c, w'⟩) hl hpre
    · simp
    · obtain ⟨rfl, htail⟩ := List.cons_prefix_cons.1 hpre
      have := length_le_takeWhile (hl.of_letter ha) htail
      simp
      omega

/-- At every character, the classifier's token is read from the longest lexeme there. -/
theorem reads_at (ch : Char) (r : List Char) : (Found.at ch r).Reads (ch :: r) := by
  unfold Found.at
  refine reads_ite (fun h => h ▸ reads_single (by simp) (by decide) (by simp) .plus) ?_
  refine reads_ite (fun h => h ▸ reads_single (by simp) (by decide) (by simp) .minus) ?_
  refine reads_ite (fun h => h ▸ reads_single (by simp) (by decide) (by simp) .asterisk) ?_
  refine reads_ite (fun h => h ▸ reads_single (by simp) (by decide) (by simp) .slash) ?_
  refine reads_ite (fun h => h ▸ reads_pair (by simp) (by decide) (by decide) .eq .eqEq) ?_
  refine reads_ite (fun h => h ▸ reads_pair (by simp) (by decide) (by decide) .gt .gtEq) ?_
  refine reads_ite (fun h => h ▸ reads_pair (by simp) (by decide) (by decide) .lt .ltEq) ?_
  refine reads_ite (fun h => ?_) ?_
  · -- `!` reads only with an `=` after it
    subst h
    split
    · exact reads_double (by simp) (by decide) (by simp) .notEq
    · exact reads_fault
  refine reads_ite (fun h => h ▸ reads_string r) ?_
  refine reads_ite (fun h => h ▸ reads_single (by simp) (by decide) (by simp) .newline) ?_
  refine reads_ite (fun h => reads_number r h) ?_
  refine reads_ite (fun h => reads_word r h) ?_
  exact reads_fault

end Found

/-! ## Faults -/

/-- The fault the rules find at the start of a text where no token can be read, and how many
characters into the text it is found. -/
inductive Fault : List Char → Problem → Nat → Prop
  /-- A character that starts no lexeme. -/
  | unknownCharacter {ch : Char} {r : List Char} : (∀ k w, ¬ Lexeme k (ch :: w)) →
      Fault (ch :: r) (.unknownCharacter ch) 0
  /-- `!` with no `=` after it. -/
  | loneBang {r : List Char} : r.head? ≠ some '=' → Fault ('!' :: r) (.loneBang r.head?) 0
  /-- A string that meets a character it may not hold before its closing quote. -/
  | stringCharacter {body r : List Char} {ch : Char} :
      (∀ c ∈ body, c ≠ '"' ∧ isStringBreak c = false) → isStringBreak ch = true →
      Fault ('"' :: (body ++ ch :: r)) (.stringCharacter (String.singleton ch)) (body.length + 1)
  /-- A string that meets the end of the text before its closing quote. -/
  | stringEnd {body : List Char} : (∀ c ∈ body, c ≠ '"' ∧ isStringBreak c = false) →
      Fault ('"' :: body) (.stringCharacter "\x00") (body.length + 1)
  /-- Digits and a point with no digit after it. -/
  | bareFraction {ds r : List Char} : ds ≠ [] → (∀ d ∈ ds, d.isDigit) →
      (∀ c ∈ r.head?, c.isDigit = false) →
      Fault (ds ++ '.' :: r) (.bareFraction (String.ofList (ds ++ ['.']))) ds.length

/-- The rules find only lexical faults. -/
theorem Fault.family {q : List Char} {p : Problem} {n : Nat} (h : Fault q p n) :
    p.family = .lexical := by
  cases h <;> rfl

/-- A classifier result faults by the rules when each fault it gives is the one the rules find
at the start of `cs`. -/
def Found.Faults (cs : List Char) (f : Found) : Prop :=
  ∀ p n, f = .fault p n → Fault cs p n

namespace Found

variable {cs : List Char} {ch : Char} {r : List Char}

theorem faults_ite {c : Prop} [Decidable c] {a b : Found} (ha : c → a.Faults cs)
    (hb : ¬c → b.Faults cs) : (if c then a else b).Faults cs := by
  split
  · exact ha ‹_›
  · exact hb ‹_›

theorem faults_token {k : Kind} {text : String} {n : Nat} : (Found.token k text n).Faults cs := by
  rintro p n' h
  cases h

theorem faults_pair {single double : Kind} : (Found.pair ch single double r).Faults cs := by
  unfold Found.pair
  split <;> exact faults_token

/-- A string faults at the first character it may not hold, or at the end of the text. -/
theorem faults_string (r : List Char) : (Found.string r).Faults ('"' :: r) := by
  have hgood : ∀ c ∈ r.takeWhile (fun ch => ch != '"' && !isStringBreak ch),
      c ≠ '"' ∧ isStringBreak c = false := by
    intro c hc
    simpa using List.mem_takeWhile_imp hc
  have hr := takeWhile_append_drop (fun ch => ch != '"' && !isStringBreak ch) r
  unfold Found.string
  dsimp only
  split
  · exact faults_token
  · rename_i ch rest hq hdrop
    rintro p n h
    cases h
    -- the character that stops the run is no quote, so a string may not hold it
    have hstop := List.head_dropWhile_not (fun ch => ch != '"' && !isStringBreak ch) (l := r)
      (by rw [← drop_length_takeWhile, hdrop]; simp)
    simp only [← drop_length_takeWhile, hdrop, List.head_cons] at hstop
    have hbreak : isStringBreak ch = true := by
      have hcases : ch ≠ '"' → isStringBreak ch = true := by simpa using hstop
      exact hcases hq
    rw [hdrop] at hr
    nth_rewrite 1 [hr]
    exact .stringCharacter hgood hbreak
  · rename_i hdrop
    rintro p n h
    cases h
    rw [hdrop, List.append_nil] at hr
    nth_rewrite 1 [hr]
    exact .stringEnd hgood

/-- A number faults at a point that no digit follows. -/
theorem faults_number (r : List Char) (hd : ch.isDigit) : (Found.number ch r).Faults (ch :: r) := by
  have hwhole : ∀ c ∈ r.takeWhile Char.isDigit, c.isDigit := fun c hc => List.mem_takeWhile_imp hc
  have hr := takeWhile_append_drop Char.isDigit r
  unfold Found.number
  dsimp only
  split
  · rename_i after hdrop
    split
    · rename_i hempty
      rintro p n h
      cases h
      -- nothing after the point is a digit
      have hhead : ∀ c ∈ after.head?, c.isDigit = false := by
        intro c hc
        cases after with
        | nil => cases hc
        | cons a t =>
          simp only [List.head?_cons, Option.mem_def, Option.some.injEq] at hc
          subst hc
          by_contra ha
          simp [List.takeWhile_cons, ha] at hempty
      rw [hdrop] at hr
      have hsplit : ch :: r = (ch :: r.takeWhile Char.isDigit) ++ '.' :: after := by
        nth_rewrite 1 [hr]
        simp
      rw [hsplit]
      exact .bareFraction (List.cons_ne_nil _ _) (by simpa [hd] using hwhole) hhead
    · exact faults_token
  · exact faults_token

/-- Every fault the classifier gives is the one the rules find at the character. -/
theorem faults_at (ch : Char) (r : List Char) : (Found.at ch r).Faults (ch :: r) := by
  unfold Found.at
  refine faults_ite (fun _ => faults_token) fun h₁ => ?_
  refine faults_ite (fun _ => faults_token) fun h₂ => ?_
  refine faults_ite (fun _ => faults_token) fun h₃ => ?_
  refine faults_ite (fun _ => faults_token) fun h₄ => ?_
  refine faults_ite (fun _ => faults_pair) fun h₅ => ?_
  refine faults_ite (fun _ => faults_pair) fun h₆ => ?_
  refine faults_ite (fun _ => faults_pair) fun h₇ => ?_
  refine faults_ite (fun h => ?_) fun h₈ => ?_
  · -- `!` faults unless an `=` follows it
    subst h
    split
    · exact faults_token
    · rename_i hne
      rintro p n he
      cases he
      refine .loneBang fun hh => ?_
      obtain ⟨t, rfl⟩ : ∃ t, r = '=' :: t := by
        cases r with
        | nil => cases hh
        | cons a t =>
          simp only [List.head?_cons, Option.some.injEq] at hh
          exact ⟨t, by rw [hh]⟩
      exact hne t rfl
  refine faults_ite (fun h => h ▸ faults_string r) fun h₉ => ?_
  refine faults_ite (fun _ => faults_token) fun h₁₀ => ?_
  refine faults_ite (fun h => faults_number r h) fun h₁₁ => ?_
  refine faults_ite (fun _ => faults_token) fun h₁₂ => ?_
  -- any other character starts no lexeme
  rintro p n he
  cases he
  refine .unknownCharacter fun k w hl => ?_
  rcases hl.head_mem with hm | hd | ha
  · simp only [List.mem_cons, List.not_mem_nil, or_false] at hm
    rcases hm with h | h | h | h | h | h | h | h | h | h <;> contradiction
  · exact h₁₁ hd
  · exact h₁₂ ha

end Found

/-! ## Whole scans -/

/-- `Lexed pre cs ts pre' cs'`: after the characters `pre`, the text `cs` is a gap followed by
the longest lexeme where the gap ends, which spells the first token of `ts` and gives it the
line and column where the lexeme starts; and so on for every token of `ts`, which leaves the
text `cs'` after the characters `pre'`. -/
inductive Lexed : List Char → List Char → List Token → List Char → List Char → Prop
  | nil {pre cs : List Char} : Lexed pre cs [] pre cs
  | cons {pre g cs pre' cs' : List Char} {t : Token} {ts : List Token} :
      IsGap g → LongestLexeme t.kind t.lexeme (t.lexeme ++ cs) →
      t.line = lineAfter (pre ++ g) → t.column = columnAfter (pre ++ g) →
      Lexed (pre ++ g ++ t.lexeme) cs ts pre' cs' →
      Lexed pre (g ++ t.lexeme ++ cs) (t :: ts) pre' cs'

/-- Reading moves characters from the text to the prefix and loses none. -/
theorem Lexed.append_eq {pre cs pre' cs' : List Char} {ts : List Token}
    (h : Lexed pre cs ts pre' cs') : pre ++ cs = pre' ++ cs' := by
  induction h with
  | nil => rfl
  | cons _ _ _ _ _ ih => simpa using ih

namespace TokenStream

variable {s s' : TokenStream} {t : Token} {d : Diagnostic} {pre : List Char}

theorem lineText_of_text (h : s'.text = s.text) : s'.lineText = s.lineText := by
  funext n
  simp only [lineText, h]

/-- The cursor after the gap the stream skips stands after the gap. -/
theorem skipGap_after (hc : s.cursor.After pre) :
    ∃ g, IsGap g ∧ s.cursor.rest = g ++ s.cursor.skipGap.rest ∧
      s.cursor.skipGap.After (pre ++ g) := by
  obtain ⟨g, hg, hrest, hskip⟩ := s.cursor.skipGap_split
  refine ⟨g, hg, hrest, ?_⟩
  have := hc.skip g.length
  rwa [← hskip, hrest, List.take_left' rfl] at this

/-- A token other than the end is the longest lexeme after the gap, placed where it starts;
the stream then stands after the lexeme, on the same source. -/
theorem next_lexeme (hc : s.cursor.After pre) (h : s.next = (.ok t, s')) (hk : t.kind ≠ .eof) :
    ∃ g, IsGap g ∧ s.cursor.rest = g ++ t.lexeme ++ s'.cursor.rest ∧
      LongestLexeme t.kind t.lexeme (t.lexeme ++ s'.cursor.rest) ∧
      t.line = lineAfter (pre ++ g) ∧ t.column = columnAfter (pre ++ g) ∧
      s'.cursor.After (pre ++ g ++ t.lexeme) ∧ s'.file = s.file ∧ s'.text = s.text := by
  obtain ⟨g, hg, hrest, hgap⟩ := skipGap_after hc
  unfold next scanAt at h
  split at h
  · -- at the end of the text the stream gives the end token
    simp only [Prod.mk.injEq, Except.ok.injEq] at h
    obtain ⟨rfl, -⟩ := h
    exact absurd rfl hk
  · rename_i ch r hr
    split at h
    · rename_i k text n hf
      simp only [Prod.mk.injEq, Except.ok.injEq] at h
      obtain ⟨rfl, rfl⟩ := h
      obtain ⟨htake, hlong⟩ := Found.reads_at ch r k text n hf
      -- the stream passes exactly the lexeme
      have hnext : (s.cursor.skipGap.skip (n + 1)).rest = (ch :: r).drop (n + 1) := by
        rw [Cursor.skip_rest, hr]
      have hsplit : ch :: r = k.lexemeOf text ++ (ch :: r).drop (n + 1) := by
        rw [htake, List.take_append_drop]
      have hafter := hgap.skip (n + 1)
      rw [hr, ← htake] at hafter
      refine ⟨g, hg, ?_, ?_, hgap.1, hgap.2, hafter, rfl, rfl⟩
      · show s.cursor.rest = g ++ k.lexemeOf text ++ _
        rw [hrest, hr, hnext, List.append_assoc, ← hsplit]
      · show LongestLexeme k (k.lexemeOf text) (k.lexemeOf text ++ _)
        rw [hnext, ← hsplit]
        exact hlong
    · simp at h

/-- The end token stands after the last gap, where the text ends. -/
theorem next_end (hc : s.cursor.After pre) (h : s.next = (.ok t, s')) (hk : t.kind = .eof) :
    ∃ g, IsGap g ∧ s.cursor.rest = g ∧
      t = ⟨.eof, "", lineAfter (pre ++ g), columnAfter (pre ++ g)⟩ := by
  obtain ⟨g, hg, hrest, hgap⟩ := skipGap_after hc
  unfold next scanAt at h
  split at h
  · rename_i hr
    simp only [Prod.mk.injEq, Except.ok.injEq] at h
    obtain ⟨rfl, -⟩ := h
    refine ⟨g, hg, by rw [hrest, hr, List.append_nil], ?_⟩
    rw [← hgap.1, ← hgap.2]
  · rename_i ch r hr
    split at h
    · -- a character never gives the end token
      rename_i k text n hf
      simp only [Prod.mk.injEq, Except.ok.injEq] at h
      obtain ⟨rfl, -⟩ := h
      exact absurd hk (Found.notEnd_at ch r k text n hf)
    · simp at h

/-- A fault is the one the rules find after the gap, located where they find it, with the text
of its line. -/
theorem next_fault (htext : s.text.toList = pre ++ s.cursor.rest) (hc : s.cursor.After pre)
    (h : s.next = (.error d, s')) :
    ∃ g q p n, IsGap g ∧ s.cursor.rest = g ++ q ∧ Fault q p n ∧
      d = { problem := p
            location := some ⟨s.file, lineAfter (pre ++ g ++ q.take n),
              columnAfter (pre ++ g ++ q.take n)⟩
            sourceLine := s.lineText (lineAfter (pre ++ g ++ q.take n)) } := by
  obtain ⟨g, hg, hrest, hgap⟩ := skipGap_after hc
  unfold next scanAt at h
  split at h
  · simp at h
  · rename_i ch r hr
    split at h
    · simp at h
    · rename_i p n hf
      simp only [Prod.mk.injEq, Except.error.injEq] at h
      obtain ⟨rfl, -⟩ := h
      have hat := hgap.skip n
      rw [hr] at hat hrest
      -- the fault's line is read where the stream stops, which the text places after `pre`
      have hsplit : s.text.toList = pre ++ g ++ (ch :: r).take n ++ (s.cursor.skipGap.skip n).rest := by
        rw [htext, hrest, Cursor.skip_rest, hr]
        simp
      have hline := lineText_eq_currentLine hsplit hat
      refine ⟨g, ch :: r, p, n, hg, hrest, Found.faults_at ch r p n hf, ?_⟩
      rw [diagnose, hat.1, hat.2, ← hline, hat.1]

/-- A scan that reaches the end reads the text as gaps and longest lexemes, and ends with the
end token after the last gap. -/
theorem tokens_end_lexed (hc : s.cursor.After pre) {ts : List Token}
    (h : s.tokens = (ts, none)) :
    ∃ body pre' g, Lexed pre s.cursor.rest body pre' g ∧ IsGap g ∧
      ts = body ++ [⟨.eof, "", lineAfter (pre' ++ g), columnAfter (pre' ++ g)⟩] := by
  induction s using TokenStream.tokens.induct generalizing pre ts with
  | case1 s d s' hd =>
    rw [tokens_of_next_error hd] at h
    cases h
  | case2 s t s' ht hk =>
    rw [tokens_of_next_eof ht hk] at h
    cases h
    obtain ⟨g, hg, hrest, rfl⟩ := next_end hc ht hk
    refine ⟨[], pre, g, ?_, hg, rfl⟩
    rw [hrest]
    exact .nil
  | case3 s t s' ht hk _ ts' e' hts ih =>
    rw [tokens_of_next_token ht hk, hts] at h
    simp only [Prod.mk.injEq] at h
    obtain ⟨rfl, rfl⟩ := h
    -- one token, then the rest of the scan from the stream after it
    obtain ⟨g, hg, hrest, hlong, hline, hcol, hc', -, -⟩ := next_lexeme hc ht hk
    obtain ⟨body, pre', g', hlexed, hg', rfl⟩ := ih hc' hts
    refine ⟨t :: body, pre', g', ?_, hg', rfl⟩
    rw [hrest]
    exact .cons hg hlong hline hcol hlexed

/-- A scan that stops at a fault reads a prefix of the text as gaps and longest lexemes, and its
fault is the one the rules find after the next gap. -/
theorem tokens_fault_lexed (htext : s.text.toList = pre ++ s.cursor.rest) (hc : s.cursor.After pre)
    {ts : List Token} (h : s.tokens = (ts, some d)) :
    ∃ pre' g q p n, Lexed pre s.cursor.rest ts pre' (g ++ q) ∧ IsGap g ∧ Fault q p n ∧
      d = { problem := p
            location := some ⟨s.file, lineAfter (pre' ++ g ++ q.take n),
              columnAfter (pre' ++ g ++ q.take n)⟩
            sourceLine := s.lineText (lineAfter (pre' ++ g ++ q.take n)) } := by
  induction s using TokenStream.tokens.induct generalizing pre ts with
  | case1 s d' s' hd =>
    rw [tokens_of_next_error hd] at h
    simp only [Prod.mk.injEq, Option.some.injEq] at h
    obtain ⟨rfl, rfl⟩ := h
    obtain ⟨g, q, p, n, hg, hrest, hq, rfl⟩ := next_fault htext hc hd
    refine ⟨pre, g, q, p, n, ?_, hg, hq, rfl⟩
    rw [hrest]
    exact .nil
  | case2 s t s' ht hk =>
    rw [tokens_of_next_eof ht hk] at h
    cases h
  | case3 s t s' ht hk _ ts' e' hts ih =>
    rw [tokens_of_next_token ht hk, hts] at h
    simp only [Prod.mk.injEq] at h
    obtain ⟨rfl, rfl⟩ := h
    obtain ⟨g, hg, hrest, hlong, hline, hcol, hc', hfile, htext'⟩ := next_lexeme hc ht hk
    have htext₁ : s'.text.toList = pre ++ g ++ t.lexeme ++ s'.cursor.rest := by
      rw [htext', htext, hrest]
      simp
    obtain ⟨pre', g', q, p, n, hlexed, hg', hq, rfl⟩ := ih htext₁ hc' hts
    -- the stream after the token reads the same source under the same name
    refine ⟨pre', g', q, p, n, ?_, hg', hq, by rw [hfile, lineText_of_text htext']⟩
    rw [hrest]
    exact .cons hg hlong hline hcol hlexed

/-- A scan stops only at a lexical fault. -/
theorem start_fault_family {file source : String} {ts : List Token}
    (h : (TokenStream.start file source).tokens = (ts, some d)) : d.problem.family = .lexical := by
  have hstart : (TokenStream.start file source).cursor.After [] := Cursor.after_nil _
  obtain ⟨_, _, _, _, _, -, -, hq, rfl⟩ := tokens_fault_lexed rfl hstart h
  exact hq.family

/-- The scanner cuts the source, with its closing line feed, into gaps and longest lexemes. A
scan that reaches the end gives one token for each lexeme, spelled by it and placed at the line
and column where it starts, and then the end token, on the line after the last line feed and
in column 1. A scan that stops at a fault has read such tokens from a prefix of the text, and
its fault is the one the rules find after the next gap, located at the character where they find
it, with the text of that character's line. -/
theorem lexes_text (file s : String) :
    let text := (s ++ "\n").toList
    (∀ ts, (TokenStream.start file s).tokens = (ts, none) →
      ∃ body pre g, Lexed [] text body pre g ∧ IsGap g ∧
        ts = body ++ [⟨.eof, "", text.count '\n' + 1, 1⟩]) ∧
    (∀ ts d, (TokenStream.start file s).tokens = (ts, some d) →
      ∃ pre g q p n, Lexed [] text ts pre (g ++ q) ∧ IsGap g ∧ Fault q p n ∧
        d = { problem := p
              location := some ⟨file, lineAfter (pre ++ g ++ q.take n),
                columnAfter (pre ++ g ++ q.take n)⟩
              sourceLine := (TokenStream.start file s).lineText
                (lineAfter (pre ++ g ++ q.take n)) }) := by
  intro text
  have hstart : (TokenStream.start file s).cursor.After [] := Cursor.after_nil _
  refine ⟨fun ts h => ?_, fun ts d h => tokens_fault_lexed rfl hstart h⟩
  obtain ⟨body, pre, g, hlexed, hg, rfl⟩ := tokens_end_lexed hstart h
  refine ⟨body, pre, g, hlexed, hg, ?_⟩
  -- the end token stands after the whole text, whose last character is the closing line feed
  have htext : pre ++ g = s.toList ++ ['\n'] := by
    rw [← hlexed.append_eq]
    simp [TokenStream.start]
  rw [htext, columnAfter_append_newline]
  simp [lineAfter, text]

/-- Two sources: one read to the end, with a string and a comment, and one that stops at a point
with no digit after it. -/
theorem lexes_text_string_and_bare_point :
    (TokenStream.start "p.bas" "PRINT \"hi\" # greet").tokens =
      ([⟨.printKw, "PRINT", 1, 1⟩, ⟨.string, "hi", 1, 7⟩, ⟨.newline, "\n", 1, 19⟩,
        ⟨.eof, "", 2, 1⟩], none) ∧
    (∃ body pre g, Lexed [] ("PRINT \"hi\" # greet" ++ "\n").toList body pre g ∧ IsGap g ∧
      [⟨.printKw, "PRINT", 1, 1⟩, ⟨.string, "hi", 1, 7⟩, ⟨.newline, "\n", 1, 19⟩,
        ⟨.eof, "", 2, 1⟩] =
        body ++ [⟨.eof, "", ("PRINT \"hi\" # greet" ++ "\n").toList.count '\n' + 1, 1⟩]) ∧
    ∃ d, (TokenStream.start "p.bas" "LET a = 1.").tokens =
        ([⟨.letKw, "LET", 1, 1⟩, ⟨.identifier, "a", 1, 5⟩, ⟨.eq, "=", 1, 7⟩], some d) ∧
      ∃ pre g q p n, Lexed [] ("LET a = 1." ++ "\n").toList
          [⟨.letKw, "LET", 1, 1⟩, ⟨.identifier, "a", 1, 5⟩, ⟨.eq, "=", 1, 7⟩] pre (g ++ q) ∧
        IsGap g ∧ Fault q p n ∧
        d = { problem := p
              location := some ⟨"p.bas", lineAfter (pre ++ g ++ q.take n),
                columnAfter (pre ++ g ++ q.take n)⟩
              sourceLine := (TokenStream.start "p.bas" "LET a = 1.").lineText
                (lineAfter (pre ++ g ++ q.take n)) } := by
  have hok : (TokenStream.start "p.bas" "PRINT \"hi\" # greet").tokens =
      ([⟨.printKw, "PRINT", 1, 1⟩, ⟨.string, "hi", 1, 7⟩, ⟨.newline, "\n", 1, 19⟩,
        ⟨.eof, "", 2, 1⟩], none) := by
    have h : (TokenStream.start "p.bas" "PRINT \"hi\" # greet").tokens.1 =
        [⟨.printKw, "PRINT", 1, 1⟩, ⟨.string, "hi", 1, 7⟩, ⟨.newline, "\n", 1, 19⟩,
          ⟨.eof, "", 2, 1⟩] ∧
        (TokenStream.start "p.bas" "PRINT \"hi\" # greet").tokens.2.isNone = true := by
      decide +kernel
    exact Prod.ext h.1 (Option.isNone_iff_eq_none.1 h.2)
  obtain ⟨d, hbad⟩ : ∃ d, (TokenStream.start "p.bas" "LET a = 1.").tokens =
      ([⟨.letKw, "LET", 1, 1⟩, ⟨.identifier, "a", 1, 5⟩, ⟨.eq, "=", 1, 7⟩], some d) := by
    have h : (TokenStream.start "p.bas" "LET a = 1.").tokens.1 =
        [⟨.letKw, "LET", 1, 1⟩, ⟨.identifier, "a", 1, 5⟩, ⟨.eq, "=", 1, 7⟩] ∧
        (TokenStream.start "p.bas" "LET a = 1.").tokens.2.isSome = true := by
      decide +kernel
    obtain ⟨d, hd⟩ := Option.isSome_iff_exists.1 h.2
    exact ⟨d, Prod.ext h.1 hd⟩
  exact ⟨hok, (lexes_text "p.bas" _).1 _ hok, d, hbad, (lexes_text "p.bas" _).2 _ _ hbad⟩

end TokenStream

end TinyBasic
