import Mathlib.Data.List.Chain
/-!
# C tokens

What a C compiler makes of the characters of an emitted expression in translation phase 3: a
sequence of preprocessing tokens, each the longest run of characters that could be one
(C17 6.4p4). The three classes that the characters of an expression can start are modelled.

* An identifier is a letter or underscore, then letters, digits and underscores (6.4.2).
* A preprocessing number is a digit, then digits, letters, underscores and points, and a sign
  right after an exponent letter `e E p P` (6.4.8).
* A punctuator is the longest one spelled with `+ - * / = ! < >` that starts the text
  (6.4.6).

A `/` before `*` or `/` opens a comment, and a character that starts none of the three is not
read: the lexer stops there. No emitted expression holds either.

* `readToken` reads one token and `Lexes cs ts` says that the characters `cs` are read as the
  tokens `ts`; `Lexes.unique` says there is one reading.
* `readToken_identifier`, `readToken_number` and `readToken_punctuator` give the token read
  from a text whose first token ends where the next characters cannot continue it.
* `Lexes.of_isChain` reads a list of tokens written one after the other when each ends before
  the next (`Token.EndsBefore`), and `Lexes.of_append` drops a prefix read as its own tokens.
-/

namespace TinyBasic.C

/-- A preprocessing token with its spelling. -/
inductive Token where
  | identifier (spelling : List Char)
  | number (spelling : List Char)
  | punctuator (spelling : List Char)
  deriving DecidableEq, Repr

/-- The characters of a token. -/
def Token.spelling : Token → List Char
  | .identifier s | .number s | .punctuator s => s

@[simp] theorem Token.spelling_identifier (s : List Char) : (Token.identifier s).spelling = s :=
  rfl

@[simp] theorem Token.spelling_number (s : List Char) : (Token.number s).spelling = s :=
  rfl

/-- The characters that continue an identifier. -/
def isIdentChar (c : Char) : Bool :=
  c.isAlphanum || c == '_'

/-- The exponent letters, after which a sign continues a preprocessing number. -/
def isExponent (c : Char) : Bool :=
  c == 'e' || c == 'E' || c == 'p' || c == 'P'

/-- The rest of a preprocessing number after its first digit; the flag says whether the
character before was an exponent letter. -/
def ppNumberTail (afterExponent : Bool) : List Char → List Char
  | [] => []
  | c :: r =>
    if isIdentChar c || c == '.' || (afterExponent && (c == '+' || c == '-')) then
      c :: ppNumberTail (isExponent c) r
    else []

/-- The punctuators of C17 spelled with the characters `+ - * / = ! < >`. -/
def punctuators : List (List Char) :=
  [['+'], ['-'], ['*'], ['/'], ['='], ['!'], ['<'], ['>'],
    ['+', '+'], ['-', '-'], ['-', '>'], ['+', '='], ['-', '='], ['*', '='], ['/', '='],
    ['=', '='], ['!', '='], ['<', '='], ['>', '='], ['<', '<'], ['>', '>'],
    ['<', '<', '='], ['>', '>', '=']]

/-- The longest punctuator that starts the text. -/
def longestPunctuator (cs : List Char) : Option (List Char) :=
  [cs.take 3, cs.take 2, cs.take 1].find? punctuators.contains

/-- The next token and the text after it. -/
def readToken : List Char → Option (Token × List Char)
  | [] => none
  | c :: r =>
    if c.isAlpha || c == '_' then
      some (.identifier (c :: r.takeWhile isIdentChar), r.dropWhile isIdentChar)
    else if c.isDigit then
      some (.number (c :: ppNumberTail false r), r.drop (ppNumberTail false r).length)
    else if c == '/' && (r.head? == some '*' || r.head? == some '/') then none
    else (longestPunctuator (c :: r)).map fun p => (.punctuator p, (c :: r).drop p.length)

/-- The characters `cs` are read as the tokens `ts`, one after the other to the end. -/
inductive Lexes : List Char → List Token → Prop
  | nil : Lexes [] []
  | cons {cs rest : List Char} {t : Token} {ts : List Token} :
      readToken cs = some (t, rest) → Lexes rest ts → Lexes cs (t :: ts)

/-! ## One token -/

theorem ppNumberTail_leading (b : Bool) (r : List Char) : ppNumberTail b r <+: r := by
  induction r generalizing b with
  | nil => exact List.nil_prefix
  | cons c r ih =>
    rw [ppNumberTail]
    split
    · exact (List.prefix_cons_inj c).2 (ih _)
    · exact List.nil_prefix

theorem longestPunctuator_mem {cs p : List Char} (h : longestPunctuator cs = some p) :
    p ∈ punctuators ∧ p <+: cs := by
  refine ⟨by simpa using List.find?_some h, ?_⟩
  have hmem := List.mem_of_find?_eq_some h
  simp only [List.mem_cons, List.not_mem_nil, or_false] at hmem
  rcases hmem with rfl | rfl | rfl <;> exact List.take_prefix _ _

/-- A token is read off the front of the text. -/
theorem readToken_append {cs rest : List Char} {t : Token} (h : readToken cs = some (t, rest)) :
    cs = t.spelling ++ rest := by
  cases cs with
  | nil => simp [readToken] at h
  | cons c r =>
    rw [readToken] at h
    split at h
    · cases h
      simp [Token.spelling]
    split at h
    · cases h
      have htake := List.prefix_iff_eq_take.1 (ppNumberTail_leading false r)
      simp only [Token.spelling, List.cons_append, List.cons.injEq, true_and]
      nth_rewrite 1 [← List.take_append_drop (ppNumberTail false r).length r]
      rw [← htake]
    split at h
    · cases h
    obtain ⟨p, hp, hpt⟩ := Option.map_eq_some_iff.1 h
    cases hpt
    obtain ⟨tail, htail⟩ := (longestPunctuator_mem hp).2
    simp [Token.spelling, ← htail]

/-- Characters of punctuators are not identifier characters. -/
theorem isIdentChar_of_mem_punctuator : ∀ q ∈ punctuators, ∀ x ∈ q, isIdentChar x = false := by
  have h : (punctuators.all fun q => q.all fun x => !isIdentChar x) = true := rfl
  simpa [List.all_eq_true] using h

theorem punctuator_length : ∀ q ∈ punctuators, 1 ≤ q.length ∧ q.length ≤ 3 := by
  decide

theorem isAlpha_eq_false_of_isDigit {d : Char} (hd : d.isDigit = true) : d.isAlpha = false := by
  -- the digits lie below both runs of letters
  delta Char.isDigit at hd
  delta Char.isAlpha Char.isUpper Char.isLower
  simp only [Bool.and_eq_true, decide_eq_true_eq, UInt32.le_iff_toNat_le, ge_iff_le,
    Bool.or_eq_false_iff, Bool.and_eq_false_imp, decide_eq_false_iff_not, Char.reduceVal,
    UInt32.reduceToNat] at hd ⊢
  omega

theorem isExponent_eq_false_of_isDigit {d : Char} (hd : d.isDigit = true) :
    isExponent d = false := by
  simp only [isExponent, Bool.or_eq_false_iff, beq_eq_false_iff_ne]
  refine ⟨⟨⟨?_, ?_⟩, ?_⟩, ?_⟩ <;> (rintro rfl; revert hd; decide)

section Longest

variable {p rest : List Char}

/-- Past the length of the longest punctuator, a punctuator cut from the text is that one. -/
theorem take_eq_of_longest (hlong : ∀ q ∈ punctuators, q <+: p ++ rest → q.length ≤ p.length)
    {m : Nat} (hm : p.length ≤ m) (hq : (p ++ rest).take m ∈ punctuators) :
    (p ++ rest).take m = p := by
  have hle := hlong _ hq (List.take_prefix _ _)
  rw [List.take_append, List.take_of_length_le hm] at hle ⊢
  have : rest.take (m - p.length) = [] := by
    rw [List.length_append] at hle
    exact List.eq_nil_of_length_eq_zero (by omega)
  rw [this, List.append_nil]

theorem longestPunctuator_eq (hp : p ∈ punctuators)
    (hlong : ∀ q ∈ punctuators, q <+: p ++ rest → q.length ≤ p.length) :
    longestPunctuator (p ++ rest) = some p := by
  have htake : ∀ m, p.length ≤ m → (p ++ rest).take m ∈ punctuators → (p ++ rest).take m = p :=
    fun _ hm hq => take_eq_of_longest hlong hm hq
  have hself : (p ++ rest).take p.length = p := by simp
  obtain ⟨h1, h3⟩ := punctuator_length p hp
  -- the candidates longer than the longest punctuator are either not punctuators or it
  simp only [longestPunctuator, List.find?_cons, List.find?_nil]
  by_cases c3 : (p ++ rest).take 3 ∈ punctuators
  · simp [htake 3 (by omega) c3, hp]
  have hp3 : p.length ≠ 3 := fun h => c3 (by rw [← h, hself]; exact hp)
  by_cases c2 : (p ++ rest).take 2 ∈ punctuators
  · simp [c3, htake 2 (by omega) c2, hp]
  have hp2 : p.length ≠ 2 := fun h => c2 (by rw [← h, hself]; exact hp)
  have hp1 : (p ++ rest).take 1 = p := by
    rw [show 1 = p.length by omega, hself]
  simp [c3, c2, hp1, hp]

/-- A punctuator is read when no longer punctuator starts the text, and it does not open a
comment. -/
theorem readToken_punctuator (hp : p ∈ punctuators)
    (hcomment : p = ['/'] → ∀ x ∈ rest.head?, x ≠ '*' ∧ x ≠ '/')
    (hlong : ∀ q ∈ punctuators, q <+: p ++ rest → q.length ≤ p.length) :
    readToken (p ++ rest) = some (.punctuator p, rest) := by
  obtain ⟨c, p', rfl⟩ := List.exists_cons_of_length_pos (punctuator_length _ hp).1
  have hc : isIdentChar c = false := isIdentChar_of_mem_punctuator _ hp c List.mem_cons_self
  have halpha : c.isAlpha = false ∧ c.isDigit = false ∧ c ≠ '_' := by
    simp only [isIdentChar, Char.isAlphanum, Bool.or_eq_false_iff, beq_eq_false_iff_ne] at hc
    exact ⟨hc.1.1, hc.1.2, hc.2⟩
  have hslash : ¬(c = '/' ∧ ((p' ++ rest).head? = some '*' ∨ (p' ++ rest).head? = some '/')) := by
    rintro ⟨rfl, hnext⟩
    cases p' with
    | nil =>
      simp only [List.nil_append] at hnext
      rcases hnext with h | h <;> simpa using hcomment rfl _ h
    | cons d p'' =>
      have : d = '*' ∨ d = '/' := by simpa using hnext
      simp only [punctuators, List.mem_cons, List.not_mem_nil, or_false] at hp
      rcases this with rfl | rfl <;> simp at hp
  rw [List.cons_append, readToken, if_neg (by simp [halpha]), if_neg (by simp [halpha]),
    if_neg (by simpa using hslash), ← List.cons_append, longestPunctuator_eq hp hlong]
  simp

end Longest

/-- An identifier is read up to the first character that cannot continue it. -/
theorem readToken_identifier {c : Char} {body rest : List Char} (hc : c.isAlpha = true)
    (hbody : ∀ x ∈ body, isIdentChar x = true)
    (hstop : ∀ x ∈ rest.head?, isIdentChar x = false) :
    readToken (c :: body ++ rest) = some (.identifier (c :: body), rest) := by
  have htake : (body ++ rest).takeWhile isIdentChar = body := by
    rw [List.takeWhile_append_of_pos hbody]
    cases rest with
    | nil => simp
    | cons x r => simp [hstop x rfl]
  have hdrop : (body ++ rest).dropWhile isIdentChar = rest := by
    rw [List.dropWhile_append_of_pos hbody]
    cases rest with
    | nil => simp
    | cons x r => simp [hstop x rfl]
  rw [List.cons_append, readToken, if_pos (by simp [hc]), htake, hdrop]

/-- A number of digits and points is read up to the first character that cannot continue it. -/
theorem readToken_number {d : Char} {body rest : List Char} (hd : d.isDigit = true)
    (hbody : ∀ x ∈ body, x.isDigit = true ∨ x = '.')
    (hstop : ∀ x ∈ rest.head?, isIdentChar x = false ∧ x ≠ '.') :
    readToken (d :: body ++ rest) = some (.number (d :: body), rest) := by
  -- no digit or point is an exponent letter, so no sign is ever taken in
  have htail : ∀ b, b = false → ppNumberTail b (body ++ rest) = body := by
    induction body with
    | nil =>
      intro b hb
      cases rest with
      | nil => simp [ppNumberTail]
      | cons x r =>
        obtain ⟨hx, hpt⟩ := hstop x rfl
        simp [ppNumberTail, hx, hpt, hb]
    | cons x body ih =>
      intro b _
      have hx := hbody x List.mem_cons_self
      have hcont : (isIdentChar x || x == '.') = true := by
        rcases hx with hx | rfl
        · simp [isIdentChar, Char.isAlphanum, hx]
        · rfl
      have hexp : isExponent x = false := by
        rcases hx with hx | rfl
        · exact isExponent_eq_false_of_isDigit hx
        · rfl
      rw [List.cons_append, ppNumberTail, if_pos (by simp [hcont]),
        ih (fun y hy => hbody y (List.mem_cons_of_mem x hy)) _ hexp]
  have hdigit : d.isAlpha = false ∧ d ≠ '_' :=
    ⟨isAlpha_eq_false_of_isDigit hd, by rintro rfl; revert hd; decide⟩
  rw [List.cons_append, readToken, if_neg (by simp [hdigit]), if_pos hd, htail false rfl]
  simp

/-! ## Whole texts -/

/-- There is one reading of a text. -/
theorem Lexes.unique {cs : List Char} {ts₁ ts₂ : List Token} (h₁ : Lexes cs ts₁)
    (h₂ : Lexes cs ts₂) : ts₁ = ts₂ := by
  induction h₁ generalizing ts₂ with
  | nil => cases h₂ with
    | nil => rfl
    | cons h _ => simp [readToken] at h
  | cons hread _ ih => cases h₂ with
    | nil => simp [readToken] at hread
    | cons hread' hrest' =>
      rw [hread] at hread'
      cases hread'
      rw [ih hrest']

/-- A token ends before another when it is read off the front of their text whatever follows. -/
def Token.EndsBefore (t u : Token) : Prop :=
  ∀ rest, readToken (t.spelling ++ u.spelling ++ rest) = some (t, u.spelling ++ rest)

/-- A punctuator ends before a token when no punctuator starts with it and the token's first
character, and the two do not open a comment. -/
theorem Token.endsBefore_punctuator {p : List Char} {u : Token} {c : Char} {cs : List Char}
    (hp : p ∈ punctuators) (hu : u.spelling = c :: cs)
    (hlonger : ∀ q ∈ punctuators, ¬(p ++ [c]) <+: q)
    (hcomment : p = ['/'] → c ≠ '*' ∧ c ≠ '/') :
    (Token.punctuator p).EndsBefore u := by
  intro rest
  rw [hu]
  simp only [Token.spelling, List.append_assoc, List.cons_append]
  apply readToken_punctuator hp
  · intro hp1 x hx
    cases hx
    exact hcomment hp1
  · intro q hq hpre
    -- a longer punctuator would start with the punctuator and the next character
    by_contra hlen
    have hpc : p ++ [c] <+: p ++ c :: (cs ++ rest) := ⟨cs ++ rest, by simp⟩
    exact hlonger q hq (List.prefix_of_prefix_length_le hpc hpre (by simp; omega))

/-- A punctuator ends before a token that starts with a letter or a digit. -/
theorem Token.endsBefore_of_isIdentChar {p : List Char} {u : Token} {c : Char}
    {cs : List Char} (hp : p ∈ punctuators) (hu : u.spelling = c :: cs)
    (hc : isIdentChar c = true) : (Token.punctuator p).EndsBefore u := by
  have hcq : ∀ q ∈ punctuators, c ∉ q := fun q hq hmem => by
    simp [isIdentChar_of_mem_punctuator q hq c hmem] at hc
  refine Token.endsBefore_punctuator hp hu (fun q hq hpre => hcq q hq (hpre.subset (by simp))) ?_
  intro _
  exact ⟨fun h => hcq ['*'] (by decide) (by simp [h]), fun h => hcq ['/'] (by decide) (by simp [h])⟩

/-- An identifier ends before a token whose first character cannot continue it. -/
theorem Token.endsBefore_identifier {c : Char} {body : List Char} {u : Token} {d : Char}
    {cs : List Char} (hc : c.isAlpha = true) (hbody : ∀ x ∈ body, isIdentChar x = true)
    (hu : u.spelling = d :: cs) (hd : isIdentChar d = false) :
    (Token.identifier (c :: body)).EndsBefore u := by
  intro rest
  rw [hu]
  have h := @readToken_identifier c body (d :: (cs ++ rest)) hc hbody (by simpa using hd)
  simpa only [Token.spelling, List.append_assoc, List.cons_append] using h

/-- A number of digits and points ends before a token whose first character cannot continue
it. -/
theorem Token.endsBefore_number {c : Char} {body : List Char} {u : Token} {d : Char}
    {cs : List Char} (hc : c.isDigit = true) (hbody : ∀ x ∈ body, x.isDigit = true ∨ x = '.')
    (hu : u.spelling = d :: cs) (hd : isIdentChar d = false ∧ d ≠ '.') :
    (Token.number (c :: body)).EndsBefore u := by
  intro rest
  rw [hu]
  have h := @readToken_number c body (d :: (cs ++ rest)) hc hbody (by simpa using hd)
  simpa only [Token.spelling, List.append_assoc, List.cons_append] using h

/-- Tokens written one after the other are read back when each ends before the next and the
last is read alone. -/
theorem Lexes.of_isChain {ts : List Token} (hchain : ts.IsChain Token.EndsBefore)
    (hlast : ∀ t ∈ ts.getLast?, readToken t.spelling = some (t, [])) :
    Lexes (ts.flatMap Token.spelling) ts := by
  induction ts with
  | nil => exact .nil
  | cons t ts ih =>
    have hrest : ts.IsChain Token.EndsBefore := hchain.tail
    cases ts with
    | nil =>
      simpa using Lexes.cons (hlast t rfl) .nil
    | cons u us =>
      have htu : t.EndsBefore u := (List.isChain_cons_cons.1 hchain).1
      have hread := htu (us.flatMap Token.spelling)
      rw [List.append_assoc] at hread
      exact .cons (by simpa using hread) (ih hrest (by simpa using hlast))

theorem Lexes.cons_inv {cs : List Char} {t : Token} {ts : List Token} (h : Lexes cs (t :: ts)) :
    ∃ rest, readToken cs = some (t, rest) ∧ Lexes rest ts := by
  cases h with
  | cons hread hrest => exact ⟨_, hread, hrest⟩

/-- What follows tokens read as themselves is read on its own. -/
theorem Lexes.of_append {pre ts : List Token} {cs : List Char}
    (h : Lexes (pre.flatMap Token.spelling ++ cs) (pre ++ ts)) : Lexes cs ts := by
  induction pre with
  | nil => simpa using h
  | cons t pre ih =>
    obtain ⟨rest, hread, hrest⟩ := Lexes.cons_inv h
    have happ := readToken_append hread
    simp only [List.flatMap_cons, List.append_assoc, List.append_cancel_left_eq] at happ
    exact ih (happ ▸ hrest)

end TinyBasic.C
