import TinyBasic.Proofs.Lookahead
import TinyBasic.Target.Fragments
/-!
# How tokens are spelled

The scanner writes each operator one way, so an expression's tree gives back the tokens it was
read from: the fragments an expression is emitted as are the texts of its tokens, with nothing
between them.

* `Kind.spelling?` is the one text of an operator kind; `Kind.Spells k text` says that a token
  of kind `k` with text `text` is spelled so.
* `TokenStream.tokens_spelled`: every token of the scanner's list is spelled as its kind says.
* `ExprOf.texts` and `ComparisonOf.texts`: the tokens of a phrase, read as a tree, have the
  tree's fragments as their texts.
-/

namespace TinyBasic

/-- The one text of an operator kind; the other kinds have none. -/
def Kind.spelling? : Kind → Option String
  | .plus => some "+"
  | .minus => some "-"
  | .asterisk => some "*"
  | .slash => some "/"
  | .eqEq => some "=="
  | .notEq => some "!="
  | .lt => some "<"
  | .ltEq => some "<="
  | .gt => some ">"
  | .gtEq => some ">="
  | _ => none

/-- A token of kind `k` with text `text` is spelled as its kind says. -/
def Kind.Spells (k : Kind) (text : String) : Prop :=
  ∀ s, k.spelling? = some s → text = s

/-- A token spelled as its kind says. -/
def Token.Spelled (t : Token) : Prop := t.kind.Spells t.text

theorem Kind.spells_of_none {k : Kind} {text : String} (h : k.spelling? = none) :
    k.Spells text := by
  intro s hs
  rw [h] at hs
  cases hs

theorem Kind.spells_of_some {k : Kind} {text : String} (h : k.spelling? = some text) :
    k.Spells text := by
  intro s hs
  rw [h] at hs
  cases hs
  rfl

/-- A word is a keyword or a name, and neither has a fixed spelling. -/
theorem Kind.spelling?_ofWord (w : String) : (Kind.ofWord w).spelling? = none := by
  unfold Kind.ofWord
  split
  · rename_i k hk
    obtain ⟨l₁, l₂, hl, -⟩ := List.lookup_eq_some_iff.1 hk
    have hmem : (w, k) ∈ Kind.keywords := by
      rw [hl]
      exact List.mem_append_right _ List.mem_cons_self
    have hall : ∀ p ∈ Kind.keywords, p.2.spelling? = none := by decide
    exact hall _ hmem
  · rfl

/-! ## The classifier -/

/-- Every token that a classifier result gives has property `P`. -/
def Found.Yields (P : Kind → String → Prop) (f : Found) : Prop :=
  ∀ k text n, f = .token k text n → P k text

namespace Found

variable {P : Kind → String → Prop}

theorem yields_ite {c : Prop} [Decidable c] {a b : Found} (ha : c → a.Yields P)
    (hb : b.Yields P) : (if c then a else b).Yields P := by
  split
  · exact ha ‹_›
  · exact hb

theorem yields_token {k : Kind} {text : String} {n : Nat} (h : P k text) :
    (Found.token k text n).Yields P := by
  rintro k' text' n' he
  cases he
  exact h

theorem yields_fault {p : Problem} {n : Nat} : (Found.fault p n).Yields P := by
  rintro k text n' he
  cases he

theorem yields_pair {ch : Char} {single double : Kind} {r : List Char}
    (hs : P single (String.singleton ch)) (hd : P double (String.ofList [ch, '='])) :
    (Found.pair ch single double r).Yields P := by
  unfold Found.pair
  split
  · exact yields_token hd
  · exact yields_token hs

theorem yields_string {r : List Char} (h : ∀ text, P .string text) :
    (Found.string r).Yields P := by
  unfold Found.string
  dsimp only
  split
  · exact yields_token (h _)
  · exact yields_fault
  · exact yields_fault

theorem yields_number {d : Char} {r : List Char} (h : ∀ text, P .number text) :
    (Found.number d r).Yields P := by
  unfold Found.number
  dsimp only
  split
  · exact yields_ite (fun _ => yields_fault) (yields_token (h _))
  · exact yields_token (h _)

theorem yields_word {l : Char} {r : List Char} (h : ∀ text, P (Kind.ofWord text) text) :
    (Found.word l r).Yields P := by
  rintro k text n he
  unfold Found.word at he
  cases he
  exact h _

/-- The classifier spells every operator it makes one way. -/
theorem spells_at (ch : Char) (r : List Char) : (Found.at ch r).Yields Kind.Spells := by
  unfold Found.at
  -- One test of the classifier's chain at a time; the branches that read `ch` itself (the
  -- operators that may take an `=`) learn which character it is.
  repeat' apply yields_ite
  · exact fun _ => yields_token (Kind.spells_of_some rfl)
  · exact fun _ => yields_token (Kind.spells_of_some rfl)
  · exact fun _ => yields_token (Kind.spells_of_some rfl)
  · exact fun _ => yields_token (Kind.spells_of_some rfl)
  · rintro rfl
    exact yields_pair (Kind.spells_of_none rfl) (Kind.spells_of_some rfl)
  · rintro rfl
    exact yields_pair (Kind.spells_of_some rfl) (Kind.spells_of_some rfl)
  · rintro rfl
    exact yields_pair (Kind.spells_of_some rfl) (Kind.spells_of_some rfl)
  · intro _
    split
    · exact yields_token (Kind.spells_of_some rfl)
    · exact yields_fault
  · exact fun _ => yields_string fun _ => Kind.spells_of_none rfl
  · exact fun _ => yields_token (Kind.spells_of_none rfl)
  · exact fun _ => yields_number fun _ => Kind.spells_of_none rfl
  · exact fun _ => yields_word fun w => Kind.spells_of_none (Kind.spelling?_ofWord w)
  · exact yields_fault

end Found

/-! ## The stream -/

/-- The tokens of a list are all spelled as their kinds say. -/
def AllSpelled (ts : List Token) : Prop := ∀ t ∈ ts, t.Spelled

namespace TokenStream

theorem next_spelled {s s' : TokenStream} {t : Token} (h : s.next = (.ok t, s')) :
    t.Spelled := by
  unfold next scanAt at h
  split at h
  · -- the end of the text
    simp only [Prod.mk.injEq, Except.ok.injEq] at h
    obtain ⟨rfl, rfl⟩ := h
    exact Kind.spells_of_none rfl
  · rename_i ch r _
    split at h
    · rename_i k text n hf
      simp only [Prod.mk.injEq, Except.ok.injEq] at h
      obtain ⟨rfl, rfl⟩ := h
      exact Found.spells_at ch r k text n hf
    · simp at h

/-- Every token the scanner gives is spelled as its kind says. -/
theorem tokens_spelled {s : TokenStream} {ts : List Token} {e : Option Diagnostic}
    (h : s.tokens = (ts, e)) : AllSpelled ts := by
  induction s using TokenStream.tokens.induct generalizing ts e with
  | case1 s d s' hd =>
    rw [tokens_of_next_error hd] at h
    cases h
    intro t ht
    cases ht
  | case2 s t s' ht hk =>
    rw [tokens_of_next_eof ht hk] at h
    cases h
    intro t' ht'
    rw [List.mem_singleton] at ht'
    subst ht'
    exact next_spelled ht
  | case3 s t s' ht hk _ ts' e' hts ih =>
    rw [tokens_of_next_token ht hk, hts] at h
    cases h
    intro t' ht'
    rcases List.mem_cons.1 ht' with rfl | hmem
    · exact next_spelled ht
    · exact ih hts t' hmem

end TokenStream

/-! ## Phrases -/

theorem AllSpelled.of_append {ph rest : List Token} (h : AllSpelled (ph ++ rest)) :
    AllSpelled rest :=
  fun t ht => h t (List.mem_append_right _ ht)

theorem Atom.text_of_ofToken? {t : Token} {a : Atom} (ha : Atom.ofToken? t = some a) :
    a.text = t.text := by
  unfold Atom.ofToken? at ha
  split at ha
  · cases ha
    rfl
  · cases ha
    rfl
  · cases ha

theorem Sign.text_of_ofKind {t : Token} {sg : Sign} (hs : Sign.ofKind t.kind = some sg)
    (ht : t.Spelled) : t.text = sg.text := by
  unfold Token.Spelled at ht
  cases hk : t.kind <;> rw [hk] at hs ht <;> cases hs <;> exact ht _ rfl

theorem AddOp.text_of_ofKind {t : Token} {o : AddOp} (ho : AddOp.ofKind t.kind = some o)
    (ht : t.Spelled) : t.text = o.text := by
  unfold Token.Spelled at ht
  cases hk : t.kind <;> rw [hk] at ho ht <;> cases ho <;> exact ht _ rfl

theorem MulOp.text_of_ofKind {t : Token} {o : MulOp} (ho : MulOp.ofKind t.kind = some o)
    (ht : t.Spelled) : t.text = o.text := by
  unfold Token.Spelled at ht
  cases hk : t.kind <;> rw [hk] at ho ht <;> cases ho <;> exact ht _ rfl

theorem Relation.text_of_ofKind {t : Token} {o : Relation} (ho : Relation.ofKind t.kind = some o)
    (ht : t.Spelled) : t.text = o.text := by
  unfold Token.Spelled at ht
  cases hk : t.kind <;> rw [hk] at ho ht <;> cases ho <;> exact ht _ rfl

/-- A factor's tokens are its sign, if any, and its operand, spelled as the factor's
fragments. -/
theorem FactorOf.texts {ts rest : List Token} {f : Factor} (hf : FactorOf ts f rest)
    (hsp : AllSpelled ts) : ∃ ph, ts = ph ++ rest ∧ ph.map Token.text = f.fragments := by
  cases hf with
  | bare ha =>
    refine ⟨[_], rfl, ?_⟩
    simp [Factor.fragments, Atom.text_of_ofToken? ha]
  | signed hs ha =>
    refine ⟨[_, _], rfl, ?_⟩
    have hsign := Sign.text_of_ofKind hs (hsp _ List.mem_cons_self)
    simp [Factor.fragments, Atom.text_of_ofToken? ha, hsign]

/-- The tokens of a repetition `{op item}` are, in turn, each operator's text and the item's
fragments. -/
theorem ChainOf.texts {O E : Type} {op : Kind → Option O}
    {item : List Token → E → List Token → Prop} {opText : O → String}
    {fragments : E → List String} {ts rest : List Token} {es : List (O × E)}
    (hc : ChainOf op item ts es rest) (hsp : AllSpelled ts)
    (hop : ∀ {t : Token} {o : O}, op t.kind = some o → t.Spelled → t.text = opText o)
    (hitem : ∀ {l : List Token} {x : E} {r : List Token}, item l x r → AllSpelled l →
      ∃ ph, l = ph ++ r ∧ ph.map Token.text = fragments x) :
    ∃ ph, ts = ph ++ rest ∧
      ph.map Token.text = es.flatMap fun p => opText p.1 :: fragments p.2 := by
  induction hc with
  | nil => exact ⟨[], rfl, rfl⟩
  | @cons t _ _ _ _ _ _ ho he _ ih =>
    have hsp₁ : AllSpelled _ := fun t ht => hsp t (List.mem_cons_of_mem _ ht)
    obtain ⟨ph₁, rfl, hph₁⟩ := hitem he hsp₁
    obtain ⟨ph₂, rfl, hph₂⟩ := ih hsp₁.of_append
    refine ⟨t :: (ph₁ ++ ph₂), by simp, ?_⟩
    simp [hop ho (hsp _ List.mem_cons_self), hph₁, hph₂]

theorem TermOf.texts {ts rest : List Token} {t : Term} (ht : TermOf ts t rest)
    (hsp : AllSpelled ts) : ∃ ph, ts = ph ++ rest ∧ ph.map Token.text = t.fragments := by
  rcases ht with ⟨hf, hfs⟩
  obtain ⟨ph₁, rfl, hph₁⟩ := hf.texts hsp
  obtain ⟨ph₂, rfl, hph₂⟩ := hfs.texts hsp.of_append MulOp.text_of_ofKind
    fun h hl => FactorOf.texts h hl
  exact ⟨ph₁ ++ ph₂, by simp, by simp [Term.fragments, hph₁, hph₂]⟩

theorem ExprOf.texts {ts rest : List Token} {x : Expr} (hx : ExprOf ts x rest)
    (hsp : AllSpelled ts) : ∃ ph, ts = ph ++ rest ∧ ph.map Token.text = x.fragments := by
  rcases hx with ⟨ht, hts⟩
  obtain ⟨ph₁, rfl, hph₁⟩ := ht.texts hsp
  obtain ⟨ph₂, rfl, hph₂⟩ := hts.texts hsp.of_append AddOp.text_of_ofKind
    fun h hl => TermOf.texts h hl
  exact ⟨ph₁ ++ ph₂, by simp, by simp [Expr.fragments, hph₁, hph₂]⟩

theorem ComparisonOf.texts {ts rest : List Token} {c : Comparison} (hc : ComparisonOf ts c rest)
    (hsp : AllSpelled ts) : ∃ ph, ts = ph ++ rest ∧ ph.map Token.text = c.fragments := by
  cases hc with
  | @mk _ _ _ t _ _ _ _ hl hrel hr hmore =>
    obtain ⟨ph₁, hts, hph₁⟩ := hl.texts hsp
    rw [hts] at hsp
    have hsp₁ : AllSpelled _ := hsp.of_append
    have hop := Relation.text_of_ofKind hrel (hsp₁ _ List.mem_cons_self)
    have hsp₂ : AllSpelled _ := fun t ht => hsp₁ t (List.mem_cons_of_mem _ ht)
    obtain ⟨ph₂, rfl, hph₂⟩ := hr.texts hsp₂
    obtain ⟨ph₃, rfl, hph₃⟩ := hmore.texts hsp₂.of_append Relation.text_of_ofKind
      fun h hl => ExprOf.texts h hl
    refine ⟨ph₁ ++ t :: (ph₂ ++ ph₃), by rw [hts]; simp, ?_⟩
    simp [Comparison.fragments, hph₁, hph₂, hph₃, hop]

end TinyBasic
