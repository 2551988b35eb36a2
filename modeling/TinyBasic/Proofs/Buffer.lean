import TinyBasic.Target.Buffer
/-!
# Calls on the output buffer

A translation adds body fragments, body lines and prologue lines to the buffer in whatever
order its walk meets them, and finishes the buffer once. This module says what every sequence
of calls does to a buffer that starts empty:

* while the buffer is open, an addition appends to its own part and to nothing else;
* a refused call leaves the buffer as it was, and the refused calls are exactly the calls made
  after the finish and the finishes for no destination;
* the buffer is finished exactly when a finish has been made; until then its two parts are the
  prologue lines and the body pieces of the calls, each in the order made, so that the first
  finish gives a text that depends on the two subsequences only and not on how they interleave.

`Call.prologue?` and `Call.piece?` are what a call adds to each part; `calls_spec` puts the
facts together.
-/

namespace TinyBasic

namespace Buffer

namespace Call

/-- The prologue line a call adds, if it adds one. -/
def prologue? : Call → Option String
  | declare code => some (code ++ "\n")
  | _ => none

/-- The body piece a call adds, if it adds one. -/
def piece? : Call → Option String
  | append code => some code
  | appendLine code => some (code ++ "\n")
  | _ => none

end Call

variable {b : Buffer} {c : Call} {d : Diagnostic}

/-! ## One call -/

@[simp] theorem perform_append_open (h : b.finished = false) (code : String) :
    b.perform (.append code) = (.done, { b with body := b.body ++ [code] }) := by
  simp [perform, settle, append, push, h]

@[simp] theorem perform_appendLine_open (h : b.finished = false) (code : String) :
    b.perform (.appendLine code) = (.done, { b with body := b.body ++ [code ++ "\n"] }) := by
  simp [perform, settle, appendLine, append, push, h]

@[simp] theorem perform_declare_open (h : b.finished = false) (code : String) :
    b.perform (.declare code) = (.done, { b with header := b.header ++ [code ++ "\n"] }) := by
  simp [perform, settle, declare, pushHeader, h]

@[simp] theorem perform_finish_open (h : b.finished = false) :
    b.perform .finish = (.text b.text, { b with finished := true }) := by
  simp [perform, settleText, finish, h]

/-- A finish for no destination is refused, whatever the buffer holds. -/
@[simp] theorem perform_finishUnaddressed (b : Buffer) :
    b.perform .finishUnaddressed = (.refused noDestinationError, b) := rfl

/-- A finished buffer refuses every other call, and stays as it is. -/
theorem perform_closed (h : b.finished = true) (hc : c ≠ .finishUnaddressed) :
    b.perform c = (.refused closedError, b) := by
  cases c with
  | finishUnaddressed => exact absurd rfl hc
  | append code => simp [perform, settle, append, h]
  | appendLine code => simp [perform, settle, appendLine, append, h]
  | declare code => simp [perform, settle, declare, h]
  | finish => simp [perform, settleText, finish, h]

/-- A call on an open buffer other than a finish adds its prologue line and its body piece. -/
theorem perform_open_state (h : b.finished = false) (hc : c ≠ .finish) :
    (b.perform c).2 =
      { b with header := b.header ++ c.prologue?.toList, body := b.body ++ c.piece?.toList } := by
  cases c with
  | finish => exact absurd rfl hc
  | append code => simp [h, Call.prologue?, Call.piece?]
  | appendLine code => simp [h, Call.prologue?, Call.piece?]
  | declare code => simp [h, Call.prologue?, Call.piece?]
  | finishUnaddressed => simp [Call.prologue?, Call.piece?]

/-- A call closes the buffer when it is a finish, and never opens it. -/
theorem finished_perform (b : Buffer) (c : Call) :
    (b.perform c).2.finished = true ↔ b.finished = true ∨ c = .finish := by
  cases hb : b.finished
  · cases c <;> simp [hb]
  · by_cases hc : c = .finishUnaddressed
    · subst hc
      simp [hb]
    · simp [perform_closed hb hc, hb]

/-- The calls a buffer refuses: a finish for no destination, and every call once it is finished. -/
theorem refused_iff (b : Buffer) (c : Call) :
    (∃ d, (b.perform c).1 = .refused d) ↔ c = .finishUnaddressed ∨ b.finished = true := by
  cases hb : b.finished
  · cases c <;> simp [hb]
  · by_cases hc : c = .finishUnaddressed
    · subst hc
      simp
    · simp [perform_closed hb hc]

/-- A refused call leaves the buffer as it was, and its diagnostic is one of the buffer's. -/
theorem perform_refused (h : (b.perform c).1 = .refused d) :
    (b.perform c).2 = b ∧ d.problem.family = .output := by
  by_cases hc : c = .finishUnaddressed
  · subst hc
    rw [perform_finishUnaddressed] at h ⊢
    cases h
    exact ⟨rfl, rfl⟩
  · have hclosed : b.finished = true := by
      rcases (refused_iff b c).1 ⟨d, h⟩ with hc' | hb
      · exact absurd hc' hc
      · exact hb
    rw [perform_closed hclosed hc] at h ⊢
    simp only [Reply.refused.injEq] at h
    subst h
    exact ⟨rfl, rfl⟩

/-! ## Sequences of calls -/

theorem performAll_nil (b : Buffer) : b.performAll [] = ([], b) := rfl

theorem performAll_cons (b : Buffer) (c : Call) (cs : List Call) :
    b.performAll (c :: cs) =
      ((b.perform c).1 :: ((b.perform c).2.performAll cs).1, ((b.perform c).2.performAll cs).2) :=
  rfl

theorem performAll_append (b : Buffer) (xs ys : List Call) :
    b.performAll (xs ++ ys) =
      ((b.performAll xs).1 ++ ((b.performAll xs).2.performAll ys).1,
        ((b.performAll xs).2.performAll ys).2) := by
  induction xs generalizing b with
  | nil => rfl
  | cons c xs ih => simp [performAll_cons, ih]

/-- The buffer is finished after a run exactly when it was before, or the run made a finish. -/
theorem finished_performAll (b : Buffer) (cs : List Call) :
    (b.performAll cs).2.finished = true ↔ b.finished = true ∨ Call.finish ∈ cs := by
  induction cs generalizing b with
  | nil => simp [performAll_nil]
  | cons c cs ih =>
    rw [performAll_cons, ih, finished_perform, List.mem_cons, or_assoc]
    exact or_congr_right (or_congr_left eq_comm)

/-- A run without a finish on an open buffer appends the prologue lines of its calls to the
prologue and their body pieces to the body, each in the order the calls were made. -/
theorem performAll_open (h : b.finished = false) {cs : List Call} (hcs : Call.finish ∉ cs) :
    (b.performAll cs).2 =
      { b with
        header := b.header ++ cs.filterMap Call.prologue?
        body := b.body ++ cs.filterMap Call.piece? } := by
  induction cs generalizing b with
  | nil => simp [performAll_nil]
  | cons c cs ih =>
    have hc : c ≠ .finish := fun he => hcs (he ▸ List.mem_cons_self)
    have hrest : Call.finish ∉ cs := fun hm => hcs (List.mem_cons_of_mem _ hm)
    have hopen : (b.perform c).2.finished = false := by
      rw [Bool.eq_false_iff]
      intro hf
      rcases (finished_perform b c).1 hf with hb | hb
      · rw [h] at hb
        cases hb
      · exact hc hb
    rw [performAll_cons, ih hopen hrest, perform_open_state h hc]
    cases c <;> simp [List.filterMap_cons, Call.prologue?, Call.piece?]

/-- Every sequence of calls on an empty buffer. The buffer is finished exactly when a finish
has been made; until then it holds the prologue lines and the body pieces of the calls made,
each in the order made, and each addition appends to its own part. The calls refused are the
finishes for no destination and every call after the finish; a refused call leaves the buffer
as it was. The first finish gives the prologue lines, an empty line and the body pieces, so that
its text depends on the two subsequences of calls only. -/
theorem calls_spec (pre : List Call) (c : Call) :
    let b := (({} : Buffer).performAll pre).2
    (b.finished = true ↔ Call.finish ∈ pre) ∧
    (Call.finish ∉ pre →
      b.header = pre.filterMap Call.prologue? ∧ b.body = pre.filterMap Call.piece?) ∧
    (b.finished = false → ∀ code,
      b.perform (.append code) = (.done, { b with body := b.body ++ [code] }) ∧
      b.perform (.appendLine code) = (.done, { b with body := b.body ++ [code ++ "\n"] }) ∧
      b.perform (.declare code) = (.done, { b with header := b.header ++ [code ++ "\n"] })) ∧
    ((∃ d, (b.perform c).1 = .refused d) ↔ c = .finishUnaddressed ∨ b.finished = true) ∧
    (∀ d, (b.perform c).1 = .refused d → (b.perform c).2 = b ∧ d.problem.family = .output) ∧
    (Call.finish ∉ pre → (b.perform .finish).1 =
      .text (String.join (pre.filterMap Call.prologue?) ++ "\n" ++
        String.join (pre.filterMap Call.piece?))) := by
  intro b
  have hfin : b.finished = true ↔ Call.finish ∈ pre := by
    simpa using finished_performAll {} pre
  have hparts : Call.finish ∉ pre →
      b.header = pre.filterMap Call.prologue? ∧ b.body = pre.filterMap Call.piece? := by
    intro hpre
    simp [b, performAll_open (b := {}) rfl hpre]
  refine ⟨hfin, hparts, fun hopen code => ⟨by simp [hopen], by simp [hopen], by simp [hopen]⟩,
    refused_iff b c, fun d hd => perform_refused hd, fun hpre => ?_⟩
  -- before the first finish the buffer is open and holds the two subsequences
  have hopen : b.finished = false := Bool.eq_false_iff.2 fun hf => hpre (hfin.1 hf)
  obtain ⟨hh, hb⟩ := hparts hpre
  simp [perform_finish_open hopen, text, hh, hb]

end Buffer

end TinyBasic
