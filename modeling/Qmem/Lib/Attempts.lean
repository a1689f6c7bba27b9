import Qmem.Lib.Run

/-!
# Attempts that fail

A machine takes one input after the other, and fails with some of them. `holds_last` is for a
machine that keeps the sample of the last success; `Unbroken.outputs_filter` is for one that
produces something with each success, and says when the failures do not show in it.
-/

namespace Attempts

variable {σ α β : Type*}

/-! ## The last success -/

section

variable (sample : α → Option β)

/-- What the last attempt that succeeded has read. -/
def last (attempts : List α) : Option β := (attempts.filterMap sample).getLast?

variable {sample}

theorem last_concat_some {a : α} {b : β} (h : sample a = some b) (attempts : List α) :
    last sample (attempts ++ [a]) = some b := by
  simp [last, List.filterMap_append, h]

theorem last_concat_none {a : α} (h : sample a = none) (attempts : List α) :
    last sample (attempts ++ [a]) = last sample attempts := by
  simp [last, List.filterMap_append, h]

/-- It is the sample of one of them. -/
theorem exists_of_last {attempts : List α} {b : β} (h : last sample attempts = some b) :
    ∃ a ∈ attempts, sample a = some b :=
  List.mem_filterMap.1 (List.mem_of_getLast? h)

/-- What a success makes true of its sample and a failure leaves, is true of the last sample. -/
theorem holds_last {step : σ → α → σ} {start : σ} (Holds : σ → β → Prop)
    (hok : ∀ s a b, sample a = some b → Holds (step s a) b)
    (hfail : ∀ s a b, sample a = none → Holds s b → Holds (step s a) b) {attempts : List α} {b : β}
    (h : last sample attempts = some b) : Holds (Run.state step start attempts) b := by
  induction attempts using List.reverseRecOn with
  | nil => exact absurd h nofun
  | append_singleton attempts a ih =>
    rw [Run.state_append]
    cases ha : sample a with
    | none =>
      rw [last_concat_none ha] at h
      exact hfail _ a b ha (ih h)
    | some b' =>
      rw [last_concat_some ha] at h
      rw [← Option.some.inj h]
      exact hok _ a b' ha

end

/-! ## What the successes produce -/

section

variable (step : σ → α → σ × Option β)

/-- The outputs of a run, one for each success. -/
def outputs : σ → List α → List β
  | _, [] => []
  | s, a :: as => (step s a).2.toList ++ outputs (step s a).1 as

/-- The state it ends in. -/
abbrev final (s : σ) (as : List α) : σ := Run.state (fun s a => (step s a).1) s as

variable {step}

theorem outputs_append (s : σ) (as bs : List α) :
    outputs step s (as ++ bs) = outputs step s as ++ outputs step (final step s as) bs := by
  induction as generalizing s with
  | nil => rfl
  | cons a as ih =>
    rw [List.cons_append, outputs, ih, outputs, List.append_assoc]
    rfl

/-- Failures produce nothing. -/
theorem outputs_eq_nil {as : List α} (h : ∀ s, ∀ a ∈ as, (step s a).2 = none) (s : σ) :
    outputs step s as = [] := by
  induction as generalizing s with
  | nil => rfl
  | cons a as ih =>
    rw [outputs, h s a List.mem_cons_self,
      ih (fun s b hb => h s b (List.mem_cons_of_mem a hb)) (step s a).1]
    rfl

/-- A state that they do not move is where they end. -/
theorem final_eq_self {s : σ} {as : List α} (h : ∀ a ∈ as, (step s a).1 = s) :
    final step s as = s := by
  induction as with
  | nil => rfl
  | cons a as ih =>
    rw [final, Run.state_cons, h a List.mem_cons_self]
    exact ih fun b hb => h b (List.mem_cons_of_mem a hb)

/-- States that are alike for every input produce the same. -/
theorem outputs_congr {R : σ → σ → Prop}
    (hstep : ∀ s t a, R s t → (step s a).2 = (step t a).2 ∧ R (step s a).1 (step t a).1)
    (as : List α) {s t : σ} (h : R s t) : outputs step s as = outputs step t as := by
  induction as generalizing s t with
  | nil => rfl
  | cons a as ih =>
    obtain ⟨hout, hnext⟩ := hstep s t a h
    rw [outputs, outputs, hout, ih hnext]

end

/-! ## Failures that do not show -/

section

variable (ok : α → Bool)

/-- No failure comes between two successes: they all come before the first one or after the last
one. -/
structure Unbroken (attempts before run after : List α) : Prop where
  split : attempts = before ++ (run ++ after)
  before_fails : ∀ a ∈ before, ok a = false
  run_succeeds : ∀ a ∈ run, ok a = true
  after_fails : ∀ a ∈ after, ok a = false

variable {ok}

theorem Unbroken.filter_eq {attempts before run after : List α}
    (h : Unbroken ok attempts before run after) : attempts.filter ok = run := by
  have hnone (as : List α) (has : ∀ a ∈ as, ok a = false) : as.filter ok = [] :=
    List.filter_eq_nil_iff.2 fun a ha => by simp [has a ha]
  rw [h.split, List.filter_append, List.filter_append, hnone before h.before_fails,
    hnone after h.after_fails, List.filter_eq_self.2 h.run_succeeds, List.nil_append,
    List.append_nil]

/-- The outputs are those of the successes alone, if the first failures have prepared nothing that
shows in them. -/
theorem Unbroken.outputs_filter {step : σ → α → σ × Option β}
    {attempts before run after : List α} (h : Unbroken ok attempts before run after)
    (hfail : ∀ s a, ok a = false → (step s a).2 = none) {s : σ}
    (hstart : outputs step (final step s before) run = outputs step s run) :
    outputs step s attempts = outputs step s (attempts.filter ok) := by
  rw [h.filter_eq, h.split, outputs_append, outputs_append,
    outputs_eq_nil (fun s a ha => hfail s a (h.before_fails a ha)),
    outputs_eq_nil (fun s a ha => hfail s a (h.after_fails a ha)), List.nil_append,
    List.append_nil, hstart]

end

end Attempts
