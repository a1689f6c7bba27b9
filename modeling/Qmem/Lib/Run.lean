import Mathlib.Data.List.Induction
import Mathlib.Order.Basic

/-!
# Runs of a state machine

A machine is a start state and a function that takes one step per input; `Run.state` is where a
list of inputs leads. `invariant` is the induction over a run, and `always_iff` turns "a step
keeps what is good exactly when it is allowed" into the same for whole runs. `reaches` counts the
steps down that a machine has left to take.
-/

namespace Run

variable {σ α : Type*} (step : σ → α → σ) (start : σ)

/-- The state a run ends in. -/
def state (inputs : List α) : σ := inputs.foldl step start

@[simp] theorem state_nil : state step start [] = start := rfl

@[simp] theorem state_cons (a : α) (as : List α) :
    state step start (a :: as) = state step (step start a) as := rfl

theorem state_append (as bs : List α) :
    state step start (as ++ bs) = state step (state step start as) bs := List.foldl_append

/-- One step more. -/
theorem state_take_succ {inputs : List α} {k : Nat} {a : α} (h : inputs[k]? = some a) :
    state step start (inputs.take (k + 1)) = step (state step start (inputs.take k)) a := by
  rw [List.take_add_one, h, state_append]
  rfl

variable {step start}

/-- What holds at the start and survives every step holds at the end. -/
theorem invariant {I : σ → Prop} (hstart : I start) (hstep : ∀ s a, I s → I (step s a))
    (inputs : List α) : I (state step start inputs) := by
  induction inputs using List.reverseRecOn with
  | nil => exact hstart
  | append_singleton as a ih =>
    rw [state_append]
    exact hstep _ a ih

/-- The same where the steps have to be allowed: every step of a run that is allowed in the state
it is taken in. -/
theorem invariant_of_ok {I : σ → Prop} {Ok : σ → α → Prop} (hstart : I start)
    (hstep : ∀ s a, I s → Ok s a → I (step s a)) (inputs : List α)
    (hok : ∀ k a, inputs[k]? = some a → Ok (state step start (inputs.take k)) a) :
    I (state step start inputs) := by
  induction inputs using List.reverseRecOn with
  | nil => exact hstart
  | append_singleton as a ih =>
    have hbefore (k : Nat) (hk : k ≤ as.length) : (as ++ [a]).take k = as.take k :=
      List.take_append_of_le_length hk
    rw [state_append]
    refine hstep _ a (ih fun k b hb => ?_) ?_
    · have hk := (List.getElem?_eq_some_iff.1 hb).1
      rw [← hbefore k (Nat.le_of_lt hk)]
      exact hok k b (by rw [List.getElem?_append_left hk, hb])
    · have hlast := hok as.length a List.getElem?_concat_length
      rwa [hbefore _ (Nat.le_refl _), List.take_length] at hlast

/-- Every state of a run is good exactly when every step of it is allowed, if that is so of a
single step out of a good state. -/
theorem always_iff {I Good : σ → Prop} {Ok : σ → α → Prop} (hinv : I start)
    (hinvStep : ∀ s a, I s → I (step s a)) (hstart : Good start)
    (hstep : ∀ s a, I s → Good s → (Good (step s a) ↔ Ok s a)) (inputs : List α) :
    (∀ k ≤ inputs.length, Good (state step start (inputs.take k))) ↔
      ∀ k a, inputs[k]? = some a → Ok (state step start (inputs.take k)) a := by
  have hI (k : Nat) : I (state step start (inputs.take k)) := invariant hinv hinvStep _
  constructor
  · intro hgood k a ha
    have hk := (List.getElem?_eq_some_iff.1 ha).1
    have hnext := hgood (k + 1) hk
    rw [state_take_succ step start ha] at hnext
    exact (hstep _ a (hI k) (hgood k (Nat.le_of_lt hk))).1 hnext
  · intro hok k hk
    induction k with
    | zero => exact hstart
    | succ k ih =>
      have ha : inputs[k]? = some inputs[k] := List.getElem?_eq_getElem hk
      rw [state_take_succ step start ha]
      exact (hstep _ _ (hI k) (ih (by omega))).2 (hok k _ ha)

/-- A machine is done at some point if no step raises its rank, the steps that count lower it, and
enough of them are taken. -/
theorem reaches (I Done : σ → Prop) (counts : α → Bool) (rank : σ → Nat)
    (hstep : ∀ s a, I s → ¬Done s →
      I (step s a) ∧ rank (step s a) + (if counts a = true then 1 else 0) ≤ rank s)
    (hzero : ∀ s, I s → rank s = 0 → Done s) {s : σ} (hs : I s) {inputs : List α}
    (hcount : rank s ≤ inputs.countP counts) :
    ∃ k ≤ inputs.length,
      I (state step s (inputs.take k)) ∧ Done (state step s (inputs.take k)) := by
  induction inputs generalizing s with
  | nil => exact ⟨0, Nat.le_refl _, hs, hzero s hs (by simpa using hcount)⟩
  | cons a as ih =>
    by_cases hdone : Done s
    · exact ⟨0, Nat.zero_le _, hs, hdone⟩
    · obtain ⟨hnext, hrank⟩ := hstep s a hs hdone
      rw [List.countP_cons] at hcount
      obtain ⟨k, hk, hgood⟩ := ih hnext (by omega)
      exact ⟨k + 1, Nat.succ_le_succ hk, hgood⟩

/-! ## Traces -/

/-- Every entry of a trace is good, given what came before it. -/
def Each (Good : List α → α → Prop) (trace : List α) : Prop :=
  ∀ before a after, trace = before ++ a :: after → Good before a

theorem each_nil {Good : List α → α → Prop} : Each Good [] := by
  intro before a after h
  exact absurd h.symm (by simp)

theorem Each.append {Good : List α → α → Prop} {as bs : List α} (has : Each Good as)
    (hbs : Each (fun before a => Good (as ++ before) a) bs) : Each Good (as ++ bs) := by
  intro before a after h
  rcases List.append_eq_append_iff.1 h with ⟨m, rfl, hbs'⟩ | ⟨m, rfl, hm⟩
  · exact hbs m a after hbs'
  · cases m with
    | nil =>
      have hgood := hbs [] a after (by simpa using hm.symm)
      rwa [List.append_nil, List.append_nil] at hgood
    | cons b m =>
      rw [List.cons_append, List.cons.injEq] at hm
      obtain ⟨rfl, -⟩ := hm
      exact has before a m rfl

end Run
