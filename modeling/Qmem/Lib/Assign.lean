import Mathlib.Data.List.Nodup
import Mathlib.Tactic.SplitIfs

/-!
# Assignments

Of the things that come one after the other, some assign a value, and the last of these stays.
-/

namespace Assign

variable {α β σ : Type} {assigns : α → Option β}

/-- The value assigned last, or the one before. -/
def last (assigns : α → Option β) (as : List α) (before : β) : β :=
  (as.filterMap assigns).getLast?.getD before

@[simp] theorem last_nil (before : β) : last assigns [] before = before := rfl

@[simp] theorem last_cons (a : α) (as : List α) (before : β) :
    last assigns (a :: as) before = last assigns as ((assigns a).getD before) := by
  rw [last, last, List.filterMap_cons]
  cases assigns a with
  | none => rfl
  | some b => rw [List.getLast?_cons, Option.getD_some, Option.getD_some]

theorem last_append (as as' : List α) (before : β) :
    last assigns (as ++ as') before = last assigns as' (last assigns as before) := by
  induction as generalizing before with
  | nil => rfl
  | cons a as ih => rw [List.cons_append, last_cons, ih, last_cons]

/-- What a state has, if every step assigns it or leaves it. -/
theorem get_foldl {get : σ → β} {step : σ → α → σ}
    (h : ∀ s a, get (step s a) = (assigns a).getD (get s)) (as : List α) (s : σ) :
    get (as.foldl step s) = last assigns as (get s) := by
  induction as generalizing s with
  | nil => rfl
  | cons a as ih => rw [List.foldl_cons, ih, h, last_cons]

/-- The same of steps that may fail. -/
theorem get_foldlM {ε : Type} (get : σ → β) (step : σ → α → Except ε σ)
    (h : ∀ s a s', step s a = .ok s' → get s' = (assigns a).getD (get s)) {as : List α} {s s' : σ}
    (hrun : as.foldlM step s = .ok s') : get s' = last assigns as (get s) := by
  induction as generalizing s with
  | nil =>
    cases hrun
    rfl
  | cons a as ih =>
    rw [List.foldlM_cons] at hrun
    cases hstep : step s a with
    | error e =>
      rw [hstep] at hrun
      cases hrun
    | ok t =>
      rw [hstep] at hrun
      rw [ih hrun, h s a t hstep, last_cons]

/-- A value that is only written differently. -/
theorem last_map {γ : Type} (f : β → γ) (as : List α) (before : β) :
    last (fun a => (assigns a).map f) as (f before) = f (last assigns as before) := by
  induction as generalizing before with
  | nil => rfl
  | cons a as ih =>
    rw [last_cons, last_cons, ← ih]
    cases assigns a <;> rfl

/-- What holds of everything that is assigned holds of the last of it. -/
theorem last_of_forall {P : β → Prop} {before : β} (hbefore : P before) {as : List α}
    (h : ∀ a ∈ as, ∀ b, assigns a = some b → P b) : P (last assigns as before) := by
  induction as generalizing before with
  | nil => exact hbefore
  | cons a as ih =>
    obtain ⟨ha, has⟩ := List.forall_mem_cons.1 h
    rw [last_cons]
    refine ih ?_ has
    cases hassign : assigns a with
    | none => exact hbefore
    | some b => exact ha b hassign

/-- Where something is assigned, it does not matter what was there before. -/
theorem last_of_assigned {a : α} {as : List α} (ha : a ∈ as) {b : β} (hb : assigns a = some b)
    (before before' : β) : last assigns as before = last assigns as before' := by
  have hmem : b ∈ as.filterMap assigns := List.mem_filterMap.2 ⟨a, ha, hb⟩
  rw [last, last, List.getLast?_eq_some_getLast (List.ne_nil_of_mem hmem)]
  rfl

/-- A chain of comparisons is a search. -/
theorem elim_find?_cons {p : α → Prop} [DecidablePred p] (a : α) (as : List α) (d : σ)
    (f : α → σ) : ((a :: as).find? fun a => p a).elim d f =
      if p a then f a else (as.find? fun a => p a).elim d f := by
  rw [List.find?_cons]
  split_ifs with h
  · rw [decide_eq_true h]
    rfl
  · rw [decide_eq_false h]

/-- A field of a state that is assigned under a key. -/
structure Field (κ σ β : Type) where
  key : κ
  get : σ → β
  set : σ → β → σ

/-- **Assigning under a key** sets the field of that key and leaves the others. -/
theorem get_set {κ : Type} [DecidableEq κ] {fields : List (Field κ σ β)}
    (hnodup : (fields.map Field.key).Nodup)
    (hsame : ∀ f ∈ fields, ∀ s b, f.get (f.set s b) = b)
    (hother : ∀ f ∈ fields, ∀ f' ∈ fields, f.key ≠ f'.key → ∀ s b, f.get (f'.set s b) = f.get s)
    {f : Field κ σ β} (hf : f ∈ fields) (key : κ) (s : σ) (b : β) :
    f.get ((fields.find? fun f => key = f.key).elim s fun f => f.set s b) =
      if key = f.key then b else f.get s := by
  cases hfind : fields.find? fun f => key = f.key with
  | none =>
    have hne : key ≠ f.key := by simpa using List.find?_eq_none.1 hfind f hf
    rw [if_neg hne]
    rfl
  | some f' =>
    have hf' : f' ∈ fields := List.mem_of_find?_eq_some hfind
    have hkey : key = f'.key := by simpa using List.find?_some hfind
    rw [Option.elim_some]
    by_cases h : key = f.key
    · rw [if_pos h, List.inj_on_of_nodup_map hnodup hf hf' (h.symm.trans hkey)]
      exact hsame f' hf' s b
    · rw [if_neg h]
      exact hother f hf f' hf' (fun heq => h (hkey.trans heq.symm)) s b

end Assign
