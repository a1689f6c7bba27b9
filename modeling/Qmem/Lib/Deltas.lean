import Mathlib.Data.List.Basic
import Mathlib.Order.Basic

/-!
# Counters and their changes

Samples of the same counters are taken one after the other, and each counter is reported with its
difference to the sample before. If that is always what is reported, the first report is right only
when the sample makes no difference to what was there at the start.
-/

namespace Deltas

variable {κ : Type}

/-- A counter as it is reported, with its change if there is one. -/
structure Reading where
  value : Int64
  delta : Option Int64

/-- What is reported under each name. -/
abbrev Report (κ : Type) := κ → Option Reading

/-- A report of all these counters, with their differences to the report before. -/
def Follows (names : List κ) (report next : Report κ) : Prop :=
  ∀ name ∈ names, ∃ r r' d, report name = some r ∧ next name = some r' ∧
    r'.delta = some d ∧ d.toInt = r'.value.toInt - r.value.toInt

/-- Reports are right if the first one has no changes, and every later one the differences to the
one before it. -/
structure Right (names : List κ) (reports : List (Report κ)) : Prop where
  first : ∀ report ∈ reports.head?, ∀ name ∈ names,
    ∃ r, report name = some r ∧ (r.delta = none ∨ r.delta = some 0)
  later : reports.IsChain (Follows names)

/-- A report that gives a sample and its differences to the sample before. -/
def Gives (names : List κ) (previous sample : κ → Int64) (report : Report κ) : Prop :=
  ∀ name ∈ names, report name = some ⟨sample name, some (sample name - previous name)⟩

/-- Reports that give these samples, the first of them after `previous`. -/
inductive Give (names : List κ) : (κ → Int64) → List (κ → Int64) → List (Report κ) → Prop where
  | nil (previous : κ → Int64) : Give names previous [] []
  | cons {previous sample : κ → Int64} {samples : List (κ → Int64)} {report : Report κ}
      {reports : List (Report κ)} : Gives names previous sample report →
      Give names sample samples reports →
      Give names previous (sample :: samples) (report :: reports)

variable {names : List κ}

/-- Numbers that are not negative can be subtracted. -/
theorem toInt_sub_of_nonneg {a b : Int64} (ha : 0 ≤ a.toInt) (hb : 0 ≤ b.toInt) :
    (a - b).toInt = a.toInt - b.toInt := by
  have hta := a.toInt_lt
  have htb := b.toInt_lt
  rw [Int64.toInt_sub, Int.bmod_eq_of_le (by omega) (by omega)]

theorem Gives.follows {previous sample next : κ → Int64} {report report' : Report κ}
    (h : Gives names previous sample report) (h' : Gives names sample next report')
    (hsample : ∀ name ∈ names, 0 ≤ (sample name).toInt)
    (hnext : ∀ name ∈ names, 0 ≤ (next name).toInt) : Follows names report report' := by
  intro name hname
  refine ⟨_, _, _, h name hname, h' name hname, rfl, ?_⟩
  exact toInt_sub_of_nonneg (hnext name hname) (hsample name hname)

theorem Give.isChain {previous : κ → Int64} {samples : List (κ → Int64)}
    {reports : List (Report κ)} (h : Give names previous samples reports)
    (hsamples : ∀ sample ∈ samples, ∀ name ∈ names, 0 ≤ (sample name).toInt) :
    reports.IsChain (Follows names) := by
  induction h with
  | nil => exact List.IsChain.nil
  | cons hreport hreports ih =>
    obtain ⟨hsample, hrest⟩ := List.forall_mem_cons.1 hsamples
    cases hreports with
    | nil => exact List.IsChain.singleton _
    | cons hnext _ =>
      have hfollows := hreport.follows hnext hsample (List.forall_mem_cons.1 hrest).1
      exact List.IsChain.cons_cons hfollows (ih hrest)

/-- A report after zeros has no changes exactly when it has only zeros itself. -/
theorem Gives.zero_iff {zero sample : κ → Int64} {report : Report κ}
    (h : Gives names zero sample report) (hzero : ∀ name ∈ names, zero name = 0) :
    (∀ name ∈ names, ∃ r, report name = some r ∧ (r.delta = none ∨ r.delta = some 0)) ↔
      ∀ name ∈ names, sample name = 0 := by
  have hdelta (name : κ) (hname : name ∈ names) : report name =
      some ⟨sample name, some (sample name)⟩ := by
    rw [h name hname, hzero name hname, Int64.sub_zero]
  constructor
  · intro hright name hname
    obtain ⟨r, hr, hnone | hsome⟩ := hright name hname
    · rw [hdelta name hname] at hr
      rw [← Option.some.inj hr] at hnone
      exact absurd hnone (Option.some_ne_none _)
    · rw [hdelta name hname] at hr
      rw [← Option.some.inj hr] at hsome
      exact Option.some.inj hsome
  · intro hall name hname
    exact ⟨_, hdelta name hname, Or.inr (congrArg some (hall name hname))⟩

/-- **Reports that start from zero** are right exactly when the first sample is all zero. -/
theorem Give.right_iff {zero : κ → Int64} {samples : List (κ → Int64)}
    {reports : List (Report κ)} (h : Give names zero samples reports)
    (hzero : ∀ name ∈ names, zero name = 0)
    (hsamples : ∀ sample ∈ samples, ∀ name ∈ names, 0 ≤ (sample name).toInt) :
    Right names reports ↔ ∀ sample ∈ samples.head?, ∀ name ∈ names, sample name = 0 := by
  have hlater := h.isChain hsamples
  cases h with
  | nil =>
    exact iff_of_true ⟨fun report hreport => absurd hreport (Option.not_mem_none _), hlater⟩
      fun sample hsample => absurd hsample (Option.not_mem_none _)
  | @cons _ sample samples report reports hreport _ =>
    have hiff := hreport.zero_iff hzero
    have hhead {α : Type} (a : α) (as : List α) (P : α → Prop) :
        (∀ s ∈ (a :: as).head?, P s) ↔ P a := by simp
    rw [hhead, ← hiff]
    refine ⟨fun hright => hright.first _ rfl, fun hfirst => ⟨?_, hlater⟩⟩
    rw [hhead]
    exact hfirst

end Deltas
