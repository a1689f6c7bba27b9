import Qmem.Lib.Run
import Mathlib.Data.Set.Finite.Lattice
import Mathlib.Data.Stream.Init
import Mathlib.Order.WellFounded

/-!
# Runs on endless inputs

The inputs are a stream, of which a machine that stops looks only at the first ones. `after_stops`
is for a machine with idle steps: it stops if only finitely many of its steps are idle and each of
the others brings it nearer to a bound.
-/

namespace Run

variable {σ α : Type*} (step : σ → α → σ) (start : σ) (inputs : Stream' α)

/-- The state behind the first `k` inputs. -/
def after (k : Nat) : σ := state step start (inputs.take k)

@[simp] theorem after_zero : after step start inputs 0 = start := rfl

theorem after_succ (k : Nat) :
    after step start inputs (k + 1) = step (after step start inputs k) (inputs.get k) := by
  rw [after, Stream'.take_succ', state_append]
  rfl

variable {step start inputs}

/-- Where no input changes anything, nothing changes any more. -/
theorem after_stable {k : Nat}
    (hstuck : ∀ a, step (after step start inputs k) a = after step start inputs k) {j : Nat}
    (hj : k ≤ j) : after step start inputs j = after step start inputs k := by
  induction j, hj using Nat.le_induction with
  | base => rfl
  | succ j _ ih => rw [after_succ, ih, hstuck]

/-- A machine stops if all but finitely many of its steps raise a number that is bounded. -/
theorem after_stops (Idle : σ → α → Prop) (Stopped : σ → Prop) (number : σ → Nat) (bound : Nat)
    (hbound : ∀ k, ¬Stopped (after step start inputs k) →
      number (after step start inputs k) ≤ bound)
    (hraise : ∀ k, ¬Stopped (after step start inputs (k + 1)) →
      ¬Idle (after step start inputs k) (inputs.get k) →
      number (after step start inputs k) < number (after step start inputs (k + 1)))
    (hidle : {k | Idle (after step start inputs k) (inputs.get k)}.Finite) :
    ∃ k, Stopped (after step start inputs k) := by
  by_contra hnever
  have hgoes (k : Nat) : ¬Stopped (after step start inputs k) := fun h => hnever ⟨k, h⟩
  obtain ⟨last, hlast⟩ := hidle.bddAbove
  -- from here on every step raises the number
  have hmono : StrictMono fun k => number (after step start inputs (last + 1 + k)) := by
    refine strictMono_nat_of_lt_succ fun k => hraise (last + 1 + k) (hgoes _) fun h => ?_
    have hle : last + 1 + k ≤ last := hlast h
    omega
  have hover : bound + 1 ≤ number (after step start inputs (last + 1 + (bound + 1))) :=
    hmono.le_apply
  have hle := hbound (last + 1 + (bound + 1)) (hgoes _)
  omega

end Run
