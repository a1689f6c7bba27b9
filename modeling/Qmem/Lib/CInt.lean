import Mathlib.Data.Int.ModEq
import Mathlib.Order.Basic

/-!
# Arithmetic on `int` and `size_t`

What C leaves undefined is `none`: a result that is not an `int`, and a division by zero. A
`size_t` wraps around.
-/

namespace CLib

/-- A result that has to be an `int`. -/
def asInt (n : Int) : Option Int := if -2 ^ 31 ≤ n ∧ n < 2 ^ 31 then some n else none

/-- `a % b`. -/
def intMod (a b : Int) : Option Int :=
  if b = 0 ∨ (a = -2 ^ 31 ∧ b = -1) then none else some (a.tmod b)

/-- A `size_t`. -/
def sizeT (n : Int) : Nat := (n % 2 ^ 64).toNat

theorem asInt_eq {n : Int} (hmin : -2 ^ 31 ≤ n) (hmax : n < 2 ^ 31) : asInt n = some n :=
  if_pos ⟨hmin, hmax⟩

theorem asInt_overflow {n : Int} (h : 2 ^ 31 ≤ n) : asInt n = none :=
  if_neg fun hfits => absurd hfits.2 (not_lt.2 h)

theorem intMod_eq {a b : Int} (ha : 0 ≤ a) (hb : 0 < b) : intMod a b = some (a % b) := by
  rw [intMod, if_neg (by omega), Int.tmod_eq_emod_of_nonneg ha]

theorem sizeT_natCast {n : Nat} (h : n < 2 ^ 64) : sizeT n = n := by
  rw [sizeT]
  omega

end CLib
