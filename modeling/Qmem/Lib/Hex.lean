import Qmem.Lib.Scanf

/-!
# Hexadecimal numbers of fixed width (`%0kX`)

What is printed with leading zeros is read back with `%X`.
-/

namespace CLib

/-- One upper-case digit. -/
def hexUpper (n : Nat) : UInt8 := if n < 10 then .ofNat (0x30 + n) else .ofNat (0x37 + n)

/-- The last `k` digits of `n`. -/
def hexFixed : Nat → Nat → Bytes
  | 0, _ => []
  | k + 1, n => hexFixed k (n / 16) ++ [hexUpper (n % 16)]

theorem hexVal_hexUpper {n : Nat} (hn : n < 16) : Json.hexVal (hexUpper n) = some n := by
  have hall : ∀ n : Fin 16, Json.hexVal (hexUpper n) = some n.val := by decide
  exact hall ⟨n, hn⟩

theorem hexFixed_all (k n : Nat) : ∀ c ∈ hexFixed k n, isHexDigit c = true := by
  induction k generalizing n with
  | zero => exact fun c hc => absurd hc List.not_mem_nil
  | succ k ih =>
    intro c hc
    rw [hexFixed, List.mem_append] at hc
    rcases hc with hc | hc
    · exact ih (n / 16) c hc
    · rw [List.mem_singleton.1 hc, isHexDigit, hexVal_hexUpper (Nat.mod_lt n (by decide))]
      rfl

theorem hexValue_concat (digits : Bytes) (d : UInt8) :
    hexValue (digits ++ [d]) = 16 * hexValue digits + (Json.hexVal d).getD 0 := by
  rw [hexValue, List.foldl_append]
  rfl

/-- **What is printed is read back.** -/
theorem hexValue_hexFixed (k n : Nat) : hexValue (hexFixed k n) = n % 16 ^ k := by
  induction k generalizing n with
  | zero => rw [Nat.pow_zero, Nat.mod_one]; rfl
  | succ k ih =>
    rw [hexFixed, hexValue_concat, ih, hexVal_hexUpper (Nat.mod_lt n (by decide)),
      Option.getD_some, Nat.pow_succ, Nat.mul_comm (16 ^ k) 16, Nat.mod_mul, Nat.add_comm]

/-- A number of at least one digit. -/
def hexToken (k n : Nat) : Token isHexDigit where
  bytes := hexFixed (k + 1) n
  ne_nil := by simp [hexFixed]
  all := hexFixed_all (k + 1) n

theorem hexValue_hexToken {k n : Nat} (hn : n < 16 ^ (k + 1)) :
    hexValue (hexToken k n).bytes = n := by
  rw [hexToken, hexValue_hexFixed, Nat.mod_eq_of_lt hn]

end CLib
