import Mathlib.Data.List.Basic
import Mathlib.Data.Nat.ModEq

/-!
# Circular arrays

Item number `j` of a sequence is written to slot `j % cap`, so an array of `cap` slots keeps the
last `cap` items; `last` is the list of these.
-/

namespace Ring

variable {α : Type} {cap j n : Nat}

/-- Fewer than `cap` items apart, two slots are different. -/
theorem slot_ne (h : j < n) (hnear : n < j + cap) : j % cap ≠ n % cap := by
  intro heq
  have hzero := Nat.sub_mod_eq_zero_of_mod_eq heq.symm
  rw [Nat.mod_eq_of_lt (by omega)] at hzero
  omega

/-- The array has the last items. -/
structure Keeps (cap : Nat) (items array : List α) : Prop where
  length : array.length = cap
  slot : ∀ j < items.length, items.length ≤ j + cap → array[j % cap]? = items[j]?

variable {items array : List α}

theorem Keeps.nil (h : array.length = cap) : Keeps cap [] array := ⟨h, nofun⟩

theorem Keeps.push (h : Keeps cap items array) (hcap : 0 < cap) (item : α) :
    Keeps cap (items ++ [item]) (array.set (items.length % cap) item) := by
  refine ⟨by rw [List.length_set, h.length], fun j hj hnear => ?_⟩
  rw [List.length_append, List.length_singleton] at hj hnear
  by_cases hlast : j = items.length
  · rw [hlast, List.getElem?_set_self (by rw [h.length]; exact Nat.mod_lt _ hcap),
      List.getElem?_concat_length]
  · have hbefore : j < items.length := by omega
    rw [List.getElem?_set_ne (slot_ne hbefore (by omega)).symm,
      List.getElem?_append_left hbefore]
    exact h.slot j hbefore (by omega)

/-- What happens to the slot that is written next happens to the oldest item, once the array is
full. -/
theorem Keeps.modify (h : Keeps cap items array) (f : α → α) :
    Keeps cap (if items.length < cap then items else items.modify (items.length - cap) f)
      (array.modify (items.length % cap) f) := by
  refine ⟨by rw [List.length_modify, h.length], fun j hj hnear => ?_⟩
  by_cases hroom : items.length < cap
  · rw [if_pos hroom] at hj hnear ⊢
    rw [List.getElem?_modify_ne _ _ (slot_ne hj (by omega)).symm]
    exact h.slot j hj hnear
  · rw [if_neg hroom] at hj hnear ⊢
    rw [List.length_modify] at hj hnear
    by_cases hfirst : items.length - cap = j
    · have hslot : items.length % cap = j % cap := by
        rw [← hfirst, Nat.mod_eq_sub_mod (by omega)]
      rw [hslot, hfirst, List.getElem?_modify_eq, List.getElem?_modify_eq, h.slot j hj hnear]
    · rw [List.getElem?_modify_ne _ _ (slot_ne hj (by omega)).symm,
        List.getElem?_modify_ne _ _ hfirst]
      exact h.slot j hj hnear

/-! ## The last items -/

/-- The last `cap` items. -/
def last (cap : Nat) (items : List α) : List α := items.drop (items.length - cap)

theorem length_last (cap : Nat) (items : List α) :
    (last cap items).length = min items.length cap := by
  rw [last, List.length_drop]
  omega

theorem last_last (cap : Nat) (items : List α) : last cap (last cap items) = last cap items := by
  have hzero : (last cap items).length - cap = 0 := by
    rw [length_last]
    omega
  rw [last, hzero, List.drop_zero]

theorem last_push (hcap : 0 < cap) (items : List α) (item : α) :
    last cap (items ++ [item]) =
      (if (last cap items).length < cap then last cap items else (last cap items).tail) ++
        [item] := by
  rw [length_last]
  by_cases hroom : items.length < cap
  · rw [if_pos (by omega), last, last, List.length_append, List.length_singleton,
      Nat.sub_eq_zero_of_le (by omega), Nat.sub_eq_zero_of_le (by omega)]
    rfl
  · rw [if_neg (by omega), last, last, List.tail_drop, List.length_append, List.length_singleton,
      List.drop_append_of_le_length (by omega)]
    congr 2
    omega

theorem last_modify (h : cap ≤ items.length) (f : α → α) :
    last cap (items.modify (items.length - cap) f) = (last cap items).modifyHead f := by
  have hfront : (items.take (items.length - cap)).length = items.length - cap := by
    rw [List.length_take]
    omega
  rw [last, List.length_modify, List.modify_eq_take_drop]
  exact List.drop_left' hfront

end Ring
