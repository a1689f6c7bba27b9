import Qmem.Lib.CStr

/-!
# Strings in arrays (`string.h`)

A field of `n + 1` characters whose last one is NUL, as long as nothing but `strncpy` with `n`
writes to it.
-/

namespace CLib

/-- `char field[n + 1]`. -/
structure CharArray (n : Nat) where
  bytes : Bytes
  length_eq : bytes.length = n + 1
  last : bytes[n]? = some 0

/-- `memset(field, 0, n + 1)`. -/
def CharArray.zero (n : Nat) : CharArray n where
  bytes := List.replicate (n + 1) 0
  length_eq := List.length_replicate
  last := by simp

/-- The string in the field. -/
def CharArray.text {n : Nat} (field : CharArray n) : CStr := cstr field.bytes

theorem CharArray.length_text {n : Nat} (field : CharArray n) : field.text.length ≤ n := by
  have hstart : field.text.bytes <+: field.bytes := List.takeWhile_prefix _
  have hle : field.text.length ≤ n + 1 := field.length_eq ▸ hstart.length_le
  by_contra hlong
  -- a string that fills the field has the NUL at its end
  have hwhole : field.text.bytes = field.bytes :=
    hstart.eq_of_length (by rw [← CStr.length, field.length_eq]; omega)
  exact field.text.nulFree (hwhole ▸ List.mem_of_getElem? field.last)

/-- What `strncpy(_, src, n)` writes: the string, padded with NULs. -/
def padded (src : CStr) (n : Nat) : Bytes :=
  src.bytes.take n ++ List.replicate (n - src.length) 0

theorem length_padded (src : CStr) (n : Nat) : (padded src n).length = n := by
  rw [padded, List.length_append, List.length_take, List.length_replicate, CStr.length]
  omega

theorem memcpy_padded {n : Nat} (field : CharArray n) (src : CStr) :
    memcpy field.bytes 0 (padded src n) = padded src n ++ [0] := by
  have hdrop : field.bytes.drop n = [0] := by
    have hlt : n < field.bytes.length := by rw [field.length_eq]; exact Nat.lt_succ_self n
    have hget : field.bytes[n] = 0 := (List.getElem?_eq_some_iff.1 field.last).2
    rw [List.drop_eq_getElem_cons hlt, hget,
      List.drop_eq_nil_of_le (by rw [field.length_eq])]
  rw [memcpy, List.take_zero, List.nil_append, length_padded, Nat.zero_add, hdrop]

/-- `strncpy(field, src, n)`. -/
def CharArray.strncpy {n : Nat} (field : CharArray n) (src : CStr) : CharArray n where
  bytes := memcpy field.bytes 0 (padded src n)
  length_eq := by
    rw [memcpy_padded, List.length_append, length_padded, List.length_singleton]
  last := by
    have hlen := length_padded src n
    rw [memcpy_padded, List.getElem?_append_right hlen.le, hlen, Nat.sub_self]
    rfl

/-- **A copy** is as much of the string as fits, whatever was there. -/
@[simp] theorem CharArray.text_strncpy {n : Nat} (field : CharArray n) (src : CStr) :
    (field.strncpy src).text = src.cut n := by
  have hrest : ∃ rest, padded src n ++ [0] = (src.cut n).bytes ++ 0 :: rest := by
    rw [padded, CStr.cut_bytes]
    cases n - src.length with
    | zero => exact ⟨[], by rw [List.replicate_zero, List.append_nil]⟩
    | succ k => exact ⟨List.replicate k 0 ++ [0], by
        rw [List.replicate_succ, List.append_assoc, List.cons_append]⟩
  obtain ⟨rest, hrest⟩ := hrest
  show cstr (memcpy field.bytes 0 (padded src n)) = src.cut n
  rw [memcpy_padded, hrest, CStr.cstr_terminated_append]

theorem CharArray.length_memcpy_cut {n : Nat} (field : CharArray n) (src : CStr) :
    (memcpy field.bytes 0 ((src.cut n).bytes ++ [0])).length = n + 1 := by
  have hle : (src.cut n).bytes.length ≤ n := src.length_cut_le n
  rw [memcpy_length, field.length_eq]
  rw [List.length_append, List.length_singleton, field.length_eq]
  omega

/-- A shorter string leaves the last character as it was, and that is NUL. -/
theorem CharArray.last_memcpy_cut {n : Nat} (field : CharArray n) (src : CStr) :
    (memcpy field.bytes 0 ((src.cut n).bytes ++ [0]))[n]? = some 0 := by
  have hle : (src.cut n).bytes.length ≤ n := src.length_cut_le n
  rw [memcpy, List.take_zero, List.nil_append, List.append_assoc, Nat.zero_add,
    List.length_append, List.length_singleton, List.getElem?_append_right hle]
  obtain hfull | hroom := Nat.eq_or_lt_of_le hle
  · rw [hfull, Nat.sub_self]
    rfl
  · obtain ⟨k, hk⟩ := Nat.exists_eq_add_of_lt hroom
    have hlast := field.last
    rw [List.singleton_append, show n - (src.cut n).bytes.length = k + 1 by omega,
      List.getElem?_cons_succ, List.getElem?_drop]
    rwa [show (src.cut n).bytes.length + 1 + k = n by omega]

/-- `snprintf(field, n + 1, "%s", src)`: the string and one NUL. -/
def CharArray.snprintf {n : Nat} (field : CharArray n) (src : CStr) : CharArray n where
  bytes := memcpy field.bytes 0 ((src.cut n).bytes ++ [0])
  length_eq := field.length_memcpy_cut src
  last := field.last_memcpy_cut src

@[simp] theorem CharArray.text_snprintf {n : Nat} (field : CharArray n) (src : CStr) :
    (field.snprintf src).text = src.cut n := (src.cut n).cstr_memcpy field.bytes

end CLib
