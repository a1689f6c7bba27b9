import Mathlib.Data.List.TakeWhile
import Mathlib.Tactic

/-!
# Byte buffers and C strings

What C code means by a string: the bytes of a buffer up to its first NUL. A `CStr` carries
that it holds no NUL, so no operation below has to say it again; a buffer (`char buf[N]`) is
the list of all its bytes, whatever they are, and `cstr` reads the string it begins with.
-/

namespace CLib

abbrev Bytes := List UInt8

-- a check of every element goes through the list, not through all values of a finite type
instance (priority := 2000) decidableAllMem {α : Type} (p : α → Prop) [DecidablePred p]
    (xs : List α) : Decidable (∀ x ∈ xs, p x) := List.decidableBAll p xs

/-- A C string: the bytes before the terminating NUL. -/
@[ext] structure CStr where
  bytes : Bytes
  nulFree : 0 ∉ bytes
deriving DecidableEq

/-! ## Buffers -/

/-- `memcpy(buf + off, src, len)`, for a copy that stays inside the buffer. -/
def memcpy (buf : Bytes) (off : Nat) (src : Bytes) : Bytes :=
  buf.take off ++ src ++ buf.drop (off + src.length)

/-- The string a buffer begins with: what `strlen` and `%s` read. -/
def cstr (buf : Bytes) : CStr where
  bytes := buf.takeWhile (· ≠ 0)
  nulFree h := by simpa using List.mem_takeWhile_imp h

theorem memcpy_length {buf : Bytes} {off : Nat} {src : Bytes}
    (h : off + src.length ≤ buf.length) : (memcpy buf off src).length = buf.length := by
  simp only [memcpy, List.length_append, List.length_take, List.length_drop]
  omega

theorem take_memcpy {buf : Bytes} {off : Nat} {src : Bytes} (h : off ≤ buf.length) :
    (memcpy buf off src).take (off + src.length) = buf.take off ++ src := by
  have hlen : (buf.take off ++ src).length = off + src.length := by
    simp [List.length_take, h]
  rw [memcpy, ← hlen, List.take_left]

/-- A buffer that holds a NUL-free text and then a NUL begins with that text. -/
theorem cstr_bytes_of_append {buf : Bytes} {n : Nat} (hfree : 0 ∉ buf.take n)
    (hnul : buf[n]? = some 0) : (cstr buf).bytes = buf.take n := by
  have hlt : n < buf.length := (List.getElem?_eq_some_iff.1 hnul).1
  have hsplit : buf = buf.take n ++ (0 :: buf.drop (n + 1)) := by
    have hget : buf[n] = 0 := (List.getElem?_eq_some_iff.1 hnul).2
    rw [← hget, ← List.drop_eq_getElem_cons hlt, List.take_append_drop]
  have hall : ∀ b ∈ buf.take n, decide (b ≠ 0) = true := by
    intro b hb
    simp only [decide_eq_true_eq]
    rintro rfl
    exact hfree hb
  show buf.takeWhile _ = _
  conv_lhs => rw [hsplit]
  rw [List.takeWhile_append_of_pos hall]
  simp

/-- A buffer begins with its string, and then there is a NUL or nothing. -/
theorem cstr_append_rest (buf : Bytes) :
    ∃ rest, buf = (cstr buf).bytes ++ rest ∧ ∀ c ∈ rest.head?, c = 0 := by
  refine ⟨buf.dropWhile (· ≠ 0), (List.takeWhile_append_dropWhile).symm, fun c hc => ?_⟩
  have hnot := List.head?_dropWhile_not (fun c : UInt8 => decide (c ≠ 0)) buf
  rw [Option.mem_def.1 hc] at hnot
  simpa using hnot

/-! ## `printf` conversions -/

def byteOf (c : Char) : UInt8 := UInt8.ofNat c.toNat

/-- `%lu`. -/
def decNat (n : Nat) : Bytes := (Nat.toDigits 10 n).map byteOf

/-- `%ld`. -/
def decInt (i : Int) : Bytes :=
  if i < 0 then 0x2d :: decNat i.natAbs else decNat i.natAbs

/-- One lower-case hexadecimal digit, as `%x` prints it. -/
def hexDigit (n : Nat) : UInt8 := byteOf (Nat.digitChar n)

theorem decNat_ne_nil (n : Nat) : decNat n ≠ [] := by
  simp [decNat, Nat.toDigits_ne_nil]

theorem decInt_ne_nil (i : Int) : decInt i ≠ [] := by
  rw [decInt]
  split
  · exact List.cons_ne_nil _ _
  · exact decNat_ne_nil _

/-! ## Strings -/

namespace CStr

/-- A string literal (ASCII, as all the source's literals are). -/
def lit (s : String) : CStr :=
  cstr (s.toList.map byteOf)

def length (s : CStr) : Nat := s.bytes.length

/-- A string and its NUL are read back, whatever follows. -/
theorem cstr_terminated_append (s : CStr) (rest : Bytes) : cstr (s.bytes ++ 0 :: rest) = s := by
  have hfront : (s.bytes ++ 0 :: rest).take s.length = s.bytes := List.take_left
  refine CStr.ext ((cstr_bytes_of_append ?_ ?_).trans hfront)
  · rw [hfront]
    exact s.nulFree
  · show (s.bytes ++ 0 :: rest)[s.bytes.length]? = some 0
    rw [List.getElem?_append_right le_rfl, Nat.sub_self]
    rfl

theorem cstr_terminated (s : CStr) : cstr (s.bytes ++ [0]) = s := cstr_terminated_append s []

theorem cstr_memcpy (s : CStr) (buf : Bytes) : cstr (memcpy buf 0 (s.bytes ++ [0])) = s := by
  rw [memcpy, List.take_zero, List.nil_append, List.append_assoc]
  exact cstr_terminated_append s _

/-- The first `n` bytes: what `strncpy` and `snprintf` leave in a field of `n + 1` bytes. -/
def cut (s : CStr) (n : Nat) : CStr where
  bytes := s.bytes.take n
  nulFree h := s.nulFree (List.mem_of_mem_take h)

/-- The string up to the first `c`: `*strchr(s, c) = '\0'`, if there is one. -/
def upTo (s : CStr) (c : UInt8) : CStr where
  bytes := s.bytes.takeWhile (· ≠ c)
  nulFree h := s.nulFree ((List.takeWhile_sublist _).mem h)

instance : Append CStr where
  append s t := {
    bytes := s.bytes ++ t.bytes
    nulFree := fun h => (List.mem_append.1 h).elim s.nulFree t.nulFree }

/-- `strcmp(s + strlen(s) - strlen(t), t) == 0`. -/
def endsWith (s t : CStr) : Bool := t.bytes.isSuffixOf s.bytes

@[simp] theorem append_bytes (s t : CStr) : (s ++ t).bytes = s.bytes ++ t.bytes := rfl

@[simp] theorem cut_bytes (s : CStr) (n : Nat) : (s.cut n).bytes = s.bytes.take n := rfl

theorem cut_eq_self {s : CStr} {n : Nat} (h : s.length ≤ n) : s.cut n = s :=
  CStr.ext (List.take_of_length_le h)

theorem length_cut_le (s : CStr) (n : Nat) : (s.cut n).length ≤ n := by
  simp [length, List.length_take]

theorem ne_zero_of_mem {s : CStr} {b : UInt8} (h : b ∈ s.bytes) : b ≠ 0 := by
  rintro rfl
  exact s.nulFree h

end CStr

end CLib
