import Qmem.Lib.JsonDoc

/-!
# HTTP/1.1 messages

What a client makes of the bytes that it receives: a status line, fields up to an empty line, and a
body whose length a field gives. `read_text` reads a message back and leaves what comes behind it.
-/

namespace HttpMessage

open CLib

def crlf : Bytes := [0x0d, 0x0a]

/-! ## Lines -/

/-- The line that a text begins with, and what is behind its end. -/
def cutLine : Bytes → Option (Bytes × Bytes)
  | [] => none
  | c :: s =>
    if crlf <+: c :: s then some ([], s.tail)
    else (cutLine s).map (Prod.map (c :: ·) id)

theorem cutLine_append {line : Bytes} (h : 0x0d ∉ line) (rest : Bytes) :
    cutLine (line ++ (crlf ++ rest)) = some (line, rest) := by
  induction line with
  | nil => rfl
  | cons c line ih =>
    rw [List.mem_cons, not_or] at h
    have hc : ¬ crlf <+: c :: (line ++ (crlf ++ rest)) := by
      intro hprefix
      exact h.1 (List.cons_prefix_cons.1 hprefix).1
    rw [List.cons_append, cutLine, if_neg hc, ih h.2]
    rfl

/-! ## Fields -/

def isBlank (c : UInt8) : Bool := c = 0x20 || c = 0x09

/-- A text without the blanks around it. -/
def trim (s : Bytes) : Bytes := ((s.dropWhile isBlank).reverse.dropWhile isBlank).reverse

structure Field where
  name : Bytes
  value : Bytes
deriving DecidableEq

def Field.text (f : Field) : Bytes := f.name ++ (0x3a :: 0x20 :: f.value)

/-- The line of a field: a name, a colon and a value with blanks around it, perhaps. -/
def readField (line : Bytes) : Option Field :=
  let name := line.takeWhile (· ≠ 0x3a)
  if name = [] ∨ name.any isBlank = true ∨ name.length = line.length then none
  else some { name := name, value := trim (line.drop (name.length + 1)) }

/-- A value with no line end in it and no blanks around it. -/
def IsValue (value : Bytes) : Prop := 0x0d ∉ value ∧ trim value = value

instance (value : Bytes) : Decidable (IsValue value) := inferInstanceAs (Decidable (_ ∧ _))

/-- A name that is read as one. -/
def IsName (name : Bytes) : Prop :=
  name ≠ [] ∧ name.any isBlank = false ∧ 0x3a ∉ name ∧ 0x0d ∉ name

instance (name : Bytes) : Decidable (IsName name) :=
  inferInstanceAs (Decidable (_ ∧ _ ∧ _ ∧ _))

structure Field.Valid (f : Field) : Prop where
  name : IsName f.name
  value : IsValue f.value

theorem Field.Valid.line {f : Field} (h : f.Valid) : 0x0d ∉ f.text := by
  have hname := h.name.2.2.2
  have hvalue := h.value.1
  simp [Field.text, hname, hvalue]

theorem readField_text {f : Field} (h : f.Valid) : readField f.text = some f := by
  obtain ⟨hne, hblanks, hcolons, -⟩ := h.name
  have hname : f.text.takeWhile (· ≠ 0x3a) = f.name := by
    have hall : ∀ c ∈ f.name, decide (c ≠ 0x3a) = true := by
      intro c hc
      have hne : c ≠ 0x3a := by
        rintro rfl
        exact hcolons hc
      simpa using hne
    rw [Field.text, List.takeWhile_append_of_pos hall]
    simp
  have hlength : ¬ f.name.length = f.text.length := by simp [Field.text]
  have hdrop : f.text.drop (f.name.length + 1) = 0x20 :: f.value := by
    simp [Field.text, List.drop_append]
  have htrim : trim (0x20 :: f.value) = f.value := h.value.2
  rw [readField, hname, if_neg (by simp [hne, hblanks, hlength]), hdrop, htrim]

/-- The fields up to the empty line, and what is behind it. There are no more than `n` lines. -/
def readFields : Nat → Bytes → Option (List Field × Bytes)
  | 0, _ => none
  | n + 1, s =>
    match cutLine s with
    | none => none
    | some ([], rest) => some ([], rest)
    | some (c :: line, rest) =>
      match readField (c :: line) with
      | none => none
      | some f => (readFields n rest).map (Prod.map (f :: ·) id)

def fieldsText (fields : List Field) : Bytes := fields.flatMap fun f => f.text ++ crlf

/-- There are fewer fields than bytes. -/
theorem length_le_fieldsText (fields : List Field) : fields.length ≤ (fieldsText fields).length := by
  induction fields with
  | nil => exact Nat.le_refl _
  | cons f fields ih =>
    have hsplit : fieldsText (f :: fields) = f.text ++ crlf ++ fieldsText fields := rfl
    rw [hsplit, List.length_append, List.length_cons]
    have hend : (f.text ++ crlf).length = f.text.length + 2 := by simp [crlf]
    omega

theorem readFields_text {fields : List Field} (h : ∀ f ∈ fields, f.Valid) {n : Nat}
    (hn : fields.length < n) (rest : Bytes) :
    readFields n (fieldsText fields ++ (crlf ++ rest)) = some (fields, rest) := by
  induction fields generalizing n with
  | nil =>
    obtain ⟨n, rfl⟩ := Nat.exists_eq_succ_of_ne_zero (Nat.ne_of_gt hn)
    rfl
  | cons f fields ih =>
    obtain ⟨n, rfl⟩ := Nat.exists_eq_succ_of_ne_zero (Nat.ne_of_gt (Nat.zero_lt_of_lt hn))
    have hf := h f (by simp)
    obtain ⟨c, line, hline⟩ := List.exists_cons_of_ne_nil
      (show f.text ≠ [] by simp [Field.text])
    have hcut : cutLine (fieldsText (f :: fields) ++ (crlf ++ rest)) =
        some (c :: line, fieldsText fields ++ (crlf ++ rest)) := by
      rw [← hline, ← cutLine_append hf.line]
      simp [fieldsText]
    have hrest := ih (fun g hg => h g (List.mem_cons_of_mem _ hg)) (Nat.lt_of_succ_lt_succ hn)
    rw [readFields, hcut]
    simp only [← hline, readField_text hf, hrest]
    rfl

/-! ## Messages -/

/-- A letter of a name, which may be written in either case. -/
def lower (c : UInt8) : UInt8 := if 0x41 ≤ c ∧ c ≤ 0x5a then c + 0x20 else c

/-- The value of a field. -/
def lookup (name : CStr) (fields : List Field) : Option Bytes :=
  (fields.find? fun f => f.name.map lower = name.bytes.map lower).map Field.value

structure Message where
  status : Nat
  reason : Bytes
  fields : List Field
  body : Bytes
deriving DecidableEq

def version : CStr := .lit "HTTP/1.1 "

/-- The status and the reason of a status line. -/
def readStatus (line : Bytes) : Option (Nat × Bytes) :=
  if version.bytes <+: line ∧ (line.drop 12).head? = some 0x20 then
    (Json.digits ((line.drop 9).take 3)).map fun status => (status, line.drop 13)
  else none

/-- The message that a text begins with, and what is behind it. -/
def read (s : Bytes) : Option (Message × Bytes) := do
  let (line, s) ← cutLine s
  let (status, reason) ← readStatus line
  let (fields, s) ← readFields s.length s
  let length ← (lookup (.lit "Content-Length") fields).bind Json.digits
  if length ≤ s.length then
    some ({ status := status, reason := reason, fields := fields, body := s.take length },
      s.drop length)
  else none

def Message.statusLine (m : Message) : Bytes :=
  version.bytes ++ (decNat m.status ++ 0x20 :: m.reason)

def Message.text (m : Message) : Bytes :=
  m.statusLine ++ (crlf ++ (fieldsText m.fields ++ (crlf ++ m.body)))

/-- A message whose length is in a field. -/
structure Message.Valid (m : Message) : Prop where
  status : 100 ≤ m.status ∧ m.status < 1000
  reason : 0x0d ∉ m.reason
  fields : ∀ f ∈ m.fields, f.Valid
  length : lookup (.lit "Content-Length") m.fields = some (decNat m.body.length)

theorem digits_decNat (n : Nat) : Json.digits (decNat n) = some n := by
  have hall : (decNat n).all Json.isDigit = true := List.all_eq_true.2 (Json.decNat_all_digit n)
  rw [Json.digits, if_pos ⟨decNat_ne_nil n, hall⟩, Json.natValue_decNat]

theorem length_decNat {n : Nat} (h : 100 ≤ n ∧ n < 1000) : (decNat n).length = 3 := by
  have hle := Json.decNat_length_le (k := 3) (by decide) h.2
  have hgt : ¬ (decNat n).length ≤ 2 := by
    rw [decNat, List.length_map, Nat.length_toDigits_le_iff (by decide) (by decide)]
    omega
  omega

theorem readStatus_text {m : Message} (h : m.Valid) :
    readStatus m.statusLine = some (m.status, m.reason) := by
  have hlength := length_decNat h.status
  have hversion : version.bytes.length = 9 := rfl
  have hdigits : m.statusLine.drop 9 = decNat m.status ++ 0x20 :: m.reason := by
    rw [Message.statusLine, ← hversion, List.drop_left]
  have hblank : m.statusLine.drop 12 = 0x20 :: m.reason := by
    rw [show 12 = 9 + 3 from rfl, ← List.drop_drop, hdigits, ← hlength, List.drop_left]
  have hreason : m.statusLine.drop 13 = m.reason := by
    rw [show 13 = 12 + 1 from rfl, ← List.drop_drop, hblank]
    rfl
  have hstart : version.bytes <+: m.statusLine := List.prefix_append _ _
  rw [readStatus, if_pos ⟨hstart, by rw [hblank]; rfl⟩, hdigits, hreason, ← hlength,
    List.take_left, digits_decNat]
  rfl

theorem statusLine_line {m : Message} (h : m.Valid) : 0x0d ∉ m.statusLine := by
  have hversion : 0x0d ∉ version.bytes := by decide
  have hstatus : 0x0d ∉ decNat m.status := by
    intro hc
    exact absurd (Json.decNat_all_digit _ _ hc) (by decide)
  have hreason := h.reason
  simp [Message.statusLine, hversion, hstatus, hreason]

/-- A message is read back, whatever comes behind it. -/
theorem read_text {m : Message} (h : m.Valid) (rest : Bytes) :
    read (m.text ++ rest) = some (m, rest) := by
  have hassoc : m.text ++ rest =
      m.statusLine ++ (crlf ++ (fieldsText m.fields ++ (crlf ++ (m.body ++ rest)))) := by
    simp [Message.text]
  have hcount : m.fields.length <
      (fieldsText m.fields ++ (crlf ++ (m.body ++ rest))).length := by
    have hle := length_le_fieldsText m.fields
    simp [crlf]
    omega
  rw [hassoc, read, cutLine_append (statusLine_line h)]
  simp only [Option.bind_eq_bind, Option.bind_some, readStatus_text h,
    readFields_text h.fields hcount, h.length, digits_decNat]
  rw [if_pos (by simp), List.take_left, List.drop_left]

end HttpMessage
