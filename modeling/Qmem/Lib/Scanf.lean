import Qmem.Lib.Strto
import Mathlib.Data.List.DropRight

/-!
# `sscanf`

A format is a list of directives. They are followed one after the other until one fails, and what
has been converted until then is the result. Every conversion but `%c` skips white space first; a
number ends with its last digit, and a word with the white space behind it.
-/

namespace CLib

/-! ## Reading up to a stop -/

/-- What comes next does not belong to it any more. -/
def Stops (p : UInt8 → Bool) (rest : Bytes) : Prop := ∀ c ∈ rest.head?, p c = false

theorem stops_nil (p : UInt8 → Bool) : Stops p [] := fun c hc => absurd hc (Option.not_mem_none c)

theorem stops_cons {p : UInt8 → Bool} {c : UInt8} (h : p c = false) (rest : Bytes) :
    Stops p (c :: rest) := by
  intro b hb
  rw [← Option.some.inj hb]
  exact h

theorem takeWhile_stops {p : UInt8 → Bool} {front rest : Bytes} (hfront : ∀ c ∈ front, p c = true)
    (hrest : Stops p rest) : (front ++ rest).takeWhile p = front := by
  rw [List.takeWhile_append_of_pos hfront]
  cases rest with
  | nil => rw [List.takeWhile_nil, List.append_nil]
  | cons c rest =>
    rw [List.takeWhile_cons_of_neg (by simpa using hrest c rfl), List.append_nil]

theorem dropWhile_stops {p : UInt8 → Bool} {front rest : Bytes} (hfront : ∀ c ∈ front, p c = true)
    (hrest : Stops p rest) : (front ++ rest).dropWhile p = rest := by
  rw [List.dropWhile_append_of_pos hfront]
  cases rest with
  | nil => rfl
  | cons c rest => exact List.dropWhile_cons_of_neg (by simpa using hrest c rfl)

/-- Bytes of one kind, at least one. -/
structure Token (p : UInt8 → Bool) where
  bytes : Bytes
  ne_nil : bytes ≠ []
  all : ∀ c ∈ bytes, p c = true

theorem Token.head {p : UInt8 → Bool} (t : Token p) (rest : Bytes) :
    ∃ c, (t.bytes ++ rest).head? = some c ∧ p c = true := by
  cases hbytes : t.bytes with
  | nil => exact absurd hbytes t.ne_nil
  | cons c cs => exact ⟨c, rfl, t.all c (by rw [hbytes]; exact List.mem_cons_self)⟩

/-- A token of another kind. -/
theorem Token.stops {p q : UInt8 → Bool} (t : Token p) (hpq : ∀ c, p c = true → q c = false)
    (rest : Bytes) : Stops q (t.bytes ++ rest) := by
  obtain ⟨c, hhead, hc⟩ := t.head rest
  intro c' hc'
  rw [hhead] at hc'
  rw [← Option.some.inj hc']
  exact hpq c hc

/-! ## Directives -/

/-- A directive: white space, another character that has to match, or a conversion. -/
inductive Directive where
  | blank
  | char (c : UInt8)
  | string (width : Nat)
  | signed
  | unsigned
  | hex

/-- What has been converted; a number is a `long`, to be cut to the type it is stored in. -/
inductive Scanned where
  | text (bytes : Bytes)
  | signed (n : Int64)
  | unsigned (n : UInt64)

/-- Nonspaces. -/
def isWordChar (c : UInt8) : Bool := !isspace c

/-- `isxdigit`. -/
def isHexDigit (c : UInt8) : Bool := (Json.hexVal c).isSome

def hexValue (digits : Bytes) : Nat :=
  digits.foldl (fun n d => 16 * n + (Json.hexVal d).getD 0) 0

def isSign (c : UInt8) : Bool := c == 0x2d || c == 0x2b

/-- What follows the sign, if there is one. -/
def afterSign (s : Bytes) : Bytes := if (s.head?.map isSign).getD false then s.tail else s

/-- Does a hexadecimal number start with 0x here? -/
def hasHexMark (s : Bytes) : Bool :=
  s.head? == some 0x30 && (s.tail.head? == some 0x78 || s.tail.head? == some 0x58)

def Directive.scan : Directive → Bytes → Option (List Scanned × Bytes)
  | .blank, s => some ([], s.dropWhile isspace)
  | .char c, s => if s.head? = some c then some ([], s.tail) else none
  | .string width, s =>
    let s := s.dropWhile isspace
    let word := (s.takeWhile isWordChar).take width
    if word = [] then none else some ([.text word], s.drop word.length)
  | .signed, s =>
    let s := s.dropWhile isspace
    if (afterSign s).takeWhile Json.isDigit = [] then none
    else some ([.signed (strtoll s)], (afterSign s).dropWhile Json.isDigit)
  | .unsigned, s =>
    let s := s.dropWhile isspace
    if (afterSign s).takeWhile Json.isDigit = [] then none
    else some ([.unsigned (strtoul s)], (afterSign s).dropWhile Json.isDigit)
  | .hex, s =>
    let s := s.dropWhile isspace
    let digits := afterSign s
    let marked := hasHexMark digits
    let digits := if marked then digits.drop 2 else digits
    if ¬ marked ∧ digits.takeWhile isHexDigit = [] then none
    else
      some ([.unsigned (ulong (s.head? = some 0x2d) (hexValue (digits.takeWhile isHexDigit)))],
        digits.dropWhile isHexDigit)

/-- `sscanf`: the converted values. -/
def sscanf : List Directive → Bytes → List Scanned
  | [], _ => []
  | d :: ds, s =>
    match d.scan s with
    | none => []
    | some (values, rest) => values ++ sscanf ds rest

theorem sscanf_cons {d : Directive} {s rest : Bytes} {values : List Scanned}
    (h : d.scan s = some (values, rest)) (ds : List Directive) :
    sscanf (d :: ds) s = values ++ sscanf ds rest := by
  rw [sscanf, h]

/-! ## What is read back -/

/-- What holds of 256 numbers holds of every byte. -/
theorem forall_byte {P : UInt8 → Prop} (h : ∀ n : Fin 256, P (.ofNat n)) (c : UInt8) : P c := by
  have hc := h ⟨c.toNat, c.toNat_lt⟩
  rwa [UInt8.ofNat_toNat] at hc

theorem isspace_of_isWordChar (c : UInt8) (h : isWordChar c = true) : isspace c = false := by
  simpa [isWordChar] using h

theorem isspace_of_isDigit : ∀ c, Json.isDigit c = true → isspace c = false :=
  forall_byte (by decide +kernel)

theorem isSign_of_isDigit : ∀ c, Json.isDigit c = true → isSign c = false :=
  forall_byte (by decide +kernel)

theorem isspace_of_isHexDigit : ∀ c, isHexDigit c = true → isspace c = false :=
  forall_byte (by decide +kernel)

theorem isSign_of_isHexDigit : ∀ c, isHexDigit c = true → isSign c = false :=
  forall_byte (by decide +kernel)

theorem afterSign_eq {s : Bytes} (h : Stops isSign s) : afterSign s = s := by
  cases s with
  | nil => rfl
  | cons c s => exact if_neg (by simpa using h c rfl)

theorem head_ne_minus {s : Bytes} (h : Stops isSign s) : s.head? ≠ some 0x2d := by
  intro hminus
  have hsign := h 0x2d hminus
  exact absurd hsign (by decide)

theorem head_ne_plus {s : Bytes} (h : Stops isSign s) : s.head? ≠ some 0x2b := by
  intro hplus
  have hsign := h 0x2b hplus
  exact absurd hsign (by decide)

theorem strtoul_digits (digits : Token Json.isDigit) {rest : Bytes}
    (hrest : Stops Json.isDigit rest) :
    strtoul (digits.bytes ++ rest) = ulong false (Json.natValue digits.bytes) := by
  have hspace : Stops isspace (digits.bytes ++ rest) := digits.stops isspace_of_isDigit rest
  have hskip : (digits.bytes ++ rest).dropWhile isspace = digits.bytes ++ rest :=
    dropWhile_stops (fun c hc => absurd hc List.not_mem_nil) hspace
  have hstops := digits.stops isSign_of_isDigit rest
  simp only [strtoul, hskip, head_ne_minus hstops, head_ne_plus hstops, or_self, if_false,
    decide_false, takeWhile_stops digits.all hrest]

/-- What may follow a hexadecimal number: not an x either, which would make 0x of a 0. -/
def hexGoesOn (c : UInt8) : Bool := isHexDigit c || c == 0x78 || c == 0x58

theorem hasHexMark_eq {digits : Token isHexDigit} {rest : Bytes} (h : Stops hexGoesOn rest) :
    hasHexMark (digits.bytes ++ rest) = false := by
  have hnot {c : UInt8} (hc : c = 0x78 ∨ c = 0x58) : isHexDigit c = false := by
    rcases hc with rfl | rfl <;> decide
  cases hbytes : digits.bytes with
  | nil => exact absurd hbytes digits.ne_nil
  | cons c cs =>
    have hsecond : ∀ d ∈ (cs ++ rest).head?, d ≠ 0x78 ∧ d ≠ 0x58 := by
      intro d hd
      cases cs with
      | nil =>
        have hstop := h d hd
        rw [hexGoesOn, Bool.or_assoc, Bool.or_eq_false_iff] at hstop
        simpa using hstop.2
      | cons e cs =>
        have he : isHexDigit d = true := by
          rw [← Option.some.inj hd]
          exact digits.all e (by simp [hbytes])
        exact ⟨fun heq => by simp [hnot (.inl heq)] at he,
          fun heq => by simp [hnot (.inr heq)] at he⟩
    rw [List.cons_append, hasHexMark, List.tail_cons]
    cases hhead : (cs ++ rest).head? with
    | none => simp
    | some d =>
      obtain ⟨hx, hX⟩ := hsecond d hhead
      simp [hx, hX]

section

variable {gap rest : Bytes} (hgap : ∀ c ∈ gap, isspace c = true)

theorem scan_char (c : UInt8) (rest : Bytes) :
    (Directive.char c).scan (c :: rest) = some ([], rest) := if_pos rfl

include hgap

theorem scan_blank (hrest : Stops isspace rest) :
    Directive.blank.scan (gap ++ rest) = some ([], rest) := by
  rw [Directive.scan, dropWhile_stops hgap hrest]

/-- A word that is not too long. -/
theorem scan_string {p : UInt8 → Bool} (word : Token p) (hp : ∀ c, p c = true → isWordChar c = true)
    {width : Nat} (hwidth : word.bytes.length ≤ width) (hrest : Stops isWordChar rest) :
    (Directive.string width).scan (gap ++ (word.bytes ++ rest)) =
      some ([.text word.bytes], rest) := by
  have hskip := dropWhile_stops hgap
    (word.stops (fun c hc => isspace_of_isWordChar c (hp c hc)) rest)
  have hword : ∀ c ∈ word.bytes, isWordChar c = true := fun c hc => hp c (word.all c hc)
  simp only [Directive.scan, hskip, takeWhile_stops hword hrest,
    List.take_of_length_le hwidth, if_neg word.ne_nil, List.drop_left]

/-- A decimal number. -/
theorem scan_unsigned (digits : Token Json.isDigit) (hrest : Stops Json.isDigit rest) :
    Directive.unsigned.scan (gap ++ (digits.bytes ++ rest)) =
      some ([.unsigned (ulong false (Json.natValue digits.bytes))], rest) := by
  have hskip := dropWhile_stops hgap (digits.stops isspace_of_isDigit rest)
  have hstops := digits.stops isSign_of_isDigit rest
  simp only [Directive.scan, hskip, afterSign_eq hstops, takeWhile_stops digits.all hrest,
    dropWhile_stops digits.all hrest, if_neg digits.ne_nil, strtoul_digits digits hrest]

/-- A hexadecimal number without a mark. -/
theorem scan_hex (digits : Token isHexDigit) (hrest : Stops hexGoesOn rest) :
    Directive.hex.scan (gap ++ (digits.bytes ++ rest)) =
      some ([.unsigned (ulong false (hexValue digits.bytes))], rest) := by
  have hskip := dropWhile_stops hgap (digits.stops isspace_of_isHexDigit rest)
  have hstops := digits.stops isSign_of_isHexDigit rest
  have hend : Stops isHexDigit rest := fun c hc => by
    have hstop := hrest c hc
    rw [hexGoesOn, Bool.or_assoc, Bool.or_eq_false_iff] at hstop
    exact hstop.1
  have hplus : ((digits.bytes ++ rest).head? = some 0x2d) = False :=
    eq_false (head_ne_minus hstops)
  simp only [Directive.scan, hskip, afterSign_eq hstops, hasHexMark_eq hrest, hplus,
    takeWhile_stops digits.all hend, dropWhile_stops digits.all hend, digits.ne_nil,
    Bool.false_eq_true, if_false, decide_false, and_false]

end

/-! ## Fields, as a format asks for them -/

section

variable {gap rest : Bytes} (hgap : ∀ c ∈ gap, isspace c = true) (ds : List Directive)

theorem no_gap : ∀ c ∈ ([] : Bytes), isspace c = true := fun _ hc => absurd hc List.not_mem_nil

include hgap

theorem sscanf_string {p : UInt8 → Bool} (word : Token p)
    (hp : ∀ c, p c = true → isWordChar c = true) {width : Nat}
    (hwidth : word.bytes.length ≤ width) (hrest : Stops isWordChar rest) :
    sscanf (.blank :: .string width :: ds) (gap ++ (word.bytes ++ rest)) =
      .text word.bytes :: sscanf ds rest := by
  have hspace := word.stops (fun c hc => isspace_of_isWordChar c (hp c hc)) rest
  have hword : (Directive.string width).scan (word.bytes ++ rest) =
      some ([.text word.bytes], rest) := scan_string no_gap word hp hwidth hrest
  rw [sscanf_cons (scan_blank hgap hspace), List.nil_append, sscanf_cons hword,
    List.singleton_append]

theorem sscanf_unsigned (digits : Token Json.isDigit) (hrest : Stops Json.isDigit rest) :
    sscanf (.blank :: .unsigned :: ds) (gap ++ (digits.bytes ++ rest)) =
      .unsigned (ulong false (Json.natValue digits.bytes)) :: sscanf ds rest := by
  have hnumber : Directive.unsigned.scan (digits.bytes ++ rest) =
      some ([.unsigned (ulong false (Json.natValue digits.bytes))], rest) :=
    scan_unsigned no_gap digits hrest
  rw [sscanf_cons (scan_blank hgap (digits.stops isspace_of_isDigit rest)), List.nil_append,
    sscanf_cons hnumber, List.singleton_append]

theorem sscanf_hex (digits : Token isHexDigit) (hrest : Stops hexGoesOn rest) :
    sscanf (.blank :: .hex :: ds) (gap ++ (digits.bytes ++ rest)) =
      .unsigned (ulong false (hexValue digits.bytes)) :: sscanf ds rest := by
  have hnumber : Directive.hex.scan (digits.bytes ++ rest) =
      some ([.unsigned (ulong false (hexValue digits.bytes))], rest) :=
    scan_hex no_gap digits hrest
  rw [sscanf_cons (scan_blank hgap (digits.stops isspace_of_isHexDigit rest)), List.nil_append,
    sscanf_cons hnumber, List.singleton_append]

omit hgap in
/-- A number right behind the character before it. -/
theorem sscanf_char_hex (c : UInt8) (digits : Token isHexDigit) (hrest : Stops hexGoesOn rest) :
    sscanf (.char c :: .hex :: ds) (c :: (digits.bytes ++ rest)) =
      .unsigned (ulong false (hexValue digits.bytes)) :: sscanf ds rest := by
  have hnumber : Directive.hex.scan (digits.bytes ++ rest) =
      some ([.unsigned (ulong false (hexValue digits.bytes))], rest) :=
    scan_hex no_gap digits hrest
  rw [sscanf_cons (scan_char c _), List.nil_append, sscanf_cons hnumber, List.singleton_append]

end

/-! ## Words of a text that is cut -/

section

variable (width : Nat) (s : Bytes)

/-- What `%s` reads. -/
def word : Bytes := ((s.dropWhile isspace).takeWhile isWordChar).take width

/-- What it leaves. -/
def afterWord : Bytes := (s.dropWhile isspace).drop (word width s).length

theorem scan_word : (Directive.string width).scan s =
    if word width s = [] then none else some ([.text (word width s)], afterWord width s) := rfl

theorem sscanf_word (ds : List Directive) : sscanf (.string width :: ds) s =
    if word width s = [] then [] else .text (word width s) :: sscanf ds (afterWord width s) := by
  rw [sscanf, scan_word]
  by_cases hnone : word width s = []
  · rw [if_pos hnone, if_pos hnone]
  · rw [if_neg hnone, if_neg hnone]
    rfl

theorem word_skip : word width (s.dropWhile isspace) = word width s := by
  rw [word, word, List.dropWhile_idempotent]

theorem mem_of_mem_word {width : Nat} {s : Bytes} {c : UInt8} (h : c ∈ word width s) : c ∈ s :=
  (List.dropWhile_sublist _).mem ((List.takeWhile_sublist _).mem (List.mem_of_mem_take h))

theorem dropWhile_take {α : Type} (p : α → Bool) (xs : List α) (n : Nat) :
    (xs.take n).dropWhile p = (xs.dropWhile p).take (n - (xs.takeWhile p).length) := by
  induction xs generalizing n with
  | nil => simp
  | cons x xs ih =>
    cases n with
    | zero => simp
    | succ n =>
      rw [List.take_succ_cons, List.dropWhile_cons, List.dropWhile_cons, List.takeWhile_cons]
      by_cases hx : p x = true
      · rw [if_pos hx, if_pos hx, if_pos hx, ih, List.length_cons, Nat.succ_sub_succ]
      · simp [hx]

/-- Of a text that is cut, the word is cut. -/
theorem word_take (n : Nat) :
    word width (s.take n) = (word width s).take (n - (s.takeWhile isspace).length) := by
  rw [word, word, dropWhile_take, ← List.take_takeWhile, List.take_take, List.take_take,
    Nat.min_comm]

theorem afterWord_take (n : Nat) :
    afterWord width (s.take n) =
      (afterWord width s).take (n - (s.takeWhile isspace).length - (word width s).length) := by
  rw [afterWord, afterWord, word_take, dropWhile_take, List.length_take, List.drop_take]
  rcases Nat.le_total (n - (s.takeWhile isspace).length) (word width s).length with hle | hle
  · simp [Nat.min_eq_left hle, Nat.sub_eq_zero_of_le hle]
  · rw [Nat.min_eq_right hle]

end

/-! ## Numbers that are not scanned -/

/-- A number as it is written. -/
def natToken (n : Nat) : Token Json.isDigit := ⟨decNat n, decNat_ne_nil n, Json.decNat_all_digit n⟩

/-- Where `strtoul(s, &end, 10)` leaves `end`. -/
def strtoulEnd (s : Bytes) : Bytes :=
  let digits := afterSign (s.dropWhile isspace)
  if digits.takeWhile Json.isDigit = [] then s else digits.dropWhile Json.isDigit

theorem strtoulEnd_digits (digits : Token Json.isDigit) {rest : Bytes}
    (hrest : Stops Json.isDigit rest) : strtoulEnd (digits.bytes ++ rest) = rest := by
  have hskip : (digits.bytes ++ rest).dropWhile isspace = digits.bytes ++ rest :=
    dropWhile_stops no_gap (digits.stops isspace_of_isDigit rest)
  simp only [strtoulEnd, hskip, afterSign_eq (digits.stops isSign_of_isDigit rest),
    takeWhile_stops digits.all hrest, if_neg digits.ne_nil, dropWhile_stops digits.all hrest]

/-- A number that is not negative is read, or else the largest there is. -/
theorem strtoll_digits (digits : Token Json.isDigit) {rest : Bytes}
    (hrest : Stops Json.isDigit rest) :
    strtoll (digits.bytes ++ rest) =
      .ofInt (max (-2 ^ 63) (min (2 ^ 63 - 1) (Json.natValue digits.bytes))) := by
  have hskip : (digits.bytes ++ rest).dropWhile isspace = digits.bytes ++ rest :=
    dropWhile_stops no_gap (digits.stops isspace_of_isDigit rest)
  have hstops := digits.stops isSign_of_isDigit rest
  simp only [strtoll, hskip, head_ne_minus hstops, head_ne_plus hstops, or_self, if_false,
    takeWhile_stops digits.all hrest]

theorem strtoll_fits (digits : Token Json.isDigit) {rest : Bytes} (hrest : Stops Json.isDigit rest)
    (hfits : Json.natValue digits.bytes < 2 ^ 63) :
    strtoll (digits.bytes ++ rest) = .ofNat (Json.natValue digits.bytes) := by
  have hread := strtoll_digits digits hrest
  rw [show max (-2 ^ 63) (min (2 ^ 63 - 1) (Json.natValue digits.bytes : Int)) =
    Json.natValue digits.bytes by omega] at hread
  exact hread

/-- A decimal number without a sign, where a signed one is asked for. -/
theorem sscanf_signed {gap rest : Bytes} (hgap : ∀ c ∈ gap, isspace c = true)
    (ds : List Directive) (digits : Token Json.isDigit) (hrest : Stops Json.isDigit rest)
    (hfits : Json.natValue digits.bytes < 2 ^ 63) :
    sscanf (.blank :: .signed :: ds) (gap ++ (digits.bytes ++ rest)) =
      .signed (.ofNat (Json.natValue digits.bytes)) :: sscanf ds rest := by
  have hspace := digits.stops isspace_of_isDigit rest
  have hskip : (digits.bytes ++ rest).dropWhile isspace = digits.bytes ++ rest :=
    dropWhile_stops no_gap hspace
  have hnumber : Directive.signed.scan (digits.bytes ++ rest) =
      some ([.signed (.ofNat (Json.natValue digits.bytes))], rest) := by
    simp only [Directive.scan, hskip, afterSign_eq (digits.stops isSign_of_isDigit rest),
      takeWhile_stops digits.all hrest, dropWhile_stops digits.all hrest, if_neg digits.ne_nil,
      strtoll_fits digits hrest hfits]
  rw [sscanf_cons (scan_blank hgap hspace), List.nil_append, sscanf_cons hnumber,
    List.singleton_append]

theorem strtoll_skip {gap : Bytes} (hgap : ∀ c ∈ gap, isspace c = true) (s : Bytes) :
    strtoll (gap ++ s) = strtoll s := by
  rw [strtoll, strtoll, List.dropWhile_append_of_pos hgap]

theorem Token.not_mem {p : UInt8 → Bool} (t : Token p) {c : UInt8} (h : p c = false) :
    c ∉ t.bytes := fun hc => by simp [t.all c hc] at h

end CLib
