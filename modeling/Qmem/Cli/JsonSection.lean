import Qmem.Cli.ValueText
import Qmem.Lib.Strto

/-!
# One section of the snapshot (`cli/commands.c`)

`qmemctl status` with a service's name shows the value of that key as it stands in the text. The
end of an object or an array is found by counting its brackets, those in strings too, and one byte
more is shown. A number ends where a character is none that `isalnum` knows, no point and no minus
sign, which a plus sign is not.

Which of the builder's documents this is right for is the subject of `Cli.SectionShown`.
-/

namespace Qmem

open CLib

/-! ## The command -/

def isalnum (c : UInt8) : Bool :=
  (0x30 ≤ c && c ≤ 0x39) || (0x41 ≤ c && c ≤ 0x5a) || (0x61 ≤ c && c ≤ 0x7a)

/-- The test of the loop over a number or a boolean. -/
def tokenChar (c : UInt8) : Bool := isalnum c || c == 0x2e || c == 0x2d

/-- The loop over an object or an array: what is left of the text. -/
def skipBrackets (opening closing : UInt8) : Nat → Bytes → Bytes
  | 0, s => s
  | _ + 1, [] => []
  | depth + 1, c :: s =>
    if c = opening then skipBrackets opening closing (depth + 2) s
    else if c = closing then skipBrackets opening closing depth s
    else skipBrackets opening closing (depth + 1) s

/-- The loop over a string. -/
def skipString : Bytes → Bytes
  | [] => []
  -- behind a backslash that is the last character the source would read past the end
  | [c] => if c = 0x22 then [c] else []
  | c :: d :: s =>
    if c = 0x22 then c :: d :: s
    else if c = 0x5c then skipString s
    else skipString (d :: s)

/-- The text from `end` on. -/
def sectionEnd (pos : Bytes) : Bytes :=
  if pos.head? = some 0x7b then (skipBrackets 0x7b 0x7d 1 pos.tail).tail
  else if pos.head? = some 0x5b then (skipBrackets 0x5b 0x5d 1 pos.tail).tail
  else if pos.head? = some 0x22 then (skipString pos.tail).tail
  else pos.dropWhile tokenChar

def sectionHeading (key : CStr) : Bytes :=
  (CStr.lit "\n\x1b[0;36m=== Status: ").bytes ++ key.bytes ++ (CStr.lit " ===\x1b[0m\n\n").bytes

/-- `print_json_section`: what it prints. -/
def printJsonSection (json : Bytes) (key : CStr) : Bytes :=
  match strstr json ((keyPattern key).take 127) with
  | none =>
    (CStr.lit "Service '").bytes ++ key.bytes ++
      (CStr.lit "' not found or disabled in snapshot.\n").bytes
  | some pos =>
    sectionHeading key ++
      match strchr pos 0x3a with
      | none => []
      | some pos =>
        let pos := pos.tail.dropWhile isspace
        pos.take (pos.length - (sectionEnd pos).length) ++ [0x0a]

/-! ## What is shown -/

theorem skipBrackets_suffix (opening closing : UInt8) (depth : Nat) (s : Bytes) :
    skipBrackets opening closing depth s <:+ s := by
  induction s generalizing depth with
  | nil => cases depth <;> exact List.suffix_refl _
  | cons c s ih =>
    cases depth with
    | zero => exact List.suffix_refl _
    | succ depth =>
      rw [skipBrackets]
      split_ifs
      all_goals exact (ih _).trans (List.suffix_cons c s)

theorem skipString_suffix (s : Bytes) : skipString s <:+ s := by
  induction s using skipString.induct with
  | case1 => exact List.suffix_refl _
  | case2 => simp [skipString]
  | case3 c hc =>
    rw [skipString, if_neg hc]
    exact List.nil_suffix
  | case4 => simp [skipString]
  | case5 d s hd ih =>
    rw [skipString, if_neg hd, if_pos rfl]
    exact ih.trans ((List.suffix_cons d s).trans (List.suffix_cons _ _))
  | case6 c d s hc hd ih =>
    rw [skipString, if_neg hc, if_neg hd]
    exact ih.trans (List.suffix_cons c _)

theorem sectionEnd_suffix (pos : Bytes) : sectionEnd pos <:+ pos := by
  have htail {s : Bytes} (h : s <:+ pos.tail) : s.tail <:+ pos :=
    (List.tail_suffix s).trans (h.trans (List.tail_suffix pos))
  rw [sectionEnd]
  split_ifs
  · exact htail (skipBrackets_suffix _ _ _ _)
  · exact htail (skipBrackets_suffix _ _ _ _)
  · exact htail (skipString_suffix _)
  · exact List.dropWhile_suffix _

/-- From the value on, where the command takes it to be. -/
def valueStart (json : Bytes) (key : CStr) : Option Bytes :=
  (strstr json ((keyPattern key).take 127)).bind fun pos =>
    (strchr pos 0x3a).map fun pos => pos.tail.dropWhile isspace

theorem take_of_suffix {front back s : Bytes} (h : front ++ back = s) :
    s.take (s.length - back.length) = front := by
  rw [← h, List.length_append, Nat.add_sub_cancel, List.take_left]

theorem printJsonSection_eq_iff (json : Bytes) (key : CStr) (value : Bytes) :
    printJsonSection json key = sectionHeading key ++ value ++ [0x0a] ↔
      ∃ rest, valueStart json key = some (value ++ rest) ∧ sectionEnd (value ++ rest) = rest := by
  rw [printJsonSection, valueStart]
  cases strstr json ((keyPattern key).take 127) with
  | none =>
    refine iff_of_false (fun h => ?_) (by simp)
    have hservice : (CStr.lit "Service '").bytes.head? = some 0x53 := by decide +kernel
    have hheading : (CStr.lit "\n\x1b[0;36m=== Status: ").bytes.head? = some 0x0a := by
      decide +kernel
    have hhead := congrArg List.head? h
    simp only [sectionHeading, List.append_assoc, List.head?_append, hservice, hheading,
      Option.some_or] at hhead
    cases hhead
  | some pos =>
    simp only [Option.bind_some, List.append_assoc, List.append_cancel_left_eq]
    cases strchr pos 0x3a with
    | none =>
      refine iff_of_false (fun h => ?_) (by simp)
      exact List.append_ne_nil_of_right_ne_nil value (List.cons_ne_nil 0x0a []) h.symm
    | some pos =>
      simp only [Option.map_some, Option.some_inj, List.append_cancel_right_eq]
      generalize pos.tail.dropWhile isspace = start
      obtain ⟨front, hfront⟩ := sectionEnd_suffix start
      rw [take_of_suffix hfront]
      constructor
      · rintro rfl
        exact ⟨sectionEnd start, hfront.symm, by rw [hfront]⟩
      · rintro ⟨rest, rfl, hend⟩
        rw [hend] at hfront
        exact List.append_cancel_right hfront

/-! ## Brackets -/

/-- The brackets of a text, when `depth` are open before it: no more are closed than are open, and
none is open behind it. -/
structure Closes (opening closing : UInt8) (depth : Nat) (s : Bytes) : Prop where
  count_eq : s.count closing = s.count opening + depth
  count_le : ∀ p, p <+: s → p.count closing ≤ p.count opening + depth

section

variable {opening closing : UInt8} {depth : Nat} {s : Bytes}

theorem closes_nil : Closes opening closing depth [] ↔ depth = 0 := by
  constructor
  · intro h
    simpa using h.count_eq.symm
  · rintro rfl
    exact ⟨rfl, fun p hp => by rw [List.prefix_nil.1 hp]; rfl⟩

theorem closes_cons (a : UInt8) :
    Closes opening closing depth (a :: s) ↔
      ∃ e, depth + (if a = opening then 1 else 0) = e + (if a = closing then 1 else 0) ∧
        Closes opening closing e s := by
  have hcount (c : UInt8) (s : Bytes) : (a :: s).count c = s.count c + if a = c then 1 else 0 := by
    simp [List.count_cons]
  constructor
  · rintro ⟨heq, hle⟩
    have hone := hle [a] ⟨s, rfl⟩
    simp only [hcount, List.count_nil] at heq hone
    refine ⟨depth + (if a = opening then 1 else 0) - (if a = closing then 1 else 0), by omega,
      by omega, fun p hp => ?_⟩
    have hp := hle (a :: p) (List.cons_prefix_cons.2 ⟨rfl, hp⟩)
    simp only [hcount] at hp
    omega
  · rintro ⟨e, he, heq, hle⟩
    refine ⟨by simp only [hcount]; omega, fun p hp => ?_⟩
    rcases List.prefix_cons_iff.1 hp with rfl | ⟨t, rfl, ht⟩
    · exact Nat.zero_le _
    · have ht := hle t ht
      simp only [hcount]
      omega

/-- The loop stops behind the bracket that closes the first one. -/
theorem skipBrackets_eq_iff (hne : opening ≠ closing) {x : UInt8} {r : Bytes} :
    skipBrackets opening closing (depth + 1) s = x :: r ↔
      ∃ u, s = u ++ closing :: x :: r ∧ Closes opening closing depth u := by
  induction s generalizing depth with
  | nil => simp [skipBrackets]
  | cons a s ih =>
    have hsplit : (∃ u, a :: s = u ++ closing :: x :: r ∧ Closes opening closing depth u) ↔
        (a = closing ∧ s = x :: r ∧ depth = 0) ∨
          ∃ e, depth + (if a = opening then 1 else 0) = e + (if a = closing then 1 else 0) ∧
            ∃ u, s = u ++ closing :: x :: r ∧ Closes opening closing e u := by
      constructor
      · rintro ⟨u, hu, hclose⟩
        cases u with
        | nil =>
          obtain ⟨ha, hs⟩ := List.cons.inj hu
          exact .inl ⟨ha, hs, closes_nil.1 hclose⟩
        | cons b u =>
          obtain ⟨rfl, hs⟩ := List.cons.inj hu
          obtain ⟨e, he, hclose⟩ := (closes_cons a).1 hclose
          exact .inr ⟨e, he, u, hs, hclose⟩
      · rintro (⟨rfl, rfl, rfl⟩ | ⟨e, he, u, rfl, hclose⟩)
        · exact ⟨[], rfl, closes_nil.2 rfl⟩
        · exact ⟨a :: u, rfl, (closes_cons a).2 ⟨e, he, hclose⟩⟩
    rw [hsplit, skipBrackets]
    by_cases hopen : a = opening
    · have hclosing : a ≠ closing := fun h => hne (hopen.symm.trans h)
      simp only [hopen, if_true, hne, if_false, ih, false_and, false_or, Nat.add_zero]
      simp
    · by_cases hclosing : a = closing
      · simp only [hclosing, hne.symm, if_true, if_false, true_and, Nat.add_zero]
        cases depth with
        | zero => simp [skipBrackets]
        | succ depth => simp [ih]
      · simp [hopen, hclosing, ih]

/-- The text behind the first bracket closes it one byte before its end. -/
def ClosesEarly (opening closing : UInt8) (s : Bytes) : Prop :=
  ∃ u x, s = u ++ [closing, x] ∧ Closes opening closing 0 u

theorem skipBrackets_tail_iff (hne : opening ≠ closing) {rest : Bytes} (hrest : rest ≠ []) :
    (skipBrackets opening closing 1 (s ++ rest)).tail = rest ↔ ClosesEarly opening closing s := by
  have hcons (t : Bytes) : t.tail = rest ↔ ∃ x, t = x :: rest := by
    cases t with
    | nil => simpa using hrest.symm
    | cons x t => simp
  rw [hcons]
  constructor
  · rintro ⟨x, hx⟩
    obtain ⟨u, hu, hclose⟩ := (skipBrackets_eq_iff hne).1 hx
    exact ⟨u, x, List.append_cancel_right (hu.trans (by simp)), hclose⟩
  · rintro ⟨u, x, rfl, hclose⟩
    exact ⟨x, (skipBrackets_eq_iff hne).2 ⟨u, by simp, hclose⟩⟩

end

/-! ## Strings -/

theorem skipString_cons {c : UInt8} (hquote : c ≠ 0x22) (hback : c ≠ 0x5c) (s : Bytes) :
    skipString (c :: s) = skipString s := by
  cases s with
  | nil => simp [skipString, hquote]
  | cons d s => rw [skipString, if_neg hquote, if_neg hback]

theorem skipString_backslash (d : UInt8) (s : Bytes) :
    skipString (0x5c :: d :: s) = skipString s := by
  rw [skipString, if_neg (by decide), if_pos rfl]

theorem skipString_quote (s : Bytes) : skipString (0x22 :: s) = 0x22 :: s := by
  cases s <;> rfl

theorem skipString_hex (c : UInt8) (s : Bytes) : skipString (escapeHex c ++ s) = skipString s := by
  have hdigit : ∀ n < 16, hexDigit n ≠ 0x22 ∧ hexDigit n ≠ 0x5c := by decide
  have hlt := c.toNat_lt
  have hhigh := hdigit (c.toNat / 16) (by omega)
  have hlow := hdigit (c.toNat % 16) (by omega)
  simp only [escapeHex, List.cons_append, List.nil_append, skipString_backslash]
  rw [skipString_cons (by decide) (by decide), skipString_cons (by decide) (by decide),
    skipString_cons hhigh.1 hhigh.2, skipString_cons hlow.1 hlow.2]

/-- The loop over a string stops at the quote that closes it. -/
theorem skipString_escaped (s rest : Bytes) :
    skipString (escaped s ++ 0x22 :: rest) = 0x22 :: rest := by
  induction s with
  | nil => exact skipString_quote rest
  | cons c s ih =>
    rw [escaped_cons, List.append_assoc]
    refine Eq.trans ?_ ih
    unfold escapeStringByte
    split_ifs with h₁ h₂ h₃ h₄ h₅ h₆
    iterate 5 exact skipString_backslash _ _
    · exact skipString_hex c _
    · exact skipString_cons h₁ h₂ _

theorem skipString_escapedKey (s rest : Bytes) :
    skipString (escapedKey s ++ 0x22 :: rest) = 0x22 :: rest := by
  induction s with
  | nil => exact skipString_quote rest
  | cons c s ih =>
    rw [escapedKey_cons, List.append_assoc]
    refine Eq.trans ?_ ih
    rcases escapeKeyByte_cases c with ⟨hesc, hquote, hback⟩ | ⟨-, hesc⟩ | ⟨d, hesc, -⟩
    · rw [hesc]
      exact skipString_cons hquote hback _
    · rw [hesc]
      exact skipString_backslash _ _
    · rw [hesc]
      exact skipString_backslash _ _

/-- What the loop skips is the same when all of the text is. -/
theorem skipped_unique {body body' r r' : Bytes}
    (h : skipString (body ++ 0x22 :: r) = 0x22 :: r)
    (h' : skipString (body' ++ 0x22 :: r') = 0x22 :: r')
    (heq : body ++ 0x22 :: r = body' ++ 0x22 :: r') : body = body' ∧ r = r' := by
  have hr : 0x22 :: r = 0x22 :: r' := by rw [← h, heq, h']
  obtain rfl := (List.cons.inj hr).2
  exact ⟨List.append_cancel_right heq, rfl⟩

/-! ## Searching from an earlier place -/

theorem strstr_suffix {s needle r t : Bytes} (h : strstr s needle = some r) (ht : t <:+ s)
    (hpre : needle <+: t) : t <:+ r := by
  obtain ⟨n, -, rfl, -, hfirst⟩ := strstr_eq_some_iff.1 h
  obtain ⟨front, rfl⟩ := ht
  have hn : n ≤ front.length := by
    by_contra hlt
    refine hfirst front.length (by omega) ?_
    rwa [List.drop_left]
  rw [List.drop_append_of_le_length hn]
  exact List.suffix_append _ _

theorem dropWhile_suffix_of_head {p : UInt8 → Bool} {s t : Bytes} {c : UInt8} (hc : p c = false)
    (ht : c :: t <:+ s) : c :: t <:+ s.dropWhile p := by
  obtain ⟨front, rfl⟩ := ht
  induction front with
  | nil =>
    rw [List.nil_append, List.dropWhile_cons, hc]
    exact List.suffix_refl _
  | cons d front ih =>
    rw [List.cons_append, List.dropWhile_cons]
    split
    · exact ih
    · exact List.suffix_append (d :: front) (c :: t)

theorem strchr_suffix {s t r : Bytes} {c : UInt8} (h : strchr s c = some r) (ht : c :: t <:+ s) :
    c :: t <:+ r := by
  rw [strchr] at h
  have hdrop := dropWhile_suffix_of_head (p := (· ≠ c)) (by simp) ht
  split at h
  · cases h
  · obtain rfl := Option.some.inj h
    exact hdrop

end Qmem
