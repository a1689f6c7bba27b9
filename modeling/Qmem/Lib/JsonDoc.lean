import Qmem.Lib.Json

/-!
# Compact JSON documents

`Doc` is a document written without white space. Its number and string literals are texts that
carry the proof that the parser reads them as their value, so that every `Doc` parses back to
the value it stands for (`Doc.parse_render`), whatever escapes and number formats were used.
-/

namespace Json

open CLib

/-! ## Scanning -/

theorem isNumChar_of_isDigit {c : UInt8} (h : isDigit c) : isNumChar c := by
  simp [isNumChar, h]

theorem skipWs_cons {c : UInt8} {s : Bytes} (h : isWs c = false) : skipWs (c :: s) = c :: s := by
  simp [skipWs, h]

/-- A text that cannot continue a number: it is empty or starts with another character. -/
def Delim (r : Bytes) : Prop := ∀ c ∈ r.head?, isNumChar c = false

theorem delim_cons {c : UInt8} {r : Bytes} (h : isNumChar c = false) : Delim (c :: r) := by
  intro d hd
  simp only [List.head?_cons, Option.mem_def, Option.some.injEq] at hd
  exact hd ▸ h

theorem takeWhile_of_all {p : UInt8 → Bool} {s r : Bytes} (hs : ∀ c ∈ s, p c)
    (hr : ∀ c ∈ r.head?, p c = false) : (s ++ r).takeWhile p = s := by
  rw [List.takeWhile_append_of_pos hs]
  cases r with
  | nil => simp
  | cons c r => simp [hr c (by simp)]

theorem dropWhile_of_all {p : UInt8 → Bool} {s r : Bytes} (hs : ∀ c ∈ s, p c)
    (hr : ∀ c ∈ r.head?, p c = false) : (s ++ r).dropWhile p = r := by
  rw [List.dropWhile_append_of_pos hs]
  cases r with
  | nil => simp
  | cons c r => simp [hr c (by simp)]

/-! ## Number literals -/

/-- A text that is one number, with its value. -/
structure NumLit where
  text : Bytes
  value : ℚ
  parses : parseNumber text = some (value, [])

namespace NumLit

theorem all_numChar (n : NumLit) : ∀ c ∈ n.text, isNumChar c := by
  have h := n.parses
  simp only [parseNumber, Option.map_eq_some_iff, Prod.mk.injEq] at h
  obtain ⟨_, -, -, hdrop⟩ := h
  exact List.dropWhile_eq_nil_iff.1 hdrop

theorem numberValue_text (n : NumLit) : numberValue n.text = some n.value := by
  have h := n.parses
  simp only [parseNumber, Option.map_eq_some_iff, Prod.mk.injEq] at h
  obtain ⟨q, hq, rfl, -⟩ := h
  rwa [List.takeWhile_eq_self_iff.2 n.all_numChar] at hq

theorem text_ne_nil (n : NumLit) : n.text ≠ [] := by
  intro h
  have hv := n.numberValue_text
  rw [h] at hv
  simp [numberValue, unsignedValue] at hv

theorem parse_append (n : NumLit) {r : Bytes} (hr : Delim r) :
    parseNumber (n.text ++ r) = some (n.value, r) := by
  rw [parseNumber, takeWhile_of_all n.all_numChar hr, dropWhile_of_all n.all_numChar hr,
    n.numberValue_text]
  rfl

end NumLit

theorem byteOf_toNat {c : Char} (h : c.isDigit) : (byteOf c).toNat = c.toNat := by
  rw [Char.isDigit_iff_toNat] at h
  have h9 : '9'.toNat = 57 := rfl
  simp only [byteOf, UInt8.toNat_ofNat']
  omega

theorem isDigit_byteOf {c : Char} (h : c.isDigit) : isDigit (byteOf c) := by
  have hc := byteOf_toNat h
  rw [Char.isDigit_iff_toNat] at h
  simp only [isDigit, Bool.and_eq_true, decide_eq_true_eq, UInt8.le_iff_toNat_le]
  exact ⟨by rw [hc]; exact h.1, by rw [hc]; exact h.2⟩

theorem decNat_all_digit (n : Nat) : ∀ c ∈ decNat n, isDigit c := by
  intro c hc
  obtain ⟨d, hd, rfl⟩ := List.mem_map.1 hc
  exact isDigit_byteOf (Nat.isDigit_of_mem_toDigits (by decide) (by decide) hd)

theorem decNat_length_le {n k : Nat} (hk : 0 < k) (hn : n < 10 ^ k) : (decNat n).length ≤ k := by
  rw [decNat, List.length_map, Nat.length_toDigits_le_iff (by decide) hk]
  exact hn

/-- The longest one is that of -2 ^ 63. -/
theorem decInt_length_le (i : Int64) : (decInt i.toInt).length ≤ 20 := by
  have hmin := i.le_toInt
  have hmax := i.toInt_lt
  have hdigits : (decNat i.toInt.natAbs).length ≤ 19 := decNat_length_le (by decide) (by omega)
  rw [decInt]
  split
  · rw [List.length_cons]
    omega
  · omega

theorem natValue_decNat (n : Nat) : natValue (decNat n) = n := by
  conv_rhs => rw [← Nat.ofDigitChars_ten_toDigits (n := n)]
  rw [Nat.ofDigitChars_eq_foldl, natValue, decNat, List.foldl_map]
  apply List.foldl_ext
  intro m c hc
  rw [byteOf_toNat (Nat.isDigit_of_mem_toDigits (by decide) (by decide) hc)]
  rfl

/-- Only zero is written with a leading zero. -/
theorem head_decNat_ne_zero {n : Nat} (hn : 0 < n) : (decNat n).head? ≠ some 0x30 := by
  induction n using Nat.strong_induction_on with
  | _ n ih =>
    rw [decNat, Nat.toDigits_eq_if (by decide)]
    split
    · rename_i hlt
      interval_cases n <;> decide
    · rename_i hge
      have hq : 0 < n / 10 := by omega
      have := ih (n / 10) (by omega) hq
      rw [List.map_append, List.head?_append_of_ne_nil _ (by simp [Nat.toDigits_ne_nil])]
      exact this

theorem unsignedValue_decNat (n : Nat) : unsignedValue (decNat n) = some (n : ℚ) := by
  have htake : (decNat n).takeWhile isDigit = decNat n :=
    List.takeWhile_eq_self_iff.2 (decNat_all_digit n)
  have hdrop : (decNat n).dropWhile isDigit = [] :=
    List.dropWhile_eq_nil_iff.2 (decNat_all_digit n)
  have hlead : ¬ (decNat n = [] ∨ ((decNat n).head? = some 0x30 ∧ (decNat n).length ≠ 1)) := by
    rintro (h | ⟨hhead, hlen⟩)
    · exact decNat_ne_nil n h
    · rcases Nat.eq_zero_or_pos n with rfl | hn
      · exact hlen (by decide)
      · exact head_decNat_ne_zero hn hhead
  simp only [unsignedValue, htake, hdrop, if_neg hlead, natValue_decNat]
  simp [fraction, exponent]

theorem numberValue_of_digit {c : UInt8} {s : Bytes} (h : isDigit c) :
    numberValue (c :: s) = unsignedValue (c :: s) := by
  have hne : c ≠ 0x2d := by
    rintro rfl
    exact absurd h (by decide)
  rw [numberValue]
  intro r hr
  exact absurd (List.cons.inj hr).1 hne

theorem numberValue_decNat (n : Nat) : numberValue (decNat n) = some (n : ℚ) := by
  have hall := decNat_all_digit n
  have hval := unsignedValue_decNat n
  cases hd : decNat n with
  | nil => exact absurd hd (decNat_ne_nil n)
  | cons c s =>
    rw [hd] at hval hall
    rw [numberValue_of_digit (hall c (by simp)), hval]

theorem numberValue_decInt (i : Int) : numberValue (decInt i) = some (i : ℚ) := by
  unfold decInt
  split
  · rename_i hneg
    rw [numberValue, unsignedValue_decNat]
    have hcast : ((i.natAbs : Nat) : ℚ) = -(i : ℚ) := by
      rw [← Int.cast_natCast, Int.natCast_natAbs, abs_of_neg hneg, Int.cast_neg]
    simp [hcast]
  · rename_i hpos
    rw [numberValue_decNat]
    have hcast : ((i.natAbs : Nat) : ℚ) = (i : ℚ) := by
      rw [← Int.cast_natCast, Int.natCast_natAbs, abs_of_nonneg (not_lt.1 hpos)]
    simp [hcast]

theorem decInt_all_numChar (i : Int) : ∀ c ∈ decInt i, isNumChar c := by
  intro c hc
  unfold decInt at hc
  split at hc
  · rcases List.mem_cons.1 hc with rfl | hc
    · decide
    · exact isNumChar_of_isDigit (decNat_all_digit _ c hc)
  · exact isNumChar_of_isDigit (decNat_all_digit _ c hc)

/-- The decimal literal of an integer. -/
def NumLit.ofInt (i : Int) : NumLit where
  text := decInt i
  value := i
  parses := by
    rw [parseNumber, List.takeWhile_eq_self_iff.2 (decInt_all_numChar i), numberValue_decInt,
      List.dropWhile_eq_nil_iff.2 (decInt_all_numChar i)]
    rfl

/-! ## Documents -/

/-- The text between the quotes of a string, with the characters it stands for. -/
structure StrLit where
  body : Bytes
  value : Bytes
  parses : ∀ r, parseChars (body ++ 0x22 :: r) = some (value, r)

/-- A document without white space. -/
inductive Doc where
  | null
  | bool (b : Bool)
  | num (n : NumLit)
  | str (s : StrLit)
  | arr (ds : List Doc)
  | obj (ms : List (StrLit × Doc))

namespace Doc

theorem induct {P : Doc → Prop} (null : P .null) (bool : ∀ b, P (.bool b))
    (num : ∀ n, P (.num n)) (str : ∀ s, P (.str s)) (arr : ∀ ds, (∀ d ∈ ds, P d) → P (.arr ds))
    (obj : ∀ ms, (∀ m ∈ ms, P m.2) → P (.obj ms)) (d : Doc) : P d :=
  @Doc.rec P (fun ds => ∀ d ∈ ds, P d) (fun ms => ∀ m ∈ ms, P m.2) (fun m => P m.2)
    null bool num str arr obj
    (by simp) (fun _ _ hd hds => by simpa using ⟨hd, hds⟩)
    (by simp) (fun m _ hm hms => by rw [List.forall_mem_cons]; exact ⟨hm, hms⟩)
    (fun _ _ h => h) d

mutual

/-- The text of a document. -/
def render : Doc → Bytes
  | .null => litNull
  | .bool b => if b then litTrue else litFalse
  | .num n => n.text
  | .str s => 0x22 :: (s.body ++ [0x22])
  | .arr ds => 0x5b :: (renderElems ds ++ [0x5d])
  | .obj ms => 0x7b :: (renderMembers ms ++ [0x7d])

/-- The elements of an array, with a comma between each two. -/
def renderElems : List Doc → Bytes
  | [] => []
  | d :: ds => render d ++ renderElemsTail ds

def renderElemsTail : List Doc → Bytes
  | [] => []
  | d :: ds => 0x2c :: (render d ++ renderElemsTail ds)

/-- The members of an object, with a comma between each two. -/
def renderMembers : List (StrLit × Doc) → Bytes
  | [] => []
  | (k, d) :: ms => 0x22 :: (k.body ++ 0x22 :: 0x3a :: (render d ++ renderMembersTail ms))

def renderMembersTail : List (StrLit × Doc) → Bytes
  | [] => []
  | (k, d) :: ms =>
    0x2c :: 0x22 :: (k.body ++ 0x22 :: 0x3a :: (render d ++ renderMembersTail ms))

end

mutual

/-- The value a document stands for. -/
def value : Doc → Value
  | .null => .null
  | .bool b => .bool b
  | .num n => .num n.value
  | .str s => .str s.value
  | .arr ds => .arr (values ds)
  | .obj ms => .obj (memberValues ms)

def values : List Doc → List Value
  | [] => []
  | d :: ds => value d :: values ds

def memberValues : List (StrLit × Doc) → List (Bytes × Value)
  | [] => []
  | (k, d) :: ms => (k.value, value d) :: memberValues ms

end

/-! ## Reading a document back -/

mutual

/-- Fuel with which the parser reads a document. -/
def fuel : Doc → Nat
  | .arr ds => 1 + elemsFuel ds
  | .obj ms => 1 + membersFuel ms
  | _ => 1

def elemsFuel : List Doc → Nat
  | [] => 0
  | d :: ds => 1 + max (fuel d) (elemsFuel ds)

def membersFuel : List (StrLit × Doc) → Nat
  | [] => 0
  | (_, d) :: ms => 1 + max (1 + fuel d) (membersFuel ms)

end

/-- What the parser does on a document followed by a text that cannot continue it. -/
def Reads (d : Doc) : Prop :=
  ∀ n r, d.fuel ≤ n → Delim r → parseValue n (d.render ++ r) = some (d.value, r)

theorem delim_elemsTail (ds : List Doc) (r : Bytes) :
    Delim (renderElemsTail ds ++ 0x5d :: r) := by
  cases ds <;> exact delim_cons (by decide)

theorem delim_membersTail (ms : List (StrLit × Doc)) (r : Bytes) :
    Delim (renderMembersTail ms ++ 0x7d :: r) := by
  cases ms <;> exact delim_cons (by decide)

theorem parseElements_render {d : Doc} (ds : List Doc) (hd : Reads d) (hds : ∀ d ∈ ds, Reads d)
    (n : Nat) (r : Bytes) (hn : elemsFuel (d :: ds) ≤ n) :
    parseElements n (render d ++ (renderElemsTail ds ++ 0x5d :: r)) =
      some (value d :: values ds, r) := by
  induction ds generalizing d n with
  | nil =>
    obtain ⟨n, rfl⟩ : ∃ m, n = m + 1 := ⟨n - 1, by simp [elemsFuel] at hn; omega⟩
    have hv := hd n (0x5d :: r) (by simp [elemsFuel] at hn; omega) (delim_cons (by decide))
    simp only [renderElemsTail, List.nil_append, parseElements, hv, Option.bind_some,
      skipWs_cons (show isWs 0x5d = false by decide), values]
    rfl
  | cons e ds ih =>
    obtain ⟨n, rfl⟩ : ∃ m, n = m + 1 := ⟨n - 1, by simp [elemsFuel] at hn; omega⟩
    have hv := hd n (renderElemsTail (e :: ds) ++ 0x5d :: r)
      (by simp only [elemsFuel] at hn; omega) (delim_elemsTail (e :: ds) r)
    have htail := ih (hds e (by simp)) (fun d h => hds d (by simp [h])) n
      (by rw [elemsFuel] at hn; omega)
    rw [parseElements, hv]
    simp only [renderElemsTail, Option.bind_some, List.cons_append, List.append_assoc,
      skipWs_cons (show isWs 0x2c = false by decide), if_true, htail, Option.map_some, values]

theorem parseMember_render {d : Doc} (hd : Reads d) (k : StrLit) (n : Nat) (r : Bytes)
    (hn : 1 + d.fuel ≤ n) (hr : Delim r) :
    parseMember n (0x22 :: (k.body ++ 0x22 :: 0x3a :: (render d ++ r))) =
      some ((k.value, value d), r) := by
  obtain ⟨n, rfl⟩ : ∃ m, n = m + 1 := ⟨n - 1, by omega⟩
  have hv := hd n r (by omega) hr
  simp only [parseMember, skipWs_cons (show isWs 0x22 = false by decide), if_true, k.parses,
    Option.bind_some, skipWs_cons (show isWs 0x3a = false by decide), hv, Option.map_some]

theorem parseMembers_render (k : StrLit) (d : Doc) (ms : List (StrLit × Doc)) (hd : Reads d)
    (hms : ∀ m ∈ ms, Reads m.2) (n : Nat) (r : Bytes) (hn : membersFuel ((k, d) :: ms) ≤ n) :
    parseMembers n (0x22 :: (k.body ++
        0x22 :: 0x3a :: (render d ++ (renderMembersTail ms ++ 0x7d :: r)))) =
      some ((k.value, value d) :: memberValues ms, r) := by
  induction ms generalizing k d n with
  | nil =>
    obtain ⟨n, rfl⟩ : ∃ m, n = m + 1 := ⟨n - 1, by simp [membersFuel] at hn; omega⟩
    have hv := parseMember_render hd k n (0x7d :: r) (by simp [membersFuel] at hn; omega)
      (delim_cons (by decide))
    simp only [renderMembersTail, List.nil_append, parseMembers, hv, Option.bind_some,
      skipWs_cons (show isWs 0x7d = false by decide), memberValues]
    rfl
  | cons m ms ih =>
    obtain ⟨k', e⟩ := m
    obtain ⟨n, rfl⟩ : ∃ m, n = m + 1 := ⟨n - 1, by simp [membersFuel] at hn; omega⟩
    have hv := parseMember_render hd k n (renderMembersTail ((k', e) :: ms) ++ 0x7d :: r)
      (by simp only [membersFuel] at hn; omega) (delim_membersTail ((k', e) :: ms) r)
    have htail := ih (k := k') (d := e) (hms (k', e) (by simp))
      (fun m h => hms m (by simp [h])) n (by rw [membersFuel] at hn; omega)
    rw [parseMembers, hv]
    simp only [renderMembersTail, Option.bind_some, List.cons_append, List.append_assoc,
      skipWs_cons (show isWs 0x2c = false by decide), if_true, htail, Option.map_some,
      memberValues]

theorem renderElems_eq {d : Doc} {ds : List Doc} (r : Bytes) :
    renderElems (d :: ds) ++ r = render d ++ (renderElemsTail ds ++ r) := by
  rw [renderElems, List.append_assoc]

/-- A number literal starts with a character that no other value starts with. -/
theorem numChar_ne {c : UInt8} (h : isNumChar c) :
    isWs c = false ∧ c ≠ 0x7b ∧ c ≠ 0x5b ∧ c ≠ 0x22 ∧ c ≠ 0x6e ∧ c ≠ 0x74 ∧ c ≠ 0x66 := by
  refine ⟨?_, ?_, ?_, ?_, ?_, ?_, ?_⟩
  · cases hw : isWs c with
    | false => rfl
    | true =>
      simp only [isWs, Bool.or_eq_true, beq_iff_eq, or_assoc] at hw
      rcases hw with rfl | rfl | rfl | rfl <;> exact absurd h (by decide)
  all_goals
    rintro rfl
    exact absurd h (by decide)

theorem head_render_not_ws (d : Doc) :
    ∃ c s, d.render = c :: s ∧ isWs c = false ∧ c ≠ 0x5d ∧ c ≠ 0x7d := by
  cases d with
  | null => exact ⟨_, _, rfl, by decide, by decide, by decide⟩
  | bool b => cases b <;> exact ⟨_, _, rfl, by decide, by decide, by decide⟩
  | num n =>
    have hall := n.all_numChar
    cases ht : n.text with
    | nil => exact absurd ht n.text_ne_nil
    | cons c s =>
      rw [ht] at hall
      have hc := hall c (by simp)
      refine ⟨c, s, by rw [render, ht], (numChar_ne hc).1, ?_, ?_⟩ <;>
        rintro rfl <;> exact absurd hc (by decide)
  | str s => exact ⟨_, _, rfl, by decide, by decide, by decide⟩
  | arr ds => exact ⟨_, _, rfl, by decide, by decide, by decide⟩
  | obj ms => exact ⟨_, _, rfl, by decide, by decide, by decide⟩

theorem reads_num (n : NumLit) : Reads (.num n) := by
  intro k r hk hr
  obtain ⟨k, rfl⟩ : ∃ m, k = m + 1 := ⟨k - 1, by simp [fuel] at hk; omega⟩
  have hparse := n.parse_append hr
  have hall := n.all_numChar
  rw [render, value]
  cases ht : n.text with
  | nil => exact absurd ht n.text_ne_nil
  | cons c s =>
    rw [ht] at hparse hall
    obtain ⟨hws, h1, h2, h3, h4, h5, h6⟩ := numChar_ne (hall c (by simp))
    rw [List.cons_append] at hparse ⊢
    rw [parseValue, skipWs_cons hws]
    simp only [h1, h2, h3, h4, h5, h6, if_false, hparse, Option.map_some]

theorem reads_arr {ds : List Doc} (hds : ∀ d ∈ ds, Reads d) : Reads (.arr ds) := by
  intro n r hn _
  obtain ⟨n, rfl⟩ : ∃ m, n = m + 1 := ⟨n - 1, by simp [fuel] at hn; omega⟩
  rw [render, value, List.cons_append, parseValue, skipWs_cons (by decide)]
  simp only [show (0x5b : UInt8) ≠ 0x7b by decide, if_false, if_true, List.append_assoc,
    List.singleton_append]
  cases ds with
  | nil =>
    simp only [renderElems, List.nil_append, skipWs_cons (show isWs 0x5d = false by decide),
      List.head?_cons, List.tail_cons, if_true, values]
  | cons d ds =>
    obtain ⟨c, s, hc, hws, hne, -⟩ := head_render_not_ws d
    have helems := parseElements_render ds (hds d (by simp))
      (fun e h => hds e (by simp [h])) n r (by rw [fuel] at hn; omega)
    have hhead : (skipWs (renderElems (d :: ds) ++ 0x5d :: r)).head? ≠ some 0x5d := by
      rw [renderElems_eq, hc, List.cons_append, skipWs_cons hws, List.head?_cons]
      simpa using hne
    rw [if_neg hhead, renderElems_eq, helems, values]
    rfl

theorem reads_obj {ms : List (StrLit × Doc)} (hms : ∀ m ∈ ms, Reads m.2) :
    Reads (.obj ms) := by
  intro n r hn _
  obtain ⟨n, rfl⟩ : ∃ m, n = m + 1 := ⟨n - 1, by simp [fuel] at hn; omega⟩
  rw [render, value, List.cons_append, parseValue, skipWs_cons (by decide)]
  simp only [if_true, List.append_assoc, List.singleton_append]
  cases ms with
  | nil =>
    simp only [renderMembers, List.nil_append, skipWs_cons (show isWs 0x7d = false by decide),
      List.head?_cons, List.tail_cons, if_true, memberValues]
  | cons m ms =>
    obtain ⟨k, d⟩ := m
    have hmembers := parseMembers_render k d ms (hms (k, d) (by simp))
      (fun m h => hms m (by simp [h])) n r (by rw [fuel] at hn; omega)
    simp only [renderMembers, List.cons_append, List.append_assoc,
      skipWs_cons (show isWs 0x22 = false by decide), List.head?_cons, Option.some.injEq,
      show ¬ (0x22 : UInt8) = 0x7d by decide, if_false, hmembers, Option.map_some,
      memberValues]

/-- The parser reads every document, whatever follows it. -/
theorem reads (d : Doc) : Reads d := by
  induction d using induct with
  | null =>
    intro n r hn _
    obtain ⟨n, rfl⟩ : ∃ m, n = m + 1 := ⟨n - 1, by simp [fuel] at hn; omega⟩
    rfl
  | bool b =>
    intro n r hn _
    obtain ⟨n, rfl⟩ : ∃ m, n = m + 1 := ⟨n - 1, by simp [fuel] at hn; omega⟩
    cases b <;> rfl
  | num n => exact reads_num n
  | str s =>
    intro n r hn _
    obtain ⟨n, rfl⟩ : ∃ m, n = m + 1 := ⟨n - 1, by simp [fuel] at hn; omega⟩
    rw [render, value, List.cons_append, parseValue, skipWs_cons (by decide)]
    simp only [show ¬ (0x22 : UInt8) = 0x7b by decide, show ¬ (0x22 : UInt8) = 0x5b by decide,
      if_false, if_true, List.append_assoc, List.singleton_append, s.parses, Option.map_some]
  | arr ds ih => exact reads_arr ih
  | obj ms ih => exact reads_obj ih

/-! The fuel a document needs is at most the length of its text. -/

theorem elemsFuel_le {ds : List Doc} (h : ∀ d ∈ ds, d.fuel ≤ d.render.length) :
    elemsFuel ds ≤ (renderElemsTail ds).length := by
  induction ds with
  | nil => simp [elemsFuel]
  | cons d ds ih =>
    have hd := h d (by simp)
    have hds := ih fun e he => h e (by simp [he])
    simp only [elemsFuel, renderElemsTail, List.length_cons, List.length_append]
    omega

theorem membersFuel_le {ms : List (StrLit × Doc)} (h : ∀ m ∈ ms, m.2.fuel ≤ m.2.render.length) :
    membersFuel ms ≤ (renderMembersTail ms).length := by
  induction ms with
  | nil => simp [membersFuel]
  | cons m ms ih =>
    obtain ⟨k, d⟩ := m
    have hd := h (k, d) (by simp)
    have hms := ih fun m hm => h m (by simp [hm])
    simp only [membersFuel, renderMembersTail, List.length_cons, List.length_append] at hd ⊢
    omega

theorem renderElems_length (ds : List Doc) :
    (renderElemsTail ds).length ≤ (renderElems ds).length + 1 := by
  cases ds <;> simp [renderElems, renderElemsTail]

theorem renderMembers_length (ms : List (StrLit × Doc)) :
    (renderMembersTail ms).length ≤ (renderMembers ms).length + 1 := by
  cases ms <;> simp [renderMembers, renderMembersTail]

theorem fuel_le_length (d : Doc) : d.fuel ≤ d.render.length := by
  induction d using induct with
  | null => decide
  | bool b => cases b <;> decide
  | num n =>
    have := List.length_pos_iff.2 n.text_ne_nil
    simp only [fuel, render]
    omega
  | str s => simp [fuel, render]
  | arr ds ih =>
    have h := elemsFuel_le ih
    have := renderElems_length ds
    simp only [fuel, render, List.length_cons, List.length_append, List.length_nil]
    omega
  | obj ms ih =>
    have h := membersFuel_le ih
    have := renderMembers_length ms
    simp only [fuel, render, List.length_cons, List.length_append, List.length_nil]
    omega

/-- **Every document parses back to its value.** -/
theorem parse_render (d : Doc) : parse d.render = some d.value := by
  have h := reads d (d.render.length + 1) [] (by have := fuel_le_length d; omega)
    (by intro c hc; simp at hc)
  rw [List.append_nil] at h
  rw [parse, h]
  rfl

end Doc

end Json
