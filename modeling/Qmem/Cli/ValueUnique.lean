import Qmem.Cli.JsonSection

/-!
# No value's text begins another's

At most one text of a value stands at the beginning of what the builder has written from there on.
For an array or an object this is so part by part, for a string or a key because the quote that
closes it is the first without a backslash, and for a number or a word because a comma or a bracket
comes behind it.

Main result: `value_unique`.
-/

namespace Qmem

open CLib

/-! ## Numbers and words -/

/-- What a number is made of before its exponent. -/
def mantissaChar (c : UInt8) : Bool := Json.isDigit c || c == 0x2d || c == 0x2e

/-- What `%.6g` writes when there is no number to write. -/
def noNumbers : List Bytes :=
  ([.lit "inf", .lit "-inf", .lit "nan", .lit "-nan"] : List CStr).map CStr.bytes

/-- What `%.6g` writes: a word, or a number, with an exponent behind it or without. -/
def FormatG (s : Bytes) : Prop :=
  s ∈ noNumbers ∨
    ∃ m e, s = m ++ e ∧ m ≠ [] ∧ (∀ c ∈ m, mantissaChar c = true) ∧
      (e = [] ∨ ∃ sign ds, e = 0x65 :: sign :: ds ∧ (sign = 0x2b ∨ sign = 0x2d) ∧
        ∀ c ∈ ds, Json.isDigit c = true)

/-- What comes before the plus sign of an exponent. -/
def BeforePlus (s : Bytes) : Prop :=
  ∃ m, s = m ++ [0x65] ∧ m ≠ [] ∧ ∀ c ∈ m, mantissaChar c = true

/-- The text of a value that is no object, no array and no string. -/
structure ScalarText (s : Bytes) : Prop where
  ne_nil : s ≠ []
  chars : ∀ c ∈ s, tokenChar c = true ∨ c = 0x2b
  beforePlus : ∀ u w, s = u ++ 0x2b :: w → 0x2b ∉ u → BeforePlus u
  not_beforePlus : ¬ BeforePlus s

theorem mantissaChar_cases {c : UInt8} (h : mantissaChar c = true) :
    tokenChar c = true ∧ c ≠ 0x2b ∧ c ≠ 0x65 ∧ c ≠ 0x74 ∧ c ≠ 0x66 := by
  simp only [mantissaChar, Json.isDigit, tokenChar, isalnum, Bool.or_eq_true, Bool.and_eq_true,
    decide_eq_true_eq, beq_iff_eq, UInt8.le_iff_toNat_le, ← UInt8.toNat_inj, ne_eq] at h ⊢
  simp at h ⊢
  omega

theorem mantissaChar_of_digit {c : UInt8} (h : Json.isDigit c = true) : mantissaChar c = true := by
  rw [mantissaChar, h]
  rfl

theorem decInt_mantissa (i : Int) : ∀ c ∈ decInt i, mantissaChar c = true := by
  intro c hc
  rw [decInt] at hc
  split at hc
  · rcases List.mem_cons.1 hc with rfl | hc
    · decide
    · exact mantissaChar_of_digit (Json.decNat_all_digit _ c hc)
  · exact mantissaChar_of_digit (Json.decNat_all_digit _ c hc)

theorem formatG_of_mantissa {s : Bytes} (hne : s ≠ []) (h : ∀ c ∈ s, mantissaChar c = true) :
    FormatG s := .inr ⟨s, [], (List.append_nil s).symm, hne, h, .inl rfl⟩

theorem FormatG.chars {s : Bytes} (h : FormatG s) :
    s ≠ [] ∧ ∀ c ∈ s, tokenChar c = true ∨ c = 0x2b := by
  rcases h with hword | ⟨m, e, rfl, hne, hm, he⟩
  · have hall : ∀ w ∈ noNumbers, w ≠ [] ∧ ∀ c ∈ w, tokenChar c = true ∨ c = 0x2b := by
      decide +kernel
    exact hall s hword
  · refine ⟨List.append_ne_nil_of_left_ne_nil hne e, fun c hc => ?_⟩
    rcases List.mem_append.1 hc with hc | hc
    · exact .inl (mantissaChar_cases (hm c hc)).1
    · rcases he with rfl | ⟨sign, ds, rfl, hsign, hds⟩
      · cases hc
      · rcases List.mem_cons.1 hc with rfl | hc
        · exact .inl (by decide)
        · rcases List.mem_cons.1 hc with rfl | hc
          · rcases hsign with rfl | rfl
            · exact .inr rfl
            · exact .inl (by decide)
          · exact .inl (mantissaChar_cases (mantissaChar_of_digit (hds c hc))).1

/-- A plus sign is that of an exponent. -/
theorem FormatG.beforePlus {s u w : Bytes} (h : FormatG s) (heq : s = u ++ 0x2b :: w)
    (hu : 0x2b ∉ u) : BeforePlus u := by
  have hplus : (0x2b : UInt8) ∈ s := by simp [heq]
  rcases h with hword | ⟨m, e, rfl, hne, hm, he⟩
  · have hall : ∀ w ∈ noNumbers, (0x2b : UInt8) ∉ w := by decide +kernel
    exact absurd hplus (hall s hword)
  · have hmplus : (0x2b : UInt8) ∉ m := fun hc => (mantissaChar_cases (hm _ hc)).2.1 rfl
    rcases he with rfl | ⟨sign, ds, rfl, hsign, hds⟩
    · rw [List.append_nil] at hplus
      exact absurd hplus hmplus
    · have hdplus : (0x2b : UInt8) ∉ ds := fun hc =>
        (mantissaChar_cases (mantissaChar_of_digit (hds _ hc))).2.1 rfl
      obtain rfl : sign = 0x2b := by
        rcases hsign with rfl | rfl
        · rfl
        · simp [hmplus, hdplus] at hplus
      have hsame : m ++ [0x65] = u := by
        have hfirst := congrArg (List.takeWhile (· ≠ 0x2b)) heq
        rw [show m ++ 0x65 :: 0x2b :: ds = (m ++ [0x65]) ++ 0x2b :: ds by simp,
          takeWhile_append_self, takeWhile_append_self, List.takeWhile_eq_self_iff.2,
          List.takeWhile_eq_self_iff.2] at hfirst
        · exact hfirst
        · exact fun c hc => decide_eq_true fun hc' => hu (hc' ▸ hc)
        · intro c hc
          refine decide_eq_true ?_
          rcases List.mem_append.1 hc with hc | hc
          · exact fun hc' => hmplus (hc' ▸ hc)
          · rw [List.mem_singleton.1 hc]
            decide
      exact ⟨m, hsame.symm, hne, hm⟩

/-- No number ends there. -/
theorem FormatG.not_beforePlus {s : Bytes} (h : FormatG s) : ¬ BeforePlus s := by
  rintro ⟨m, rfl, -, hm⟩
  rcases h with hword | ⟨m', e, heq, -, hm', he⟩
  · have hall : ∀ w ∈ noNumbers, w.getLast? ≠ some 0x65 := by decide +kernel
    exact hall _ hword List.getLast?_concat
  · have hlast : (m' ++ e).getLast? = some 0x65 := by rw [← heq, List.getLast?_concat]
    have hmem := List.mem_of_getLast? hlast
    rcases he with rfl | ⟨sign, ds, rfl, hsign, hds⟩
    · rw [List.append_nil] at hmem
      exact (mantissaChar_cases (hm' _ hmem)).2.2.1 rfl
    · rw [List.getLast?_append_of_ne_nil _ (List.cons_ne_nil _ _), List.getLast?_cons_cons] at hlast
      rcases List.mem_cons.1 (List.mem_of_getLast? hlast) with rfl | hmem
      · rcases hsign with h | h <;> exact absurd h (by decide)
      · exact (mantissaChar_cases (mantissaChar_of_digit (hds _ hmem))).2.2.1 rfl

theorem FormatG.scalarText {s : Bytes} (h : FormatG s) : ScalarText s :=
  ⟨h.chars.1, h.chars.2, fun _ _ => h.beforePlus, h.not_beforePlus⟩

/-- `null`, `true` and `false`. -/
def words : List Bytes := [jsonNullText, jsonBoolText true, jsonBoolText false]

theorem scalarText_of_word {s : Bytes} (h : s ∈ words) : ScalarText s := by
  have hall : ∀ w ∈ words, w ≠ [] ∧ (∀ c ∈ w, tokenChar c = true ∧ c ≠ 0x2b) ∧
      ∀ c ∈ w.head?, mantissaChar c = false := by decide +kernel
  obtain ⟨hne, hchars, hhead⟩ := hall s h
  refine ⟨hne, fun c hc => .inl (hchars c hc).1, fun u w heq => ?_, ?_⟩
  · exact absurd rfl (hchars 0x2b (by simp [heq])).2
  · rintro ⟨m, rfl, hm, hchars⟩
    obtain ⟨c, m, rfl⟩ := List.exists_cons_of_ne_nil hm
    have htrue := hchars c List.mem_cons_self
    rw [hhead c rfl] at htrue
    cases htrue

/-! ## The text of a value -/

section

variable {δ : Type} {printG : δ → CStr}

/-- What may stand behind a value, or the end of the text. -/
def EndOfValue (rest : Bytes) : Prop := ∃ c ∈ rest.head?, c = 0x2c ∨ c = 0x7d ∨ c = 0x5d

theorem endOfValue_callText (printG : δ → CStr) {cs : List (JsonCall δ)} (hne : cs ≠ []) :
    EndOfValue (callText printG true cs) := by
  obtain ⟨c, s, hs⟩ := List.exists_cons_of_ne_nil (callText_ne_nil printG hne)
  refine ⟨c, by rw [hs]; rfl, follows_callText printG cs c ?_⟩
  rw [hs]
  rfl

theorem EndOfValue.not_token {rest : Bytes} (h : EndOfValue rest) :
    ∀ c ∈ rest.head?, tokenChar c = false := by
  obtain ⟨c, hc, hstop⟩ := h
  intro d hd
  rw [Option.mem_def] at hc hd
  obtain rfl := Option.some.inj (hc.symm.trans hd)
  rcases hstop with rfl | rfl | rfl <;> rfl

theorem EndOfValue.ne_nil {rest : Bytes} (h : EndOfValue rest) : rest ≠ [] := by
  rintro rfl
  obtain ⟨c, hc, -⟩ := h
  cases hc

theorem ScalarText.ne_cons {s : Bytes} (h : ScalarText s) {c : UInt8}
    (hc : c = 0x5b ∨ c = 0x7b ∨ c = 0x22) (r t : Bytes) : s ++ r ≠ c :: t := by
  obtain ⟨d, s, rfl⟩ := List.exists_cons_of_ne_nil h.ne_nil
  intro heq
  rcases h.chars d List.mem_cons_self with hd | hd
  · rw [(List.cons.inj heq).1] at hd
    rcases hc with rfl | rfl | rfl <;> cases hd
  · rw [(List.cons.inj heq).1] at hd
    rcases hc with rfl | rfl | rfl <;> exact absurd hd (by decide)

/-- A call that says a value of one word. -/
def isScalar : JsonCall δ → Bool
  | .null | .bool _ | .int _ | .uint _ | .double _ => true
  | _ => false

theorem scalarText_of_isScalar (hprint : ∀ d, FormatG (printG d).bytes) {c : JsonCall δ}
    (h : isScalar c = true) : ScalarText (callText printG false [c]) := by
  have hone (t : Bytes) (ht : c.tokens printG false = [t]) : callText printG false [c] = t := by
    rw [callText_cons, ht, callText_nil]
    simp
  cases c with
  | null =>
    rw [hone _ rfl]
    exact scalarText_of_word (by simp [words])
  | bool b =>
    rw [hone _ rfl]
    exact scalarText_of_word (by cases b <;> simp [words])
  | int i =>
    rw [hone _ rfl]
    exact (formatG_of_mantissa (decInt_ne_nil _) (decInt_mantissa _)).scalarText
  | uint n =>
    rw [hone _ rfl]
    exact (formatG_of_mantissa (decNat_ne_nil _) fun c hc =>
      mantissaChar_of_digit (Json.decNat_all_digit _ c hc)).scalarText
  | double d =>
    rw [hone _ rfl]
    exact (hprint d).scalarText
  | _ => cases h

/-- An array, an object, a string, or none of them. -/
theorem ValueCalls.text_cases (hprint : ∀ d, FormatG (printG d).bytes) {v : List (JsonCall δ)}
    (h : ValueCalls v) :
    (∃ vs : List (List (JsonCall δ)), (∀ w ∈ vs, ValueCalls w) ∧
        callText printG false v = 0x5b :: (callText printG false vs.flatten ++ [0x5d])) ∨
      (∃ ms : List (CStr × List (JsonCall δ)), (∀ m ∈ ms, ValueCalls m.2) ∧
        callText printG false v =
          0x7b :: (callText printG false (ms.flatMap fun m => .key m.1 :: m.2) ++ [0x7d])) ∨
      (∃ s, callText printG false v = 0x22 :: (escaped s ++ [0x22])) ∨
      ScalarText (callText printG false v) := by
  cases h with
  | array vs hvs => exact .inl ⟨vs, hvs, callText_array printG _⟩
  | object ms hms => exact .inr (.inl ⟨ms, hms, callText_object printG _⟩)
  | string s => exact .inr (.inr (.inl ⟨s.bytes, callText_string printG s⟩))
  | _ => exact .inr (.inr (.inr (scalarText_of_isScalar hprint rfl)))

/-- What the text of a value begins with. -/
def valueHead (c : UInt8) : Bool :=
  tokenChar c || c == 0x2b || c == 0x5b || c == 0x7b || c == 0x22

theorem valueHead_cases {c : UInt8} (h : valueHead c = true) :
    isspace c = false ∧ c ≠ 0x2c ∧ c ≠ 0x5d ∧ c ≠ 0x7d := by
  simp only [valueHead, tokenChar, isalnum, isspace, Bool.or_eq_true, Bool.and_eq_true,
    decide_eq_true_eq, beq_iff_eq, Bool.or_eq_false_iff, beq_eq_false_iff_ne, Bool.and_eq_false_iff,
    decide_eq_false_iff_not, UInt8.le_iff_toNat_le, ← UInt8.toNat_inj, ne_eq] at h ⊢
  simp at h ⊢
  omega

theorem ValueCalls.head (hprint : ∀ d, FormatG (printG d).bytes) {v : List (JsonCall δ)}
    (h : ValueCalls v) : ∃ c s, callText printG false v = c :: s ∧ valueHead c = true := by
  rcases h.text_cases hprint with ⟨vs, -, htext⟩ | ⟨ms, -, htext⟩ | ⟨s, htext⟩ | hscalar
  · exact ⟨_, _, htext, rfl⟩
  · exact ⟨_, _, htext, rfl⟩
  · exact ⟨_, _, htext, rfl⟩
  · obtain ⟨c, s, hcs⟩ := List.exists_cons_of_ne_nil hscalar.ne_nil
    refine ⟨c, s, hcs, ?_⟩
    rcases hscalar.chars c (by rw [hcs]; exact List.mem_cons_self) with hc | hc <;>
      simp [valueHead, hc]

/-- Calls that write one part of an array or an object. -/
structure PartCalls (printG : δ → CStr) (p : List (JsonCall δ)) : Prop where
  text : ∀ b cs, callText printG b (p ++ cs) =
    (if b then [0x2c] else []) ++ (callText printG false p ++ callText printG true cs)
  head : ∃ c s, callText printG false p = c :: s ∧ c ≠ 0x5d ∧ c ≠ 0x7d

theorem ValueCalls.part (hprint : ∀ d, FormatG (printG d).bytes) {v : List (JsonCall δ)}
    (h : ValueCalls v) : PartCalls printG v := by
  obtain ⟨c, s, htext, hc⟩ := h.head hprint
  exact ⟨h.callText_append, c, s, htext, (valueHead_cases hc).2.2⟩

theorem ValueCalls.member_part {v : List (JsonCall δ)} (h : ValueCalls v) (k : CStr) :
    PartCalls printG (.key k :: v) := by
  refine ⟨fun b cs => ?_, 0x22, _, callText_anyKey printG false k v, by decide, by decide⟩
  rw [List.cons_append, callText_anyKey, callText_anyKey, h.callText_append]
  simp

variable {close : UInt8} {p : List (JsonCall δ)} {cs : List (JsonCall δ)}

theorem PartCalls.ne_close (hclose : close = 0x7d ∨ close = 0x5d) (h : PartCalls printG p)
    (b : Bool) {r r' : Bytes} : callText printG b (p ++ cs) ++ r ≠ close :: r' := by
  obtain ⟨c, s, hs, harr, hobj⟩ := h.head
  rw [h.text, hs]
  intro heq
  cases b with
  | false =>
    rcases hclose with rfl | rfl
    · exact hobj (List.cons.inj heq).1
    · exact harr (List.cons.inj heq).1
  | true => rcases hclose with rfl | rfl <;> exact absurd (List.cons.inj heq).1 (by decide)

theorem endOfValue_close (hclose : close = 0x7d ∨ close = 0x5d) (cs : List (JsonCall δ)) (r : Bytes) :
    EndOfValue (callText printG true cs ++ close :: r) := by
  cases hcs : callText printG true cs with
  | nil => exact ⟨close, rfl, .inr hclose⟩
  | cons c s => exact ⟨c, rfl, follows_callText printG cs c (by rw [hcs]; rfl)⟩

/-- Where parts of some kind and a bracket are the beginning of a text, no other parts of the kind
are, if that holds of each part. -/
theorem parts_unique {Part : List (JsonCall δ) → Prop} (hpart : ∀ p, Part p → PartCalls printG p)
    (hclose : close = 0x7d ∨ close = 0x5d) {ps ps' : List (List (JsonCall δ))}
    (hps : ∀ p ∈ ps, Part p) (hps' : ∀ p ∈ ps', Part p)
    (hunique : ∀ p ∈ ps, ∀ p', Part p' → ∀ r r', EndOfValue r → EndOfValue r' →
      callText printG false p ++ r = callText printG false p' ++ r' →
        callText printG false p = callText printG false p')
    {b : Bool} {r r' : Bytes} (h : callText printG b ps.flatten ++ close :: r =
      callText printG b ps'.flatten ++ close :: r') :
    callText printG b ps.flatten = callText printG b ps'.flatten := by
  induction ps generalizing ps' b r r' with
  | nil =>
    cases ps' with
    | nil => rfl
    | cons p' ps' => exact absurd h.symm ((hpart p' (hps' p' List.mem_cons_self)).ne_close hclose b)
  | cons p ps ih =>
    rw [List.forall_mem_cons] at hps hunique
    have hp := hpart p hps.1
    cases ps' with
    | nil => exact absurd h (hp.ne_close hclose b)
    | cons p' ps' =>
      rw [List.forall_mem_cons] at hps'
      have hp' := hpart p' hps'.1
      rw [List.flatten_cons, List.flatten_cons, hp.text, hp'.text] at h ⊢
      simp only [List.append_assoc, List.append_cancel_left_eq] at h ⊢
      have hfirst := hunique.1 p' hps'.1 _ _ (endOfValue_close hclose _ r) (endOfValue_close hclose _ r') h
      rw [hfirst] at h ⊢
      rw [ih hps.2 hps'.2 hunique.2 (List.append_cancel_left h)]

section

variable (hprint : ∀ d, FormatG (printG d).bytes) {v v' : List (JsonCall δ)}
  (hv' : ValueCalls v') {r r' : Bytes}

include hprint hv'

theorem scalar_unique (hv : ScalarText (callText printG false v)) (hr : EndOfValue r)
    (hr' : EndOfValue r')
    (h : callText printG false v ++ r = callText printG false v' ++ r') :
    callText printG false v = callText printG false v' := by
  have hend {s r : Bytes} (hs : ScalarText s) (hr : EndOfValue r) :
      (s ++ r).takeWhile (fun c => tokenChar c || c == 0x2b) = s := by
    refine Json.takeWhile_of_all (fun c hc => ?_) fun c hc => ?_
    · simpa using hs.chars c hc
    · obtain ⟨d, hd, hstop⟩ := hr
      rw [Option.mem_def] at hc hd
      obtain rfl := Option.some.inj (hc.symm.trans hd)
      rcases hstop with rfl | rfl | rfl <;> rfl
  rcases hv'.text_cases hprint with ⟨vs, -, htext⟩ | ⟨ms, -, htext⟩ | ⟨s, htext⟩ | hscalar
  · rw [htext] at h
    exact absurd h (hv.ne_cons (by decide) _ _)
  · rw [htext] at h
    exact absurd h (hv.ne_cons (by decide) _ _)
  · rw [htext] at h
    exact absurd h (hv.ne_cons (by decide) _ _)
  · rw [← hend hv hr, h, hend hscalar hr']

/-- With a bracket or a quote before it, the other value is one of the same kind. -/
theorem string_unique {s : Bytes}
    (h : 0x22 :: (escaped s ++ [0x22]) ++ r = callText printG false v' ++ r') :
    0x22 :: (escaped s ++ [0x22]) = callText printG false v' := by
  rcases hv'.text_cases hprint with ⟨vs, -, htext⟩ | ⟨ms, -, htext⟩ | ⟨s', htext⟩ | hscalar
  · rw [htext] at h
    exact absurd (List.cons.inj h).1 (by decide)
  · rw [htext] at h
    exact absurd (List.cons.inj h).1 (by decide)
  · rw [htext] at h ⊢
    have hbody := (List.cons.inj h).2
    simp only [List.append_assoc, List.append_eq, List.singleton_append] at hbody
    have hsame := skipped_unique (skipString_escaped s r) (skipString_escaped s' r') hbody
    rw [hsame.1]
  · exact absurd h.symm (hscalar.ne_cons (by decide) _ _)

theorem array_unique {vs : List (List (JsonCall δ))} (hvs : ∀ v ∈ vs, ValueCalls v)
    (hunique : ∀ v ∈ vs, ∀ v', ValueCalls v' → ∀ r r', EndOfValue r → EndOfValue r' →
      callText printG false v ++ r = callText printG false v' ++ r' →
        callText printG false v = callText printG false v')
    (h : 0x5b :: (callText printG false vs.flatten ++ [0x5d]) ++ r =
      callText printG false v' ++ r') :
    0x5b :: (callText printG false vs.flatten ++ [0x5d]) = callText printG false v' := by
  rcases hv'.text_cases hprint with ⟨vs', hvs', htext⟩ | ⟨ms, -, htext⟩ | ⟨s', htext⟩ | hscalar
  · rw [htext] at h ⊢
    have hparts := (List.cons.inj h).2
    simp only [List.append_assoc, List.append_eq, List.singleton_append] at hparts
    rw [parts_unique (fun p hp => hp.part hprint) (.inr rfl) hvs hvs' hunique hparts]
  · rw [htext] at h
    exact absurd (List.cons.inj h).1 (by decide)
  · rw [htext] at h
    exact absurd (List.cons.inj h).1 (by decide)
  · exact absurd h.symm (hscalar.ne_cons (by decide) _ _)

end

/-- Calls that say a key and its value. -/
def MemberCalls (p : List (JsonCall δ)) : Prop := ∃ k v, p = .key k :: v ∧ ValueCalls v

theorem memberCalls_map {ms : List (CStr × List (JsonCall δ))} (h : ∀ m ∈ ms, ValueCalls m.2) :
    ∀ p ∈ ms.map (fun m => .key m.1 :: m.2), MemberCalls p := by
  intro p hp
  obtain ⟨m, hm, rfl⟩ := List.mem_map.1 hp
  exact ⟨m.1, m.2, rfl, h m hm⟩

/-- A member is unique if its value is. -/
theorem member_unique {k : CStr} {v p' : List (JsonCall δ)} {r r' : Bytes}
    (hunique : ∀ v', ValueCalls v' → ∀ r r', EndOfValue r → EndOfValue r' →
      callText printG false v ++ r = callText printG false v' ++ r' →
        callText printG false v = callText printG false v')
    (hp' : MemberCalls p') (hr : EndOfValue r) (hr' : EndOfValue r')
    (h : callText printG false (.key k :: v) ++ r = callText printG false p' ++ r') :
    callText printG false (.key k :: v) = callText printG false p' := by
  obtain ⟨k', v', rfl, hv'⟩ := hp'
  rw [callText_anyKey, callText_anyKey] at h ⊢
  have hkeys := (List.cons.inj h).2
  simp only [List.append_assoc, List.append_eq, List.cons_append] at hkeys
  obtain ⟨hkey, hvalue⟩ := skipped_unique (skipString_escapedKey k.bytes _)
    (skipString_escapedKey k'.bytes _) hkeys
  rw [hkey, hunique v' hv' r r' hr hr' (List.cons.inj hvalue).2]

theorem object_unique (hprint : ∀ d, FormatG (printG d).bytes) {v' : List (JsonCall δ)}
    (hv' : ValueCalls v') {r r' : Bytes} {ms : List (CStr × List (JsonCall δ))}
    (hms : ∀ m ∈ ms, ValueCalls m.2)
    (hunique : ∀ m ∈ ms, ∀ v', ValueCalls v' → ∀ r r', EndOfValue r → EndOfValue r' →
      callText printG false m.2 ++ r = callText printG false v' ++ r' →
        callText printG false m.2 = callText printG false v')
    (h : 0x7b :: (callText printG false (ms.flatMap fun m => .key m.1 :: m.2) ++ [0x7d]) ++ r =
      callText printG false v' ++ r') :
    0x7b :: (callText printG false (ms.flatMap fun m => .key m.1 :: m.2) ++ [0x7d]) =
      callText printG false v' := by
  rcases hv'.text_cases hprint with ⟨vs', -, htext⟩ | ⟨ms', hms', htext⟩ | ⟨s', htext⟩ | hscalar
  · rw [htext] at h
    exact absurd (List.cons.inj h).1 (by decide)
  · rw [htext, List.flatMap_def, List.flatMap_def] at h ⊢
    have hparts := (List.cons.inj h).2
    simp only [List.append_assoc, List.append_eq, List.singleton_append] at hparts
    have hpart (p : List (JsonCall δ)) (hp : MemberCalls p) : PartCalls printG p := by
      obtain ⟨k, v, rfl, hv⟩ := hp
      exact hv.member_part k
    rw [parts_unique hpart (.inl rfl) (memberCalls_map hms) (memberCalls_map hms') ?_ hparts]
    intro p hp p' hp' r r' hr hr'
    obtain ⟨m, hm, rfl⟩ := List.mem_map.1 hp
    exact member_unique (hunique m hm) hp' hr hr'
  · rw [htext] at h
    exact absurd (List.cons.inj h).1 (by decide)
  · exact absurd h.symm (hscalar.ne_cons (by decide) _ _)

/-- **No value's text begins another's**, when behind a number or a word there is a comma or a
bracket. -/
theorem value_unique (hprint : ∀ d, FormatG (printG d).bytes) {v v' : List (JsonCall δ)}
    (hv : ValueCalls v) (hv' : ValueCalls v') {r r' : Bytes}
    (hstops : ScalarText (callText printG false v) → EndOfValue r ∧ EndOfValue r')
    (h : callText printG false v ++ r = callText printG false v' ++ r') :
    callText printG false v = callText printG false v' := by
  induction hv generalizing v' r r' with
  | array vs hvs ih =>
    rw [callText_array] at h ⊢
    exact array_unique hprint hv' hvs (fun v hv v' hv' r r' hr hr' =>
      ih v hv hv' fun _ => ⟨hr, hr'⟩) h
  | object ms hms ih =>
    rw [callText_object] at h ⊢
    exact object_unique hprint hv' hms (fun m hm v' hv' r r' hr hr' =>
      ih m hm hv' fun _ => ⟨hr, hr'⟩) h
  | string s =>
    rw [callText_string] at h ⊢
    exact string_unique hprint hv' h
  | _ =>
    refine scalar_unique hprint hv' ?_ (hstops ?_).1 (hstops ?_).2 h
    all_goals exact scalarText_of_isScalar hprint rfl

end

end Qmem
