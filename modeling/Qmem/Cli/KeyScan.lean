import Qmem.EmitParts
import Qmem.Lib.Scan

/-!
# Keys in the builder's text

A reader that searches the text for `"key":` knows nothing of strings. It finds keys and nothing
else all the same, because of three facts about the text. A quote inside a string value has a
backslash before it, and an identifier has none. After the quote that closes a string value comes
a comma or a bracket, or nothing. And after the quote that closes a key comes a colon, which no
identifier begins with. So the pattern can begin only at the opening quote of a key.
-/

namespace Qmem

open CLib

def identChar (c : UInt8) : Bool :=
  (0x30 ≤ c && c ≤ 0x39) || (0x41 ≤ c && c ≤ 0x5a) || c == 0x5f || (0x61 ≤ c && c ≤ 0x7a)

/-- A non-empty identifier. -/
def identKey (k : CStr) : Bool := !k.bytes.isEmpty && k.bytes.all identChar

/-- `"key":`. -/
def keyPattern (k : CStr) : Bytes := 0x22 :: (k.bytes ++ [0x22, 0x3a])

/-- `{"key":`. -/
def objectPattern (k : CStr) : Bytes := 0x7b :: keyPattern k

theorem identKey_iff {k : CStr} :
    identKey k = true ↔ k.bytes ≠ [] ∧ ∀ c ∈ k.bytes, identChar c = true := by
  rw [identKey, Bool.and_eq_true, List.all_eq_true, Bool.not_eq_true', List.isEmpty_eq_false_iff]

theorem keyPattern_eq (k : CStr) : keyPattern k = 0x22 :: (k.bytes ++ [0x22]) ++ [0x3a] := by
  simp [keyPattern]

/-- A pattern that a buffer of 128 bytes has room for. -/
theorem keyPattern_take {k : CStr} (h : k.bytes.length ≤ 124) :
    (keyPattern k).take 127 = keyPattern k := by
  refine List.take_of_length_le ?_
  simp only [keyPattern, List.length_cons, List.length_append, List.length_nil]
  omega

/-- What may follow a value. -/
def Follows (rest : Bytes) : Prop := ∀ c ∈ rest.head?, c = 0x2c ∨ c = 0x7d ∨ c = 0x5d

theorem identChar_plain {c : UInt8} (h : identChar c = true) :
    c ≠ 0x22 ∧ c ≠ 0x5c ∧ c ≠ 0x3a ∧ c ≠ 0x7b ∧ c ≠ 0x5b ∧ ¬ c < 0x20 := by
  simp only [identChar, Bool.or_eq_true, Bool.and_eq_true, decide_eq_true_eq, beq_iff_eq,
    UInt8.le_iff_toNat_le, UInt8.lt_iff_toNat_lt, ← UInt8.toNat_inj, ne_eq] at h ⊢
  simp at h ⊢
  omega

/-- An identifier between its quotes has no other characters. -/
theorem not_mem_quoted {k : CStr} (h : identKey k = true) {c : UInt8} (hc : identChar c = false)
    (hquote : c ≠ 0x22) : c ∉ 0x22 :: (k.bytes ++ [0x22]) := by
  intro hmem
  simp only [List.mem_cons, List.mem_append, List.not_mem_nil, or_false] at hmem
  rcases hmem with hmem | hmem | hmem
  · exact hquote hmem
  · rw [(identKey_iff.1 h).2 c hmem] at hc
    cases hc
  · exact hquote hmem

/-- The first colon is the one behind the key. -/
theorem strchr_keyPattern {k : CStr} (h : identKey k = true) (rest : Bytes) :
    strchr (keyPattern k ++ rest) 0x3a = some (0x3a :: rest) := by
  rw [keyPattern_eq, List.append_assoc, List.singleton_append]
  exact strchr_append (not_mem_quoted h rfl (by decide))

/-- An identifier is written as it is. -/
theorem escapeKey_of_ident {k : CStr} (h : identKey k = true) :
    (k.bytes.map escapeKeyByte).flatten = k.bytes := by
  have hsame : ∀ c ∈ k.bytes, escapeKeyByte c = [c] := by
    intro c hc
    obtain ⟨h₁, h₂, -, -, -, h₃⟩ := identChar_plain ((identKey_iff.1 h).2 c hc)
    have hctrl (d : UInt8) (hd : d < 0x20) : c ≠ d := fun heq => h₃ (heq ▸ hd)
    rw [escapeKeyByte, if_neg h₁, if_neg h₂, if_neg (hctrl _ (by decide)),
      if_neg (hctrl _ (by decide)), if_neg (hctrl _ (by decide))]
  rw [List.map_congr_left hsame, ← List.flatMap_def, List.flatMap_singleton']

/-! ## Inside a string -/

/-- The escaped bytes of a string value. -/
def escaped (s : Bytes) : Bytes := (s.map escapeStringByte).flatten

theorem escaped_cons (c : UInt8) (s : Bytes) :
    escaped (c :: s) = escapeStringByte c ++ escaped s := by
  rw [escaped, List.map_cons, List.flatten_cons]
  rfl

/-- A byte is written as it is, or begins with a backslash. In the second case a quote can only
stand right behind it, and nothing more. -/
theorem escapeStringByte_cases (c : UInt8) :
    (escapeStringByte c = [c] ∧ c ≠ 0x22 ∧ c ≠ 0x5c) ∨ escapeStringByte c = [0x5c, 0x22] ∨
      ∃ t, escapeStringByte c = 0x5c :: t ∧ 0x22 ∉ t := by
  unfold escapeStringByte
  split_ifs with h₁ h₂ h₃ h₄ h₅ h₆
  · exact .inr (.inl rfl)
  · exact .inr (.inr ⟨_, rfl, by decide⟩)
  · exact .inr (.inr ⟨_, rfl, by decide⟩)
  · exact .inr (.inr ⟨_, rfl, by decide⟩)
  · exact .inr (.inr ⟨_, rfl, by decide⟩)
  · have hdigit : ∀ n < 16, hexDigit n ≠ 0x22 := by decide
    have hlt := c.toNat_lt
    have hhigh := hdigit (c.toNat / 16) (by omega)
    have hlow := hdigit (c.toNat % 16) (by omega)
    exact .inr (.inr ⟨_, rfl, by simp [hhigh.symm, hlow.symm]⟩)
  · exact .inl ⟨rfl, h₁, h₂⟩

/-- Identifier characters and a quote with a colon stand at the end of no string value. -/
theorem not_prefix_escaped {w rest : Bytes} (hw : ∀ c ∈ w, identChar c = true)
    (hrest : Follows rest) (s : Bytes) :
    ¬ w ++ [0x22, 0x3a] <+: escaped s ++ 0x22 :: rest := by
  induction s generalizing w with
  | nil =>
    intro hpre
    cases w with
    | nil =>
      obtain ⟨t, ht⟩ := (List.cons_prefix_cons.1 hpre).2
      rcases hrest 0x3a (by rw [← ht]; rfl) with h | h | h <;> exact absurd h (by decide)
    | cons d w =>
      exact (identChar_plain (hw d List.mem_cons_self)).1 (List.cons_prefix_cons.1 hpre).1
  | cons c s ih =>
    intro hpre
    -- the first byte, if it is a backslash, begins neither an identifier nor the quote
    have hbackslash {t : Bytes} (h : escapeStringByte c = 0x5c :: t) : False := by
      rw [escaped_cons, h] at hpre
      cases w with
      | nil => exact absurd (List.cons_prefix_cons.1 hpre).1 (by decide)
      | cons d w =>
        exact (identChar_plain (hw d List.mem_cons_self)).2.1 (List.cons_prefix_cons.1 hpre).1
    rcases escapeStringByte_cases c with ⟨h, hquote, -⟩ | h | ⟨t, h, -⟩
    · rw [escaped_cons, h] at hpre
      cases w with
      | nil => exact hquote (List.cons_prefix_cons.1 hpre).1.symm
      | cons d w =>
        exact ih (fun c hc => hw c (List.mem_cons_of_mem d hc)) (List.cons_prefix_cons.1 hpre).2
    · exact hbackslash h
    · exact hbackslash h

section

variable {k : CStr} {rest : Bytes}

/-- The pattern does not begin at the quote that closes a string value. -/
theorem not_prefix_closing (hk : identKey k = true) (hrest : Follows rest) :
    ¬ keyPattern k <+: 0x22 :: rest := by
  obtain ⟨hne, hident⟩ := identKey_iff.1 hk
  intro hpre
  obtain ⟨t, ht⟩ := (List.cons_prefix_cons.1 hpre).2
  obtain ⟨d, w, hw⟩ := List.exists_cons_of_ne_nil hne
  have hd : identChar d = true := hident d (by rw [hw]; exact List.mem_cons_self)
  rcases hrest d (by rw [← ht, hw]; rfl) with rfl | rfl | rfl <;> exact absurd hd (by decide)

/-- A pattern that begins with a quote does not begin in a string value, if it does not begin at
the quotes around the value. -/
theorem skips_quoted {t : Bytes} (hopen : ∀ s, ¬ 0x22 :: t <+: 0x22 :: (escaped s ++ 0x22 :: rest))
    (hclose : ¬ 0x22 :: t <+: 0x22 :: rest) (s : Bytes) :
    Skips (0x22 :: t) (0x22 :: (escaped s ++ [0x22])) rest := by
  have hbody : Skips (0x22 :: t) (escaped s ++ [0x22]) rest := by
    induction s with
    | nil => exact .cons hclose skips_nil
    | cons c s ih =>
      rw [escaped_cons, List.append_assoc]
      refine .append ?_ ih
      rcases escapeStringByte_cases c with ⟨h, hquote, -⟩ | h | ⟨t', h, ht⟩
      · rw [h]
        exact skips_of_not_mem (by simpa using hquote.symm)
      · rw [h]
        refine .cons (fun hpre => absurd (List.cons_prefix_cons.1 hpre).1 (by decide))
          (.cons ?_ skips_nil)
        simpa using hopen s
      · rw [h]
        refine skips_of_not_mem fun hmem => ?_
        rcases List.mem_cons.1 hmem with hmem | hmem
        · exact absurd hmem (by decide)
        · exact ht hmem
  refine .cons ?_ hbody
  simpa using hopen s

/-- The pattern of a key does not. -/
theorem skips_string (hk : identKey k = true) (hrest : Follows rest) (s : Bytes) :
    Skips (keyPattern k) (0x22 :: (escaped s ++ [0x22])) rest :=
  skips_quoted (fun s hpre => not_prefix_escaped (identKey_iff.1 hk).2 hrest s
    (List.cons_prefix_cons.1 hpre).2) (not_prefix_closing hk hrest) s

/-! ## Keys -/

/-- It does not begin behind the quote that opens a key. -/
theorem skips_key_tail {k' : CStr} (hk : identKey k = true) (hk' : identKey k' = true) :
    Skips (keyPattern k) (k'.bytes ++ [0x22, 0x3a]) rest := by
  refine .append ?_ (.cons ?_ (skips_of_not_mem (by decide)))
  · exact skips_of_not_mem fun hmem =>
      (identChar_plain ((identKey_iff.1 hk').2 _ hmem)).1 rfl
  · obtain ⟨hne, hident⟩ := identKey_iff.1 hk
    obtain ⟨d, w, hw⟩ := List.exists_cons_of_ne_nil hne
    rw [keyPattern, hw]
    intro hpre
    have hd := (List.cons_prefix_cons.1 (List.cons_prefix_cons.1 hpre).2).1
    exact (identChar_plain (hident d (by rw [hw]; exact List.mem_cons_self))).2.2.1 hd

/-- At a key it begins if the key is the right one. -/
theorem keyPattern_prefix_iff {k' : CStr} (hk : identKey k = true) (hk' : identKey k' = true) :
    keyPattern k <+: keyPattern k' ++ rest ↔ k' = k := by
  constructor
  · intro hpre
    obtain ⟨t, ht⟩ := (List.cons_prefix_cons.1 hpre).2
    have hend {k : CStr} (hk : identKey k = true) (rest : Bytes) :
        (k.bytes ++ 0x22 :: rest).takeWhile (· != 0x22) = k.bytes :=
      Json.takeWhile_of_all
        (fun c hc => bne_iff_ne.2 (identChar_plain ((identKey_iff.1 hk).2 c hc)).1) (by simp)
    have hboth := congrArg (List.takeWhile (· != 0x22)) ht
    simp only [List.append_assoc, List.append_eq, List.cons_append] at hboth
    rw [hend hk, hend hk'] at hboth
    exact CStr.ext hboth.symm
  · rintro rfl
    exact List.prefix_append _ _

end

/-! ## Calls -/

section

variable {δ : Type} (printG : δ → CStr)

/-- The text that calls write, given whether a comma is owed. -/
def callText (b : Bool) (cs : List (JsonCall δ)) : Bytes := (callTokens printG b cs).flatten

theorem callText_nil (b : Bool) : callText printG b [] = [] := rfl

theorem callText_cons (b : Bool) (c : JsonCall δ) (cs : List (JsonCall δ)) :
    callText printG b (c :: cs) = (c.tokens printG b).flatten ++ callText printG c.owesComma cs :=
  List.flatten_append

theorem callText_append (b : Bool) (cs ds : List (JsonCall δ)) :
    callText printG b (cs ++ ds) =
      callText printG b cs ++ callText printG (commaAfter b cs) ds := by
  rw [callText, callTokens_append, List.flatten_append]
  rfl

/-- Every key is an identifier. -/
def IdentKeys (cs : List (JsonCall δ)) : Prop := ∀ c ∈ cs, ∀ k ∈ c.key?, identKey k = true

theorem identKeys_of_all {cs : List (JsonCall δ)} (h : cs.all (·.key?.all identKey) = true) :
    IdentKeys cs := by
  intro c hc k hk
  have hkey := List.all_eq_true.1 h c hc
  rw [Option.mem_def] at hk
  rwa [hk] at hkey

namespace JsonCall

/-- The comma that is owed before a call. -/
def commaText (b : Bool) : JsonCall δ → Bytes
  | .objectEnd | .arrayEnd => []
  | _ => if b then [0x2c] else []

def isObjectStart : JsonCall δ → Bool
  | .objectStart => true
  | _ => false

def keyText (c : JsonCall δ) : Bytes := (c.key?.map keyPattern).getD []

def valueText : JsonCall δ → Bytes
  | .objectStart => [0x7b]
  | .objectEnd => [0x7d]
  | .arrayStart => [0x5b]
  | .arrayEnd => [0x5d]
  | .key _ => []
  | .string v | .kvString _ v => (stringTokens v).flatten
  | .int v | .kvInt _ v => decInt v.toInt
  | .uint v | .kvUint _ v => decNat v.toNat
  | .double v | .kvDouble _ v => (printG v).bytes
  | .bool v | .kvBool _ v => jsonBoolText v
  | .null => jsonNullText

end JsonCall

/-- A call writes the comma, its key and its value. -/
theorem tokens_text (b : Bool) {c : JsonCall δ} (hident : ∀ k ∈ c.key?, identKey k = true) :
    (c.tokens printG b).flatten = c.commaText b ++ (c.keyText ++ c.valueText printG) := by
  have hkey (k : CStr) (h : identKey k = true) :
      (keyTokens b k).flatten = (if b then [0x2c] else []) ++ keyPattern k := by
    have hbody := escapeKey_of_ident h
    cases b <;> simp [keyTokens, commaTokens, keyPattern, hbody]
  cases c with
  | objectEnd => rfl
  | arrayEnd => rfl
  | key k =>
    exact (hkey k (hident k rfl)).trans (by simp [JsonCall.commaText, JsonCall.keyText,
      JsonCall.valueText, JsonCall.key?])
  | kvString k v | kvInt k v | kvUint k v | kvDouble k v | kvBool k v =>
    simp [JsonCall.tokens, hkey k (hident k rfl), JsonCall.commaText, JsonCall.keyText,
      JsonCall.valueText, JsonCall.key?]
  | _ =>
    cases b <;> simp [JsonCall.tokens, commaTokens, JsonCall.commaText, JsonCall.keyText,
      JsonCall.valueText, JsonCall.key?]

theorem follows_callText (cs : List (JsonCall δ)) : Follows (callText printG true cs) := by
  intro d hd
  cases cs with
  | nil => cases hd
  | cons c cs =>
    cases c <;> simp_all [callText, callTokens, JsonCall.tokens, commaTokens, keyTokens]

variable {printG} (hprint : ∀ d, 0x22 ∉ (printG d).bytes) {k : CStr} (hk : identKey k = true)
  {c : JsonCall δ} {cs : List (JsonCall δ)} {rest : Bytes}

theorem not_mem_decNat {d : UInt8} (hd : Json.isDigit d = false) (n : Nat) : d ∉ decNat n :=
  fun hmem => by
    rw [Json.decNat_all_digit n d hmem] at hd
    cases hd

theorem not_mem_decInt {d : UInt8} (hd : Json.isNumChar d = false) (i : Int) : d ∉ decInt i :=
  fun hmem => by
    rw [Json.decInt_all_numChar i d hmem] at hd
    cases hd

theorem skips_commaText (b : Bool) (c : JsonCall δ) {d : UInt8} (hd : d ≠ 0x2c) (needle : Bytes) :
    Skips (d :: needle) (c.commaText b) rest := by
  refine skips_of_not_mem ?_
  cases c <;> cases b <;> simp [JsonCall.commaText, hd]

include hprint in
/-- A pattern that begins with a quote does not begin in a value, if it does not in a string. -/
theorem skips_value {t : Bytes}
    (hstring : ∀ s, Follows rest → Skips (0x22 :: t) (0x22 :: (escaped s ++ [0x22])) rest)
    (hrest : c.owesComma = true → Follows rest) :
    Skips (0x22 :: t) (c.valueText printG) rest := by
  have hvalue (v : Option CStr) (hrest : Follows rest) :
      Skips (0x22 :: t) (stringTokens v).flatten rest := by
    cases v with
    | none => exact skips_of_not_mem (by decide)
    | some v => simpa [stringTokens, escaped] using hstring v.bytes hrest
  cases c with
  | key k' => exact skips_nil
  | string v => exact hvalue v (hrest rfl)
  | kvString k' v => exact hvalue v (hrest rfl)
  | int v | kvInt k' v => exact skips_of_not_mem (not_mem_decInt (by decide) _)
  | uint v | kvUint k' v => exact skips_of_not_mem (not_mem_decNat (by decide) _)
  | double v | kvDouble k' v => exact skips_of_not_mem (hprint v)
  | bool v | kvBool k' v =>
    have hbool : 0x22 ∉ jsonBoolText v := by cases v <;> decide
    exact skips_of_not_mem hbool
  | _ => exact skips_of_not_mem (by simp [JsonCall.valueText, jsonNullText])

include hprint hk in
theorem skips_valueText (hrest : c.owesComma = true → Follows rest) :
    Skips (keyPattern k) (c.valueText printG) rest :=
  skips_value hprint (fun s hrest => skips_string hk hrest s) hrest

theorem follows_rest (h : c.owesComma = true) : Follows (callText printG c.owesComma cs) := by
  rw [h]
  exact follows_callText printG cs

include hprint hk in
/-- It does not begin in a call, if the call's key is another or there is none. -/
theorem skips_call (b : Bool) (hident : ∀ k' ∈ c.key?, identKey k' = true)
    (hkey : c.key? ≠ some k) :
    Skips (keyPattern k) (c.tokens printG b).flatten (callText printG c.owesComma cs) := by
  rw [tokens_text printG b hident]
  refine .append (skips_commaText b c (by decide) _) (.append ?_ ?_)
  · cases hc : c.key? with
    | none =>
      rw [JsonCall.keyText, hc]
      exact skips_nil
    | some k' =>
      have hk' := hident k' hc
      rw [JsonCall.keyText, hc]
      refine .cons (fun hpre => hkey ?_) (skips_key_tail hk hk')
      rw [hc, (keyPattern_prefix_iff hk hk').1 hpre]
  · exact skips_valueText hprint hk follows_rest

/-! ## Searching for a key -/

/-- The calls from the first one on that has the key. -/
def firstKey (k : CStr) : List (JsonCall δ) → Option (List (JsonCall δ))
  | [] => none
  | c :: cs => if c.key? = some k then some (c :: cs) else firstKey k cs

/-- A call that has a key writes the comma, the key, the value. -/
theorem callText_field (b : Bool) (hk : identKey k = true) (hkey : c.key? = some k) :
    callText printG b (c :: cs) =
      (if b then [0x2c] else []) ++
        (keyPattern k ++ (c.valueText printG ++ callText printG c.owesComma cs)) := by
  have hident : ∀ k' ∈ c.key?, identKey k' = true := fun k' hk' => by
    rw [hkey] at hk'
    rwa [← Option.some.inj hk']
  have hcomma : c.commaText b = if b then [0x2c] else [] := by cases c <;> first | rfl | cases hkey
  rw [callText_cons, tokens_text printG b hident, JsonCall.keyText, hkey, hcomma]
  simp only [Option.map_some, Option.getD_some, List.append_assoc]

theorem callText_key (printG : δ → CStr) (cs : List (JsonCall δ)) (b : Bool)
    (hk : identKey k = true) (hkey : c.key? = some k) :
    callText printG b (c :: cs) = (if b then [0x2c] else []) ++ callText printG false (c :: cs) ∧
      keyPattern k <+: callText printG false (c :: cs) := by
  rw [callText_field b hk hkey, callText_field false hk hkey]
  exact ⟨rfl, List.prefix_append _ _⟩

/-- What comes before a field does not hold the quote it starts with. -/
theorem skips_comma (b : Bool) (needle : Bytes) :
    Skips (0x22 :: needle) (if b then [0x2c] else []) rest :=
  skips_of_not_mem (by cases b <;> decide)

include hprint hk in
/-- **The search for a key finds the first call that has it.** -/
theorem strstr_keyPattern (b : Bool) (hident : IdentKeys cs) :
    strstr (callText printG b cs) (keyPattern k) = (firstKey k cs).map (callText printG false) := by
  induction cs generalizing b with
  | nil => rfl
  | cons c cs ih =>
    have hc := hident c List.mem_cons_self
    rw [firstKey]
    split
    · case isTrue hkey =>
      obtain ⟨htext, hpre⟩ := callText_key printG cs b hk hkey
      rw [htext]
      exact (strstr_skips (skips_comma b _)).trans (strstr_here hpre)
    · case isFalse hkey =>
      rw [callText_cons, strstr_skips (skips_call hprint hk b hc hkey)]
      exact ih _ fun c hc => hident c (List.mem_cons_of_mem _ hc)

/-- The calls write strings, and nothing else, under the key. -/
def StringKey (k : CStr) (cs : List (JsonCall δ)) : Prop :=
  ∀ c ∈ cs, c.key? = some k → ∃ v, c = .kvString k (some v)

/-- The same with signed numbers. -/
def IntKey (k : CStr) (cs : List (JsonCall δ)) : Prop :=
  ∀ c ∈ cs, c.key? = some k → ∃ v, c = .kvInt k v

include hprint hk in
/-- The search for a key with the quote that opens its value. -/
theorem strstr_stringPattern (b : Bool) (hident : IdentKeys cs) (hstring : StringKey k cs) :
    strstr (callText printG b cs) (keyPattern k ++ [0x22]) =
      (firstKey k cs).map (callText printG false) := by
  induction cs generalizing b with
  | nil => rfl
  | cons c cs ih =>
    have hc := hident c List.mem_cons_self
    rw [firstKey]
    split
    · case isTrue hkey =>
      obtain ⟨v, rfl⟩ := hstring c List.mem_cons_self hkey
      have hpre : keyPattern k ++ [0x22] <+:
          callText printG false (.kvString k (some v) :: cs) := by
        rw [callText_field false hk hkey]
        exact (List.prefix_append_right_inj _).2 (List.cons_prefix_cons.2 ⟨rfl, List.nil_prefix⟩)
      rw [(callText_key printG cs b hk hkey).1]
      exact (strstr_skips (skips_comma b _)).trans (strstr_here hpre)
    · case isFalse hkey =>
      have hskips : Skips (keyPattern k ++ [0x22]) (c.tokens printG b).flatten
          (callText printG c.owesComma cs) := fun n hn hpre =>
        skips_call hprint hk b hc hkey n hn ((List.prefix_append _ _).trans hpre)
      rw [callText_cons, strstr_skips hskips]
      exact ih _ (fun c hc => hident c (List.mem_cons_of_mem _ hc))
        fun c hc => hstring c (List.mem_cons_of_mem _ hc)

/-! ## Two quotes -/

/-- Two quotes with a letter behind them are nowhere: behind an empty string comes a comma or a
bracket. -/
theorem skips_doubled_string {d : UInt8} (hd : identChar d = true) (w : Bytes)
    (hrest : Follows rest) (s : Bytes) :
    Skips (0x22 :: 0x22 :: d :: w) (0x22 :: (escaped s ++ [0x22])) rest := by
  refine skips_quoted (fun s hpre => ?_) (fun hpre => ?_) s
  · have htail := (List.cons_prefix_cons.1 hpre).2
    cases s with
    | nil =>
      obtain ⟨t, ht⟩ := (List.cons_prefix_cons.1 htail).2
      rcases hrest d (by rw [← ht]; rfl) with rfl | rfl | rfl <;> exact absurd hd (by decide)
    | cons c s =>
      rw [escaped_cons] at htail
      rcases escapeStringByte_cases c with ⟨h, hquote, -⟩ | h | ⟨t, h, -⟩
      · rw [h] at htail
        exact hquote (List.cons_prefix_cons.1 htail).1.symm
      · rw [h] at htail
        exact absurd (List.cons_prefix_cons.1 htail).1 (by decide)
      · rw [h] at htail
        exact absurd (List.cons_prefix_cons.1 htail).1 (by decide)
  · obtain ⟨t, ht⟩ := (List.cons_prefix_cons.1 hpre).2
    rcases hrest 0x22 (by rw [← ht]; rfl) with h | h | h <;> exact absurd h (by decide)

theorem skips_doubled_key {k' : CStr} (hk' : identKey k' = true) (w : Bytes) :
    Skips (0x22 :: 0x22 :: w) (keyPattern k') rest := by
  obtain ⟨hne, hident⟩ := identKey_iff.1 hk'
  obtain ⟨e, v, hv⟩ := List.exists_cons_of_ne_nil hne
  refine .cons (fun hpre => ?_) (.append ?_ (.cons (fun hpre => ?_) (skips_of_not_mem (by decide))))
  · rw [hv] at hpre
    have he := (List.cons_prefix_cons.1 (List.cons_prefix_cons.1 hpre).2).1
    exact (identChar_plain (hident e (by rw [hv]; exact List.mem_cons_self))).1 he.symm
  · exact skips_of_not_mem fun hmem => (identChar_plain (hident _ hmem)).1 rfl
  · exact absurd (List.cons_prefix_cons.1 (List.cons_prefix_cons.1 hpre).2).1 (by decide)

include hprint in
theorem strstr_doubled {d : UInt8} (hd : identChar d = true) (w : Bytes) (b : Bool)
    (hident : IdentKeys cs) :
    strstr (callText printG b cs) (0x22 :: 0x22 :: d :: w) = none := by
  induction cs generalizing b with
  | nil => rfl
  | cons c cs ih =>
    have hc := hident c List.mem_cons_self
    have hskips : Skips (0x22 :: 0x22 :: d :: w) (c.tokens printG b).flatten
        (callText printG c.owesComma cs) := by
      rw [tokens_text printG b hc]
      refine .append (skips_commaText b c (by decide) _) (.append ?_ ?_)
      · cases hkey : c.key? with
        | none =>
          rw [JsonCall.keyText, hkey]
          exact skips_nil
        | some k' =>
          rw [JsonCall.keyText, hkey]
          exact skips_doubled_key (hc k' hkey) _
      · exact skips_value hprint (fun s hrest => skips_doubled_string hd w hrest s) follows_rest
    rw [callText_cons, strstr_skips hskips]
    exact ih _ fun c hc => hident c (List.mem_cons_of_mem _ hc)

/-! ## Searching for an object -/

/-- Where an object starts whose first key is `k`. -/
def opensWith (k : CStr) : List (JsonCall δ) → Bool
  | .objectStart :: c :: _ => c.key? == some k
  | _ => false

/-- The calls from each such place on. -/
def objectsWith (k : CStr) : List (JsonCall δ) → List (List (JsonCall δ))
  | [] => []
  | c :: cs =>
    if opensWith k (c :: cs) then (c :: cs) :: objectsWith k cs else objectsWith k cs

theorem opensWith_objectStart :
    opensWith k (.objectStart :: cs) = true ↔ ∃ c ∈ cs.head?, c.key? = some k := by
  cases cs <;> simp [opensWith]

theorem keyPattern_not_prefix_of_follows (hrest : Follows rest) : ¬ keyPattern k <+: rest := by
  intro hpre
  obtain ⟨t, ht⟩ := hpre
  rcases hrest 0x22 (by rw [← ht]; rfl) with h | h | h <;> exact absurd h (by decide)

include hprint hk in
/-- The text from a call on begins with the pattern if the call has the key. -/
theorem keyPattern_prefix_callText (hident : IdentKeys cs) :
    keyPattern k <+: callText printG false cs ↔ ∃ c ∈ cs.head?, c.key? = some k := by
  cases cs with
  | nil => simp [callText_nil, keyPattern]
  | cons c cs =>
    have hc := hident c List.mem_cons_self
    simp only [List.head?_cons, Option.mem_some_iff, exists_eq_left']
    refine ⟨fun hpre => ?_, fun hkey => (callText_key printG cs false hk hkey).2⟩
    by_contra hkey
    have hskips : Skips (keyPattern k) (c.tokens printG false).flatten
        (callText printG c.owesComma cs) := skips_call hprint hk false hc hkey
    rw [callText_cons] at hpre
    cases htext : (c.tokens printG false).flatten with
    | nil =>
      -- a number whose text is empty: what follows is a comma or a bracket
      rw [htext] at hpre
      cases howes : c.owesComma with
      | true =>
        rw [howes] at hpre
        exact keyPattern_not_prefix_of_follows (follows_callText printG cs) hpre
      | false => cases c <;> simp_all [JsonCall.tokens, keyTokens, commaTokens, JsonCall.owesComma]
    | cons d text =>
      rw [htext] at hpre hskips
      exact hskips 0 (Nat.succ_pos _) hpre

/-- A pattern that begins with a brace cannot begin where the rest of it does not go on. -/
theorem skips_brace {front : Bytes} (h : Skips (keyPattern k) front rest)
    (hrest : ¬ keyPattern k <+: rest) : Skips (objectPattern k) front rest := by
  intro n hn hpre
  have hin : n < (front ++ rest).length := by
    rw [List.length_append]
    omega
  rw [List.drop_eq_getElem_cons hin] at hpre
  have hnext := (List.cons_prefix_cons.1 hpre).2
  by_cases hlt : n + 1 < front.length
  · exact h (n + 1) hlt hnext
  · rw [List.drop_left' (by omega)] at hnext
    exact hrest hnext

include hprint hk in
theorem skips_object_call (b : Bool) (hident : ∀ k' ∈ c.key?, identKey k' = true)
    (hc : c.isObjectStart = false) :
    Skips (objectPattern k) (c.tokens printG b).flatten (callText printG c.owesComma cs) := by
  rw [tokens_text printG b hident]
  refine .append (skips_commaText b c (by decide) _) (.append ?_ ?_)
  · refine skips_of_not_mem fun hmem => ?_
    cases hkey : c.key? with
    | none => simp [JsonCall.keyText, hkey] at hmem
    | some k' =>
      simp only [JsonCall.keyText, hkey, Option.map_some, Option.getD_some, keyPattern_eq] at hmem
      rcases List.mem_append.1 hmem with hmem | hmem
      · exact not_mem_quoted (hident k' hkey) rfl (by decide) hmem
      · exact absurd hmem (by decide)
  · cases howes : c.owesComma with
    | true =>
      have hrest := follows_callText printG cs
      exact skips_brace (skips_valueText hprint hk fun _ => hrest)
        (keyPattern_not_prefix_of_follows hrest)
    | false =>
      cases c with
      | key k' => exact skips_nil
      | arrayStart => exact skips_of_not_mem (by simp [JsonCall.valueText])
      | _ => simp_all [JsonCall.owesComma, JsonCall.isObjectStart]

include hprint hk in
/-- **The search for an object finds every object that starts with the key.** -/
theorem scan_objectPattern (b : Bool) (hident : IdentKeys cs) :
    scan (objectPattern k) (callText printG b cs) =
      (objectsWith k cs).map (callText printG false) := by
  induction cs generalizing b with
  | nil => exact scan_none rfl
  | cons c cs ih =>
    have hc := hident c List.mem_cons_self
    have hcs : IdentKeys cs := fun c hc => hident c (List.mem_cons_of_mem _ hc)
    cases hstart : c.isObjectStart with
    | false =>
      have hno : opensWith k (c :: cs) = false := by
        cases c <;> first | rfl | cases hstart
      rw [callText_cons, scan_skips (skips_object_call hprint hk b hc hstart), ih _ hcs,
        objectsWith, hno]
      rfl
    | true =>
      obtain rfl : c = .objectStart := by cases c <;> first | rfl | cases hstart
      have hbrace : callText printG false (.objectStart :: cs) = 0x7b :: callText printG false cs :=
        rfl
      have htext : callText printG b (.objectStart :: cs) =
          (if b then [0x2c] else []) ++ callText printG false (.objectStart :: cs) := by
        cases b <;> rfl
      have hcomma : Skips (objectPattern k) (if b then [0x2c] else [])
          (callText printG false (.objectStart :: cs)) :=
        skips_of_not_mem (by cases b <;> decide)
      have hnext := keyPattern_prefix_callText hprint hk hcs
      rw [htext, scan_skips hcomma, hbrace, objectsWith]
      split
      · case isTrue hopens =>
        rw [opensWith_objectStart, ← hnext] at hopens
        have hpre : objectPattern k <+: 0x7b :: callText printG false cs :=
          List.cons_prefix_cons.2 ⟨rfl, hopens⟩
        rw [scan_here hpre, ih false hcs]
        rfl
      · case isFalse hopens =>
        rw [opensWith_objectStart, ← hnext] at hopens
        have hskip : Skips (objectPattern k) [0x7b] (callText printG false cs) :=
          .cons (fun hpre => hopens (List.cons_prefix_cons.1 hpre).2) skips_nil
        exact (scan_skips hskip).trans (ih false hcs)

/-! ## Where keys and objects are -/

/-- Offsets where a call writes the key. -/
def KeyAt (printG : δ → CStr) (b : Bool) (cs : List (JsonCall δ)) (k : CStr) (n : Nat) : Prop :=
  ∃ front c back, cs = front ++ c :: back ∧ c.key? = some k ∧
    n = (callText printG b front).length + if commaAfter b front then 1 else 0

/-- Offsets where an object starts whose first key it is. -/
def ObjectAt (printG : δ → CStr) (b : Bool) (cs : List (JsonCall δ)) (k : CStr) (n : Nat) : Prop :=
  ∃ front c back, cs = front ++ .objectStart :: c :: back ∧ c.key? = some k ∧
    n = (callText printG b front).length + if commaAfter b front then 1 else 0

include hprint hk in
/-- Behind its first byte the key's own call is like any other. -/
theorem skips_field_tail :
    Skips (keyPattern k) (k.bytes ++ [0x22, 0x3a] ++ c.valueText printG)
      (callText printG c.owesComma cs) :=
  .append (skips_key_tail hk hk) (skips_valueText hprint hk follows_rest)

theorem commaText_length (b : Bool) :
    (if b then [0x2c] else [] : Bytes).length = if b then 1 else 0 := by
  cases b <;> rfl

include hprint hk in
theorem keyPattern_at_field (b : Bool) {n : Nat} (hkey : c.key? = some k)
    (hlt : n < (c.tokens printG b).flatten.length)
    (hpre : keyPattern k <+: (callText printG b (c :: cs)).drop n) : n = if b then 1 else 0 := by
  set comma : Bytes := if b then [0x2c] else [] with hcomma
  have hlen : comma.length = if b then 1 else 0 := commaText_length b
  set tail := k.bytes ++ [0x22, 0x3a] ++ c.valueText printG with htail
  have htext (cs : List (JsonCall δ)) : callText printG b (c :: cs) =
      comma ++ 0x22 :: (tail ++ callText printG c.owesComma cs) := by
    rw [callText_field b hk hkey, keyPattern, ← hcomma]
    simp only [htail, List.cons_append, List.nil_append, List.append_assoc]
  have hone := congrArg List.length (htext [])
  rw [callText_cons] at hone
  simp only [callText_nil, List.append_nil, List.length_append, List.length_cons] at hone
  rw [htext] at hpre
  rcases lt_trichotomy n comma.length with hn | hn | hn
  · exact absurd hpre (skips_comma b _ n hn)
  · rw [hn, hlen]
  · obtain ⟨m, rfl⟩ := Nat.exists_eq_add_of_lt hn
    rw [Nat.add_assoc, List.drop_length_add_append, List.drop_succ_cons] at hpre
    have hm : m < tail.length := by omega
    exact absurd hpre (skips_field_tail hprint hk m hm)

include hprint hk in
/-- **The pattern stands at the offsets where the key is written, and nowhere else.** -/
theorem keyPattern_at_iff (b : Bool) (n : Nat) (hident : IdentKeys cs) :
    keyPattern k <+: (callText printG b cs).drop n ↔ KeyAt printG b cs k n := by
  constructor
  · intro hpre
    induction cs generalizing b n with
    | nil => simp [callText_nil, keyPattern] at hpre
    | cons c cs ih =>
      have hc := hident c List.mem_cons_self
      by_cases hlt : n < (c.tokens printG b).flatten.length
      · -- the call itself
        by_cases hkey : c.key? = some k
        · refine ⟨[], c, cs, rfl, hkey, ?_⟩
          rw [commaAfter_nil, callText_nil, List.length_nil, Nat.zero_add]
          exact keyPattern_at_field hprint hk b hkey hlt hpre
        · rw [callText_cons] at hpre
          exact absurd hpre (skips_call hprint hk b hc hkey n hlt)
      · rw [callText_cons, List.drop_append, List.drop_eq_nil_of_le (by omega),
          List.nil_append] at hpre
        obtain ⟨front, d, back, hcs, hkey, hn⟩ :=
          ih _ _ (fun c hc => hident c (List.mem_cons_of_mem _ hc)) hpre
        refine ⟨c :: front, d, back, by rw [hcs]; rfl, hkey, ?_⟩
        rw [callText_cons, List.length_append, commaAfter_cons]
        omega
  · rintro ⟨front, c, back, rfl, hkey, rfl⟩
    obtain ⟨htext, hpre⟩ := callText_key printG back (commaAfter b front) hk hkey
    rw [callText_append, htext, ← List.append_assoc, List.drop_left' (by
      rw [List.length_append, commaText_length])]
    exact hpre

/-- What does not owe a comma ends with a bracket or a colon. -/
theorem tokens_last (printG : δ → CStr) (b : Bool) (hident : ∀ k' ∈ c.key?, identKey k' = true)
    (howes : c.owesComma = false) :
    (c = .objectStart ∧ (c.tokens printG b).flatten = (if b then [0x2c] else []) ++ [0x7b]) ∨
      ∃ text d, d ≠ 0x7b ∧ (c.tokens printG b).flatten = text ++ [d] := by
  cases c with
  | objectStart => exact .inl ⟨rfl, by cases b <;> rfl⟩
  | arrayStart => exact .inr ⟨if b then [0x2c] else [], 0x5b, by decide, by cases b <;> rfl⟩
  | key k' =>
    refine .inr ⟨(if b then [0x2c] else []) ++ 0x22 :: (k'.bytes ++ [0x22]), 0x3a, by decide, ?_⟩
    rw [tokens_text printG b hident]
    simp [JsonCall.commaText, JsonCall.keyText, JsonCall.key?, keyPattern, JsonCall.valueText]
  | _ => cases howes

include hprint hk in
/-- **With the brace before it, it stands where an object starts with the key.** -/
theorem objectPattern_at_iff (b : Bool) (n : Nat) (hident : IdentKeys cs) :
    objectPattern k <+: (callText printG b cs).drop n ↔ ObjectAt printG b cs k n := by
  constructor
  · intro hpre
    obtain ⟨d, hd⟩ : ∃ d,
        (callText printG b cs).drop n = d :: (callText printG b cs).drop (n + 1) := by
      rw [← List.tail_drop]
      cases htext : (callText printG b cs).drop n with
      | nil => simp [htext, objectPattern] at hpre
      | cons d text => exact ⟨d, rfl⟩
    rw [hd] at hpre
    obtain ⟨rfl, hnext⟩ := List.cons_prefix_cons.1 hpre
    obtain ⟨front, c, back, rfl, hkey, hn⟩ := (keyPattern_at_iff hprint hk b _ hident).1 hnext
    -- the byte before the key is the last of what comes before it
    rw [callText_append] at hd
    cases hcomma : commaAfter b front with
    | true =>
      rw [hcomma, if_pos rfl] at hn
      obtain rfl : n = (callText printG b front).length := by omega
      rw [List.drop_left, hcomma, callText_field true hk hkey] at hd
      exact absurd (List.cons.inj hd).1 (by decide)
    | false =>
      rw [hcomma, if_neg (by decide), Nat.add_zero] at hn
      obtain rfl | ⟨init, last, rfl⟩ := List.eq_nil_or_concat' front
      · cases hn
      have howes : last.owesComma = false := by
        rw [commaAfter_append] at hcomma
        exact hcomma
      have hlast := hident last (by simp)
      have hfront : callText printG b (init ++ [last]) =
          callText printG b init ++ (last.tokens printG (commaAfter b init)).flatten := by
        rw [callText_append, callText_cons, callText_nil, List.append_nil]
      rcases tokens_last printG (commaAfter b init) hlast howes with
        ⟨rfl, htext⟩ | ⟨text, d, hne, htext⟩
      · refine ⟨init, c, back, by simp, hkey, ?_⟩
        rw [hfront, htext, List.length_append, List.length_append, commaText_length,
          List.length_singleton] at hn
        omega
      · rw [hfront, htext, ← List.append_assoc] at hn hd
        rw [List.length_append, List.length_singleton] at hn
        obtain rfl : n = (callText printG b init ++ text).length := by omega
        rw [List.append_assoc, List.drop_left] at hd
        exact absurd (List.cons.inj hd).1 hne
  · rintro ⟨front, c, back, rfl, hkey, rfl⟩
    have htext : callText printG (commaAfter b front) (.objectStart :: c :: back) =
        (if commaAfter b front then [0x2c] else []) ++
          0x7b :: callText printG false (c :: back) := by
      cases commaAfter b front <;> rfl
    rw [callText_append, htext, ← List.append_assoc, List.drop_left' (by
      rw [List.length_append, commaText_length])]
    exact List.cons_prefix_cons.2 ⟨rfl, (callText_key printG _ false hk hkey).2⟩

end

end Qmem
