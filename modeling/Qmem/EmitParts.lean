import Qmem.Emit
import Qmem.Lib.JsonCtrl

/-!
# Emitting in parts

Code that emits an object does it in parts: members one by one, or in a loop. `EmitsFields` and
`EmitsObject` follow that structure, so that a function's output is seen to be one object from
the function's own text.

A key with a bare control character makes the text ill-formed, and nothing else does: replacing
those characters, byte by byte, gives the text of a tree (`text_sanitize`). From it follows when
the text in a bounded buffer is well formed, `wellFormed_iff`.
-/

namespace Qmem

open CLib Json

/-! ## Plain keys -/

/-- A byte that `json_key` may write as it is, or escapes. -/
def plainByte (c : UInt8) : Bool := !(c < 0x20) || c == 0x0a || c == 0x0d || c == 0x09

def plainKey (k : CStr) : Bool := k.bytes.all plainByte

theorem plainByte_iff {c : UInt8} :
    plainByte c = true ↔ (c < 0x20 → c = 0x0a ∨ c = 0x0d ∨ c = 0x09) := by
  by_cases hc : c < 0x20
  · simp [plainByte, hc, or_assoc]
  · simp [plainByte, hc]

/-- A string as a key. -/
def Key.of (k : CStr) (h : plainKey k = true) : Key :=
  ⟨k, fun c hc => plainByte_iff.1 (List.all_eq_true.1 h c hc)⟩

theorem Key.plainKey_str (k : Key) : plainKey k.str = true :=
  List.all_eq_true.2 fun c hc => plainByte_iff.2 (k.plain c hc)

namespace Tree

variable {δ : Type} {cs ds : List (JsonCall δ)} {t : Tree δ} {ms ns : List (Key × Tree δ)}

/-! ## Members, objects and arrays -/

theorem EmitsMembers.append (h : EmitsMembers cs ms) (h' : EmitsMembers ds ns) :
    EmitsMembers (cs ++ ds) (ms ++ ns) := by
  rw [EmitsMembers, List.flatMap_append, h, h', memberCalls_append]

theorem EmitsMembers.member (k : Key) (h : Emits cs t) :
    EmitsMembers (.key k.str :: cs) [(k, t)] := by
  rw [EmitsMembers, List.flatMap_cons, h]
  simp [JsonCall.expand, memberCalls]

theorem emits_objectCalls {parts : List (List (JsonCall δ))} (h : EmitsMembers parts.flatten ms) :
    Emits (objectCalls parts) (.obj ms) := by
  rw [Emits, objectCalls, List.flatMap_cons, List.flatMap_append, h, calls]
  rfl

theorem emits_arrayCalls {α : Type} {xs : List α} {f : α → List (JsonCall δ)}
    {ts : List (Tree δ)} (h : List.Forall₂ (fun x t => Emits (f x) t) xs ts) :
    Emits (arrayCalls xs f) (.arr ts) := by
  have helems : (xs.flatMap f).flatMap JsonCall.expand = elemCalls ts := by
    induction h with
    | nil => rfl
    | cons hx _ ih => rw [List.flatMap_cons, List.flatMap_append, hx, ih, elemCalls]
  rw [Emits, arrayCalls, List.flatMap_cons, List.flatMap_append, helems, calls]
  rfl

/-- The calls say one value. -/
def EmitsValue (cs : List (JsonCall δ)) : Prop := ∃ t, Emits cs t

/-- The calls say one object. -/
def EmitsObject (cs : List (JsonCall δ)) : Prop := ∃ ms, Emits cs (.obj ms)

/-- The calls say members of an object that has been opened. -/
def EmitsFields (cs : List (JsonCall δ)) : Prop := ∃ ms, EmitsMembers cs ms

theorem EmitsObject.value (h : EmitsObject cs) : EmitsValue cs := h.imp' _ fun _ => id

theorem EmitsFields.append (h : EmitsFields cs) (h' : EmitsFields ds) :
    EmitsFields (cs ++ ds) := by
  obtain ⟨ms, hms⟩ := h
  obtain ⟨ns, hns⟩ := h'
  exact ⟨ms ++ ns, hms.append hns⟩

theorem EmitsFields.member {k : CStr} (hk : plainKey k = true) (h : EmitsValue cs) :
    EmitsFields (.key k :: cs) := by
  obtain ⟨t, ht⟩ := h
  exact ⟨[(Key.of k hk, t)], EmitsMembers.member (Key.of k hk) ht⟩

/-- A call that writes a key, a plain one, and its value. -/
def isField : JsonCall δ → Bool
  | .kvString k _ | .kvInt k _ | .kvUint k _ | .kvDouble k _ | .kvBool k _ => plainKey k
  | _ => false

theorem emitsFields_singleton {c : JsonCall δ} (h : isField c = true) : EmitsFields [c] := by
  cases c with
  | kvString k v =>
    cases v with
    | none => exact ⟨[(Key.of k h, .null)], rfl⟩
    | some v => exact ⟨[(Key.of k h, .str v)], rfl⟩
  | kvInt k v => exact ⟨[(Key.of k h, .int v)], rfl⟩
  | kvUint k v => exact ⟨[(Key.of k h, .uint v)], rfl⟩
  | kvDouble k v => exact ⟨[(Key.of k h, .double v)], rfl⟩
  | kvBool k v => exact ⟨[(Key.of k h, .bool v)], rfl⟩
  | _ => simp [isField] at h

theorem emitsFields_of_all (h : cs.all isField = true) : EmitsFields cs := by
  induction cs with
  | nil => exact ⟨[], rfl⟩
  | cons c cs ih =>
    rw [List.all_cons, Bool.and_eq_true] at h
    exact (emitsFields_singleton h.1).append (ih h.2)

theorem emitsObject {parts : List (List (JsonCall δ))} (h : parts.Forall EmitsFields) :
    EmitsObject (objectCalls parts) := by
  have hfields : EmitsFields parts.flatten := by
    induction parts with
    | nil => exact ⟨[], rfl⟩
    | cons p parts ih =>
      rw [List.forall_cons] at h
      exact h.1.append (ih h.2)
  obtain ⟨ms, hms⟩ := hfields
  exact ⟨ms, emits_objectCalls hms⟩

theorem emitsArray {α : Type} {xs : List α} {f : α → List (JsonCall δ)}
    (h : ∀ x, EmitsObject (f x)) : EmitsValue (arrayCalls xs f) := by
  choose ms hms using h
  refine ⟨.arr (xs.map fun x => .obj (ms x)), emits_arrayCalls ?_⟩
  rw [List.forall₂_map_right_iff]
  exact List.forall₂_same.2 fun x _ => hms x

end Tree

/-! ## Control characters in keys -/

/-- Replaces a byte that no JSON text has. -/
def sanitizeByte (c : UInt8) : UInt8 := if plainByte c then c else 0x78

theorem sanitizeByte_ne_zero (c : UInt8) : sanitizeByte c ≠ 0 := by
  unfold sanitizeByte
  split
  · rintro rfl
    contradiction
  · decide

def sanitizeKey (k : CStr) : CStr where
  bytes := k.bytes.map sanitizeByte
  nulFree h := by
    obtain ⟨c, -, hc⟩ := List.mem_map.1 h
    exact sanitizeByte_ne_zero c hc

theorem plainKey_sanitizeKey (k : CStr) : plainKey (sanitizeKey k) = true := by
  refine List.all_eq_true.2 fun c hc => ?_
  obtain ⟨d, -, rfl⟩ := List.mem_map.1 hc
  unfold sanitizeByte
  split
  · assumption
  · decide

/-- A text without control characters that a key could smuggle in. -/
def PlainText (s : Bytes) : Prop := ∀ c ∈ s, plainByte c = true

theorem PlainText.sanitize {s : Bytes} (h : PlainText s) : s.map sanitizeByte = s := by
  rw [List.map_congr_left fun c hc => show sanitizeByte c = c by rw [sanitizeByte, if_pos (h c hc)]]
  exact List.map_id s

theorem plainText_of_wellFormed {s : Bytes} (h : WellFormed s) : PlainText s := by
  intro c hc
  refine plainByte_iff.2 fun hlt => ?_
  have hws := ctrl_isWs h hc hlt
  simp only [isWs, Bool.or_eq_true, beq_iff_eq] at hws
  rcases hws with ((rfl | rfl) | rfl) | rfl
  · exact absurd hlt (by decide)
  · exact Or.inr (Or.inr rfl)
  · exact Or.inl rfl
  · exact Or.inr (Or.inl rfl)

theorem sanitizeKey_of_plain {k : CStr} (h : plainKey k = true) : sanitizeKey k = k :=
  CStr.ext (PlainText.sanitize fun c hc => List.all_eq_true.1 h c hc)

/-- Any other control character goes into a key as it is. -/
theorem escapeKeyByte_ctrl {c : UInt8} (h : plainByte c ≠ true) : escapeKeyByte c = [c] := by
  unfold escapeKeyByte
  rw [if_neg, if_neg, if_neg, if_neg, if_neg]
  all_goals rintro rfl; exact h rfl

theorem escapeKeyByte_sanitize (c : UInt8) :
    (escapeKeyByte c).map sanitizeByte = escapeKeyByte (sanitizeByte c) := by
  by_cases hc : plainByte c = true
  · have hsame : sanitizeByte c = c := if_pos hc
    rw [hsame]
    unfold escapeKeyByte
    split_ifs
    iterate 5 rfl
    rw [List.map_singleton, hsame]
  · have hx : sanitizeByte c = 0x78 := if_neg hc
    rw [escapeKeyByte_ctrl hc, List.map_singleton, hx]
    rfl

theorem plainText_escapeStringByte (c : UInt8) : PlainText (escapeStringByte c) := by
  have hdigit : ∀ n < 16, plainByte (hexDigit n) = true := by decide
  have hlt := c.toNat_lt
  unfold escapeStringByte
  split_ifs with h₁ h₂ h₃ h₄ h₅ h₆
  iterate 5 unfold PlainText; decide
  · intro d hd
    simp only [escapeHex, List.mem_cons, List.not_mem_nil, or_false] at hd
    rcases hd with rfl | rfl | rfl | rfl | rfl | rfl
    iterate 4 decide
    · exact hdigit _ (by omega)
    · exact hdigit _ (by omega)
  · intro d hd
    rw [List.mem_singleton.1 hd]
    exact plainByte_iff.2 fun hlt => absurd hlt h₆

theorem plainText_of_numChar {s : Bytes} (h : ∀ c ∈ s, isNumChar c = true) : PlainText s :=
  fun c hc => plainByte_iff.2 fun hlt => absurd hlt (not_ctrl_of_isNumChar (h c hc))

namespace JsonCall

variable {δ : Type}

/-- The call with its key changed. -/
def mapKey (f : CStr → CStr) : JsonCall δ → JsonCall δ
  | .key k => .key (f k)
  | .kvString k v => .kvString (f k) v
  | .kvInt k v => .kvInt (f k) v
  | .kvUint k v => .kvUint (f k) v
  | .kvDouble k v => .kvDouble (f k) v
  | .kvBool k v => .kvBool (f k) v
  | c => c

/-- The key a call writes. -/
def key? : JsonCall δ → Option CStr
  | .key k | .kvString k _ | .kvInt k _ | .kvUint k _ | .kvDouble k _ | .kvBool k _ => some k
  | _ => none

end JsonCall

section

variable {δ : Type} {cs : List (JsonCall δ)}

/-- Every key the calls write is plain. -/
def PlainKeys (cs : List (JsonCall δ)) : Prop := ∀ c ∈ cs, ∀ k ∈ c.key?, plainKey k = true

def sanitize (cs : List (JsonCall δ)) : List (JsonCall δ) := cs.map (JsonCall.mapKey sanitizeKey)

theorem plainKeys_cons {c : JsonCall δ} :
    PlainKeys (c :: cs) ↔ (∀ k ∈ c.key?, plainKey k = true) ∧ PlainKeys cs :=
  List.forall_mem_cons

theorem plainKeys_append {ds : List (JsonCall δ)} :
    PlainKeys (cs ++ ds) ↔ PlainKeys cs ∧ PlainKeys ds :=
  List.forall_mem_append

theorem plainKeys_objectCalls {parts : List (List (JsonCall δ))} :
    PlainKeys (objectCalls parts) ↔ ∀ part ∈ parts, PlainKeys part := by
  rw [objectCalls, plainKeys_cons, plainKeys_append, plainKeys_cons]
  constructor
  · rintro ⟨-, h, -⟩ part hpart c hc
    exact h c (List.mem_flatten.2 ⟨part, hpart, hc⟩)
  · intro h
    refine ⟨by simp [JsonCall.key?], fun c hc => ?_, by simp [JsonCall.key?], by simp [PlainKeys]⟩
    obtain ⟨part, hpart, hc⟩ := List.mem_flatten.1 hc
    exact h part hpart c hc

theorem sanitize_append (cs ds : List (JsonCall δ)) :
    sanitize (cs ++ ds) = sanitize cs ++ sanitize ds := List.map_append

theorem sanitize_objectCalls (parts : List (List (JsonCall δ))) :
    sanitize (objectCalls parts) = objectCalls (parts.map sanitize) := by
  simp only [sanitize, objectCalls, List.map_cons, List.map_append, List.map_flatten,
    List.map_nil, JsonCall.mapKey]
  rfl

theorem sanitize_of_plain (h : PlainKeys cs) : sanitize cs = cs := by
  have hsame : ∀ c ∈ cs, c.mapKey sanitizeKey = c := by
    intro c hc
    have hkey := h c hc
    cases c <;> simp only [JsonCall.mapKey] <;> rw [sanitizeKey_of_plain (hkey _ rfl)]
  rw [sanitize, List.map_congr_left hsame]
  exact List.map_id cs

theorem key?_expand {c : JsonCall δ} {k : CStr} (hk : k ∈ c.key?) :
    ∃ d ∈ c.expand, k ∈ d.key? := by
  cases c with
  | kvString k' v => cases v <;> exact ⟨.key k', by simp [JsonCall.expand], hk⟩
  | key k' => exact ⟨.key k', by simp [JsonCall.expand], hk⟩
  | kvInt k' v | kvUint k' v | kvDouble k' v | kvBool k' v =>
    exact ⟨.key k', by simp [JsonCall.expand], hk⟩
  | _ => simp [JsonCall.key?] at hk

/-- A tree has plain keys only. -/
theorem plainKeys_calls (t : Tree δ) : PlainKeys t.calls := by
  have hone {c : JsonCall δ} (h : ∀ k ∈ c.key?, plainKey k = true) : PlainKeys [c] :=
    plainKeys_cons.2 ⟨h, by simp [PlainKeys]⟩
  have hbracket {c : JsonCall δ} (h : c.key? = none) : ∀ k ∈ c.key?, plainKey k = true := by
    simp [h]
  induction t using Tree.induct with
  | arr ts ih =>
    have hts : PlainKeys (Tree.elemCalls ts) := by
      rw [Tree.elemCalls_eq_flatMap]
      intro c hc
      obtain ⟨t, ht, hct⟩ := List.mem_flatMap.1 hc
      exact ih t ht c hct
    exact plainKeys_cons.2 ⟨hbracket rfl, plainKeys_append.2 ⟨hts, hone (hbracket rfl)⟩⟩
  | obj ms ih =>
    have hms : PlainKeys (Tree.memberCalls ms) := by
      induction ms with
      | nil => exact fun c hc => absurd hc (by simp [Tree.memberCalls])
      | cons m ms ihms =>
        obtain ⟨k, t⟩ := m
        have ht : PlainKeys t.calls := ih (k, t) (by simp)
        refine plainKeys_cons.2 ⟨fun k' hk' => ?_,
          plainKeys_append.2 ⟨ht, ihms fun m hm => ih m (by simp [hm])⟩⟩
        rw [← Option.some.inj hk']
        exact k.plainKey_str
    exact plainKeys_cons.2 ⟨hbracket rfl, plainKeys_append.2 ⟨hms, hone (hbracket rfl)⟩⟩
  | _ => exact hone (by simp [JsonCall.key?])

theorem plainKeys_of_emits {t : Tree δ} (h : Tree.Emits cs t) : PlainKeys cs := by
  intro c hc k hk
  obtain ⟨d, hd, hkd⟩ := key?_expand hk
  have hmem : d ∈ t.calls := by
    rw [← h]
    exact List.mem_flatMap.2 ⟨c, hc, hd⟩
  exact plainKeys_calls t d hmem k hkd

variable (printG : δ → CStr) (hG : ∀ d, PlainText (printG d).bytes)

include hG in
/-- Sanitizing a call sanitizes its tokens. -/
theorem tokens_sanitize (b : Bool) (c : JsonCall δ) :
    (c.mapKey sanitizeKey).tokens printG b = (c.tokens printG b).map (·.map sanitizeByte) := by
  have hcomma : (commaTokens b).map (·.map sanitizeByte) = commaTokens b := by
    cases b <;> rfl
  have hkey (k : CStr) :
      (keyTokens b k).map (·.map sanitizeByte) = keyTokens b (sanitizeKey k) := by
    simp only [keyTokens, List.map_append, List.map_cons, hcomma, List.map_map, sanitizeKey,
      List.map_nil]
    congr 2
    congr 1
    exact List.map_congr_left fun c _ => escapeKeyByte_sanitize c
  have hstring (v : Option CStr) : (stringTokens v).map (·.map sanitizeByte) = stringTokens v := by
    cases v with
    | none => rfl
    | some v =>
      simp only [stringTokens, List.map_append, List.map_cons, List.map_map, List.map_nil]
      congr 2
      exact List.map_congr_left fun c _ => (plainText_escapeStringByte c).sanitize
  have hint (v : Int) : (decInt v).map sanitizeByte = decInt v :=
    (plainText_of_numChar (decInt_all_numChar v)).sanitize
  have hnat (n : Nat) : (decNat n).map sanitizeByte = decNat n :=
    (plainText_of_numChar fun c hc => isNumChar_of_isDigit (decNat_all_digit n c hc)).sanitize
  have hbool (v : Bool) : (jsonBoolText v).map sanitizeByte = jsonBoolText v := by
    cases v <;> rfl
  have hdouble (d : δ) : (printG d).bytes.map sanitizeByte = (printG d).bytes := (hG d).sanitize
  have hnull : jsonNullText.map sanitizeByte = jsonNullText := rfl
  have hbrackets : ∀ c ∈ [0x7b, 0x7d, 0x5b, 0x5d], sanitizeByte c = c := by decide
  cases c <;>
    simp only [JsonCall.mapKey, JsonCall.tokens, List.map_append, List.map_cons, List.map_nil,
      hcomma, hkey, hstring, hint, hnat, hbool, hdouble, hnull, hbrackets _ List.mem_cons_self,
      hbrackets 0x7d (by decide), hbrackets 0x5b (by decide), hbrackets 0x5d (by decide)]

theorem owesComma_mapKey (f : CStr → CStr) (c : JsonCall δ) :
    (c.mapKey f).owesComma = c.owesComma := by
  cases c <;> rfl

include hG in
theorem callTokens_sanitize (b : Bool) (cs : List (JsonCall δ)) :
    callTokens printG b (sanitize cs) = (callTokens printG b cs).map (·.map sanitizeByte) := by
  induction cs generalizing b with
  | nil => rfl
  | cons c cs ih =>
    rw [sanitize, List.map_cons, callTokens_cons, callTokens_cons, List.map_append,
      tokens_sanitize printG hG, owesComma_mapKey, ← ih]
    rfl

/-- The bytes of a key that are not plain show in the text. -/
theorem plainKeys_of_plainText (b : Bool) (h : PlainText (callTokens printG b cs).flatten) :
    PlainKeys cs := by
  induction cs generalizing b with
  | nil => exact fun c hc => absurd hc (by simp)
  | cons c cs ih =>
    rw [callTokens_cons, List.flatten_append] at h
    intro d hd
    rcases List.mem_cons.1 hd with rfl | hd
    · intro k hk
      have htokens : ∃ ts, d.tokens printG b = keyTokens b k ++ ts := by
        cases d <;> simp only [JsonCall.key?, Option.mem_def, reduceCtorEq, Option.some.injEq] at hk
          <;> subst hk
        · exact ⟨[], (List.append_nil _).symm⟩
        all_goals exact ⟨_, rfl⟩
      obtain ⟨ts, hts⟩ := htokens
      refine List.all_eq_true.2 fun c hc => ?_
      by_contra hbad
      have hmem : [c] ∈ keyTokens b k := by
        rw [keyTokens, ← escapeKeyByte_ctrl hbad]
        exact List.mem_append_right _ (List.mem_cons_of_mem _
          (List.mem_append_left _ (List.mem_map_of_mem hc)))
      refine hbad (h c (List.mem_append_left _ (List.mem_flatten.2 ⟨[c], ?_, by simp⟩)))
      rw [hts]
      exact List.mem_append_left _ hmem
    · exact ih _ (fun c hc => h c (List.mem_append_right _ hc)) d hd

end

/-! ## When the text in a buffer is well formed -/

section

open Qmem.Tree (numText)

variable {δ : Type} (num : δ → NumLit) {cs : List (JsonCall δ)}

theorem plainText_numText (d : δ) : PlainText (numText num d).bytes :=
  plainText_of_numChar (num d).all_numChar

/-- Sanitizing the calls sanitizes their text. -/
theorem text_sanitize (cs : List (JsonCall δ)) :
    unboundedText (numText num) (sanitize cs) =
      (unboundedText (numText num) cs).map sanitizeByte := by
  rw [unboundedText, callTokens_sanitize _ (plainText_numText num), unboundedText,
    List.map_flatten]

/-- A text cut short is no JSON text, whatever its keys are. -/
theorem not_wellFormed_of_cut_text (h : Tree.EmitsObject (sanitize cs)) {s t : Bytes}
    (htext : unboundedText (numText num) cs = s ++ t) (ht : t ≠ []) : ¬ WellFormed s := by
  obtain ⟨ms, hms⟩ := h
  intro hwf
  have hdoc : (unboundedText (numText num) cs).map sanitizeByte =
      (Doc.obj (Tree.memberDocs num ms)).render := by
    rw [← text_sanitize, Tree.unboundedText_of_emits num hms, Tree.doc]
  -- `s` has nothing to sanitize, so the sanitized text goes on behind it
  rw [htext, List.map_append, (plainText_of_wellFormed hwf).sanitize] at hdoc
  exact not_wellFormed_of_cut hdoc.symm (fun hnil => ht (List.map_eq_nil_iff.1 hnil)) hwf

/-- The whole text is well formed exactly when no key brings in a control character. -/
theorem wellFormed_text_iff (h : Tree.EmitsObject (sanitize cs)) :
    WellFormed (unboundedText (numText num) cs) ↔ PlainKeys cs := by
  constructor
  · intro hwf
    exact plainKeys_of_plainText (numText num) false (plainText_of_wellFormed hwf)
  · intro hkeys
    obtain ⟨ms, hms⟩ := h
    rw [sanitize_of_plain hkeys] at hms
    rw [Tree.unboundedText_of_emits num hms, WellFormed, Tree.parse_doc]
    rfl

/-- **A bounded buffer holds a well-formed text** exactly when the whole text fits and no key
brings in a control character. -/
theorem wellFormed_iff (h : Tree.EmitsObject (sanitize cs)) (buf : Bytes) (hbuf : 1 ≤ buf.length) :
    WellFormed (runCalls (numText num) cs (jsonInit buf buf.length)).text ↔
      (unboundedText (numText num) cs).length < buf.length ∧ PlainKeys cs := by
  have hw := wrote_runCalls (numText num) buf hbuf cs
  have hfree := callTokens_nulFree (numText num) false cs
  obtain ⟨k, -, hcut⟩ := hw.text_cut hfree
  have hwhole := hw.text_eq_flatten_iff hfree
  have hsize := runCalls_size (numText num) cs (jsonInit buf buf.length)
  set j := runCalls (numText num) cs (jsonInit buf buf.length)
  have hfits : jsonError j = false ↔ (unboundedText (numText num) cs).length < buf.length := by
    rw [← Bool.not_eq_true, hw.error_iff, hsize, not_le]
    rfl
  constructor
  · intro hwf
    have herr : jsonError j = false := by
      by_contra herr
      have htext : unboundedText (numText num) cs =
          j.text ++ ((callTokens (numText num) false cs).drop k).flatten := by
        rw [hcut, ← List.flatten_append, List.take_append_drop]
        rfl
      refine not_wellFormed_of_cut_text num h htext (fun hnil => ?_) hwf
      rw [hnil, List.append_nil] at htext
      exact herr (hwhole.1 htext.symm)
    rw [hwhole.2 herr] at hwf
    exact ⟨hfits.1 herr, (wellFormed_text_iff num h).1 hwf⟩
  · rintro ⟨hlen, hkeys⟩
    rw [hwhole.2 (hfits.2 hlen)]
    exact (wellFormed_text_iff num h).2 hkeys

end

end Qmem
