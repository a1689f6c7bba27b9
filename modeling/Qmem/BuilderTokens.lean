import Qmem.Builder
import Qmem.Lib.JsonDoc

/-!
# What a bounded builder writes

A builder with room for everything would write, call by call, the tokens of `callTokens`. The
real one writes a first part of that token list, cut where the first token did not fit, and its
error flag tells whether anything was left out. The proof follows the tokens: `Wrote ts j` says
what the builder has made of the tokens `ts` so far, `wrote_jsonWrite` that one more token keeps
it, and `run_eq` that a call is nothing but its tokens.
-/

namespace Qmem

open CLib

/-! ## The writer -/

@[simp] theorem jsonWrite_needsComma (j : JsonBuilder) (t : Bytes) (b : Bool) :
    jsonWrite { j with needsComma := b } t = { jsonWrite j t with needsComma := b } := by
  unfold jsonWrite
  dsimp only
  split_ifs <;> rfl

@[simp] theorem jsonWrite_depth (j : JsonBuilder) (t : Bytes) (d : Int) :
    jsonWrite { j with depth := d } t = { jsonWrite j t with depth := d } := by
  unfold jsonWrite
  dsimp only
  split_ifs <;> rfl

/-- Tokens written one after the other. -/
def writeAll (ts : List Bytes) (j : JsonBuilder) : JsonBuilder := ts.foldl jsonWrite j

@[simp] theorem writeAll_nil (j : JsonBuilder) : writeAll [] j = j := rfl

@[simp] theorem writeAll_cons (t : Bytes) (ts : List Bytes) (j : JsonBuilder) :
    writeAll (t :: ts) j = writeAll ts (jsonWrite j t) := rfl

theorem writeAll_append (ts us : List Bytes) (j : JsonBuilder) :
    writeAll (ts ++ us) j = writeAll us (writeAll ts j) :=
  List.foldl_append

theorem writeAll_map {α : Type} (f : α → Bytes) (xs : List α) (j : JsonBuilder) :
    writeAll (xs.map f) j = xs.foldl (fun j x => jsonWrite j (f x)) j :=
  List.foldl_map

@[simp] theorem writeAll_needsComma (ts : List Bytes) (j : JsonBuilder) (b : Bool) :
    writeAll ts { j with needsComma := b } = { writeAll ts j with needsComma := b } := by
  induction ts generalizing j with
  | nil => rfl
  | cons t ts ih => rw [writeAll_cons, jsonWrite_needsComma, ih, writeAll_cons]

@[simp] theorem writeAll_depth (ts : List Bytes) (j : JsonBuilder) (d : Int) :
    writeAll ts { j with depth := d } = { writeAll ts j with depth := d } := by
  induction ts generalizing j with
  | nil => rfl
  | cons t ts ih => rw [writeAll_cons, jsonWrite_depth, ih, writeAll_cons]

theorem writeAll_set (ts : List Bytes) (j : JsonBuilder) (d : Int) (b : Bool) :
    writeAll ts { j with depth := d, needsComma := b } =
      { writeAll ts j with depth := d, needsComma := b } :=
  (writeAll_needsComma ts { j with depth := d } b).trans (by rw [writeAll_depth])

theorem writeAll_size (ts : List Bytes) (j : JsonBuilder) : (writeAll ts j).size = j.size := by
  induction ts generalizing j with
  | nil => rfl
  | cons t ts ih =>
    rw [writeAll_cons, ih]
    unfold jsonWrite
    split_ifs <;> rfl

theorem jsonWrite_flags (j : JsonBuilder) (t : Bytes) :
    (jsonWrite j t).depth = j.depth ∧ (jsonWrite j t).needsComma = j.needsComma := by
  unfold jsonWrite
  split_ifs <;> exact ⟨rfl, rfl⟩

theorem writeAll_flags (ts : List Bytes) (j : JsonBuilder) :
    (writeAll ts j).depth = j.depth ∧ (writeAll ts j).needsComma = j.needsComma := by
  induction ts generalizing j with
  | nil => exact ⟨rfl, rfl⟩
  | cons t ts ih =>
    rw [writeAll_cons]
    exact ⟨(ih _).1.trans (jsonWrite_flags j t).1, (ih _).2.trans (jsonWrite_flags j t).2⟩

/-! ## The tokens of a call -/

section

variable {δ : Type} (printG : δ → CStr)

def commaTokens (needsComma : Bool) : List Bytes := if needsComma then [[0x2c]] else []

def keyTokens (needsComma : Bool) (k : CStr) : List Bytes :=
  commaTokens needsComma ++ ([0x22] :: (k.bytes.map escapeKeyByte ++ [[0x22, 0x3a]]))

/-- The tokens of a string value, without the comma before it. -/
def stringTokens : Option CStr → List Bytes
  | none => [jsonNullText]
  | some v => [0x22] :: (v.bytes.map escapeStringByte ++ [[0x22]])

namespace JsonCall

/-- What a call passes to `jsonWrite`, in order, given whether a comma is owed. -/
def tokens (needsComma : Bool) : JsonCall δ → List Bytes
  | .objectStart => commaTokens needsComma ++ [[0x7b]]
  | .objectEnd => [[0x7d]]
  | .arrayStart => commaTokens needsComma ++ [[0x5b]]
  | .arrayEnd => [[0x5d]]
  | .key k => keyTokens needsComma k
  | .string v => commaTokens needsComma ++ stringTokens v
  | .int v => commaTokens needsComma ++ [decInt v.toInt]
  | .uint v => commaTokens needsComma ++ [decNat v.toNat]
  | .double v => commaTokens needsComma ++ [(printG v).bytes]
  | .bool v => commaTokens needsComma ++ [jsonBoolText v]
  | .null => commaTokens needsComma ++ [jsonNullText]
  | .kvString k v => keyTokens needsComma k ++ stringTokens v
  | .kvInt k v => keyTokens needsComma k ++ [decInt v.toInt]
  | .kvUint k v => keyTokens needsComma k ++ [decNat v.toNat]
  | .kvDouble k v => keyTokens needsComma k ++ [(printG v).bytes]
  | .kvBool k v => keyTokens needsComma k ++ [jsonBoolText v]

/-- Whether a comma is owed after a call. -/
def owesComma : JsonCall δ → Bool
  | .objectStart | .arrayStart | .key _ => false
  | _ => true

/-- What a call adds to the nesting depth. -/
def depthChange : JsonCall δ → Int
  | .objectStart | .arrayStart => 1
  | .objectEnd | .arrayEnd => -1
  | _ => 0

end JsonCall

theorem commaIfNeeded_eq (j : JsonBuilder) :
    jsonCommaIfNeeded j = { writeAll (commaTokens j.needsComma) j with needsComma := false } := by
  unfold jsonCommaIfNeeded commaTokens
  split <;> simp_all

theorem jsonToken_eq (j : JsonBuilder) (t : Bytes) :
    jsonToken j t =
      { writeAll (commaTokens j.needsComma ++ [t]) j with needsComma := true } := by
  simp [jsonToken, commaIfNeeded_eq, writeAll_append]

theorem jsonKey_eq (j : JsonBuilder) (k : CStr) :
    jsonKey j k = { writeAll (keyTokens j.needsComma k) j with needsComma := false } := by
  simp only [jsonKey, commaIfNeeded_eq, jsonWrite_needsComma, keyTokens, writeAll_append,
    writeAll_cons, writeAll_nil, ← writeAll_map, writeAll_needsComma]

theorem jsonString_eq (j : JsonBuilder) (v : Option CStr) :
    jsonString j v =
      { writeAll (commaTokens j.needsComma ++ stringTokens v) j with needsComma := true } := by
  cases v <;>
    simp only [jsonString, commaIfNeeded_eq, jsonWrite_needsComma, stringTokens, writeAll_append,
      writeAll_cons, writeAll_nil, ← writeAll_map, writeAll_needsComma]

theorem jsonOpen_eq (bracket : UInt8) (j : JsonBuilder) :
    jsonOpen bracket j =
      { writeAll (commaTokens j.needsComma ++ [[bracket]]) j with
        depth := j.depth + 1, needsComma := false } := by
  simp only [jsonOpen, commaIfNeeded_eq, jsonWrite_needsComma, writeAll_append, writeAll_cons,
    writeAll_nil]
  simp only [jsonWrite_flags, writeAll_flags]

theorem jsonClose_eq (bracket : UInt8) (j : JsonBuilder) :
    jsonClose bracket j =
      { writeAll [[bracket]] j with depth := j.depth - 1, needsComma := true } := by
  simp only [jsonClose, writeAll_cons, writeAll_nil, jsonWrite_flags]

/-- A call writes its tokens and sets the flags; it does nothing else. -/
theorem run_eq (c : JsonCall δ) (j : JsonBuilder) :
    c.run printG j =
      { writeAll (c.tokens printG j.needsComma) j with
        depth := j.depth + c.depthChange, needsComma := c.owesComma } := by
  have keep (ts : List Bytes) (b : Bool) :
      ({ writeAll ts j with needsComma := b } : JsonBuilder) =
        { writeAll ts j with depth := j.depth + 0, needsComma := b } := by
    rw [add_zero, ← (writeAll_flags ts j).1]
  have value (k : CStr) (ts : List Bytes) (b b' : Bool) :
      ({ writeAll ts ({ writeAll (keyTokens j.needsComma k) j with needsComma := b }) with
        needsComma := b' } : JsonBuilder) =
      { writeAll (keyTokens j.needsComma k ++ ts) j with needsComma := b' } := by
    rw [writeAll_needsComma, writeAll_append]
  cases c with
  | objectStart => exact jsonOpen_eq _ _
  | objectEnd => exact jsonClose_eq _ _
  | arrayStart => exact jsonOpen_eq _ _
  | arrayEnd => exact jsonClose_eq _ _
  | key k => exact (jsonKey_eq j k).trans (keep _ _)
  | string v => exact (jsonString_eq j v).trans (keep _ _)
  | int v => exact (jsonToken_eq j _).trans (keep _ _)
  | uint v => exact (jsonToken_eq j _).trans (keep _ _)
  | double v => exact (jsonToken_eq j _).trans (keep _ _)
  | bool v => exact (jsonToken_eq j _).trans (keep _ _)
  | null => exact (jsonToken_eq j _).trans (keep _ _)
  | kvString k v =>
    simp only [JsonCall.run, jsonKvString, jsonKey_eq, jsonString_eq]
    exact (value _ _ _ _).trans (keep _ _)
  | kvInt k v =>
    simp only [JsonCall.run, jsonKvInt, jsonInt, jsonKey_eq, jsonToken_eq]
    exact (value _ _ _ _).trans (keep _ _)
  | kvUint k v =>
    simp only [JsonCall.run, jsonKvUint, jsonUint, jsonKey_eq, jsonToken_eq]
    exact (value _ _ _ _).trans (keep _ _)
  | kvDouble k v =>
    simp only [JsonCall.run, jsonKvDouble, jsonDouble, jsonKey_eq, jsonToken_eq]
    exact (value _ _ _ _).trans (keep _ _)
  | kvBool k v =>
    simp only [JsonCall.run, jsonKvBool, jsonBool, jsonKey_eq, jsonToken_eq]
    exact (value _ _ _ _).trans (keep _ _)

/-- The tokens a sequence of calls passes to `jsonWrite`. -/
def callTokens (needsComma : Bool) : List (JsonCall δ) → List Bytes
  | [] => []
  | c :: cs => c.tokens printG needsComma ++ callTokens c.owesComma cs

/-- The text a sequence of calls produces in a buffer that never ends. -/
def unboundedText (cs : List (JsonCall δ)) : Bytes := (callTokens printG false cs).flatten

/-- Whether a comma is owed after a sequence of calls. -/
def commaAfter (needsComma : Bool) (cs : List (JsonCall δ)) : Bool :=
  cs.foldl (fun _ c => c.owesComma) needsComma

@[simp] theorem callTokens_nil (b : Bool) : callTokens printG b [] = [] := rfl

@[simp] theorem callTokens_cons (b : Bool) (c : JsonCall δ) (cs : List (JsonCall δ)) :
    callTokens printG b (c :: cs) = c.tokens printG b ++ callTokens printG c.owesComma cs := rfl

@[simp] theorem commaAfter_nil (b : Bool) : commaAfter b ([] : List (JsonCall δ)) = b := rfl

@[simp] theorem commaAfter_cons (b : Bool) (c : JsonCall δ) (cs : List (JsonCall δ)) :
    commaAfter b (c :: cs) = commaAfter c.owesComma cs := rfl

theorem commaAfter_append (b : Bool) (cs ds : List (JsonCall δ)) :
    commaAfter b (cs ++ ds) = commaAfter (commaAfter b cs) ds := List.foldl_append

theorem callTokens_append (b : Bool) (cs ds : List (JsonCall δ)) :
    callTokens printG b (cs ++ ds) =
      callTokens printG b cs ++ callTokens printG (commaAfter b cs) ds := by
  induction cs generalizing b with
  | nil => rfl
  | cons c cs ih => simp only [List.cons_append, callTokens_cons, ih, List.append_assoc]; rfl

theorem runCalls_eq (cs : List (JsonCall δ)) (j : JsonBuilder) :
    runCalls printG cs j =
      { writeAll (callTokens printG j.needsComma cs) j with
        depth := j.depth + (cs.map JsonCall.depthChange).sum
        needsComma := commaAfter j.needsComma cs } := by
  induction cs generalizing j with
  | nil => simp [commaAfter]
  | cons c cs ih =>
    rw [runCalls_cons, ih, run_eq, callTokens_cons, writeAll_append, List.map_cons,
      List.sum_cons, ← add_assoc, writeAll_set]
    rfl

theorem runCalls_depth (cs : List (JsonCall δ)) (j : JsonBuilder) :
    (runCalls printG cs j).depth = j.depth + (cs.map JsonCall.depthChange).sum := by
  rw [runCalls_eq]

theorem runCalls_size (cs : List (JsonCall δ)) (j : JsonBuilder) :
    (runCalls printG cs j).size = j.size := by
  rw [runCalls_eq]
  exact writeAll_size _ _

/-! ## Tokens hold no NUL -/

theorem decNat_nulFree (n : Nat) : 0 ∉ decNat n := fun h =>
  absurd (Json.decNat_all_digit n 0 h) (by decide)

theorem decInt_nulFree (i : Int) : 0 ∉ decInt i := fun h =>
  absurd (Json.decInt_all_numChar i 0 h) (by decide)

theorem hexDigit_ne_zero {n : Nat} (h : n < 16) : hexDigit n ≠ 0 := by
  revert h n
  decide

theorem escapeKeyByte_nulFree {c : UInt8} (h : c ≠ 0) : 0 ∉ escapeKeyByte c := by
  unfold escapeKeyByte
  split_ifs
  iterate 5 decide
  simpa using h.symm

theorem escapeStringByte_nulFree {c : UInt8} (h : c ≠ 0) : 0 ∉ escapeStringByte c := by
  unfold escapeStringByte
  split_ifs
  iterate 5 decide
  · have hlt := c.toNat_lt
    have hhigh := hexDigit_ne_zero (n := c.toNat / 16) (by omega)
    have hlow := hexDigit_ne_zero (n := c.toNat % 16) (by omega)
    simp [escapeHex, hhigh.symm, hlow.symm]
  · simpa using h.symm

theorem keyTokens_nulFree (b : Bool) (k : CStr) : ∀ t ∈ keyTokens b k, 0 ∉ t := by
  intro t ht
  simp only [keyTokens, commaTokens, List.mem_append, List.mem_cons, List.mem_map,
    List.not_mem_nil, or_false] at ht
  rcases ht with ht | rfl | ⟨c, hc, rfl⟩ | rfl
  · split at ht <;> simp_all
  · decide
  · exact escapeKeyByte_nulFree (k.ne_zero_of_mem hc)
  · decide

theorem commaTokens_nulFree (b : Bool) : ∀ t ∈ commaTokens b, 0 ∉ t := by
  cases b <;> decide

theorem stringTokens_nulFree (v : Option CStr) : ∀ t ∈ stringTokens v, 0 ∉ t := by
  cases v with
  | none => decide
  | some v =>
    intro t ht
    simp only [stringTokens, List.mem_cons, List.mem_append, List.mem_map, List.not_mem_nil,
      or_false] at ht
    rcases ht with rfl | ⟨c, hc, rfl⟩ | rfl
    · decide
    · exact escapeStringByte_nulFree (v.ne_zero_of_mem hc)
    · decide

theorem jsonBoolText_nulFree (b : Bool) : 0 ∉ jsonBoolText b := by
  cases b <;> decide

theorem tokens_nulFree (b : Bool) (c : JsonCall δ) : ∀ t ∈ c.tokens printG b, 0 ∉ t := by
  have comma := commaTokens_nulFree b
  have key := keyTokens_nulFree b
  have snoc {ts : List Bytes} {t : Bytes} (hts : ∀ u ∈ ts, 0 ∉ u) (ht : 0 ∉ t) :
      ∀ u ∈ ts ++ [t], 0 ∉ u :=
    List.forall_mem_append.2 ⟨hts, List.forall_mem_singleton.2 ht⟩
  have both {ts us : List Bytes} (hts : ∀ u ∈ ts, 0 ∉ u) (hus : ∀ u ∈ us, 0 ∉ u) :
      ∀ u ∈ ts ++ us, 0 ∉ u := List.forall_mem_append.2 ⟨hts, hus⟩
  cases c with
  | objectStart => exact snoc comma (by decide)
  | objectEnd => exact (by decide : ∀ t ∈ [[0x7d]], (0 : UInt8) ∉ t)
  | arrayStart => exact snoc comma (by decide)
  | arrayEnd => exact (by decide : ∀ t ∈ [[0x5d]], (0 : UInt8) ∉ t)
  | key k => exact key k
  | string v => exact both comma (stringTokens_nulFree v)
  | int v => exact snoc comma (decInt_nulFree _)
  | uint v => exact snoc comma (decNat_nulFree _)
  | double v => exact snoc comma (printG v).nulFree
  | bool v => exact snoc comma (jsonBoolText_nulFree v)
  | null => exact snoc comma (by decide)
  | kvString k v => exact both (key k) (stringTokens_nulFree v)
  | kvInt k v => exact snoc (key k) (decInt_nulFree _)
  | kvUint k v => exact snoc (key k) (decNat_nulFree _)
  | kvDouble k v => exact snoc (key k) (printG v).nulFree
  | kvBool k v => exact snoc (key k) (jsonBoolText_nulFree v)

theorem callTokens_nulFree (b : Bool) (cs : List (JsonCall δ)) :
    ∀ t ∈ callTokens printG b cs, 0 ∉ t := by
  induction cs generalizing b with
  | nil => simp
  | cons c cs ih =>
    intro t ht
    rcases List.mem_append.1 ht with ht | ht
    · exact tokens_nulFree printG b c t ht
    · exact ih _ t ht

/-! ## The bounded builder -/

/-- What a builder has made of the tokens `ts` it was given since `jsonInit`. -/
structure Wrote (ts : List Bytes) (j : JsonBuilder) : Prop where
  buf_length : j.buf.length = j.size
  pos_lt : j.pos < j.size
  nul : j.buf[j.pos]? = some 0
  written : ∃ k ≤ ts.length,
    j.buf.take j.pos = (ts.take k).flatten ∧ (j.error = false → k = ts.length)
  full : j.error = true → j.size ≤ ts.flatten.length

theorem wrote_jsonInit {buf : Bytes} (h : 1 ≤ buf.length) :
    Wrote [] (jsonInit buf buf.length) := by
  have hpos : 0 < buf.length := h
  have hlen : (memcpy buf 0 [0]).length = buf.length := memcpy_length (by simpa using h)
  refine ⟨?_, hpos, ?_, ⟨0, by simp, by simp [jsonInit], fun _ => rfl⟩, by simp [jsonInit]⟩
  · simp [jsonInit, hpos, hlen]
  · simp [jsonInit, hpos, memcpy]

theorem wrote_jsonWrite {ts : List Bytes} {j : JsonBuilder} (h : Wrote ts j) (t : Bytes) :
    Wrote (ts ++ [t]) (jsonWrite j t) := by
  obtain ⟨k, hk, htake, hall⟩ := h.written
  have hcut : (ts ++ [t]).take k = ts.take k := List.take_append_of_le_length hk
  have hlen : (ts ++ [t]).flatten.length = ts.flatten.length + t.length := by simp
  by_cases herr : j.error = true
  · -- an earlier token did not fit: nothing changes
    have hsame : jsonWrite j t = j := by simp [jsonWrite, herr]
    rw [hsame]
    refine ⟨h.buf_length, h.pos_lt, h.nul, ⟨k, by simp; omega, by rw [hcut, htake], ?_⟩, ?_⟩
    · simp [herr]
    · intro _
      have := h.full herr
      omega
  · have herr : j.error = false := by simpa using herr
    have hk : k = ts.length := hall herr
    have hpos : j.pos = ts.flatten.length := by
      have hle : j.pos ≤ j.buf.length := by have := h.buf_length; have := h.pos_lt; omega
      rw [← List.take_length (l := ts), ← hk, ← htake, List.length_take, min_eq_left hle]
    by_cases hfit : j.pos + t.length ≥ j.size
    · -- the first token that does not fit
      have hfull : jsonWrite j t = { j with error := true } := by
        simp [jsonWrite, herr, hfit]
      rw [hfull]
      refine ⟨h.buf_length, h.pos_lt, h.nul, ⟨k, by simp; omega, by rw [hcut]; exact htake, ?_⟩,
        ?_⟩
      · simp
      · intro _
        show j.size ≤ _
        omega
    · have hdone : jsonWrite j t = { j with
          buf := memcpy (memcpy j.buf j.pos t) (j.pos + t.length) [0]
          pos := j.pos + t.length } := by simp [jsonWrite, herr, hfit]
      have hbuf := h.buf_length
      have hlen₁ : (memcpy j.buf j.pos t).length = j.buf.length := memcpy_length (by omega)
      have hlen₂ : (memcpy (memcpy j.buf j.pos t) (j.pos + t.length) [0]).length =
          j.buf.length := by
        rw [memcpy_length (by simp only [List.length_singleton]; omega), hlen₁]
      have htext : (memcpy (memcpy j.buf j.pos t) (j.pos + t.length) [0]).take
          (j.pos + t.length) = j.buf.take j.pos ++ t := by
        rw [memcpy, List.append_assoc, List.take_left' (by rw [List.length_take]; omega),
          take_memcpy (by omega)]
      rw [hdone]
      refine ⟨by simp only [hlen₂, hbuf], by simp only; omega, ?_, ⟨ts.length + 1, ?_⟩, ?_⟩
      · have hin : j.pos + t.length ≤ (memcpy j.buf j.pos t).length := by omega
        have hfst : ((memcpy j.buf j.pos t).take (j.pos + t.length)).length =
            j.pos + t.length := by rw [List.length_take, min_eq_left hin]
        show (memcpy (memcpy j.buf j.pos t) (j.pos + t.length) [0])[j.pos + t.length]? = some 0
        rw [memcpy, List.append_assoc, List.getElem?_append_right (by omega), hfst]
        simp
      · refine ⟨by simp, ?_, by simp⟩
        show (memcpy (memcpy j.buf j.pos t) (j.pos + t.length) [0]).take (j.pos + t.length) = _
        rw [htext, htake, hk, List.take_length, List.take_of_length_le (by simp)]
        simp
      · simp [herr]

theorem wrote_writeAll {ts : List Bytes} {j : JsonBuilder} (h : Wrote ts j) (us : List Bytes) :
    Wrote (ts ++ us) (writeAll us j) := by
  induction us generalizing ts j with
  | nil => simpa using h
  | cons u us ih => simpa using ih (wrote_jsonWrite h u)

theorem wrote_runCalls (buf : Bytes) (h : 1 ≤ buf.length) (cs : List (JsonCall δ)) :
    Wrote (callTokens printG false cs) (runCalls printG cs (jsonInit buf buf.length)) := by
  have hw := wrote_writeAll (wrote_jsonInit h) (callTokens printG false cs)
  rw [runCalls_eq]
  exact ⟨hw.buf_length, hw.pos_lt, hw.nul, hw.written, hw.full⟩

namespace Wrote

variable {ts : List Bytes} {j : JsonBuilder}

theorem pos_length (h : Wrote ts j) : (j.buf.take j.pos).length = j.pos := by
  have := h.buf_length
  have := h.pos_lt
  rw [List.length_take]
  omega

theorem text_eq (h : Wrote ts j) (hfree : ∀ t ∈ ts, 0 ∉ t) : j.text = j.buf.take j.pos := by
  obtain ⟨k, -, htake, -⟩ := h.written
  refine cstr_bytes_of_append ?_ h.nul
  rw [htake]
  intro hmem
  obtain ⟨t, ht, h0⟩ := List.mem_flatten.1 hmem
  exact hfree t (List.mem_of_mem_take ht) h0

/-- The text is a first part of the tokens. -/
theorem text_cut (h : Wrote ts j) (hfree : ∀ t ∈ ts, 0 ∉ t) :
    ∃ k ≤ ts.length, j.text = (ts.take k).flatten := by
  obtain ⟨k, hk, htake, -⟩ := h.written
  exact ⟨k, hk, by rw [h.text_eq hfree, htake]⟩

/-- The text is complete exactly when no token was refused. -/
theorem text_eq_flatten_iff (h : Wrote ts j) (hfree : ∀ t ∈ ts, 0 ∉ t) :
    j.text = ts.flatten ↔ jsonError j = false := by
  obtain ⟨k, hk, htake, hall⟩ := h.written
  rw [h.text_eq hfree]
  constructor
  · intro heq
    by_contra herr
    have hfull := h.full (by simpa [jsonError] using herr)
    have hlen := h.pos_length
    have hpos := h.pos_lt
    rw [heq] at hlen
    omega
  · intro herr
    rw [htake, hall herr, List.take_length]

/-- Nothing is refused exactly when everything and the NUL fit. -/
theorem error_iff (h : Wrote ts j) : jsonError j = true ↔ j.size ≤ ts.flatten.length := by
  obtain ⟨k, hk, htake, hall⟩ := h.written
  refine ⟨h.full, fun hle => ?_⟩
  by_contra herr
  have hk := hall (by simpa [jsonError] using herr)
  have hlen := h.pos_length
  have hpos := h.pos_lt
  rw [htake, hk, List.take_length] at hlen
  omega

end Wrote

theorem jsonWrite_error {j : JsonBuilder} (h : j.error = true) (t : Bytes) :
    jsonWrite j t = j := by simp [jsonWrite, h]

theorem writeAll_error {j : JsonBuilder} (h : j.error = true) (ts : List Bytes) :
    writeAll ts j = j := by
  induction ts with
  | nil => rfl
  | cons t ts ih => rw [writeAll_cons, jsonWrite_error h, ih]

/-- After an overflow the buffer never changes again. -/
theorem runCalls_text_of_error {j : JsonBuilder} (h : jsonError j = true)
    (cs : List (JsonCall δ)) : (runCalls printG cs j).text = j.text := by
  rw [runCalls_eq]
  show (cstr (writeAll _ j).buf).bytes = _
  rw [writeAll_error h]
  rfl

/-- A buffer with room for the text and its NUL receives the whole of it. -/
theorem runCalls_text_of_fits (buf : Bytes) (cs : List (JsonCall δ))
    (h : (unboundedText printG cs).length < buf.length) :
    (runCalls printG cs (jsonInit buf buf.length)).text = unboundedText printG cs ∧
      jsonError (runCalls printG cs (jsonInit buf buf.length)) = false := by
  have hw := wrote_runCalls printG buf (by omega) cs
  have hsize : (runCalls printG cs (jsonInit buf buf.length)).size = buf.length :=
    runCalls_size printG cs _
  have herr : jsonError (runCalls printG cs (jsonInit buf buf.length)) = false := by
    by_contra hne
    have := hw.error_iff.1 (by simpa using hne)
    rw [hsize] at this
    exact absurd this (by simpa [unboundedText] using h)
  exact ⟨(hw.text_eq_flatten_iff (callTokens_nulFree printG _ _)).2 herr, herr⟩

/-! ## Short tokens -/

/-- Tokens of at most `n` bytes: when one is refused, the buffer is full but for `n` bytes. -/
theorem writeAll_full {n : Nat} (ts : List Bytes) (hts : ∀ t ∈ ts, t.length ≤ n) {j : JsonBuilder}
    (hj : j.error = false) (herror : (writeAll ts j).error = true) :
    j.size ≤ (writeAll ts j).pos + n := by
  induction ts generalizing j with
  | nil =>
    rw [writeAll_nil, hj] at herror
    exact absurd herror Bool.false_ne_true
  | cons t ts ih =>
    obtain ⟨ht, hlater⟩ := List.forall_mem_cons.1 hts
    rw [writeAll_cons] at herror ⊢
    by_cases hfull : j.pos + t.length ≥ j.size
    · have hrefused : jsonWrite j t = { j with error := true } := by
        rw [jsonWrite, hj, if_neg Bool.false_ne_true, if_pos hfull]
      rw [hrefused, writeAll_error rfl]
      show j.size ≤ j.pos + n
      omega
    · have hwritten : (jsonWrite j t).error = false ∧ (jsonWrite j t).size = j.size := by
        simp [jsonWrite, hj, hfull]
      rw [← hwritten.2]
      exact ih hlater hwritten.1 herror

/-- Calls without a text of any length. -/
def isShort : JsonCall δ → Bool
  | .objectStart | .objectEnd | .arrayStart | .arrayEnd | .key _ | .kvInt _ _ => true
  | _ => false

theorem tokens_short (b : Bool) {c : JsonCall δ} (h : isShort c = true) :
    ∀ t ∈ c.tokens printG b, t.length ≤ 20 := by
  have hcomma : ∀ t ∈ commaTokens b, t.length ≤ 20 := by cases b <;> decide
  have hkey (k : CStr) : ∀ t ∈ keyTokens b k, t.length ≤ 20 := by
    intro t ht
    simp only [keyTokens, List.mem_append, List.mem_cons, List.mem_map, List.not_mem_nil,
      or_false] at ht
    rcases ht with ht | rfl | ⟨c, -, rfl⟩ | rfl
    · exact hcomma t ht
    · decide
    · rw [escapeKeyByte]
      split_ifs <;> simp
    · decide
  have hone {ts : List Bytes} {u : Bytes} (hts : ∀ t ∈ ts, t.length ≤ 20) (hu : u.length ≤ 20) :
      ∀ t ∈ ts ++ [u], t.length ≤ 20 :=
    List.forall_mem_append.2 ⟨hts, List.forall_mem_singleton.2 hu⟩
  cases c with
  | objectStart => exact hone hcomma (by decide)
  | objectEnd => exact hone (by simp : ∀ t ∈ ([] : List Bytes), t.length ≤ 20) (by decide)
  | arrayStart => exact hone hcomma (by decide)
  | arrayEnd => exact hone (by simp : ∀ t ∈ ([] : List Bytes), t.length ≤ 20) (by decide)
  | key k => exact hkey k
  | kvInt k v => exact hone (hkey k) (Json.decInt_length_le v)
  | _ => exact absurd h Bool.false_ne_true

theorem callTokens_short (b : Bool) {cs : List (JsonCall δ)}
    (h : ∀ c ∈ cs, isShort c = true) : ∀ t ∈ callTokens printG b cs, t.length ≤ 20 := by
  induction cs generalizing b with
  | nil => exact fun t ht => absurd ht List.not_mem_nil
  | cons c cs ih =>
    obtain ⟨hc, hcs⟩ := List.forall_mem_cons.1 h
    intro t ht
    rcases List.mem_append.1 ht with ht | ht
    · exact tokens_short printG b hc t ht
    · exact ih c.owesComma hcs t ht

/-! ## The text -/

/-- **A bounded builder shows a first part of the unbounded text, cut between tokens.** The
tokens `ts` are what the calls pass to `jsonWrite`; the text is whole exactly when the error flag
is down, and once it is up the text is final. -/
theorem bounded_builder_refines (mem : Bytes) (hmem : 1 ≤ mem.length) (cs : List (JsonCall δ)) :
    let j₀ := jsonInit mem mem.length
    let j := runCalls printG cs j₀
    let ts := callTokens printG false cs
    j.buf = (ts.foldl jsonWrite j₀).buf ∧
      j.size = mem.length ∧ j.buf.length = mem.length ∧
      j.pos < j.size ∧ j.buf[j.pos]? = some 0 ∧ j.text.length = jsonLength j ∧
      (∃ k ≤ ts.length, j.text = (ts.take k).flatten) ∧
      (j.text = unboundedText printG cs ↔ jsonError j = false) ∧
      (jsonError j = true → ∀ more, (runCalls printG (cs ++ more) j₀).text = j.text) ∧
      ∀ big : Bytes, (unboundedText printG cs).length < big.length →
        (runCalls printG cs (jsonInit big big.length)).text = unboundedText printG cs ∧
          jsonError (runCalls printG cs (jsonInit big big.length)) = false := by
  intro j₀ j ts
  have hw : Wrote ts j := wrote_runCalls printG _ hmem cs
  have hfree : ∀ t ∈ ts, 0 ∉ t := callTokens_nulFree printG false cs
  have htext : j.text = j.buf.take j.pos := hw.text_eq hfree
  have hsize : j.size = mem.length := runCalls_size printG cs j₀
  refine ⟨?_, hsize, hw.buf_length.trans hsize, hw.pos_lt, hw.nul, ?_, hw.text_cut hfree,
    hw.text_eq_flatten_iff hfree, ?_, fun big hbig => runCalls_text_of_fits printG big cs hbig⟩
  · show (runCalls printG cs j₀).buf = _
    rw [runCalls_eq]
    rfl
  · rw [htext, hw.pos_length]
    rfl
  · intro herr more
    rw [runCalls_append]
    exact runCalls_text_of_error printG herr more

/-- Four bytes hold `{"` of `{"a":true}` and no more. -/
theorem bounded_builder_refines_four :
    ∃ k ≤ 6, (runCalls Empty.elim [.objectStart, .kvBool (CStr.lit "a") true, .objectEnd]
      (jsonInit [0, 0, 0, 0] 4)).text =
        ([[0x7b], [0x22], [0x61], [0x22, 0x3a], [0x74, 0x72, 0x75, 0x65], [0x7d]].take k).flatten :=
  (bounded_builder_refines Empty.elim [0, 0, 0, 0] (by decide)
    [.objectStart, .kvBool (CStr.lit "a") true, .objectEnd]).2.2.2.2.2.2.1

end

end Qmem
