import Qmem.BuilderTokens

/-!
# Emitting a JSON tree

A `Tree` is what a program wants to say in JSON; `Tree.calls` is how it says it through the
builder, and `Emits cs t` allows every other way of saying it with the `kv` calls. The text is
the compact document `Tree.doc`: the comma flag is all the state there is between the calls, and
`tree_tokens` follows it through the tree.
-/

namespace Qmem

open CLib Json

/-- A key: `json_key` passes control characters through, so only those it escapes may occur. -/
structure Key where
  str : CStr
  plain : ∀ c ∈ str.bytes, c < 0x20 → c = 0x0a ∨ c = 0x0d ∨ c = 0x09

/-- A key of the source, an ASCII literal. -/
def Key.lit (s : String)
    (h : ∀ c ∈ (CStr.lit s).bytes, c < 0x20 → c = 0x0a ∨ c = 0x0d ∨ c = 0x09 := by decide) : Key :=
  ⟨CStr.lit s, h⟩

/-- A JSON value as the builder's calls can say it. -/
inductive Tree (δ : Type) where
  | null
  | bool (b : Bool)
  | int (i : Int64)
  | uint (n : UInt64)
  | double (d : δ)
  | str (s : CStr)
  | arr (ts : List (Tree δ))
  | obj (ms : List (Key × Tree δ))

/-! ## Strings and keys as literals -/

theorem hexVal_hexDigit {n : Nat} (h : n < 16) : hexVal (hexDigit n) = some n := by
  revert h n
  decide

theorem hex4_escapeHex (c : UInt8) :
    hex4 0x30 0x30 (hexDigit (c.toNat / 16)) (hexDigit (c.toNat % 16)) = some c.toNat := by
  have hlt := c.toNat_lt
  have h0 : hexVal 0x30 = some 0 := by decide
  rw [hex4, hexVal_hexDigit (by omega), hexVal_hexDigit (by omega), h0]
  simp only [Option.bind_eq_bind, Option.bind_some, Option.some.injEq]
  omega

theorem utf8_ascii {c : UInt8} (h : c < 0x20) : utf8 c.toNat = [c] := by
  have hlt : c.toNat < 32 := UInt8.lt_iff_toNat_lt.1 h
  rw [utf8, if_pos (by omega)]
  simp

/-- The parser undoes one escaped byte of a string. -/
theorem parseChars_escapeStringByte (c : UInt8) (rest : Bytes) :
    parseChars (escapeStringByte c ++ rest) =
      (parseChars rest).map fun p => (c :: p.1, p.2) := by
  unfold escapeStringByte
  split_ifs with h₁ h₂ h₃ h₄ h₅ h₆
  · subst h₁
    exact parseChars_escape (by decide) rest
  · subst h₂
    exact parseChars_escape (by decide) rest
  · subst h₃
    exact parseChars_escape (by decide) rest
  · subst h₄
    exact parseChars_escape (by decide) rest
  · subst h₅
    exact parseChars_escape (by decide) rest
  · have h := parseChars_hex 0x30 0x30 (hexDigit (c.toNat / 16)) (hexDigit (c.toNat % 16)) rest
    rw [hex4_escapeHex] at h
    simpa [escapeHex, utf8_ascii h₆] using h
  · exact parseChars_plain h₁ h₂ h₆ rest

/-- A key's escapes are those of a string where a key needs any. -/
theorem escapeKeyByte_eq {c : UInt8} (h : c < 0x20 → c = 0x0a ∨ c = 0x0d ∨ c = 0x09) :
    escapeKeyByte c = escapeStringByte c := by
  unfold escapeKeyByte escapeStringByte
  split_ifs with h₁ h₂ h₃ h₄ h₅ h₆
  iterate 5 rfl
  · rcases h h₆ with rfl | rfl | rfl <;> contradiction
  · rfl

theorem parseChars_escaped (s r : Bytes) :
    parseChars ((s.map escapeStringByte).flatten ++ 0x22 :: r) = some (s, r) := by
  induction s with
  | nil => exact parseChars_quote r
  | cons c s ih =>
    rw [List.map_cons, List.flatten_cons, List.append_assoc, parseChars_escapeStringByte, ih]
    rfl

def stringLit (s : CStr) : StrLit where
  body := (s.bytes.map escapeStringByte).flatten
  value := s.bytes
  parses := parseChars_escaped s.bytes

def Key.strLit (k : Key) : StrLit where
  body := (k.str.bytes.map escapeKeyByte).flatten
  value := k.str.bytes
  parses r := by
    rw [List.map_congr_left fun c hc => escapeKeyByte_eq (k.plain c hc)]
    exact parseChars_escaped k.str.bytes r

/-! ## Saying a tree -/

namespace JsonCall

variable {δ : Type}

/-- A call as calls that write no key and value at once. -/
def expand : JsonCall δ → List (JsonCall δ)
  | .string none => [.null]
  | .kvString k none => [.key k, .null]
  | .kvString k (some v) => [.key k, .string (some v)]
  | .kvInt k v => [.key k, .int v]
  | .kvUint k v => [.key k, .uint v]
  | .kvDouble k v => [.key k, .double v]
  | .kvBool k v => [.key k, .bool v]
  | c => [c]

end JsonCall

namespace Tree

variable {δ : Type}

theorem induct {P : Tree δ → Prop} (null : P .null) (bool : ∀ b, P (.bool b))
    (int : ∀ i, P (.int i)) (uint : ∀ n, P (.uint n)) (double : ∀ d, P (.double d))
    (str : ∀ s, P (.str s)) (arr : ∀ ts, (∀ t ∈ ts, P t) → P (.arr ts))
    (obj : ∀ ms, (∀ m ∈ ms, P m.2) → P (.obj ms)) (t : Tree δ) : P t :=
  @Tree.rec δ P (fun ts => ∀ t ∈ ts, P t) (fun ms => ∀ m ∈ ms, P m.2) (fun m => P m.2)
    null bool int uint double str arr obj
    (by simp) (fun _ _ ht hts => by simpa using ⟨ht, hts⟩)
    (by simp) (fun m _ hm hms => by rw [List.forall_mem_cons]; exact ⟨hm, hms⟩)
    (fun _ _ h => h) t

mutual

/-- The calls that say a tree. -/
def calls : Tree δ → List (JsonCall δ)
  | .null => [.null]
  | .bool b => [.bool b]
  | .int i => [.int i]
  | .uint n => [.uint n]
  | .double d => [.double d]
  | .str s => [.string (some s)]
  | .arr ts => .arrayStart :: (elemCalls ts ++ [.arrayEnd])
  | .obj ms => .objectStart :: (memberCalls ms ++ [.objectEnd])

def elemCalls : List (Tree δ) → List (JsonCall δ)
  | [] => []
  | t :: ts => calls t ++ elemCalls ts

def memberCalls : List (Key × Tree δ) → List (JsonCall δ)
  | [] => []
  | (k, t) :: ms => .key k.str :: (calls t ++ memberCalls ms)

end

theorem elemCalls_eq_flatMap (ts : List (Tree δ)) : elemCalls ts = ts.flatMap calls := by
  induction ts with
  | nil => rfl
  | cons t ts ih => rw [elemCalls, ih, List.flatMap_cons]

theorem memberCalls_append (ms ns : List (Key × Tree δ)) :
    memberCalls (ms ++ ns) = memberCalls ms ++ memberCalls ns := by
  induction ms with
  | nil => rfl
  | cons m ms ih => simp [memberCalls, ih]

/-- `cs` says `t`: call by call as `Tree.calls` does, except that a key and a scalar value may be
one `kv` call and that null may be said by a NULL string. -/
def Emits (cs : List (JsonCall δ)) (t : Tree δ) : Prop := cs.flatMap JsonCall.expand = t.calls

/-- The same for the members of an object that has been opened. -/
def EmitsMembers (cs : List (JsonCall δ)) (ms : List (Key × Tree δ)) : Prop :=
  cs.flatMap JsonCall.expand = memberCalls ms

/-! ## The document of a tree -/

section

variable (num : δ → NumLit)

mutual

/-- The document the builder writes for a tree, given how it prints a `double`. -/
def doc : Tree δ → Doc
  | .null => .null
  | .bool b => .bool b
  | .int i => .num (.ofInt i.toInt)
  | .uint n => .num (.ofInt n.toNat)
  | .double d => .num (num d)
  | .str s => .str (stringLit s)
  | .arr ts => .arr (docs ts)
  | .obj ms => .obj (memberDocs ms)

def docs : List (Tree δ) → List Doc
  | [] => []
  | t :: ts => doc t :: docs ts

def memberDocs : List (Key × Tree δ) → List (StrLit × Doc)
  | [] => []
  | (k, t) :: ms => (k.strLit, doc t) :: memberDocs ms

end

mutual

/-- The JSON value a tree is. -/
def value : Tree δ → Value
  | .null => .null
  | .bool b => .bool b
  | .int i => .num i.toInt
  | .uint n => .num n.toNat
  | .double d => .num (num d).value
  | .str s => .str s.bytes
  | .arr ts => .arr (values ts)
  | .obj ms => .obj (memberValues ms)

def values : List (Tree δ) → List Value
  | [] => []
  | t :: ts => value t :: values ts

def memberValues : List (Key × Tree δ) → List (Bytes × Value)
  | [] => []
  | (k, t) :: ms => (k.str.bytes, value t) :: memberValues ms

end

theorem value_docs {ts : List (Tree δ)} (h : ∀ t ∈ ts, (doc num t).value = value num t) :
    Doc.values (docs num ts) = values num ts := by
  induction ts with
  | nil => rfl
  | cons t ts ih =>
    rw [docs, Doc.values, values, h t (by simp), ih fun u hu => h u (by simp [hu])]

theorem value_memberDocs {ms : List (Key × Tree δ)}
    (h : ∀ m ∈ ms, (doc num m.2).value = value num m.2) :
    Doc.memberValues (memberDocs num ms) = memberValues num ms := by
  induction ms with
  | nil => rfl
  | cons m ms ih =>
    obtain ⟨k, t⟩ := m
    have ht : (doc num t).value = value num t := h (k, t) (by simp)
    rw [memberDocs, Doc.memberValues, memberValues, ht, ih fun u hu => h u (by simp [hu])]
    rfl

theorem value_doc (t : Tree δ) : (doc num t).value = value num t := by
  induction t using induct with
  | null => rfl
  | bool b => rfl
  | int i => rfl
  | uint n => simp [doc, Doc.value, value, NumLit.ofInt]
  | double d => rfl
  | str s => rfl
  | arr ts ih => rw [doc, Doc.value, value, value_docs num ih]
  | obj ms ih => rw [doc, Doc.value, value, value_memberDocs num ih]

/-- **The text of a tree parses back to the tree.** -/
theorem parse_doc (t : Tree δ) : parse (doc num t).render = some (value num t) := by
  rw [Doc.parse_render, value_doc]

end

/-! ## What the builder writes for a tree -/

section

variable (printG : δ → CStr)

theorem tokens_expand (b : Bool) (c : JsonCall δ) :
    callTokens printG b c.expand = c.tokens printG b := by
  cases c with
  | string v => cases v <;> simp [JsonCall.expand, JsonCall.tokens, stringTokens]
  | kvString k v =>
    cases v <;> simp [JsonCall.expand, JsonCall.tokens, JsonCall.owesComma, commaTokens,
      stringTokens]
  | _ => simp [JsonCall.expand, JsonCall.tokens, JsonCall.owesComma, commaTokens]

theorem commaAfter_expand (b : Bool) (c : JsonCall δ) : commaAfter b c.expand = c.owesComma := by
  cases c with
  | string v => cases v <;> rfl
  | kvString k v => cases v <;> rfl
  | _ => rfl

theorem callTokens_expand (b : Bool) (cs : List (JsonCall δ)) :
    callTokens printG b (cs.flatMap JsonCall.expand) = callTokens printG b cs := by
  induction cs generalizing b with
  | nil => rfl
  | cons c cs ih =>
    rw [List.flatMap_cons, callTokens_append, callTokens_cons, tokens_expand, commaAfter_expand,
      ih]

theorem depthChange_expand (cs : List (JsonCall δ)) :
    ((cs.flatMap JsonCall.expand).map JsonCall.depthChange).sum =
      (cs.map JsonCall.depthChange).sum := by
  induction cs with
  | nil => rfl
  | cons c cs ih =>
    rw [List.flatMap_cons, List.map_append, List.sum_append, ih, List.map_cons, List.sum_cons]
    congr 1
    cases c with
    | string v => cases v <;> rfl
    | kvString k v => cases v <;> rfl
    | _ => rfl

end

/-- The calls that say a tree leave a comma owed and the depth as it was. -/
theorem calls_comma (t : Tree δ) (b : Bool) : commaAfter b t.calls = true := by
  cases t with
  | arr ts => rw [calls, ← List.cons_append, commaAfter_append]; rfl
  | obj ms => rw [calls, ← List.cons_append, commaAfter_append]; rfl
  | _ => rfl

theorem calls_depth (t : Tree δ) : (t.calls.map JsonCall.depthChange).sum = 0 := by
  induction t using induct with
  | arr ts ih =>
    have hts : ((elemCalls ts).map JsonCall.depthChange).sum = 0 := by
      induction ts with
      | nil => rfl
      | cons t ts ihts =>
        rw [elemCalls, List.map_append, List.sum_append, ih t (by simp),
          ihts fun u hu => ih u (by simp [hu])]
        rfl
    simp [calls, hts, JsonCall.depthChange]
  | obj ms ih =>
    have hms : ((memberCalls ms).map JsonCall.depthChange).sum = 0 := by
      induction ms with
      | nil => rfl
      | cons m ms ihms =>
        obtain ⟨k, t⟩ := m
        have ht : (t.calls.map JsonCall.depthChange).sum = 0 := ih (k, t) (by simp)
        rw [memberCalls, List.map_cons, List.sum_cons, List.map_append, List.sum_append, ht,
          ihms fun u hu => ih u (by simp [hu])]
        rfl
    simp [calls, hms, JsonCall.depthChange]
  | _ => rfl

section

variable (num : δ → NumLit)

/-- What `snprintf` prints of a `double`, when that is the number literal `num`. -/
def numText (d : δ) : CStr where
  bytes := (num d).text
  nulFree h := absurd ((num d).all_numChar 0 h) (by decide)

/-- What the builder writes for a tree: the comma that is owed, and the tree's document. -/
def Writes (t : Tree δ) : Prop := ∀ b,
  (callTokens (numText num) b t.calls).flatten = (commaTokens b).flatten ++ (doc num t).render

theorem elems_tokens {ts : List (Tree δ)} (h : ∀ t ∈ ts, Writes num t) :
    (callTokens (numText num) true (elemCalls ts)).flatten =
      Doc.renderElemsTail (docs num ts) := by
  induction ts with
  | nil => rfl
  | cons t ts ih =>
    rw [elemCalls, callTokens_append, List.flatten_append, h t (by simp), calls_comma,
      ih fun u hu => h u (by simp [hu]), docs, Doc.renderElemsTail]
    rfl

theorem writes_arr {ts : List (Tree δ)} (h : ∀ t ∈ ts, Writes num t) : Writes num (.arr ts) := by
  intro b
  have helems : (callTokens (numText num) false (elemCalls ts)).flatten =
      Doc.renderElems (docs num ts) := by
    cases ts with
    | nil => rfl
    | cons t ts =>
      rw [elemCalls, callTokens_append, List.flatten_append, h t (by simp), calls_comma,
        elems_tokens num fun u hu => h u (by simp [hu]), docs, Doc.renderElems]
      rfl
  rw [calls, callTokens_cons, callTokens_append, List.flatten_append, List.flatten_append]
  simp only [JsonCall.owesComma, helems]
  simp [JsonCall.tokens, doc, Doc.render]

/-- A member after its comma: the key, a colon, the value. -/
theorem member_tokens {t : Tree δ} (ht : Writes num t) (b : Bool) (k : Key) :
    (callTokens (numText num) b (.key k.str :: t.calls)).flatten =
      (commaTokens b).flatten ++
        0x22 :: (k.strLit.body ++ 0x22 :: 0x3a :: (doc num t).render) := by
  have hvalue := ht false
  rw [callTokens_cons, List.flatten_append]
  simp only [JsonCall.owesComma, hvalue]
  simp [JsonCall.tokens, keyTokens, Key.strLit, commaTokens]

theorem members_tokens {ms : List (Key × Tree δ)} (h : ∀ m ∈ ms, Writes num m.2) :
    (callTokens (numText num) true (memberCalls ms)).flatten =
      Doc.renderMembersTail (memberDocs num ms) := by
  induction ms with
  | nil => rfl
  | cons m ms ih =>
    obtain ⟨k, t⟩ := m
    have ht : Writes num t := h (k, t) (by simp)
    rw [memberCalls, ← List.cons_append, callTokens_append, List.flatten_append,
      member_tokens num ht, commaAfter_cons, calls_comma, ih fun u hu => h u (by simp [hu]),
      memberDocs, Doc.renderMembersTail]
    simp [commaTokens]

theorem writes_obj {ms : List (Key × Tree δ)} (h : ∀ m ∈ ms, Writes num m.2) :
    Writes num (.obj ms) := by
  intro b
  have hmembers : (callTokens (numText num) false (memberCalls ms)).flatten =
      Doc.renderMembers (memberDocs num ms) := by
    cases ms with
    | nil => rfl
    | cons m ms =>
      obtain ⟨k, t⟩ := m
      have ht : Writes num t := h (k, t) (by simp)
      rw [memberCalls, ← List.cons_append, callTokens_append, List.flatten_append,
        member_tokens num ht, commaAfter_cons, calls_comma,
        members_tokens num fun u hu => h u (by simp [hu]), memberDocs, Doc.renderMembers]
      simp [commaTokens]
  rw [calls, callTokens_cons, callTokens_append, List.flatten_append, List.flatten_append]
  simp only [JsonCall.owesComma, hmembers]
  simp [JsonCall.tokens, doc, Doc.render]

theorem writes (t : Tree δ) : Writes num t := by
  induction t using induct with
  | null => intro b; simp [calls, JsonCall.tokens, doc, Doc.render, litNull, jsonNullText]
  | bool v =>
    intro b
    cases v <;> simp [calls, JsonCall.tokens, doc, Doc.render, litTrue, litFalse, jsonBoolText]
  | int i => intro b; simp [calls, JsonCall.tokens, doc, Doc.render, NumLit.ofInt]
  | uint n =>
    intro b
    simp [calls, JsonCall.tokens, doc, Doc.render, NumLit.ofInt, decInt]
  | double d => intro b; simp [calls, JsonCall.tokens, doc, Doc.render, numText]
  | str s =>
    intro b
    simp [calls, JsonCall.tokens, doc, Doc.render, stringTokens, stringLit]
  | arr ts ih => exact writes_arr num ih
  | obj ms ih => exact writes_obj num ih

/-- **The text of any calls that say a tree is the tree's document.** -/
theorem unboundedText_of_emits {cs : List (JsonCall δ)} {t : Tree δ} (h : Emits cs t) :
    unboundedText (numText num) cs = (doc num t).render := by
  rw [unboundedText, ← callTokens_expand, h, writes]
  rfl

theorem depth_of_emits {cs : List (JsonCall δ)} {t : Tree δ} (h : Emits cs t) :
    (cs.map JsonCall.depthChange).sum = 0 := by
  rw [← depthChange_expand, h, calls_depth]

/-- **Emitting a tree round-trips.** In a buffer with room for it, any calls that say the tree
leave its document, which the parser decodes back to the tree. -/
theorem emits_parse {cs : List (JsonCall δ)} {t : Tree δ} (h : Emits cs t) (buf : Bytes)
    (hroom : (doc num t).render.length < buf.length) :
    let j := runCalls (numText num) cs (jsonInit buf buf.length)
    jsonError j = false ∧ j.text = (doc num t).render ∧ parse j.text = some (value num t) := by
  intro j
  have hfits := runCalls_text_of_fits (numText num) buf cs
    (by rw [unboundedText_of_emits num h]; exact hroom)
  have htext : j.text = (doc num t).render := by
    rw [← unboundedText_of_emits num h]
    exact hfits.1
  exact ⟨hfits.2, htext, by rw [htext, parse_doc]⟩

end

/-! ## Round trip -/

theorem elemCalls_expand {ts : List (Tree δ)}
    (h : ∀ t ∈ ts, t.calls.flatMap JsonCall.expand = t.calls) :
    (elemCalls ts).flatMap JsonCall.expand = elemCalls ts := by
  induction ts with
  | nil => rfl
  | cons t ts ih =>
    rw [elemCalls, List.flatMap_append, h t (by simp), ih fun u hu => h u (by simp [hu])]

theorem memberCalls_expand {ms : List (Key × Tree δ)}
    (h : ∀ m ∈ ms, m.2.calls.flatMap JsonCall.expand = m.2.calls) :
    (memberCalls ms).flatMap JsonCall.expand = memberCalls ms := by
  induction ms with
  | nil => rfl
  | cons m ms ih =>
    obtain ⟨k, t⟩ := m
    have ht : t.calls.flatMap JsonCall.expand = t.calls := h (k, t) (by simp)
    rw [memberCalls, List.flatMap_cons, List.flatMap_append, ht,
      ih fun u hu => h u (by simp [hu])]
    rfl

theorem emits_calls (t : Tree δ) : Emits t.calls t := by
  induction t using induct with
  | arr ts ih =>
    rw [Emits, calls, List.flatMap_cons, List.flatMap_append, elemCalls_expand ih]
    rfl
  | obj ms ih =>
    rw [Emits, calls, List.flatMap_cons, List.flatMap_append, memberCalls_expand ih]
    rfl
  | _ => rfl

/-- **A tree survives the builder and the parser.** For a tree without doubles, however it is
said, in any buffer with room for the text and its NUL. -/
theorem tree_round_trip (printG : Empty → CStr) (t : Tree Empty) (cs : List (JsonCall Empty))
    (hcs : Emits cs t) (buf : Bytes) (hroom : (unboundedText printG cs).length < buf.length) :
    let j := runCalls printG cs (jsonInit buf buf.length)
    jsonError j = false ∧ j.text = (doc Empty.elim t).render ∧
      parse j.text = some (value Empty.elim t) := by
  obtain rfl : printG = numText Empty.elim := Subsingleton.elim _ _
  rw [unboundedText_of_emits Empty.elim hcs] at hroom
  exact emits_parse Empty.elim hcs buf hroom

/-- `{"a":[true,"b"],"c":null}`, whose last member is said with a `kv` call. -/
theorem tree_round_trip_small :
    parse (runCalls Empty.elim [.objectStart, .key (CStr.lit "a"), .arrayStart, .bool true,
        .string (some (CStr.lit "b")), .arrayEnd, .kvString (CStr.lit "c") none, .objectEnd]
      (jsonInit (List.replicate 40 0) 40)).text =
      some (.obj [([0x61], .arr [.bool true, .str [0x62]]), ([0x63], .null)]) :=
  (tree_round_trip Empty.elim
    (.obj [(.lit "a", .arr [.bool true, .str (CStr.lit "b")]), (.lit "c", .null)])
    [.objectStart, .key (CStr.lit "a"), .arrayStart, .bool true, .string (some (CStr.lit "b")),
      .arrayEnd, .kvString (CStr.lit "c") none, .objectEnd]
    (by simp only [Emits]; rfl) (List.replicate 40 0) (by decide)).2.2

end Tree

end Qmem
