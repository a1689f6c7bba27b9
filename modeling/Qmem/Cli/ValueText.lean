import Qmem.Cli.KeyScan
import Qmem.KeyText

/-!
# Values and keys in the builder's text

The calls that say one value write a text of their own, and behind it, if more calls follow, come
a comma or a bracket. The keys here are any strings. A search for the key `k` then stops at the
first key that is `k` or that ends in a quote and `k`: `json_key` writes that quote with a
backslash, and the search does not look at what comes before it.
-/

namespace Qmem

open CLib

variable {δ : Type}

/-! ## Values -/

/-- Calls that say one value. -/
inductive ValueCalls : List (JsonCall δ) → Prop
  | null : ValueCalls [.null]
  | bool (b : Bool) : ValueCalls [.bool b]
  | int (i : Int64) : ValueCalls [.int i]
  | uint (n : UInt64) : ValueCalls [.uint n]
  | double (d : δ) : ValueCalls [.double d]
  | string (s : CStr) : ValueCalls [.string (some s)]
  | array (vs : List (List (JsonCall δ))) (h : ∀ v ∈ vs, ValueCalls v) :
      ValueCalls (.arrayStart :: (vs.flatten ++ [.arrayEnd]))
  | object (ms : List (CStr × List (JsonCall δ))) (h : ∀ m ∈ ms, ValueCalls m.2) :
      ValueCalls (.objectStart :: ((ms.flatMap fun m => .key m.1 :: m.2) ++ [.objectEnd]))

/-- The calls of a tree are such calls. -/
theorem Tree.calls_value (t : Tree δ) : ValueCalls t.calls := by
  induction t using Tree.induct with
  | null => exact .null
  | bool b => exact .bool b
  | int i => exact .int i
  | uint n => exact .uint n
  | double d => exact .double d
  | str s => exact .string s
  | arr ts ih =>
    rw [Tree.calls, Tree.elemCalls_eq_flatMap, List.flatMap_def]
    refine .array _ fun v hv => ?_
    obtain ⟨t, ht, rfl⟩ := List.mem_map.1 hv
    exact ih t ht
  | obj ms ih =>
    have hmembers : Tree.memberCalls ms =
        (ms.map fun m => (m.1.str, m.2.calls)).flatMap fun m => .key m.1 :: m.2 := by
      clear ih
      induction ms with
      | nil => rfl
      | cons m ms ihms => rw [Tree.memberCalls, ihms]; rfl
    rw [Tree.calls, hmembers]
    refine .object _ fun m hm => ?_
    obtain ⟨m', hm', rfl⟩ := List.mem_map.1 hm
    exact ih m' hm'

/-- Behind each of the keys comes a value, and something behind it. -/
def KeyedValues (cs : List (JsonCall δ)) : Prop :=
  ∀ front k rest, cs = front ++ .key k :: rest →
    ∃ v back, rest = v ++ back ∧ ValueCalls v ∧ back ≠ []

theorem keyedValues_singleton {c : JsonCall δ} (h : c.key? = none) : KeyedValues [c] := by
  intro front k rest hcs
  have hmem : JsonCall.key k ∈ [c] := by
    rw [hcs]
    exact List.mem_append_right front List.mem_cons_self
  rw [← List.mem_singleton.1 hmem] at h
  cases h

theorem KeyedValues.cons {c : JsonCall δ} {cs : List (JsonCall δ)} (hc : c.key? = none)
    (h : KeyedValues cs) : KeyedValues (c :: cs) := by
  intro front k rest hcs
  cases front with
  | nil =>
    rw [(List.cons.inj hcs).1] at hc
    cases hc
  | cons d front => exact h front k rest (List.cons.inj hcs).2

theorem KeyedValues.append {cs ds : List (JsonCall δ)} (hcs : KeyedValues cs)
    (hds : KeyedValues ds) : KeyedValues (cs ++ ds) := by
  intro front k rest heq
  rcases List.append_eq_append_iff.1 heq with ⟨front', -, hrest⟩ | ⟨rest', hfront, hrest⟩
  · exact hds front' k rest hrest
  · cases rest' with
    | nil => exact hds [] k rest hrest.symm
    | cons c rest' =>
      obtain ⟨rfl, rfl⟩ := List.cons.inj hrest
      obtain ⟨v, back, rfl, hv, hne⟩ := hcs front k rest' hfront
      exact ⟨v, back ++ ds, List.append_assoc v back ds, hv, fun hnil =>
        hne (List.append_eq_nil_iff.1 hnil).1⟩

theorem KeyedValues.member {k : CStr} {v ds : List (JsonCall δ)} (hv : ValueCalls v)
    (h : KeyedValues v) (hds : KeyedValues ds) (hne : ds ≠ []) :
    KeyedValues (.key k :: (v ++ ds)) := by
  intro front k' rest heq
  cases front with
  | nil => exact ⟨v, ds, (List.cons.inj heq).2.symm, hv, hne⟩
  | cons c front => exact h.append hds front k' rest (List.cons.inj heq).2

theorem ValueCalls.keyedValues {cs : List (JsonCall δ)} (h : ValueCalls cs) : KeyedValues cs := by
  induction h with
  | array vs hvs ih =>
    refine .cons rfl (.append ?_ (keyedValues_singleton rfl))
    clear hvs
    induction vs with
    | nil => exact fun front k rest h => absurd h.symm (List.append_ne_nil_of_right_ne_nil _ nofun)
    | cons v vs ihvs =>
      rw [List.forall_mem_cons] at ih
      exact ih.1.append (ihvs ih.2)
  | object ms hms ih =>
    refine .cons rfl ?_
    induction ms with
    | nil => exact keyedValues_singleton rfl
    | cons m ms ihms =>
      rw [List.forall_mem_cons] at ih hms
      rw [List.flatMap_cons, List.append_assoc, List.cons_append]
      exact .member hms.1 ih.1 (ihms hms.2 ih.2) (List.append_ne_nil_of_right_ne_nil _ nofun)
  | _ => exact keyedValues_singleton rfl

section

variable {printG : δ → CStr} {v cs : List (JsonCall δ)}

theorem ValueCalls.commaAfter (h : ValueCalls v) (b : Bool) : commaAfter b v = true := by
  cases h with
  | array vs _ => rw [← List.cons_append, commaAfter_append]; rfl
  | object ms _ => rw [← List.cons_append, commaAfter_append]; rfl
  | _ => rfl

theorem ValueCalls.callText_comma (h : ValueCalls v) (b : Bool) :
    callText printG b v = (if b then [0x2c] else []) ++ callText printG false v := by
  cases h <;> cases b <;> rfl

/-- A value, and the calls behind it. -/
theorem ValueCalls.callText_append (h : ValueCalls v) (b : Bool) (cs : List (JsonCall δ)) :
    callText printG b (v ++ cs) =
      (if b then [0x2c] else []) ++ (callText printG false v ++ callText printG true cs) := by
  rw [Qmem.callText_append, h.callText_comma, h.commaAfter, List.append_assoc]

theorem callText_array (printG : δ → CStr) (cs : List (JsonCall δ)) :
    callText printG false (.arrayStart :: (cs ++ [.arrayEnd])) =
      0x5b :: (callText printG false cs ++ [0x5d]) := by
  rw [callText_cons, callText_append]
  rfl

theorem callText_object (printG : δ → CStr) (cs : List (JsonCall δ)) :
    callText printG false (.objectStart :: (cs ++ [.objectEnd])) =
      0x7b :: (callText printG false cs ++ [0x7d]) := by
  rw [callText_cons, callText_append]
  rfl

theorem callText_string (printG : δ → CStr) (s : CStr) :
    callText printG false [.string (some s)] = 0x22 :: (escaped s.bytes ++ [0x22]) := by
  simp [callText, JsonCall.tokens, commaTokens, stringTokens, escaped]

/-- What a call writes when more is to come: at least a comma or a bracket. -/
theorem callText_ne_nil (printG : δ → CStr) (hne : cs ≠ []) : callText printG true cs ≠ [] := by
  cases cs with
  | nil => exact absurd rfl hne
  | cons c cs => cases c <;> simp [callText_cons, JsonCall.tokens, commaTokens, keyTokens]

end

/-! ## Any keys -/

/-- The escaped bytes of a key. -/
def escapedKey (s : Bytes) : Bytes := (s.map escapeKeyByte).flatten

theorem escapedKey_cons (c : UInt8) (s : Bytes) :
    escapedKey (c :: s) = escapeKeyByte c ++ escapedKey s := List.flatten_cons

theorem escapedKey_append (s t : Bytes) : escapedKey (s ++ t) = escapedKey s ++ escapedKey t := by
  rw [escapedKey, List.map_append, List.flatten_append]
  rfl

theorem escapeKeyByte_cases (c : UInt8) :
    (escapeKeyByte c = [c] ∧ c ≠ 0x22 ∧ c ≠ 0x5c) ∨ (c = 0x22 ∧ escapeKeyByte c = [0x5c, 0x22]) ∨
      ∃ d, escapeKeyByte c = [0x5c, d] ∧ d ≠ 0x22 ∧ c ≠ 0x22 := by
  unfold escapeKeyByte
  split_ifs with h₁ h₂ h₃ h₄ h₅
  · exact .inr (.inl ⟨h₁, rfl⟩)
  · exact .inr (.inr ⟨_, rfl, by decide, h₁⟩)
  · exact .inr (.inr ⟨_, rfl, by decide, h₁⟩)
  · exact .inr (.inr ⟨_, rfl, by decide, h₁⟩)
  · exact .inr (.inr ⟨_, rfl, by decide, h₁⟩)
  · exact .inl ⟨rfl, h₁, h₂⟩

/-- The comma, the key, the colon, and what comes behind them. -/
theorem callText_anyKey (printG : δ → CStr) (b : Bool) (k : CStr) (cs : List (JsonCall δ)) :
    callText printG b (.key k :: cs) = (if b then [0x2c] else []) ++
      0x22 :: (escapedKey k.bytes ++ 0x22 :: 0x3a :: callText printG false cs) := by
  rw [callText_cons]
  cases b <;> simp [JsonCall.tokens, keyTokens, commaTokens, escapedKey, JsonCall.owesComma]

/-- Where the search for `k` takes a key to be the one. -/
def Finds (k k' : CStr) : Prop := k' = k ∨ 0x22 :: k.bytes <:+ k'.bytes

section

variable {k : CStr} {rest : Bytes}

/-- Identifier characters with the closing quote and the colon are a key's text only if they are
all of it. -/
theorem eq_of_prefix_escapedKey {w s : Bytes} (hw : ∀ c ∈ w, identChar c = true)
    (h : w ++ [0x22, 0x3a] <+: escapedKey s ++ 0x22 :: rest) : w = s := by
  induction s generalizing w with
  | nil =>
    cases w with
    | nil => rfl
    | cons d w =>
      have hd := identChar_plain (hw d List.mem_cons_self)
      exact absurd (List.cons_prefix_cons.1 h).1 hd.1
  | cons c s ih =>
    rw [escapedKey_cons] at h
    have hbackslash {t : Bytes} (hesc : escapeKeyByte c = 0x5c :: t) : False := by
      rw [hesc] at h
      cases w with
      | nil => exact absurd (List.cons_prefix_cons.1 h).1 (by decide)
      | cons d w =>
        have hd := identChar_plain (hw d List.mem_cons_self)
        exact hd.2.1 (List.cons_prefix_cons.1 h).1
    rcases escapeKeyByte_cases c with ⟨hesc, hquote, -⟩ | ⟨-, hesc⟩ | ⟨d, hesc, -⟩
    · rw [hesc] at h
      cases w with
      | nil => exact absurd (List.cons_prefix_cons.1 h).1.symm hquote
      | cons d w =>
        obtain ⟨rfl, htail⟩ := List.cons_prefix_cons.1 h
        rw [ih (fun c hc => hw c (List.mem_cons_of_mem d hc)) htail]
    · exact (hbackslash hesc).elim
    · exact (hbackslash hesc).elim

/-- The pattern begins nowhere in the first part of a key's text, if what comes behind a quote of
that part is not `k`. -/
theorem skips_escapedKey (hk : identKey k = true) {p q : Bytes}
    (h : ∀ u v, p = u ++ 0x22 :: v → v ++ q ≠ k.bytes) :
    Skips (keyPattern k) (escapedKey p) (escapedKey q ++ 0x22 :: rest) := by
  induction p with
  | nil => exact skips_nil
  | cons c p ih =>
    have hp : Skips (keyPattern k) (escapedKey p) (escapedKey q ++ 0x22 :: rest) :=
      ih fun u v huv => h (c :: u) v (by rw [huv]; rfl)
    rw [escapedKey_cons]
    refine .append ?_ hp
    rcases escapeKeyByte_cases c with ⟨hesc, hquote, -⟩ | ⟨rfl, hesc⟩ | ⟨d, hesc, hd, -⟩
    · rw [hesc]
      exact skips_of_not_mem (by simpa using hquote.symm)
    · rw [hesc]
      refine .cons (fun hpre => absurd (List.cons_prefix_cons.1 hpre).1 (by decide))
        (.cons (fun hpre => ?_) skips_nil)
      have hbody := (List.cons_prefix_cons.1 hpre).2
      rw [List.nil_append, ← List.append_assoc, ← escapedKey_append] at hbody
      exact h [] p rfl (eq_of_prefix_escapedKey (identKey_iff.1 hk).2 hbody).symm
    · rw [hesc]
      exact skips_of_not_mem (by simpa using hd.symm)

/-- It does not begin in a key that the search for it does not find. -/
theorem skips_anyKey (hk : identKey k = true) {k' : CStr} (h : ¬ Finds k k') :
    Skips (keyPattern k) (0x22 :: (escapedKey k'.bytes ++ [0x22, 0x3a])) rest := by
  obtain ⟨hne, hident⟩ := identKey_iff.1 hk
  obtain ⟨d, w, hw⟩ := List.exists_cons_of_ne_nil hne
  have hd : identChar d = true := hident d (by rw [hw]; exact List.mem_cons_self)
  refine .cons (fun hpre => ?_) (.append ?_ (.cons (fun hpre => ?_) (skips_of_not_mem (by decide))))
  · have hbody := (List.cons_prefix_cons.1 hpre).2
    rw [List.append_assoc] at hbody
    exact h (.inl (CStr.ext (eq_of_prefix_escapedKey hident hbody).symm))
  · refine skips_escapedKey (q := []) hk fun u v hk' hv => h (.inr ⟨u, ?_⟩)
    rw [hk', ← hv, List.append_nil]
  · rw [keyPattern, hw] at hpre
    exact (identChar_plain hd).2.2.1 (List.cons_prefix_cons.1 (List.cons_prefix_cons.1 hpre).2).1

/-- In a key that it finds, it begins where the rest of the key is `k`. -/
theorem strstr_anyKey (hk : identKey k = true) {k' : CStr} (h : Finds k k') :
    strstr (0x22 :: (escapedKey k'.bytes ++ 0x22 :: 0x3a :: rest)) (keyPattern k) =
      some (keyPattern k ++ rest) := by
  have hself : escapedKey k.bytes = k.bytes := escapeKey_of_ident hk
  have hpattern : 0x22 :: (escapedKey k.bytes ++ 0x22 :: 0x3a :: rest) = keyPattern k ++ rest := by
    simp [hself, keyPattern]
  rcases h with rfl | ⟨p, hp⟩
  · rw [hpattern]
    exact strstr_here (List.prefix_append _ _)
  · have htext : 0x22 :: (escapedKey k'.bytes ++ 0x22 :: 0x3a :: rest) =
        0x22 :: (escapedKey p ++ [0x5c]) ++ (keyPattern k ++ rest) := by
      rw [← hp, escapedKey_append, escapedKey_cons, ← hpattern]
      simp [escapeKeyByte]
    have hlonger (v : Bytes) : v ++ 0x22 :: k.bytes ≠ k.bytes := by
      intro heq
      have hlen := congrArg List.length heq
      simp only [List.length_append, List.length_cons] at hlen
      omega
    have hbehind : 0x5c :: (keyPattern k ++ rest) =
        escapedKey (0x22 :: k.bytes) ++ 0x22 :: 0x3a :: rest := by
      rw [escapedKey_cons, ← hpattern]
      simp [escapeKeyByte]
    rw [htext, strstr_skips, strstr_here (List.prefix_append _ _)]
    refine .cons (fun hpre => ?_) (.append ?_ (skips_of_not_mem (by decide)))
    · have hbody := (List.cons_prefix_cons.1 hpre).2
      rw [List.append_assoc, List.singleton_append, hbehind, ← List.append_assoc,
        ← escapedKey_append] at hbody
      exact hlonger p (eq_of_prefix_escapedKey (identKey_iff.1 hk).2 hbody).symm
    · rw [List.singleton_append, hbehind]
      exact skips_escapedKey hk fun u v _ => hlonger v

end

section

variable {printG : δ → CStr} {cs : List (JsonCall δ)} {k : CStr}

/-- The calls write keys by themselves, not with their values. -/
def OwnKeys (cs : List (JsonCall δ)) : Prop := ∀ c ∈ cs, ∀ k ∈ c.key?, c = .key k

theorem ownKeys_expand (cs : List (JsonCall δ)) : OwnKeys (cs.flatMap JsonCall.expand) := by
  intro c hc k hk
  obtain ⟨d, -, hd⟩ := List.mem_flatMap.1 hc
  cases d with
  | string v => cases v <;> simp_all [JsonCall.expand, JsonCall.key?]
  | kvString k' v =>
    cases v <;>
    · simp only [JsonCall.expand, List.mem_cons, List.not_mem_nil, or_false] at hd
      rcases hd with rfl | rfl <;> simp_all [JsonCall.key?]
  | kvInt k' v | kvUint k' v | kvDouble k' v | kvBool k' v =>
    simp only [JsonCall.expand, List.mem_cons, List.not_mem_nil, or_false] at hd
    rcases hd with rfl | rfl <;> simp_all [JsonCall.key?]
  | _ => simp_all [JsonCall.expand, JsonCall.key?]

/-- The search finds none of the calls' keys. -/
def FindsNone (k : CStr) (cs : List (JsonCall δ)) : Prop := ∀ c ∈ cs, ∀ k' ∈ c.key?, ¬ Finds k k'

/-- **The search for an identifier finds the first key that is it or ends in a quote and it.** -/
theorem strstr_found (hprint : ∀ d, 0x22 ∉ (printG d).bytes) (hk : identKey k = true)
    {front back : List (JsonCall δ)} {k' : CStr} (hown : OwnKeys front)
    (hfront : FindsNone k front) (hk' : Finds k k') (b : Bool) :
    strstr (callText printG b (front ++ .key k' :: back)) (keyPattern k) =
      some (keyPattern k ++ callText printG false back) := by
  induction front generalizing b with
  | nil =>
    rw [List.nil_append, callText_anyKey, keyPattern, strstr_skips (skips_comma b _)]
    exact strstr_anyKey hk hk'
  | cons c front ih =>
    rw [OwnKeys, List.forall_mem_cons] at hown
    rw [FindsNone, List.forall_mem_cons] at hfront
    have hskips : Skips (keyPattern k) (c.tokens printG b).flatten
        (callText printG c.owesComma (front ++ .key k' :: back)) := by
      cases hkey : c.key? with
      | none =>
        have hnone : ∀ k ∈ c.key?, identKey k = true := by simp [hkey]
        exact skips_call hprint hk b hnone (by simp [hkey])
      | some k'' =>
        obtain rfl := hown.1 k'' hkey
        have htext : ((JsonCall.key k'').tokens printG b).flatten =
            (if b then [0x2c] else []) ++ 0x22 :: (escapedKey k''.bytes ++ [0x22, 0x3a]) := by
          have hone := callText_anyKey printG b k'' []
          rwa [callText_cons, callText_nil, callText_nil, List.append_nil] at hone
        rw [htext]
        exact .append (skips_comma b _) (skips_anyKey hk (hfront.1 k'' hkey))
    rw [List.cons_append, callText_cons, strstr_skips hskips]
    exact ih hown.2 hfront.2 _

end

end Qmem
