import Qmem.Cli.KeyScan
import Qmem.Lib.Scanf
import Qmem.ProcUtils
import Mathlib.Data.List.DropRight

/-!
# Reading JSON without a parser (`cli/commands.c`)

The commands search the text of the snapshot for `"key":` and read what follows. On what the
builder writes, with identifiers for keys, that finds keys and nothing else: `json_find_key_iff`.
-/

namespace Qmem

open CLib

/-- `json_find_key`; the pattern is cut to what `search[128]` holds. -/
def jsonFindKey (json : Bytes) (key : CStr) : Option Bytes :=
  strstr json ((keyPattern key).take 127)

/-- `json_get_int`. -/
def jsonGetInt (json : Bytes) (key : CStr) : Int64 :=
  match jsonFindKey json key with
  | none => 0
  | some pos =>
    match strchr pos 0x3a with
    | none => 0
    | some pos => strtoll (pos.tail.dropWhile isspace)

/-- The code that extracts a string, wherever it stands: it searches for the key and a quote, and
takes what comes before the next quote, at most `size` bytes of it. -/
def extractString (json : Bytes) (key : CStr) (size : Nat) (default : Bytes) : Bytes :=
  match strstr json (keyPattern key ++ [0x22]) with
  | none => default
  | some pos =>
    let pos := pos.drop (keyPattern key ++ [0x22]).length
    match strchr pos 0x22 with
    | none => default
    | some quote => (pos.take (pos.length - quote.length)).take size

/-- The loop over an array: from the next bracket on, a row for each object that starts with the
key, up to the end of the text. -/
def arrayRows {β : Type} (json : Bytes) (key : CStr) (row : Bytes → β) : List β :=
  match strchr json 0x5b with
  | none => []
  | some pos => (scan (objectPattern key) pos).map row

/-- The test for an empty array: whether an object that starts with the key stands anywhere behind
the next bracket. -/
def objectBehind (json : Bytes) (key : CStr) : Bool :=
  match strchr json 0x5b with
  | none => false
  | some bracket => (strstr bracket (objectPattern key)).isSome

section

variable {δ : Type} {printG : δ → CStr} {k : CStr} {cs : List (JsonCall δ)}

/-! ## The search of `json_find_key` -/

/-- The key stands in the document at offset `n`, with its colon, as a key. -/
def KeyIn (printG : δ → CStr) (cs : List (JsonCall δ)) (doc : Bytes) (k : CStr) (n : Nat) : Prop :=
  KeyAt printG false cs k n ∧ n + (keyPattern k).length ≤ doc.length

/-- An object starts there whose first key stands in the document and is `k`. -/
def ObjectIn (printG : δ → CStr) (cs : List (JsonCall δ)) (doc : Bytes) (k : CStr) (n : Nat) :
    Prop :=
  ObjectAt printG false cs k n ∧ n + (objectPattern k).length ≤ doc.length

/-- The pattern is not cut. -/
theorem jsonFindKey_eq (hlen : k.bytes.length ≤ 124) (json : Bytes) :
    jsonFindKey json k = strstr json (keyPattern k) := by
  rw [jsonFindKey, keyPattern_take hlen]

/-- The document is a first part of the text. -/
theorem text_eq_take (printG : δ → CStr) (cs : List (JsonCall δ)) (mem : Bytes)
    (hmem : 1 ≤ mem.length) :
    let doc := (runCalls printG cs (jsonInit mem mem.length)).text
    doc = (callText printG false cs).take doc.length := by
  intro doc
  obtain ⟨n, -, hdoc⟩ := (wrote_runCalls printG mem hmem cs).text_cut
    (callTokens_nulFree printG false cs)
  have hsplit : callText printG false cs =
      doc ++ ((callTokens printG false cs).drop n).flatten := by
    rw [show doc = _ from hdoc, ← List.flatten_append, List.take_append_drop]
    rfl
  rw [hsplit, List.take_left]

/-- **`json_find_key` finds keys and nothing else**: in a document of the builder, whole or cut
off, it points at the first place where the key is written with its colon, and an object pattern
stands exactly where an object starts with the key. -/
theorem json_find_key_iff (hprint : ∀ d, 0x22 ∉ (printG d).bytes) (hident : IdentKeys cs)
    (mem : Bytes) (hmem : 1 ≤ mem.length) (hk : identKey k = true) (hlen : k.bytes.length ≤ 124) :
    let doc := (runCalls printG cs (jsonInit mem mem.length)).text
    (jsonFindKey doc k = none ↔ ∀ n, ¬ KeyIn printG cs doc k n) ∧
      (∀ pos, jsonFindKey doc k = some pos ↔
        ∃ n, pos = doc.drop n ∧ KeyIn printG cs doc k n ∧ ∀ m < n, ¬ KeyIn printG cs doc k m) ∧
      ∀ n, objectPattern k <+: doc.drop n ↔ ObjectIn printG cs doc k n := by
  intro doc
  have hdoc : doc = (callText printG false cs).take doc.length := text_eq_take printG cs mem hmem
  have hkey (n : Nat) : keyPattern k <+: doc.drop n ↔ KeyIn printG cs doc k n := by
    have hne : keyPattern k ≠ [] := List.cons_ne_nil _ _
    rw [KeyIn, ← keyPattern_at_iff hprint hk false n hident, ← prefix_drop_take_iff hne, ← hdoc]
  have hin {n : Nat} (h : KeyIn printG cs doc k n) : n ≤ doc.length := by
    have := h.2
    omega
  refine ⟨?_, fun pos => ?_, fun n => ?_⟩
  · rw [jsonFindKey_eq hlen, strstr_eq_none_iff]
    simp only [hkey]
    exact ⟨fun h n hn => h n (hin hn) hn, fun h n _ => h n⟩
  · rw [jsonFindKey_eq hlen, strstr_eq_some_iff]
    simp only [hkey]
    exact ⟨fun ⟨n, _, hpos, hn, hfirst⟩ => ⟨n, hpos, hn, hfirst⟩,
      fun ⟨n, hpos, hn, hfirst⟩ => ⟨n, hin hn, hpos, hn, hfirst⟩⟩
  · have hne : objectPattern k ≠ [] := List.cons_ne_nil _ _
    rw [ObjectIn, ← objectPattern_at_iff hprint hk false n hident, ← prefix_drop_take_iff hne,
      ← hdoc]

/-- An object whose command line looks like another object. -/
def spoofCalls : List (JsonCall Empty) :=
  [.objectStart, .kvString (.lit "cmd") (some (.lit "\x7b\"pid\":9")), .kvInt (.lit "pid") 7,
    .objectEnd]

theorem json_find_key_iff_spoof :
    jsonFindKey (runCalls Empty.elim spoofCalls (jsonInit (List.replicate 64 0) 64)).text
      (.lit "pid") ≠ none := by
  intro hnone
  refine (json_find_key_iff (k := .lit "pid") (fun d => d.elim) (identKeys_of_all (by decide))
    (List.replicate 64 0) (by decide) (by decide) (by decide)).1.1 hnone 20 ⟨?_, by decide +kernel⟩
  exact ⟨[.objectStart, .kvString (.lit "cmd") (some (.lit "\x7b\"pid\":9"))], _, [.objectEnd],
    rfl, rfl, by decide +kernel⟩

/-! ## Numbers -/

theorem isDigit_of_follows {rest : Bytes} (h : Follows rest) :
    ∀ c ∈ rest.head?, Json.isDigit c = false := by
  intro c hc
  rcases h c hc with rfl | rfl | rfl <;> rfl

theorem takeWhile_decNat (n : Nat) {rest : Bytes} (hrest : Follows rest) :
    Json.natValue ((decNat n ++ rest).takeWhile Json.isDigit) = n := by
  rw [Json.takeWhile_of_all (Json.decNat_all_digit n) (isDigit_of_follows hrest),
    Json.natValue_decNat]

/-- A number that is not negative is read back, or else the largest there is. -/
theorem strtoll_decNat (n : Nat) {rest : Bytes} (hrest : Follows rest) :
    strtoll (decNat n ++ rest) = .ofInt (min (2 ^ 63 - 1) n) := by
  have hread := strtoll_digits (natToken n) (isDigit_of_follows hrest)
  have hvalue : Json.natValue (natToken n).bytes = n := Json.natValue_decNat n
  rw [hvalue, max_eq_right (by omega)] at hread
  exact hread

theorem strtoll_dropWhile (s : Bytes) : strtoll (s.dropWhile isspace) = strtoll s := by
  rw [strtoll, strtoll, List.dropWhile_idempotent isspace s]

theorem strtoll_decInt (v : Int64) {rest : Bytes} (hrest : Follows rest) :
    strtoll (decInt v.toInt ++ rest) = v := by
  have hlow := v.le_toInt
  have hhigh := v.toInt_lt
  rw [decInt]
  split
  · case isTrue hneg =>
    have hspace : (0x2d :: (decNat v.toInt.natAbs ++ rest)).dropWhile isspace =
        0x2d :: (decNat v.toInt.natAbs ++ rest) := rfl
    rw [List.cons_append, strtoll]
    simp only [hspace, List.head?_cons, true_or, if_true, List.tail_cons,
      takeWhile_decNat _ hrest]
    rw [show max (-2 ^ 63) (min (2 ^ 63 - 1) (-(v.toInt.natAbs : Int))) = v.toInt by omega,
      Int64.ofInt_toInt]
  · case isFalse hneg =>
    rw [strtoll_decNat _ hrest, show min (2 ^ 63 - 1) (v.toInt.natAbs : Int) = v.toInt by omega,
      Int64.ofInt_toInt]

/-! ## What is read of a key -/

variable {b : Bool} {c : JsonCall δ} {rest : List (JsonCall δ)}

theorem mem_firstKey {c : JsonCall δ} (h : firstKey k cs = some (c :: rest)) :
    c ∈ cs ∧ c.key? = some k := by
  induction cs with
  | nil => cases h
  | cons d cs ih =>
    rw [firstKey] at h
    split at h
    · case isTrue hkey =>
      obtain ⟨rfl, rfl⟩ := List.cons.inj (Option.some.inj h)
      exact ⟨List.mem_cons_self, hkey⟩
    · exact ⟨List.mem_cons_of_mem d (ih h).1, (ih h).2⟩

theorem firstKey_ne_nil : firstKey k cs ≠ some [] := by
  induction cs with
  | nil => exact (Option.some_ne_none _).symm
  | cons c cs ih =>
    rw [firstKey]
    split
    · exact fun h => List.cons_ne_nil c cs (Option.some.inj h)
    · exact ih

/-- What the commands show of a string: its escaped bytes up to the first quote. -/
def shown (v : CStr) : Bytes := (escaped v.bytes).takeWhile (· ≠ 0x22)

/-- The number that the first call with the key writes, and 0 if there is none. -/
def firstInt (k : CStr) (cs : List (JsonCall δ)) : Int64 :=
  match firstKey k cs with
  | some (.kvInt _ v :: _) => v
  | _ => 0

/-- What a buffer of `n` bytes shows of the first string with the key. -/
def firstString (k : CStr) (n : Nat) (default : Bytes) (cs : List (JsonCall δ)) : Bytes :=
  match firstKey k cs with
  | some (.kvString _ (some v) :: _) => (shown v).take n
  | _ => default

section

variable (hprint : ∀ d, 0x22 ∉ (printG d).bytes) (hident : IdentKeys cs)
  (hk : identKey k = true)

include hprint hident hk

theorem extractString_none {n : Nat} {default : Bytes} (hstring : StringKey k cs)
    (h : firstKey k cs = none) : extractString (callText printG b cs) k n default = default := by
  rw [extractString, strstr_stringPattern hprint hk b hident hstring, h]
  rfl

/-- The string is shown as it is written, up to its first quote. -/
theorem extractString_value {n : Nat} {default : Bytes} {v : CStr} (hstring : StringKey k cs)
    (h : firstKey k cs = some (.kvString k (some v) :: rest)) :
    extractString (callText printG b cs) k n default = (shown v).take n := by
  have htext : callText printG false (.kvString k (some v) :: rest) =
      (keyPattern k ++ [0x22]) ++ (escaped v.bytes ++ 0x22 :: callText printG true rest) := by
    rw [callText_field false hk rfl]
    simp [JsonCall.valueText, stringTokens, escaped, JsonCall.owesComma]
  obtain ⟨quote, hquote⟩ : ∃ quote,
      strchr (escaped v.bytes ++ 0x22 :: callText printG true rest) 0x22 = some quote :=
    exists_strchr (by simp)
  rw [extractString, strstr_stringPattern hprint hk b hident hstring, h, Option.map_some, htext]
  simp only [List.drop_left, hquote]
  rw [strchr_take hquote, takeWhile_append_self, shown]

theorem extractString_eq (hstring : StringKey k cs) {n : Nat} {default : Bytes} :
    extractString (callText printG b cs) k n default = firstString k n default cs := by
  cases h : firstKey k cs with
  | none => rw [extractString_none hprint hident hk hstring h, firstString, h]
  | some ds =>
    cases ds with
    | nil => exact absurd h firstKey_ne_nil
    | cons c rest =>
      obtain ⟨v, rfl⟩ := hstring c (mem_firstKey h).1 (mem_firstKey h).2
      rw [extractString_value hprint hident hk hstring h, firstString, h]

variable (hlen : k.bytes.length ≤ 124)

include hlen

theorem jsonGetInt_none (h : firstKey k cs = none) : jsonGetInt (callText printG b cs) k = 0 := by
  rw [jsonGetInt, jsonFindKey_eq hlen, strstr_keyPattern hprint hk b hident, h]
  rfl

omit hk hlen in
/-- A key with quotes around it is not found. -/
theorem jsonGetInt_quoted {d : UInt8} {w : Bytes} (hbytes : k.bytes = 0x22 :: d :: w)
    (hd : identChar d = true) : jsonGetInt (callText printG b cs) k = 0 := by
  rw [jsonGetInt, jsonFindKey, keyPattern, hbytes]
  simp only [List.cons_append, List.take_succ_cons]
  rw [strstr_doubled hprint hd _ b hident]

/-- The number is what stands behind the key. -/
theorem jsonGetInt_value (h : firstKey k cs = some (c :: rest)) :
    jsonGetInt (callText printG b cs) k =
      strtoll ((c.valueText printG ++ callText printG c.owesComma rest).dropWhile isspace) := by
  have htext : callText printG false (c :: rest) =
      keyPattern k ++ (c.valueText printG ++ callText printG c.owesComma rest) :=
    callText_field false hk (mem_firstKey h).2
  rw [jsonGetInt, jsonFindKey_eq hlen, strstr_keyPattern hprint hk b hident, h, Option.map_some,
    htext]
  simp only [strchr_keyPattern hk, List.tail_cons]

theorem jsonGetInt_int {v : Int64} (h : firstKey k cs = some (.kvInt k v :: rest)) :
    jsonGetInt (callText printG b cs) k = v := by
  rw [jsonGetInt_value hprint hident hk hlen h, strtoll_dropWhile]
  exact strtoll_decInt v (follows_callText printG rest)

theorem jsonGetInt_eq (hint : IntKey k cs) :
    jsonGetInt (callText printG b cs) k = firstInt k cs := by
  cases h : firstKey k cs with
  | none => rw [jsonGetInt_none hprint hident hk hlen h, firstInt, h]
  | some ds =>
    cases ds with
    | nil => exact absurd h firstKey_ne_nil
    | cons c rest =>
      obtain ⟨v, rfl⟩ := hint c (mem_firstKey h).1 (mem_firstKey h).2
      rw [jsonGetInt_int hprint hident hk hlen h, firstInt, h]

theorem jsonGetInt_uint {v : UInt64} (h : firstKey k cs = some (.kvUint k v :: rest)) :
    jsonGetInt (callText printG b cs) k = .ofInt (min (2 ^ 63 - 1) v.toNat) := by
  rw [jsonGetInt_value hprint hident hk hlen h, strtoll_dropWhile]
  exact strtoll_decNat v.toNat (follows_callText printG rest)

theorem jsonGetInt_array (h : firstKey k cs = some (.key k :: .arrayStart :: rest)) :
    jsonGetInt (callText printG b cs) k = 0 := by
  rw [jsonGetInt_value hprint hident hk hlen h, strtoll_dropWhile]
  rfl

end

end

/-! ## What is shown of a string -/

/-- A byte that is written as it is. -/
def verbatimByte (c : UInt8) : Bool := 0x20 ≤ c && c != 0x22 && c != 0x5c

/-- A buffer of `n` bytes shows the string as it is: it fits, and it has such bytes only. Or it
fills the buffer and ends with backslashes, each of them written twice, and what is too much is
cut off. -/
def Legible (n : Nat) (v : CStr) : Prop :=
  v.bytes.length ≤ n ∧ ∃ p j, (∀ c ∈ p, verbatimByte c = true) ∧
    v.bytes = p ++ List.replicate j 0x5c ∧ (j = 0 ∨ v.bytes.length = n)

theorem verbatimByte_iff {c : UInt8} :
    verbatimByte c = true ↔ escapeStringByte c = [c] ∧ c ≠ 0x22 ∧ c ≠ 0x5c := by
  have hlow : (0x20 : UInt8) ≤ c ↔ ¬ c < 0x20 := UInt8.not_lt.symm
  simp only [verbatimByte, Bool.and_eq_true, decide_eq_true_eq, bne_iff_ne, hlow, and_assoc]
  refine ⟨fun ⟨hctrl, hquote, hback⟩ => ⟨?_, hquote, hback⟩,
    fun ⟨hesc, hquote, hback⟩ => ⟨fun hctrl => ?_, hquote, hback⟩⟩
  · have hne (d : UInt8) (hd : d < 0x20) : c ≠ d := fun heq => hctrl (heq ▸ hd)
    rw [escapeStringByte, if_neg hquote, if_neg hback, if_neg (hne _ (by decide)),
      if_neg (hne _ (by decide)), if_neg (hne _ (by decide)), if_neg hctrl]
  · unfold escapeStringByte at hesc
    split_ifs at hesc
    all_goals simp_all [escapeHex]

theorem escapeStringByte_backslash : escapeStringByte 0x5c = [0x5c, 0x5c] := rfl

/-- The escaped bytes up to the first quote. -/
def visible (s : Bytes) : Bytes := (escaped s).takeWhile (· ≠ 0x22)

theorem visible_cons {c : UInt8} (s : Bytes) (h : 0x22 ∉ escapeStringByte c) :
    visible (c :: s) = escapeStringByte c ++ visible s := by
  rw [visible, escaped_cons, List.takeWhile_append_of_pos]
  · rfl
  · intro d hd
    exact decide_eq_true fun heq => h (heq ▸ hd)

theorem visible_append {p : Bytes} (h : ∀ c ∈ p, verbatimByte c = true) (s : Bytes) :
    visible (p ++ s) = p ++ visible s := by
  induction p with
  | nil => rfl
  | cons c p ih =>
    obtain ⟨hesc, hquote, -⟩ := verbatimByte_iff.1 (h c List.mem_cons_self)
    rw [List.cons_append, visible_cons _ (by rw [hesc]; simpa using hquote.symm), hesc,
      ih fun c hc => h c (List.mem_cons_of_mem _ hc)]
    rfl

theorem visible_backslashes (j : Nat) :
    visible (List.replicate j 0x5c) = List.replicate (2 * j) 0x5c := by
  induction j with
  | zero => rfl
  | succ j ih =>
    rw [List.replicate_succ, visible_cons _ (by decide), ih]
    rfl

/-- Once a backslash has been written twice, the text runs ahead of the string, and only
backslashes can make up for it. -/
theorem backslashes_of_ahead {s : Bytes} {n j : Nat} (hlen : s.length ≤ n)
    (h : (List.replicate (j + 1) 0x5c ++ visible s).take n = s) :
    s.length = n ∧ s = List.replicate s.length 0x5c := by
  induction s generalizing n j with
  | nil =>
    cases n with
    | zero => exact ⟨rfl, rfl⟩
    | succ n => cases h
  | cons c s ih =>
    cases n with
    | zero => cases hlen
    | succ n =>
      rw [List.replicate_succ, List.cons_append, List.take_succ_cons] at h
      obtain ⟨rfl, htail⟩ := List.cons.inj h
      rw [visible_cons _ (by decide), escapeStringByte_backslash, ← List.append_assoc] at htail
      obtain ⟨hn, hs⟩ := ih (j := j + 1) (Nat.le_of_succ_le_succ hlen) (by
        rwa [List.replicate_succ', List.replicate_succ', List.append_assoc (List.replicate j _)])
      refine ⟨congrArg (· + 1) hn, ?_⟩
      rw [List.length_cons, List.replicate_succ, ← hs]

theorem visible_take_iff {s : Bytes} {n : Nat} (hlen : s.length ≤ n) :
    (visible s).take n = s ↔
      ∃ p j, (∀ c ∈ p, verbatimByte c = true) ∧ s = p ++ List.replicate j 0x5c ∧
        (j = 0 ∨ s.length = n) := by
  constructor
  · intro h
    induction s generalizing n with
    | nil => exact ⟨[], 0, by simp, rfl, .inl rfl⟩
    | cons c s ih =>
      cases n with
      | zero => cases hlen
      | succ n =>
        rcases escapeStringByte_cases c with ⟨hesc, hquote, hback⟩ | hesc | ⟨t, hesc, ht⟩
        · rw [visible_cons _ (by rw [hesc]; simpa using hquote.symm), hesc] at h
          obtain ⟨p, j, hp, rfl, hj⟩ := ih (Nat.le_of_succ_le_succ hlen) (List.cons.inj h).2
          refine ⟨c :: p, j, ?_, rfl, hj.imp_right (congrArg (· + 1))⟩
          rw [List.forall_mem_cons]
          exact ⟨verbatimByte_iff.2 ⟨hesc, hquote, hback⟩, hp⟩
        · -- the quote itself: nothing is shown of it but a backslash
          rw [visible, escaped_cons, hesc] at h
          obtain ⟨rfl, -⟩ := List.cons.inj h
          cases hesc
        · rw [visible_cons _ (by rw [hesc]; simpa using ht), hesc] at h
          obtain ⟨rfl, htail⟩ := List.cons.inj h
          obtain rfl : t = [0x5c] := (List.cons.inj hesc).2.symm
          obtain ⟨hn, hs⟩ := backslashes_of_ahead (j := 0) (Nat.le_of_succ_le_succ hlen) htail
          refine ⟨[], s.length + 1, by simp, ?_, .inr (congrArg (· + 1) hn)⟩
          rw [List.nil_append, List.replicate_succ, ← hs]
  · rintro ⟨p, j, hp, rfl, hj⟩
    rw [visible_append hp, visible_backslashes]
    rcases hj with rfl | rfl
    · simpa using hlen
    · rw [List.length_append, List.take_length_add_append, List.length_replicate,
        List.take_replicate, Nat.min_eq_left (by omega)]

/-- **A string is shown as it is when it is legible.** -/
theorem shown_take_iff {n : Nat} {v : CStr} : (shown v).take n = v.bytes ↔ Legible n v := by
  refine ⟨fun h => ?_, fun ⟨hlen, hplain⟩ => (visible_take_iff hlen).2 hplain⟩
  have hlen : v.bytes.length ≤ n := by
    rw [← h]
    exact List.length_take_le n _
  exact ⟨hlen, (visible_take_iff hlen).1 h⟩

end Qmem
