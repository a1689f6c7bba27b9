import Qmem.EmitParts

/-!
# Keys beside strings

`json_key` and `json_string` escape the same bytes, but for the control characters that have no
letter: those go into a key as they are.

Main result: `keyText_right_iff`.
-/

namespace Qmem

open CLib Json

/-- What is written between the quotes of a key and of a string. -/
def keyBody (s : CStr) : Bytes := (s.bytes.map escapeKeyByte).flatten

def stringBody (s : CStr) : Bytes := (s.bytes.map escapeStringByte).flatten

/-- A text that a JSON string can have between its quotes. -/
def StringBody (body : Bytes) : Prop := ∃ s, parseChars (body ++ [0x22]) = some (s, [])

theorem stringBody_valid (s : CStr) : StringBody (stringBody s) :=
  ⟨s.bytes, parseChars_escaped s.bytes []⟩

theorem StringBody.plainText {body : Bytes} (h : StringBody body) : PlainText body := by
  obtain ⟨s, hs⟩ := h
  obtain ⟨u, hu, hprint⟩ := printing_parseChars hs
  rw [List.append_nil] at hu
  intro c hc
  refine plainByte_iff.2 fun hlt => ?_
  have hws := hprint c (hu ▸ List.mem_append_left _ hc) hlt
  simp only [isWs, Bool.or_eq_true, beq_iff_eq] at hws
  rcases hws with ((rfl | rfl) | rfl) | rfl
  · exact absurd hlt (by decide)
  · exact .inr (.inr rfl)
  · exact .inl rfl
  · exact .inr (.inl rfl)

/-- The text of a key is a body only if the key is plain. -/
theorem plainKey_of_keyBody {s : CStr} (h : StringBody (keyBody s)) : plainKey s = true := by
  refine List.all_eq_true.2 fun c hc => ?_
  by_contra hbad
  have hmem : c ∈ keyBody s := by
    refine List.mem_flatten.2 ⟨[c], ?_, List.mem_singleton_self c⟩
    rw [← escapeKeyByte_ctrl hbad]
    exact List.mem_map_of_mem hc
  exact hbad (h.plainText c hmem)

theorem keyBody_eq_of_plainKey {s : CStr} (h : plainKey s = true) : keyBody s = stringBody s := by
  have hbytes : s.bytes.map escapeKeyByte = s.bytes.map escapeStringByte :=
    List.map_congr_left fun c hc => escapeKeyByte_eq (plainByte_iff.1 (List.all_eq_true.1 h c hc))
  rw [keyBody, stringBody, hbytes]

section

variable {δ : Type} (printG : δ → CStr)

/-- The builder after these calls, with that buffer. -/
def builderAfter (mem : Bytes) (cs : List (JsonCall δ)) : JsonBuilder :=
  runCalls printG cs (jsonInit mem mem.length)

/-- The calls have left text in the buffer, and then there is an opening quote, with the comma that
is owed, and `body` between it and what closes. -/
def WritesBody (mem : Bytes) (cs : List (JsonCall δ)) (c : JsonCall δ) (close body : Bytes) :
    Prop :=
  (builderAfter printG mem (cs ++ [c])).text =
    (builderAfter printG mem cs).text ++
      ((commaTokens (builderAfter printG mem cs).needsComma).flatten ++ [0x22] ++ body ++ close)

variable {mem : Bytes} {cs : List (JsonCall δ)} {c : JsonCall δ}

theorem jsonError_before (hc : jsonError (builderAfter printG mem (cs ++ [c])) = false) :
    jsonError (builderAfter printG mem cs) = false := by
  by_contra herr
  rw [Bool.not_eq_false] at herr
  have hsame : (builderAfter printG mem (cs ++ [c])).error =
      (builderAfter printG mem cs).error := by
    rw [builderAfter, runCalls_append, runCalls_eq, ← builderAfter]
    show (writeAll _ (builderAfter printG mem cs)).error = _
    rw [writeAll_error herr]
  rw [jsonError, hsame] at hc
  exact Bool.false_ne_true (hc.symm.trans herr)

theorem builderAfter_text (hmem : 1 ≤ mem.length)
    (h : jsonError (builderAfter printG mem cs) = false) :
    (builderAfter printG mem cs).text = (callTokens printG false cs).flatten :=
  ((wrote_runCalls printG mem hmem cs).text_eq_flatten_iff
    (callTokens_nulFree printG false cs)).2 h

/-- With room for a call, what it adds is its tokens. -/
theorem text_call (hmem : 1 ≤ mem.length)
    (h : jsonError (builderAfter printG mem (cs ++ [c])) = false) :
    (builderAfter printG mem (cs ++ [c])).text =
      (builderAfter printG mem cs).text ++
        (c.tokens printG (builderAfter printG mem cs).needsComma).flatten := by
  have hcomma : (builderAfter printG mem cs).needsComma = commaAfter false cs := by
    rw [builderAfter, runCalls_eq]
    rfl
  rw [builderAfter_text printG hmem h,
    builderAfter_text printG hmem (jsonError_before printG h), hcomma, callTokens_append,
    List.flatten_append, callTokens_cons, callTokens_nil, List.append_nil]

theorem writesBody_key (hmem : 1 ≤ mem.length) {s : CStr} {body : Bytes}
    (h : jsonError (builderAfter printG mem (cs ++ [.key s])) = false) :
    WritesBody printG mem cs (.key s) [0x22, 0x3a] body ↔ body = keyBody s := by
  rw [WritesBody, text_call printG hmem h]
  simp [JsonCall.tokens, keyTokens, keyBody, eq_comm]

theorem writesBody_string (hmem : 1 ≤ mem.length) {s : CStr} {body : Bytes}
    (h : jsonError (builderAfter printG mem (cs ++ [.string (some s)])) = false) :
    WritesBody printG mem cs (.string (some s)) [0x22] body ↔ body = stringBody s := by
  rw [WritesBody, text_call printG hmem h]
  simp [JsonCall.tokens, stringTokens, stringBody, eq_comm]

/-- **When a key is written as a string is**: with a buffer that has room for it, after any calls,
the text between its quotes is a string's body and the one that `json_string` writes exactly when
its control characters are newlines, carriage returns and tabs. -/
theorem keyText_right_iff (hmem : 1 ≤ mem.length) (s : CStr)
    (hkey : jsonError (builderAfter printG mem (cs ++ [.key s])) = false)
    (hstring : jsonError (builderAfter printG mem (cs ++ [.string (some s)])) = false) :
    (∃ body, WritesBody printG mem cs (.key s) [0x22, 0x3a] body ∧ StringBody body ∧
        WritesBody printG mem cs (.string (some s)) [0x22] body) ↔
      ∀ c ∈ s.bytes, c < 0x20 → c = 0x0a ∨ c = 0x0d ∨ c = 0x09 := by
  have hplain : plainKey s = true ↔ ∀ c ∈ s.bytes, c < 0x20 → c = 0x0a ∨ c = 0x0d ∨ c = 0x09 :=
    List.all_eq_true.trans (forall₂_congr fun c _ => plainByte_iff)
  rw [← hplain]
  constructor
  · rintro ⟨body, hbody, hvalid, -⟩
    rw [writesBody_key printG hmem hkey] at hbody
    exact plainKey_of_keyBody (hbody ▸ hvalid)
  · intro h
    refine ⟨keyBody s, (writesBody_key printG hmem hkey).2 rfl, ?_, ?_⟩
    · rw [keyBody_eq_of_plainKey h]
      exact stringBody_valid s
    · exact (writesBody_string printG hmem hstring).2 (keyBody_eq_of_plainKey h)

end

/-- No call writes a double. -/
def noDouble : Empty → CStr := nofun

/-- A buffer of 32 bytes. -/
def room : Bytes := List.replicate 32 0

theorem keyText_right_iff_newline :
    (∃ body, WritesBody noDouble room [.objectStart] (.key (.lit "a\nb"))
          [0x22, 0x3a] body ∧ StringBody body ∧
        WritesBody noDouble room [.objectStart] (.string (some (.lit "a\nb")))
          [0x22] body) ↔
      ∀ c ∈ (CStr.lit "a\nb").bytes, c < 0x20 → c = 0x0a ∨ c = 0x0d ∨ c = 0x09 :=
  keyText_right_iff _ (by decide) _ (by decide) (by decide)

/-- The byte 1 comes out as it is. -/
theorem keyText_ctrl :
    ¬ ∀ (mem : Bytes) (cs : List (JsonCall Empty)) (s : CStr), 1 ≤ mem.length →
      jsonError (builderAfter noDouble mem (cs ++ [.key s])) = false →
      jsonError (builderAfter noDouble mem (cs ++ [.string (some s)])) = false →
      ∃ body, WritesBody noDouble mem cs (.key s) [0x22, 0x3a] body ∧
        StringBody body ∧ WritesBody noDouble mem cs (.string (some s)) [0x22] body := by
  intro hall
  obtain ⟨body, hkey, hvalid, -⟩ :=
    hall room [.objectStart] (.lit "\x01") (by decide) (by decide) (by decide)
  rw [writesBody_key _ (by decide) (by decide)] at hkey
  have hplain := plainKey_of_keyBody (hkey ▸ hvalid)
  exact absurd hplain (by decide)

end Qmem
