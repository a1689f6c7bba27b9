import Qmem.Lib.JsonCont

/-!
# Control characters in a JSON text

Outside of strings a JSON text has no control characters but white space, and inside a string
it has none at all. So every byte a parser reads on its way is a printing character or white
space (`ctrl_isWs`).
-/

namespace Json

open CLib

/-- The bytes between `s` and its rest `r` are printing characters or white space. -/
def Printing (s r : Bytes) : Prop := ∃ u, s = u ++ r ∧ ∀ c ∈ u, c < 0x20 → isWs c = true

namespace Printing

theorem refl (s : Bytes) : Printing s s := ⟨[], rfl, by simp⟩

theorem trans {s t r : Bytes} (h : Printing s t) (h' : Printing t r) : Printing s r := by
  obtain ⟨u, rfl, hu⟩ := h
  obtain ⟨v, rfl, hv⟩ := h'
  refine ⟨u ++ v, (List.append_assoc u v r).symm, fun c hc => ?_⟩
  rcases List.mem_append.1 hc with hc | hc
  · exact hu c hc
  · exact hv c hc

theorem cons {c : UInt8} {s r : Bytes} (hc : ¬ c < 0x20) (h : Printing s r) :
    Printing (c :: s) r := by
  obtain ⟨u, rfl, hu⟩ := h
  refine ⟨c :: u, rfl, fun d hd => ?_⟩
  rcases List.mem_cons.1 hd with rfl | hd
  · exact fun hlt => absurd hlt hc
  · exact hu d hd

theorem append {u s r : Bytes} (hu : ∀ c ∈ u, ¬ c < 0x20) (h : Printing s r) :
    Printing (u ++ s) r := by
  induction u with
  | nil => exact h
  | cons c u ih =>
    exact (ih fun d hd => hu d (by simp [hd])).cons (hu c (by simp))

theorem skipWs (s : Bytes) : Printing s (skipWs s) :=
  ⟨s.takeWhile isWs, List.takeWhile_append_dropWhile.symm, fun _ hc _ =>
    List.mem_takeWhile_imp hc⟩

/-- White space, and the printing character behind it. -/
theorem skipWs_cons {c : UInt8} {s r : Bytes} (h : Json.skipWs s = c :: r) (hc : ¬ c < 0x20) :
    Printing s r :=
  (skipWs s).trans (h ▸ (refl r).cons hc)

theorem blank {s : Bytes} (h : Json.skipWs s = []) : Printing s [] := h ▸ skipWs s

end Printing

/-! ## Strings, literals, numbers -/

theorem not_ctrl_of_le {c d : UInt8} (h : d ≤ c) (hd : ¬ d < 0x20) : ¬ c < 0x20 :=
  fun hlt => hd (UInt8.lt_of_le_of_lt h hlt)

theorem not_ctrl_of_hexVal {c : UInt8} {n : Nat} (h : hexVal c = some n) : ¬ c < 0x20 := by
  unfold hexVal at h
  split_ifs at h with h₁ h₂ h₃
  · exact not_ctrl_of_le h₁.1 (by decide)
  · exact not_ctrl_of_le h₂.1 (by decide)
  · exact not_ctrl_of_le h₃.1 (by decide)

theorem not_ctrl_of_unescape {c b : UInt8} (h : unescape c = some b) : ¬ c < 0x20 := by
  unfold unescape at h
  split_ifs at h with h₁ h₂ h₃ h₄ h₅ h₆
  · rcases h₁ with rfl | rfl | rfl <;> decide
  all_goals subst c; decide

theorem not_ctrl_of_hex4 {a b c d : UInt8} {u : Nat} (h : hex4 a b c d = some u) :
    ∀ e ∈ [a, b, c, d], ¬ e < 0x20 := by
  simp only [hex4, Option.bind_eq_bind, Option.bind_eq_some_iff] at h
  obtain ⟨_, ha, _, hb, _, hc, _, hd, -⟩ := h
  simp only [List.mem_cons, List.not_mem_nil, or_false, forall_eq_or_imp, forall_eq]
  exact ⟨not_ctrl_of_hexVal ha, not_ctrl_of_hexVal hb, not_ctrl_of_hexVal hc,
    not_ctrl_of_hexVal hd⟩

theorem printing_parseChars {s r k : Bytes} (h : parseChars s = some (k, r)) : Printing s r := by
  fun_induction parseChars s generalizing k with
  | case1 => simp at h
  | case2 rest =>
    simp only [Option.some.injEq, Prod.mk.injEq] at h
    obtain ⟨-, rfl⟩ := h
    exact (Printing.refl rest).cons (by decide)
  | case3 => simp at h
  | case4 a b c d rest _ ih =>
    simp only [Option.bind_eq_some_iff, Option.map_eq_some_iff, Prod.mk.injEq] at h
    obtain ⟨u, hu, p, hp, -, rfl⟩ := h
    have hdigits := not_ctrl_of_hex4 hu
    exact (((ih hp).append hdigits).cons (by decide)).cons (by decide)
  | case5 => simp at h
  | case6 e rest he _ ih =>
    simp only [Option.bind_eq_some_iff, Option.map_eq_some_iff, Prod.mk.injEq] at h
    obtain ⟨b, hb, p, hp, -, rfl⟩ := h
    exact ((ih hp).cons (not_ctrl_of_unescape hb)).cons (by decide)
  | case7 => simp at h
  | case8 c rest h1 h2 h3 ih =>
    simp only [Option.map_eq_some_iff, Prod.mk.injEq] at h
    obtain ⟨p, hp, -, rfl⟩ := h
    exact (ih hp).cons h3

theorem printing_expect {lit s r : Bytes} (hlit : ∀ c ∈ lit, ¬ c < 0x20)
    (h : expect lit s = some r) : Printing s r := by
  unfold expect at h
  split at h
  · rename_i hp
    obtain ⟨u, rfl⟩ := List.isPrefixOf_iff_prefix.1 hp
    rw [List.drop_left] at h
    obtain rfl := Option.some.inj h
    exact (Printing.refl u).append hlit
  · simp at h

theorem not_ctrl_of_isNumChar {c : UInt8} (h : isNumChar c = true) : ¬ c < 0x20 := by
  simp only [isNumChar, isDigit, Bool.or_eq_true, Bool.and_eq_true, decide_eq_true_eq,
    beq_iff_eq] at h
  rcases h with ((((h | rfl) | rfl) | rfl) | rfl) | rfl
  · exact not_ctrl_of_le h.1 (by decide)
  all_goals decide

theorem printing_parseNumber {s r : Bytes} {q : ℚ} (h : parseNumber s = some (q, r)) :
    Printing s r := by
  simp only [parseNumber, Option.map_eq_some_iff, Prod.mk.injEq] at h
  obtain ⟨_, -, -, rfl⟩ := h
  refine ⟨s.takeWhile isNumChar, List.takeWhile_append_dropWhile.symm, fun c hc hlt => ?_⟩
  exact absurd hlt (not_ctrl_of_isNumChar (List.mem_takeWhile_imp hc))

/-! ## Values -/

def PrintingValue (n : Nat) : Prop := ∀ s v r, parseValue n s = some (v, r) → Printing s r

def PrintingElements (n : Nat) : Prop :=
  ∀ s vs r, parseElements n s = some (vs, r) → Printing s r

def PrintingMember (n : Nat) : Prop := ∀ s kv r, parseMember n s = some (kv, r) → Printing s r

def PrintingMembers (n : Nat) : Prop :=
  ∀ s kvs r, parseMembers n s = some (kvs, r) → Printing s r

theorem not_ctrl_of_eq {c d : UInt8} (h : c = d) (hd : ¬ d < 0x20) : ¬ c < 0x20 := h ▸ hd

theorem printing_parts {α : Type} {close : UInt8} {part : Bytes → Option (α × Bytes)}
    {more : Bytes → Option (List α × Bytes)} {s r : Bytes} {vs : List α}
    (hclose : ¬ close < 0x20) (hpart : ∀ v r, part s = some (v, r) → Printing s r)
    (hmore : ∀ s vs r, more s = some (vs, r) → Printing s r)
    (h : parseParts close part more s = some (vs, r)) : Printing s r := by
  rw [parseParts, Option.bind_eq_some_iff] at h
  obtain ⟨⟨v, r₁⟩, hval, hrest⟩ := h
  refine (hpart v r₁ hval).trans ?_
  cases hs : skipWs r₁ with
  | nil => simp [hs] at hrest
  | cons c r₂ =>
    simp only [hs] at hrest
    split at hrest
    · rename_i hc
      simp only [Option.map_eq_some_iff, Prod.mk.injEq] at hrest
      obtain ⟨p, hp, -, rfl⟩ := hrest
      exact (Printing.skipWs_cons hs (not_ctrl_of_eq hc (by decide))).trans (hmore r₂ p.1 p.2 hp)
    · split at hrest
      · rename_i hc
        simp only [Option.some.injEq, Prod.mk.injEq] at hrest
        obtain ⟨-, rfl⟩ := hrest
        exact Printing.skipWs_cons hs (not_ctrl_of_eq hc hclose)
      · simp at hrest

theorem printingElements_succ {n : Nat} (hv : PrintingValue n) (he : PrintingElements n) :
    PrintingElements (n + 1) := by
  intro s vs r h
  rw [parseElements_succ] at h
  exact printing_parts (by decide) (hv s) he h

theorem printingMember_succ {n : Nat} (hv : PrintingValue n) : PrintingMember (n + 1) := by
  intro s kv r h
  rw [parseMember] at h
  cases hs : skipWs s with
  | nil => simp [hs] at h
  | cons c s₁ =>
    simp only [hs] at h
    split at h
    · rename_i hc
      rw [Option.bind_eq_some_iff] at h
      obtain ⟨⟨k, s₂⟩, hk, h⟩ := h
      refine (Printing.skipWs_cons hs (not_ctrl_of_eq hc (by decide))).trans
        ((printing_parseChars hk).trans ?_)
      cases hs₂ : skipWs s₂ with
      | nil => simp [hs₂] at h
      | cons c' s₃ =>
        simp only [hs₂] at h
        split at h
        · rename_i hc'
          simp only [Option.map_eq_some_iff, Prod.mk.injEq] at h
          obtain ⟨⟨v, r'⟩, hval, -, rfl⟩ := h
          exact (Printing.skipWs_cons hs₂ (not_ctrl_of_eq hc' (by decide))).trans
            (hv s₃ v r' hval)
        · simp at h
    · simp at h

theorem printingMembers_succ {n : Nat} (hv : PrintingMember n) (he : PrintingMembers n) :
    PrintingMembers (n + 1) := by
  intro s vs r h
  rw [parseMembers_succ] at h
  exact printing_parts (by decide) (hv s) he h

/-- What follows an opening bracket, closed at once or not. -/
theorem printing_body {α : Type} {close : UInt8} {body : Bytes → Option (α × Bytes)}
    {e v : Value} {f : α → Value} {s r : Bytes} (hclose : ¬ close < 0x20)
    (hbody : ∀ a r, body s = some (a, r) → Printing s r)
    (h : (if (skipWs s).head? = some close then some (e, (skipWs s).tail)
      else (body s).map fun p => (f p.1, p.2)) = some (v, r)) : Printing s r := by
  split at h
  · rename_i hc
    obtain ⟨t, ht⟩ := List.head?_eq_some_iff.1 hc
    simp only [ht, List.tail_cons, Option.some.injEq, Prod.mk.injEq] at h
    obtain ⟨-, rfl⟩ := h
    exact Printing.skipWs_cons ht hclose
  · simp only [Option.map_eq_some_iff, Prod.mk.injEq] at h
    obtain ⟨p, hp, -, rfl⟩ := h
    exact hbody p.1 p.2 hp

theorem printing_lit {lit s r : Bytes} {w v : Value} (hlit : ∀ c ∈ lit, ¬ c < 0x20)
    (h : ((expect lit s).map fun r => (w, r)) = some (v, r)) : Printing s r := by
  simp only [Option.map_eq_some_iff, Prod.mk.injEq] at h
  obtain ⟨r', hr, -, rfl⟩ := h
  exact printing_expect hlit hr

theorem printingValue_succ {n : Nat} (he : PrintingElements n) (hk : PrintingMembers n) :
    PrintingValue (n + 1) := by
  intro s v r h
  rw [parseValue] at h
  cases hs : skipWs s with
  | nil => simp [hs] at h
  | cons c s₁ =>
    simp only [hs] at h
    by_cases h₁ : c = 0x7b
    · rw [if_pos h₁] at h
      exact (Printing.skipWs_cons hs (not_ctrl_of_eq h₁ (by decide))).trans
        (printing_body (by decide) (fun a r => hk s₁ a r) h)
    rw [if_neg h₁] at h
    by_cases h₂ : c = 0x5b
    · rw [if_pos h₂] at h
      exact (Printing.skipWs_cons hs (not_ctrl_of_eq h₂ (by decide))).trans
        (printing_body (by decide) (fun a r => he s₁ a r) h)
    rw [if_neg h₂] at h
    by_cases h₃ : c = 0x22
    · simp only [if_pos h₃, Option.map_eq_some_iff, Prod.mk.injEq] at h
      obtain ⟨p, hp, -, rfl⟩ := h
      exact (Printing.skipWs_cons hs (not_ctrl_of_eq h₃ (by decide))).trans
        (printing_parseChars hp)
    rw [if_neg h₃] at h
    refine (Printing.skipWs s).trans ?_
    rw [hs]
    split_ifs at h
    · exact printing_lit (by decide) h
    · exact printing_lit (by decide) h
    · exact printing_lit (by decide) h
    · simp only [Option.map_eq_some_iff, Prod.mk.injEq] at h
      obtain ⟨p, hp, -, rfl⟩ := h
      exact printing_parseNumber hp

theorem printing (n : Nat) :
    PrintingValue n ∧ PrintingElements n ∧ PrintingMember n ∧ PrintingMembers n := by
  induction n with
  | zero =>
    refine ⟨?_, ?_, ?_, ?_⟩ <;> intro s v r h <;>
      simp [parseValue, parseElements, parseMember, parseMembers] at h
  | succ n ih =>
    obtain ⟨hv, he, hm, hms⟩ := ih
    exact ⟨printingValue_succ he hms, printingElements_succ hv he, printingMember_succ hv,
      printingMembers_succ hm hms⟩

/-- **A JSON text has no control characters but white space.** -/
theorem ctrl_isWs {s : Bytes} (h : WellFormed s) {c : UInt8} (hc : c ∈ s) (hlt : c < 0x20) :
    isWs c = true := by
  obtain ⟨v, hv⟩ := Option.isSome_iff_exists.1 h
  simp only [parse, Option.bind_eq_some_iff] at hv
  obtain ⟨⟨w, r⟩, hp, hr⟩ := hv
  split at hr
  · rename_i hblank
    obtain ⟨u, hu, hprint⟩ := ((printing (s.length + 1)).1 s w r hp).trans (Printing.blank hblank)
    rw [List.append_nil] at hu
    exact hprint c (hu ▸ hc) hlt
  · simp at hr

end Json
