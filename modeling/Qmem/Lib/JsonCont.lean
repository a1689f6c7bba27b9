import Qmem.Lib.JsonDoc

/-!
# Continuing a JSON text

A recursive-descent parser does not look past what it needs: when it has read a value and
something follows, it reads the same value whatever the text goes on with. So a JSON text that
opens with a bracket or a quote has no proper extension that is JSON, trailing white space
aside (`not_wellFormed_of_append`): a text cut short is never well formed.
-/

namespace Json

open CLib

theorem skipWs_append {s t : Bytes} (h : skipWs s ≠ []) : skipWs (s ++ t) = skipWs s ++ t := by
  induction s with
  | nil => exact absurd rfl h
  | cons c s ih =>
    cases hc : isWs c with
    | true =>
      simp only [skipWs, List.cons_append, List.dropWhile_cons, hc, if_true] at h ⊢
      exact ih h
    | false => rw [List.cons_append, skipWs_cons hc, skipWs_cons hc, List.cons_append]

theorem skipWs_append_of_cons {s r : Bytes} {c : UInt8} (h : skipWs s = c :: r) (t : Bytes) :
    skipWs (s ++ t) = c :: (r ++ t) := by
  rw [skipWs_append (by simp [h]), h, List.cons_append]

theorem parseChars_append {s r k : Bytes} (h : parseChars s = some (k, r)) (t : Bytes) :
    parseChars (s ++ t) = some (k, r ++ t) := by
  fun_induction parseChars s generalizing k with
  | case1 => simp at h
  | case2 rest =>
    simp only [Option.some.injEq, Prod.mk.injEq] at h
    obtain ⟨rfl, rfl⟩ := h
    exact parseChars_quote (rest ++ t)
  | case3 => simp at h
  | case4 a b c d rest _ ih =>
    simp only [Option.bind_eq_some_iff, Option.map_eq_some_iff, Prod.mk.injEq] at h
    obtain ⟨u, hu, p, hp, rfl, rfl⟩ := h
    simp only [List.cons_append, parseChars_hex, hu, Option.bind_some, ih hp, Option.map_some]
  | case5 => simp at h
  | case6 e rest he _ ih =>
    simp only [Option.bind_eq_some_iff, Option.map_eq_some_iff, Prod.mk.injEq] at h
    obtain ⟨b, hb, p, hp, rfl, rfl⟩ := h
    simp only [List.cons_append, parseChars_escape he, hb, Option.bind_some, ih hp,
      Option.map_some]
  | case7 => simp at h
  | case8 c rest h1 h2 h3 ih =>
    simp only [Option.map_eq_some_iff, Prod.mk.injEq] at h
    obtain ⟨p, hp, rfl, rfl⟩ := h
    simp only [List.cons_append, parseChars_plain h1 h2 h3, ih hp, Option.map_some]

theorem expect_append {lit s r : Bytes} (h : expect lit s = some r) (t : Bytes) :
    expect lit (s ++ t) = some (r ++ t) := by
  unfold expect at h ⊢
  split at h
  · rename_i hp
    obtain ⟨u, rfl⟩ := List.isPrefixOf_iff_prefix.1 hp
    rw [List.append_assoc, if_pos (List.isPrefixOf_iff_prefix.2 (List.prefix_append _ _)),
      List.drop_left]
    rw [List.drop_left] at h
    exact congrArg _ (congrArg (· ++ t) (Option.some.inj h))
  · simp at h

theorem parseNumber_append {s r : Bytes} {q : ℚ} (h : parseNumber s = some (q, r)) (hr : r ≠ [])
    (t : Bytes) : parseNumber (s ++ t) = some (q, r ++ t) := by
  simp only [parseNumber, Option.map_eq_some_iff, Prod.mk.injEq] at h
  obtain ⟨q, hq, rfl, rfl⟩ := h
  have hlt : (s.takeWhile isNumChar).length ≠ s.length := by
    intro hlen
    apply hr
    have := congrArg List.length (List.takeWhile_append_dropWhile (p := isNumChar) (l := s))
    rw [List.length_append] at this
    exact List.length_eq_zero_iff.1 (by omega)
  have hdrop : (s ++ t).dropWhile isNumChar = s.dropWhile isNumChar ++ t := by
    rw [List.dropWhile_append, if_neg (by simpa using hr)]
  rw [parseNumber, List.takeWhile_append, if_neg hlt, hdrop, hq]
  rfl

theorem parseNumber_head {c : UInt8} {s : Bytes} (hc : isNumChar c = false) :
    parseNumber (c :: s) = none := by
  simp [parseNumber, hc, numberValue, unsignedValue]

/-- With fuel `n`, a value that is read stays so when the text goes on; only a number that ends
the text could go on with it. -/
def ContValue (n : Nat) : Prop :=
  ∀ s v r, parseValue n s = some (v, r) →
    (r = [] → ∀ c ∈ (skipWs s).head?, isNumChar c = false) →
    ∀ m, n ≤ m → ∀ t, parseValue m (s ++ t) = some (v, r ++ t)

def ContElements (n : Nat) : Prop :=
  ∀ s vs r, parseElements n s = some (vs, r) →
    ∀ m, n ≤ m → ∀ t, parseElements m (s ++ t) = some (vs, r ++ t)

def ContMember (n : Nat) : Prop :=
  ∀ s kv r, parseMember n s = some (kv, r) → r ≠ [] →
    ∀ m, n ≤ m → ∀ t, parseMember m (s ++ t) = some (kv, r ++ t)

def ContMembers (n : Nat) : Prop :=
  ∀ s kvs r, parseMembers n s = some (kvs, r) →
    ∀ m, n ≤ m → ∀ t, parseMembers m (s ++ t) = some (kvs, r ++ t)

/-- One part, and behind it a comma and more parts or the closing bracket: what `parseElements` and
`parseMembers` read. -/
def parseParts {α : Type} (close : UInt8) (part : Bytes → Option (α × Bytes))
    (more : Bytes → Option (List α × Bytes)) (s : Bytes) : Option (List α × Bytes) :=
  (part s).bind fun p =>
    match skipWs p.2 with
    | [] => none
    | c :: r =>
      if c = 0x2c then (more r).map fun q => (p.1 :: q.1, q.2)
      else if c = close then some ([p.1], r)
      else none

theorem parseElements_succ (n : Nat) (s : Bytes) :
    parseElements (n + 1) s = parseParts 0x5d (parseValue n) (parseElements n) s := by
  rw [parseElements]
  rfl

theorem parseMembers_succ (n : Nat) (s : Bytes) :
    parseMembers (n + 1) s = parseParts 0x7d (parseMember n) (parseMembers n) s := by
  rw [parseMembers]
  rfl

/-- Parts that are read stay so when the text goes on, if that holds of each part. -/
theorem cont_parts {α : Type} {close : UInt8} {part part' : Bytes → Option (α × Bytes)}
    {more more' : Bytes → Option (List α × Bytes)} {s r t : Bytes} {vs : List α}
    (hpart : ∀ v r, part s = some (v, r) → r ≠ [] → part' (s ++ t) = some (v, r ++ t))
    (hmore : ∀ s vs r, more s = some (vs, r) → more' (s ++ t) = some (vs, r ++ t))
    (h : parseParts close part more s = some (vs, r)) :
    parseParts close part' more' (s ++ t) = some (vs, r ++ t) := by
  rw [parseParts, Option.bind_eq_some_iff] at h
  obtain ⟨⟨v, r₁⟩, hval, hrest⟩ := h
  cases hs : skipWs r₁ with
  | nil => simp [hs] at hrest
  | cons c r₂ =>
    have hne : r₁ ≠ [] := by
      rintro rfl
      simp [skipWs] at hs
    simp only [hs] at hrest
    rw [parseParts, hpart v r₁ hval hne, Option.bind_some]
    simp only [skipWs_append_of_cons hs]
    split at hrest
    · rename_i hc
      simp only [Option.map_eq_some_iff, Prod.mk.injEq] at hrest
      obtain ⟨p, hp, rfl, rfl⟩ := hrest
      rw [if_pos hc, hmore r₂ p.1 p.2 hp]
      rfl
    · rename_i hc
      rw [if_neg hc]
      split at hrest
      · rename_i hc'
        simp only [Option.some.injEq, Prod.mk.injEq] at hrest
        obtain ⟨rfl, rfl⟩ := hrest
        rw [if_pos hc']
      · simp at hrest

theorem contElements_succ {n : Nat} (hv : ContValue n) (he : ContElements n) :
    ContElements (n + 1) := by
  intro s vs r h m hm t
  obtain ⟨m, rfl⟩ : ∃ k, m = k + 1 := ⟨m - 1, by omega⟩
  rw [parseElements_succ] at h ⊢
  refine cont_parts (fun v r hval hne => ?_) (fun s vs r h => ?_) h
  · exact hv s v r hval (fun h => absurd h hne) m (by omega) t
  · exact he s vs r h m (by omega) t

theorem contMember_succ {n : Nat} (hv : ContValue n) : ContMember (n + 1) := by
  intro s kv r h hr m hm t
  obtain ⟨m, rfl⟩ : ∃ k, m = k + 1 := ⟨m - 1, by omega⟩
  rw [parseMember] at h
  cases hs : skipWs s with
  | nil => simp [hs] at h
  | cons c s₁ =>
    simp only [hs] at h
    split at h
    · rename_i hc
      rw [Option.bind_eq_some_iff] at h
      obtain ⟨⟨k, s₂⟩, hk, h⟩ := h
      cases hs₂ : skipWs s₂ with
      | nil => simp [hs₂] at h
      | cons c' s₃ =>
        simp only [hs₂] at h
        split at h
        · rename_i hc'
          simp only [Option.map_eq_some_iff, Prod.mk.injEq] at h
          obtain ⟨⟨v, r'⟩, hval, rfl, rfl⟩ := h
          have hval' := hv s₃ v r' hval (fun h => absurd h hr) m (by omega) t
          rw [parseMember]
          simp only [skipWs_append_of_cons hs, if_pos hc, parseChars_append hk, Option.bind_some,
            skipWs_append_of_cons hs₂, if_pos hc', hval', Option.map_some]
        · simp at h
    · simp at h

theorem contMembers_succ {n : Nat} (hv : ContMember n) (he : ContMembers n) :
    ContMembers (n + 1) := by
  intro s vs r h m hm t
  obtain ⟨m, rfl⟩ : ∃ k, m = k + 1 := ⟨m - 1, by omega⟩
  rw [parseMembers_succ] at h ⊢
  refine cont_parts (fun kv r hval hne => ?_) (fun s vs r h => ?_) h
  · exact hv s kv r hval hne m (by omega) t
  · exact he s vs r h m (by omega) t

theorem parseValue_blank {n : Nat} {s : Bytes} (h : skipWs s = []) : parseValue n s = none := by
  cases n with
  | zero => rfl
  | succ n => rw [parseValue, h]

theorem parseElements_blank {n : Nat} {s : Bytes} (h : skipWs s = []) :
    parseElements n s = none := by
  cases n with
  | zero => rfl
  | succ n => rw [parseElements, parseValue_blank h, Option.bind_none]

theorem parseMembers_blank {n : Nat} {s : Bytes} (h : skipWs s = []) :
    parseMembers n s = none := by
  have hmember : ∀ n, parseMember n s = none := by
    intro n
    cases n with
    | zero => rfl
    | succ n => rw [parseMember, h]
  cases n with
  | zero => rfl
  | succ n => rw [parseMembers, hmember, Option.bind_none]

/-- What follows an opening bracket goes on too, closed at once or not. -/
theorem cont_body {α : Type} {close : UInt8} {body body' : Bytes → Option (α × Bytes)}
    {e v : Value} {f : α → Value} {s r : Bytes} (t : Bytes)
    (hblank : skipWs s = [] → body s = none)
    (hbody : ∀ a r, body s = some (a, r) → body' (s ++ t) = some (a, r ++ t))
    (h : (if (skipWs s).head? = some close then some (e, (skipWs s).tail)
      else (body s).map fun p => (f p.1, p.2)) = some (v, r)) :
    (if (skipWs (s ++ t)).head? = some close then some (e, (skipWs (s ++ t)).tail)
      else (body' (s ++ t)).map fun p => (f p.1, p.2)) = some (v, r ++ t) := by
  cases hs : skipWs s with
  | nil => simp [hs, hblank hs] at h
  | cons c s₁ =>
    simp only [hs, List.head?_cons, Option.some.injEq, List.tail_cons,
      skipWs_append_of_cons hs] at h ⊢
    split at h
    · rename_i hc
      simp only [Option.some.injEq, Prod.mk.injEq] at h
      obtain ⟨rfl, rfl⟩ := h
      rw [if_pos hc]
    · rename_i hc
      simp only [Option.map_eq_some_iff, Prod.mk.injEq] at h
      obtain ⟨p, hp, rfl, rfl⟩ := h
      rw [if_neg hc, hbody p.1 p.2 hp]
      rfl

theorem cont_lit {lit s r : Bytes} {w v : Value} (t : Bytes)
    (h : ((expect lit s).map fun r => (w, r)) = some (v, r)) :
    ((expect lit (s ++ t)).map fun r => (w, r)) = some (v, r ++ t) := by
  rw [Option.map_eq_some_iff] at h
  obtain ⟨r', hr, hv⟩ := h
  simp only [Prod.mk.injEq] at hv
  obtain ⟨rfl, rfl⟩ := hv
  rw [expect_append hr t]
  rfl

theorem contValue_succ {n : Nat} (he : ContElements n) (hk : ContMembers n) :
    ContValue (n + 1) := by
  intro s v r h hside m hm t
  obtain ⟨m, rfl⟩ : ∃ k, m = k + 1 := ⟨m - 1, by omega⟩
  cases hs : skipWs s with
  | nil => simp [parseValue_blank hs] at h
  | cons c s₁ =>
    rw [parseValue, hs] at h
    rw [parseValue, skipWs_append_of_cons hs]
    simp only at h ⊢
    by_cases h₁ : c = 0x7b
    · rw [if_pos h₁] at h ⊢
      exact cont_body t parseMembers_blank (fun a r h => hk s₁ a r h m (by omega) t) h
    rw [if_neg h₁] at h ⊢
    by_cases h₂ : c = 0x5b
    · rw [if_pos h₂] at h ⊢
      exact cont_body t parseElements_blank (fun a r h => he s₁ a r h m (by omega) t) h
    rw [if_neg h₂] at h ⊢
    by_cases h₃ : c = 0x22
    · rw [if_pos h₃, Option.map_eq_some_iff] at h
      obtain ⟨p, hp, hv⟩ := h
      rw [if_pos h₃, parseChars_append hp t, Option.map_some]
      simpa using hv
    rw [if_neg h₃] at h ⊢
    rw [← List.cons_append]
    split_ifs at h ⊢
    · exact cont_lit t h
    · exact cont_lit t h
    · exact cont_lit t h
    · -- a number goes on unless something follows it
      rw [Option.map_eq_some_iff] at h
      obtain ⟨p, hp, hv⟩ := h
      simp only [Prod.mk.injEq] at hv
      obtain ⟨rfl, rfl⟩ := hv
      have hr : p.2 ≠ [] := by
        intro hnil
        have hc : isNumChar c = false := hside hnil c (by rw [hs]; rfl)
        rw [parseNumber_head hc] at hp
        exact absurd hp (by simp)
      rw [parseNumber_append hp hr t]
      rfl

theorem cont (n : Nat) : ContValue n ∧ ContElements n ∧ ContMember n ∧ ContMembers n := by
  induction n with
  | zero =>
    refine ⟨?_, ?_, ?_, ?_⟩ <;> intro s v r h <;>
      simp [parseValue, parseElements, parseMember, parseMembers] at h
  | succ n ih =>
    obtain ⟨hv, he, hm, hms⟩ := ih
    exact ⟨contValue_succ he hms, contElements_succ hv he, contMember_succ hv,
      contMembers_succ hm hms⟩

theorem skipWs_blank_append {s t : Bytes} (h : skipWs s = []) : skipWs (s ++ t) = skipWs t := by
  simp only [skipWs] at h ⊢
  rw [List.dropWhile_append, h]
  rfl

/-- **A JSON text that does not start with a number goes on only by white space.** -/
theorem not_wellFormed_of_append {s t : Bytes} (hwf : WellFormed (s ++ t)) (ht : skipWs t ≠ [])
    (hhead : ∀ c ∈ (skipWs s).head?, isNumChar c = false) : ¬ WellFormed s := by
  intro hs
  obtain ⟨v, hv⟩ := Option.isSome_iff_exists.1 hs
  simp only [parse, Option.bind_eq_some_iff] at hv
  obtain ⟨⟨w, r⟩, hp, hr⟩ := hv
  split at hr
  · rename_i hblank
    have hlong := (cont (s.length + 1)).1 s w r hp (fun _ => hhead) ((s ++ t).length + 1)
      (by rw [List.length_append]; omega) t
    have hend : skipWs (r ++ t) ≠ [] := by rwa [skipWs_blank_append hblank]
    simp only [WellFormed, parse, hlong, Option.bind_some, if_neg hend, Option.isSome_none,
      Bool.false_eq_true] at hwf
  · simp at hr

/-- **An object cut short is no JSON text.** -/
theorem not_wellFormed_of_cut {ms : List (StrLit × Doc)} {s t : Bytes}
    (h : (Doc.obj ms).render = s ++ t) (ht : t ≠ []) : ¬ WellFormed s := by
  cases s with
  | nil => decide
  | cons c s =>
    have hrender : (Doc.obj ms).render = 0x7b :: (Doc.renderMembers ms ++ [0x7d]) := rfl
    have hc : c = 0x7b := by
      rw [hrender] at h
      exact (List.cons.inj h).1.symm
    have hlast : t.getLast ht = 0x7d := by
      have hend : ((c :: s) ++ t).getLast? = some 0x7d := by
        rw [← h, hrender, ← List.cons_append, List.getLast?_concat]
      rw [List.getLast?_append_of_ne_nil _ ht, List.getLast?_eq_some_getLast ht] at hend
      exact Option.some.inj hend
    refine not_wellFormed_of_append (t := t) ?_ (fun hblank => ?_) ?_
    · rw [← h, WellFormed, Doc.parse_render]
      rfl
    · have hws := List.dropWhile_eq_nil_iff.1 hblank 0x7d (hlast ▸ List.getLast_mem ht)
      exact absurd hws (by decide)
    · rw [skipWs_cons (by rw [hc]; decide)]
      intro d hd
      rw [← Option.some.inj hd, hc]
      decide

end Json
