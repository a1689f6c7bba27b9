import Qmem.Lib.JsonDoc

/-!
# Searching a string (`string.h`, `stdlib.h`)

A pointer into a string is what it points at: the rest of the string. A search over a text that
was written in parts goes part by part: `Skips needle front rest` says that the needle stands
nowhere in `front` when `rest` follows, so the search may start at `rest`.
-/

namespace CLib

/-- `strstr`. -/
def strstr : Bytes → Bytes → Option Bytes
  | [], needle => if needle.isEmpty then some [] else none
  | c :: s, needle => if needle <+: c :: s then some (c :: s) else strstr s needle

/-- `strchr`, of a character that is not NUL. -/
def strchr (s : Bytes) (c : UInt8) : Option Bytes :=
  match s.dropWhile (· ≠ c) with
  | [] => none
  | rest => some rest

/-- `strrchr`, of a character that is not NUL. -/
def strrchr : Bytes → UInt8 → Option Bytes
  | [], _ => none
  | b :: s, c => (strrchr s c).or (if b = c then some (b :: s) else none)

/-- No place in `front` is one where the needle stands. -/
def Skips (needle front rest : Bytes) : Prop :=
  ∀ n < front.length, ¬ needle <+: (front ++ rest).drop n

section

variable {needle front rest : Bytes}

@[simp] theorem skips_nil : Skips needle [] rest := fun n hn => absurd hn (Nat.not_lt_zero n)

theorem Skips.cons {c : UInt8} (hhere : ¬ needle <+: c :: (front ++ rest))
    (h : Skips needle front rest) : Skips needle (c :: front) rest := by
  intro n hn
  cases n with
  | zero => exact hhere
  | succ n => exact h n (Nat.lt_of_succ_lt_succ hn)

theorem Skips.append {back : Bytes} (hfront : Skips needle front (back ++ rest))
    (hback : Skips needle back rest) : Skips needle (front ++ back) rest := by
  intro n hn
  rw [List.append_assoc]
  by_cases hlt : n < front.length
  · exact hfront n hlt
  · rw [List.length_append] at hn
    have hdrop : (front ++ (back ++ rest)).drop n = (back ++ rest).drop (n - front.length) := by
      rw [List.drop_append, List.drop_eq_nil_of_le (by omega), List.nil_append]
    rw [hdrop]
    exact hback _ (by omega)

/-- A needle does not stand where its first character does not. -/
theorem skips_of_not_mem {c : UInt8} {needle : Bytes} (h : c ∉ front) :
    Skips (c :: needle) front rest := by
  induction front with
  | nil => exact skips_nil
  | cons d front ih =>
    rw [List.mem_cons, not_or] at h
    refine Skips.cons (fun hpre => h.1 ?_) (ih h.2)
    exact (List.cons_prefix_cons.1 hpre).1

theorem strchr_append {c : UInt8} (h : c ∉ front) :
    strchr (front ++ c :: rest) c = some (c :: rest) := by
  have hdrop : (front ++ c :: rest).dropWhile (· ≠ c) = c :: rest :=
    Json.dropWhile_of_all (fun d hd => decide_eq_true fun heq => h (heq ▸ hd)) (by simp)
  rw [strchr, hdrop]

theorem strchr_take {s quote : Bytes} {c : UInt8} (h : strchr s c = some quote) :
    s.take (s.length - quote.length) = s.takeWhile (· ≠ c) := by
  have hquote : quote = s.dropWhile (· ≠ c) := by
    rw [strchr] at h
    split at h
    · cases h
    · exact (Option.some.inj h).symm
  have hsplit := List.takeWhile_append_dropWhile (p := (· ≠ c)) (l := s)
  have hlen := congrArg List.length hsplit
  rw [List.length_append, ← hquote] at hlen
  rw [show s.length - quote.length = (s.takeWhile (· ≠ c)).length by omega]
  exact (List.prefix_iff_eq_take.1 (List.takeWhile_prefix _)).symm

theorem exists_strchr {s : Bytes} {c : UInt8} (h : c ∈ s) : ∃ quote, strchr s c = some quote := by
  rw [strchr]
  split
  · case h_1 hdrop => exact absurd (List.dropWhile_eq_nil_iff.1 hdrop c h) (by simp)
  · exact ⟨_, rfl⟩

theorem strrchr_none {s : Bytes} {c : UInt8} (h : c ∉ s) : strrchr s c = none := by
  induction s with
  | nil => rfl
  | cons b s ih =>
    rw [List.mem_cons, not_or] at h
    rw [strrchr, ih h.2, if_neg (Ne.symm h.1)]
    rfl

/-- The last one counts. -/
theorem strrchr_append (front : Bytes) {back : Bytes} {c : UInt8} (h : c ∉ back) :
    strrchr (front ++ c :: back) c = some (c :: back) := by
  induction front with
  | nil => rw [List.nil_append, strrchr, strrchr_none h, if_pos rfl, Option.none_or]
  | cons b front ih => rw [List.cons_append, strrchr, ih, Option.some_or]

/-- What comes before the first `c` of a text that `c` ends. -/
theorem takeWhile_append_self (front rest : Bytes) (c : UInt8) :
    (front ++ c :: rest).takeWhile (· ≠ c) = front.takeWhile (· ≠ c) := by
  induction front with
  | nil => simp
  | cons d front ih =>
    rw [List.cons_append, List.takeWhile_cons, List.takeWhile_cons, ih]

/-! ## The first place -/

theorem strstr_here {s : Bytes} (h : needle <+: s) : strstr s needle = some s := by
  cases s with
  | nil => rw [List.prefix_nil.1 h]; rfl
  | cons c s => rw [strstr, if_pos h]

theorem strstr_skips (h : Skips needle front rest) :
    strstr (front ++ rest) needle = strstr rest needle := by
  induction front with
  | nil => rfl
  | cons c front ih =>
    have hhere : ¬ needle <+: c :: (front ++ rest) := h 0 (Nat.succ_pos _)
    rw [List.cons_append, strstr, if_neg hhere]
    exact ih fun n hn => h (n + 1) (Nat.succ_lt_succ hn)

/-- Where `strstr` points: the first place where the needle stands. -/
theorem strstr_eq_some_iff {s r : Bytes} :
    strstr s needle = some r ↔
      ∃ n ≤ s.length, r = s.drop n ∧ needle <+: s.drop n ∧ ∀ m < n, ¬ needle <+: s.drop m := by
  induction s with
  | nil =>
    have hnil : strstr [] needle = if needle = [] then some [] else none := by
      cases needle <;> rfl
    rw [hnil]
    constructor
    · intro h
      split at h
      · case isTrue hempty => exact ⟨0, le_rfl, (Option.some.inj h).symm, by simp [hempty], by simp⟩
      · cases h
    · rintro ⟨n, -, rfl, hpre, -⟩
      rw [List.drop_nil, List.prefix_nil] at hpre
      rw [if_pos hpre, List.drop_nil]
  | cons c s ih =>
    rw [strstr]
    split
    · case isTrue hhere =>
      constructor
      · intro h
        exact ⟨0, Nat.zero_le _, (Option.some.inj h).symm, hhere, by simp⟩
      · rintro ⟨n, -, rfl, -, hfirst⟩
        cases n with
        | zero => rfl
        | succ n => exact absurd hhere (hfirst 0 (Nat.succ_pos n))
    · case isFalse hhere =>
      rw [ih]
      constructor
      · rintro ⟨n, hn, rfl, hpre, hfirst⟩
        refine ⟨n + 1, Nat.succ_le_succ hn, rfl, hpre, fun m hm => ?_⟩
        cases m with
        | zero => exact hhere
        | succ m => exact hfirst m (Nat.lt_of_succ_lt_succ hm)
      · rintro ⟨n, hn, rfl, hpre, hfirst⟩
        cases n with
        | zero => exact absurd hpre hhere
        | succ n =>
          exact ⟨n, Nat.le_of_succ_le_succ hn, rfl, hpre,
            fun m hm => hfirst (m + 1) (Nat.succ_lt_succ hm)⟩

theorem strstr_eq_none_iff {s : Bytes} :
    strstr s needle = none ↔ ∀ n ≤ s.length, ¬ needle <+: s.drop n := by
  constructor
  · intro h
    by_contra hex
    push Not at hex
    classical
    have hmin := Nat.find_spec hex
    have hsome := strstr_eq_some_iff.2 ⟨Nat.find hex, hmin.1, rfl, hmin.2, fun m hm hpre =>
      Nat.find_min hex hm ⟨by omega, hpre⟩⟩
    rw [h] at hsome
    cases hsome
  · intro h
    cases hstr : strstr s needle with
    | none => rfl
    | some r =>
      obtain ⟨n, hn, -, hpre, -⟩ := strstr_eq_some_iff.1 hstr
      exact absurd hpre (h n hn)

theorem strstr_isSome_iff {s needle : Bytes} : (strstr s needle).isSome ↔ needle <:+: s := by
  induction s with
  | nil =>
    rw [strstr, List.infix_nil]
    cases needle <;> simp
  | cons c s ih =>
    rw [strstr, List.infix_cons_iff]
    split
    · case isTrue hhere => simp [hhere]
    · case isFalse hhere => rw [ih, or_iff_right hhere]

/-- In a first part of a text the needle stands where it does in the text, if all of it does. -/
theorem prefix_drop_take_iff (hne : needle ≠ []) {s : Bytes} {k n : Nat} :
    needle <+: (s.take k).drop n ↔ needle <+: s.drop n ∧ n + needle.length ≤ k := by
  have hpos := List.length_pos_iff.2 hne
  rw [List.drop_take, List.prefix_take_iff]
  refine and_congr_right fun _ => ?_
  omega

/-! ## Every place -/

/-- `while ((pos = strstr(pos, needle)) != NULL) { …; pos++; }`: where `pos` points in the body. -/
def scan (needle pos : Bytes) : List Bytes :=
  match h : strstr pos needle with
  | none | some [] => []
  | some (c :: s) =>
    have : s.length < pos.length := by
      obtain ⟨n, -, hdrop, -⟩ := strstr_eq_some_iff.1 h
      have := congrArg List.length hdrop
      simp only [List.length_cons, List.length_drop] at this
      omega
    (c :: s) :: scan needle s
termination_by pos.length

theorem scan_none {pos : Bytes} (h : strstr pos needle = none) : scan needle pos = [] := by
  rw [scan]
  split <;> simp_all

theorem scan_some {pos s : Bytes} {c : UInt8} (h : strstr pos needle = some (c :: s)) :
    scan needle pos = (c :: s) :: scan needle s := by
  rw [scan]
  split
  · simp_all
  · simp_all
  · case h_3 c' s' h' =>
    rw [h] at h'
    cases h'
    rfl

theorem scan_eq_nil_iff (hne : needle ≠ []) {pos : Bytes} :
    scan needle pos = [] ↔ strstr pos needle = none := by
  cases h : strstr pos needle with
  | none => simp [scan_none h]
  | some r =>
    cases r with
    | nil =>
      obtain ⟨n, -, hdrop, hpre, -⟩ := strstr_eq_some_iff.1 h
      rw [← hdrop, List.prefix_nil] at hpre
      exact absurd hpre hne
    | cons c s => simp [scan_some h]

theorem scan_skips (h : Skips needle front rest) :
    scan needle (front ++ rest) = scan needle rest := by
  have hsame := strstr_skips h
  cases hrest : strstr rest needle with
  | none => rw [scan_none hrest, scan_none (hsame.trans hrest)]
  | some r =>
    cases r with
    | nil =>
      rw [scan, scan]
      split <;> split <;> simp_all
    | cons c s => rw [scan_some hrest, scan_some (hsame.trans hrest)]

theorem scan_here {s : Bytes} {c : UInt8} (h : needle <+: c :: s) :
    scan needle (c :: s) = (c :: s) :: scan needle s := scan_some (strstr_here h)

end

end CLib
