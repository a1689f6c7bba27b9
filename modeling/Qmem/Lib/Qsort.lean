import Mathlib.Data.List.Rotate
import Mathlib.Data.List.Sort

/-!
# `qsort`

The C library says of `qsort` only that the result is a rearrangement in ascending order of the
comparison; how it orders what compares equal is its own choice. A `Qsort` is any such function,
with the proofs that it is one.
-/

namespace CLib

variable {α : Type}

/-- A comparison callback that orders its arguments: total and transitive. -/
structure Orders (cmp : α → α → Int) : Prop where
  total : ∀ a b, cmp a b ≤ 0 ∨ cmp b a ≤ 0
  trans : ∀ a b c, cmp a b ≤ 0 → cmp b c ≤ 0 → cmp a c ≤ 0

structure Qsort where
  sort : {α : Type} → (α → α → Int) → List α → List α
  perm : ∀ {α : Type} (cmp : α → α → Int) (xs : List α), (sort cmp xs).Perm xs
  sorted : ∀ {α : Type} (cmp : α → α → Int) (xs : List α), Orders cmp →
    (sort cmp xs).Pairwise fun a b => cmp a b ≤ 0

theorem Qsort.sort_singleton (qsort : Qsort) (cmp : α → α → Int) (a : α) :
    qsort.sort cmp [a] = [a] := List.perm_singleton.1 (qsort.perm cmp [a])

/-- Merge sort is a `qsort`. -/
def Qsort.merge : Qsort where
  sort cmp xs := xs.mergeSort fun a b => decide (cmp a b ≤ 0)
  perm cmp xs := List.mergeSort_perm xs _
  sorted cmp xs h := by
    have hsorted := @List.pairwise_mergeSort _ (fun a b => decide (cmp a b ≤ 0))
      (fun a b c hab hbc => by simpa using h.trans a b c (by simpa using hab) (by simpa using hbc))
      (fun a b => by simpa using h.total a b) xs
    exact hsorted.imp fun hab => by simpa using hab

/-- Insertion sort is another, and one that can be run by the kernel. -/
def Qsort.insertion : Qsort where
  sort cmp xs := xs.insertionSort fun a b => cmp a b ≤ 0
  perm cmp xs := xs.perm_insertionSort _
  sorted {α} cmp xs h := by
    have htotal : Std.Total fun a b : α => cmp a b ≤ 0 := ⟨h.total⟩
    have htrans : IsTrans α fun a b => cmp a b ≤ 0 := ⟨h.trans⟩
    exact List.pairwise_insertionSort _ xs

/-- The comparison of a descending sort by `f`. -/
def compareDescending {β : Type} [LT β] [DecidableLT β] (f : α → β) (a b : α) : Int :=
  if f b > f a then 1 else if f b < f a then -1 else 0

/-- The comparison of an ascending sort by `f`. -/
def compareAscending {β : Type} [LT β] [DecidableLT β] (f : α → β) (a b : α) : Int :=
  if f a < f b then -1 else if f a > f b then 1 else 0

/-- Keys that are ordered alike sort alike. -/
theorem compareDescending_congr {β γ : Type} [LT β] [DecidableLT β] [LT γ] [DecidableLT γ]
    {f : α → β} {g : α → γ} (h : ∀ a b, f a < f b ↔ g a < g b) :
    compareDescending f = compareDescending g := by
  funext a b
  simp only [compareDescending, gt_iff_lt, h]

theorem compareDescending_int64 (f : α → Int64) :
    compareDescending f = compareDescending fun a => (f a).toInt :=
  compareDescending_congr fun _ _ => Int64.lt_iff_toInt_lt

/-- An ascending sort is a descending one by the opposite keys. -/
theorem compareAscending_int64 (f : α → Int64) :
    compareAscending f = compareDescending fun a => -(f a).toInt := by
  funext a b
  simp only [compareAscending, compareDescending, gt_iff_lt, Int64.lt_iff_toInt_lt,
    Int.neg_lt_neg_iff]
  by_cases hab : (f a).toInt < (f b).toInt
  · rw [if_pos hab, if_neg hab.not_gt, if_pos hab]
  · rw [if_neg hab]
    by_cases hba : (f b).toInt < (f a).toInt
    · rw [if_pos hba, if_pos hba]
    · rw [if_neg hba, if_neg hba, if_neg hab]

section

variable {β : Type} [LinearOrder β] (f : α → β)

theorem compareDescending_le_zero {a b : α} : compareDescending f a b ≤ 0 ↔ f b ≤ f a := by
  unfold compareDescending
  split_ifs with h₁ h₂
  · simpa using h₁
  · simpa using h₂.le
  · simpa using h₁

theorem orders_compareDescending : Orders (compareDescending f) where
  total a b := by
    simp only [compareDescending_le_zero]
    exact le_total _ _
  trans a b c hab hbc := by
    simp only [compareDescending_le_zero] at *
    exact hbc.trans hab

/-- Where no two elements have the same key, all of them sort alike. -/
theorem Qsort.map_sort {γ : Type} {key : γ → β} (qsort : Qsort) (f : α → γ) {xs : List α}
    {ys : List γ} (hperm : (xs.map f).Perm ys) (hys : ys.Pairwise fun a b => key b < key a) :
    (qsort.sort (compareDescending fun a => key (f a)) xs).map f = ys := by
  have hsort := (qsort.perm (compareDescending fun a => key (f a)) xs).map f
  have hsorted : ((qsort.sort (compareDescending fun a => key (f a)) xs).map f).Pairwise
      fun a b => key b ≤ key a := by
    rw [List.pairwise_map]
    exact (qsort.sorted _ xs (orders_compareDescending _)).imp (compareDescending_le_zero _).1
  have hkeys : (ys.map key).Nodup := List.pairwise_map.2 (hys.imp ne_of_gt)
  refine List.Perm.eq_of_pairwise (fun a b ha hb hba hab => ?_) hsorted (hys.imp le_of_lt)
    (hsort.trans hperm)
  exact List.inj_on_of_nodup_map hkeys ((hsort.trans hperm).mem_iff.1 ha) hb (le_antisymm hab hba)

end

/-! ## The largest -/

/-- `top` are the `n` elements of `xs` with the largest keys (all of them if there are fewer), in
descending order. -/
structure Ranking {β : Type} [LE β] (key : α → β) (n : Nat) (xs top : List α) : Prop where
  length : top.length = min n xs.length
  sorted : top.Pairwise fun a b => key b ≤ key a
  rest : ∃ rest, (top ++ rest).Perm xs ∧ ∀ a ∈ top, ∀ b ∈ rest, key b ≤ key a

section

variable {β : Type} [LinearOrder β] {key : α → β} {n : Nat} {xs ys top : List α} {a : α}

theorem Ranking.of_sorted (hperm : ys.Perm xs) (hsorted : ys.Pairwise fun a b => key b ≤ key a)
    (n : Nat) : Ranking key n xs (ys.take n) := by
  refine ⟨?_, hsorted.sublist (List.take_sublist n ys), ys.drop n, ?_, fun a ha b hb => ?_⟩
  · rw [List.length_take, hperm.length_eq]
  · rwa [List.take_append_drop]
  · rw [← List.take_append_drop n ys, List.pairwise_append] at hsorted
    exact hsorted.2.2 a ha b hb

/-- The elements with a property, from a list that has been sorted by the keys. -/
theorem Qsort.ranking (qsort : Qsort) (key : α → β) (n : Nat) (p : α → Bool) (h : ys.Perm xs) :
    Ranking key n (xs.filter p) (((qsort.sort (compareDescending key) ys).filter p).take n) := by
  have hsorted := (qsort.sorted _ ys (orders_compareDescending key)).imp
    (compareDescending_le_zero key).1
  exact Ranking.of_sorted (((qsort.perm _ ys).trans h).filter p)
    (hsorted.sublist List.filter_sublist) n

/-- A ranking of things that stand for others, with keys in the same order. -/
theorem Ranking.map {γ δ : Type} [LE δ] {key' : γ → δ} {f : α → γ} (h : Ranking key n xs top)
    (hkey : ∀ a b, key b ≤ key a → key' (f b) ≤ key' (f a)) :
    Ranking key' n (xs.map f) (top.map f) := by
  obtain ⟨rest, hperm, hrest⟩ := h.rest
  refine ⟨by rw [List.length_map, List.length_map, h.length], ?_, rest.map f, ?_, ?_⟩
  · rw [List.pairwise_map]
    exact h.sorted.imp (hkey _ _)
  · rw [← List.map_append]
    exact hperm.map f
  · intro c hc d hd
    obtain ⟨a, ha, rfl⟩ := List.mem_map.1 hc
    obtain ⟨b, hb, rfl⟩ := List.mem_map.1 hd
    exact hkey a b (hrest a ha b hb)

theorem Ranking.le_head (h : Ranking key n xs (a :: top)) {b : α} (hb : b ∈ xs) :
    key b ≤ key a := by
  obtain ⟨rest, hperm, hrest⟩ := h.rest
  rcases List.mem_append.1 (hperm.mem_iff.2 hb) with hb | hb
  · rcases List.mem_cons.1 hb with rfl | hb
    · exact le_rfl
    · exact (List.pairwise_cons.1 h.sorted).1 b hb
  · exact hrest a List.mem_cons_self b hb

end

/-! ## Comparisons that do not order everything -/

/-- A comparison that orders these elements. -/
structure OrdersOn (cmp : α → α → Int) (xs : List α) : Prop where
  total : ∀ a ∈ xs, ∀ b ∈ xs, cmp a b ≤ 0 ∨ cmp b a ≤ 0
  trans : ∀ a ∈ xs, ∀ b ∈ xs, ∀ c ∈ xs, cmp a b ≤ 0 → cmp b c ≤ 0 → cmp a c ≤ 0

theorem OrdersOn.of_key {cmp : α → α → Int} {xs : List α} (key : α → Int)
    (h : ∀ a ∈ xs, ∀ b ∈ xs, cmp a b ≤ 0 ↔ key b ≤ key a) : OrdersOn cmp xs where
  total a ha b hb := by
    rw [h a ha b hb, h b hb a ha]
    omega
  trans a ha b hb c hc := by
    rw [h a ha b hb, h b hb c hc, h a ha c hc]
    omega

/-- The whole contract of `qsort`: the comparison need only order the elements of the array. -/
structure FullQsort extends Qsort where
  sortedOn : ∀ {α : Type} (cmp : α → α → Int) (xs : List α), OrdersOn cmp xs →
    (sort cmp xs).Pairwise fun a b => cmp a b ≤ 0

/-- Sorting a list by a comparison that orders its elements. -/
def sortOn (cmp : α → α → Int) (xs : List α) : List α :=
  (xs.attach.mergeSort fun a b => decide (cmp a.1 b.1 ≤ 0)).map Subtype.val

theorem sortOn_perm (cmp : α → α → Int) (xs : List α) : (sortOn cmp xs).Perm xs := by
  have hperm := (List.mergeSort_perm xs.attach fun a b => decide (cmp a.1 b.1 ≤ 0)).map Subtype.val
  rwa [List.attach_map_subtype_val] at hperm

theorem sortOn_sorted {cmp : α → α → Int} {xs : List α} (h : OrdersOn cmp xs) :
    (sortOn cmp xs).Pairwise fun a b => cmp a b ≤ 0 := by
  rw [sortOn, List.pairwise_map]
  have hsorted := @List.pairwise_mergeSort _ (fun a b : { x // x ∈ xs } => decide (cmp a.1 b.1 ≤ 0))
    (fun a b c hab hbc => by
      simpa using h.trans a a.2 b b.2 c c.2 (by simpa using hab) (by simpa using hbc))
    (fun a b => by simpa using h.total a a.2 b b.2) xs.attach
  exact hsorted.imp fun hab => by simpa using hab

open Classical in
/-- A `qsort` that does as it likes where the comparison does not order the elements: it brings
the one at `i` to the front. -/
noncomputable def FullQsort.unruly (i : Nat) : FullQsort where
  sort cmp xs := if OrdersOn cmp xs then sortOn cmp xs else xs.rotate i
  perm cmp xs := by
    split
    · exact sortOn_perm cmp xs
    · exact List.rotate_perm xs i
  sorted cmp xs h := by
    have hon : OrdersOn cmp xs :=
      ⟨fun a _ b _ => h.total a b, fun a _ b _ c _ => h.trans a b c⟩
    rw [if_pos hon]
    exact sortOn_sorted hon
  sortedOn cmp xs h := by
    rw [if_pos h]
    exact sortOn_sorted h

open Classical in
theorem FullQsort.unruly_sort {cmp : α → α → Int} {xs : List α} (i : Nat) (h : OrdersOn cmp xs) :
    (FullQsort.unruly i).sort cmp xs = sortOn cmp xs := if_pos h

open Classical in
theorem FullQsort.unruly_head {cmp : α → α → Int} {xs : List α} {i : Nat} {a : α}
    (h : ¬ OrdersOn cmp xs) (ha : xs[i]? = some a) :
    ∃ rest, (FullQsort.unruly i).sort cmp xs = a :: rest := by
  obtain ⟨hi, hget⟩ := List.getElem?_eq_some_iff.1 ha
  refine ⟨xs.drop (i + 1) ++ xs.take i, ?_⟩
  show (if OrdersOn cmp xs then sortOn cmp xs else xs.rotate i) = _
  rw [if_neg h, List.rotate_eq_drop_append_take hi.le, List.drop_eq_getElem_cons hi, hget,
    List.cons_append]

end CLib
