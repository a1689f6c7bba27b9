import Mathlib.Data.List.Basic
import Mathlib.Order.Lattice

/-!
# Exchange sort

Two nested loops over an array: the inner one compares the element at `i` with each one behind it
and exchanges the two where the later one should come first. What it leaves at `i` comes before
all the others.
-/

namespace ExchangeSort

variable {α : Type} (before : α → α → Bool)

/-- The inner loop, for `x` at `i` and the elements behind it. -/
def settle : α → List α → α × List α
  | x, [] => (x, [])
  | x, y :: ys =>
    if before y x then ((settle y ys).1, x :: (settle y ys).2)
    else ((settle x ys).1, y :: (settle x ys).2)

theorem length_settle (x : α) (ys : List α) : (settle before x ys).2.length = ys.length := by
  induction ys generalizing x with
  | nil => rfl
  | cons y ys ih =>
    rw [settle]
    split
    · rw [List.length_cons, List.length_cons, ih]
    · rw [List.length_cons, List.length_cons, ih]

/-- The outer loop, for so many turns. -/
def sortFrom : Nat → List α → List α
  | n + 1, x :: ys => (settle before x ys).1 :: sortFrom n (settle before x ys).2
  | _, ys => ys

def sort (xs : List α) : List α := sortFrom before xs.length xs

theorem settle_perm (x : α) (ys : List α) :
    ((settle before x ys).1 :: (settle before x ys).2).Perm (x :: ys) := by
  induction ys generalizing x with
  | nil => rfl
  | cons y ys ih =>
    rw [settle]
    split
    · exact (List.Perm.swap _ _ _).trans ((ih y).cons x)
    · exact ((List.Perm.swap _ _ _).trans ((ih x).cons y)).trans (List.Perm.swap _ _ _)

theorem sortFrom_perm (n : Nat) (xs : List α) : (sortFrom before n xs).Perm xs := by
  induction n generalizing xs with
  | zero =>
    cases xs with
    | nil => rfl
    | cons x ys => rfl
  | succ n ih =>
    cases xs with
    | nil => rfl
    | cons x ys => exact ((ih _).cons _).trans (settle_perm before x ys)

/-- **The sort rearranges.** -/
theorem sort_perm (xs : List α) : (sort before xs).Perm xs := sortFrom_perm before _ xs

section

variable {β : Type} [LinearOrder β] {before} {key : α → β}
  (hbefore : ∀ x y, before x y = true ↔ key y < key x)

include hbefore

/-- Nothing behind `i` has a larger key than what the inner loop leaves there. -/
theorem settle_max (x : α) (ys : List α) :
    key x ≤ key (settle before x ys).1 ∧
      ∀ y ∈ (settle before x ys).2, key y ≤ key (settle before x ys).1 := by
  induction ys generalizing x with
  | nil => exact ⟨le_rfl, fun y hy => absurd hy List.not_mem_nil⟩
  | cons y ys ih =>
    rw [settle]
    split
    · case isTrue hswap =>
      obtain ⟨hy, hrest⟩ := ih y
      have hx : key x ≤ key (settle before y ys).1 := ((hbefore y x).1 hswap).le.trans hy
      exact ⟨hx, List.forall_mem_cons.2 ⟨hx, hrest⟩⟩
    · case isFalse hkeep =>
      obtain ⟨hx, hrest⟩ := ih x
      have hle : key y ≤ key x := not_lt.1 fun hlt => hkeep ((hbefore y x).2 hlt)
      exact ⟨hx, List.forall_mem_cons.2 ⟨hle.trans hx, hrest⟩⟩

theorem sortFrom_sorted {n : Nat} {xs : List α} (hn : xs.length ≤ n) :
    (sortFrom before n xs).Pairwise fun x y => key y ≤ key x := by
  induction n generalizing xs with
  | zero =>
    rw [List.length_eq_zero_iff.1 (Nat.le_zero.1 hn)]
    exact List.Pairwise.nil
  | succ n ih =>
    cases xs with
    | nil => exact List.Pairwise.nil
    | cons x ys =>
      rw [List.length_cons] at hn
      refine List.Pairwise.cons (fun y hy => ?_) (ih ?_)
      · exact (settle_max hbefore x ys).2 y ((sortFrom_perm before n _).mem_iff.1 hy)
      · rw [length_settle]
        omega

/-- **The sort sorts**, the largest key first. -/
theorem sort_sorted (xs : List α) : (sort before xs).Pairwise fun x y => key y ≤ key x :=
  sortFrom_sorted hbefore (Nat.le_refl xs.length)

end

/-! ## By indices -/

/-- The body of the inner loop. -/
def exchange (xs : List α) (i j : Nat) : List α :=
  match xs[i]?, xs[j]? with
  | some x, some y => if before y x then (xs.set i y).set j x else xs
  | _, _ => xs

/-- The inner loop, over the indices behind `i`. -/
def pass (xs : List α) (i : Nat) : List α :=
  (List.range' (i + 1) (xs.length - (i + 1))).foldl (fun xs j => exchange before xs i j) xs

/-- The outer loop, over all indices but the last. -/
def loops (xs : List α) : List α := (List.range' 0 (xs.length - 1)).foldl (pass before) xs

theorem exchange_eq (done mid rest : List α) (x y : α) :
    exchange before (done ++ x :: mid ++ y :: rest) done.length
        (done.length + 1 + mid.length) =
      if before y x then done ++ y :: mid ++ x :: rest
      else done ++ x :: mid ++ y :: rest := by
  have hi : (done ++ x :: mid ++ y :: rest)[done.length]? = some x := by simp
  have hlen : done.length + 1 + mid.length = (done ++ x :: mid).length := by
    rw [List.length_append, List.length_cons]
    omega
  have hj : (done ++ x :: mid ++ y :: rest)[done.length + 1 + mid.length]? = some y := by
    rw [hlen, List.getElem?_append_right (Nat.le_refl _), Nat.sub_self, List.getElem?_cons_zero]
  have hset : (done ++ x :: mid ++ y :: rest).set done.length y =
      done ++ y :: mid ++ y :: rest := by simp
  rw [exchange, hi, hj]
  split
  · case h_1 heq heq' =>
    cases heq
    cases heq'
    rw [hset, show done.length + 1 + mid.length = (done ++ y :: mid).length from hlen ▸ by simp,
      List.set_append_right _ _ (Nat.le_refl _), Nat.sub_self, List.set_cons_zero]
  · case h_2 hnone => exact absurd rfl (hnone x y rfl)

/-- The inner loop, from `mid` on, does what `settle` does. -/
theorem pass_from (done mid rest : List α) (x : α) :
    (List.range' (done.length + 1 + mid.length) rest.length).foldl
        (fun xs j => exchange before xs done.length j) (done ++ x :: mid ++ rest) =
      done ++ (settle before x rest).1 :: mid ++ (settle before x rest).2 := by
  induction rest generalizing x mid with
  | nil => simp [settle]
  | cons y rest ih =>
    have hnext (z : α) :
        done.length + 1 + mid.length + 1 = done.length + 1 + (mid ++ [z]).length := by
      rw [List.length_append, List.length_singleton]
      omega
    rw [List.length_cons, List.range'_succ, List.foldl_cons, exchange_eq, settle]
    split
    · rw [hnext x, show done ++ y :: mid ++ x :: rest = done ++ y :: (mid ++ [x]) ++ rest by simp,
        ih]
      simp
    · rw [hnext y, show done ++ x :: mid ++ y :: rest = done ++ x :: (mid ++ [y]) ++ rest by simp,
        ih]
      simp

theorem pass_eq (done rest : List α) (x : α) :
    pass before (done ++ x :: rest) done.length =
      done ++ (settle before x rest).1 :: (settle before x rest).2 := by
  have hlen : (done ++ x :: rest).length - (done.length + 1) = rest.length := by
    rw [List.length_append, List.length_cons]
    omega
  rw [pass, hlen]
  have hfrom := pass_from before done [] rest x
  simpa using hfrom

/-- The outer loop, once the entries before `i` are settled. -/
theorem loops_from (n : Nat) (done xs : List α) (hn : xs.length = n + 1) :
    (List.range' done.length n).foldl (pass before) (done ++ xs) =
      done ++ sortFrom before (n + 1) xs := by
  induction n generalizing done xs with
  | zero =>
    obtain ⟨x, rfl⟩ := List.length_eq_one_iff.1 hn
    rfl
  | succ n ih =>
    cases xs with
    | nil => cases hn
    | cons x rest =>
      have hrest : (settle before x rest).2.length = n + 1 := by
        rw [length_settle]
        exact Nat.succ.inj hn
      have hdone : done.length + 1 = (done ++ [(settle before x rest).1]).length := by simp
      rw [List.range'_succ, List.foldl_cons, pass_eq, sortFrom, hdone,
        show done ++ (settle before x rest).1 :: (settle before x rest).2 =
          done ++ [(settle before x rest).1] ++ (settle before x rest).2 by simp, ih _ _ hrest]
      simp

/-- **The loops on an array sort it.** -/
theorem loops_eq_sort (xs : List α) : loops before xs = sort before xs := by
  cases xs with
  | nil => rfl
  | cons x rest => exact loops_from before rest.length [] (x :: rest) rfl

end ExchangeSort
