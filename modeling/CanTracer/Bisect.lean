/-!
# Bisection

The first index at which a predicate that holds on an initial segment fails, found by halving what
is left.
-/

namespace Bisect

/-- The search among the `count` indices from `first` on. -/
def search (below : Nat → Bool) (first count : Nat) : Nat :=
  if 0 < count then
    if below (first + count / 2) then search below (first + count / 2 + 1) (count - (count / 2 + 1))
    else search below first (count / 2)
  else first
termination_by count

variable {below : Nat → Bool} {n first count : Nat}

/-- `k` ends the initial segment of `n` indices on which `below` holds. -/
structure Cut (below : Nat → Bool) (n k : Nat) : Prop where
  le : k ≤ n
  inside : ∀ i < k, below i = true
  outside : ∀ i, k ≤ i → i < n → below i = false

/-- What lies before `first` is below and what lies from `first + count` on is not. -/
structure Between (below : Nat → Bool) (n first count : Nat) : Prop where
  le : first + count ≤ n
  inside : ∀ i < first, below i = true
  outside : ∀ i, first + count ≤ i → i < n → below i = false

theorem between_all (below : Nat → Bool) (n : Nat) : Between below n 0 n :=
  ⟨by omega, fun i less => absurd less (by omega), fun i ge less => absurd less (by omega)⟩

theorem Between.right (closed : ∀ i j, i ≤ j → j < n → below j = true → below i = true)
    (between : Between below n first count) (pos : 0 < count) (here : below (first + count / 2) = true) :
    Between below n (first + count / 2 + 1) (count - (count / 2 + 1)) := by
  have le := between.le
  refine ⟨by omega, fun i less => ?_, fun i ge => between.outside i (by omega)⟩
  exact closed i _ (by omega) (by omega) here

theorem Between.left (closed : ∀ i j, i ≤ j → j < n → below j = true → below i = true)
    (between : Between below n first count) (other : below (first + count / 2) ≠ true) :
    Between below n first (count / 2) := by
  have le := between.le
  refine ⟨by omega, between.inside, fun i ge less => ?_⟩
  rw [← Bool.not_eq_true]
  exact fun here => other (closed _ i ge less here)

theorem Between.cut (between : Between below n first 0) : Cut below n first :=
  ⟨between.le, between.inside, between.outside⟩

theorem search_cut (closed : ∀ i j, i ≤ j → j < n → below j = true → below i = true) (count : Nat) :
    ∀ first, Between below n first count → Cut below n (search below first count) := by
  induction count using Nat.strongRecOn with
  | ind count ih =>
    intro first between
    unfold search
    split
    · rename_i pos
      have half : count / 2 < count := Nat.div_lt_self pos (by decide)
      split
      · rename_i here
        exact ih _ (by omega) _ (between.right closed pos here)
      · rename_i other
        exact ih _ half first (between.left closed other)
    · rename_i zero
      rw [Nat.eq_zero_of_not_pos zero] at between
      exact between.cut

/-- In a list the segment is as long as there are elements in it. -/
theorem Cut.eq_countP {α : Type} {p : α → Bool} {xs : List α} {k : Nat}
    (cut : Cut (fun i => xs[i]?.any p) xs.length k) : k = xs.countP p := by
  have front : (xs.take k).countP p = k := by
    have all : ∀ a ∈ xs.take k, p a = true := by
      intro a member
      obtain ⟨i, less, rfl⟩ := List.mem_take_iff_getElem.mp member
      have inside := cut.inside i (by omega)
      rwa [List.getElem?_eq_getElem (by omega), Option.any_some] at inside
    rw [List.countP_eq_length.mpr all, List.length_take, Nat.min_eq_left cut.le]
  have back : (xs.drop k).countP p = 0 := by
    refine List.countP_eq_zero.mpr fun a member => ?_
    obtain ⟨i, less, rfl⟩ := List.mem_drop_iff_getElem.mp member
    have inside : k + i < xs.length := by omega
    have outside := cut.outside (k + i) (Nat.le_add_right k i) inside
    rw [List.getElem?_eq_getElem inside, Option.any_some] at outside
    rw [outside]
    exact Bool.false_ne_true
  rw [← List.take_append_drop k xs, List.countP_append, front, back, Nat.add_zero]

end Bisect
