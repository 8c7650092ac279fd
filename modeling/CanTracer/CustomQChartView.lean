import Mathlib.Algebra.Order.Ring.Rat
import CanTracer.Bisect
import CanTracer.Loop
import CanTracer.CanMsg.Graph

/-!
# The point under the mouse

`CustomQChartView::startSearchIndex`, which looks for the first point of the series that does not lie
to the left of the mouse, and the value that `mouseMoveEvent` reads there.
-/

namespace CanTracer

/-- `q < x`, which is false for NaN. -/
def Double.above (x : Double) (q : ℚ) : Bool :=
  match x with
  | .nan => false
  | .num v => decide (q < v)

/-- `q >= x`, which is false for NaN. -/
def Double.upTo (x : Double) (q : ℚ) : Bool :=
  match x with
  | .nan => false
  | .num v => decide (v ≤ q)

theorem Double.above_mono {x : Double} {p q : ℚ} (le : p ≤ q) (above : x.above q = true) : x.above p = true := by
  cases x with
  | nan => cases above
  | num v => exact decide_eq_true (lt_of_le_of_lt le (of_decide_eq_true above))

theorem Double.upTo_num (v q : ℚ) : (Double.num v).upTo q = !(Double.num v).above q := by
  simp [upTo, above, ← decide_not]

namespace CustomQChartView

/-- The loop with its `first` and `count`. -/
def searchLoop (series : List Point) (x : Double) (first count : Nat) : Except Failure (Nat × Nat) :=
  if 0 < count then do
    let p ← QList.at series (first + count / 2)
    if x.above p.1 then searchLoop series x (first + count / 2 + 1) (count - (count / 2 + 1))
    else searchLoop series x first (count / 2)
  else .ok (first, count)
termination_by count

/-- The comparison with `count` comes after the loop. -/
def startSearchIndex (series : List Point) (x : Double) : Except Failure Int := do
  let found ← searchLoop series x 0 series.length
  return if found.1 = found.2 then (found.2 : Int) - 1 else found.1

/-- The value that `mouseMoveEvent` shows for the position `x` on the axis. -/
def hover (series : List Point) (x : Double) : Except Failure Double := do
  let index ← startSearchIndex series x
  let point ← QList.atInt series index
  return point.2

/-! ### The search -/

def below (series : List Point) (x : Double) (i : Nat) : Bool := series[i]?.any fun p => x.above p.1

theorem below_getElem {series : List Point} {x : Double} {i : Nat} (inside : i < series.length) :
    below series x i = x.above series[i].1 := by
  rw [below, List.getElem?_eq_getElem inside, Option.any_some]

theorem searchLoop_eq (series : List Point) (x : Double) (count : Nat) :
    ∀ first, first + count ≤ series.length →
      searchLoop series x first count = .ok (Bisect.search (below series x) first count, 0) := by
  induction count using Nat.strongRecOn with
  | ind count ih =>
    intro first le
    unfold searchLoop Bisect.search
    split
    · rename_i pos
      have half : count / 2 < count := Nat.div_lt_self pos (by decide)
      have inside : first + count / 2 < series.length := by omega
      rw [at_inside inside, below_getElem inside]
      change (if _ then _ else _) = _
      split
      · exact ih _ (by omega) _ (by omega)
      · exact ih _ half first (by omega)
    · rename_i zero
      rw [Nat.eq_zero_of_not_pos zero]

theorem below_closed {series : List Point} (ordered : series.Pairwise (·.1 ≤ ·.1)) (x : Double) (i j : Nat)
    (le : i ≤ j) (inside : j < series.length) (h : below series x j = true) : below series x i = true := by
  have before : i < series.length := Nat.lt_of_le_of_lt le inside
  rw [below_getElem before]
  rw [below_getElem inside] at h
  rcases Nat.eq_or_lt_of_le le with rfl | less
  · exact h
  · exact Double.above_mono (List.pairwise_iff_getElem.mp ordered i j before inside less) h

/-- The loop stays inside the series and ends with the number of points to the left of `x`. -/
theorem searchLoop_cut {series : List Point} (ordered : series.Pairwise (·.1 ≤ ·.1)) (x : Double) :
    ∃ k, searchLoop series x 0 series.length = .ok (k, 0) ∧ Bisect.Cut (below series x) series.length k := by
  refine ⟨_, searchLoop_eq series x series.length 0 (by omega), ?_⟩
  exact Bisect.search_cut (below_closed ordered x) series.length 0 (Bisect.between_all _ _)

theorem startSearchIndex_cut {series : List Point} (ordered : series.Pairwise (·.1 ≤ ·.1)) (x : Double) :
    ∃ k : Nat, startSearchIndex series x = .ok (if k = 0 then -1 else (k : Int)) ∧
      Bisect.Cut (below series x) series.length k := by
  obtain ⟨k, loop, cut⟩ := searchLoop_cut ordered x
  refine ⟨k, ?_, cut⟩
  rw [startSearchIndex, loop]
  change Except.ok (if k = 0 then (0 : Int) - 1 else k) = _
  rfl

/-- The value of the first point that is not to the left of `x`, if some point is. -/
def seen (series : List Point) (x : Double) : Option Double :=
  if series.head?.any fun p => x.above p.1 then (series.find? fun p => !x.above p.1).map (·.2) else none

theorem hover_eq {series : List Point} (ordered : series.Pairwise (·.1 ≤ ·.1)) (x : Double) :
    hover series x = (seen series x).elim (.error (.undefined .arrayIndex)) .ok := by
  obtain ⟨k, found, cut⟩ := startSearchIndex_cut ordered x
  have head : (series.head?.any fun p => x.above p.1) = below series x 0 := by rw [below, List.head?_eq_getElem?]
  rw [hover, found, seen, head]
  change (QList.atInt series _ >>= _) = _
  by_cases first : k = 0
  · have left : below series x 0 = false := by
      cases series with
      | nil => rfl
      | cons p series => exact cut.outside 0 (Nat.le_of_eq first) (Nat.succ_pos _)
    rw [if_pos first, left]
    rfl
  · rw [if_neg first, cut.inside 0 (Nat.pos_of_ne_zero first), if_pos rfl, QList.atInt, if_pos (Int.natCast_nonneg k),
      Int.toNat_natCast, QList.at]
    have before (j : Nat) (less : j < k) (inside : j < series.length) : x.above series[j].1 = true := by
      have left := cut.inside j less
      rwa [below_getElem inside] at left
    by_cases inside : k < series.length
    · have here : (!x.above series[k].1) = true := by
        have right := cut.outside k (Nat.le_refl _) inside
        rw [below_getElem inside] at right
        rw [right]
        rfl
      have meets : series.find? (fun p => !x.above p.1) = some series[k] :=
        List.find?_eq_some_iff_getElem.mpr ⟨here, k, inside, rfl, fun j less => by
          rw [before j less (Nat.lt_trans less inside)]
          rfl⟩
      rw [dif_pos inside, meets]
      rfl
    · have none : series.find? (fun p => !x.above p.1) = none := by
        refine List.find?_eq_none.mpr fun p hp => ?_
        obtain ⟨j, less, rfl⟩ := List.getElem_of_mem hp
        rw [before j (by omega) less]
        decide
      rw [dif_neg inside, none]
      rfl

/-! ### Where it lands -/

/-- The least index of a point that is not to the left of `x`, or that of the last point. -/
def Lands (series : List Point) (x : Double) (index : Int) : Prop :=
  (∃ k : Nat, index = k ∧ IsLeast {j | ∃ p, series[j]? = some p ∧ x.upTo p.1 = true} k) ∨
    (∀ p ∈ series, x.upTo p.1 = false) ∧ index = (series.length : Int) - 1

theorem lands_nonneg {series : List Point} (nonempty : series ≠ []) {x : Double} {index : Int}
    (lands : Lands series x index) : 0 ≤ index ∧ index < series.length := by
  have pos := List.length_pos_iff.mpr nonempty
  rcases lands with ⟨k, rfl, ⟨p, here, -⟩, -⟩ | ⟨-, rfl⟩
  · have inside := (List.getElem?_eq_some_iff.mp here).1
    omega
  · omega

theorem below_head {series : List Point} (nonempty : series ≠ []) (x : Double) :
    below series x 0 = x.above (series.head nonempty).1 := by
  rw [below, ← List.head?_eq_getElem?, List.head?_eq_some_head nonempty, Option.any_some]

theorem below_getLast {series : List Point} (nonempty : series ≠ []) (x : Double) :
    below series x (series.length - 1) = x.above (series.getLast nonempty).1 := by
  rw [below, ← List.getLast?_eq_getElem?, List.getLast?_eq_some_getLast nonempty, Option.any_some]

/-- The search finds the point it is for exactly between the first point and the last. -/
theorem startSearchIndex_lands_iff (series : List Point) (nonempty : series ≠ [])
    (ordered : series.Pairwise (·.1 ≤ ·.1)) (x : Double) :
    (∃ index, startSearchIndex series x = .ok index ∧ Lands series x index) ↔
      ∃ v, x = .num v ∧ (series.head nonempty).1 < v ∧ v ≤ (series.getLast nonempty).1 := by
  have pos := List.length_pos_iff.mpr nonempty
  obtain ⟨k, found, cut⟩ := startSearchIndex_cut ordered x
  constructor
  · rintro ⟨index, here, lands⟩
    obtain rfl := Except.ok.inj (found.symm.trans here)
    obtain ⟨ge, less⟩ := lands_nonneg nonempty lands
    have inner : 0 < k ∧ k < series.length := by split at ge <;> omega
    have first := cut.inside 0 inner.1
    have last := cut.outside (series.length - 1) (by omega) (by omega)
    rw [below_head nonempty] at first
    rw [below_getLast nonempty] at last
    cases x with
    | nan => cases first
    | num v => exact ⟨v, rfl, of_decide_eq_true first, not_lt.mp (of_decide_eq_false last)⟩
  · rintro ⟨v, rfl, after, before⟩
    have first : below series (.num v) 0 = true := by
      rw [below_head nonempty]
      exact decide_eq_true after
    have last : below series (.num v) (series.length - 1) = false := by
      rw [below_getLast nonempty]
      exact decide_eq_false (not_lt.mpr before)
    have above : k ≠ 0 := by
      rintro rfl
      exact absurd (cut.outside 0 (Nat.le_refl _) pos) (by rw [first]; decide)
    have inside : k < series.length := by
      refine Nat.lt_of_le_of_ne cut.le fun whole => ?_
      exact absurd (cut.inside (series.length - 1) (by omega)) (by rw [last]; decide)
    refine ⟨k, by rw [found, if_neg above], .inl ⟨k, rfl, ⟨series[k], List.getElem?_eq_getElem inside, ?_⟩, ?_⟩⟩
    · have here := cut.outside k (Nat.le_refl _) inside
      rw [below_getElem inside] at here
      rw [Double.upTo_num, here]
      rfl
    · rintro j ⟨p, here, right⟩
      by_contra less
      have left := cut.inside j (not_le.mp less)
      rw [below, here, Option.any_some] at left
      rw [Double.upTo_num, left] at right
      cases right

def steps : List Point := [(0, .num 1), (1, .num 2)]

theorem startSearchIndex_lands_steps :
    (∃ index, startSearchIndex steps (.num 1) = .ok index ∧ Lands steps (.num 1) index) ↔
      ∃ v, Double.num 1 = .num v ∧ (0 : ℚ) < v ∧ v ≤ 1 :=
  startSearchIndex_lands_iff steps (List.cons_ne_nil _ _) (by decide +kernel) (.num 1)

/-- On the first point the search ends at -1. -/
theorem startSearchIndex_lands_first :
    ¬ ∀ (series : List Point) (_ : series ≠ []), series.Pairwise (·.1 ≤ ·.1) → ∀ x,
      ∃ index, startSearchIndex series x = .ok index ∧ Lands series x index := by
  intro h
  have ordered : steps.Pairwise (·.1 ≤ ·.1) := by decide +kernel
  obtain ⟨index, found, lands⟩ := h steps (List.cons_ne_nil _ _) ordered (.num 0)
  have here : startSearchIndex steps (.num 0) = .ok (-1) := by decide +kernel
  obtain rfl := Except.ok.inj (here.symm.trans found)
  exact absurd (lands_nonneg (List.cons_ne_nil _ _) lands).1 (by decide)

/-! ### The loop, round by round -/

/-- The variables that the loop carries from round to round. -/
structure Interval where
  first : Nat
  count : Nat

/-- A round with the point at `it`. -/
def Interval.next (s : Interval) (x : Double) (p : Point) : Interval :=
  let step := s.count / 2
  if x.above p.1 then ⟨s.first + step + 1, s.count - (step + 1)⟩ else ⟨s.first, step⟩

/-- `while (count > 0)`; without the point there is no result. -/
def searchBody (series : List Point) (x : Double) (s : Interval) : Option (Loop.Next Interval) :=
  if 0 < s.count then
    match QList.at series (s.first + s.count / 2) with
    | .error _ => none
    | .ok p => some (.next (s.next x p))
  else some (.stop s)

/-- What lies before the interval is to the left of `x`, and what lies behind it is not. -/
def Narrowed (series : List Point) (x : Double) (s : Interval) : Prop :=
  Bisect.Between (below series x) series.length s.first s.count

theorem searchBody_stop {series : List Point} {x : Double} {s : Interval} (empty : ¬0 < s.count) :
    searchBody series x s = some (.stop s) := if_neg empty

theorem searchBody_next {series : List Point} (ordered : series.Pairwise (·.1 ≤ ·.1)) {x : Double} {s : Interval}
    (narrowed : Narrowed series x s) (pos : 0 < s.count) :
    ∃ s', searchBody series x s = some (.next s') ∧ Narrowed series x s' ∧ s'.count < s.count := by
  have le := narrowed.le
  have half : s.count / 2 < s.count := Nat.div_lt_self pos (by decide)
  have inside : s.first + s.count / 2 < series.length := by omega
  have same : below series x (s.first + s.count / 2) = x.above series[s.first + s.count / 2].1 := below_getElem inside
  refine ⟨s.next x series[s.first + s.count / 2], by rw [searchBody, if_pos pos, at_inside inside], ?_⟩
  unfold Interval.next
  split
  · rename_i left
    exact ⟨narrowed.right (below_closed ordered x) pos (same.trans left), by dsimp only; omega⟩
  · rename_i right
    exact ⟨narrowed.left (below_closed ordered x) (by rw [same]; exact right), half⟩

/-- The loop ends after fewer rounds than there are points, reads only points of the series, and leaves
`count` at 0 and `first` at the number of points to the left of `x`. -/
theorem searchBody_lowerBound (series : List Point) (ordered : series.Pairwise (·.1 ≤ ·.1)) (x : Double) (n : Nat)
    (fuel : series.length < n) :
    Loop.run (searchBody series x) n ⟨0, series.length⟩ = some ⟨series.countP fun p => x.above p.1, 0⟩ ∧
      (∀ s ∈ Loop.visited (searchBody series x) n ⟨0, series.length⟩, 0 < s.count →
        s.first + s.count / 2 < series.length) ∧
      searchLoop series x 0 series.length = .ok (series.countP fun p => x.above p.1, 0) := by
  have start : Narrowed series x ⟨0, series.length⟩ := Bisect.between_all _ _
  refine ⟨?_, fun s visited pos => ?_, ?_⟩
  · have round (s : Interval) (narrowed : Narrowed series x s) (_ : True) :
        (∃ s', searchBody series x s = some (.stop s') ∧ s'.count = 0 ∧ Narrowed series x s') ∨
          ∃ s', searchBody series x s = some (.next s') ∧ Narrowed series x s' ∧ s'.count < s.count := by
      by_cases pos : 0 < s.count
      · exact .inr (searchBody_next ordered narrowed pos)
      · exact .inl ⟨s, searchBody_stop pos, Nat.eq_zero_of_not_pos pos, narrowed⟩
    obtain ⟨⟨first, count⟩, ran, rfl, narrowed⟩ :=
      Loop.run_total Interval.count round n ⟨0, series.length⟩ start fuel fun _ _ => trivial
    have number : first = series.countP fun p => x.above p.1 := narrowed.cut.eq_countP
    rw [ran, number]
  · have narrowed := Loop.visited_keeps (fun s s' narrowed next => ?_) n _ start s visited
    · have le := narrowed.le
      have half : s.count / 2 < s.count := Nat.div_lt_self pos (by decide)
      omega
    · by_cases pos : 0 < s.count
      · obtain ⟨t, next', narrowed', -⟩ := searchBody_next ordered narrowed pos
        obtain rfl := Loop.Next.next.inj (Option.some.inj (next.symm.trans next'))
        exact narrowed'
      · rw [searchBody_stop pos] at next
        cases next
  · obtain ⟨k, loop, cut⟩ := searchLoop_cut ordered x
    rw [loop, cut.eq_countP]

theorem searchBody_lowerBound_steps :
    Loop.run (searchBody steps (.num 1)) 3 ⟨0, 2⟩ = some ⟨1, 0⟩ ∧
      (∀ s ∈ Loop.visited (searchBody steps (.num 1)) 3 ⟨0, 2⟩, 0 < s.count → s.first + s.count / 2 < 2) ∧
      searchLoop steps (.num 1) 0 2 = .ok (1, 0) := by
  have lower := searchBody_lowerBound steps (by decide +kernel) (.num 1) 3 (by decide)
  have number : (steps.countP fun p => (Double.num 1).above p.1) = 1 := by decide +kernel
  rw [number] at lower
  exact lower

end CustomQChartView
end CanTracer
