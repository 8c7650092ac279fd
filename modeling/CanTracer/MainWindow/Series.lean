import Mathlib.Data.Real.Basic
import Mathlib.Data.Rat.Cast.Order
import CanTracer.CustomQChartView
import CanTracer.Polyline

/-!
# The plotted series

`MainWindow::onAddSignal` puts the points of a graph into a `QLineSeries`: all of a short graph, of a
longer one the first, the last and those whose value differs from that of a neighbour. Whether the
series takes a point with NaN is up to the library.
-/

namespace CanTracer

/-- `p != q`, which is true for NaN. -/
def Double.differs : Double → Double → Bool
  | .num p, .num q => decide (p ≠ q)
  | _, _ => true

section
variable (takesNaN : Bool)

/-- `QLineSeries::append` -/
def append (series : List Point) (p : Point) : List Point :=
  if p.2 = .nan ∧ takesNaN = false then series else series ++ [p]

def drawAll (data : List Point) : List Point := data.foldl (append takesNaN) []

/-- The body of the loop over the points between the first and the last. -/
def drawInner (data series : List Point) (index : Nat) : Except Failure (List Point) := do
  let here ← QList.at data index
  let prev ← QList.at data (index - 1)
  let next ← QList.at data (index + 1)
  return if here.2.differs prev.2 || here.2.differs next.2 then append takesNaN series here else series

def drawSeries (data : List Point) : Except Failure (List Point) :=
  if data.length < 3 then .ok (drawAll takesNaN data)
  else do
    let first ← QList.at data 0
    let series ← (List.range' 1 (data.length - 2)).foldlM (drawInner takesNaN data) (append takesNaN [] first)
    let last ← QList.at data (data.length - 1)
    return append takesNaN series last

/-! ### What is drawn -/

def taken (p : Point) : Bool := takesNaN || decide (p.2 ≠ .nan)

def apart (p q : Point) : Bool := p.2.differs q.2

theorem append_eq (series : List Point) (p : Point) :
    append takesNaN series p = series ++ [p].filter (taken takesNaN) := by
  unfold append taken
  cases takesNaN <;> by_cases nan : p.2 = .nan <;> simp [nan]

theorem foldl_append (data : List Point) :
    ∀ series, data.foldl (append takesNaN) series = series ++ data.filter (taken takesNaN) := by
  induction data with
  | nil => exact fun series => (List.append_nil series).symm
  | cons p data ih =>
    intro series
    rw [List.foldl_cons, ih, append_eq, List.append_assoc, ← List.filter_append, List.singleton_append]

theorem drawAll_eq (data : List Point) : drawAll takesNaN data = data.filter (taken takesNaN) := foldl_append _ data []

theorem at_append {α : Type} (pre : List α) (x : α) (post : List α) :
    QList.at (pre ++ x :: post) pre.length = .ok x := by
  refine at_some ?_
  rw [List.getElem?_append_right (Nat.le_refl _), Nat.sub_self, List.getElem?_cons_zero]

theorem inner_ne_nil (prev here : Point) (l : List Point) :
    Thinning.inner apart prev (here :: l) ≠ [] := by
  intro none
  have last : (Thinning.inner apart prev (here :: l)).getLast? = _ := Thinning.inner_getLast? prev (here :: l)
  rw [none, List.getLast?_cons] at last
  cases last

theorem drawInner_run (data : List Point) (l : List Point) :
    ∀ (pre : List Point) (prev here : Point) (series : List Point), data = pre ++ prev :: here :: l →
      (List.range' (pre.length + 1) l.length).foldlM (drawInner takesNaN data) series =
        .ok (series ++
          (Thinning.inner apart prev (here :: l)).dropLast.filter (taken takesNaN)) := by
  induction l with
  | nil =>
    intro pre prev here series _
    exact congrArg Except.ok (List.append_nil series).symm
  | cons next l ih =>
    intro pre prev here series whole
    have shifted : data = (pre ++ [prev]) ++ here :: next :: l := by
      rw [List.append_assoc]
      exact whole
    have read_prev : QList.at data (pre.length + 1 - 1) = .ok prev := by
      rw [whole, Nat.add_sub_cancel]
      exact at_append pre prev (here :: next :: l)
    have read_here : QList.at data (pre.length + 1) = .ok here := by
      have read := at_append (pre ++ [prev]) here (next :: l)
      rw [List.length_append, ← shifted] at read
      exact read
    have read_next : QList.at data (pre.length + 1 + 1) = .ok next := by
      have read := at_append (pre ++ [prev, here]) next l
      rw [List.length_append, List.append_assoc] at read
      rw [whole]
      exact read
    have rest := ih (pre ++ [prev]) here next
    rw [List.length_append] at rest
    rw [List.length_cons, List.range'_succ, List.foldlM_cons, drawInner, read_here, read_prev, read_next]
    refine (rest _ shifted).trans (congrArg Except.ok ?_)
    cases keeps : here.2.differs prev.2 || here.2.differs next.2 with
    | true =>
      have kept : Thinning.inner apart prev (here :: next :: l) = _ :=
        Thinning.inner_kept keeps
      rw [if_pos rfl, kept, List.dropLast_cons_of_ne_nil (inner_ne_nil here next l), append_eq, List.append_assoc,
        ← List.filter_append, List.singleton_append]
    | false =>
      have dropped : Thinning.inner apart prev (here :: next :: l) = _ :=
        Thinning.inner_dropped keeps
      rw [if_neg Bool.false_ne_true, dropped]

/-- The series holds those of the kept points that it takes. -/
theorem drawSeries_eq (data : List Point) :
    drawSeries takesNaN data = .ok ((Thinning.thin apart data).filter (taken takesNaN)) := by
  match data with
  | [] => rfl
  | [p] => exact congrArg Except.ok (drawAll_eq takesNaN [p])
  | [p, q] => exact congrArg Except.ok (drawAll_eq takesNaN [p, q])
  | p :: q :: r :: rest =>
    have long : ¬ (p :: q :: r :: rest).length < 3 := by simp
    have nonempty := inner_ne_nil p q (r :: rest)
    have run := drawInner_run takesNaN (p :: q :: r :: rest) (r :: rest) [] p q (append takesNaN [] p) rfl
    have last : QList.at (p :: q :: r :: rest) ((p :: q :: r :: rest).length - 1) =
        .ok ((Thinning.inner apart p (q :: r :: rest)).getLast nonempty) := by
      have same : (Thinning.inner apart p (q :: r :: rest)).getLast? = _ := Thinning.inner_getLast? p (q :: r :: rest)
      rw [List.getLast?_eq_some_getLast nonempty, List.getLast?_eq_some_getLast (List.cons_ne_nil _ _)] at same
      rw [Option.some.inj same, List.getLast_eq_getElem, QList.at, dif_pos (by simp)]
      rfl
    rw [List.length_nil, Nat.zero_add] at run
    rw [drawSeries, if_neg long, last]
    change ((List.range' 1 (r :: rest).length).foldlM (drawInner takesNaN (p :: q :: r :: rest))
      (append takesNaN [] p) >>= _) = _
    rw [run]
    refine congrArg Except.ok ?_
    rw [append_eq, append_eq, List.nil_append, List.append_assoc, ← List.filter_append, List.dropLast_append_getLast,
      ← List.filter_append, Thinning.thin, List.singleton_append]

/-! ### The curve -/

/-- A point with a number for its value. -/
def exact (p : ℚ × ℚ) : Point := (p.1, .num p.2)

def plane (p : ℚ × ℚ) : ℝ × ℝ := (p.1, p.2)

theorem thin_exact (data : List (ℚ × ℚ)) :
    (Thinning.thin apart (data.map exact)).filter (taken takesNaN) = (Thinning.thin Polyline.levels data).map exact := by
  have same : (fun p q => apart (exact p) (exact q)) = Polyline.levels := rfl
  rw [Thinning.thin_map, same]
  refine List.filter_eq_self.mpr fun p hp => ?_
  obtain ⟨q, -, rfl⟩ := List.mem_map.mp hp
  exact Bool.or_eq_true_iff.mpr (.inr rfl)

theorem thin_plane (data : List (ℚ × ℚ)) :
    (Thinning.thin Polyline.levels data).map plane = Thinning.thin Polyline.levels (data.map plane) := by
  have same : (fun p q => Polyline.levels (plane p) (plane q)) = (Polyline.levels : ℚ × ℚ → ℚ × ℚ → Bool) := by
    funext p q
    exact decide_eq_decide.mpr (not_congr Rat.cast_inj)
  rw [Thinning.thin_map, same]

/-- The series is a part of the graph with its first and its last point, and draws the same curve. -/
theorem drawSeries_curve (data : List (ℚ × ℚ)) (nonempty : data ≠ []) (ordered : data.Pairwise (·.1 ≤ ·.1)) :
    ∃ kept : List (ℚ × ℚ), drawSeries takesNaN (data.map exact) = .ok (kept.map exact) ∧ kept.Sublist data ∧
      kept.head? = some (data.head nonempty) ∧ kept.getLast? = some (data.getLast nonempty) ∧
      Polyline.curve (kept.map plane) = Polyline.curve (data.map plane) := by
  refine ⟨Thinning.thin Polyline.levels data, ?_, Thinning.thin_sublist data, ?_, ?_, ?_⟩
  · rw [drawSeries_eq, thin_exact]
  · rw [Thinning.thin_head?, List.head?_eq_some_head nonempty]
  · rw [Thinning.thin_getLast?, List.getLast?_eq_some_getLast nonempty]
  · rw [thin_plane]
    refine Polyline.curve_thin _ (List.pairwise_map.mpr (ordered.imp fun le => ?_))
    exact Rat.cast_le.mpr le

/-- Four points on one level and a step. -/
def plateau : List (ℚ × ℚ) := [(0, 1), (1, 1), (1, 1), (2, 1), (3, 5)]

theorem drawSeries_curve_plateau :
    ∃ kept : List (ℚ × ℚ), drawSeries true (plateau.map exact) = .ok (kept.map exact) ∧ kept.Sublist plateau ∧
      kept.head? = some (0, 1) ∧ kept.getLast? = some (3, 5) ∧
      Polyline.curve (kept.map plane) = Polyline.curve (plateau.map plane) :=
  drawSeries_curve true plateau (List.cons_ne_nil _ _) (by decide +kernel)

example : drawSeries true (plateau.map exact) = .ok ([(0, 1), (2, 1), (3, 5)].map exact) := by decide +kernel

/-! ### Hovering -/

theorem value_of_apart {p q : Point} (same : apart p q = false) : p.2 = q.2 ∧ p.2 ≠ .nan := by
  obtain ⟨px, py⟩ := p
  obtain ⟨qx, qy⟩ := q
  cases py with
  | nan => cases same
  | num v =>
    cases qy with
    | nan => cases same
    | num w =>
      obtain rfl : v = w := not_not.mp (of_decide_eq_false same)
      exact ⟨rfl, nofun⟩

/-- The search over the thinned series meets the value that the search over the whole one meets. -/
theorem seen_thin (data : List Point) (ordered : data.Pairwise (·.1 ≤ ·.1)) (x : Double) :
    CustomQChartView.seen ((Thinning.thin apart data).filter (taken takesNaN)) x =
      CustomQChartView.seen (data.filter (taken takesNaN)) x := by
  have value (p q : Point) (same : apart p q = false) : p.2 = q.2 := (value_of_apart same).1
  have head : (Thinning.thin apart data).find? (taken takesNaN) = data.find? (taken takesNaN) :=
    Thinning.thin_find?_value (fun p q same => by rw [taken, taken, value p q same]) data
  have goes : data.IsChain fun p q => apart p q = false →
      decide (taken takesNaN p = true ∧ (!x.above p.1) = true) = true →
        decide (taken takesNaN q = true ∧ (!x.above q.1) = true) = true := by
    refine List.Pairwise.isChain (ordered.imp fun {p q} le same here => ?_)
    obtain ⟨takes, right⟩ := of_decide_eq_true here
    refine decide_eq_true ⟨?_, ?_⟩
    · rw [taken, ← value p q same]
      exact takes
    · rw [Bool.not_eq_true', ← Bool.not_eq_true] at right ⊢
      exact fun left => right (Double.above_mono le left)
  have meets := Thinning.thin_find? value data goes
  rw [CustomQChartView.seen, CustomQChartView.seen, List.head?_filter, List.head?_filter, head, List.find?_filter,
    List.find?_filter, meets]

/-- The value shown on the thinned series is that shown on the whole one. -/
theorem hover_thinned (data : List Point) (nonempty : data ≠ []) (ordered : data.Pairwise (·.1 ≤ ·.1)) (x : Double) :
    ∃ series, drawSeries takesNaN data = .ok series ∧
      CustomQChartView.hover series x = CustomQChartView.hover (drawAll takesNaN data) x ∧
      (takesNaN = true → ∀ v, x = .num v → (data.head nonempty).1 < v → v ≤ (data.getLast nonempty).1 →
        ∃ y, CustomQChartView.hover series x = .ok y) := by
  have kept : ((Thinning.thin apart data).filter (taken takesNaN)).Pairwise (·.1 ≤ ·.1) :=
    ordered.sublist (List.filter_sublist.trans (Thinning.thin_sublist data))
  have whole : (data.filter (taken takesNaN)).Pairwise (·.1 ≤ ·.1) := ordered.filter _
  have same : CustomQChartView.hover ((Thinning.thin apart data).filter (taken takesNaN)) x =
      CustomQChartView.hover (drawAll takesNaN data) x := by
    rw [drawAll_eq, CustomQChartView.hover_eq kept, CustomQChartView.hover_eq whole, seen_thin takesNaN data ordered]
  refine ⟨_, drawSeries_eq takesNaN data, same, ?_⟩
  rintro rfl v rfl after before
  have all : drawAll true data = data := by
    rw [drawAll_eq]
    exact List.filter_eq_self.mpr fun p _ => rfl
  obtain ⟨index, found, lands⟩ :=
    (CustomQChartView.startSearchIndex_lands_iff data nonempty ordered (.num v)).mpr ⟨v, rfl, after, before⟩
  obtain ⟨ge, less⟩ := CustomQChartView.lands_nonneg nonempty lands
  rw [same, all, CustomQChartView.hover, found]
  change ∃ y, (QList.atInt data index >>= _) = _
  rw [QList.atInt, if_pos ge, QList.at, dif_pos (by omega)]
  exact ⟨_, rfl⟩

theorem hover_thinned_plateau :
    ∃ series, drawSeries true (plateau.map exact) = .ok series ∧
      CustomQChartView.hover series (.num 1) = CustomQChartView.hover (drawAll true (plateau.map exact)) (.num 1) ∧
      (true = true → ∀ v, Double.num 1 = .num v → (0 : ℚ) < v → v ≤ 3 →
        ∃ y, CustomQChartView.hover series (.num 1) = .ok y) :=
  hover_thinned true (plateau.map exact) (List.cons_ne_nil _ _) (by decide +kernel) (.num 1)

end
end CanTracer
