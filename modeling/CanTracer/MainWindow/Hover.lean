import CanTracer.MainWindow.Drawn

/-!
# The value under the mouse

Which message of the log a chart shows at a time: the next one with the identifier of its item or, behind all of
them, the last. A series that does not take NaN passes over the messages that decode to it.
-/

namespace CanTracer

section
variable (takesNaN : Bool)

/-- The message has the identifier of the item and a value that the series takes. -/
structure Counts (item : SignalPlotItem) (m : CanLogMsg) (y : Double) : Prop where
  id : m.id = item.msgId
  value : item.signal.parseSignal m.data m.dlc = .ok y
  taken : takesNaN = false → y ≠ .nan

/-- The value of the first message that is at the time or behind it. -/
def NextAt (log : List CanLogMsg) (item : SignalPlotItem) (t : ℚ) (y : Double) : Prop :=
  ∃ before m after, log = before ++ m :: after ∧ Counts takesNaN item m y ∧ t ≤ m.time ∧
    ∀ m' ∈ before, ∀ y', Counts takesNaN item m' y' → m'.time < t

/-- The value of the last message with the identifier, when all that count are in front of the time. -/
def LastBefore (log : List CanLogMsg) (item : SignalPlotItem) (t : ℚ) (y : Double) : Prop :=
  (∀ m ∈ log, ∀ y', Counts takesNaN item m y' → m.time < t) ∧
    ∃ before m after, log = before ++ m :: after ∧ Counts takesNaN item m y ∧ ∀ m' ∈ after, m'.id ≠ item.msgId

variable {takesNaN}

/-! ### Points and messages -/

namespace CanSignal

/-- A point of the graph comes from a message, those in front of it from messages in front of that. -/
theorem Decoded.split {signal : CanSignal} {id : UInt32} {log : List CanLogMsg} {pre post : List Point} {p : Point}
    (decoded : signal.Decoded id log (pre ++ p :: post)) :
    ∃ before m after, log = before ++ m :: after ∧ m.id = id ∧ signal.decode m = .ok p ∧ signal.Decoded id before pre ∧
      signal.Decoded id after post := by
  have front := List.forall₂_take_append _ _ _ decoded
  have back := List.forall₂_drop_append _ _ _ decoded
  have parts := (List.take_append_drop pre.length (log.filter fun m => decide (m.id = id))).symm
  cases dropped : (log.filter fun m => decide (m.id = id)).drop pre.length with
  | nil =>
    rw [dropped] at back
    cases back
  | cons m rest =>
    rw [dropped] at back parts
    cases back with
    | cons here rest' =>
      obtain ⟨before, behind, rfl, taken, cut⟩ := List.filter_eq_append_iff.mp parts
      obtain ⟨between, after, rfl, others, own, kept⟩ := List.filter_eq_cons_iff.mp cut
      refine ⟨before ++ between, m, after, (List.append_assoc ..).symm, of_decide_eq_true own, here, ?_, ?_⟩
      · unfold Decoded
        rw [List.filter_append, List.filter_eq_nil_iff.mpr others, List.append_nil, taken]
        exact front
      · unfold Decoded
        rw [kept]
        exact rest'

theorem Decoded.point {signal : CanSignal} {id : UInt32} {log : List CanLogMsg} {points : List Point}
    (decoded : signal.Decoded id log points) {m : CanLogMsg} (inside : m ∈ log) (own : m.id = id) :
    ∃ p ∈ points, signal.decode m = .ok p := by
  obtain ⟨p, among, here⟩ := forall₂_mem_right decoded.flip m (List.mem_filter.mpr ⟨inside, decide_eq_true own⟩)
  exact ⟨p, among, here⟩

end CanSignal

/-! ### The search over a series -/

theorem frontPoint_passed {points : List Point} {first t : ℚ} {rest : List Point}
    (starts : (((CanSignal.frontPoint first points) ++ rest).filter (taken takesNaN)).head?.any
      (fun p => (Double.num t).above p.1) = true) :
    ((CanSignal.frontPoint first points).filter (taken takesNaN)).find? (fun p => !(Double.num t).above p.1) = none := by
  cases points with
  | nil => rfl
  | cons p points =>
    change (([(first, p.2)] ++ rest).filter (taken takesNaN)).head?.any _ = true at starts
    change ([(first, p.2)].filter (taken takesNaN)).find? _ = none
    by_cases takes : taken takesNaN (first, p.2) = true
    · rw [List.singleton_append, List.filter_cons_of_pos takes, List.head?_cons, Option.any_some] at starts
      rw [List.filter_cons_of_pos takes, List.filter_nil, List.find?_singleton, starts]
      rfl
    · rw [List.filter_cons_of_neg takes]
      rfl

/-- Over the points of a drawn-out graph the search meets one of them, or behind them the one that repeats the
last. -/
theorem seen_stretch {points : List Point} {first last t : ℚ} {behind : Bool} {y : Double}
    (shown : CustomQChartView.seen ((CanSignal.stretch first last behind points).filter (taken takesNaN)) (.num t) = some y) :
    (∃ pre p post, points = pre ++ p :: post ∧ taken takesNaN p = true ∧ p.2 = y ∧ t ≤ p.1 ∧
      ∀ q ∈ pre, taken takesNaN q = true → q.1 < t) ∨
    (∀ q ∈ points, taken takesNaN q = true → q.1 < t) ∧
      ∃ pre p, points = pre ++ [p] ∧ taken takesNaN p = true ∧ p.2 = y := by
  have left {q : Point} : (!(Double.num t).above q.1) = false ↔ q.1 < t := by
    rw [Bool.not_eq_false', Double.above, decide_eq_true_iff]
  have right {q : Point} : (!(Double.num t).above q.1) = true ↔ t ≤ q.1 := by
    rw [← Bool.not_eq_false, left, not_lt]
  rw [CustomQChartView.seen] at shown
  split at shown
  · rename_i starts
    obtain ⟨p, meets, rfl⟩ := Option.map_eq_some_iff.mp shown
    rw [CanSignal.stretch, List.append_assoc] at starts meets
    rw [List.filter_append, List.find?_append, frontPoint_passed starts, Option.none_or, List.filter_append,
      List.find?_append] at meets
    rcases Option.or_eq_some_iff.mp meets with inside | ⟨none, beyond⟩
    · rw [List.find?_filter] at inside
      obtain ⟨here, pre, post, rfl, passed⟩ := List.find?_eq_some_iff_append.mp inside
      obtain ⟨takes, reached⟩ := of_decide_eq_true here
      refine .inl ⟨pre, p, post, rfl, takes, rfl, right.mp reached, fun q among takes' => ?_⟩
      by_contra later
      have meets' := passed q among
      rw [Bool.not_eq_true', decide_eq_false_iff_not] at meets'
      exact meets' ⟨takes', right.mpr (not_lt.mp later)⟩
    · rw [List.find?_filter, List.find?_eq_none] at none
      have passed (q : Point) (among : q ∈ points) (takes : taken takesNaN q = true) : q.1 < t := by
        by_contra later
        exact none q among (decide_eq_true ⟨takes, right.mpr (not_lt.mp later)⟩)
      have only := List.mem_of_find?_eq_some beyond
      obtain ⟨among, takes⟩ := List.mem_filter.mp only
      split at among
      · rename_i drawn
        obtain rfl := List.mem_singleton.mp among
        refine .inr ⟨passed, ?_⟩
        rcases List.eq_nil_or_concat' points with rfl | ⟨pre, q, rfl⟩
        · -- Without a point the series starts with the last time, and the time would have to lie behind it.
          have reached := List.find?_some beyond
          rw [if_pos drawn, List.nil_append] at starts
          change ([(last, CanSignal.lastValue [])].filter (taken takesNaN)).head?.any _ = true at starts
          rw [List.filter_cons_of_pos takes, List.head?_cons, Option.any_some] at starts
          rw [starts] at reached
          cases reached
        · rw [CanSignal.lastValue_concat] at takes ⊢
          exact ⟨pre, q, rfl, takes, rfl⟩
      · cases among
  · cases shown

/-- The search finds something between the first time and that of some point, if the first point is taken. -/
theorem seen_stretch_some {p q : Point} {points : List Point} {first t : ℚ} (last : ℚ) (behind : Bool)
    (takes : taken takesNaN p = true) (after : first < t) (among : q ∈ p :: points) (takes' : taken takesNaN q = true)
    (before : t ≤ q.1) :
    ∃ y, CustomQChartView.seen ((CanSignal.stretch first last behind (p :: points)).filter (taken takesNaN)) (.num t) =
      some y := by
  have takesFront : taken takesNaN (first, p.2) = true := takes
  have starts : (((CanSignal.stretch first last behind (p :: points)).filter (taken takesNaN)).head?.any
      fun p => (Double.num t).above p.1) = true := by
    change ((((first, p.2) :: (p :: points ++ _)).filter (taken takesNaN)).head?.any _) = true
    rw [List.filter_cons_of_pos takesFront, List.head?_cons, Option.any_some]
    exact decide_eq_true after
  have meets : (((CanSignal.stretch first last behind (p :: points)).filter (taken takesNaN)).find?
      fun p => !(Double.num t).above p.1).isSome = true := by
    rw [List.find?_isSome]
    refine ⟨q, List.mem_filter.mpr ⟨List.mem_append_left _ (List.mem_append_right _ among), takes'⟩, ?_⟩
    rw [Bool.not_eq_true', Double.above, decide_eq_false_iff_not, not_lt]
    exact before
  obtain ⟨found, here⟩ := Option.isSome_iff_exists.mp meets
  exact ⟨found.2, by rw [CustomQChartView.seen, if_pos starts, here]; rfl⟩

/-! ### Over a chart -/

variable (takesNaN) in
theorem counts_point {item : SignalPlotItem} {m : CanLogMsg} {p : Point} (own : m.id = item.msgId)
    (here : item.signal.decode m = .ok p) :
    p.1 = m.time ∧ ∀ y, Counts takesNaN item m y ↔ taken takesNaN p = true ∧ p.2 = y := by
  obtain ⟨value, decoded, rfl⟩ := map_ok here
  refine ⟨rfl, fun y => ?_⟩
  rw [taken, Bool.or_eq_true, decide_eq_true_iff]
  constructor
  · rintro ⟨-, value', takes⟩
    obtain rfl := Except.ok.inj (decoded.symm.trans value')
    refine ⟨?_, rfl⟩
    cases takesNaN with
    | true => exact .inl rfl
    | false => exact .inr (takes rfl)
  · rintro ⟨takes, rfl⟩
    refine ⟨own, decoded, ?_⟩
    rintro rfl
    exact takes.resolve_left Bool.false_ne_true

namespace DrawnWindow

variable {s : DrawnWindow} {item : SignalPlotItem} {chart : CustomQChartView}

/-- What the mouse meets on a chart is what the search meets on the whole graph. -/
theorem Plots.hover_eq (plots : Plots takesNaN s item chart) (ordered : s.window.log.Pairwise (·.time ≤ ·.time)) :
    ∃ (nonempty : s.window.log ≠ []) (behind : Bool) (points : List Point),
      item.signal.Decoded item.msgId s.window.log points ∧
      ∀ x, CustomQChartView.hover (s.series chart.serial) x =
        (CustomQChartView.seen ((CanSignal.stretch (s.window.log.head nonempty).time (s.window.log.getLast nonempty).time
          behind points).filter (taken takesNaN)) x).elim (.error (.undefined .arrayIndex)) .ok := by
  obtain ⟨endId, data, graph, made⟩ := plots.draws
  have nonempty := CanSignal.log_ne_nil graph
  obtain ⟨points, decoded, rfl⟩ := (CanSignal.graph_iff _ _ nonempty endId data).mp graph
  have sorted := CanSignal.stretch_ordered nonempty ordered decoded (endId ≠ item.msgId)
  refine ⟨nonempty, decide (endId ≠ item.msgId), points, decoded, fun x => ?_⟩
  rw [drawSeries_eq] at made
  rw [← Except.ok.inj made, ← seen_thin takesNaN _ sorted]
  exact CustomQChartView.hover_eq (sorted.sublist (List.filter_sublist.trans (Thinning.thin_sublist _))) x

theorem Plots.shows (plots : Plots takesNaN s item chart) (ordered : s.window.log.Pairwise (·.time ≤ ·.time)) {t : ℚ}
    {y : Double} (shown : CustomQChartView.hover (s.series chart.serial) (.num t) = .ok y) :
    NextAt takesNaN s.window.log item t y ∨ LastBefore takesNaN s.window.log item t y := by
  obtain ⟨nonempty, behind, points, decoded, hover⟩ := plots.hover_eq ordered
  rw [hover] at shown
  -- Which points count is up to their messages.
  have counts {log : List CanLogMsg} {points : List Point} (decoded : item.signal.Decoded item.msgId log points)
      (passed : ∀ q ∈ points, taken takesNaN q = true → q.1 < t) :
      ∀ m ∈ log, ∀ y, Counts takesNaN item m y → m.time < t := by
    intro m inside y own
    obtain ⟨q, among, here⟩ := decoded.point inside own.id
    obtain ⟨time, counts⟩ := counts_point takesNaN own.id here
    rw [← time]
    exact passed q among ((counts y).mp own).1
  cases meets : CustomQChartView.seen ((CanSignal.stretch (s.window.log.head nonempty).time
      (s.window.log.getLast nonempty).time behind points).filter (taken takesNaN)) (.num t) with
  | none =>
    rw [meets] at shown
    cases shown
  | some y' =>
    rw [meets] at shown
    obtain rfl := Except.ok.inj shown
    rcases seen_stretch meets with ⟨pre, p, post, rfl, takes, value, reached, passed⟩ | ⟨passed, pre, p, rfl, takes, value⟩
    · obtain ⟨before, m, after, log, own, here, front, -⟩ := decoded.split
      obtain ⟨time, own⟩ := counts_point takesNaN own here
      exact .inl ⟨before, m, after, log, (own _).mpr ⟨takes, value⟩, time ▸ reached, counts front passed⟩
    · obtain ⟨before, m, after, log, own, here, -, back⟩ := decoded.split
      refine .inr ⟨counts decoded passed, before, m, after, log, ((counts_point takesNaN own here).2 _).mpr ⟨takes, value⟩, ?_⟩
      intro m' behind own'
      obtain ⟨q, among, -⟩ := back.point behind own'
      cases among

theorem Plots.reaches (plots : Plots takesNaN s item chart) (ordered : s.window.log.Pairwise (·.time ≤ ·.time)) {t : ℚ}
    {first m m' : CanLogMsg} {y y' : Double} (start : s.window.log.head? = some first) (after : first.time < t)
    (opening : s.window.log.find? (·.id = item.msgId) = some m) (counted : Counts takesNaN item m y)
    (inside : m' ∈ s.window.log) (counted' : Counts takesNaN item m' y') (before : t ≤ m'.time) :
    ∃ y, CustomQChartView.hover (s.series chart.serial) (.num t) = .ok y := by
  obtain ⟨nonempty, behind, points, decoded, hover⟩ := plots.hover_eq ordered
  obtain ⟨q, among, here⟩ := decoded.point inside counted'.id
  obtain ⟨time, counts⟩ := counts_point takesNaN counted'.id here
  cases points with
  | nil => cases among
  | cons p points =>
    have opened : item.signal.decode m = .ok p := by
      obtain ⟨m₀, rest, first, -, own⟩ := List.forall₂_cons_right_iff.mp decoded
      rw [← List.head?_filter, own, List.head?_cons] at opening
      exact Option.some.inj opening ▸ first
    have found := seen_stretch_some (s.window.log.getLast nonempty).time behind
      (((counts_point takesNaN counted.id opened).2 y).mp counted).1 after among ((counts y').mp counted').1 (time ▸ before)
    obtain ⟨z, meets⟩ := found
    rw [List.head?_eq_some_head nonempty] at start
    obtain rfl := Option.some.inj start
    exact ⟨z, by rw [hover, meets]; rfl⟩

/-- Along every run the mouse shows, over the chart of an item and in a log with its times in order, the value of
the next message of the item, or behind all of them that of the last; and it shows one from behind the start of
the log up to the last message that counts, if the first does. -/
theorem run_hover {qt : Qt} {fuel : Nat} {events : List Event} {s : DrawnWindow}
    (h : Machine.run (step qt fuel takesNaN) events {} = .ok s) (ordered : s.window.log.Pairwise (·.time ≤ ·.time))
    {row : Nat} {item : SignalPlotItem} (here : s.window.plots.plotModel.items[row]? = some item) (t : ℚ) :
    (∀ y, s.hover row (.num t) = .ok y →
      NextAt takesNaN s.window.log item t y ∨ LastBefore takesNaN s.window.log item t y) ∧
    ∀ first m m' y y', s.window.log.head? = some first → first.time < t →
      s.window.log.find? (·.id = item.msgId) = some m → Counts takesNaN item m y →
      m' ∈ s.window.log → Counts takesNaN item m' y' → t ≤ m'.time → ∃ y, s.hover row (.num t) = .ok y := by
  have drawn := (run_drawn h).1
  obtain ⟨inside, rfl⟩ := List.getElem?_eq_some_iff.mp here
  have paired := drawn.length_eq
  have charted : row < s.window.plots.plotModel.widgets.length := paired ▸ inside
  have plots := drawn.get inside charted
  have read (x : Double) : s.hover row x =
      CustomQChartView.hover (s.series (s.window.plots.plotModel.widgets.get ⟨row, charted⟩).serial) x := by
    rw [hover, SignalPlotListModel.getChartAt, at_inside charted]
    rfl
  rw [read]
  refine ⟨fun y shown => Plots.shows plots ordered shown, ?_⟩
  intro first m m' y y' start after opening counted inside' counted' before
  exact Plots.reaches plots ordered start after opening counted inside' counted' before

/-- Two messages of the signal with one of another identifier between them. -/
def passing : File where
  bytes := []
  text := "  1)  1000.0  Rx  0001  1  03 \n  2)  1500.0  Rx  0007  1  09 \n  3)  2000.0  Rx  0001  1  05 \n".toList

def passed : List Event :=
  [.user .openFile, .close (.fileNames ["b.trc".toList]) 0, .finishLog 0 fun _ => some passing, .notifyLog 0,
    .user .openDbcFile, .close (.fileNames ["b.dbc".toList]) 0, .finishDbc 0 fun _ => some MainWindow.oneSignal,
    .notifyDbc 0, .user (.signalPlotMenu 0), .user .addSignal, .close .accept 0]

theorem run_hover_passed : ∃ s item, Machine.run (step plainBuild 0 false) passed {} = .ok s ∧
    s.window.plots.plotModel.items[0]? = some item ∧
    (∀ y, s.hover 0 (.num (6 / 5)) = .ok y →
      NextAt false s.window.log item (6 / 5) y ∨ LastBefore false s.window.log item (6 / 5) y) ∧
    ∀ first m m' y y', s.window.log.head? = some first → first.time < 6 / 5 →
      s.window.log.find? (·.id = item.msgId) = some m → Counts false item m y →
      m' ∈ s.window.log → Counts false item m' y' → 6 / 5 ≤ m'.time → ∃ y, s.hover 0 (.num (6 / 5)) = .ok y := by
  have fits : (Machine.run (step plainBuild 0 false) passed {}).map (fun s =>
      decide (s.window.log.Pairwise (·.time ≤ ·.time) ∧ s.window.plots.plotModel.items[0]?.isSome)) = .ok true := by
    decide +kernel
  obtain ⟨s, ran, fits⟩ := map_ok fits
  obtain ⟨ordered, listed⟩ := of_decide_eq_true fits
  obtain ⟨item, here⟩ := Option.isSome_iff_exists.mp listed
  exact ⟨s, item, ran, here, run_hover ran ordered here (6 / 5)⟩

example : ((Machine.run (step plainBuild 0 false) passed {}).toOption.bind fun s => (s.hover 0 (.num (6 / 5))).toOption) =
    some (.num 5) := by decide +kernel

end DrawnWindow

end
end CanTracer
