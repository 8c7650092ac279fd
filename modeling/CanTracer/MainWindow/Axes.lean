import CanTracer.MainWindow.Plots

/-!
# The axes of the charts

The settings that the buttons below the plots change, and `updateChartAxis`, which hands them to every
chart of the plot list.
-/

namespace CanTracer

def SignalPlotListModel.getChartAt (m : SignalPlotListModel) (index : Nat) : Except Failure CustomQChartView :=
  QList.at m.widgets index

/-- `static_cast<int>` of a `double`. -/
def intCast (q : ℚ) : Except Failure Int :=
  let n := q.num.tdiv q.den
  if -2 ^ 31 ≤ n ∧ n < 2 ^ 31 then .ok n else .error (.undefined .overflow)

/-- A sum in `int`. -/
def intAdd (m n : Int) : Except Failure Int :=
  if -2 ^ 31 ≤ m + n ∧ m + n < 2 ^ 31 then .ok (m + n) else .error (.undefined .overflow)

/-- The bounds that `QWidget` puts on a minimum size. -/
def widgetSize (n : Int) : Int := max 0 (min n 16777215)

/-- `QValueAxis::setTickCount`, which keeps the old number for one below 2. -/
def setTickCount (old count : Int) : Int := if 2 ≤ count then count else old

/-- What a chart shows of the settings. `createDefaultAxes` makes five ticks. -/
structure ChartGeometry where
  minimumWidth : Int := 0
  minimumHeight : Int := 0
  xTickCount : Int := 5
  yTickCount : Int := 5
  deriving DecidableEq

/-- The settings. -/
structure ChartAxes where
  minChartSize : Int := 150
  yTick : Int := 5
  tickPerSec : ℚ := 1 / 10
  widthPerSec : Int := 10
  deriving DecidableEq

inductive AxisButton where
  | addXTick
  | addYTick
  | remXTick
  | remYTick
  | zoomInX
  | zoomInY
  | zoomOutX
  | zoomOutY
  | resetAll
  deriving DecidableEq

namespace ChartAxes

def minChartSizeStep : Int := 5

def tickPerSecStep : ℚ := 1 / 100

/-! ### Slots -/

/-- The slots of the buttons, before they update the charts. -/
def press (a : ChartAxes) : AxisButton → Except Failure ChartAxes
  | .addXTick => .ok { a with tickPerSec := a.tickPerSec + tickPerSecStep }
  | .addYTick => (intAdd a.yTick 1).map fun yTick => { a with yTick := yTick }
  | .remXTick => .ok (if tickPerSecStep < a.tickPerSec then { a with tickPerSec := a.tickPerSec - tickPerSecStep } else a)
  | .remYTick => if 1 < a.yTick then (intAdd a.yTick (-1)).map fun yTick => { a with yTick := yTick } else .ok a
  | .zoomInX => (intAdd a.widthPerSec 1).map fun widthPerSec => { a with widthPerSec := widthPerSec }
  | .zoomInY => (intAdd a.minChartSize minChartSizeStep).map fun minChartSize => { a with minChartSize := minChartSize }
  | .zoomOutX =>
    if 1 < a.widthPerSec then (intAdd a.widthPerSec (-1)).map fun widthPerSec => { a with widthPerSec := widthPerSec }
    else .ok a
  | .zoomOutY =>
    if minChartSizeStep < a.minChartSize then
      (intAdd a.minChartSize (-minChartSizeStep)).map fun minChartSize => { a with minChartSize := minChartSize }
    else .ok a
  | .resetAll => .ok {}

/-- A chart after the settings have been handed to it. -/
def apply (a : ChartAxes) (time : ℚ) (g : ChartGeometry) : Except Failure ChartGeometry := do
  let width ← intCast (time * a.widthPerSec)
  let ticks ← intCast (time * a.tickPerSec)
  return {
    minimumWidth := widgetSize width
    minimumHeight := widgetSize a.minChartSize
    xTickCount := setTickCount g.xTickCount ticks
    yTickCount := setTickCount g.yTickCount a.yTick }

/-- The charts are found through the rows of the plot list. -/
def updateChartAxis (a : ChartAxes) (time : ℚ) (plots : SignalPlotListModel) (geometry : Nat → ChartGeometry) :
    Except Failure (Nat → ChartGeometry) :=
  (List.range plots.rowCount).foldlM (fun geometry i => do
    let chart ← plots.getChartAt i
    let g ← a.apply time (geometry chart.serial)
    return Function.update geometry chart.serial g) geometry

/-! ### Settings in order -/

/-- Every setting is positive, and the height goes in whole steps. -/
structure Positive (a : ChartAxes) : Prop where
  height : minChartSizeStep ≤ a.minChartSize
  steps : minChartSizeStep ∣ a.minChartSize
  yTick : 1 ≤ a.yTick
  tickPerSec : 0 < a.tickPerSec
  widthPerSec : 1 ≤ a.widthPerSec

theorem intAdd_ok {m n s : Int} (h : intAdd m n = .ok s) : s = m + n := by
  unfold intAdd at h
  split at h
  · exact (Except.ok.inj h).symm
  · cases h

theorem Positive.initial : Positive {} := ⟨by decide, by decide, by decide, by decide +kernel, by decide⟩

theorem Positive.press {a a' : ChartAxes} (positive : a.Positive) {button : AxisButton} (h : a.press button = .ok a') :
    a'.Positive := by
  obtain ⟨height, steps, yTick, tickPerSec, widthPerSec⟩ := positive
  have small : 0 < tickPerSecStep := by decide +kernel
  cases button with
  | addXTick =>
    rw [← Except.ok.inj h]
    exact ⟨height, steps, yTick, add_pos tickPerSec small, widthPerSec⟩
  | addYTick =>
    obtain ⟨n, sum, rfl⟩ := map_ok h
    rw [intAdd_ok sum]
    exact ⟨height, steps, by dsimp only; omega, tickPerSec, widthPerSec⟩
  | remXTick =>
    rw [← Except.ok.inj h]
    split
    · rename_i above
      exact ⟨height, steps, yTick, sub_pos.mpr above, widthPerSec⟩
    · exact ⟨height, steps, yTick, tickPerSec, widthPerSec⟩
  | remYTick =>
    rw [ChartAxes.press] at h
    split at h
    · obtain ⟨n, sum, rfl⟩ := map_ok h
      rw [intAdd_ok sum]
      exact ⟨height, steps, by dsimp only; omega, tickPerSec, widthPerSec⟩
    · rw [← Except.ok.inj h]
      exact ⟨height, steps, yTick, tickPerSec, widthPerSec⟩
  | zoomInX =>
    obtain ⟨n, sum, rfl⟩ := map_ok h
    rw [intAdd_ok sum]
    exact ⟨height, steps, yTick, tickPerSec, by dsimp only; omega⟩
  | zoomInY =>
    obtain ⟨n, sum, rfl⟩ := map_ok h
    rw [intAdd_ok sum]
    exact ⟨by dsimp only [minChartSizeStep] at *; omega, by dsimp only [minChartSizeStep] at *; omega, yTick, tickPerSec,
      widthPerSec⟩
  | zoomOutX =>
    rw [ChartAxes.press] at h
    split at h
    · obtain ⟨n, sum, rfl⟩ := map_ok h
      rw [intAdd_ok sum]
      exact ⟨height, steps, yTick, tickPerSec, by dsimp only; omega⟩
    · rw [← Except.ok.inj h]
      exact ⟨height, steps, yTick, tickPerSec, widthPerSec⟩
  | zoomOutY =>
    rw [ChartAxes.press] at h
    split at h
    · obtain ⟨n, sum, rfl⟩ := map_ok h
      rw [intAdd_ok sum]
      exact ⟨by dsimp only [minChartSizeStep] at *; omega, by dsimp only [minChartSizeStep] at *; omega, yTick, tickPerSec,
        widthPerSec⟩
    · rw [← Except.ok.inj h]
      exact ⟨height, steps, yTick, tickPerSec, widthPerSec⟩
  | resetAll =>
    rw [← Except.ok.inj h]
    exact .initial

/-! ### Charts in order -/

/-- The chart shows the settings, its tick counts as far as an axis takes them. -/
structure Fits (a : ChartAxes) (time : ℚ) (g : ChartGeometry) : Prop where
  width : ∃ width, intCast (time * a.widthPerSec) = .ok width ∧ g.minimumWidth = widgetSize width
  height : g.minimumHeight = widgetSize a.minChartSize
  xTicks : ∀ ticks, intCast (time * a.tickPerSec) = .ok ticks → 2 ≤ ticks → g.xTickCount = ticks
  yTicks : 2 ≤ a.yTick → g.yTickCount = a.yTick

theorem apply_fits {a : ChartAxes} {time : ℚ} {g g' : ChartGeometry} (h : a.apply time g = .ok g') : a.Fits time g' := by
  obtain ⟨width, cast, h⟩ := bind_ok h
  obtain ⟨ticks, cast', h⟩ := bind_ok h
  rw [← Except.ok.inj h]
  refine ⟨⟨width, cast, rfl⟩, rfl, fun ticks' is enough => ?_, fun enough => if_pos enough⟩
  obtain rfl := Except.ok.inj (cast'.symm.trans is)
  exact if_pos enough

theorem update_fits {a : ChartAxes} {time : ℚ} {plots : SignalPlotListModel} {rows : List Nat} :
    ∀ {geometry geometry' : Nat → ChartGeometry},
      rows.foldlM (fun geometry i => do
        let chart ← plots.getChartAt i
        let g ← a.apply time (geometry chart.serial)
        return Function.update geometry chart.serial g) geometry = Except.ok geometry' →
      ∀ serial, a.Fits time (geometry serial) ∨ (∃ i ∈ rows, ∃ chart, plots.getChartAt i = .ok chart ∧ chart.serial = serial) →
        a.Fits time (geometry' serial) := by
  induction rows with
  | nil =>
    intro geometry geometry' h serial fits
    rw [← Except.ok.inj h]
    exact fits.resolve_right (by simp)
  | cons i rows ih =>
    intro geometry geometry' h serial fits
    rw [List.foldlM_cons] at h
    obtain ⟨next, first, h⟩ := bind_ok h
    obtain ⟨own, read, first⟩ := bind_ok first
    obtain ⟨g, applied, first⟩ := bind_ok first
    apply ih h
    rw [← Except.ok.inj first]
    by_cases same : serial = own.serial
    · rw [same, Function.update_self]
      exact .inl (apply_fits applied)
    · rw [Function.update_of_ne same]
      refine fits.imp_right ?_
      rintro ⟨j, among, chart, there, rfl⟩
      rcases List.mem_cons.mp among with rfl | later
      · exact absurd (congrArg _ (Except.ok.inj (there.symm.trans read))) same
      · exact ⟨j, later, chart, there, rfl⟩

/-- After an update every chart of the list shows the settings. -/
theorem updateChartAxis_fits {a : ChartAxes} {time : ℚ} {plots : SignalPlotListModel}
    (paired : plots.items.length = plots.widgets.length) {geometry geometry' : Nat → ChartGeometry}
    (h : a.updateChartAxis time plots geometry = .ok geometry') :
    ∀ chart ∈ plots.widgets, a.Fits time (geometry' chart.serial) := by
  intro chart among
  obtain ⟨i, here⟩ := List.getElem?_of_mem among
  refine update_fits h chart.serial (.inr ⟨i, List.mem_range.mpr ?_, chart, at_some here, rfl⟩)
  rw [SignalPlotListModel.rowCount, paired]
  exact (List.getElem?_eq_some_iff.mp here).1

end ChartAxes
end CanTracer
