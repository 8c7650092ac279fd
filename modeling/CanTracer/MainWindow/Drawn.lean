import Mathlib.Data.List.Forall2
import CanTracer.MainWindow.Charts

/-!
# What the charts show

The window with the series of its charts. A chart keeps the series that was drawn when it was added;
since a load of a log clears the plot list, every chart in it plots the log at hand.
-/

namespace CanTracer

theorem forall₂_eraseIdx {α β : Type} {R : α → β → Prop} {as : List α} {bs : List β} (related : List.Forall₂ R as bs) :
    ∀ k, List.Forall₂ R (as.eraseIdx k) (bs.eraseIdx k) := by
  induction related with
  | nil => exact fun _ => .nil
  | cons first rest ih =>
    intro k
    cases k with
    | zero => exact rest
    | succ k => exact .cons first (ih k)

theorem forall₂_mem_right {α β : Type} {R : α → β → Prop} {as : List α} {bs : List β} (related : List.Forall₂ R as bs) :
    ∀ b ∈ bs, ∃ a ∈ as, R a b := by
  induction related with
  | nil => exact nofun
  | cons first rest ih =>
    intro b hb
    rcases List.mem_cons.mp hb with rfl | later
    · exact ⟨_, List.mem_cons_self, first⟩
    · obtain ⟨a, ha, related⟩ := ih b later
      exact ⟨a, List.mem_cons_of_mem _ ha, related⟩

/-- The series go by the serial numbers of the charts. -/
structure DrawnWindow where
  window : MainWindow := {}
  series : Nat → List Point := fun _ => []

namespace CanSignal

/-- The values of a drawn-out graph are those of its points, or 0 without any. -/
theorem stretch_values {firstTime lastTime : ℚ} {behind : Bool} {points : List Point} {p : Point}
    (among : p ∈ stretch firstTime lastTime behind points) : (∃ q ∈ points, q.2 = p.2) ∨ points = [] ∧ p.2 = .num 0 := by
  rw [stretch, List.mem_append, List.mem_append] at among
  rcases among with (front | inner) | back
  · rw [frontPoint, Option.mem_toList, Option.map_eq_some_iff] at front
    obtain ⟨q, first, rfl⟩ := front
    exact .inl ⟨q, List.mem_of_mem_head? first, rfl⟩
  · exact .inl ⟨p, inner, rfl⟩
  · split at back
    · obtain rfl := List.mem_singleton.mp back
      cases last : points.getLast? with
      | none => exact .inr ⟨List.getLast?_eq_none_iff.mp last, by rw [lastValue, last]; rfl⟩
      | some q => exact .inl ⟨q, List.mem_of_getLast? last, by rw [lastValue, last]; rfl⟩
    · cases back

end CanSignal

/-- The value is that of the signal in a message of the log, or 0 where no message has the identifier. -/
def Decoded (log : List CanLogMsg) (item : SignalPlotItem) (y : Double) : Prop :=
  (∃ msg ∈ log, msg.id = item.msgId ∧ item.signal.parseSignal msg.data msg.dlc = .ok y) ∨
    (∀ msg ∈ log, msg.id ≠ item.msgId) ∧ y = .num 0

theorem graph_decoded {log : List CanLogMsg} {item : SignalPlotItem} {endId : UInt32} {data : List Point}
    (graph : item.signal.getSignalGraph item.msgId log (.ok endId) = .ok data) : ∀ p ∈ data, Decoded log item p.2 := by
  have nonempty := CanSignal.log_ne_nil graph
  obtain ⟨points, decoded, rfl⟩ := (CanSignal.graph_iff item.signal item.msgId nonempty endId data).mp graph
  intro p among
  rcases CanSignal.stretch_values among with ⟨q, here, same⟩ | ⟨none, zero⟩
  · obtain ⟨msg, own, point⟩ := forall₂_mem_right decoded q here
    obtain ⟨value, read, rfl⟩ := map_ok point
    have id := (List.mem_filter.mp own).2
    exact .inl ⟨msg, List.mem_of_mem_filter own, of_decide_eq_true id, by rw [read, ← same]⟩
  · rw [CanSignal.Decoded, none, List.forall₂_nil_right_iff] at decoded
    exact .inr ⟨fun msg inside own => absurd (List.filter_eq_nil_iff.mp decoded msg inside) (by simp [own]), zero⟩

theorem hover_mem {series : List Point} {x y : Double} (shown : CustomQChartView.hover series x = .ok y) :
    ∃ p ∈ series, p.2 = y := by
  obtain ⟨index, -, found⟩ := bind_ok shown
  obtain ⟨p, read, value⟩ := bind_ok found
  rcases atInt_cases series index with ⟨row, q, is, here⟩ | outside
  · rw [is, atInt_natCast, at_some here] at read
    exact ⟨p, Except.ok.inj read ▸ List.mem_of_getElem? here, Except.ok.inj value⟩
  · rw [outside] at read
    cases read

namespace DrawnWindow

section
variable (qt : Qt) (fuel : Nat) (takesNaN : Bool)

def step (s : DrawnWindow) (e : Event) : Except Failure DrawnWindow := do
  let w ← s.window.step qt fuel takesNaN e
  match e, s.window.dialog with
  | .close _ endId, some (.selectSignal d) => do
    let series ← s.window.drawn takesNaN d endId
    return { window := w, series := Function.update s.series s.window.plots.charts series }
  | _, _ => return { s with window := w }

/-- The value under the mouse over the chart of a row of the plot list. -/
def hover (s : DrawnWindow) (row : Nat) (x : Double) : Except Failure Double := do
  let chart ← s.window.plots.plotModel.getChartAt row
  CustomQChartView.hover (s.series chart.serial) x

/-! ### The charts of the list -/

/-- The chart is that of the item, and its series plots the log. -/
structure Plots (s : DrawnWindow) (item : SignalPlotItem) (chart : CustomQChartView) : Prop where
  signal : chart.signal = item.signal
  made : chart.serial < s.window.plots.charts
  draws : ∃ endId, MainWindow.Draws takesNaN s.window.log item.msgId item.signal endId (s.series chart.serial)

def Drawn (s : DrawnWindow) : Prop :=
  List.Forall₂ (Plots takesNaN s) s.window.plots.plotModel.items s.window.plots.plotModel.widgets

variable {qt fuel takesNaN}

theorem step_ok {s s' : DrawnWindow} {e : Event} (h : s.step qt fuel takesNaN e = .ok s') :
    ∃ w, s.window.step qt fuel takesNaN e = .ok w ∧ s'.window = w ∧
      (s'.series = s.series ∧ (∀ answer endId d, e = .close answer endId → s.window.dialog ≠ some (.selectSignal d)) ∨
        ∃ answer endId d series, e = .close answer endId ∧ s.window.dialog = some (.selectSignal d) ∧
          s.window.drawn takesNaN d endId = .ok series ∧
          s'.series = Function.update s.series s.window.plots.charts series) := by
  obtain ⟨w, stepped, h⟩ := bind_ok h
  refine ⟨w, stepped, ?_⟩
  split at h
  · rename_i answer endId d asked _
    obtain ⟨series, drawn, h⟩ := bind_ok h
    rw [← Except.ok.inj h]
    exact ⟨rfl, .inr ⟨answer, endId, d, series, rfl, asked, drawn, rfl⟩⟩
  · rename_i other
    rw [← Except.ok.inj h]
    refine ⟨rfl, .inl ⟨rfl, ?_⟩⟩
    rintro answer endId d rfl asked
    exact other answer endId d rfl asked

theorem step_drawn (s : DrawnWindow) (e : Event) (s' : DrawnWindow) (drawn : s.Drawn takesNaN)
    (h : s.step qt fuel takesNaN e = .ok s') : s'.Drawn takesNaN := by
  obtain ⟨w, stepped, rfl, series⟩ := step_ok h
  -- A chart made before keeps its series, and plots the log as long as that stays.
  have kept (charts : s.window.plots.charts ≤ s'.window.plots.charts) (log : s'.window.log = s.window.log)
      (item : SignalPlotItem) (chart : CustomQChartView) (plots : Plots takesNaN s item chart) :
      Plots takesNaN s' item chart := by
    obtain ⟨signal, made, draws⟩ := plots
    refine ⟨signal, Nat.lt_of_lt_of_le made charts, ?_⟩
    rw [log]
    rcases series with ⟨same, -⟩ | ⟨_, _, _, _, -, -, -, same⟩
    · rwa [same]
    · rwa [same, Function.update_of_ne (Nat.ne_of_lt made)]
  unfold Drawn at drawn ⊢
  cases MainWindow.step_replots _ e _ stepped with
  | kept model charts log =>
    rw [model]
    exact drawn.imp (kept (Nat.le_of_eq charts.symm) log)
  | removed row widget model charts log =>
    obtain ⟨-, items, widgets⟩ := SignalPlotListModel.removeItem_ok model
    rw [items, widgets]
    exact forall₂_eraseIdx (drawn.imp (kept (Nat.le_of_eq charts.symm) log)) row
  | added answer endId d event asked msgId signal points made draws plots log =>
    have own : s'.series s.window.plots.charts = points := by
      rcases series with ⟨-, none⟩ | ⟨answer', endId', d', points', event', asked', made', same⟩
      · exact absurd asked (none answer endId d event)
      · obtain ⟨-, rfl⟩ := Event.close.inj (event.symm.trans event')
        obtain rfl := Dialog.selectSignal.inj (Option.some.inj (asked.symm.trans asked'))
        rw [same, Function.update_self, Except.ok.inj (made'.symm.trans made)]
    have charts : s'.window.plots.charts = s.window.plots.charts + 1 := congrArg _ plots
    rw [plots]
    refine List.rel_append (drawn.imp (kept (by omega) log)) (.cons ⟨rfl, ?_, endId, ?_⟩ .nil)
    · rw [charts]
      exact Nat.lt_succ_self _
    · rw [log]
      exact own ▸ draws
  | cleared model =>
    rw [model]
    exact .nil

theorem Plots.decoded {s : DrawnWindow} {item : SignalPlotItem} {chart : CustomQChartView} (plots : Plots takesNaN s item chart)
    {x y : Double} (shown : CustomQChartView.hover (s.series chart.serial) x = .ok y) : Decoded s.window.log item y := by
  obtain ⟨endId, data, graph, made⟩ := plots.draws
  obtain ⟨p, among, rfl⟩ := hover_mem shown
  rw [drawSeries_eq] at made
  rw [← Except.ok.inj made] at among
  exact graph_decoded graph p ((Thinning.thin_sublist data).mem (List.mem_of_mem_filter among))

/-- Along every run the charts in the plot list plot the log at hand: they are those of its items, in
order, and a value under the mouse over one of them is that of the item's signal in a message of the log with
the item's identifier, or 0 where there is none. -/
theorem run_drawn {events : List Event} {s : DrawnWindow} (h : Machine.run (step qt fuel takesNaN) events {} = .ok s) :
    s.Drawn takesNaN ∧ ∀ row x y, s.hover row x = .ok y →
      ∃ item, s.window.plots.plotModel.items[row]? = some item ∧ Decoded s.window.log item y := by
  have drawn := Machine.run_history (I := fun _ s => s.Drawn takesNaN) .nil
    (fun _ s e s' drawn stepped => step_drawn s e s' drawn stepped) h
  refine ⟨drawn, fun row x y shown => ?_⟩
  obtain ⟨chart, read, shown⟩ := bind_ok shown
  obtain ⟨inside, rfl⟩ := List.getElem?_eq_some_iff.mp (at_ok read)
  have paired := drawn.length_eq
  refine ⟨_, List.getElem?_eq_getElem (paired ▸ inside), ?_⟩
  exact Plots.decoded (drawn.get (paired ▸ inside) inside) shown

/-- A signal is added, and over its chart stands the mouse. -/
def hovered : List Event :=
  [.user .openFile, .close (.fileNames ["a.trc".toList]) 0, .finishLog 0 fun _ => some trcFile, .notifyLog 0,
    .user .openDbcFile, .close (.fileNames ["a.dbc".toList]) 0, .finishDbc 0 fun _ => some MainWindow.oneSignal,
    .notifyDbc 0, .user (.signalPlotMenu 0), .user .addSignal, .close .accept 0]

theorem run_drawn_hovered : ∃ s, Machine.run (step plainBuild 0 true) hovered {} = .ok s ∧ s.Drawn true ∧
    ∀ row x y, s.hover row x = .ok y →
      ∃ item, s.window.plots.plotModel.items[row]? = some item ∧ Decoded s.window.log item y := by
  obtain ⟨s, ran⟩ := isOk_ok (x := Machine.run (step plainBuild 0 true) hovered {}) (by decide +kernel)
  exact ⟨s, ran, run_drawn ran⟩

end
end DrawnWindow
end CanTracer
