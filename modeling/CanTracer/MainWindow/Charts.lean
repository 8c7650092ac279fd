import CanTracer.LogParser.WellFormed
import CanTracer.MainWindow.Adding
import CanTracer.MainWindow.Views

/-!
# The charts of the plot list

Every chart in the plot list shows the settings of the axes, whenever it was added and whatever has
happened since.
-/

namespace CanTracer

theorem SignalPlotListModel.removeItem_ok {m m' : SignalPlotListModel} {row : Nat} {widget : CustomQChartView}
    (h : m.removeItem row = .ok (m', widget)) :
    row < m.items.length ∧ m'.items = m.items.eraseIdx row ∧ m'.widgets = m.widgets.eraseIdx row := by
  have erased {α : Type} {list rest : List α} (h : QList.remove list row = .ok rest) :
      row < list.length ∧ rest = list.eraseIdx row := by
    unfold QList.remove at h
    split at h
    · rename_i inside
      exact ⟨inside, (Except.ok.inj h).symm⟩
    · cases h
  obtain ⟨items, removed, h⟩ := bind_ok h
  obtain ⟨_, -, h⟩ := bind_ok h
  obtain ⟨widgets, removed', h⟩ := bind_ok h
  obtain ⟨rfl, -⟩ := Prod.mk.inj (Except.ok.inj h)
  exact ⟨(erased removed).1, (erased removed).2, (erased removed').2⟩

theorem CanSignal.log_ne_nil {signal : CanSignal} {id endId : UInt32} {log : List CanLogMsg} {data : List Point}
    (graph : signal.getSignalGraph id log (.ok endId) = .ok data) : log ≠ [] := by
  obtain ⟨first, read, -⟩ := bind_ok graph
  exact List.ne_nil_of_mem (List.mem_of_getElem? (at_ok read))

namespace MainWindow

section
variable {qt : Qt} {fuel : Nat} {takesNaN : Bool}

/-- The lines of `onAddSignal` that make the series. -/
def drawn (takesNaN : Bool) (s : MainWindow) (dialog : SignalSelectDialog) (endId : UInt32) : Except Failure (List Point) := do
  let pair := dialog.getResultIndex
  let msg ← QList.atInt s.msgDb.db pair.1
  let signal ← QList.atInt msg.canSignals pair.2
  let data ← signal.getSignalGraph msg.id s.log (.ok endId)
  drawSeries takesNaN data

/-- The series plots a signal of a message over a log. -/
def Draws (takesNaN : Bool) (log : List CanLogMsg) (msgId : UInt32) (signal : CanSignal) (endId : UInt32)
    (series : List Point) : Prop :=
  ∃ data, signal.getSignalGraph msgId log (.ok endId) = .ok data ∧ drawSeries takesNaN data = .ok series

/-- What a step does to the plot list, to the log under it and to the time it spans. -/
inductive Replots (takesNaN : Bool) (w : MainWindow) (e : Event) (w' : MainWindow) : Prop where
  | kept (model : w'.plots.plotModel = w.plots.plotModel) (charts : w'.plots.charts = w.plots.charts)
    (log : w'.log = w.log) (time : w'.time = w.time)
  | removed (row : Nat) (widget : CustomQChartView)
    (model : w.plots.plotModel.removeItem row = .ok (w'.plots.plotModel, widget))
    (charts : w'.plots.charts = w.plots.charts) (log : w'.log = w.log) (time : w'.time = w.time)
  | added (answer : Answer) (endId : UInt32) (d : SignalSelectDialog) (event : e = .close answer endId)
    (asked : w.dialog = some (.selectSignal d)) (msgId : UInt32) (signal : CanSignal) (series : List Point)
    (drawn : w.drawn takesNaN d endId = .ok series) (draws : Draws takesNaN w.log msgId signal endId series)
    (plots : w'.plots = w.plots.onAddSignal msgId signal) (log : w'.log = w.log) (time : w'.time = w.time)
  | cleared (model : w'.plots.plotModel = {}) (charts : w'.plots.charts = w.plots.charts)
    (time : w'.time = timeSpan w.time w'.log)

theorem removeSignal_ok {p p' : PlotWindow} {k : Nat} (h : p.step (.removeSignal k) = .ok p') :
    p'.charts = p.charts ∧ (p'.plotModel = p.plotModel ∨
      ∃ row widget, p.plotModel.removeItem row = .ok (p'.plotModel, widget)) := by
  rw [PlotWindow.step] at h
  split at h
  · rw [← Except.ok.inj h]
    exact ⟨rfl, .inl rfl⟩
  · rename_i menu _
    obtain ⟨⟨model, widget⟩, removed, h⟩ := bind_ok h
    rw [← Except.ok.inj h]
    exact ⟨rfl, .inr ⟨menu.row, widget, removed⟩⟩

theorem act_replots {w w' : MainWindow} {e : Event} {action : Action} (h : w.act action = .ok w') :
    Replots takesNaN w e w' := by
  have log := (act_loads h).2
  cases action with
  | openFile | openDbcFile | headerContextMenu index =>
    rw [← Except.ok.inj h]
    exact .kept rfl rfl rfl rfl
  | contextMenu row | highlight target menu =>
    obtain ⟨logs, -, h⟩ := bind_ok h
    rw [← Except.ok.inj h] at log ⊢
    exact .kept rfl rfl log rfl
  | signalPlotMenu row =>
    rw [← Except.ok.inj h, onSignalPlotMenu]
    split
    · exact .kept rfl rfl rfl rfl
    · dsimp only [PlotWindow.onSignalPlotMenu]
      split
      · exact .kept rfl rfl rfl rfl
      · split <;> exact .kept rfl rfl rfl rfl
  | addSignal =>
    rw [act] at h
    split at h
    · rw [← Except.ok.inj h]
      exact .kept rfl rfl rfl rfl
    · obtain ⟨dialog, -, h⟩ := bind_ok h
      rw [← Except.ok.inj h]
      exact .kept rfl rfl rfl rfl
  | removeSignal menu =>
    obtain ⟨plots, removed, h⟩ := bind_ok h
    rw [← Except.ok.inj h]
    obtain ⟨charts, same | ⟨row, widget, model⟩⟩ := removeSignal_ok removed
    · exact .kept same charts rfl rfl
    · exact .removed row widget model charts rfl rfl
  | setColor row color =>
    rw [← Except.ok.inj h, setColor]
    split <;> exact .kept rfl rfl rfl rfl

theorem onAddSignalClosed_draws {w w' : MainWindow} {d : SignalSelectDialog} {endId : UInt32}
    (h : w.onAddSignalClosed takesNaN d endId = .ok w') :
    ∃ msgId signal series, w.drawn takesNaN d endId = .ok series ∧ Draws takesNaN w.log msgId signal endId series ∧
      w' = { w with plots := w.plots.onAddSignal msgId signal } := by
  obtain ⟨msg, found, h⟩ := bind_ok h
  obtain ⟨signal, chosen, h⟩ := bind_ok h
  obtain ⟨data, graph, h⟩ := bind_ok h
  obtain ⟨series, made, h⟩ := bind_ok h
  refine ⟨msg.id, signal, series, ?_, ⟨data, graph, made⟩, (Except.ok.inj h).symm⟩
  rw [drawn, found, ok_bind, chosen, ok_bind, graph]
  exact made

theorem closed_replots {w w' : MainWindow} {answer : Answer} {endId : UInt32} {dialog : Dialog}
    (asked : w.dialog = some dialog) (h : closed takesNaN { w with dialog := none } answer endId dialog = .ok w') :
    Replots takesNaN w (.close answer endId) w' := by
  cases dialog with
  | openFile =>
    rw [← Except.ok.inj h, openFileClosed]
    split <;> exact .kept rfl rfl rfl rfl
  | openDbcFile =>
    rw [← Except.ok.inj h]
    exact .kept rfl rfl rfl rfl
  | filter index old =>
    rw [← Except.ok.inj h]
    cases answer <;> exact .kept rfl rfl rfl rfl
  | selectSignal d =>
    obtain ⟨msgId, signal, series, drawn, draws, rfl⟩ := onAddSignalClosed_draws h
    exact .added answer endId d rfl asked msgId signal series drawn draws rfl rfl rfl

theorem step_replots (w : MainWindow) (e : Event) (w' : MainWindow) (h : w.step qt fuel takesNaN e = .ok w') :
    Replots takesNaN w e w' := by
  cases e with
  | user action =>
    rw [step] at h
    split at h
    · rw [← Except.ok.inj h]
      exact .kept rfl rfl rfl rfl
    · exact act_replots h
  | selectMessage row =>
    rw [step] at h
    split at h
    · obtain ⟨d, -, h⟩ := bind_ok h
      rw [← Except.ok.inj h]
      exact .kept rfl rfl rfl rfl
    · rw [← Except.ok.inj h]
      exact .kept rfl rfl rfl rfl
  | selectSignal row =>
    rw [step] at h
    split at h <;> rw [← Except.ok.inj h] <;> exact .kept rfl rfl rfl rfl
  | close answer endId =>
    rw [step] at h
    split at h
    · rename_i dialog asked
      exact closed_replots asked h
    · rw [← Except.ok.inj h]
      exact .kept rfl rfl rfl rfl
  | finishLog job disk | dropLog job | finishDbc job disk =>
    rw [← Except.ok.inj h]
    exact .kept rfl rfl rfl rfl
  | notifyLog job =>
    rw [step] at h
    split at h
    · unfold onLoadLogFile at h
      split at h
      · cases h
      · cases h
      · rw [← Except.ok.inj h]
        exact .cleared rfl rfl rfl
    · rw [← Except.ok.inj h]
      exact .kept rfl rfl rfl rfl
  | notifyDbc job =>
    rw [step] at h
    split at h
    · unfold onLoadDbcFile at h
      split at h
      · cases h
      · cases h
      · rw [← Except.ok.inj h]
        exact .kept rfl rfl rfl rfl
    · rw [← Except.ok.inj h]
      exact .kept rfl rfl rfl rfl

/-- The rows of the list and their charts are in pairs. -/
def Paired (w : MainWindow) : Prop := w.plots.plotModel.items.length = w.plots.plotModel.widgets.length

theorem Replots.paired {w w' : MainWindow} {e : Event} (replots : Replots takesNaN w e w') (paired : w.Paired) : w'.Paired := by
  unfold Paired at paired ⊢
  cases replots with
  | kept model => rwa [model]
  | removed row widget model =>
    obtain ⟨-, items, widgets⟩ := SignalPlotListModel.removeItem_ok model
    rw [items, widgets, List.length_eraseIdx, List.length_eraseIdx, paired]
  | added answer endId d event asked msgId signal series _ _ plots =>
    rw [plots, PlotWindow.onAddSignal, SignalPlotListModel.addItem, List.length_append, List.length_append, paired]
    rfl
  | cleared model =>
    rw [model]
    rfl

/-- The time is that between the ends of the log, unless it is empty; then it has no charts. -/
structure Spanned (w : MainWindow) : Prop where
  time : timeSpan w.time w.log = w.time
  charts : w.plots.plotModel.widgets ≠ [] → w.log ≠ []

theorem timeSpan_timeSpan (time : ℚ) (log : List CanLogMsg) : timeSpan (timeSpan time log) log = timeSpan time log := by
  unfold timeSpan
  cases log.head? <;> cases log.getLast? <;> rfl

theorem Replots.spanned {w w' : MainWindow} {e : Event} (replots : Replots takesNaN w e w') (spanned : w.Spanned) :
    w'.Spanned := by
  cases replots with
  | kept model _ log time =>
    refine ⟨by rw [time, log, spanned.time], ?_⟩
    rw [model, log]
    exact spanned.charts
  | removed row widget model _ log time =>
    obtain ⟨-, -, widgets⟩ := SignalPlotListModel.removeItem_ok model
    refine ⟨by rw [time, log, spanned.time], ?_⟩
    rw [widgets, log]
    rintro some
    refine spanned.charts ?_
    rintro none
    exact some (by rw [none]; rfl)
  | added answer endId d event asked msgId signal series _ draws _ log time =>
    refine ⟨by rw [time, log, spanned.time], ?_⟩
    obtain ⟨data, graph, -⟩ := draws
    rw [log]
    exact fun _ => CanSignal.log_ne_nil graph
  | cleared model _ time =>
    refine ⟨by rw [time, timeSpan_timeSpan], ?_⟩
    rw [model]
    exact fun some => absurd rfl some

end
end MainWindow

namespace ViewWindow

section
variable {qt : Qt} {fuel : Nat} {takesNaN : Bool}
variable {print : Double → QString} {fixed : ℚ → QString} {contains : QString → QString → Bool}
variable {entries : CustomProxyModel → List (UInt8 × QString)}

/-! ### Runs -/

structure Charted (s : ViewWindow) : Prop where
  paired : s.window.Paired
  positive : s.axes.Positive
  fits : ∀ chart ∈ s.window.plots.plotModel.widgets, s.axes.Fits s.window.time (s.geometry chart.serial)

theorem Followed.charted {s s' : ViewWindow} {e : Event} {w : MainWindow} (charted : s.Charted)
    (stepped : s.window.step qt fuel takesNaN e = .ok w) (followed : s.Followed print fixed contains entries e w s') :
    s'.Charted := by
  have replots := MainWindow.step_replots _ e w stepped
  refine ⟨by rw [followed.window]; exact replots.paired charted.paired, by rw [followed.axes]; exact charted.positive,
    fun chart among => ?_⟩
  rw [followed.window] at among ⊢
  rw [followed.axes]
  have updated {g : ChartGeometry} (applied : s.axes.apply w.time {} = .ok g)
      (old : chart ∈ s.window.plots.plotModel.widgets ∧ w.time = s.window.time ∨ chart.serial = s.window.plots.charts) :
      s.axes.Fits w.time (Function.update s.geometry s.window.plots.charts g chart.serial) := by
    by_cases own : chart.serial = s.window.plots.charts
    · rw [own, Function.update_self]
      exact ChartAxes.apply_fits applied
    · obtain ⟨before, time⟩ := old.resolve_right own
      rw [Function.update_of_ne own, time]
      exact charted.fits chart before
  have old (before : chart ∈ s.window.plots.plotModel.widgets) (time : w.time = s.window.time) :
      s.axes.Fits w.time (s'.geometry chart.serial) := by
    rcases followed.geometry with ⟨same, -⟩ | ⟨g, applied, same⟩
    · rw [same, time]
      exact charted.fits chart before
    · rw [same]
      exact updated applied (.inl ⟨before, time⟩)
  cases replots with
  | kept model _ _ time =>
    rw [model] at among
    exact old among time
  | removed row widget model _ _ time =>
    obtain ⟨-, -, widgets⟩ := SignalPlotListModel.removeItem_ok model
    rw [widgets] at among
    exact old (List.eraseIdx_subset among) time
  | added answer endId d event asked msgId signal _ _ _ plots _ time =>
    rcases followed.geometry with ⟨-, none⟩ | ⟨g, applied, same⟩
    · exact absurd asked (none answer endId d event)
    · rw [same]
      rw [plots] at among
      refine updated applied ((List.mem_append.mp among).imp (fun old => ⟨old, time⟩) fun new => ?_)
      rw [List.mem_singleton.mp new]
  | cleared model =>
    rw [model] at among
    cases among

theorem step_charted (s : ViewWindow) (e : ViewEvent) (s' : ViewWindow) (charted : s.Charted)
    (h : s.step qt fuel takesNaN print fixed contains entries e = .ok s') : s'.Charted := by
  cases e with
  | window e =>
    rcases step_window h with rfl | ⟨e', w, -, stepped, followed⟩
    · exact charted
    · exact followed.charted charted stepped
  | viewRows => rcases viewRows_ok h with rfl | ⟨rows, -, rfl⟩ <;> exact ⟨charted.paired, charted.positive, charted.fits⟩
  | msgSelect row =>
    obtain rfl := Except.ok.inj h
    rcases s.onMsgSelect_eq row with same | ⟨-, same⟩ <;> rw [same] <;>
      exact ⟨charted.paired, charted.positive, charted.fits⟩
  | axis button =>
    rcases onAxis_ok h with rfl | ⟨axes, geometry, pressed, updated, rfl⟩
    · exact charted
    · exact ⟨charted.paired, charted.positive.press pressed, ChartAxes.updateChartAxis_fits charted.paired updated⟩

theorem step_spanned (s : ViewWindow) (e : ViewEvent) (s' : ViewWindow) (spanned : s.window.Spanned)
    (h : s.step qt fuel takesNaN print fixed contains entries e = .ok s') : s'.window.Spanned := by
  cases e with
  | window e =>
    rcases step_window h with rfl | ⟨e', w, -, stepped, followed⟩
    · exact spanned
    · rw [followed.window]
      exact (MainWindow.step_replots _ e' w stepped).spanned spanned
  | viewRows => rcases viewRows_ok h with rfl | ⟨rows, -, rfl⟩ <;> exact spanned
  | msgSelect row =>
    obtain rfl := Except.ok.inj h
    rcases s.onMsgSelect_eq row with same | ⟨-, same⟩ <;> rw [same] <;> exact spanned
  | axis button => rcases onAxis_ok h with rfl | ⟨axes, geometry, -, -, rfl⟩ <;> exact spanned

/-- Along every run the settings stay positive, and every chart in the plot list shows them. -/
theorem run_charted {events : List ViewEvent} {s : ViewWindow}
    (h : Machine.run (step qt fuel takesNaN print fixed contains entries) events {} = .ok s) : s.Charted :=
  Machine.run_history (I := fun _ s => s.Charted) ⟨rfl, .initial, nofun⟩
    (fun _ s e s' charted stepped => step_charted s e s' charted stepped) h

/-- Along every run each chart in the plot list is laid out for the time between the ends of the log at hand. -/
theorem run_spans {events : List ViewEvent} {s : ViewWindow}
    (h : Machine.run (step qt fuel takesNaN print fixed contains entries) events {} = .ok s) :
    ∀ chart ∈ s.window.plots.plotModel.widgets, ∃ first last, s.window.log.head? = some first ∧
      s.window.log.getLast? = some last ∧ s.axes.Fits |first.time - last.time| (s.geometry chart.serial) := by
  have inv := Machine.run_history (I := fun _ s => s.Charted ∧ s.window.Spanned) ⟨⟨rfl, .initial, nofun⟩, rfl, nofun⟩
    (fun _ s e s' inv stepped => ⟨step_charted s e s' inv.1 stepped, step_spanned s e s' inv.2 stepped⟩) h
  intro chart among
  have fits := inv.1.fits chart among
  have some := inv.2.charts (List.ne_nil_of_mem among)
  refine ⟨_, _, List.head?_eq_some_head some, List.getLast?_eq_some_getLast some, ?_⟩
  rw [← inv.2.time, MainWindow.timeSpan, List.head?_eq_some_head some, List.getLast?_eq_some_getLast some] at fits
  exact fits

/-- A signal is added over a log of one message, then the charts are widened. -/
def widened : List ViewEvent :=
  [.window (.user .openFile), .window (.close (.fileNames ["a.trc".toList]) 0),
    .window (.finishLog 0 fun _ => some trcFile), .window (.notifyLog 0),
    .window (.user .openDbcFile), .window (.close (.fileNames ["a.dbc".toList]) 0),
    .window (.finishDbc 0 fun _ => some MainWindow.oneSignal), .window (.notifyDbc 0),
    .window (.user (.signalPlotMenu 0)), .window (.user .addSignal), .window (.close .accept 0), .axis .zoomInX]

theorem widened_runs :
    ∃ s, Machine.run (step plainBuild 0 true (fun _ => []) (fun _ => []) (fun _ _ => true) fun _ => []) widened {} = .ok s :=
  isOk_ok (by decide +kernel)

theorem run_charted_widened :
    ∃ s, Machine.run (step plainBuild 0 true (fun _ => []) (fun _ => []) (fun _ _ => true) fun _ => []) widened {} = .ok s ∧
      s.Charted := by
  obtain ⟨s, ran⟩ := widened_runs
  exact ⟨s, ran, run_charted ran⟩

theorem run_spans_widened :
    ∃ s, Machine.run (step plainBuild 0 true (fun _ => []) (fun _ => []) (fun _ _ => true) fun _ => []) widened {} = .ok s ∧
      ∀ chart ∈ s.window.plots.plotModel.widgets, ∃ first last, s.window.log.head? = some first ∧
        s.window.log.getLast? = some last ∧ s.axes.Fits |first.time - last.time| (s.geometry chart.serial) := by
  obtain ⟨s, ran⟩ := widened_runs
  exact ⟨s, ran, run_spans ran⟩

example : (Machine.run (step plainBuild 0 true (fun _ => []) (fun _ => []) (fun _ _ => true) fun _ => []) widened {}).map
    (fun s => s.window.plots.plotModel.widgets.map fun chart => (s.geometry chart.serial).minimumHeight) = .ok [150] := by
  decide +kernel

end
end ViewWindow
end CanTracer
