import CanTracer.Labels
import CanTracer.MainWindow.Drawn
import CanTracer.MainWindow.Sources

/-!
# What the window says

The status line and the lines with the paths. They are set by the slots that open files, by the one that
takes over a log, and by the mouse over a chart.
-/

namespace CanTracer

structure StatusWindow where
  drawn : DrawnWindow := {}
  statusbar : QString := []
  lineLogPath : QString := []
  lineDbcPath : QString := []

/-- `mouse` is a move of the mouse over the chart of a row of the plot list, at `x` on its time axis. -/
inductive StatusEvent where
  | window (e : Event)
  | mouse (row : Nat) (x : Double)

def StatusEvent.event : StatusEvent → Option Event
  | .window e => some e
  | .mouse _ _ => none

namespace StatusWindow

abbrev window (s : StatusWindow) : MainWindow := s.drawn.window

def loadingText : QString := "Loading...".toList

/-- The paths of DBC files, each followed by a semicolon. -/
def pathsText (fileNames : List QString) : QString := fileNames.flatMap (· ++ [';'])

section
variable (qt : Qt) (fuel : Nat) (takesNaN : Bool) (print : Double → QString)

/-- What the slots of a step to `d` write. -/
def follow (s : StatusWindow) (e : Event) (d : DrawnWindow) : StatusWindow :=
  let next := { s with drawn := d }
  match e, s.window.dialog with
  | .close answer _, some .openFile =>
    let fileName := answer.names.headD []
    if fileName = [] then next else { next with lineLogPath := fileName, statusbar := loadingText }
  | .close answer _, some .openDbcFile => { next with lineDbcPath := pathsText answer.names }
  | .notifyLog job, _ => if s.window.logLoads.pending job then { next with statusbar := [] } else next
  | _, _ => next

/-- `mouseMoveEvent` and `onPointNotify`; a dialog keeps the mouse from the charts. -/
def onMouse (s : StatusWindow) (row : Nat) (x : Double) : Except Failure StatusWindow :=
  match s.window.dialog, s.window.plots.plotModel.widgets[row]? with
  | none, some chart => do
    let y ← s.drawn.hover row x
    return { s with statusbar := CustomQChartView.label print chart.signal chart.signal.name x y }
  | _, _ => .ok s

def step (s : StatusWindow) : StatusEvent → Except Failure StatusWindow
  | .window e => do
    let d ← s.drawn.step qt fuel takesNaN e
    return s.follow e d
  | .mouse row x => s.onMouse print row x

/-! ### What should be said -/

/-- The marks of the loads: whether their ends have been noticed. -/
def marks (w : MainWindow) : List Bool := w.logLoads.jobs.map (·.notified)

/-- The events of the window among them. -/
abbrev windowEvents (events : List StatusEvent) : List Event := events.filterMap StatusEvent.event

/-- A move of the mouse in that row reaches the chart of the item. -/
def Over (s : StatusWindow) (row : Nat) (item : SignalPlotItem) : Prop :=
  s.window.dialog = none ∧ s.window.plots.plotModel.items[row]? = some item

/-- The status line shows what the mouse pointed at: after the events `past`, in the state `t`, it was moved to `x`
over the chart that the plot list had for the item. It has not been over a chart since, and the log is the same. -/
structure Pointed (events : List StatusEvent) (s : StatusWindow) (past : List StatusEvent) (t : StatusWindow) (row : Nat)
    (x : Double) (item : SignalPlotItem) (y : Double) : Prop where
  ran : Machine.run (step qt fuel takesNaN print) past {} = .ok t
  moved : past ++ [.mouse row x] <+: events
  last : ∀ later row' x' u, past ++ .mouse row x :: later ++ [.mouse row' x'] <+: events →
    Machine.run (step qt fuel takesNaN print) (past ++ .mouse row x :: later) {} = .ok u → ∀ item', ¬u.Over row' item'
  hit : t.Over row item
  hover : t.drawn.hover row x = .ok y
  log : s.window.log = t.window.log
  decoded : Decoded s.window.log item y
  label : s.statusbar = CustomQChartView.label print item.signal item.signal.name x y

/-- The path lines name the files opened last, and once the end of the last load has been noticed the log is
the parse of the file named. The status line speaks of a load that has not been noticed yet, or shows what the
mouse pointed at. -/
structure Tells (events : List StatusEvent) (s : StatusWindow) : Prop where
  logPath : s.lineLogPath = (s.window.logLoads.inputs.getLast?).getD []
  dbcPath : s.lineDbcPath = pathsText ((s.window.dbcLoads.inputs.getLast?).getD [])
  loaded : (marks s.window).getLast? = some true →
    MainWindow.LogCame qt fuel (windowEvents events) s.window.logLoads.current s.lineLogPath (.ok s.window.log)
  statusbar : s.statusbar = [] ∨ s.statusbar = loadingText ∧ (marks s.window).getLast? = some false ∨
    ∃ past t row x item y, Pointed qt fuel takesNaN print events s past t row x item y

structure TellsInv (events : List StatusEvent) (s : StatusWindow) : Prop where
  tells : Tells qt fuel takesNaN print events s
  ran : Machine.run (step qt fuel takesNaN print) events {} = .ok s
  drawn : s.drawn.Drawn takesNaN
  log : MainWindow.LogInv qt fuel (windowEvents events) s.window
  newest : s.window.logLoads.Newest

end

section
variable {qt : Qt} {fuel : Nat} {takesNaN : Bool} {print : Double → QString}

/-! ### Steps that write nothing -/

/-- The step opens no files and takes over no log. -/
structure Still (w w' : MainWindow) : Prop where
  inputs : w'.logLoads.inputs = w.logLoads.inputs
  marks : marks w' = marks w
  current : w'.logLoads.current = w.logLoads.current
  log : w'.log = w.log
  dbcInputs : w'.dbcLoads.inputs = w.dbcLoads.inputs

/-- What becomes of the loads of logs when none is opened or taken over. -/
theorem step_loads_still {w w' : MainWindow} {e : Event} (h : w.step qt fuel takesNaN e = .ok w')
    (unopened : ∀ answer endId, e = .close answer endId → w.dialog ≠ some .openFile)
    (unloaded : ∀ job, e = .notifyLog job → w.logLoads.pending job = false) :
    w'.log = w.log ∧ (w'.logLoads = w.logLoads ∨ (∃ job work, w'.logLoads = w.logLoads.finish job work) ∨
      ∃ job, w'.logLoads = w.logLoads.drop job) := by
  cases e with
  | user action =>
    rw [MainWindow.step] at h
    split at h
    · rw [← Except.ok.inj h]
      exact ⟨rfl, .inl rfl⟩
    · obtain ⟨loads, log⟩ := MainWindow.act_loads h
      exact ⟨log, .inl loads⟩
  | selectMessage row =>
    rw [MainWindow.step] at h
    split at h
    · obtain ⟨d, -, h⟩ := bind_ok h
      rw [← Except.ok.inj h]
      exact ⟨rfl, .inl rfl⟩
    · rw [← Except.ok.inj h]
      exact ⟨rfl, .inl rfl⟩
  | selectSignal row =>
    rw [MainWindow.step] at h
    split at h <;> rw [← Except.ok.inj h] <;> exact ⟨rfl, .inl rfl⟩
  | close answer endId =>
    rw [MainWindow.step] at h
    split at h
    · rename_i dialog asked
      cases dialog with
      | openFile => exact absurd asked (unopened answer endId rfl)
      | openDbcFile =>
        rw [← Except.ok.inj h]
        exact ⟨rfl, .inl rfl⟩
      | filter index old =>
        rw [← Except.ok.inj h]
        cases answer <;> exact ⟨rfl, .inl rfl⟩
      | selectSignal d =>
        obtain ⟨msgId, signal, rfl⟩ := MainWindow.onAddSignalClosed_ok h
        exact ⟨rfl, .inl rfl⟩
    · rw [← Except.ok.inj h]
      exact ⟨rfl, .inl rfl⟩
  | finishLog job disk =>
    rw [← Except.ok.inj h]
    exact ⟨rfl, .inr (.inl ⟨job, _, rfl⟩)⟩
  | dropLog job =>
    rw [← Except.ok.inj h]
    exact ⟨rfl, .inr (.inr ⟨job, rfl⟩)⟩
  | notifyLog job =>
    rw [MainWindow.step, unloaded job rfl] at h
    rw [← Except.ok.inj h]
    exact ⟨rfl, .inl rfl⟩
  | finishDbc job disk =>
    rw [← Except.ok.inj h]
    exact ⟨rfl, .inl rfl⟩
  | notifyDbc job =>
    rw [MainWindow.step] at h
    split at h
    · unfold MainWindow.onLoadDbcFile at h
      split at h
      · cases h
      · cases h
      · rw [← Except.ok.inj h]
        exact ⟨rfl, .inl rfl⟩
    · rw [← Except.ok.inj h]
      exact ⟨rfl, .inl rfl⟩

theorem step_still {w w' : MainWindow} {e : Event} (h : w.step qt fuel takesNaN e = .ok w')
    (unopened : ∀ answer endId, e = .close answer endId → w.dialog ≠ some .openFile ∧ w.dialog ≠ some .openDbcFile)
    (unloaded : ∀ job, e = .notifyLog job → w.logLoads.pending job = false) : Still w w' := by
  have dbcInputs : w'.dbcLoads.inputs = w.dbcLoads.inputs := by
    cases MainWindow.step_effect w e w' h with
    | kept _ _ loads | colored _ _ _ _ _ _ _ loads | filtered _ _ _ _ _ _ _ _ loads | loadedLog _ _ _ _ loads => rw [loads]
    | openedDbc answer endId event asked => exact absurd asked (unopened answer endId event).2
    | finishedDbc _ _ _ _ _ loads => rw [loads, Futures.inputs_finish]
    | loadedDbc _ _ _ _ _ loads => rw [loads, Futures.inputs_notify]
  obtain ⟨log, same | ⟨job, work, same⟩ | ⟨job, same⟩⟩ :=
    step_loads_still h (fun answer endId event => (unopened answer endId event).1) unloaded
  · exact ⟨by rw [same], by rw [marks, same, marks], by rw [same], log, dbcInputs⟩
  · refine ⟨by rw [same, Futures.inputs_finish], ?_, by rw [same]; rfl, log, dbcInputs⟩
    rw [marks, same]
    exact Futures.map_modify _ _ fun job => Futures.complete_notified job work
  · refine ⟨by rw [same, Futures.inputs_drop], ?_, by rw [same]; rfl, log, dbcInputs⟩
    rw [marks, same]
    refine Futures.map_modify _ _ fun job => ?_
    split <;> rfl

/-! ### Moves of the mouse -/

theorem onMouse_ok {s s' : StatusWindow} {row : Nat} {x : Double} (drawn : s.drawn.Drawn takesNaN)
    (h : s.onMouse print row x = .ok s') :
    (s' = s ∧ ∀ item, ¬s.Over row item) ∨
      ∃ item y, s.Over row item ∧ s.drawn.hover row x = .ok y ∧ Decoded s.window.log item y ∧
        s' = { s with statusbar := CustomQChartView.label print item.signal item.signal.name x y } := by
  rw [onMouse] at h
  split at h
  · rename_i chart free here
    obtain ⟨y, shown, h⟩ := bind_ok h
    obtain ⟨chart', read, value⟩ := bind_ok shown
    obtain rfl := Option.some.inj (here.symm.trans (at_ok read))
    obtain ⟨inside, rfl⟩ := List.getElem?_eq_some_iff.mp here
    have among := drawn.length_eq ▸ inside
    have plots := drawn.get among inside
    refine .inr ⟨_, y, ⟨free, List.getElem?_eq_getElem among⟩, shown, plots.decoded value, ?_⟩
    rw [← Except.ok.inj h]
    exact congrArg (fun signal => { s with statusbar := CustomQChartView.label print signal signal.name x y }) plots.signal
  · rename_i none
    refine .inl ⟨(Except.ok.inj h).symm, fun item hit => ?_⟩
    obtain ⟨inside, -⟩ := List.getElem?_eq_some_iff.mp hit.2
    exact none _ hit.1 (List.getElem?_eq_getElem (drawn.length_eq ▸ inside))

/-- A step after which the status line and the log are the same, and in which the mouse was over no chart. -/
theorem Pointed.kept {events past : List StatusEvent} {s s' t : StatusWindow} {row : Nat} {x y : Double}
    {item : SignalPlotItem} (pointed : Pointed qt fuel takesNaN print events s past t row x item y)
    (ran : Machine.run (step qt fuel takesNaN print) events {} = .ok s) {e : StatusEvent}
    (missed : ∀ row' x', e = .mouse row' x' → ∀ item', ¬s.Over row' item') (log : s'.window.log = s.window.log)
    (statusbar : s'.statusbar = s.statusbar) : Pointed qt fuel takesNaN print (events ++ [e]) s' past t row x item y where
  ran := pointed.ran
  moved := pointed.moved.trans (List.prefix_append _ _)
  last later row' x' u among ran' := by
    rcases List.prefix_concat_iff.mp among with same | before
    · obtain ⟨rfl, own⟩ := List.append_inj' same rfl
      obtain rfl := Except.ok.inj (ran.symm.trans ran')
      exact missed row' x' (List.singleton_inj.mp own).symm
    · exact pointed.last later row' x' u before ran'
  hit := pointed.hit
  hover := pointed.hover
  log := log.trans pointed.log
  decoded := log ▸ pointed.decoded
  label := statusbar.trans pointed.label

/-- The mouse is moved over a chart. -/
theorem Pointed.now {events : List StatusEvent} {s s' : StatusWindow}
    (ran : Machine.run (step qt fuel takesNaN print) events {} = .ok s) {row : Nat} {x y : Double} {item : SignalPlotItem}
    (hit : s.Over row item) (hover : s.drawn.hover row x = .ok y) (decoded : Decoded s.window.log item y)
    (log : s'.window.log = s.window.log)
    (label : s'.statusbar = CustomQChartView.label print item.signal item.signal.name x y) :
    Pointed qt fuel takesNaN print (events ++ [.mouse row x]) s' events s row x item y where
  ran := ran
  moved := List.prefix_rfl
  last later row' x' u among _ := by
    have short := among.length_le
    simp only [List.length_append, List.length_cons, List.length_nil] at short
    omega
  hit := hit
  hover := hover
  log := log
  decoded := log ▸ decoded
  label := label

/-! ### What the steps keep -/

theorem windowEvents_window (events : List StatusEvent) (e : Event) :
    windowEvents (events ++ [.window e]) = windowEvents events ++ [e] := List.filterMap_append

theorem windowEvents_mouse (events : List StatusEvent) (row : Nat) (x : Double) :
    windowEvents (events ++ [.mouse row x]) = windowEvents events := by
  rw [windowEvents, List.filterMap_append]
  exact List.append_nil _

/-- A step that leaves the status line, the marks and the log as they are, with the mouse over no chart. -/
theorem TellsInv.statusbar {events : List StatusEvent} {s s' : StatusWindow} (inv : TellsInv qt fuel takesNaN print events s)
    {e : StatusEvent} (missed : ∀ row' x', e = .mouse row' x' → ∀ item', ¬s.Over row' item')
    (sameMarks : marks s'.window = marks s.window) (log : s'.window.log = s.window.log)
    (same : s'.statusbar = s.statusbar) :
    s'.statusbar = [] ∨ s'.statusbar = loadingText ∧ (marks s'.window).getLast? = some false ∨
      ∃ past t row x item y, Pointed qt fuel takesNaN print (events ++ [e]) s' past t row x item y := by
  rw [sameMarks, same]
  refine inv.tells.statusbar.imp_right (Or.imp_right ?_)
  rintro ⟨past, t, row, x, item, y, pointed⟩
  exact ⟨past, t, row, x, item, y, pointed.kept inv.ran missed log same⟩

theorem Tells.still {events : List StatusEvent} {s t : StatusWindow} (inv : TellsInv qt fuel takesNaN print events s)
    (still : Still s.window t.window) (e : Event) (logPath : t.lineLogPath = s.lineLogPath)
    (dbcPath : t.lineDbcPath = s.lineDbcPath) (statusbar : t.statusbar = s.statusbar ∨ t.statusbar = []) :
    Tells qt fuel takesNaN print (events ++ [.window e]) t := by
  refine ⟨?_, ?_, fun noticed => ?_, ?_⟩
  · rw [logPath, still.inputs, inv.tells.logPath]
  · rw [dbcPath, still.dbcInputs, inv.tells.dbcPath]
  · rw [still.marks] at noticed
    rw [still.current, still.log, logPath, windowEvents_window]
    exact (inv.tells.loaded noticed).mono e
  · rcases statusbar with same | none
    · exact inv.statusbar (by simp) still.marks still.log same
    · exact .inl none

/-- A log is opened. -/
theorem Tells.opened {events : List StatusEvent} {s t : StatusWindow} (tells : Tells qt fuel takesNaN print events s)
    (more : List StatusEvent) {fileName : QString} (loads : t.window.logLoads = s.window.logLoads.cancel.start fileName)
    (dbcLoads : t.window.dbcLoads = s.window.dbcLoads) (logPath : t.lineLogPath = fileName)
    (dbcPath : t.lineDbcPath = s.lineDbcPath) (statusbar : t.statusbar = loadingText) :
    Tells qt fuel takesNaN print (events ++ more) t := by
  have unnoticed : (marks t.window).getLast? = some false := by
    rw [marks, loads, Futures.start, List.map_append]
    exact List.getLast?_concat
  refine ⟨?_, by rw [dbcPath, dbcLoads, tells.dbcPath], fun noticed => ?_, .inr (.inl ⟨statusbar, unnoticed⟩)⟩
  · rw [logPath, loads, Futures.inputs_start, List.getLast?_concat]
    rfl
  · rw [unnoticed] at noticed
    cases noticed

/-- DBC files are opened. -/
theorem Tells.openedDbc {events : List StatusEvent} {s t : StatusWindow} (inv : TellsInv qt fuel takesNaN print events s)
    (e : Event) {fileNames : List QString} (dbcLoads : t.window.dbcLoads = s.window.dbcLoads.start fileNames)
    (loads : t.window.logLoads = s.window.logLoads) (log : t.window.log = s.window.log)
    (logPath : t.lineLogPath = s.lineLogPath) (dbcPath : t.lineDbcPath = pathsText fileNames)
    (statusbar : t.statusbar = s.statusbar) : Tells qt fuel takesNaN print (events ++ [.window e]) t := by
  have sameMarks : marks t.window = marks s.window := by rw [marks, loads, marks]
  refine ⟨by rw [logPath, loads, inv.tells.logPath], ?_, fun noticed => ?_, inv.statusbar (by simp) sameMarks log statusbar⟩
  · rw [dbcPath, dbcLoads, Futures.inputs_start, List.getLast?_concat]
    rfl
  · rw [sameMarks] at noticed
    rw [loads, log, logPath, windowEvents_window]
    exact (inv.tells.loaded noticed).mono e

/-- A log is taken over: it is that of the file named, which is the input of the last load. -/
theorem Tells.taken {events : List StatusEvent} {s t : StatusWindow} (inv : TellsInv qt fuel takesNaN print events s)
    (e : Event) {job : Nat} (loads : t.window.logLoads = s.window.logLoads.notify job)
    (log : s.window.logLoads.result = some (.ok t.window.log)) (dbcLoads : t.window.dbcLoads = s.window.dbcLoads)
    (logPath : t.lineLogPath = s.lineLogPath) (dbcPath : t.lineDbcPath = s.lineDbcPath) (statusbar : t.statusbar = []) :
    Tells qt fuel takesNaN print (events ++ [.window e]) t := by
  obtain ⟨fileName, here, came⟩ := inv.log.outcomes.result log
  have current := inv.newest.last here
  have last : s.window.logLoads.inputs.getLast? = some fileName := by
    rw [List.getLast?_eq_getElem?, Futures.inputs, List.length_map, ← current]
    exact here
  refine ⟨?_, by rw [dbcPath, dbcLoads, inv.tells.dbcPath], fun _ => ?_, .inl statusbar⟩
  · rw [logPath, loads, Futures.inputs_notify, inv.tells.logPath]
  · rw [logPath, inv.tells.logPath, last, loads, windowEvents_window]
    exact came.mono e

theorem notifyLog_ok {w w' : MainWindow} {job : Nat} (pending : w.logLoads.pending job = true)
    (h : w.step qt fuel takesNaN (.notifyLog job) = .ok w') :
    w'.logLoads = w.logLoads.notify job ∧ w.logLoads.result = some (.ok w'.log) ∧ w'.dbcLoads = w.dbcLoads := by
  rw [MainWindow.step, if_pos pending] at h
  unfold MainWindow.onLoadLogFile at h
  split at h
  · cases h
  · cases h
  · rename_i log result
    rw [← Except.ok.inj h]
    exact ⟨rfl, (w.logLoads.result_notify job).symm.trans result, rfl⟩

theorem drawn_window {d d' : DrawnWindow} {e : Event} (h : d.step qt fuel takesNaN e = .ok d') :
    d.window.step qt fuel takesNaN e = .ok d'.window := by
  obtain ⟨w, stepped, rfl, -⟩ := DrawnWindow.step_ok h
  exact stepped

theorem follow_tells {events : List StatusEvent} {s : StatusWindow} {e : Event} {d : DrawnWindow}
    (inv : TellsInv qt fuel takesNaN print events s) (h : s.drawn.step qt fuel takesNaN e = .ok d) :
    Tells qt fuel takesNaN print (events ++ [.window e]) (s.follow e d) ∧ d.window.logLoads.Newest := by
  have stepped := drawn_window h
  have kept (still : Still s.window d.window) : d.window.logLoads.Newest := inv.newest.kept still.inputs still.current
  unfold follow
  dsimp only
  split
  · rename_i answer endId asked
    have asked : s.drawn.window.dialog = some .openFile := asked
    rw [MainWindow.step, asked] at stepped
    have closed := Except.ok.inj stepped
    rw [MainWindow.openFileClosed] at closed
    split at closed
    · rename_i empty
      have still : Still s.window d.window := by
        rw [← closed]
        exact ⟨rfl, rfl, rfl, rfl, rfl⟩
      rw [if_pos empty]
      exact ⟨Tells.still (t := { s with drawn := d }) inv still _ rfl rfl (.inl rfl), kept still⟩
    · rename_i named
      have loads : d.window.logLoads = s.window.logLoads.cancel.start (answer.names.headD []) :=
        (congrArg MainWindow.logLoads closed).symm
      rw [if_neg named]
      refine ⟨inv.tells.opened (t := { s with
        drawn := d, lineLogPath := answer.names.headD [], statusbar := loadingText }) [_] loads ?_ rfl rfl rfl, ?_⟩
      · exact (congrArg MainWindow.dbcLoads closed).symm
      · rw [loads]
        exact .start _ _
  · rename_i answer endId asked
    have asked : s.drawn.window.dialog = some .openDbcFile := asked
    rw [MainWindow.step, asked] at stepped
    have closed := Except.ok.inj stepped
    have loads : d.window.logLoads = s.window.logLoads := (congrArg MainWindow.logLoads closed).symm
    refine ⟨Tells.openedDbc (t := { s with drawn := d, lineDbcPath := pathsText answer.names }) inv _
      (congrArg MainWindow.dbcLoads closed).symm loads (congrArg MainWindow.log closed).symm rfl rfl rfl, ?_⟩
    rw [loads]
    exact inv.newest
  · rename_i job _
    split
    · rename_i pending
      obtain ⟨loads, log, dbcLoads⟩ := notifyLog_ok pending stepped
      refine ⟨Tells.taken (t := { s with drawn := d, statusbar := [] }) inv _ loads log dbcLoads rfl rfl rfl, ?_⟩
      rw [loads]
      exact inv.newest.kept (Futures.inputs_notify _ _) rfl
    · rename_i idle
      have still : Still s.window d.window := by
        refine step_still stepped (fun answer endId is => ?_) fun other is => ?_
        · cases is
        · cases is
          exact Bool.of_not_eq_true idle
      exact ⟨Tells.still (t := { s with drawn := d }) inv still _ rfl rfl (.inl rfl), kept still⟩
  · rename_i noLoad noFile noDbc
    have still : Still s.window d.window := by
      refine step_still stepped (fun answer endId event => ⟨fun asked => ?_, fun asked => ?_⟩) fun job event => ?_
      · exact noFile answer endId event asked
      · exact noDbc answer endId event asked
      · exact (noLoad job event).elim
    exact ⟨Tells.still (t := { s with drawn := d }) inv still _ rfl rfl (.inl rfl), kept still⟩

theorem step_tells (events : List StatusEvent) (s : StatusWindow) (e : StatusEvent) (s' : StatusWindow)
    (inv : TellsInv qt fuel takesNaN print events s) (h : s.step qt fuel takesNaN print e = .ok s') :
    TellsInv qt fuel takesNaN print (events ++ [e]) s' := by
  have ran := (Machine.run_concat inv.ran).trans h
  cases e with
  | window e =>
    obtain ⟨d, stepped, h⟩ := bind_ok h
    obtain rfl := Except.ok.inj h
    obtain ⟨tells, newest⟩ := follow_tells inv stepped
    have same : (s.follow e d).drawn = d := by
      unfold follow
      dsimp only
      split
      · split <;> rfl
      · rfl
      · split <;> rfl
      · rfl
    refine ⟨tells, ran, ?_, ?_, ?_⟩
    · rw [same]
      exact DrawnWindow.step_drawn _ e _ inv.drawn stepped
    · rw [window, same, windowEvents_window]
      exact MainWindow.step_logInv _ _ e _ inv.log (drawn_window stepped)
    · rw [window, same]
      exact newest
  | mouse row x =>
    rcases onMouse_ok inv.drawn h with ⟨rfl, missed⟩ | ⟨item, y, hit, hover, decoded, rfl⟩
    · refine ⟨⟨inv.tells.logPath, inv.tells.dbcPath, ?_, inv.statusbar ?_ rfl rfl rfl⟩, ran, inv.drawn, ?_, inv.newest⟩
      · rw [windowEvents_mouse]
        exact inv.tells.loaded
      · rintro _ _ ⟨⟩
        exact missed
      · rw [windowEvents_mouse]
        exact inv.log
    · refine ⟨⟨inv.tells.logPath, inv.tells.dbcPath, ?_, .inr (.inr ⟨events, s, row, x, item, y, ?_⟩)⟩, ran, inv.drawn, ?_,
        inv.newest⟩
      · rw [windowEvents_mouse]
        exact inv.tells.loaded
      · exact .now inv.ran hit hover decoded rfl rfl
      · rw [windowEvents_mouse]
        exact inv.log

/-- Along every run the window says what is so. -/
theorem run_tells {events : List StatusEvent} {s : StatusWindow}
    (h : Machine.run (step qt fuel takesNaN print) events {} = .ok s) : Tells qt fuel takesNaN print events s := by
  have start : TellsInv qt fuel takesNaN print [] {} :=
    ⟨⟨rfl, rfl, nofun, .inl rfl⟩, rfl, .nil, ⟨nofun, .inl rfl⟩, .inl rfl⟩
  exact (Machine.run_history start step_tells h).tells

/-- Two messages of the signal. -/
def twice : File where
  bytes := []
  text := "  1)  1000.0  Rx  0001  1  05 \n  2)  2000.0  Rx  0001  1  03 \n".toList

/-- The signal is added and the mouse moved between the messages; then another log is to be opened. -/
def pointed : List StatusEvent :=
  [.window (.user .openFile), .window (.close (.fileNames ["a.trc".toList]) 0),
    .window (.finishLog 0 fun _ => some twice), .window (.notifyLog 0),
    .window (.user .openDbcFile), .window (.close (.fileNames ["a.dbc".toList]) 0),
    .window (.finishDbc 0 fun _ => some MainWindow.oneSignal), .window (.notifyDbc 0),
    .window (.user (.signalPlotMenu 0)), .window (.user .addSignal), .window (.close .accept 0),
    .mouse 0 (.num (3 / 2)), .window (.user .openFile)]

theorem run_tells_pointed :
    ∃ s, Machine.run (step plainBuild 0 true MainWindow.threeText) pointed {} = .ok s ∧ s.statusbar = "C: , 3".toList ∧
      Tells plainBuild 0 true MainWindow.threeText pointed s := by
  have shows : (Machine.run (step plainBuild 0 true MainWindow.threeText) pointed {}).map (·.statusbar) =
      .ok "C: , 3".toList := by decide +kernel
  obtain ⟨s, ran, shown⟩ := map_ok shows
  exact ⟨s, ran, shown, run_tells ran⟩

end
end StatusWindow
end CanTracer
