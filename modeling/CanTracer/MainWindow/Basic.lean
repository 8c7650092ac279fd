import CanTracer.Dbc.Basic
import CanTracer.Futures
import CanTracer.MainWindow.Highlights
import CanTracer.MainWindow.Plots
import CanTracer.MainWindow.Series
import CanTracer.LogParser.Basic
import CanTracer.CanMsg.Graph
import CanTracer.SignalSelectDialog

/-!
# The window

`MainWindow` with its two background parses and its dialogs. The event loop of a dialog blocks the
window but not the ends of the parses, so a slot that runs a dialog is in two parts: one that opens
it and one for what follows when it is closed.
-/

namespace CanTracer

/-- The patterns of the filters, `none` where there is no filter. -/
structure CustomProxyModel where
  regex : UInt8 → Option QString := fun _ => none

namespace CustomProxyModel

def getFilterText (m : CustomProxyModel) (column : UInt8) : QString := (m.regex column).getD []

def setFilter (m : CustomProxyModel) (column : UInt8) (expression : QString) : CustomProxyModel :=
  ⟨Function.update m.regex column (if expression = [] then none else some expression)⟩

end CustomProxyModel

/-! ### State -/

inductive Dialog where
  | openFile
  | openDbcFile
  | filter (index : UInt8) (text : QString)
  | selectSignal (dialog : SignalSelectDialog)

/-- How a dialog is closed. -/
inductive Answer where
  | cancel
  | fileNames (names : List QString)
  | text (text : QString)
  | accept
  deriving DecidableEq

/-- What a file dialog returns. -/
def Answer.names : Answer → List QString
  | .fileNames names => names
  | _ => []

/-- `addActions` counts the plot menus whose add action can be triggered. -/
structure MainWindow where
  msgDb : CanDb := {}
  logs : LogWindow := {}
  proxyModel : CustomProxyModel := {}
  plots : PlotWindow := {}
  addActions : Nat := 0
  time : ℚ := 0
  logLoads : Futures QString Failure (List CanLogMsg) := {}
  dbcLoads : Futures (List QString) Failure CanDb := {}
  dialog : Option Dialog := none

/-- What the user can do while no dialog is open. -/
inductive Action where
  | openFile
  | openDbcFile
  | contextMenu (row : Nat)
  | highlight (target : Target) (menu : Nat)
  | headerContextMenu (index : UInt8)
  | signalPlotMenu (row : Nat)
  | addSignal
  | removeSignal (menu : Nat)
  | setColor (row : Nat) (color : QColor)

/-- What can happen. `disk` is what the files hold when a parse ends, `endId` what lies behind the log
when a signal is added. -/
inductive Event where
  | user (action : Action)
  | selectMessage (row : Nat)
  | selectSignal (row : Nat)
  | close (answer : Answer) (endId : UInt32)
  | finishLog (job : Nat) (disk : QString → Option File)
  | dropLog (job : Nat)
  | notifyLog (job : Nat)
  | finishDbc (job : Nat) (disk : QString → Option File)
  | notifyDbc (job : Nat)

section
variable (qt : Qt) (fuel : Nat) (takesNaN : Bool)

/-- What the parse of a log comes to; an exception is one of its outcomes. One that runs into undefined
behavior is taken as one that never ends. -/
def parseLog (disk : QString → Option File) (fileName : QString) : Option (Except Failure (List CanLogMsg)) :=
  match Parser.parse qt fuel fileName (disk fileName) with
  | some (.error (.undefined _)) => none
  | outcome => outcome

def parseDbc (disk : QString → Option File) (fileNames : List QString) : Option (Except Failure CanDb) :=
  some (.ok (Dbc.parse qt (fileNames.map fun name => (disk name).map (·.text))))

namespace MainWindow

def log (s : MainWindow) : List CanLogMsg := s.logs.model.buffer

/-! ### Slots -/

def openFileClosed (s : MainWindow) (fileName : QString) : MainWindow :=
  if fileName = [] then s else { s with logLoads := s.logLoads.cancel.start fileName }

def openDbcFileClosed (s : MainWindow) (fileNames : List QString) : MainWindow :=
  { s with dbcLoads := s.dbcLoads.start fileNames }

def onHeaderContextMenuClosed (s : MainWindow) (index : UInt8) : Answer → MainWindow
  | .text text => { s with proxyModel := s.proxyModel.setFilter index text }
  | _ => s

def onSignalPlotMenu (s : MainWindow) (row : Nat) : MainWindow :=
  if s.msgDb.db.length = 0 then s
  else { s with plots := s.plots.onSignalPlotMenu s.msgDb.db.length row, addActions := s.addActions + 1 }

def onAddSignal (s : MainWindow) : Except Failure MainWindow := do
  let dialog ← SignalSelectDialog.create s.msgDb
  return { s with dialog := some (.selectSignal dialog) }

/-- The code does not look at what `exec` returns. -/
def onAddSignalClosed (s : MainWindow) (dialog : SignalSelectDialog) (endId : UInt32) : Except Failure MainWindow := do
  let pair := dialog.getResultIndex
  let msg ← QList.atInt s.msgDb.db pair.1
  let signal ← QList.atInt msg.canSignals pair.2
  let data ← signal.getSignalGraph msg.id s.log (.ok endId)
  let _series ← drawSeries takesNaN data
  return { s with plots := s.plots.onAddSignal msg.id signal }

/-- The time between the ends of a log, `time` for an empty one. -/
def timeSpan (time : ℚ) (log : List CanLogMsg) : ℚ :=
  match log.head?, log.getLast? with
  | some first, some last => |first.time - last.time|
  | _, _ => time

/-- `QFuture::result` throws what the parse has thrown; without a result it has no value. -/
def onLoadLogFile (s : MainWindow) : Except Failure MainWindow :=
  match s.logLoads.result with
  | none => .error (.undefined .arrayIndex)
  | some (.error e) => .error e
  | some (.ok log) => .ok { s with
      logs := s.logs.onLoadLogFile log
      plots := s.plots.onLoadLogFile
      time := timeSpan s.time log }

def onLoadDbcFile (s : MainWindow) : Except Failure MainWindow :=
  match s.dbcLoads.result with
  | none => .error (.undefined .arrayIndex)
  | some (.error e) => .error e
  | some (.ok db) => .ok { s with msgDb := db }

/-- `CanMsgModel::setData` on the colour column. -/
def setColor (s : MainWindow) (row : Nat) (color : QColor) : MainWindow :=
  match s.msgDb.db[row]? with
  | none => s
  | some msg => { s with msgDb := s.msgDb.modifyMessage msg.id fun msg => { msg with color := color } }

/-! ### Steps -/

def act (s : MainWindow) : Action → Except Failure MainWindow
  | .openFile => .ok { s with dialog := some .openFile }
  | .openDbcFile => .ok { s with dialog := some .openDbcFile }
  | .contextMenu row => do
    let logs ← s.logs.step (.contextMenu row)
    return { s with logs := logs }
  | .highlight target menu => do
    let logs ← s.logs.step (.action target menu)
    return { s with logs := logs }
  | .headerContextMenu index => .ok { s with dialog := some (.filter index (s.proxyModel.getFilterText index)) }
  | .signalPlotMenu row => .ok (s.onSignalPlotMenu row)
  | .addSignal => if s.addActions = 0 then .ok s else onAddSignal { s with addActions := s.addActions - 1 }
  | .removeSignal menu => do
    let plots ← s.plots.step (.removeSignal menu)
    return { s with plots := plots }
  | .setColor row color => .ok (s.setColor row color)

/-- What follows when a dialog is closed. -/
def closed (s : MainWindow) (answer : Answer) (endId : UInt32) : Dialog → Except Failure MainWindow
  | .openFile => .ok (s.openFileClosed (answer.names.headD []))
  | .openDbcFile => .ok (s.openDbcFileClosed answer.names)
  | .filter index _ => .ok (s.onHeaderContextMenuClosed index answer)
  | .selectSignal dialog => s.onAddSignalClosed takesNaN dialog endId

def step (s : MainWindow) : Event → Except Failure MainWindow
  | .user action => if s.dialog.isSome then .ok s else s.act action
  | .selectMessage row =>
    match s.dialog with
    | some (.selectSignal dialog) => do
      let dialog ← dialog.selectMessage s.msgDb row
      return { s with dialog := some (.selectSignal dialog) }
    | _ => .ok s
  | .selectSignal row =>
    match s.dialog with
    | some (.selectSignal dialog) => .ok { s with dialog := some (.selectSignal (dialog.selectSignal row)) }
    | _ => .ok s
  | .close answer endId =>
    match s.dialog with
    | some dialog => closed takesNaN { s with dialog := none } answer endId dialog
    | none => .ok s
  | .finishLog job disk => .ok { s with logLoads := s.logLoads.finish job (parseLog qt fuel disk) }
  | .dropLog job => .ok { s with logLoads := s.logLoads.drop job }
  | .notifyLog job =>
    if s.logLoads.pending job then onLoadLogFile { s with logLoads := s.logLoads.notify job } else .ok s
  | .finishDbc job disk => .ok { s with dbcLoads := s.dbcLoads.finish job (parseDbc qt disk) }
  | .notifyDbc job =>
    if s.dbcLoads.pending job then onLoadDbcFile { s with dbcLoads := s.dbcLoads.notify job } else .ok s

/-! ### What a step can do -/

/-- The boxes of a signal dialog agree with the database they were filled from. -/
def Asks (s : MainWindow) : Prop := ∀ d, s.dialog = some (.selectSignal d) → d.Inv

/-- What the steps have in common: the highlights and the plots go through steps of their own, and
the dialog stays in order. -/
structure Follows (s s' : MainWindow) : Prop where
  logs : s'.logs = s.logs ∨ ∃ e, s.logs.step e = .ok s'.logs
  plots : s'.plots = s.plots ∨ ∃ e, s.plots.step e = .ok s'.plots
  asks : s.Asks → s'.Asks

/-- What a step does with the loads of logs and with the log. -/
inductive Loads (qt : Qt) (fuel : Nat) (s : MainWindow) (e : Event) (s' : MainWindow) : Prop where
  | kept (loads : s'.logLoads = s.logLoads) (log : s'.log = s.log)
  | opened (fileName : QString) (some : fileName ≠ []) (loads : s'.logLoads = s.logLoads.cancel.start fileName)
    (log : s'.log = s.log)
  | finished (job : Nat) (disk : QString → Option File) (event : e = .finishLog job disk)
    (loads : s'.logLoads = s.logLoads.finish job (parseLog qt fuel disk)) (log : s'.log = s.log)
  | dropped (job : Nat) (loads : s'.logLoads = s.logLoads.drop job) (log : s'.log = s.log)
  | notified (job : Nat) (pending : s.logLoads.pending job = true) (loads : s'.logLoads = s.logLoads.notify job)
    (log : s.logLoads.result = .some (.ok s'.log))

variable {qt fuel takesNaN}

theorem Follows.refl (s : MainWindow) : Follows s s := ⟨.inl rfl, .inl rfl, id⟩

theorem act_follows {s s' : MainWindow} {action : Action} (h : s.act action = .ok s') : Follows s s' := by
  cases action with
  | openFile | openDbcFile | headerContextMenu index =>
    rw [← Except.ok.inj h]
    exact ⟨.inl rfl, .inl rfl, fun _ => by simp [Asks]⟩
  | contextMenu row =>
    obtain ⟨logs, stepped, h⟩ := bind_ok h
    rw [← Except.ok.inj h]
    exact ⟨.inr ⟨_, stepped⟩, .inl rfl, id⟩
  | highlight target menu =>
    obtain ⟨logs, stepped, h⟩ := bind_ok h
    rw [← Except.ok.inj h]
    exact ⟨.inr ⟨_, stepped⟩, .inl rfl, id⟩
  | signalPlotMenu row =>
    rw [← Except.ok.inj h, onSignalPlotMenu]
    split
    · exact .refl s
    · exact ⟨.inl rfl, .inr ⟨.plotMenu s.msgDb.db.length row, rfl⟩, id⟩
  | addSignal =>
    rw [act] at h
    split at h
    · rw [← Except.ok.inj h]
      exact .refl s
    · obtain ⟨dialog, created, h⟩ := bind_ok h
      obtain ⟨d, created', inv⟩ := SignalSelectDialog.create_ok s.msgDb
      obtain rfl := Except.ok.inj (created.symm.trans created')
      rw [← Except.ok.inj h]
      refine ⟨.inl rfl, .inl rfl, fun _ d' opened => ?_⟩
      cases opened
      exact inv
  | removeSignal menu =>
    obtain ⟨plots, stepped, h⟩ := bind_ok h
    rw [← Except.ok.inj h]
    exact ⟨.inl rfl, .inr ⟨_, stepped⟩, id⟩
  | setColor row color =>
    rw [← Except.ok.inj h, setColor]
    split
    · exact .refl s
    · exact ⟨.inl rfl, .inl rfl, id⟩

theorem onAddSignalClosed_ok {s s' : MainWindow} {dialog : SignalSelectDialog} {endId : UInt32}
    (h : s.onAddSignalClosed takesNaN dialog endId = .ok s') :
    ∃ msgId signal, s' = { s with plots := s.plots.onAddSignal msgId signal } := by
  obtain ⟨msg, -, h⟩ := bind_ok h
  obtain ⟨signal, -, h⟩ := bind_ok h
  obtain ⟨data, -, h⟩ := bind_ok h
  obtain ⟨series, -, h⟩ := bind_ok h
  exact ⟨msg.id, signal, (Except.ok.inj h).symm⟩

theorem closed_follows {s s' : MainWindow} {answer : Answer} {endId : UInt32} {dialog : Dialog}
    (h : s.closed takesNaN answer endId dialog = .ok s') : Follows s s' := by
  cases dialog with
  | openFile =>
    rw [← Except.ok.inj h, openFileClosed]
    split
    · exact .refl s
    · exact ⟨.inl rfl, .inl rfl, id⟩
  | openDbcFile =>
    rw [← Except.ok.inj h]
    exact ⟨.inl rfl, .inl rfl, id⟩
  | filter index text =>
    rw [← Except.ok.inj h]
    cases answer <;> exact ⟨.inl rfl, .inl rfl, id⟩
  | selectSignal dialog =>
    obtain ⟨msgId, signal, rfl⟩ := onAddSignalClosed_ok h
    exact ⟨.inl rfl, .inr ⟨.addSignal msgId signal, rfl⟩, id⟩

theorem onLoadLogFile_follows {s s' : MainWindow} (h : s.onLoadLogFile = .ok s') : Follows s s' := by
  unfold onLoadLogFile at h
  split at h
  · cases h
  · cases h
  · rename_i log _
    rw [← Except.ok.inj h]
    exact ⟨.inr ⟨.loadLogFile log, rfl⟩, .inr ⟨.loadLogFile, rfl⟩, id⟩

theorem onLoadDbcFile_follows {s s' : MainWindow} (h : s.onLoadDbcFile = .ok s') : Follows s s' := by
  unfold onLoadDbcFile at h
  split at h
  · cases h
  · cases h
  · rw [← Except.ok.inj h]
    exact ⟨.inl rfl, .inl rfl, id⟩

theorem selectMessage_follows {s s' : MainWindow} {row : Nat}
    (h : s.step qt fuel takesNaN (.selectMessage row) = .ok s') : Follows s s' := by
  rw [step] at h
  split at h
  · rename_i d opened
    obtain ⟨d', selected, h⟩ := bind_ok h
    rw [← Except.ok.inj h]
    refine ⟨.inl rfl, .inl rfl, fun asks d'' opened' => ?_⟩
    cases opened'
    exact SignalSelectDialog.selectMessage_inv (asks d opened) selected
  · rw [← Except.ok.inj h]
    exact .refl s

theorem step_follows (s : MainWindow) (e : Event) (s' : MainWindow) (h : s.step qt fuel takesNaN e = .ok s') :
    Follows s s' := by
  cases e with
  | user action =>
    rw [step] at h
    split at h
    · rw [← Except.ok.inj h]
      exact .refl s
    · exact act_follows h
  | selectMessage row => exact selectMessage_follows h
  | selectSignal row =>
    rw [step] at h
    split at h
    · rename_i d opened
      rw [← Except.ok.inj h]
      refine ⟨.inl rfl, .inl rfl, fun asks d' opened' => ?_⟩
      cases opened'
      exact SignalSelectDialog.selectSignal_inv (asks d opened) row
    · rw [← Except.ok.inj h]
      exact .refl s
  | close answer endId =>
    rw [step] at h
    split at h
    · obtain ⟨logs, plots, asks⟩ := closed_follows h
      exact ⟨logs, plots, fun _ => asks (by simp [Asks])⟩
    · rw [← Except.ok.inj h]
      exact .refl s
  | finishLog job disk =>
    rw [← Except.ok.inj h]
    exact ⟨.inl rfl, .inl rfl, id⟩
  | dropLog job =>
    rw [← Except.ok.inj h]
    exact ⟨.inl rfl, .inl rfl, id⟩
  | notifyLog job =>
    rw [step] at h
    split at h
    · obtain ⟨logs, plots, asks⟩ := onLoadLogFile_follows h
      exact ⟨logs, plots, asks⟩
    · rw [← Except.ok.inj h]
      exact .refl s
  | finishDbc job disk =>
    rw [← Except.ok.inj h]
    exact ⟨.inl rfl, .inl rfl, id⟩
  | notifyDbc job =>
    rw [step] at h
    split at h
    · obtain ⟨logs, plots, asks⟩ := onLoadDbcFile_follows h
      exact ⟨logs, plots, asks⟩
    · rw [← Except.ok.inj h]
      exact .refl s

/-! ### The loads of logs -/

theorem act_loads {s s' : MainWindow} {action : Action} (h : s.act action = .ok s') :
    s'.logLoads = s.logLoads ∧ s'.log = s.log := by
  cases action with
  | openFile | openDbcFile | headerContextMenu index =>
    rw [← Except.ok.inj h]
    exact ⟨rfl, rfl⟩
  | contextMenu row =>
    obtain ⟨logs, opened, h⟩ := bind_ok h
    rw [← Except.ok.inj h]
    exact ⟨rfl, LogWindow.contextMenu_buffer opened⟩
  | highlight target menu =>
    obtain ⟨logs, set, h⟩ := bind_ok h
    rw [← Except.ok.inj h]
    exact ⟨rfl, LogWindow.action_buffer set⟩
  | signalPlotMenu row =>
    rw [← Except.ok.inj h, onSignalPlotMenu]
    split <;> exact ⟨rfl, rfl⟩
  | addSignal =>
    rw [act] at h
    split at h
    · rw [← Except.ok.inj h]
      exact ⟨rfl, rfl⟩
    · obtain ⟨dialog, -, h⟩ := bind_ok h
      rw [← Except.ok.inj h]
      exact ⟨rfl, rfl⟩
  | removeSignal menu =>
    obtain ⟨plots, -, h⟩ := bind_ok h
    rw [← Except.ok.inj h]
    exact ⟨rfl, rfl⟩
  | setColor row color =>
    rw [← Except.ok.inj h, setColor]
    split <;> exact ⟨rfl, rfl⟩

theorem closed_loads {s s' : MainWindow} {e : Event} {answer : Answer} {endId : UInt32} {dialog : Dialog}
    (h : closed takesNaN { s with dialog := none } answer endId dialog = .ok s') : Loads qt fuel s e s' := by
  cases dialog with
  | openFile =>
    rw [← Except.ok.inj h, openFileClosed]
    split
    · exact .kept rfl rfl
    · rename_i some
      exact .opened _ some rfl rfl
  | openDbcFile =>
    rw [← Except.ok.inj h]
    exact .kept rfl rfl
  | filter index text =>
    rw [← Except.ok.inj h]
    cases answer <;> exact .kept rfl rfl
  | selectSignal dialog =>
    obtain ⟨msgId, signal, rfl⟩ := onAddSignalClosed_ok h
    exact .kept rfl rfl

theorem notifyLog_loads {s s' : MainWindow} {e : Event} {job : Nat}
    (h : s.step qt fuel takesNaN (.notifyLog job) = .ok s') : Loads qt fuel s e s' := by
  rw [step] at h
  split at h
  · rename_i pending
    unfold onLoadLogFile at h
    split at h
    · cases h
    · cases h
    · rename_i log result
      rw [← Except.ok.inj h]
      exact .notified job pending rfl ((s.logLoads.result_notify job).symm.trans result)
  · rw [← Except.ok.inj h]
    exact .kept rfl rfl

theorem step_loads (s : MainWindow) (e : Event) (s' : MainWindow) (h : s.step qt fuel takesNaN e = .ok s') :
    Loads qt fuel s e s' := by
  cases e with
  | user action =>
    rw [step] at h
    split at h
    · rw [← Except.ok.inj h]
      exact .kept rfl rfl
    · obtain ⟨loads, log⟩ := act_loads h
      exact .kept loads log
  | selectMessage row =>
    rw [step] at h
    split at h
    · obtain ⟨d, -, h⟩ := bind_ok h
      rw [← Except.ok.inj h]
      exact .kept rfl rfl
    · rw [← Except.ok.inj h]
      exact .kept rfl rfl
  | selectSignal row =>
    rw [step] at h
    split at h <;> rw [← Except.ok.inj h] <;> exact .kept rfl rfl
  | close answer endId =>
    rw [step] at h
    split at h
    · exact closed_loads h
    · rw [← Except.ok.inj h]
      exact .kept rfl rfl
  | finishLog job disk =>
    rw [← Except.ok.inj h]
    exact .finished job disk rfl rfl rfl
  | dropLog job =>
    rw [← Except.ok.inj h]
    exact .dropped job rfl rfl
  | notifyLog job => exact notifyLog_loads h
  | finishDbc job disk =>
    rw [← Except.ok.inj h]
    exact .kept rfl rfl
  | notifyDbc job =>
    rw [step] at h
    split at h
    · unfold onLoadDbcFile at h
      split at h
      · cases h
      · cases h
      · rw [← Except.ok.inj h]
        exact .kept rfl rfl
    · rw [← Except.ok.inj h]
      exact .kept rfl rfl

theorem step_ready (s : MainWindow) (e : Event) (s' : MainWindow) (ready : s.logLoads.Ready)
    (h : s.step qt fuel takesNaN e = .ok s') : s'.logLoads.Ready := by
  cases step_loads s e s' h with
  | kept loads _ => rwa [loads]
  | opened fileName _ loads _ =>
    rw [loads]
    exact .start _ _
  | finished job disk _ loads _ =>
    rw [loads]
    exact ready.finish job _
  | dropped job loads _ =>
    rw [loads]
    exact ready.drop job
  | notified job _ loads _ =>
    rw [loads]
    exact ready.notify job

end MainWindow
end
end CanTracer
