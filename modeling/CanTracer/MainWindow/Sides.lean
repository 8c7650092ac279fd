import CanTracer.Interleaving
import CanTracer.LogParser.WellFormed
import CanTracer.MainWindow.Adding
import CanTracer.MainWindow.Views

/-!
# The two sides of the window

What goes on with logs, highlights and charts does not touch the database, and what goes on with the database
does not touch them. So the ends of the background parses and the actions that need no row of the log view may
come in any order.
-/

namespace CanTracer
namespace ViewWindow

/-- The log, its highlights and its charts. -/
def ofLog : ViewEvent → Bool
  | .window (.finishLog _ _) | .window (.dropLog _) | .window (.notifyLog _) => true
  | .window (.user (.highlight _ _)) | .window (.user (.removeSignal _)) | .axis _ => true
  | _ => false

/-- The database and the signal table. -/
def ofDbc : ViewEvent → Bool
  | .window (.finishDbc _ _) | .window (.notifyDbc _) | .window (.user (.setColor _ _)) | .msgSelect _ => true
  | _ => false

theorem not_ofDbc {e : ViewEvent} (log : ofLog e = true) : ofDbc e = false := by
  unfold ofLog at log
  split at log <;> first | rfl | cases log

/-- The window with nothing but what the side of the database works on. The mapping stands for any that has been made. -/
def dbcSide (s : ViewWindow) : ViewWindow where
  window := { msgDb := s.window.msgDb, dbcLoads := s.window.dbcLoads, dialog := s.window.dialog }
  mapping := some []
  signalModel := s.signalModel

/-- What that side has come to in `c` is put into `s`. -/
def putDbc (c s : ViewWindow) : ViewWindow :=
  { s with
    window := { s.window with msgDb := c.window.msgDb, dbcLoads := c.window.dbcLoads }
    mapping := c.mapping.bind fun _ => s.mapping
    signalModel := c.signalModel }

section
variable {qt : Qt} {fuel : Nat} {takesNaN : Bool}
variable {print : Double → QString} {fixed : ℚ → QString} {contains : QString → QString → Bool}
variable {entries : CustomProxyModel → List (UInt8 × QString)}

/-- The side of the database can do its steps alone. -/
theorem step_dbcSide {f : ViewEvent} (own : ofDbc f = true) (s : ViewWindow) :
    s.step qt fuel takesNaN print fixed contains entries f =
      (s.dbcSide.step qt fuel takesNaN print fixed contains entries f).map (putDbc · s) := by
  match f with
  | .window (.finishDbc job disk) => rfl
  | .window (.notifyDbc job) =>
    by_cases pending : s.window.dbcLoads.pending job
    · cases result : (s.window.dbcLoads.notify job).result with
      | none => simp only [step, mapToSource, MainWindow.step, MainWindow.onLoadDbcFile, dbcSide, pending, if_true, result]; rfl
      | some outcome =>
        simp only [step, mapToSource, MainWindow.step, MainWindow.onLoadDbcFile, follow, dbcSide, pending, if_true, result]
        cases outcome <;> rfl
    · simp only [step, mapToSource, MainWindow.step, follow, dbcSide, pending]
      rfl
  | .window (.user (.setColor row color)) =>
    by_cases blocked : s.window.dialog.isSome
    · simp only [step, mapToSource, MainWindow.step, follow, dbcSide, blocked, if_true]
      rfl
    · simp only [step, mapToSource, MainWindow.step, MainWindow.act, MainWindow.setColor, follow, dbcSide, blocked]
      cases s.window.msgDb.db[row]? <;> rfl
  | .msgSelect row =>
    by_cases clicked : s.window.dialog.isNone ∧ row < s.window.msgDb.db.length
    · simp only [step, onMsgSelect, dbcSide, clicked]
      rfl
    · simp only [step, onMsgSelect, dbcSide, clicked, if_false]
      rfl

/-- The side of logs carries along whatever the other side has come to. -/
theorem step_putDbc {e : ViewEvent} (own : ofLog e = true) (c s : ViewWindow) :
    (putDbc c s).step qt fuel takesNaN print fixed contains entries e =
      (s.step qt fuel takesNaN print fixed contains entries e).map (putDbc c) := by
  match e with
  | .window (.finishLog job disk) => rfl
  | .window (.dropLog job) => rfl
  | .window (.notifyLog job) =>
    by_cases pending : s.window.logLoads.pending job
    · cases result : (s.window.logLoads.notify job).result with
      | none => simp only [step, mapToSource, MainWindow.step, MainWindow.onLoadLogFile, putDbc, pending, if_true, result]; rfl
      | some outcome =>
        simp only [step, mapToSource, MainWindow.step, MainWindow.onLoadLogFile, follow, putDbc, pending, if_true, result]
        cases outcome with
        | error failure => rfl
        | ok log => cases mapped : c.mapping <;> simp only [bind, Except.bind, Except.map, putDbc, mapped] <;> rfl
    · simp only [step, mapToSource, MainWindow.step, follow, putDbc, pending]
      rfl
  | .window (.user (.highlight target menu)) =>
    by_cases blocked : s.window.dialog.isSome
    · simp only [step, mapToSource, MainWindow.step, follow, putDbc, blocked, if_true]
      rfl
    · simp only [step, mapToSource, MainWindow.step, MainWindow.act, follow, putDbc, blocked]
      cases s.window.logs.step (.action target menu) <;> rfl
  | .window (.user (.removeSignal menu)) =>
    by_cases blocked : s.window.dialog.isSome
    · simp only [step, mapToSource, MainWindow.step, follow, putDbc, blocked, if_true]
      rfl
    · simp only [step, mapToSource, MainWindow.step, MainWindow.act, follow, putDbc, blocked]
      cases s.window.plots.step (.removeSignal menu) <;> rfl
  | .axis button =>
    by_cases blocked : s.window.dialog.isSome
    · simp only [step, onAxis, putDbc, blocked, if_true]
      rfl
    · simp only [step, onAxis, putDbc, blocked]
      cases s.axes.press button with
      | error failure => rfl
      | ok axes =>
        simp only [bind, Except.bind]
        cases axes.updateChartAxis s.window.time s.window.plots.plotModel s.geometry <;> rfl

theorem step_dialog {e : ViewEvent} (own : ofLog e = true) {s t : ViewWindow}
    (h : s.step qt fuel takesNaN print fixed contains entries e = .ok t) : t.window.dialog = s.window.dialog := by
  match e with
  | .window (.finishLog job disk) | .window (.dropLog job) => rw [← Except.ok.inj h]
  | .window (.notifyLog job) =>
    obtain ⟨w, stepped, followed⟩ := bind_ok h
    rw [(follow_ok followed).window]
    rw [MainWindow.step] at stepped
    split at stepped
    · unfold MainWindow.onLoadLogFile at stepped
      split at stepped
      · cases stepped
      · cases stepped
      · rw [← Except.ok.inj stepped]
    · rw [← Except.ok.inj stepped]
  | .window (.user (.highlight target menu)) | .window (.user (.removeSignal menu)) =>
    obtain ⟨w, stepped, followed⟩ := bind_ok h
    rw [(follow_ok followed).window]
    rw [MainWindow.step] at stepped
    split at stepped
    · rw [← Except.ok.inj stepped]
    · obtain ⟨part, -, stepped⟩ := bind_ok stepped
      rw [← Except.ok.inj stepped]
  | .axis button =>
    rcases onAxis_ok h with rfl | ⟨axes, geometry, -, -, rfl⟩ <;> rfl

/-- The side of logs leaves the other one alone: what it carries along may be what is there. -/
theorem step_dbcSide_eq {e : ViewEvent} (own : ofLog e = true) {s t : ViewWindow}
    (h : s.step qt fuel takesNaN print fixed contains entries e = .ok t) : t.dbcSide = s.dbcSide := by
  have carried : (.ok t : Except Failure ViewWindow) = (.ok t : Except Failure ViewWindow).map (putDbc s.dbcSide) := by
    rw [← h]
    exact step_putDbc own s.dbcSide s
  have same : t = putDbc s.dbcSide t := Except.ok.inj carried
  have msgDb : t.window.msgDb = s.window.msgDb := congrArg (·.window.msgDb) same
  have dbcLoads : t.window.dbcLoads = s.window.dbcLoads := congrArg (·.window.dbcLoads) same
  have signalModel : t.signalModel = s.signalModel := congrArg (·.signalModel) same
  rw [dbcSide, dbcSide, msgDb, dbcLoads, signalModel, step_dialog own h]

theorem sides_commute {e f : ViewEvent} (log : ofLog e = true) (dbc : ofDbc f = true) :
    Machine.Commute (step qt fuel takesNaN print fixed contains entries) e f :=
  Machine.commute_of_frame dbcSide (fun side => side.step qt fuel takesNaN print fixed contains entries f) putDbc
    (step_dbcSide dbc) (fun _ _ stepped => step_dbcSide_eq log stepped) (step_putDbc log)

/-- In a stretch of a run with nothing but events of the two sides only the order on each side counts: two
such stretches lead to the same window, whatever comes before and behind. -/
theorem run_interleaved {es es' : List ViewEvent} (sides : ∀ e ∈ es, ofLog e = true ∨ ofDbc e = true)
    (sides' : ∀ e ∈ es', ofLog e = true ∨ ofDbc e = true) (log : es.filter ofLog = es'.filter ofLog)
    (dbc : es.filter ofDbc = es'.filter ofDbc) (before after : List ViewEvent) (s t : ViewWindow) :
    Machine.run (step qt fuel takesNaN print fixed contains entries) (before ++ es ++ after) s = .ok t ↔
      Machine.run (step qt fuel takesNaN print fixed contains entries) (before ++ es' ++ after) s = .ok t := by
  have others {l : List ViewEvent} (sides : ∀ e ∈ l, ofLog e = true ∨ ofDbc e = true) :
      (l.filter fun e => !ofLog e) = l.filter ofDbc := by
    refine List.filter_congr fun e among => ?_
    rcases sides e among with log | dbc
    · rw [log, not_ofDbc log]
      rfl
    · cases log : ofLog e with
      | true => exact absurd dbc (by simp [not_ofDbc log])
      | false => exact dbc.symm
  refine Machine.run_interleaving ofLog (fun e he f hf own other => ?_) log ?_ before after s t
  · exact sides_commute own ((sides f hf).resolve_left (by simp [other]))
  · rw [others sides, others sides', dbc]

/-- A log and a DBC file are opened. -/
def bothOpened : List ViewEvent :=
  [.window (.user .openFile), .window (.close (.fileNames ["a.trc".toList]) 0), .window (.user .openDbcFile),
    .window (.close (.fileNames ["a.dbc".toList]) 0)]

def dbcFirst : List ViewEvent :=
  [.window (.finishDbc 0 fun _ => some MainWindow.oneSignal), .window (.finishLog 0 fun _ => some trcFile),
    .window (.notifyDbc 0), .msgSelect 0, .window (.notifyLog 0), .axis .zoomInX]

def logFirst : List ViewEvent :=
  [.window (.finishLog 0 fun _ => some trcFile), .window (.notifyLog 0), .axis .zoomInX,
    .window (.finishDbc 0 fun _ => some MainWindow.oneSignal), .window (.notifyDbc 0), .msgSelect 0]

theorem run_interleaved_loads :
    ∃ t, Machine.run (step plainBuild 0 true (fun _ => []) (fun _ => []) (fun _ _ => true) fun _ => [])
        (bothOpened ++ dbcFirst ++ []) {} = .ok t ∧
      Machine.run (step plainBuild 0 true (fun _ => []) (fun _ => []) (fun _ _ => true) fun _ => [])
        (bothOpened ++ logFirst ++ []) {} = .ok t := by
  obtain ⟨t, ran⟩ := isOk_ok
    (x := Machine.run (step plainBuild 0 true (fun _ => []) (fun _ => []) (fun _ _ => true) fun _ => [])
      (bothOpened ++ dbcFirst ++ []) {}) (by decide +kernel)
  exact ⟨t, ran, (run_interleaved (by decide) (by decide) rfl rfl bothOpened [] {} t).mp ran⟩

end
end ViewWindow
end CanTracer
