import CanTracer.MainWindow.Basic

/-!
# Cancelled dialogs

What a dialog that the user cancels leaves behind, after the parses that it started have ended. The
slots of the DBC dialog and of the signal dialog go on as if something had been chosen.
-/

namespace CanTracer.MainWindow

structure Unchanged (s s' : MainWindow) : Prop where
  log : s'.log = s.log
  msgDb : s'.msgDb = s.msgDb
  proxyModel : s'.proxyModel = s.proxyModel
  highlights : s'.logs.model.highlights = s.logs.model.highlights
  plots : s'.plots.plotModel = s.plots.plotModel

/-- The ends and the notifications of the parses that have been started since. -/
def ends (s s' : MainWindow) (disk : QString → Option File) : List Event :=
  ((List.range' s.logLoads.jobs.length (s'.logLoads.jobs.length - s.logLoads.jobs.length)).flatMap fun job =>
    [.finishLog job disk, .notifyLog job]) ++
  (List.range' s.dbcLoads.jobs.length (s'.dbcLoads.jobs.length - s.dbcLoads.jobs.length)).flatMap fun job =>
    [.finishDbc job disk, .notifyDbc job]

section
variable (qt : Qt) (fuel : Nat) (takesNaN : Bool)

/-- The dialog is cancelled, and what that started comes to its end. -/
def cancelled (s : MainWindow) (endId : UInt32) (disk : QString → Option File) : Except Failure MainWindow := do
  let s' ← s.step qt fuel takesNaN (.close .cancel endId)
  Machine.run (step qt fuel takesNaN) (s.ends s' disk) s'

/-- What cancelling a dialog should do. -/
def Discards (s : MainWindow) (e : Event) : Prop :=
  ∀ endId, e = .close .cancel endId → ∀ disk, ∃ s', s.cancelled qt fuel takesNaN endId disk = .ok s' ∧ Unchanged s s'

/-- The dialog is not the signal dialog, and if it is the DBC dialog there is no message to lose. -/
def Harmless (s : MainWindow) (e : Event) : Prop :=
  ∀ endId, e = .close .cancel endId →
    (∀ d, s.dialog ≠ some (.selectSignal d)) ∧ (s.dialog = some .openDbcFile → s.msgDb = {})

variable {qt fuel takesNaN}

theorem ends_nil {s s' : MainWindow} (logLoads : s'.logLoads = s.logLoads) (dbcLoads : s'.dbcLoads = s.dbcLoads)
    (disk : QString → Option File) : s.ends s' disk = [] := by
  rw [ends, logLoads, dbcLoads, Nat.sub_self, Nat.sub_self]
  rfl

/-- Where the slot starts nothing, what it leaves is what stays. -/
theorem cancelled_eq {s s' : MainWindow} {endId : UInt32} {disk : QString → Option File}
    (closed : s.step qt fuel takesNaN (.close .cancel endId) = .ok s') (logLoads : s'.logLoads = s.logLoads)
    (dbcLoads : s'.dbcLoads = s.dbcLoads) : s.cancelled qt fuel takesNaN endId disk = .ok s' := by
  rw [cancelled, closed]
  change Machine.run _ (s.ends s' disk) s' = _
  rw [ends_nil logLoads dbcLoads]
  rfl

/-- The DBC dialog starts a parse of no files, and the message database becomes empty. -/
theorem cancelled_openDbcFile {s : MainWindow} (opened : s.dialog = some .openDbcFile) (endId : UInt32)
    (disk : QString → Option File) :
    ∃ s', s.cancelled qt fuel takesNaN endId disk = .ok s' ∧ s'.msgDb = {} ∧ s'.logs = s.logs ∧
      s'.proxyModel = s.proxyModel ∧ s'.plots = s.plots := by
  have nothing : parseDbc qt disk [] = some (.ok {}) := rfl
  obtain ⟨pending, result⟩ := s.dbcLoads.start_finish nothing
  rw [← Futures.result_notify _ s.dbcLoads.jobs.length] at result
  have closed : s.step qt fuel takesNaN (.close .cancel endId) =
      .ok { s with dialog := none, dbcLoads := s.dbcLoads.start [] } := by
    rw [step, opened]
    rfl
  have one : (s.dbcLoads.start []).jobs.length - s.dbcLoads.jobs.length = 1 := by
    rw [Futures.start, List.length_append]
    exact Nat.add_sub_cancel_left _ _
  have events : s.ends { s with dialog := none, dbcLoads := s.dbcLoads.start [] } disk =
      [.finishDbc s.dbcLoads.jobs.length disk, .notifyDbc s.dbcLoads.jobs.length] := by
    rw [ends, one, Nat.sub_self]
    rfl
  rw [cancelled, closed]
  change ∃ s', Machine.run _ (s.ends _ disk) _ = _ ∧ _
  rw [events, Machine.run_cons_ok rfl, ← List.nil_append [Event.notifyDbc _], Machine.run_concat rfl, step, if_pos pending,
    onLoadDbcFile, result]
  exact ⟨_, rfl, rfl, rfl, rfl, rfl⟩

/-- The signal dialog adds a plot, if the slot comes to its end. -/
theorem cancelled_selectSignal {s s' : MainWindow} {d : SignalSelectDialog} (opened : s.dialog = some (.selectSignal d))
    {endId : UInt32} {disk : QString → Option File} (h : s.cancelled qt fuel takesNaN endId disk = .ok s') :
    s'.plots.plotModel ≠ s.plots.plotModel := by
  obtain ⟨t, closed, -⟩ := bind_ok h
  have added := closed
  rw [step, opened] at added
  obtain ⟨msgId, signal, left⟩ := onAddSignalClosed_ok added
  have stays : s.cancelled qt fuel takesNaN endId disk = .ok t :=
    cancelled_eq closed (by rw [left]) (by rw [left])
  obtain rfl := Except.ok.inj (h.symm.trans stays)
  intro same
  rw [left] at same
  have rows := congrArg (fun m => m.items.length) same
  simp [PlotWindow.onAddSignal, SignalPlotListModel.addItem] at rows

theorem discards_iff (s : MainWindow) (e : Event) : s.Discards qt fuel takesNaN e ↔ s.Harmless e := by
  constructor
  · rintro discards endId rfl
    obtain ⟨s', cancelled, unchanged⟩ := discards endId rfl fun _ => none
    refine ⟨fun d opened => ?_, fun opened => ?_⟩
    · exact cancelled_selectSignal opened cancelled unchanged.plots
    · obtain ⟨t, cancelled', empty, -⟩ := cancelled_openDbcFile opened endId fun _ => none
      obtain rfl := Except.ok.inj (cancelled.symm.trans cancelled')
      exact unchanged.msgDb.symm.trans empty
  · rintro harmless endId rfl disk
    obtain ⟨noSignal, noMessage⟩ := harmless endId rfl
    cases opened : s.dialog with
    | none => exact ⟨s, cancelled_eq (by rw [step, opened]) rfl rfl, rfl, rfl, rfl, rfl, rfl⟩
    | some dialog =>
      cases dialog with
      | openFile => exact ⟨{ s with dialog := none }, cancelled_eq (by rw [step, opened]; rfl) rfl rfl, rfl, rfl, rfl, rfl, rfl⟩
      | openDbcFile =>
        obtain ⟨s', cancelled, empty, logs, proxyModel, plots⟩ := cancelled_openDbcFile opened endId disk
        refine ⟨s', cancelled, ?_, empty.trans (noMessage opened).symm, proxyModel, ?_, ?_⟩
        · rw [log, log, logs]
        · rw [logs]
        · rw [plots]
      | filter index text =>
        exact ⟨{ s with dialog := none }, cancelled_eq (by rw [step, opened]; rfl) rfl rfl, rfl, rfl, rfl, rfl, rfl⟩
      | selectSignal d => exact absurd opened (noSignal d)

/-- Cancelling changes nothing along a run exactly when no signal dialog is cancelled in it, and the
DBC dialog only while no message is loaded. -/
theorem run_discards_iff (qt : Qt) (fuel : Nat) (takesNaN : Bool) (events : List Event) :
    Machine.Along (step qt fuel takesNaN) (Discards qt fuel takesNaN) events {} ↔
      Machine.Along (step qt fuel takesNaN) Harmless events {} :=
  Machine.along_congr (I := fun _ => True) (fun s e _ => discards_iff s e) (fun _ _ _ _ _ => trivial) events {} trivial

def database : File where
  bytes := []
  text := "BO_ 1 A: 8 B".toList

/-- The DBC dialog is cancelled after a database has been loaded. -/
theorem run_discards_loaded :
    ¬ ∀ events, Machine.Along (step plainBuild 0 true) (Discards plainBuild 0 true) events {} := by
  intro h
  let loaded : List Event := [.user .openDbcFile, .close (.fileNames ["a.dbc".toList]) 0,
    .finishDbc 0 fun _ => some database, .notifyDbc 0, .user .openDbcFile]
  obtain ⟨s, ran, discards⟩ := Machine.along_last loaded _ (h (loaded ++ [.close .cancel 0])) (by decide +kernel)
  obtain ⟨s', cancelled, unchanged⟩ := discards 0 rfl fun _ => none
  have differs : ((Machine.run (step plainBuild 0 true) loaded {} >>= fun s =>
      (s.cancelled plainBuild 0 true 0 fun _ => none).map fun s' => decide (s'.msgDb = s.msgDb))) = .ok false := by
    decide +kernel
  rw [ran] at differs
  change (s.cancelled plainBuild 0 true 0 fun _ => none).map _ = _ at differs
  rw [cancelled] at differs
  exact of_decide_eq_false (Except.ok.inj differs) unchanged.msgDb

end
end CanTracer.MainWindow
