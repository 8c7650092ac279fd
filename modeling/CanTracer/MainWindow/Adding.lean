import CanTracer.MainWindow.Basic

/-!
# Adding a plot

The reads of `SignalSelectDialog` and `onAddSignal`. The rows come from boxes that were filled from
the database of that moment, and a load can replace the database while the dialog is open.
-/

namespace CanTracer.MainWindow

/-- The steps in which the dialog and the slots of the plot menu read their lists. -/
inductive Reads : Event → Prop where
  | addSignal : Reads (.user .addSignal)
  | selectMessage (row : Nat) : Reads (.selectMessage row)
  | close (answer : Answer) (endId : UInt32) : Reads (.close answer endId)

section
variable (qt : Qt) (fuel : Nat) (takesNaN : Bool)

def InRange (s : MainWindow) (e : Event) : Prop :=
  Reads e → s.step qt fuel takesNaN e ≠ .error (.undefined .arrayIndex)

/-- A message is taken only if the database still has its row. When the dialog is closed the log is
not empty, the message taken had a signal, and the database is the one the signals were listed from
or has the rows taken, too. -/
structure Rows (s : MainWindow) (e : Event) : Prop where
  message : ∀ row, e = .selectMessage row → ∀ d, s.dialog = some (.selectSignal d) →
    row < d.cmbMessage.items.length → (row : Int) ≠ d.cmbMessage.currentIndex → row < s.msgDb.db.length
  signal : ∀ answer endId, e = .close answer endId → ∀ d, s.dialog = some (.selectSignal d) →
    s.log ≠ [] ∧ d.cmbSignal.items ≠ [] ∧ (s.msgDb = d.filled ∨ d.Has s.msgDb)

variable {qt fuel takesNaN}

/-! ### One step -/

theorem onAddSignalClosed_inRange_iff (s : MainWindow) (d : SignalSelectDialog) (endId : UInt32) :
    s.onAddSignalClosed takesNaN d endId ≠ .error (.undefined .arrayIndex) ↔ s.log ≠ [] ∧ d.Has s.msgDb := by
  unfold onAddSignalClosed
  constructor
  · intro inRange
    rcases atInt_cases s.msgDb.db d.getResultIndex.1 with ⟨row, msg, message, here⟩ | outside
    · dsimp only at inRange
      rw [message, atInt_natCast, at_some here, ok_bind] at inRange
      rcases atInt_cases msg.canSignals d.getResultIndex.2 with ⟨j, signal, taken, found⟩ | outside
      · refine ⟨fun empty => inRange ?_, row, j, msg, Prod.ext message taken, here, (List.getElem?_eq_some_iff.mp found).1⟩
        rw [taken, atInt_natCast, at_some found, ok_bind, empty]
        rfl
      · rw [outside] at inRange
        exact absurd rfl inRange
    · dsimp only at inRange
      rw [outside] at inRange
      exact absurd rfl inRange
  · rintro ⟨nonempty, row, j, msg, taken, here, inside⟩
    have found := List.getElem?_eq_getElem inside
    dsimp only
    rw [taken, atInt_natCast, at_some here, ok_bind, atInt_natCast, at_some found, ok_bind]
    refine bind_ne_error ?_ fun data => ?_
    · exact CanSignal.getSignalGraph_ne_error (by decide) (by decide) _ _ nonempty endId
    · rw [drawSeries_eq]
      exact ok_ne_error

theorem addSignal_inRange (s : MainWindow) : s.step qt fuel takesNaN (.user .addSignal) ≠ .error (.undefined .arrayIndex) := by
  rw [step, act]
  split
  · exact ok_ne_error
  · split
    · exact ok_ne_error
    · obtain ⟨d, created, -⟩ := SignalSelectDialog.create_ok s.msgDb
      rw [onAddSignal, created]
      exact ok_ne_error

theorem selectMessage_inRange {s : MainWindow} {row : Nat} (asks : s.Asks) (rows : Rows s (.selectMessage row)) :
    s.step qt fuel takesNaN (.selectMessage row) ≠ .error (.undefined .arrayIndex) := by
  rw [step]
  split
  · rename_i d opened
    obtain ⟨d', selected, -⟩ := SignalSelectDialog.selectMessage_ok (asks d opened) (rows.message row rfl d opened)
    rw [selected]
    exact ok_ne_error
  · exact ok_ne_error

theorem close_inRange {s : MainWindow} {answer : Answer} {endId : UInt32} (asks : s.Asks)
    (rows : Rows s (.close answer endId)) :
    s.step qt fuel takesNaN (.close answer endId) ≠ .error (.undefined .arrayIndex) := by
  cases opened : s.dialog with
  | none =>
    rw [step, opened]
    exact ok_ne_error
  | some dialog =>
    rw [step, opened]
    cases dialog with
    | openFile => exact ok_ne_error
    | openDbcFile => exact ok_ne_error
    | filter index text => exact ok_ne_error
    | selectSignal d =>
      obtain ⟨nonempty, some, kept⟩ := rows.signal answer endId rfl d opened
      refine (onAddSignalClosed_inRange_iff _ d endId).mpr ⟨nonempty, ?_⟩
      rcases kept with same | has
      · change d.Has s.msgDb
        rw [same]
        exact (asks d opened).has some
      · exact has

theorem inRange_iff (s : MainWindow) (e : Event) (asks : s.Asks) : s.InRange qt fuel takesNaN e ↔ s.Rows e := by
  constructor
  · intro inRange
    constructor
    · rintro row rfl d opened shown changes
      refine Nat.lt_of_not_le fun outside => inRange (.selectMessage row) ?_
      rw [step, opened]
      dsimp only
      rw [SignalSelectDialog.selectMessage_outside shown changes outside]
      rfl
    · rintro answer endId rfl d opened
      have reads := inRange (.close answer endId)
      rw [step, opened] at reads
      obtain ⟨nonempty, has⟩ := (onAddSignalClosed_inRange_iff _ d endId).mp reads
      exact ⟨nonempty, (asks d opened).some has, .inr has⟩
  · intro rows reads
    cases reads with
    | addSignal => exact addSignal_inRange s
    | selectMessage row => exact selectMessage_inRange asks rows
    | close answer endId => exact close_inRange asks rows

/-! ### Runs -/

/-- Nothing is read outside its list along a run exactly when the rows taken exist: no signal dialog is
closed over an empty log, without a signal, or over a database that has lost the rows. -/
theorem run_inRange_iff (qt : Qt) (fuel : Nat) (takesNaN : Bool) (events : List Event) :
    Machine.Along (step qt fuel takesNaN) (InRange qt fuel takesNaN) events {} ↔
      Machine.Along (step qt fuel takesNaN) Rows events {} :=
  Machine.along_congr (I := Asks) (fun s e asks => inRange_iff s e asks)
    (fun s e s' asks h => (step_follows s e s' h).asks asks) events {} nofun

def oneSignal : File where
  bytes := []
  text := "BO_ 1 A: 8 B\n SG_ C : 0|8@1+ (1,0) [0|0] \"\" D".toList

/-- A signal is added while no log is loaded. -/
theorem run_inRange_emptyLog :
    ¬ ∀ events, Machine.Along (step plainBuild 0 true) (InRange plainBuild 0 true) events {} := by
  intro h
  let asked : List Event := [.user .openDbcFile, .close (.fileNames ["a.dbc".toList]) 0,
    .finishDbc 0 fun _ => some oneSignal, .notifyDbc 0, .user (.signalPlotMenu 0), .user .addSignal]
  obtain ⟨s, ran, inRange⟩ := Machine.along_last asked _ (h (asked ++ [.close .accept 0])) (by decide +kernel)
  have fails : (Machine.run (step plainBuild 0 true) (asked ++ [.close .accept 0]) {}).map (fun _ => ()) =
      .error (.undefined .arrayIndex) := by
    decide +kernel
  rw [Machine.run_concat ran] at fails
  cases closed : s.step plainBuild 0 true (.close .accept 0) with
  | error e =>
    rw [closed] at fails
    exact inRange (.close .accept 0) (closed.trans (congrArg Except.error (Except.error.inj fails)))
  | ok s' =>
    rw [closed] at fails
    cases fails

end
end CanTracer.MainWindow
