import CanTracer.LogParser.WellFormed
import CanTracer.MainWindow.Databases

/-!
# Where the rows come from

What the log view shows below a message is decoded from a message of a file that was opened, by a signal
of a database that was opened, whatever happened in between.
-/

namespace CanTracer.MainWindow

section
variable {qt : Qt} {fuel : Nat} {takesNaN : Bool}

/-! ### The log -/

/-- The outcome of load `k` is that of the parse of its file. -/
def LogCame (qt : Qt) (fuel : Nat) (events : List Event) (k : Nat) (fileName : QString)
    (outcome : Except Failure (List CanLogMsg)) : Prop :=
  ∃ disk, .finishLog k disk ∈ events ∧ parseLog qt fuel disk fileName = some outcome

/-- A load that came to the log. -/
def LogLoaded (qt : Qt) (fuel : Nat) (events : List Event) (s : MainWindow) : Prop :=
  ∃ k fileName, s.logLoads.inputs[k]? = some fileName ∧ LogCame qt fuel events k fileName (.ok s.log)

structure LogInv (qt : Qt) (fuel : Nat) (events : List Event) (s : MainWindow) : Prop where
  outcomes : s.logLoads.Traced (LogCame qt fuel events)
  shown : s.log = [] ∨ LogLoaded qt fuel events s

theorem LogCame.mono {events : List Event} {k : Nat} {fileName : QString} {outcome : Except Failure (List CanLogMsg)}
    (came : LogCame qt fuel events k fileName outcome) (e : Event) : LogCame qt fuel (events ++ [e]) k fileName outcome := by
  obtain ⟨disk, finished, same⟩ := came
  exact ⟨disk, List.mem_append_left _ finished, same⟩

/-- A step that leaves the log as it is. -/
theorem LogInv.kept {events : List Event} {s s' : MainWindow} (inv : LogInv qt fuel events s) (e : Event)
    (outcomes : s'.logLoads.Traced (LogCame qt fuel (events ++ [e])))
    (inputs : ∀ (k : Nat) (fileName : QString), s.logLoads.inputs[k]? = some fileName → s'.logLoads.inputs[k]? = some fileName)
    (log : s'.log = s.log) : LogInv qt fuel (events ++ [e]) s' := by
  refine ⟨outcomes, ?_⟩
  rcases inv.shown with nothing | ⟨k, fileName, here, came⟩
  · exact .inl (log.trans nothing)
  · refine .inr ⟨k, fileName, inputs k fileName here, ?_⟩
    rw [log]
    exact came.mono e

theorem step_logInv (events : List Event) (s : MainWindow) (e : Event) (s' : MainWindow) (inv : LogInv qt fuel events s)
    (h : s.step qt fuel takesNaN e = .ok s') : LogInv qt fuel (events ++ [e]) s' := by
  have traced := inv.outcomes.mono fun _ _ _ came => LogCame.mono came e
  cases step_loads s e s' h with
  | kept loads log => exact inv.kept e (by rwa [loads]) (fun k fileName here => by rwa [loads]) log
  | opened fileName _ loads log =>
    refine inv.kept e (by rw [loads]; exact traced.cancel.start fileName) (fun k name here => ?_) log
    rw [loads, Futures.inputs_start, Futures.inputs_cancel, List.getElem?_append_left (List.getElem?_eq_some_iff.mp here).1]
    exact here
  | finished job disk event loads log =>
    refine inv.kept e ?_ (fun k name here => by rwa [loads, Futures.inputs_finish]) log
    rw [loads]
    refine traced.finish job fun fileName outcome came => ⟨disk, ?_, came⟩
    exact List.mem_append_right _ (List.mem_singleton.mpr event.symm)
  | dropped job loads log =>
    exact inv.kept e (by rw [loads]; exact traced.drop job) (fun k name here => by rwa [loads, Futures.inputs_drop]) log
  | notified job _ loads log =>
    obtain ⟨fileName, here, came⟩ := traced.result log
    refine ⟨by rw [loads]; exact traced.notify job, .inr ⟨s.logLoads.current, fileName, ?_, came⟩⟩
    rwa [loads, Futures.inputs_notify]

/-! ### Signal rows -/

theorem recolor_find {d : CanDb} {edits : List (UInt32 × QColor)} {id : UInt32} {msg : CanMessage}
    (found : (d.recolor edits).findMessage id = some msg) :
    ∃ written, d.findMessage id = some written ∧ written.canSignals = msg.canSignals := by
  have plain := plain_find (d.recolor edits) id
  rw [found, recolor_plain, ← plain_find] at plain
  obtain ⟨written, here, same⟩ := Option.map_eq_some_iff.mp plain.symm
  have signals : (written.setColor noColor).canSignals = (msg.setColor noColor).canSignals := congrArg _ same
  exact ⟨written, here, signals⟩

/-- The text is that of a signal of a loaded database in a message of a loaded log: the message stands at
row `r` of the parse of a file, the signal at place `i` of the message that the parse of some databases has
for the identifier. -/
structure Decodes (qt : Qt) (fuel : Nat) (print : Double → QString) (events : List Event) (s : MainWindow) (r i c : Nat)
    (text : QString) : Prop where
  log : LogLoaded qt fuel events s
  db : ∃ k fileNames disk item msg signal, s.dbcLoads.inputs[k]? = some fileNames ∧ .finishDbc k disk ∈ events ∧
    s.log[r]? = some item ∧ (parsed qt disk fileNames).findMessage item.id = some msg ∧
    msg.canSignals[i]? = some signal ∧ CanLogModel.signalText print signal item c = .ok text

theorem displayRowData_signal {print : Double → QString} {fixed : ℚ → QString} {m : CanLogModel} {db : CanDb} {r i c : Nat}
    {text : QString} (shown : m.data print fixed db (.valid i c (some r)) .display = .ok (.string text)) (column : c ≤ 3) :
    ∃ item msg signal, m.buffer[r]? = some item ∧ db.findMessage item.id = some msg ∧
      msg.canSignals[i]? = some signal ∧ CanLogModel.signalText print signal item c = .ok text := by
  rw [CanLogModel.data] at shown
  split at shown
  · cases shown
  · obtain ⟨_, -, shown⟩ := bind_ok shown
    obtain ⟨item, read, shown⟩ := bind_ok shown
    split at shown
    · cases shown
    · rename_i msg found
      obtain ⟨text', decoded, same⟩ := map_ok shown
      obtain rfl := QVariant.string.inj same
      obtain ⟨signal, here, -⟩ := bind_ok decoded
      rw [CanLogModel.displaySignalRow_eq (at_ok here) column] at decoded
      exact ⟨item, msg, signal, at_ok read, found, at_ok here, decoded⟩

/-- Along every run: whatever text a signal row shows, it is decoded from a message of the file whose parse
is the log by a signal of the files whose parse is the database. -/
theorem run_decodes {events : List Event} {s : MainWindow} (h : Machine.run (step qt fuel takesNaN) events {} = .ok s)
    {print : Double → QString} {fixed : ℚ → QString} {r i c : Nat} {text : QString}
    (shown : s.logs.model.data print fixed s.msgDb (.valid i c (some r)) .display = .ok (.string text)) (column : c ≤ 3) :
    Decodes qt fuel print events s r i c text := by
  have logInv : LogInv qt fuel events s := Machine.run_history ⟨nofun, .inl rfl⟩ step_logInv h
  have dbcInv : DbcInv qt events s := Machine.run_history ⟨.inl rfl, nofun, nofun, .inl ⟨rfl, nofun⟩⟩ step_dbcInv h
  obtain ⟨item, msg, signal, row, found, here, decoded⟩ := displayRowData_signal shown column
  refine ⟨logInv.shown.resolve_left fun nothing => ?_, ?_⟩
  · rw [log] at nothing
    rw [nothing] at row
    cases row
  · rcases dbcInv.shown with ⟨nothing, -⟩ | ⟨k, ⟨fileNames, disk, edits, names, finished, db⟩, -⟩
    · rw [nothing] at found
      cases found
    · rw [db] at found
      obtain ⟨written, found, signals⟩ := recolor_find found
      rw [← signals] at here
      exact ⟨k, fileNames, disk, item, written, signal, names, finished, row, found, here, decoded⟩

/-- A database for the message of `trcFile`. -/
def engine : File where
  bytes := []
  text := "BO_ 217056000 Engine: 8 B\n SG_ Torque : 0|8@1+ (1,0) [0|250] \"%\" B".toList

/-- Both files are opened, and while the log is shown the message gets a color. -/
def bothOpened : List Event :=
  [.user .openFile, .close (.fileNames ["a.trc".toList]) 0, .user .openDbcFile, .close (.fileNames ["a.dbc".toList]) 0,
    .finishDbc 0 fun _ => some engine, .finishLog 0 fun _ => some trcFile, .notifyDbc 0, .notifyLog 0,
    .user (.setColor 0 yellow)]

def threeText (v : Double) : QString := if v = .num 3 then ['3'] else []

theorem run_decodes_torque : ∃ s, Machine.run (step plainBuild 0 true) bothOpened {} = .ok s ∧
    Decodes plainBuild 0 threeText bothOpened s 0 0 2 ['3'] := by
  have text : (Machine.run (step plainBuild 0 true) bothOpened {}).map (fun s =>
      s.logs.model.data threeText (fun _ => []) s.msgDb (.valid 0 2 (some 0)) .display) = .ok (.ok (.string ['3'])) := by
    decide +kernel
  obtain ⟨s, ran, shown⟩ := map_ok text
  exact ⟨s, ran, run_decodes ran shown (by decide)⟩

end
end CanTracer.MainWindow
