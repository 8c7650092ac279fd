import CanTracer.MainWindow.Basic

/-!
# Failed loads

A parse that cannot read its file throws, the future keeps the exception, and `onLoadLogFile` throws
it again when it reads the future. The slot has no handler.
-/

namespace CanTracer.MainWindow

/-- The parsed log is shown, without highlights and plots. -/
structure Installed (s s' : MainWindow) : Prop where
  parsed : s.logLoads.result = some (.ok s'.log)
  highlights : s'.logs.model.highlights = (fun _ => false, fun _ => false)
  plots : s'.plots.plotModel = {}
  time : s'.time = timeSpan s.time s'.log

structure Untouched (s s' : MainWindow) : Prop where
  model : s'.logs.model = s.logs.model
  plots : s'.plots.plotModel = s.plots.plotModel
  time : s'.time = s.time

section
variable (qt : Qt) (fuel : Nat) (takesNaN : Bool)

/-- What the notification of a log load should do: return, with the log installed or nothing changed. -/
def Contained (s : MainWindow) (e : Event) : Prop :=
  ∀ job, e = .notifyLog job → ∃ s', s.step qt fuel takesNaN e = .ok s' ∧ (Installed s s' ∨ Untouched s s')

/-- When a notification calls the slot, the parse of the file opened last has not ended in an
exception. -/
def Parsed (s : MainWindow) (e : Event) : Prop :=
  ∀ job, e = .notifyLog job → s.logLoads.pending job = true → ∀ failure, s.logLoads.result ≠ some (.error failure)

variable {qt fuel takesNaN}

theorem onLoadLogFile_ok {s : MainWindow} {log : List CanLogMsg} (parsed : s.logLoads.result = some (.ok log)) :
    ∃ s', s.onLoadLogFile = .ok s' ∧ Installed s s' := by
  unfold onLoadLogFile
  rw [parsed]
  exact ⟨_, rfl, parsed, rfl, rfl, rfl⟩

theorem onLoadLogFile_error {s : MainWindow} {failure : Failure}
    (thrown : s.logLoads.result = some (.error failure)) : s.onLoadLogFile = .error failure := by
  unfold onLoadLogFile
  rw [thrown]

theorem contained_iff (s : MainWindow) (e : Event) (ready : s.logLoads.Ready) :
    s.Contained qt fuel takesNaN e ↔ s.Parsed e := by
  constructor
  · rintro contained job rfl pending failure thrown
    obtain ⟨s', stepped, -⟩ := contained job rfl
    rw [← s.logLoads.result_notify job] at thrown
    rw [step, if_pos pending, onLoadLogFile_error thrown] at stepped
    cases stepped
  · rintro parsed job rfl
    cases pending : s.logLoads.pending job with
    | false => exact ⟨s, by rw [step, pending]; rfl, .inr ⟨rfl, rfl, rfl⟩⟩
    | true =>
      obtain ⟨outcome, result⟩ := ready.result pending
      cases outcome with
      | error failure => exact absurd result (parsed job rfl pending failure)
      | ok log =>
        rw [← s.logLoads.result_notify job] at result
        obtain ⟨s', loaded, installed⟩ :=
          onLoadLogFile_ok (s := { s with logLoads := s.logLoads.notify job }) result
        refine ⟨s', by rw [step, pending]; exact loaded, .inl ⟨?_, installed.highlights, installed.plots, installed.time⟩⟩
        rw [← s.logLoads.result_notify job]
        exact installed.parsed

/-- Every notification of a run is contained exactly when none of them finds an exception. -/
theorem run_contained_iff (qt : Qt) (fuel : Nat) (takesNaN : Bool) (events : List Event) :
    Machine.Along (step qt fuel takesNaN) (Contained qt fuel takesNaN) events {} ↔
      Machine.Along (step qt fuel takesNaN) Parsed events {} :=
  Machine.along_congr (I := fun s => s.logLoads.Ready) (fun s e ready => contained_iff s e ready)
    step_ready events {} nofun

/-- A file that cannot be opened. -/
theorem run_contained_unreadable :
    ¬ ∀ events, Machine.Along (step plainBuild 0 true) (Contained plainBuild 0 true) events {} := by
  intro h
  let opened : List Event := [.user .openFile, .close (.fileNames ["a.trc".toList]) 0, .finishLog 0 fun _ => none]
  obtain ⟨s, ran, contained⟩ := Machine.along_last opened _ (h (opened ++ [.notifyLog 0])) (by decide +kernel)
  obtain ⟨s', returned, -⟩ := contained 0 rfl
  have throws : (Machine.run (step plainBuild 0 true) (opened ++ [.notifyLog 0]) {}).isOk = false := by decide +kernel
  rw [Machine.run_concat ran, returned] at throws
  cases throws

end
end CanTracer.MainWindow
