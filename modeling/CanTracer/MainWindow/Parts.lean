import CanTracer.CanMsgModel
import CanTracer.MainWindow.Basic
import CanTracer.MainWindow.Loading

/-!
# The parts of the window

A run of the window is, for its highlights, for its plots and for its loads of logs, a run of that
part alone, so what holds along every run of a part holds of it inside the window. An edit of a color is
one of the message table.
-/

namespace CanTracer.MainWindow

/-- The loads and the log of the window are those of the other. -/
structure LoadsAs (s : MainWindow) (w : LoadWindow) : Prop where
  loads : w.loads = s.logLoads
  log : w.log = s.log

section
variable (qt : Qt) (fuel : Nat)

/-- A parse that ends does not throw. -/
def Returns (s : MainWindow) (e : Event) : Prop :=
  ∀ k disk, e = .finishLog k disk → ∀ job ∈ s.logLoads.jobs[k]?, ∀ failure,
    parseLog qt fuel disk job.input ≠ some (.error failure)

variable {qt fuel} {takesNaN : Bool}

theorem setColor_setData {s : MainWindow} {row : Nat} (inside : row < s.msgDb.db.length) (column : Nat) (color : QColor) :
    CanMsgModel.setData s.msgDb (.valid row column none) color .edit = .ok (true, (s.setColor row color).msgDb) := by
  have here : s.msgDb.db[row]? = some s.msgDb.db[row] := List.getElem?_eq_getElem inside
  rw [CanMsgModel.setData, at_some here, setColor, here]
  rfl

/-! ### Highlights and plots -/

theorem run_logs {events : List Event} {s : MainWindow} (h : Machine.run (step qt fuel takesNaN) events {} = .ok s) :
    ∃ es, Machine.run LogWindow.step es {} = .ok s.logs := by
  obtain ⟨es, logs, ran, rfl⟩ := Machine.run_simulates (R := fun s logs => logs = s.logs) (P := fun _ _ => True)
    (fun s e s' logs same _ stepped => ⟨s'.logs, by rw [same]; exact (step_follows s e s' stepped).logs, rfl⟩)
    events {} s {} rfl (Machine.along_true events _) h
  exact ⟨es, ran⟩

theorem run_plots {events : List Event} {s : MainWindow} (h : Machine.run (step qt fuel takesNaN) events {} = .ok s) :
    ∃ es, Machine.run PlotWindow.step es {} = .ok s.plots := by
  obtain ⟨es, plots, ran, rfl⟩ := Machine.run_simulates (R := fun s plots => plots = s.plots) (P := fun _ _ => True)
    (fun s e s' plots same _ stepped => ⟨s'.plots, by rw [same]; exact (step_follows s e s' stepped).plots, rfl⟩)
    events {} s {} rfl (Machine.along_true events _) h
  exact ⟨es, ran⟩

/-! ### Loads -/

/-- Where the load of the member future has ended, the slot installs its result. -/
theorem onLoadLogFile_ended {w : LoadWindow} {log : List CanLogMsg}
    (ended : w.loads.jobs[w.loads.current]?.any (·.finished) = true) (result : w.loads.result = some (.ok log))
    (file : Option File) :
    ∃ w', w.onLoadLogFile qt fuel file = .ok w' ∧ w'.loads = w.loads ∧ w'.log = log := by
  obtain ⟨job, here, finished⟩ := (Option.any_eq_true _ _).mp ended
  have stays : w.loads.finish w.loads.current (returned qt fuel file) = w.loads := by
    refine Futures.finish_ended (fun other there => ?_) _
    rw [← Option.some.inj (here.symm.trans there)]
    exact finished
  rw [Futures.result, here, Option.bind_some] at result
  unfold LoadWindow.onLoadLogFile
  simp only [stays, here, finished, result, if_true]
  exact ⟨_, rfl, rfl, rfl⟩

theorem parseLog_returned {fileName : QString} {disk : QString → Option File}
    (returns : ∀ failure, parseLog qt fuel disk fileName ≠ some (.error failure)) :
    parseLog qt fuel disk fileName = returned qt fuel (disk fileName) fileName := by
  unfold parseLog at returns ⊢
  unfold returned
  cases parsed : Parser.parse qt fuel fileName (disk fileName) with
  | none => rfl
  | some outcome =>
    rw [parsed] at returns
    cases outcome with
    | ok log => rfl
    | error failure =>
      cases failure with
      | undefined op => rfl
      | outOfRange => exact absurd rfl (returns .outOfRange)
      | runtimeError what => exact absurd rfl (returns (.runtimeError what))

theorem loads_simulates (s : MainWindow) (e : Event) (s' : MainWindow) (w : LoadWindow) (same : s.LoadsAs w)
    (returns : s.Returns qt fuel e) (h : s.step qt fuel takesNaN e = .ok s') :
    ∃ w', (w' = w ∨ ∃ e', w.step qt fuel e' = .ok w') ∧ s'.LoadsAs w' := by
  obtain ⟨same, log⟩ := same
  cases step_loads s e s' h with
  | kept loads kept => exact ⟨w, .inl rfl, same.trans loads.symm, log.trans kept.symm⟩
  | opened fileName some loads kept =>
    refine ⟨w.openFile fileName, .inr ⟨.openFile fileName, rfl⟩, ?_, ?_⟩
    · rw [LoadWindow.openFile, if_neg some, loads, same]
    · rw [LoadWindow.openFile, if_neg some]
      exact log.trans kept.symm
  | finished job disk event loads kept =>
    refine ⟨_, .inr ⟨.finish job ((s.logLoads.jobs[job]?).bind fun job => disk job.input), rfl⟩, ?_, log.trans kept.symm⟩
    rw [loads, same]
    refine Futures.finish_congr fun old here => ?_
    rw [Option.mem_def.mp here, Option.bind_some]
    exact (parseLog_returned (returns job disk event old here)).symm
  | dropped job loads kept =>
    exact ⟨_, .inr ⟨.drop job, rfl⟩, by rw [loads, same], log.trans kept.symm⟩
  | notified job pending loads result =>
    obtain ⟨unread, ended⟩ := Bool.and_eq_true_iff.mp pending
    obtain ⟨w', installed, loads', log'⟩ := @onLoadLogFile_ended qt fuel { w with loads := s.logLoads.notify job } s'.log
      (Futures.ended_notify ended job) ((s.logLoads.result_notify job).trans result) none
    refine ⟨w', .inr ⟨.notify job none, ?_⟩, loads'.trans loads.symm, log'⟩
    rw [LoadWindow.step, same, if_pos unread]
    exact installed

/-- A run of the window in which no parse throws is, for its loads and its log, a run of `LoadWindow`. -/
theorem run_loads {events : List Event} {s : MainWindow}
    (returns : Machine.Along (step qt fuel takesNaN) (Returns qt fuel) events {})
    (h : Machine.run (step qt fuel takesNaN) events {} = .ok s) :
    ∃ es w, Machine.run (LoadWindow.step qt fuel) es {} = .ok w ∧ s.LoadsAs w :=
  Machine.run_simulates (fun s e s' w same returns h => loads_simulates s e s' w same returns h) events {} s {}
    ⟨rfl, rfl⟩ returns h

end
end CanTracer.MainWindow
