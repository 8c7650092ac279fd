import CanTracer.Futures
import CanTracer.LogParser.Basic
import CanTracer.Machine

/-!
# Loading logs

`MainWindow::openFile` starts a parse in the background and hands its future to the watcher;
`onLoadLogFile` installs the result of the member future when a notification comes. Several parses
may run, end in any order, and notify late.
-/

namespace CanTracer

/-- A log put on display: which load it is the result of, and how many files had been opened. It is
not in the code. -/
structure Install where
  run : Nat
  opened : Nat
  log : List CanLogMsg

/-- The job of `loads` that is current is the one `logFuture` belongs to. -/
structure LoadWindow where
  loads : Futures QString Failure (List CanLogMsg) := {}
  log : List CanLogMsg := []
  installs : List Install := []

/-- What can happen. `file` is what the file holds when a parse ends, `none` when it cannot be opened;
a load that was cancelled before its thread took it up ends without a parse. -/
inductive LoadEvent where
  | openFile (fileName : QString)
  | finish (run : Nat) (file : Option File)
  | drop (run : Nat)
  | notify (run : Nat) (file : Option File)

section
variable (qt : Qt) (fuel : Nat)

/-- What a parse comes to. One that does not return normally does not end its load. -/
def returned (file : Option File) (fileName : QString) : Option (Except Failure (List CanLogMsg)) :=
  match Parser.parse qt fuel fileName file with
  | some (.ok log) => some (.ok log)
  | _ => none

namespace LoadWindow

/-- `QFuture::cancel` does not stop a parse that is running. -/
def openFile (s : LoadWindow) (fileName : QString) : LoadWindow :=
  if fileName = [] then s else { s with loads := s.loads.cancel.start fileName }

/-- `QFuture::result` waits for the load of the member future; without a result it has no value. -/
def onLoadLogFile (s : LoadWindow) (file : Option File) : Except Failure LoadWindow :=
  let loads := s.loads.finish s.loads.current (returned qt fuel file)
  match loads.jobs[loads.current]? with
  | none => .error (.undefined .arrayIndex)
  | some job =>
    if job.finished then
      match job.outcome with
      | none => .error (.undefined .arrayIndex)
      | some (.error failure) => .error failure
      | some (.ok log) => .ok { s with
          loads := loads
          log := log
          installs := s.installs ++ [⟨loads.current, loads.jobs.length, log⟩] }
    else .ok s

/-- A load notifies once, after its end, whether or not it still is that of the member future. -/
def step (s : LoadWindow) : LoadEvent → Except Failure LoadWindow
  | .openFile fileName => .ok (s.openFile fileName)
  | .finish k file => .ok { s with loads := s.loads.finish k (returned qt fuel file) }
  | .drop k => .ok { s with loads := s.loads.drop k }
  | .notify k file =>
    if s.loads.jobs[k]?.any (fun job => job.finished && !job.notified) then
      { s with loads := s.loads.notify k }.onLoadLogFile qt fuel file
    else .ok s

def fileNames (s : LoadWindow) : List QString := s.loads.inputs

/-- Every log installed is the parse of the file opened last at that moment, and none of them is of a
file opened before that of an earlier one. -/
structure LatestWins (s : LoadWindow) : Prop where
  latest : ∀ i ∈ s.installs, i.run + 1 = i.opened
  parsed : ∀ i ∈ s.installs, ∃ fileName ∈ s.fileNames[i.run]?, ∃ file,
    Parser.parse qt fuel fileName file = some (.ok i.log)
  order : s.installs.Pairwise fun i j => i.run ≤ j.run
  shown : s.log = s.installs.getLast?.elim [] (·.log)

/-- The outcome is a log that the file was parsed to. -/
def Parsed (fileName : QString) (outcome : Except Failure (List CanLogMsg)) : Prop :=
  ∃ log file, outcome = .ok log ∧ Parser.parse qt fuel fileName file = some (.ok log)

structure Inv (s : LoadWindow) : Prop where
  wins : s.LatestWins qt fuel
  opened : ∀ i ∈ s.installs, i.opened ≤ s.loads.jobs.length
  newest : s.loads.Newest
  ready : s.loads.Ready
  parsed : s.loads.Traced fun _ => Parsed qt fuel

/-! ### What a step does -/

variable {qt fuel}

theorem returned_parsed {file : Option File} {fileName : QString} {outcome : Except Failure (List CanLogMsg)}
    (comes : returned qt fuel file fileName = some outcome) : Parsed qt fuel fileName outcome := by
  unfold returned at comes
  split at comes
  · rename_i log parsed
    exact ⟨log, file, (Option.some.inj comes).symm, parsed⟩
  · cases comes

/-- The loads go on, for the same files. -/
theorem Inv.moved {s : LoadWindow} (inv : s.Inv qt fuel) {loads : Futures QString Failure (List CanLogMsg)}
    (inputs : loads.inputs = s.loads.inputs) (current : loads.current = s.loads.current) (ready : loads.Ready)
    (parsed : loads.Traced fun _ => Parsed qt fuel) : Inv qt fuel { s with loads := loads } := by
  have names : fileNames { s with loads := loads } = s.fileNames := inputs
  refine ⟨⟨inv.wins.latest, by rw [names]; exact inv.wins.parsed, inv.wins.order, inv.wins.shown⟩, ?_,
    inv.newest.kept inputs current, ready, parsed⟩
  rw [← Futures.length_inputs, inputs, Futures.length_inputs]
  exact inv.opened

theorem Inv.finish {s : LoadWindow} (inv : s.Inv qt fuel) (k : Nat) (file : Option File) :
    Inv qt fuel { s with loads := s.loads.finish k (returned qt fuel file) } :=
  inv.moved (Futures.inputs_finish _ k _) rfl (inv.ready.finish k _)
    (inv.parsed.finish k fun _ _ comes => returned_parsed comes)

theorem openFile_inv {s : LoadWindow} (inv : s.Inv qt fuel) (fileName : QString) :
    (s.openFile fileName).Inv qt fuel := by
  unfold openFile
  split
  · exact inv
  · have opened : (s.loads.cancel.start fileName).jobs.length = s.loads.jobs.length + 1 := by
      rw [Futures.start, List.length_append, Futures.cancel, List.length_modify]
      rfl
    refine ⟨⟨inv.wins.latest, fun i hi => ?_, inv.wins.order, inv.wins.shown⟩, fun i hi => ?_, .start _ fileName,
      .start _ fileName, inv.parsed.cancel.start fileName⟩
    · obtain ⟨name, here, parsed⟩ := inv.wins.parsed i hi
      refine ⟨name, ?_, parsed⟩
      have inside : i.run < s.loads.inputs.length := (List.getElem?_eq_some_iff.mp here).1
      rw [fileNames, Futures.inputs_start, Futures.inputs_cancel, Option.mem_def, List.getElem?_append_left inside]
      exact here
    · rw [opened]
      exact Nat.le_add_right_of_le (inv.opened i hi)

theorem onLoadLogFile_ok {s : LoadWindow} (inv : s.Inv qt fuel) (opened : s.loads.jobs ≠ [])
    (file : Option File) :
    ∃ s', s.onLoadLogFile qt fuel file = .ok s' ∧ s'.Inv qt fuel := by
  have kept := inv.finish s.loads.current file
  have some : (s.loads.finish s.loads.current (returned qt fuel file)).jobs ≠ [] :=
    fun empty => opened (List.modify_eq_nil_iff.mp empty)
  unfold onLoadLogFile
  dsimp only
  generalize s.loads.finish s.loads.current (returned qt fuel file) = loads at kept some
  have last : loads.current + 1 = loads.jobs.length := kept.newest.resolve_left some
  have here := List.getElem?_eq_getElem (show loads.current < loads.jobs.length by omega)
  generalize loads.jobs[loads.current] = job at here
  rw [here]
  dsimp only
  split
  · rename_i ended
    obtain ⟨outcome, is⟩ := Option.isSome_iff_exists.mp ((kept.ready job here).ended ended)
    obtain ⟨log, content, rfl, parsed⟩ := kept.parsed _ job outcome here is
    rw [is]
    refine ⟨_, rfl, ⟨?_, ?_, ?_, ?_⟩, ?_, kept.newest, kept.ready, kept.parsed⟩
    · exact List.forall_mem_append.mpr ⟨inv.wins.latest, List.forall_mem_singleton.mpr last⟩
    · refine List.forall_mem_append.mpr ⟨kept.wins.parsed,
        List.forall_mem_singleton.mpr ⟨job.input, ?_, content, parsed⟩⟩
      rw [fileNames, Futures.inputs, Option.mem_def, List.getElem?_map, here]
      rfl
    · refine List.pairwise_append.mpr ⟨inv.wins.order, List.pairwise_singleton _ _, fun i hi j hj => ?_⟩
      obtain rfl := List.mem_singleton.mp hj
      have before : i.opened ≤ loads.jobs.length := kept.opened i hi
      have latest := inv.wins.latest i hi
      change i.run ≤ loads.current
      omega
    · rw [List.getLast?_concat]
      rfl
    · exact List.forall_mem_append.mpr ⟨kept.opened, List.forall_mem_singleton.mpr (Nat.le_refl _)⟩
  · exact ⟨s, rfl, inv⟩

theorem step_ok (s : LoadWindow) (e : LoadEvent) (inv : s.Inv qt fuel) :
    ∃ s', s.step qt fuel e = .ok s' ∧ s'.LatestWins qt fuel ∧ s'.Inv qt fuel := by
  suffices h : ∃ s', s.step qt fuel e = .ok s' ∧ s'.Inv qt fuel by
    obtain ⟨s', stepped, inv'⟩ := h
    exact ⟨s', stepped, inv'.wins, inv'⟩
  cases e with
  | openFile fileName => exact ⟨_, rfl, openFile_inv inv fileName⟩
  | finish k file => exact ⟨_, rfl, inv.finish k file⟩
  | drop k => exact ⟨_, rfl, inv.moved (Futures.inputs_drop _ k) rfl (inv.ready.drop k) (inv.parsed.drop k)⟩
  | notify k file =>
    rw [step]
    split
    · rename_i unread
      obtain ⟨job, here, -⟩ := (Option.any_eq_true _ _).mp unread
      have notified : Inv qt fuel { s with loads := s.loads.notify k } :=
        inv.moved (Futures.inputs_notify _ k) rfl (inv.ready.notify k) (inv.parsed.notify k)
      refine onLoadLogFile_ok notified (fun empty => ?_) file
      rw [List.modify_eq_nil_iff.mp empty] at here
      cases here
    · exact ⟨s, rfl, inv⟩

theorem initial_inv : Inv qt fuel {} := ⟨⟨nofun, nofun, .nil, rfl⟩, nofun, .inl rfl, nofun, nofun⟩

/-- In every run the log on display is the parse of the file opened last when it was installed. -/
theorem run_latest (qt : Qt) (fuel : Nat) (events : List LoadEvent) :
    Machine.Good (step qt fuel) (fun _ _ s' => s'.LatestWins qt fuel) events {} :=
  Machine.good_of_round step_ok events {} initial_inv

end LoadWindow
end
end CanTracer
