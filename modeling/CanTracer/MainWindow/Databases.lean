import CanTracer.CanMsgModel
import CanTracer.MainWindow.Basic

/-!
# Loads of databases

`openDbcFile` and `onLoadDbcFile` against the edits of colors. An older parse is not cancelled when new
files are opened, but whichever notification arrives, the slot reads the newest future.
-/

namespace CanTracer

/-- The messages up to their colors. -/
def CanDb.plain (d : CanDb) : List CanMessage := d.db.map (·.setColor noColor)

/-- Edits of colors, one after the other. -/
def CanDb.recolor (d : CanDb) (edits : List (UInt32 × QColor)) : CanDb := edits.foldl (fun d e => d.setColor e.1 e.2) d

theorem setColor_plain (d : CanDb) (id : UInt32) (color : QColor) : (d.setColor id color).plain = d.plain := by
  refine List.ext_getElem? fun k => ?_
  rw [CanDb.plain, CanDb.plain, List.getElem?_map, List.getElem?_map, CanMsgModel.setColor_getElem?]
  split
  · cases d.db[k]? <;> rfl
  · rfl

theorem recolor_plain (edits : List (UInt32 × QColor)) : ∀ d : CanDb, (d.recolor edits).plain = d.plain := by
  induction edits with
  | nil => exact fun d => rfl
  | cons edit edits ih => exact fun d => (ih _).trans (setColor_plain d edit.1 edit.2)

/-- The name that the log shows for an identifier. -/
def CanDb.nameOf (d : CanDb) (id : UInt32) : QString := (d.findMessage id).elim [] (·.name)

theorem plain_find (d : CanDb) (id : UInt32) :
    (d.findMessage id).map (·.setColor noColor) = d.plain.find? (·.id == id) := by
  rw [CanDb.findMessage, CanDb.plain, List.find?_map]
  rfl

theorem nameOf_plain {d d' : CanDb} (same : d'.plain = d.plain) (id : UInt32) : d'.nameOf id = d.nameOf id := by
  have plain (d : CanDb) : d.nameOf id = (d.plain.find? (·.id == id)).elim [] (·.name) := by
    rw [← plain_find, CanDb.nameOf]
    cases d.findMessage id <;> rfl
  rw [plain, plain, same]

abbrev DbcJob := Futures.Job (List QString) Failure CanDb

namespace MainWindow

section
variable (qt : Qt) (fuel : Nat)

/-- What a step does with the database and its loads, the log and the filters. -/
inductive Effect (s : MainWindow) (e : Event) (s' : MainWindow) : Prop where
  | kept (log : s'.log = s.log) (filters : s'.proxyModel = s.proxyModel) (loads : s'.dbcLoads = s.dbcLoads)
    (db : s'.msgDb = s.msgDb)
  | colored (row : Nat) (color : QColor) (msg : CanMessage) (event : e = .user (.setColor row color))
    (here : s.msgDb.db[row]? = some msg) (log : s'.log = s.log) (filters : s'.proxyModel = s.proxyModel)
    (loads : s'.dbcLoads = s.dbcLoads) (db : s'.msgDb = s.msgDb.setColor msg.id color)
  | filtered (index : UInt8) (text old : QString) (endId : UInt32) (event : e = .close (.text text) endId)
    (asked : s.dialog = some (.filter index old)) (log : s'.log = s.log)
    (filters : s'.proxyModel = s.proxyModel.setFilter index text) (loads : s'.dbcLoads = s.dbcLoads)
    (db : s'.msgDb = s.msgDb)
  | openedDbc (answer : Answer) (endId : UInt32) (event : e = .close answer endId)
    (asked : s.dialog = some .openDbcFile) (log : s'.log = s.log) (filters : s'.proxyModel = s.proxyModel)
    (loads : s'.dbcLoads = s.dbcLoads.start answer.names) (db : s'.msgDb = s.msgDb)
  | finishedDbc (job : Nat) (disk : QString → Option File) (event : e = .finishDbc job disk) (log : s'.log = s.log)
    (filters : s'.proxyModel = s.proxyModel) (loads : s'.dbcLoads = s.dbcLoads.finish job (parseDbc qt disk))
    (db : s'.msgDb = s.msgDb)
  | loadedDbc (job : Nat) (event : e = .notifyDbc job) (pending : s.dbcLoads.pending job = true) (log : s'.log = s.log)
    (filters : s'.proxyModel = s.proxyModel) (loads : s'.dbcLoads = s.dbcLoads.notify job)
    (db : s.dbcLoads.result = some (.ok s'.msgDb))
  | loadedLog (job : Nat) (event : e = .notifyLog job) (pending : s.logLoads.pending job = true)
    (filters : s'.proxyModel = s.proxyModel) (loads : s'.dbcLoads = s.dbcLoads) (db : s'.msgDb = s.msgDb)

variable {qt fuel} {takesNaN : Bool}

theorem act_effect {s s' : MainWindow} {action : Action} (h : s.act action = .ok s') :
    Effect qt s (.user action) s' := by
  have log := (act_loads h).2
  cases action with
  | openFile | openDbcFile | headerContextMenu index =>
    rw [← Except.ok.inj h]
    exact .kept rfl rfl rfl rfl
  | contextMenu row | highlight target menu =>
    obtain ⟨logs, -, h⟩ := bind_ok h
    rw [← Except.ok.inj h] at log ⊢
    exact .kept log rfl rfl rfl
  | signalPlotMenu row =>
    rw [← Except.ok.inj h, onSignalPlotMenu]
    split <;> exact .kept rfl rfl rfl rfl
  | addSignal =>
    rw [act] at h
    split at h
    · rw [← Except.ok.inj h]
      exact .kept rfl rfl rfl rfl
    · obtain ⟨dialog, -, h⟩ := bind_ok h
      rw [← Except.ok.inj h]
      exact .kept rfl rfl rfl rfl
  | removeSignal menu =>
    obtain ⟨plots, -, h⟩ := bind_ok h
    rw [← Except.ok.inj h]
    exact .kept rfl rfl rfl rfl
  | setColor row color =>
    rw [← Except.ok.inj h, setColor]
    split
    · exact .kept rfl rfl rfl rfl
    · rename_i msg here
      exact .colored row color msg rfl here rfl rfl rfl rfl

theorem closed_effect {s s' : MainWindow} {answer : Answer} {endId : UInt32} {dialog : Dialog}
    (asked : s.dialog = some dialog) (h : closed takesNaN { s with dialog := none } answer endId dialog = .ok s') :
    Effect qt s (.close answer endId) s' := by
  cases dialog with
  | openFile =>
    rw [← Except.ok.inj h, openFileClosed]
    split <;> exact .kept rfl rfl rfl rfl
  | openDbcFile =>
    rw [← Except.ok.inj h]
    exact .openedDbc answer endId rfl asked rfl rfl rfl rfl
  | filter index old =>
    rw [← Except.ok.inj h]
    cases answer with
    | text text => exact .filtered index text old endId rfl asked rfl rfl rfl rfl
    | cancel | fileNames names | accept => exact .kept rfl rfl rfl rfl
  | selectSignal dialog =>
    obtain ⟨msgId, signal, rfl⟩ := onAddSignalClosed_ok h
    exact .kept rfl rfl rfl rfl

theorem step_effect (s : MainWindow) (e : Event) (s' : MainWindow) (h : s.step qt fuel takesNaN e = .ok s') :
    Effect qt s e s' := by
  cases e with
  | user action =>
    rw [step] at h
    split at h
    · rw [← Except.ok.inj h]
      exact .kept rfl rfl rfl rfl
    · exact act_effect h
  | selectMessage row =>
    rw [step] at h
    split at h
    · obtain ⟨d, -, h⟩ := bind_ok h
      rw [← Except.ok.inj h]
      exact .kept rfl rfl rfl rfl
    · rw [← Except.ok.inj h]
      exact .kept rfl rfl rfl rfl
  | selectSignal row =>
    rw [step] at h
    split at h <;> rw [← Except.ok.inj h] <;> exact .kept rfl rfl rfl rfl
  | close answer endId =>
    rw [step] at h
    split at h
    · rename_i dialog asked
      exact closed_effect asked h
    · rw [← Except.ok.inj h]
      exact .kept rfl rfl rfl rfl
  | finishLog job disk | dropLog job =>
    rw [← Except.ok.inj h]
    exact .kept rfl rfl rfl rfl
  | notifyLog job =>
    rw [step] at h
    split at h
    · rename_i pending
      unfold onLoadLogFile at h
      split at h
      · cases h
      · cases h
      · rw [← Except.ok.inj h]
        exact .loadedLog job rfl pending rfl rfl rfl
    · rw [← Except.ok.inj h]
      exact .kept rfl rfl rfl rfl
  | finishDbc job disk =>
    rw [← Except.ok.inj h]
    exact .finishedDbc job disk rfl rfl rfl rfl rfl
  | notifyDbc job =>
    rw [step] at h
    split at h
    · rename_i pending
      unfold onLoadDbcFile at h
      split at h
      · cases h
      · cases h
      · rename_i db result
        rw [← Except.ok.inj h]
        exact .loadedDbc job rfl pending rfl rfl rfl ((s.dbcLoads.result_notify job).symm.trans result)
    · rw [← Except.ok.inj h]
      exact .kept rfl rfl rfl rfl

/-! ### The newest parse -/

/-- What the names of a load and the disk at its end come to. -/
def parsed (qt : Qt) (disk : QString → Option File) (fileNames : List QString) : CanDb :=
  Dbc.parse qt (fileNames.map fun name => (disk name).map (·.text))

/-- The outcome of load `k` is a parse of its files. -/
def DbcCame (qt : Qt) (events : List Event) (k : Nat) (fileNames : List QString) (outcome : Except Failure CanDb) : Prop :=
  ∃ disk, .finishDbc k disk ∈ events ∧ outcome = .ok (parsed qt disk fileNames)

/-- The database is the parse of load `k`, with the edits of colors made since, and no later load has been
noticed. -/
structure Shows (qt : Qt) (events : List Event) (s : MainWindow) (k : Nat) : Prop where
  parse : ∃ fileNames disk edits, s.dbcLoads.inputs[k]? = some fileNames ∧ .finishDbc k disk ∈ events ∧
    s.msgDb = (parsed qt disk fileNames).recolor edits
  newest : ∀ j later, s.dbcLoads.jobs[j]? = some later → later.notified = true → j ≤ k

structure DbcInv (qt : Qt) (events : List Event) (s : MainWindow) : Prop where
  newest : s.dbcLoads.Newest
  ready : s.dbcLoads.Ready
  outcomes : s.dbcLoads.Traced (DbcCame qt events)
  shown : s.msgDb = {} ∧ (∀ job ∈ s.dbcLoads.jobs, job.notified = false) ∨ ∃ k, Shows qt events s k

/-! ### What the steps keep -/

theorem DbcCame.mono {events : List Event} {k : Nat} {fileNames : List QString} {outcome : Except Failure CanDb}
    (came : DbcCame qt events k fileNames outcome) (e : Event) : DbcCame qt (events ++ [e]) k fileNames outcome := by
  obtain ⟨disk, finished, same⟩ := came
  exact ⟨disk, List.mem_append_left _ finished, same⟩

theorem Shows.mono {events : List Event} {s s' : MainWindow} {k : Nat} (shows : Shows qt events s k) (e : Event)
    (inputs : ∀ fileNames, s.dbcLoads.inputs[k]? = some fileNames → s'.dbcLoads.inputs[k]? = some fileNames)
    (noticed : ∀ (j : Nat) (later : DbcJob), s'.dbcLoads.jobs[j]? = some later → later.notified = true →
      ∃ old : DbcJob, s.dbcLoads.jobs[j]? = some old ∧ old.notified = true)
    (db : ∃ edits, s'.msgDb = s.msgDb.recolor edits) : Shows qt (events ++ [e]) s' k := by
  obtain ⟨⟨fileNames, disk, edits, here, finished, shown⟩, newest⟩ := shows
  obtain ⟨more, db⟩ := db
  refine ⟨⟨fileNames, disk, edits ++ more, inputs fileNames here, List.mem_append_left _ finished, ?_⟩,
    fun j later there is => ?_⟩
  · rw [db, shown, CanDb.recolor, CanDb.recolor, CanDb.recolor, List.foldl_append]
  · obtain ⟨old, there', is'⟩ := noticed j later there is
    exact newest j old there' is'

theorem recolor_empty (edits : List (UInt32 × QColor)) : CanDb.recolor {} edits = {} := by
  induction edits with
  | nil => rfl
  | cons edit edits ih => exact ih

/-- A step that leaves the loads as they are and at most recolors the database. -/
theorem DbcInv.kept {events : List Event} {s s' : MainWindow} (inv : DbcInv qt events s) (e : Event)
    (loads : s'.dbcLoads = s.dbcLoads) (db : ∃ edits, s'.msgDb = s.msgDb.recolor edits) :
    DbcInv qt (events ++ [e]) s' := by
  refine ⟨by rw [loads]; exact inv.newest, by rw [loads]; exact inv.ready, ?_, ?_⟩
  · rw [loads]
    exact inv.outcomes.mono fun _ _ _ came => came.mono e
  · rcases inv.shown with ⟨nothing, unnoticed⟩ | ⟨k, shows⟩
    · obtain ⟨edits, db⟩ := db
      exact .inl ⟨by rw [db, nothing, recolor_empty], by rw [loads]; exact unnoticed⟩
    · refine .inr ⟨k, shows.mono e (fun fileNames here => by rwa [loads]) (fun j later there is => ?_) db⟩
      rw [loads] at there
      exact ⟨later, there, is⟩

theorem DbcInv.opened {events : List Event} {s s' : MainWindow} (inv : DbcInv qt events s) (e : Event)
    {fileNames : List QString} (loads : s'.dbcLoads = s.dbcLoads.start fileNames) (db : s'.msgDb = s.msgDb) :
    DbcInv qt (events ++ [e]) s' := by
  have old {k : Nat} {job : DbcJob} (here : s'.dbcLoads.jobs[k]? = some job) (is : job.notified = true) :
      s.dbcLoads.jobs[k]? = some job := by
    rw [loads, Futures.start] at here
    rcases Nat.lt_or_ge k s.dbcLoads.jobs.length with before | behind
    · rwa [List.getElem?_append_left before] at here
    · rw [List.getElem?_append_right behind] at here
      rw [List.mem_singleton.mp (List.mem_of_getElem? here)] at is
      cases is
  refine ⟨by rw [loads]; exact .start _ _, by rw [loads]; exact .start _ _, ?_, ?_⟩
  · rw [loads]
    exact (inv.outcomes.mono fun _ _ _ came => came.mono e).start fileNames
  · rcases inv.shown with ⟨nothing, unnoticed⟩ | ⟨k, shows⟩
    · refine .inl ⟨db.trans nothing, fun job among => ?_⟩
      obtain ⟨k, here⟩ := List.getElem?_of_mem among
      by_contra is
      exact is (unnoticed job (List.mem_of_getElem? (old here (Bool.not_eq_false _ ▸ is))))
    · refine .inr ⟨k, shows.mono e (fun names here => ?_) (fun j later there is => ⟨later, old there is, is⟩) ⟨[], db⟩⟩
      rw [loads, Futures.inputs_start, List.getElem?_append_left (List.getElem?_eq_some_iff.mp here).1]
      exact here

theorem DbcInv.finished {events : List Event} {s s' : MainWindow} (inv : DbcInv qt events s) {job : Nat}
    {disk : QString → Option File} (loads : s'.dbcLoads = s.dbcLoads.finish job (parseDbc qt disk))
    (db : s'.msgDb = s.msgDb) : DbcInv qt (events ++ [.finishDbc job disk]) s' := by
  have noticed (j : Nat) (later : DbcJob) (there : s'.dbcLoads.jobs[j]? = some later)
      (is : later.notified = true) : ∃ old, s.dbcLoads.jobs[j]? = some old ∧ old.notified = true := by
    rw [loads, Futures.finish] at there
    obtain ⟨old, was, same | ⟨-, same⟩⟩ := Futures.modified there
    · exact ⟨old, was, same ▸ is⟩
    · rw [same, Futures.complete_notified] at is
      exact ⟨old, was, is⟩
  refine ⟨?_, by rw [loads]; exact inv.ready.finish _ _, ?_, ?_⟩
  · rw [loads]
    exact inv.newest.kept (Futures.inputs_finish _ _ _) rfl
  · rw [loads]
    refine (inv.outcomes.mono fun _ _ _ came => came.mono _).finish job fun fileNames outcome came => ?_
    exact ⟨disk, List.mem_append_right _ (List.mem_singleton.mpr rfl), (Option.some.inj came).symm⟩
  · rcases inv.shown with ⟨nothing, unnoticed⟩ | ⟨k, shows⟩
    · refine .inl ⟨db.trans nothing, fun ended among => ?_⟩
      obtain ⟨j, there⟩ := List.getElem?_of_mem among
      by_contra is
      obtain ⟨old, was, is'⟩ := noticed j ended there (Bool.not_eq_false _ ▸ is)
      rw [unnoticed old (List.mem_of_getElem? was)] at is'
      cases is'
    · refine .inr ⟨k, shows.mono _ (fun fileNames here => ?_) noticed ⟨[], db⟩⟩
      rwa [loads, Futures.inputs_finish]

theorem DbcInv.loaded {events : List Event} {s s' : MainWindow} (inv : DbcInv qt events s) (e : Event) {job : Nat}
    (loads : s'.dbcLoads = s.dbcLoads.notify job) (db : s.dbcLoads.result = some (.ok s'.msgDb)) :
    DbcInv qt (events ++ [e]) s' := by
  obtain ⟨fileNames, here, disk, finished, same⟩ := inv.outcomes.result db
  have current := inv.newest.last here
  refine ⟨?_, by rw [loads]; exact inv.ready.notify _, ?_,
    .inr ⟨s.dbcLoads.current, ⟨fileNames, disk, [], ?_, List.mem_append_left _ finished, Except.ok.inj same⟩, ?_⟩⟩
  · rw [loads]
    exact inv.newest.kept (Futures.inputs_notify _ _) rfl
  · rw [loads]
    exact (inv.outcomes.mono fun _ _ _ came => came.mono e).notify job
  · rwa [loads, Futures.inputs_notify]
  · intro j later there _
    have inside := (List.getElem?_eq_some_iff.mp there).1
    rw [loads, Futures.notify, List.length_modify] at inside
    omega

theorem step_dbcInv (events : List Event) (s : MainWindow) (e : Event) (s' : MainWindow) (inv : DbcInv qt events s)
    (h : s.step qt fuel takesNaN e = .ok s') : DbcInv qt (events ++ [e]) s' := by
  cases step_effect s e s' h with
  | kept _ _ loads db => exact inv.kept e loads ⟨[], db⟩
  | colored row color msg _ _ _ _ loads db => exact inv.kept e loads ⟨[(msg.id, color)], db⟩
  | filtered _ _ _ _ _ _ _ _ loads db => exact inv.kept e loads ⟨[], db⟩
  | openedDbc _ _ _ _ _ _ loads db => exact inv.opened e loads db
  | finishedDbc job disk event _ _ loads db => exact event ▸ inv.finished loads db
  | loadedDbc job _ _ _ _ loads db => exact inv.loaded e loads db
  | loadedLog _ _ _ _ loads db => exact inv.kept e loads ⟨[], db⟩

theorem onLoadDbcFile_ok {s : MainWindow} {db : CanDb} (result : s.dbcLoads.result = some (.ok db)) :
    s.onLoadDbcFile = .ok { s with msgDb := db } := by
  unfold onLoadDbcFile
  rw [result]

/-- Whichever notification arrives, the slot finds a database. -/
theorem DbcInv.notifies {events : List Event} {s : MainWindow} (inv : DbcInv qt events s) (job : Nat) :
    ∃ s', s.step qt fuel takesNaN (.notifyDbc job) = .ok s' := by
  rw [step]
  split
  · rename_i pending
    obtain ⟨outcome, result⟩ := inv.ready.result pending
    obtain ⟨fileNames, -, disk, -, rfl⟩ := inv.outcomes.result result
    rw [← s.dbcLoads.result_notify job] at result
    exact ⟨_, onLoadDbcFile_ok (s := { s with dbcLoads := s.dbcLoads.notify job }) result⟩
  · exact ⟨s, rfl⟩

/-- The database on display is empty and no load has been noticed, or it is the parse of the files of a
load, as they were when it ended, with the colors edited since; no load noticed is newer. The slot never
throws. -/
theorem run_database {events : List Event} {s : MainWindow}
    (h : Machine.run (step qt fuel takesNaN) events {} = .ok s) :
    (s.msgDb = {} ∧ (∀ job ∈ s.dbcLoads.jobs, job.notified = false) ∨ ∃ k, Shows qt events s k) ∧
      ∀ job, ∃ s', s.step qt fuel takesNaN (.notifyDbc job) = .ok s' := by
  have inv : DbcInv qt [] {} := ⟨.inl rfl, nofun, nofun, .inl ⟨rfl, nofun⟩⟩
  have inv := Machine.run_history inv step_dbcInv h
  exact ⟨inv.shown, inv.notifies⟩

def bigDoor : File where
  bytes := []
  text := "BO_ 1 A: 8 B".toList

def smallDoor : File where
  bytes := []
  text := "BO_ 2 A: 4 B".toList

/-- The notification of the first load arrives when the second has ended too. -/
def overtaken : List Event :=
  [.user .openDbcFile, .close (.fileNames ["a.dbc".toList]) 0, .user .openDbcFile,
    .close (.fileNames ["b.dbc".toList]) 0, .finishDbc 0 fun _ => some bigDoor, .finishDbc 1 fun _ => some smallDoor,
    .notifyDbc 0, .user (.setColor 0 yellow)]

theorem run_database_overtaken :
    ∃ s, Machine.run (step plainBuild 0 true) overtaken {} = .ok s ∧
      ((s.msgDb = {} ∧ (∀ job ∈ s.dbcLoads.jobs, job.notified = false) ∨ ∃ k, Shows plainBuild overtaken s k) ∧
        ∀ job, ∃ s', s.step plainBuild 0 true (.notifyDbc job) = .ok s') := by
  obtain ⟨s, ran⟩ := isOk_ok (x := Machine.run (step plainBuild 0 true) overtaken {}) (by decide +kernel)
  exact ⟨s, ran, run_database ran⟩

end
end MainWindow
end CanTracer
