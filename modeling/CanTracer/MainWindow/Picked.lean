import CanTracer.MainWindow.Databases
import CanTracer.MainWindow.Marks

/-!
# The signal picked

The boxes of the signal dialog show names, and `onAddSignal` goes by their rows in the database at hand. As long
as no load replaces the database under the open dialog, the rows are those of the names.
-/

namespace CanTracer

/-! ### What the boxes list -/

namespace SignalSelectDialog

/-- The boxes list the names of the messages, and of the signals of the message taken. -/
structure Lists (d : SignalSelectDialog) (db : CanDb) : Prop where
  messages : d.cmbMessage.items = db.db.map (·.name)
  signals : d.cmbSignal.items ≠ [] → ∃ (row : Nat) (msg : CanMessage), d.cmbMessage.currentIndex = row ∧
    db.db[row]? = some msg ∧ d.cmbSignal.items = msg.canSignals.map (·.name)

/-- The dialog after the first messages of the database. -/
def opened (db : CanDb) (messages : List CanMessage) : SignalSelectDialog where
  cmbMessage := boxOf (messages.map (·.name))
  cmbSignal := (messages.head?.map fun msg => boxOf (msg.canSignals.map (·.name))).getD {}
  filled := db

theorem insertMessage_opened {db : CanDb} {messages : List CanMessage} {msg : CanMessage}
    (here : db.db[messages.length]? = some msg) :
    insertMessage db (opened db messages) messages.length = .ok (opened db (messages ++ [msg])) := by
  have inserted := insertItem_end (messages.map (·.name)) msg.name
  rw [List.length_map] at inserted
  have box : (opened db messages).cmbMessage = boxOf (messages.map (·.name)) := rfl
  simp only [insertMessage, at_some here, box, inserted, bind, Except.bind, pure, Except.pure]
  have grown : (boxOf (messages.map (·.name) ++ [msg.name])).currentIndex = 0 :=
    boxOf_some (List.append_ne_nil_of_right_ne_nil _ (List.cons_ne_nil _ _))
  rw [grown]
  cases messages with
  | nil => exact onMsgIndexChanged_ok _ here
  | cons first messages =>
    rw [List.map_cons, boxOf_some (List.cons_ne_nil _ _), if_pos rfl, ← List.map_cons, opened, opened, List.map_append]
    rfl

theorem create_eq (db : CanDb) : create db = .ok (opened db db.db) := by
  suffices upTo : ∀ n ≤ db.db.length, (List.range n).foldlM (insertMessage db) { filled := db } =
      .ok (opened db (db.db.take n)) by
    have all := upTo _ (Nat.le_refl _)
    rwa [List.take_length] at all
  intro n
  induction n with
  | zero => exact fun _ => rfl
  | succ n ih =>
    intro inside
    have here := List.getElem?_eq_getElem inside
    have rows : (db.db.take n).length = n := by rw [List.length_take, Nat.min_eq_left (Nat.le_of_lt inside)]
    have inserted : insertMessage db (opened db (db.db.take n)) n = .ok (opened db (db.db.take n ++ [db.db[n]])) := by
      have last : db.db[(db.db.take n).length]? = some db.db[n] := by rw [rows, here]
      have inserted := insertMessage_opened last
      rwa [rows] at inserted
    rw [List.range_succ, List.foldlM_append, ih (Nat.le_of_lt inside), List.take_add_one, here]
    simp only [List.foldlM_cons, List.foldlM_nil, inserted, bind, Except.bind, pure, Except.pure]
    rfl

theorem create_lists {db : CanDb} {d : SignalSelectDialog} (created : create db = .ok d) : d.Lists db := by
  obtain rfl := Except.ok.inj ((create_eq db).symm.trans created)
  refine ⟨rfl, fun some => ?_⟩
  cases first : db.db.head? with
  | none =>
    rw [opened, first] at some
    exact absurd rfl some
  | some msg =>
    have here := (List.head?_eq_getElem? (l := db.db)).symm.trans first
    have several : db.db.map (·.name) ≠ [] := by
      rw [ne_eq, List.map_eq_nil_iff, ← List.head?_eq_none_iff, first]
      exact Option.some_ne_none msg
    refine ⟨0, msg, boxOf_some several, here, ?_⟩
    rw [opened, first]
    rfl

theorem Lists.selectMessage {d d' : SignalSelectDialog} {db : CanDb} (lists : d.Lists db) {row : Nat}
    (h : d.selectMessage db row = .ok d') : d'.Lists db := by
  unfold SignalSelectDialog.selectMessage at h
  split at h
  · rename_i taken
    have inside := taken.1
    rw [lists.messages, List.length_map] at inside
    have here := List.getElem?_eq_getElem inside
    rw [onMsgIndexChanged_ok _ here] at h
    rw [← Except.ok.inj h]
    exact ⟨lists.messages, fun _ => ⟨row, _, rfl, here, rfl⟩⟩
  · rwa [← Except.ok.inj h]

theorem Lists.selectSignal {d : SignalSelectDialog} {db : CanDb} (lists : d.Lists db) (row : Nat) :
    (d.selectSignal row).Lists db := by
  unfold SignalSelectDialog.selectSignal
  split
  · exact ⟨lists.messages, lists.signals⟩
  · exact lists

end SignalSelectDialog

namespace MainWindow

section
variable {qt : Qt} {fuel : Nat} {takesNaN : Bool}

/-- No database is taken over while a signal dialog is open. -/
def Calm (s : MainWindow) (e : Event) : Prop :=
  ∀ job, e = .notifyDbc job → s.dbcLoads.pending job = true → ∀ d, s.dialog ≠ some (.selectSignal d)

/-- An open signal dialog lists what the database has. -/
def Listed (s : MainWindow) : Prop := ∀ d, s.dialog = some (.selectSignal d) → d.Lists s.msgDb

/-- The plot added is that of the message and the signal whose names the boxes show. -/
def Picks (s : MainWindow) (d : SignalSelectDialog) (s' : MainWindow) : Prop :=
  ∃ (row j : Nat) (msg : CanMessage) (signal : CanSignal), d.getResultIndex = (↑row, ↑j) ∧
    d.cmbMessage.items[row]? = some msg.name ∧ d.cmbSignal.items[j]? = some signal.name ∧
    s.msgDb.db[row]? = some msg ∧ msg.canSignals[j]? = some signal ∧
    s'.plots.plotModel.items = s.plots.plotModel.items ++ [⟨msg.id, signal⟩]

theorem act_listed {s s' : MainWindow} (free : s.dialog = none) {action : Action} (h : s.act action = .ok s') :
    s'.Listed := by
  have closed {d : SignalSelectDialog} (asks : s.dialog = some (.selectSignal d)) : False := by
    rw [free] at asks
    cases asks
  intro d asks
  cases action with
  | openFile | openDbcFile | headerContextMenu index =>
    rw [← Except.ok.inj h] at asks
    cases asks
  | contextMenu row | highlight target menu | removeSignal menu =>
    obtain ⟨part, -, h⟩ := bind_ok h
    rw [← Except.ok.inj h] at asks
    exact (closed asks).elim
  | signalPlotMenu row =>
    rw [← Except.ok.inj h, onSignalPlotMenu] at asks
    split at asks <;> exact (closed asks).elim
  | addSignal =>
    rw [act] at h
    split at h
    · rw [← Except.ok.inj h] at asks
      exact (closed asks).elim
    · obtain ⟨dialog, created, h⟩ := bind_ok h
      rw [← Except.ok.inj h] at asks ⊢
      cases asks
      exact SignalSelectDialog.create_lists created
  | setColor row color =>
    rw [← Except.ok.inj h, setColor] at asks
    split at asks <;> exact (closed asks).elim

theorem step_listed (s : MainWindow) (e : Event) (s' : MainWindow) (listed : s.Listed) (calm : s.Calm e)
    (h : s.step qt fuel takesNaN e = .ok s') : s'.Listed := by
  cases e with
  | user action =>
    rw [step] at h
    split at h
    · rwa [← Except.ok.inj h]
    · rename_i free
      exact act_listed (Option.not_isSome_iff_eq_none.mp free) h
  | selectMessage row =>
    rw [step] at h
    split at h
    · rename_i d asked
      obtain ⟨d', selected, h⟩ := bind_ok h
      rw [← Except.ok.inj h]
      rintro _ ⟨⟩
      exact (listed d asked).selectMessage selected
    · rwa [← Except.ok.inj h]
  | selectSignal row =>
    rw [step] at h
    split at h
    · rename_i d asked
      rw [← Except.ok.inj h]
      rintro _ ⟨⟩
      exact (listed d asked).selectSignal row
    · rwa [← Except.ok.inj h]
  | close answer endId =>
    rw [step] at h
    split at h
    · intro d asks
      rw [closed_asks h] at asks
      cases asks
    · rwa [← Except.ok.inj h]
  | finishLog job disk | dropLog job | finishDbc job disk =>
    rw [← Except.ok.inj h]
    exact listed
  | notifyLog job =>
    rw [step] at h
    split at h
    · unfold onLoadLogFile at h
      split at h
      · cases h
      · cases h
      · rw [← Except.ok.inj h]
        exact listed
    · rwa [← Except.ok.inj h]
  | notifyDbc job =>
    rw [step] at h
    split at h
    · rename_i pending
      unfold onLoadDbcFile at h
      split at h
      · cases h
      · cases h
      · rw [← Except.ok.inj h]
        exact fun d asks => absurd asks (calm job rfl pending d)
    · rwa [← Except.ok.inj h]

theorem close_picks {s s' : MainWindow} (asks : s.Asks) (listed : s.Listed) {d : SignalSelectDialog}
    (asked : s.dialog = some (.selectSignal d)) {answer : Answer} {endId : UInt32}
    (h : s.step qt fuel takesNaN (.close answer endId) = .ok s') : Picks s d s' := by
  rw [step, asked] at h
  obtain ⟨msg, found, h⟩ := bind_ok h
  obtain ⟨signal, chosen, h⟩ := bind_ok h
  obtain ⟨data, -, h⟩ := bind_ok h
  obtain ⟨series, -, h⟩ := bind_ok h
  obtain ⟨row, rowIs, here⟩ := atInt_ok found
  obtain ⟨j, jIs, there⟩ := atInt_ok chosen
  have lists := listed d asked
  have some : d.cmbSignal.items ≠ [] := by
    refine (asks d asked).some (?_ : d.Has s.msgDb)
    exact ⟨row, j, msg, Prod.ext rowIs jIs, here, (List.getElem?_eq_some_iff.mp there).1⟩
  obtain ⟨row', msg', rowIs', here', signals⟩ := lists.signals some
  obtain rfl : row = row' := Int.ofNat.inj (rowIs.symm.trans rowIs')
  obtain rfl := Option.some.inj (here.symm.trans here')
  refine ⟨row, j, msg, signal, Prod.ext rowIs jIs, ?_, ?_, here, there, ?_⟩
  · rw [lists.messages, List.getElem?_map, here]
    rfl
  · rw [signals, List.getElem?_map, there]
    rfl
  · rw [← Except.ok.inj h]
    rfl

/-- In a run in which no database is taken over under an open signal dialog, the plot that is added when the dialog
is closed is that of the names its boxes show. -/
theorem run_picks {events : List Event} {s s' : MainWindow} (h : Machine.run (step qt fuel takesNaN) events {} = .ok s)
    (calm : Machine.Along (step qt fuel takesNaN) Calm events {}) {d : SignalSelectDialog}
    (asked : s.dialog = some (.selectSignal d)) {answer : Answer} {endId : UInt32}
    (closed : s.step qt fuel takesNaN (.close answer endId) = .ok s') : Picks s d s' := by
  have asks := Machine.run_along (I := Asks) (fun s e s' asks _ h => (step_follows s e s' h).asks asks) events {} s
    (by rintro _ ⟨⟩) calm h
  have listed := Machine.run_along (I := Listed) step_listed events {} s (by rintro _ ⟨⟩) calm h
  exact close_picks asks listed asked closed

/-- Two messages, the second with two signals. -/
def hatchText : File where
  bytes := []
  text := "BO_ 5 Front: 8 B\n SG_ Lid : 0|8@1+ (1,0) [0|0] \"\" D\n\n".toList ++
    "BO_ 6 Rear: 8 B\n SG_ Lid : 0|8@1+ (1,0) [0|0] \"\" D\n SG_ Lamp : 8|8@1+ (1,0) [0|0] \"\" D\n\n".toList

def hatchOpened : List Event :=
  [.user .openFile, .close (.fileNames ["a.trc".toList]) 0, .finishLog 0 fun _ => some trcFile, .notifyLog 0,
    .user .openDbcFile, .close (.fileNames ["a.dbc".toList]) 0, .finishDbc 0 fun _ => some hatchText]

/-- The second message and its second signal are taken. -/
def hatchPicked : List Event := [.user (.signalPlotMenu 0), .user .addSignal, .selectMessage 1, .selectSignal 1]

theorem run_picks_hatch : ∃ s d s', Machine.run (step plainBuild 0 true) (hatchOpened ++ .notifyDbc 0 :: hatchPicked) {} = .ok s ∧
    s.dialog = some (.selectSignal d) ∧ s.step plainBuild 0 true (.close .accept 0) = .ok s' ∧ Picks s d s' := by
  have calm : Machine.Along (step plainBuild 0 true) Calm (hatchOpened ++ .notifyDbc 0 :: hatchPicked) {} := by
    refine Machine.along_append hatchOpened _ (Machine.along_forall ?_ _) fun s ran => ⟨?_, fun t _ => ?_⟩
    · rintro s _ among job rfl
      simp [hatchOpened] at among
    · rintro job - - d asked
      have free : (Machine.run (step plainBuild 0 true) hatchOpened {}).map (fun s => s.dialog.isNone) = .ok true := by
        decide +kernel
      obtain ⟨s', ran', free⟩ := map_ok free
      obtain rfl := Except.ok.inj (ran.symm.trans ran')
      rw [asked] at free
      cases free
    · refine Machine.along_forall ?_ t
      rintro s _ among job rfl
      simp [hatchPicked] at among
  have asks : (Machine.run (step plainBuild 0 true) (hatchOpened ++ .notifyDbc 0 :: hatchPicked) {}).map (fun s =>
      (s.dialog.any fun dialog => dialog.casesOn false false (fun _ _ => false) fun _ => true) &&
        (s.step plainBuild 0 true (.close .accept 0)).isOk) = .ok true := by
    decide +kernel
  obtain ⟨s, ran, asks⟩ := map_ok asks
  obtain ⟨signals, returns⟩ := Bool.and_eq_true_iff.mp asks
  obtain ⟨s', closed⟩ := isOk_ok returns
  obtain ⟨dialog, asked, is⟩ := (Option.any_eq_true _ _).mp signals
  cases dialog with
  | openFile | openDbcFile | filter index text => cases is
  | selectSignal d => exact ⟨s, d, s', ran, asked, closed, run_picks ran calm asked closed⟩

end
end MainWindow
end CanTracer
