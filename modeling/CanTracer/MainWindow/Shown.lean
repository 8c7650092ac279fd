import CanTracer.LogParser.WellFormed
import CanTracer.MainWindow.Views

/-!
# What the tables show

Along every run of the window with its views: the rows of the log view are those that the filters let
through, and the signal table stays inside the database.
-/

namespace CanTracer.ViewWindow

section
variable {qt : Qt} {fuel : Nat} {takesNaN : Bool}
variable {print : Double → QString} {fixed : ℚ → QString} {contains : QString → QString → Bool}
variable {entries : CustomProxyModel → List (UInt8 × QString)}

/-! ### The rows of the log view -/

/-- The mapping is that of the log, the database and the filters at hand. -/
def Mapped (print : Double → QString) (fixed : ℚ → QString) (contains : QString → QString → Bool) (s : ViewWindow) : Prop :=
  ∀ rows, s.mapping = some rows →
    s.window.proxyModel.Maps print fixed contains s.window.logs.model s.window.msgDb rows

theorem Quiet.same {w w' : MainWindow} {e : Event} (quiet : Quiet w e) (h : w.step qt fuel takesNaN e = .ok w') :
    w'.log = w.log ∧ w'.proxyModel = w.proxyModel ∧ w'.msgDb.plain = w.msgDb.plain := by
  cases MainWindow.step_effect w e w' h with
  | kept log filters _ db => exact ⟨log, filters, congrArg _ db⟩
  | colored row color msg _ _ log filters _ db => exact ⟨log, filters, by rw [db, setColor_plain]⟩
  | filtered index text old endId event asked => exact absurd asked (quiet.filter text endId index old event)
  | openedDbc _ _ _ _ log filters _ db => exact ⟨log, filters, congrArg _ db⟩
  | finishedDbc _ _ _ log filters _ db => exact ⟨log, filters, congrArg _ db⟩
  | loadedDbc job event pending =>
    rw [quiet.db job event] at pending
    cases pending
  | loadedLog job event pending =>
    rw [quiet.log job event] at pending
    cases pending

theorem step_mapped (lists : ∀ m, CustomProxyModel.Lists m (entries m)) (s : ViewWindow) (e : ViewEvent) (s' : ViewWindow)
    (mapped : s.Mapped print fixed contains) (h : s.step qt fuel takesNaN print fixed contains entries e = .ok s') :
    s'.Mapped print fixed contains := by
  intro rows made
  cases e with
  | window e =>
    rcases step_window h with rfl | ⟨e', w, -, stepped, followed⟩
    · exact mapped rows made
    · rcases followed.mapping with none | ⟨rows', made', rowsOf⟩ | ⟨kept, quiet⟩
      · rw [none] at made
        cases made
      · rw [made'] at made
        obtain rfl := Option.some.inj made
        rw [followed.window]
        exact CustomProxyModel.sourceRows_maps (lists w.proxyModel) rowsOf
      · obtain ⟨log, filters, plain⟩ := quiet.same stepped
        rw [followed.window, filters]
        exact (mapped rows (kept.symm.trans made)).congr log (nameOf_plain plain)
  | viewRows =>
    rcases viewRows_ok h with rfl | ⟨rows', rowsOf, rfl⟩
    · exact mapped rows made
    · obtain rfl := Option.some.inj made
      exact CustomProxyModel.sourceRows_maps (lists s.window.proxyModel) rowsOf
  | msgSelect row =>
    obtain rfl := Except.ok.inj h
    rcases s.onMsgSelect_eq row with same | ⟨-, same⟩ <;> rw [same] at made ⊢ <;> exact mapped rows made
  | axis button =>
    rcases onAxis_ok h with rfl | ⟨axes, geometry, -, -, rfl⟩ <;> exact mapped rows made

/-- Whenever the log view has its rows, they are those messages of the current log that pass all current
filters, in the order of the log; and over a log without over-long messages the view gets its rows. -/
theorem run_mapped (lists : ∀ m, CustomProxyModel.Lists m (entries m)) {events : List ViewEvent} {s : ViewWindow}
    (h : Machine.run (step qt fuel takesNaN print fixed contains entries) events {} = .ok s) :
    s.Mapped print fixed contains ∧
      ((∀ item ∈ s.window.log, item.dlc.toNat ≤ canMaxDlc) →
        ∃ s', s.step qt fuel takesNaN print fixed contains entries .viewRows = .ok s' ∧ s'.mapping.isSome) := by
  refine ⟨?_, fun short => ?_⟩
  · exact Machine.run_history (I := fun _ s => s.Mapped print fixed contains) nofun
      (fun _ s e s' mapped stepped => step_mapped lists s e s' mapped stepped) h
  · cases made : s.mapping with
    | some rows => exact ⟨s, by rw [step, made], by rw [made]; rfl⟩
    | none =>
      obtain ⟨rows, made'⟩ : ∃ rows, rowsOf print fixed contains entries s.window = .ok rows :=
        CustomProxyModel.sourceRows_defined short s.window.msgDb (entries s.window.proxyModel)
      refine ⟨{ s with mapping := some rows }, ?_, rfl⟩
      rw [step, made]
      exact congrArg (Except.map _) made'

/-- The entries in the order of their columns. -/
def ascending (m : CustomProxyModel) : List (UInt8 × QString) :=
  (List.range 256).filterMap fun c => (m.regex c.toUInt8).map fun pattern => (c.toUInt8, pattern)

theorem ascending_lists (m : CustomProxyModel) : m.Lists (ascending m) := by
  intro column pattern
  rw [ascending, List.mem_filterMap]
  constructor
  · rintro ⟨c, -, set⟩
    obtain ⟨_, here, same⟩ := Option.map_eq_some_iff.mp set
    obtain ⟨rfl, rfl⟩ := Prod.mk.inj same
    exact here
  · intro set
    refine ⟨column.toNat, List.mem_range.mpr column.toNat_lt, ?_⟩
    rw [Nat.toUInt8, UInt8.ofNat_toNat, set]
    rfl

/-- A pattern of letters and digits. -/
def occurs (pattern text : QString) : Bool := decide (pattern <:+: text)

/-- The rows are mapped, and then the identifiers are filtered. -/
def filtered : List ViewEvent :=
  [.window (.user .openFile), .window (.close (.fileNames ["a.trc".toList]) 0),
    .window (.finishLog 0 fun _ => some trcFile), .window (.notifyLog 0), .viewRows,
    .window (.user (.headerContextMenu 3)), .window (.close (.text "300".toList) 0)]

theorem run_mapped_filtered :
    ∃ s, Machine.run (step plainBuild 0 true (fun _ => []) (fun _ => []) occurs ascending) filtered {} = .ok s ∧
      (s.Mapped (fun _ => []) (fun _ => []) occurs ∧
        ((∀ item ∈ s.window.log, item.dlc.toNat ≤ canMaxDlc) →
          ∃ s', s.step plainBuild 0 true (fun _ => []) (fun _ => []) occurs ascending .viewRows = .ok s' ∧
            s'.mapping.isSome)) := by
  obtain ⟨s, ran⟩ := isOk_ok (x := Machine.run (step plainBuild 0 true (fun _ => []) (fun _ => []) occurs ascending) filtered {})
    (by decide +kernel)
  exact ⟨s, ran, run_mapped ascending_lists ran⟩

example : (Machine.run (step plainBuild 0 true (fun _ => []) (fun _ => []) occurs ascending) filtered {}).map (·.mapping) =
    .ok (some [0]) := by
  decide +kernel

/-! ### The signal table -/

theorem plain_length {d d' : CanDb} (same : d'.plain = d.plain) : d'.db.length = d.db.length := by
  have lengths := congrArg List.length same
  rwa [CanDb.plain, CanDb.plain, List.length_map, List.length_map] at lengths

theorem step_inside (s : ViewWindow) (e : ViewEvent) (s' : ViewWindow) (inside : s.signalModel.Inside s.window.msgDb)
    (h : s.step qt fuel takesNaN print fixed contains entries e = .ok s') : s'.signalModel.Inside s'.window.msgDb := by
  cases e with
  | window e =>
    rcases step_window h with rfl | ⟨e', w, -, stepped, followed⟩
    · exact inside
    · rcases followed.table with reset | ⟨kept, idle⟩
      · rw [reset]
        exact .inl rfl
      · rw [kept, followed.window]
        cases MainWindow.step_effect _ e' w stepped with
        | colored row color msg _ _ _ _ _ db =>
          refine inside.congr (plain_length ?_)
          rw [db, setColor_plain]
        | loadedDbc job event pending =>
          rw [idle job event] at pending
          cases pending
        | kept _ _ _ db | filtered _ _ _ _ _ _ _ _ _ db | openedDbc _ _ _ _ _ _ _ db | finishedDbc _ _ _ _ _ _ db
        | loadedLog _ _ _ _ _ db =>
          rw [db]
          exact inside
  | viewRows => rcases viewRows_ok h with rfl | ⟨rows, -, rfl⟩ <;> exact inside
  | msgSelect row =>
    obtain rfl := Except.ok.inj h
    rcases s.onMsgSelect_eq row with same | ⟨clicked, same⟩ <;> rw [same]
    · exact inside
    · exact .inr ⟨Int.natCast_nonneg row, Int.ofNat_lt.mpr clicked⟩
  | axis button => rcases onAxis_ok h with rfl | ⟨axes, geometry, -, -, rfl⟩ <;> exact inside

/-- Along every run the signal table reads a message of the database at hand, or none, and every cell
below its row count is that of a signal of this message. -/
theorem run_table {events : List ViewEvent} {s : ViewWindow}
    (h : Machine.run (step qt fuel takesNaN print fixed contains entries) events {} = .ok s) :
    s.signalModel.Shows print s.window.msgDb := by
  have inside := Machine.run_history (I := fun _ s => s.signalModel.Inside s.window.msgDb) (.inl rfl)
    (fun _ s e s' inside stepped => step_inside s e s' inside stepped) h
  exact inside.shows print

/-- A message is selected, and then the database is loaded again. -/
def selected : List ViewEvent :=
  [.window (.user .openDbcFile), .window (.close (.fileNames ["a.dbc".toList]) 0),
    .window (.finishDbc 0 fun _ => some MainWindow.bigDoor), .window (.notifyDbc 0), .msgSelect 0,
    .window (.user .openDbcFile), .window (.close (.fileNames []) 0), .window (.finishDbc 1 fun _ => none),
    .window (.notifyDbc 1)]

theorem run_table_selected :
    ∃ s, Machine.run (step plainBuild 0 true (fun _ => []) (fun _ => []) occurs ascending) selected {} = .ok s ∧
      s.signalModel.Shows (fun _ => []) s.window.msgDb := by
  obtain ⟨s, ran⟩ := isOk_ok (x := Machine.run (step plainBuild 0 true (fun _ => []) (fun _ => []) occurs ascending) selected {})
    (by decide +kernel)
  exact ⟨s, ran, run_table ran⟩

end
end CanTracer.ViewWindow
