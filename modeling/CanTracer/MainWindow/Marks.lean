import Mathlib.Data.List.Sort
import CanTracer.MainWindow.Shown

/-!
# Marked columns

The header of a column with a filter is bold. Filters are set through the headers, so the bold ones tell of
every filter there is.
-/

namespace CanTracer

inductive Orientation where
  | horizontal
  | vertical
  deriving DecidableEq

inductive HeaderRole where
  | display
  | font
  | other
  deriving DecidableEq

/-- What a header shows: data of the log model or a bold font. -/
inductive HeaderData where
  | source (value : QVariant)
  | bold
  deriving DecidableEq

namespace CanLogModel

def headers : List QString :=
  ["Number", "Time", "Chan", "CAN ID", "DLC", "Message name", " 00 01 02 03 04 05 06 07"].map String.toList

def headerData (section_ : Int) (orientation : Orientation) (role : HeaderRole) : Except Failure QVariant :=
  if role ≠ .display then .ok .invalid
  else if orientation = .horizontal then
    if headers.length ≤ section_ then .ok .invalid else (QList.atInt headers section_).map .string
  else .ok .invalid

end CanLogModel

namespace CustomProxyModel

/-- The section is narrowed to the column of a filter. -/
def headerData (m : CustomProxyModel) (section_ : Int) (orientation : Orientation) (role : HeaderRole) :
    Except Failure HeaderData :=
  if role ≠ .font ∨ orientation ≠ .horizontal ∨ m.regex (.ofInt section_) = none then
    (CanLogModel.headerData section_ orientation role).map .source
  else .ok .bold

def Marked (m : CustomProxyModel) (section_ : Int) : Prop := m.headerData section_ .horizontal .font = .ok .bold

instance (m : CustomProxyModel) (section_ : Int) : Decidable (m.Marked section_) := inferInstanceAs (Decidable (_ = _))

theorem marked_iff (m : CustomProxyModel) (section_ : Int) : m.Marked section_ ↔ m.regex (.ofInt section_) ≠ none := by
  rw [Marked, headerData]
  constructor
  · intro marked none
    rw [if_pos (.inr (.inr none))] at marked
    obtain ⟨value, -, other⟩ := map_ok marked
    cases other
  · intro some
    rw [if_neg]
    rintro (role | orientation | none)
    · exact role rfl
    · exact orientation rfl
    · exact some none

section
variable {print : Double → QString} {fixed : ℚ → QString} {contains : QString → QString → Bool}
variable {m : CustomProxyModel} {model : CanLogModel} {db : CanDb} {rows : List Nat}

theorem unmarked_columns (unmarked : ∀ c < CanLogModel.columnCount, ¬ m.Marked c) {column : UInt8} {pattern : QString}
    (set : m.regex column = some pattern) : ¬ column.toNat < CanLogModel.columnCount := by
  intro inside
  refine unmarked column.toNat inside ((marked_iff m _).mpr fun none => ?_)
  have narrowed : UInt8.ofInt column.toNat = column := by
    have fits : ((column.toNat : Int) % 2 ^ 8).toNat = column.toNat := by
      have lt := column.toNat_lt
      omega
    rw [UInt8.ofInt, fits, UInt8.ofNat_toNat]
  rw [narrowed, set] at none
  cases none

theorem Maps.unmarked (maps : m.Maps print fixed contains model db rows)
    (unmarked : ∀ c < CanLogModel.columnCount, ¬ m.Marked c)
    (inside : ∀ column pattern, m.regex column = some pattern → column.toNat < CanLogModel.columnCount) :
    rows = List.range model.rowCount.toNat := by
  refine maps.ordered.eq_of_mem_iff List.pairwise_lt_range fun row => ?_
  rw [maps.members, List.mem_range, Int.lt_toNat]
  refine and_iff_left fun column pattern set => ?_
  exact absurd (inside column pattern set) (unmarked_columns unmarked set)

end
end CustomProxyModel

namespace MainWindow

section
variable {qt : Qt} {fuel : Nat} {takesNaN : Bool}

/-- The question for a filter is opened by a click on a header only. -/
theorem act_asks {s s' : MainWindow} {action : Action} (h : s.act action = .ok s') {index : UInt8} {text : QString}
    (asks : s'.dialog = some (.filter index text)) :
    s.dialog = some (.filter index text) ∨ action = .headerContextMenu index := by
  cases action with
  | openFile | openDbcFile =>
    rw [← Except.ok.inj h] at asks
    cases asks
  | headerContextMenu index' =>
    rw [← Except.ok.inj h] at asks
    cases asks
    exact .inr rfl
  | contextMenu row | highlight target menu | removeSignal menu =>
    obtain ⟨part, -, h⟩ := bind_ok h
    rw [← Except.ok.inj h] at asks
    exact .inl asks
  | signalPlotMenu row =>
    rw [← Except.ok.inj h, onSignalPlotMenu] at asks
    split at asks <;> exact .inl asks
  | addSignal =>
    rw [act] at h
    split at h
    · rw [← Except.ok.inj h] at asks
      exact .inl asks
    · obtain ⟨dialog, -, h⟩ := bind_ok h
      rw [← Except.ok.inj h] at asks
      cases asks
  | setColor row color =>
    rw [← Except.ok.inj h, setColor] at asks
    split at asks <;> exact .inl asks

theorem closed_asks {s s' : MainWindow} {answer : Answer} {endId : UInt32} {dialog : Dialog}
    (h : closed takesNaN { s with dialog := none } answer endId dialog = .ok s') : s'.dialog = none := by
  cases dialog with
  | openFile =>
    rw [← Except.ok.inj h, openFileClosed]
    split <;> rfl
  | openDbcFile =>
    rw [← Except.ok.inj h]
    rfl
  | filter index old =>
    rw [← Except.ok.inj h]
    cases answer <;> rfl
  | selectSignal dialog =>
    obtain ⟨msgId, signal, rfl⟩ := onAddSignalClosed_ok h
    rfl

theorem step_asks {s s' : MainWindow} {e : Event} (h : s.step qt fuel takesNaN e = .ok s') {index : UInt8} {text : QString}
    (asks : s'.dialog = some (.filter index text)) :
    s.dialog = some (.filter index text) ∨ e = .user (.headerContextMenu index) := by
  cases e with
  | user action =>
    rw [step] at h
    split at h
    · rw [← Except.ok.inj h] at asks
      exact .inl asks
    · exact (act_asks h asks).imp_right (congrArg Event.user)
  | selectMessage row =>
    rw [step] at h
    split at h
    · obtain ⟨d, -, h⟩ := bind_ok h
      rw [← Except.ok.inj h] at asks
      cases asks
    · rw [← Except.ok.inj h] at asks
      exact .inl asks
  | selectSignal row =>
    rw [step] at h
    split at h
    · rw [← Except.ok.inj h] at asks
      cases asks
    · rw [← Except.ok.inj h] at asks
      exact .inl asks
  | close answer endId =>
    rw [step] at h
    split at h
    · rw [closed_asks h] at asks
      cases asks
    · rw [← Except.ok.inj h] at asks
      exact .inl asks
  | finishLog job disk | dropLog job | finishDbc job disk =>
    rw [← Except.ok.inj h] at asks
    exact .inl asks
  | notifyLog job =>
    rw [step] at h
    split at h
    · unfold onLoadLogFile at h
      split at h
      · cases h
      · cases h
      · rw [← Except.ok.inj h] at asks
        exact .inl asks
    · rw [← Except.ok.inj h] at asks
      exact .inl asks
  | notifyDbc job =>
    rw [step] at h
    split at h
    · unfold onLoadDbcFile at h
      split at h
      · cases h
      · cases h
      · rw [← Except.ok.inj h] at asks
        exact .inl asks
    · rw [← Except.ok.inj h] at asks
      exact .inl asks

/-- A filter is set, or asked for, for a column of the log only. -/
structure Inside (s : MainWindow) : Prop where
  asked : ∀ index text, s.dialog = some (.filter index text) → index.toNat < CanLogModel.columnCount
  set : ∀ column pattern, s.proxyModel.regex column = some pattern → column.toNat < CanLogModel.columnCount

theorem step_filters {s s' : MainWindow} {e : Event} (inside : s.Inside)
    (clicked : ∀ index, e = .user (.headerContextMenu index) → index.toNat < CanLogModel.columnCount)
    (h : s.step qt fuel takesNaN e = .ok s') : s'.Inside := by
  refine ⟨fun index text asks => ?_, ?_⟩
  · exact (step_asks h asks).elim (inside.asked index text) (clicked index)
  · cases step_effect s e s' h with
    | filtered index text old endId _ asked _ filters =>
      intro column pattern set
      rw [filters, CustomProxyModel.setFilter] at set
      by_cases own : column = index
      · rw [own]
        exact inside.asked index old asked
      · change Function.update s.proxyModel.regex index _ column = _ at set
        rw [Function.update_of_ne own] at set
        exact inside.set column pattern set
    | kept _ filters | colored _ _ _ _ _ _ filters | openedDbc _ _ _ _ _ filters | finishedDbc _ _ _ _ filters
    | loadedDbc _ _ _ _ filters | loadedLog _ _ _ filters =>
      rw [filters]
      exact inside.set

end
end MainWindow

namespace ViewWindow

section
variable {qt : Qt} {fuel : Nat} {takesNaN : Bool}
variable {print : Double → QString} {fixed : ℚ → QString} {contains : QString → QString → Bool}
variable {entries : CustomProxyModel → List (UInt8 × QString)}

/-- The headers that are clicked are those of the columns. -/
def Clicks (e : ViewEvent) : Prop :=
  ∀ index, e = .window (.user (.headerContextMenu index)) → index.toNat < CanLogModel.columnCount

theorem mapToSource_header {s : ViewWindow} {e : Event} {index : UInt8}
    (mapped : s.mapToSource e = some (.user (.headerContextMenu index))) : e = .user (.headerContextMenu index) := by
  unfold mapToSource at mapped
  split at mapped
  · obtain ⟨row, -, other⟩ := Option.map_eq_some_iff.mp mapped
    cases other
  · exact Option.some.inj mapped

theorem step_filters {s s' : ViewWindow} {e : ViewEvent} (inside : s.window.Inside) (clicks : Clicks e)
    (h : s.step qt fuel takesNaN print fixed contains entries e = .ok s') : s'.window.Inside := by
  cases e with
  | window e =>
    rcases step_window h with rfl | ⟨e', w, mapped, stepped, followed⟩
    · exact inside
    · rw [followed.window]
      refine MainWindow.step_filters inside (fun index is => clicks index ?_) stepped
      rw [is] at mapped
      rw [mapToSource_header mapped]
  | viewRows =>
    rcases viewRows_ok h with rfl | ⟨rows, -, rfl⟩ <;> exact inside
  | msgSelect row =>
    obtain rfl := Except.ok.inj h
    rcases s.onMsgSelect_eq row with same | ⟨-, same⟩ <;> rw [same] <;> exact inside
  | axis button =>
    rcases onAxis_ok h with rfl | ⟨axes, geometry, -, -, rfl⟩ <;> exact inside

/-- While no header is bold, the view shows every message of the log. -/
theorem run_unmarked (lists : ∀ m, CustomProxyModel.Lists m (entries m)) {events : List ViewEvent} {s : ViewWindow}
    (h : Machine.run (step qt fuel takesNaN print fixed contains entries) events {} = .ok s)
    (clicks : ∀ e ∈ events, Clicks e) {rows : List Nat} (shown : s.mapping = some rows)
    (unmarked : ∀ c < CanLogModel.columnCount, ¬ s.window.proxyModel.Marked c) :
    rows = List.range s.window.logs.model.rowCount.toNat := by
  have kept : s.Mapped print fixed contains ∧ s.window.Inside := by
    refine Machine.run_along (I := fun s => s.Mapped print fixed contains ∧ s.window.Inside) (P := fun _ e => Clicks e)
      (fun s e s' inv clicks stepped => ?_) events {} s ⟨nofun, nofun, nofun⟩ (Machine.along_forall (fun _ => clicks) _) h
    exact ⟨step_mapped lists s e s' inv.1 stepped, step_filters inv.2 clicks stepped⟩
  exact (kept.1 rows shown).unmarked unmarked kept.2.set

/-- A filter is set and taken back. -/
def takenBack : List ViewEvent :=
  [.window (.user .openFile), .window (.close (.fileNames ["a.trc".toList]) 0),
    .window (.finishLog 0 fun _ => some trcFile), .window (.notifyLog 0), .viewRows,
    .window (.user (.headerContextMenu 3)), .window (.close (.text "300".toList) 0),
    .window (.user (.headerContextMenu 3)), .window (.close (.text []) 0)]

theorem run_unmarked_takenBack :
    ∃ s, Machine.run (step plainBuild 0 true (fun _ => []) (fun _ => []) occurs ascending) takenBack {} = .ok s ∧
      [0] = List.range s.window.logs.model.rowCount.toNat := by
  have state : (Machine.run (step plainBuild 0 true (fun _ => []) (fun _ => []) occurs ascending) takenBack {}).map
      (fun s => (s.mapping, decide (∀ c < CanLogModel.columnCount, ¬ s.window.proxyModel.Marked c))) =
        .ok (some [0], true) := by
    decide +kernel
  obtain ⟨s, ran, same⟩ := map_ok state
  obtain ⟨shown, unmarked⟩ := Prod.mk.inj same
  have clicks : ∀ e ∈ takenBack, Clicks e := by
    rintro _ among index rfl
    simp only [takenBack, List.mem_cons, ViewEvent.window.injEq, Event.user.injEq, Action.headerContextMenu.injEq,
      reduceCtorEq, false_or, or_false, List.not_mem_nil] at among
    rcases among with rfl | rfl <;> decide
  exact ⟨s, ran, run_unmarked ascending_lists ran clicks shown (of_decide_eq_true unmarked)⟩

end
end ViewWindow
end CanTracer
