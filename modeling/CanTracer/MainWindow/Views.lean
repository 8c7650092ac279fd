import CanTracer.CanSignalModel
import CanTracer.MainWindow.Axes
import CanTracer.MainWindow.Filter

/-!
# The window and its views

`MainWindow` with what its views keep beside the data: the rows that the proxy of the log has mapped, the
message that the signal table shows, and the charts with their axes.
-/

namespace CanTracer

/-- The mapping is made when the log view asks for its rows. The charts go by their serial numbers. -/
structure ViewWindow where
  window : MainWindow := {}
  mapping : Option (List Nat) := none
  signalModel : CanSignalModel := {}
  axes : ChartAxes := {}
  geometry : Nat → ChartGeometry := fun _ => {}

inductive ViewEvent where
  | window (e : Event)
  | viewRows
  | msgSelect (row : Nat)
  | axis (button : AxisButton)

namespace ViewWindow

section
variable (qt : Qt) (fuel : Nat) (takesNaN : Bool)
variable (print : Double → QString) (fixed : ℚ → QString) (contains : QString → QString → Bool)
variable (entries : CustomProxyModel → List (UInt8 × QString))

/-! ### Steps -/

/-- `mapToSource`: the menu of the log is opened on a row of the view. -/
def mapToSource (s : ViewWindow) : Event → Option Event
  | .user (.contextMenu row) => (s.mapping.bind (·[row]?)).map fun sourceRow => .user (.contextMenu sourceRow)
  | e => some e

def rowsOf (w : MainWindow) : Except Failure (List Nat) :=
  CustomProxyModel.sourceRows print fixed contains w.logs.model w.msgDb (entries w.proxyModel)

/-- A mapping that has been made is made again. -/
def invalidateFilter (s : ViewWindow) : Except Failure ViewWindow :=
  match s.mapping with
  | none => .ok s
  | some _ => (rowsOf print fixed contains entries s.window).map fun rows => { s with mapping := some rows }

/-- What the slots of a step to `w` do to the views: a reset of the log model drops the mapping, and a chart
that is made takes the settings. -/
def follow (s : ViewWindow) (e : Event) (w : MainWindow) : Except Failure ViewWindow :=
  let next := { s with window := w }
  match e, s.window.dialog with
  | .notifyLog job, _ => .ok (if s.window.logLoads.pending job then { next with mapping := none } else next)
  | .notifyDbc job, _ =>
    .ok (if s.window.dbcLoads.pending job then
      { next with mapping := none, signalModel := s.signalModel.dbChanged }
    else next)
  | .close (.text _) _, some (.filter _ _) => next.invalidateFilter print fixed contains entries
  | .close _ _, some (.selectSignal _) => do
    let g ← s.axes.apply w.time {}
    return { next with geometry := Function.update s.geometry s.window.plots.charts g }
  | _, _ => .ok next

def onMsgSelect (s : ViewWindow) (row : Nat) : ViewWindow :=
  if s.window.dialog.isNone ∧ row < s.window.msgDb.db.length then
    { s with signalModel := s.signalModel.setMsgIndex row }
  else s

def onAxis (s : ViewWindow) (button : AxisButton) : Except Failure ViewWindow :=
  if s.window.dialog.isSome then .ok s
  else do
    let axes ← s.axes.press button
    let geometry ← axes.updateChartAxis s.window.time s.window.plots.plotModel s.geometry
    return { s with axes := axes, geometry := geometry }

def step (s : ViewWindow) : ViewEvent → Except Failure ViewWindow
  | .window e =>
    match s.mapToSource e with
    | none => .ok s
    | some e => do
      let w ← s.window.step qt fuel takesNaN e
      s.follow print fixed contains entries e w
  | .viewRows =>
    match s.mapping with
    | some _ => .ok s
    | none => (rowsOf print fixed contains entries s.window).map fun rows => { s with mapping := some rows }
  | .msgSelect row => .ok (s.onMsgSelect row)
  | .axis button => s.onAxis button

/-! ### What a step can do -/

/-- The step of the window does not touch what the mapping is made from. -/
structure Quiet (w : MainWindow) (e : Event) : Prop where
  log : ∀ job, e = .notifyLog job → w.logLoads.pending job = false
  db : ∀ job, e = .notifyDbc job → w.dbcLoads.pending job = false
  filter : ∀ text endId index old, e = .close (.text text) endId → w.dialog ≠ some (.filter index old)

/-- What a step of the window does to the views. -/
structure Followed (s : ViewWindow) (e : Event) (w : MainWindow) (s' : ViewWindow) : Prop where
  window : s'.window = w
  axes : s'.axes = s.axes
  mapping : s'.mapping = none ∨ (∃ rows, s'.mapping = some rows ∧ rowsOf print fixed contains entries w = .ok rows) ∨
    s'.mapping = s.mapping ∧ Quiet s.window e
  table : s'.signalModel = s.signalModel.dbChanged ∨
    s'.signalModel = s.signalModel ∧ ∀ job, e = .notifyDbc job → s.window.dbcLoads.pending job = false
  geometry : s'.geometry = s.geometry ∧ (∀ answer endId d, e = .close answer endId → s.window.dialog ≠ some (.selectSignal d)) ∨
    ∃ g, s.axes.apply w.time {} = .ok g ∧ s'.geometry = Function.update s.geometry s.window.plots.charts g

variable {qt fuel takesNaN print fixed contains entries}

theorem follow_ok {s s' : ViewWindow} {e : Event} {w : MainWindow}
    (h : s.follow print fixed contains entries e w = .ok s') : s.Followed print fixed contains entries e w s' := by
  unfold follow at h
  dsimp only at h
  split at h
  · rename_i job
    rw [← Except.ok.inj h]
    split
    · exact ⟨rfl, rfl, .inl rfl, .inr ⟨rfl, nofun⟩, .inl ⟨rfl, nofun⟩⟩
    · rename_i idle
      refine ⟨rfl, rfl, .inr (.inr ⟨rfl, ⟨?_, nofun, nofun⟩⟩), .inr ⟨rfl, nofun⟩, .inl ⟨rfl, nofun⟩⟩
      rintro _ ⟨⟩
      exact Bool.of_not_eq_true idle
  · rename_i job
    rw [← Except.ok.inj h]
    split
    · exact ⟨rfl, rfl, .inl rfl, .inl rfl, .inl ⟨rfl, nofun⟩⟩
    · rename_i idle
      have idle (other : Nat) (is : Event.notifyDbc job = .notifyDbc other) : s.window.dbcLoads.pending other = false := by
        cases is
        exact Bool.of_not_eq_true idle
      exact ⟨rfl, rfl, .inr (.inr ⟨rfl, ⟨nofun, idle, nofun⟩⟩), .inr ⟨rfl, idle⟩, .inl ⟨rfl, nofun⟩⟩
  · rename_i text endId index old asked
    have noSignal (answer : Answer) (endId' : UInt32) (d : SignalSelectDialog)
        (_ : Event.close (.text text) endId = .close answer endId') : s.window.dialog ≠ some (.selectSignal d) := by
      rw [asked]
      exact nofun
    unfold invalidateFilter at h
    split at h
    · rename_i unmapped
      rw [← Except.ok.inj h]
      exact ⟨rfl, rfl, .inl unmapped, .inr ⟨rfl, nofun⟩, .inl ⟨rfl, noSignal⟩⟩
    · obtain ⟨rows, made, rfl⟩ := map_ok h
      exact ⟨rfl, rfl, .inr (.inl ⟨rows, rfl, made⟩), .inr ⟨rfl, nofun⟩, .inl ⟨rfl, noSignal⟩⟩
  · rename_i d asked
    obtain ⟨g, applied, h⟩ := bind_ok h
    rw [← Except.ok.inj h]
    refine ⟨rfl, rfl, .inr (.inr ⟨rfl, ⟨nofun, nofun, fun _ _ index old _ => ?_⟩⟩), .inr ⟨rfl, nofun⟩, .inr ⟨g, applied, rfl⟩⟩
    rw [asked]
    exact nofun
  · rename_i noLog noDbc noFilter noSignal
    rw [← Except.ok.inj h]
    refine ⟨rfl, rfl, .inr (.inr ⟨rfl, ⟨?_, ?_, ?_⟩⟩), .inr ⟨rfl, ?_⟩, .inl ⟨rfl, ?_⟩⟩
    · rintro job rfl
      exact (noLog job rfl).elim
    · rintro job rfl
      exact (noDbc job rfl).elim
    · rintro text endId index old rfl asked
      exact noFilter text endId index old rfl asked
    · rintro job rfl
      exact (noDbc job rfl).elim
    · rintro answer endId d rfl asked
      exact noSignal answer endId d rfl asked

/-- A step of the window, as the views see it. -/
theorem step_window {s s' : ViewWindow} {e : Event}
    (h : s.step qt fuel takesNaN print fixed contains entries (.window e) = .ok s') :
    s' = s ∨ ∃ e' w, s.mapToSource e = some e' ∧ s.window.step qt fuel takesNaN e' = .ok w ∧
      s.Followed print fixed contains entries e' w s' := by
  rw [step] at h
  split at h
  · exact .inl (Except.ok.inj h).symm
  · rename_i e' mapped
    obtain ⟨w, stepped, h⟩ := bind_ok h
    exact .inr ⟨e', w, mapped, stepped, follow_ok h⟩

theorem onMsgSelect_eq (s : ViewWindow) (row : Nat) :
    s.onMsgSelect row = s ∨
      row < s.window.msgDb.db.length ∧ s.onMsgSelect row = { s with signalModel := ⟨row⟩ } := by
  unfold onMsgSelect
  split
  · rename_i clicked
    exact .inr ⟨clicked.2, rfl⟩
  · exact .inl rfl

theorem onAxis_ok {s s' : ViewWindow} {button : AxisButton} (h : s.onAxis button = .ok s') :
    s' = s ∨ ∃ axes geometry, s.axes.press button = .ok axes ∧
      axes.updateChartAxis s.window.time s.window.plots.plotModel s.geometry = .ok geometry ∧
      s' = { s with axes := axes, geometry := geometry } := by
  unfold onAxis at h
  split at h
  · exact .inl (Except.ok.inj h).symm
  · obtain ⟨axes, pressed, h⟩ := bind_ok h
    obtain ⟨geometry, updated, h⟩ := bind_ok h
    exact .inr ⟨axes, geometry, pressed, updated, (Except.ok.inj h).symm⟩

theorem viewRows_ok {s s' : ViewWindow}
    (h : s.step qt fuel takesNaN print fixed contains entries .viewRows = .ok s') :
    s' = s ∨ ∃ rows, rowsOf print fixed contains entries s.window = .ok rows ∧ s' = { s with mapping := some rows } := by
  rw [step] at h
  split at h
  · exact .inl (Except.ok.inj h).symm
  · obtain ⟨rows, made, same⟩ := map_ok h
    exact .inr ⟨rows, made, same.symm⟩

end
end ViewWindow
end CanTracer
