import Mathlib.Data.List.InsertIdx
import Mathlib.Data.List.Perm.Basic
import CanTracer.CanMsg.Basic
import CanTracer.Machine

/-!
# The plot list

`SignalPlotListModel` and the slots of `MainWindow` that change it: adding a signal, the context menu
with its remove action, and the end of a log load. The menu keeps the row it was opened on.
-/

namespace CanTracer

structure SignalPlotItem where
  msgId : UInt32
  signal : CanSignal
  deriving DecidableEq

/-- A chart: which of the charts made it is, and the signal it was made for. -/
structure CustomQChartView where
  serial : Nat
  signal : CanSignal
  deriving DecidableEq

structure SignalPlotListModel where
  items : List SignalPlotItem := []
  widgets : List CustomQChartView := []
  deriving DecidableEq

namespace SignalPlotListModel

def rowCount (m : SignalPlotListModel) : Nat := m.items.length

def addItem (m : SignalPlotListModel) (msgId : UInt32) (signal : CanSignal) (widget : CustomQChartView) :
    SignalPlotListModel :=
  { items := m.items ++ [⟨msgId, signal⟩], widgets := m.widgets ++ [widget] }

/-- The list without the row, and the chart deleted. -/
def removeItem (m : SignalPlotListModel) (row : Nat) : Except Failure (SignalPlotListModel × CustomQChartView) := do
  let items ← QList.remove m.items row
  let widget ← QList.at m.widgets row
  let widgets ← QList.remove m.widgets row
  return (⟨items, widgets⟩, widget)

def serials (m : SignalPlotListModel) : List Nat := m.widgets.map (·.serial)

end SignalPlotListModel

/-! ### The window -/

/-- A context menu with its captured row. `plot` and `stale` are not in the code: the chart the menu
was opened on, and whether since then a load has completed or this row or one above it was removed. -/
structure PlotMenu where
  row : Nat
  plot : Option Nat
  stale : Bool := false
  deriving DecidableEq

structure PlotWindow where
  plotModel : SignalPlotListModel := {}
  menus : List PlotMenu := []
  charts : Nat := 0
  deleted : List Nat := []
  deriving DecidableEq

inductive PlotEvent where
  | addSignal (msgId : UInt32) (signal : CanSignal)
  | plotMenu (messageCount row : Nat)
  | loadLogFile
  | removeSignal (menu : Nat)

namespace PlotWindow

def onAddSignal (s : PlotWindow) (msgId : UInt32) (signal : CanSignal) : PlotWindow :=
  { s with plotModel := s.plotModel.addItem msgId signal ⟨s.charts, signal⟩, charts := s.charts + 1 }

/-- Without a row under it the menu has no remove action. -/
def onSignalPlotMenu (s : PlotWindow) (messageCount row : Nat) : PlotWindow :=
  if messageCount = 0 then s
  else if row < s.plotModel.rowCount then
    { s with menus := s.menus ++ [{ row := row, plot := s.plotModel.serials[row]? }] }
  else s

/-- `onLoadLogFile` calls `SignalPlotListModel::reset`, which deletes every chart. -/
def onLoadLogFile (s : PlotWindow) : PlotWindow :=
  { s with
    plotModel := {}
    menus := s.menus.map fun menu => { menu with stale := true }
    deleted := s.deleted ++ s.plotModel.serials }

def onRemoveSignal (s : PlotWindow) (row : Nat) : Except Failure PlotWindow := do
  let (plotModel, widget) ← s.plotModel.removeItem row
  return { s with
    plotModel := plotModel
    menus := s.menus.map fun menu => { menu with stale := menu.stale || decide (row ≤ menu.row) }
    deleted := s.deleted ++ [widget.serial] }

/-- The remove action closes its menu; an action of a menu that is not open does not happen. -/
def step (s : PlotWindow) : PlotEvent → Except Failure PlotWindow
  | .addSignal msgId signal => .ok (s.onAddSignal msgId signal)
  | .plotMenu messageCount row => .ok (s.onSignalPlotMenu messageCount row)
  | .loadLogFile => .ok s.onLoadLogFile
  | .removeSignal k =>
    match s.menus[k]? with
    | none => .ok s
    | some menu => { s with menus := s.menus.eraseIdx k }.onRemoveSignal menu.row

/-- What has been deleted when `~SignalPlotListModel` has run too. -/
def destroyed (s : PlotWindow) : List Nat := s.deleted ++ s.plotModel.serials

/-- The two lists agree row by row, and every chart made is deleted once. -/
structure Sound (s : PlotWindow) : Prop where
  rows : s.plotModel.items.map (·.signal) = s.plotModel.widgets.map (·.signal)
  once : s.destroyed.Perm (List.range s.charts)

/-- What a step should do: the lists stay sound, and an action deletes its plot or nothing. -/
structure Removes (s : PlotWindow) (e : PlotEvent) (s' : PlotWindow) : Prop where
  sound : s'.Sound
  own : ∀ k, e = .removeSignal k → ∀ menu ∈ s.menus[k]?,
    s'.deleted = s.deleted ++ menu.plot.toList ∨ s'.deleted = s.deleted

/-- The remove action is that of a menu whose row still is what it was. -/
def Fresh (s : PlotWindow) (e : PlotEvent) : Prop :=
  ∀ k, e = .removeSignal k → ∀ menu ∈ s.menus[k]?, menu.stale = false

/-! ### Rows -/

/-- The plot is not in the list, or it has moved above the row. -/
def Gone (serials : List Nat) (row plot : Nat) : Prop := plot ∈ serials → ∃ j < row, serials[j]? = some plot

theorem not_mem_eraseIdx {serials : List Nat} {row plot : Nat} (distinct : serials.Nodup)
    (here : serials[row]? = some plot) :
    plot ∉ serials.eraseIdx row := by
  intro still
  obtain ⟨i, other, same⟩ := List.mem_eraseIdx_iff_getElem?.mp still
  obtain ⟨inside, -⟩ := List.getElem?_eq_some_iff.mp here
  exact other ((List.getElem?_inj inside distinct).mp (here.trans same.symm)).symm

theorem gone_of_here {serials : List Nat} {r row plot : Nat} (distinct : serials.Nodup)
    (here : serials[row]? = some plot) (above : r ≤ row) : Gone (serials.eraseIdx r) row plot := by
  intro still
  rcases Nat.eq_or_lt_of_le above with rfl | above
  · exact absurd still (not_mem_eraseIdx distinct here)
  · refine ⟨row - 1, by omega, ?_⟩
    rw [List.getElem?_eraseIdx_of_ge (by omega), Nat.sub_add_cancel (by omega)]
    exact here

theorem Gone.eraseIdx {serials : List Nat} {row plot : Nat} (distinct : serials.Nodup)
    (gone : Gone serials row plot) (r : Nat) : Gone (serials.eraseIdx r) row plot := by
  intro still
  obtain ⟨j, above, here⟩ := gone (List.mem_of_mem_eraseIdx still)
  rcases Nat.lt_or_ge j r with before | behind
  · exact ⟨j, above, by rw [List.getElem?_eraseIdx_of_lt before]; exact here⟩
  · obtain ⟨i, less, moved⟩ := gone_of_here distinct here behind still
    exact ⟨i, Nat.lt_trans less above, moved⟩

/-- What a menu knows: a fresh one still points to its plot, a stale one points elsewhere. -/
structure Holds (serials : List Nat) (charts : Nat) (menu : PlotMenu) (plot : Nat) : Prop where
  opened : menu.plot = some plot
  made : plot < charts
  fresh : menu.stale = false → serials[menu.row]? = some plot
  stale : menu.stale = true → Gone serials menu.row plot

structure Inv (s : PlotWindow) : Prop where
  sound : s.Sound
  menus : ∀ menu ∈ s.menus, ∃ plot, Holds s.plotModel.serials s.charts menu plot

theorem Sound.nodup {s : PlotWindow} (h : s.Sound) : s.plotModel.serials.Nodup :=
  (List.nodup_append.mp (h.once.nodup_iff.mpr List.nodup_range)).2.1

theorem Sound.lt_charts {s : PlotWindow} (h : s.Sound) {plot : Nat} (among : plot ∈ s.plotModel.serials) :
    plot < s.charts :=
  List.mem_range.mp (h.once.subset (List.mem_append_right _ among))

theorem Sound.length {s : PlotWindow} (h : s.Sound) :
    s.plotModel.items.length = s.plotModel.serials.length := by
  have same := congrArg List.length h.rows
  rw [List.length_map, List.length_map] at same
  rw [same, SignalPlotListModel.serials, List.length_map]

/-! ### What a slot does -/

theorem onAddSignal_inv {s : PlotWindow} (inv : s.Inv) (msgId : UInt32) (signal : CanSignal) :
    (s.onAddSignal msgId signal).Inv := by
  have serials : (s.onAddSignal msgId signal).plotModel.serials = s.plotModel.serials ++ [s.charts] :=
    List.map_append
  refine ⟨⟨?_, ?_⟩, fun menu hmenu => ?_⟩
  · simp [onAddSignal, SignalPlotListModel.addItem, inv.sound.rows]
  · rw [destroyed, serials, ← List.append_assoc]
    change (s.destroyed ++ [s.charts]).Perm (List.range (s.charts + 1))
    rw [List.range_succ]
    exact inv.sound.once.append_right _
  · obtain ⟨plot, holds⟩ := inv.menus menu hmenu
    rw [serials]
    refine ⟨plot, holds.opened, Nat.lt_succ_of_lt holds.made, fun fresh => ?_, fun stale still => ?_⟩
    · have here := holds.fresh fresh
      rw [List.getElem?_append_left (List.getElem?_eq_some_iff.mp here).1]
      exact here
    · rcases List.mem_append.mp still with still | new
      · obtain ⟨j, above, here⟩ := holds.stale stale still
        exact ⟨j, above, by rw [List.getElem?_append_left (List.getElem?_eq_some_iff.mp here).1]; exact here⟩
      · exact absurd (List.mem_singleton.mp new) (Nat.ne_of_lt holds.made)

theorem onSignalPlotMenu_inv {s : PlotWindow} (inv : s.Inv) (messageCount row : Nat) :
    (s.onSignalPlotMenu messageCount row).Inv := by
  unfold onSignalPlotMenu
  split
  · exact inv
  split
  · rename_i inside
    rw [SignalPlotListModel.rowCount, inv.sound.length] at inside
    refine ⟨⟨inv.sound.rows, inv.sound.once⟩, fun menu hmenu => ?_⟩
    rcases List.mem_append.mp hmenu with old | new
    · exact inv.menus menu old
    · obtain rfl := List.mem_singleton.mp new
      have here := List.getElem?_eq_getElem inside
      exact ⟨_, here, inv.sound.lt_charts (List.getElem_mem inside), fun _ => here, nofun⟩
  · exact inv

theorem onLoadLogFile_inv {s : PlotWindow} (inv : s.Inv) : s.onLoadLogFile.Inv := by
  refine ⟨⟨rfl, ?_⟩, fun menu hmenu => ?_⟩
  · change ((s.deleted ++ s.plotModel.serials) ++ []).Perm (List.range s.charts)
    rw [List.append_nil]
    exact inv.sound.once
  · obtain ⟨menu, old, rfl⟩ := List.mem_map.mp hmenu
    obtain ⟨plot, holds⟩ := inv.menus menu old
    exact ⟨plot, holds.opened, holds.made, nofun, fun _ => nofun⟩

theorem onRemoveSignal_ok {s : PlotWindow} (sound : s.Sound) {row plot : Nat}
    (here : s.plotModel.serials[row]? = some plot) :
    ∃ plotModel, s.onRemoveSignal row = .ok { s with
        plotModel := plotModel
        menus := s.menus.map fun menu => { menu with stale := menu.stale || decide (row ≤ menu.row) }
        deleted := s.deleted ++ [plot] } ∧
      plotModel.items = s.plotModel.items.eraseIdx row ∧ plotModel.widgets = s.plotModel.widgets.eraseIdx row := by
  obtain ⟨inside, same⟩ := List.getElem?_eq_some_iff.mp here
  have items : row < s.plotModel.items.length := by rw [sound.length]; exact inside
  have widgets : row < s.plotModel.widgets.length := by
    rw [SignalPlotListModel.serials, List.length_map] at inside
    exact inside
  refine ⟨⟨s.plotModel.items.eraseIdx row, s.plotModel.widgets.eraseIdx row⟩, ?_, rfl, rfl⟩
  simp only [SignalPlotListModel.serials, List.getElem_map] at same
  simp only [onRemoveSignal, SignalPlotListModel.removeItem, QList.remove, QList.at, if_pos items, if_pos widgets,
    dif_pos widgets, bind, Except.bind, pure, Except.pure, same]

theorem onRemoveSignal_deletes {s s' : PlotWindow} {row : Nat} (h : s.onRemoveSignal row = .ok s') :
    ∃ plot, s.plotModel.serials[row]? = some plot ∧ s'.deleted = s.deleted ++ [plot] := by
  unfold onRemoveSignal SignalPlotListModel.removeItem QList.remove QList.at at h
  split at h
  · split at h
    · rename_i widgets
      rw [← Except.ok.inj h]
      exact ⟨s.plotModel.widgets[row].serial, by rw [SignalPlotListModel.serials, List.getElem?_map,
        List.getElem?_eq_getElem widgets, Option.map_some], rfl⟩
    · cases h
  · cases h

theorem onRemoveSignal_inv {s s' : PlotWindow} (inv : s.Inv) {row plot : Nat}
    (here : s.plotModel.serials[row]? = some plot) (h : s.onRemoveSignal row = .ok s') : s'.Inv := by
  obtain ⟨plotModel, removed, items, widgets⟩ := onRemoveSignal_ok inv.sound here
  obtain rfl := Except.ok.inj (removed.symm.trans h)
  have serials : plotModel.serials = s.plotModel.serials.eraseIdx row := by
    rw [SignalPlotListModel.serials, widgets, ← List.eraseIdx_map]
    rfl
  refine ⟨⟨?_, ?_⟩, fun menu hmenu => ?_⟩
  · rw [items, widgets, ← List.eraseIdx_map, ← List.eraseIdx_map, inv.sound.rows]
  · obtain ⟨inside, same⟩ := List.getElem?_eq_some_iff.mp here
    have moved := (List.getElem_cons_eraseIdx_perm inside).append_left s.deleted
    rw [same, ← List.singleton_append, ← List.append_assoc, ← serials] at moved
    exact moved.trans inv.sound.once
  · obtain ⟨menu, old, rfl⟩ := List.mem_map.mp hmenu
    obtain ⟨other, holds⟩ := inv.menus menu old
    refine ⟨other, holds.opened, holds.made, fun fresh => ?_, fun stale => ?_⟩
    · obtain ⟨fresh, above⟩ := Bool.or_eq_false_iff.mp fresh
      rw [serials, List.getElem?_eraseIdx_of_lt (Nat.lt_of_not_le (of_decide_eq_false above))]
      exact holds.fresh fresh
    · rw [serials]
      cases was : menu.stale with
      | true => exact (holds.stale was).eraseIdx inv.sound.nodup row
      | false =>
        rw [was, Bool.false_or, decide_eq_true_iff] at stale
        exact gone_of_here inv.sound.nodup (holds.fresh was) stale

/-- Closing a menu keeps what the other menus know. -/
theorem Inv.close {s : PlotWindow} (inv : s.Inv) (k : Nat) : Inv { s with menus := s.menus.eraseIdx k } :=
  ⟨⟨inv.sound.rows, inv.sound.once⟩, fun menu hmenu => inv.menus menu (List.mem_of_mem_eraseIdx hmenu)⟩

/-! ### Runs -/

theorem step_inv (s : PlotWindow) (e : PlotEvent) (s' : PlotWindow) (inv : s.Inv) (fresh : s.Fresh e)
    (h : s.step e = .ok s') : s'.Inv := by
  cases e with
  | addSignal msgId signal =>
    rw [← Except.ok.inj h]
    exact onAddSignal_inv inv msgId signal
  | plotMenu messageCount row =>
    rw [← Except.ok.inj h]
    exact onSignalPlotMenu_inv inv messageCount row
  | loadLogFile =>
    rw [← Except.ok.inj h]
    exact onLoadLogFile_inv inv
  | removeSignal k =>
    rw [step] at h
    split at h
    · rw [← Except.ok.inj h]
      exact inv
    · rename_i menu open_
      obtain ⟨plot, holds⟩ := inv.menus menu (List.mem_of_getElem? open_)
      exact onRemoveSignal_inv (inv.close k) (holds.fresh (fresh k rfl menu open_)) h

/-- A step with a fresh menu does not fail, and deletes its plot. -/
theorem step_fresh {s : PlotWindow} {e : PlotEvent} (inv : s.Inv) (fresh : s.Fresh e) :
    ∃ s', s.step e = .ok s' ∧
      ∀ k, e = .removeSignal k → ∀ menu ∈ s.menus[k]?, s'.deleted = s.deleted ++ menu.plot.toList := by
  cases e with
  | addSignal msgId signal => exact ⟨_, rfl, nofun⟩
  | plotMenu messageCount row => exact ⟨_, rfl, nofun⟩
  | loadLogFile => exact ⟨_, rfl, nofun⟩
  | removeSignal k =>
    cases open_ : s.menus[k]? with
    | none =>
      refine ⟨s, by rw [step, open_], ?_⟩
      rintro k' ⟨⟩ menu hmenu
      rw [open_] at hmenu
      cases hmenu
    | some menu =>
      obtain ⟨plot, holds⟩ := inv.menus menu (List.mem_of_getElem? open_)
      obtain ⟨plotModel, removed, -, -⟩ :=
        onRemoveSignal_ok (inv.close k).sound (holds.fresh (fresh k rfl menu open_))
      refine ⟨_, by rw [step, open_]; exact removed, ?_⟩
      rintro k' ⟨⟩ menu' hmenu
      obtain rfl := Option.some.inj (open_.symm.trans hmenu)
      rw [holds.opened]
      rfl

theorem step_removes_iff (s : PlotWindow) (e : PlotEvent) (inv : s.Inv) :
    s.Fresh e ↔ ∃ s', s.step e = .ok s' ∧ s.Removes e s' := by
  constructor
  · intro fresh
    obtain ⟨s', h, own⟩ := step_fresh inv fresh
    exact ⟨s', h, (step_inv s e s' inv fresh h).sound, fun k he menu hmenu => .inl (own k he menu hmenu)⟩
  · rintro ⟨s', h, removes⟩ k rfl menu open_
    rw [← Bool.not_eq_true]
    intro stale
    obtain ⟨plot, holds⟩ := inv.menus menu (List.mem_of_getElem? open_)
    rw [step, open_] at h
    obtain ⟨other, here, deleted⟩ := onRemoveSignal_deletes h
    have own := removes.own k rfl menu open_
    rw [deleted, holds.opened] at own
    rcases own with same | nothing
    · -- A stale menu points to another plot than the one it was opened on.
      obtain ⟨rfl⟩ : other = plot := by simpa using same
      obtain ⟨j, above, there⟩ := holds.stale stale (List.mem_of_getElem? here)
      have rows := (List.getElem?_inj (List.getElem?_eq_some_iff.mp there).1 inv.sound.nodup).mp (there.trans here.symm)
      omega
    · simp at nothing

/-- A run keeps the two lists, stays inside them and removes what the menus were opened on exactly
when no remove action comes from a menu that has gone stale. -/
theorem run_removes_iff (events : List PlotEvent) :
    Machine.Good step Removes events {} ↔ Machine.Along step Fresh events {} :=
  Machine.good_iff_along step_removes_iff step_inv events {} ⟨⟨rfl, List.Perm.refl _⟩, nofun⟩

/-- The log is loaded while the menu of the only plot is open. -/
theorem run_removes_loaded : ¬ ∀ events, Machine.Good step Removes events {} := by
  intro h
  obtain ⟨s, ran⟩ := Machine.good_run _ _
    (h [.addSignal 0x100 ⟨0, 8, false, false, 1, 0, 0, 0, [], [], [], []⟩, .plotMenu 1 0, .loadLogFile, .removeSignal 0])
  have fails : Machine.run step [.addSignal 0x100 ⟨0, 8, false, false, 1, 0, 0, 0, [], [], [], []⟩, .plotMenu 1 0,
      .loadLogFile, .removeSignal 0] {} = .error (.undefined .arrayIndex) := rfl
  rw [fails] at ran
  cases ran

end PlotWindow
end CanTracer
