import CanTracer.CanLogModel.Texts
import CanTracer.CanMsg.Decodable
import CanTracer.MainWindow.Shown

/-!
# What the log view can paint

A view asks for the cells of a row and of the signals below it, and nothing catches what the model throws then.
-/

namespace CanTracer

namespace CanLogModel

section
variable (print : Double → QString) (fixed : ℚ → QString)

/-- What a view does for a cell. -/
def cell (m : CanLogModel) (db : CanDb) (row column : Nat) (parent : QModelIndex) (role : Role) :
    Except Failure QVariant := do
  let index ← m.index db row column parent
  m.data print fixed db index role

/-- Every cell of a row of the log, and of the signals below it, has something to show for every role. -/
structure Paints (m : CanLogModel) (db : CanDb) (r : Nat) : Prop where
  message : ∀ c < columnCount, ∀ role, ∃ value, m.cell print fixed db r c .invalid role = .ok value
  signals : ∀ i, m.HasRow db (.valid r 0 none) i → ∀ c < columnCount, ∀ role,
    ∃ value, m.cell print fixed db i c (.valid r 0 none) role = .ok value

/-- The bytes that are announced are there, and the signals of the message can be decoded. The rows of signals that
have no log row of their number stay empty. -/
structure Paintable (m : CanLogModel) (db : CanDb) (item : CanLogMsg) : Prop where
  short : item.dlc.toNat ≤ canMaxDlc
  decodes : ∀ msg, db.findMessage item.id = some msg → ∀ (i : Nat) signal, (i : Int) < narrowInt msg.canSignals.length →
    msg.canSignals[i]? = some signal → i < m.buffer.length → signal.Decodable item.dlc

variable {print fixed} {m : CanLogModel} {db : CanDb} {r : Nat} {item : CanLogMsg}

/-! ### Cells -/

theorem displayMessageRow_ok (short : item.dlc.toNat ≤ canMaxDlc) (c : Nat) :
    ∃ value, displayMessageRow fixed db item c = .ok value := by
  match c with
  | 0 | 1 | 2 | 3 | 4 | 5 => exact ⟨_, rfl⟩
  | 6 =>
    obtain ⟨text, shown⟩ := dataColumn_ok short
    exact ⟨.string text, by rw [displayMessageRow, shown]; rfl⟩
  | n + 7 => exact ⟨.invalid, rfl⟩

theorem displaySignalRow_ok {msg : CanMessage} {i : Nat} {signal : CanSignal} (here : msg.canSignals[i]? = some signal)
    (decodes : signal.Decodable item.dlc) (c : Nat) : ∃ text, displaySignalRow print msg item i c = .ok text := by
  obtain ⟨value, decoded⟩ := (signal.parseSignal_ok_iff item.data item.dlc).mpr decodes
  rw [displaySignalRow, at_some here, ok_bind]
  rcases c with _ | _ | _ | _ | n
  · exact ⟨signal.name, rfl⟩
  · exact ⟨signal.unit, rfl⟩
  · exact ⟨print value, congrArg (· >>= _) decoded⟩
  · exact ⟨signal.display print value, congrArg (· >>= _) decoded⟩
  · exact ⟨[], rfl⟩

/-- Of the roles only the one for texts can fail. -/
theorem data_ok_iff {c : Nat} {pointer : Option Nat} :
    (∀ role, ∃ value, m.data print fixed db (.valid r c pointer) role = .ok value) ↔
      (r < m.buffer.length → ∃ value, m.displayRowData print fixed db r c pointer = .ok value) := by
  by_cases inside : r < m.buffer.length
  · have text : m.data print fixed db (.valid r c pointer) .display = m.displayRowData print fixed db r c pointer := by
      rw [data, if_neg (Nat.not_le.mpr inside), at_inside inside]
      rfl
    constructor
    · rintro all -
      rw [← text]
      exact all .display
    · intro shown role
      cases role with
      | display =>
        rw [text]
        exact shown inside
      | background | other =>
        rw [data, if_neg (Nat.not_le.mpr inside), at_inside inside]
        exact ⟨_, rfl⟩
  · refine ⟨fun _ within => absurd within inside, fun _ role => ⟨.invalid, ?_⟩⟩
    rw [data, if_pos (Nat.not_lt.mp inside)]

theorem messageCell_ok_iff (row : m.buffer[r]? = some item) {c : Nat} :
    (∀ role, ∃ value, m.data print fixed db (.valid r c none) role = .ok value) ↔
      ∃ value, displayMessageRow fixed db item c = .ok value := by
  have inside := (List.getElem?_eq_some_iff.mp row).1
  rw [data_ok_iff, forall_prop_of_true inside, displayRowData, at_some row, ok_bind]

theorem signalCell_ok_iff (row : m.buffer[r]? = some item) {msg : CanMessage} (found : db.findMessage item.id = some msg)
    {i c : Nat} :
    (∀ role, ∃ value, m.data print fixed db (.valid i c (some r)) role = .ok value) ↔
      (i < m.buffer.length → ∃ text, displaySignalRow print msg item i c = .ok text) := by
  rw [data_ok_iff]
  refine imp_congr_right fun _ => ?_
  simp only [displayRowData, at_some row, ok_bind, found]
  cases displaySignalRow print msg item i c with
  | error failure =>
    constructor
    · rintro ⟨_, ⟨⟩⟩
    · rintro ⟨_, ⟨⟩⟩
  | ok text => exact ⟨fun _ => ⟨text, rfl⟩, fun _ => ⟨.string text, rfl⟩⟩

/-! ### Rows -/

theorem messageRow_paints (shown : (r : Int) < m.rowCount) (row : m.buffer[r]? = some item) :
    (∀ c < columnCount, ∀ role, ∃ value, m.cell print fixed db r c .invalid role = .ok value) ↔
      item.dlc.toNat ≤ canMaxDlc := by
  have each (c : Nat) (inside : c < columnCount) :
      (∀ role, ∃ value, m.cell print fixed db r c .invalid role = .ok value) ↔
        ∃ value, displayMessageRow fixed db item c = .ok value := by
    have made : m.index db r c .invalid = .ok (.valid r c none) := index_hasRow ⟨m.rowCount, rfl, shown⟩ inside
    simp only [cell, made, ok_bind]
    exact messageCell_ok_iff row
  constructor
  · intro paints
    obtain ⟨value, shows⟩ := (each 6 (by decide)).mp (paints 6 (by decide))
    obtain ⟨text, column, -⟩ := map_ok shows
    exact dataColumn_short column
  · exact fun short c inside => (each c inside).mpr (displayMessageRow_ok short c)

theorem signalRow_paints (row : m.buffer[r]? = some item) {msg : CanMessage} (found : db.findMessage item.id = some msg)
    {i : Nat} {signal : CanSignal} (counted : (i : Int) < narrowInt msg.canSignals.length)
    (here : msg.canSignals[i]? = some signal) :
    (∀ c < columnCount, ∀ role, ∃ value, m.cell print fixed db i c (.valid r 0 none) role = .ok value) ↔
      (i < m.buffer.length → signal.Decodable item.dlc) := by
  have each (c : Nat) (inside : c < columnCount) :
      (∀ role, ∃ value, m.cell print fixed db i c (.valid r 0 none) role = .ok value) ↔
        (i < m.buffer.length → ∃ text, displaySignalRow print msg item i c = .ok text) := by
    have made : m.index db i c (.valid r 0 none) = .ok (.valid i c (some r)) :=
      index_hasRow ((hasRow_message row found).mpr counted) inside
    simp only [cell, made, ok_bind]
    exact signalCell_ok_iff row found
  constructor
  · intro paints within
    obtain ⟨text, shows⟩ := (each 2 (by decide)).mp (paints 2 (by decide)) within
    rw [displaySignalRow, at_some here, ok_bind] at shows
    obtain ⟨value, decoded, -⟩ := bind_ok shows
    exact (signal.parseSignal_ok_iff item.data item.dlc).mp ⟨value, decoded⟩
  · exact fun decodes c inside => (each c inside).mpr fun within => displaySignalRow_ok here (decodes within) c

/-- A row can be painted exactly when its message can. -/
theorem paints_iff (shown : (r : Int) < m.rowCount) (row : m.buffer[r]? = some item) :
    m.Paints print fixed db r ↔ m.Paintable db item := by
  constructor
  · rintro ⟨message, signals⟩
    refine ⟨(messageRow_paints shown row).mp message, fun msg found i signal counted here => ?_⟩
    exact (signalRow_paints row found counted here).mp (signals i ((hasRow_message row found).mpr counted))
  · rintro ⟨short, decodes⟩
    refine ⟨(messageRow_paints shown row).mpr short, fun i below => ?_⟩
    obtain ⟨item', msg, row', found, counted⟩ := below.message
    obtain rfl := Option.some.inj (row.symm.trans row')
    have small := narrowInt_le msg.canSignals.length
    have here := List.getElem?_eq_getElem (by omega : i < msg.canSignals.length)
    exact (signalRow_paints row found counted here).mpr (decodes msg found i _ counted here)

end
end CanLogModel

namespace ViewWindow

section
variable {qt : Qt} {fuel : Nat} {takesNaN : Bool}
variable {print : Double → QString} {fixed : ℚ → QString} {contains : QString → QString → Bool}
variable {entries : CustomProxyModel → List (UInt8 × QString)}

/-- Along every run the log view can paint all of its rows exactly when each message that the filters let through
can be painted. -/
theorem run_paints_iff (lists : ∀ m, CustomProxyModel.Lists m (entries m)) {events : List ViewEvent} {s : ViewWindow}
    (h : Machine.run (step qt fuel takesNaN print fixed contains entries) events {} = .ok s) {rows : List Nat}
    (mapped : s.mapping = some rows) :
    (∀ r ∈ rows, s.window.logs.model.Paints print fixed s.window.msgDb r) ↔
      ∀ r ∈ rows, ∀ item ∈ s.window.log[r]?, s.window.logs.model.Paintable s.window.msgDb item := by
  have maps := (run_mapped lists h).1 rows mapped
  refine forall₂_congr fun r among => ?_
  have shown := ((maps.members r).mp among).1
  have row : s.window.log[r]? = some _ := List.getElem?_eq_getElem (LogWindow.row_toUInt32 shown).2
  rw [CanLogModel.paints_iff shown row, row]
  exact ⟨fun paintable _ same => Option.some.inj same ▸ paintable, fun all => all _ rfl⟩

theorem run_paints_iff_filtered :
    ∃ s, Machine.run (step plainBuild 0 true (fun _ => []) (fun _ => []) occurs ascending) filtered {} = .ok s ∧
      ((∀ r ∈ [0], s.window.logs.model.Paints (fun _ => []) (fun _ => []) s.window.msgDb r) ↔
        ∀ r ∈ [0], ∀ item ∈ s.window.log[r]?, s.window.logs.model.Paintable s.window.msgDb item) := by
  have maps : (Machine.run (step plainBuild 0 true (fun _ => []) (fun _ => []) occurs ascending) filtered {}).map
      (·.mapping) = .ok (some [0]) := by
    decide +kernel
  obtain ⟨s, ran, mapped⟩ := map_ok maps
  exact ⟨s, ran, run_paints_iff ascending_lists ran mapped⟩

end
end ViewWindow
end CanTracer
