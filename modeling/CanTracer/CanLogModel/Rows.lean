import CanTracer.CanLogModel
import CanTracer.CanMsg.Display

/-!
# The log as a tree

`CanLogModel` as an item model with a row for each message and below it, if the database knows its
identifier, a row for each signal. The internal pointer of an index is null for a message and points
to the message in the log for a signal.
-/

namespace CanTracer

/-- An index: invalid, or a row, a column and the pointer, given as the position it points to. -/
inductive QModelIndex where
  | invalid
  | valid (row column : Nat) (pointer : Option Nat)
  deriving DecidableEq

inductive QVariant where
  | invalid
  | string (text : QString)
  | color (color : QColor)
  | brush (color : QColor)
  deriving DecidableEq

inductive Role where
  | display
  | background
  | other
  deriving DecidableEq

/-! ### Texts -/

/-- `QString::number` -/
def natText (n : Nat) : QString := Nat.toDigits 10 n

/-- `QString("%1").arg(n, width, 16, '0').toUpper()` -/
def hexText (n width : Nat) : QString :=
  (List.replicate (width - (Nat.toDigits 16 n).length) '0' ++ Nat.toDigits 16 n).map Char.toUpper

abbrev maxNormalCanId : Nat := 0x7FF

abbrev normalCanNibble : Nat := 3

abbrev extCanNibble : Nat := 8

def CanMessage.formatId (id : UInt32) : QString :=
  hexText id.toNat (if maxNormalCanId < id.toNat then extCanNibble else normalCanNibble)

def yellow : QColor := ⟨255, 255, 0, 255⟩

def green : QColor := ⟨0, 255, 0, 255⟩

/-! ### The model -/

namespace CanLogModel

def columnCount : Nat := 7

/-- `rowCount` below an index. -/
def rowCountBelow (m : CanLogModel) (db : CanDb) : QModelIndex → Except Failure Int
  | .invalid => .ok m.rowCount
  | .valid _ _ (some _) => .ok 0
  | .valid row _ none => do
    let log ← QList.at m.buffer row
    match db.findMessage log.id with
    | none => return 0
    | some msg => return narrowInt msg.canSignals.length

def hasIndex (m : CanLogModel) (db : CanDb) (row column : Nat) (parent : QModelIndex) : Except Failure Bool := do
  let rows ← m.rowCountBelow db parent
  return decide ((row : Int) < rows) && decide (column < columnCount)

def index (m : CanLogModel) (db : CanDb) (row column : Nat) (parent : QModelIndex) : Except Failure QModelIndex := do
  let has ← m.hasIndex db row column parent
  if has then
    match parent with
    | .invalid => return .valid row column none
    | .valid parentRow _ _ => do
      let log ← QList.at m.buffer parentRow
      match db.findMessage log.id with
      | none => return .invalid
      | some msg => return if row < msg.canSignals.length then .valid row column (some parentRow) else .invalid
  else return .invalid

section
variable (print : Double → QString) (fixed : ℚ → QString)

/-- The texts of a message. `fixed` is `QString::number` with four decimals. -/
def displayMessageRow (db : CanDb) (item : CanLogMsg) : Nat → Except Failure QVariant
  | 0 => .ok (.string (natText item.number.toNat))
  | 1 => .ok (.string (fixed item.time))
  | 2 => .ok (.string (natText item.channel.toNat))
  | 3 => .ok (.string (CanMessage.formatId item.id))
  | 4 => .ok (.string (natText item.dlc.toNat))
  | 5 => .ok (.string ((db.findMessage item.id).elim [] (·.name)))
  | 6 => (dataColumn item).map .string
  | _ => .ok .invalid

def displayRowData (m : CanLogModel) (db : CanDb) (row column : Nat) (pointer : Option Nat) : Except Failure QVariant :=
  match pointer with
  | none => do
    let item ← QList.at m.buffer row
    displayMessageRow fixed db item column
  | some p => do
    let item ← QList.at m.buffer p
    match db.findMessage item.id with
    | none => .error (.undefined .nullMessage)
    | some msg => (displaySignalRow print msg item row column).map .string

/-- The background of a row of the log. -/
def backgroundData (m : CanLogModel) (db : CanDb) (row : Nat) (msg : CanLogMsg) : QVariant :=
  if m.isMsgHighlight row then .brush yellow
  else if (m.idList msg.id).getD false then .brush green
  else
    match db.findMessage msg.id with
    | none => .invalid
    | some canmsg => .color canmsg.color

/-- The row number of an index is compared with the size of the log, whatever it is the row of. -/
def data (m : CanLogModel) (db : CanDb) (index : QModelIndex) (role : Role) : Except Failure QVariant :=
  match index with
  | .invalid => .ok .invalid
  | .valid row column pointer =>
    if m.buffer.length ≤ row then .ok .invalid
    else do
      let msg ← QList.at m.buffer row
      match role with
      | .display => m.displayRowData print fixed db row column pointer
      | .background => return m.backgroundData db row msg
      | .other => return .invalid

end

/-! ### Signal rows -/

/-- The index of a signal of a message. -/
def signalIndex (m : CanLogModel) (db : CanDb) (row signal column : Nat) : Except Failure QModelIndex := do
  let top ← m.index db row 0 .invalid
  m.index db signal column top

/-- What the columns of a signal should show: name, unit, value and the text of the value. -/
def signalText (print : Double → QString) (signal : CanSignal) (item : CanLogMsg) : Nat → Except Failure QString
  | 0 => .ok signal.name
  | 1 => .ok signal.unit
  | 2 => (signal.parseSignal item.data item.dlc).map print
  | _ => (signal.parseSignal item.data item.dlc).map (signal.display print)

theorem displaySignalRow_eq {print : Double → QString} {msg : CanMessage} {item : CanLogMsg} {i c : Nat}
    {signal : CanSignal} (here : msg.canSignals[i]? = some signal) (column : c ≤ 3) :
    displaySignalRow print msg item i c = signalText print signal item c := by
  rw [displaySignalRow, at_some here, ok_bind]
  obtain rfl | rfl | rfl | rfl : c = 0 ∨ c = 1 ∨ c = 2 ∨ c = 3 := by omega
  · rfl
  · rfl
  · change (signal.parseSignal item.data item.dlc >>= _) = _
    rw [signalText]
    cases signal.parseSignal item.data item.dlc <;> rfl
  · change (signal.parseSignal item.data item.dlc >>= _) = (signal.parseSignal item.data item.dlc).map _
    cases signal.parseSignal item.data item.dlc <;> rfl

theorem hasIndex_eq {m : CanLogModel} {db : CanDb} {row column : Nat} {parent : QModelIndex} {rows : Int}
    (below : m.rowCountBelow db parent = .ok rows) (inside : column < columnCount) :
    m.hasIndex db row column parent = .ok (decide ((row : Int) < rows)) := by
  rw [hasIndex, below]
  change Except.ok (decide _ && decide _) = _
  rw [decide_eq_true inside, Bool.and_true]

theorem index_top {m : CanLogModel} {db : CanDb} {r : Nat} (shown : (r : Int) < m.rowCount) :
    m.index db r 0 .invalid = .ok (.valid r 0 none) := by
  have has : m.hasIndex db r 0 .invalid = .ok (decide ((r : Int) < m.rowCount)) := hasIndex_eq rfl (by decide)
  rw [decide_eq_true shown] at has
  rw [index, has]
  rfl

def fan : CanSignal := { heater with name := "fan".toList }

/-- A message with two signals. -/
def climate : CanMessage := { canSignals := [heater, fan] }

def cabin : CanDb := ⟨[climate]⟩

def cabinLog : CanLogModel where
  buffer := [heaterFrame]

end CanLogModel
end CanTracer
