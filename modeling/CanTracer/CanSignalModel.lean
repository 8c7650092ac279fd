import CanTracer.CanLogModel.Rows
import CanTracer.PlaceMarkers

/-!
# The signal table

`CanSignalModel` shows the signals of one message of the database, given by its row, and nothing while
the row is -1.
-/

namespace CanTracer

open PlaceMarkers

/-- `QChar::isSpace` -/
def isBlank (c : Char) : Bool :=
  c == ' ' || ('\t'.val ≤ c.val && c.val ≤ '\r'.val) || c == '\u0085' || c == '\u00A0' || c == '\u1680' ||
    ('\u2000'.val ≤ c.val && c.val ≤ '\u200A'.val) || c == '\u2028' || c == '\u2029' || c == '\u202F' ||
    c == '\u205F' || c == '\u3000'

/-- `QString::trimmed` -/
def trimmed (s : QString) : QString := ((s.dropWhile isBlank).reverse.dropWhile isBlank).reverse

structure CanSignalModel where
  msgIndex : Int := -1
  deriving DecidableEq

namespace CanSignalModel

/-- The columns, in the order of `signalCol`. -/
inductive SignalCol where
  | signalName
  | signalStartBit
  | signalLen
  | signalType
  | signalEndian
  | signalScale
  | signalOffset
  | signalMin
  | signalMax
  | signalUnit
  | signalValues
  deriving DecidableEq, Repr

def columns : List SignalCol :=
  [.signalName, .signalStartBit, .signalLen, .signalType, .signalEndian, .signalScale, .signalOffset, .signalMin,
    .signalMax, .signalUnit, .signalValues]

def signalMaxCol : Nat := 11

def headers : List QString :=
  ["Name", "Start Bit", "Len", "Type", "Endian", "Scale", "Offset", "Min", "Max", "Unit", "Values"].map (·.toList)

def setMsgIndex (_ : CanSignalModel) (idx : Int) : CanSignalModel := ⟨idx⟩

def dbChanged (_ : CanSignalModel) : CanSignalModel := ⟨-1⟩

def rowCount (m : CanSignalModel) (db : CanDb) : Except Failure Int :=
  if m.msgIndex < 0 then .ok 0
  else do
    let msg ← QList.atInt db.db m.msgIndex
    return narrowInt msg.canSignals.length

def columnCount : Nat := signalMaxCol

section
variable (print : Double → QString)

/-- `QString("%1").arg(v)` -/
def numberText (v : ℚ) : QString := arg "%1".toList (print (.num v))

/-- `QString("%1 - %2\n").arg(p.first).arg(p.second)` -/
def pairText (p : ℚ × QString) : QString := arg (arg "%1 - %2\n".toList (print (.num p.1))) p.2

def valuesText (signal : CanSignal) : QString :=
  trimmed (signal.values.foldl (fun ret p => ret ++ pairText print p) [])

/-- A cell. -/
def text (signal : CanSignal) : SignalCol → QString
  | .signalName => signal.name
  | .signalStartBit => natText signal.startBit.toNat
  | .signalLen => natText signal.len.toNat
  | .signalScale => numberText print signal.scale
  | .signalMax => numberText print signal.max
  | .signalMin => numberText print signal.min
  | .signalOffset => numberText print signal.offset
  | .signalEndian => if signal.isBigEndian then "big".toList else "little".toList
  | .signalType => if signal.isSigned then "signed".toList else "unsigned".toList
  | .signalUnit => signal.unit
  | .signalValues => valuesText print signal

def data (m : CanSignalModel) (db : CanDb) (index : QModelIndex) (role : Role) : Except Failure QVariant :=
  match index, role with
  | .valid row column _, .display => do
    let msg ← QList.atInt db.db m.msgIndex
    let signal ← QList.at msg.canSignals row
    return .string ((columns[column]?).elim [] (text print signal))
  | _, _ => .ok .invalid

end

/-- A section below the number of columns is looked up in the headers. -/
def headerData (column : Nat) (horizontal display : Bool) : Except Failure QVariant :=
  if !display || !horizontal || signalMaxCol ≤ column then .ok .invalid
  else (QList.at headers column).map .string

/-! ### Cells -/

/-- The table shows no message, or one of the database. -/
def Inside (m : CanSignalModel) (db : CanDb) : Prop := m.msgIndex = -1 ∨ 0 ≤ m.msgIndex ∧ m.msgIndex < db.db.length

/-- Every cell of the table is that of a signal of the message shown. -/
structure Shows (m : CanSignalModel) (print : Double → QString) (db : CanDb) : Prop where
  rows : ∃ rows, m.rowCount db = .ok rows ∧ ∀ row : Nat, (row : Int) < rows → ∃ msg signal,
    QList.atInt db.db m.msgIndex = .ok msg ∧ msg.canSignals[row]? = some signal ∧
      ∀ column name, columns[column]? = some name →
        m.data print db (.valid row column none) .display = .ok (.string (text print signal name))
  header : ∀ column, column < columnCount → ∃ title, headerData column true true = .ok (.string title)

theorem headerData_ok {column : Nat} (inside : column < columnCount) :
    ∃ title, headerData column true true = .ok (.string title) := by
  have here : column < headers.length := inside
  refine ⟨headers[column], ?_⟩
  have not : ¬ signalMaxCol ≤ column := Nat.not_le.mpr inside
  rw [headerData, decide_eq_false not, at_inside here]
  rfl

theorem Inside.shows {m : CanSignalModel} {db : CanDb} (inside : m.Inside db) (print : Double → QString) :
    m.Shows print db := by
  refine ⟨?_, fun column => headerData_ok⟩
  rcases inside with nothing | ⟨sign, less⟩
  · refine ⟨0, by rw [rowCount, nothing]; rfl, fun row below => ?_⟩
    omega
  · obtain ⟨k, is⟩ := Int.eq_ofNat_of_zero_le sign
    have here : k < db.db.length := by omega
    have read : QList.atInt db.db m.msgIndex = .ok db.db[k] := by rw [is, atInt_natCast, at_inside here]
    refine ⟨narrowInt db.db[k].canSignals.length, ?_, fun row below => ?_⟩
    · rw [rowCount, if_neg (not_lt.mpr sign), read]
      rfl
    · have le := narrowInt_le db.db[k].canSignals.length
      have short : row < db.db[k].canSignals.length := by omega
      refine ⟨db.db[k], db.db[k].canSignals[row], read, List.getElem?_eq_getElem short, fun column name named => ?_⟩
      rw [data, read, ok_bind, at_inside short, ok_bind, named]
      rfl

theorem Inside.congr {m : CanSignalModel} {db db' : CanDb} (inside : m.Inside db) (same : db'.db.length = db.db.length) :
    m.Inside db' := by
  rw [Inside, same]
  exact inside

end CanSignalModel
end CanTracer
