import Mathlib.Logic.Function.Basic
import CanTracer.CanMsg.Basic

/-!
# The log table

The data column of `CanLogModel::displayRowData` for a row of the log, and the highlights: tables
of rows and of identifiers, set from the context menu and cleared with the log.
-/

namespace CanTracer

/-- `std::array::operator[]`, which does not look at the index. -/
def CanData.index (data : CanData) (i : Nat) : Except Failure UInt8 :=
  if h : i < canMaxDlc then .ok data[i] else .error (.undefined .arrayIndex)

/-- `QString(" %1").arg(b, 2, 16, '0').toUpper()` -/
def byteText (b : UInt8) : QString :=
  [' ', (Nat.digitChar (b.toNat / 16)).toUpper, (Nat.digitChar (b.toNat % 16)).toUpper]

/-- Column 6: the first `dlc` bytes. -/
def dataColumn (item : CanLogMsg) : Except Failure QString :=
  (List.range item.dlc.toNat).foldlM (fun ret i => (item.data.index i).map fun b => ret ++ byteText b) []

theorem foldlM_index {data : CanData} {is : List Nat} (h : ∀ i ∈ is, i < canMaxDlc) (ret : QString) :
    ∃ text, is.foldlM (fun ret i => (data.index i).map fun b => ret ++ byteText b) ret = .ok text := by
  induction is generalizing ret with
  | nil => exact ⟨ret, rfl⟩
  | cons i is ih =>
    obtain ⟨first, rest⟩ := List.forall_mem_cons.mp h
    obtain ⟨text, shown⟩ := ih rest (ret ++ byteText data[i])
    refine ⟨text, ?_⟩
    rw [List.foldlM_cons, CanData.index, dif_pos first]
    exact shown

theorem dataColumn_ok {item : CanLogMsg} (h : item.dlc.toNat ≤ canMaxDlc) :
    ∃ text, dataColumn item = .ok text :=
  foldlM_index (fun _ hi => Nat.lt_of_lt_of_le (List.mem_range.mp hi) h) []

/-! ### Rows -/

theorem narrowInt_le (n : Nat) : narrowInt (n : Int) ≤ n := by
  rw [narrowInt, Int.bmod_def]
  split <;> omega

theorem narrowInt_lt (n : Nat) : narrowInt (n : Int) < 2 ^ 31 := by
  rw [narrowInt, Int.bmod_def]
  split <;> omega

/-! ### Highlights -/

/-- The two hash tables are functions, `none` where there is no entry. -/
structure CanLogModel where
  rowList : UInt32 → Option Bool := fun _ => none
  idList : UInt32 → Option Bool := fun _ => none
  buffer : List CanLogMsg := []

namespace CanLogModel

def rowCount (m : CanLogModel) : Int := narrowInt m.buffer.length

def setHighlightMsg (m : CanLogModel) (row : Nat) (status : Bool) : CanLogModel :=
  { m with rowList := Function.update m.rowList row.toUInt32 (some status) }

def setHighlightId (m : CanLogModel) (row : Nat) (status : Bool) : Except Failure CanLogModel := do
  let msg ← QList.at m.buffer row
  return { m with idList := Function.update m.idList msg.id (some status) }

theorem setHighlightId_some {m : CanLogModel} {row : Nat} {msg : CanLogMsg} (here : m.buffer[row]? = some msg)
    (status : Bool) :
    m.setHighlightId row status = .ok { m with idList := Function.update m.idList msg.id (some status) } := by
  rw [setHighlightId, at_some here]
  rfl

def isMsgHighlight (m : CanLogModel) (row : Nat) : Bool := (m.rowList row.toUInt32).getD false

def isIdHighlight (m : CanLogModel) (row : Nat) : Except Failure Bool := do
  let msg ← QList.at m.buffer row
  return (m.idList msg.id).getD false

def logChanged (m : CanLogModel) : CanLogModel := { m with rowList := fun _ => none, idList := fun _ => none }

end CanLogModel

end CanTracer
