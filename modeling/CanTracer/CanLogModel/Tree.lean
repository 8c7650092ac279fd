import CanTracer.CanLogModel.Rows

/-!
# The overrides of the tree

What `QAbstractItemModel` asks of `rowCount`, `columnCount`, `index` and `parent` together. The first
three agree on one tree; `parent` knows no index with a parent.
-/

namespace CanTracer

namespace QModelIndex

/-- `sibling(row(), 0)` -/
def firstColumn : QModelIndex → QModelIndex
  | .invalid => .invalid
  | .valid row _ pointer => .valid row 0 pointer

/-- The index that `createIndex` makes for a row below this one. -/
def child (parent : QModelIndex) (row column : Nat) : QModelIndex :=
  match parent with
  | .invalid => .valid row column none
  | .valid parentRow _ _ => .valid row column (some parentRow)

end QModelIndex

namespace CanLogModel

def parent (_ : CanLogModel) (_ : QModelIndex) : QModelIndex := .invalid

/-- The root, and what `index` returns below an index handed out. -/
inductive HandedOut (m : CanLogModel) (db : CanDb) : QModelIndex → Prop where
  | root : HandedOut m db .invalid
  | index {p q : QModelIndex} {row column : Nat} (handed : HandedOut m db p)
      (returned : m.index db row column p = .ok q) : HandedOut m db q

/-- `i < rowCount(p)` -/
def HasRow (m : CanLogModel) (db : CanDb) (p : QModelIndex) (i : Nat) : Prop :=
  ∃ rows, m.rowCountBelow db p = .ok rows ∧ (i : Int) < rows

/-- What the rows below an index should be. -/
structure Consistent (m : CanLogModel) (db : CanDb) (p : QModelIndex) : Prop where
  counted : ∃ rows, m.rowCountBelow db p = .ok rows
  valid : ∀ i c, m.HasRow db p i → c < columnCount → ∃ q, m.index db i c p = .ok q ∧ q ≠ .invalid
  parent : ∀ i c q, m.HasRow db p i → c < columnCount → m.index db i c p = .ok q → m.parent q = p.firstColumn
  distinct : ∀ i c q, m.HasRow db p i → c < columnCount → m.index db i c p = .ok q →
    ∀ p' i' c', m.HandedOut db p' → m.HasRow db p' i' → c' < columnCount → m.index db i' c' p' = .ok q →
      p' = p ∧ i' = i

/-- If the index is that of a message, the message has no signals for `rowCount` to count. -/
def Childless (m : CanLogModel) (db : CanDb) (p : QModelIndex) : Prop :=
  ∀ r c item msg, p = .valid r c none → m.buffer[r]? = some item → db.findMessage item.id = some msg →
    narrowInt msg.canSignals.length ≤ 0

variable {m : CanLogModel} {db : CanDb} {p : QModelIndex}

/-! ### Indexes -/

theorem rowCount_le (m : CanLogModel) : m.rowCount ≤ m.buffer.length := narrowInt_le _

/-- Where `rowCount` counts rows, `index` makes a child of each of them. -/
theorem index_eq {rows : Int} (counted : m.rowCountBelow db p = .ok rows) (i c : Nat) :
    m.index db i c p = .ok (if (i : Int) < rows ∧ c < columnCount then p.child i c else .invalid) := by
  have has : m.hasIndex db i c p = .ok (decide ((i : Int) < rows) && decide (c < columnCount)) := by
    rw [hasIndex, counted]
    rfl
  unfold index
  rw [has, ok_bind]
  by_cases inside : (i : Int) < rows ∧ c < columnCount
  · rw [if_pos inside, decide_eq_true inside.1, decide_eq_true inside.2]
    cases p with
    | invalid => rfl
    | valid r column pointer =>
      cases pointer with
      | some _ =>
        obtain rfl := Except.ok.inj counted
        exact absurd inside.1 (by omega)
      | none =>
        obtain ⟨log, read, counted⟩ := bind_ok counted
        change (QList.at m.buffer r >>= _) = _
        rw [read, ok_bind]
        cases found : db.findMessage log.id with
        | none =>
          simp only [found] at counted
          obtain rfl := Except.ok.inj counted
          exact absurd inside.1 (by omega)
        | some msg =>
          simp only [found] at counted
          obtain rfl := Except.ok.inj counted
          have small := narrowInt_le msg.canSignals.length
          have here : i < msg.canSignals.length := by omega
          simp only [here, if_true, QModelIndex.child]
          rfl
  · have not : (decide ((i : Int) < rows) && decide (c < columnCount)) = false := by
      rw [← Bool.not_eq_true, Bool.and_eq_true, decide_eq_true_iff, decide_eq_true_iff]
      exact inside
    rw [if_neg inside, not]
    rfl

/-- `rowCount` is defined below the indexes handed out: that of a message is one of the log. -/
theorem HandedOut.counted (handed : m.HandedOut db p) : ∃ rows, m.rowCountBelow db p = .ok rows := by
  cases handed with
  | root => exact ⟨_, rfl⟩
  | @index p _ i c _ returned =>
    have parent : ∃ rows, m.rowCountBelow db p = .ok rows := by
      obtain ⟨_, has, -⟩ := bind_ok returned
      obtain ⟨rows, counted, -⟩ := bind_ok has
      exact ⟨rows, counted⟩
    obtain ⟨rows, counted⟩ := parent
    rw [index_eq counted] at returned
    split at returned
    · rename_i inside
      obtain rfl := Except.ok.inj returned
      cases p with
      | valid r column pointer => exact ⟨0, rfl⟩
      | invalid =>
        obtain rfl := Except.ok.inj counted
        have small := m.rowCount_le
        have here : i < m.buffer.length := by omega
        rw [QModelIndex.child, rowCountBelow, at_inside here, ok_bind]
        split
        · exact ⟨0, rfl⟩
        · exact ⟨_, rfl⟩
    · rw [← Except.ok.inj returned]
      exact ⟨_, rfl⟩

theorem index_hasRow {i c : Nat} (row : m.HasRow db p i) (column : c < columnCount) :
    m.index db i c p = .ok (p.child i c) := by
  obtain ⟨rows, counted, less⟩ := row
  rw [index_eq counted, if_pos ⟨less, column⟩]

/-- An index that is not for a signal is invalid or that of a message. -/
theorem HasRow.pointer {i : Nat} (row : m.HasRow db p i) : p = .invalid ∨ ∃ r c, p = .valid r c none := by
  obtain ⟨rows, counted, less⟩ := row
  match p with
  | .invalid => exact .inl rfl
  | .valid r c none => exact .inr ⟨r, c, rfl⟩
  | .valid r c (some _) =>
    obtain rfl := Except.ok.inj counted
    exact absurd less (by omega)

/-- The rows below a message are its signals. -/
theorem HasRow.message {r c i : Nat} (row : m.HasRow db (.valid r c none) i) :
    ∃ item msg, m.buffer[r]? = some item ∧ db.findMessage item.id = some msg ∧
      (i : Int) < narrowInt msg.canSignals.length := by
  obtain ⟨rows, counted, less⟩ := row
  obtain ⟨item, read, counted⟩ := bind_ok counted
  cases found : db.findMessage item.id with
  | none =>
    simp only [found] at counted
    obtain rfl := Except.ok.inj counted
    exact absurd less (by omega)
  | some msg =>
    simp only [found] at counted
    obtain rfl := Except.ok.inj counted
    exact ⟨item, msg, at_ok read, found, less⟩

theorem hasRow_message {r c i : Nat} {item : CanLogMsg} {msg : CanMessage} (row : m.buffer[r]? = some item)
    (found : db.findMessage item.id = some msg) :
    m.HasRow db (.valid r c none) i ↔ (i : Int) < narrowInt msg.canSignals.length := by
  constructor
  · intro has
    obtain ⟨item', msg', row', found', less⟩ := has.message
    obtain rfl := Option.some.inj (row.symm.trans row')
    obtain rfl := Option.some.inj (found.symm.trans found')
    exact less
  · intro less
    refine ⟨narrowInt msg.canSignals.length, ?_, less⟩
    rw [rowCountBelow, at_some row, ok_bind]
    simp only [found]
    rfl

/-- One index belongs to one row below one parent, up to the parent's column. -/
theorem child_inj {p' : QModelIndex} {i i' c c' : Nat} (row : m.HasRow db p i) (row' : m.HasRow db p' i')
    (same : p'.child i' c' = p.child i c) : p'.firstColumn = p.firstColumn ∧ i' = i := by
  rcases row.pointer with rfl | ⟨r, column, rfl⟩
  · rcases row'.pointer with rfl | ⟨r', column', rfl⟩
    · obtain ⟨rows, -, -⟩ := QModelIndex.valid.inj same
      exact ⟨rfl, rows⟩
    · cases (QModelIndex.valid.inj same).2.2
  · rcases row'.pointer with rfl | ⟨r', column', rfl⟩
    · cases (QModelIndex.valid.inj same).2.2
    · obtain ⟨rows, -, pointers⟩ := QModelIndex.valid.inj same
      rw [Option.some.inj pointers]
      exact ⟨rfl, rows⟩

theorem Childless.root {i : Nat} (childless : m.Childless db p) (row : m.HasRow db p i) : p = .invalid := by
  rcases row.pointer with rfl | ⟨r, c, rfl⟩
  · rfl
  · obtain ⟨item, msg, here, found, less⟩ := row.message
    have none := childless r c item msg rfl here found
    exact absurd less (by omega)

theorem firstColumn_eq_invalid {p : QModelIndex} : p.firstColumn = .invalid ↔ p = .invalid := by
  cases p with
  | invalid => exact Iff.rfl
  | valid r c pointer => exact ⟨nofun, nofun⟩

/-- The overrides agree on the rows below an index exactly when it is not that of a message with signals. -/
theorem consistent_iff (m : CanLogModel) (db : CanDb) (p : QModelIndex) (handed : m.HandedOut db p) :
    m.Consistent db p ↔ m.Childless db p := by
  constructor
  · rintro consistent r c item msg rfl row found
    by_contra signals
    have first : m.HasRow db (.valid r c none) 0 := (hasRow_message row found).mpr (not_le.mp signals)
    have lost := consistent.parent 0 0 _ first (by decide) (index_hasRow first (by decide))
    cases lost
  · intro childless
    refine ⟨handed.counted, fun i c row column => ?_, fun i c q row column _ => ?_, fun i c q row column here => ?_⟩
    · refine ⟨p.child i c, index_hasRow row column, ?_⟩
      rw [childless.root row]
      exact nofun
    · rw [childless.root row]
      rfl
    · intro p' i' c' _ row' column' here'
      rw [index_hasRow row column] at here
      rw [index_hasRow row' column', ← here] at here'
      obtain ⟨same, rows⟩ := child_inj row row' (Except.ok.inj here')
      obtain rfl := childless.root row
      exact ⟨firstColumn_eq_invalid.mp same, rows⟩

theorem consistent_iff_message :
    cabinLog.Consistent cabin (.valid 0 0 none) ↔ cabinLog.Childless cabin (.valid 0 0 none) :=
  consistent_iff cabinLog cabin (.valid 0 0 none) (.index .root (index_top (by decide +kernel)))

/-- The rows below a message with two signals have no parent. -/
theorem consistent_signals :
    ¬ ∀ (m : CanLogModel) (db : CanDb) (p : QModelIndex), m.HandedOut db p → m.Consistent db p := by
  intro h
  have consistent := h cabinLog cabin (.valid 0 0 none) (.index .root (index_top (by decide +kernel)))
  have first : cabinLog.HasRow cabin (.valid 0 0 none) 0 := ⟨2, by decide +kernel, by decide⟩
  have lost := consistent.parent 0 0 _ first (by decide) (index_hasRow first (by decide))
  cases lost

end CanLogModel
end CanTracer
