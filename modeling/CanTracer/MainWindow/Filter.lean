import CanTracer.CanLogModel.Tree
import CanTracer.MainWindow.Databases

/-!
# The filtered log

`CustomProxyModel` between the log and its view. It maps the rows of the view to those rows of the log
that pass every filter, and keeps the mapping until a filter or the log model changes.
-/

namespace CanTracer

/-- `QVariant::toString` of a display text. -/
def QVariant.toString : QVariant → QString
  | .string text => text
  | _ => []


namespace CustomProxyModel

section
variable (print : Double → QString) (fixed : ℚ → QString) (contains : QString → QString → Bool)

/-- The text that the filter of a column reads in a row. -/
def rowText (model : CanLogModel) (db : CanDb) (sourceRow : Nat) (column : UInt8) : Except Failure QString := do
  let index ← model.index db sourceRow column.toNat .invalid
  let value ← model.data print fixed db index .display
  return value.toString

/-- The loop over the filters, in the order in which the hash table lists them. -/
def matchesAll (model : CanLogModel) (db : CanDb) (sourceRow : Nat) : List (UInt8 × QString) → Except Failure Bool
  | [] => .ok true
  | (column, pattern) :: entries => do
    let text ← rowText print fixed model db sourceRow column
    if contains pattern text then matchesAll model db sourceRow entries else return false

def filterAcceptsRow (model : CanLogModel) (db : CanDb) (entries : List (UInt8 × QString)) (sourceRow : Nat)
    (parent : QModelIndex) : Except Failure Bool :=
  if parent ≠ .invalid then .ok true else matchesAll print fixed contains model db sourceRow entries

/-- The rows of the log that the proxy keeps, in their order. -/
def acceptedRows (model : CanLogModel) (db : CanDb) (entries : List (UInt8 × QString)) :
    List Nat → Except Failure (List Nat)
  | [] => .ok []
  | row :: rows => do
    let accepted ← filterAcceptsRow print fixed contains model db entries row .invalid
    let kept ← acceptedRows model db entries rows
    return if accepted then row :: kept else kept

def sourceRows (model : CanLogModel) (db : CanDb) (entries : List (UInt8 × QString)) : Except Failure (List Nat) :=
  acceptedRows print fixed contains model db entries (List.range model.rowCount.toNat)

/-- The entries are those of the hash table, in some order. -/
def Lists (m : CustomProxyModel) (entries : List (UInt8 × QString)) : Prop :=
  ∀ column pattern, (column, pattern) ∈ entries ↔ m.regex column = some pattern

/-- The row of the log passes every filter. -/
def Passes (m : CustomProxyModel) (model : CanLogModel) (db : CanDb) (row : Nat) : Prop :=
  ∀ column pattern, m.regex column = some pattern →
    ∃ text, rowText print fixed model db row column = .ok text ∧ contains pattern text = true

variable {print fixed contains}

/-! ### The text of a row -/

theorem rowText_eq (model : CanLogModel) (db : CanDb) (row : Nat) (column : UInt8) :
    rowText print fixed model db row column =
      if (row : Int) < model.rowCount ∧ column.toNat < CanLogModel.columnCount then
        (QList.at model.buffer row >>= fun item => CanLogModel.displayMessageRow fixed db item column.toNat).map
          QVariant.toString
      else .ok [] := by
  have index : model.index db row column.toNat .invalid = _ := CanLogModel.index_eq rfl row column.toNat
  rw [rowText, index, ok_bind]
  by_cases inside : (row : Int) < model.rowCount ∧ column.toNat < CanLogModel.columnCount
  · have short : row < model.buffer.length := by
      have le := model.rowCount_le
      omega
    rw [if_pos inside, if_pos inside, QModelIndex.child, CanLogModel.data, if_neg (Nat.not_le.mpr short),
      at_inside short]
    change (QList.at model.buffer row >>= fun item => CanLogModel.displayMessageRow fixed db item column.toNat) >>= _ = _
    rw [at_inside short, ok_bind]
    cases CanLogModel.displayMessageRow fixed db model.buffer[row] column.toNat <;> rfl
  · rw [if_neg inside, if_neg inside]
    rfl

theorem displayMessageRow_names {db db' : CanDb} (names : ∀ id, db'.nameOf id = db.nameOf id) (item : CanLogMsg)
    (column : Nat) :
    CanLogModel.displayMessageRow fixed db' item column = CanLogModel.displayMessageRow fixed db item column := by
  match column with
  | 5 =>
    change Except.ok (QVariant.string (db'.nameOf item.id)) = .ok (.string (db.nameOf item.id))
    rw [names]
  | 0 | 1 | 2 | 3 | 4 | 6 => rfl
  | n + 7 => rfl

/-- Highlights and colors do not show in the texts of the rows. -/
theorem rowText_congr {model model' : CanLogModel} {db db' : CanDb} (buffer : model'.buffer = model.buffer)
    (names : ∀ id, db'.nameOf id = db.nameOf id) (row : Nat) (column : UInt8) :
    rowText print fixed model' db' row column = rowText print fixed model db row column := by
  rw [rowText_eq, rowText_eq, CanLogModel.rowCount, CanLogModel.rowCount, buffer]
  simp only [displayMessageRow_names names]

theorem rowText_ok {model : CanLogModel} (short : ∀ item ∈ model.buffer, item.dlc.toNat ≤ canMaxDlc) (db : CanDb)
    (row : Nat) (column : UInt8) : ∃ text, rowText print fixed model db row column = .ok text := by
  rw [rowText_eq]
  split
  · rename_i inside
    have le := model.rowCount_le
    have here : row < model.buffer.length := by omega
    obtain ⟨text, shown⟩ := dataColumn_ok (short _ (List.getElem_mem here))
    rw [at_inside here, ok_bind]
    match column.toNat with
    | 0 | 1 | 2 | 3 | 4 | 5 => exact ⟨_, rfl⟩
    | 6 =>
      refine ⟨text, ?_⟩
      rw [CanLogModel.displayMessageRow, shown]
      rfl
    | n + 7 => exact ⟨[], rfl⟩
  · exact ⟨[], rfl⟩

/-! ### The rows kept -/

theorem matchesAll_ok {model : CanLogModel} {db : CanDb} {row : Nat} {entries : List (UInt8 × QString)} {b : Bool}
    (h : matchesAll print fixed contains model db row entries = .ok b) :
    b = true ↔ ∀ e ∈ entries, ∃ text, rowText print fixed model db row e.1 = .ok text ∧ contains e.2 text = true := by
  induction entries with
  | nil =>
    rw [← Except.ok.inj h]
    exact iff_of_true rfl nofun
  | cons e entries ih =>
    obtain ⟨text, read, h⟩ := bind_ok h
    rw [List.forall_mem_cons]
    split at h
    · rename_i found
      rw [ih h]
      exact (and_iff_right ⟨text, read, found⟩).symm
    · rename_i missing
      rw [← Except.ok.inj h]
      refine iff_of_false Bool.false_ne_true ?_
      rintro ⟨⟨text', read', found⟩, -⟩
      obtain rfl := Except.ok.inj (read.symm.trans read')
      exact missing found

theorem filterAcceptsRow_ok {m : CustomProxyModel} {model : CanLogModel} {db : CanDb} {row : Nat}
    {entries : List (UInt8 × QString)} (lists : m.Lists entries) {b : Bool}
    (h : filterAcceptsRow print fixed contains model db entries row .invalid = .ok b) :
    b = true ↔ m.Passes print fixed contains model db row := by
  rw [filterAcceptsRow, if_neg (not_not_intro rfl)] at h
  rw [matchesAll_ok h]
  constructor
  · exact fun all column pattern set => all (column, pattern) ((lists column pattern).mpr set)
  · exact fun passes e among => passes e.1 e.2 ((lists e.1 e.2).mp among)

theorem acceptedRows_ok {m : CustomProxyModel} {model : CanLogModel} {db : CanDb} {entries : List (UInt8 × QString)}
    (lists : m.Lists entries) {rows : List Nat} : ∀ {kept : List Nat},
    acceptedRows print fixed contains model db entries rows = .ok kept →
      kept.Sublist rows ∧ ∀ row, row ∈ kept ↔ row ∈ rows ∧ m.Passes print fixed contains model db row := by
  induction rows with
  | nil =>
    intro kept h
    rw [← Except.ok.inj h]
    exact ⟨List.Sublist.refl [], fun row => by simp⟩
  | cons first rows ih =>
    intro kept h
    obtain ⟨accepted, test, h⟩ := bind_ok h
    obtain ⟨rest, below, h⟩ := bind_ok h
    obtain ⟨sub, members⟩ := ih below
    have passes := filterAcceptsRow_ok lists test
    rw [← Except.ok.inj h]
    split
    · rename_i is
      refine ⟨sub.cons_cons first, fun row => ?_⟩
      rw [List.mem_cons, List.mem_cons, members, or_and_right]
      refine or_congr_left (iff_self_and.mpr ?_)
      rintro rfl
      exact passes.mp is
    · rename_i isNot
      refine ⟨sub.cons first, fun row => ?_⟩
      rw [members, List.mem_cons, or_and_right]
      refine (or_iff_right ?_).symm
      rintro ⟨rfl, is⟩
      exact isNot (passes.mpr is)

theorem filterAcceptsRow_defined {model : CanLogModel} (short : ∀ item ∈ model.buffer, item.dlc.toNat ≤ canMaxDlc)
    (db : CanDb) (row : Nat) (entries : List (UInt8 × QString)) :
    ∃ b, filterAcceptsRow print fixed contains model db entries row .invalid = .ok b := by
  rw [filterAcceptsRow, if_neg (not_not_intro rfl)]
  induction entries with
  | nil => exact ⟨true, rfl⟩
  | cons e entries ih =>
    obtain ⟨text, read⟩ : ∃ text, rowText print fixed model db row e.1 = .ok text := rowText_ok short db row e.1
    rw [matchesAll, read, ok_bind]
    split
    · exact ih
    · exact ⟨false, rfl⟩

/-- Over a log without over-long messages the proxy can always be asked. -/
theorem sourceRows_defined {model : CanLogModel} (short : ∀ item ∈ model.buffer, item.dlc.toNat ≤ canMaxDlc)
    (db : CanDb) (entries : List (UInt8 × QString)) :
    ∃ rows, sourceRows print fixed contains model db entries = .ok rows := by
  rw [sourceRows]
  induction List.range model.rowCount.toNat with
  | nil => exact ⟨[], rfl⟩
  | cons row rows ih =>
    obtain ⟨b, test⟩ : ∃ b, filterAcceptsRow print fixed contains model db entries row .invalid = .ok b :=
      filterAcceptsRow_defined short db row entries
    obtain ⟨kept, below⟩ := ih
    exact ⟨if b then row :: kept else kept, by rw [acceptedRows, test, below]; rfl⟩

/-- What the mapping should be: the rows that pass the filters, in the order of the log. -/
structure Maps (m : CustomProxyModel) (print : Double → QString) (fixed : ℚ → QString) (contains : QString → QString → Bool)
    (model : CanLogModel) (db : CanDb) (rows : List Nat) : Prop where
  ordered : rows.Pairwise (· < ·)
  members : ∀ row, row ∈ rows ↔ (row : Int) < model.rowCount ∧ m.Passes print fixed contains model db row

theorem sourceRows_maps {m : CustomProxyModel} {model : CanLogModel} {db : CanDb} {entries : List (UInt8 × QString)}
    (lists : m.Lists entries) {rows : List Nat}
    (h : sourceRows print fixed contains model db entries = .ok rows) :
    m.Maps print fixed contains model db rows := by
  obtain ⟨sub, members⟩ := acceptedRows_ok lists h
  refine ⟨List.pairwise_lt_range.sublist sub, fun row => ?_⟩
  rw [members, List.mem_range]
  exact and_congr_left fun _ => Int.lt_toNat

theorem Maps.congr {m : CustomProxyModel} {model model' : CanLogModel} {db db' : CanDb} {rows : List Nat}
    (maps : m.Maps print fixed contains model db rows) (buffer : model'.buffer = model.buffer)
    (names : ∀ id, db'.nameOf id = db.nameOf id) : m.Maps print fixed contains model' db' rows := by
  refine ⟨maps.ordered, fun row => ?_⟩
  rw [maps.members, CanLogModel.rowCount, CanLogModel.rowCount, buffer]
  simp only [Passes, rowText_congr buffer names]

end
end CustomProxyModel
end CanTracer
