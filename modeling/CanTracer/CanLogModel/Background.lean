import CanTracer.CanLogModel.Tree
import CanTracer.MainWindow.Highlights

/-!
# The background of a signal

`CanLogModel::data` takes the row number of an index for a row of the log, also where it is the number
of a signal: the background of a signal is that of the message which has this number in the log.
-/

namespace CanTracer

/-- A call of `setHighlightMsg` or `setHighlightId` on a row of the log. -/
structure HighlightCall (log : List CanLogMsg) where
  target : Target
  row : Nat
  status : Bool
  shown : (row : Int) < narrowInt log.length

namespace CanLogModel

variable {log : List CanLogMsg}

def highlight (m : CanLogModel) (call : HighlightCall log) : Except Failure CanLogModel :=
  m.setHighlight call.row call.status call.target

def highlighted (log : List CanLogMsg) (calls : List (HighlightCall log)) : Except Failure CanLogModel :=
  Machine.run highlight calls { buffer := log }

section
variable (print : Double → QString) (fixed : ℚ → QString)

def signalBackground (m : CanLogModel) (db : CanDb) (r i c : Nat) : Except Failure QVariant := do
  let index ← m.signalIndex db r i c
  m.data print fixed db index .background

/-- Whether the row is highlighted, whether its identifier is, and the color of its message. -/
def rowState (m : CanLogModel) (db : CanDb) (r : Nat) : Except Failure (Bool × Bool × Option QColor) := do
  let item ← QList.at m.buffer r
  return (m.isMsgHighlight r, (m.idList item.id).getD false, (db.findMessage item.id).map (·.color))

/-- What the background of signal `i` of row `r` may depend on. -/
structure StaysOnMessage (log : List CanLogMsg) (db : CanDb) (r i c : Nat) : Prop where
  own : ∀ calls calls' m m' db', highlighted log calls = .ok m → highlighted log calls' = .ok m' →
    m'.HasRow db' (.valid r 0 none) i → m'.rowState db' r = m.rowState db r →
      m'.signalBackground print fixed db' r i c = m.signalBackground print fixed db r i c
  others : ∀ calls (call : HighlightCall log) m m', highlighted log calls = .ok m → m.highlight call = .ok m' →
    call.row ≠ r → (call.target = .id → log[call.row]?.map (·.id) ≠ log[r]?.map (·.id)) →
      m'.signalBackground print fixed db r i c = m.signalBackground print fixed db r i c

end

/-- No message of the log has the number of the signal, or only that of the signal itself. In a log of
more rows than an `int` counts, it may be one that cannot be highlighted and has the same identifier. -/
def ReadsOwn (log : List CanLogMsg) (r i : Nat) : Prop :=
  ∀ other, log[i]? = some other → i = r ∨ narrowInt log.length ≤ i ∧ log[r]?.map (·.id) = some other.id

/-! ### Calls -/

structure Highlighted (log : List CanLogMsg) (m : CanLogModel) : Prop where
  buffer : m.buffer = log
  keys : ∀ row, (m.rowList row).isSome → (row.toNat : Int) < narrowInt log.length

theorem highlight_ok {m : CanLogModel} (inv : Highlighted log m) (call : HighlightCall log) :
    ∃ m', m.highlight call = .ok m' ∧ Highlighted log m' := by
  obtain ⟨target, row, status, shown⟩ := call
  obtain ⟨small, inside⟩ := LogWindow.row_toUInt32 (m := { buffer := log }) shown
  cases target with
  | msg =>
    refine ⟨_, rfl, inv.buffer, fun key entry => ?_⟩
    by_cases h : key = row.toUInt32
    · rw [h, small]
      exact shown
    · apply inv.keys key
      rwa [← Function.update_of_ne h (some status) m.rowList]
  | id =>
    have here : m.buffer[row]? = some log[row] := by
      rw [inv.buffer]
      exact List.getElem?_eq_getElem inside
    exact ⟨_, setHighlightId_some here status, inv.buffer, inv.keys⟩

/-- Every sequence of calls returns. -/
theorem highlighted_ok (calls : List (HighlightCall log)) :
    ∃ m, highlighted log calls = .ok m ∧ Highlighted log m := by
  have start : Highlighted log { buffer := log } := ⟨rfl, by simp⟩
  exact Machine.run_total (fun _ call inv => highlight_ok inv call) calls _ start

theorem highlighted_inv {calls : List (HighlightCall log)} {m : CanLogModel} (ran : highlighted log calls = .ok m) :
    Highlighted log m := by
  obtain ⟨t, ran', inv⟩ := highlighted_ok calls
  obtain rfl := Except.ok.inj (ran'.symm.trans ran)
  exact inv

/-- A row that cannot be highlighted is not highlighted. -/
theorem Highlighted.beyond {m : CanLogModel} (inv : Highlighted log m) {i : Nat} (small : i.toUInt32.toNat = i)
    (beyond : narrowInt log.length ≤ i) : m.isMsgHighlight i = false := by
  cases entry : m.rowList i.toUInt32 with
  | none => rw [isMsgHighlight, entry, Option.getD_none]
  | some status =>
    have inside := inv.keys i.toUInt32 (by rw [entry]; rfl)
    rw [small] at inside
    omega

/-! ### Backgrounds -/

/-- The background of a row from its state. -/
def paint (row id : Bool) (color : Option QColor) : QVariant :=
  if row then .brush yellow else if id then .brush green else color.elim .invalid .color

theorem backgroundData_eq (m : CanLogModel) (db : CanDb) (row : Nat) (msg : CanLogMsg) :
    m.backgroundData db row msg =
      paint (m.isMsgHighlight row) ((m.idList msg.id).getD false) ((db.findMessage msg.id).map (·.color)) := by
  rw [backgroundData, paint]
  cases db.findMessage msg.id <;> rfl

theorem rowState_eq {m : CanLogModel} {db : CanDb} {r : Nat} {item : CanLogMsg} (buffer : m.buffer = log)
    (row : log[r]? = some item) :
    m.rowState db r =
      .ok (m.isMsgHighlight r, (m.idList item.id).getD false, (db.findMessage item.id).map (·.color)) := by
  rw [rowState, buffer, at_some row]
  rfl

/-- The background of signal `i` is that of row `i` of the log. -/
theorem signalBackground_eq {print : Double → QString} {fixed : ℚ → QString} {m : CanLogModel} {db : CanDb}
    {r i c : Nat} (buffer : m.buffer = log) (shown : (r : Int) < narrowInt log.length)
    (row : m.HasRow db (.valid r 0 none) i) (column : c < columnCount) :
    m.signalBackground print fixed db r i c = .ok (log[i]?.elim .invalid (m.backgroundData db i)) := by
  have top : (r : Int) < m.rowCount := by rwa [rowCount, buffer]
  rw [signalBackground, signalIndex, index_top top, ok_bind, index_hasRow row column, ok_bind, QModelIndex.child, data,
    buffer]
  cases here : log[i]? with
  | none => rw [if_pos (List.getElem?_eq_none_iff.mp here), Option.elim_none]
  | some other =>
    have inside : i < log.length := (List.getElem?_eq_some_iff.mp here).1
    rw [if_neg (Nat.not_le.mpr inside), at_some here]
    rfl

theorem hasRow_congr {m m' : CanLogModel} (same : m.buffer = m'.buffer) {db : CanDb} {p : QModelIndex} {i : Nat}
    (row : m.HasRow db p i) : m'.HasRow db p i := by
  obtain ⟨rows, counted, less⟩ := row
  refine ⟨rows, ?_, less⟩
  rw [← counted]
  match p with
  | .invalid => rw [rowCountBelow, rowCountBelow, rowCount, rowCount, same]
  | .valid _ _ none => rw [rowCountBelow, rowCountBelow, same]
  | .valid _ _ (some _) => rfl

theorem isMsgHighlight_self (m : CanLogModel) (row : Nat) (status : Bool) :
    (m.setHighlightMsg row status).isMsgHighlight row = status := by
  change (Function.update m.rowList row.toUInt32 (some status) row.toUInt32).getD false = status
  rw [Function.update_self, Option.getD_some]

theorem isMsgHighlight_other {m : CanLogModel} {r row : Nat} (keys : r.toUInt32 ≠ row.toUInt32) (status : Bool) :
    (m.setHighlightMsg row status).isMsgHighlight r = m.isMsgHighlight r := by
  change (Function.update m.rowList row.toUInt32 (some status) r.toUInt32).getD false = _
  rw [Function.update_of_ne keys, isMsgHighlight]

/-- A call on another row, for an identifier on one with another identifier, leaves the state of a row. -/
theorem rowState_highlight {m m' : CanLogModel} (inv : Highlighted log m) {call : HighlightCall log}
    (set : m.highlight call = .ok m') {r : Nat} (shown : (r : Int) < narrowInt log.length) (other : call.row ≠ r)
    (ids : call.target = .id → log[call.row]?.map (·.id) ≠ log[r]?.map (·.id)) (db : CanDb) :
    m'.rowState db r = m.rowState db r := by
  obtain ⟨small, inside⟩ := LogWindow.row_toUInt32 (m := { buffer := log }) call.shown
  obtain ⟨small', inside'⟩ := LogWindow.row_toUInt32 (m := { buffer := log }) shown
  have item : log[r]? = some log[r] := List.getElem?_eq_getElem inside'
  obtain ⟨t, set', inv'⟩ := highlight_ok inv call
  obtain rfl := Except.ok.inj (set'.symm.trans set)
  rw [rowState_eq inv.buffer item, rowState_eq inv'.buffer item]
  obtain ⟨target, row, status, here⟩ := call
  cases target with
  | msg =>
    have keys : r.toUInt32 ≠ row.toUInt32 := fun same =>
      other (small.symm.trans ((congrArg UInt32.toNat same.symm).trans small'))
    obtain rfl := Except.ok.inj set
    rw [isMsgHighlight_other keys]
    rfl
  | id =>
    have other : m.buffer[row]? = some log[row] := by
      rw [inv.buffer]
      exact List.getElem?_eq_getElem inside
    have differ : log[r].id ≠ log[row].id := by
      intro same
      apply ids rfl
      rw [List.getElem?_eq_getElem inside, item, Option.map_some, Option.map_some, same]
    obtain rfl := Except.ok.inj ((setHighlightId_some other status).symm.trans set)
    change Except.ok (m.isMsgHighlight r, (Function.update m.idList log[row].id (some status) log[r].id).getD false, _) = _
    rw [Function.update_of_ne differ]

/-! ### Which message a signal stays on -/

section
variable {print : Double → QString} {fixed : ℚ → QString} {db : CanDb} {r i c : Nat}

theorem ReadsOwn.own (reads : ReadsOwn log r i) (shown : (r : Int) < narrowInt log.length)
    (row : HasRow { buffer := log } db (.valid r 0 none) i) (column : c < columnCount)
    {calls calls' : List (HighlightCall log)} {m m' : CanLogModel} {db' : CanDb} (ran : highlighted log calls = .ok m)
    (ran' : highlighted log calls' = .ok m') (row' : m'.HasRow db' (.valid r 0 none) i)
    (state : m'.rowState db' r = m.rowState db r) :
    m'.signalBackground print fixed db' r i c = m.signalBackground print fixed db r i c := by
  have inv := highlighted_inv ran
  have inv' := highlighted_inv ran'
  obtain ⟨item, msg, own, -, less⟩ := row.message
  rw [signalBackground_eq inv'.buffer shown row' column,
    signalBackground_eq inv.buffer shown (hasRow_congr inv.buffer.symm row) column]
  rw [rowState_eq inv'.buffer own, rowState_eq inv.buffer own] at state
  obtain ⟨rows, rest⟩ := Prod.mk.inj (Except.ok.inj state)
  obtain ⟨ids, colors⟩ := Prod.mk.inj rest
  cases here : log[i]? with
  | none => rfl
  | some other =>
    rw [Option.elim_some, Option.elim_some, backgroundData_eq, backgroundData_eq]
    rcases reads other here with rfl | ⟨beyond, same⟩
    · obtain rfl := Option.some.inj (own.symm.trans here)
      rw [rows, ids, colors]
    · have bound := narrowInt_lt msg.canSignals.length
      have small : i.toUInt32.toNat = i := by
        rw [Nat.toUInt32, UInt32.toNat_ofNat', Nat.mod_eq_of_lt (by omega)]
      change log[r]? = some item at own
      rw [own, Option.map_some] at same
      rw [← Option.some.inj same, inv'.beyond small beyond, inv.beyond small beyond, ids, colors]

/-- A row that can be highlighted shows it on the signal with its number. -/
theorem StaysOnMessage.beyond (stays : StaysOnMessage print fixed log db r i c) (shown : (r : Int) < narrowInt log.length)
    (row : HasRow { buffer := log } db (.valid r 0 none) i) (column : c < columnCount) {other : CanLogMsg}
    (here : log[i]? = some other) (apart : i ≠ r) : narrowInt log.length ≤ i := by
  by_contra inside
  let m' := setHighlightMsg { buffer := log } i true
  have same := stays.others [] ⟨.msg, i, true, not_le.mp inside⟩ _ m' rfl rfl apart nofun
  have row' : m'.HasRow db (.valid r 0 none) i := hasRow_congr rfl row
  have buffer' : m'.buffer = log := rfl
  have buffer : ({ buffer := log } : CanLogModel).buffer = log := rfl
  rw [signalBackground_eq buffer' shown row' column, signalBackground_eq buffer shown row column, here] at same
  have painted := Except.ok.inj same
  rw [Option.elim_some, Option.elim_some, backgroundData_eq, backgroundData_eq] at painted
  rw [isMsgHighlight_self] at painted
  cases color : (db.findMessage other.id).map (·.color) with
  | none =>
    rw [color] at painted
    cases painted
  | some color' =>
    rw [color] at painted
    cases painted

/-- The color of a message with another identifier shows too. -/
theorem StaysOnMessage.sameId (stays : StaysOnMessage print fixed log db r i c) (shown : (r : Int) < narrowInt log.length)
    (row : HasRow { buffer := log } db (.valid r 0 none) i) (column : c < columnCount) {other : CanLogMsg}
    (here : log[i]? = some other) : log[r]?.map (·.id) = some other.id := by
  obtain ⟨item, msg, own, found, less⟩ := row.message
  change log[r]? = some item at own
  rw [own, Option.map_some]
  by_contra apart
  have differ : (other.id == item.id) = false := beq_eq_false_iff_ne.mpr fun same => apart (congrArg some same.symm)
  have buffer : ({ buffer := log } : CanLogModel).buffer = log := rfl
  have background (color : QColor) : backgroundData { buffer := log } db i other = .color color := by
    let db' : CanDb := ⟨{ id := other.id, color := color } :: db.db⟩
    have found' : db'.findMessage item.id = db.findMessage item.id := by
      rw [CanDb.findMessage, List.find?_cons, differ]
      rfl
    have painted : db'.findMessage other.id = some { id := other.id, color := color } := by
      rw [CanDb.findMessage, List.find?_cons, beq_self_eq_true]
    have row' : HasRow { buffer := log } db' (.valid r 0 none) i := (hasRow_message own (found'.trans found)).mpr less
    have same := stays.own [] [] _ _ db' rfl rfl row' (by rw [rowState_eq rfl own, rowState_eq rfl own, found'])
    rw [signalBackground_eq buffer shown row' column, signalBackground_eq buffer shown row column, here] at same
    have colors := Except.ok.inj same
    rw [Option.elim_some, Option.elim_some, backgroundData_eq _ db', painted] at colors
    exact colors.symm
  have colors := (background yellow).symm.trans (background green)
  exact absurd colors (by decide)

end

/-- The background of a signal depends only on its own message exactly when no other message of the log
has the number of the signal. -/
theorem staysOnMessage_iff (print : Double → QString) (fixed : ℚ → QString) (log : List CanLogMsg) (db : CanDb)
    (r i c : Nat) (shown : (r : Int) < narrowInt log.length) (row : HasRow { buffer := log } db (.valid r 0 none) i)
    (column : c < columnCount) : StaysOnMessage print fixed log db r i c ↔ ReadsOwn log r i := by
  constructor
  · intro stays other here
    by_cases apart : i = r
    · exact .inl apart
    · exact .inr ⟨stays.beyond shown row column here apart, stays.sameId shown row column here⟩
  · intro reads
    refine ⟨fun calls calls' m m' db' ran ran' => reads.own shown row column ran ran', ?_⟩
    intro calls call m m' ran set other ids
    have inv := highlighted_inv ran
    have ran' : highlighted log (calls ++ [call]) = .ok m' := (Machine.run_concat ran).trans set
    have row' := hasRow_congr (highlighted_inv ran').buffer.symm row
    exact reads.own shown row column ran ran' row' (rowState_highlight inv set shown other ids db)

theorem staysOnMessage_first :
    StaysOnMessage (fun _ => []) (fun _ => []) [heaterFrame] cabin 0 0 0 ↔ ReadsOwn [heaterFrame] 0 0 :=
  staysOnMessage_iff (fun _ => []) (fun _ => []) [heaterFrame] cabin 0 0 0 (by decide +kernel)
    ⟨2, by decide +kernel, by decide⟩ (by decide)

def otherFrame : CanLogMsg := { heaterFrame with id := 7 }

/-- Highlighting the second message of the log highlights the second signal of the first. -/
theorem staysOnMessage_second :
    ¬ ∀ (log : List CanLogMsg) (db : CanDb) (r i c : Nat), (r : Int) < narrowInt log.length →
      HasRow { buffer := log } db (.valid r 0 none) i → c < columnCount →
        StaysOnMessage (fun _ => []) (fun _ => []) log db r i c := by
  intro h
  let m : CanLogModel := { buffer := [heaterFrame, otherFrame] }
  have stays := h [heaterFrame, otherFrame] cabin 0 1 0 (by decide +kernel) ⟨2, by decide +kernel, by decide⟩ (by decide)
  have same := stays.others [] ⟨.msg, 1, true, by decide +kernel⟩ m (m.setHighlightMsg 1 true) rfl rfl (by decide) nofun
  have differ : (m.setHighlightMsg 1 true).signalBackground (fun _ => []) (fun _ => []) cabin 0 1 0 ≠
      m.signalBackground (fun _ => []) (fun _ => []) cabin 0 1 0 := by
    decide +kernel
  exact differ same

end CanLogModel
end CanTracer
