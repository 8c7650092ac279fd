import Mathlib.Data.List.InsertIdx
import CanTracer.CanMsg.Basic

/-!
# The signal dialog

`SignalSelectDialog`: a box with the messages of the database and one with the signals of the message
chosen. The boxes hold what they were filled with; the database is a reference.
-/

namespace CanTracer

structure QComboBox where
  items : List QString := []
  currentIndex : Int := -1
  deriving DecidableEq

/-- The first item of an empty box becomes its current one, which later stays current. -/
def QComboBox.insertItem (box : QComboBox) (i : Nat) (text : QString) : QComboBox where
  items := box.items.insertIdx (min i box.items.length) text
  currentIndex :=
    if box.items = [] then 0
    else if (i : Int) ≤ box.currentIndex then box.currentIndex + 1 else box.currentIndex

/-- `filled` is not in the code: the database from which `cmbSignal` was filled. -/
structure SignalSelectDialog where
  cmbMessage : QComboBox := {}
  cmbSignal : QComboBox := {}
  filled : CanDb := {}
  deriving DecidableEq

def insertSignal (msg : CanMessage) (box : QComboBox) (i : Nat) : Except Failure QComboBox := do
  let signal ← QList.at msg.canSignals i
  return box.insertItem i signal.name

namespace SignalSelectDialog

def onMsgIndexChanged (d : SignalSelectDialog) (db : CanDb) (index : Int) : Except Failure SignalSelectDialog := do
  let msg ← QList.atInt db.db index
  let cmbSignal ← (List.range msg.canSignals.length).foldlM (insertSignal msg) {}
  return { d with cmbSignal := cmbSignal, filled := db }

/-- The slot is called when the current index has changed. -/
def insertMessage (db : CanDb) (d : SignalSelectDialog) (i : Nat) : Except Failure SignalSelectDialog := do
  let msg ← QList.at db.db i
  let cmbMessage := d.cmbMessage.insertItem i msg.name
  if cmbMessage.currentIndex = d.cmbMessage.currentIndex then return { d with cmbMessage := cmbMessage }
  else onMsgIndexChanged { d with cmbMessage := cmbMessage } db cmbMessage.currentIndex

/-- The constructor. -/
def create (db : CanDb) : Except Failure SignalSelectDialog :=
  (List.range db.db.length).foldlM (insertMessage db) { filled := db }

/-- The user takes a message, or a signal; only a row of the box can be taken. -/
def selectMessage (d : SignalSelectDialog) (db : CanDb) (row : Nat) : Except Failure SignalSelectDialog :=
  if row < d.cmbMessage.items.length ∧ (row : Int) ≠ d.cmbMessage.currentIndex then
    onMsgIndexChanged { d with cmbMessage := { d.cmbMessage with currentIndex := row } } db row
  else .ok d

def selectSignal (d : SignalSelectDialog) (row : Nat) : SignalSelectDialog :=
  if row < d.cmbSignal.items.length then { d with cmbSignal := { d.cmbSignal with currentIndex := row } } else d

def getResultIndex (d : SignalSelectDialog) : Int × Int := (d.cmbMessage.currentIndex, d.cmbSignal.currentIndex)

/-- The rows taken are those of a message and a signal of the database. -/
def Has (d : SignalSelectDialog) (db : CanDb) : Prop :=
  ∃ (row j : Nat) (msg : CanMessage), d.getResultIndex = (↑row, ↑j) ∧ db.db[row]? = some msg ∧ j < msg.canSignals.length

/-- Where signals are listed they are as many as the message taken has, and one of them is taken. -/
structure Inv (d : SignalSelectDialog) : Prop where
  listed : d.cmbSignal.items ≠ [] → ∃ (row : Nat) (msg : CanMessage), d.cmbMessage.currentIndex = row ∧
    d.filled.db[row]? = some msg ∧ d.cmbSignal.items.length = msg.canSignals.length
  taken : d.cmbSignal.items ≠ [] → ∃ j : Nat, d.cmbSignal.currentIndex = j ∧ j < d.cmbSignal.items.length
  none : d.cmbSignal.items = [] → d.cmbSignal.currentIndex = -1

/-! ### Filling the boxes -/

/-- A box after the texts have been inserted one behind the other. -/
def boxOf (texts : List QString) : QComboBox where
  items := texts
  currentIndex := if texts = [] then -1 else 0

theorem boxOf_nil : (boxOf []).currentIndex = -1 := rfl

theorem boxOf_some {texts : List QString} (some : texts ≠ []) : (boxOf texts).currentIndex = 0 := if_neg some

theorem insertItem_end (texts : List QString) (text : QString) :
    (boxOf texts).insertItem texts.length text = boxOf (texts ++ [text]) := by
  cases texts with
  | nil => rfl
  | cons first texts =>
    have behind : ¬ ((first :: texts).length : Int) ≤ (boxOf (first :: texts)).currentIndex := by
      rw [boxOf_some (List.cons_ne_nil _ _), List.length_cons]
      omega
    rw [QComboBox.insertItem, if_neg behind]
    simp [boxOf, List.insertIdx_length_self]

theorem insertSignals_ok (msg : CanMessage) :
    (List.range msg.canSignals.length).foldlM (insertSignal msg) {} = .ok (boxOf (msg.canSignals.map (·.name))) := by
  suffices upTo : ∀ n ≤ msg.canSignals.length, (List.range n).foldlM (insertSignal msg) {} =
      .ok (boxOf ((msg.canSignals.take n).map (·.name))) by
    have all := upTo _ (Nat.le_refl _)
    rwa [List.take_length] at all
  intro n
  induction n with
  | zero => exact fun _ => rfl
  | succ n ih =>
    intro inside
    have here := List.getElem?_eq_getElem inside
    have rows : ((msg.canSignals.take n).map (·.name)).length = n := by
      rw [List.length_map, List.length_take, Nat.min_eq_left (Nat.le_of_lt inside)]
    have inserted := insertItem_end ((msg.canSignals.take n).map (·.name)) msg.canSignals[n].name
    rw [rows] at inserted
    rw [List.range_succ, List.foldlM_append, ih (Nat.le_of_lt inside), List.take_add_one, here,
      List.map_append]
    simp only [List.foldlM_cons, List.foldlM_nil, insertSignal, at_some here, bind, Except.bind, pure, Except.pure, inserted]
    rfl

theorem onMsgIndexChanged_ok (d : SignalSelectDialog) {db : CanDb} {row : Nat} {msg : CanMessage}
    (here : db.db[row]? = some msg) :
    d.onMsgIndexChanged db row =
      .ok { d with cmbSignal := boxOf (msg.canSignals.map (·.name)), filled := db } := by
  simp only [onMsgIndexChanged, atInt_natCast, at_some here, insertSignals_ok, bind, Except.bind, pure, Except.pure]

theorem onMsgIndexChanged_outside (d : SignalSelectDialog) {db : CanDb} {row : Nat} (outside : db.db.length ≤ row) :
    d.onMsgIndexChanged db row = .error (.undefined .arrayIndex) := by
  rw [onMsgIndexChanged, atInt_natCast, at_none outside]
  rfl

theorem inv_boxOf {d : SignalSelectDialog} {row : Nat} {msg : CanMessage} (taken : d.cmbMessage.currentIndex = row)
    (here : d.filled.db[row]? = some msg) (listed : d.cmbSignal = boxOf (msg.canSignals.map (·.name))) : d.Inv := by
  have items : d.cmbSignal.items = msg.canSignals.map (·.name) := by rw [listed]; rfl
  rw [← items] at listed
  refine ⟨fun _ => ⟨row, msg, taken, here, ?_⟩, fun some => ⟨0, ?_, List.length_pos_iff.mpr some⟩, fun none => ?_⟩
  · rw [items, List.length_map]
  · rw [listed, boxOf_some some]
    rfl
  · rw [listed, none]
    rfl

theorem insertMessage_ok {db : CanDb} {d : SignalSelectDialog} {texts : List QString} {msg : CanMessage}
    (filled : d.filled = db) (messages : d.cmbMessage = boxOf texts) (inv : d.Inv)
    (here : db.db[texts.length]? = some msg) :
    ∃ d', insertMessage db d texts.length = .ok d' ∧ d'.filled = db ∧ d'.cmbMessage = boxOf (texts ++ [msg.name]) ∧
      d'.Inv := by
  have grown : (boxOf (texts ++ [msg.name])).currentIndex = 0 :=
    boxOf_some (List.append_ne_nil_of_right_ne_nil _ (List.cons_ne_nil _ _))
  simp only [insertMessage, at_some here, messages, insertItem_end, grown, bind, Except.bind, pure, Except.pure]
  cases texts with
  | nil =>
    -- The first message becomes the current one, and the slot lists its signals.
    rw [boxOf_nil, if_neg (by decide)]
    exact ⟨_, onMsgIndexChanged_ok _ here, rfl, rfl, @inv_boxOf _ 0 _ rfl here rfl⟩
  | cons first texts =>
    have before : d.cmbMessage.currentIndex = 0 := by
      rw [messages]
      exact boxOf_some (List.cons_ne_nil _ _)
    rw [boxOf_some (List.cons_ne_nil _ _), if_pos rfl]
    refine ⟨_, rfl, filled, rfl, fun some => ?_, inv.taken, inv.none⟩
    obtain ⟨row, msg, taken, rest⟩ := inv.listed some
    exact ⟨row, msg, grown.trans (before.symm.trans taken), rest⟩

theorem create_ok (db : CanDb) : ∃ d, create db = .ok d ∧ d.Inv := by
  suffices upTo : ∀ n ≤ db.db.length, ∃ d, (List.range n).foldlM (insertMessage db) { filled := db } = .ok d ∧
      d.filled = db ∧ d.cmbMessage = boxOf ((db.db.take n).map (·.name)) ∧ d.Inv by
    obtain ⟨d, created, -, -, inv⟩ := upTo _ (Nat.le_refl _)
    exact ⟨d, created, inv⟩
  intro n
  induction n with
  | zero =>
    intro _
    exact ⟨_, rfl, rfl, rfl, ⟨fun some => absurd rfl some, fun some => absurd rfl some, fun _ => rfl⟩⟩
  | succ n ih =>
    intro inside
    obtain ⟨d, created, filled, messages, inv⟩ := ih (Nat.le_of_lt inside)
    have rows : ((db.db.take n).map (·.name)).length = n := by
      rw [List.length_map, List.length_take, Nat.min_eq_left (Nat.le_of_lt inside)]
    have here : db.db[((db.db.take n).map (·.name)).length]? = some db.db[n] := by
      rw [rows]
      exact List.getElem?_eq_getElem inside
    obtain ⟨d', inserted, filled', messages', inv'⟩ := insertMessage_ok filled messages inv here
    rw [rows] at inserted
    refine ⟨d', ?_, filled', ?_, inv'⟩
    · simp only [List.range_succ, List.foldlM_append, created, List.foldlM_cons, List.foldlM_nil, inserted, bind,
        Except.bind, pure, Except.pure]
    · rw [messages', List.take_add_one, List.getElem?_eq_getElem inside, List.map_append]
      rfl

/-! ### What the user takes -/

theorem selectSignal_inv {d : SignalSelectDialog} (inv : d.Inv) (row : Nat) : (d.selectSignal row).Inv := by
  unfold selectSignal
  split
  · rename_i inside
    exact ⟨inv.listed, fun _ => ⟨row, rfl, inside⟩,
      fun none => absurd inside (by rw [none]; exact Nat.not_lt_zero row)⟩
  · exact inv

/-- A message can be taken when it is none of the box, or taken already, or a row of the database. -/
theorem selectMessage_ok {d : SignalSelectDialog} (inv : d.Inv) {db : CanDb} {row : Nat}
    (fine : row < d.cmbMessage.items.length → (row : Int) ≠ d.cmbMessage.currentIndex → row < db.db.length) :
    ∃ d', d.selectMessage db row = .ok d' ∧ d'.Inv := by
  unfold selectMessage
  split
  · rename_i changes
    have here := List.getElem?_eq_getElem (fine changes.1 changes.2)
    exact ⟨_, onMsgIndexChanged_ok _ here, inv_boxOf rfl here rfl⟩
  · exact ⟨d, rfl, inv⟩

theorem selectMessage_outside {d : SignalSelectDialog} {db : CanDb} {row : Nat} (shown : row < d.cmbMessage.items.length)
    (changes : (row : Int) ≠ d.cmbMessage.currentIndex) (outside : db.db.length ≤ row) :
    d.selectMessage db row = .error (.undefined .arrayIndex) := by
  rw [selectMessage, if_pos ⟨shown, changes⟩]
  exact onMsgIndexChanged_outside _ outside

theorem selectMessage_inv {d d' : SignalSelectDialog} (inv : d.Inv) {db : CanDb} {row : Nat}
    (h : d.selectMessage db row = .ok d') : d'.Inv := by
  have fine : row < d.cmbMessage.items.length → (row : Int) ≠ d.cmbMessage.currentIndex → row < db.db.length := by
    intro shown changes
    refine Nat.lt_of_not_le fun outside => ?_
    rw [selectMessage_outside shown changes outside] at h
    cases h
  obtain ⟨d'', selected, inv'⟩ := selectMessage_ok inv fine
  obtain rfl := Except.ok.inj (selected.symm.trans h)
  exact inv'

theorem Inv.has {d : SignalSelectDialog} (inv : d.Inv) (some : d.cmbSignal.items ≠ []) : d.Has d.filled := by
  obtain ⟨row, msg, message, here, signals⟩ := inv.listed some
  obtain ⟨j, signal, inside⟩ := inv.taken some
  exact ⟨row, j, msg, Prod.ext message signal, here, signals ▸ inside⟩

theorem Inv.some {d : SignalSelectDialog} (inv : d.Inv) {db : CanDb} (has : d.Has db) : d.cmbSignal.items ≠ [] := by
  obtain ⟨row, j, msg, taken, -⟩ := has
  intro none
  have index := (Prod.mk.inj taken).2.symm.trans (inv.none none)
  omega

end SignalSelectDialog
end CanTracer
