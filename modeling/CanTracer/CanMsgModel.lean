import Mathlib.Data.List.Basic
import CanTracer.CanLogModel.Rows
import CanTracer.Dbc.Frame

/-!
# The colors of the messages

`CanMsgModel::setData` goes from the edited row to the identifier of its message, and from there back to
a message: the first one with that identifier.
-/

namespace CanTracer

/-- What a fresh message has: `QColor(0, 0, 0, 0)`. -/
def noColor : QColor := ⟨0, 0, 0, 0⟩

def CanMessage.setColor (msg : CanMessage) (color : QColor) : CanMessage := { msg with color := color }

def CanDb.setColor (d : CanDb) (id : UInt32) (color : QColor) : CanDb := d.modifyMessage id (·.setColor color)

namespace CanMsgModel

inductive Role where
  | edit
  | other
  deriving DecidableEq

/-- The edited value is the color that `qvariant_cast` finds in it. -/
def setData (db : CanDb) (index : QModelIndex) (value : QColor) (role : Role) : Except Failure (Bool × CanDb) :=
  match index, role with
  | .valid row _ _, .edit => do
    let msg ← QList.at db.db row
    return (true, db.setColor msg.id value)
  | _, _ => .ok (false, db)

/-- What an edit of row `r` should make of a database. -/
structure Colors (d : CanDb) (r : Nat) (color : QColor) (d' : CanDb) : Prop where
  here : d'.db[r]?.map (·.color) = some color
  others : ∀ k, k ≠ r → d'.db[k]? = d.db[k]?

/-- No message above has the identifier of the message at row `r`. -/
def First (d : CanDb) (r : Nat) : Prop :=
  ∀ k other msg, k < r → d.db[k]? = some other → d.db[r]? = some msg → other.id ≠ msg.id

/-! ### The first message with an identifier -/

theorem modifyFirst_eq_modify {α : Type} (p : α → Bool) (f : α → α) (xs : List α) :
    modifyFirst p f xs = xs.modify (xs.findIdx p) f := by
  induction xs with
  | nil => rfl
  | cons x xs ih =>
    rw [modifyFirst, List.findIdx_cons]
    cases p x with
    | true => rfl
    | false =>
      rw [if_neg Bool.false_ne_true, ih]
      rfl

theorem setColor_getElem? (d : CanDb) (id : UInt32) (color : QColor) (k : Nat) :
    (d.setColor id color).db[k]? =
      if d.db.findIdx (·.id == id) = k then d.db[k]?.map (·.setColor color) else d.db[k]? := by
  rw [CanDb.setColor, CanDb.modifyMessage, modifyFirst_eq_modify, List.getElem?_modify]
  split
  · rfl
  · cases d.db[k]? <;> rfl

theorem findIdx_le {d : CanDb} {r : Nat} {msg : CanMessage} (row : d.db[r]? = some msg) :
    d.db.findIdx (·.id == msg.id) ≤ r := by
  obtain ⟨inside, rfl⟩ := List.getElem?_eq_some_iff.mp row
  by_contra less
  have differs := List.not_of_lt_findIdx (not_le.mp less)
  rw [beq_self_eq_true] at differs
  cases differs

theorem first_iff {d : CanDb} {r : Nat} {msg : CanMessage} (row : d.db[r]? = some msg) :
    First d r ↔ d.db.findIdx (·.id == msg.id) = r := by
  have inside := (List.getElem?_eq_some_iff.mp row).1
  have le := findIdx_le row
  constructor
  · intro first
    by_contra other
    have less : d.db.findIdx (·.id == msg.id) < r := by omega
    have found := List.findIdx_getElem (w := Nat.lt_trans less inside)
    exact first _ _ msg less (List.getElem?_eq_getElem (Nat.lt_trans less inside)) row (beq_iff_eq.mp found)
  · intro here k other msg' less above row'
    obtain rfl := Option.some.inj (row.symm.trans row')
    obtain ⟨inside', rfl⟩ := List.getElem?_eq_some_iff.mp above
    have differs := List.not_of_lt_findIdx (here ▸ less)
    exact beq_eq_false_iff_ne.mp differs

/-- An edit colors the row exactly when it is the first with its identifier, or when both that row and
the first have the color already. -/
theorem setColor_colors_iff {d : CanDb} {r : Nat} {msg : CanMessage} (row : d.db[r]? = some msg) (color : QColor) :
    Colors d r color (d.setColor msg.id color) ↔
      First d r ∨ msg.color = color ∧ ∀ first, d.findMessage msg.id = some first → first.color = color := by
  have le := findIdx_le row
  have inside := (List.getElem?_eq_some_iff.mp row).1
  have short : d.db.findIdx (·.id == msg.id) < d.db.length := Nat.lt_of_le_of_lt le inside
  have found : d.findMessage msg.id = some d.db[d.db.findIdx (·.id == msg.id)] := by
    rw [CanDb.findMessage, List.find?_eq_getElem?_findIdx]
    exact List.getElem?_eq_getElem short
  have edited := setColor_getElem? d msg.id color
  rw [first_iff row, found]
  generalize d.db.findIdx (·.id == msg.id) = j at *
  by_cases own : j = r
  · subst own
    refine iff_of_true ⟨?_, fun k other => ?_⟩ (.inl rfl)
    · rw [edited, if_pos rfl, row]
      rfl
    · rw [edited, if_neg (Ne.symm other)]
  · constructor
    · rintro ⟨here, others⟩
      have same := others j own
      rw [edited, if_neg own, row, Option.map_some] at here
      rw [edited, if_pos rfl, List.getElem?_eq_getElem short, Option.map_some] at same
      refine .inr ⟨Option.some.inj here, fun first is => ?_⟩
      rw [← Option.some.inj is, ← Option.some.inj same]
      rfl
    · rintro (here | ⟨here, first⟩)
      · exact absurd here own
      · refine ⟨?_, fun k other => ?_⟩
        · rw [edited, if_neg own, row, Option.map_some, here]
        · rw [edited]
          split
          · rename_i at_first
            subst at_first
            have colored := first _ rfl
            rw [List.getElem?_eq_getElem short, Option.map_some, CanMessage.setColor, ← colored]
          · rfl

/-! ### The colors of a parsed database -/

def Uncolored (ms : List CanMessage) : Prop := ∀ m ∈ ms, m.color = noColor

theorem uncolored_extends {ms ms' : List CanMessage} (h : List.Forall₂ CanMessage.Extends ms ms')
    (uncolored : Uncolored ms) : Uncolored ms' := by
  induction h with
  | nil => exact uncolored
  | cons head _ ih =>
    obtain ⟨first, rest⟩ := List.forall_mem_cons.mp uncolored
    exact List.forall_mem_cons.mpr ⟨head.color.trans first, ih rest⟩

theorem uncolored_add {d : CanDb} {msg : CanMessage} (uncolored : Uncolored d.db) (plain : msg.color = noColor) :
    Uncolored (d.addMessage msg).db := by
  intro m member
  rcases List.mem_append.mp member with old | new
  · exact uncolored m old
  · rw [List.mem_singleton.mp new]
    exact plain

/-- No line gives a color to a stored message or to the open one. -/
theorem step_uncolored {qt : Qt} {st : Dbc.St} (line : QString) (plain : st.message.color = noColor)
    (uncolored : Uncolored st.db.db) :
    (Dbc.step qt st line).message.color = noColor ∧ Uncolored (Dbc.step qt st line).db.db := by
  obtain ⟨state, msg, db⟩ := st
  cases state with
  | idle =>
    cases bo : Dbc.boHeader qt line with
    | some h =>
      rw [Dbc.step_open bo]
      exact ⟨plain, uncolored⟩
    | none =>
      obtain ⟨msg', db', stepped, -, color, grown⟩ := Dbc.step_skip msg db bo
      rw [stepped]
      exact ⟨color.trans plain, uncolored_extends grown uncolored⟩
  | message =>
    cases found : Regex.search Dbc.signalPattern line with
    | none =>
      rw [Dbc.step_close found]
      exact ⟨rfl, uncolored_add uncolored plain⟩
    | some m =>
      cases sg : Dbc.sgSignal qt line with
      | none =>
        rw [Dbc.step_abandon (by rw [found]; rfl) sg]
        exact ⟨plain, uncolored⟩
      | some s =>
        rw [Dbc.step_add sg]
        exact ⟨plain, uncolored⟩
  | signal => exact ⟨plain, uncolored⟩

theorem foldl_uncolored {qt : Qt} (lines : List QString) : ∀ st : Dbc.St, st.message.color = noColor →
    Uncolored st.db.db → Uncolored (Dbc.finish (lines.foldl (Dbc.step qt) st)).db := by
  induction lines with
  | nil =>
    intro st plain uncolored
    rw [List.foldl_nil, Dbc.finish]
    split
    · exact uncolored_add uncolored plain
    · exact uncolored
  | cons line lines ih =>
    intro st plain uncolored
    obtain ⟨plain', uncolored'⟩ := @step_uncolored qt st line plain uncolored
    exact ih _ plain' uncolored'

theorem parse_uncolored (qt : Qt) (files : List (Option QString)) : Uncolored (Dbc.parse qt files).db := by
  have run (db : CanDb) (uncolored : Uncolored db.db) :
      Uncolored (files.foldl (fun db file => Dbc.parseFile qt file db) db).db := by
    induction files generalizing db with
    | nil => exact uncolored
    | cons file files ih =>
      apply ih
      cases file with
      | none => exact uncolored
      | some text => exact foldl_uncolored (readLines text) _ rfl uncolored
  exact run {} nofun

/-- Over a parsed database an edit colors its row exactly when no message above has the same identifier,
or when the color is the one that all messages have. -/
theorem setData_colors_iff (qt : Qt) (files : List (Option QString)) (r column : Nat) (color : QColor)
    (row : r < (Dbc.parse qt files).db.length) :
    (∃ d', setData (Dbc.parse qt files) (.valid r column none) color .edit = .ok (true, d') ∧
        Colors (Dbc.parse qt files) r color d') ↔
      First (Dbc.parse qt files) r ∨ color = noColor := by
  have uncolored := parse_uncolored qt files
  generalize Dbc.parse qt files = d at *
  have here : d.db[r]? = some d.db[r] := List.getElem?_eq_getElem row
  have edited : setData d (.valid r column none) color .edit = .ok (true, d.setColor d.db[r].id color) := by
    rw [setData, at_some here]
    rfl
  have plain : d.db[r].color = noColor := uncolored _ (List.getElem_mem row)
  have colors := setColor_colors_iff here color
  rw [plain] at colors
  rw [edited]
  constructor
  · rintro ⟨d', same, colored⟩
    obtain rfl := (Prod.mk.inj (Except.ok.inj same)).2
    exact (colors.mp colored).imp_right fun already => already.1.symm
  · intro fine
    refine ⟨_, rfl, colors.mpr (fine.imp_right fun is => ⟨is.symm, fun first found => ?_⟩)⟩
    rw [is]
    exact uncolored first (List.mem_of_find?_eq_some found)

def engineFile : QString := "BO_ 1 A: 8 X\n".toList

def doorFile : QString := "BO_ 1 B: 8 X\n".toList

theorem setData_colors_alone :
    (∃ d', setData (Dbc.parse plainBuild [some engineFile]) (.valid 0 4 none) yellow .edit = .ok (true, d') ∧
        Colors (Dbc.parse plainBuild [some engineFile]) 0 yellow d') ↔
      First (Dbc.parse plainBuild [some engineFile]) 0 ∨ yellow = noColor :=
  setData_colors_iff plainBuild [some engineFile] 0 4 yellow (by decide +kernel)

/-- Two files that use one identifier: the edit of the second row colors the first. -/
theorem setData_colors_shared :
    ¬ ∀ (qt : Qt) (files : List (Option QString)) (r column : Nat) (color : QColor),
      r < (Dbc.parse qt files).db.length →
        ∃ d', setData (Dbc.parse qt files) (.valid r column none) color .edit = .ok (true, d') ∧
          Colors (Dbc.parse qt files) r color d' := by
  intro h
  obtain ⟨d', edited, colors⟩ := h plainBuild [some engineFile, some doorFile] 1 4 yellow (by decide +kernel)
  have first : setData (Dbc.parse plainBuild [some engineFile, some doorFile]) (.valid 1 4 none) yellow .edit =
      .ok (true, ⟨[{ id := 1, dlc := 8, name := ['A'], sender := ['X'], color := yellow },
        { id := 1, dlc := 8, name := ['B'], sender := ['X'] }]⟩) := by
    decide +kernel
  obtain rfl := (Prod.mk.inj (Except.ok.inj (first.symm.trans edited))).2
  exact absurd colors.here (by decide +kernel)

end CanMsgModel
end CanTracer
