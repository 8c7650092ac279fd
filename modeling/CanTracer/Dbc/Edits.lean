import CanTracer.Dbc.Frame

/-!
# What a text does to a database

The lines of a text decide, whatever the database holds, which messages are added and which value
tables are given: a list of edits. The parser applies them one after the other.
-/

namespace CanTracer.Dbc

open Regex

inductive Edit where
  | add (m : CanMessage)
  | describe (id : UInt32) (name : QString) (pairs : List (ℚ × QString))

def Edit.apply (d : CanDb) : Edit → CanDb
  | .add m => d.addMessage m
  | .describe id name pairs => d.modifyMessage id (withTable name pairs)

def Edit.added : Edit → Option CanMessage
  | .add m => some m
  | .describe _ _ _ => none

def applyAll (es : List Edit) (d : CanDb) : CanDb := es.foldl Edit.apply d

/-- The messages as the text declares them, without the tables of its `VAL_` lines. -/
def declared (es : List Edit) : List CanMessage := es.filterMap Edit.added

/-! ### The edits of a text -/

def describes (qt : Qt) (m : Match) : List Edit :=
  match toULong qt (m.captured 1) 10 with
  | none => []
  | some id => [.describe (removeExtMask id) (m.captured 2) (readPairs qt (m.captured 3))]

def emit (qt : Qt) (st : St) (line : QString) : List Edit :=
  match st.state with
  | .idle =>
    match search messagePattern line with
    | some _ => []
    | none => (search valuePattern line).elim [] (describes qt)
  | .message => if (search signalPattern line).isSome then [] else [.add st.message]
  | .signal => []

def edits (qt : Qt) (st : St) : List QString → List Edit
  | [] => if st.state = .message then [.add st.message] else []
  | line :: lines => emit qt st line ++ edits qt (step qt st line) lines

variable {qt : Qt}

theorem readValues_describes (qt : Qt) (m : Match) (d : CanDb) :
    readValues qt m d = applyAll (describes qt m) d := by
  unfold readValues describes
  cases toULong qt (m.captured 1) 10 <;> rfl

theorem readMessage_db (m : Match) (st : St) : (readMessage qt m st).db = st.db := by
  unfold readMessage
  split
  · rfl
  · dsimp only
    split <;> rfl

theorem step_db (st : St) (line : QString) : (step qt st line).db = applyAll (emit qt st line) st.db := by
  obtain ⟨state, msg, db⟩ := st
  unfold step emit
  cases state with
  | idle =>
    dsimp only
    cases search messagePattern line with
    | some m => exact readMessage_db m _
    | none =>
      cases search valuePattern line with
      | some m => exact readValues_describes qt m db
      | none => rfl
  | message =>
    dsimp only
    cases search signalPattern line with
    | some m =>
      dsimp only
      cases readSignal qt m <;> rfl
    | none => rfl
  | signal => rfl

theorem readMessage_frame (m : Match) (state : ParseState) (msg : CanMessage) (db db' : CanDb) :
    (readMessage qt m ⟨state, msg, db⟩).state = (readMessage qt m ⟨state, msg, db'⟩).state ∧
      (readMessage qt m ⟨state, msg, db⟩).message = (readMessage qt m ⟨state, msg, db'⟩).message := by
  cases hid : toULong qt (m.captured 1) 10 with
  | none => simp only [readMessage, hid, and_self]
  | some id => cases hdlc : toShort (m.captured 3) <;> simp only [readMessage, hid, hdlc, and_self]

/-- State and pending message do not depend on the database. -/
theorem step_frame (state : ParseState) (msg : CanMessage) (db db' : CanDb) (line : QString) :
    (step qt ⟨state, msg, db⟩ line).state = (step qt ⟨state, msg, db'⟩ line).state ∧
      (step qt ⟨state, msg, db⟩ line).message = (step qt ⟨state, msg, db'⟩ line).message := by
  unfold step
  cases state with
  | idle =>
    dsimp only
    cases search messagePattern line with
    | some m => exact readMessage_frame m .idle msg db db'
    | none => dsimp only; cases search valuePattern line <;> exact ⟨rfl, rfl⟩
  | message =>
    dsimp only
    cases search signalPattern line with
    | some m => dsimp only; cases readSignal qt m <;> exact ⟨rfl, rfl⟩
    | none => exact ⟨rfl, rfl⟩
  | signal => exact ⟨rfl, rfl⟩

theorem edits_frame (lines : List QString) (state : ParseState) (msg : CanMessage) (db db' : CanDb) :
    edits qt ⟨state, msg, db⟩ lines = edits qt ⟨state, msg, db'⟩ lines := by
  induction lines generalizing state msg db db' with
  | nil => rfl
  | cons line lines ih =>
    obtain ⟨sameState, sameMessage⟩ := @step_frame qt state msg db db' line
    have rest : edits qt (step qt ⟨state, msg, db⟩ line) lines = edits qt (step qt ⟨state, msg, db'⟩ line) lines := by
      generalize step qt ⟨state, msg, db⟩ line = x, step qt ⟨state, msg, db'⟩ line = y at sameState sameMessage
      obtain ⟨state, msg, db⟩ := x
      obtain ⟨state', msg', db'⟩ := y
      obtain rfl : state = state' := sameState
      obtain rfl : msg = msg' := sameMessage
      exact ih state msg db db'
    rw [edits, edits, rest]
    rfl

theorem finish_edits (lines : List QString) (st : St) :
    finish (lines.foldl (step qt) st) = applyAll (edits qt st lines) st.db := by
  induction lines generalizing st with
  | nil =>
    rw [List.foldl_nil, finish, edits]
    split <;> rfl
  | cons line lines ih =>
    rw [List.foldl_cons, ih, step_db, edits, applyAll, applyAll, applyAll, List.foldl_append]

def fileEdits (qt : Qt) (file : Option QString) : List Edit := file.elim [] fun text => edits qt {} (readLines text)

theorem parseFile_edits (file : Option QString) (d : CanDb) :
    parseFile qt file d = applyAll (fileEdits qt file) d := by
  cases file with
  | none => rfl
  | some text =>
    have run := @finish_edits qt (readLines text) { db := d }
    exact run.trans (congrArg (applyAll · d) (edits_frame (readLines text) .idle {} d {}))

theorem parse_edits (files : List (Option QString)) (d : CanDb) :
    files.foldl (fun db file => parseFile qt file db) d = applyAll (files.flatMap (fileEdits qt)) d := by
  induction files generalizing d with
  | nil => rfl
  | cons file files ih =>
    rw [List.foldl_cons, ih, parseFile_edits, List.flatMap_cons, applyAll, applyAll, applyAll, List.foldl_append]

end CanTracer.Dbc
