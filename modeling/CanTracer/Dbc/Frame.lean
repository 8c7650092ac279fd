import Mathlib.Data.List.Forall2
import CanTracer.Dbc.Basic

/-!
# What parsing adds to a database

One lemma for each thing a line can do, and the invariant of the run: the messages that were
there stay, up to longer value tables, and what is appended comes from the lines read, in order.
-/

namespace CanTracer

/-! ### Entries up to longer value tables -/

def CanSignal.Extends (s s' : CanSignal) : Prop := ∃ more, s' = { s with values := s.values ++ more }

def CanSignal.bare (s : CanSignal) : CanSignal := { s with values := [] }

structure CanMessage.Extends (m m' : CanMessage) : Prop where
  id : m'.id = m.id
  dlc : m'.dlc = m.dlc
  name : m'.name = m.name
  sender : m'.sender = m.sender
  color : m'.color = m.color
  canSignals : List.Forall₂ CanSignal.Extends m.canSignals m'.canSignals

theorem forall₂_trans {α : Type} {R : α → α → Prop} (trans : ∀ a b c, R a b → R b c → R a c)
    {as bs cs : List α}
    (h : List.Forall₂ R as bs) (h' : List.Forall₂ R bs cs) : List.Forall₂ R as cs := by
  induction h generalizing cs with
  | nil => exact h'
  | cons head _ ih =>
    cases h' with
    | cons head' tail' => exact .cons (trans _ _ _ head head') (ih tail')

theorem modifyFirst_forall₂ {α : Type} {R : α → α → Prop} (refl : ∀ a, R a a) {p : α → Bool} {f : α → α}
    (hf : ∀ a, R a (f a)) (xs : List α) : List.Forall₂ R xs (modifyFirst p f xs) := by
  induction xs with
  | nil => exact .nil
  | cons x xs ih =>
    rw [modifyFirst]
    split
    · exact .cons (hf x) (List.forall₂_same.mpr fun a _ => refl a)
    · exact .cons (refl x) ih

theorem CanSignal.extends_refl (s : CanSignal) : s.Extends s := ⟨[], by rw [List.append_nil]⟩

theorem CanSignal.extends_trans (a b c : CanSignal) (h : a.Extends b) (h' : b.Extends c) : a.Extends c := by
  obtain ⟨more, rfl⟩ := h
  obtain ⟨more', rfl⟩ := h'
  exact ⟨more ++ more', by rw [List.append_assoc]⟩

theorem CanSignal.Extends.bare {s s' : CanSignal} (h : s.Extends s') : s'.bare = s.bare := by
  obtain ⟨more, rfl⟩ := h
  rfl

theorem CanSignal.foldl_addValuePair (pairs : List (ℚ × QString)) (s : CanSignal) :
    pairs.foldl CanSignal.addValuePair s = { s with values := s.values ++ pairs } := by
  induction pairs generalizing s with
  | nil => rw [List.append_nil]; rfl
  | cons pair pairs ih => rw [List.foldl_cons, ih, addValuePair, List.append_assoc]; rfl

theorem CanMessage.extends_refl (m : CanMessage) : m.Extends m :=
  ⟨rfl, rfl, rfl, rfl, rfl, List.forall₂_same.mpr fun s _ => s.extends_refl⟩

theorem extends_self (ms : List CanMessage) : List.Forall₂ CanMessage.Extends ms ms :=
  List.forall₂_same.mpr fun m _ => m.extends_refl

theorem CanMessage.extends_trans (a b c : CanMessage) (h : a.Extends b) (h' : b.Extends c) : a.Extends c :=
  ⟨h'.id.trans h.id, h'.dlc.trans h.dlc, h'.name.trans h.name, h'.sender.trans h.sender, h'.color.trans h.color,
    forall₂_trans CanSignal.extends_trans h.canSignals h'.canSignals⟩

namespace Dbc

open Regex

/-! ### What a line says -/

def boHeader (qt : Qt) (line : QString) : Option Header := do
  let m ← search messagePattern line
  let id ← toULong qt (m.captured 1) 10
  let dlc ← toShort (m.captured 3)
  return { id := removeExtMask id, name := m.captured 2, dlc := dlc.toUInt8, sender := m.captured 4 }

def sgSignal (qt : Qt) (line : QString) : Option CanSignal := do
  let m ← search signalPattern line
  readSignal qt m

def headerOf (m : CanMessage) : Header := { id := m.id, name := m.name, dlc := m.dlc, sender := m.sender }

def Header.apply (h : Header) (m : CanMessage) : CanMessage :=
  { m with id := h.id, name := h.name, dlc := h.dlc, sender := h.sender }

/-! ### What a step does -/

variable {qt : Qt} {line : QString} {msg : CanMessage} {db : CanDb}

/-- The message with the pairs added to the first signal of the name. -/
def withTable (name : QString) (pairs : List (ℚ × QString)) (msg : CanMessage) : CanMessage :=
  msg.modifySignal name fun signal => pairs.foldl CanSignal.addValuePair signal

theorem withTable_extends (name : QString) (pairs : List (ℚ × QString)) (msg : CanMessage) :
    msg.Extends (withTable name pairs msg) :=
  ⟨rfl, rfl, rfl, rfl, rfl,
    modifyFirst_forall₂ CanSignal.extends_refl (fun s => ⟨_, CanSignal.foldl_addValuePair _ s⟩) _⟩

theorem describe_extends (id : UInt32) (name : QString) (pairs : List (ℚ × QString)) (db : CanDb) :
    List.Forall₂ CanMessage.Extends db.db (db.modifyMessage id (withTable name pairs)).db :=
  modifyFirst_forall₂ CanMessage.extends_refl (withTable_extends name pairs) _

theorem readValues_extends (qt : Qt) (m : Match) (db : CanDb) :
    List.Forall₂ CanMessage.Extends db.db (readValues qt m db).db := by
  unfold readValues
  split
  · exact extends_self _
  · exact describe_extends _ _ _ db

/-- A convertible `BO_` line opens a block; the signals of the pending message stay. -/
theorem step_open {h : Header} (read : boHeader qt line = some h) :
    step qt ⟨.idle, msg, db⟩ line = ⟨.message, h.apply msg, db⟩ := by
  simp only [boHeader, Option.bind_eq_bind, Option.bind_eq_some_iff, Option.pure_def, Option.some.injEq] at read
  obtain ⟨m, found, id, hid, dlc, hdlc, rfl⟩ := read
  simp only [step, found, readMessage, hid, hdlc, Header.apply]

theorem step_skip (msg : CanMessage) (db : CanDb) (read : boHeader qt line = none) :
    ∃ msg' db', step qt ⟨.idle, msg, db⟩ line = ⟨.idle, msg', db'⟩ ∧ msg'.canSignals = msg.canSignals ∧
      msg'.color = msg.color ∧ List.Forall₂ CanMessage.Extends db.db db'.db := by
  have same := extends_self db.db
  cases found : search messagePattern line with
  | none =>
    cases values : search valuePattern line with
    | none => exact ⟨msg, db, by simp only [step, found, values], rfl, rfl, same⟩
    | some m => exact ⟨msg, _, by simp only [step, found, values], rfl, rfl, readValues_extends qt m db⟩
  | some m =>
    simp only [boHeader, found, Option.bind_eq_bind, Option.bind_some] at read
    cases hid : toULong qt (m.captured 1) 10 with
    | none => exact ⟨msg, db, by simp only [step, found, readMessage, hid], rfl, rfl, same⟩
    | some id =>
      cases hdlc : toShort (m.captured 3) with
      | none =>
        exact ⟨{ msg with id := removeExtMask id, name := m.captured 2, dlc := 0 }, db,
          by simp only [step, found, readMessage, hid, hdlc], rfl, rfl, same⟩
      | some dlc => simp [hid, hdlc] at read

theorem step_add {s : CanSignal} (read : sgSignal qt line = some s) :
    step qt ⟨.message, msg, db⟩ line = ⟨.message, msg.addCanSignal s, db⟩ := by
  simp only [sgSignal, Option.bind_eq_bind, Option.bind_eq_some_iff] at read
  obtain ⟨m, found, read⟩ := read
  simp only [step, found, read]

theorem step_abandon (found : (search signalPattern line).isSome) (read : sgSignal qt line = none) :
    step qt ⟨.message, msg, db⟩ line = ⟨.idle, msg, db⟩ := by
  obtain ⟨m, found⟩ := Option.isSome_iff_exists.mp found
  rw [sgSignal, found] at read
  simp only [Option.bind_eq_bind, Option.bind_some] at read
  simp only [step, found, read]

/-- Any other line in a block stores the message, and is used up. -/
theorem step_close (found : search signalPattern line = none) :
    step qt ⟨.message, msg, db⟩ line = ⟨.idle, {}, db.addMessage msg⟩ := by
  simp only [step, found]

theorem sgSignal_bare {s : CanSignal} (read : sgSignal qt line = some s) : s.bare = s := by
  simp only [sgSignal, readSignal, Option.bind_eq_bind, Option.bind_eq_some_iff, Option.pure_def,
    Option.some.injEq] at read
  obtain ⟨m, -, a, -, b, -, c, -, d, -, e, -, f, -, g, -, rfl⟩ := read
  rfl

/-! ### The run -/

theorem idle_ne_signal : ParseState.idle ≠ .signal := by decide

theorem message_ne_signal : ParseState.message ≠ .signal := by decide

theorem idle_ne_message : ParseState.idle ≠ .message := by decide

def bareSignals (ms : List CanMessage) : List CanSignal := ms.flatMap fun m => m.canSignals.map CanSignal.bare

/-- The header of the pending message counts once its block is open. -/
def pending (st : St) : List Header := if st.state = .message then [headerOf st.message] else []

def Sound (qt : Qt) (start : CanDb) (read : List QString) (st : St) : Prop :=
  st.state ≠ .signal ∧
  ∃ old new, st.db.db = old ++ new ∧ List.Forall₂ CanMessage.Extends start.db old ∧
    (new.map headerOf ++ pending st).Sublist (read.filterMap (boHeader qt)) ∧
    (bareSignals new ++ st.message.canSignals.map CanSignal.bare).Sublist (read.filterMap (sgSignal qt))

theorem Extends.signals {m m' : CanMessage} (h : m.Extends m') :
    m'.canSignals.map CanSignal.bare = m.canSignals.map CanSignal.bare := by
  have each : List.Forall₂ (fun s s' => s'.bare = s.bare) m.canSignals m'.canSignals :=
    h.canSignals.imp fun _ _ h => h.bare
  generalize m.canSignals = ss, m'.canSignals = ss' at each
  induction each with
  | nil => rfl
  | cons head _ ih => rw [List.map_cons, List.map_cons, head, ih]

theorem extends_keep {ms ms' : List CanMessage} (h : List.Forall₂ CanMessage.Extends ms ms') :
    ms'.map headerOf = ms.map headerOf ∧ bareSignals ms' = bareSignals ms := by
  induction h with
  | nil => exact ⟨rfl, rfl⟩
  | @cons m m' ms ms' head _ ih =>
    have fields : headerOf m' = headerOf m := by rw [headerOf, headerOf, head.id, head.name, head.dlc, head.sender]
    rw [List.map_cons, List.map_cons, fields, ih.1]
    refine ⟨rfl, ?_⟩
    change m'.canSignals.map CanSignal.bare ++ bareSignals ms' = m.canSignals.map CanSignal.bare ++ bareSignals ms
    rw [Extends.signals head, ih.2]

theorem forall₂_split {α : Type} {R : α → α → Prop} {old new ms : List α}
    (h : List.Forall₂ R (old ++ new) ms) :
    ∃ old' new', ms = old' ++ new' ∧ List.Forall₂ R old old' ∧ List.Forall₂ R new new' := by
  refine ⟨ms.take old.length, ms.drop old.length, (List.take_append_drop _ _).symm, ?_, ?_⟩
  · simpa using List.forall₂_take old.length h
  · simpa using List.forall₂_drop old.length h

section
variable {α : Type} {f : QString → Option α} {as : List α} {a : α} {read : List QString}

theorem sublist_more (line : QString) (h : as.Sublist (read.filterMap f)) :
    as.Sublist ((read ++ [line]).filterMap f) := by
  rw [List.filterMap_append]
  exact h.trans (List.sublist_append_left _ _)

theorem sublist_next (h : as.Sublist (read.filterMap f)) (next : f line = some a) :
    (as ++ [a]).Sublist ((read ++ [line]).filterMap f) := by
  rw [List.filterMap_append, List.filterMap_cons, next, List.filterMap_nil]
  exact h.append (List.Sublist.refl _)

end

theorem sound_step {start : CanDb} {read : List QString} {st : St} (sound : Sound qt start read st)
    (line : QString) :
    Sound qt start (read ++ [line]) (step qt st line) := by
  obtain ⟨state, msg, db⟩ := st
  obtain ⟨noSignal, old, new, whole, kept, headers, signals⟩ := sound
  cases state with
  | idle =>
    cases bo : boHeader qt line with
    | some h =>
      rw [step_open bo]
      refine ⟨message_ne_signal, old, new, whole, kept, ?_, sublist_more line signals⟩
      rw [pending, if_neg idle_ne_message, List.append_nil] at headers
      exact sublist_next headers bo
    | none =>
      obtain ⟨msg', db', stepped, same, -, grown⟩ := step_skip msg db bo
      change db.db = _ at whole
      rw [whole] at grown
      obtain ⟨old', new', whole', kept', added⟩ := forall₂_split grown
      obtain ⟨sameHeaders, sameSignals⟩ := extends_keep added
      rw [stepped]
      refine ⟨idle_ne_signal, old', new', whole', forall₂_trans CanMessage.extends_trans kept kept', ?_, ?_⟩
      · rw [sameHeaders]
        exact sublist_more line headers
      · change (bareSignals new' ++ msg'.canSignals.map CanSignal.bare).Sublist _
        rw [sameSignals, same]
        exact sublist_more line signals
  | message =>
    cases found : search signalPattern line with
    | none =>
      rw [step_close found]
      refine ⟨idle_ne_signal, old, new ++ [msg], ?_, kept, ?_, ?_⟩
      · change db.db ++ [msg] = old ++ (new ++ [msg])
        rw [← List.append_assoc]
        exact congrArg (· ++ [msg]) whole
      · rw [List.map_append, pending, if_neg idle_ne_message, List.append_nil]
        exact sublist_more line headers
      · change (bareSignals (new ++ [msg]) ++ []).Sublist _
        rw [List.append_nil, bareSignals, List.flatMap_append, List.flatMap_cons, List.flatMap_nil, List.append_nil]
        exact sublist_more line signals
    | some m =>
      cases sg : sgSignal qt line with
      | none =>
        rw [step_abandon (by rw [found]; rfl) sg]
        refine ⟨idle_ne_signal, old, new, whole, kept, ?_, sublist_more line signals⟩
        rw [pending, if_neg idle_ne_message, List.append_nil]
        exact sublist_more line ((List.sublist_append_left _ _).trans headers)
      | some s =>
        rw [step_add sg]
        refine ⟨message_ne_signal, old, new, whole, kept, sublist_more line headers, ?_⟩
        change (bareSignals new ++ (msg.canSignals ++ [s]).map CanSignal.bare).Sublist _
        rw [List.map_append, List.map_singleton, sgSignal_bare sg, ← List.append_assoc]
        exact sublist_next signals sg
  | signal => exact absurd rfl noSignal

theorem sound_run {start : CanDb} (lines : List QString) :
    ∀ (read : List QString) (st : St), Sound qt start read st →
      Sound qt start (read ++ lines) (lines.foldl (step qt) st) := by
  induction lines with
  | nil => intro read st sound; rw [List.append_nil]; exact sound
  | cons line lines ih =>
    intro read st sound
    have next := ih (read ++ [line]) (step qt st line) (sound_step sound line)
    rw [List.append_assoc] at next
    exact next

/-- The old messages stay up to longer value tables; the headers of the new ones and their signals
are those of `BO_` and `SG_` lines, in the order of the text and each line at most once. -/
theorem parseStream_frame (qt : Qt) (text : QString) (db : CanDb) :
    ∃ old new, (parseStream qt text db).db = old ++ new ∧ List.Forall₂ CanMessage.Extends db.db old ∧
      (new.map headerOf).Sublist ((readLines text).filterMap (boHeader qt)) ∧
      (bareSignals new).Sublist ((readLines text).filterMap (sgSignal qt)) := by
  have start : Sound qt db [] { db := db } :=
    ⟨idle_ne_signal, db.db, [], (List.append_nil _).symm, extends_self _,
      List.Sublist.refl _, List.Sublist.refl _⟩
  obtain ⟨-, old, new, whole, kept, headers, signals⟩ := sound_run (readLines text) [] _ start
  rw [List.nil_append] at headers signals
  rw [parseStream, parseLines]
  generalize (readLines text).foldl (step qt) { db := db } = st at *
  rw [finish]
  split
  · rename_i opened
    rw [pending, if_pos opened] at headers
    refine ⟨old, new ++ [st.message], ?_, kept, ?_, ?_⟩
    · rw [CanDb.addMessage, whole, List.append_assoc]
    · rw [List.map_append]
      exact headers
    · rw [bareSignals, List.flatMap_append, List.flatMap_cons, List.flatMap_nil, List.append_nil]
      exact signals
  · refine ⟨old, new, whole, kept, (List.sublist_append_left _ _).trans headers,
      (List.sublist_append_left _ _).trans signals⟩

end Dbc
end CanTracer
