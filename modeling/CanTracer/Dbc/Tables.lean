import Mathlib.Algebra.Order.Field.Rat
import Mathlib.Algebra.Order.Field.Basic
import CanTracer.Dbc.Edits
import CanTracer.Dbc.Messages
import CanTracer.Dbc.Entries

/-!
# Value tables as listed

A `VAL_` line extends one table by the pairs it lists when the parser is idle, the line cannot be
taken for a `BO_` line and the line is plain. Otherwise the pairs do not all arrive.
-/

namespace CanTracer.Dbc

open Regex

/-- The database with the pairs behind the table of one signal. -/
def tableAdded (id : UInt32) (name : QString) (ps : List (ℚ × QString)) (d : CanDb) : CanDb :=
  ⟨d.db.map fun m =>
    if m.id = id then
      { m with canSignals := m.canSignals.map fun s => if s.name = name then { s with values := s.values ++ ps } else s }
    else m⟩

/-- The signal of a line is there, and no other has its name and the id of its message. -/
structure Known (l : ValueLine) (d : CanDb) : Prop where
  signal : ∃ m ∈ d.db, m.id = removeExtMask l.id.toNat ∧ ∃ s ∈ m.canSignals, s.name = l.name
  ids : (d.db.map (·.id)).Nodup
  names : ∀ m ∈ d.db, (m.canSignals.map (·.name)).Nodup

/-- `toDouble` reads the keys of the line as the numbers of `double`, with their sign, and digits as
no number below zero. -/
structure ReadsIntegers (qt : Qt) (double : Int → ℚ) (es : List Entry) : Prop where
  reads : Reads qt double es
  negative : ∀ e ∈ es, e.key < 0 → double e.key < 0
  digits : DigitsNatural qt

variable {qt : Qt} {double : Int → ℚ} {l : ValueLine}

/-! ### Changing one of many -/

theorem modifyFirst_eq_map {α κ : Type} [BEq κ] [LawfulBEq κ] [DecidableEq κ] {key : α → κ} {k : κ} {f : α → α}
    {xs : List α} (distinct : (xs.map key).Nodup) :
    modifyFirst (fun x => key x == k) f xs = xs.map fun x => if key x = k then f x else x := by
  induction xs with
  | nil => rfl
  | cons x xs ih =>
    obtain ⟨fresh, rest⟩ := List.nodup_cons.mp distinct
    rw [modifyFirst, List.map_cons]
    by_cases here : key x = k
    · have others : (xs.map fun x => if key x = k then f x else x) = xs := by
        apply (List.map_congr_left _).trans (List.map_id' xs)
        intro y hy
        exact if_neg fun same => fresh (by rw [here, ← same]; exact List.mem_map_of_mem hy)
      rw [if_pos (beq_iff_eq.mpr here), if_pos here, others]
    · rw [if_neg (by simpa using here), if_neg here, ih rest]

theorem modifyMessage_eq_tableAdded {id : UInt32} {name : QString} {d : CanDb} (ps : List (ℚ × QString))
    (ids : (d.db.map (·.id)).Nodup) (names : ∀ m ∈ d.db, (m.canSignals.map (·.name)).Nodup) :
    d.modifyMessage id (withTable name ps) = tableAdded id name ps d := by
  rw [CanDb.modifyMessage, modifyFirst_eq_map ids, tableAdded]
  congr 1
  apply List.map_congr_left
  intro m hm
  split
  · rw [withTable, CanMessage.modifySignal, modifyFirst_eq_map (names m hm)]
    simp only [CanSignal.foldl_addValuePair]
  · rfl

/-! ### What a line can change -/

/-- Tables that have grown by nothing or by `ps`. -/
def GrownBy (ps : List (ℚ × QString)) (m m' : CanMessage) : Prop :=
  List.Forall₂ (fun s s' => s' = s ∨ s' = { s with values := s.values ++ ps }) m.canSignals m'.canSignals

theorem grownBy_refl (ps : List (ℚ × QString)) (m : CanMessage) : GrownBy ps m m :=
  List.forall₂_same.mpr fun _ _ => .inl rfl

theorem grownBy_describe (id : UInt32) (name : QString) (ps : List (ℚ × QString)) (d : CanDb) :
    List.Forall₂ (GrownBy ps) d.db (d.modifyMessage id (withTable name ps)).db := by
  apply modifyFirst_forall₂ (grownBy_refl ps)
  intro m
  exact modifyFirst_forall₂ (fun _ => .inl rfl) (fun s => .inr (CanSignal.foldl_addValuePair ps s)) _

theorem pairs_of_grownBy {ps ps' : List (ℚ × QString)} {d : CanDb} (known : Known l d)
    (grown : List.Forall₂ (GrownBy ps') d.db (tableAdded (removeExtMask l.id.toNat) l.name ps d).db) :
    ps = [] ∨ ps = ps' := by
  obtain ⟨m, hm, id, s, hs, name⟩ := known.signal
  have message := List.forall₂_same.mp (List.forall₂_map_right_iff.mp grown) m hm
  rw [if_pos id] at message
  have signal := List.forall₂_same.mp (List.forall₂_map_right_iff.mp message) s hs
  rw [if_pos name] at signal
  rcases signal with same | same
  · exact .inl (List.append_right_eq_self.mp (congrArg CanSignal.values same))
  · exact .inr (List.append_cancel_left (congrArg CanSignal.values same))

/-- How many signals each message has. -/
def signalCounts (d : CanDb) : List Nat := d.db.map fun m => m.canSignals.length

theorem signalCounts_tableAdded (id : UInt32) (name : QString) (ps : List (ℚ × QString)) (d : CanDb) :
    signalCounts (tableAdded id name ps d) = signalCounts d := by
  rw [signalCounts, signalCounts, tableAdded, List.map_map]
  apply List.map_congr_left
  intro m _
  dsimp only [Function.comp]
  split
  · exact List.length_map _
  · rfl

/-! ### The step -/

/-- What one more line makes of the database, where it is not read as a `VAL_` line. -/
theorem finish_step_other {st : St} {line : QString} (qt : Qt) (other : st.state ≠ .idle ∨ isBoLine line = true) :
    finish (step qt st line) = finish st ∨
      signalCounts (finish (step qt st line)) ≠ signalCounts (finish st) := by
  obtain ⟨state, msg, db⟩ := st
  cases state with
  | idle =>
    obtain ⟨m, found⟩ := Option.isSome_iff_exists.mp (other.resolve_left fun h => h rfl)
    have kept : (readMessage qt m ⟨.idle, msg, db⟩).db = db := readMessage_db m _
    simp only [step, found]
    rw [finish, kept]
    split
    · refine .inr fun same => ?_
      have lengths := congrArg List.length same
      simp [signalCounts, CanDb.addMessage, finish] at lengths
    · exact .inl rfl
  | message =>
    cases found : search signalPattern line with
    | none =>
      rw [step_close found]
      exact .inl rfl
    | some m =>
      refine .inr fun same => ?_
      cases read : sgSignal qt line with
      | none =>
        rw [step_abandon (by rw [found]; rfl) read] at same
        have lengths := congrArg List.length same
        simp [signalCounts, CanDb.addMessage, finish] at lengths
      | some s =>
        rw [step_add read] at same
        simp [signalCounts, CanDb.addMessage, CanMessage.addCanSignal, finish] at same
  | signal => exact .inl rfl

theorem finish_step_value {line : QString} (qt : Qt) (noMessage : search messagePattern line = none) (msg : CanMessage)
    (db : CanDb) :
    finish (step qt ⟨.idle, msg, db⟩ line) = db ∨
      ∃ m id, search valuePattern line = some m ∧ finish (step qt ⟨.idle, msg, db⟩ line) =
        db.modifyMessage id (withTable (m.captured 2) (readPairs qt (m.captured 3))) := by
  simp only [step, noMessage]
  cases found : search valuePattern line with
  | none => exact .inl rfl
  | some m =>
    cases read : toULong qt (m.captured 1) 10 with
    | none => exact .inl (by simp only [readValues, read]; rfl)
    | some id => exact .inr ⟨m, removeExtMask id, rfl, by simp only [readValues, read]; rfl⟩

theorem pairs_ne_nil (double : Int → ℚ) (l : ValueLine) : pairs double l.entries ≠ [] :=
  fun none => l.nonempty (List.map_eq_nil_iff.mp none)

/-- Pairs that arrive in full are pairs of a plain line. -/
theorem plain_of_readPairs (integers : ReadsIntegers qt double l.entries) {m : Match}
    (found : search valuePattern l.written = some m) (all : readPairs qt (m.captured 3) = pairs double l.entries) :
    l.Plain := by
  constructor
  · intro e he
    have listed : (double e.key, e.text) ∈ readPairs qt (m.captured 3) := by
      rw [all]
      exact List.mem_map_of_mem he
    have natural := readPairs_natural integers.digits _ _ listed
    by_contra negative
    exact absurd natural (not_le.mpr (integers.negative e he (not_le.mp negative)))
  · apply last_short found
    have count : (readPairs qt (m.captured 3)).length = l.entries.length := by rw [all, pairs, List.length_map]
    rw [← count]
    exact readPairs_quotes qt _

theorem not_tableAdded_self {d : CanDb} (known : Known l d) :
    d ≠ tableAdded (removeExtMask l.id.toNat) l.name (pairs double l.entries) d := by
  intro same
  have grown : List.Forall₂ (GrownBy []) d.db d.db := List.forall₂_same.mpr fun m _ => grownBy_refl [] m
  nth_rewrite 2 [same] at grown
  exact pairs_ne_nil double l ((pairs_of_grownBy known grown).elim id id)

/-- A `VAL_` line of the grammar for a signal of the database extends its table by exactly the listed
pairs when the parser is idle in front of it, it holds nothing that looks like a `BO_` line, none of
its keys is below zero and at most one white space stands in front of the semicolon; and only then. -/
theorem parseLines_table_iff (qt : Qt) (before : List QString) (db : CanDb) (l : ValueLine) (double : Int → ℚ)
    (integers : ReadsIntegers qt double l.entries) (known : Known l (parseLines qt before db)) :
    parseLines qt (before ++ [l.written]) db =
        tableAdded (removeExtMask l.id.toNat) l.name (pairs double l.entries) (parseLines qt before db) ↔
      (before.foldl (step qt) { db := db }).state = .idle ∧ isBoLine l.written = false ∧ l.Plain := by
  rw [parseLines, parseLines, List.foldl_append, List.foldl_cons, List.foldl_nil]
  rw [parseLines] at known
  generalize before.foldl (step qt) { db := db } = st at *
  constructor
  · intro same
    have idle : ¬(st.state ≠ .idle ∨ isBoLine l.written = true) := by
      intro other
      rcases finish_step_other qt other with kept | counts
      · exact not_tableAdded_self known (kept.symm.trans same)
      · rw [same, signalCounts_tableAdded] at counts
        exact counts rfl
    push Not at idle
    obtain ⟨idle, noMessage⟩ := idle
    have noMessage := Bool.of_not_eq_true noMessage
    refine ⟨idle, noMessage, ?_⟩
    obtain ⟨state, msg, d⟩ := st
    obtain rfl : state = .idle := idle
    rcases finish_step_value qt (isBoLine_eq_false.mp noMessage) msg d with kept | ⟨m, id, found, stored⟩
    · exact absurd (kept.symm.trans same) (not_tableAdded_self known)
    · have grown := grownBy_describe id (m.captured 2) (readPairs qt (m.captured 3)) d
      rw [← stored, same] at grown
      rcases pairs_of_grownBy known grown with none | all
      · exact absurd none (pairs_ne_nil double l)
      · exact plain_of_readPairs integers found all.symm
  · rintro ⟨idle, noMessage, plain⟩
    obtain ⟨state, msg, d⟩ := st
    obtain rfl : state = .idle := idle
    rw [step_valueLine plain integers.reads (isBoLine_eq_false.mp noMessage)]
    exact modifyMessage_eq_tableAdded _ known.ids known.names

/-! ### A table of two pairs -/

theorem unsignedDecimal_natural {s : QString} {q : ℚ} (h : unsignedDecimal s = some q) : 0 ≤ q := by
  unfold unsignedDecimal at h
  dsimp only at h
  split at h
  · split at h
    · cases h
    · obtain rfl := Option.some.inj h
      exact Nat.cast_nonneg _
  · split at h
    · obtain rfl := Option.some.inj h
      exact div_nonneg (Nat.cast_nonneg _) (pow_nonneg (by decide) _)
    · cases h

theorem plainBuild_digits : DigitsNatural plainBuild := by
  intro s q digits read
  apply unsignedDecimal_natural (s := s)
  cases s with
  | nil => exact read
  | cons c s =>
    have sign : c ≠ '-' := by
      rintro rfl
      exact absurd (digits '-' List.mem_cons_self) (by decide)
    rw [← read]
    exact (decimal.eq_2 _ fun _ h => sign (List.cons.inj h).1).symm

def onOffLine : ValueLine :=
  { indent := [], gap := [' '], id := 1, space := [' '], name := "a".toList
    entries := [⟨[' '], 1, [' '], "On".toList, white_space, white_space, by decide⟩,
      ⟨[' '], 0, [' '], "Off".toList, white_space, white_space, by decide⟩]
    last := [' '], trail := []
    indent_white := nofun, gap_white := white_space, space_white := white_space, word := ⟨by decide, by decide⟩
    nonempty := List.cons_ne_nil _ _, last_white := white_space.chars, trail_white := nofun }

def switchLines : List QString := ["BO_ 1 A: 8 X".toList, " SG_ a : 0|8@1+ (1,0) [0|255] \"\" Y".toList]

theorem onOffLine_reads : ReadsIntegers plainBuild (fun k => k) onOffLine.entries where
  reads := List.forall_mem_cons.mpr ⟨by decide +kernel, List.forall_mem_singleton.mpr (by decide +kernel)⟩
  negative := fun _ _ negative => Int.cast_lt_zero.mpr negative
  digits := plainBuild_digits

theorem parseLines_table_onOff :
    parseLines plainBuild (switchLines ++ [[]] ++ [onOffLine.written]) {} =
      tableAdded (removeExtMask onOffLine.id.toNat) onOffLine.name (pairs (fun k => k) onOffLine.entries)
        (parseLines plainBuild (switchLines ++ [[]]) {}) := by
  have known : Known onOffLine (parseLines plainBuild (switchLines ++ [[]]) {}) :=
    ⟨by decide +kernel, by decide +kernel, by decide +kernel⟩
  exact (parseLines_table_iff plainBuild (switchLines ++ [[]]) {} onOffLine (fun k => k) onOffLine_reads known).mpr
    ⟨by decide +kernel, by decide +kernel, by decide +kernel, by decide +kernel⟩

/-- Directly behind the last `SG_` line, the line only closes the block. -/
theorem parseLines_table_closing :
    ¬ ∀ (qt : Qt) (before : List QString) (db : CanDb) (l : ValueLine) (double : Int → ℚ),
      ReadsIntegers qt double l.entries → Known l (parseLines qt before db) →
      parseLines qt (before ++ [l.written]) db =
        tableAdded (removeExtMask l.id.toNat) l.name (pairs double l.entries) (parseLines qt before db) := by
  intro h
  have known : Known onOffLine (parseLines plainBuild switchLines {}) :=
    ⟨by decide +kernel, by decide +kernel, by decide +kernel⟩
  have same := h plainBuild switchLines {} onOffLine (fun k => k) onOffLine_reads known
  have tables : (parseLines plainBuild (switchLines ++ [onOffLine.written]) {}).db.map
      (fun m => m.canSignals.map fun s => s.values.length) = [[0]] := by
    decide +kernel
  rw [same] at tables
  exact absurd tables (by decide +kernel)

end CanTracer.Dbc
