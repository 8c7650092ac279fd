import CanTracer.LogParser.WellFormed

/-!
# When the text path is defined

A text log ends in a list unless the driver pointer is null, a line is empty where its first
character is read, or a data column is longer than the array it is copied into.
-/

namespace CanTracer

open Regex

/-! ### Results -/

/-- A value is returned or an exception is thrown. -/
def Ends {α : Type} : Except Failure α → Prop
  | .ok _ => True
  | .error .outOfRange => True
  | .error (.runtimeError _) => True
  | .error (.undefined _) => False

structure DefinedWhen {α : Type} (Q : Prop) (r : Except Failure α) : Prop where
  defined : Q → ∃ a, r = .ok a
  undefined : ¬Q → ∃ op, r = .error (.undefined op)

namespace DefinedWhen

variable {α β : Type} {Q Q' : Prop} {r : Except Failure α}

theorem ends_iff (h : DefinedWhen Q r) : Ends r ↔ Q := by
  by_cases hq : Q
  · obtain ⟨a, rfl⟩ := h.defined hq
    exact iff_of_true trivial hq
  · obtain ⟨op, rfl⟩ := h.undefined hq
    exact iff_of_false id hq

theorem ok (a : α) : DefinedWhen True
    (.ok a : Except Failure α) := ⟨fun _ => ⟨a, rfl⟩, fun h => absurd trivial h⟩

theorem congr (h : DefinedWhen Q r) (same : Q ↔ Q') : DefinedWhen Q' r := propext same ▸ h

theorem map (h : DefinedWhen Q r) (f : α → β) : DefinedWhen Q (r.map f) := by
  constructor
  · intro hq
    obtain ⟨a, rfl⟩ := h.defined hq
    exact ⟨f a, rfl⟩
  · intro hq
    obtain ⟨op, rfl⟩ := h.undefined hq
    exact ⟨op, rfl⟩

theorem bind {f : α → Except Failure β} (h : DefinedWhen Q r) (next : ∀ a, DefinedWhen Q' (f a)) :
    DefinedWhen (Q ∧ Q') (r >>= f) := by
  by_cases hq : Q
  · obtain ⟨a, rfl⟩ := h.defined hq
    exact (next a).congr (and_iff_right hq).symm
  · obtain ⟨op, rfl⟩ := h.undefined hq
    exact ⟨fun both => absurd both.1 hq, fun _ => ⟨op, rfl⟩⟩

end DefinedWhen

/-! ### Lines -/

theorem copyData_defined (msg : CanLogMsg) (data : Bytes) :
    DefinedWhen (data.length ≤ canMaxDlc) (copyData msg data) := by
  unfold copyData
  split
  · rename_i short
    exact ⟨fun _ => ⟨_, rfl⟩, fun long => absurd short long⟩
  · rename_i long
    exact ⟨fun short => absurd short long, fun _ => ⟨_, rfl⟩⟩

theorem TextDriver.parseLines_defined {σ : Type} (driver : TextDriver σ) {Q : QString → Prop}
    (one : ∀ line s, DefinedWhen (Q line) (driver.parseLine line s)) (lines : List QString) :
    ∀ s, DefinedWhen (∀ line ∈ lines, Q line) (driver.parseLines lines s) := by
  induction lines with
  | nil => exact fun s => (DefinedWhen.ok []).congr (by simp)
  | cons line lines ih =>
    intro s
    rw [parseLines, List.forall_mem_cons]
    apply (one line s).bind
    intro r
    cases r with
    | none => exact ih s
    | some x => exact ((ih x.2).bind fun _ => DefinedWhen.ok _).congr (and_iff_left trivial)

/-- The data column holds at most eight bytes. -/
def Columns.Short (c : Columns) : Prop := c.digits ≤ 2 * canMaxDlc

instance (c : Columns) : Decidable c.Short := inferInstanceAs (Decidable (_ ≤ _))

theorem dataBytes_short (c : Columns) : (dataBytes c.data).length ≤ canMaxDlc ↔ c.Short := by
  rw [dataBytes_length, Columns.Short]
  omega

theorem copied_defined {a : Option (CanLogMsg × Bytes)} {Q : Prop}
    (short : ∀ msg data, a = some (msg, data) → (data.length ≤ canMaxDlc ↔ Q)) :
    DefinedWhen (a.isSome → Q) (match a with | none => .ok none | some (msg, data) => (copyData msg data).map some) := by
  cases a with
  | none => exact (DefinedWhen.ok none).congr (by simp)
  | some pair =>
    obtain ⟨msg, data⟩ := pair
    exact ((copyData_defined msg data).map some).congr ((short msg data rfl).trans (by simp))

/-- A line whose first character can be read and whose data, if they are copied, fit. -/
def TrcDriver.Safe (qt : Qt) (line : QString) : Prop :=
  line ≠ [] ∧ (accepts qt line → ∀ c ∈ columns line, c.Short)

def AscDriver.Safe (qt : Qt) (line : QString) : Prop := accepts qt line → ∀ c ∈ columns line, c.Short

theorem TrcDriver.line_defined (qt : Qt) (line : QString) (s : Unit) :
    DefinedWhen (Safe qt line) ((driver qt).parseLine line s) := by
  refine DefinedWhen.map ?_ _
  unfold parseLine Safe
  split
  · rename_i empty
    exact ⟨fun h => absurd empty h.1, fun _ => ⟨_, rfl⟩⟩
  · rename_i nonempty
    refine (copied_defined fun msg data accept => ?_).congr (and_iff_right nonempty).symm
    obtain ⟨m, -, -, found, -, -, -, -, -, rfl⟩ := accepted_spec accept
    rw [columns, found, Option.map_some]
    exact (dataBytes_short ⟨m.captured 5, m.captured 6⟩).trans (by simp)

theorem AscDriver.line_defined (qt : Qt) (line : QString) (number : UInt32) :
    DefinedWhen (Safe qt line) ((driver qt).parseLine line number) := by
  refine DefinedWhen.map ?_ _
  unfold parseLine Safe
  rw [← accepts_eq qt number]
  apply copied_defined
  intro msg data accept
  obtain ⟨m, -, found, -, -, -, -, rfl⟩ := accepted_spec accept
  rw [columns, found, Option.map_some]
  exact (dataBytes_short ⟨m.captured 5, m.captured 6⟩).trans (by simp)

/-! ### Files -/

/-- The extension names a driver, and every line is safe for it. -/
def TextSafe (qt : Qt) (name : QString) (file : File) : Prop :=
  match formatOf name with
  | some .trc => ∀ line ∈ readLines file.text, TrcDriver.Safe qt line
  | some .asc => ∀ line ∈ readLines file.text, AscDriver.Safe qt line
  | some .blf => True
  | none => False

theorem parse_ends_iff {name : QString} (isText : formatOf name ≠ some .blf) (qt : Qt) (fuel : Nat)
    (file : File) :
    (∃ r, Parser.parse qt fuel name (some file) = some r ∧ Ends r) ↔ TextSafe qt name file := by
  unfold Parser.parse TextSafe
  cases format : formatOf name with
  | none => simp [Ends]
  | some f =>
    cases f with
    | asc =>
      have ends := ((AscDriver.driver qt).parseLines_defined (AscDriver.line_defined qt) (readLines file.text)
        (AscDriver.driver qt).start).ends_iff
      simpa [TextDriver.parse] using ends
    | trc =>
      have ends := ((TrcDriver.driver qt).parseLines_defined (TrcDriver.line_defined qt) (readLines file.text)
        ()).ends_iff
      simpa [TextDriver.parse] using ends
    | blf => exact absurd format isText

theorem parse_ends_trc :
    (∃ r, Parser.parse plainBuild 0 "log.TRC".toList (some trcFile) = some r ∧ Ends r) ↔
      TextSafe plainBuild "log.TRC".toList trcFile :=
  parse_ends_iff (by decide) plainBuild 0 trcFile

theorem parse_ends_nullDriver :
    ¬ ∀ (qt : Qt) (fuel : Nat) (name : QString) (file : File), formatOf name ≠ some .blf →
      ∃ r, Parser.parse qt fuel name (some file) = some r ∧ Ends r := by
  intro h
  obtain ⟨r, parsed, ends⟩ := h plainBuild 0 "log.txt".toList trcFile (by decide)
  have null : Parser.parse plainBuild 0 "log.txt".toList (some trcFile) = some (.error (.undefined .nullDriver)) := by
    decide +kernel
  rw [null] at parsed
  rw [← Option.some.inj parsed] at ends
  exact ends

end CanTracer
