import CanTracer.Dbc.Frame
import CanTracer.LogParser.WellFormed

/-!
# Identifiers of frames and messages

The DBC and the BLF parser mask the bit that tells an extended identifier from a standard one, and
the ASC parser drops the suffix that does: a frame finds its message by the number alone.
-/

namespace CanTracer

open Regex

/-! ### Written identifiers -/

def AscDriver.suffix (m : Match) : Bool :=
  let afterTime := (m.text.drop (m.captured 1).length).dropWhile (· == ' ')
  let afterChannel := (afterTime.drop (m.captured 2).length).dropWhile (· == ' ')
  (afterChannel.drop (m.captured 3).length).head? == some 'x'

def AscDriver.isExtended (line : QString) : Bool := (search pattern line).any suffix

def Blf.idField (o : Bytes) : Nat := field (16 + (stampEnd (headerOf o).headerVersion + 4)) 4 o

namespace Dbc

/-- The number on a `BO_` line, bit 31 included. -/
def boId (qt : Qt) (line : QString) : Option Nat := do
  let m ← search messagePattern line
  toULong qt (m.captured 1) 10

/-- The message has the header of a `BO_` line of the files that writes its identifier as `d`. -/
def DbcId (qt : Qt) (files : List (Option QString)) (m : CanMessage) (d : Nat) : Prop :=
  ∃ text, some text ∈ files ∧ ∃ line ∈ readLines text, boHeader qt line = some (headerOf m) ∧ boId qt line = some d

variable {qt : Qt} {line : QString} {db : CanDb}

theorem boHeader_id {h : Header} (read : boHeader qt line = some h) :
    ∃ d, boId qt line = some d ∧ h.id.toNat = d % 2 ^ 29 := by
  simp only [boHeader, Option.bind_eq_bind, Option.bind_eq_some_iff, Option.pure_def, Option.some.injEq] at read
  obtain ⟨m, found, id, hid, dlc, -, rfl⟩ := read
  refine ⟨id, ?_, removeExtMask_toNat id⟩
  rw [boId, found]
  exact hid

/-! ### Headers of a database -/

/-- Each header is one of a `BO_` line of the files. -/
def Listed (qt : Qt) (files : List (Option QString)) (db : CanDb) : Prop :=
  ∀ m ∈ db.db, ∃ text, some text ∈ files ∧ ∃ line ∈ readLines text, boHeader qt line = some (headerOf m)

theorem listed_parseStream {files : List (Option QString)} {text : QString} (inside : some text ∈ files)
    (listed : Listed qt files db) : Listed qt files (parseStream qt text db) := by
  obtain ⟨old, new, whole, kept, headers, -⟩ := parseStream_frame qt text db
  intro m hm
  rw [whole] at hm
  rcases List.mem_append.mp hm with hm | hm
  · have among : headerOf m ∈ db.db.map headerOf := (extends_keep kept).1 ▸ List.mem_map_of_mem hm
    obtain ⟨m', hm', same⟩ := List.mem_map.mp among
    rw [← same]
    exact listed m' hm'
  · have among := headers.subset (List.mem_map_of_mem hm)
    obtain ⟨line, hline, read⟩ := List.mem_filterMap.mp among
    exact ⟨text, inside, line, hline, read⟩

theorem listed_parse (qt : Qt) (files : List (Option QString)) : Listed qt files (parse qt files) := by
  have run (rest : List (Option QString)) (sub : rest ⊆ files) (db : CanDb) (listed : Listed qt files db) :
      Listed qt files (rest.foldl (fun db file => parseFile qt file db) db) := by
    induction rest generalizing db with
    | nil => exact listed
    | cons file rest ih =>
      obtain ⟨here, later⟩ := List.cons_subset.mp sub
      apply ih later
      cases file with
      | none => exact listed
      | some text => exact listed_parseStream here listed
  exact run files (List.Subset.refl _) {} nofun

theorem findMessage_dbcId {files : List (Option QString)} {id : UInt32} {m : CanMessage}
    (found : (parse qt files).findMessage id = some m) : ∃ d, DbcId qt files m d ∧ d % 2 ^ 29 = id.toNat := by
  rw [CanDb.findMessage] at found
  have same : m.id = id := by simpa using List.find?_some found
  obtain ⟨text, inside, line, hline, read⟩ := listed_parse qt files m (List.mem_of_find?_eq_some found)
  obtain ⟨d, written, number⟩ := boHeader_id read
  refine ⟨d, ⟨text, inside, line, hline, read, written⟩, ?_⟩
  exact number.symm.trans (congrArg UInt32.toNat same)

/-! ### Frames -/

/-- The message found for a frame has the frame's number; neither side keeps the format. -/
theorem findMessage_number (qt : Qt) (files : List (Option QString)) :
    (∀ line number msg, AscDriver.parseLine qt line number = .ok (some msg) →
      ∃ n, AscDriver.idColumn line = some n ∧ msg.id.toNat = n % 2 ^ 32 ∧
        ∀ m ∈ (parse qt files).findMessage msg.id, ∃ d, DbcId qt files m d ∧ d % 2 ^ 29 = n % 2 ^ 32) ∧
    ∀ b st, ∃ new, (Blf.parseObject b st).2.messages = st.messages ++ new ∧
      List.Forall₂ (fun msg o => msg.id.toNat = Blf.idField o % 2 ^ 29 ∧
        ∀ m ∈ (parse qt files).findMessage msg.id, ∃ d, DbcId qt files m d ∧ d % 2 ^ 29 = Blf.idField o % 2 ^ 29) new
        (Blf.firstCan b).toList := by
  constructor
  · intro line number msg h
    rcases copied_ok h with ⟨-, none⟩ | ⟨read, bytes, data, accept, same⟩
    · cases none
    · obtain rfl := Option.some.inj same
      obtain ⟨m, id, found, hid, -, storedId, -⟩ := AscDriver.accepted_spec accept
      obtain ⟨-, rfl⟩ := toUnsigned_some.mp hid
      have stored : read.id.toNat = numeral 16 (m.captured 3) % 2 ^ 32 := by
        rw [storedId, Nat.toUInt32, UInt32.toNat_ofNat']
      refine ⟨_, by rw [AscDriver.idColumn, found]; rfl, stored, fun m hm => ?_⟩
      obtain ⟨d, written, same⟩ := findMessage_dbcId hm
      exact ⟨d, written, same.trans stored⟩
  · intro b st
    refine ⟨_, Blf.parseObject_messages b st, ?_⟩
    cases Blf.firstCan b with
    | none => exact .nil
    | some o =>
      have stored : (Blf.readObject st.counter o).id.toNat = Blf.idField o % 2 ^ 29 := by
        rw [Blf.readObject, Blf.readCan_eq]
        change (removeExtMask (Blf.field _ 4 (o.drop 16))).toNat = _
        rw [removeExtMask_toNat, Blf.field_drop]
        rfl
      refine .cons ⟨stored, fun m hm => ?_⟩ .nil
      obtain ⟨d, written, same⟩ := findMessage_dbcId hm
      exact ⟨d, written, same.trans stored⟩

/-- A standard and an extended message of one number. -/
def sharedNumber : QString := "BO_ 256 A: 8 X\n\nBO_ 2147483904 B: 8 X\n".toList

def extendedLine : QString := "0.5 1 100x Rx d 1 00".toList

def extendedMessage : CanLogMsg where
  id := 0x100
  time := 1 / 2
  channel := 1
  dlc := 1
  dir := .tx

def extendedObject : Bytes :=
  Blf.lobj ++ [32, 0, 1, 0, 48, 0, 0, 0, 1, 0, 0, 0, 2, 0, 0, 0, 0, 0, 0, 0, 5, 0, 0, 0, 0, 0, 0, 0,
    1, 0, 0, 8, 0, 1, 0, 128, 0, 0, 0, 0, 0, 0, 0, 0]

theorem findMessage_number_shared :
    (∃ n, AscDriver.idColumn extendedLine = some n ∧ extendedMessage.id.toNat = n % 2 ^ 32 ∧
      ∀ m ∈ (parse plainBuild [some sharedNumber]).findMessage extendedMessage.id,
        ∃ d, DbcId plainBuild [some sharedNumber] m d ∧ d % 2 ^ 29 = n % 2 ^ 32) ∧
    ∃ new, (Blf.parseObject extendedObject {}).2.messages = new ∧
      List.Forall₂ (fun msg o => msg.id.toNat = Blf.idField o % 2 ^ 29 ∧
        ∀ m ∈ (parse plainBuild [some sharedNumber]).findMessage msg.id,
          ∃ d, DbcId plainBuild [some sharedNumber] m d ∧ d % 2 ^ 29 = Blf.idField o % 2 ^ 29) new [extendedObject] := by
  constructor
  · exact (findMessage_number plainBuild [some sharedNumber]).1 extendedLine 0 extendedMessage (by decide +kernel)
  · obtain ⟨new, messages, numbers⟩ := (findMessage_number plainBuild [some sharedNumber]).2 extendedObject {}
    have whole : Blf.firstCan extendedObject = some extendedObject := by decide +kernel
    rw [whole] at numbers
    exact ⟨new, messages, numbers⟩

theorem findMessage_number_extended :
    ¬ ∀ (qt : Qt) (files : List (Option QString)),
      (∀ line number msg, AscDriver.parseLine qt line number = .ok (some msg) →
        ∃ n, AscDriver.idColumn line = some n ∧ ∀ m ∈ (parse qt files).findMessage msg.id,
          ∃ d, DbcId qt files m d ∧ d % 2 ^ 29 = n ∧ (d.testBit 31 = true ↔ AscDriver.isExtended line = true)) ∧
      ∀ b st, ∃ new, (Blf.parseObject b st).2.messages = st.messages ++ new ∧
        List.Forall₂ (fun msg o => ∀ m ∈ (parse qt files).findMessage msg.id,
          ∃ d, DbcId qt files m d ∧ d % 2 ^ 29 = Blf.idField o % 2 ^ 29 ∧
            (d.testBit 31 = true ↔ (Blf.idField o).testBit 31 = true)) new (Blf.firstCan b).toList := by
  intro h
  obtain ⟨n, -, formats⟩ := (h plainBuild [some sharedNumber]).1 extendedLine 0 extendedMessage (by decide +kernel)
  have found : (parse plainBuild [some sharedNumber]).findMessage extendedMessage.id =
      some { id := 256, dlc := 8, name := "A".toList, sender := "X".toList } := by
    decide +kernel
  obtain ⟨d, ⟨text, inside, line, hline, read, written⟩, -, format⟩ := formats _ found
  obtain rfl := Option.some.inj (List.mem_singleton.mp inside)
  have standard : ∀ line ∈ readLines sharedNumber,
      boHeader plainBuild line = some (headerOf { id := 256, dlc := 8, name := "A".toList, sender := "X".toList }) →
        boId plainBuild line = some 256 := by
    decide +kernel
  obtain rfl := Option.some.inj ((standard line hline read).symm.trans written)
  have extended : AscDriver.isExtended extendedLine = true := by decide +kernel
  exact absurd (format.mpr extended) (by decide)

end Dbc
end CanTracer
