import CanTracer.Blf.Growing
import CanTracer.LogParser.Direction

/-!
# Logs that grow

A text log is read line by line, so what has been read stays when more lines are appended. ASC messages
are numbered by the driver, TRC messages carry their numbers.
-/

namespace CanTracer

open Regex

/-! ### Drivers -/

namespace TextDriver

variable {σ : Type} (driver : TextDriver σ)

/-- `parseLines` with the state that the driver is left in. -/
def parseOn : List QString → σ → Except Failure (List CanLogMsg × σ)
  | [], s => .ok ([], s)
  | line :: lines, s => do
    match ← driver.parseLine line s with
    | none => parseOn lines s
    | some (msg, s) => (parseOn lines s).map fun r => (msg :: r.1, r.2)

theorem parseLines_eq (lines : List QString) : ∀ s, driver.parseLines lines s = (driver.parseOn lines s).map (·.1) := by
  induction lines with
  | nil => exact fun s => rfl
  | cons line lines ih =>
    intro s
    rw [parseLines, parseOn]
    cases driver.parseLine line s with
    | error e => rfl
    | ok r =>
      cases r with
      | none => exact ih s
      | some r =>
        change (driver.parseLines lines r.2 >>= fun msgs => _) = ((driver.parseOn lines r.2).map _).map _
        rw [ih]
        cases driver.parseOn lines r.2 <;> rfl

theorem parseOn_append (lines more : List QString) :
    ∀ s, driver.parseOn (lines ++ more) s =
      driver.parseOn lines s >>= fun r => (driver.parseOn more r.2).map fun r' => (r.1 ++ r'.1, r'.2) := by
  induction lines with
  | nil =>
    intro s
    rw [List.nil_append, parseOn, ok_bind]
    cases driver.parseOn more s <;> rfl
  | cons line lines ih =>
    intro s
    rw [List.cons_append, parseOn, parseOn]
    cases driver.parseLine line s with
    | error e => rfl
    | ok r =>
      cases r with
      | none => exact ih s
      | some r =>
        change (driver.parseOn (lines ++ more) r.2).map _ = (driver.parseOn lines r.2).map _ >>= _
        rw [ih]
        cases driver.parseOn lines r.2 with
        | error e => rfl
        | ok r' =>
          change ((driver.parseOn more r'.2).map _).map _ = (driver.parseOn more r'.2).map _
          cases driver.parseOn more r'.2 <;> rfl

end TextDriver

/-! ### Numbers -/

def CanLogMsg.renumber (k : UInt32) (msg : CanLogMsg) : CanLogMsg := { msg with number := msg.number + k }

theorem CanLogMsg.renumber_zero (msg : CanLogMsg) : msg.renumber 0 = msg := by
  rw [renumber, UInt32.add_zero]

theorem setDir_number (msg : CanLogMsg) (str : QString) : (msg.setDir str).2.number = msg.number := by
  unfold CanLogMsg.setDir
  split_ifs <;> rfl

namespace AscDriver

theorem setDir_renumber (msg : CanLogMsg) (k : UInt32) (str : QString) :
    (msg.renumber k).setDir str = ((msg.setDir str).1, (msg.setDir str).2.renumber k) := by
  unfold CanLogMsg.setDir
  split
  · rfl
  · split <;> rfl

/-- What `fields` does after the direction. -/
def finish (m : Match) (turned : Bool × CanLogMsg) : Option (CanLogMsg × Bytes) := do
  guard turned.1
  let dlc := (toUInt (m.captured 5) 10).getD 0
  guard (dlc.toUInt8.toNat ≤ canMaxDlc)
  return ({ turned.2 with dlc := dlc.toUInt8 }, dataBytes (m.captured 6))

theorem finish_renumber (m : Match) (k : UInt32) (ok : Bool) (msg : CanLogMsg) :
    finish m (ok, msg.renumber k) = (finish m (ok, msg)).map fun r => (r.1.renumber k, r.2) := by
  unfold finish
  cases ok with
  | false => rfl
  | true =>
    dsimp only
    generalize (guard (((toUInt (m.captured 5) 10).getD 0).toUInt8.toNat ≤ canMaxDlc) : Option Unit) = short
    cases short <;> rfl

theorem fields_renumber (qt : Qt) (number k : UInt32) (m : Match) :
    fields qt (number + k) m = (fields qt number m).map fun r => (r.1.renumber k, r.2) := by
  unfold fields
  cases qt.toDouble (m.captured 1) with
  | none => rfl
  | some time =>
    cases toULong qt (m.captured 3) 16 with
    | none => rfl
    | some id =>
      let channel := if m.captured 2 = [] then 0 else (toUInt (m.captured 2) 10).getD 0
      let msg : CanLogMsg := { number := number, time := time, channel := channel.toUInt8, id := id.toUInt32 }
      change finish m ((msg.renumber k).setDir (m.captured 4)) = (finish m (msg.setDir (m.captured 4))).map _
      rw [setDir_renumber, finish_renumber]

theorem accepted_renumber (qt : Qt) (number k : UInt32) (line : QString) :
    accepted qt (number + k) line = (accepted qt number line).map fun r => (r.1.renumber k, r.2) := by
  unfold accepted
  cases search pattern line with
  | none => rfl
  | some m => exact fields_renumber qt number k m

theorem copyData_renumber (msg : CanLogMsg) (k : UInt32) (data : Bytes) :
    copyData (msg.renumber k) data = (copyData msg data).map (·.renumber k) := by
  unfold copyData
  split <;> rfl

theorem parseLine_renumber (qt : Qt) (line : QString) (number k : UInt32) :
    parseLine qt line (number + k) = (parseLine qt line number).map fun r => r.map (·.renumber k) := by
  unfold parseLine
  rw [accepted_renumber]
  cases accepted qt number line with
  | none => rfl
  | some r =>
    change (copyData (r.1.renumber k) r.2).map some = _
    rw [copyData_renumber]
    change _ = ((copyData r.1 r.2).map some).map _
    cases copyData r.1 r.2 <;> rfl

theorem parseOn_renumber (qt : Qt) (k : UInt32) (lines : List QString) :
    ∀ number, (driver qt).parseOn lines (number + k) =
      ((driver qt).parseOn lines number).map fun r => (r.1.map (·.renumber k), r.2 + k) := by
  induction lines with
  | nil => exact fun number => rfl
  | cons line lines ih =>
    intro number
    rw [TextDriver.parseOn, TextDriver.parseOn]
    change ((parseLine qt line (number + k)).map _ >>= _) = ((parseLine qt line number).map _ >>= _).map _
    rw [parseLine_renumber]
    cases parseLine qt line number with
    | error e => rfl
    | ok r =>
      cases r with
      | none => exact ih number
      | some msg =>
        change ((driver qt).parseOn lines (number + k + 1)).map _ = (((driver qt).parseOn lines (number + 1)).map _).map _
        rw [UInt32.add_assoc, UInt32.add_comm k 1, ← UInt32.add_assoc, ih]
        cases (driver qt).parseOn lines (number + 1) <;> rfl

theorem parseOn_end (qt : Qt) (lines : List QString) :
    ∀ number r, (driver qt).parseOn lines number = .ok r → r.2 = number + r.1.length.toUInt32 := by
  induction lines with
  | nil =>
    intro number r h
    obtain rfl := Except.ok.inj h
    exact (UInt32.add_zero number).symm
  | cons line lines ih =>
    intro number r h
    rw [TextDriver.parseOn] at h
    obtain ⟨read, readOk, h⟩ := bind_ok h
    cases read with
    | none => exact ih number r h
    | some next =>
      obtain ⟨later, rest, rfl⟩ := map_ok h
      obtain ⟨line, -, advanced⟩ := map_ok readOk
      cases line with
      | none => cases advanced
      | some msg =>
        obtain rfl := Option.some.inj advanced
        change later.2 = number + UInt32.ofNat (later.1.length + 1)
        rw [ih _ later rest, UInt32.ofNat_add, UInt32.add_comm (UInt32.ofNat _), ← UInt32.add_assoc]
        rfl

theorem accepted_number {qt : Qt} {number : UInt32} {line : QString} {msg : CanLogMsg} {bytes : Bytes}
    (h : accepted qt number line = some (msg, bytes)) : msg.number = number := by
  simp only [accepted, fields, Option.bind_eq_bind, Option.bind_eq_some_iff, Option.pure_def, Option.some.injEq,
    Prod.mk.injEq, guard_some] at h
  obtain ⟨m, -, time, -, id, -, -, -, -, -, rfl, -⟩ := h
  exact setDir_number _ _

theorem parseOn_numbers (qt : Qt) (lines : List QString) :
    ∀ number r, (driver qt).parseOn lines number = .ok r →
      r.1.map (·.number) = (List.range r.1.length).map fun i => number + UInt32.ofNat i := by
  induction lines with
  | nil =>
    intro number r h
    obtain rfl := Except.ok.inj h
    rfl
  | cons line lines ih =>
    intro number r h
    rw [TextDriver.parseOn] at h
    obtain ⟨read, readOk, h⟩ := bind_ok h
    cases read with
    | none => exact ih number r h
    | some next =>
      obtain ⟨later, rest, rfl⟩ := map_ok h
      obtain ⟨read, line, advanced⟩ := map_ok readOk
      cases read with
      | none => cases advanced
      | some msg =>
        obtain rfl := Option.some.inj advanced
        have own : msg.number = number := by
          rcases copied_ok line with ⟨-, none⟩ | ⟨read, bytes, data, accept, same⟩
          · cases none
          · obtain rfl := Option.some.inj same
            have own := accepted_number accept
            exact own
        rw [List.map_cons, List.length_cons, List.range_succ_eq_map, List.map_cons, List.map_map, ih _ later rest, own]
        refine congrArg₂ _ (UInt32.add_zero number).symm (List.map_congr_left fun i _ => ?_)
        change number + 1 + UInt32.ofNat i = number + UInt32.ofNat (i + 1)
        rw [UInt32.ofNat_add, UInt32.add_comm (UInt32.ofNat i), ← UInt32.add_assoc]
        rfl

end AscDriver

/-! ### Files -/

/-- By how much the messages of a text move when it follows a text with `count` messages. -/
def Format.shift (format : Format) (count : Nat) : UInt32 :=
  match format with
  | .asc => count.toUInt32
  | .trc | .blf => 0

theorem AscDriver.parse_append (qt : Qt) {text : QString} (whole : WholeLines text) (more : QString) (a b c : Bytes) :
    (driver qt).parse (some ⟨a, text ++ more⟩) = do
      let msgs ← (driver qt).parse (some ⟨b, text⟩)
      let later ← (driver qt).parse (some ⟨c, more⟩)
      return msgs ++ later.map (·.renumber msgs.length.toUInt32) := by
  rw [TextDriver.parse, TextDriver.parse, TextDriver.parse, readLines_append whole]
  simp only [TextDriver.parseLines_eq, TextDriver.parseOn_append]
  cases first : (driver qt).parseOn (readLines text) (driver qt).start with
  | error e => rfl
  | ok r =>
    have moved := parseOn_renumber qt r.1.length.toUInt32 (readLines more) (driver qt).start
    rw [← parseOn_end qt _ _ _ first] at moved
    change (((driver qt).parseOn (readLines more) r.2).map _).map _ = _
    rw [moved]
    change _ = ((driver qt).parseOn (readLines more) (driver qt).start).map _ >>= _
    cases (driver qt).parseOn (readLines more) (driver qt).start <;> rfl

theorem TrcDriver.parse_append (qt : Qt) {text : QString} (whole : WholeLines text) (more : QString) (a b c : Bytes) :
    (driver qt).parse (some ⟨a, text ++ more⟩) = do
      let msgs ← (driver qt).parse (some ⟨b, text⟩)
      let later ← (driver qt).parse (some ⟨c, more⟩)
      return msgs ++ later := by
  rw [TextDriver.parse, TextDriver.parse, TextDriver.parse, readLines_append whole]
  simp only [TextDriver.parseLines_eq, TextDriver.parseOn_append]
  cases (driver qt).parseOn (readLines text) (driver qt).start with
  | error e => rfl
  | ok r =>
    change (((driver qt).parseOn (readLines more) (driver qt).start).map _).map _ =
      ((driver qt).parseOn (readLines more) (driver qt).start).map _ >>= _
    cases (driver qt).parseOn (readLines more) (driver qt).start <;> rfl

/-- A text log that goes on after whole lines gives the messages of both parts, and the first part that fails
makes the whole fail in its way. Only ASC messages move: their numbers go on from the first part. -/
theorem parse_appended (qt : Qt) (fuel : Nat) {name : QString} {format : Format} (named : formatOf name = some format)
    (textual : format ≠ .blf) {text : QString} (whole : WholeLines text) (more : QString) (a b c : Bytes) :
    ∃ first second, Parser.parse qt fuel name (some ⟨a, text⟩) = some first ∧
      Parser.parse qt fuel name (some ⟨b, more⟩) = some second ∧
      Parser.parse qt fuel name (some ⟨c, text ++ more⟩) = some (do
        let msgs ← first
        let later ← second
        return msgs ++ later.map (·.renumber (format.shift msgs.length))) := by
  cases format with
  | asc =>
    refine ⟨(AscDriver.driver qt).parse (some ⟨a, text⟩), (AscDriver.driver qt).parse (some ⟨b, more⟩), ?_, ?_, ?_⟩
    · rw [Parser.parse, named]
    · rw [Parser.parse, named]
    · rw [Parser.parse, named, AscDriver.parse_append qt whole more c a b]
      rfl
  | trc =>
    refine ⟨(TrcDriver.driver qt).parse (some ⟨a, text⟩), (TrcDriver.driver qt).parse (some ⟨b, more⟩), ?_, ?_, ?_⟩
    · rw [Parser.parse, named]
    · rw [Parser.parse, named]
    · rw [Parser.parse, named, TrcDriver.parse_append qt whole more c a b]
      simp only [Format.shift, CanLogMsg.renumber_zero, List.map_id']
  | blf => exact absurd rfl textual

/-- A log of two lines, of which the second breaks off. -/
theorem parse_appended_brokenOff :
    ∃ first second,
      Parser.parse plainBuild 0 "a.ASC".toList (some ⟨[], ascLine ++ ['\n']⟩) = some first ∧
      Parser.parse plainBuild 0 "a.ASC".toList (some ⟨[], ascLine.take 20⟩) = some second ∧
      Parser.parse plainBuild 0 "a.ASC".toList (some ⟨[], (ascLine ++ ['\n']) ++ ascLine.take 20⟩) = some (do
        let msgs ← first
        let later ← second
        return msgs ++ later.map (·.renumber (Format.shift .asc msgs.length))) :=
  parse_appended plainBuild 0 (by decide) (by decide) (.inr (by decide)) (ascLine.take 20) [] [] []

/-- Whatever lines, containers and objects are passed over, the messages of an ASC or BLF file are numbered
without a gap from 0. -/
theorem parse_numbered {qt : Qt} {fuel : Nat} {name : QString} {format : Format} (named : formatOf name = some format)
    (counted : format ≠ .trc) {file : File} {msgs : List CanLogMsg}
    (parsed : Parser.parse qt fuel name (some file) = some (.ok msgs)) :
    msgs.map (·.number) = (List.range msgs.length).map UInt32.ofNat := by
  rw [Parser.parse, named] at parsed
  cases format with
  | asc =>
    have read : (AscDriver.driver qt).parse (some file) = .ok msgs := Option.some.inj parsed
    rw [TextDriver.parse, TextDriver.parseLines_eq] at read
    obtain ⟨r, lines, rfl⟩ := map_ok read
    rw [AscDriver.parseOn_numbers qt _ _ r lines]
    exact List.map_congr_left fun i _ => UInt32.zero_add _
  | trc => exact absurd rfl counted
  | blf => exact Blf.parse_numbers parsed

def ascMessage (number : UInt32) : CanLogMsg :=
  { number := number, id := 0x0CF00300, time := 1 / 2, channel := 1, dlc := 2, dir := .tx, data := #v[0, 31, 0, 0, 0, 0, 0, 0] }

/-- Two messages with a line between them that is not accepted. -/
theorem parse_numbered_passedOver :
    [ascMessage 0, ascMessage 1].map (·.number) = (List.range 2).map UInt32.ofNat := by
  have named : formatOf "a.asc".toList = some .asc := by decide
  have parsed : Parser.parse plainBuild 0 "a.asc".toList
      (some ⟨[], ascLine ++ "\nStart of measurement\n".toList ++ ascLine⟩) = some (.ok [ascMessage 0, ascMessage 1]) := by
    decide +kernel
  exact parse_numbered named (by decide) parsed

end CanTracer
