import CanTracer.Dbc.Origins

/-!
# Numbers as written

Each number of a line is converted at one width, and the conversion is checked; the value is then
stored at a smaller width without a check. A stored number is the one written exactly when it fits.
-/

namespace CanTracer.Dbc

open Regex

/-- The identifier and the number of data bytes on a `BO_` line, as written. -/
def boNumbers (line : QString) : Option (Nat × Nat) :=
  (search messagePattern line).map fun m => (numeral 10 (m.captured 1), numeral 10 (m.captured 3))

/-- The start bit and the length on an `SG_` line, as written. -/
def sgNumbers (line : QString) : Option (Nat × Nat) :=
  (search signalPattern line).map fun m => (numeral 10 (m.captured 2), numeral 10 (m.captured 3))

/-- A message with the numbers of the lines it comes from. Of the identifier the low 29 bits are
kept; one that takes more than 32 bits should not be there. -/
structure AsWritten (lines : List QString) (o : Origin) (m : CanMessage) : Prop where
  header : ∃ id dlc, lines[o.bo]?.bind boNumbers = some (id, dlc) ∧ id < 2 ^ 32 ∧ m.id.toNat = id % 2 ^ 29 ∧
    m.dlc.toNat = dlc
  signals : (o.sgs.map fun k => lines[k]?.bind sgNumbers) =
    m.canSignals.map fun s => some (s.startBit.toNat, s.len.toNat)

structure NumbersFit (lines : List QString) (o : Origin) : Prop where
  header : ∀ id dlc, lines[o.bo]?.bind boNumbers = some (id, dlc) → id < 2 ^ 32 ∧ dlc < 2 ^ 8
  signals : ∀ k ∈ o.sgs, ∀ start len, lines[k]?.bind sgNumbers = some (start, len) → start < 2 ^ 8 ∧ len < 2 ^ 8

/-! ### What a line stores -/

variable {qt : Qt} {line : QString} {lines : List QString}

theorem boHeader_numbers {h : Header} (read : boHeader qt line = some h) :
    ∃ id dlc, boNumbers line = some (id, dlc) ∧ h.id.toNat = id % 2 ^ 29 ∧ h.dlc.toNat = dlc % 2 ^ 8 := by
  simp only [boHeader, Option.bind_eq_bind, Option.bind_eq_some_iff, Option.pure_def, Option.some.injEq] at read
  obtain ⟨m, found, id, hid, dlc, hdlc, rfl⟩ := read
  obtain ⟨-, rfl⟩ := toUnsigned_some.mp hid
  obtain ⟨-, rfl⟩ := toUnsigned_some.mp hdlc
  refine ⟨_, _, by rw [boNumbers, found]; rfl, removeExtMask_toNat _, UInt8.toNat_ofNat'⟩

theorem sgSignal_numbers {s : CanSignal} (read : sgSignal qt line = some s) :
    ∃ start len, sgNumbers line = some (start, len) ∧ s.startBit.toNat = start % 2 ^ 8 ∧ s.len.toNat = len % 2 ^ 8 := by
  simp only [sgSignal, readSignal, Option.bind_eq_bind, Option.bind_eq_some_iff, Option.pure_def,
    Option.some.injEq] at read
  obtain ⟨m, found, start, hstart, len, hlen, -, -, -, -, -, -, -, -, -, -, rfl⟩ := read
  obtain ⟨-, rfl⟩ := toUnsigned_some.mp hstart
  obtain ⟨-, rfl⟩ := toUnsigned_some.mp hlen
  exact ⟨_, _, by rw [sgNumbers, found]; rfl, UInt8.toNat_ofNat', UInt8.toNat_ofNat'⟩

/-! ### Messages and their signals -/

theorem signals_asWritten_iff {ks : List Nat} {ss : List CanSignal}
    (read : (ss.map fun s => some s.bare) = ks.map fun k => lines[k]?.bind (sgSignal qt)) :
    ((ks.map fun k => lines[k]?.bind sgNumbers) = ss.map fun s => some (s.startBit.toNat, s.len.toNat)) ↔
      ∀ k ∈ ks, ∀ start len, lines[k]?.bind sgNumbers = some (start, len) → start < 2 ^ 8 ∧ len < 2 ^ 8 := by
  induction ks generalizing ss with
  | nil =>
    rw [List.map_nil, List.map_eq_nil_iff] at read
    subst read
    exact iff_of_true rfl nofun
  | cons k ks ih =>
    cases ss with
    | nil => cases read
    | cons s ss =>
      rw [List.map_cons, List.map_cons, List.cons.injEq] at read
      obtain ⟨line, here, was⟩ := Option.bind_eq_some_iff.mp read.1.symm
      obtain ⟨start, len, numbers, hstart, hlen⟩ := sgSignal_numbers was
      have written : lines[k]?.bind sgNumbers = some (start, len) := by rw [here]; exact numbers
      have one : some (start, len) = some (s.startBit.toNat, s.len.toNat) ↔ start < 2 ^ 8 ∧ len < 2 ^ 8 := by
        change s.startBit.toNat = _ at hstart
        change s.len.toNat = _ at hlen
        rw [Option.some.injEq, Prod.mk.injEq, hstart, hlen, eq_comm, Nat.mod_eq_iff_lt (by decide), eq_comm,
          Nat.mod_eq_iff_lt (by decide)]
      rw [List.map_cons, List.map_cons, List.cons.injEq, List.forall_mem_cons, ih read.2, written, one]
      apply and_congr_left'
      constructor
      · rintro fits start' len' ⟨⟩
        exact fits
      · intro fits
        exact fits start len rfl

theorem ComesFrom.asWritten_iff {o : Origin} {m : CanMessage} (h : ComesFrom qt lines o m) :
    AsWritten lines o m ↔ NumbersFit lines o := by
  obtain ⟨line, here, read⟩ := Option.bind_eq_some_iff.mp h.header
  obtain ⟨id, dlc, numbers, hid, hdlc⟩ := boHeader_numbers read
  have written : lines[o.bo]?.bind boNumbers = some (id, dlc) := by rw [here]; exact numbers
  change m.id.toNat = _ at hid
  change m.dlc.toNat = _ at hdlc
  constructor
  · intro same
    refine ⟨?_, (signals_asWritten_iff h.signals).mp same.signals⟩
    rw [written]
    rintro id' dlc' ⟨⟩
    obtain ⟨id', dlc', found, small, -, count⟩ := same.header
    rw [written] at found
    cases found
    exact ⟨small, (Nat.mod_eq_iff_lt (by decide)).mp (hdlc.symm.trans count)⟩
  · intro fits
    obtain ⟨small, short⟩ := fits.header id dlc written
    exact ⟨⟨id, dlc, written, small, hid, hdlc.trans (Nat.mod_eq_of_lt short)⟩,
      (signals_asWritten_iff h.signals).mpr fits.signals⟩

theorem comesFrom_asWritten_iff {os : List Origin} {ms : List CanMessage}
    (h : List.Forall₂ (ComesFrom qt lines) os ms) :
    List.Forall₂ (AsWritten lines) os ms ↔ ∀ o ∈ os, NumbersFit lines o := by
  induction h with
  | nil => exact iff_of_true .nil nofun
  | cons head _ ih => rw [List.forall₂_cons, List.forall_mem_cons, head.asWritten_iff, ih]

/-! ### The parser -/

/-- The messages of a text have the numbers of their lines exactly when those of the lines that are
stored fit: an identifier 32 bits, and the number of data bytes, a start bit and a length 8 bits. -/
theorem parseStream_asWritten_iff (qt : Qt) (text : QString) (db : CanDb) :
    ∃ old new, (parseStream qt text db).db = old ++ new ∧ List.Forall₂ CanMessage.Extends db.db old ∧
      List.Forall₂ (ComesFrom qt (readLines text)) (originsOf [] (blocks qt (readLines text))) new ∧
      (List.Forall₂ (AsWritten (readLines text)) (originsOf [] (blocks qt (readLines text))) new ↔
        ∀ o ∈ originsOf [] (blocks qt (readLines text)), NumbersFit (readLines text) o) := by
  obtain ⟨old, new, whole, kept, added⟩ := parseStream_comesFrom qt text db
  rw [origins_blocks] at added
  exact ⟨old, new, whole, kept, added, comesFrom_asWritten_iff added⟩

def wideText : QString := "BO_ 1 A: 264 X\n".toList

/-- 264 data bytes are checked at 16 bits, and 8 are stored. -/
theorem parseStream_asWritten_wide :
    ¬ ∀ (qt : Qt) (text : QString) (db : CanDb) (old new : List CanMessage),
      (parseStream qt text db).db = old ++ new → List.Forall₂ CanMessage.Extends db.db old →
      List.Forall₂ (AsWritten (readLines text)) (originsOf [] (blocks qt (readLines text))) new := by
  intro h
  have written : (originsOf [] (blocks plainBuild (readLines wideText))).map
      (fun o => (readLines wideText)[o.bo]?.bind boNumbers) = [some (1, 264)] := by decide +kernel
  have stored : (parseStream plainBuild wideText {}).db.map (·.dlc.toNat) = [8] := by decide +kernel
  have all := h plainBuild wideText {} [] (parseStream plainBuild wideText {}).db rfl .nil
  generalize originsOf [] (blocks plainBuild (readLines wideText)) = os,
    (parseStream plainBuild wideText {}).db = ms at all written stored
  cases all with
  | nil => cases written
  | cons head _ =>
    obtain ⟨id, dlc, found, -, -, same⟩ := head.header
    rw [List.map_cons, List.cons.injEq, found] at written
    rw [List.map_cons, List.cons.injEq, same] at stored
    cases written.1
    exact absurd stored.1 (by decide)

end CanTracer.Dbc
