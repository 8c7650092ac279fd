import CanTracer.Regex.Language
import CanTracer.LogParser.Basic

/-!
# How much data a line carries

The DLC column and the data column of an accepted line against the message and the bytes copied
into it.
-/

namespace CanTracer

open Regex

structure Columns where
  dlc : QString
  data : QString
  deriving DecidableEq

namespace Columns

def length (c : Columns) : Nat := numeral 10 c.dlc

def digits (c : Columns) : Nat := c.data.countP fun d => (digitValue d).isSome

/-- The DLC column announces what the data column holds, two digits a byte or one digit less. -/
def Consistent (c : Columns) : Prop := c.length ≤ canMaxDlc ∧ (c.digits + 1) / 2 = c.length

instance (c : Columns) : Decidable c.Consistent := inferInstanceAs (Decidable (_ ∧ _))

end Columns

def TrcDriver.columns (line : QString) : Option Columns :=
  (search pattern line).map fun m => ⟨m.captured 5, m.captured 6⟩

def AscDriver.columns (line : QString) : Option Columns :=
  (search pattern line).map fun m => ⟨m.captured 5, m.captured 6⟩

structure Carries (c : Columns) (msg : CanLogMsg) (bytes : Bytes) : Prop where
  atMost : c.length ≤ canMaxDlc
  dlc : msg.dlc.toNat = c.length
  data : bytes.length = msg.dlc.toNat
  stored : ∃ msg', copyData msg bytes = .ok msg' ∧ msg'.data.toList.take msg'.dlc.toNat = bytes

theorem dataBytes_length (c : Columns) : (dataBytes c.data).length = (c.digits + 1) / 2 := by
  have blank : (fun d => if (d != ' ') = true then digitValue d else none) = digitValue := by
    funext d
    split
    · rfl
    · rename_i h
      rw [bne_iff_ne, ne_eq, not_not] at h
      rw [h]
      rfl
  rw [dataBytes, fromHex_length, List.filterMap_filter, blank, List.length_filterMap_eq_countP, Columns.digits]

theorem take_copy (d : CanData) {bytes : Bytes} (h : bytes.length ≤ canMaxDlc) :
    (d.copy bytes).toList.take bytes.length = bytes := by
  apply List.ext_getElem (by simpa using h)
  intro i hi hi'
  simp [CanData.copy, hi']

theorem carries_iff {c : Columns} {msg : CanLogMsg} (short : msg.dlc.toNat ≤ canMaxDlc)
    (dlc : c.length ≤ canMaxDlc → msg.dlc.toNat = c.length) : Carries c msg (dataBytes c.data) ↔ c.Consistent := by
  constructor
  · intro h
    exact ⟨h.atMost, by rw [← dataBytes_length, h.data, h.dlc]⟩
  · rintro ⟨atMost, digits⟩
    have bytes : (dataBytes c.data).length = msg.dlc.toNat := by rw [dataBytes_length, digits, dlc atMost]
    have inside : (dataBytes c.data).length ≤ canMaxDlc := by rw [bytes]; exact short
    refine ⟨atMost, dlc atMost, bytes, _, by rw [copyData, if_pos inside], ?_⟩
    rw [← bytes]
    exact take_copy _ inside

/-! ### Accepted lines -/

theorem setDir_id (msg : CanLogMsg) (str : QString) : (msg.setDir str).2.id = msg.id := by
  unfold CanLogMsg.setDir
  split_ifs <;> rfl

theorem guard_some {p : Prop} [Decidable p] {u : Unit} : (guard p : Option Unit) = some u ↔ p := by
  by_cases h : p <;> simp [guard, h, failure]

theorem TrcDriver.accepted_spec {qt : Qt} {line : QString} {msg : CanLogMsg} {bytes : Bytes}
    (h : accepted qt line = some (msg, bytes)) :
    ∃ m id dlc, search pattern line = some m ∧ toUInt (m.captured 4) 16 = some id ∧ toUInt (m.captured 5) 10 = some dlc ∧
      dlc.toUInt8.toNat ≤ canMaxDlc ∧ msg.id = id.toUInt32 ∧ msg.dlc = dlc.toUInt8 ∧
        bytes = dataBytes (m.captured 6) := by
  simp only [accepted, fields, Option.bind_eq_bind, Option.bind_eq_some_iff, Option.pure_def, Option.some.injEq,
    Prod.mk.injEq, guard_some] at h
  obtain ⟨-, -, m, found, -, -, -, -, -, -, id, hid, dlc, hdlc, -, short, rfl, rfl⟩ := h
  exact ⟨m, id, dlc, found, hid, hdlc, short, rfl, rfl, rfl⟩

theorem AscDriver.accepted_spec {qt : Qt} {number : UInt32} {line : QString} {msg : CanLogMsg}
    {bytes : Bytes} (h : accepted qt number line = some (msg, bytes)) :
    ∃ m id, search pattern line = some m ∧ toULong qt (m.captured 3) 16 = some id ∧
      ((toUInt (m.captured 5) 10).getD 0).toUInt8.toNat ≤ canMaxDlc ∧ msg.id = id.toUInt32 ∧
      msg.dlc = ((toUInt (m.captured 5) 10).getD 0).toUInt8 ∧ bytes = dataBytes (m.captured 6) := by
  simp only [accepted, fields, Option.bind_eq_bind, Option.bind_eq_some_iff, Option.pure_def, Option.some.injEq,
    Prod.mk.injEq, guard_some] at h
  obtain ⟨m, found, -, -, id, hid, -, -, -, short, rfl, rfl⟩ := h
  exact ⟨m, id, found, hid, short, setDir_id _ _, rfl, rfl⟩

theorem AscDriver.dlc_isDigit {line : QString} {m : Match} (found : search pattern line = some m) :
    ∀ c ∈ m.captured 5, isDigit c = true :=
  captured_within found (by simp [pattern, Re.cat, Re.plus, Re.char, Re.lit, Re.opt, Re.GroupWithin, Re.Within])

theorem toUInt8_toNat {n : Nat} (h : n ≤ canMaxDlc) : n.toUInt8.toNat = n := by
  rw [Nat.toUInt8_eq]
  exact UInt8.toNat_ofNat_of_lt' (Nat.lt_of_le_of_lt h (by decide))

theorem toUInt_short {s : QString} (h : ∀ c ∈ s, isDigit c = true) (short : numeral 10 s ≤ canMaxDlc) :
    (toUInt s 10).getD 0 = numeral 10 s := by
  cases s with
  | nil => rfl
  | cons c s =>
    have small : canMaxDlc ≤ 2 ^ 32 - 1 := by decide
    have converted : toUInt (c :: s) 10 = some (numeral 10 (c :: s)) :=
      toUnsigned_some.mpr ⟨⟨List.cons_ne_nil c s, all_digits h, Nat.le_trans short small⟩, rfl⟩
    rw [converted, Option.getD_some]

/-- An accepted line carries as much data as it announces exactly when its columns agree. -/
theorem accepted_carries_iff (qt : Qt) :
    (∀ line msg bytes, TrcDriver.accepted qt line = some (msg, bytes) →
      ∃ c, TrcDriver.columns line = some c ∧ (Carries c msg bytes ↔ c.Consistent)) ∧
    (∀ number line msg bytes, AscDriver.accepted qt number line = some (msg, bytes) →
      ∃ c, AscDriver.columns line = some c ∧ (Carries c msg bytes ↔ c.Consistent)) := by
  constructor
  · intro line msg bytes h
    obtain ⟨m, id, dlc, found, -, written, short, -, stored, rfl⟩ := TrcDriver.accepted_spec h
    refine ⟨⟨m.captured 5, m.captured 6⟩, by rw [TrcDriver.columns, found]; rfl,
      carries_iff (stored ▸ short) fun atMost => ?_⟩
    obtain ⟨-, rfl⟩ := toUnsigned_some.mp written
    rw [stored]
    exact toUInt8_toNat atMost
  · intro number line msg bytes h
    obtain ⟨m, id, found, -, short, -, stored, rfl⟩ := AscDriver.accepted_spec h
    refine ⟨⟨m.captured 5, m.captured 6⟩, by rw [AscDriver.columns, found]; rfl,
      carries_iff (stored ▸ short) fun atMost => ?_⟩
    rw [stored, toUInt_short (AscDriver.dlc_isDigit found) atMost]
    exact toUInt8_toNat atMost

def trcLine : QString := "     1)    118912.2  Rx     0CF00300  8  03 00 00 00 00 00 00 0A".toList

def ascLine : QString := "   0.5 1  CF00300x       Rx   d 2 01 F".toList

theorem accepted_carries_documented :
    (∃ c, TrcDriver.columns trcLine = some c ∧
      (Carries c { number := 1, id := 0x0CF00300, time := 1189122 / 10000, dlc := 8, dir := .tx } 
        [3, 0, 0, 0, 0, 0, 0, 10] ↔
        c.Consistent)) ∧
    ∃ c, AscDriver.columns ascLine = some c ∧
      (Carries c { number := 7, id := 0x0CF00300, time := 1 / 2, channel := 1, dlc := 2, dir := .tx } [0, 31] ↔
        c.Consistent) :=
  ⟨(accepted_carries_iff plainBuild).1 trcLine _ _ (by decide +kernel),
    (accepted_carries_iff plainBuild).2 7 ascLine _ _ (by decide +kernel)⟩

/-- The DLC is narrowed before it is compared with 8. -/
theorem accepted_carries_narrowed :
    ¬ ∀ qt : Qt,
      (∀ line msg bytes, TrcDriver.accepted qt line = some (msg, bytes) →
        ∃ c, TrcDriver.columns line = some c ∧ Carries c msg bytes) ∧
      (∀ number line msg bytes, AscDriver.accepted qt number line = some (msg, bytes) →
        ∃ c, AscDriver.columns line = some c ∧ Carries c msg bytes) := by
  intro h
  obtain ⟨c, columns, carries⟩ := (h plainBuild).1 "1) 1.0 Rx 0100 264 11 22 33 44 55 66 77 88".toList
    { number := 1, id := 0x100, time := 1 / 1000, dlc := 8, dir := .tx }
    [17, 34, 51, 68, 85, 102, 119, 136] (by decide +kernel)
  have written : TrcDriver.columns "1) 1.0 Rx 0100 264 11 22 33 44 55 66 77 88".toList =
      some ⟨"264".toList, "11 22 33 44 55 66 77 88".toList⟩ := by
    decide +kernel
  rw [written] at columns
  obtain rfl := Option.some.inj columns
  exact absurd carries.atMost (by decide)

end CanTracer
