import CanTracer.Blf.Calls
import CanTracer.CanLogModel
import CanTracer.CanMsg.Extract
import CanTracer.LogParser.Columns

/-!
# Well-formed messages

What the decoder and the log table rely on in a message, and which files give it: the text drivers
check the DLC and leave the identifier, the BLF parser masks the identifier and leaves the DLC.
-/

namespace CanTracer

open Regex

/-! ### What is relied on -/

namespace CanSignal

theorem parseSignal_inRange (signal : CanSignal) (input : CanData) {dlc : UInt8}
    (h : dlc.toNat ≤ canMaxDlc) :
    signal.parseSignal input dlc ≠ .error .outOfRange := by
  unfold parseSignal
  split
  · nofun
  · rename_i inside
    have fits : signal.startBit.toNat + signal.len.toNat ≤ 64 := by
      unfold canMaxDlc at h
      unfold bitsInByte at inside
      omega
    rw [raw_eq signal input fits]
    exact bind_ne_error (assemble_ne_error (by decide) _ _) fun raw =>
      bind_ne_error (integer_ne_error (by decide) signal raw) fun _ => nofun

end CanSignal

structure WellFormed (msg : CanLogMsg) : Prop where
  dlc : msg.dlc.toNat ≤ canMaxDlc
  id : msg.id ≤ 0x1FFFFFFF
  decoded : ∀ signal : CanSignal, signal.parseSignal msg.data msg.dlc ≠ .error .outOfRange
  shown : ∃ text, dataColumn msg = .ok text

theorem wellFormed_iff (msg : CanLogMsg) :
    WellFormed msg ↔ msg.dlc.toNat ≤ canMaxDlc ∧ msg.id ≤ 0x1FFFFFFF :=
  ⟨fun h => ⟨h.dlc, h.id⟩,
    fun ⟨dlc, id⟩ => ⟨dlc, id, fun signal => signal.parseSignal_inRange msg.data dlc, dataColumn_ok dlc⟩⟩

/-! ### Lines -/

theorem copied_ok {a : Option (CanLogMsg × Bytes)} {r : Option CanLogMsg}
    (h : (match a with | none => .ok none | some (msg, data) => (copyData msg data).map some) = Except.ok r) :
    (a = none ∧ r = none) ∨ ∃ msg bytes data, a = some (msg, bytes) ∧ r = some { msg with data := data } := by
  cases a with
  | none => exact .inl ⟨rfl, (Except.ok.inj h).symm⟩
  | some pair =>
    obtain ⟨msg, bytes⟩ := pair
    refine .inr ⟨msg, bytes, ?_⟩
    unfold copyData at h
    dsimp only at h
    split at h
    · exact ⟨_, rfl, (Except.ok.inj h).symm⟩
    · cases h

theorem TextDriver.parseLines_iff {σ : Type} (driver : TextDriver σ) {P : CanLogMsg → Prop}
    {Q : QString → Prop}
    (one : ∀ line s r, driver.parseLine line s = .ok r → ((∀ x ∈ r, P x.1) ↔ Q line)) (lines : List QString) :
    ∀ s msgs, driver.parseLines lines s = .ok msgs → ((∀ msg ∈ msgs, P msg) ↔ ∀ line ∈ lines, Q line) := by
  induction lines with
  | nil =>
    intro s msgs h
    obtain rfl := Except.ok.inj h
    simp
  | cons line lines ih =>
    intro s msgs h
    rw [parseLines] at h
    obtain ⟨r, read, h⟩ := bind_ok h
    have first := one line s r read
    cases r with
    | none =>
      rw [List.forall_mem_cons, ← first, ih s msgs h]
      simp
    | some x =>
      obtain ⟨later, rest, h⟩ := bind_ok h
      obtain rfl := Except.ok.inj h
      rw [List.forall_mem_cons, List.forall_mem_cons, ← first, ih x.2 later rest]
      simp

def TrcDriver.idColumn (line : QString) : Option Nat := (search pattern line).map fun m => numeral 16 (m.captured 4)

def AscDriver.idColumn (line : QString) : Option Nat := (search pattern line).map fun m => numeral 16 (m.captured 3)

def TrcDriver.accepts (qt : Qt) (line : QString) : Bool := (accepted qt line).isSome

def AscDriver.accepts (qt : Qt) (line : QString) : Bool := (accepted qt 0 line).isSome

theorem bind_isSome {α β : Type} {x : Option α} {f g : α → Option β}
    (h : ∀ a, (f a).isSome = (g a).isSome) :
    (x >>= f).isSome = (x >>= g).isSome := by
  cases x with
  | none => rfl
  | some a => exact h a

theorem setDir_fst (msg msg' : CanLogMsg) (str : QString) : (msg.setDir str).1 = (msg'.setDir str).1 := by
  unfold CanLogMsg.setDir
  split_ifs <;> rfl

theorem AscDriver.accepts_eq (qt : Qt) (number : UInt32) (line : QString) :
    (accepted qt number line).isSome = accepts qt line := by
  refine bind_isSome fun m => bind_isSome fun time => bind_isSome fun id => ?_
  simp only
  rw [setDir_fst _ {}, setDir_fst { number := 0, time := time, channel := _, id := _ } {}]
  exact bind_isSome fun _ => bind_isSome fun _ => rfl

theorem toUInt32_le {n : Nat} : n.toUInt32 ≤ 0x1FFFFFFF ↔ n % 2 ^ 32 ≤ 0x1FFFFFFF := by
  rw [UInt32.le_iff_toNat_le, Nat.toUInt32, UInt32.toNat_ofNat']
  rfl

theorem TrcDriver.line_iff (qt : Qt) (line : QString) (s : Unit) (r : Option (CanLogMsg × Unit))
    (h : (driver qt).parseLine line s = .ok r) :
    (∀ x ∈ r, WellFormed x.1) ↔ (accepts qt line → ∀ n ∈ idColumn line, n ≤ 0x1FFFFFFF) := by
  obtain ⟨o, parsed, rfl⟩ := map_ok h
  rw [parseLine] at parsed
  split at parsed
  · cases parsed
  · rcases copied_ok parsed with ⟨rejected, rfl⟩ | ⟨msg, bytes, data, accept, rfl⟩
    · simp [accepts, rejected]
    · obtain ⟨m, id, dlc, found, hid, -, short, storedId, storedDlc, -⟩ := accepted_spec accept
      obtain ⟨-, rfl⟩ := toUnsigned_some.mp hid
      have bound : numeral 16 (m.captured 4) < 2 ^ 32 := Nat.lt_of_le_of_lt (toUnsigned_le hid) (by decide)
      simp only [accepts, accept, idColumn, found, Option.isSome_some, Option.map_some, Option.mem_some_iff, forall_eq',
        forall_const, wellFormed_iff, storedId, storedDlc, toUInt32_le, Nat.mod_eq_of_lt bound, short, true_and]

theorem AscDriver.line_iff (qt : Qt) (line : QString) (number : UInt32) (r : Option (CanLogMsg × UInt32))
    (h : (driver qt).parseLine line number = .ok r) :
    (∀ x ∈ r, WellFormed x.1) ↔ (accepts qt line → ∀ n ∈ idColumn line, n % 2 ^ 32 ≤ 0x1FFFFFFF) := by
  obtain ⟨o, parsed, rfl⟩ := map_ok h
  rw [parseLine] at parsed
  rw [← accepts_eq qt number]
  rcases copied_ok parsed with ⟨rejected, rfl⟩ | ⟨msg, bytes, data, accept, rfl⟩
  · simp [rejected]
  · obtain ⟨m, id, found, hid, short, storedId, storedDlc, -⟩ := accepted_spec accept
    obtain ⟨-, rfl⟩ := toUnsigned_some.mp hid
    simp only [accept, idColumn, found, Option.isSome_some, Option.map_some, Option.mem_some_iff, forall_eq',
      forall_const, wellFormed_iff, storedId, storedDlc, toUInt32_le, short, true_and]

/-! ### Files -/

/-- The identifiers of a text log and the DLCs of a binary log are in range. -/
def Fits (qt : Qt) (fuel : Nat) (name : QString) (file : File) : Prop :=
  match formatOf name with
  | some .trc => ∀ line ∈ readLines file.text, TrcDriver.accepts qt line → ∀ n ∈ TrcDriver.idColumn line, n ≤ 0x1FFFFFFF
  | some .asc =>
    ∀ line ∈ readLines file.text, AscDriver.accepts qt line → ∀ n ∈ AscDriver.idColumn line, n % 2 ^ 32 ≤ 0x1FFFFFFF
  | some .blf => ∀ b ∈ Blf.fileCalls qt fuel file.bytes, ∀ dlc ∈ Blf.canDlc b, dlc.toNat ≤ canMaxDlc
  | none => True

theorem parse_wellFormed_iff {qt : Qt} {fuel : Nat} {name : QString} {file : File} {msgs : List CanLogMsg}
    (h : Parser.parse qt fuel name (some file) = some (.ok msgs)) :
    (∀ msg ∈ msgs, WellFormed msg) ↔ Fits qt fuel name file := by
  unfold Parser.parse at h
  unfold Fits
  cases format : formatOf name with
  | none => rw [format] at h; cases h
  | some f =>
    rw [format] at h
    cases f with
    | asc => exact (AscDriver.driver qt).parseLines_iff (AscDriver.line_iff qt) _ _ _ (Option.some.inj h)
    | trc => exact (TrcDriver.driver qt).parseLines_iff (TrcDriver.line_iff qt) _ _ _ (Option.some.inj h)
    | blf =>
      obtain ⟨dlcs, ids⟩ := Blf.parse_messages h
      constructor
      · intro all b hb dlc hdlc
        have among : dlc ∈ msgs.map (·.dlc) := dlcs ▸ List.mem_filterMap.mpr ⟨b, hb, hdlc⟩
        obtain ⟨msg, hmsg, rfl⟩ := List.mem_map.mp among
        exact (all msg hmsg).dlc
      · intro fits msg hmsg
        have among : msg.dlc ∈ (Blf.fileCalls qt fuel file.bytes).filterMap Blf.canDlc := dlcs ▸ List.mem_map_of_mem hmsg
        obtain ⟨b, hb, hdlc⟩ := List.mem_filterMap.mp among
        exact (wellFormed_iff msg).mpr ⟨fits b hb _ hdlc, ids msg hmsg⟩

def trcFile : File where
  bytes := []
  text := ";$FILEVERSION=1.1\n     1)    118912.2  Rx     0CF00300  2  03 0A\n".toList

def trcMessage : CanLogMsg where
  number := 1
  id := 0x0CF00300
  time := 1189122 / 10000
  dlc := 2
  dir := .tx
  data := #v[3, 10, 0, 0, 0, 0, 0, 0]

theorem parse_wellFormed_trc :
    (∀ msg ∈ [trcMessage], WellFormed msg) ↔ Fits plainBuild 0 "log.TRC".toList trcFile :=
  parse_wellFormed_iff (by decide +kernel)

/-- One stored container with a CAN object whose DLC byte is 9. -/
def longDlcFile : File where
  bytes := Blf.logg ++ [72, 0, 0, 0] ++ List.replicate 64 0 ++ (Blf.lobj ++ [16, 0, 1, 0, 80, 0, 0, 0, 10, 0, 0, 0]) ++
    List.replicate 16 0 ++
      (Blf.lobj ++ [32, 0, 1, 0, 48, 0, 0, 0, 1, 0, 0, 0, 2, 0, 0, 0, 0, 0, 0, 0, 5, 0, 0, 0, 0, 0, 0, 0,
      1, 0, 0, 9, 3, 0, 0, 0, 17, 34, 51, 68, 85, 102, 119, 136])
  text := []

def longDlcMessage : CanLogMsg where
  id := 3
  time := 5 / 1000000000
  channel := 1
  dlc := 9
  data := #v[17, 34, 51, 68, 85, 102, 119, 136]

theorem parse_wellFormed_longDlc :
    ¬ ∀ (qt : Qt) (fuel : Nat) (name : QString) (file : File) (msgs : List CanLogMsg),
      Parser.parse qt fuel name (some file) = some (.ok msgs) → ∀ msg ∈ msgs, WellFormed msg := by
  intro h
  have message := h plainBuild 10 "log.blf".toList longDlcFile [longDlcMessage] (by decide +kernel) longDlcMessage
    (List.mem_singleton_self _)
  exact absurd message.dlc (by decide)

end CanTracer
