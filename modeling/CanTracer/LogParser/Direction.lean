import CanTracer.LogParser.WellFormed

/-!
# Directions

`QString::compare` is zero for equal strings, so `setDir` stores the other direction; the BLF
parser reads the flags byte and stores no direction at all.
-/

namespace CanTracer

open Regex

def TrcDriver.direction (line : QString) : Option QString := (search pattern line).map (·.captured 3)

def AscDriver.direction (line : QString) : Option QString := (search pattern line).map (·.captured 4)

def Blf.flagsByte (o : Bytes) : Nat := field (16 + (stampEnd (headerOf o).headerVersion + 2)) 1 o

structure SaysColumn (column : QString) (dir : CanDir) : Prop where
  rx : dir = .rx ↔ column = "Rx".toList
  tx : dir = .tx ↔ column = "Tx".toList

def SaysFlags (flags : Nat) (dir : CanDir) : Prop := dir = .tx ↔ flags.testBit 0 = true

theorem setDir_dir (msg : CanLogMsg) (str : QString) : ¬SaysColumn str (msg.setDir str).2.dir := by
  rintro ⟨rx, -⟩
  unfold CanLogMsg.setDir at rx
  by_cases column : str = "Rx".toList
  · rw [if_neg (not_not.mpr column), if_pos (by rw [column]; decide)] at rx
    cases rx.mpr column
  · rw [if_pos column] at rx
    exact column (rx.mp rfl)

theorem saysFlags_rx (flags : Nat) : SaysFlags flags .rx ↔ flags.testBit 0 = false := by
  unfold SaysFlags
  cases flags.testBit 0 <;> decide

theorem TrcDriver.accepted_dir {qt : Qt} {line : QString} {msg : CanLogMsg} {bytes : Bytes}
    (h : accepted qt line = some (msg, bytes)) : ∃ column, direction line = some column ∧ ¬SaysColumn column msg.dir := by
  simp only [accepted, fields, Option.bind_eq_bind, Option.bind_eq_some_iff, Option.pure_def, Option.some.injEq,
    Prod.mk.injEq, guard_some] at h
  obtain ⟨-, -, m, found, -, -, -, -, -, -, id, -, dlc, -, -, -, rfl, -⟩ := h
  exact ⟨m.captured 3, by rw [direction, found]; rfl, setDir_dir _ _⟩

theorem AscDriver.accepted_dir {qt : Qt} {number : UInt32} {line : QString} {msg : CanLogMsg}
    {bytes : Bytes} (h : accepted qt number line = some (msg, bytes)) :
    ∃ column, direction line = some column ∧ ¬SaysColumn column msg.dir := by
  simp only [accepted, fields, Option.bind_eq_bind, Option.bind_eq_some_iff, Option.pure_def, Option.some.injEq,
    Prod.mk.injEq, guard_some] at h
  obtain ⟨m, found, -, -, id, -, -, -, -, -, rfl, -⟩ := h
  exact ⟨m.captured 4, by rw [direction, found]; rfl, setDir_dir _ _⟩

/-- No line keeps its direction, and an object does exactly when its flag is clear. -/
theorem direction_kept_iff (qt : Qt) :
    (∀ line msg, TrcDriver.parseLine qt line = .ok (some msg) →
      ∃ column, TrcDriver.direction line = some column ∧ ¬SaysColumn column msg.dir) ∧
    (∀ line number msg, AscDriver.parseLine qt line number = .ok (some msg) →
      ∃ column, AscDriver.direction line = some column ∧ ¬SaysColumn column msg.dir) ∧
    ∀ b st, ∃ new, (Blf.parseObject b st).2.messages = st.messages ++ new ∧
      List.Forall₂ (fun msg o => SaysFlags (Blf.flagsByte o) msg.dir ↔ (Blf.flagsByte o).testBit 0 = false) new
        (Blf.firstCan b).toList := by
  refine ⟨fun line msg h => ?_, fun line number msg h => ?_, fun b st => ⟨_, Blf.parseObject_messages b st, ?_⟩⟩
  · unfold TrcDriver.parseLine at h
    split at h
    · cases h
    · rcases copied_ok h with ⟨-, none⟩ | ⟨read, bytes, data, accept, same⟩
      · cases none
      · obtain rfl := Option.some.inj same
        have reversed := TrcDriver.accepted_dir accept
        exact reversed
  · rcases copied_ok h with ⟨-, none⟩ | ⟨read, bytes, data, accept, same⟩
    · cases none
    · obtain rfl := Option.some.inj same
      have reversed := AscDriver.accepted_dir accept
      exact reversed
  · cases Blf.firstCan b with
    | none => exact .nil
    | some o =>
      refine .cons ?_ .nil
      rw [Blf.readObject, Blf.readCan_eq]
      exact saysFlags_rx _

/-- A CAN object whose flag says that it was sent. -/
def sentObject : Bytes :=
  Blf.lobj ++ [32, 0, 1, 0, 48, 0, 0, 0, 1, 0, 0, 0, 2, 0, 0, 0, 0, 0, 0, 0, 5, 0, 0, 0, 0, 0, 0, 0,
    1, 0, 1, 8, 3, 0, 0, 0, 17, 34, 51, 68, 85, 102, 119, 136]

theorem direction_kept_documented :
    (∃ column, TrcDriver.direction trcLine = some column ∧ ¬SaysColumn column .tx) ∧
    (∃ column, AscDriver.direction ascLine = some column ∧ ¬SaysColumn column .tx) ∧
    ∃ new, (Blf.parseObject sentObject {}).2.messages = new ∧
      List.Forall₂ (fun msg o => SaysFlags (Blf.flagsByte o) msg.dir ↔ (Blf.flagsByte o).testBit 0 = false)
        new [sentObject] := by
  refine ⟨?_, ?_, ?_⟩
  · exact (direction_kept_iff plainBuild).1 trcLine
      { number := 1, id := 0x0CF00300, time := 1189122 / 10000, dlc := 8, dir := .tx,
        data := #v[3, 0, 0, 0, 0, 0, 0, 10] }
      (by decide +kernel)
  · exact (direction_kept_iff plainBuild).2.1 ascLine 7
      { number := 7, id := 0x0CF00300, time := 1 / 2, channel := 1, dlc := 2, dir := .tx,
        data := #v[0, 31, 0, 0, 0, 0, 0, 0] }
      (by decide +kernel)
  · obtain ⟨new, messages, kept⟩ := (direction_kept_iff plainBuild).2.2 sentObject {}
    have whole : Blf.firstCan sentObject = some sentObject := by decide +kernel
    rw [whole] at kept
    exact ⟨new, messages, kept⟩

theorem direction_kept_received :
    ¬ ∀ qt : Qt,
      (∀ line msg, TrcDriver.parseLine qt line = .ok (some msg) →
        ∃ column, TrcDriver.direction line = some column ∧ SaysColumn column msg.dir) ∧
      (∀ line number msg, AscDriver.parseLine qt line number = .ok (some msg) →
        ∃ column, AscDriver.direction line = some column ∧ SaysColumn column msg.dir) ∧
      ∀ b st, ∃ new, (Blf.parseObject b st).2.messages = st.messages ++ new ∧
        List.Forall₂ (fun msg o => SaysFlags (Blf.flagsByte o) msg.dir) new (Blf.firstCan b).toList := by
  intro h
  obtain ⟨column, read, kept⟩ := (h plainBuild).1 trcLine
    { number := 1, id := 0x0CF00300, time := 1189122 / 10000, dlc := 8, dir := .tx, data := #v[3, 0, 0, 0, 0, 0, 0, 10] }
    (by decide +kernel)
  have written : TrcDriver.direction trcLine = some "Rx".toList := by decide +kernel
  obtain rfl := Option.some.inj (written.symm.trans read)
  exact absurd (kept.rx.mpr rfl) (by decide)

end CanTracer
