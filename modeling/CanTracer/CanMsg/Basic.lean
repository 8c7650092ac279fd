import Mathlib.Algebra.Field.Rat
import CanTracer.Qt

/-!
# Messages, signals and the decoder

The records of `canmsg.h` and `CanSignal::parseSignal`. A `double` is an exact rational, or NaN
where the code makes one.
-/

namespace CanTracer

abbrev canMaxDlc : Nat := 8

abbrev bitsInByte : Nat := 8

abbrev CanData := Vector UInt8 canMaxDlc

namespace CanData

def zero : CanData := Vector.replicate canMaxDlc 0

/-- The array after the first bytes are overwritten with `bytes`, at most eight of them. -/
def copy (data : CanData) (bytes : Bytes) : CanData := Vector.ofFn fun i => (bytes[i.val]?).getD data[i]

def «at» (data : CanData) (i : Nat) : Except Failure UInt8 :=
  if h : i < canMaxDlc then .ok data[i] else .error .outOfRange

end CanData

/-- Only the low 32 bits of an `unsigned long` argument reach the `uint32_t` parameter. -/
def removeExtMask (id : Nat) : UInt32 := id.toUInt32 &&& 0x1FFFFFFF

theorem removeExtMask_toNat (id : Nat) : (removeExtMask id).toNat = id % 2 ^ 29 := by
  have mask : (0x1FFFFFFF : UInt32).toNat = 2 ^ 29 - 1 := rfl
  rw [removeExtMask, UInt32.toNat_and, mask, Nat.and_two_pow_sub_one_eq_mod, Nat.toUInt32, UInt32.toNat_ofNat']
  exact Nat.mod_mod_of_dvd id (by decide)

def getNbit (input n : UInt8) : UInt8 := (input.toNat &&& ((1 <<< n.toNat) - 1)).toUInt8

inductive Double where
  | nan
  | num (q : ℚ)
  deriving DecidableEq

inductive CanDir where
  | rx
  | tx
  deriving DecidableEq, Repr

structure CanLogMsg where
  number : UInt32 := 0
  id : UInt32 := 0
  time : ℚ := 0
  channel : UInt8 := 0
  dlc : UInt8 := canMaxDlc.toUInt8
  dir : CanDir := .rx
  data : CanData := CanData.zero
  deriving DecidableEq

/-- `QString::compare` is nonzero when the strings differ. -/
def CanLogMsg.setDir (msg : CanLogMsg) (str : QString) : Bool × CanLogMsg :=
  if str ≠ "Rx".toList then (true, { msg with dir := .rx })
  else if str ≠ "Tx".toList then (true, { msg with dir := .tx })
  else (false, msg)

structure CanSignal where
  startBit : UInt8
  len : UInt8
  isBigEndian : Bool
  isSigned : Bool
  scale : ℚ
  offset : ℚ
  min : ℚ := 0
  max : ℚ := 0
  name : QString := []
  unit : QString := []
  receiver : QString := []
  values : List (ℚ × QString) := []
  deriving DecidableEq

namespace CanSignal

def addValuePair (signal : CanSignal) (value : ℚ × QString) : CanSignal :=
  { signal with values := signal.values ++ [value] }

/-- The loop that cuts the window into bytes; `startBit` and `len` are `uint8_t`. -/
def extract (input : CanData) (startBit len : Nat) (dataBytes : List UInt8) : Except Failure (List UInt8) :=
  if len = 0 then .ok dataBytes
  else
    let remain := startBit % bitsInByte
    if remain = 0 then
      if bitsInByte ≤ len then do
        let d ← input.at (startBit / bitsInByte)
        extract input ((startBit + bitsInByte) % 256) (len - bitsInByte) (dataBytes ++ [d])
      else do
        let d ← input.at (startBit / bitsInByte)
        extract input startBit 0 (dataBytes ++ [getNbit d len.toUInt8])
    else
      let bit2Get := bitsInByte - remain
      if bit2Get < len then do
        let d ← input.at (startBit / bitsInByte)
        extract input ((startBit + bit2Get) % 256) (len - bit2Get)
          (dataBytes ++ [getNbit (d.toNat >>> remain).toUInt8 bit2Get.toUInt8])
      else do
        let d ← input.at (startBit / bitsInByte)
        extract input startBit 0 (dataBytes ++ [getNbit (d.toNat >>> remain).toUInt8 len.toUInt8])
termination_by len
decreasing_by all_goals (try simp only [bitsInByte] at *); omega

/-- `d << shiftCnt` in 32-bit `int`. -/
def shiftLeft (d : UInt8) (shiftCnt : Nat) : Except Failure Int :=
  if shiftCnt < 32 then .ok (narrowInt (d.toNat * 2 ^ shiftCnt : Nat)) else .error (.undefined .shift)

def addBig (raw : Nat) (d : UInt8) : Nat := (raw * 2 ^ bitsInByte % 2 ^ 64 + d.toNat) % 2 ^ 64

def addLittle (raw : Nat × Nat) (d : UInt8) : Except Failure (Nat × Nat) := do
  let shifted ← shiftLeft d raw.2
  return (((raw.1 + shifted) % 2 ^ 64).toNat, raw.2 + bitsInByte)

def assemble (isBigEndian : Bool) (dataBytes : List UInt8) : Except Failure Nat :=
  if isBigEndian then .ok (dataBytes.foldl addBig 0)
  else (dataBytes.foldlM addLittle (0, 0)).map (·.1)

def raw (signal : CanSignal) (input : CanData) : Except Failure Nat := do
  let dataBytes ← extract input signal.startBit.toNat signal.len.toNat []
  assemble signal.isBigEndian dataBytes

def integer (signal : CanSignal) (raw : Nat) : Except Failure Int :=
  if signal.isSigned then
    if 64 ≤ signal.len.toNat - 1 then .error (.undefined .shift)
    else if raw >>> (signal.len.toNat - 1) ≠ 0 then
      let mask := if signal.len.toNat ≠ 64 then 2 ^ signal.len.toNat - 1 else 2 ^ 64 - 1
      .ok (((raw : Int) - mask - 1).bmod (2 ^ 64))
    else .ok raw
  else .ok raw

def parseSignal (signal : CanSignal) (input : CanData) (dlc : UInt8) : Except Failure Double :=
  if signal.startBit.toNat + signal.len.toNat > dlc.toNat * bitsInByte ∨ signal.len.toNat = 0 then .ok .nan
  else do
    let raw ← signal.raw input
    let ret ← signal.integer raw
    return .num (ret * signal.scale + signal.offset)

end CanSignal

structure QColor where
  red : UInt8
  green : UInt8
  blue : UInt8
  alpha : UInt8
  deriving DecidableEq

structure CanMessage where
  id : UInt32 := 0
  dlc : UInt8 := 0
  name : QString := []
  sender : QString := []
  canSignals : List CanSignal := []
  color : QColor := ⟨0, 0, 0, 0⟩
  deriving DecidableEq

/-- A change made through a pointer to the first element that satisfies `p`. -/
def modifyFirst {α : Type} (p : α → Bool) (f : α → α) : List α → List α
  | [] => []
  | x :: xs => if p x then f x :: xs else x :: modifyFirst p f xs

theorem modifyFirst_append {α : Type} {p : α → Bool} {f : α → α} {xs ys : List α} {y : α}
    (before : ∀ x ∈ xs, p x = false)
    (here : p y = true) : modifyFirst p f (xs ++ y :: ys) = xs ++ f y :: ys := by
  induction xs with
  | nil => rw [List.nil_append, modifyFirst, if_pos here, List.nil_append]
  | cons x xs ih =>
    obtain ⟨first, rest⟩ := List.forall_mem_cons.mp before
    rw [List.cons_append, modifyFirst, first, if_neg Bool.false_ne_true, ih rest, List.cons_append]

theorem modifyFirst_append_left {α : Type} {p : α → Bool} {f : α → α} {xs : List α}
    (inside : xs.any p = true) (ys : List α) :
    modifyFirst p f (xs ++ ys) = modifyFirst p f xs ++ ys := by
  induction xs with
  | nil => cases inside
  | cons x xs ih =>
    rw [List.cons_append, modifyFirst, modifyFirst]
    split
    · rfl
    · rename_i other
      rw [List.any_cons, Bool.of_not_eq_true other, Bool.false_or] at inside
      rw [ih inside, List.cons_append]

theorem modifyFirst_append_right {α : Type} {p : α → Bool} {f : α → α} {xs : List α}
    (outside : xs.any p = false)
    (ys : List α) : modifyFirst p f (xs ++ ys) = xs ++ modifyFirst p f ys := by
  induction xs with
  | nil => rfl
  | cons x xs ih =>
    obtain ⟨first, rest⟩ := Bool.or_eq_false_iff.mp outside
    rw [List.cons_append, modifyFirst, first, if_neg Bool.false_ne_true, ih rest, List.cons_append]

theorem modifyFirst_eq_self {α : Type} {p : α → Bool} {f : α → α} {xs : List α}
    (fixed : ∀ x ∈ xs.find? p, f x = x) :
    modifyFirst p f xs = xs := by
  induction xs with
  | nil => rfl
  | cons x xs ih =>
    rw [List.find?_cons] at fixed
    rw [modifyFirst]
    split
    · rename_i here
      rw [here] at fixed
      rw [fixed x rfl]
    · rename_i other
      rw [Bool.of_not_eq_true other] at fixed
      rw [ih fixed]

theorem modifyFirst_find {α : Type} {p : α → Bool} {f : α → α} {xs : List α} {x : α}
    (found : xs.find? p = some x) :
    ∃ before after, xs = before ++ x :: after ∧ modifyFirst p f xs = before ++ f x :: after := by
  obtain ⟨here, before, after, rfl, none⟩ := List.find?_eq_some_iff_append.mp found
  exact ⟨before, after, rfl, modifyFirst_append (fun y hy => by simpa using none y hy) here⟩

namespace CanMessage

def addCanSignal (msg : CanMessage) (signal : CanSignal) : CanMessage :=
  { msg with canSignals := msg.canSignals ++ [signal] }

def findSignal (msg : CanMessage) (name : QString) : Option CanSignal :=
  msg.canSignals.find? (·.name == name)

def modifySignal (msg : CanMessage) (name : QString) (f : CanSignal → CanSignal) : CanMessage :=
  { msg with canSignals := modifyFirst (·.name == name) f msg.canSignals }

end CanMessage

structure CanDb where
  db : List CanMessage := []
  deriving DecidableEq

namespace CanDb

def addMessage (d : CanDb) (msg : CanMessage) : CanDb := ⟨d.db ++ [msg]⟩

def findMessage (d : CanDb) (id : UInt32) : Option CanMessage := d.db.find? (·.id == id)

def modifyMessage (d : CanDb) (id : UInt32) (f : CanMessage → CanMessage) : CanDb :=
  ⟨modifyFirst (·.id == id) f d.db⟩

end CanDb

end CanTracer
