import Mathlib.Data.Int.ModEq
import CanTracer.CanMsg.Assembly

/-!
# The range of a decoded signal

A signal of `len` bits decodes to a number of `len` bits unless a loop puts a bit of the window at a
weight of `2 ^ len` or more. The sign is then taken right.
-/

namespace CanTracer
open Bits

/-- The position of the bit to which the little-endian loop gives the weight `2 ^ t`: byte `t / 8`
from the start of the window, counted up from the start bit in the first byte. -/
def placedLittle (s len t : Nat) : Option Nat :=
  let k := if t < 8 then s + t else 8 * (s / 8) + t
  if (8 ≤ t ∨ s % 8 + t < 8) ∧ k < s + len then some k else none

theorem testBit_ofDigits_chunks (input : CanData) {s len : Nat} (pos : len ≠ 0) (t : Nat) :
    (Nat.ofDigits 256 (chunks input.value s len)).testBit t = input.bitAt (placedLittle s len t) := by
  rw [testBit_ofDigits _ (chunks_lt _ _ _), List.getD_eq_getElem?_getD, chunks_getElem? _ _ _ _ pos, placedLittle]
  by_cases inside : t / 8 < (s % 8 + len + 7) / 8
  · rw [if_pos inside]
    by_cases first : t / 8 = 0
    · rw [if_pos first, if_pos (show t < 8 by omega), Option.getD_some, testBit_window, CanData.testBit_value,
        Nat.mod_eq_of_lt (show t < 8 by omega)]
      by_cases within : t < min len (8 - s % 8)
      · rw [decide_eq_true within, Bool.true_and, if_pos (by omega)]
        rfl
      · rw [decide_eq_false within, Bool.false_and, if_neg (by omega)]
        rfl
    · rw [if_neg first, if_neg (show ¬t < 8 by omega), Option.getD_some, testBit_window, CanData.testBit_value]
      by_cases within : t % 8 < min 8 (s + len - 8 * (s / 8 + t / 8))
      · rw [decide_eq_true within, Bool.true_and, if_pos (by omega),
          show 8 * (s / 8 + t / 8) + t % 8 = 8 * (s / 8) + t by omega]
        rfl
      · rw [decide_eq_false within, Bool.false_and, if_neg (by omega)]
        rfl
  · rw [if_neg inside, if_neg (by split <;> omega), Option.getD_none, Nat.zero_testBit]
    rfl

namespace CanSignal

/-- The position of the bit that gets the weight `2 ^ t`. -/
def position (signal : CanSignal) (t : Nat) : Option Nat :=
  if signal.isBigEndian then placed signal.startBit.toNat signal.len.toNat t
  else placedLittle signal.startBit.toNat signal.len.toNat t

/-- The shifts fit, and no bit of the window that is set gets a weight from `2 ^ len` on. -/
structure FitsLen (signal : CanSignal) (input : CanData) : Prop where
  shifts : signal.ShiftsFit input
  top : ∀ t, signal.len.toNat ≤ t → input.bitAt (signal.position t) = false

structure InRange (signal : CanSignal) (raw : Nat) : Prop where
  below : raw < 2 ^ signal.len.toNat
  signed : signal.isSigned = true → ∃ value, signal.integer raw = .ok value ∧ -2 ^ (signal.len.toNat - 1) ≤ value ∧
    value ≤ 2 ^ (signal.len.toNat - 1) - 1 ∧ value ≡ raw [ZMOD 2 ^ signal.len.toNat]

/-! ### The sign -/

theorem integer_signed {signal : CanSignal} {raw : Nat} (signed : signal.isSigned = true)
    (pos : signal.len.toNat ≠ 0) (long : signal.len.toNat ≤ 64) (below : raw < 2 ^ signal.len.toNat) :
    signal.integer raw =
      .ok (if 2 ^ (signal.len.toNat - 1) ≤ raw then (raw : Int) - 2 ^ signal.len.toNat else raw) := by
  obtain ⟨k, len⟩ : ∃ k, signal.len.toNat = k + 1 := ⟨signal.len.toNat - 1, by omega⟩
  have half : (2 : Int) ^ (k + 1) = 2 ^ k + 2 ^ k := by rw [pow_succ]; ring
  have most : (2 : Int) ^ k ≤ 2 ^ 63 := by exact_mod_cast Nat.pow_le_pow_right (by decide : 0 < 2) (by omega : k ≤ 63)
  have mask : (if k + 1 ≠ 64 then 2 ^ (k + 1) - 1 else 2 ^ 64 - 1 : Int) = 2 ^ (k + 1) - 1 := by
    split
    · rfl
    · rename_i full
      rw [not_not.mp full]
  rw [len] at below
  rw [integer, signed, if_pos rfl, len, Nat.add_sub_cancel, if_neg (by omega), Nat.shiftRight_eq_div_pow]
  by_cases top : 2 ^ k ≤ raw
  · have set : raw / 2 ^ k ≠ 0 := Nat.ne_of_gt (Nat.div_pos top (Nat.two_pow_pos k))
    have high : (2 : Int) ^ k ≤ raw := by exact_mod_cast top
    have under : (raw : Int) < 2 ^ (k + 1) := by exact_mod_cast below
    rw [if_pos set, if_pos top]
    dsimp only
    rw [mask, Int.bmod_eq_of_le (by omega) (by omega), sub_sub, sub_add_cancel]
  · have clear : raw / 2 ^ k = 0 := Nat.div_eq_of_lt (Nat.lt_of_not_le top)
    rw [if_neg (not_not.mpr clear), if_neg top]

theorem inRange_iff {signal : CanSignal} {raw : Nat} (pos : signal.len.toNat ≠ 0)
    (long : signal.len.toNat ≤ 64) :
    signal.InRange raw ↔ raw < 2 ^ signal.len.toNat := by
  refine ⟨fun h => h.below, fun below => ⟨below, fun signed => ⟨_, integer_signed signed pos long below, ?_⟩⟩⟩
  obtain ⟨k, len⟩ : ∃ k, signal.len.toNat = k + 1 := ⟨signal.len.toNat - 1, by omega⟩
  have half : (2 : Int) ^ (k + 1) = 2 ^ k + 2 ^ k := by rw [pow_succ]; ring
  have below : (raw : Int) < 2 ^ (k + 1) := by rw [len] at below; exact_mod_cast below
  rw [len, Nat.add_sub_cancel]
  split
  · rename_i top
    have top : (2 : Int) ^ k ≤ raw := by exact_mod_cast top
    exact ⟨by omega, by omega, Int.modEq_iff_dvd.mpr ⟨1, by ring⟩⟩
  · rename_i low
    have low : (raw : Int) < 2 ^ k := by exact_mod_cast Nat.lt_of_not_le low
    exact ⟨by omega, by omega, Int.ModEq.refl _⟩

/-! ### The loops -/

theorem placedLittle_top (input : CanData) {s len : Nat} (short : s % 8 + len ≤ 32) :
    input.bitAt (placedLittle s len 31) = false ↔ (s % 8 + len = 32 → input.bit (s + len - 1) = false) := by
  simp only [placedLittle, Nat.reduceLT, if_false]
  by_cases whole : s % 8 + len = 32
  · rw [if_pos (by omega), show 8 * (s / 8) + 31 = s + len - 1 by omega]
    exact ⟨fun h _ => h, fun h => h whole⟩
  · rw [if_neg (by omega)]
    exact ⟨fun _ h => absurd h whole, fun _ => rfl⟩

theorem raw_below_little {signal : CanSignal} {input : CanData} (little : signal.isBigEndian = false)
    (pos : signal.len.toNat ≠ 0) (fits : signal.startBit.toNat + signal.len.toNat ≤ 64) :
    (∃ raw, signal.raw input = .ok raw ∧ raw < 2 ^ signal.len.toNat) ↔ signal.FitsLen input := by
  have length := chunks_length (n := input.value) signal.startBit.toNat pos
  have bits := testBit_ofDigits_chunks input (s := signal.startBit.toNat) pos
  have bytes := ofDigits_bytes_lt ((chunks input.value signal.startBit.toNat signal.len.toNat).map (·.toUInt8))
  have top : ∀ t, signal.position t = placedLittle signal.startBit.toNat signal.len.toNat t := fun t => by
    rw [position, little, if_neg Bool.false_ne_true]
  rw [chunks_toNat, List.length_map, length] at bytes
  rw [raw_eq signal input fits, little, assemble_little, List.length_map, chunks_toNat, length]
  by_cases short : signal.startBit.toNat % 8 + signal.len.toNat ≤ 32
  · have last := placedLittle_top input short
    have word := Nat.lt_of_lt_of_le bytes (Nat.pow_le_pow_right (by decide) (by omega : _ ≤ 31 + 1))
    rw [if_pos (by omega)]
    generalize Nat.ofDigits 256 (chunks input.value signal.startBit.toNat signal.len.toNat) = n at *
    by_cases high : 2 ^ 31 ≤ n
    · rw [if_pos high]
      constructor
      · rintro ⟨raw, read, below⟩
        have len : 2 ^ signal.len.toNat ≤ 2 ^ 32 := Nat.pow_le_pow_right (by decide) (by omega)
        obtain rfl := Except.ok.inj read
        omega
      · intro h
        have clear := last.mpr (h.shifts little).2
        rw [← bits, (half_le_iff word).mp high] at clear
        cases clear
    · rw [if_neg high, Nat.add_zero]
      constructor
      · rintro ⟨raw, read, below⟩
        obtain rfl := Except.ok.inj read
        refine ⟨fun _ => ⟨short, last.mp ?_⟩, fun t ht => ?_⟩
        · rw [← bits, ← Bool.not_eq_true, ← half_le_iff word]
          exact high
        · rw [top, ← bits]
          exact (lt_two_pow_iff _ _).mp below t ht
      · intro h
        refine ⟨n, rfl, (lt_two_pow_iff _ _).mpr fun t ht => ?_⟩
        rw [bits, ← top]
        exact h.top t ht
  · rw [if_neg (by omega)]
    exact ⟨fun ⟨_, read, _⟩ => (nomatch read), fun h => absurd (h.shifts little).1 short⟩

theorem raw_below_big {signal : CanSignal} {input : CanData} (big : signal.isBigEndian = true)
    (pos : signal.len.toNat ≠ 0) (fits : signal.startBit.toNat + signal.len.toNat ≤ 64) :
    (∃ raw, signal.raw input = .ok raw ∧ raw < 2 ^ signal.len.toNat) ↔ signal.FitsLen input := by
  obtain ⟨raw, read, bits⟩ := raw_bigEndian signal input big pos fits
  have top : ∀ t, signal.position t = placed signal.startBit.toNat signal.len.toNat t := fun t => by
    rw [position, big, if_pos rfl]
  constructor
  · rintro ⟨raw', read', below⟩
    obtain rfl := Except.ok.inj (read.symm.trans read')
    refine ⟨fun little => absurd (big.symm.trans little) (by decide), fun t ht => ?_⟩
    rw [top, ← bits]
    exact (lt_two_pow_iff _ _).mp below t ht
  · intro h
    refine ⟨raw, read, (lt_two_pow_iff _ _).mpr fun t ht => ?_⟩
    rw [bits, ← top]
    exact h.top t ht

/-- An admitted signal decodes to a number of its length exactly when its bits fit. -/
theorem decoded_inRange_iff (signal : CanSignal) (input : CanData) (dlc : UInt8) (pos : signal.len ≠ 0)
    (short : dlc.toNat ≤ 8) (admitted : signal.startBit.toNat + signal.len.toNat ≤ 8 * dlc.toNat) :
    (∃ raw, signal.raw input = .ok raw ∧ signal.InRange raw) ↔ signal.FitsLen input := by
  have len : signal.len.toNat ≠ 0 := fun h => pos (UInt8.toNat_inj.mp h)
  simp only [inRange_iff len (by omega)]
  cases order : signal.isBigEndian with
  | false => exact raw_below_little order len (by omega)
  | true => exact raw_below_big order len (by omega)

theorem decoded_inRange_signed :
    let signal : CanSignal := ⟨0, 16, false, true, 1, 0, 0, 0, [], [], [], []⟩
    let input : CanData := #v[0x12, 0xFF, 0, 0, 0, 0, 0, 0]
    (∃ raw, signal.raw input = .ok raw ∧ signal.InRange raw) ↔ signal.FitsLen input :=
  decoded_inRange_iff _ _ 2 (by decide) (by decide) (by decide)

/-- Twelve bits from bit 0, big-endian: the first byte gets the weight 256 though four bits follow it. -/
theorem decoded_inRange_twelveBits :
    ¬ ∀ (signal : CanSignal) (input : CanData) (dlc : UInt8), signal.len ≠ 0 → dlc.toNat ≤ 8 →
      signal.startBit.toNat + signal.len.toNat ≤ 8 * dlc.toNat →
        ∃ raw, signal.raw input = .ok raw ∧ signal.InRange raw := by
  intro h
  obtain ⟨raw, read, inRange⟩ := h ⟨0, 12, true, false, 1, 0, 0, 0, [], [], [], []⟩ #v[0xFF, 0, 0, 0, 0, 0, 0, 0] 2
    (by decide) (by decide) (by decide)
  have value : CanSignal.raw ⟨0, 12, true, false, 1, 0, 0, 0, [], [], [], []⟩ #v[0xFF, 0, 0, 0, 0, 0, 0, 0] =
      .ok 0xFF00 := by
    decide +kernel
  obtain rfl := Except.ok.inj (value.symm.trans read)
  exact absurd inRange.below (by decide)

end CanSignal
end CanTracer
