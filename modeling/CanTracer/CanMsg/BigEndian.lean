import CanTracer.CanMsg.Extract

/-!
# Big-endian signals

The format walks a big-endian signal down from its start bit: towards bit 0 of the byte, then on
from bit 7 of the next one. The decoder takes the same window as for a little-endian signal, from
the start bit up, and gives each byte the weight of its place from the end.
-/

namespace CanTracer
open Bits

/-- The position of the bit to which the decoder gives the weight `2 ^ t`: byte `t / 8` from the
end of the window, counted up from the start bit in the first byte and from bit 0 in the others. -/
def placed (s len t : Nat) : Option Nat :=
  let bytes := (s % 8 + len + 7) / 8
  let byte := bytes - 1 - t / 8
  let k := (if byte = 0 then s else 8 * (s / 8 + byte)) + t % 8
  if t / 8 < bytes ∧ k < 8 * (s / 8 + byte + 1) ∧ k < s + len then some k else none

def CanData.bitAt (input : CanData) : Option Nat → Bool
  | none => false
  | some k => input.bit k

theorem chunks_getElem? (n len : Nat) : ∀ s j, len ≠ 0 →
    (chunks n s len)[j]? =
      if j < (s % 8 + len + 7) / 8 then
        if j = 0 then some (window n s (min len (8 - s % 8)))
        else some (window n (8 * (s / 8 + j)) (min 8 (s + len - 8 * (s / 8 + j))))
      else none := by
  induction len using Nat.strongRecOn with
  | ind len ih =>
    intro s j pos
    cases j with
    | zero => rw [chunks_pos pos, if_pos (by omega), if_pos rfl]; rfl
    | succ j =>
      by_cases single : s % 8 + len ≤ 8
      · rw [chunks_single pos single, if_neg (by omega)]
        rfl
      · rw [chunks_cut (by omega), List.getElem?_cons_succ, ih _ (by omega) _ _ (by omega)]
        have base : (s + (8 - s % 8)) / 8 = s / 8 + 1 := by omega
        have aligned : (s + (8 - s % 8)) % 8 = 0 := by omega
        rw [base, aligned, if_neg (Nat.succ_ne_zero j)]
        by_cases inside : j + 1 < (s % 8 + len + 7) / 8
        · rw [if_pos inside, if_pos (by omega)]
          cases j with
          | zero =>
            rw [if_pos rfl, Nat.sub_zero, show 8 * (s / 8 + (0 + 1)) = s + (8 - s % 8) by omega, Nat.min_comm]
            congr 3
            omega
          | succ j =>
            rw [if_neg (Nat.succ_ne_zero j), show s / 8 + 1 + (j + 1) = s / 8 + (j + 1 + 1) by omega]
            congr 3
            omega
        · rw [if_neg inside, if_neg (by omega)]

namespace CanSignal

/-- Eight bytes fit in the 64-bit `raw`. -/
theorem foldl_addBig (ds : List UInt8) :
    ∀ raw m, m + ds.length ≤ 8 → raw < 256 ^ m →
      ds.foldl addBig raw = 256 ^ ds.length * raw + Nat.ofDigits 256 (ds.map (·.toNat)).reverse := by
  induction ds with
  | nil => intro raw m _ _; simp
  | cons d ds ih =>
    intro raw m short hraw
    simp only [List.length_cons] at short
    have byte := d.toNat_lt
    have next : raw * 256 + d.toNat < 256 ^ (m + 1) := by
      rw [Nat.pow_succ]
      omega
    have fits : (256 : Nat) ^ (m + 1) ≤ 256 ^ 8 := Nat.pow_le_pow_right (by decide) (by omega)
    have step : addBig raw d = raw * 256 + d.toNat := by
      rw [addBig]
      simp only [bitsInByte] at *
      omega
    rw [List.foldl_cons, step, ih _ (m + 1) (by omega) next, List.map_cons, List.reverse_cons, Nat.ofDigits_append,
      List.length_reverse, List.length_map, List.length_cons, Nat.ofDigits_singleton, Nat.pow_succ]
    ring

theorem assemble_big (ds : List UInt8) (short : ds.length ≤ 8) :
    assemble true ds = .ok (Nat.ofDigits 256 (ds.map (·.toNat)).reverse) := by
  rw [assemble, if_pos rfl, foldl_addBig ds 0 0 (by omega) (by decide), Nat.mul_zero, Nat.zero_add]

end CanSignal

theorem CanSignal.raw_bigEndian (signal : CanSignal) (input : CanData) (big : signal.isBigEndian = true)
    (pos : signal.len.toNat ≠ 0) (fits : signal.startBit.toNat + signal.len.toNat ≤ 64) :
    ∃ raw, signal.raw input = .ok raw ∧
      ∀ t, raw.testBit t = input.bitAt (placed signal.startBit.toNat signal.len.toNat t) := by
  have bytes := chunks_length (n := input.value) signal.startBit.toNat pos
  rw [raw_eq signal input fits, big, CanSignal.assemble_big _ (by rw [List.length_map, bytes]; omega), chunks_toNat]
  refine ⟨_, rfl, fun t => ?_⟩
  have digits : ∀ d ∈ (chunks input.value signal.startBit.toNat signal.len.toNat).reverse, d < 256 :=
    fun d hd => chunks_lt _ _ _ d (List.mem_reverse.mp hd)
  rw [testBit_ofDigits _ digits, List.getD_eq_getElem?_getD, placed]
  generalize signal.startBit.toNat = s at *
  generalize signal.len.toNat = len at *
  by_cases inside : t / 8 < (s % 8 + len + 7) / 8
  · rw [List.getElem?_reverse (by omega), bytes, chunks_getElem? _ _ _ _ pos, if_pos (by omega)]
    simp only [inside, true_and]
    by_cases first : (s % 8 + len + 7) / 8 - 1 - t / 8 = 0
    · rw [first, if_pos rfl, if_pos rfl, Option.getD_some, testBit_window, CanData.testBit_value]
      by_cases within : t % 8 < Min.min len (8 - s % 8)
      · rw [decide_eq_true within, Bool.true_and, if_pos (by omega)]
        rfl
      · rw [decide_eq_false within, Bool.false_and, if_neg (by omega)]
        rfl
    · rw [if_neg first, if_neg first, Option.getD_some, testBit_window, CanData.testBit_value]
      by_cases within : t % 8 < Min.min 8 (s + len - 8 * (s / 8 + ((s % 8 + len + 7) / 8 - 1 - t / 8)))
      · rw [decide_eq_true within, Bool.true_and, if_pos (by omega)]
        rfl
      · rw [decide_eq_false within, Bool.false_and, if_neg (by omega)]
        rfl
  · rw [List.getElem?_eq_none (by rw [List.length_reverse]; omega), if_neg (by omega)]
    simp [CanData.bitAt]

/-! ### The decoded value -/

def CanData.single (k : Nat) : CanData := Vector.ofFn fun i => if i.val = k / 8 then (2 ^ (k % 8)).toUInt8 else 0

end CanTracer
