import CanTracer.CanMsg.BigEndian
import CanTracer.CanMsg.Range

/-!
# Big-endian signals of whole bytes

A big-endian signal that starts at a byte and ends with one decodes to the number its bytes write
in base 256, first byte first.
-/

namespace CanTracer
open Bits

namespace CanData

def bytesAt (data : CanData) (first count : Nat) : List Nat :=
  ((data.toList.drop first).take count).map (·.toNat)

theorem window_byte (data : CanData) {i : Nat} (h : i < 8) : window data.value (8 * i) 8 = data[i].toNat := by
  obtain ⟨b, read, value⟩ := data.at_ok h
  have same : data.at i = .ok data[i] := dif_pos h
  obtain rfl := Except.ok.inj (same.symm.trans read)
  exact value.symm

theorem bytesAt_succ (data : CanData) {i : Nat} (count : Nat) (h : i < 8) :
    data.bytesAt i (count + 1) = data[i].toNat :: data.bytesAt (i + 1) count := by
  have inside : i < data.toList.length := by rw [Vector.length_toList]; exact h
  rw [bytesAt, bytesAt, List.drop_eq_getElem_cons inside, List.take_succ_cons, List.map_cons, Vector.getElem_toList]

theorem bytesAt_length_le (data : CanData) (i count : Nat) : (data.bytesAt i count).length ≤ count := by
  rw [bytesAt, List.length_map]
  exact List.length_take_le _ _

end CanData

theorem chunks_bytes (data : CanData) (count : Nat) :
    ∀ i, i + count ≤ 8 → chunks data.value (8 * i) (8 * count) = data.bytesAt i count := by
  induction count with
  | zero =>
    intro i _
    rw [Nat.mul_zero, chunks_zero]
    rfl
  | succ count ih =>
    intro i fits
    have aligned : 8 - 8 * i % 8 = 8 := by omega
    rw [chunks_cut (by omega), aligned, data.window_byte (by omega), data.bytesAt_succ count (by omega),
      show 8 * i + 8 = 8 * (i + 1) by ring, show 8 * (count + 1) - 8 = 8 * count by omega, ih (i + 1) (by omega)]

theorem ofDigits_bytesAt_lt (data : CanData) (i count : Nat) :
    Nat.ofDigits 256 (data.bytesAt i count).reverse < 2 ^ (8 * count) := by
  have bound := ofDigits_bytes_lt ((data.toList.drop i).take count).reverse
  rw [List.map_reverse] at bound
  refine Nat.lt_of_lt_of_le bound (Nat.pow_le_pow_right (by decide) ?_)
  rw [List.length_reverse]
  exact Nat.mul_le_mul_left 8 (List.length_take_le _ _)

/-- The two's complement reading of `n` on `len` bits. -/
def twosComplement (len n : Nat) : Int := (BitVec.ofNat len n).toInt

theorem twosComplement_eq {k n : Nat} (below : n < 2 ^ (k + 1)) :
    twosComplement (k + 1) n = if 2 ^ k ≤ n then (n : Int) - 2 ^ (k + 1) else n := by
  have double : 2 ^ (k + 1) = 2 * 2 ^ k := by rw [Nat.pow_succ, Nat.mul_comm]
  rw [twosComplement, BitVec.toInt_eq_toNat_cond, BitVec.toNat_ofNat, Nat.mod_eq_of_lt below]
  by_cases top : 2 ^ k ≤ n
  · rw [if_pos top, if_neg (by omega), Nat.cast_pow]
    rfl
  · rw [if_neg top, if_pos (by omega)]

namespace CanSignal

theorem raw_wholeBytes (signal : CanSignal) (input : CanData) (big : signal.isBigEndian = true)
    (aligned : signal.startBit.toNat % 8 = 0) (whole : signal.len.toNat % 8 = 0)
    (fits : signal.startBit.toNat + signal.len.toNat ≤ 64) :
    signal.raw input =
      .ok (Nat.ofDigits 256 (input.bytesAt (signal.startBit.toNat / 8) (signal.len.toNat / 8)).reverse) := by
  have cut := chunks_bytes input (signal.len.toNat / 8) (signal.startBit.toNat / 8) (by omega)
  rw [Nat.mul_div_cancel' (Nat.dvd_of_mod_eq_zero aligned), Nat.mul_div_cancel' (Nat.dvd_of_mod_eq_zero whole)] at cut
  have short : (input.bytesAt (signal.startBit.toNat / 8) (signal.len.toNat / 8)).length ≤ 8 :=
    Nat.le_trans (input.bytesAt_length_le _ _) (by omega)
  rw [raw_eq signal input fits, big, assemble_big, chunks_toNat, cut]
  rw [List.length_map, cut]
  exact short

theorem parseSignal_admitted {signal : CanSignal} {input : CanData} {dlc : UInt8} {raw : Nat} {value : Int}
    (pos : signal.len.toNat ≠ 0) (fits : signal.startBit.toNat + signal.len.toNat ≤ 8 * dlc.toNat)
    (read : signal.raw input = .ok raw) (signed : signal.integer raw = .ok value) :
    signal.parseSignal input dlc = .ok (.num (value * signal.scale + signal.offset)) := by
  have admitted : ¬(signal.startBit.toNat + signal.len.toNat > dlc.toNat * bitsInByte ∨ signal.len.toNat = 0) := by
    rw [bitsInByte]
    omega
  rw [parseSignal, if_neg admitted, read]
  simp only [bind, Except.bind, signed]
  rfl

/-- At 64 bits the mask of the sign extension is built without a shift. -/
theorem parseSignal_wholeBytes (signal : CanSignal) (input : CanData) (dlc : UInt8)
    (big : signal.isBigEndian = true) (aligned : signal.startBit.toNat % 8 = 0) (whole : signal.len.toNat % 8 = 0)
    (pos : 8 ≤ signal.len.toNat) (long : signal.len.toNat ≤ 64) (short : dlc.toNat ≤ 8)
    (fits : signal.startBit.toNat + signal.len.toNat ≤ 8 * dlc.toNat) :
    let number := Nat.ofDigits 256 (input.bytesAt (signal.startBit.toNat / 8) (signal.len.toNat / 8)).reverse
    let value : Int := if signal.isSigned then twosComplement signal.len.toNat number else number
    signal.raw input = .ok number ∧ signal.integer number = .ok value ∧
      signal.parseSignal input dlc = .ok (.num (value * signal.scale + signal.offset)) := by
  intro number value
  have read : signal.raw input = .ok number := raw_wholeBytes signal input big aligned whole (by omega)
  have below : number < 2 ^ signal.len.toNat := by
    have bound := ofDigits_bytesAt_lt input (signal.startBit.toNat / 8) (signal.len.toNat / 8)
    rwa [Nat.mul_div_cancel' (Nat.dvd_of_mod_eq_zero whole)] at bound
  have extended : signal.integer number = .ok value := by
    cases sign : signal.isSigned with
    | false => simp only [integer, value, sign, Bool.false_eq_true, if_false]
    | true =>
      rw [integer_signed sign (by omega) long below]
      simp only [value, sign, if_true]
      obtain ⟨k, len⟩ : ∃ k, signal.len.toNat = k + 1 := ⟨signal.len.toNat - 1, by omega⟩
      rw [len] at below ⊢
      rw [twosComplement_eq below, Nat.add_sub_cancel]
  exact ⟨read, extended, parseSignal_admitted (by omega) fits read extended⟩

theorem parseSignal_wholeBytes_longest :
    let signal : CanSignal := ⟨0, 64, true, true, 1, 0, 0, 0, [], [], [], []⟩
    let input : CanData := #v[0xFF, 0xFF, 0xFF, 0xFF, 0xFF, 0xFF, 0xFF, 0xFE]
    signal.raw input = .ok (2 ^ 64 - 2) ∧ signal.integer (2 ^ 64 - 2) = .ok (-2) ∧
      signal.parseSignal input 8 = .ok (.num (((-2 : Int) : ℚ) * 1 + 0)) := by
  intro signal input
  have decoded := parseSignal_wholeBytes signal input 8 rfl rfl (by decide) (by decide) (by decide) (by decide)
    (by decide)
  have number : Nat.ofDigits 256 (input.bytesAt (signal.startBit.toNat / 8) (signal.len.toNat / 8)).reverse =
      2 ^ 64 - 2 := by
    decide +kernel
  have value : twosComplement signal.len.toNat (2 ^ 64 - 2) = -2 := by decide +kernel
  rw [number] at decoded
  dsimp only at decoded
  rw [if_pos (show signal.isSigned = true from rfl), value] at decoded
  exact decoded

end CanSignal
end CanTracer
