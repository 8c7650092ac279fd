import CanTracer.Bits
import CanTracer.CanMsg.Basic

/-!
# The bytes cut from a window

`CanSignal.extract` cuts the bits `startBit`, …, `startBit + len - 1` of the frame at byte
boundaries. `extract_eq` gives the list it builds: windows of the frame read as one 64-bit
number, each as wide as the rest of its byte allows.
-/

namespace CanTracer
open Bits

/-- Bit `k` of a frame: bit `k % 8` of byte `k / 8`. -/
def CanData.bit (data : CanData) (k : Nat) : Bool := (data[k / 8]?.getD 0).toNat.testBit (k % 8)

def CanData.value (data : CanData) : Nat := Nat.ofDigits 256 (data.toList.map (·.toNat))

/-- The widths at which a window is cut, as windows of `n`. -/
def chunks (n s len : Nat) : List Nat :=
  if len = 0 then []
  else window n s (min len (8 - s % 8)) :: chunks n (s + min len (8 - s % 8)) (len - min len (8 - s % 8))
termination_by len

namespace CanData

theorem testBit_value (data : CanData) (k : Nat) : data.value.testBit k = data.bit k := by
  rw [value, testBit_ofDigits]
  · rw [bit, List.getD_eq_getElem?_getD, List.getElem?_map, Vector.getElem?_toList]
    cases data[k / 8]? <;> rfl
  · intro d hd
    obtain ⟨b, -, rfl⟩ := List.mem_map.mp hd
    exact b.toNat_lt

theorem at_ok (data : CanData) {i : Nat} (h : i < 8) :
    ∃ b, data.at i = .ok b ∧ b.toNat = window data.value (8 * i) 8 := by
  refine ⟨data[i], dif_pos h, ?_⟩
  apply Nat.eq_of_testBit_eq
  intro j
  rw [testBit_window, testBit_value, bit]
  by_cases hj : j < 8
  · rw [decide_eq_true hj, Bool.true_and, show (8 * i + j) / 8 = i by omega, show (8 * i + j) % 8 = j by omega,
      Vector.getElem?_eq_getElem h, Option.getD_some]
  · have small : data[i].toNat < 2 ^ j :=
      Nat.lt_of_lt_of_le data[i].toNat_lt (Nat.pow_le_pow_right (by decide) (by omega : 8 ≤ j))
    rw [decide_eq_false hj, Bool.false_and, Nat.testBit_lt_two_pow small]

end CanData

theorem getNbit_toNat (a n : UInt8) : (getNbit a n).toNat = a.toNat % 2 ^ n.toNat := by
  have small : a.toNat % 2 ^ n.toNat < 256 := Nat.lt_of_le_of_lt (Nat.mod_le _ _) a.toNat_lt
  rw [getNbit, and_mask, Nat.toUInt8_eq, UInt8.toNat_ofNat_of_lt' small]

theorem getNbit_shift (b : UInt8) {r k : Nat} (hk : k < 256) :
    (getNbit (b.toNat >>> r).toUInt8 k.toUInt8).toNat = window b.toNat r k := by
  have small : b.toNat >>> r < 256 := Nat.lt_of_le_of_lt (Nat.shiftRight_le _ _) b.toNat_lt
  rw [getNbit_toNat, Nat.toUInt8_eq, Nat.toUInt8_eq, UInt8.toNat_ofNat_of_lt' small, UInt8.toNat_ofNat_of_lt' hk,
    Nat.shiftRight_eq_div_pow]
  rfl

theorem toUInt8_of_toNat {b : UInt8} {n : Nat} (h : b.toNat = n) : b = n.toUInt8 := by
  rw [← h, Nat.toUInt8_eq, UInt8.ofNat_toNat]

theorem chunks_zero (n s : Nat) : chunks n s 0 = [] := by rw [chunks, if_pos rfl]

theorem chunks_pos {n s len : Nat} (h : len ≠ 0) :
    chunks n s len =
      window n s (min len (8 - s % 8)) :: chunks n (s + min len (8 - s % 8)) (len - min len (8 - s % 8)) := by
  rw [chunks, if_neg h]

theorem chunks_single {n s len : Nat} (pos : len ≠ 0) (h : s % 8 + len ≤ 8) :
    chunks n s len = [window n s len] := by
  rw [chunks_pos pos, Nat.min_eq_left (by omega), Nat.sub_self, chunks_zero]

theorem chunks_cut {n s len : Nat} (h : 8 ≤ s % 8 + len) :
    chunks n s len = window n s (8 - s % 8) :: chunks n (s + (8 - s % 8)) (len - (8 - s % 8)) := by
  rw [chunks_pos (by omega), Nat.min_eq_right (by omega)]

namespace CanSignal

/-- Inside the eight bytes the loop ends, reads no other byte, and appends the cut window. -/
theorem extract_eq (input : CanData) (len : Nat) :
    ∀ (s : Nat) (dataBytes : List UInt8), s + len ≤ 64 →
      extract input s len dataBytes = .ok (dataBytes ++ (chunks input.value s len).map (·.toUInt8)) := by
  induction len using Nat.strongRecOn with
  | ind len ih =>
    intro s dataBytes fits
    by_cases zero : len = 0
    · subst zero
      rw [extract, if_pos rfl, chunks_zero, List.map_nil, List.append_nil]
    obtain ⟨b, read, value⟩ := input.at_ok (i := s / 8) (by omega)
    have done : ∀ bytes, extract input s 0 bytes = .ok bytes := fun bytes => by rw [extract, if_pos rfl]
    -- A piece taken from bit `s % 8` of the byte at `s / 8` is a window of the frame at `s`.
    have piece : ∀ k, s % 8 + k ≤ 8 → window b.toNat (s % 8) k = window input.value s k := by
      intro k hk
      rw [value, window_window _ _ _ _ _ hk, Nat.div_add_mod]
    rw [extract, if_neg zero]
    simp only [bitsInByte, read, bind, Except.bind]
    by_cases aligned : s % 8 = 0
    · rw [if_pos aligned]
      by_cases whole : 8 ≤ len
      · have same : b = (window input.value s 8).toUInt8 := by
          apply toUInt8_of_toNat
          rw [value, show 8 * (s / 8) = s by omega]
        rw [if_pos whole, Nat.mod_eq_of_lt (by omega : s + 8 < 256), ih (len - 8) (by omega) _ _ (by omega),
          chunks_cut (s := s) (by omega), aligned, same, List.map_cons, List.append_assoc, List.singleton_append]
      · have same : getNbit b len.toUInt8 = (window input.value s len).toUInt8 := by
          apply toUInt8_of_toNat
          rw [getNbit_toNat, Nat.toUInt8_eq, UInt8.toNat_ofNat_of_lt' (show len < 256 by omega),
            ← piece len (by omega), aligned,
            window, Nat.pow_zero, Nat.div_one]
        rw [if_neg whole, done, chunks_single zero (by omega), same]
        rfl
    · rw [if_neg aligned]
      by_cases more : 8 - s % 8 < len
      · have same : getNbit (b.toNat >>> (s % 8)).toUInt8 (8 - s % 8).toUInt8 =
            (window input.value s (8 - s % 8)).toUInt8 :=
          toUInt8_of_toNat (by rw [getNbit_shift b (by omega), piece _ (by omega)])
        rw [if_pos more, Nat.mod_eq_of_lt (by omega : s + (8 - s % 8) < 256),
          ih (len - (8 - s % 8)) (by omega) _ _ (by omega), chunks_cut (s := s) (by omega), same, List.map_cons,
          List.append_assoc, List.singleton_append]
      · have same : getNbit (b.toNat >>> (s % 8)).toUInt8 len.toUInt8 = (window input.value s len).toUInt8 :=
          toUInt8_of_toNat (by rw [getNbit_shift b (by omega), piece _ (by omega)])
        rw [if_neg more, done, chunks_single zero (by omega), same]
        rfl

theorem raw_eq (signal : CanSignal) (input : CanData)
    (fits : signal.startBit.toNat + signal.len.toNat ≤ 64) :
    signal.raw input =
      assemble signal.isBigEndian ((chunks input.value signal.startBit.toNat signal.len.toNat).map (·.toUInt8)) := by
  rw [raw, extract_eq input _ _ _ fits]
  rfl

end CanSignal

/-! ### The shape of the cut -/

theorem chunks_lt (n len : Nat) : ∀ s, ∀ d ∈ chunks n s len, d < 256 := by
  induction len using Nat.strongRecOn with
  | ind len ih =>
    intro s d hd
    by_cases zero : len = 0
    · subst zero
      rw [chunks_zero] at hd
      cases hd
    rw [chunks_pos zero] at hd
    rcases List.mem_cons.mp hd with rfl | hd
    · exact Nat.lt_of_lt_of_le (window_lt _ _ _) (Nat.pow_le_pow_right (by decide) (by omega : _ ≤ 8))
    · exact ih _ (by omega) _ d hd

theorem chunks_toNat (n s len : Nat) :
    ((chunks n s len).map (·.toUInt8)).map (·.toNat) = chunks n s len := by
  rw [List.map_map]
  refine List.map_congr_left (fun d hd => ?_) |>.trans (List.map_id _)
  rw [Function.comp_apply, Nat.toUInt8_eq, UInt8.toNat_ofNat_of_lt' (chunks_lt n len s d hd), id]

theorem chunks_length {n len : Nat} : ∀ s, len ≠ 0 → (chunks n s len).length = (s % 8 + len + 7) / 8 := by
  induction len using Nat.strongRecOn with
  | ind len ih =>
    intro s pos
    by_cases single : s % 8 + len ≤ 8
    · rw [chunks_single pos single, List.length_singleton]
      omega
    · rw [chunks_cut (by omega), List.length_cons, ih _ (by omega) _ (by omega)]
      omega

theorem ofDigits_chunks (n len : Nat) :
    ∀ s, s % 8 = 0 → Nat.ofDigits 256 (chunks n s len) = window n s len := by
  induction len using Nat.strongRecOn with
  | ind len ih =>
    intro s aligned
    by_cases zero : len = 0
    · subst zero
      rw [chunks_zero, window_zero, Nat.ofDigits_nil]
    by_cases single : len ≤ 8
    · rw [chunks_single zero (by omega), Nat.ofDigits_singleton]
    · have cut := window_add n s 8 (len - 8)
      rw [show 8 + (len - 8) = len by omega] at cut
      rw [chunks_cut (by omega), aligned, Nat.sub_zero, Nat.ofDigits_cons, ih _ (by omega) _ (by omega), cut]
      rfl

/-! ### How decoding fails -/

namespace CanSignal

theorem extract_ne_error {e : Failure} (other : e ≠ .outOfRange) (input : CanData) (s len : Nat)
    (dataBytes : List UInt8) : extract input s len dataBytes ≠ .error e := by
  have read (i : Nat) : input.at i ≠ .error e := by
    rw [CanData.at]
    split
    · nofun
    · exact fun h => other (Except.error.inj h).symm
  fun_induction extract input s len dataBytes with
  | case1 => nofun
  | case2 _ _ _ _ _ _ _ ih | case3 _ _ _ _ _ _ _ ih | case4 _ _ _ _ _ _ _ _ ih
  | case5 _ _ _ _ _ _ _ _ ih => exact bind_ne_error (read _) ih

theorem addLittle_ne_error {e : Failure} (other : e ≠ .undefined .shift) (raw : Nat × Nat) (d : UInt8) :
    addLittle raw d ≠ .error e := by
  refine bind_ne_error ?_ fun _ => nofun
  unfold shiftLeft
  split
  · nofun
  · exact fun h => other (Except.error.inj h).symm

theorem assemble_ne_error {e : Failure} (other : e ≠ .undefined .shift) (isBigEndian : Bool) (dataBytes : List UInt8) :
    assemble isBigEndian dataBytes ≠ .error e := by
  have little (raw : Nat × Nat) : dataBytes.foldlM addLittle raw ≠ .error e := by
    induction dataBytes generalizing raw with
    | nil => nofun
    | cons d dataBytes ih => exact bind_ne_error (addLittle_ne_error other raw d) ih
  unfold assemble
  split
  · nofun
  · exact bind_ne_error (little (0, 0)) fun _ => nofun

theorem integer_ne_error {e : Failure} (other : e ≠ .undefined .shift) (signal : CanSignal) (raw : Nat) :
    signal.integer raw ≠ .error e := by
  unfold integer
  split_ifs
  · exact fun h => other (Except.error.inj h).symm
  all_goals nofun

/-- The decoder fails on a byte outside the frame or on a shift, and in no other way. -/
theorem parseSignal_ne_error {e : Failure} (notRange : e ≠ .outOfRange) (notShift : e ≠ .undefined .shift)
    (signal : CanSignal) (input : CanData) (dlc : UInt8) : signal.parseSignal input dlc ≠ .error e := by
  unfold parseSignal
  split
  · nofun
  · have raw : signal.raw input ≠ .error e :=
      bind_ne_error (extract_ne_error notRange _ _ _ _) fun _ => assemble_ne_error notShift _ _
    exact bind_ne_error raw fun raw => bind_ne_error (integer_ne_error notShift signal raw) fun _ => nofun

end CanSignal

end CanTracer
