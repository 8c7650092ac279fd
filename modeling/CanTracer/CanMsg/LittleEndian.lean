import CanTracer.CanMsg.Extract

/-!
# Little-endian signals

The little-endian loop gives piece `i` the weight `256 ^ i` whatever its width, and shifts it as a
32-bit `int`. `raw_littleEndian_iff` says when that is the number made of the window's bits.
-/

namespace CanTracer
open Bits

theorem narrowInt_of_lt {n : Nat} (h : n < 2 ^ 31) : narrowInt (n : Int) = n := by
  rw [narrowInt, Int.bmod_eq_of_le] <;> omega

theorem narrowInt_of_ge {n : Nat} (lo : 2 ^ 31 ≤ n) (hi : n < 2 ^ 32) :
    narrowInt (n : Int) = n - 2 ^ 32 := by
  rw [narrowInt, ← Int.sub_bmod_right, Int.bmod_eq_of_le] <;> omega

theorem byte_above {raw cnt : Nat} (d : UInt8) (h : raw < 2 ^ cnt) :
    raw + d.toNat * 2 ^ cnt < 2 ^ (cnt + 8) := by
  have byte := d.toNat_lt
  rw [Nat.pow_add]
  calc raw + d.toNat * 2 ^ cnt < 2 ^ cnt + 255 * 2 ^ cnt :=
        Nat.add_lt_add_of_lt_of_le h (Nat.mul_le_mul_right _ (by omega))
    _ = 2 ^ cnt * 2 ^ 8 := by ring

namespace CanSignal

/-- One round of the loop. From the fourth byte on the shifted byte can reach the sign bit. -/
theorem addLittle_eq {raw cnt : Nat} {d : UInt8} (hcnt : cnt ≤ 24) (hraw : raw < 2 ^ cnt) :
    addLittle (raw, cnt) d =
      .ok (raw + d.toNat * 2 ^ cnt + (if 2 ^ 31 ≤ d.toNat * 2 ^ cnt then 2 ^ 64 - 2 ^ 32 else 0), cnt + 8) := by
  have sum : raw + d.toNat * 2 ^ cnt < 2 ^ 32 :=
    Nat.lt_of_lt_of_le (byte_above d hraw) (Nat.pow_le_pow_right (by decide) (by omega))
  simp only [addLittle, shiftLeft, if_pos (by omega : cnt < 32), bind, Except.bind, pure, Except.pure, bitsInByte]
  generalize d.toNat * 2 ^ cnt = x at sum ⊢
  split
  · rename_i high
    rw [narrowInt_of_ge high (by omega),
      show ((raw : Int) + (x - 2 ^ 32)) % 2 ^ 64 = raw + x + (2 ^ 64 - 2 ^ 32) by omega]
    rfl
  · rw [narrowInt_of_lt (by omega), show ((raw : Int) + x) % 2 ^ 64 = raw + x by omega]
    rfl

theorem foldlM_addLittle (ds : List UInt8) :
    ∀ raw cnt, cnt + 8 * ds.length ≤ 24 → raw < 2 ^ cnt →
      ds.foldlM addLittle (raw, cnt) =
        .ok (raw + 2 ^ cnt * Nat.ofDigits 256 (ds.map (·.toNat)), cnt + 8 * ds.length) := by
  induction ds with
  | nil => intro raw cnt _ _; rfl
  | cons d ds ih =>
    intro raw cnt short hraw
    simp only [List.length_cons] at short
    have next := byte_above d hraw
    have small : 2 ^ (cnt + 8) ≤ 2 ^ 24 := Nat.pow_le_pow_right (by decide) (by omega)
    rw [List.foldlM_cons, addLittle_eq (by omega) hraw, if_neg (by omega), Nat.add_zero]
    show List.foldlM addLittle _ ds = _
    rw [ih _ _ (by omega) next, List.map_cons, Nat.ofDigits_cons, List.length_cons, Nat.pow_add]
    congr 2
    · ring
    · omega

/-- What the little-endian loop computes: at most four bytes, with the sign of the `int`
extended, or a shift that is not defined. -/
theorem assemble_little (ds : List UInt8) :
    assemble false ds =
      if ds.length ≤ 4 then
        .ok (Nat.ofDigits 256 (ds.map (·.toNat)) +
          (if 2 ^ 31 ≤ Nat.ofDigits 256 (ds.map (·.toNat)) then 2 ^ 64 - 2 ^ 32 else 0))
      else .error (.undefined .shift) := by
  rw [assemble, if_neg (by decide)]
  by_cases three : ds.length ≤ 3
  · have low := foldlM_addLittle ds 0 0 (by omega) (by decide)
    have bound : Nat.ofDigits 256 (ds.map (·.toNat)) < 2 ^ 24 :=
      Nat.lt_of_lt_of_le (ofDigits_bytes_lt ds) (Nat.pow_le_pow_right (by decide) (by omega))
    rw [low, if_pos (by omega), if_neg (by omega)]
    simp [Except.map]
  · -- The fourth byte is the one at the sign bit.
    obtain ⟨low, d, rest, rfl, len⟩ : ∃ low d rest, ds = low ++ d :: rest ∧ low.length = 3 :=
      ⟨ds.take 3, ds[3], ds.drop 4, by rw [← List.drop_eq_getElem_cons, List.take_append_drop], by
        rw [List.length_take]; omega⟩
    have first := foldlM_addLittle low 0 0 (by omega) (by decide)
    have bound := ofDigits_bytes_lt low
    rw [len] at first bound
    simp only [Nat.zero_add, Nat.pow_zero, Nat.one_mul, Nat.reduceMul] at first
    rw [List.foldlM_append, first]
    simp only [List.foldlM_cons, bind, Except.bind, addLittle_eq (Nat.le_refl 24) bound]
    cases rest with
    | nil =>
      have whole : Nat.ofDigits 256 ((low ++ [d]).map (·.toNat)) =
          Nat.ofDigits 256 (low.map (·.toNat)) + d.toNat * 2 ^ 24 := by
        rw [List.map_append, Nat.ofDigits_append, List.length_map, len, List.map_singleton, Nat.ofDigits_singleton]
        ring
      have high : 2 ^ 31 ≤ d.toNat * 2 ^ 24 ↔
          2 ^ 31 ≤ Nat.ofDigits 256 (low.map (·.toNat)) + d.toNat * 2 ^ 24 := by omega
      have four : (low ++ [d]).length ≤ 4 := by rw [List.length_append, len, List.length_singleton]
      rw [whole, if_pos four]
      simp only [high, pure, Except.pure, List.foldlM_nil, Except.map]
    | cons e rest =>
      have five : ¬(low ++ d :: e :: rest).length ≤ 4 := by
        rw [List.length_append, List.length_cons, List.length_cons]
        omega
      rw [if_neg five]
      rfl

def littleEndianValue (signal : CanSignal) (input : CanData) : Nat :=
  ∑ i ∈ Finset.range signal.len.toNat, (input.bit (signal.startBit.toNat + i)).toNat * 2 ^ i

theorem littleEndianValue_eq (signal : CanSignal) (input : CanData) :
    signal.littleEndianValue input = window input.value signal.startBit.toNat signal.len.toNat := by
  rw [littleEndianValue, window_eq_sum]
  simp only [CanData.testBit_value]

/-- When the little-endian loop puts the window together right: it touches at most four bytes, a
32-bit window from a byte boundary has its top bit clear, and a window that starts inside a byte
has nothing above that byte. -/
def LittleEndianExact (signal : CanSignal) (input : CanData) : Prop :=
  signal.startBit.toNat % 8 + signal.len.toNat ≤ 32 ∧
  (signal.startBit.toNat % 8 = 0 → signal.len.toNat = 32 → input.bit (signal.startBit.toNat + 31) = false) ∧
  (signal.startBit.toNat % 8 ≠ 0 → ∀ k, signal.startBit.toNat + (8 - signal.startBit.toNat % 8) ≤ k →
    k < signal.startBit.toNat + signal.len.toNat → input.bit k = false)

theorem assemble_aligned {n s len : Nat} (pos : len ≠ 0) (aligned : s % 8 = 0) :
    assemble false ((chunks n s len).map (·.toUInt8)) = .ok (window n s len) ↔
      len ≤ 32 ∧ (len = 32 → n.testBit (s + 31) = false) := by
  rw [assemble_little, List.length_map, chunks_length s pos, chunks_toNat, ofDigits_chunks n len s aligned]
  by_cases short : len ≤ 32
  · rw [if_pos (by omega), and_iff_right short]
    have top : 2 ^ 31 ≤ window n s len ↔ len = 32 ∧ n.testBit (s + 31) = true := by
      by_cases whole : len = 32
      · subst whole
        rw [half_le_window_iff n s 31, and_iff_right rfl]
      · have low := Nat.lt_of_lt_of_le (window_lt n s len) (Nat.pow_le_pow_right (by decide) (by omega : len ≤ 31))
        exact ⟨fun h => by omega, fun h => absurd h.1 whole⟩
    simp only [top, Except.ok.injEq]
    split
    · rename_i h
      exact ⟨fun e => by omega, fun e => by rw [e h.1] at h; cases h.2⟩
    · rename_i h
      exact ⟨fun _ whole => by simpa [whole] using h, fun _ => rfl⟩
  · rw [if_neg (by omega)]
    exact ⟨nofun, fun h => absurd h.1 short⟩

/-- Past a byte boundary every later piece is a factor `2 ^ (s % 8)` too high. -/
theorem assemble_unaligned {n s len : Nat} (pos : len ≠ 0) (inside : s % 8 ≠ 0) :
    assemble false ((chunks n s len).map (·.toUInt8)) = .ok (window n s len) ↔
      s % 8 + len ≤ 32 ∧ ∀ k, s + (8 - s % 8) ≤ k → k < s + len → n.testBit k = false := by
  rw [assemble_little, List.length_map, chunks_length s pos, chunks_toNat]
  by_cases single : s % 8 + len ≤ 8
  · have low := Nat.lt_of_lt_of_le (window_lt n s len) (Nat.pow_le_pow_right (by decide) (by omega : len ≤ 8))
    rw [chunks_single pos single, Nat.ofDigits_singleton, if_pos (by omega), if_neg (by omega)]
    exact ⟨fun _ => ⟨by omega, fun k hk hlen => by omega⟩, fun _ => rfl⟩
  by_cases short : s % 8 + len ≤ 32
  · rw [chunks_cut (by omega), Nat.ofDigits_cons, ofDigits_chunks _ _ _ (by omega), if_pos (by omega),
      and_iff_right short]
    have cut := window_add n s (8 - s % 8) (len - (8 - s % 8))
    rw [show 8 - s % 8 + (len - (8 - s % 8)) = len by omega] at cut
    have rest : window n (s + (8 - s % 8)) (len - (8 - s % 8)) = 0 ↔
        ∀ k, s + (8 - s % 8) ≤ k → k < s + len → n.testBit k = false := by
      rw [window_eq_zero_iff]
      refine ⟨fun h k lo hi => ?_, fun h i hi => h _ (by omega) (by omega)⟩
      have bit := h (k - (s + (8 - s % 8))) (by omega)
      rwa [show s + (8 - s % 8) + (k - (s + (8 - s % 8))) = k by omega] at bit
    have low := Nat.lt_of_lt_of_le (window_lt n s (8 - s % 8)) (Nat.pow_le_pow_right (by decide) (by omega : 8 - s % 8 ≤ 8))
    have factor : 2 ^ (8 - s % 8) ≤ 2 ^ 7 := Nat.pow_le_pow_right (by decide) (by omega)
    rw [← rest, cut, Except.ok.injEq]
    generalize window n (s + (8 - s % 8)) (len - (8 - s % 8)) = tail at rest ⊢
    constructor
    · intro same
      by_contra nonzero
      have scaled : 2 ^ (8 - s % 8) * tail < 256 * tail :=
        Nat.mul_lt_mul_of_pos_right (by omega) (Nat.pos_of_ne_zero nonzero)
      omega
    · intro zero
      rw [zero, if_neg (by omega)]
      omega
  · rw [if_neg (by omega)]
    exact ⟨nofun, fun h => absurd h.1 short⟩

theorem raw_littleEndian_iff (signal : CanSignal) (input : CanData) (dlc : UInt8)
    (little : signal.isBigEndian = false) (pos : signal.len ≠ 0) (short : dlc.toNat ≤ 8)
    (admitted : signal.startBit.toNat + signal.len.toNat ≤ 8 * dlc.toNat) :
    signal.raw input = .ok (signal.littleEndianValue input) ↔ signal.LittleEndianExact input := by
  have len : signal.len.toNat ≠ 0 := fun h => pos (UInt8.toNat_inj.mp h)
  rw [raw_eq signal input (by omega), little, littleEndianValue_eq, LittleEndianExact]
  simp only [← CanData.testBit_value]
  by_cases aligned : signal.startBit.toNat % 8 = 0
  · rw [assemble_aligned len aligned]
    simp [aligned]
  · rw [assemble_unaligned len aligned]
    simp [aligned]

theorem raw_littleEndian_twoBytes :
    let signal : CanSignal := ⟨0, 16, false, false, 1, 0, 0, 0, [], [], [], []⟩
    let input : CanData := #v[0x12, 0x34, 0, 0, 0, 0, 0, 0]
    signal.raw input = .ok (signal.littleEndianValue input) ↔ signal.LittleEndianExact input :=
  raw_littleEndian_iff _ _ 2 rfl (by decide) (by decide) (by decide)

/-- Bits 4 to 15 of a frame that starts with the bytes 0 and 1: the loop makes 256 of 16. -/
theorem raw_littleEndian_inside :
    let signal : CanSignal := ⟨4, 12, false, false, 1, 0, 0, 0, [], [], [], []⟩
    let input : CanData := #v[0, 1, 0, 0, 0, 0, 0, 0]
    signal.startBit.toNat + signal.len.toNat ≤ 8 * 8 ∧ signal.raw input = .ok 256 ∧
      signal.raw input ≠ .ok (signal.littleEndianValue input) := by
  refine ⟨by decide, by decide +kernel, by decide +kernel⟩

end CanSignal
end CanTracer
