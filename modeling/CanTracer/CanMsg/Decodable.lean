import CanTracer.CanMsg.Graph
import CanTracer.CanMsg.LittleEndian

/-!
# What can be decoded

Whether `parseSignal` comes to a value is up to the place of the signal in the frame and not to the data.
-/

namespace CanTracer

namespace CanSignal

/-- The guard turns the signal away, or its window ends with the eight bytes and, in the little-endian loop,
has at most four of them. -/
def Decodable (signal : CanSignal) (dlc : UInt8) : Prop :=
  signal.len = 0 ∨ 8 * dlc.toNat < signal.startBit.toNat + signal.len.toNat ∨
    signal.startBit.toNat + signal.len.toNat ≤ 64 ∧
      (signal.isBigEndian = false → signal.startBit.toNat % 8 + signal.len.toNat ≤ 32)

instance (signal : CanSignal) (dlc : UInt8) : Decidable (signal.Decodable dlc) :=
  inferInstanceAs (Decidable (_ ∨ _ ∨ _ ∧ (_ → _)))

/-- A window that ends behind the eight bytes is read up to there. -/
theorem extract_outside (input : CanData) (len : Nat) : ∀ (s : Nat) (dataBytes : List UInt8), len ≠ 0 → 64 < s + len →
    extract input s len dataBytes = .error .outOfRange := by
  induction len using Nat.strongRecOn with
  | ind len ih =>
    intro s dataBytes pos outside
    rw [extract, if_neg pos]
    by_cases behind : 64 ≤ s
    · have read : input.at (s / bitsInByte) = .error .outOfRange := dif_neg (by unfold bitsInByte canMaxDlc; omega)
      rw [read]
      dsimp only [bind, Except.bind]
      split_ifs <;> rfl
    · obtain ⟨b, read, -⟩ := input.at_ok (i := s / 8) (by omega)
      simp only [bitsInByte, read, bind, Except.bind]
      by_cases aligned : s % 8 = 0
      · rw [if_pos aligned, if_pos (by omega), Nat.mod_eq_of_lt (by omega)]
        exact ih (len - 8) (by omega) _ _ (by omega) (by omega)
      · rw [if_neg aligned, if_pos (by omega), Nat.mod_eq_of_lt (by omega)]
        exact ih _ (by omega) _ _ (by omega) (by omega)

/-- The sign is taken from a bit of the 64 there are. -/
theorem integer_ok (signal : CanSignal) (short : signal.len.toNat ≤ 64) (raw : Nat) :
    ∃ value, signal.integer raw = .ok value := by
  unfold integer
  rw [if_neg (by omega : ¬ 64 ≤ signal.len.toNat - 1)]
  split_ifs <;> exact ⟨_, rfl⟩

theorem assemble_ok_iff (isBigEndian : Bool) (dataBytes : List UInt8) :
    (∃ raw, assemble isBigEndian dataBytes = .ok raw) ↔ (isBigEndian = false → dataBytes.length ≤ 4) := by
  cases isBigEndian with
  | true => exact ⟨fun _ => by simp, fun _ => ⟨_, rfl⟩⟩
  | false =>
    rw [assemble_little]
    split
    · rename_i short
      exact ⟨fun _ _ => short, fun _ => ⟨_, rfl⟩⟩
    · rename_i long
      exact ⟨by simp, fun short => absurd (short rfl) long⟩

theorem raw_ok_iff (signal : CanSignal) (input : CanData) (pos : signal.len.toNat ≠ 0) :
    (∃ raw, signal.raw input = .ok raw) ↔ signal.startBit.toNat + signal.len.toNat ≤ 64 ∧
      (signal.isBigEndian = false → signal.startBit.toNat % 8 + signal.len.toNat ≤ 32) := by
  by_cases inside : signal.startBit.toNat + signal.len.toNat ≤ 64
  · rw [raw_eq signal input inside, assemble_ok_iff, List.length_map, chunks_length _ pos, and_iff_right inside]
    refine imp_congr_right fun _ => ?_
    omega
  · rw [raw, extract_outside input _ _ _ pos (by omega)]
    refine ⟨?_, fun fits => absurd fits.1 inside⟩
    rintro ⟨_, ⟨⟩⟩

theorem parseSignal_ok_iff (signal : CanSignal) (input : CanData) (dlc : UInt8) :
    (∃ value, signal.parseSignal input dlc = .ok value) ↔ signal.Decodable dlc := by
  have zero : signal.len = 0 ↔ signal.len.toNat = 0 := by rw [← UInt8.toNat_inj, UInt8.toNat_zero]
  unfold parseSignal Decodable
  split
  · rename_i away
    refine ⟨fun _ => ?_, fun _ => ⟨_, rfl⟩⟩
    rw [zero]
    unfold bitsInByte at away
    omega
  · rename_i admitted
    obtain ⟨within, pos⟩ := not_or.mp admitted
    have guard : ¬ 8 * dlc.toNat < signal.startBit.toNat + signal.len.toNat := by
      unfold bitsInByte at within
      omega
    rw [zero, or_iff_right pos, or_iff_right guard, ← raw_ok_iff signal input pos]
    constructor
    · rintro ⟨value, decoded⟩
      obtain ⟨raw, assembled, -⟩ := bind_ok decoded
      exact ⟨raw, assembled⟩
    · rintro ⟨raw, assembled⟩
      have inside := ((raw_ok_iff signal input pos).mp ⟨raw, assembled⟩).1
      obtain ⟨value, signed⟩ := integer_ok signal (by omega) raw
      rw [assembled, ok_bind, signed]
      exact ⟨_, rfl⟩

end CanSignal
end CanTracer
