import CanTracer.CanMsg.Extract

/-!
# Locality of the decoder

A signal is decoded from the bits of its window: two frames that agree on them give the same
result, whatever the other signals of the frame and the bytes behind it hold.
-/

namespace Bits

theorem window_congr {n m s len : Nat} (agree : ∀ k, s ≤ k → k < s + len → n.testBit k = m.testBit k) :
    window n s len = window m s len := by
  apply Nat.eq_of_testBit_eq
  intro i
  rw [testBit_window, testBit_window]
  by_cases hi : i < len
  · rw [agree (s + i) (by omega) (by omega)]
  · rw [decide_eq_false hi, Bool.false_and, Bool.false_and]

end Bits

namespace CanTracer
open Bits

/-- The frames hold the same bits from `first` up to `last`. -/
def CanData.AgreeOn (a b : CanData) (first last : Nat) : Prop :=
  ∀ k, first ≤ k → k < last → a.bit k = b.bit k

theorem CanData.AgreeOn.mono {a b : CanData} {first last first' last' : Nat} (agree : a.AgreeOn b first last)
    (lower : first ≤ first') (upper : last' ≤ last) : a.AgreeOn b first' last' :=
  fun k above below => agree k (Nat.le_trans lower above) (Nat.lt_of_lt_of_le below upper)

theorem CanData.agreeOn_of_bytes {a b : CanData} {count : Nat} (same : ∀ i < count, a[i]? = b[i]?) :
    a.AgreeOn b 0 (8 * count) := by
  intro k _ below
  rw [bit, bit, same (k / 8) (by omega)]

theorem chunks_congr (len : Nat) {n m : Nat} :
    ∀ s, (∀ k, s ≤ k → k < s + len → n.testBit k = m.testBit k) → chunks n s len = chunks m s len := by
  induction len using Nat.strongRecOn with
  | ind len ih =>
    intro s agree
    by_cases zero : len = 0
    · subst zero
      rw [chunks_zero, chunks_zero]
    rw [chunks_pos zero, chunks_pos zero]
    -- The first piece and the rest lie inside the window.
    have piece : window n s (min len (8 - s % 8)) = window m s (min len (8 - s % 8)) :=
      window_congr fun k above below => agree k above (by omega)
    have rest := ih (len - min len (8 - s % 8)) (by omega) (s + min len (8 - s % 8))
      fun k above below => agree k (by omega) (by omega)
    rw [piece, rest]

namespace CanSignal

theorem raw_local (signal : CanSignal) {a b : CanData}
    (fits : signal.startBit.toNat + signal.len.toNat ≤ 64)
    (agree : a.AgreeOn b signal.startBit.toNat (signal.startBit.toNat + signal.len.toNat)) :
    signal.raw a = signal.raw b := by
  have cut : chunks a.value signal.startBit.toNat signal.len.toNat =
      chunks b.value signal.startBit.toNat signal.len.toNat := by
    apply chunks_congr
    intro k above below
    rw [CanData.testBit_value, CanData.testBit_value]
    exact agree k above below
  rw [raw_eq signal a fits, raw_eq signal b fits, cut]

theorem parseSignal_agree {signal : CanSignal} {dlc : UInt8} (short : dlc.toNat ≤ 8) {a b : CanData}
    (agree : a.AgreeOn b signal.startBit.toNat (signal.startBit.toNat + signal.len.toNat)) :
    signal.parseSignal a dlc = signal.parseSignal b dlc := by
  rw [parseSignal, parseSignal]
  split
  · rfl
  · rename_i admitted
    rw [bitsInByte] at admitted
    rw [signal.raw_local (by omega) agree]

theorem parseSignal_bytes {signal : CanSignal} {dlc : UInt8} (short : dlc.toNat ≤ 8) {a b : CanData}
    (same : ∀ i < dlc.toNat, a[i]? = b[i]?) : signal.parseSignal a dlc = signal.parseSignal b dlc := by
  by_cases inside : signal.startBit.toNat + signal.len.toNat ≤ 8 * dlc.toNat
  · exact parseSignal_agree short ((CanData.agreeOn_of_bytes same).mono (Nat.zero_le _) inside)
  · have refused : signal.startBit.toNat + signal.len.toNat > dlc.toNat * bitsInByte ∨ signal.len.toNat = 0 := by
      rw [bitsInByte]
      omega
    rw [parseSignal, parseSignal, if_pos refused, if_pos refused]

theorem parseSignal_local (signal : CanSignal) (dlc : UInt8) (short : dlc.toNat ≤ 8) (a b : CanData) :
    (a.AgreeOn b signal.startBit.toNat (signal.startBit.toNat + signal.len.toNat) →
      signal.parseSignal a dlc = signal.parseSignal b dlc) ∧
    ((∀ i < dlc.toNat, a[i]? = b[i]?) → signal.parseSignal a dlc = signal.parseSignal b dlc) :=
  ⟨parseSignal_agree short, parseSignal_bytes short⟩

theorem parseSignal_local_middle :
    let signal : CanSignal := ⟨4, 8, false, true, 1, 0, 0, 0, [], [], [], []⟩
    signal.parseSignal #v[0x5A, 0xC3, 0, 0, 0, 0, 0, 0] 2 = signal.parseSignal #v[0x5F, 0xF3, 1, 2, 3, 4, 5, 6] 2 := by
  intro signal
  apply (parseSignal_local signal 2 (by decide) _ _).1
  have window : ∀ k < 12, 4 ≤ k →
      CanData.bit #v[0x5A, 0xC3, 0, 0, 0, 0, 0, 0] k = CanData.bit #v[0x5F, 0xF3, 1, 2, 3, 4, 5, 6] k := by
    decide +kernel
  exact fun k above below => window k below above

end CanSignal
end CanTracer
