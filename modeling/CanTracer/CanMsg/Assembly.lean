import CanTracer.CanMsg.BigEndian
import CanTracer.CanMsg.LittleEndian

/-!
# The steps of the assembly

The two loops of `assemble`, step by step: whether the shift of a byte is defined, whether its result
is the number meant, and whether a bit of `raw` is lost.
-/

namespace CanTracer
open Bits

namespace CanSignal

/-- `raw += d << shiftCnt` adds `d * 2 ^ shiftCnt`, for `raw` and `shiftCnt` as in `x`. -/
structure ExactLittle (x : Nat × Nat) (d : UInt8) : Prop where
  count : x.2 < 32
  shift : shiftLeft d x.2 = .ok (d.toNat * 2 ^ x.2 : Nat)
  sum : addLittle x d = .ok (x.1 + d.toNat * 2 ^ x.2, x.2 + bitsInByte)

/-- `raw <<= 8` loses no set bit. -/
def ExactBig (raw : Nat) : Prop := raw * 2 ^ bitsInByte < 2 ^ 64

/-- Every round of the loop is exact, from what `raw` is after the bytes in front of it. -/
def AssemblyExact (isBigEndian : Bool) (dataBytes : List UInt8) : Prop :=
  ∀ front d back, dataBytes = front ++ d :: back →
    if isBigEndian then ExactBig (front.foldl addBig 0)
    else ∃ x, front.foldlM addLittle (0, 0) = .ok x ∧ ExactLittle x d

/-! ### One byte after the other -/

theorem addLittle_count {x y : Nat × Nat} {d : UInt8} (h : addLittle x d = .ok y) : y.2 = x.2 + 8 := by
  unfold addLittle shiftLeft at h
  split at h
  · rw [← Except.ok.inj h]
  · cases h

theorem foldlM_addLittle_count (ds : List UInt8) :
    ∀ x y, ds.foldlM addLittle x = .ok y → y.2 = x.2 + 8 * ds.length := by
  induction ds with
  | nil =>
    intro x y h
    rw [← Except.ok.inj h]
    rfl
  | cons d ds ih =>
    intro x y h
    rw [List.foldlM_cons] at h
    obtain ⟨z, first, h⟩ := bind_ok h
    have rest := ih z y h
    rw [addLittle_count first] at rest
    rw [rest, List.length_cons]
    omega

theorem shiftLeft_exact {d : UInt8} {cnt : Nat} (h : shiftLeft d cnt = .ok (d.toNat * 2 ^ cnt : Nat)) :
    d.toNat * 2 ^ cnt < 2 ^ 31 := by
  unfold shiftLeft at h
  split at h
  · have same := Except.ok.inj h
    have top := Int.bmod_lt (x := (d.toNat * 2 ^ cnt : Nat)) (m := 2 ^ 32) (by decide)
    rw [narrowInt] at same
    omega
  · cases h

theorem exactLittle_of_fits {raw cnt : Nat} {d : UInt8} (hcnt : cnt ≤ 24) (hraw : raw < 2 ^ cnt)
    (fits : d.toNat * 2 ^ cnt < 2 ^ 31) : ExactLittle (raw, cnt) d where
  count := by omega
  shift := by rw [shiftLeft, if_pos (by omega), narrowInt_of_lt fits]
  sum := by rw [addLittle_eq hcnt hraw, if_neg (by omega), Nat.add_zero]

theorem assemblyExact_big {ds : List UInt8} (short : ds.length ≤ 8) : AssemblyExact true ds := by
  rintro front d back rfl
  rw [List.length_append, List.length_cons] at short
  rw [if_pos rfl, ExactBig, foldl_addBig front 0 0 (by omega) (by decide), Nat.mul_zero, Nat.zero_add]
  have digits := ofDigits_bytes_lt front.reverse
  rw [List.map_reverse, List.length_reverse] at digits
  have bound : 2 ^ (8 * front.length) ≤ 2 ^ 56 := Nat.pow_le_pow_right (by decide) (by omega)
  unfold bitsInByte
  omega

/-- The little-endian loop takes three bytes of any kind, and a fourth without its top bit. -/
theorem assemblyExact_little (ds : List UInt8) :
    AssemblyExact false ds ↔ ds.length ≤ 4 ∧ ∀ d ∈ ds[3]?, d.toNat < 128 := by
  constructor
  · intro exact
    refine ⟨?_, fun d hd => ?_⟩
    · by_contra long
      obtain ⟨x, ran, step⟩ := exact (ds.take 4) ds[4] (ds.drop 5)
        (by rw [← List.drop_eq_getElem_cons, List.take_append_drop])
      have count := foldlM_addLittle_count _ _ _ ran
      have below := step.count
      rw [List.length_take] at count
      omega
    · obtain ⟨inside, rfl⟩ := List.getElem?_eq_some_iff.mp hd
      obtain ⟨x, ran, step⟩ := exact (ds.take 3) ds[3] (ds.drop 4)
        (by rw [← List.drop_eq_getElem_cons, List.take_append_drop])
      have count := foldlM_addLittle_count _ _ _ ran
      have fits := shiftLeft_exact step.shift
      rw [List.length_take, Nat.min_eq_left (by omega)] at count
      rw [show x.2 = 24 from count] at fits
      omega
  · rintro ⟨short, top⟩ front d back rfl
    rw [List.length_append, List.length_cons] at short
    have ran := foldlM_addLittle front 0 0 (by omega) (by decide)
    rw [Nat.zero_add, Nat.zero_add, Nat.pow_zero, Nat.one_mul] at ran
    refine ⟨_, ran, exactLittle_of_fits (by omega) (ofDigits_bytes_lt front) ?_⟩
    have byte := d.toNat_lt
    by_cases last : front.length = 3
    · have below := top d (by rw [List.getElem?_append_right (by omega), last]; rfl)
      rw [last]
      omega
    · calc d.toNat * 2 ^ (8 * front.length) ≤ 255 * 2 ^ 16 :=
            Nat.mul_le_mul (by omega) (Nat.pow_le_pow_right (by decide) (by omega))
        _ < 2 ^ 31 := by decide

/-! ### A signal -/

/-- A little-endian signal touches at most four bytes and, where it ends with the fourth of them, its
top bit is clear. -/
def ShiftsFit (signal : CanSignal) (input : CanData) : Prop :=
  signal.isBigEndian = false →
    signal.startBit.toNat % 8 + signal.len.toNat ≤ 32 ∧
    (signal.startBit.toNat % 8 + signal.len.toNat = 32 →
      input.bit (signal.startBit.toNat + signal.len.toNat - 1) = false)

theorem fourth_chunk {n s len : Nat} (short : s % 8 + len ≤ 32) :
    (∀ d ∈ (chunks n s len)[3]?, d < 128) ↔ (s % 8 + len = 32 → n.testBit (s + len - 1) = false) := by
  by_cases pos : len = 0
  · subst pos
    rw [chunks_zero]
    exact ⟨fun _ _ => by omega, fun _ d hd => by cases hd⟩
  rw [chunks_getElem? n len s 3 pos, if_neg (show (3 : Nat) ≠ 0 by decide)]
  by_cases four : 3 < (s % 8 + len + 7) / 8
  · rw [if_pos four]
    simp only [Option.mem_some_iff, forall_eq']
    by_cases whole : s % 8 + len = 32
    · have top := half_le_window_iff n (8 * (s / 8 + 3)) 7
      rw [show 8 * (s / 8 + 3) + 7 = s + len - 1 by omega] at top
      rw [Nat.min_eq_left (by omega), ← Nat.not_le, show 128 = 2 ^ 7 by rfl, top, Bool.not_eq_true]
      exact ⟨fun h _ => h, fun h => h whole⟩
    · have low := Nat.lt_of_lt_of_le (window_lt n (8 * (s / 8 + 3)) (Min.min 8 (s + len - 8 * (s / 8 + 3))))
        (Nat.pow_le_pow_right (by decide) (by omega : _ ≤ 7))
      exact ⟨fun _ h => absurd h whole, fun _ => low⟩
  · rw [if_neg four]
    exact ⟨fun _ h => by omega, fun _ d hd => by cases hd⟩

/-- The steps that put an admitted signal together are exact when its shifts fit. -/
theorem assembly_exact_iff (signal : CanSignal) (input : CanData) (dlc : UInt8) (pos : signal.len ≠ 0)
    (short : dlc.toNat ≤ 8) (admitted : signal.startBit.toNat + signal.len.toNat ≤ 8 * dlc.toNat) :
    ∃ dataBytes, extract input signal.startBit.toNat signal.len.toNat [] = .ok dataBytes ∧
      (AssemblyExact signal.isBigEndian dataBytes ↔ signal.ShiftsFit input) := by
  have len : signal.len.toNat ≠ 0 := fun h => pos (UInt8.toNat_inj.mp h)
  have length := chunks_length (n := input.value) signal.startBit.toNat len
  refine ⟨_, extract_eq input _ _ _ (by omega), ?_⟩
  rw [List.nil_append, ShiftsFit]
  cases signal.isBigEndian with
  | true =>
    have big := @assemblyExact_big ((chunks input.value signal.startBit.toNat signal.len.toNat).map (·.toUInt8))
      (by rw [List.length_map, length]; omega)
    exact ⟨fun _ => nofun, fun _ => big⟩
  | false =>
    have fourth :
        (∀ d ∈ ((chunks input.value signal.startBit.toNat signal.len.toNat).map (·.toUInt8))[3]?, d.toNat < 128) ↔
        ∀ d ∈ (chunks input.value signal.startBit.toNat signal.len.toNat)[3]?, d < 128 := by
      rw [List.getElem?_map]
      cases h : (chunks input.value signal.startBit.toNat signal.len.toNat)[3]? with
      | none => simp
      | some d =>
        have byte := chunks_lt _ _ _ d (List.mem_of_getElem? h)
        simp [Nat.mod_eq_of_lt byte]
    rw [assemblyExact_little, List.length_map, length, fourth, forall_prop_of_true rfl]
    by_cases fits : signal.startBit.toNat % 8 + signal.len.toNat ≤ 32
    · rw [fourth_chunk fits, CanData.testBit_value, and_iff_right fits, and_iff_right (by omega)]
    · exact ⟨fun h => by omega, fun h => absurd h.1 fits⟩

theorem assembly_exact_twoBytes :
    ∃ dataBytes, extract #v[0x12, 0x34, 0, 0, 0, 0, 0, 0] 0 16 [] = .ok dataBytes ∧
      (AssemblyExact false dataBytes ↔
        ShiftsFit ⟨0, 16, false, false, 1, 0, 0, 0, [], [], [], []⟩ #v[0x12, 0x34, 0, 0, 0, 0, 0, 0]) :=
  assembly_exact_iff ⟨0, 16, false, false, 1, 0, 0, 0, [], [], [], []⟩ _ 2 (by decide) (by decide) (by decide)

/-- Four bytes with the top bit set: the last shift makes a negative `int`. -/
theorem assembly_exact_topBit :
    ¬ ∀ (signal : CanSignal) (input : CanData) (dlc : UInt8), signal.len ≠ 0 → dlc.toNat ≤ 8 →
      signal.startBit.toNat + signal.len.toNat ≤ 8 * dlc.toNat →
      ∃ dataBytes, extract input signal.startBit.toNat signal.len.toNat [] = .ok dataBytes ∧
        AssemblyExact signal.isBigEndian dataBytes := by
  intro h
  obtain ⟨dataBytes, cut, exact⟩ := h ⟨0, 32, false, false, 1, 0, 0, 0, [], [], [], []⟩ #v[0, 0, 0, 0x80, 0, 0, 0, 0] 4
    (by decide) (by decide) (by decide)
  have bytes : extract #v[0, 0, 0, 0x80, 0, 0, 0, 0] 0 32 [] = .ok [0, 0, 0, 0x80] := by decide +kernel
  obtain rfl := Except.ok.inj (bytes.symm.trans cut)
  exact absurd (((assemblyExact_little _).mp exact).2 0x80 rfl) (by decide)

end CanSignal
end CanTracer
