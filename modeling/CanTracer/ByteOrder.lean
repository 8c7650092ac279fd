import Mathlib.Data.Nat.Digits.Lemmas

/-!
# Little-endian fields

Numbers of a fixed width as bytes, least significant first.
-/

namespace ByteOrder

def encode : Nat → Nat → List UInt8
  | 0, _ => []
  | width + 1, n => (n % 256).toUInt8 :: encode width (n / 256)

def decode (bytes : List UInt8) : Nat := Nat.ofDigits 256 (bytes.map (·.toNat))

@[simp] theorem encode_length (width n : Nat) : (encode width n).length = width := by
  induction width generalizing n with
  | zero => rfl
  | succ width ih => rw [encode, List.length_cons, ih]

theorem decode_encode (width n : Nat) (h : n < 256 ^ width) : decode (encode width n) = n := by
  induction width generalizing n with
  | zero =>
    rw [Nat.pow_zero] at h
    rw [Nat.lt_one_iff.mp h]
    rfl
  | succ width ih =>
    have high : n / 256 < 256 ^ width := Nat.div_lt_of_lt_mul (by rwa [Nat.pow_succ, Nat.mul_comm] at h)
    have low : (n % 256).toUInt8.toNat = n % 256 :=
      UInt8.toNat_ofNat_of_lt' (Nat.mod_lt _ (by decide))
    have tail := ih (n / 256) high
    rw [decode] at tail ⊢
    rw [encode, List.map_cons, Nat.ofDigits_cons, tail, low]
    exact Nat.mod_add_div n 256

theorem encode_decode (bytes : List UInt8) : encode bytes.length (decode bytes) = bytes := by
  induction bytes with
  | nil => rfl
  | cons b bytes ih =>
    have low : (b.toNat + 256 * decode bytes) % 256 = b.toNat := by
      rw [Nat.add_mul_mod_self_left, Nat.mod_eq_of_lt b.toNat_lt]
    have high : (b.toNat + 256 * decode bytes) / 256 = decode bytes := by
      rw [Nat.add_mul_div_left _ _ (by decide), Nat.div_eq_of_lt b.toNat_lt, Nat.zero_add]
    rw [List.length_cons, decode, List.map_cons, Nat.ofDigits_cons]
    change encode (bytes.length + 1) (b.toNat + 256 * decode bytes) = b :: bytes
    rw [encode, low, high, ih, Nat.toUInt8_eq, UInt8.ofNat_toNat]

end ByteOrder
