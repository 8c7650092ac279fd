import Mathlib.Data.Nat.Bitwise
import Mathlib.Data.Nat.Digits.Defs
import Mathlib.Algebra.BigOperators.Intervals
import Mathlib.Tactic.Ring

/-!
# Bit windows of a number

`window n s len` is the number made of the bits `s`, …, `s + len - 1` of `n`. Cutting a window
in two is `window_add`; its bits, its value as a sum and its zero test follow.
-/

namespace Bits

def window (n s len : Nat) : Nat := n / 2 ^ s % 2 ^ len

theorem window_lt (n s len : Nat) : window n s len < 2 ^ len := Nat.mod_lt _ (Nat.two_pow_pos len)

@[simp] theorem window_zero (n s : Nat) : window n s 0 = 0 := by simp [window, Nat.mod_one]

theorem window_add (n s a b : Nat) : window n s (a + b) = window n s a + 2 ^ a * window n (s + a) b := by
  unfold window
  rw [Nat.pow_add 2 a b, Nat.mod_mul, Nat.div_div_eq_div_mul, ← Nat.pow_add]

theorem testBit_window (n s len i : Nat) :
    (window n s len).testBit i = (decide (i < len) && n.testBit (s + i)) := by
  rw [window, Nat.testBit_mod_two_pow, Nat.testBit_div_two_pow, Nat.add_comm]

theorem window_one (n s : Nat) : window n s 1 = (n.testBit s).toNat := by
  rw [window, Nat.pow_one, Nat.testBit_eq_decide_div_mod_eq]
  rcases Nat.mod_two_eq_zero_or_one (n / 2 ^ s) with h | h <;> simp [h]

theorem window_eq_sum (n s len : Nat) :
    window n s len = ∑ i ∈ Finset.range len, (n.testBit (s + i)).toNat * 2 ^ i := by
  induction len with
  | zero => simp
  | succ len ih => rw [window_add, ih, window_one, Finset.sum_range_succ, Nat.mul_comm (2 ^ len)]

theorem window_eq_zero_iff (n s len : Nat) : window n s len = 0 ↔ ∀ i < len, n.testBit (s + i) = false := by
  constructor
  · intro h i hi
    have bit := testBit_window n s len i
    rw [h, Nat.zero_testBit, decide_eq_true hi, Bool.true_and] at bit
    exact bit.symm
  · intro h
    apply Nat.eq_of_testBit_eq
    intro i
    rw [testBit_window, Nat.zero_testBit]
    by_cases hi : i < len
    · rw [h i hi, Bool.and_false]
    · rw [decide_eq_false hi, Bool.false_and]

theorem lt_two_pow_iff (n len : Nat) : n < 2 ^ len ↔ ∀ t, len ≤ t → n.testBit t = false :=
  ⟨fun h _ ht => Nat.testBit_lt_two_pow (Nat.lt_of_lt_of_le h (Nat.pow_le_pow_right (by decide) ht)),
    fun h => Nat.lt_pow_two_of_testBit n h⟩

theorem half_le_iff {n len : Nat} (h : n < 2 ^ (len + 1)) : 2 ^ len ≤ n ↔ n.testBit len = true := by
  rw [← Nat.not_lt, lt_two_pow_iff, ← Bool.not_eq_false, not_iff_not]
  refine ⟨fun low => low len (Nat.le_refl len), fun top t ht => ?_⟩
  rcases Nat.eq_or_lt_of_le ht with rfl | above
  · exact top
  · exact (lt_two_pow_iff n (len + 1)).mp h t above

theorem half_le_window_iff (n s len : Nat) :
    2 ^ len ≤ window n s (len + 1) ↔ n.testBit (s + len) = true := by
  rw [half_le_iff (window_lt n s (len + 1)), testBit_window, decide_eq_true (Nat.lt_succ_self len), Bool.true_and]

theorem window_window (n s len t k : Nat) (h : t + k ≤ len) :
    window (window n s len) t k = window n (s + t) k := by
  apply Nat.eq_of_testBit_eq
  intro i
  rw [testBit_window, testBit_window, testBit_window]
  by_cases hi : i < k
  · rw [decide_eq_true (show t + i < len by omega), Bool.true_and, Nat.add_assoc]
  · rw [decide_eq_false hi, Bool.false_and, Bool.false_and]

theorem and_mask (n k : Nat) : n &&& ((1 <<< k) - 1) = n % 2 ^ k := by
  rw [Nat.one_shiftLeft, Nat.and_two_pow_sub_one_eq_mod]

/-! ### Lists of bits -/

/-- The bits of a window, lowest first. -/
def bits (n s len : Nat) : List Bool := (List.range len).map fun k => n.testBit (s + k)

theorem bits_add (n s a b : Nat) : bits n s (a + b) = bits n s a ++ bits n (s + a) b := by
  rw [bits, List.range_add, List.map_append, List.map_map, bits, bits]
  congr 1
  refine List.map_congr_left fun k _ => ?_
  rw [Function.comp_apply, Nat.add_assoc]

theorem bits_window (n s len : Nat) : bits (window n s len) 0 len = bits n s len := by
  refine List.map_congr_left fun k hk => ?_
  rw [Nat.zero_add, testBit_window, decide_eq_true (List.mem_range.mp hk), Bool.true_and]

/-! ### Digits in base 256 -/

theorem ofDigits_bytes_lt (ds : List UInt8) :
    Nat.ofDigits 256 (ds.map (·.toNat)) < 2 ^ (8 * ds.length) := by
  have bound := Nat.ofDigits_lt_base_pow_length (b := 256) (l := ds.map (·.toNat)) (by decide) fun x hx => by
    obtain ⟨b, -, rfl⟩ := List.mem_map.mp hx
    exact b.toNat_lt
  rwa [List.length_map, show (256 : Nat) = 2 ^ 8 by rfl, ← Nat.pow_mul] at bound

theorem testBit_ofDigits (ds : List Nat) (h : ∀ d ∈ ds, d < 256) (i : Nat) :
    (Nat.ofDigits 256 ds).testBit i = (ds.getD (i / 8) 0).testBit (i % 8) := by
  induction ds generalizing i with
  | nil => simp
  | cons d ds ih =>
    have hd : d < 2 ^ 8 := h d List.mem_cons_self
    rw [Nat.ofDigits_cons, show d + 256 * Nat.ofDigits 256 ds = 2 ^ 8 * Nat.ofDigits 256 ds + d by ring,
      Nat.testBit_two_pow_mul_add _ hd]
    split
    · rename_i hi
      rw [Nat.div_eq_of_lt hi, Nat.mod_eq_of_lt hi]
      rfl
    · rename_i hi
      rw [ih (fun x hx => h x (List.mem_cons_of_mem _ hx)), show i / 8 = (i - 8) / 8 + 1 by omega,
        show i % 8 = (i - 8) % 8 by omega]
      rfl

end Bits
