import Mathlib.Data.Nat.Bitwise
import Mathlib.Tactic.Common

/-! # Masks and shifts by bits

What is left of a number under a mask or a shift are some of its bits. A
family of masks and shifts tells all numbers of a width apart exactly when
every bit is left by one of them. -/
namespace Libtorque.Lib

variable {x y m n k : Nat}

theorem and_eq_and_iff :
    x &&& m = y &&& m ↔ ∀ i, m.testBit i = true → x.testBit i = y.testBit i := by
  constructor
  · intro h i hi
    have hbit := congrArg (fun n => n.testBit i) h
    simpa [Nat.testBit_and, hi] using hbit
  · intro h
    apply Nat.eq_of_testBit_eq
    intro i
    rw [Nat.testBit_and, Nat.testBit_and]
    cases hm : m.testBit i with
    | true => rw [h i hm]
    | false => rw [Bool.and_false, Bool.and_false]

theorem div_two_pow_eq_iff :
    x / 2 ^ k = y / 2 ^ k ↔ ∀ i, k ≤ i → x.testBit i = y.testBit i := by
  constructor
  · intro h i hi
    have hbit := congrArg (fun n => n.testBit (i - k)) h
    simpa [Nat.testBit_div_two_pow, Nat.sub_add_cancel hi] using hbit
  · intro h
    apply Nat.eq_of_testBit_eq
    intro i
    rw [Nat.testBit_div_two_pow, Nat.testBit_div_two_pow]
    exact h (i + k) (by omega)

/-- The mask `n - 1` has the lowest `k` bits when `2 ^ k` divides `n`. -/
theorem testBit_pred_iff (hn : 0 < n) :
    (∀ i, i < k → (n - 1).testBit i = true) ↔ 2 ^ k ∣ n := by
  have hpos : 0 < 2 ^ k := Nat.two_pow_pos k
  have hones : (∀ i, i < k → (n - 1).testBit i = true) ↔ (n - 1) % 2 ^ k = 2 ^ k - 1 := by
    constructor
    · intro h
      apply Nat.eq_of_testBit_eq
      intro i
      rw [Nat.testBit_mod_two_pow, Nat.testBit_two_pow_sub_one]
      by_cases hi : i < k
      · rw [h i hi, Bool.and_true]
      · rw [decide_eq_false hi, Bool.false_and]
    · intro h i hi
      have hbit := congrArg (fun n => n.testBit i) h
      simpa [Nat.testBit_mod_two_pow, Nat.testBit_two_pow_sub_one, hi] using hbit
  rw [hones]
  constructor
  · intro h
    have hdiv := Nat.div_add_mod (n - 1) (2 ^ k)
    refine ⟨(n - 1) / 2 ^ k + 1, ?_⟩
    rw [Nat.mul_add]
    omega
  · intro h
    obtain ⟨c, hc⟩ := h
    obtain ⟨d, rfl⟩ : ∃ d, c = d + 1 := by
      refine ⟨c - 1, ?_⟩
      have hne : c ≠ 0 := by
        intro h0
        rw [h0, Nat.mul_zero] at hc
        omega
      omega
    have hsub : n - 1 = 2 ^ k * d + (2 ^ k - 1) := by
      rw [hc, Nat.mul_add]
      omega
    rw [hsub, Nat.mul_add_mod, Nat.mod_eq_of_lt (by omega)]

/-- A number below `2 ^ (k + 1)` that `2 ^ k` divides, and not 0, is `2 ^ k`. -/
theorem eq_two_pow_of_dvd (hn : 0 < n) (hlt : n < 2 ^ (k + 1)) (h : 2 ^ k ∣ n) : n = 2 ^ k := by
  obtain ⟨c, hc⟩ := h
  rw [Nat.pow_succ, hc] at hlt
  have hlt2 : c < 2 := Nat.lt_of_mul_lt_mul_left hlt
  have hne : c ≠ 0 := by
    intro h0
    rw [h0, Nat.mul_zero] at hc
    omega
  have hone : c = 1 := by omega
  rw [hc, hone, Nat.mul_one]

/-- Numbers of `w` bits are told apart by the bits in `c` when these are all. -/
theorem separates_iff {w : Nat} {c : Nat → Prop} :
    (∀ x y : BitVec w, (∀ i, c i → x.toNat.testBit i = y.toNat.testBit i) → x = y) ↔
      ∀ i, i < w → c i := by
  constructor
  · intro h i hi
    by_contra hc
    -- the two numbers differ in the one bit `i`
    have heq : BitVec.ofNat w (2 ^ i) = BitVec.ofNat w 0 := by
      refine h _ _ fun j hj => ?_
      have hne : i ≠ j := by
        intro h
        rw [h] at hc
        exact hc hj
      rw [BitVec.toNat_ofNat, BitVec.toNat_ofNat, Nat.testBit_mod_two_pow,
        Nat.testBit_mod_two_pow, Nat.testBit_two_pow_of_ne hne, Nat.zero_testBit]
    have hbit := congrArg (fun v : BitVec w => v.toNat.testBit i) heq
    rw [BitVec.toNat_ofNat, BitVec.toNat_ofNat, Nat.testBit_mod_two_pow,
      Nat.testBit_mod_two_pow, Nat.testBit_two_pow_self, Nat.zero_testBit,
      decide_eq_true hi] at hbit
    cases hbit
  · intro h x y hxy
    apply BitVec.eq_of_toNat_eq
    apply Nat.eq_of_testBit_eq
    intro i
    by_cases hi : i < w
    · exact hxy i (h i hi)
    · have hle : 2 ^ w ≤ 2 ^ i := Nat.pow_le_pow_right (by decide) (by omega)
      rw [Nat.testBit_lt_two_pow (Nat.lt_of_lt_of_le x.isLt hle),
        Nat.testBit_lt_two_pow (Nat.lt_of_lt_of_le y.isLt hle)]

end Libtorque.Lib
