import Mathlib.Algebra.Polynomial.Div
import Mathlib.Algebra.Polynomial.Degree.Monomial
import Mathlib.Tactic.LinearCombination
import Mathlib.Data.ZMod.Basic
import Mathlib.Algebra.CharP.Two
import Mathlib.Algebra.Field.ZMod

/-! # Numbers as polynomials over two elements

The bits of a number are the coefficients of a polynomial. Exclusive or is
addition, and a shift by one place that folds back the bit it loses is
multiplication by `X` modulo a polynomial of that degree.
-/

open Polynomial

/-- The polynomial that has the lowest bits of a number as coefficients. -/
noncomputable def bitPoly (w n : ℕ) : (ZMod 2)[X] :=
  ∑ i ∈ Finset.range w, if n.testBit i then X ^ i else 0

variable {w m n c : ℕ}

theorem coeff_bitPoly (w n i : ℕ) :
    (bitPoly w n).coeff i = if i < w ∧ n.testBit i = true then 1 else 0 := by
  have hterm : ∀ j, (if n.testBit j = true then (X ^ j : (ZMod 2)[X]) else 0).coeff i =
      if i = j then (if n.testBit i = true then 1 else 0) else 0 := by
    intro j
    by_cases hij : i = j
    · subst hij
      split <;> simp_all
    · split <;> simp [coeff_X_pow, hij]
  simp only [bitPoly, finsetSum_coeff, hterm, Finset.sum_ite_eq, Finset.mem_range]
  split_ifs <;> simp_all

theorem bitPoly_xor : bitPoly w (m ^^^ n) = bitPoly w m + bitPoly w n := by
  ext i
  rw [coeff_add, coeff_bitPoly, coeff_bitPoly, coeff_bitPoly, Nat.testBit_xor]
  by_cases hi : i < w
  · cases m.testBit i <;> cases n.testBit i <;> simp [hi]
    decide
  · simp [hi]

@[simp] theorem bitPoly_zero : bitPoly w 0 = 0 := by
  ext i
  simp [coeff_bitPoly]

theorem bitPoly_two_pow {i : ℕ} (hi : i < w) : bitPoly w (2 ^ i) = X ^ i := by
  ext j
  rw [coeff_bitPoly, coeff_X_pow, Nat.testBit_two_pow]
  by_cases hij : i = j
  · subst hij
    simp [hi]
  · simp [hij, Ne.symm hij]

theorem degree_bitPoly_lt : (bitPoly w n).degree < w := by
  rw [degree_lt_iff_coeff_zero]
  intro i hi
  rw [coeff_bitPoly, if_neg]
  exact fun h => absurd h.1 (Nat.not_lt.mpr hi)

theorem add_self_bitPoly : bitPoly w n + bitPoly w n = 0 := by
  rw [← bitPoly_xor, Nat.xor_self, bitPoly_zero]

/-- A number shifted by one place, with `c` added when its highest bit is lost. -/
def shiftReduce (w c n : ℕ) : ℕ := 2 * n % 2 ^ w ^^^ if n.testBit (w - 1) then c else 0

theorem X_mul_bitPoly (hw : 0 < w) :
    X * bitPoly w n = bitPoly w (2 * n % 2 ^ w) + if n.testBit (w - 1) then X ^ w else 0 := by
  ext i
  rw [coeff_add, coeff_bitPoly, Nat.testBit_mod_two_pow]
  cases i with
  | zero =>
    have hne : 0 ≠ w := hw.ne
    have heven : (2 * n).testBit 0 = false := by
      rw [Nat.testBit_zero, Nat.mul_mod_right]
      rfl
    rw [mul_coeff_zero, coeff_X_zero, zero_mul, heven]
    cases n.testBit (w - 1) <;> simp [coeff_X_pow, hne]
  | succ i =>
    have hshift : (2 * n).testBit (i + 1) = n.testBit i := by
      rw [Nat.testBit_succ, Nat.mul_div_cancel_left n (by decide)]
    rw [coeff_X_mul, coeff_bitPoly, hshift]
    by_cases hlast : i + 1 = w
    · subst hlast
      cases hbit : n.testBit i <;> simp [coeff_X_pow, hbit]
    · have hiff : i < w ↔ i + 1 < w := by omega
      cases n.testBit (w - 1) <;> simp [coeff_X_pow, hlast, hiff]

theorem bitPoly_shiftReduce (hw : 0 < w) :
    bitPoly w (shiftReduce w c n) = (X * bitPoly w n) %ₘ (X ^ w + bitPoly w c) := by
  have hmonic : (X ^ w + bitPoly w c).Monic := monic_X_pow_add degree_bitPoly_lt
  have hdegree : (X ^ w + bitPoly w c).degree = (w : WithBot ℕ) := by
    rw [degree_add_eq_left_of_degree_lt (by rw [degree_X_pow]; exact degree_bitPoly_lt),
      degree_X_pow]
  symm
  apply (div_modByMonic_unique (if n.testBit (w - 1) then 1 else 0) _ hmonic ⟨?_, ?_⟩).2
  · rw [X_mul_bitPoly hw, shiftReduce, bitPoly_xor]
    split
    · linear_combination add_self_bitPoly (w := w) (n := c)
    · rw [bitPoly_zero]
      ring
  · rw [hdegree]
    exact degree_bitPoly_lt

theorem bitPoly_fold : bitPoly 128 0x87 = X ^ 7 + X ^ 2 + X ^ 1 + X ^ 0 := by
  have hbits : 0x87 = 2 ^ 7 ^^^ 2 ^ 2 ^^^ 2 ^ 1 ^^^ 2 ^ 0 := by decide
  rw [hbits, bitPoly_xor, bitPoly_xor, bitPoly_xor]
  simp only [bitPoly_two_pow (w := 128), Nat.reduceLT]

theorem add_fold (p : (ZMod 2)[X]) : p + bitPoly 128 0x87 = p + X ^ 7 + X ^ 2 + X + 1 := by
  rw [bitPoly_fold]
  ring
