import StyxOS.Library.BitPoly

/-! # Products of numbers read as polynomials

A product modulo a polynomial is taken one bit at a time: a number is added for
every bit of the first factor, and shifted with its lost bit folded back in
between. A sum taken by Horner's rule modulo a polynomial is the sum of the
terms with their powers.
-/

open Polynomial

section Remainder

variable {R : Type*} [CommRing R] (p q r : R[X])

theorem modByMonic_modByMonic : p %ₘ q %ₘ q = p %ₘ q := by
  by_cases hq : q.Monic
  · exact modByMonic_eq_of_dvd_sub hq (dvd_modByMonic_sub p q)
  · rw [modByMonic_eq_of_not_monic p hq, modByMonic_eq_of_not_monic p hq]

theorem modByMonic_mul : (p %ₘ q * r) %ₘ q = (p * r) %ₘ q := by
  rw [mul_modByMonic, modByMonic_modByMonic, ← mul_modByMonic]

theorem mul_modByMonic_right : (p * (r %ₘ q)) %ₘ q = (p * r) %ₘ q := by
  rw [mul_comm, modByMonic_mul, mul_comm]

end Remainder

section Product

variable {w c x n : ℕ}

/-- One turn of the product by shifts, on the sum so far and the shifted factor. -/
def productStep (w c x : ℕ) (zv : ℕ × ℕ) (i : ℕ) : ℕ × ℕ :=
  (if x.testBit i then zv.1 ^^^ zv.2 else zv.1, shiftReduce w c zv.2)

/-- The product of two numbers by shifts over the `w` bits of the first one. -/
def bitProduct (w c x y : ℕ) : ℕ := ((List.range w).foldl (productStep w c x) (0, y)).1

theorem bitPoly_succ (n x : ℕ) :
    bitPoly (n + 1) x = bitPoly n x + if x.testBit n then X ^ n else 0 :=
  Finset.sum_range_succ _ _

theorem bitPoly_modByMonic (w c n : ℕ) : bitPoly w n %ₘ (X ^ w + bitPoly w c) = bitPoly w n := by
  have hdegree : (X ^ w + bitPoly w c).degree = (w : WithBot ℕ) := by
    rw [degree_add_eq_left_of_degree_lt (by rw [degree_X_pow]; exact degree_bitPoly_lt),
      degree_X_pow]
  rw [modByMonic_eq_self_iff (monic_X_pow_add degree_bitPoly_lt), hdegree]
  exact degree_bitPoly_lt

/-- After `n` turns the sum is the product with the low `n` bits, and the factor has moved by
`X ^ n`. -/
theorem bitPoly_foldl_productStep (hw : 0 < w) (y : ℕ) (n : ℕ) :
    bitPoly w ((List.range n).foldl (productStep w c x) (0, y)).1 =
        (bitPoly n x * bitPoly w y) %ₘ (X ^ w + bitPoly w c) ∧
      bitPoly w ((List.range n).foldl (productStep w c x) (0, y)).2 =
        (X ^ n * bitPoly w y) %ₘ (X ^ w + bitPoly w c) := by
  induction n with
  | zero =>
    constructor
    · simp [bitPoly]
    · rw [pow_zero, one_mul, bitPoly_modByMonic]
      rfl
  | succ n ih =>
    obtain ⟨hz, hv⟩ := ih
    rw [List.range_succ, List.foldl_append, List.foldl_cons, List.foldl_nil]
    constructor
    · rw [bitPoly_succ, productStep]
      dsimp only
      split
      · rw [bitPoly_xor, hz, hv, ← add_modByMonic, ← add_mul]
      · rw [hz, add_zero]
    · rw [productStep, bitPoly_shiftReduce hw, hv, mul_modByMonic_right, pow_succ', mul_assoc]

theorem bitPoly_bitProduct (hw : 0 < w) (x y : ℕ) :
    bitPoly w (bitProduct w c x y) =
      (bitPoly w x * bitPoly w y) %ₘ (X ^ w + bitPoly w c) :=
  (bitPoly_foldl_productStep hw y w).1

theorem bitPoly_inj {m n : ℕ} (hm : m < 2 ^ w) (hn : n < 2 ^ w) (h : bitPoly w m = bitPoly w n) :
    m = n := by
  apply Nat.eq_of_testBit_eq
  intro i
  by_cases hi : i < w
  · have hc := congrArg (fun p => p.coeff i) h
    simp only [coeff_bitPoly, hi, true_and] at hc
    cases hmi : m.testBit i <;> cases hni : n.testBit i <;> simp_all
  · have hw : 2 ^ w ≤ 2 ^ i := Nat.pow_le_pow_right (by decide) (by omega)
    rw [Nat.testBit_lt_two_pow (hm.trans_le hw), Nat.testBit_lt_two_pow (hn.trans_le hw)]

end Product

section Horner

variable {R : Type*} [CommRing R] {q h : R[X]}

theorem foldl_horner (bs : List R[X]) (x : R[X]) :
    bs.foldl (fun x b => ((x + b) * h) %ₘ q) x %ₘ q =
      (x * h ^ bs.length +
        ∑ i ∈ Finset.range bs.length, bs.getD i 0 * h ^ (bs.length - i)) %ₘ q := by
  induction bs generalizing x with
  | nil => simp
  | cons b bs ih =>
    have hsum : ∑ i ∈ Finset.range (bs.length + 1),
          (b :: bs).getD i 0 * h ^ (bs.length + 1 - i) =
        (∑ i ∈ Finset.range bs.length, bs.getD i 0 * h ^ (bs.length - i)) +
          b * h ^ (bs.length + 1) := by
      rw [Finset.sum_range_succ']
      simp
    rw [List.foldl_cons, ih, List.length_cons, hsum, add_modByMonic, modByMonic_mul,
      ← add_modByMonic]
    congr 1
    ring

end Horner
