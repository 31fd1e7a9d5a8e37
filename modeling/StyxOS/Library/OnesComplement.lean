import Mathlib.Data.Nat.ModEq
import Mathlib.Tactic

/-! # One's complement sums

Words of a radix are added with the carry brought around to the low end. The
sum is the residue modulo the radix less one, written as the radix less one
where words that are not all zero add up to a multiple of it. So a word that
complements a sum makes it all ones.
-/

namespace OnesComplement

variable {B : ℕ}

/-- Addition with the carry brought around. -/
def add (B a b : ℕ) : ℕ := (a + b) % B + (a + b) / B

def sum (B : ℕ) (ws : List ℕ) : ℕ := ws.foldl (add B) 0

def fold (B s : ℕ) : ℕ := s % B + s / B

theorem fold_modEq (hB : 0 < B) (s : ℕ) : fold B s ≡ s [MOD B - 1] := by
  have hone : B ≡ 1 [MOD B - 1] := ((Nat.modEq_iff_dvd' hB).mpr (dvd_refl _)).symm
  calc s % B + s / B = s % B + 1 * (s / B) := by rw [Nat.one_mul]
    _ ≡ s % B + B * (s / B) [MOD B - 1] := (hone.symm.mul_right _).add_left _
    _ = s := Nat.mod_add_div s B

theorem fold_pos {s : ℕ} : 0 < fold B s ↔ 0 < s := by
  have hdiv := Nat.mod_add_div s B
  rw [fold]
  constructor
  · intro h
    by_contra hs
    obtain rfl : s = 0 := by omega
    simp at h
  · intro h
    by_contra hs
    obtain ⟨hmod, hquot⟩ := Nat.add_eq_zero_iff.mp (Nat.eq_zero_of_not_pos hs)
    rw [hmod, hquot] at hdiv
    omega

theorem add_lt {a b : ℕ} (ha : a < B) (hb : b < B) : add B a b < B := by
  rw [add]
  by_cases h : a + b < B
  · rwa [Nat.mod_eq_of_lt h, Nat.div_eq_of_lt h]
  · have hquot : (a + b) / B = 1 := Nat.div_eq_of_lt_le (by omega) (by omega)
    have hdiv := Nat.mod_add_div (a + b) B
    rw [hquot] at hdiv ⊢
    omega

theorem foldl_add (hB : 0 < B) {ws : List ℕ} {a : ℕ} (ha : a < B) (hws : ∀ w ∈ ws, w < B) :
    ws.foldl (add B) a < B ∧ ws.foldl (add B) a ≡ a + ws.sum [MOD B - 1] ∧
      (0 < ws.foldl (add B) a ↔ 0 < a + ws.sum) := by
  induction ws generalizing a with
  | nil => exact ⟨ha, Nat.ModEq.rfl, Iff.rfl⟩
  | cons w ws ih =>
    obtain ⟨hw, hws⟩ := List.forall_mem_cons.mp hws
    obtain ⟨hlt, hmod, hpos⟩ := ih (add_lt ha hw) hws
    rw [List.foldl_cons, List.sum_cons, ← Nat.add_assoc]
    refine ⟨hlt, hmod.trans ((fold_modEq hB (a + w)).add_right _), hpos.trans ?_⟩
    have hfold : 0 < add B a w ↔ 0 < a + w := fold_pos
    omega

/-- Words sum up to all ones when they add up to a multiple of the radix less one, and not all of
them are zero. -/
theorem sum_eq_ones_iff (hB : 2 ≤ B) {ws : List ℕ} (hws : ∀ w ∈ ws, w < B) :
    sum B ws = B - 1 ↔ B - 1 ∣ ws.sum ∧ 0 < ws.sum := by
  obtain ⟨hlt, hmod, hpos⟩ := foldl_add (a := 0) (by omega) (by omega) hws
  rw [Nat.zero_add] at hmod hpos
  rw [sum]
  constructor
  · intro h
    rw [h] at hmod hpos
    exact ⟨(Nat.modEq_zero_iff_dvd.mp (hmod.symm.trans (Nat.mod_self _))), hpos.mp (by omega)⟩
  · rintro ⟨hdvd, hsum⟩
    have hzero := hmod.trans (Nat.modEq_zero_iff_dvd.mpr hdvd)
    have hle : B - 1 ≤ ws.foldl (add B) 0 :=
      Nat.le_of_dvd (hpos.mpr hsum) (Nat.modEq_zero_iff_dvd.mp hzero)
    omega

theorem dvd_add_complement {s f : ℕ} (hf : f ≡ s [MOD B - 1]) (hle : f ≤ B - 1) :
    B - 1 ∣ s + (B - 1 - f) := by
  have h : s + (B - 1 - f) ≡ f + (B - 1 - f) [MOD B - 1] := hf.symm.add_right _
  rw [Nat.add_sub_cancel' hle] at h
  exact Nat.modEq_zero_iff_dvd.mp (h.trans (Nat.mod_self _))

end OnesComplement
