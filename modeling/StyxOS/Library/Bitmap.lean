import Mathlib.Data.Nat.Bitwise
import Mathlib.Data.UInt
import Mathlib.Data.Finset.Card
import Mathlib.Tactic.NormNum
import Mathlib.Tactic.Positivity
import Mathlib.Tactic.Tauto

/-! # Bitmaps

An array of bytes read as an array of bits, eight to a byte with the low bit
first. Setting and clearing a bit leaves every other bit as it was, so the
clear bits below a bound lose or gain exactly that one.
-/

abbrev Bitmap := ℕ → UInt8

namespace Bitmap

/-- The byte with the bit of `f` alone. -/
def mask (f : ℕ) : UInt8 := 1 <<< UInt8.ofNat (f % 8)

/-- The bit of `f` is set. -/
def test (b : Bitmap) (f : ℕ) : Bool := b (f / 8) &&& mask f != 0

def set (b : Bitmap) (f : ℕ) : Bitmap := Function.update b (f / 8) (b (f / 8) ||| mask f)

def clear (b : Bitmap) (f : ℕ) : Bitmap := Function.update b (f / 8) (b (f / 8) &&& ~~~mask f)

variable {b : Bitmap} {f g n : ℕ}

theorem toNat_mask (f : ℕ) : (mask f).toNat = 2 ^ (f % 8) := by
  have h : ∀ i < 8, ((1 : UInt8) <<< UInt8.ofNat i).toNat = 2 ^ i := by decide
  exact h (f % 8) (Nat.mod_lt _ (by norm_num))

theorem test_eq : b.test f = (b (f / 8)).toNat.testBit (f % 8) := by
  have hz : b (f / 8) &&& mask f = 0 ↔ (b (f / 8)).toNat &&& 2 ^ (f % 8) = 0 := by
    rw [← UInt8.toNat_inj, UInt8.toNat_and, toNat_mask]
    rfl
  have hpow : 2 ^ (f % 8) ≠ 0 := by positivity
  rw [Nat.and_two_pow] at hz
  cases ht : (b (f / 8)).toNat.testBit (f % 8) with
  | true =>
    rw [ht] at hz
    have hne : b (f / 8) &&& mask f ≠ 0 := fun h => hpow (by simpa using hz.mp h)
    simpa [test] using hne
  | false =>
    rw [ht] at hz
    simpa [test] using hz

theorem testBit_not {x : UInt8} {i : ℕ} (hi : i < 8) :
    (~~~x).toNat.testBit i = !x.toNat.testBit i := by
  have hn : (~~~x).toNat = 2 ^ 8 - (x.toNat + 1) := by
    rw [UInt8.toNat_not]
    simp only [UInt8.size]
    omega
  rw [hn, Nat.testBit_two_pow_sub_succ x.toNat_lt]
  simp [hi]

theorem mod_ne (h : g ≠ f) (hd : g / 8 = f / 8) : g % 8 ≠ f % 8 := by omega

theorem test_set : (b.set f).test g = (b.test g || decide (g = f)) := by
  rw [test_eq, test_eq, set]
  by_cases hd : g / 8 = f / 8
  · rw [hd, Function.update_self, UInt8.toNat_or, Nat.testBit_or, toNat_mask,
      Nat.testBit_two_pow]
    by_cases hg : g = f
    · simp [hg]
    · simp [hg, (mod_ne hg hd).symm]
  · have hg : g ≠ f := fun h => hd (by rw [h])
    rw [Function.update_of_ne hd]
    simp [hg]

theorem test_clear : (b.clear f).test g = (b.test g && !decide (g = f)) := by
  rw [test_eq, test_eq, clear]
  by_cases hd : g / 8 = f / 8
  · have hlt : g % 8 < 8 := Nat.mod_lt _ (by norm_num)
    rw [hd, Function.update_self, UInt8.toNat_and, Nat.testBit_and, testBit_not hlt, toNat_mask,
      Nat.testBit_two_pow]
    by_cases hg : g = f
    · simp [hg]
    · simp [hg, (mod_ne hg hd).symm]
  · have hg : g ≠ f := fun h => hd (by rw [h])
    rw [Function.update_of_ne hd]
    simp [hg]

theorem test_of_full (h : b (f / 8) = 0xFF) : b.test f = true := by
  have hlt : f % 8 < 8 := Nat.mod_lt _ (by norm_num)
  have hff : (0xFF : UInt8).toNat = 2 ^ 8 - 1 := rfl
  rw [test_eq, h, hff, Nat.testBit_two_pow_sub_one]
  simpa using hlt

theorem test_foldl_set {fs : List ℕ} :
    (fs.foldl set b).test g = (b.test g || decide (g ∈ fs)) := by
  induction fs generalizing b with
  | nil => simp
  | cons f fs ih => rw [List.foldl_cons, ih, test_set]; simp [Bool.or_assoc]

theorem test_foldl_clear {fs : List ℕ} :
    (fs.foldl clear b).test g = (b.test g && !decide (g ∈ fs)) := by
  induction fs generalizing b with
  | nil => simp
  | cons f fs ih => rw [List.foldl_cons, ih, test_clear]; simp [Bool.and_assoc]

/-! ## The clear bits below a bound -/

/-- The bits below `n` that are clear. -/
def clearBits (b : Bitmap) (n : ℕ) : Finset ℕ := (Finset.range n).filter fun f => b.test f = false

@[simp] theorem mem_clearBits : f ∈ b.clearBits n ↔ f < n ∧ b.test f = false := by
  simp [clearBits]

theorem clearBits_set : (b.set f).clearBits n = (b.clearBits n).erase f := by
  ext g
  simp only [mem_clearBits, test_set, Finset.mem_erase, Bool.or_eq_false_iff,
    decide_eq_false_iff_not]
  tauto

theorem clearBits_clear (hf : f < n) : (b.clear f).clearBits n = insert f (b.clearBits n) := by
  ext g
  simp only [mem_clearBits, test_clear, Finset.mem_insert, Bool.and_eq_false_iff,
    Bool.not_eq_false', decide_eq_true_eq]
  constructor
  · rintro ⟨hg, h | rfl⟩
    · exact .inr ⟨hg, h⟩
    · exact .inl rfl
  · rintro (rfl | ⟨hg, h⟩)
    · exact ⟨hf, .inr rfl⟩
    · exact ⟨hg, .inl h⟩

theorem countP_range : (List.range n).countP (fun f => !b.test f) = (b.clearBits n).card := by
  induction n with
  | zero => rfl
  | succ n ih =>
    have hn : n ∉ b.clearBits n := by simp
    have hsucc : b.clearBits (n + 1) =
        if b.test n = false then insert n (b.clearBits n) else b.clearBits n := by
      rw [clearBits, Finset.range_add_one, Finset.filter_insert]
      rfl
    rw [List.range_succ, List.countP_append, ih, hsucc]
    cases h : b.test n with
    | true => simp [h]
    | false => simp [h]

end Bitmap
