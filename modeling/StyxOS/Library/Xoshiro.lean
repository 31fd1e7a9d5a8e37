import Mathlib.Data.Nat.Bitwise
import StyxOS.Library.OutputStream

/-! # The generator xoshiro256**

Its step is undone by another one, and four outputs in a row tell the state: the scrambler of an
output is undone first, then the linear step is solved for what the outputs have not shown.
-/

namespace Xoshiro

open OutputStream

/-- Rotation by `k` bits. -/
def rotl (x k : UInt64) : UInt64 := x <<< k ||| x >>> (64 - k)

structure State where
  s₀ : UInt64
  s₁ : UInt64
  s₂ : UInt64
  s₃ : UInt64
  deriving DecidableEq, Repr

def scramble (x : UInt64) : UInt64 := rotl (x * 5) 7 * 9

namespace State

def out (s : State) : UInt64 := scramble s.s₁

def step (s : State) : State where
  s₀ := s.s₀ ^^^ s.s₃ ^^^ s.s₁
  s₁ := s.s₁ ^^^ s.s₂ ^^^ s.s₀
  s₂ := s.s₂ ^^^ s.s₀ ^^^ s.s₁ <<< 17
  s₃ := rotl (s.s₃ ^^^ s.s₁) 45

end State

/-! ## The scrambler -/

theorem testBit_rotl {x k : UInt64} (hk : 0 < k.toNat) (hlt : k.toNat < 64) {i : ℕ} (hi : i < 64) :
    (rotl x k).toNat.testBit i = x.toNat.testBit ((i + (64 - k.toNat)) % 64) := by
  have hsub : (64 - k : UInt64).toNat = 64 - k.toNat :=
    UInt64.toNat_sub_of_le _ _ (UInt64.le_iff_toNat_le.mpr hlt.le)
  have hx := x.toNat_lt
  rw [rotl, UInt64.toNat_or, Nat.testBit_or, UInt64.toNat_shiftLeft, UInt64.toNat_shiftRight, hsub,
    Nat.testBit_mod_two_pow, Nat.testBit_shiftLeft, Nat.testBit_shiftRight,
    Nat.mod_eq_of_lt hlt, Nat.mod_eq_of_lt (by omega : 64 - k.toNat < 64)]
  by_cases hik : i < k.toNat
  · have hmod : (i + (64 - k.toNat)) % 64 = 64 - k.toNat + i := by omega
    simp [hmod, hi, Nat.not_le.mpr hik]
  · have hmod : (i + (64 - k.toNat)) % 64 = i - k.toNat := by omega
    have hover : x.toNat.testBit (64 - k.toNat + i) = false :=
      Nat.testBit_lt_two_pow (hx.trans_le (Nat.pow_le_pow_right (by decide) (by omega)))
    simp [hmod, hi, Nat.le_of_not_lt hik, hover]

theorem rotl_rotl {k l : UInt64} (hk : 0 < k.toNat) (hl : 0 < l.toNat)
    (h : k.toNat + l.toNat = 64) (x : UInt64) : rotl (rotl x k) l = x := by
  refine UInt64.toNat_inj.mp (Nat.eq_of_testBit_eq fun i => ?_)
  by_cases hi : i < 64
  · rw [testBit_rotl hl (by omega) hi, testBit_rotl hk (by omega) (Nat.mod_lt _ (by decide))]
    congr 1
    omega
  · have hpow : 2 ^ 64 ≤ 2 ^ i := Nat.pow_le_pow_right (by decide) (Nat.le_of_not_lt hi)
    rw [Nat.testBit_lt_two_pow ((UInt64.toNat_lt _).trans_le hpow),
      Nat.testBit_lt_two_pow ((UInt64.toNat_lt _).trans_le hpow)]

/-- The inverse of the scrambler: 5 and 9 have inverses modulo `2 ^ 64`. -/
def unscramble (y : UInt64) : UInt64 := rotl (y * 0x8E38E38E38E38E39) 57 * 0xCCCCCCCCCCCCCCCD

theorem unscramble_scramble (x : UInt64) : unscramble (scramble x) = x := by
  have h9 : (9 : UInt64) * 0x8E38E38E38E38E39 = 1 := by decide
  have h5 : (5 : UInt64) * 0xCCCCCCCCCCCCCCCD = 1 := by decide
  rw [unscramble, scramble, UInt64.mul_assoc, h9, UInt64.mul_one,
    rotl_rotl (by decide) (by decide) (by decide), UInt64.mul_assoc, h5, UInt64.mul_one]

theorem scramble_unscramble (y : UInt64) : scramble (unscramble y) = y := by
  have h9 : (0x8E38E38E38E38E39 : UInt64) * 9 = 1 := by decide
  have h5 : (0xCCCCCCCCCCCCCCCD : UInt64) * 5 = 1 := by decide
  rw [unscramble, scramble, UInt64.mul_assoc, h5, UInt64.mul_one,
    rotl_rotl (by decide) (by decide) (by decide), UInt64.mul_assoc, h9, UInt64.mul_one]

/-! ## The step -/

theorem xor_cancel_left (x y : UInt64) : x ^^^ (x ^^^ y) = y := by
  rw [← UInt64.xor_assoc, UInt64.xor_self, UInt64.zero_xor]

theorem xor_left_comm (x y z : UInt64) : x ^^^ (y ^^^ z) = y ^^^ (x ^^^ z) := by
  rw [← UInt64.xor_assoc, UInt64.xor_comm x, UInt64.xor_assoc]

def xorshift (k x : UInt64) : UInt64 := x ^^^ x <<< k

theorem xorshift_xorshift (k l x : UInt64) :
    xorshift k (xorshift l x) = x ^^^ (x <<< l ^^^ (x <<< k ^^^ x <<< l <<< k)) := by
  rw [xorshift, xorshift, UInt64.shiftLeft_xor, UInt64.xor_assoc]

theorem xorshift_17 (x : UInt64) : xorshift 17 (xorshift 17 x) = xorshift 34 x := by
  have hadd : x <<< 17 <<< 17 = x <<< 34 :=
    (UInt64.shiftLeft_add (b := 17) (c := 17) (by decide) (by decide) (by decide)).symm
  rw [xorshift_xorshift, xor_cancel_left, hadd, xorshift]

theorem xorshift_34 (x : UInt64) : xorshift 34 (xorshift 34 x) = x := by
  have hout : x <<< 34 <<< 34 = 0 := by
    refine UInt64.toNat_inj.mp (Nat.eq_of_testBit_eq fun i => ?_)
    simp only [UInt64.toNat_shiftLeft, Nat.testBit_mod_two_pow, Nat.testBit_shiftLeft,
      UInt64.reduceToNat, Nat.reduceMod, Nat.zero_testBit]
    grind
  rw [xorshift_xorshift, xor_cancel_left, hout, UInt64.xor_zero]

theorem xorshift_comm (x : UInt64) :
    xorshift 17 (xorshift 34 x) = xorshift 34 (xorshift 17 x) := by
  have hleft : x <<< 34 <<< 17 = x <<< 51 :=
    (UInt64.shiftLeft_add (b := 34) (c := 17) (by decide) (by decide) (by decide)).symm
  have hright : x <<< 17 <<< 34 = x <<< 51 :=
    (UInt64.shiftLeft_add (b := 17) (c := 34) (by decide) (by decide) (by decide)).symm
  rw [xorshift_xorshift, xorshift_xorshift, hleft, hright, xor_left_comm (x <<< 34)]

/-- The inverse of `xorshift 17`. -/
def unshift (y : UInt64) : UInt64 := xorshift 34 (xorshift 17 y)

theorem unshift_xorshift (x : UInt64) : unshift (xorshift 17 x) = x := by
  rw [unshift, xorshift_17, xorshift_34]

theorem xorshift_unshift (y : UInt64) : xorshift 17 (unshift y) = y := by
  rw [unshift, xorshift_comm, xorshift_17, xorshift_34]

namespace State

def undo (s : State) : State where
  s₀ := s.s₀ ^^^ rotl s.s₃ 19
  s₁ := unshift (s.s₁ ^^^ s.s₂)
  s₂ := s.s₁ ^^^ (s.s₀ ^^^ rotl s.s₃ 19) ^^^ unshift (s.s₁ ^^^ s.s₂)
  s₃ := rotl s.s₃ 19 ^^^ unshift (s.s₁ ^^^ s.s₂)

theorem undo_step (s : State) : s.step.undo = s := by
  obtain ⟨a, b, c, d⟩ := s
  have hb : unshift ((b ^^^ c ^^^ a) ^^^ (c ^^^ a ^^^ b <<< 17)) = b := by
    have hshift : (b ^^^ c ^^^ a) ^^^ (c ^^^ a ^^^ b <<< 17) = xorshift 17 b := by
      rw [UInt64.xor_assoc b, UInt64.xor_assoc, xor_cancel_left, xorshift]
    rw [hshift, unshift_xorshift]
  have hd : rotl (rotl (d ^^^ b) 45) 19 = d ^^^ b :=
    rotl_rotl (by decide) (by decide) (by decide) _
  simp only [step, undo, hd, hb, mk.injEq, true_and]
  refine ⟨?_, ?_, ?_⟩ <;> simp only [UInt64.xor_comm, xor_left_comm, xor_cancel_left,
    UInt64.xor_self, UInt64.xor_zero]

theorem step_undo (s : State) : s.undo.step = s := by
  obtain ⟨a, b, c, d⟩ := s
  have hd : rotl (rotl d 19) 45 = d := rotl_rotl (by decide) (by decide) (by decide) _
  have hshift : unshift (b ^^^ c) <<< 17 = b ^^^ c ^^^ unshift (b ^^^ c) := by
    have hback : unshift (b ^^^ c) ^^^ unshift (b ^^^ c) <<< 17 = b ^^^ c := xorshift_unshift _
    rw [← xor_cancel_left (unshift (b ^^^ c)) (unshift (b ^^^ c) <<< 17), hback, UInt64.xor_comm]
  have hd' : rotl (rotl d 19 ^^^ unshift (b ^^^ c) ^^^ unshift (b ^^^ c)) 45 = d := by
    rw [UInt64.xor_assoc, UInt64.xor_self, UInt64.xor_zero, hd]
  simp only [step, undo, hd', hshift, mk.injEq, and_true]
  refine ⟨?_, ?_, ?_⟩ <;> simp only [UInt64.xor_assoc, UInt64.xor_comm, xor_left_comm,
    xor_cancel_left, UInt64.xor_self, UInt64.xor_zero]

/-! ## Four outputs -/

/-- The state behind the first of four outputs, from the words that were scrambled. -/
def second (b₀ b₁ b₂ b₃ : UInt64) : State :=
  let c₁ := b₁ ^^^ b₀ ^^^ b₀ <<< 17
  let a₁ := b₂ ^^^ b₁ ^^^ c₁
  let c₂ := c₁ ^^^ a₁ ^^^ b₁ <<< 17
  { s₀ := a₁, s₁ := b₁, s₂ := c₁, s₃ := b₃ ^^^ b₂ ^^^ c₂ ^^^ a₁ ^^^ b₁ }

def ofOutputs : List UInt64 → State
  | [o₀, o₁, o₂, o₃] =>
    (second (unscramble o₀) (unscramble o₁) (unscramble o₂) (unscramble o₃)).undo
  | _ => ⟨0, 0, 0, 0⟩

theorem second_eq (s : State) :
    second s.s₁ s.step.s₁ s.step.step.s₁ s.step.step.step.s₁ = s.step := by
  obtain ⟨a, b, c, d⟩ := s
  simp only [second, step, mk.injEq, true_and]
  refine ⟨?_, ?_, ?_⟩ <;> simp only [UInt64.xor_assoc, UInt64.xor_comm, xor_left_comm,
    xor_cancel_left, UInt64.xor_self, UInt64.xor_zero]

theorem ofOutputs_outputs (s : State) : ofOutputs (outputs step out 4 s) = s := by
  simp only [outputs, ofOutputs, out, unscramble_scramble]
  rw [second_eq, undo_step]

theorem outputs_ofOutputs {os : List UInt64} (h : os.length = 4) :
    outputs step out 4 (ofOutputs os) = os := by
  obtain ⟨o₀, o₁, o₂, o₃, rfl⟩ := List.length_eq_four.mp h
  have hfirst (b₀ b₁ b₂ b₃ : UInt64) : (second b₀ b₁ b₂ b₃).undo.s₁ = b₀ := by
    have hshift : b₁ ^^^ (b₁ ^^^ b₀ ^^^ b₀ <<< 17) = xorshift 17 b₀ := by
      rw [UInt64.xor_assoc b₁, xor_cancel_left, xorshift]
    change unshift (b₁ ^^^ (b₁ ^^^ b₀ ^^^ b₀ <<< 17)) = b₀
    rw [hshift, unshift_xorshift]
  have hrest (b₀ b₁ b₂ b₃ : UInt64) : (second b₀ b₁ b₂ b₃).step.s₁ = b₂ ∧
      (second b₀ b₁ b₂ b₃).step.step.s₁ = b₃ := by
    simp only [second, step]
    refine ⟨?_, ?_⟩ <;> simp only [UInt64.xor_assoc, UInt64.xor_comm, xor_left_comm,
      xor_cancel_left, UInt64.xor_self, UInt64.xor_zero]
  simp only [outputs, ofOutputs, out, step_undo, hfirst, hrest]
  simp only [second, scramble_unscramble]

end State

end Xoshiro
