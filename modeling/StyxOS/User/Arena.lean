import Mathlib.Algebra.Group.Nat.Defs
import StyxOS.Library.Run

/-! # The arena of libstyx

`malloc` of `libstyx/styx.c` hands out the bytes of a static array in order and
never takes them back. The rounding of the size and its sum with the index are
taken modulo `2 ^ 64` before the bound is tested; the blocks are disjoint and
inside the array in exactly the runs in which neither wraps.
-/

namespace StyxOS

open StepSystem

/-- `sizeof(g_user_heap)`. -/
def userHeapSize : UInt64 := 64 * 1024

/-- `malloc`, from `g_user_heap_idx`: its next value, and the index of the byte that the pointer
refers to. -/
def malloc (idx size : UInt64) : UInt64 × Option UInt64 :=
  let size := (size + 7) &&& ~~~7
  if idx + size > userHeapSize then (idx, none) else (idx + size, some idx)

/-- A range of bytes of the arena, or of what lies behind it. -/
structure ArenaBlock where
  start : ℕ
  size : ℕ

/-- The block lies in the array. -/
def ArenaBlock.Inside (b : ArenaBlock) : Prop := b.start + b.size ≤ userHeapSize.toNat

/-- No byte is in both blocks. -/
def ArenaBlock.Apart (b c : ArenaBlock) : Prop :=
  ∀ x, ¬ ((b.start ≤ x ∧ x < b.start + b.size) ∧ c.start ≤ x ∧ x < c.start + c.size)

/-- `g_user_heap_idx`, and the blocks that were returned. -/
structure UserHeap where
  idx : UInt64
  blocks : List ArenaBlock

namespace UserHeap

def start : UserHeap := ⟨0, []⟩

/-- One call of `malloc`. -/
def step (s : UserHeap) (size : UInt64) : UserHeap where
  idx := (malloc s.idx size).1
  blocks := match (malloc s.idx size).2 with
    | none => s.blocks
    | some p => ⟨p.toNat, size.toNat⟩ :: s.blocks

/-- The call returns `NULL` and leaves the index, or a block in the array that is apart from those
returned before; the index stays in the array. -/
def HandsOut (s : UserHeap) (size : UInt64) : Prop :=
  (match (malloc s.idx size).2 with
    | none => (malloc s.idx size).1 = s.idx
    | some p => ArenaBlock.Inside ⟨p.toNat, size.toNat⟩ ∧
        ∀ b ∈ s.blocks, ArenaBlock.Apart ⟨p.toNat, size.toNat⟩ b) ∧
  (malloc s.idx size).1.toNat ≤ userHeapSize.toNat

/-- The index and the size rounded up to a multiple of 8 have their sum below `2 ^ 64`. -/
def NoWrap (s : UserHeap) (size : UInt64) : Prop :=
  s.idx.toNat + (size.toNat + 7) / 8 * 8 < 2 ^ 64

/-- The blocks lie before the index, which is in the array. -/
structure Inv (s : UserHeap) : Prop where
  idx_le : s.idx.toNat ≤ userHeapSize.toNat
  before : ∀ b ∈ s.blocks, b.start + b.size ≤ s.idx.toNat

variable {s : UserHeap} {size : UInt64}

theorem inv_start : Inv start where
  idx_le := by decide
  before := by
    intro b hb
    exact absurd hb List.not_mem_nil

theorem toNat_and_not_seven (x : UInt64) : (x &&& ~~~7).toNat = x.toNat / 8 * 8 := by
  have hmask : (~~~7 : UInt64).toNat = (2 ^ 61 - 1) <<< 3 := by decide
  have hshift : x.toNat / 8 * 8 = (x.toNat >>> 3) <<< 3 := by
    rw [Nat.shiftLeft_eq, Nat.shiftRight_eq_div_pow]
  apply Nat.eq_of_testBit_eq
  intro i
  rw [UInt64.toNat_and, hmask, hshift, Nat.testBit_and, Nat.testBit_shiftLeft,
    Nat.testBit_shiftLeft, Nat.testBit_shiftRight, Nat.testBit_two_pow_sub_one]
  by_cases hlow : 3 ≤ i
  · rw [Nat.add_sub_cancel' hlow]
    by_cases hhigh : i < 64
    · have h61 : i - 3 < 61 := by omega
      simp [hlow, h61]
    · have hbig : 2 ^ 64 ≤ 2 ^ i := Nat.pow_le_pow_right (by decide) (by omega)
      rw [Nat.testBit_lt_two_pow (Nat.lt_of_lt_of_le x.toNat_lt hbig)]
      simp
  · simp [hlow]

theorem toNat_rounded (size : UInt64) :
    ((size + 7) &&& ~~~7).toNat = (size.toNat + 7) / 8 * 8 % 2 ^ 64 := by
  have h7 : (7 : UInt64).toNat = 7 := rfl
  rw [toNat_and_not_seven, UInt64.toNat_add, h7]
  omega

theorem toNat_sum (h : s.NoWrap size) :
    (s.idx + ((size + 7) &&& ~~~7)).toNat = s.idx.toNat + (size.toNat + 7) / 8 * 8 := by
  unfold NoWrap at h
  rw [UInt64.toNat_add, toNat_rounded]
  omega

theorem malloc_of_fits (h : s.NoWrap size)
    (hfit : s.idx.toNat + (size.toNat + 7) / 8 * 8 ≤ userHeapSize.toNat) :
    malloc s.idx size = (s.idx + ((size + 7) &&& ~~~7), some s.idx) := by
  rw [malloc, if_neg]
  rw [gt_iff_lt, UInt64.lt_iff_toNat_lt, toNat_sum h]
  omega

theorem malloc_of_full (h : s.NoWrap size)
    (hfull : userHeapSize.toNat < s.idx.toNat + (size.toNat + 7) / 8 * 8) :
    malloc s.idx size = (s.idx, none) := by
  rw [malloc, if_pos]
  rwa [gt_iff_lt, UInt64.lt_iff_toNat_lt, toNat_sum h]

theorem malloc_of_wrap (hs : s.Inv) (h : ¬ s.NoWrap size) :
    (malloc s.idx size).2 = some s.idx ∧ userHeapSize.toNat < size.toNat := by
  have hidx := hs.idx_le
  have hsize := size.toNat_lt
  have hheap : userHeapSize.toNat = 65536 := rfl
  unfold NoWrap at h
  have hsum : (s.idx + ((size + 7) &&& ~~~7)).toNat ≤ userHeapSize.toNat := by
    rw [UInt64.toNat_add, toNat_rounded]
    omega
  refine ⟨?_, by omega⟩
  rw [malloc, if_neg]
  rw [gt_iff_lt, UInt64.lt_iff_toNat_lt]
  omega

theorem handsOut_iff (hs : s.Inv) : s.HandsOut size ↔ s.NoWrap size := by
  constructor
  · intro h
    by_contra hwrap
    obtain ⟨hret, hsize⟩ := malloc_of_wrap hs hwrap
    have hin := h.1
    rw [hret] at hin
    have hin : s.idx.toNat + size.toNat ≤ userHeapSize.toNat := hin.1
    omega
  · intro h
    have hround : size.toNat ≤ (size.toNat + 7) / 8 * 8 := by omega
    rcases Nat.lt_or_ge userHeapSize.toNat (s.idx.toNat + (size.toNat + 7) / 8 * 8) with
      hfull | hfit
    · rw [HandsOut, malloc_of_full h hfull]
      exact ⟨rfl, hs.idx_le⟩
    · rw [HandsOut, malloc_of_fits h hfit]
      refine ⟨⟨?_, ?_⟩, ?_⟩
      · exact Nat.le_trans (Nat.add_le_add_left hround _) hfit
      · rintro b hb x ⟨⟨hlow, -⟩, -, hhigh⟩
        have hbefore := hs.before b hb
        dsimp only at hlow
        omega
      · rwa [toNat_sum h]

theorem Inv.step (hs : s.Inv) (h : s.NoWrap size) : (s.step size).Inv := by
  have hround : size.toNat ≤ (size.toNat + 7) / 8 * 8 := by omega
  rcases Nat.lt_or_ge userHeapSize.toNat (s.idx.toNat + (size.toNat + 7) / 8 * 8) with hfull | hfit
  · have hsame : s.step size = s := by rw [UserHeap.step, malloc_of_full h hfull]
    rwa [hsame]
  · have hnext : s.step size = ⟨s.idx + ((size + 7) &&& ~~~7),
        ⟨s.idx.toNat, size.toNat⟩ :: s.blocks⟩ := by
      rw [UserHeap.step, malloc_of_fits h hfit]
    rw [hnext]
    constructor
    · dsimp only
      rwa [toNat_sum h]
    · intro b hb
      dsimp only at hb ⊢
      rw [toNat_sum h]
      rcases List.mem_cons.mp hb with rfl | hb
      · exact Nat.add_le_add_left hround _
      · exact Nat.le_trans (hs.before b hb) (Nat.le_add_right _ _)

end UserHeap

/-- The blocks of a run are in the array and disjoint, and the index stays in the array, exactly
when no call of the run wraps. -/
theorem arena_disjoint_iff (sizes : List UInt64) :
    AllSteps UserHeap.step UserHeap.HandsOut UserHeap.start sizes ↔
      AllSteps UserHeap.step UserHeap.NoWrap UserHeap.start sizes := by
  have hiff : ∀ s size, UserHeap.Inv s → (UserHeap.HandsOut s size ↔ UserHeap.NoWrap s size) :=
    fun _ _ => UserHeap.handsOut_iff
  have hstep : ∀ s size, UserHeap.Inv s → UserHeap.NoWrap s size → UserHeap.Inv (s.step size) :=
    fun _ _ => UserHeap.Inv.step
  exact allSteps_congr UserHeap.step hiff hstep UserHeap.inv_start sizes

/-- The second call returns a block that leaves the array and moves the index back to its start, so
that the third returns the first block again. -/
theorem arena_not_disjoint :
    malloc 0 8 = (8, some 0) ∧ malloc 8 0xFFFFFFFFFFFFFFF8 = (0, some 8) ∧
      ¬ AllSteps UserHeap.step UserHeap.HandsOut UserHeap.start [8, 0xFFFFFFFFFFFFFFF8, 8] := by
  refine ⟨by decide, by decide, ?_⟩
  rintro ⟨-, ⟨hsecond, -⟩, -⟩
  have hin : 8 + (0xFFFFFFFFFFFFFFF8 : UInt64).toNat ≤ userHeapSize.toNat := hsecond.1
  exact absurd hin (by decide)

end StyxOS
