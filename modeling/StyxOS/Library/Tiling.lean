import Mathlib.Algebra.BigOperators.Group.List.Basic
import Mathlib.Algebra.Order.Group.Nat

/-! # Tilings of an interval by blocks

Blocks laid end to end, each a header of fixed length and a payload. A block
sits at the offset where the blocks before it end. Blocks at different offsets
do not overlap, and replacing a run of blocks by one of the same span moves no
block outside the run.
-/

namespace Tiling

structure Block where
  size : ℕ
  used : Bool
  deriving DecidableEq, Repr

variable (hdr : ℕ)

/-- The length of the interval that the blocks tile. -/
def span : List Block → ℕ
  | [] => 0
  | b :: bs => hdr + b.size + span bs

@[simp] theorem span_nil : span hdr [] = 0 := rfl

@[simp] theorem span_cons (b : Block) (bs : List Block) :
    span hdr (b :: bs) = hdr + b.size + span hdr bs := rfl

@[simp] theorem span_append (xs ys : List Block) :
    span hdr (xs ++ ys) = span hdr xs + span hdr ys := by
  induction xs with
  | nil => simp
  | cons b xs ih => simp [ih, Nat.add_assoc]

theorem length_mul_le_span (bs : List Block) : hdr * bs.length ≤ span hdr bs := by
  induction bs with
  | nil => simp
  | cons b bs ih =>
    rw [List.length_cons, Nat.mul_succ, span_cons]
    omega

/-- Block `b` sits at offset `o`. -/
def At : List Block → ℕ → Block → Prop
  | [], _, _ => False
  | c :: bs, o, b => o = 0 ∧ b = c ∨ ∃ o', o = hdr + c.size + o' ∧ At bs o' b

variable {hdr} {xs ys bs : List Block} {o o' : ℕ} {b b' : Block}

theorem at_append : At hdr (xs ++ ys) o b ↔
    At hdr xs o b ∨ ∃ o', o = span hdr xs + o' ∧ At hdr ys o' b := by
  induction xs generalizing o with
  | nil => simp [At]
  | cons c xs ih =>
    simp only [List.cons_append, At, ih, span_cons]
    constructor
    · rintro (h | ⟨o', rfl, h | ⟨o'', rfl, h⟩⟩)
      · exact Or.inl (Or.inl h)
      · exact Or.inl (Or.inr ⟨o', rfl, h⟩)
      · exact Or.inr ⟨o'', by omega, h⟩
    · rintro ((h | ⟨o', rfl, h⟩) | ⟨o'', rfl, h⟩)
      · exact Or.inl h
      · exact Or.inr ⟨o', rfl, Or.inl h⟩
      · exact Or.inr ⟨span hdr xs + o'', by omega, Or.inr ⟨o'', rfl, h⟩⟩

theorem at_span (xs : List Block) (b : Block) (ys : List Block) :
    At hdr (xs ++ b :: ys) (span hdr xs) b :=
  at_append.mpr (Or.inr ⟨0, rfl, Or.inl ⟨rfl, rfl⟩⟩)

theorem At.exists_split (h : At hdr bs o b) :
    ∃ pre post, bs = pre ++ b :: post ∧ o = span hdr pre := by
  induction bs generalizing o with
  | nil => cases h
  | cons c bs ih =>
    rcases h with ⟨rfl, rfl⟩ | ⟨o', rfl, h⟩
    · exact ⟨[], bs, rfl, rfl⟩
    · obtain ⟨pre, post, rfl, rfl⟩ := ih h
      exact ⟨c :: pre, post, rfl, rfl⟩

theorem At.mem (h : At hdr bs o b) : b ∈ bs := by
  obtain ⟨pre, post, rfl, -⟩ := h.exists_split
  simp

theorem At.disjoint (h : At hdr bs o b) (h' : At hdr bs o' b') :
    o = o' ∧ b = b' ∨ o + hdr + b.size ≤ o' ∨ o' + hdr + b'.size ≤ o := by
  induction bs generalizing o o' with
  | nil => cases h
  | cons c bs ih =>
    rcases h with ⟨rfl, rfl⟩ | ⟨p, rfl, h⟩
    · rcases h' with ⟨rfl, rfl⟩ | ⟨p', rfl, h'⟩
      · exact Or.inl ⟨rfl, rfl⟩
      · right; left; omega
    · rcases h' with ⟨rfl, rfl⟩ | ⟨p', rfl, h'⟩
      · right; right; omega
      · rcases ih h h' with ⟨rfl, rfl⟩ | hd | hd
        · exact Or.inl ⟨rfl, rfl⟩
        · right; left; omega
        · right; right; omega

theorem At.unique (hpos : 0 < hdr) (h : At hdr bs o b) (h' : At hdr bs o b') : b = b' := by
  rcases h.disjoint h' with ⟨-, hb⟩ | hd | hd
  · exact hb
  · omega
  · omega

/-- Blocks outside a run stay where they are when it is replaced by a run of the same span. -/
theorem At.replace {pre post : List Block} (mid mid' : List Block)
    (hs : span hdr mid = span hdr mid')
    (h : At hdr (pre ++ mid ++ post) o b)
    (hout : ∀ o', o = span hdr pre + o' → ¬ At hdr mid o' b) :
    At hdr (pre ++ mid' ++ post) o b := by
  rw [at_append, at_append] at h ⊢
  rcases h with (h | ⟨o', rfl, h⟩) | ⟨o', rfl, h⟩
  · exact Or.inl (Or.inl h)
  · exact absurd h (hout o' rfl)
  · refine Or.inr ⟨o', ?_, h⟩
    rw [span_append, span_append, hs]

end Tiling
