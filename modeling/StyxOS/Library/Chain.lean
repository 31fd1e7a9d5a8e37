import Mathlib.Data.List.Range

/-! # Chains of links

A table of links leads from one place to the next, and to an end mark after the
last. A chain lists the places on the way.
-/

/-- From the first place, the links lead through these places to an end mark. -/
inductive LinkChain {α : Type*} (next : α → α) (last : α → Prop) : α → List α → Prop
  | nil {a : α} : last a → LinkChain next last a []
  | cons {a : α} {as : List α} : ¬ last a → LinkChain next last (next a) as →
      LinkChain next last a (a :: as)

namespace LinkChain

variable {α : Type*} {next : α → α} {last : α → Prop}

/-- The first places of a sequence, when each leads to the one after it and the last to an end
mark. -/
theorem map_range {g : ℕ → α} {n : ℕ} (hstep : ∀ i < n, next (g i) = g (i + 1))
    (hend : last (next (g n))) (hopen : ∀ i ≤ n, ¬ last (g i)) :
    LinkChain next last (g 0) ((List.range (n + 1)).map g) := by
  induction n generalizing g with
  | zero => exact .cons (hopen 0 (Nat.le_refl 0)) (.nil hend)
  | succ n ih =>
    have htail : (List.range (n + 1 + 1)).map g =
        g 0 :: (List.range (n + 1)).map fun i => g (i + 1) := by
      rw [List.range_succ_eq_map, List.map_cons, List.map_map]
      rfl
    rw [htail]
    constructor
    · exact hopen 0 (Nat.zero_le _)
    · rw [hstep 0 (Nat.succ_pos n)]
      exact ih (fun i hi => hstep (i + 1) (Nat.succ_lt_succ hi)) hend
        fun i hi => hopen (i + 1) (Nat.succ_le_succ hi)

end LinkChain
