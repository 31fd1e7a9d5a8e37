import Mathlib.Data.Fin.Basic
import Mathlib.Data.List.FinRange
import Mathlib.Logic.Function.Basic

/-! # A priority interrupt controller

One bank of interrupt lines, line zero with the highest priority, without
automatic end of interrupt. A line in service blocks itself and every line after
it, and the end-of-interrupt command clears the first line in service.
-/

abbrev Pic (n : ℕ) := Fin n → Bool

namespace Pic

variable {n : ℕ} (p : Pic n) (i : Fin n)

def accepts : Bool := (List.finRange n).all fun j => i < j || !p j

def raise : Pic n := Function.update p i true

def serving : Option (Fin n) := Fin.find? p

def eoi : Pic n :=
  match p.serving with
  | none => p
  | some j => Function.update p j false

variable {p i}

theorem accepts_iff : p.accepts i = true ↔ ∀ j ≤ i, p j = false := by
  simp only [accepts, List.all_eq_true, List.mem_finRange, forall_const, Bool.or_eq_true,
    decide_eq_true_eq, Bool.not_eq_true']
  constructor
  · intro h j hj
    exact (h j).resolve_left (not_lt.mpr hj)
  · intro h j
    rcases lt_or_ge i j with hlt | hle
    · exact Or.inl hlt
    · exact Or.inr (h j hle)

theorem raise_self (p : Pic n) (i : Fin n) : p.raise i i = true := Function.update_self ..

theorem serving_eq_some (h : p i = true) (hlt : ∀ j < i, p j = false) : p.serving = some i :=
  Fin.find?_eq_some_iff.mpr ⟨h, hlt⟩

theorem eoi_raise (h : p.accepts i = true) : (p.raise i).eoi = p := by
  rw [accepts_iff] at h
  have hserving : (p.raise i).serving = some i := by
    apply serving_eq_some
    · exact Function.update_self ..
    · intro j hj
      rw [raise, Function.update_of_ne (ne_of_lt hj)]
      exact h j hj.le
  rw [eoi, hserving]
  dsimp only
  rw [raise, Function.update_idem, ← h i le_rfl, Function.update_eq_self]

theorem eoi_of_false (h : p i = false) : p.eoi i = false := by
  rw [eoi]
  cases p.serving with
  | none => exact h
  | some j =>
    by_cases hij : i = j
    · rw [hij]
      exact Function.update_self ..
    · exact (Function.update_of_ne hij ..).trans h

theorem eoi_zero (p : Pic (n + 1)) : p.eoi 0 = false := by
  cases h : p 0 with
  | false => exact eoi_of_false h
  | true =>
    have hserving : p.serving = some 0 := by
      apply serving_eq_some h
      intro j hj
      exact absurd hj (Nat.not_lt_zero _)
    rw [eoi, hserving]
    exact Function.update_self ..

end Pic
