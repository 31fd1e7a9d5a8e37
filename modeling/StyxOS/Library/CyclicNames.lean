import Mathlib.Data.Int.ModEq
import Mathlib.Logic.Function.Basic

/-! # Names from a wrapping counter

Slots are given names by a counter that starts over after `N` of them and does
not look at the names in use. All names in use are different as long as every
slot is given back before `N` more names have been given out, and only then.
-/

namespace CyclicNames

variable {ι : Type*} {N : ℕ}

/-- How many names were given out, and the number of the one that each slot in use has. -/
structure Pool (ι : Type*) where
  made : ℕ
  held : ι → Option ℕ

inductive Op (ι : Type*)
  | take (i : ι)
  | giveBack (i : ι)

/-- A free slot takes the next name, or a slot gives its name back. -/
def step [DecidableEq ι] (p : Pool ι) : Op ι → Pool ι
  | .take i =>
    if p.held i = none then
      { made := p.made + 1, held := Function.update p.held i (some p.made) }
    else p
  | .giveBack i => { p with held := Function.update p.held i none }

def Distinct (N : ℕ) (p : Pool ι) : Prop :=
  ∀ i j k l, p.held i = some k → p.held j = some l → k % N = l % N → i = j

/-- Every slot in use took one of the last `N - 1` names that were given out. -/
def Recent (N : ℕ) (p : Pool ι) : Prop := ∀ i k, p.held i = some k → p.made < k + N

/-- What a step has to find: the name that a slot takes has gone round with no holder. -/
def Timely (N : ℕ) (p : Pool ι) : Op ι → Prop
  | .take i => p.held i = none → Recent N p
  | .giveBack _ => True

/-- Slots in use have the numbers of different names, out of the last `N`. -/
structure Window (N : ℕ) (p : Pool ι) : Prop where
  lt : ∀ i k, p.held i = some k → k < p.made
  le : ∀ i k, p.held i = some k → p.made ≤ k + N
  inj : ∀ i j k, p.held i = some k → p.held j = some k → i = j

theorem eq_of_mod_eq {k l : ℕ} (h : k % N = l % N) (hkl : k < l + N) (hlk : l < k + N) : k = l := by
  rcases Nat.le_total k l with hle | hle
  · have hdvd : N ∣ l - k := (Nat.modEq_iff_dvd' hle).mp h
    have hzero := Nat.eq_zero_of_dvd_of_lt hdvd (by omega)
    omega
  · have hdvd : N ∣ k - l := (Nat.modEq_iff_dvd' hle).mp h.symm
    have hzero := Nat.eq_zero_of_dvd_of_lt hdvd (by omega)
    omega

variable {p : Pool ι}

theorem Window.distinct (h : Window N p) : Distinct N p := by
  intro i j k l hi hj hkl
  have hk := h.lt i k hi
  have hl := h.lt j l hj
  have hk' := h.le i k hi
  have hl' := h.le j l hj
  obtain rfl : k = l := eq_of_mod_eq hkl (by omega) (by omega)
  exact h.inj i j k hi hj

theorem window_of_free (h : ∀ i, p.held i = none) : Window N p := by
  constructor <;> intro i <;> simp [h]

variable [DecidableEq ι]

theorem step_take_of_free {i : ι} (h : p.held i = none) : step p (.take i) =
    { made := p.made + 1, held := Function.update p.held i (some p.made) } := if_pos h

theorem step_take_of_held {i : ι} (h : p.held i ≠ none) : step p (.take i) = p := if_neg h

theorem Window.giveBack (h : Window N p) (i : ι) : Window N (step p (.giveBack i)) := by
  have hkeep : ∀ j k, (step p (.giveBack i)).held j = some k → p.held j = some k := by
    intro j k hj
    by_cases hij : j = i
    · subst hij
      simp [step] at hj
    · simpa [step, Function.update_of_ne hij] using hj
  constructor
  · exact fun j k hj => h.lt j k (hkeep j k hj)
  · exact fun j k hj => h.le j k (hkeep j k hj)
  · exact fun j l k hj hl => h.inj j l k (hkeep j k hj) (hkeep l k hl)

theorem Window.take (h : Window N p) (hN : 0 < N) {i : ι} (hi : p.held i = none)
    (hr : Recent N p) : Window N (step p (.take i)) := by
  have hcases : ∀ j k, (step p (.take i)).held j = some k →
      (j = i ∧ k = p.made) ∨ (j ≠ i ∧ p.held j = some k) := by
    intro j k hj
    rw [step_take_of_free hi] at hj
    by_cases hij : j = i
    · subst hij
      left
      simpa [eq_comm] using hj
    · right
      exact ⟨hij, by simpa [Function.update_of_ne hij] using hj⟩
  have hmade : (step p (.take i)).made = p.made + 1 := by rw [step_take_of_free hi]
  constructor
  · intro j k hj
    rw [hmade]
    rcases hcases j k hj with ⟨-, rfl⟩ | ⟨-, hj⟩
    · omega
    · exact Nat.lt_succ_of_lt (h.lt j k hj)
  · intro j k hj
    rw [hmade]
    rcases hcases j k hj with ⟨-, rfl⟩ | ⟨-, hj⟩
    · omega
    · exact hr j k hj
  · intro j l k hj hl
    rcases hcases j k hj with ⟨rfl, rfl⟩ | ⟨-, hj⟩
    · rcases hcases l p.made hl with ⟨rfl, -⟩ | ⟨-, hl⟩
      · rfl
      · exact absurd (h.lt l _ hl) (Nat.lt_irrefl _)
    · rcases hcases l k hl with ⟨-, rfl⟩ | ⟨-, hl⟩
      · exact absurd (h.lt j _ hj) (Nat.lt_irrefl _)
      · exact h.inj j l k hj hl

theorem window_step (h : Window N p) (hN : 0 < N) {op : Op ι} (ht : Timely N p op) :
    Window N (step p op) := by
  cases op with
  | giveBack i => exact h.giveBack i
  | take i =>
    by_cases hi : p.held i = none
    · exact h.take hN hi (ht hi)
    · rwa [step_take_of_held hi]

theorem distinct_step_iff (h : Window N p) (hN : 0 < N) (op : Op ι) :
    Distinct N (step p op) ↔ Timely N p op := by
  constructor
  · intro hd
    cases op with
    | giveBack i => trivial
    | take i =>
      intro hi j k hj
      by_contra hlate
      have hround : p.made = k + N := by
        have hle := h.le j k hj
        omega
      have hji : j ≠ i := by
        rintro rfl
        rw [hi] at hj
        cases hj
      rw [step_take_of_free hi] at hd
      have hsame : p.made % N = k % N := by rw [hround, Nat.add_mod_right]
      exact hji.symm (hd i j p.made k (Function.update_self ..)
        ((Function.update_of_ne hji ..).trans hj) hsame)
  · exact fun ht => (window_step h hN ht).distinct

end CyclicNames
