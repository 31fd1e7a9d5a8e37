import Mathlib.Data.List.Basic
import Mathlib.Tactic.Choose

/-! # Loops that may not end

A loop is given a number of rounds. It has a result for some number of rounds
exactly when its steps do not go on for ever.
-/

variable {σ ρ : Type*} {step : σ → σ → Prop}

/-- From this state, steps can follow one another for ever. -/
def Endless (step : σ → σ → Prop) (s : σ) : Prop :=
  ∃ g : ℕ → σ, g 0 = s ∧ ∀ k, step (g k) (g (k + 1))

namespace Endless

theorem of_invariant {I : σ → Prop} (hstep : ∀ s, I s → ∃ s', step s s' ∧ I s') {s : σ}
    (hs : I s) : Endless step s := by
  choose next hnext using fun s : {s // I s} => hstep s.1 s.2
  let g : ℕ → {s // I s} := fun k => k.rec ⟨s, hs⟩ fun _ t => ⟨next t, (hnext t).2⟩
  exact ⟨fun k => (g k).1, rfl, fun k => (hnext (g k)).1⟩

theorem tail {g : ℕ → σ} (hg : ∀ k, step (g k) (g (k + 1))) : Endless step (g 1) :=
  ⟨fun k => g (k + 1), rfl, fun k => hg (k + 1)⟩

/-- A loop whose round makes a step, or ends when there is none, has a result exactly when the
steps do not go on for ever. -/
theorem ends_iff {I : σ → Prop} (hkeep : ∀ s s', I s → step s s' → I s')
    {f : ℕ → σ → Option ρ} (hzero : ∀ s, f 0 s = none)
    (hgo : ∀ n s s', I s → step s s' → f (n + 1) s = f n s')
    (hend : ∀ n s, (∀ s', ¬ step s s') → ∃ r, f (n + 1) s = some r) {s : σ} (hs : I s) :
    (∃ n r, f n s = some r) ↔ ¬ Endless step s := by
  constructor
  · rintro ⟨n, r, hr⟩
    induction n generalizing s with
    | zero => exact absurd hr (by simp [hzero])
    | succ n ih =>
      rintro ⟨g, rfl, hg⟩
      rw [hgo n _ _ hs (hg 0)] at hr
      exact ih (hkeep _ _ hs (hg 0)) hr (tail hg)
  · intro hfinite
    by_contra hnone
    apply hfinite
    apply of_invariant (I := fun s => I s ∧ ∀ n r, f n s ≠ some r)
    · rintro t ⟨hI, ht⟩
      by_contra hstuck
      have hlast : ∀ t', ¬ step t t' := by
        intro t' ht'
        refine hstuck ⟨t', ht', hkeep t t' hI ht', fun n r hr => ht (n + 1) r ?_⟩
        rw [hgo n t t' hI ht', hr]
      obtain ⟨r, hr⟩ := hend 0 t hlast
      exact ht 1 r hr
    · exact ⟨hs, fun n r hr => hnone ⟨n, r, hr⟩⟩

end Endless
