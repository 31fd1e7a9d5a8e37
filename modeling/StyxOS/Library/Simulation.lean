import StyxOS.Library.Run

/-! # Simulation of one step system by another

A step of the lower system is a list of inputs of the upper one: none where it is
invisible there. What holds of every step, that the view of the state moves by
those inputs, then holds of every run.
-/

namespace StepSystem

variable {σ ι τ κ : Type*} (step : σ → ι → σ) (inputs : σ → ι → List κ)

/-- The inputs of the upper system over a run of the lower one. -/
def trace : σ → List ι → List κ
  | _, [] => []
  | s, i :: is => inputs s i ++ trace (step s i) is

variable {step inputs} {upper : τ → κ → τ} {view : σ → τ} {I : σ → Prop}

theorem run_view (hinv : ∀ s i, I s → I (step s i))
    (hview : ∀ s i, I s → view (step s i) = run upper (view s) (inputs s i))
    {s : σ} (hs : I s) (is : List ι) :
    view (run step s is) = run upper (view s) (trace step inputs s is) := by
  induction is generalizing s with
  | nil => rfl
  | cons i is ih =>
    rw [run_cons, trace, run_append, ← hview s i hs]
    exact ih (hinv s i hs)

/-- A property of the upper system's steps, read on the lower one. -/
theorem allSteps_trace {Q : τ → κ → Prop} (hinv : ∀ s i, I s → I (step s i))
    (hview : ∀ s i, I s → view (step s i) = run upper (view s) (inputs s i))
    {s : σ} (hs : I s) (is : List ι) :
    AllSteps upper Q (view s) (trace step inputs s is) ↔
      AllSteps step (fun s i => AllSteps upper Q (view s) (inputs s i)) s is := by
  induction is generalizing s with
  | nil => exact Iff.rfl
  | cons i is ih =>
    rw [trace, allSteps_append, ← hview s i hs, ih (hinv s i hs)]
    exact Iff.rfl

end StepSystem
