import Mathlib.Logic.Function.Iterate
import Mathlib.Data.List.Basic

/-! # Output streams of a deterministic generator

A generator goes from state to state and puts something out of each. Where so many outputs tell the
state, and the step can be undone, a window anywhere in a stream tells all of it.
-/

namespace OutputStream

variable {σ ω : Type*} (step : σ → σ) (out : σ → ω)

def outputs : ℕ → σ → List ω
  | 0, _ => []
  | n + 1, s => out s :: outputs n (step s)

@[simp] theorem length_outputs (n : ℕ) (s : σ) : (outputs step out n s).length = n := by
  induction n generalizing s with
  | zero => rfl
  | succ n ih => exact congrArg (· + 1) (ih (step s))

theorem outputs_add (m n : ℕ) (s : σ) :
    outputs step out (m + n) s = outputs step out m s ++ outputs step out n (step^[m] s) := by
  induction m generalizing s with
  | zero => simp [outputs]
  | succ m ih =>
    rw [Nat.add_right_comm, outputs, ih, outputs, List.cons_append, Function.iterate_succ_apply]

/-- A window of `k` outputs behind `i` of them. -/
def window (i k : ℕ) (os : List ω) : List ω := (os.drop i).take k

variable {i k n : ℕ}

theorem window_outputs (h : i + k ≤ n) (s : σ) :
    window i k (outputs step out n s) = outputs step out k (step^[i] s) := by
  obtain ⟨r, rfl⟩ := Nat.exists_eq_add_of_le h
  have hskip := length_outputs step out i s
  have hwindow := length_outputs step out k (step^[i] s)
  rw [window, Nat.add_assoc, outputs_add, List.drop_left' hskip, outputs_add,
    List.take_left' hwindow]

variable {step out} {undo : σ → σ} {recover : List ω → σ}

theorem start_of_window (hundo : Function.LeftInverse undo step)
    (hrecover : ∀ s, recover (outputs step out k s) = s) (h : i + k ≤ n) (s : σ) :
    undo^[i] (recover (window i k (outputs step out n s))) = s := by
  rw [window_outputs step out h, hrecover]
  exact hundo.iterate i s

/-- A window anywhere is the window of exactly one state, if each list of outputs is that of one. -/
theorem existsUnique_window (hundo : Function.LeftInverse undo step)
    (hredo : Function.RightInverse undo step) (hrecover : ∀ s, recover (outputs step out k s) = s)
    (houtputs : ∀ os : List ω, os.length = k → outputs step out k (recover os) = os)
    (h : i + k ≤ n) {os : List ω} (hos : os.length = k) :
    ∃! s, window i k (outputs step out n s) = os := by
  refine ⟨undo^[i] (recover os), ?_, fun s hs => ?_⟩
  · change window i k (outputs step out n (undo^[i] (recover os))) = os
    rw [window_outputs step out h, hredo.iterate i, houtputs os hos]
  · rw [← hs, start_of_window hundo hrecover h]

end OutputStream
