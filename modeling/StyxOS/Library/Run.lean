import Mathlib.Data.List.Basic

/-! # Runs of a deterministic step function

A system is a step function from a state and an input to the next state. `run`
folds it over a list of inputs, and `AllSteps` states a property of every step
a run takes. Two step properties that agree on an invariant agree on every run
from a state that satisfies it.
-/

namespace StepSystem

variable {σ ι : Type*} (step : σ → ι → σ)

/-- The state after the inputs have been taken in order. -/
def run (s : σ) (is : List ι) : σ := is.foldl step s

@[simp] theorem run_nil (s : σ) : run step s [] = s := rfl

@[simp] theorem run_cons (s : σ) (i : ι) (is : List ι) :
    run step s (i :: is) = run step (step s i) is := rfl

@[simp] theorem run_append (s : σ) (is js : List ι) :
    run step s (is ++ js) = run step (run step s is) js := List.foldl_append

theorem run_hom {τ : Type*} {step' : τ → ι → τ} {f : σ → τ}
    (hstep : ∀ s i, f (step s i) = step' (f s) i) (s : σ) (is : List ι) :
    f (run step s is) = run step' (f s) is :=
  (List.foldl_hom f fun s i => (hstep s i).symm).symm

/-- Every step of the run satisfies `P` at the state it starts from. -/
def AllSteps (P : σ → ι → Prop) : σ → List ι → Prop
  | _, [] => True
  | s, i :: is => P s i ∧ AllSteps P (step s i) is

variable {P Q : σ → ι → Prop} {I : σ → Prop}

@[simp] theorem allSteps_nil (s : σ) : AllSteps step P s [] := trivial

@[simp] theorem allSteps_cons {s : σ} {i : ι} {is : List ι} :
    AllSteps step P s (i :: is) ↔ P s i ∧ AllSteps step P (step s i) is := Iff.rfl

theorem allSteps_append {s : σ} {is js : List ι} :
    AllSteps step P s (is ++ js) ↔
      AllSteps step P s is ∧ AllSteps step P (run step s is) js := by
  induction is generalizing s with
  | nil => simp
  | cons i is ih => simp only [List.cons_append, allSteps_cons, run_cons, ih, and_assoc]

instance decidableAllSteps [∀ s i, Decidable (P s i)] :
    ∀ (s : σ) (is : List ι), Decidable (AllSteps step P s is)
  | _, [] => .isTrue trivial
  | s, i :: is =>
    haveI := decidableAllSteps (step s i) is
    inferInstanceAs (Decidable (P s i ∧ AllSteps step P (step s i) is))

theorem allSteps_iff_forall {s : σ} {is : List ι} :
    AllSteps step P s is ↔ ∀ pre i post, is = pre ++ i :: post → P (run step s pre) i := by
  constructor
  · rintro h pre i post rfl
    exact ((allSteps_append step).mp h).2.1
  · intro h
    induction is generalizing s with
    | nil => trivial
    | cons i is ih =>
      refine ⟨h [] i is rfl, ih fun pre j post he => ?_⟩
      exact h (i :: pre) j post (by rw [he, List.cons_append])

theorem forall_prefix_iff {s : σ} {is : List ι} (hs : I s) :
    (∀ pre, pre <+: is → I (run step s pre)) ↔ AllSteps step (fun s i => I (step s i)) s is := by
  induction is generalizing s with
  | nil => simpa using hs
  | cons i is ih =>
    simp only [List.prefix_cons_iff, allSteps_cons]
    constructor
    · intro h
      have hnext : I (step s i) := h [i] (Or.inr ⟨[], rfl, List.nil_prefix⟩)
      exact ⟨hnext, (ih hnext).mp fun pre hpre => h (i :: pre) (Or.inr ⟨pre, rfl, hpre⟩)⟩
    · rintro ⟨hnext, hrest⟩ pre (rfl | ⟨pre, rfl, hpre⟩)
      · exact hs
      · exact (ih hnext).mpr hrest pre hpre

theorem run_invariant (hstep : ∀ s i, I s → P s i → I (step s i)) {s : σ} {is : List ι}
    (hs : I s) (h : AllSteps step P s is) : I (run step s is) := by
  induction is generalizing s with
  | nil => exact hs
  | cons i is ih => exact ih (hstep s i hs h.1) h.2

/-- The run rule for steps: what the invariant makes of every permitted step holds of every step of
a permitted run. -/
theorem allSteps_of_allSteps (himp : ∀ s i, I s → Q s i → P s i)
    (hstep : ∀ s i, I s → Q s i → I (step s i)) {s : σ} {is : List ι} (hs : I s)
    (h : AllSteps step Q s is) : AllSteps step P s is := by
  induction is generalizing s with
  | nil => trivial
  | cons i is ih => exact ⟨himp s i hs h.1, ih (hstep s i hs h.1) h.2⟩

theorem run_invariant_of_forall (hstep : ∀ s i, I s → I (step s i)) {s : σ} (hs : I s)
    (is : List ι) : I (run step s is) := by
  induction is generalizing s with
  | nil => exact hs
  | cons i is ih => exact ih (hstep s i hs)

/-- Two step properties that agree wherever the invariant holds, for the inputs of the run, agree on
the run, when the steps having the second preserve the invariant. -/
theorem allSteps_congr_of_mem {s : σ} {is : List ι}
    (hiff : ∀ s, ∀ i ∈ is, I s → (P s i ↔ Q s i))
    (hstep : ∀ s, ∀ i ∈ is, I s → Q s i → I (step s i)) (hs : I s) :
    AllSteps step P s is ↔ AllSteps step Q s is := by
  induction is generalizing s with
  | nil => exact Iff.rfl
  | cons i is ih =>
    have hrest : ∀ {s}, I s → (AllSteps step P s is ↔ AllSteps step Q s is) :=
      ih (fun s j hj => hiff s j (List.mem_cons_of_mem i hj))
        fun s j hj => hstep s j (List.mem_cons_of_mem i hj)
    constructor
    · rintro ⟨hp, h⟩
      have hq := (hiff s i List.mem_cons_self hs).mp hp
      exact ⟨hq, (hrest (hstep s i List.mem_cons_self hs hq)).mp h⟩
    · rintro ⟨hq, h⟩
      exact ⟨(hiff s i List.mem_cons_self hs).mpr hq,
        (hrest (hstep s i List.mem_cons_self hs hq)).mpr h⟩

theorem allSteps_congr_of_allSteps {R : σ → ι → Prop}
    (hiff : ∀ s i, I s → R s i → (P s i ↔ Q s i))
    (hstep : ∀ s i, I s → R s i → Q s i → I (step s i)) {s : σ} {is : List ι} (hs : I s)
    (hR : AllSteps step R s is) : AllSteps step P s is ↔ AllSteps step Q s is := by
  induction is generalizing s with
  | nil => exact Iff.rfl
  | cons i is ih =>
    obtain ⟨hr, hrest⟩ := hR
    have hnext : Q s i → (AllSteps step P (step s i) is ↔ AllSteps step Q (step s i) is) :=
      fun hq => ih (hstep s i hs hr hq) hrest
    constructor
    · rintro ⟨hp, h⟩
      have hq := (hiff s i hs hr).mp hp
      exact ⟨hq, (hnext hq).mp h⟩
    · rintro ⟨hq, h⟩
      exact ⟨(hiff s i hs hr).mpr hq, (hnext hq).mpr h⟩

theorem allSteps_congr (hiff : ∀ s i, I s → (P s i ↔ Q s i))
    (hstep : ∀ s i, I s → Q s i → I (step s i)) {s : σ} (hs : I s) (is : List ι) :
    AllSteps step P s is ↔ AllSteps step Q s is :=
  allSteps_congr_of_mem step (fun s i _ => hiff s i) (fun s i _ => hstep s i) hs

theorem allSteps_hom {τ : Type*} {step' : τ → ι → τ} {f : σ → τ} {R : τ → ι → Prop}
    (hstep : ∀ s i, f (step s i) = step' (f s) i) {s : σ} {is : List ι} :
    AllSteps step (fun s i => R (f s) i) s is ↔ AllSteps step' R (f s) is := by
  simp only [allSteps_iff_forall, run_hom step hstep]

end StepSystem
