import Mathlib.Data.List.ReduceOption
import StyxOS.Library.Simulation

/-! # A queue that drops what does not fit

Items are offered at one end and taken at the other. An offer to a full queue is
dropped. What has been taken and what waits is then what was offered, in order,
less the items dropped.
-/

/-- The items that wait, and the answer to every take so far. -/
structure BoundedQueue (α : Type*) where
  waiting : List α
  answers : List (Option α)
  deriving DecidableEq, Repr

namespace BoundedQueue

open StepSystem

variable {α : Type*} {cap : ℕ} {q : BoundedQueue α}

inductive Op (α : Type*)
  | offer (a : α)
  | take

def empty : BoundedQueue α := ⟨[], []⟩

def step (cap : ℕ) (q : BoundedQueue α) : Op α → BoundedQueue α
  | .offer a => if q.waiting.length < cap then { q with waiting := q.waiting ++ [a] } else q
  | .take => ⟨q.waiting.tail, q.answers ++ [q.waiting.head?]⟩

def taken (q : BoundedQueue α) : List α := q.answers.reduceOption

def offered : List (Op α) → List α
  | [] => []
  | .offer a :: ops => a :: offered ops
  | .take :: ops => offered ops

theorem offered_append (ops ops' : List (Op α)) :
    offered (ops ++ ops') = offered ops ++ offered ops' := by
  induction ops with
  | nil => rfl
  | cons op ops ih => cases op <;> simp [offered, ih]

/-- The item is not dropped. -/
def Fits (cap : ℕ) (q : BoundedQueue α) : Op α → Prop
  | .offer _ => q.waiting.length < cap
  | .take => True

instance (cap : ℕ) (q : BoundedQueue α) (op : Op α) : Decidable (Fits cap q op) := by
  cases op <;> unfold Fits <;> infer_instance

theorem taken_append_waiting_take :
    (step cap q .take).taken ++ (step cap q .take).waiting = q.taken ++ q.waiting := by
  unfold step taken
  cases q.waiting with
  | nil => simp [List.reduceOption_append]
  | cons a rest => simp [List.reduceOption_append]

theorem taken_append_waiting_offer {a : α} (h : q.waiting.length < cap) :
    (step cap q (.offer a)).taken ++ (step cap q (.offer a)).waiting =
      q.taken ++ q.waiting ++ [a] := by
  rw [step, if_pos h]
  exact (List.append_assoc ..).symm

theorem step_offer_of_full {a : α} (h : ¬ q.waiting.length < cap) : step cap q (.offer a) = q :=
  if_neg h

theorem taken_append_waiting_sublist (cap : ℕ) (q : BoundedQueue α) (ops : List (Op α)) :
    ((run (step cap) q ops).taken ++ (run (step cap) q ops).waiting).Sublist
      (q.taken ++ q.waiting ++ offered ops) := by
  induction ops generalizing q with
  | nil =>
    rw [run_nil, offered, List.append_nil]
  | cons op ops ih =>
    rw [run_cons]
    cases op with
    | take =>
      have hrest := ih (step cap q .take)
      rw [taken_append_waiting_take] at hrest
      exact hrest
    | offer a =>
      refine (ih _).trans ?_
      rw [offered, ← List.singleton_append, ← List.append_assoc]
      refine List.Sublist.append_right ?_ _
      by_cases h : q.waiting.length < cap
      · rw [taken_append_waiting_offer h]
      · rw [step_offer_of_full h]
        exact List.sublist_append_left ..

theorem taken_append_waiting_eq_iff (cap : ℕ) (q : BoundedQueue α) (ops : List (Op α)) :
    (run (step cap) q ops).taken ++ (run (step cap) q ops).waiting =
        q.taken ++ q.waiting ++ offered ops ↔ AllSteps (step cap) (Fits cap) q ops := by
  induction ops generalizing q with
  | nil =>
    rw [run_nil, offered, List.append_nil]
    exact iff_of_true rfl trivial
  | cons op ops ih =>
    rw [run_cons, allSteps_cons]
    cases op with
    | take =>
      have hrest := ih (step cap q .take)
      rw [taken_append_waiting_take] at hrest
      exact hrest.trans (and_iff_right trivial).symm
    | offer a =>
      have hsplit : q.taken ++ q.waiting ++ offered (.offer a :: ops) =
          q.taken ++ q.waiting ++ [a] ++ offered ops := by
        rw [offered, List.append_assoc _ [a], List.singleton_append]
      rw [hsplit]
      by_cases h : q.waiting.length < cap
      · rw [← taken_append_waiting_offer h, ih]
        exact (and_iff_right h).symm
      · refine iff_of_false (fun heq => ?_) fun hfits => h hfits.1
        have hle := (taken_append_waiting_sublist cap (step cap q (.offer a)) ops).length_le
        rw [heq, step_offer_of_full h] at hle
        simp only [List.length_append, List.length_singleton] at hle
        omega

end BoundedQueue
