import Mathlib.Data.List.Basic

/-! # Computations that touch memory

A computation over a state that records the addresses it touches and may fault.
`Meets I P Q x` says that, from any state with `I`, the computation `x` touches
addresses with `P` only, ends in a state with `I`, and returns values with `Q`
only. There is one rule for each way to build a computation.
-/

/-- What a computation ends with: the addresses it touched, its value unless it faulted, and the
state. -/
structure Outcome (σ α : Type) where
  touched : List ℕ
  value : Option α
  state : σ

/-- A computation that reads and changes a state of type `σ`. -/
def Access (σ α : Type) := σ → Outcome σ α

namespace Access

variable {σ α β : Type}

instance : Monad (Access σ) where
  pure a := fun s => ⟨[], some a, s⟩
  bind x f := fun s =>
    match (x s).value with
    | none => ⟨(x s).touched, none, (x s).state⟩
    | some a =>
      ⟨(x s).touched ++ (f a (x s).state).touched, (f a (x s).state).value,
        (f a (x s).state).state⟩

def get : Access σ σ := fun s => ⟨[], some s, s⟩

def modify (f : σ → σ) : Access σ Unit := fun s => ⟨[], some (), f s⟩

def touch (as : List ℕ) : Access σ Unit := fun s => ⟨as, some (), s⟩

/-- End without a value. -/
def fault : Access σ α := fun s => ⟨[], none, s⟩

@[simp] theorem pure_apply (a : α) (s : σ) : (pure a : Access σ α) s = ⟨[], some a, s⟩ := rfl

@[simp] theorem get_bind_apply (f : σ → Access σ β) (s : σ) : (get >>= f) s = f s s := rfl

/-- From a state with `I`, the computation touches addresses with `P` only, keeps `I`, and returns
values with `Q` only. -/
def Meets (I : σ → Prop) (P : ℕ → Prop) (Q : α → Prop) (x : Access σ α) : Prop :=
  ∀ s, I s → (∀ a ∈ (x s).touched, P a) ∧ I (x s).state ∧ ∀ v, (x s).value = some v → Q v

variable {I : σ → Prop} {P : ℕ → Prop} {Q R : α → Prop}

theorem meets_pure {a : α} (h : Q a) : Meets I P Q (pure a) := by
  intro s hs
  refine ⟨by simp, hs, ?_⟩
  rintro v hv
  cases hv
  exact h

theorem meets_bind {Q' : β → Prop} {x : Access σ α} {f : α → Access σ β} (hx : Meets I P Q x)
    (hf : ∀ a, Q a → Meets I P Q' (f a)) : Meets I P Q' (x >>= f) := by
  intro s hs
  obtain ⟨ht, hI, hv⟩ := hx s hs
  have hb : (x >>= f) s =
      match (x s).value with
      | none => ⟨(x s).touched, none, (x s).state⟩
      | some a =>
        ⟨(x s).touched ++ (f a (x s).state).touched, (f a (x s).state).value,
          (f a (x s).state).state⟩ := rfl
  rw [hb]
  cases hxv : (x s).value with
  | none =>
    refine ⟨ht, hI, ?_⟩
    rintro v hv
    cases hv
  | some a =>
    obtain ⟨ht', hI', hv'⟩ := hf a (hv a hxv) (x s).state hI
    refine ⟨?_, hI', hv'⟩
    intro b hb
    rcases List.mem_append.mp hb with hb | hb
    · exact ht b hb
    · exact ht' b hb

theorem meets_get_bind {Q' : β → Prop} {f : σ → Access σ β} (hf : ∀ s, I s → Meets I P Q' (f s)) :
    Meets I P Q' (get >>= f) := by
  apply meets_bind (Q := I)
  · intro s hs
    refine ⟨by simp [get], hs, ?_⟩
    rintro v hv
    cases hv
    exact hs
  · exact hf

theorem meets_modify {f : σ → σ} (h : ∀ s, I s → I (f s)) :
    Meets I P (fun _ => True) (modify f) := by
  intro s hs
  exact ⟨by simp [modify], h s hs, fun _ _ => trivial⟩

theorem meets_touch {as : List ℕ} (h : ∀ a ∈ as, P a) :
    Meets I P (fun _ => True) (touch as : Access σ Unit) := by
  intro s hs
  exact ⟨h, hs, fun _ _ => trivial⟩

theorem meets_fault : Meets I P Q (fault : Access σ α) := by
  intro s hs
  refine ⟨by simp [fault], hs, ?_⟩
  rintro v hv
  cases hv

theorem Meets.mono {x : Access σ α} (h : Meets I P Q x) (hQ : ∀ v, Q v → R v) :
    Meets I P R x := by
  intro s hs
  obtain ⟨ht, hI, hv⟩ := h s hs
  exact ⟨ht, hI, fun v hx => hQ v (hv v hx)⟩

theorem meets_ite {c : Prop} [Decidable c] {x y : Access σ α} (hx : c → Meets I P Q x)
    (hy : ¬ c → Meets I P Q y) : Meets I P Q (if c then x else y) := by
  split
  · exact hx ‹_›
  · exact hy ‹_›

/-! ## What a computation leaves as it is -/

variable {τ : Type} {g : σ → τ}

/-- The computation leaves the part `g` of the state as it is. -/
def Keeps (g : σ → τ) (x : Access σ α) : Prop := ∀ s, g (x s).state = g s

theorem state_bind_of_some {x : Access σ α} {f : α → Access σ β} {s : σ} {a : α}
    (h : (x s).value = some a) : ((x >>= f) s).state = (f a (x s).state).state := by
  change (match (x s).value with | none => _ | some a => _ : Outcome σ β).state = _
  rw [h]

theorem state_bind_of_none {x : Access σ α} {f : α → Access σ β} {s : σ}
    (h : (x s).value = none) : ((x >>= f) s).state = (x s).state := by
  change (match (x s).value with | none => _ | some a => _ : Outcome σ β).state = _
  rw [h]

theorem state_bind_pure {x : Access σ α} {f : α → β} {s : σ} :
    ((x >>= fun a => pure (f a)) s).state = (x s).state := by
  cases h : (x s).value with
  | none => rw [state_bind_of_none h]
  | some a =>
    rw [state_bind_of_some h]
    rfl

theorem value_bind_of_some {x : Access σ α} {f : α → Access σ β} {s : σ} {a : α}
    (h : (x s).value = some a) : ((x >>= f) s).value = (f a (x s).state).value := by
  change (match (x s).value with | none => _ | some a => _ : Outcome σ β).value = _
  rw [h]

theorem value_bind_of_none {x : Access σ α} {f : α → Access σ β} {s : σ}
    (h : (x s).value = none) : ((x >>= f) s).value = none := by
  change (match (x s).value with | none => _ | some a => _ : Outcome σ β).value = _
  rw [h]

theorem keeps_pure {a : α} : Keeps g (pure a) := fun _ => rfl

theorem keeps_bind {x : Access σ α} {f : α → Access σ β} (hx : Keeps g x)
    (hf : ∀ a, Keeps g (f a)) : Keeps g (x >>= f) := by
  intro s
  cases h : (x s).value with
  | none => rw [state_bind_of_none h, hx s]
  | some a => rw [state_bind_of_some h, hf a, hx s]

theorem keeps_get_bind {f : σ → Access σ β} (hf : ∀ s, Keeps g (f s)) : Keeps g (get >>= f) :=
  fun s => hf s s

theorem keeps_modify {f : σ → σ} (h : ∀ s, g (f s) = g s) : Keeps g (modify f) := h

theorem keeps_touch {as : List ℕ} : Keeps g (touch as) := fun _ => rfl

theorem keeps_fault : Keeps g (fault : Access σ α) := fun _ => rfl

theorem keeps_ite {c : Prop} [Decidable c] {x y : Access σ α} (hx : Keeps g x)
    (hy : Keeps g y) : Keeps g (if c then x else y) := by
  split
  · exact hx
  · exact hy

end Access
