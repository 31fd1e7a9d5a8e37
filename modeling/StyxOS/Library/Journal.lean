import Mathlib.Data.List.Basic

/-! # What a computation adds to a log

A machine keeps a log of its effects, may stop for good, and has a part that
its effects leave alone. A computation adds only entries of some kind when it
adds nothing else unless the machine stops; such computations compose.
-/

/-- The log of a machine, whether it has stopped, and the part that stays as it is. -/
structure Journal (σ α β : Type*) where
  log : σ → List α
  stopped : σ → Bool
  frame : σ → β

namespace Journal

variable {σ α β ι : Type*} (J : Journal σ α β) {W W' : α → Prop} {s s' s'' : σ}

/-- From one state to the other, the log grows by entries of this kind, unless the machine stops. -/
structure Adds (W : α → Prop) (s s' : σ) : Prop where
  stops : J.stopped s = true → J.stopped s' = true
  adds : J.stopped s' = false → ∃ new, J.log s' = J.log s ++ new ∧ ∀ a ∈ new, W a
  frame : J.frame s' = J.frame s

variable {J}

theorem Adds.refl (s : σ) : J.Adds W s s where
  stops := id
  adds _ := ⟨[], by simp⟩
  frame := rfl

theorem Adds.running (h : J.Adds W s s') (hr : J.stopped s' = false) : J.stopped s = false :=
  Bool.eq_false_iff.mpr fun hs => Bool.eq_false_iff.mp hr (h.stops hs)

theorem Adds.trans (h : J.Adds W s s') (h' : J.Adds W s' s'') : J.Adds W s s'' where
  stops hs := h'.stops (h.stops hs)
  adds hr := by
    obtain ⟨new, hlog, hnew⟩ := h.adds (h'.running hr)
    obtain ⟨new', hlog', hnew'⟩ := h'.adds hr
    refine ⟨new ++ new', by rw [hlog', hlog, List.append_assoc], ?_⟩
    intro a ha
    rcases List.mem_append.mp ha with ha | ha
    · exact hnew a ha
    · exact hnew' a ha
  frame := h'.frame.trans h.frame

theorem Adds.mono (h : J.Adds W s s') (hW : ∀ a, W a → W' a) : J.Adds W' s s' where
  stops := h.stops
  adds hr := by
    obtain ⟨new, hlog, hnew⟩ := h.adds hr
    exact ⟨new, hlog, fun a ha => hW a (hnew a ha)⟩
  frame := h.frame

theorem Adds.foldl {f : σ → ι → σ} {is : List ι} (h : ∀ s, ∀ i ∈ is, J.Adds W s (f s i)) (s : σ) :
    J.Adds W s (is.foldl f s) := by
  induction is generalizing s with
  | nil => exact .refl s
  | cons i is ih =>
    obtain ⟨hi, his⟩ : (∀ s, J.Adds W s (f s i)) ∧ ∀ s, ∀ j ∈ is, J.Adds W s (f s j) :=
      ⟨fun s => h s i List.mem_cons_self, fun s j hj => h s j (List.mem_cons_of_mem i hj)⟩
    exact (hi s).trans (ih his (f s i))

end Journal
