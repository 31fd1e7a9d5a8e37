import Mathlib.Data.List.Nodup
import Mathlib.Logic.Function.Basic

/-! # Synchronous channels

A channel pairs a send with a receive, in either order, and holds at most one
waiting call; a channel can also be reset, which drops the call that waits.
Accepted calls are numbered in order. `Accounted` says that each is completed,
dropped or waiting, and only one of these.
-/

namespace Rendezvous

inductive Side
  | send | recv
  deriving DecidableEq, Repr

def Side.other : Side → Side
  | send => recv
  | recv => send

@[simp] theorem Side.other_other (s : Side) : s.other.other = s := by cases s <;> rfl

theorem Side.other_ne (s : Side) : s.other ≠ s := by cases s <;> simp [other]

theorem Side.eq_or_other (s t : Side) : s = t ∨ s = t.other := by
  cases s <;> cases t <;> simp [other]

variable {ε ν : Type*}

/-- An accepted call: its side, its channel and what the caller passed. -/
structure Call (ε ν : Type*) where
  side : Side
  chan : ε
  info : ν

structure Offer (ν : Type*) where
  id : ℕ
  side : Side
  info : ν

structure State (ε ν : Type*) where
  calls : List (Call ε ν)
  waiting : ε → Option (Offer ν)
  met : List (ℕ × ℕ)
  dropped : List ℕ

def pairOf (side : Side) (self other : ℕ) : ℕ × ℕ :=
  match side with
  | .send => (self, other)
  | .recv => (other, self)

def init : State ε ν := ⟨[], fun _ => none, [], []⟩

def State.over (s : State ε ν) : List ℕ := s.met.flatMap (fun p => [p.1, p.2]) ++ s.dropped

/-- Every accepted call is over or waits, no call is over twice, no call that waits is over or
waits on two channels, and the pairs join a send with a receive of the same channel. -/
structure Accounted (s : State ε ν) : Prop where
  over_nodup : s.over.Nodup
  over_lt : ∀ n ∈ s.over, n < s.calls.length
  waiting_call : ∀ e w, s.waiting e = some w → s.calls[w.id]? = some ⟨w.side, e, w.info⟩
  waiting_not_over : ∀ e w, s.waiting e = some w → w.id ∉ s.over
  covered : ∀ n < s.calls.length, n ∈ s.over ∨ ∃ e w, s.waiting e = some w ∧ w.id = n
  paired : ∀ p ∈ s.met, ∃ a b, s.calls[p.1]? = some a ∧ s.calls[p.2]? = some b ∧
    a.side = .send ∧ b.side = .recv ∧ a.chan = b.chan

namespace Accounted

variable {s : State ε ν}

theorem init : Accounted (init : State ε ν) where
  over_nodup := List.nodup_nil
  over_lt _ h := absurd h List.not_mem_nil
  waiting_call _ _ h := by cases h
  waiting_not_over _ _ h := by cases h
  covered _ h := absurd h (Nat.not_lt_zero _)
  paired _ h := absurd h List.not_mem_nil

theorem waiting_lt (h : Accounted s) {e : ε} {w : Offer ν} (hw : s.waiting e = some w) :
    w.id < s.calls.length := (List.getElem?_eq_some_iff.mp (h.waiting_call e w hw)).1

theorem waiting_inj (h : Accounted s) {e f : ε} {v w : Offer ν} (hv : s.waiting e = some v)
    (hw : s.waiting f = some w) (hid : v.id = w.id) : e = f := by
  have h₁ := h.waiting_call e v hv
  rw [hid, h.waiting_call f w hw] at h₁
  exact (congrArg Call.chan (Option.some.inj h₁)).symm

theorem getElem?_push {l : List (Call ε ν)} {n : ℕ} {c x : Call ε ν} (h : l[n]? = some c) :
    (l ++ [x])[n]? = some c := by
  rw [List.getElem?_append_left (List.getElem?_eq_some_iff.mp h).1, h]

theorem paired_push (h : Accounted s) (x : Call ε ν) (p : ℕ × ℕ) (hp : p ∈ s.met) :
    ∃ a b, (s.calls ++ [x])[p.1]? = some a ∧ (s.calls ++ [x])[p.2]? = some b ∧
      a.side = .send ∧ b.side = .recv ∧ a.chan = b.chan := by
  obtain ⟨a, b, ha, hb, hr⟩ := h.paired p hp
  exact ⟨a, b, getElem?_push ha, getElem?_push hb, hr⟩

theorem mem_over_meet {side : Side} {n m k : ℕ} :
    k ∈ [(pairOf side n m).1, (pairOf side n m).2] ↔ k = n ∨ k = m := by
  cases side <;> simp [pairOf, or_comm]

end Accounted

variable [DecidableEq ε]

/-- A call on a channel: it waits, meets the waiting call of the other side, or is refused. -/
def call (s : State ε ν) (side : Side) (e : ε) (info : ν) : State ε ν :=
  match s.waiting e with
  | none =>
    { s with
      calls := s.calls ++ [⟨side, e, info⟩]
      waiting := Function.update s.waiting e (some ⟨s.calls.length, side, info⟩) }
  | some w =>
    if w.side = side then s else
    { s with
      calls := s.calls ++ [⟨side, e, info⟩]
      waiting := Function.update s.waiting e none
      met := pairOf side s.calls.length w.id :: s.met }

/-- Reset a channel. -/
def drop (s : State ε ν) (e : ε) : State ε ν :=
  match s.waiting e with
  | none => s
  | some w => { s with waiting := Function.update s.waiting e none, dropped := w.id :: s.dropped }

section Waiting

variable {s : State ε ν} {side : Side} {e : ε} {info : ν} {w : Offer ν}

theorem call_waiting_of_none (hw : s.waiting e = none) : (call s side e info).waiting =
    Function.update s.waiting e (some ⟨s.calls.length, side, info⟩) := by
  unfold call; rw [hw]

theorem call_waiting_of_meet (hw : s.waiting e = some w) (hs : w.side ≠ side) :
    (call s side e info).waiting = Function.update s.waiting e none := by
  unfold call; rw [hw]; dsimp only; rw [if_neg hs]

@[simp] theorem call_dropped (s : State ε ν) (side : Side) (e : ε) (info : ν) :
    (call s side e info).dropped = s.dropped := by
  unfold call
  split
  · rfl
  · split <;> rfl

theorem drop_waiting (s : State ε ν) (e : ε) :
    (drop s e).waiting = Function.update s.waiting e none := by
  unfold drop
  split
  · next hw => rw [← hw, Function.update_eq_self]
  · rfl

end Waiting

namespace Accounted

variable {s : State ε ν}

theorem waiting_clear {e f : ε} {v : Offer ν}
    (hf : Function.update s.waiting e none f = some v) : f ≠ e ∧ s.waiting f = some v := by
  rw [Function.update_apply] at hf
  split at hf
  · cases hf
  · next h => exact ⟨h, hf⟩

theorem covered_clear (h : Accounted s) {e : ε} {w : Offer ν} (hw : s.waiting e = some w) {n : ℕ}
    (hn : n < s.calls.length) : n = w.id ∨ n ∈ s.over ∨
      ∃ f v, Function.update s.waiting e none f = some v ∧ v.id = n := by
  rcases h.covered n hn with ho | ⟨f, v, hf, rfl⟩
  · exact Or.inr (Or.inl ho)
  · by_cases hfe : f = e
    · subst hfe
      obtain rfl := Option.some.inj (hw.symm.trans hf)
      exact Or.inl rfl
    · exact Or.inr (Or.inr ⟨f, v, by rwa [Function.update_of_ne hfe], rfl⟩)

theorem call_wait (h : Accounted s) (side : Side) {e : ε} (info : ν) (hw : s.waiting e = none) :
    Accounted (call s side e info) := by
  have hc : call s side e info =
      { s with
        calls := s.calls ++ [⟨side, e, info⟩]
        waiting := Function.update s.waiting e (some ⟨s.calls.length, side, info⟩) } := by
    unfold call; rw [hw]
  rw [hc]
  have hlen : (s.calls ++ [(⟨side, e, info⟩ : Call ε ν)]).length = s.calls.length + 1 := by simp
  refine ⟨h.over_nodup, fun n hn => ?_, fun f w hf => ?_, fun f w hf => ?_, fun n hn => ?_,
    h.paired_push _⟩
  · have := h.over_lt n hn
    dsimp only
    omega
  · dsimp only at hf ⊢
    by_cases hfe : f = e
    · subst hfe
      rw [Function.update_self] at hf
      obtain rfl := Option.some.inj hf
      simp
    · rw [Function.update_of_ne hfe] at hf
      exact getElem?_push (h.waiting_call f w hf)
  · dsimp only at hf
    by_cases hfe : f = e
    · subst hfe
      rw [Function.update_self] at hf
      obtain rfl := Option.some.inj hf
      exact fun hn => Nat.lt_irrefl _ (h.over_lt _ hn)
    · rw [Function.update_of_ne hfe] at hf
      exact h.waiting_not_over f w hf
  · dsimp only at hn ⊢
    rcases Nat.lt_or_ge n s.calls.length with hlt | hge
    · rcases h.covered n hlt with ho | ⟨f, w, hf, rfl⟩
      · exact Or.inl ho
      · refine Or.inr ⟨f, w, ?_, rfl⟩
        rwa [Function.update_of_ne]
        rintro rfl
        rw [hw] at hf
        cases hf
    · exact Or.inr ⟨e, _, Function.update_self .., by dsimp only; omega⟩

theorem call_meet (h : Accounted s) {side : Side} {e : ε} (info : ν) {w : Offer ν}
    (hw : s.waiting e = some w) (hs : w.side ≠ side) : Accounted (call s side e info) := by
  have hc : call s side e info =
      { s with
        calls := s.calls ++ [⟨side, e, info⟩]
        waiting := Function.update s.waiting e none
        met := pairOf side s.calls.length w.id :: s.met } := by
    unfold call; rw [hw]; exact if_neg hs
  rw [hc]
  have hlt := h.waiting_lt hw
  have hother : w.side = side.other := (w.side.eq_or_other side).resolve_left hs
  have hmem : ∀ k, k ∈ [(pairOf side s.calls.length w.id).1, (pairOf side s.calls.length w.id).2] ++
      s.over ↔ (k = s.calls.length ∨ k = w.id) ∨ k ∈ s.over := fun k => by
    rw [List.mem_append, mem_over_meet]
  refine ⟨?_, fun n hn => ?_, fun f v hf => ?_, fun f v hf => ?_, fun n hn => ?_, fun p hp => ?_⟩
  · change ([(pairOf side s.calls.length w.id).1, (pairOf side s.calls.length w.id).2] ++
      s.over).Nodup
    rw [List.nodup_append]
    refine ⟨?_, h.over_nodup, fun a ha b hb => ?_⟩
    · cases side <;> simp [pairOf] <;> omega
    · rintro rfl
      rcases mem_over_meet.mp ha with rfl | rfl
      · exact Nat.lt_irrefl _ (h.over_lt _ hb)
      · exact h.waiting_not_over e w hw hb
  · simp only [List.length_append, List.length_cons, List.length_nil]
    rcases (hmem n).mp hn with (rfl | rfl) | hn
    · omega
    · omega
    · have := h.over_lt n hn
      omega
  · exact getElem?_push (h.waiting_call f v (waiting_clear hf).2)
  · obtain ⟨hfe, hf⟩ := waiting_clear hf
    intro hn
    rcases (hmem v.id).mp hn with (hid | hid) | hn
    · exact absurd (h.waiting_lt hf) (by omega)
    · exact hfe (h.waiting_inj hf hw hid)
    · exact h.waiting_not_over f v hf hn
  · simp only [List.length_append, List.length_cons, List.length_nil] at hn
    rcases Nat.lt_or_ge n s.calls.length with hlt' | hge
    · rcases h.covered_clear hw hlt' with hid | ho | hv
      · exact Or.inl ((hmem n).mpr (Or.inl (Or.inr hid)))
      · exact Or.inl ((hmem n).mpr (Or.inr ho))
      · exact Or.inr hv
    · exact Or.inl ((hmem n).mpr (Or.inl (Or.inl (by omega))))
  · dsimp only at hp ⊢
    rcases List.mem_cons.mp hp with rfl | hp
    · have hnew : (s.calls ++ [(⟨side, e, info⟩ : Call ε ν)])[s.calls.length]? =
          some ⟨side, e, info⟩ := by simp
      have hold := getElem?_push (x := ⟨side, e, info⟩) (h.waiting_call e w hw)
      cases side with
      | send => exact ⟨_, _, hnew, hold, rfl, hother, rfl⟩
      | recv => exact ⟨_, _, hold, hnew, hother, rfl, rfl⟩
    · exact h.paired_push _ p hp

theorem call (h : Accounted s) (side : Side) (e : ε) (info : ν) :
    Accounted (call s side e info) := by
  cases hw : s.waiting e with
  | none => exact h.call_wait side info hw
  | some w =>
    by_cases hs : w.side = side
    · have hc : Rendezvous.call s side e info = s := by
        unfold Rendezvous.call; rw [hw]; exact if_pos hs
      rwa [hc]
    · exact h.call_meet info hw hs

theorem drop (h : Accounted s) (e : ε) : Accounted (drop s e) := by
  cases hw : s.waiting e with
  | none => unfold Rendezvous.drop; rwa [hw]
  | some w =>
    have hd : Rendezvous.drop s e =
        { s with waiting := Function.update s.waiting e none, dropped := w.id :: s.dropped } := by
      unfold Rendezvous.drop; rw [hw]
    rw [hd]
    have hperm : (s.met.flatMap (fun p => [p.1, p.2]) ++ w.id :: s.dropped).Perm
        (w.id :: s.over) := List.perm_middle
    refine ⟨?_, fun n hn => ?_, fun f v hf => ?_, fun f v hf => ?_, fun n hn => ?_, h.paired⟩
    · exact hperm.nodup_iff.mpr
        (List.nodup_cons.mpr ⟨h.waiting_not_over e w hw, h.over_nodup⟩)
    · rcases List.mem_cons.mp (hperm.mem_iff.mp hn) with rfl | hn
      · exact h.waiting_lt hw
      · exact h.over_lt n hn
    · exact h.waiting_call f v (waiting_clear hf).2
    · obtain ⟨hfe, hf⟩ := waiting_clear hf
      intro hn
      rcases List.mem_cons.mp (hperm.mem_iff.mp hn) with hid | hn
      · exact hfe (h.waiting_inj hf hw hid)
      · exact h.waiting_not_over f v hf hn
    · rcases h.covered_clear hw hn with rfl | ho | hv
      · exact Or.inl (hperm.mem_iff.mpr (List.mem_cons_self ..))
      · exact Or.inl (hperm.mem_iff.mpr (List.mem_cons_of_mem _ ho))
      · exact Or.inr hv

end Accounted

end Rendezvous
