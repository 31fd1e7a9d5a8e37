import StyxOS.Library.IndexRing

/-! # Taking turns round a queue

The holder of the turn stands at an index of a queue. The turn passes to the first
member after it, going round, that may take it. `wait` counts the members from the
holder up to a given one: a member that may take the turn comes nearer with every
pass, and what a pass has skipped stays behind.
-/

namespace RoundRobin

open IndexRing

variable {α : Type*} [DecidableEq α]

/-- The first member after index `turn`, going round, for which `may` holds. -/
def scan (queue : List α) (turn : ℕ) (may : α → Prop) [DecidablePred may] : Option α :=
  (List.range queue.length).findSome? fun i =>
    queue[(turn + (i + 1)) % queue.length]?.filter fun a => may a

/-- The number of places from index `turn` on to the member `a`. -/
def wait (queue : List α) (turn : ℕ) (a : α) : ℕ := count queue.length turn (queue.idxOf a)

variable {queue : List α} {turn : ℕ} {may : α → Prop} [DecidablePred may] {a b : α}

theorem wait_lt (ht : turn < queue.length) (ha : a ∈ queue) :
    wait queue turn a < queue.length :=
  count_lt ht (List.idxOf_lt_length_of_mem ha)

theorem wait_pos (ht : turn < queue.length) (hne : queue.idxOf a ≠ turn) :
    0 < wait queue turn a := by
  unfold wait
  rcases count_cases queue.length turn (queue.idxOf a) with h | h <;> omega

@[simp] theorem wait_self : wait queue (queue.idxOf a) a = 0 := by
  simp [wait, count]

theorem wait_idxOf_add (ht : turn < queue.length) (ha : a ∈ queue) (hb : b ∈ queue)
    (h : wait queue turn b ≤ wait queue turn a) :
    wait queue (queue.idxOf b) a + wait queue turn b = wait queue turn a := by
  have hla := List.idxOf_lt_length_of_mem ha
  have hlb := List.idxOf_lt_length_of_mem hb
  unfold wait at h ⊢
  rcases count_cases queue.length turn (queue.idxOf b) with hb | hb <;>
    rcases count_cases queue.length turn (queue.idxOf a) with ha | ha <;>
      rcases count_cases queue.length (queue.idxOf b) (queue.idxOf a) with hba | hba <;> omega

theorem wait_append_le (ha : a ∈ queue) :
    wait (queue ++ [b]) turn a ≤ wait queue turn a + 1 := by
  unfold wait
  rw [List.idxOf_append_of_mem ha, List.length_append, List.length_singleton]
  rcases count_cases queue.length turn (queue.idxOf a) with h | h <;>
    rcases count_cases (queue.length + 1) turn (queue.idxOf a) with h' | h' <;> omega

theorem wait_append_mono {c : α} (ht : turn < queue.length) (ha : a ∈ queue)
    (hb : b ∈ queue) (h : wait queue turn a ≤ wait queue (queue.idxOf b) a) :
    wait (queue ++ [c]) turn a ≤ wait (queue ++ [c]) ((queue ++ [c]).idxOf b) a := by
  have hla := List.idxOf_lt_length_of_mem ha
  have hlb := List.idxOf_lt_length_of_mem hb
  unfold wait at h ⊢
  rw [List.idxOf_append_of_mem ha, List.idxOf_append_of_mem hb, List.length_append,
    List.length_singleton]
  rcases count_cases queue.length turn (queue.idxOf a) with h₁ | h₁ <;>
    rcases count_cases queue.length (queue.idxOf b) (queue.idxOf a) with h₂ | h₂ <;>
      rcases count_cases (queue.length + 1) turn (queue.idxOf a) with h₃ | h₃ <;>
        rcases count_cases (queue.length + 1) (queue.idxOf b) (queue.idxOf a) with h₄ | h₄ <;>
          omega

theorem getElem?_wait (ht : turn < queue.length) (ha : a ∈ queue) :
    queue[(turn + wait queue turn a) % queue.length]? = some a := by
  have hla := List.idxOf_lt_length_of_mem ha
  have hidx : (turn + wait queue turn a) % queue.length = queue.idxOf a := by
    have hwait := wait_lt ht ha
    unfold wait at hwait ⊢
    rcases count_cases queue.length turn (queue.idxOf a) with h | h <;>
      rcases mod_cases (show turn + count queue.length turn (queue.idxOf a) < 2 * queue.length by
        omega) with h' | h' <;> omega
  rw [hidx, List.getElem?_idxOf ha]

theorem wait_of_getElem? (ht : turn < queue.length) (hnodup : queue.Nodup) {i : ℕ}
    (hi : i < queue.length) (h : queue[(turn + i) % queue.length]? = some b) :
    b ∈ queue ∧ wait queue turn b = i := by
  obtain ⟨hlt, hget⟩ := List.getElem?_eq_some_iff.mp h
  have hidx : queue.idxOf b = (turn + i) % queue.length := by
    rw [← hget, hnodup.idxOf_getElem]
  refine ⟨List.mem_of_getElem? h, ?_⟩
  unfold wait
  rw [hidx]
  rcases mod_cases (show turn + i < 2 * queue.length by omega) with h' | h' <;>
    rcases count_cases queue.length turn ((turn + i) % queue.length) with h'' | h'' <;> omega

/-- Where a member other than the holder may take the turn, the scan answers with one that may, not
beyond it. -/
theorem scan_of_may (ht : turn < queue.length) (hnodup : queue.Nodup) (ha : a ∈ queue)
    (hne : queue.idxOf a ≠ turn) (hmay : may a) :
    ∃ b ∈ queue, scan queue turn may = some b ∧ 0 < wait queue turn b ∧
      wait queue turn b ≤ wait queue turn a := by
  have hpos := wait_pos ht hne
  have hwait := wait_lt ht ha
  have hseen : queue[(turn + (wait queue turn a - 1 + 1)) % queue.length]?.filter
      (fun x => may x) = some a := by
    rw [Nat.sub_add_cancel hpos, getElem?_wait ht ha]
    exact Option.filter_eq_some_iff.mpr ⟨rfl, decide_eq_true hmay⟩
  have hrange : wait queue turn a - 1 ∈ List.range queue.length := List.mem_range.mpr (by omega)
  obtain ⟨b, hb⟩ : ∃ b, scan queue turn may = some b := by
    refine Option.isSome_iff_exists.mp (List.findSome?_isSome_iff.mpr ⟨_, hrange, ?_⟩)
    rw [hseen]
    rfl
  -- nothing before the index of the answer passes the test, so `a` does not come before it
  obtain ⟨l₁, i, l₂, hsplit, hi, hnone⟩ := List.findSome?_eq_some_iff.mp hb
  have hle : i ≤ wait queue turn a - 1 := by
    rw [hsplit, List.mem_append, List.mem_cons] at hrange
    rcases hrange with hbefore | heq | hafter
    · rw [hnone _ hbefore] at hseen
      cases hseen
    · exact Nat.le_of_eq heq.symm
    · have hsorted := (List.pairwise_append.mp (hsplit ▸ List.pairwise_lt_range)).2.1
      exact Nat.le_of_lt ((List.pairwise_cons.mp hsorted).1 _ hafter)
  obtain ⟨hmem, hplace⟩ := wait_of_getElem? ht hnodup (show i + 1 < queue.length by omega)
    (Option.filter_eq_some_iff.mp hi).1
  exact ⟨b, hmem, hb, by omega, by omega⟩

end RoundRobin
