import Mathlib.Data.Nat.ModEq
import Mathlib.Logic.Function.Basic

/-! # A ring with an ownership bit

`n` slots of items, each with an ownership bit, and after them one link slot that
leads back to the first. The producer marks what it writes with its own bit and
flips that bit after every lap; the consumer takes a slot only when the mark is
the bit it expects, and flips its expectation when it follows the link. Neither
sees the index of the other.
-/

structure CycleRing (α : Type*) where
  slot : ℕ → α × Bool
  link : Bool
  tail : ℕ
  pcs : Bool
  head : ℕ
  ccs : Bool

namespace CycleRing

variable {α : Type*}

def lapBit (lap : ℕ) : Bool := lap % 2 == 0

@[simp] theorem lapBit_zero : lapBit 0 = true := rfl

@[simp] theorem lapBit_succ (lap : ℕ) : lapBit (lap + 1) = !lapBit lap := by
  rcases Nat.mod_two_eq_zero_or_one lap with h | h <;> simp [lapBit, Nat.add_mod, h]

/-! ### Steps -/

/-- The producer changes the item in its slot, not the mark. -/
def scribble (r : CycleRing α) (x : α) : CycleRing α :=
  { r with slot := Function.update r.slot r.tail (x, (r.slot r.tail).2) }

/-- The producer completes its slot and goes to the next. -/
def publish (r : CycleRing α) (x : α) : CycleRing α :=
  { r with slot := Function.update r.slot r.tail (x, r.pcs), tail := r.tail + 1 }

/-- At the end of a lap the producer marks the link and starts the next lap. -/
def wrap (r : CycleRing α) : CycleRing α := { r with link := r.pcs, pcs := !r.pcs, tail := 0 }

/-- The slot of the consumer is marked as its own. -/
def Ready (r : CycleRing α) : Prop := (r.slot r.head).2 = r.ccs

def advance (r : CycleRing α) : CycleRing α := { r with head := r.head + 1 }

def follow (r : CycleRing α) : CycleRing α := { r with head := 0, ccs := !r.ccs }

/-- The consumer looks at its place: it takes an item under its mark, and follows a link under its
mark. `got` is what it has taken so far. -/
def poll (n : ℕ) (s : CycleRing α × List α) : CycleRing α × List α :=
  let (r, got) := s
  if r.head < n then
    if (r.slot r.head).2 = r.ccs then (r.advance, got ++ [(r.slot r.head).1]) else (r, got)
  else if r.link = r.ccs then (r.follow, got) else (r, got)

/-! ### What the ring holds -/

/-- The ring with `n` slots has been given `items`, and `taken` of them have been consumed. -/
structure Tracks (n : ℕ) (r : CycleRing α) (items : List α) (taken : ℕ) : Prop where
  producer : ∃ lap, items.length = lap * n + r.tail ∧ r.tail ≤ n ∧ r.pcs = lapBit lap ∧
    r.link = lapBit (lap - 1)
  consumer : ∃ lap, taken = lap * n + r.head ∧ r.head ≤ n ∧ r.ccs = lapBit lap
  full : ∀ k x, taken ≤ k → items[k]? = some x → r.slot (k % n) = (x, lapBit (k / n))
  free : ∀ k, items.length ≤ k → k < taken + n → (r.slot (k % n)).2 = !lapBit (k / n)
  le : taken ≤ items.length
  room : items.length ≤ taken + n

variable {n : ℕ} {r : CycleRing α} {items : List α} {taken : ℕ}

theorem Tracks.empty (hslot : ∀ i < n, (r.slot i).2 = false) (hlink : r.link = true)
    (htail : r.tail = 0) (hpcs : r.pcs = true) (hhead : r.head = 0) (hccs : r.ccs = true) :
    r.Tracks n [] 0 where
  producer := ⟨0, by simp [htail, hpcs, hlink]⟩
  consumer := ⟨0, by simp [hhead, hccs]⟩
  full k x _ h := by simp at h
  free k _ hk := by
    rw [Nat.zero_add] at hk
    rw [Nat.mod_eq_of_lt hk, Nat.div_eq_of_lt hk, hslot k hk]
    rfl
  le := Nat.le_refl 0
  room := Nat.zero_le _

theorem mod_div_of_lt {k lap i : ℕ} (hk : k = lap * n + i) (hi : i < n) :
    k % n = i ∧ k / n = lap := by
  have hn : 0 < n := Nat.lt_of_le_of_lt (Nat.zero_le i) hi
  subst hk
  constructor
  · rw [Nat.mul_comm, Nat.mul_add_mod, Nat.mod_eq_of_lt hi]
  · rw [Nat.add_comm, Nat.add_mul_div_right _ _ hn, Nat.div_eq_of_lt hi, Nat.zero_add]

theorem mod_ne_mod {j k : ℕ} (hjk : j < k) (hk : k < j + n) : j % n ≠ k % n := by
  intro h
  have hdvd : n ∣ k - j := (Nat.modEq_iff_dvd' hjk.le).mp h
  exact absurd (Nat.le_of_dvd (by omega) hdvd) (by omega)

namespace Tracks

variable (h : r.Tracks n items taken)
include h

theorem mod_tail (ht : r.tail < n) : items.length % n = r.tail := by
  obtain ⟨lap, hlen, -⟩ := h.producer
  exact (mod_div_of_lt hlen ht).1

theorem scribble (x : α) (ht : r.tail < n) (hroom : items.length < taken + n) :
    (r.scribble x).Tracks n items taken where
  producer := h.producer
  consumer := h.consumer
  full k y hk hy := by
    have hlt : k < items.length := (List.getElem?_eq_some_iff.mp hy).1
    have hne : k % n ≠ r.tail := by
      rw [← h.mod_tail ht]
      exact mod_ne_mod hlt (by omega)
    rw [CycleRing.scribble]
    exact (Function.update_of_ne hne ..).trans (h.full k y hk hy)
  free k hk hlt := by
    rw [CycleRing.scribble]
    dsimp only
    by_cases hkt : k % n = r.tail
    · rw [hkt, Function.update_self, ← hkt]
      exact h.free k hk hlt
    · rw [Function.update_of_ne hkt]
      exact h.free k hk hlt
  le := h.le
  room := h.room

theorem publish (x : α) (ht : r.tail < n) (hroom : items.length < taken + n) :
    (r.publish x).Tracks n (items ++ [x]) taken where
  producer := by
    obtain ⟨lap, hlen, -, hpcs, hlink⟩ := h.producer
    refine ⟨lap, ?_, ht, hpcs, hlink⟩
    rw [List.length_append, hlen]
    rfl
  consumer := h.consumer
  full k y hk hy := by
    obtain ⟨lap, hlen, -, hpcs, -⟩ := h.producer
    obtain ⟨hmod, hdiv⟩ := mod_div_of_lt hlen ht
    rw [CycleRing.publish]
    dsimp only
    by_cases hkl : k = items.length
    · subst hkl
      rw [List.getElem?_append_right (Nat.le_refl _), Nat.sub_self] at hy
      rw [hmod, Function.update_self, hdiv, hpcs, Option.some.inj hy]
    · have hlt : k < (items ++ [x]).length := (List.getElem?_eq_some_iff.mp hy).1
      rw [List.length_append, List.length_singleton] at hlt
      have hkl' : k < items.length := by omega
      rw [List.getElem?_append_left hkl'] at hy
      have hne : k % n ≠ r.tail := by
        rw [← hmod]
        exact mod_ne_mod hkl' (by omega)
      rw [Function.update_of_ne hne]
      exact h.full k y hk hy
  free k hk hlt := by
    rw [List.length_append, List.length_singleton] at hk
    have hne : k % n ≠ r.tail := by
      rw [← h.mod_tail ht]
      exact (mod_ne_mod (Nat.lt_of_succ_le hk) (by have := h.le; omega)).symm
    rw [CycleRing.publish]
    dsimp only
    rw [Function.update_of_ne hne]
    exact h.free k (by omega) hlt
  le := by
    rw [List.length_append]
    exact Nat.le_add_right_of_le h.le
  room := by
    rw [List.length_append, List.length_singleton]
    exact hroom

theorem wrap (ht : r.tail = n) : r.wrap.Tracks n items taken where
  producer := by
    obtain ⟨lap, hlen, -, hpcs, -⟩ := h.producer
    refine ⟨lap + 1, ?_, Nat.zero_le n, ?_, ?_⟩
    · rw [hlen, ht, Nat.succ_mul]
      rfl
    · rw [lapBit_succ, ← hpcs]
      rfl
    · rw [Nat.add_sub_cancel, ← hpcs]
      rfl
  consumer := h.consumer
  full := h.full
  free := h.free
  le := h.le
  room := h.room

theorem of_slot_eq {slot : ℕ → α × Bool} (hn : 0 < n) (hslot : ∀ i < n, slot i = r.slot i) :
    { r with slot := slot }.Tracks n items taken where
  producer := h.producer
  consumer := h.consumer
  full k x hk hx := (hslot _ (Nat.mod_lt k hn)).trans (h.full k x hk hx)
  free k hk hlt := (congrArg Prod.snd (hslot _ (Nat.mod_lt k hn))).trans (h.free k hk hlt)
  le := h.le
  room := h.room

theorem slot_head (hh : r.head < n) : ∃ lap, taken % n = r.head ∧ taken / n = lap ∧
    r.ccs = lapBit lap := by
  obtain ⟨lap, htaken, -, hccs⟩ := h.consumer
  obtain ⟨hmod, hdiv⟩ := mod_div_of_lt htaken hh
  exact ⟨lap, hmod, hdiv, hccs⟩

theorem ready_iff (hh : r.head < n) : r.Ready ↔ taken < items.length := by
  obtain ⟨lap, hmod, hdiv, hccs⟩ := h.slot_head hh
  have hle := h.le
  constructor
  · intro hready
    by_contra hlt
    have hfree := h.free taken (by omega) (by omega)
    rw [hmod, hdiv, ← hccs, show (r.slot r.head).2 = r.ccs from hready] at hfree
    cases hb : r.ccs <;> rw [hb] at hfree <;> cases hfree
  · intro hlt
    have hfull := h.full taken _ (Nat.le_refl _) (List.getElem?_eq_getElem hlt)
    rw [hmod, hdiv, ← hccs] at hfull
    rw [Ready, hfull]

theorem slot_eq (hh : r.head < n) (hready : r.Ready) :
    items[taken]? = some (r.slot r.head).1 := by
  have hlt := (h.ready_iff hh).mp hready
  obtain ⟨lap, hmod, -, -⟩ := h.slot_head hh
  have hfull := h.full taken _ (Nat.le_refl _) (List.getElem?_eq_getElem hlt)
  rw [← hmod, hfull, List.getElem?_eq_getElem hlt]

theorem advance (hh : r.head < n) (hready : r.Ready) : r.advance.Tracks n items (taken + 1) where
  producer := h.producer
  consumer := by
    obtain ⟨lap, htaken, -, hccs⟩ := h.consumer
    exact ⟨lap, by rw [htaken]; rfl, hh, hccs⟩
  full k x hk := h.full k x (by omega)
  free k hk hlt := by
    rcases Nat.lt_or_ge k (taken + n) with hlt' | hge
    · exact h.free k hk hlt'
    · -- the place a lap later: what is in the slot now is the item just taken
      have hkt : k = taken + n := by omega
      have hn : 0 < n := Nat.lt_of_le_of_lt (Nat.zero_le _) hh
      have htaken := (h.ready_iff hh).mp hready
      have hfull := h.full taken _ (Nat.le_refl _) (List.getElem?_eq_getElem htaken)
      rw [hkt, Nat.add_mod_right, Nat.add_div_right _ hn, lapBit_succ, Bool.not_not]
      exact congrArg Prod.snd hfull
  le := (h.ready_iff hh).mp hready
  room := by
    have := h.room
    omega

theorem follow (hh : r.head = n) : r.follow.Tracks n items taken where
  producer := h.producer
  consumer := by
    obtain ⟨lap, htaken, -, hccs⟩ := h.consumer
    refine ⟨lap + 1, ?_, Nat.zero_le n, ?_⟩
    · rw [htaken, hh, Nat.succ_mul]
      rfl
    · rw [lapBit_succ, ← hccs]
      rfl
  full := h.full
  free := h.free
  le := h.le
  room := h.room

/-- The link, seen by a consumer that stands at it: marked unless the producer is still in the lap
that the consumer has finished, in its last place, or a whole lap ahead. -/
theorem link_eq_ccs_iff (hn : 0 < n) (hh : r.head = n) (ht : r.tail < n) :
    r.link = r.ccs ↔ items.length ≠ taken + n := by
  obtain ⟨p, hlen, -, -, hlink⟩ := h.producer
  obtain ⟨c, htaken, -, hccs⟩ := h.consumer
  rw [hh] at htaken
  have hle := h.le
  have hroom := h.room
  have hcp : c < p := by
    by_contra hge
    have := Nat.mul_le_mul_right n (Nat.le_of_not_lt hge)
    omega
  obtain rfl | hlt := Nat.eq_or_lt_of_le (Nat.succ_le_of_lt hcp)
  · -- one lap apart
    have hne : items.length ≠ taken + n := by
      rw [hlen, htaken, Nat.succ_mul]
      omega
    rw [hlink, hccs]
    exact iff_of_true rfl hne
  · -- two laps apart: the producer stands at the first slot again
    have hmul := Nat.mul_le_mul_right n (Nat.succ_le_of_lt hlt)
    simp only [Nat.succ_mul] at hmul
    have htwo : p = c + 2 := by
      by_contra hne
      have h3 : c + 3 ≤ p := by omega
      have hmul' := Nat.mul_le_mul_right n h3
      simp only [Nat.add_mul] at hmul'
      omega
    have hfull : items.length = taken + n := by omega
    rw [hlink, hccs, htwo]
    simp [hfull]

end Tracks

/-! ### What the consumer gets -/

/-- The items taken are the first of those given. -/
def Delivers (n : ℕ) (items : List α) (s : CycleRing α × List α) : Prop :=
  s.1.Tracks n items s.2.length ∧ s.2 <+: items

theorem Delivers.poll {s : CycleRing α × List α} (h : Delivers n items s) :
    Delivers n items (poll n s) := by
  obtain ⟨r, got⟩ := s
  obtain ⟨htracks, hprefix⟩ := h
  rw [CycleRing.poll]
  have hle : r.head ≤ n := by
    obtain ⟨-, -, hle, -⟩ := htracks.consumer
    exact hle
  split_ifs with hhead hready hlink
  · constructor
    · rw [List.length_append]
      exact htracks.advance hhead hready
    · have hnext := htracks.slot_eq hhead hready
      obtain ⟨rest, rfl⟩ := hprefix
      cases rest with
      | nil => simp at hnext
      | cons x rest =>
        simp only [List.getElem?_append_right (Nat.le_refl _), Nat.sub_self,
          List.getElem?_cons_zero, Option.some.injEq] at hnext
        exact ⟨rest, by simp [← hnext]⟩
  · exact ⟨htracks, hprefix⟩
  · exact ⟨htracks.follow (le_antisymm hle (Nat.le_of_not_lt hhead)), hprefix⟩
  · exact ⟨htracks, hprefix⟩

/-- The consumer stands at a link that has been marked for the lap after the next. -/
def Overtaken (n : ℕ) (items : List α) (s : CycleRing α × List α) : Prop :=
  s.1.head = n ∧ items.length = s.2.length + n

variable {s : CycleRing α × List α}

theorem poll_of_overtaken (hn : 0 < n) (h : Delivers n items s) (ht : s.1.tail < n)
    (hover : Overtaken n items s) : poll n s = s := by
  obtain ⟨r, got⟩ := s
  have hlink : r.link ≠ r.ccs := fun heq => (h.1.link_eq_ccs_iff hn hover.1 ht).mp heq hover.2
  have hhead : ¬ r.head < n := not_lt_of_ge hover.1.ge
  rw [poll, if_neg hhead, if_neg hlink]

theorem tail_poll (s : CycleRing α × List α) : (poll n s).1.tail = s.1.tail := by
  rw [poll]
  split_ifs <;> rfl

theorem poll_slot (h : Delivers n items s) (hhead : s.1.head < n)
    (hlt : s.2.length < items.length) :
    (poll n s).2.length = s.2.length + 1 ∧ ¬ Overtaken n items (poll n s) := by
  obtain ⟨r, got⟩ := s
  have hready : (r.slot r.head).2 = r.ccs := (h.1.ready_iff hhead).mpr hlt
  have hroom := h.1.room
  rw [poll, if_pos hhead, if_pos hready, Overtaken]
  dsimp only at hroom ⊢
  rw [List.length_append, List.length_singleton]
  exact ⟨rfl, fun hover => by omega⟩

theorem poll_link (hn : 0 < n) (h : Delivers n items s) (ht : s.1.tail < n) (hhead : s.1.head = n)
    (hover : ¬ Overtaken n items s) : poll n s = (s.1.follow, s.2) := by
  obtain ⟨r, got⟩ := s
  have hlink := (h.1.link_eq_ccs_iff hn hhead ht).mpr fun hfull => hover ⟨hhead, hfull⟩
  rw [poll, if_neg (not_lt_of_ge hhead.ge), if_pos hlink]

theorem exists_poll_drain (hn : 0 < n) (h : Delivers n items s) (ht : s.1.tail < n)
    (hover : ¬ Overtaken n items s) : ∃ k, ((poll n)^[k] s).2 = items := by
  have hstep : ∀ m (s : CycleRing α × List α), items.length = s.2.length + m →
      Delivers n items s → s.1.tail < n → ¬ Overtaken n items s →
      ∃ k, ((poll n)^[k] s).2 = items := by
    intro m
    induction m with
    | zero =>
      intro s hm h _ _
      exact ⟨0, h.2.eq_of_length hm.symm⟩
    | succ m ih =>
      -- from a slot with an item one poll makes progress
      have hslot : ∀ s : CycleRing α × List α, items.length = s.2.length + (m + 1) →
          Delivers n items s → s.1.tail < n → s.1.head < n →
          ∃ k, ((poll n)^[k] s).2 = items := by
        intro s hm h ht hhead
        obtain ⟨hlen, hover⟩ := poll_slot h hhead (by omega)
        obtain ⟨k, hk⟩ := ih (poll n s) (by omega) h.poll (by rwa [tail_poll]) hover
        exact ⟨k + 1, hk⟩
      intro s hm h ht hover
      obtain ⟨-, -, hle, -⟩ := h.1.consumer
      rcases Nat.lt_or_eq_of_le hle with hhead | hhead
      · exact hslot s hm h ht hhead
      · have hpoll := poll_link hn h ht hhead hover
        have hnext := h.poll
        rw [hpoll] at hnext
        obtain ⟨k, hk⟩ := hslot (s.1.follow, s.2) hm hnext ht hn
        refine ⟨k + 1, ?_⟩
        rw [Function.iterate_succ_apply, hpoll, hk]
  obtain ⟨m, hm⟩ := Nat.exists_eq_add_of_le h.1.le
  exact hstep m s hm h ht hover

theorem iterate_poll_of_overtaken (hn : 0 < n) (h : Delivers n items s) (ht : s.1.tail < n)
    (hover : Overtaken n items s) (k : ℕ) : (poll n)^[k] s = s :=
  Function.iterate_fixed (poll_of_overtaken hn h ht hover) k

theorem exists_poll_drain_iff (hn : 0 < n) (h : Delivers n items s) (ht : s.1.tail < n) :
    (∃ k, ((poll n)^[k] s).2 = items) ↔ ¬ Overtaken n items s := by
  constructor
  · rintro ⟨k, hk⟩ hover
    rw [iterate_poll_of_overtaken hn h ht hover] at hk
    have hlen := hover.2
    rw [hk] at hlen
    omega
  · exact exists_poll_drain hn h ht

end CycleRing
