import Mathlib.Data.List.Basic
import Mathlib.Logic.Function.Basic

/-! # Forests of table nodes

A node holds an entry for every index; an inner entry may point to a node one
level down, and a last entry is what a walk looks for. Nodes carry positions,
and a walk that starts at a position ends at a slot that its path determines.
Storing a last entry changes what the walks to its slot find and no other; adding an empty
node, or changing an inner entry that points where it did, changes nothing.
-/

namespace Radix

structure Shape (P I : Type*) where
  child : P → I → P
  depth : P → ℕ
  height : ℕ
  depth_child : ∀ p i, depth (child p i) = depth p + 1

/-- How entries are read: the node that an inner entry points to, and whether a last entry is
there. -/
structure Reading (N E : Type*) where
  next : E → Option N
  present : E → Bool

variable {N I E P : Type*}

namespace Shape

variable (sh : Shape P I)

def Inner (p : P) : Prop := sh.depth p + 1 < sh.height

/-- The path leads from the position to a last entry. -/
def Full (p : P) (path : List I) : Prop := path ≠ [] ∧ sh.depth p + path.length = sh.height

/-- The slot at the end of a path: a position and an index. -/
def slot : P → List I → Option (P × I)
  | _, [] => none
  | p, [i] => some (p, i)
  | p, i :: j :: is => slot (sh.child p i) (j :: is)

variable {sh} {p : P} {i j : I} {is : List I}

theorem Full.not_inner (h : sh.Full p [i]) : ¬sh.Inner p := by
  have hlen : sh.depth p + 1 = sh.height := h.2
  exact Nat.not_lt.mpr (Nat.le_of_eq hlen.symm)

theorem Full.inner (h : sh.Full p (i :: j :: is)) : sh.Inner p := by
  have hlen : sh.depth p + (is.length + 1 + 1) = sh.height := h.2
  unfold Inner
  omega

theorem Full.tail (h : sh.Full p (i :: j :: is)) : sh.Full (sh.child p i) (j :: is) := by
  have hlen : sh.depth p + (is.length + 1 + 1) = sh.height := h.2
  refine ⟨List.cons_ne_nil _ _, ?_⟩
  rw [sh.depth_child, List.length_cons]
  omega

end Shape

section Walk

variable (rd : Reading N E) (s : N → I → E)

/-- The node and the index of the last entry on a path. -/
def reach : N → List I → Option (N × I)
  | _, [] => none
  | n, [i] => some (n, i)
  | n, i :: j :: is => (rd.next (s n i)).bind fun m => reach m (j :: is)

/-- The last entry on a path, when it is there. -/
def find (n : N) (path : List I) : Option E :=
  (reach rd s n path).bind fun x => if rd.present (s x.1 x.2) then some (s x.1 x.2) else none

def parents : N → List I → List E
  | _, [] => []
  | _, [_] => []
  | n, i :: j :: is => s n i :: (rd.next (s n i)).elim [] fun m => parents m (j :: is)

def Blank (n : N) : Prop := ∀ i, rd.next (s n i) = none ∧ rd.present (s n i) = false

end Walk

variable {rd : Reading N E} {s s' : N → I → E} {n m : N} {i j : I} {is path : List I} {e : E}

theorem find_singleton :
    find rd s n [i] = if rd.present (s n i) then some (s n i) else none := rfl

theorem find_cons :
    find rd s n (i :: j :: is) = (rd.next (s n i)).bind fun m => find rd s m (j :: is) := by
  rw [find, reach]
  cases rd.next (s n i) <;> rfl

theorem Blank.find (h : Blank rd s n) : find rd s n path = none := by
  cases path with
  | nil => rfl
  | cons i path =>
    cases path with
    | nil => rw [find_singleton, (h i).2]; rfl
    | cons j is => rw [find_cons, (h i).1]; rfl

/-! ## Placed nodes -/

variable {sh : Shape P I} {place place' : N → Option P} {p q : P}

/-- An inner entry of a placed node points to a node placed under it. -/
def Placed (sh : Shape P I) (rd : Reading N E) (place : N → Option P) (s : N → I → E) : Prop :=
  ∀ n p i m, place n = some p → sh.Inner p → rd.next (s n i) = some m →
    place m = some (sh.child p i)

theorem Placed.slot_of_reach (h : Placed sh rd place s) (hn : place n = some p)
    (hf : sh.Full p path) (hr : reach rd s n path = some (m, i)) :
    ∃ q, place m = some q ∧ sh.slot p path = some (q, i) := by
  induction path generalizing n p with
  | nil => cases hr
  | cons k path ih =>
    cases path with
    | nil =>
      obtain ⟨rfl, rfl⟩ : n = m ∧ k = i := by simpa [reach] using hr
      exact ⟨p, hn, rfl⟩
    | cons j is =>
      rw [reach] at hr
      obtain ⟨m', hm', hr'⟩ := Option.bind_eq_some_iff.mp hr
      exact ih (h n p k m' hn hf.inner hm') hf.tail hr'

/-! ## Changes that no walk sees -/

/-- Among placed nodes, last entries are as they were, and inner entries point where they did or
to a new node that is blank. -/
structure Widens (sh : Shape P I) (rd : Reading N E) (place : N → Option P) (s s' : N → I → E) :
    Prop where
  inner : ∀ n p i, place n = some p → sh.Inner p → rd.next (s' n i) = rd.next (s n i) ∨
    rd.next (s n i) = none ∧ ∃ m, rd.next (s' n i) = some m ∧ Blank rd s' m
  last : ∀ n p i, place n = some p → ¬sh.Inner p → s' n i = s n i

theorem Widens.find (h : Widens sh rd place s s') (hp : Placed sh rd place s)
    (hn : place n = some p) (hf : sh.Full p path) : find rd s' n path = find rd s n path := by
  induction path generalizing n p with
  | nil => exact absurd rfl hf.1
  | cons i path ih =>
    cases path with
    | nil => rw [find_singleton, find_singleton, h.last n p i hn hf.not_inner]
    | cons j is =>
      rw [find_cons, find_cons]
      rcases h.inner n p i hn hf.inner with heq | ⟨hnone, m, hm, hblank⟩
      · rw [heq]
        cases hnext : rd.next (s n i) with
        | none => rfl
        | some m => exact ih (hp n p i m hn hf.inner hnext) hf.tail
      · rw [hm, hnone, Option.bind_some, Option.bind_none, hblank.find]

/-- What held of the entries on the way to a last entry holds of them still. -/
theorem Widens.parents {C : E → Prop} (h : Widens sh rd place s s') (hp : Placed sh rd place s)
    (hC : ∀ n p i, place n = some p → sh.Inner p → rd.next (s' n i) = rd.next (s n i) →
      C (s n i) → C (s' n i))
    (hn : place n = some p) (hf : sh.Full p path) (he : Radix.find rd s' n path = some e)
    (hall : ∀ x ∈ parents rd s n path, C x) : ∀ x ∈ Radix.parents rd s' n path, C x := by
  induction path generalizing n p with
  | nil => exact absurd rfl hf.1
  | cons i path ih =>
    cases path with
    | nil => intro x hx; cases hx
    | cons j is =>
      rw [find_cons] at he
      rw [Radix.parents] at hall
      rcases h.inner n p i hn hf.inner with heq | ⟨-, m, hm, hblank⟩
      · obtain ⟨m, hm, he⟩ := Option.bind_eq_some_iff.mp he
        have hm' : rd.next (s n i) = some m := by rw [← heq, hm]
        rw [hm'] at hall
        obtain ⟨hhead, htail⟩ := List.forall_mem_cons.mp hall
        rw [Radix.parents, hm]
        refine List.forall_mem_cons.mpr ⟨hC n p i hn hf.inner heq hhead, ?_⟩
        exact ih (hp n p i m hn hf.inner hm') hf.tail he htail
      · rw [hm, Option.bind_some, hblank.find] at he
        cases he

/-! ## Storing a last entry -/

section Store

variable [DecidableEq N] [DecidableEq I]

def put (s : N → I → E) (n : N) (i : I) (e : E) : N → I → E :=
  Function.update s n (Function.update (s n) i e)

theorem put_self : put s n i e n i = e := by simp [put]

theorem put_of_ne (h : m ≠ n ∨ j ≠ i) : put s n i e m j = s m j := by
  by_cases hm : m = n
  · have hj : j ≠ i := h.resolve_left fun hne => hne hm
    rw [hm, put, Function.update_self, Function.update_of_ne hj]
  · rw [put, Function.update_of_ne hm]

variable (hq : place n = some q) (hlast : ¬sh.Inner q)

include hq hlast

theorem put_of_inner (hm : place m = some p) (hp : sh.Inner p) : put s n i e m j = s m j := by
  refine put_of_ne (.inl ?_)
  rintro rfl
  rw [hq] at hm
  obtain rfl := Option.some.inj hm
  exact hlast hp

theorem Placed.put (h : Placed sh rd place s) : Placed sh rd place (Radix.put s n i e) := by
  intro m p j m' hm hp hnext
  rw [put_of_inner hq hlast hm hp] at hnext
  exact h m p j m' hm hp hnext

theorem reach_put (h : Placed sh rd place s) (hm : place m = some p) (hf : sh.Full p path) :
    reach rd (put s n i e) m path = reach rd s m path := by
  induction path generalizing m p with
  | nil => rfl
  | cons k path ih =>
    cases path with
    | nil => rfl
    | cons j is =>
      rw [reach, reach, put_of_inner hq hlast hm hf.inner]
      cases hnext : rd.next (s m k) with
      | none => rfl
      | some m' => exact ih (h m p k m' hm hf.inner hnext) hf.tail

theorem parents_put (h : Placed sh rd place s) (hm : place m = some p) (hf : sh.Full p path) :
    parents rd (put s n i e) m path = parents rd s m path := by
  induction path generalizing m p with
  | nil => rfl
  | cons k path ih =>
    cases path with
    | nil => rfl
    | cons j is =>
      rw [parents, parents, put_of_inner hq hlast hm hf.inner]
      cases hnext : rd.next (s m k) with
      | none => rfl
      | some m' =>
        exact congrArg _ (ih (h m p k m' hm hf.inner hnext) hf.tail)

theorem find_put_of_reach (h : Placed sh rd place s) (hm : place m = some p)
    (hf : sh.Full p path) (hr : reach rd s m path = some (n, i)) :
    find rd (put s n i e) m path = if rd.present e then some e else none := by
  rw [find, reach_put hq hlast h hm hf, hr, Option.bind_some, put_self]

theorem find_put_of_reach_ne (h : Placed sh rd place s) (hm : place m = some p)
    (hf : sh.Full p path) (hne : reach rd s m path ≠ some (n, i)) :
    find rd (put s n i e) m path = find rd s m path := by
  rw [find, find, reach_put hq hlast h hm hf]
  cases hr : reach rd s m path with
  | none => rfl
  | some x =>
    have hx : x.1 ≠ n ∨ x.2 ≠ i := by
      by_contra hcon
      obtain ⟨hn, hi⟩ : x.1 = n ∧ x.2 = i := by simpa [not_or] using hcon
      exact hne (by rw [hr, ← hn, ← hi])
    rw [Option.bind_some, Option.bind_some, put_of_ne hx]

theorem find_put_of_slot_ne (h : Placed sh rd place s) (hm : place m = some p)
    (hf : sh.Full p path) (hne : sh.slot p path ≠ some (q, i)) :
    find rd (put s n i e) m path = find rd s m path := by
  refine find_put_of_reach_ne hq hlast h hm hf fun hr => hne ?_
  obtain ⟨q', hq', hslot⟩ := h.slot_of_reach hm hf hr
  rw [hq] at hq'
  rw [hslot, Option.some.inj hq']

end Store

end Radix
