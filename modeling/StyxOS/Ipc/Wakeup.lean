import Mathlib.Data.Finset.Card
import StyxOS.Ipc.Delivery

/-! # Parked tasks and the endpoints that name them

A task that waits for its peer is BLOCKED, and one endpoint keeps its identifier.
The scheduler breaks the tie at every switch away from a task it has just
blocked, and a revocation forgets the identifier without releasing the task.
-/

namespace StyxOS

open Sched StepSystem

/-- The endpoint waits and keeps the identifier of the task; zero stands for no task. -/
def ParkedAt (k : Kernel) (e : EpPtr) (t : TaskPtr) : Prop :=
  (k.caps.epPool e).state ≠ .idle ∧
    (k.caps.epPool e).parkedTaskId = (k.sched.taskTable t).id ∧ (k.sched.taskTable t).id ≠ 0

instance (k : Kernel) (e : EpPtr) (t : TaskPtr) : Decidable (ParkedAt k e t) :=
  inferInstanceAs (Decidable (_ ∧ _ ∧ _))

/-- A task is BLOCKED if and only if exactly one endpoint waits and names it. -/
def NoLostWakeup (k : Kernel) : Prop :=
  ∀ t, k.sched.stateOf t = .blocked ↔ ∃! e, ParkedAt k e t

def endpointsOf (k : Kernel) (t : TaskPtr) : Finset EpPtr :=
  Finset.univ.filter fun e => ParkedAt k e t

/-- What can happen between two states: a call on either side with any table, a revocation, a slot
freed, and the steps of the scheduler. -/
inductive WakeOp
  | call (d : IpcDir) (cpu : TaskRegs) (table : UInt64) (slotIdx : UInt32) (buf : UInt64)
  | revoke (table : UInt64) (slotIdx : UInt32)
  | free (table : UInt64) (slotIdx : UInt32)
  | add (t : TaskPtr)
  | start (cpu : TaskRegs)
  | tick (cpu : TaskRegs)
  | yield (cpu : TaskRegs)
  | exit (cpu : TaskRegs)

namespace Kernel

def withSched (k : Kernel) (s : Sched) : Kernel := { k with sched := s }

def withCaps (k : Kernel) (c : Caps) : Kernel := { k with caps := c }

def wakeStep (K : KernelLayout) (k : Kernel) (op : WakeOp) : Kernel :=
  if k.halted then k else
  match op with
  | .call d cpu table slotIdx buf => (capTransfer K cpu d k table slotIdx buf).2
  | .revoke table i => k.withCaps (capRevokeEndpoint k.caps table i).2
  | .free table i => k.withCaps (capFreeSlot k.caps table i).2
  | .add t => k.withSched (schedAdd k.sched t)
  | .start cpu => k.withSched (schedStart K cpu k.sched)
  | .tick cpu => k.withSched (schedTick K cpu k.sched)
  | .yield cpu => k.withSched (schedYield K cpu k.sched)
  | .exit cpu => k.withSched (sysExit K cpu k.sched)

end Kernel

/-- The condition on a call that finds its endpoint. Where nobody waits there, a caller that is
parked nowhere finds no other task READY, and one that runs on although it is parked finds one.
Where the other side waits, the task to be released is not parked at two endpoints. -/
def RendezvousWakes (d : IpcDir) (k : Kernel) (e : EpPtr) (buf : UInt64) : Prop :=
  ((k.caps.epPool e).state = .idle → ∀ t, k.sched.current = some t →
    (k.sched.taskTable t).id ≠ 0 →
    (scanReady (k.sched.setState t .blocked) = none ↔ (endpointsOf k t).card = 0)) ∧
  ((k.caps.epPool e).state = IpcDir.waiting d.other →
    CopyMapped d k.memory k.sched.cr3 (k.caps.epPool e).pendingMsg buf →
    ∀ t, ParkedAt k e t → (endpointsOf k t).card ≠ 2)

/-- A switch away from the current task does not take it out of BLOCKED: it is not, or no task is
READY. -/
def StaysBlocked (k : Kernel) : Prop :=
  ∀ t, k.sched.current = some t → k.sched.stateOf t = .blocked → scanReady k.sched = none

/-- The condition on a step. -/
def WakesAll (k : Kernel) : WakeOp → Prop
  | .call d _ table slotIdx buf => k.halted = false → ∀ slot e,
    capLookup k.caps table slotIdx .endpoint (IpcDir.right d) = .ok slot →
    slot.object = .endpoint e → RendezvousWakes d k e buf
  | .revoke table slotIdx => k.halted = false → ∀ i e, slotIndex slotIdx = some i →
    (k.caps.tables table i).object = .endpoint e → ∀ t, ParkedAt k e t →
    2 < (endpointsOf k t).card
  | .start _ => k.halted = false → ∀ t, k.sched.runQueue.head? = some t →
    k.sched.stateOf t ≠ .blocked
  | .tick _ => k.halted = false → (∀ t, k.sched.current = some t →
    (k.sched.taskTable t).ticks ≤ 1) → StaysBlocked k
  | .yield _ => k.halted = false → StaysBlocked k
  | .exit _ => k.halted = false → ∀ t, k.sched.current = some t → k.sched.stateOf t ≠ .blocked
  | _ => True

/-- What every step preserves while no wake-up is lost. -/
structure WakeInv (K : KernelLayout) (k : Kernel) : Prop where
  unique : ∀ t u, (k.sched.taskTable t).id ≠ 0 →
    (k.sched.taskTable t).id = (k.sched.taskTable u).id → t = u
  startHead : k.sched.StartHead K
  wakes : NoLostWakeup k

variable {K : KernelLayout} {k k' : Kernel} {t u : TaskPtr} {e : EpPtr}

/-! ## The endpoints of a task -/

theorem mem_endpointsOf : e ∈ endpointsOf k t ↔ ParkedAt k e t := by
  simp [endpointsOf]

theorem existsUnique_parkedAt : (∃! e, ParkedAt k e t) ↔ (endpointsOf k t).card = 1 := by
  rw [Finset.card_eq_one, Finset.singleton_iff_unique_mem]
  simp only [mem_endpointsOf]

theorem NoLostWakeup.blocked_iff (h : NoLostWakeup k) (t : TaskPtr) :
    k.sched.stateOf t = .blocked ↔ (endpointsOf k t).card = 1 :=
  (h t).trans existsUnique_parkedAt

theorem id_of_fixed {x y : Task} (h : x.fixed = y.fixed) : x.id = y.id :=
  congrArg (fun f => f.1) h

/-- Where the identifiers stay the same, so does what a task is parked at, but for the endpoints
that change. -/
theorem parkedAt_congr
    (hfix : (k'.sched.taskTable t).fixed = (k.sched.taskTable t).fixed)
    (hep : k'.caps.epPool e = k.caps.epPool e) : ParkedAt k' e t ↔ ParkedAt k e t := by
  unfold ParkedAt
  rw [hep, id_of_fixed hfix]

theorem endpointsOf_congr
    (hfix : (k'.sched.taskTable t).fixed = (k.sched.taskTable t).fixed)
    (hep : k'.caps.epPool = k.caps.epPool) : endpointsOf k' t = endpointsOf k t := by
  ext e
  rw [mem_endpointsOf, mem_endpointsOf]
  exact parkedAt_congr hfix (congrFun hep e)

theorem endpointsOf_idle {x : Endpoint}
    (hfix : (k'.sched.taskTable t).fixed = (k.sched.taskTable t).fixed)
    (hep : k'.caps.epPool = Function.update k.caps.epPool e x) (hx : x.state = .idle) :
    endpointsOf k' t = (endpointsOf k t).erase e := by
  ext f
  rw [Finset.mem_erase, mem_endpointsOf, mem_endpointsOf]
  by_cases hf : f = e
  · subst hf
    have hidle : k'.caps.epPool f = x := by rw [hep, Function.update_self]
    refine iff_of_false ?_ (by simp)
    rintro ⟨hne, -⟩
    rw [hidle] at hne
    exact hne hx
  · have hsame : k'.caps.epPool f = k.caps.epPool f := by rw [hep, Function.update_of_ne hf]
    rw [parkedAt_congr hfix hsame]
    simp [hf]

/-- An idle endpoint that begins to wait is one more for the task that it names. -/
theorem endpointsOf_park {d : IpcDir} {buf : UInt64} {id : UInt32}
    (hfix : (k'.sched.taskTable t).fixed = (k.sched.taskTable t).fixed)
    (hep : k'.caps.epPool = Function.update k.caps.epPool e
      ((k.caps.epPool e).park d buf id)) (hidle : (k.caps.epPool e).state = .idle) :
    endpointsOf k' t = if id = (k.sched.taskTable t).id ∧ id ≠ 0 then insert e (endpointsOf k t)
      else endpointsOf k t := by
  ext f
  have hmem : f ∈ (if id = (k.sched.taskTable t).id ∧ id ≠ 0 then insert e (endpointsOf k t)
      else endpointsOf k t) ↔
      (f = e ∧ id = (k.sched.taskTable t).id ∧ id ≠ 0) ∨ f ∈ endpointsOf k t := by
    split
    · next h =>
      rw [Finset.mem_insert, and_iff_left h]
    · next h =>
      constructor
      · exact Or.inr
      · rintro (⟨-, hid⟩ | hf)
        · exact absurd hid h
        · exact hf
  rw [hmem, mem_endpointsOf, mem_endpointsOf]
  by_cases hf : f = e
  · subst hf
    have hpark : k'.caps.epPool f = (k.caps.epPool f).park d buf id := by
      rw [hep, Function.update_self]
    have hold : ¬ ParkedAt k f t := fun h => h.1 hidle
    have hwait : IpcDir.waiting d ≠ .idle := by cases d <;> decide
    unfold ParkedAt
    rw [hpark, id_of_fixed hfix]
    constructor
    · rintro ⟨-, hid, hne⟩
      exact Or.inl ⟨rfl, hid, fun hz => hne (hid.symm.trans hz)⟩
    · rintro (⟨-, hid, hne⟩ | h)
      · exact ⟨hwait, hid, fun hz => hne (hid.trans hz)⟩
      · exact absurd h hold
  · have hsame : k'.caps.epPool f = k.caps.epPool f := by rw [hep, Function.update_of_ne hf]
    rw [parkedAt_congr hfix hsame]
    simp [hf]

/-! ## Steps that touch one task -/

theorem NoLostWakeup.congr (h : NoLostWakeup k)
    (hst : ∀ t, k'.sched.stateOf t = .blocked ↔ k.sched.stateOf t = .blocked)
    (hep : ∀ t, endpointsOf k' t = endpointsOf k t) : NoLostWakeup k' := by
  intro t
  rw [hst, h.blocked_iff, existsUnique_parkedAt, hep]

/-- A step that leaves every other task as it was loses no wake-up exactly when it does not lose
that of the one task. -/
theorem NoLostWakeup.iff_of_one (h : NoLostWakeup k)
    (hst : ∀ u, u ≠ t → (k'.sched.stateOf u = .blocked ↔ k.sched.stateOf u = .blocked))
    (hep : ∀ u, u ≠ t → endpointsOf k' u = endpointsOf k u) :
    NoLostWakeup k' ↔ (k'.sched.stateOf t = .blocked ↔ (endpointsOf k' t).card = 1) := by
  constructor
  · exact fun h' => h'.blocked_iff t
  · intro ht u
    rw [existsUnique_parkedAt]
    by_cases hu : u = t
    · rw [hu]
      exact ht
    · rw [hst u hu, hep u hu]
      exact h.blocked_iff u

theorem NoLostWakeup.switched_iff (h : NoLostWakeup k) {next : TaskPtr} {s : Sched}
    (hnext : k.sched.stateOf next = .ready) (hsw : Switched K k.sched t next s) (hne : next ≠ t) :
    NoLostWakeup (k.withSched s) ↔ k.sched.stateOf t ≠ .blocked := by
  have hep : ∀ u, endpointsOf (k.withSched s) u = endpointsOf k u := fun u =>
    endpointsOf_congr (hsw.fixed u) rfl
  rw [h.iff_of_one (t := t) ?_ fun u _ => hep u]
  · have hready : (k.withSched s).sched.stateOf t = .ready := by
      change s.stateOf t = .ready
      rw [hsw.state, if_neg hne.symm, if_pos rfl]
    rw [hready, hep, ← h.blocked_iff t]
    simp
  · intro u hu
    change s.stateOf u = .blocked ↔ _
    rw [hsw.state, if_neg hu]
    split
    · next hun => simp [hun, hnext]
    · exact Iff.rfl

/-! ## The steps of the scheduler -/

theorem NoLostWakeup.setTicks (h : NoLostWakeup k) (t : TaskPtr) (n : UInt32) :
    NoLostWakeup (k.withSched (k.sched.setTicks t n)) := by
  apply h.congr
  · intro u
    change (k.sched.setTicks t n).stateOf u = _ ↔ _
    rw [stateOf_setTicks]
  · exact fun u => endpointsOf_congr (fixed_setTicks ..) rfl

theorem ne_of_ready {s : Sched} {cur next : TaskPtr} (hnext : s.stateOf next = .ready)
    (hb : s.stateOf cur = .blocked) : next ≠ cur := by
  rintro rfl
  rw [hb] at hnext
  cases hnext

theorem yield_iff (h : NoLostWakeup k) (hs : k.sched.StartHead K) (cpu : TaskRegs) :
    NoLostWakeup (k.withSched (schedYield K cpu k.sched)) ↔ StaysBlocked k := by
  cases hc : k.sched.current with
  | none =>
    have he : schedYield K cpu k.sched = k.sched := by
      unfold schedYield
      rw [hc]
    rw [he]
    refine iff_of_true h fun t ht => ?_
    rw [hc] at ht
    cases ht
  | some cur =>
    by_cases hb : k.sched.stateOf cur = .blocked
    · cases hscan : scanReady k.sched with
      | none =>
        rw [schedYield_of_none cpu hscan]
        exact iff_of_true h fun _ _ _ => hscan
      | some next =>
        have hnext := (scanReady_some hscan).2
        have hne := ne_of_ready hnext hb
        rw [h.switched_iff hnext (schedYield_of_ready cpu hc hs hscan hne) hne]
        refine iff_of_false (not_not_intro hb) fun hstay => ?_
        have hnone := hstay cur hc hb
        rw [hscan] at hnone
        cases hnone
    · have hstay : StaysBlocked k := by
        intro t ht hblocked
        obtain rfl : cur = t := Option.some.inj (hc.symm.trans ht)
        exact absurd hblocked hb
      refine iff_of_true ?_ hstay
      rcases schedYield_cases cpu hc hs with he | ⟨next, hnext, hne, hsw⟩
      · rw [he]
        exact h
      · exact (h.switched_iff hnext hsw hne).mpr hb

theorem tick_iff (h : NoLostWakeup k) (hs : k.sched.StartHead K) (cpu : TaskRegs) :
    NoLostWakeup (k.withSched (schedTick K cpu k.sched)) ↔
      ((∀ t, k.sched.current = some t → (k.sched.taskTable t).ticks ≤ 1) → StaysBlocked k) := by
  cases hc : k.sched.current with
  | none =>
    have he : schedTick K cpu k.sched = k.sched := by
      unfold schedTick
      rw [hc]
    rw [he]
    refine iff_of_true h fun _ t ht => ?_
    rw [hc] at ht
    cases ht
  | some cur =>
    by_cases hstay : (k.sched.taskTable cur).ticks ≤ 1 → scanReady k.sched = none
    · obtain ⟨n, he⟩ := schedTick_of_stay (K := K) cpu hc fun ht =>
        (nextReady_of_none (hstay ht)).trans hc
      rw [he]
      refine iff_of_true (h.setTicks cur n) fun hticks t ht _ => ?_
      exact hstay (hticks cur rfl)
    · obtain ⟨ht, hscan⟩ := Classical.not_imp.mp hstay
      obtain ⟨next, hscan⟩ := Option.ne_none_iff_exists'.mp hscan
      by_cases hb : k.sched.stateOf cur = .blocked
      · have hnext := (scanReady_some hscan).2
        have hne := ne_of_ready hnext hb
        rw [h.switched_iff hnext (schedTick_of_ready cpu hc hs ht hscan hne) hne]
        refine iff_of_false (not_not_intro hb) fun hcond => ?_
        have hnone := hcond (fun t hct => by rwa [← Option.some.inj hct]) cur hc hb
        rw [hscan] at hnone
        cases hnone
      · have hcond : StaysBlocked k := by
          intro t hct hblocked
          obtain rfl : cur = t := Option.some.inj (hc.symm.trans hct)
          exact absurd hblocked hb
        refine iff_of_true ?_ fun _ => hcond
        rcases schedTick_cases cpu hc hs with ⟨n, he⟩ | ⟨next, hnext, hne, hsw⟩
        · rw [he]
          exact h.setTicks cur n
        · exact (h.switched_iff hnext hsw hne).mpr hb

theorem setState_iff (h : NoLostWakeup k) {x : TaskState} (hx : x ≠ .blocked) (t : TaskPtr) :
    NoLostWakeup (k.withSched (k.sched.setState t x)) ↔ k.sched.stateOf t ≠ .blocked := by
  have hep : ∀ u, endpointsOf (k.withSched (k.sched.setState t x)) u = endpointsOf k u := fun u =>
    endpointsOf_congr (fixed_setState ..) rfl
  rw [h.iff_of_one (t := t) ?_ fun u _ => hep u]
  · change ((k.sched.setState t x).stateOf t = _ ↔ _) ↔ _
    rw [stateOf_setState, if_pos rfl, hep, ← h.blocked_iff t]
    simp [hx]
  · intro u hu
    change (k.sched.setState t x).stateOf u = _ ↔ _
    rw [stateOf_setState, if_neg hu]

theorem NoLostWakeup.not_blocked (h : NoLostWakeup k) (h' : NoLostWakeup k')
    (hst : k'.sched.stateOf t ≠ .blocked) (hep : endpointsOf k' t = endpointsOf k t) :
    k.sched.stateOf t ≠ .blocked := by
  rw [ne_eq, h.blocked_iff, ← hep, ← h'.blocked_iff]
  exact hst

theorem exit_iff (h : NoLostWakeup k) (hs : k.sched.StartHead K) (cpu : TaskRegs) :
    NoLostWakeup (k.withSched (sysExit K cpu k.sched)) ↔
      ∀ t, k.sched.current = some t → k.sched.stateOf t ≠ .blocked := by
  cases hc : k.sched.current with
  | none =>
    have he : sysExit K cpu k.sched = k.sched := by
      unfold sysExit
      rw [hc]
    rw [he]
    refine iff_of_true h fun t ht => ?_
    cases ht
  | some cur =>
    have he : sysExit K cpu k.sched = schedYield K cpu (k.sched.setState cur .dead) := by
      unfold sysExit
      rw [hc]
    have hdead : (k.sched.setState cur .dead).stateOf cur ≠ .blocked := by
      rw [stateOf_setState, if_pos rfl]
      decide
    have hs' := startHead_setState hs cur .dead
    constructor
    · intro h' t ht
      obtain rfl : cur = t := Option.some.inj ht
      refine h.not_blocked h' ?_ (endpointsOf_congr (sysExit_fixed hs cpu cur) rfl)
      change (sysExit K cpu k.sched).stateOf cur ≠ .blocked
      rw [he]
      have hc' : (k.sched.setState cur .dead).current = some cur := hc
      rcases schedYield_cases cpu hc' hs' with hsame | ⟨next, -, hne, hsw⟩
      · rw [hsame]
        exact hdead
      · rw [hsw.state, if_neg hne.symm, if_pos rfl]
        decide
    · intro hb
      rw [he]
      have hkilled := (setState_iff (x := .dead) h (by decide) cur).mpr (hb cur rfl)
      apply (yield_iff hkilled hs' cpu).mpr
      intro t ht hblocked
      obtain rfl : cur = t := Option.some.inj (hc.symm.trans ht)
      exact absurd hblocked hdead

theorem start_iff (h : NoLostWakeup k) (hs : k.sched.StartHead K) (cpu : TaskRegs) :
    NoLostWakeup (k.withSched (schedStart K cpu k.sched)) ↔
      ∀ t, k.sched.runQueue.head? = some t → k.sched.stateOf t ≠ .blocked := by
  cases hq : k.sched.runQueue.head? with
  | none =>
    have he : schedStart K cpu k.sched = k.sched := by
      unfold schedStart
      rw [List.head?_eq_none_iff.mp hq]
    rw [he]
    refine iff_of_true h fun t ht => ?_
    cases ht
  | some first =>
    have hcond : (∀ t, some first = some t → k.sched.stateOf t ≠ .blocked) ↔
        k.sched.stateOf first ≠ .blocked := by simp
    rw [hcond]
    rcases schedStart_cases cpu hq hs with he | ⟨second, hnext, hne, hsw⟩
    · rw [he]
      exact setState_iff (k := k.withSched { k.sched with current := some first, currentIdx := 0 })
        h (by decide) first
    · exact h.switched_iff hnext hsw hne

/-! ## Revocation -/

theorem WakeInv.parkedAt_unique (hi : WakeInv K k) (ht : ParkedAt k e t) (hu : ParkedAt k e u) :
    u = t :=
  (hi.unique t u ht.2.2 (ht.2.1.symm.trans hu.2.1)).symm

theorem endpointsOf_erase_of_not (h : ¬ ParkedAt k e t) :
    (endpointsOf k t).erase e = endpointsOf k t :=
  Finset.erase_eq_of_notMem fun he => h (mem_endpointsOf.mp he)

theorem card_erase_of_parkedAt (h : ParkedAt k e t) :
    ((endpointsOf k t).erase e).card + 1 = (endpointsOf k t).card :=
  Finset.card_erase_add_one (mem_endpointsOf.mpr h)

theorem revoke_iff (hi : WakeInv K k) :
    NoLostWakeup (k.withCaps (k.caps.setEp e (endpointRevoke (k.caps.epPool e)))) ↔
      ∀ t, ParkedAt k e t → 2 < (endpointsOf k t).card := by
  have hep : ∀ t, endpointsOf (k.withCaps (k.caps.setEp e (endpointRevoke (k.caps.epPool e)))) t =
      (endpointsOf k t).erase e := fun t => endpointsOf_idle rfl rfl rfl
  by_cases hparked : ∃ t, ParkedAt k e t
  · obtain ⟨t, ht⟩ := hparked
    have hst : ∀ u, u ≠ t →
        ((k.withCaps (k.caps.setEp e (endpointRevoke (k.caps.epPool e)))).sched.stateOf u =
          .blocked ↔ k.sched.stateOf u = .blocked) := fun _ _ => Iff.rfl
    rw [hi.wakes.iff_of_one hst]
    · have hcard := card_erase_of_parkedAt ht
      have hone := hi.wakes.blocked_iff t
      have hcond : (∀ u, ParkedAt k e u → 2 < (endpointsOf k u).card) ↔
          2 < (endpointsOf k t).card := by
        constructor
        · exact fun h => h t ht
        · intro h u hu
          rw [hi.parkedAt_unique ht hu]
          exact h
      rw [hcond, hep]
      change (k.sched.stateOf t = _ ↔ _) ↔ _
      rw [hone]
      omega
    · intro u hu
      rw [hep]
      exact endpointsOf_erase_of_not fun h => hu (hi.parkedAt_unique ht h)
  · refine iff_of_true ?_ fun t ht => absurd ⟨t, ht⟩ hparked
    refine hi.wakes.congr (fun _ => Iff.rfl) fun t => ?_
    rw [hep]
    exact endpointsOf_erase_of_not fun h => hparked ⟨t, h⟩

/-! ## A rendezvous -/

theorem stateOf_schedUnblock {s : Sched} :
    (schedUnblock s (some t)).stateOf u =
      if u = t ∧ s.stateOf t = .blocked then .ready else s.stateOf u := by
  unfold schedUnblock
  dsimp only
  split
  · next h => simp [stateOf_setState, h]
  · next h => simp [h]

theorem WakeInv.stateOf_unparkTask (hi : WakeInv K k) (ht : ParkedAt k e t) :
    (unparkTask k.sched (k.caps.epPool e).parkedTaskId).stateOf u =
      if u = t ∧ k.sched.stateOf t = .blocked then .ready else k.sched.stateOf u := by
  obtain ⟨-, hid, hne⟩ := ht
  rw [unparkTask, hid, if_neg hne]
  cases hg : taskGet k.sched.taskTable (k.sched.taskTable t).id with
  | none =>
    have hfind := List.find?_eq_none.mp hg t (List.mem_finRange t)
    have hunused : ¬ k.sched.stateOf t = .blocked := by
      intro hb
      apply hfind
      have hused : (k.sched.taskTable t).state ≠ .unused := by
        rw [show (k.sched.taskTable t).state = .blocked from hb]
        decide
      simp [hused]
    rw [if_neg fun h => hunused h.2]
    rfl
  | some t' =>
    obtain ⟨-, hid'⟩ := taskGet_some hg
    obtain rfl : t' = t := (hi.unique t t' hne hid'.symm).symm
    exact stateOf_schedUnblock

theorem unparkTask_of_not_parkedAt (hw : (k.caps.epPool e).state ≠ .idle)
    (h : ∀ t, ¬ ParkedAt k e t) :
    unparkTask k.sched (k.caps.epPool e).parkedTaskId = k.sched := by
  unfold unparkTask
  split
  · rfl
  · next hne =>
    cases hg : taskGet k.sched.taskTable (k.caps.epPool e).parkedTaskId with
    | none => rfl
    | some t =>
      obtain ⟨-, hid⟩ := taskGet_some hg
      exact absurd ⟨hw, hid.symm, fun hz => hne (hid.symm.trans hz)⟩ (h t)

theorem unparkTask_fixed (s : Sched) (id : UInt32) (t : TaskPtr) :
    ((unparkTask s id).taskTable t).fixed = (s.taskTable t).fixed := by
  unfold unparkTask
  split
  · rfl
  · exact schedUnblock_fixed _ t

theorem meet_iff (hi : WakeInv K k) (hw : (k.caps.epPool e).state ≠ .idle) (m : Memory) :
    NoLostWakeup
        { k with
          caps := k.caps.setEp e (k.caps.epPool e).idle
          sched := unparkTask k.sched (k.caps.epPool e).parkedTaskId
          memory := m } ↔
      ∀ t, ParkedAt k e t → (endpointsOf k t).card ≠ 2 := by
  have hep : ∀ t, endpointsOf
      { k with
        caps := k.caps.setEp e (k.caps.epPool e).idle
        sched := unparkTask k.sched (k.caps.epPool e).parkedTaskId
        memory := m } t = (endpointsOf k t).erase e := fun t =>
    endpointsOf_idle (unparkTask_fixed ..) rfl rfl
  by_cases hparked : ∃ t, ParkedAt k e t
  · obtain ⟨t, ht⟩ := hparked
    rw [hi.wakes.iff_of_one (t := t)]
    · have hcard := card_erase_of_parkedAt ht
      have hcond : (∀ u, ParkedAt k e u → (endpointsOf k u).card ≠ 2) ↔
          (endpointsOf k t).card ≠ 2 := by
        constructor
        · exact fun h => h t ht
        · intro h u hu
          rw [hi.parkedAt_unique ht hu]
          exact h
      have hst : (unparkTask k.sched (k.caps.epPool e).parkedTaskId).stateOf t ≠ .blocked := by
        rw [hi.stateOf_unparkTask ht]
        by_cases hb : k.sched.stateOf t = .blocked
        · rw [if_pos ⟨rfl, hb⟩]
          decide
        · rw [if_neg fun h => hb h.2]
          exact hb
      rw [hcond, hep, iff_false_left hst]
      omega
    · intro u hu
      change (unparkTask k.sched (k.caps.epPool e).parkedTaskId).stateOf u = _ ↔ _
      rw [hi.stateOf_unparkTask ht, if_neg fun h => hu h.1]
    · intro u hu
      rw [hep]
      exact endpointsOf_erase_of_not fun h => hu (hi.parkedAt_unique ht h)
  · have hnobody : ∀ t, ¬ ParkedAt k e t := fun t ht => hparked ⟨t, ht⟩
    refine iff_of_true ?_ fun t ht => absurd ht (hnobody t)
    refine hi.wakes.congr (fun t => ?_) fun t => ?_
    · change (unparkTask k.sched (k.caps.epPool e).parkedTaskId).stateOf t = _ ↔ _
      rw [unparkTask_of_not_parkedAt hw hnobody]
    · rw [hep]
      exact endpointsOf_erase_of_not (hnobody t)

/-- A caller that is not the kernel task parks. -/
theorem park_iff (hi : WakeInv K k) (cpu : TaskRegs) {d : IpcDir} {buf : UInt64}
    (hidle : (k.caps.epPool e).state = .idle) (hc : k.sched.current = some t)
    (hid : (k.sched.taskTable t).id ≠ 0) :
    NoLostWakeup
        { k with
          caps := k.caps.setEp e ((k.caps.epPool e).park d buf (k.sched.taskTable t).id)
          sched := schedBlock K cpu k.sched (some t) } ↔
      (scanReady (k.sched.setState t .blocked) = none ↔ (endpointsOf k t).card = 0) := by
  have hep : ∀ u, endpointsOf
      { k with
        caps := k.caps.setEp e ((k.caps.epPool e).park d buf (k.sched.taskTable t).id)
        sched := schedBlock K cpu k.sched (some t) } u =
      if (k.sched.taskTable t).id = (k.sched.taskTable u).id ∧ (k.sched.taskTable t).id ≠ 0 then
        insert e (endpointsOf k u)
      else endpointsOf k u := fun u =>
    endpointsOf_park (schedBlock_fixed hi.startHead cpu t u) rfl hidle
  have hblock : schedBlock K cpu k.sched (some t) =
      schedYield K cpu (k.sched.setState t .blocked) := by
    unfold schedBlock
    exact if_pos hc
  have hs' := startHead_setState hi.startHead t .blocked
  have hc' : (k.sched.setState t .blocked).current = some t := hc
  have hblocked : (k.sched.setState t .blocked).stateOf t = .blocked := by
    rw [stateOf_setState, if_pos rfl]
  have hfresh : e ∉ endpointsOf k t := fun h => (mem_endpointsOf.mp h).1 hidle
  have hcard : (insert e (endpointsOf k t)).card = (endpointsOf k t).card + 1 :=
    Finset.card_insert_of_notMem hfresh
  rw [hi.wakes.iff_of_one (t := t)]
  · rw [hep, if_pos ⟨rfl, hid⟩, hcard, Nat.add_eq_right]
    refine iff_congr ?_ Iff.rfl
    change (schedBlock K cpu k.sched (some t)).stateOf t = .blocked ↔ _
    rw [hblock]
    cases hscan : scanReady (k.sched.setState t .blocked) with
    | none =>
      rw [schedYield_of_none cpu hscan]
      exact iff_of_true hblocked rfl
    | some next =>
      have hne := ne_of_ready (scanReady_some hscan).2 hblocked
      have hsw := schedYield_of_ready cpu hc' hs' hscan hne
      rw [hsw.state, if_neg hne.symm, if_pos rfl]
      simp
  · intro u hu
    change (schedBlock K cpu k.sched (some t)).stateOf u = .blocked ↔ _
    rw [hblock]
    have hother : (k.sched.setState t .blocked).stateOf u = k.sched.stateOf u := by
      rw [stateOf_setState, if_neg hu]
    rcases schedYield_cases cpu hc' hs' with hsame | ⟨next, hnext, -, hsw⟩
    · rw [hsame, hother]
    · rw [hsw.state, if_neg hu, hother]
      split
      · next hun =>
        have hready : k.sched.stateOf next = .ready := by rw [← hun, ← hother, hun, hnext]
        rw [hun, hready]
        decide
      · exact Iff.rfl
  · intro u hu
    rw [hep, if_neg]
    rintro ⟨hsame, -⟩
    exact hu (hi.unique t u hid hsame).symm

theorem rendezvous_iff (hi : WakeInv K k) (cpu : TaskRegs) (d : IpcDir) (buf : UInt64) :
    NoLostWakeup (rendezvous K cpu d k e buf).2 ↔ RendezvousWakes d k e buf := by
  have hwait : ∀ x, IpcDir.waiting x ≠ .idle := by
    intro x
    cases x <;> decide
  rcases rendezvous_cases K cpu d k e buf with ⟨hs, hout⟩ | ⟨hs, hout⟩ | ⟨hs, hout⟩
  · have hnot : (k.caps.epPool e).state ≠ .idle := by
      rw [hs]
      exact hwait _
    rcases hout with ⟨hm, hout⟩ | ⟨m, hm, hout⟩
    · rw [hout]
      refine iff_of_true hi.wakes ⟨fun h => absurd h hnot, fun _ hmapped => ?_⟩
      obtain ⟨m, hm'⟩ := copyMapped_iff.mp hmapped
      rw [hm] at hm'
      cases hm'
    · rw [hout]
      refine (meet_iff hi hnot m).trans ?_
      constructor
      · exact fun h => ⟨fun hidle => absurd hidle hnot, fun _ _ => h⟩
      · exact fun h => h.2 hs (copyMapped_iff.mpr ⟨m, hm⟩)
  · have hnot : (k.caps.epPool e).state ≠ IpcDir.waiting d.other := by
      rw [hs]
      exact (hwait _).symm
    rw [hout]
    -- Nobody parks when there is no current task, or when it is the kernel task.
    have hnobody : parkCurrent K cpu k.sched = (0, k.sched) →
        NoLostWakeup { k with
          caps := k.caps.setEp e ((k.caps.epPool e).park d buf (parkCurrent K cpu k.sched).1)
          sched := (parkCurrent K cpu k.sched).2 } := by
      intro hp
      rw [hp]
      refine hi.wakes.congr (fun _ => Iff.rfl) fun u => ?_
      have hpark : endpointsOf
          (k.withCaps (k.caps.setEp e ((k.caps.epPool e).park d buf 0))) u = _ :=
        endpointsOf_park (k := k) rfl rfl hs
      exact hpark.trans (if_neg fun h => h.2 rfl)
    cases hc : k.sched.current with
    | none =>
      have hp : parkCurrent K cpu k.sched = (0, k.sched) := by rw [parkCurrent, hc]
      refine iff_of_true (hnobody hp) ⟨fun _ t ht => ?_, fun h => absurd h hnot⟩
      rw [hc] at ht
      cases ht
    | some t =>
      by_cases hid : (k.sched.taskTable t).id = 0
      · have hp : parkCurrent K cpu k.sched = (0, k.sched) := by
          rw [parkCurrent, hc]
          exact if_neg (not_not_intro hid)
        refine iff_of_true (hnobody hp) ⟨fun _ u hu hne => ?_, fun h => absurd h hnot⟩
        obtain rfl : t = u := Option.some.inj (hc.symm.trans hu)
        exact absurd hid hne
      · have hp : parkCurrent K cpu k.sched =
            ((k.sched.taskTable t).id, schedBlock K cpu k.sched (some t)) := by
          rw [parkCurrent, hc]
          exact if_pos hid
        rw [hp]
        refine (park_iff hi cpu hs hc hid).trans ?_
        constructor
        · intro h
          refine ⟨fun _ u hu _ => ?_, fun h => absurd h hnot⟩
          obtain rfl : t = u := Option.some.inj (hc.symm.trans hu)
          exact h
        · exact fun h => h.1 hs t hc hid
  · rw [hout]
    refine iff_of_true hi.wakes ⟨fun h => ?_, fun h => ?_⟩
    · exact absurd (hs.symm.trans h) (hwait d)
    · have hside : IpcDir.waiting d ≠ IpcDir.waiting d.other := by cases d <;> decide
      exact absurd (hs.symm.trans h) hside

/-! ## Runs -/

theorem call_iff (hi : WakeInv K k) (hh : k.halted = false) (d : IpcDir) (cpu : TaskRegs)
    (table : UInt64) (slotIdx : UInt32) (buf : UInt64) :
    NoLostWakeup (capTransfer K cpu d k table slotIdx buf).2 ↔
      WakesAll k (.call d cpu table slotIdx buf) := by
  cases hl : capLookup k.caps table slotIdx .endpoint (IpcDir.right d) with
  | error err =>
    rw [capTransfer, hl]
    refine iff_of_true hi.wakes fun _ slot e hl' _ => ?_
    cases hl.symm.trans hl'
  | ok slot =>
    rw [capTransfer, hl]
    dsimp only
    split
    · next e ho =>
      rw [rendezvous_iff hi]
      constructor
      · intro h _ slot' e' hl' ho'
        obtain rfl : slot = slot' := Except.ok.inj (hl.symm.trans hl')
        obtain rfl : e = e' := CapObject.endpoint.inj (ho.symm.trans ho')
        exact h
      · exact fun h => h hh slot e hl ho
    · next hnot =>
      refine iff_of_true hi.wakes fun _ slot' e hl' ho => ?_
      obtain rfl : slot = slot' := Except.ok.inj (hl.symm.trans hl')
      exact absurd ho (hnot e)

theorem capRevoke_iff (hi : WakeInv K k) (hh : k.halted = false) (table : UInt64)
    (slotIdx : UInt32) :
    NoLostWakeup (k.withCaps (capRevokeEndpoint k.caps table slotIdx).2) ↔
      WakesAll k (.revoke table slotIdx) := by
  rcases capRevokeEndpoint_cases k.caps table slotIdx with
    ⟨err, hne, hout⟩ | ⟨i, e, hidx, ho, hout⟩
  · rw [hout]
    refine iff_of_true hi.wakes fun _ i e hidx ho => ?_
    rw [capRevokeEndpoint, hidx] at hout
    dsimp only at hout
    rw [ho] at hout
    exact absurd (congrArg Prod.fst hout).symm hne
  · rw [hout, revoke_iff hi]
    constructor
    · intro h _ i' e' hidx' ho'
      obtain rfl : i = i' := Option.some.inj (hidx.symm.trans hidx')
      obtain rfl : e = e' := CapObject.endpoint.inj (ho.symm.trans ho')
      exact h
    · exact fun h => h hh i e hidx ho

theorem step_iff (hi : WakeInv K k) (op : WakeOp) :
    NoLostWakeup (k.wakeStep K op) ↔ WakesAll k op := by
  unfold Kernel.wakeStep
  cases hh : k.halted with
  | true =>
    rw [if_pos rfl]
    refine iff_of_true hi.wakes ?_
    cases op with
    | free => trivial
    | add => trivial
    | _ => exact fun h => absurd (hh.symm.trans h) (by decide)
  | false =>
    rw [if_neg (by decide)]
    cases op with
    | call d cpu table slotIdx buf => exact call_iff hi hh d cpu table slotIdx buf
    | revoke table slotIdx => exact capRevoke_iff hi hh table slotIdx
    | free table slotIdx =>
      dsimp only
      refine iff_of_true ?_ trivial
      rcases capFreeSlot_cases k.caps table slotIdx with ⟨err, -, hout⟩ | ⟨i, -, hout⟩
      · rw [hout]
        exact hi.wakes
      · rw [hout]
        exact hi.wakes
    | add t =>
      refine iff_of_true ?_ trivial
      dsimp only
      unfold schedAdd
      split
      · exact hi.wakes
      · exact hi.wakes
    | start cpu =>
      refine (start_iff hi.wakes hi.startHead cpu).trans ?_
      exact ⟨fun h _ => h, fun h => h hh⟩
    | tick cpu =>
      refine (tick_iff hi.wakes hi.startHead cpu).trans ?_
      exact ⟨fun h _ => h, fun h => h hh⟩
    | yield cpu =>
      refine (yield_iff hi.wakes hi.startHead cpu).trans ?_
      exact ⟨fun h _ => h, fun h => h hh⟩
    | exit cpu =>
      refine (exit_iff hi.wakes hi.startHead cpu).trans ?_
      exact ⟨fun h _ => h, fun h => h hh⟩

theorem rendezvous_kept (hs : k.sched.StartHead K) (cpu : TaskRegs) (d : IpcDir) (e : EpPtr)
    (buf : UInt64) : SchedKept K k.sched (rendezvous K cpu d k e buf).2.sched := by
  rcases rendezvous_cases K cpu d k e buf with
    ⟨-, ⟨-, hout⟩ | ⟨m, -, hout⟩⟩ | ⟨-, hout⟩ | ⟨-, hout⟩
  · rw [hout]
    exact .refl hs
  · rw [hout]
    change SchedKept K k.sched (unparkTask k.sched _)
    unfold unparkTask
    split
    · exact .refl hs
    · exact .unblock hs _
  · rw [hout]
    change SchedKept K k.sched (parkCurrent K cpu k.sched).2
    unfold parkCurrent
    split
    · split
      · exact .block hs cpu _
      · exact .refl hs
    · exact .refl hs
  · rw [hout]
    exact .refl hs

theorem wakeStep_kept (hs : k.sched.StartHead K) (op : WakeOp) :
    SchedKept K k.sched (k.wakeStep K op).sched := by
  unfold Kernel.wakeStep
  split
  · exact .refl hs
  · cases op with
    | call d cpu table slotIdx buf =>
      dsimp only
      rcases capTransfer_cases K cpu d k table slotIdx buf with
        ⟨err, -, hout⟩ | ⟨slot, e, -, -, hout⟩
      · rw [hout]
        exact .refl hs
      · rw [hout]
        exact rendezvous_kept hs cpu d e buf
    | revoke => exact .refl hs
    | free => exact .refl hs
    | add t => exact .add hs t
    | start cpu => exact .start hs cpu
    | tick cpu => exact .tick hs cpu
    | yield cpu => exact .yield hs cpu
    | exit cpu => exact .exit hs cpu

theorem WakeInv.step (hi : WakeInv K k) {op : WakeOp} (h : WakesAll k op) :
    WakeInv K (k.wakeStep K op) := by
  have hkept := wakeStep_kept hi.startHead op
  refine ⟨fun t u hne hid => ?_, hkept.startHead, (step_iff hi op).mpr h⟩
  rw [id_of_fixed (hkept.fixed t)] at hne hid
  rw [id_of_fixed (hkept.fixed u)] at hid
  exact hi.unique t u hne hid

/-- A kernel in which tasks have identifiers of their own, and no task is BLOCKED or named by an
endpoint that waits, as after boot. -/
structure WakeStart (K : KernelLayout) where
  kernel : Kernel
  unique : ∀ t u, (kernel.sched.taskTable t).id ≠ 0 →
    (kernel.sched.taskTable t).id = (kernel.sched.taskTable u).id → t = u
  startHead : kernel.sched.StartHead K
  awake : ∀ t, kernel.sched.stateOf t ≠ .blocked
  idle : ∀ e, (kernel.caps.epPool e).state = .idle

theorem WakeStart.inv (w : WakeStart K) : WakeInv K w.kernel where
  unique := w.unique
  startHead := w.startHead
  wakes t := by
    refine iff_of_false (w.awake t) ?_
    rintro ⟨e, he, -⟩
    exact he.1 (w.idle e)

/-- The property of a step: no wake-up is lost in the state it leads to. -/
def KeepsWakeups (K : KernelLayout) (k : Kernel) (op : WakeOp) : Prop :=
  NoLostWakeup (k.wakeStep K op)

/-- In every run from the start, no wake-up is lost in any state exactly when every step meets the
condition. -/
theorem wakeups_run_iff (w : WakeStart K) (ops : List WakeOp) :
    AllSteps (Kernel.wakeStep K) (KeepsWakeups K) w.kernel ops ↔
      AllSteps (Kernel.wakeStep K) WakesAll w.kernel ops := by
  apply allSteps_congr (I := WakeInv K)
  · exact fun k op hi => step_iff hi op
  · exact fun k op hi h => hi.step h
  · exact w.inv

def oneSpace : Kernel :=
  { twoSpaces with
    sched := { twoSpaces.sched with
      taskTable := fun t =>
        if t = 1 then twoSpaces.sched.taskTable 1 else ⟨0, .unused, 0, 0, 0, zeroRegs, 0⟩
      runQueue := [1]
      currentIdx := 0 } }

theorem oneSpace_rip : ∀ t, (oneSpace.sched.taskTable t).regs.rip ≠
    sampleLayout.schedStartResume := by decide

def oneSpaceAwake : WakeStart sampleLayout where
  kernel := oneSpace
  unique := by decide
  startHead := fun t ht => absurd ht.1 (oneSpace_rip t)
  awake := by decide
  idle _ := rfl

theorem wakeups_run_iff_sample :
    AllSteps (Kernel.wakeStep sampleLayout) (KeepsWakeups sampleLayout) oneSpaceAwake.kernel
      [.call .send zeroRegs 1 0 0x4000, .call .recv zeroRegs 1 0 0x5000] ∧
    (run (Kernel.wakeStep sampleLayout) oneSpaceAwake.kernel
      [.call .send zeroRegs 1 0 0x4000]).sched.stateOf 1 = .blocked ∧
    (run (Kernel.wakeStep sampleLayout) oneSpaceAwake.kernel
      [.call .send zeroRegs 1 0 0x4000, .call .recv zeroRegs 1 0 0x5000]).sched.stateOf 1 =
        .ready := by
  refine ⟨(wakeups_run_iff oneSpaceAwake _).mpr ⟨?_, ?_, trivial⟩, by decide, by decide⟩
  · intro _ slot e hslot he
    obtain rfl : slot = ⟨.endpoint 0, 3, 0⟩ := (Except.ok.inj hslot).symm
    obtain rfl : e = 0 := (CapObject.endpoint.inj he).symm
    constructor
    · intro _ t ht hid
      obtain rfl : t = 1 := (Option.some.inj ht).symm
      decide
    · intro hwait
      exact absurd hwait (by decide)
  · intro _ slot e hslot he
    obtain rfl : slot = ⟨.endpoint 0, 3, 0⟩ := (Except.ok.inj hslot).symm
    obtain rfl : e = 0 := (CapObject.endpoint.inj he).symm
    constructor
    · intro hidle
      exact absurd hidle (by decide)
    · intro _ _ t ht
      decide +revert

def twoSpacesAwake : WakeStart sampleLayout where
  kernel := twoSpaces
  unique := by decide
  startHead := fun t ht => absurd ht.1 (twoSpaces_rip t)
  awake := by decide
  idle _ := rfl

/-- The first task sends while the second is READY: the endpoint waits and names it, but it is READY
again. -/
theorem wakeup_lost :
    ¬ AllSteps (Kernel.wakeStep sampleLayout) (KeepsWakeups sampleLayout) twoSpacesAwake.kernel
      [.call .send zeroRegs 1 0 0x4000] := by
  rintro ⟨h, -⟩
  have hone := (h.blocked_iff 1).mpr (by decide)
  revert hone
  decide

end StyxOS
