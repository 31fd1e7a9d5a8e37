import StyxOS.Sched.Space

/-! # What a call of the scheduler hands over

Each entry point of `sched.c` either returns to its caller, with no register of a
task changed, or makes one call of `task_switch`. What that call leaves in the
saved registers and in the processor is stated once for all of them.
-/

namespace StyxOS

open Sched

/-! ## The tasks switched to -/

/-- The task that `sched_yield` switches to. -/
def yieldTarget (s : Sched) : Option TaskPtr :=
  s.current.bind fun cur => (nextReady s).filter (· ≠ cur)

/-- The task that `sched_tick` switches to. -/
def tickTarget (s : Sched) : Option TaskPtr :=
  s.current.bind fun cur =>
    if ((countDown s cur).taskTable cur).ticks > 0 then none
    else (nextReady (countDown s cur)).filter (· ≠ cur)

/-- The task that `sched_block` switches to. -/
def blockTarget (s : Sched) (t : TaskPtr) : Option TaskPtr :=
  if s.current = some t then yieldTarget (s.setState t .blocked) else none

/-- The task that the `SYS_EXIT` case switches to. -/
def exitTarget (s : Sched) : Option TaskPtr :=
  s.current.bind fun cur => yieldTarget (s.setState cur .dead)

/-- The task that `sched_start` switches to. -/
def startTarget (s : Sched) : Option TaskPtr :=
  match s.runQueue with
  | [] | [_] => none
  | first :: firstUser :: _ =>
    if (startFirst s first).stateOf firstUser = .ready then some firstUser else none

/-! ## Returns and switches -/

/-- Nothing that a switch depends on has changed. -/
structure Quiet (s s' : Sched) : Prop where
  current : s'.current = s.current
  runQueue : s'.runQueue = s.runQueue
  cr3 : s'.cr3 = s.cr3
  rsp0 : s'.rsp0 = s.rsp0
  fixed : ∀ t, (s'.taskTable t).fixed = (s.taskTable t).fixed
  regs : ∀ t, (s'.taskTable t).regs = (s.taskTable t).regs

/-- One call of `task_switch` from `prev` to `next`, which is sent to the trampoline if it has not
run or, by `sched_start`, in any case. -/
structure HandedOver (K : KernelLayout) (cpu : TaskRegs) (ret : UInt64) (started : Bool)
    (s : Sched) (prev next : TaskPtr) (s' : Sched) : Prop where
  current : s'.current = some next
  runQueue : s'.runQueue = s.runQueue
  cr3 : s'.cr3 = spaceOf K s next
  rsp0 : s'.rsp0 = (s.taskTable next).kstackTop
  fixed : ∀ t, (s'.taskTable t).fixed = (s.taskTable t).fixed
  startHead : s'.StartHead K
  saved : (s'.taskTable prev).regs = { cpu with rip := ret }
  launched : (s'.taskTable next).regs =
    if started = true ∨ (s.taskTable next).regs.rsp = (s.taskTable next).kstackTop then
      { (s.taskTable next).regs with rip := K.taskEntryTrampoline }
    else (s.taskTable next).regs
  others : ∀ t, t ≠ prev → t ≠ next → (s'.taskTable t).regs = (s.taskTable t).regs

/-- What a call made by the current task has done, for the task that it has switched to. -/
inductive SchedOutcome (K : KernelLayout) (cpu : TaskRegs) (s : Sched) :
    Option TaskPtr → Sched → Prop
  | returns {s' : Sched} (h : Quiet s s') : SchedOutcome K cpu s none s'
  | switches {s' : Sched} {ret : UInt64} {prev next : TaskPtr} (hprev : s.current = some prev)
      (hnext : next ∈ s.runQueue) (hne : next ≠ prev)
      (hret : ret = K.schedTickResume ∨ ret = K.schedYieldResume)
      (h : HandedOver K cpu ret false s prev next s') : SchedOutcome K cpu s (some next) s'

/-- The same for `sched_start`, which makes the head of the queue current before it switches. -/
inductive StartOutcome (K : KernelLayout) (cpu : TaskRegs) (s : Sched) :
    Option TaskPtr → Sched → Prop
  | empty (h : s.runQueue = []) : StartOutcome K cpu s none s
  | first {first : TaskPtr} (hhead : s.runQueue.head? = some first) :
      StartOutcome K cpu s none (startFirst s first)
  | switches {s' : Sched} {first next : TaskPtr} (hhead : s.runQueue.head? = some first)
      (hnext : next ∈ s.runQueue) (hne : next ≠ first)
      (h : HandedOver K cpu K.schedStartResume true s first next s') :
      StartOutcome K cpu s (some next) s'

variable {K : KernelLayout} {s s' s'' : Sched} {t cur prev next : TaskPtr} {cpu : TaskRegs}
  {ret : UInt64}

theorem kstackTop_of_fixed {x y : Task} (h : x.fixed = y.fixed) : x.kstackTop = y.kstackTop :=
  congrArg (fun f => f.2.2.2) h

namespace Quiet

theorem refl (s : Sched) : Quiet s s where
  current := rfl
  runQueue := rfl
  cr3 := rfl
  rsp0 := rfl
  fixed _ := rfl
  regs _ := rfl

theorem trans (h : Quiet s s') (h' : Quiet s' s'') : Quiet s s'' where
  current := h'.current.trans h.current
  runQueue := h'.runQueue.trans h.runQueue
  cr3 := h'.cr3.trans h.cr3
  rsp0 := h'.rsp0.trans h.rsp0
  fixed t := (h'.fixed t).trans (h.fixed t)
  regs t := (h'.regs t).trans (h.regs t)

theorem setState (s : Sched) (t : TaskPtr) (x : TaskState) : Quiet s (s.setState t x) where
  current := rfl
  runQueue := rfl
  cr3 := rfl
  rsp0 := rfl
  fixed _ := fixed_setState ..
  regs u := by
    rw [Sched.setState, modify_taskTable]
    split
    · next h => rw [h]
    · rfl

theorem setTicks (s : Sched) (t : TaskPtr) (n : UInt32) : Quiet s (s.setTicks t n) where
  current := rfl
  runQueue := rfl
  cr3 := rfl
  rsp0 := rfl
  fixed _ := fixed_setTicks ..
  regs u := by
    rw [Sched.setTicks, modify_taskTable]
    split
    · next h => rw [h]
    · rfl

theorem startHead (h : Quiet s s') (hs : s.StartHead K) : s'.StartHead K := by
  intro t ht
  rw [AtStart, h.regs t, kstackTop_of_fixed (h.fixed t)] at ht
  rw [h.runQueue]
  exact hs t ht

end Quiet

theorem HandedOver.of_quiet {started : Bool} (h : HandedOver K cpu ret started s' prev next s'')
    (hq : Quiet s s') : HandedOver K cpu ret started s prev next s'' where
  current := h.current
  runQueue := h.runQueue.trans hq.runQueue
  cr3 := h.cr3.trans (spaceOf_congr hq.cr3 (hq.fixed next))
  rsp0 := h.rsp0.trans (kstackTop_of_fixed (hq.fixed next))
  fixed t := (h.fixed t).trans (hq.fixed t)
  startHead := h.startHead
  saved := h.saved
  launched := by
    rw [h.launched, hq.regs, kstackTop_of_fixed (hq.fixed next)]
  others t hp hn := (h.others t hp hn).trans (hq.regs t)

theorem SchedOutcome.of_quiet {target : Option TaskPtr} (h : SchedOutcome K cpu s' target s'')
    (hq : Quiet s s') : SchedOutcome K cpu s target s'' := by
  cases h with
  | returns h => exact .returns (hq.trans h)
  | switches hprev hnext hne hret h =>
    exact .switches (hq.current ▸ hprev) (hq.runQueue ▸ hnext) hne hret (h.of_quiet hq)

/-! ## The switches of `sched.c` -/

theorem taskSwitch_rsp0 (cpu : TaskRegs) (ret : UInt64) (s : Sched) (src dst : TaskPtr) :
    (taskSwitch K cpu ret s src dst).rsp0 = (s.taskTable dst).kstackTop := by
  have h : (taskSwitch K cpu ret s src dst).rsp0 =
      ((s.saveRegs src { cpu with rip := ret }).taskTable dst).kstackTop := by
    unfold taskSwitch resumeAt
    split <;> rfl
  rw [h, saveRegs, modify_taskTable]
  split
  · next he => rw [he]
  · rfl

theorem taskSwitch_regs (cpu : TaskRegs) (ret : UInt64) (s : Sched) (src dst t : TaskPtr) :
    ((taskSwitch K cpu ret s src dst).taskTable t).regs =
      if t = src then { cpu with rip := ret } else (s.taskTable t).regs := by
  rw [taskSwitch_taskTable]
  split <;> rfl

theorem setRip_regs (s : Sched) (t u : TaskPtr) (rip : UInt64) :
    ((s.setRip t rip).taskTable u).regs =
      if u = t then { (s.taskTable t).regs with rip := rip } else (s.taskTable u).regs := by
  rw [setRip, modify_taskTable]
  split <;> rfl

theorem switchTo_handedOver (cpu : TaskRegs) (hne : next ≠ prev) (hs : s.StartHead K)
    (hret : ret ≠ K.schedStartResume) :
    HandedOver K cpu ret false s prev next (switchTo K cpu ret s prev next) := by
  have hsw := switchTo_switched cpu hne hs hret
  let s₁ : Sched := { s with currentIdx := idxOf s next, current := some next }
  let s₂ := ((s₁.setState prev .ready).setState next .running).setTicks next 10
  have hquiet : Quiet s₁ s₂ :=
    ((Quiet.setState ..).trans (.setState ..)).trans (.setTicks ..)
  have hregs : ∀ t, (s₂.taskTable t).regs = (s.taskTable t).regs := hquiet.regs
  have htop : ∀ t, (s₂.taskTable t).kstackTop = (s.taskTable t).kstackTop := fun t =>
    kstackTop_of_fixed (hquiet.fixed t)
  have he : switchTo K cpu ret s prev next = taskSwitch K cpu ret
      (if (s₂.taskTable next).regs.rsp = (s₂.taskTable next).kstackTop then
        s₂.setRip next K.taskEntryTrampoline else s₂) prev next := rfl
  constructor
  · exact hsw.current
  · exact hsw.runQueue
  · exact hsw.cr3
  · rw [he, taskSwitch_rsp0]
    split
    · exact (kstackTop_of_fixed (fixed_setRip ..)).trans (htop next)
    · exact htop next
  · exact hsw.fixed
  · exact hsw.startHead
  · rw [he, taskSwitch_regs, if_pos rfl]
  · rw [he, taskSwitch_regs, if_neg hne, hregs, htop]
    simp only [Bool.false_eq_true, false_or]
    split
    · rw [setRip_regs, if_pos rfl, hregs]
    · exact hregs next
  · intro t hprev hnext
    rw [he, taskSwitch_regs, if_neg hprev]
    split
    · rw [setRip_regs, if_neg hnext, hregs]
    · exact hregs t

theorem firstSwitch_handedOver (cpu : TaskRegs) (hhead : s.runQueue.head? = some prev)
    (hs : s.StartHead K) (hne : next ≠ prev) :
    HandedOver K cpu K.schedStartResume true s prev next (firstSwitch K cpu s prev next) := by
  have hsw := firstSwitch_switched cpu hhead hs hne
  let s₁ : Sched := { s with current := some next, currentIdx := 1 }
  let s₂ := s₁.setRip next K.taskEntryTrampoline
  let s₃ := ((s₂.setState next .running).setTicks next 10).setState prev .ready
  have hquiet : Quiet s₂ s₃ :=
    ((Quiet.setState ..).trans (.setTicks ..)).trans (.setState ..)
  have he : firstSwitch K cpu s prev next =
      taskSwitch K cpu K.schedStartResume s₃ prev next := rfl
  constructor
  · exact hsw.current
  · exact hsw.runQueue
  · exact hsw.cr3
  · rw [he, taskSwitch_rsp0]
    exact kstackTop_of_fixed ((hquiet.fixed next).trans (fixed_setRip ..))
  · exact hsw.fixed
  · exact hsw.startHead
  · rw [he, taskSwitch_regs, if_pos rfl]
  · rw [he, taskSwitch_regs, if_neg hne, hquiet.regs, setRip_regs, if_pos rfl]
    exact (if_pos (.inl rfl)).symm
  · intro t hprev hnext
    rw [he, taskSwitch_regs, if_neg hprev, hquiet.regs, setRip_regs, if_neg hnext]

/-! ## The outcomes -/

theorem mem_of_nextReady (hcur : s.current = some cur) (h : nextReady s = some next)
    (hne : next ≠ cur) : next ∈ s.runQueue := by
  rw [nextReady, Option.or_eq_some_iff] at h
  rcases h with h | ⟨-, h⟩
  · exact (scanReady_some h).1
  · exact absurd (Option.some.inj (h.symm.trans hcur)) hne

theorem filter_eq_none (h : next = cur) : (some next).filter (· ≠ cur) = none := by
  simp [Option.filter_some, h]

theorem filter_eq_some (h : next ≠ cur) : (some next).filter (· ≠ cur) = some next := by
  simp [Option.filter_some, h]

theorem schedYield_outcome (cpu : TaskRegs) (hs : s.StartHead K) :
    SchedOutcome K cpu s (yieldTarget s) (schedYield K cpu s) := by
  unfold schedYield yieldTarget
  cases hcur : s.current with
  | none => exact .returns (.refl s)
  | some cur =>
    dsimp only [Option.bind_some]
    cases hnext : nextReady s with
    | none => exact .returns (.refl s)
    | some next =>
      by_cases hne : next = cur
      · rw [filter_eq_none hne]
        dsimp only
        rw [if_pos hne]
        exact .returns (.refl s)
      · rw [filter_eq_some hne]
        dsimp only
        rw [if_neg hne]
        exact .switches hcur (mem_of_nextReady hcur hnext hne) hne (.inr rfl)
          (switchTo_handedOver cpu hne hs K.yield_ne)

theorem schedTick_outcome (cpu : TaskRegs) (hs : s.StartHead K) :
    SchedOutcome K cpu s (tickTarget s) (schedTick K cpu s) := by
  unfold schedTick tickTarget
  cases hcur : s.current with
  | none => exact .returns (.refl s)
  | some cur =>
    obtain ⟨n, hn⟩ := countDown_eq s cur
    have hquiet : Quiet s (countDown s cur) := hn ▸ .setTicks s cur n
    have hcur' : (countDown s cur).current = some cur := hquiet.current.trans hcur
    dsimp only [Option.bind_some]
    by_cases hticks : ((countDown s cur).taskTable cur).ticks > 0
    · rw [if_pos hticks, if_pos hticks]
      exact .returns hquiet
    · rw [if_neg hticks, if_neg hticks]
      cases hnext : nextReady (countDown s cur) with
      | none => exact .returns (hquiet.trans (.setTicks ..))
      | some next =>
        by_cases hne : next = cur
        · rw [filter_eq_none hne]
          dsimp only
          rw [if_pos hne]
          exact .returns (hquiet.trans (.setTicks ..))
        · rw [filter_eq_some hne]
          dsimp only
          rw [if_neg hne]
          refine SchedOutcome.of_quiet (.switches hcur' (mem_of_nextReady hcur' hnext hne)
            hne (.inl rfl)
            (switchTo_handedOver cpu hne (hquiet.startHead hs) K.tick_ne)) hquiet

theorem schedBlock_outcome (cpu : TaskRegs) (hs : s.StartHead K) (t : TaskPtr) :
    SchedOutcome K cpu s (blockTarget s t) (schedBlock K cpu s (some t)) := by
  have hquiet := Quiet.setState s t .blocked
  unfold schedBlock blockTarget
  dsimp only
  rw [setState_current]
  split
  · exact (schedYield_outcome cpu (hquiet.startHead hs)).of_quiet hquiet
  · exact .returns hquiet

theorem schedUnblock_quiet (s : Sched) (t : TaskPtr) : Quiet s (schedUnblock s (some t)) := by
  unfold schedUnblock
  dsimp only
  split
  · exact .setState ..
  · exact .refl s

theorem sysExit_outcome (cpu : TaskRegs) (hs : s.StartHead K) :
    SchedOutcome K cpu s (exitTarget s) (sysExit K cpu s) := by
  unfold sysExit exitTarget
  cases hcur : s.current with
  | none => exact .returns (.refl s)
  | some cur =>
    have hquiet := Quiet.setState s cur .dead
    exact (schedYield_outcome cpu (hquiet.startHead hs)).of_quiet hquiet

theorem schedStart_outcome (cpu : TaskRegs) (hs : s.StartHead K) :
    StartOutcome K cpu s (startTarget s) (schedStart K cpu s) := by
  unfold schedStart startTarget
  cases hqueue : s.runQueue with
  | nil => exact .empty hqueue
  | cons first rest =>
    cases rest with
    | nil => exact .first (hqueue ▸ List.head?_cons)
    | cons second rest =>
      dsimp only
      by_cases hready : (startFirst s first).stateOf second = .ready
      · rw [if_pos hready, if_pos hready]
        have hne : second ≠ first := by
          rintro rfl
          rw [stateOf_startFirst, if_pos rfl] at hready
          cases hready
        let s₁ : Sched := { s with current := some first, currentIdx := 0 }
        have hquiet : Quiet s₁ (startFirst s first) := .setState s₁ first .running
        have hhead : s.runQueue.head? = some first := hqueue ▸ List.head?_cons
        have h := (firstSwitch_handedOver (K := K) (s := startFirst s first) cpu hhead
          (hquiet.startHead hs) hne).of_quiet hquiet
        exact .switches hhead (by simp [hqueue]) hne ⟨h.current, h.runQueue, h.cr3, h.rsp0, h.fixed,
          h.startHead, h.saved, h.launched, h.others⟩
      · rw [if_neg hready, if_neg hready]
        exact .first (hqueue ▸ List.head?_cons)

end StyxOS
