import StyxOS.Library.RoundRobin
import StyxOS.Sched.Handover

/-! # No READY task starves

While a READY task waits in the run queue, `next_ready` hands the processor to a
task at most as far round the queue as the waiting one. Every handover so brings its
turn nearer, and the quantum bounds the timer ticks between two handovers.
-/

namespace StyxOS

open Sched StepSystem RoundRobin

variable {K : KernelLayout} {s s' : Sched} {t u cur next : TaskPtr} {cpu : TaskRegs}
  {c : SchedCall} {cs : List SchedCall}

/-! ## The run queue -/

/-- The run queue between two calls: no task twice, the current task at the current index, no
quantum longer than ten ticks. -/
structure RunQueueOk (K : KernelLayout) (s : Sched) : Prop where
  startHead : s.StartHead K
  nodup : s.runQueue.Nodup
  quantum : ∀ t, (s.taskTable t).ticks ≤ 10
  placed : ∀ cur, s.current = some cur → cur ∈ s.runQueue ∧ s.currentIdx = s.runQueue.idxOf cur

/-- The callers add a task once, and start the scheduler once. -/
def Orderly (s : Sched) (c : SchedCall) : Prop :=
  match c.op with
  | .add t => t ∉ s.runQueue
  | .start => s.current = none
  | _ => True

instance (s : Sched) : ∀ c : SchedCall, Decidable (Orderly s c)
  | ⟨.add t, _⟩ => inferInstanceAs (Decidable (t ∉ s.runQueue))
  | ⟨.start, _⟩ => inferInstanceAs (Decidable (s.current = none))
  | ⟨.tick, _⟩ => .isTrue trivial
  | ⟨.yield, _⟩ => .isTrue trivial
  | ⟨.block _, _⟩ => .isTrue trivial
  | ⟨.unblock _, _⟩ => .isTrue trivial
  | ⟨.exit, _⟩ => .isTrue trivial

/-- The task is READY and in the queue, and another one runs. -/
structure Sched.Waits (s : Sched) (t : TaskPtr) : Prop where
  queued : t ∈ s.runQueue
  ready : s.stateOf t = .ready
  not_current : s.current ≠ some t

/-- What a switch to `next` does, with the index and the quanta. -/
structure TurnPassed (K : KernelLayout) (s : Sched) (prev next : TaskPtr) (s' : Sched) : Prop
    extends Switched K s prev next s' where
  currentIdx : s'.currentIdx = s.runQueue.idxOf next
  fresh : (s'.taskTable next).ticks = 10
  ticks : ∀ u, u ≠ next → (s'.taskTable u).ticks ≤ (s.taskTable u).ticks

@[simp] theorem ticks_setState (x : TaskState) :
    ((s.setState t x).taskTable u).ticks = (s.taskTable u).ticks := by
  rw [setState, modify_taskTable]
  split
  · next h => rw [h]
  · rfl

@[simp] theorem ticks_setRip (a : UInt64) :
    ((s.setRip t a).taskTable u).ticks = (s.taskTable u).ticks := by
  rw [setRip, modify_taskTable]
  split
  · next h => rw [h]
  · rfl

@[simp] theorem ticks_setTicks (n : UInt32) :
    ((s.setTicks t n).taskTable u).ticks = if u = t then n else (s.taskTable u).ticks := by
  rw [setTicks, modify_taskTable]
  split <;> rfl

theorem taskSwitch_ticks (cpu : TaskRegs) (ret : UInt64) (s : Sched) (src dst u : TaskPtr) :
    ((taskSwitch K cpu ret s src dst).taskTable u).ticks = (s.taskTable u).ticks := by
  rw [taskSwitch_taskTable]
  split
  · next h => rw [h]
  · rfl

theorem taskSwitch_currentIdx {ret : UInt64} {src dst : TaskPtr} (hne : dst ≠ src)
    (hidx : s.currentIdx = s.runQueue.idxOf dst) (hs : s.StartHead K)
    (hdst : (s.taskTable dst).regs.rip = K.schedStartResume →
      (s.taskTable dst).regs.rsp ≠ (s.taskTable dst).kstackTop) :
    (taskSwitch K cpu ret s src dst).currentIdx = s.runQueue.idxOf dst := by
  unfold taskSwitch resumeAt
  split
  · next h =>
    change ((s.saveRegs src _).taskTable dst).regs.rip = _ at h
    rw [saveRegs, modify_taskTable, if_neg hne] at h
    obtain ⟨rest, hqueue⟩ := List.head?_eq_some_iff.mp (hs dst ⟨h, hdst h⟩)
    rw [hqueue, List.idxOf_cons_self]
  · exact hidx

theorem switchTo_passed (cpu : TaskRegs) {ret : UInt64} {prev : TaskPtr} (hne : next ≠ prev)
    (hs : s.StartHead K) (hret : ret ≠ K.schedStartResume) (hmem : next ∈ s.runQueue) :
    TurnPassed K s prev next (switchTo K cpu ret s prev next) := by
  let s₁ : Sched := { s with currentIdx := idxOf s next, current := some next }
  let s₂ := ((s₁.setState prev .ready).setState next .running).setTicks next 10
  have hs₂ : s₂.StartHead K := fun t ht =>
    hs t (by simp only [s₂, atStart_setState, atStart_setTicks] at ht; exact ht)
  have hidx : s₂.currentIdx = s.runQueue.idxOf next := if_pos hmem
  have hticks : ∀ u, (s₂.taskTable u).ticks =
      if u = next then 10 else (s.taskTable u).ticks := by
    intro u
    simp only [s₂, ticks_setTicks, ticks_setState]
    rfl
  have heq : switchTo K cpu ret s prev next = taskSwitch K cpu ret
      (if (s₂.taskTable next).regs.rsp = (s₂.taskTable next).kstackTop then
        s₂.setRip next K.taskEntryTrampoline else s₂) prev next := rfl
  have hafter : ∀ u, ((switchTo K cpu ret s prev next).taskTable u).ticks =
      if u = next then 10 else (s.taskTable u).ticks := by
    intro u
    rw [heq, taskSwitch_ticks]
    split
    · rw [ticks_setRip, hticks]
    · exact hticks u
  refine ⟨switchTo_switched cpu hne hs hret, ?_, ?_, fun u hu => ?_⟩
  · rw [heq]
    split
    · refine taskSwitch_currentIdx hne hidx
        (fun t ht => hs₂ t (atStart_setRip _ _ _ _ K.trampoline_ne ht)) fun h => ?_
      rw [setRip, modify_taskTable, if_pos rfl] at h
      exact absurd h K.trampoline_ne
    · next hrsp => exact taskSwitch_currentIdx hne hidx hs₂ fun _ => hrsp
  · rw [hafter, if_pos rfl]
  · rw [hafter, if_neg hu]
    exact UInt32.le_refl _

theorem firstSwitch_passed (cpu : TaskRegs) {first second : TaskPtr} {rest : List TaskPtr}
    (hqueue : s.runQueue = first :: second :: rest) (hs : s.StartHead K) (hne : second ≠ first) :
    TurnPassed K s first second (firstSwitch K cpu s first second) := by
  let s₁ : Sched := { s with current := some second, currentIdx := 1 }
  let s₂ := (((s₁.setRip second K.taskEntryTrampoline).setState second .running).setTicks
    second 10).setState first .ready
  have heq : firstSwitch K cpu s first second =
      taskSwitch K cpu K.schedStartResume s₂ first second := rfl
  have hrip : (s₂.taskTable second).regs.rip = K.taskEntryTrampoline := by
    simp [s₂, setState, setTicks, setRip, modify_taskTable, hne]
  have hs₂ : s₂.StartHead K := by
    intro t ht
    simp only [s₂, atStart_setState, atStart_setTicks] at ht
    exact hs t (atStart_setRip s₁ _ _ _ K.trampoline_ne ht)
  have hidx : s₂.currentIdx = s₂.runQueue.idxOf second := by
    change 1 = s.runQueue.idxOf second
    rw [hqueue, List.idxOf_cons_ne _ hne.symm, List.idxOf_cons_self]
  have hticks : ∀ u, (s₂.taskTable u).ticks =
      if u = second then 10 else (s.taskTable u).ticks := by
    intro u
    simp only [s₂, ticks_setState, ticks_setTicks, ticks_setRip]
    rfl
  refine ⟨firstSwitch_switched cpu (by rw [hqueue]; rfl) hs hne, ?_, ?_, fun u hu => ?_⟩
  · rw [heq]
    exact taskSwitch_currentIdx hne hidx hs₂ fun h => absurd (hrip.symm.trans h) K.trampoline_ne
  · rw [heq, taskSwitch_ticks, hticks, if_pos rfl]
  · rw [heq, taskSwitch_ticks, hticks, if_neg hu]
    exact UInt32.le_refl _

/-! ## What one call does to the queue -/

namespace RunQueueOk

theorem turn_lt (h : RunQueueOk K s) (hc : s.current = some cur) :
    s.currentIdx < s.runQueue.length := by
  obtain ⟨hmem, hidx⟩ := h.placed cur hc
  rw [hidx]
  exact List.idxOf_lt_length_of_mem hmem

theorem congr (h : RunQueueOk K s) (hs : s'.StartHead K) (hqueue : s'.runQueue = s.runQueue)
    (hcur : s'.current = s.current) (hidx : s'.currentIdx = s.currentIdx)
    (hticks : ∀ t, (s'.taskTable t).ticks ≤ 10) : RunQueueOk K s' where
  startHead := hs
  nodup := hqueue ▸ h.nodup
  quantum := hticks
  placed cur hc := by
    rw [hqueue, hidx]
    exact h.placed cur (hcur ▸ hc)

theorem setState (h : RunQueueOk K s) (t : TaskPtr) (x : TaskState) :
    RunQueueOk K (s.setState t x) :=
  h.congr (startHead_setState h.startHead t x) rfl rfl rfl fun u => by
    rw [ticks_setState]
    exact h.quantum u

theorem setTicks (h : RunQueueOk K s) (t : TaskPtr) {n : UInt32} (hn : n ≤ 10) :
    RunQueueOk K (s.setTicks t n) :=
  h.congr (fun u hu => h.startHead u ((atStart_setTicks _ _ _ _ _).mp hu)) rfl rfl rfl fun u => by
    rw [ticks_setTicks]
    split
    · exact hn
    · exact h.quantum u

theorem passed {prev : TaskPtr} (h : RunQueueOk K s) (hmem : next ∈ s.runQueue)
    (hp : TurnPassed K s prev next s') : RunQueueOk K s' where
  startHead := hp.startHead
  nodup := hp.runQueue ▸ h.nodup
  quantum t := by
    by_cases ht : t = next
    · rw [ht, hp.fresh]
      exact UInt32.le_refl 10
    · exact UInt32.le_trans (hp.ticks t ht) (h.quantum t)
  placed cur hc := by
    obtain rfl : next = cur := Option.some.inj (hp.current.symm.trans hc)
    rw [hp.runQueue]
    exact ⟨hmem, hp.currentIdx⟩

end RunQueueOk

theorem scanReady_eq (s : Sched) :
    scanReady s = scan s.runQueue s.currentIdx fun t => s.stateOf t = .ready := rfl

theorem scanReady_of_waits (h : RunQueueOk K s) (hc : s.current = some cur) (hw : s.Waits t) :
    ∃ next ∈ s.runQueue, scanReady s = some next ∧ next ≠ cur ∧
      0 < wait s.runQueue s.currentIdx next ∧
        wait s.runQueue s.currentIdx next ≤ wait s.runQueue s.currentIdx t := by
  obtain ⟨hmem, hidx⟩ := h.placed cur hc
  have hne : s.runQueue.idxOf t ≠ s.currentIdx := by
    rw [hidx]
    exact fun heq => hw.not_current (hc.trans (congrArg some ((List.idxOf_inj hmem).mp heq.symm)))
  obtain ⟨next, hnext, hscan, hpos, hle⟩ : ∃ next ∈ s.runQueue,
      scan s.runQueue s.currentIdx (fun t => s.stateOf t = .ready) = some next ∧ _ ∧ _ :=
    scan_of_may (h.turn_lt hc) h.nodup hw.queued hne hw.ready
  refine ⟨next, hnext, (scanReady_eq s).trans hscan, ?_, hpos, hle⟩
  rintro rfl
  rw [hidx, wait_self] at hpos
  exact absurd hpos (lt_irrefl 0)

/-- What a call does while `t` waits and `cur` runs. -/
inductive WaitStep (K : KernelLayout) (s : Sched) (t cur : TaskPtr) (op : SchedOp) (s' : Sched) :
    Prop
  | stays (hqueue : s'.runQueue = s.runQueue) (hidx : s'.currentIdx = s.currentIdx)
      (hcur : s'.current = some cur) (hready : s'.stateOf t = .ready)
      (htick : op = .tick → (s'.taskTable cur).ticks.toNat + 1 = (s.taskTable cur).ticks.toNat ∧
        0 < (s'.taskTable cur).ticks.toNat)
      (hother : op ≠ .tick → (s'.taskTable cur).ticks = (s.taskTable cur).ticks)
  | joins (u : TaskPtr) (hop : op = .add u) (hqueue : s'.runQueue = s.runQueue ++ [u])
      (hidx : s'.currentIdx = s.currentIdx) (hcur : s'.current = some cur)
      (hready : s'.stateOf t = .ready) (hticks : (s'.taskTable cur).ticks = (s.taskTable cur).ticks)
  | passes (next : TaskPtr) (hnext : next ∈ s.runQueue)
      (hpos : 0 < wait s.runQueue s.currentIdx next)
      (hle : wait s.runQueue s.currentIdx next ≤ wait s.runQueue s.currentIdx t)
      (hp : TurnPassed K s cur next s')

theorem yield_passes (h : RunQueueOk K s) (hc : s.current = some cur) (hw : s.Waits t)
    (cpu : TaskRegs) (op : SchedOp) : WaitStep K s t cur op (schedYield K cpu s) := by
  obtain ⟨next, hnext, hscan, hne, hpos, hle⟩ := scanReady_of_waits h hc hw
  have heq : schedYield K cpu s = switchTo K cpu K.schedYieldResume s cur next := by
    unfold schedYield
    rw [hc]
    dsimp only
    rw [nextReady_of_ready hscan]
    exact if_neg hne
  rw [heq]
  exact .passes next hnext hpos hle (switchTo_passed cpu hne h.startHead K.yield_ne hnext)

theorem yield_setState_passes (h : RunQueueOk K s) (hc : s.current = some cur) (hw : s.Waits t)
    (cpu : TaskRegs) (op : SchedOp) (x : TaskState) :
    WaitStep K s t cur op (schedYield K cpu (s.setState cur x)) := by
  have hw' : (s.setState cur x).Waits t := by
    refine ⟨hw.queued, ?_, hw.not_current⟩
    rw [stateOf_setState, if_neg fun (heq : t = cur) => hw.not_current (heq ▸ hc)]
    exact hw.ready
  cases yield_passes (h.setState cur x) hc hw' cpu op with
  | stays hqueue hidx hcur hready htick hother =>
    exact .stays hqueue hidx hcur hready (by simpa using htick) (by simpa using hother)
  | joins u hop hqueue hidx hcur hready hticks =>
    exact .joins u hop hqueue hidx hcur hready (by simpa using hticks)
  | passes next hnext hpos hle hp =>
    refine .passes next hnext hpos hle ⟨⟨hp.current, hp.runQueue, fun u => ?_, hp.startHead,
      fun u => (hp.fixed u).trans (fixed_setState ..), ?_⟩, hp.currentIdx, hp.fresh,
      fun u hu => ?_⟩
    · rw [hp.state, stateOf_setState]
      split_ifs <;> rfl
    · exact hp.cr3.trans (spaceOf_congr rfl (fixed_setState ..))
    · rw [← ticks_setState (s := s) (t := cur) x]
      exact hp.ticks u hu

theorem schedAdd_waitStep (hc : s.current = some cur) (hw : s.Waits t) (u : TaskPtr) :
    WaitStep K s t cur (.add u) (schedAdd s u) := by
  unfold schedAdd
  split
  · exact .stays rfl rfl hc hw.ready (fun htick => nomatch htick) fun _ => rfl
  · exact .joins u rfl rfl rfl hc hw.ready rfl

theorem ticks_countDown_le (u : TaskPtr) :
    ((countDown s cur).taskTable u).ticks ≤ (s.taskTable u).ticks := by
  unfold countDown
  split
  · rw [ticks_setTicks]
    split
    · next h => rw [h]; grind
    · exact UInt32.le_refl _
  · exact UInt32.le_refl _

theorem schedTick_waitStep (h : RunQueueOk K s) (hc : s.current = some cur) (hw : s.Waits t)
    (cpu : TaskRegs) : WaitStep K s t cur .tick (schedTick K cpu s) := by
  obtain ⟨next, hnext, hscan, hne, hpos, hle⟩ := scanReady_of_waits h hc hw
  obtain ⟨n, hn⟩ := countDown_eq s cur
  by_cases hlast : (s.taskTable cur).ticks ≤ 1
  · have hcount : ¬ ((countDown s cur).taskTable cur).ticks > 0 := by
      rw [ticks_countDown]
      exact not_not_intro hlast
    have hready : nextReady (countDown s cur) = some next := by
      rw [hn, ← nextReady_of_ready hscan, nextReady, nextReady]
      exact congrArg₂ _ (scanReady_congr rfl rfl fun u => stateOf_setTicks ..) rfl
    have heq : schedTick K cpu s =
        switchTo K cpu K.schedTickResume (countDown s cur) cur next := by
      unfold schedTick
      rw [hc]
      dsimp only
      rw [if_neg hcount, hready]
      exact if_neg hne
    have hfixed : ∀ u, ((countDown s cur).taskTable u).fixed = (s.taskTable u).fixed := by
      intro u
      rw [hn]
      exact fixed_setTicks ..
    have hp : TurnPassed K (countDown s cur) cur next (schedTick K cpu s) := by
      rw [heq]
      refine switchTo_passed cpu hne ?_ K.tick_ne (by rw [hn]; exact hnext)
      rw [hn]
      exact fun u hu => h.startHead u ((atStart_setTicks _ _ _ _ _).mp hu)
    refine .passes next hnext hpos hle ⟨⟨hp.current, ?_, fun u => ?_, hp.startHead,
      fun u => (hp.fixed u).trans (hfixed u), ?_⟩, ?_, hp.fresh,
      fun u hu => UInt32.le_trans (hp.ticks u hu) (ticks_countDown_le u)⟩
    · rw [hp.runQueue, hn]
      rfl
    · rw [hp.state, hn, stateOf_setTicks]
    · exact hp.cr3.trans (spaceOf_congr (by rw [hn]; rfl) (hfixed next))
    · rw [hp.currentIdx, hn]
      rfl
  · have hcount : ((countDown s cur).taskTable cur).ticks > 0 := ticks_countDown.mpr hlast
    have heq : schedTick K cpu s = s.setTicks cur ((s.taskTable cur).ticks - 1) := by
      unfold schedTick
      rw [hc]
      dsimp only
      rw [if_pos hcount, countDown, if_pos (by grind)]
    have hsub : ((s.taskTable cur).ticks - 1).toNat = (s.taskTable cur).ticks.toNat - 1 :=
      UInt32.toNat_sub_of_le _ _ (by grind)
    have hone : ¬ (s.taskTable cur).ticks.toNat ≤ 1 := hlast
    rw [heq]
    refine .stays rfl rfl hc (by rw [stateOf_setTicks]; exact hw.ready) (fun _ => ?_)
      fun hop => absurd rfl hop
    rw [ticks_setTicks, if_pos rfl, hsub]
    omega

theorem waitStep (h : RunQueueOk K s) (hc : s.current = some cur) (hw : s.Waits t)
    (ho : Orderly s c) (hb : c.op ≠ .block (some t)) :
    WaitStep K s t cur c.op (schedStep K s c) := by
  obtain ⟨op, cpu⟩ := c
  cases op with
  | add u => exact schedAdd_waitStep hc hw u
  | start =>
    have hnone : s.current = none := ho
    rw [hc] at hnone
    cases hnone
  | tick => exact schedTick_waitStep h hc hw cpu
  | yield => exact yield_passes h hc hw cpu .yield
  | block task =>
    cases task with
    | none => exact .stays rfl rfl hc hw.ready (fun htick => nomatch htick) fun _ => rfl
    | some u =>
      change WaitStep K s t cur _ (schedBlock K cpu s (some u))
      unfold schedBlock
      by_cases hu : s.current = some u
      · obtain rfl : cur = u := Option.some.inj (hc.symm.trans hu)
        dsimp only
        rw [setState_current, if_pos hc]
        exact yield_setState_passes h hc hw cpu _ .blocked
      · dsimp only
        rw [setState_current, if_neg hu]
        refine .stays rfl rfl hc ?_ (fun htick => nomatch htick) fun _ => ticks_setState ..
        rw [stateOf_setState, if_neg fun (heq : t = u) => hb (by rw [heq])]
        exact hw.ready
  | unblock task =>
    cases task with
    | none => exact .stays rfl rfl hc hw.ready (fun htick => nomatch htick) fun _ => rfl
    | some u =>
      change WaitStep K s t cur _ (schedUnblock s (some u))
      unfold schedUnblock
      dsimp only
      split
      · refine .stays rfl rfl hc ?_ (fun htick => nomatch htick) fun _ => ticks_setState ..
        rw [stateOf_setState]
        split
        · rfl
        · exact hw.ready
      · exact .stays rfl rfl hc hw.ready (fun htick => nomatch htick) fun _ => rfl
  | exit =>
    change WaitStep K s t cur _ (sysExit K cpu s)
    unfold sysExit
    rw [hc]
    exact yield_setState_passes h hc hw cpu _ .dead

/-! ## The queue over a run -/

namespace RunQueueOk

theorem yield (h : RunQueueOk K s) (cpu : TaskRegs) : RunQueueOk K (schedYield K cpu s) := by
  unfold schedYield
  cases hc : s.current with
  | none => exact h
  | some cur =>
    dsimp only
    cases hn : nextReady s with
    | none => exact h
    | some next =>
      dsimp only
      by_cases hne : next = cur
      · rw [if_pos hne]
        exact h
      · rw [if_neg hne]
        have hmem := mem_of_nextReady hc hn hne
        exact h.passed hmem (switchTo_passed cpu hne h.startHead K.yield_ne hmem)

theorem countDown (h : RunQueueOk K s) (cur : TaskPtr) :
    RunQueueOk K (countDown s cur) := by
  obtain ⟨n, hn⟩ := countDown_eq s cur
  rw [hn]
  refine h.congr (fun u hu => h.startHead u ((atStart_setTicks _ _ _ _ _).mp hu)) rfl rfl rfl
    fun u => ?_
  rw [← hn]
  exact UInt32.le_trans (ticks_countDown_le u) (h.quantum u)

theorem tick (h : RunQueueOk K s) (cpu : TaskRegs) : RunQueueOk K (schedTick K cpu s) := by
  unfold schedTick
  cases hc : s.current with
  | none => exact h
  | some cur =>
    have h' := h.countDown cur
    have hc' : (StyxOS.countDown s cur).current = some cur := by
      obtain ⟨n, hn⟩ := countDown_eq s cur
      rw [hn, setTicks_current, hc]
    dsimp only
    split
    · exact h'
    · cases hn : nextReady (StyxOS.countDown s cur) with
      | none => exact h'.setTicks cur (UInt32.le_refl 10)
      | some next =>
        dsimp only
        by_cases hne : next = cur
        · rw [if_pos hne]
          exact h'.setTicks cur (UInt32.le_refl 10)
        · rw [if_neg hne]
          have hmem := mem_of_nextReady hc' hn hne
          exact h'.passed hmem (switchTo_passed cpu hne h'.startHead K.tick_ne hmem)

theorem block (h : RunQueueOk K s) (cpu : TaskRegs) (task : Option TaskPtr) :
    RunQueueOk K (schedBlock K cpu s task) := by
  unfold schedBlock
  cases task with
  | none => exact h
  | some t =>
    dsimp only
    split
    · exact (h.setState t .blocked).yield cpu
    · exact h.setState t .blocked

theorem unblock (h : RunQueueOk K s) (task : Option TaskPtr) :
    RunQueueOk K (schedUnblock s task) := by
  unfold schedUnblock
  cases task with
  | none => exact h
  | some t =>
    dsimp only
    split
    · exact h.setState t .ready
    · exact h

theorem exit (h : RunQueueOk K s) (cpu : TaskRegs) : RunQueueOk K (sysExit K cpu s) := by
  unfold sysExit
  cases s.current with
  | none => exact h
  | some cur => exact (h.setState cur .dead).yield cpu

theorem add (h : RunQueueOk K s) {t : TaskPtr} (ht : t ∉ s.runQueue) :
    RunQueueOk K (schedAdd s t) := by
  unfold schedAdd
  split
  · exact h
  · refine ⟨fun u hu => ?_, ?_, h.quantum, fun cur hc => ?_⟩
    · change (s.runQueue ++ [t]).head? = some u
      rw [List.head?_append, h.startHead u hu]
      rfl
    · exact List.nodup_append.mpr ⟨h.nodup, List.nodup_singleton t, fun a ha b hb hab =>
        ht (List.mem_singleton.mp hb ▸ hab ▸ ha)⟩
    · obtain ⟨hmem, hidx⟩ := h.placed cur hc
      exact ⟨List.mem_append_left _ hmem, hidx.trans (List.idxOf_append_of_mem hmem).symm⟩

theorem startFirst {first : TaskPtr} {rest : List TaskPtr} (h : RunQueueOk K s)
    (hqueue : s.runQueue = first :: rest) : RunQueueOk K (startFirst s first) where
  startHead u hu := h.startHead u ((atStart_setState _ _ _ _ _).mp hu)
  nodup := h.nodup
  quantum u := by
    rw [StyxOS.startFirst, ticks_setState]
    exact h.quantum u
  placed cur hc := by
    obtain rfl : first = cur := Option.some.inj hc
    change first ∈ s.runQueue ∧ 0 = s.runQueue.idxOf first
    rw [hqueue, List.idxOf_cons_self]
    exact ⟨List.mem_cons_self, rfl⟩

theorem start (h : RunQueueOk K s) (cpu : TaskRegs) : RunQueueOk K (schedStart K cpu s) := by
  unfold schedStart
  split
  · exact h
  · next first hqueue => exact h.startFirst hqueue
  · next first second rest hqueue =>
    dsimp only
    split
    · have h' := h.startFirst hqueue
      have hne : second ≠ first := fun heq =>
        (List.nodup_cons.mp (hqueue ▸ h.nodup)).1 (heq ▸ List.mem_cons_self)
      refine h'.passed ?_ (firstSwitch_passed cpu hqueue h'.startHead hne)
      change second ∈ s.runQueue
      rw [hqueue]
      exact List.mem_cons_of_mem _ List.mem_cons_self
    · exact h.startFirst hqueue

theorem step (h : RunQueueOk K s) (ho : Orderly s c) : RunQueueOk K (schedStep K s c) := by
  obtain ⟨op, cpu⟩ := c
  cases op with
  | add t => exact h.add ho
  | start => exact h.start cpu
  | tick => exact h.tick cpu
  | yield => exact h.yield cpu
  | block task => exact h.block cpu task
  | unblock task => exact h.unblock task
  | exit => exact h.exit cpu

end RunQueueOk

/-! ## Bounded waiting -/

/-- The timer ticks among the calls. -/
def ticksIn (cs : List SchedCall) : ℕ := cs.countP fun c => c.op = .tick

/-- The calls of `sched_add` among the calls. -/
def addsIn (cs : List SchedCall) : ℕ := cs.countP fun c => c.op matches .add _

theorem ticksIn_cons (c : SchedCall) (cs : List SchedCall) :
    ticksIn (c :: cs) = ticksIn [c] + ticksIn cs := by
  rw [ticksIn, ← List.singleton_append, List.countP_append]
  rfl

theorem addsIn_cons (c : SchedCall) (cs : List SchedCall) :
    addsIn (c :: cs) = addsIn [c] + addsIn cs := by
  rw [addsIn, ← List.singleton_append, List.countP_append]
  rfl

/-- How often the processor goes to `u` in the run of these calls. -/
def turns (K : KernelLayout) (u : TaskPtr) : Sched → List SchedCall → ℕ
  | _, [] => 0
  | s, c :: cs =>
    (if s.current ≠ some u ∧ (schedStep K s c).current = some u then 1 else 0) +
      turns K u (schedStep K s c) cs

/-- The run passes `t` over: none of its calls makes `t` the current task. -/
def PassesOver (K : KernelLayout) (t : TaskPtr) : Sched → List SchedCall → Prop :=
  AllSteps (schedStep K) fun s c => (schedStep K s c).current ≠ some t

/-- The ticks that may come before the turn of `t`: ten for each task ahead of it and what is left
of the quantum of the current one. -/
def tickBudget (s : Sched) (t cur : TaskPtr) : ℕ :=
  10 * (wait s.runQueue s.currentIdx t - 1) + max 1 (s.taskTable cur).ticks.toNat

/-- A call that passes `t` over leaves it waiting, and every tick uses up its budget. -/
theorem tickBudget_step (h : RunQueueOk K s) (hc : s.current = some cur) (hw : s.Waits t)
    (ho : Orderly s c) (hb : c.op ≠ .block (some t))
    (hover : (schedStep K s c).current ≠ some t) :
    ∃ cur', (schedStep K s c).current = some cur' ∧ (schedStep K s c).Waits t ∧
      tickBudget (schedStep K s c) t cur' + ticksIn [c] ≤ tickBudget s t cur + 10 * addsIn [c] := by
  have hwaiting : 0 < wait s.runQueue s.currentIdx t := by
    obtain ⟨next, -, -, -, hpos, hle⟩ := scanReady_of_waits h hc hw
    omega
  cases waitStep h hc hw ho hb with
  | stays hqueue hidx hcur hready htick hother =>
    refine ⟨cur, hcur, ⟨hqueue ▸ hw.queued, hready, hover⟩, ?_⟩
    unfold tickBudget
    rw [hqueue, hidx]
    by_cases hop : c.op = .tick
    · obtain ⟨hless, hmore⟩ := htick hop
      have hone : ticksIn [c] = 1 := by simp [ticksIn, hop]
      omega
    · have hnone : ticksIn [c] = 0 := by simp [ticksIn, hop]
      rw [hother hop]
      omega
  | joins u hop hqueue hidx hcur hready hticks =>
    refine ⟨cur, hcur, ⟨hqueue ▸ List.mem_append_left _ hw.queued, hready, hover⟩, ?_⟩
    have hle : wait (s.runQueue ++ [u]) s.currentIdx t ≤ wait s.runQueue s.currentIdx t + 1 :=
      wait_append_le hw.queued
    have hnone : ticksIn [c] = 0 := by simp [ticksIn, hop]
    have hone : addsIn [c] = 1 := by simp [addsIn, hop]
    unfold tickBudget
    rw [hqueue, hidx, hticks]
    omega
  | passes next hnext hpos hle hp =>
    have hne : next ≠ t := fun heq => hover (heq ▸ hp.current)
    have htc : t ≠ cur := fun heq => hw.not_current (heq ▸ hc)
    have hready : (schedStep K s c).stateOf t = .ready := by
      rw [hp.state, if_neg hne.symm, if_neg htc]
      exact hw.ready
    refine ⟨next, hp.current, ⟨hp.runQueue ▸ hw.queued, hready, hover⟩, ?_⟩
    have hadd := wait_idxOf_add (h.turn_lt hc) hw.queued hnext hle
    have hfar : 0 < wait s.runQueue (s.runQueue.idxOf next) t :=
      wait_pos (List.idxOf_lt_length_of_mem hnext) fun heq =>
        hne ((List.idxOf_inj hw.queued).mp heq).symm
    have hticks : ticksIn [c] ≤ 1 := List.countP_le_length
    unfold tickBudget
    rw [hp.runQueue, hp.currentIdx, hp.fresh]
    have hten : (10 : UInt32).toNat = 10 := rfl
    omega

theorem ticks_lt_budget (hover : PassesOver K t s cs) (h : RunQueueOk K s)
    (hc : s.current = some cur) (hw : s.Waits t) (ho : AllSteps (schedStep K) Orderly s cs)
    (hb : ∀ c ∈ cs, c.op ≠ .block (some t)) :
    ticksIn cs < tickBudget s t cur + 10 * addsIn cs := by
  induction cs generalizing s cur with
  | nil =>
    have hone : 0 < tickBudget s t cur := by unfold tickBudget; omega
    exact Nat.lt_add_right _ hone
  | cons c cs ih =>
    obtain ⟨cur', hc', hw', hstep⟩ :=
      tickBudget_step h hc hw ho.1 (hb c List.mem_cons_self) hover.1
    have hrest := ih hover.2 (h.step ho.1) hc' hw' ho.2 fun c hc => hb c (List.mem_cons_of_mem _ hc)
    rw [ticksIn_cons, addsIn_cons]
    omega

/-- The turn of `u` has come and gone: it is `t` that comes first. -/
def Behind (s : Sched) (t u : TaskPtr) : Prop :=
  u ∈ s.runQueue ∧ wait s.runQueue s.currentIdx t ≤ wait s.runQueue (s.runQueue.idxOf u) t

/-- A task that gets the processor while `t` waits is behind `t` then, and one that is behind `t`
stays there without getting the processor. -/
theorem behind_step (h : RunQueueOk K s) (hc : s.current = some cur) (hw : s.Waits t)
    (ho : Orderly s c) (hb : c.op ≠ .block (some t)) (u : TaskPtr) :
    (s.current ≠ some u → (schedStep K s c).current = some u → Behind (schedStep K s c) t u) ∧
      (Behind s t u → Behind (schedStep K s c) t u ∧
        (s.current ≠ some u → (schedStep K s c).current ≠ some u)) := by
  cases waitStep h hc hw ho hb with
  | stays hqueue hidx hcur hready htick hother =>
    unfold Behind
    rw [hqueue, hidx, hcur, hc]
    exact ⟨fun hne heq => absurd heq hne, fun hu => ⟨hu, id⟩⟩
  | joins v hop hqueue hidx hcur hready hticks =>
    unfold Behind
    rw [hqueue, hidx, hcur, hc]
    exact ⟨fun hne heq => absurd heq hne, fun ⟨hu, hle⟩ =>
      ⟨⟨List.mem_append_left _ hu, wait_append_mono (h.turn_lt hc) hw.queued hu hle⟩, id⟩⟩
  | passes next hnext hpos hle hp =>
    have hadd := wait_idxOf_add (h.turn_lt hc) hw.queued hnext hle
    unfold Behind
    rw [hp.runQueue, hp.currentIdx, hp.current]
    constructor
    · rintro - heq
      obtain rfl : next = u := Option.some.inj heq
      exact ⟨hnext, le_rfl⟩
    · rintro ⟨hu, hbehind⟩
      refine ⟨⟨hu, by omega⟩, fun _ heq => ?_⟩
      obtain rfl : next = u := Option.some.inj heq
      omega

theorem turns_of_behind (hover : PassesOver K t s cs) (h : RunQueueOk K s)
    (hc : s.current = some cur) (hw : s.Waits t) (ho : AllSteps (schedStep K) Orderly s cs)
    (hb : ∀ c ∈ cs, c.op ≠ .block (some t)) (hu : Behind s t u) : turns K u s cs = 0 := by
  induction cs generalizing s cur with
  | nil => rfl
  | cons c cs ih =>
    have hblock := hb c List.mem_cons_self
    obtain ⟨cur', hc', hw', -⟩ := tickBudget_step h hc hw ho.1 hblock hover.1
    obtain ⟨hu', hnot⟩ := (behind_step h hc hw ho.1 hblock u).2 hu
    rw [turns, if_neg fun hturn => hnot hturn.1 hturn.2, Nat.zero_add]
    exact ih hover.2 (h.step ho.1) hc' hw' ho.2 (fun c hc => hb c (List.mem_cons_of_mem _ hc)) hu'

theorem turns_le_one (hover : PassesOver K t s cs) (h : RunQueueOk K s)
    (hc : s.current = some cur) (hw : s.Waits t) (ho : AllSteps (schedStep K) Orderly s cs)
    (hb : ∀ c ∈ cs, c.op ≠ .block (some t)) (u : TaskPtr) : turns K u s cs ≤ 1 := by
  induction cs generalizing s cur with
  | nil => exact Nat.zero_le 1
  | cons c cs ih =>
    have hblock := hb c List.mem_cons_self
    have hrest : ∀ c ∈ cs, c.op ≠ .block (some t) := fun c hc => hb c (List.mem_cons_of_mem _ hc)
    obtain ⟨cur', hc', hw', -⟩ := tickBudget_step h hc hw ho.1 hblock hover.1
    rw [turns]
    split
    · next hturn =>
      have hu := (behind_step h hc hw ho.1 hblock u).1 hturn.1 hturn.2
      rw [turns_of_behind hover.2 (h.step ho.1) hc' hw' ho.2 hrest hu]
    · rw [Nat.zero_add]
      exact ih hover.2 (h.step ho.1) hc' hw' ho.2 hrest

theorem FreshSched.runQueueOk (f : FreshSched) (hq : ∀ t, (f.sched.taskTable t).ticks ≤ 10) :
    RunQueueOk K f.sched where
  startHead t ht := absurd (f.stack t) ht.2
  nodup := by
    rw [f.runQueue]
    exact List.nodup_nil
  quantum := hq
  placed cur hc := by
    rw [f.current] at hc
    cases hc

/-- In every run of the scheduler, a READY task of the queue is not passed over for as many ticks as
ten for every other task, and meanwhile no task gets the processor twice. -/
theorem ready_task_not_starved (K : KernelLayout) (f : FreshSched)
    (hq : ∀ t, (f.sched.taskTable t).ticks ≤ 10) (pre cs : List SchedCall) (t : TaskPtr)
    (hrun : AllSteps (schedStep K) Orderly f.sched (pre ++ cs))
    (hstarted : (run (schedStep K) f.sched pre).current ≠ none)
    (hw : (run (schedStep K) f.sched pre).Waits t) (hb : ∀ c ∈ cs, c.op ≠ .block (some t))
    (hover : PassesOver K t (run (schedStep K) f.sched pre) cs) :
    ticksIn cs + 10 < 10 * ((run (schedStep K) f.sched pre).runQueue.length + addsIn cs) ∧
      ∀ u, turns K u (run (schedStep K) f.sched pre) cs ≤ 1 := by
  obtain ⟨hpre, hcs⟩ := (allSteps_append _).mp hrun
  have h : RunQueueOk K (run (schedStep K) f.sched pre) :=
    run_invariant _ (fun _ _ h ho => h.step ho) (f.runQueueOk hq) hpre
  obtain ⟨cur, hc⟩ := Option.ne_none_iff_exists'.mp hstarted
  refine ⟨?_, turns_le_one hover h hc hw hcs hb⟩
  have hlt := ticks_lt_budget hover h hc hw hcs hb
  have hfar := wait_lt (h.turn_lt hc) hw.queued
  have hten : ((run (schedStep K) f.sched pre).taskTable cur).ticks.toNat ≤ 10 := h.quantum cur
  have hwaiting : 0 < wait (run (schedStep K) f.sched pre).runQueue
      (run (schedStep K) f.sched pre).currentIdx t := by
    obtain ⟨next, -, -, -, hpos, hle⟩ := scanReady_of_waits h hc hw
    omega
  unfold tickBudget at hlt
  omega

/-- The user task runs first, and the idle task waits while nine ticks pass. -/
theorem ready_task_not_starved_idle :
    let pre : List SchedCall := [⟨.add 0, zeroRegs⟩, ⟨.add 1, zeroRegs⟩, ⟨.start, zeroRegs⟩]
    let cs : List SchedCall := List.replicate 9 ⟨.tick, zeroRegs⟩
    let s := run (schedStep sampleLayout) twoTasks.sched pre
    ticksIn cs + 10 < 10 * (s.runQueue.length + addsIn cs) ∧
      ∀ u, turns sampleLayout u s cs ≤ 1 := by
  refine ready_task_not_starved sampleLayout twoTasks (by decide) _ _ 0 (by decide) (by decide)
    ⟨by decide, by decide, by decide⟩ (by decide) (by unfold PassesOver; decide)

end StyxOS
