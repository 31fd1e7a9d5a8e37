import StyxOS.Library.Pic
import StyxOS.Sched.Handover

/-! # Acknowledging the timer

`irq_handler` tells the interrupt controller of the end of an interrupt after
its handler has returned. The handler of the timer may hand the processor to
another task before that, and then it is for the other task to return through
`irq_handler`. A task that gave the processor up in a system call, or never ran,
does not.
-/

namespace StyxOS

open Sched StepSystem

/-- The privilege level that code runs at while interrupts are enabled: the idle loop, or ring 3. -/
inductive Ring
  | kernel | user
  deriving DecidableEq, Repr

/-- The addresses that a suspended task resumes at are distinct. -/
structure ResumeLayout extends KernelLayout where
  tick_ne_trampoline : schedTickResume ≠ taskEntryTrampoline
  tick_ne_yield : schedTickResume ≠ schedYieldResume

/-- The scheduler, the master interrupt controller, the level that the processor runs at, and the
level that the interrupt frame on a task's kernel stack returns to. -/
structure IrqState where
  sched : Sched
  pic : Pic 8
  ring : Ring
  frame : TaskPtr → Ring

/-- What can happen: a task is added, `sched_start`, a timer or keyboard interrupt, and the two
calls that give the processor up. -/
inductive IrqOp
  | add (t : TaskPtr)
  | start (cpu : TaskRegs)
  | timer (cpu : TaskRegs)
  | keyboard
  | yield (cpu : TaskRegs)
  | exit (cpu : TaskRegs)

/-- The task that a step of the scheduler handed the processor to. -/
def handedTo (s s' : Sched) : Option TaskPtr := if s'.current = s.current then none else s'.current

namespace IrqState

/-- Where a task goes on that the processor is handed to: out of `sched_tick` and back to
`irq_handler`, which writes the end-of-interrupt command and returns to what was interrupted; out of
`sched_start` to the idle loop; out of a system call, or through the trampoline, to ring 3. -/
def resume (K : KernelLayout) (x : IrqState) (dst : TaskPtr) : IrqState :=
  if (x.sched.taskTable dst).regs.rip = K.schedTickResume then
    { x with pic := x.pic.eoi, ring := x.frame dst }
  else if (x.sched.taskTable dst).regs.rip = K.schedStartResume then { x with ring := .kernel }
  else { x with ring := .user }

/-- The interrupt frame is on the kernel stack of the current task. -/
def pushFrame (x : IrqState) : IrqState :=
  match x.sched.current with
  | none => x
  | some cur => { x with frame := Function.update x.frame cur x.ring }

/-- `irq_handler` for the timer: `pit_callback` calls `sched_tick`. -/
def timer (K : KernelLayout) (cpu : TaskRegs) (x : IrqState) : IrqState :=
  if x.pic.accepts 0 then
    let s := schedTick K cpu x.sched
    match handedTo x.sched s with
    | none => { x with sched := s, pic := (x.pic.raise 0).eoi }
    | some dst => resume K { x.pushFrame with sched := s, pic := x.pic.raise 0 } dst
  else x

/-- `irq_handler` for the keyboard. -/
def keyboard (x : IrqState) : IrqState :=
  if x.pic.accepts 1 then { x with pic := (x.pic.raise 1).eoi } else x

/-- A system call that runs `f` on the scheduler. -/
def switchCall (K : KernelLayout) (f : Sched → Sched) (x : IrqState) : IrqState :=
  match x.ring with
  | .kernel => x
  | .user =>
    match handedTo x.sched (f x.sched) with
    | none => { x with sched := f x.sched }
    | some dst => resume K { x with sched := f x.sched } dst

/-- `sched_start`, which the boot code calls once, and which makes the head of the queue current
before it switches. -/
def start (K : KernelLayout) (cpu : TaskRegs) (x : IrqState) : IrqState :=
  match x.sched.current with
  | some _ => x
  | none =>
    let s := schedStart K cpu x.sched
    match handedTo { x.sched with current := x.sched.runQueue.head? } s with
    | none => { x with sched := s }
    | some dst => resume K { x with sched := s } dst

def step (K : KernelLayout) (x : IrqState) : IrqOp → IrqState
  | .add t => { x with sched := schedAdd x.sched t }
  | .start cpu => x.start K cpu
  | .timer cpu => x.timer K cpu
  | .keyboard => x.keyboard
  | .yield cpu => x.switchCall K (schedYield K cpu)
  | .exit cpu => x.switchCall K (sysExit K cpu)

/-- While ring 3 runs, the timer is not in service. -/
def Acknowledged (x : IrqState) : Prop := x.ring = .user → x.pic 0 = false

end IrqState

/-- The task is suspended where it returns through `irq_handler`, or to the idle loop. -/
def ReturnsToKernel (K : KernelLayout) (s : Sched) (t : TaskPtr) : Prop :=
  (s.taskTable t).regs.rsp ≠ (s.taskTable t).kstackTop ∧
    ((s.taskTable t).regs.rip = K.schedTickResume ∨ (s.taskTable t).regs.rip = K.schedStartResume)

/-- The condition on a step: a timer interrupt at the end of a quantum finds no other task READY, or
first one that returns to the kernel. -/
def IrqState.TimerReturns (K : KernelLayout) (x : IrqState) : IrqOp → Prop
  | .timer _ => x.pic.accepts 0 = true → ∀ cur next, x.sched.current = some cur →
    (x.sched.taskTable cur).ticks ≤ 1 → scanReady x.sched = some next → next ≠ cur →
    ReturnsToKernel K x.sched next
  | _ => True

variable {K : KernelLayout} {x : IrqState} {s s' : Sched} {t cur next : TaskPtr}

/-! ## Whom the processor is handed to -/

theorem handedTo_of_current (h : s'.current = s.current) : handedTo s s' = none := if_pos h

theorem handedTo_switched (hc : s.current = some cur) (hne : next ≠ cur)
    (hsw : Switched K s cur next s') : handedTo s s' = some next := by
  have hcur : s'.current ≠ s.current := by
    rw [hsw.current, hc]
    exact fun h => hne (Option.some.inj h)
  rw [handedTo, if_neg hcur, hsw.current]

theorem handedTo_schedTick (hs : s.StartHead K) (cpu : TaskRegs) :
    handedTo s (schedTick K cpu s) = some next ↔ ∃ cur, s.current = some cur ∧
      (s.taskTable cur).ticks ≤ 1 ∧ scanReady s = some next ∧ next ≠ cur := by
  cases hc : s.current with
  | none =>
    have he : schedTick K cpu s = s := by
      unfold schedTick
      rw [hc]
    rw [he, handedTo_of_current rfl]
    simp
  | some cur =>
    by_cases hgo : (s.taskTable cur).ticks ≤ 1 ∧ ∃ u, scanReady s = some u ∧ u ≠ cur
    · obtain ⟨ht, u, hscan, hne⟩ := hgo
      rw [handedTo_switched hc hne (schedTick_of_ready cpu hc hs ht hscan hne)]
      constructor
      · rintro h
        cases h
        exact ⟨cur, rfl, ht, hscan, hne⟩
      · rintro ⟨cur', -, -, hscan', -⟩
        exact hscan.symm.trans hscan'
    · have hstay : (s.taskTable cur).ticks ≤ 1 → nextReady s = some cur := by
        intro ht
        cases hscan : scanReady s with
        | none => rw [nextReady_of_none hscan, hc]
        | some u =>
          rw [nextReady_of_ready hscan]
          by_contra hne
          exact hgo ⟨ht, u, hscan, fun h => hne (by rw [h])⟩
      obtain ⟨n, he⟩ := schedTick_of_stay (K := K) cpu hc hstay
      rw [he, handedTo_of_current (setTicks_current ..)]
      refine iff_of_false (by simp) ?_
      rintro ⟨cur', hc', ht, hscan, hne⟩
      obtain rfl : cur = cur' := Option.some.inj hc'
      exact hgo ⟨ht, next, hscan, hne⟩

/-- After a tick that hands over, the task resumes where it was suspended, or in the trampoline. -/
theorem rip_schedTick (hs : s.StartHead K) (cpu : TaskRegs)
    (h : handedTo s (schedTick K cpu s) = some next) :
    ((schedTick K cpu s).taskTable next).regs.rip =
      if (s.taskTable next).regs.rsp = (s.taskTable next).kstackTop then K.taskEntryTrampoline
      else (s.taskTable next).regs.rip := by
  obtain ⟨cur, hc, ht, hscan, hne⟩ := (handedTo_schedTick hs cpu).mp h
  obtain ⟨n, he⟩ := schedTick_eq_switchTo (K := K) cpu hc ht hscan hne
  have hquiet := Quiet.setTicks s cur n
  have hd := (switchTo_handedOver cpu hne (hquiet.startHead hs) K.tick_ne).of_quiet hquiet
  rw [he, hd.launched]
  simp only [Bool.false_eq_true, false_or]
  split <;> rfl

/-! ## Resuming -/

namespace IrqState

theorem resume_sched (t : TaskPtr) : (resume K x t).sched = x.sched := by
  unfold resume
  split
  · rfl
  · split
    · rfl
    · rfl

theorem pic_resume (h : x.pic 0 = false) (t : TaskPtr) : (resume K x t).pic 0 = false := by
  unfold resume
  split
  · exact Pic.eoi_of_false h
  · split
    · exact h
    · exact h

theorem acknowledged_resume_iff (h : x.pic 0 = true) (t : TaskPtr) :
    (resume K x t).Acknowledged ↔ (x.sched.taskTable t).regs.rip = K.schedTickResume ∨
      (x.sched.taskTable t).regs.rip = K.schedStartResume := by
  unfold resume
  split
  · next ht => exact iff_of_true (fun _ => Pic.eoi_zero x.pic) (Or.inl ht)
  · next ht =>
    split
    · next hs =>
      refine iff_of_true ?_ (Or.inr hs)
      rintro hr
      cases hr
    · next hs =>
      refine iff_of_false ?_ (not_or_intro ht hs)
      intro hack
      have hclear := hack rfl
      rw [show x.pic 0 = true from h] at hclear
      cases hclear

/-! ## The steps -/

/-- What every step preserves while the timer is acknowledged. -/
structure Inv (K : KernelLayout) (x : IrqState) : Prop where
  startHead : x.sched.StartHead K
  -- While the timer is in service, a task is current and the idle loop runs.
  serving : x.pic 0 = true → x.ring = .kernel ∧ x.sched.current ≠ none

theorem Inv.acknowledged (hi : x.Inv K) : x.Acknowledged := by
  intro hr
  cases hp : x.pic 0 with
  | false => rfl
  | true =>
    have hk := (hi.serving hp).1
    rw [hr] at hk
    cases hk

variable {R : ResumeLayout}

theorem timer_iff (hi : x.Inv R.toKernelLayout) (cpu : TaskRegs) :
    (x.timer R.toKernelLayout cpu).Acknowledged ↔
      x.TimerReturns R.toKernelLayout (.timer cpu) := by
  unfold timer
  cases hacc : x.pic.accepts 0 with
  | false =>
    refine iff_of_true hi.acknowledged fun h => ?_
    rw [hacc] at h
    cases h
  | true =>
    rw [if_pos rfl]
    dsimp only
    cases hto : handedTo x.sched (schedTick R.toKernelLayout cpu x.sched) with
    | none =>
      refine iff_of_true ?_ fun _ cur next hc ht hscan hne => ?_
      · dsimp only
        rw [Pic.eoi_raise hacc]
        exact hi.acknowledged
      · have hsome := (handedTo_schedTick hi.startHead cpu).mpr ⟨cur, hc, ht, hscan, hne⟩
        cases hto.symm.trans hsome
    | some dst =>
      have hcond : x.TimerReturns R.toKernelLayout (.timer cpu) ↔
          ReturnsToKernel R.toKernelLayout x.sched dst := by
        constructor
        · intro h
          obtain ⟨cur, hc, ht, hscan, hne⟩ := (handedTo_schedTick hi.startHead cpu).mp hto
          exact h hacc cur dst hc ht hscan hne
        · intro h _ cur next hc ht hscan hne
          have hsome := (handedTo_schedTick hi.startHead cpu).mpr ⟨cur, hc, ht, hscan, hne⟩
          obtain rfl : dst = next := Option.some.inj (hto.symm.trans hsome)
          exact h
      rw [hcond]
      dsimp only
      rw [acknowledged_resume_iff (Pic.raise_self x.pic 0)]
      dsimp only
      rw [rip_schedTick hi.startHead cpu hto, ReturnsToKernel]
      split
      · next hfresh =>
        refine iff_of_false (not_or_intro R.tick_ne_trampoline.symm R.trampoline_ne) ?_
        exact fun h => h.1 hfresh
      · next hfresh => exact ⟨fun h => ⟨hfresh, h⟩, fun h => h.2⟩

theorem pic_switchCall (hi : x.Inv K) {f : Sched → Sched} (hr : x.ring = .user) :
    (x.switchCall K f).pic 0 = false := by
  have hp := hi.acknowledged hr
  rw [switchCall, hr]
  dsimp only
  split
  · exact hp
  · apply pic_resume
    exact hp

theorem pic_start (hi : x.Inv K) (hc : x.sched.current = none) (cpu : TaskRegs) :
    (x.start K cpu).pic 0 = false := by
  have hp : x.pic 0 = false := by
    cases hp : x.pic 0 with
    | false => rfl
    | true => exact absurd hc (hi.serving hp).2
  rw [start, hc]
  dsimp only
  split
  · exact hp
  · apply pic_resume
    exact hp

theorem keyboard_eq (x : IrqState) : x.keyboard = x := by
  unfold keyboard
  split
  · next h => rw [Pic.eoi_raise h]
  · rfl

theorem switchCall_of_kernel {f : Sched → Sched} (hr : x.ring = .kernel) :
    x.switchCall K f = x := by
  rw [switchCall, hr]

theorem start_of_current (hc : x.sched.current = some cur) (cpu : TaskRegs) :
    x.start K cpu = x := by
  rw [start, hc]

theorem step_iff (hi : x.Inv R.toKernelLayout) (op : IrqOp) :
    (x.step R.toKernelLayout op).Acknowledged ↔ x.TimerReturns R.toKernelLayout op := by
  have hcall : ∀ f, (x.switchCall R.toKernelLayout f).Acknowledged := by
    intro f
    cases hr : x.ring with
    | kernel =>
      rw [switchCall_of_kernel hr]
      exact hi.acknowledged
    | user => exact fun _ => pic_switchCall hi hr
  cases op with
  | add t => exact iff_of_true hi.acknowledged trivial
  | start cpu =>
    refine iff_of_true ?_ trivial
    change (x.start R.toKernelLayout cpu).Acknowledged
    cases hc : x.sched.current with
    | none => exact fun _ => pic_start hi hc cpu
    | some cur =>
      rw [start_of_current hc]
      exact hi.acknowledged
  | timer cpu => exact timer_iff hi cpu
  | keyboard =>
    refine iff_of_true ?_ trivial
    change x.keyboard.Acknowledged
    rw [keyboard_eq]
    exact hi.acknowledged
  | yield cpu => exact iff_of_true (hcall _) trivial
  | exit cpu => exact iff_of_true (hcall _) trivial

/-! ## Runs -/

theorem startHead_switchCall {f : Sched → Sched} (h : (f x.sched).StartHead K)
    (hs : x.sched.StartHead K) : (x.switchCall K f).sched.StartHead K := by
  unfold switchCall
  split
  · exact hs
  · split
    · exact h
    · rw [resume_sched]
      exact h

theorem step_startHead (hs : x.sched.StartHead K) (op : IrqOp) :
    (x.step K op).sched.StartHead K := by
  cases op with
  | add t => exact (SchedKept.add hs t).startHead
  | start cpu =>
    change (x.start K cpu).sched.StartHead K
    have hstart := (SchedKept.start hs cpu).startHead
    unfold start
    split
    · exact hs
    · dsimp only
      split
      · exact hstart
      · rw [resume_sched]
        exact hstart
  | timer cpu =>
    change (x.timer K cpu).sched.StartHead K
    have htick := (SchedKept.tick hs cpu).startHead
    unfold timer
    split
    · dsimp only
      split
      · exact htick
      · rw [resume_sched]
        exact htick
    · exact hs
  | keyboard =>
    change x.keyboard.sched.StartHead K
    rw [keyboard_eq]
    exact hs
  | yield cpu => exact startHead_switchCall (SchedKept.yield hs cpu).startHead hs
  | exit cpu => exact startHead_switchCall (SchedKept.exit hs cpu).startHead hs

theorem current_of_handedTo (h : handedTo s s' = some t) : s'.current = some t := by
  unfold handedTo at h
  split at h
  · cases h
  · exact h

theorem current_step (hi : x.Inv K) (op : IrqOp) (hp : (x.step K op).pic 0 = true) :
    (x.step K op).sched.current ≠ none := by
  have hcall : ∀ f, (x.switchCall K f).pic 0 = true →
      (x.switchCall K f).sched.current ≠ none := by
    intro f hp
    cases hr : x.ring with
    | kernel =>
      rw [switchCall_of_kernel hr] at hp ⊢
      exact (hi.serving hp).2
    | user =>
      rw [pic_switchCall hi hr] at hp
      cases hp
  cases op with
  | add t =>
    change (schedAdd x.sched t).current ≠ none
    unfold schedAdd
    split
    · exact (hi.serving hp).2
    · exact (hi.serving hp).2
  | start cpu =>
    change (x.start K cpu).pic 0 = true at hp
    change (x.start K cpu).sched.current ≠ none
    cases hc : x.sched.current with
    | none =>
      rw [pic_start hi hc] at hp
      cases hp
    | some cur =>
      rw [start_of_current hc, hc]
      exact Option.some_ne_none _
  | timer cpu =>
    change (x.timer K cpu).pic 0 = true at hp
    change (x.timer K cpu).sched.current ≠ none
    unfold timer at hp ⊢
    split
    · next hacc =>
      rw [if_pos hacc] at hp
      dsimp only at hp ⊢
      cases hto : handedTo x.sched (schedTick K cpu x.sched) with
      | none =>
        rw [hto] at hp
        dsimp only at hp
        rw [Pic.eoi_raise hacc, Pic.accepts_iff.mp hacc 0 le_rfl] at hp
        cases hp
      | some dst =>
        dsimp only
        rw [resume_sched]
        dsimp only
        rw [current_of_handedTo hto]
        exact Option.some_ne_none _
    · next hacc =>
      rw [if_neg hacc] at hp
      exact (hi.serving hp).2
  | keyboard =>
    change x.keyboard.pic 0 = true at hp
    change x.keyboard.sched.current ≠ none
    rw [keyboard_eq] at hp ⊢
    exact (hi.serving hp).2
  | yield cpu => exact hcall _ hp
  | exit cpu => exact hcall _ hp

theorem Inv.step (hi : x.Inv R.toKernelLayout) {op : IrqOp}
    (h : x.TimerReturns R.toKernelLayout op) :
    (x.step R.toKernelLayout op).Inv R.toKernelLayout := by
  refine ⟨step_startHead hi.startHead op, fun hp => ⟨?_, current_step hi op hp⟩⟩
  have hack := (step_iff hi op).mpr h
  cases hr : (x.step R.toKernelLayout op).ring with
  | kernel => rfl
  | user =>
    rw [hack hr] at hp
    cases hp

/-- The property of a step. -/
def KeepsAcknowledged (K : KernelLayout) (x : IrqState) (op : IrqOp) : Prop :=
  (x.step K op).Acknowledged

end IrqState

/-- The machine that boots: a fresh scheduler, and no interrupt in service. -/
def FreshSched.boot (f : FreshSched) (frame : TaskPtr → Ring) : IrqState :=
  ⟨f.sched, fun _ => false, .kernel, frame⟩

theorem FreshSched.boot_inv (f : FreshSched) (frame : TaskPtr → Ring) : (f.boot frame).Inv K where
  startHead := (f.inv (K := K)).startHead
  serving h := by cases h

/-- In every run from boot, the timer is acknowledged whenever ring 3 runs exactly when every timer
interrupt meets the condition. -/
theorem acknowledged_run_iff (R : ResumeLayout) (f : FreshSched) (frame : TaskPtr → Ring)
    (ops : List IrqOp) :
    AllSteps (IrqState.step R.toKernelLayout) (IrqState.KeepsAcknowledged R.toKernelLayout)
        (f.boot frame) ops ↔
      AllSteps (IrqState.step R.toKernelLayout) (IrqState.TimerReturns R.toKernelLayout)
        (f.boot frame) ops := by
  apply allSteps_congr (I := IrqState.Inv R.toKernelLayout)
  · exact fun x op hi => IrqState.step_iff hi op
  · exact fun x op hi h => hi.step h
  · exact f.boot_inv frame

def sampleResumeLayout : ResumeLayout where
  toKernelLayout := sampleLayout
  tick_ne_trampoline := sampleLayout_tick_ne_trampoline
  tick_ne_yield := by decide

def kernelRegs : TaskRegs := { zeroRegs with rsp := 0xffff800000008000 }

/-- The user task yields to the idle task, and the timer hands it the processor back at the end of
the quantum. -/
theorem timer_not_acknowledged :
    ¬ AllSteps (IrqState.step sampleResumeLayout.toKernelLayout)
      (IrqState.KeepsAcknowledged sampleResumeLayout.toKernelLayout)
      (twoTasks.boot fun _ => .user)
      ([.add 0, .add 1, .start kernelRegs, .yield kernelRegs] ++
        List.replicate 9 (.timer kernelRegs) ++ [.timer kernelRegs]) := by
  intro h
  have hlast := ((allSteps_append _).mp h).2.1
  have hclear := hlast (by decide)
  revert hclear
  decide

end StyxOS
