import StyxOS.Ipc.Basic
import StyxOS.Sched.Handover

/-! # Tasks on the processor

What the processor executes while the tasks run, with the page tables and the
kernel stack in force, and what the kernel stacks hold. A system call enters the
kernel on the stack of `sched_current`, an interrupt on the one that the TSS names,
and the code that resumes after a switch is what lies where the saved stack pointer
leads.
-/

namespace StyxOS

open Sched StepSystem

/-! ## Stacks -/

/-- The stack that the bootloader has given to the kernel, or the kernel stack of a task. -/
inductive StackId
  | boot
  | kernel (t : TaskPtr)
deriving DecidableEq

/-- The layout with the boot stack, which is no smaller than that of a task. -/
structure ProcessorLayout extends KernelLayout where
  bootStackTop : UInt64
  bootStackSize : ℕ
  tick_ne_trampoline : schedTickResume ≠ taskEntryTrampoline
  yield_ne_trampoline : schedYieldResume ≠ taskEntryTrampoline
  size_le_bootStackSize : taskKernelStackSize ≤ bootStackSize
  bootStackSize_le : bootStackSize ≤ bootStackTop.toNat

section

variable (L : ProcessorLayout) (s : Sched)

def stackTop : StackId → UInt64
  | .boot => L.bootStackTop
  | .kernel t => (s.taskTable t).kstackTop

def stackSize : StackId → ℕ
  | .boot => L.bootStackSize
  | .kernel _ => taskKernelStackSize

/-- A stack pointer that is on the stack: at its top, where it is empty, or below. -/
def OnStack (S : StackId) (rsp : UInt64) : Prop :=
  (stackTop L s S).toNat - stackSize L S < rsp.toNat ∧ rsp.toNat ≤ (stackTop L s S).toNat

instance (S : StackId) (rsp : UInt64) : Decidable (OnStack L s S rsp) :=
  inferInstanceAs (Decidable (_ ∧ _))

def allStacks : List StackId := .boot :: s.runQueue.map .kernel

def stackAt (rsp : UInt64) : Option StackId := (allStacks s).find? fun S => OnStack L s S rsp

end

/-! ## The machine -/

/-- What the processor executes: `main` in ring 0, the code of a task in ring 3, or nothing after a
fault that finds no stack. -/
inductive Execution
  | boot
  | ring3 (t : TaskPtr)
  | fault
deriving DecidableEq

/-- The scheduler with the processor, and for each stack what the frames at its bottom return to. -/
structure Processor where
  sched : Sched
  execution : Execution
  frames : StackId → Execution

/-- Where the jump of `task_switch` leads: to the trampoline, which enters ring 3 for
`sched_current`, or into the function that has called `task_switch`. That one finds its return
address still on the stack, but restores the stack pointer from RBP, so that it returns as any
other. -/
def landing (L : ProcessorLayout) (frames : StackId → Execution) (s : Sched) (dst : TaskPtr) :
    Execution :=
  match stackAt L s (s.taskTable dst).regs.rsp with
  | none => .fault
  | some S =>
    if (s.taskTable dst).regs.rip = L.taskEntryTrampoline then
      match s.current with
      | some t => .ring3 t
      | none => .fault
    else frames S

/-- What the kernel has in the other registers when it comes to `task_switch`, and how many bytes it
has pushed by then. -/
structure KernelUse where
  cpu : TaskRegs
  depth : UInt64
  depth_pos : 0 < depth.toNat
  depth_lt : depth.toNat < taskKernelStackSize

/-- The live registers after the kernel was entered with the given stack pointer. -/
def KernelUse.regs (u : KernelUse) (rsp : UInt64) : TaskRegs := { u.cpu with rsp := rsp - u.depth }

inductive KernelOp
  | schedStart
  | tick
  | sysYield
  | park
  | unblock (t : TaskPtr)
  | sysExit

structure KernelEvent where
  op : KernelOp
  use : KernelUse

/-- The task that a blocking send or receive switches to. -/
def parkTarget (s : Sched) : Option TaskPtr :=
  s.current.bind fun t => if (s.taskTable t).id ≠ 0 then blockTarget s t else none

namespace Processor

variable (L : ProcessorLayout) (p : Processor)

/-- After a function of the scheduler: back to what has called it, or to where its switch leads. -/
def proceed (frames : StackId → Execution) (back : Execution) (s : Sched)
    (target : Option TaskPtr) : Processor where
  sched := s
  execution :=
    match target with
    | none => back
    | some dst => landing L frames s dst
  frames := frames

theorem proceed_sched (frames : StackId → Execution) (back : Execution) (s : Sched)
    (target : Option TaskPtr) : (proceed L frames back s target).sched = s := rfl

/-- The kernel is entered from the code of a task, whose frame goes where the stack pointer is. -/
def enter (t : TaskPtr) (rsp : UInt64) (s : Sched) (target : Option TaskPtr) : Processor :=
  match stackAt L p.sched rsp with
  | none => { p with execution := .fault }
  | some S => proceed L (Function.update p.frames S (.ring3 t)) (.ring3 t) s target

/-- `syscall_entry`, with the function that the call is for. -/
def syscall (t : TaskPtr) (u : KernelUse) (call : TaskRegs → Sched → Sched)
    (target : Sched → Option TaskPtr) : Processor :=
  match p.sched.current with
  | none => { p with execution := .fault }
  | some cur =>
    let rsp := (p.sched.taskTable cur).kstackTop
    p.enter L t rsp (call (u.regs rsp) p.sched) (target p.sched)

/-- One event. `main` starts the scheduler and is idle then; tasks make the system calls; the timer
interrupts either. -/
def step (e : KernelEvent) : Processor :=
  let K := L.toKernelLayout
  match p.execution, e.op with
  | .boot, .schedStart =>
    proceed L p.frames .boot (schedStart K (e.use.regs L.bootStackTop) p.sched)
      (startTarget p.sched)
  | .boot, .tick =>
    proceed L p.frames .boot (schedTick K (e.use.regs L.bootStackTop) p.sched) (tickTarget p.sched)
  | .ring3 t, .tick =>
    p.enter L t p.sched.rsp0 (schedTick K (e.use.regs p.sched.rsp0) p.sched) (tickTarget p.sched)
  | .ring3 t, .sysYield => p.syscall L t e.use (schedYield K) yieldTarget
  | .ring3 t, .park => p.syscall L t e.use (fun cpu s => (parkCurrent K cpu s).2) parkTarget
  | .ring3 t, .unblock u =>
    p.syscall L t e.use (fun _ s => schedUnblock s (some u)) fun _ => none
  | .ring3 t, .sysExit => p.syscall L t e.use (sysExit K) exitTarget
  | _, _ => p

/-! ## Consistency -/

/-- The task is in the queue while another one is current. -/
def Suspended (t : TaskPtr) : Prop :=
  t ∈ p.sched.runQueue ∧ ∃ cur, p.sched.current = some cur ∧ cur ≠ t

/-- The stack of the context of a suspended task. -/
def contextStack (t : TaskPtr) : Option StackId := stackAt L p.sched (p.sched.taskTable t).regs.rsp

/-- While a task executes in ring 3, it is the current one, and its page tables and its kernel stack
are in force. The contexts of suspended tasks are on different stacks, and neither a system call nor
an interrupt enters the kernel on one of these. -/
structure Consistent : Prop where
  ring3 : ∀ t, p.execution = .ring3 t →
    p.sched.current = some t ∧ p.sched.cr3 = taskSpace L.toKernelLayout p.sched t ∧
      p.sched.rsp0 = (p.sched.taskTable t).kstackTop
  onStack : ∀ t, p.Suspended t → (p.sched.taskTable t).regs.rsp ≠ 0 →
    (p.contextStack L t).isSome = true
  apart : ∀ t u, p.Suspended t → p.Suspended u → t ≠ u → ∀ S, p.contextStack L t = some S →
    p.contextStack L u ≠ some S
  entry : ∀ t u, p.execution = .ring3 t → p.Suspended u → ∀ S,
    stackAt L p.sched p.sched.rsp0 = some S → p.contextStack L u ≠ some S
  boot : ∀ u, p.execution = .boot → p.Suspended u → p.contextStack L u ≠ some .boot

/-- The tasks are the same, and what is stored of one that stays suspended is not overwritten. -/
structure Preserves (p p' : Processor) : Prop where
  runQueue : p'.sched.runQueue = p.sched.runQueue
  fixed : ∀ t, (p'.sched.taskTable t).fixed = (p.sched.taskTable t).fixed
  regs : ∀ t, p.Suspended t → p'.Suspended t →
    (p'.sched.taskTable t).regs = (p.sched.taskTable t).regs
  frames : ∀ t, p.Suspended t → p'.Suspended t → ∀ S, p.contextStack L t = some S →
    p'.frames S = p.frames S

end Processor

/-- A task other than the kernel task has page tables and a kernel stack of its own, and no two
stacks overlap. -/
structure Placed (L : ProcessorLayout) (s : Sched) : Prop where
  created : ∀ t ∈ s.runQueue, (s.taskTable t).kstackTop = 0 ∨
    taskKernelStackSize ≤ (s.taskTable t).kstackTop.toNat ∧ HasSpace s t
  separate : ∀ S ∈ allStacks s, ∀ S' ∈ allStacks s, ∀ rsp, OnStack L s S rsp → OnStack L s S' rsp →
    S = S'

/-- The machine before `sched_start`, when no task has run. -/
structure LoadedTasks (L : ProcessorLayout) where
  sched : Sched
  current : sched.current = none
  fresh : ∀ t, (sched.taskTable t).regs.rsp = (sched.taskTable t).kstackTop
  placed : Placed L sched

def LoadedTasks.processor {L : ProcessorLayout} (l : LoadedTasks L) : Processor where
  sched := l.sched
  execution := .boot
  frames
    | .boot => .boot
    | .kernel _ => .fault

/-! ## Stack pointers -/

variable {L : ProcessorLayout} {s s' : Sched} {p : Processor} {S : StackId} {t next : TaskPtr}
  {rsp : UInt64}

theorem allStacks_congr (hq : s'.runQueue = s.runQueue) : allStacks s' = allStacks s := by
  rw [allStacks, allStacks, hq]

theorem onStack_congr (hfix : ∀ t, (s'.taskTable t).fixed = (s.taskTable t).fixed) :
    OnStack L s' S rsp ↔ OnStack L s S rsp := by
  have htop : stackTop L s' S = stackTop L s S := by
    cases S with
    | boot => rfl
    | kernel t => exact kstackTop_of_fixed (hfix t)
  rw [OnStack, OnStack, htop]

theorem stackAt_congr (hq : s'.runQueue = s.runQueue)
    (hfix : ∀ t, (s'.taskTable t).fixed = (s.taskTable t).fixed) :
    stackAt L s' rsp = stackAt L s rsp := by
  simp only [stackAt, allStacks_congr hq, onStack_congr hfix]

theorem boot_mem_allStacks : StackId.boot ∈ allStacks s := List.mem_cons_self

theorem kernel_mem_allStacks (h : t ∈ s.runQueue) : StackId.kernel t ∈ allStacks s :=
  List.mem_cons_of_mem _ (List.mem_map_of_mem h)

theorem onStack_of_stackAt (h : stackAt L s rsp = some S) : OnStack L s S rsp := by
  simpa using List.find?_some h

namespace Placed

theorem congr (h : Placed L s) (hq : s'.runQueue = s.runQueue)
    (hfix : ∀ t, (s'.taskTable t).fixed = (s.taskTable t).fixed) : Placed L s' where
  created t ht := by
    rw [hq] at ht
    rw [kstackTop_of_fixed (hfix t), hasSpace_congr (hfix t)]
    exact h.created t ht
  separate S hS S' hS' rsp := by
    rw [allStacks_congr hq] at hS hS'
    rw [onStack_congr hfix, onStack_congr hfix]
    exact h.separate S hS S' hS' rsp

theorem stackAt_eq (h : Placed L s) (hS : S ∈ allStacks s) (hon : OnStack L s S rsp) :
    stackAt L s rsp = some S := by
  cases hfind : stackAt L s rsp with
  | none =>
    have hnone := List.find?_eq_none.mp hfind S hS
    simp [hon] at hnone
  | some S' =>
    rw [h.separate S hS S' (List.mem_of_find?_eq_some hfind) rsp hon (onStack_of_stackAt hfind)]

theorem size_le (h : Placed L s) (ht : t ∈ s.runQueue) (hstack : (s.taskTable t).kstackTop ≠ 0) :
    stackSize L (.kernel t) ≤ (stackTop L s (.kernel t)).toNat :=
  ((h.created t ht).resolve_left hstack).1

end Placed

theorem stackAt_zero : stackAt L s 0 = none := by
  refine List.find?_eq_none.mpr fun S _ => ?_
  simp [OnStack]

theorem onStack_top (hsize : stackSize L S ≤ (stackTop L s S).toNat) (hpos : 0 < stackSize L S) :
    OnStack L s S (stackTop L s S) := by
  constructor <;> omega

theorem onStack_top_kernel (h : Placed L s) (ht : t ∈ s.runQueue)
    (hstack : (s.taskTable t).kstackTop ≠ 0) :
    OnStack L s (.kernel t) (s.taskTable t).kstackTop :=
  onStack_top (S := .kernel t) (h.size_le ht hstack) (by simp [stackSize, taskKernelStackSize])

theorem kstackTop_ne_zero (hon : OnStack L s (.kernel t) rsp) : (s.taskTable t).kstackTop ≠ 0 := by
  intro hzero
  have hlt := hon.1
  have hle := hon.2
  rw [stackTop, hzero] at hlt hle
  simp at hle
  omega

theorem Placed.onBoot_ne (h : Placed L s) (ht : t ∈ s.runQueue) (hon : OnStack L s .boot rsp) :
    rsp ≠ (s.taskTable t).kstackTop := by
  rintro rfl
  by_cases hzero : (s.taskTable t).kstackTop = 0
  · have hlt := hon.1
    rw [hzero] at hlt
    simp at hlt
  · have hkernel := onStack_top_kernel h ht hzero
    cases h.separate _ boot_mem_allStacks _ (kernel_mem_allStacks ht) _ hon hkernel

theorem onStack_push (u : KernelUse) (hsize : stackSize L S ≤ (stackTop L s S).toNat)
    (hle : taskKernelStackSize ≤ stackSize L S) :
    OnStack L s S (u.regs (stackTop L s S)).rsp ∧
      (u.regs (stackTop L s S)).rsp ≠ stackTop L s S := by
  have hdepth := u.depth_lt
  have hpos := u.depth_pos
  have hsub : (stackTop L s S - u.depth).toNat = (stackTop L s S).toNat - u.depth.toNat :=
    UInt64.toNat_sub_of_le _ _ (UInt64.le_iff_toNat_le.mpr (by omega))
  have hne : stackTop L s S - u.depth ≠ stackTop L s S := by
    intro he
    rw [he] at hsub
    omega
  refine ⟨⟨?_, ?_⟩, hne⟩
  · change _ < (stackTop L s S - u.depth).toNat
    omega
  · change (stackTop L s S - u.depth).toNat ≤ _
    omega

/-! ## The invariant -/

/-- What is saved of a task that is not current: nothing yet, at the top of its own stack; a call in
the kernel, on its own stack below the frame of its code; or, for the head of the queue, `main`. -/
inductive Resumable (L : ProcessorLayout) (p : Processor) (t : TaskPtr) : Prop
  | fresh (hrsp : (p.sched.taskTable t).regs.rsp = (p.sched.taskTable t).kstackTop)
      (hhead : p.sched.runQueue.head? = some t → p.sched.current = none)
  | kernel (hon : OnStack L p.sched (.kernel t) (p.sched.taskTable t).regs.rsp)
      (hne : (p.sched.taskTable t).regs.rsp ≠ (p.sched.taskTable t).kstackTop)
      (hrip : (p.sched.taskTable t).regs.rip ≠ L.taskEntryTrampoline)
      (hframe : p.frames (.kernel t) = .ring3 t)
  | boot (hon : OnStack L p.sched .boot (p.sched.taskTable t).regs.rsp)
      (hrip : (p.sched.taskTable t).regs.rip ≠ L.taskEntryTrampoline)
      (hhead : p.sched.runQueue.head? = some t) (hexec : p.execution ≠ .boot)

/-- What every event preserves. A fault is one of a task without a stack that is not the head of the
queue. -/
structure Processor.Inv (L : ProcessorLayout) (p : Processor) : Prop where
  startHead : p.sched.StartHead L.toKernelLayout
  placed : Placed L p.sched
  bootFrame : p.frames .boot = .boot
  context : ∀ t ∈ p.sched.runQueue, p.sched.current ≠ some t → Resumable L p t
  ring3 : ∀ t, p.execution = .ring3 t → t ∈ p.sched.runQueue ∧ p.sched.current = some t ∧
    p.sched.cr3 = taskSpace L.toKernelLayout p.sched t ∧
    p.sched.rsp0 = (p.sched.taskTable t).kstackTop ∧ (p.sched.taskTable t).kstackTop ≠ 0
  idle : ∀ t, p.execution = .boot → p.sched.current = some t → p.sched.runQueue.head? = some t
  fault : p.execution = .fault → ∃ t ∈ p.sched.runQueue, (p.sched.taskTable t).kstackTop = 0 ∧
    p.sched.runQueue.head? ≠ some t

variable {p' : Processor} {prev : TaskPtr} {cpu : TaskRegs} {ret : UInt64} {started : Bool}
  {frames : StackId → Execution}

namespace Resumable

/-- A context stays what it is while its registers and the frame of its stack do. -/
theorem congr (h : Resumable L p t) (hq : p'.sched.runQueue = p.sched.runQueue)
    (hfix : ∀ u, (p'.sched.taskTable u).fixed = (p.sched.taskTable u).fixed)
    (hregs : (p'.sched.taskTable t).regs = (p.sched.taskTable t).regs)
    (hframe : p'.frames (.kernel t) = p.frames (.kernel t))
    (hcur : p.sched.runQueue.head? = some t → p.sched.current = none → p'.sched.current = none)
    (hexec : p.sched.runQueue.head? = some t → p.execution ≠ .boot → p'.execution ≠ .boot) :
    Resumable L p' t := by
  have htop := kstackTop_of_fixed (hfix t)
  cases h with
  | fresh hrsp hhead =>
    refine .fresh (by rw [hregs, htop, hrsp]) fun hhead' => ?_
    rw [hq] at hhead'
    exact hcur hhead' (hhead hhead')
  | kernel hon hne hrip hframe' =>
    refine .kernel ?_ (by rwa [hregs, htop]) (by rwa [hregs]) (hframe.trans hframe')
    rwa [hregs, onStack_congr hfix]
  | boot hon hrip hhead hexec' =>
    refine .boot ?_ (by rwa [hregs]) (by rwa [hq]) (hexec hhead hexec')
    rwa [hregs, onStack_congr hfix]

/-- The stack that a context is on. -/
theorem contextStack (h : Resumable L p t) (hp : Placed L p.sched) (ht : t ∈ p.sched.runQueue) :
    p.contextStack L t = some (.kernel t) ∨
      (p.contextStack L t = some .boot ∧ p.sched.runQueue.head? = some t ∧
        p.execution ≠ .boot) ∨
      (p.contextStack L t = none ∧ (p.sched.taskTable t).regs.rsp = 0) := by
  cases h with
  | fresh hrsp =>
    by_cases hstack : (p.sched.taskTable t).kstackTop = 0
    · refine .inr (.inr ⟨?_, hrsp.trans hstack⟩)
      rw [Processor.contextStack, hrsp, hstack]
      exact stackAt_zero
    · refine .inl (hp.stackAt_eq (kernel_mem_allStacks ht) ?_)
      rw [hrsp]
      exact onStack_top_kernel hp ht hstack
  | kernel hon => exact .inl (hp.stackAt_eq (kernel_mem_allStacks ht) hon)
  | boot hon _ hhead hexec =>
    exact .inr (.inl ⟨hp.stackAt_eq boot_mem_allStacks hon, hhead, hexec⟩)

end Resumable

/-! ## Switches -/

/-- A call of `task_switch` in the context of `prev`, with the frames that the stacks have then. -/
structure Processor.Leaves (L : ProcessorLayout) (p : Processor) (cpu : TaskRegs) (ret : UInt64)
    (started : Bool) (prev next : TaskPtr) (frames : StackId → Execution) (s' : Sched) : Prop where
  handedOver : HandedOver L.toKernelLayout cpu ret started p.sched prev next s'
  mem : next ∈ p.sched.runQueue
  ne : next ≠ prev
  current : ∀ t, p.sched.current = some t → t = prev
  head : p.sched.current = none → p.sched.runQueue.head? = some prev
  started : started = true → p.execution = .boot
  kernelFrame : ∀ t, t ≠ prev → frames (.kernel t) = p.frames (.kernel t)
  bootFrame : frames .boot = .boot

/-- The code that a switch lands in: that of the task, or `main` if it was suspended as the head of
the queue, or none if there is no stack. -/
inductive Landed (p : Processor) (next : TaskPtr) : Execution → Prop
  | ring3 (hstack : (p.sched.taskTable next).kstackTop ≠ 0) : Landed p next (.ring3 next)
  | boot (hhead : p.sched.runQueue.head? = some next) (hexec : p.execution ≠ .boot) :
      Landed p next .boot
  | fault (hstack : (p.sched.taskTable next).kstackTop = 0)
      (hhead : p.sched.runQueue.head? ≠ some next) : Landed p next .fault

namespace Processor.Leaves

variable (hl : p.Leaves L cpu ret started prev next frames s')
include hl

theorem current_ne (ht : t ≠ prev) : p.sched.current ≠ some t := fun he => ht (hl.current t he)

theorem landing_eq : landing L frames s' next =
    match p.contextStack L next with
    | none => .fault
    | some S =>
      if (s'.taskTable next).regs.rip = L.taskEntryTrampoline then .ring3 next else frames S := by
  have hrsp : (s'.taskTable next).regs.rsp = (p.sched.taskTable next).regs.rsp := by
    rw [hl.handedOver.launched]
    split <;> rfl
  rw [landing, hrsp, stackAt_congr hl.handedOver.runQueue hl.handedOver.fixed,
    hl.handedOver.current, contextStack]

theorem landed (h : p.Inv L) : Landed p next (landing L frames s' next) := by
  rw [hl.landing_eq]
  cases h.context next hl.mem (hl.current_ne hl.ne) with
  | fresh hfresh hunstarted =>
    have hrip : (s'.taskTable next).regs.rip = L.taskEntryTrampoline := by
      rw [hl.handedOver.launched, if_pos (.inr hfresh)]
    by_cases htop : (p.sched.taskTable next).kstackTop = 0
    · have hhead : p.sched.runQueue.head? ≠ some next := by
        intro he
        rw [hl.head (hunstarted he)] at he
        exact hl.ne (Option.some.inj he).symm
      rw [contextStack, hfresh, htop, stackAt_zero]
      exact .fault htop hhead
    · have hS : p.contextStack L next = some (.kernel next) :=
        h.placed.stackAt_eq (kernel_mem_allStacks hl.mem)
          (hfresh ▸ onStack_top_kernel h.placed hl.mem htop)
      rw [hS]
      dsimp only
      rw [if_pos hrip]
      exact .ring3 htop
  | kernel hon _ _ hreturn =>
    rw [contextStack, h.placed.stackAt_eq (kernel_mem_allStacks hl.mem) hon]
    dsimp only
    rw [hl.kernelFrame next hl.ne, hreturn, ite_self]
    exact .ring3 (kstackTop_ne_zero hon)
  | boot hon hrip hhead hexec =>
    have hlaunch : ¬ (started = true ∨
        (p.sched.taskTable next).regs.rsp = (p.sched.taskTable next).kstackTop) := by
      rintro (hstart | htop)
      · exact hexec (hl.started hstart)
      · exact h.placed.onBoot_ne hl.mem hon htop
    rw [contextStack, h.placed.stackAt_eq boot_mem_allStacks hon, hl.handedOver.launched,
      if_neg hlaunch]
    dsimp only
    rw [if_neg hrip, hl.bootFrame]
    exact .boot hhead hexec

theorem resumable (h : p.Inv L) (back : Execution) (ht : t ∈ p.sched.runQueue) (hprev : t ≠ prev)
    (hnext : t ≠ next) : Resumable L (proceed L frames back s' (some next)) t := by
  have hd := hl.handedOver
  refine (h.context t ht (hl.current_ne hprev)).congr hd.runQueue hd.fixed
    (hd.others t hprev hnext) (hl.kernelFrame t hprev) (fun he hnone => ?_) fun he _ hexec => ?_
  · rw [hl.head hnone] at he
    exact absurd (Option.some.inj he).symm hprev
  · have hlanded := hl.landed h
    rw [show landing L frames s' next = .boot from hexec] at hlanded
    cases hlanded with
    | boot hhead => exact hnext (Option.some.inj (he.symm.trans hhead))

theorem ring3 (h : p.Inv L) (hstack : (p.sched.taskTable next).kstackTop ≠ 0) :
    next ∈ s'.runQueue ∧ s'.current = some next ∧ s'.cr3 = taskSpace L.toKernelLayout s' next ∧
      s'.rsp0 = (s'.taskTable next).kstackTop ∧ (s'.taskTable next).kstackTop ≠ 0 := by
  have hd := hl.handedOver
  have hspace := ((h.placed.created next hl.mem).resolve_left hstack).2
  have htop := kstackTop_of_fixed (hd.fixed next)
  refine ⟨hd.runQueue ▸ hl.mem, hd.current, ?_, hd.rsp0.trans htop.symm, htop ▸ hstack⟩
  rw [hd.cr3, taskSpace_congr (hd.fixed next), spaceOf, if_neg hspace, taskSpace]

end Processor.Leaves

namespace Processor.Inv

theorem frames_eq (h : p.Inv L) (ht : t ∈ p.sched.runQueue) (hcur : p.sched.current ≠ some t)
    (hframe : frames (.kernel t) = p.frames (.kernel t)) (hboot : frames .boot = .boot)
    (S : StackId)
    (hS : p.contextStack L t = some S) : frames S = p.frames S := by
  rcases (h.context t ht hcur).contextStack h.placed ht with hS' | ⟨hS', -⟩ | ⟨hS', -⟩ <;>
    rw [hS'] at hS <;> cases hS
  · exact hframe
  · exact hboot.trans h.bootFrame.symm

theorem preserves_of_leaves (h : p.Inv L)
    (hl : p.Leaves L cpu ret started prev next frames s') (back : Execution) :
    p.Preserves L (proceed L frames back s' (some next)) := by
  have hd := hl.handedOver
  have hstays : ∀ t, p.Suspended t → (proceed L frames back s' (some next)).Suspended t →
      t ≠ prev ∧ t ≠ next := by
    rintro t ⟨-, cur, hc, hcne⟩ ⟨-, cur', hc', hcne'⟩
    cases hd.current.symm.trans hc'
    exact ⟨fun he => hcne ((hl.current cur hc).trans he.symm), hcne'.symm⟩
  constructor
  · exact hd.runQueue
  · exact hd.fixed
  · intro t ht ht'
    obtain ⟨hprev, hnext⟩ := hstays t ht ht'
    exact hd.others t hprev hnext
  · intro t ht ht'
    obtain ⟨hprev, -⟩ := hstays t ht ht'
    exact h.frames_eq ht.1 (hl.current_ne hprev) (hl.kernelFrame t hprev) hl.bootFrame

/-- A switch keeps the invariant, if what is saved of the outgoing task is resumable. -/
theorem switched (h : p.Inv L) (hl : p.Leaves L cpu ret started prev next frames s')
    (back : Execution) (hsaved : (p.execution = .boot → landing L frames s' next ≠ .boot) →
      Resumable L (proceed L frames back s' (some next)) prev) :
    (proceed L frames back s' (some next)).Inv L ∧
      p.Preserves L (proceed L frames back s' (some next)) := by
  have hd := hl.handedOver
  have hlanded := hl.landed h
  refine ⟨?_, h.preserves_of_leaves hl back⟩
  constructor
  · exact hd.startHead
  · exact h.placed.congr hd.runQueue hd.fixed
  · exact hl.bootFrame
  · intro t ht hcurrent
    have hnext : t ≠ next := by
      rintro rfl
      exact hcurrent hd.current
    by_cases hprev : t = prev
    · rw [hprev]
      refine hsaved fun hexec hboot => ?_
      rw [hboot] at hlanded
      cases hlanded with
      | boot _ hne => exact hne hexec
    · exact hl.resumable h back (hd.runQueue ▸ ht) hprev hnext
  · intro t hexec
    rw [show landing L frames s' next = .ring3 t from hexec] at hlanded
    cases hlanded with
    | ring3 hstack => exact hl.ring3 h hstack
  · intro t hexec ht
    rw [show landing L frames s' next = .boot from hexec] at hlanded
    cases hd.current.symm.trans ht
    cases hlanded with
    | boot hhead => exact (congrArg List.head? hd.runQueue).trans hhead
  · intro hexec
    rw [show landing L frames s' next = .fault from hexec] at hlanded
    cases hlanded with
    | fault hstack hhead =>
      refine ⟨next, hd.runQueue ▸ hl.mem, ?_, ?_⟩
      · exact (kstackTop_of_fixed (hd.fixed next)).trans hstack
      · rwa [proceed, hd.runQueue]

/-- A call that returns keeps the invariant. -/
theorem returned (h : p.Inv L) (hq : Quiet p.sched s')
    (hframes : ∀ t, p.sched.current ≠ some t → frames (.kernel t) = p.frames (.kernel t))
    (hboot : frames .boot = .boot) :
    (proceed L frames p.execution s' none).Inv L ∧
      p.Preserves L (proceed L frames p.execution s' none) := by
  refine ⟨?_, ?_⟩
  · constructor
    · exact hq.startHead h.startHead
    · exact h.placed.congr hq.runQueue hq.fixed
    · exact hboot
    · intro t ht hcur
      replace hcur : p.sched.current ≠ some t := hq.current ▸ hcur
      exact (h.context t (hq.runQueue ▸ ht) hcur).congr hq.runQueue hq.fixed (hq.regs t)
        (hframes t hcur) (fun _ hnone => hq.current.trans hnone) fun _ hexec => hexec
    · intro t hexec
      obtain ⟨ht, hcur, hcr3, hrsp0, hstack⟩ := h.ring3 t hexec
      have htop := kstackTop_of_fixed (hq.fixed t)
      refine ⟨hq.runQueue ▸ ht, hq.current.trans hcur, ?_, ?_, htop ▸ hstack⟩
      · exact (hq.cr3.trans hcr3).trans (taskSpace_congr (hq.fixed t)).symm
      · exact (hq.rsp0.trans hrsp0).trans htop.symm
    · intro t hexec hcur
      exact (congrArg List.head? hq.runQueue).trans (h.idle t hexec (hq.current ▸ hcur))
    · intro hexec
      obtain ⟨t, ht, hstack, hhead⟩ := h.fault hexec
      exact ⟨t, hq.runQueue ▸ ht, (kstackTop_of_fixed (hq.fixed t)).trans hstack,
        hq.runQueue ▸ hhead⟩
  · constructor
    · exact hq.runQueue
    · exact hq.fixed
    · exact fun t _ _ => hq.regs t
    · rintro t ⟨ht, cur, hcur, hne⟩ -
      have hcurrent : p.sched.current ≠ some t := fun he =>
        hne (Option.some.inj (hcur.symm.trans he))
      exact h.frames_eq ht hcurrent (hframes t hcurrent) hboot

/-! ## Events -/

/-- A call made from ring 3, on the kernel stack of the task. -/
theorem enter (h : p.Inv L) (hexec : p.execution = .ring3 t) (u : KernelUse)
    {target : Option TaskPtr} (ho : SchedOutcome L.toKernelLayout
      (u.regs (p.sched.taskTable t).kstackTop) p.sched target s') :
    (p.enter L t (p.sched.taskTable t).kstackTop s' target).Inv L ∧
      p.Preserves L (p.enter L t (p.sched.taskTable t).kstackTop s' target) := by
  obtain ⟨ht, hcur, -, -, hstack⟩ := h.ring3 t hexec
  have hS : stackAt L p.sched (p.sched.taskTable t).kstackTop = some (.kernel t) :=
    h.placed.stackAt_eq (kernel_mem_allStacks ht) (onStack_top_kernel h.placed ht hstack)
  have hframes : ∀ u, u ≠ t →
      Function.update p.frames (.kernel t) (.ring3 t) (.kernel u) = p.frames (.kernel u) :=
    fun u hu => Function.update_of_ne (fun he => hu (StackId.kernel.inj he)) _ _
  have hboot : Function.update p.frames (.kernel t) (.ring3 t) .boot = .boot :=
    (Function.update_of_ne (by simp) _ _).trans h.bootFrame
  rw [Processor.enter, hS]
  cases ho with
  | returns hq =>
    have hreturned := h.returned hq
      (fun v hv => hframes v fun he => hv (he ▸ hcur)) hboot
    rwa [hexec] at hreturned
  | switches hprev hnext hne hret hd =>
    cases hcur.symm.trans hprev
    have hl : p.Leaves L _ _ _ t _ _ s' :=
      { handedOver := hd
        mem := hnext
        ne := hne
        current := fun v hv => Option.some.inj (hv.symm.trans hcur)
        head := fun hnone => by cases hnone.symm.trans hcur
        started := by simp
        kernelFrame := hframes
        bootFrame := hboot }
    refine h.switched hl _ fun _ => ?_
    · obtain ⟨hon, hbelow⟩ := onStack_push (L := L) (s := p.sched) (S := .kernel t) u
        (h.placed.size_le ht hstack) le_rfl
      refine .kernel ?_ ?_ ?_ (Function.update_self ..)
      · rw [proceed_sched, onStack_congr hd.fixed, hd.saved]
        exact hon
      · rw [proceed_sched, hd.saved, kstackTop_of_fixed (hd.fixed t)]
        exact hbelow
      · rw [proceed_sched, hd.saved]
        rcases hret with rfl | rfl
        · exact L.tick_ne_trampoline
        · exact L.yield_ne_trampoline

/-- A switch of `main`, whose context is that of the head of the queue. -/
theorem switched_boot (h : p.Inv L) (hexec : p.execution = .boot) (u : KernelUse)
    (hd : HandedOver L.toKernelLayout (u.regs L.bootStackTop) ret started p.sched prev next s')
    (hnext : next ∈ p.sched.runQueue) (hne : next ≠ prev)
    (hhead : p.sched.runQueue.head? = some prev) (hret : ret ≠ L.taskEntryTrampoline) :
    (proceed L p.frames .boot s' (some next)).Inv L ∧
      p.Preserves L (proceed L p.frames .boot s' (some next)) := by
  have hl : p.Leaves L _ _ _ prev _ p.frames s' :=
    { handedOver := hd
      mem := hnext
      ne := hne
      current := fun t ht => Option.some.inj ((h.idle t hexec ht).symm.trans hhead)
      head := fun _ => hhead
      started := fun _ => hexec
      kernelFrame := fun _ _ => rfl
      bootFrame := h.bootFrame }
  refine h.switched hl _ fun hland => .boot ?_ ?_ ?_ (hland hexec)
  · rw [proceed_sched, onStack_congr hd.fixed, hd.saved]
    exact (onStack_push (L := L) (s := p.sched) (S := .boot) u L.bootStackSize_le
      L.size_le_bootStackSize).1
  · rwa [proceed_sched, hd.saved]
  · rw [proceed_sched, hd.runQueue, hhead]

theorem madeCurrent (h : p.Inv L) (hexec : p.execution = .boot)
    (hhead : p.sched.runQueue.head? = some prev) :
    ({ p with sched := { p.sched with current := some prev, currentIdx := 0 } } :
      Processor).Inv L := by
  constructor
  · exact h.startHead
  · exact h.placed.congr rfl fun _ => rfl
  · exact h.bootFrame
  · intro t ht hcur
    have hne : t ≠ prev := fun he => hcur (congrArg some he.symm)
    have hcurrent : p.sched.current ≠ some t := fun he =>
      hne (Option.some.inj ((h.idle t hexec he).symm.trans hhead))
    refine (h.context t ht hcurrent).congr rfl (fun _ => rfl) rfl rfl (fun he _ => ?_)
      fun _ hexec' => hexec'
    exact absurd (Option.some.inj (he.symm.trans hhead)) hne
  · intro t he
    rw [hexec] at he
    cases he
  · rintro t - ⟨⟩
    exact hhead
  · intro he
    rw [hexec] at he
    cases he

theorem schedStart (h : p.Inv L) (hexec : p.execution = .boot) (u : KernelUse)
    {target : Option TaskPtr}
    (ho : StartOutcome L.toKernelLayout (u.regs L.bootStackTop) p.sched target s') :
    (proceed L p.frames .boot s' target).Inv L ∧
      p.Preserves L (proceed L p.frames .boot s' target) := by
  cases ho with
  | empty =>
    have hreturned := h.returned (.refl p.sched) (fun _ _ => rfl) h.bootFrame
    rwa [hexec] at hreturned
  | @first first hhead =>
    obtain ⟨hinv, hkept⟩ := (h.madeCurrent hexec hhead).returned (.setState _ _ .running)
      (fun _ _ => rfl) h.bootFrame
    rw [hexec] at hinv hkept
    have hsuspended : ∀ t, p.Suspended t → Processor.Suspended { p with sched :=
        { p.sched with current := some first, currentIdx := 0 } } t := by
      rintro t ⟨ht, cur, hcur, hne⟩
      cases (h.idle cur hexec hcur).symm.trans hhead
      exact ⟨ht, _, rfl, hne⟩
    refine ⟨hinv, hkept.runQueue, fun _ => fixed_setState .., fun t ht => ?_, fun t ht => ?_⟩
    · exact hkept.regs t (hsuspended t ht)
    · exact hkept.frames t (hsuspended t ht)
  | switches hhead hnext hne hd =>
    exact h.switched_boot hexec u hd hnext hne hhead L.trampoline_ne.symm

theorem tick_boot (h : p.Inv L) (hexec : p.execution = .boot) (u : KernelUse)
    {target : Option TaskPtr}
    (ho : SchedOutcome L.toKernelLayout (u.regs L.bootStackTop) p.sched target s') :
    (proceed L p.frames .boot s' target).Inv L ∧
      p.Preserves L (proceed L p.frames .boot s' target) := by
  cases ho with
  | returns hq =>
    have hreturned := h.returned hq (fun _ _ => rfl) h.bootFrame
    rwa [hexec] at hreturned
  | switches hprev hnext hne hret hd =>
    refine h.switched_boot hexec u hd hnext hne (h.idle _ hexec hprev) ?_
    rcases hret with rfl | rfl
    · exact L.tick_ne_trampoline
    · exact L.yield_ne_trampoline

theorem syscall (h : p.Inv L) (hexec : p.execution = .ring3 t) (u : KernelUse)
    {call : TaskRegs → Sched → Sched} {target : Sched → Option TaskPtr}
    (ho : ∀ cpu, SchedOutcome L.toKernelLayout cpu p.sched (target p.sched) (call cpu p.sched)) :
    (p.syscall L t u call target).Inv L ∧ p.Preserves L (p.syscall L t u call target) := by
  rw [Processor.syscall, (h.ring3 t hexec).2.1]
  exact h.enter hexec u (ho _)

end Processor.Inv

theorem parkCurrent_outcome {K : KernelLayout} (cpu : TaskRegs) (hs : s.StartHead K) :
    SchedOutcome K cpu s (parkTarget s) (parkCurrent K cpu s).2 := by
  unfold parkCurrent parkTarget
  cases hcur : s.current with
  | none => exact .returns (.refl s)
  | some cur =>
    dsimp only [Option.bind_some]
    split
    · exact schedBlock_outcome cpu hs cur
    · exact .returns (.refl s)

theorem Processor.Inv.step (h : p.Inv L) (e : KernelEvent) :
    (p.step L e).Inv L ∧ p.Preserves L (p.step L e) := by
  have hidle : p.Inv L ∧ p.Preserves L p := ⟨h, rfl, fun _ => rfl, fun _ _ _ => rfl,
    fun _ _ _ _ _ => rfl⟩
  obtain ⟨op, u⟩ := e
  cases hexec : p.execution with
  | fault => simpa [Processor.step, hexec] using hidle
  | boot =>
    cases op with
    | schedStart =>
      simpa [Processor.step, hexec] using
        h.schedStart hexec u (schedStart_outcome (u.regs L.bootStackTop) h.startHead)
    | tick =>
      simpa [Processor.step, hexec] using
        h.tick_boot hexec u (schedTick_outcome (u.regs L.bootStackTop) h.startHead)
    | sysYield | park | unblock _ | sysExit => simpa [Processor.step, hexec] using hidle
  | ring3 t =>
    cases op with
    | schedStart => simpa [Processor.step, hexec] using hidle
    | tick =>
      have hrsp0 := (h.ring3 t hexec).2.2.2.1
      have htick := h.enter hexec u
        (schedTick_outcome (u.regs (p.sched.taskTable t).kstackTop) h.startHead)
      simpa [Processor.step, hexec, hrsp0] using htick
    | sysYield =>
      simpa [Processor.step, hexec] using
        h.syscall hexec u fun cpu => schedYield_outcome cpu h.startHead
    | park =>
      simpa [Processor.step, hexec] using
        h.syscall hexec u fun cpu => parkCurrent_outcome cpu h.startHead
    | unblock v =>
      simpa [Processor.step, hexec] using
        h.syscall hexec u fun cpu => .returns (schedUnblock_quiet p.sched v)
    | sysExit =>
      simpa [Processor.step, hexec] using
        h.syscall hexec u fun cpu => sysExit_outcome cpu h.startHead

/-! ## Runs -/

theorem Processor.Inv.suspended (h : p.Inv L) (ht : p.Suspended t) :
    p.contextStack L t = some (.kernel t) ∨
      (p.contextStack L t = some .boot ∧ p.sched.runQueue.head? = some t ∧
        p.execution ≠ .boot) ∨
      (p.contextStack L t = none ∧ (p.sched.taskTable t).regs.rsp = 0) := by
  obtain ⟨hmem, cur, hcur, hne⟩ := ht
  have hcurrent : p.sched.current ≠ some t := fun he => hne (Option.some.inj (hcur.symm.trans he))
  exact (h.context t hmem hcurrent).contextStack h.placed hmem

theorem Processor.Inv.consistent (h : p.Inv L) : p.Consistent L where
  ring3 t hexec := ⟨(h.ring3 t hexec).2.1, (h.ring3 t hexec).2.2.1, (h.ring3 t hexec).2.2.2.1⟩
  onStack t ht hrsp := by
    rcases h.suspended ht with hS | ⟨hS, -⟩ | ⟨-, hzero⟩
    · simp [hS]
    · simp [hS]
    · exact absurd hzero hrsp
  apart t u ht hu hne S hS hS' := by
    rcases h.suspended ht with ht | ⟨ht, hhead, -⟩ | ⟨ht, -⟩ <;>
      rcases h.suspended hu with hu | ⟨hu, hhead', -⟩ | ⟨hu, -⟩ <;> grind
  entry t u hexec hu S hS := by
    obtain ⟨ht, hcur, -, hrsp0, hstack⟩ := h.ring3 t hexec
    obtain ⟨-, cur, hcur', hne⟩ := id hu
    rw [hrsp0, h.placed.stackAt_eq (kernel_mem_allStacks ht)
      (onStack_top_kernel h.placed ht hstack)] at hS
    rcases h.suspended hu with hu | ⟨hu, -⟩ | ⟨hu, -⟩ <;> grind
  boot u hexec hu := by
    rcases h.suspended hu with hu | ⟨-, -, hne⟩ | ⟨hu, -⟩
    · simp [hu]
    · exact absurd hexec hne
    · simp [hu]

theorem LoadedTasks.inv (l : LoadedTasks L) : l.processor.Inv L where
  startHead t ht := absurd (l.fresh t) ht.2
  placed := l.placed
  bootFrame := rfl
  context t _ _ := .fresh (l.fresh t) fun _ => l.current
  ring3 t hexec := by cases hexec
  idle t _ hcur := by
    cases l.current.symm.trans hcur
  fault hexec := by cases hexec

/-- Only the head of the queue has no kernel stack. -/
def KernelTaskFirst (s : Sched) : Prop :=
  ∀ t ∈ s.runQueue, (s.taskTable t).kstackTop = 0 → s.runQueue.head? = some t

instance (s : Sched) : Decidable (KernelTaskFirst s) :=
  inferInstanceAs (Decidable (∀ t ∈ s.runQueue, _ → _))

theorem Processor.Preserves.kernelTaskFirst (h : p.Preserves L p')
    (hfirst : KernelTaskFirst p.sched) : KernelTaskFirst p'.sched := by
  intro t ht htop
  rw [h.runQueue] at ht ⊢
  exact hfirst t ht ((kstackTop_of_fixed (h.fixed t)).symm.trans htop)

/-- In every run from the start, whatever is in the queue, the processor is consistent before and
after every event, and no event overwrites what is stored of a suspended task; and if the kernel
task is first in the queue, there is no fault. -/
theorem tasks_consistent (L : ProcessorLayout) (l : LoadedTasks L) (es : List KernelEvent) :
    l.processor.Consistent L ∧
      AllSteps (Processor.step L)
        (fun p e => (p.step L e).Consistent L ∧ p.Preserves L (p.step L e)) l.processor es ∧
      (KernelTaskFirst l.sched → (run (Processor.step L) l.processor es).execution ≠ .fault) := by
  refine ⟨l.inv.consistent, ?_, fun hfirst hfault => ?_⟩
  · refine (allSteps_iff_forall _).mpr fun pre e _ _ => ?_
    have hinv := run_invariant_of_forall (Processor.step L) (I := Processor.Inv L)
      (fun _ e h => (h.step e).1) l.inv pre
    exact ⟨(hinv.step e).1.consistent, (hinv.step e).2⟩
  · obtain ⟨hinv, hfirst'⟩ := run_invariant_of_forall (Processor.step L)
      (I := fun p => p.Inv L ∧ KernelTaskFirst p.sched)
      (fun p e h => ⟨(h.1.step e).1, (h.1.step e).2.kernelTaskFirst h.2⟩) ⟨l.inv, hfirst⟩ es
    obtain ⟨t, ht, htop, hhead⟩ := hinv.fault hfault
    exact hhead (hfirst' t ht htop)

/-! ### The kernel task and a user task -/

/-- Stacks are apart where one ends below the other. -/
theorem Placed.separate_of_forall (h : ∀ S ∈ allStacks s, ∀ S' ∈ allStacks s, S ≠ S' →
      (stackTop L s S).toNat + stackSize L S' ≤ (stackTop L s S').toNat ∨
        (stackTop L s S').toNat + stackSize L S ≤ (stackTop L s S).toNat ∨
        stackTop L s S = 0 ∨ stackTop L s S' = 0) :
    ∀ S ∈ allStacks s, ∀ S' ∈ allStacks s, ∀ rsp, OnStack L s S rsp → OnStack L s S' rsp →
      S = S' := by
  intro S hS S' hS' rsp ⟨hlt, hle⟩ ⟨hlt', hle'⟩
  by_contra hne
  rcases h S hS S' hS' hne with h | h | h | h
  · omega
  · omega
  · simp [h] at hle hlt
    omega
  · simp [h] at hle' hlt'
    omega

def sampleProcessorLayout : ProcessorLayout where
  toKernelLayout := sampleLayout
  bootStackTop := 0xffff800000100000
  bootStackSize := 0x10000
  tick_ne_trampoline := sampleLayout_tick_ne_trampoline
  yield_ne_trampoline := by decide
  size_le_bootStackSize := by decide
  bootStackSize_le := by decide

/-- The tasks that `main` creates. -/
def mainTasks : LoadedTasks sampleProcessorLayout where
  sched :=
    { taskTable := fun t =>
        if t = 0 then ⟨0, .ready, 0, 0xffff800000200000, 0, zeroRegs, 10⟩
        else if t = 1 then
          ⟨1, .ready, 0xffff900000000010, 0xffff800000300000, 0xffff900000005000,
            { zeroRegs with rbx := 0x400000, rip := 0x400000, rsp := 0xffff900000005000 }, 10⟩
        else ⟨0, .unused, 0, 0, 0, zeroRegs, 0⟩
      runQueue := [0, 1]
      currentIdx := 0
      current := none
      cr3 := 0x200000
      rsp0 := 0 }
  current := rfl
  fresh := by decide
  placed :=
    { created := by decide +kernel
      separate := Placed.separate_of_forall (by decide +kernel) }

/-- The kernel has pushed 64 bytes. -/
def someUse : KernelUse where
  cpu := zeroRegs
  depth := 64
  depth_pos := by decide
  depth_lt := by decide

/-- The user task is started and yields to the idle task. -/
theorem tasks_consistent_mainTasks :
    (run (Processor.step sampleProcessorLayout) mainTasks.processor
        [⟨.schedStart, someUse⟩]).execution = .ring3 1 ∧
      (run (Processor.step sampleProcessorLayout) mainTasks.processor
        [⟨.schedStart, someUse⟩, ⟨.sysYield, someUse⟩]).execution = .boot ∧
      ∀ es, (run (Processor.step sampleProcessorLayout) mainTasks.processor es).execution ≠
        .fault :=
  ⟨by decide +kernel, by decide +kernel, fun es =>
    (tasks_consistent sampleProcessorLayout mainTasks es).2.2 (by decide +kernel)⟩

end StyxOS
