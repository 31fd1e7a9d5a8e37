import StyxOS.Task.Basic

/-! # The round-robin scheduler

`sched.c` with the part of `task_switch` it relies on. A suspended task resumes
at the address saved in its registers; only a task suspended inside
`sched_start` has code left to run there that touches the scheduler's state.
-/

namespace StyxOS

/-- Addresses the linker and the bootloader fix: the entry trampoline, the instructions after the
three calls of `task_switch`, and the offset of the direct map. -/
structure KernelLayout where
  taskEntryTrampoline : UInt64
  schedStartResume : UInt64
  schedTickResume : UInt64
  schedYieldResume : UInt64
  hhdmOff : UInt64
  trampoline_ne : taskEntryTrampoline ≠ schedStartResume
  tick_ne : schedTickResume ≠ schedStartResume
  yield_ne : schedYieldResume ≠ schedStartResume

/-- The state of `sched.c`, the task table it points into, and the two processor registers that a
switch loads: CR3, and RSP0 of the TSS. `runQueue` holds the `queue_count` entries of the array;
none is NULL, because `sched_add` reads through its argument. -/
structure Sched where
  taskTable : TaskTable
  runQueue : List TaskPtr
  currentIdx : ℕ
  current : Option TaskPtr
  cr3 : UInt64
  rsp0 : UInt64

namespace Sched

/-- Update the task that `t` points to. -/
def modify (s : Sched) (t : TaskPtr) (f : Task → Task) : Sched :=
  { s with taskTable := Function.update s.taskTable t (f (s.taskTable t)) }

/-- The `state` field of a task. -/
abbrev stateOf (s : Sched) (t : TaskPtr) : TaskState := (s.taskTable t).state

def setState (s : Sched) (t : TaskPtr) (st : TaskState) : Sched :=
  s.modify t fun x => { x with state := st }

def setTicks (s : Sched) (t : TaskPtr) (n : UInt32) : Sched :=
  s.modify t fun x => { x with ticks := n }

def setRip (s : Sched) (t : TaskPtr) (rip : UInt64) : Sched :=
  s.modify t fun x => { x with regs := { x.regs with rip := rip } }

def saveRegs (s : Sched) (t : TaskPtr) (r : TaskRegs) : Sched :=
  s.modify t fun x => { x with regs := r }

end Sched

def schedAdd (s : Sched) (task : TaskPtr) : Sched :=
  if s.runQueue.length ≥ taskMaxTasks then s else { s with runQueue := s.runQueue ++ [task] }

/-- The loop of `next_ready`: the first READY task after the current index. -/
def scanReady (s : Sched) : Option TaskPtr :=
  (List.range s.runQueue.length).findSome? fun i =>
    s.runQueue[(s.currentIdx + (i + 1)) % s.runQueue.length]?.filter fun t => s.stateOf t = .ready

/-- `next_ready`, which falls back to the current task. -/
def nextReady (s : Sched) : Option TaskPtr := (scanReady s).or s.current

def idxOf (s : Sched) (t : TaskPtr) : ℕ :=
  if t ∈ s.runQueue then s.runQueue.idxOf t else 0

/-- The page tables in force once `dst` runs; a task without its own keeps the current ones. -/
def spaceOf (K : KernelLayout) (s : Sched) (dst : TaskPtr) : UInt64 :=
  if (s.taskTable dst).pml4 = 0 then s.cr3 else (s.taskTable dst).pml4 - K.hhdmOff

/-- The tail of `task_switch` before its jump: CR3 and RSP0 of the task switched to. -/
def loadSpace (K : KernelLayout) (s : Sched) (dst : TaskPtr) : Sched :=
  { s with cr3 := spaceOf K s dst, rsp0 := (s.taskTable dst).kstackTop }

/-- Continue at the saved address of `dst`: the statements of `sched_start` after its call of
`task_switch`, if that is where the task was suspended. -/
def resumeAt (K : KernelLayout) (s : Sched) (dst : TaskPtr) : Sched :=
  if (s.taskTable dst).regs.rip = K.schedStartResume then
    { s with current := s.runQueue.head?, currentIdx := 0 }
  else s

/-- `task_switch`: save the live registers and the return address in `src`, load the page tables
and the kernel stack of `dst`, and continue there. -/
def taskSwitch (K : KernelLayout) (cpu : TaskRegs) (ret : UInt64) (s : Sched)
    (src dst : TaskPtr) : Sched :=
  resumeAt K (loadSpace K (s.saveRegs src { cpu with rip := ret }) dst) dst

/-- The block that `sched_tick` and `sched_yield` share: make `next` the running task. -/
def switchTo (K : KernelLayout) (cpu : TaskRegs) (ret : UInt64) (s : Sched)
    (prev next : TaskPtr) : Sched :=
  let s := { s with currentIdx := idxOf s next, current := some next }
  let s := s.setState prev .ready
  let s := (s.setState next .running).setTicks next 10
  let s := if (s.taskTable next).regs.rsp = (s.taskTable next).kstackTop then
    s.setRip next K.taskEntryTrampoline else s
  taskSwitch K cpu ret s prev next

/-- The start of `sched_start`: the first task of the queue becomes the running one. -/
def startFirst (s : Sched) (first : TaskPtr) : Sched :=
  ({ s with current := some first, currentIdx := 0 } : Sched).setState first .running

/-- The block of `sched_start` that switches to the first user task. -/
def firstSwitch (K : KernelLayout) (cpu : TaskRegs) (s : Sched) (prev firstUser : TaskPtr) :
    Sched :=
  let s := { s with current := some firstUser, currentIdx := 1 }
  let s := s.setRip firstUser K.taskEntryTrampoline
  let s := (s.setState firstUser .running).setTicks firstUser 10
  let s := s.setState prev .ready
  taskSwitch K cpu K.schedStartResume s prev firstUser

def schedStart (K : KernelLayout) (cpu : TaskRegs) (s : Sched) : Sched :=
  match s.runQueue with
  | [] => s
  | [first] => startFirst s first
  | first :: firstUser :: _ =>
    let s := startFirst s first
    if s.stateOf firstUser = .ready then firstSwitch K cpu s first firstUser else s

/-- The decrement of `sched_tick`. -/
def countDown (s : Sched) (cur : TaskPtr) : Sched :=
  if (s.taskTable cur).ticks > 0 then s.setTicks cur ((s.taskTable cur).ticks - 1) else s

def schedTick (K : KernelLayout) (cpu : TaskRegs) (s : Sched) : Sched :=
  match s.current with
  | none => s
  | some cur =>
    let s := countDown s cur
    if (s.taskTable cur).ticks > 0 then s else
    match nextReady s with
    | none => s.setTicks cur 10
    | some next =>
      if next = cur then s.setTicks cur 10 else switchTo K cpu K.schedTickResume s cur next

def schedYield (K : KernelLayout) (cpu : TaskRegs) (s : Sched) : Sched :=
  match s.current with
  | none => s
  | some cur =>
    match nextReady s with
    | none => s
    | some next => if next = cur then s else switchTo K cpu K.schedYieldResume s cur next

def schedBlock (K : KernelLayout) (cpu : TaskRegs) (s : Sched) (task : Option TaskPtr) : Sched :=
  match task with
  | none => s
  | some t =>
    let s := s.setState t .blocked
    if s.current = some t then schedYield K cpu s else s

def schedUnblock (s : Sched) (task : Option TaskPtr) : Sched :=
  match task with
  | none => s
  | some t => if s.stateOf t = .blocked then s.setState t .ready else s

/-- The `SYS_EXIT` case of `syscall_dispatch`, with its check for a current task. -/
def sysExit (K : KernelLayout) (cpu : TaskRegs) (s : Sched) : Sched :=
  match s.current with
  | none => s
  | some cur => schedYield K cpu (s.setState cur .dead)

end StyxOS
