import StyxOS.Elf.Image
import StyxOS.Heap.Live
import StyxOS.Pmm.Pool

/-! # Launching a program

`task_create_user`, `elf_load`, `elf_load_from_vfs` and the attempt of `main` to
boot from USB, over the memory manager, the kernel heap and the task table
together, so that what they take can be followed. The heap grows by frames of the
allocator that the page tables and the programs get theirs from; a missing result
is a machine that has halted.
-/

namespace StyxOS

open ByteMem FrameAllocator

structure Resources (σ : Type) where
  vmm : Vmm σ
  heap : Heap

/-- The resources with the task table. -/
structure LaunchState (σ : Type) extends Resources σ where
  taskTable : TaskTable
  nextTaskId : UInt32

/-- A file that `vfs_open` finds: its size, and the bytes that `vfs_read` comes to read. -/
structure VfsFile where
  size : ℕ
  bytes : List UInt8
  size_lt : size < 2 ^ 32
  length_le : bytes.length ≤ size

section

variable {σ : Type} [FrameAllocator σ]

/-! ## The heap -/

/-- One page of `grow_heap`: what asking for it comes to, and the memory manager after it. -/
def growPage (v : Vmm σ) (virt : ℕ) : PageGrant × Vmm σ :=
  match allocFrame v.pmm with
  | none => (.noFrame, v)
  | some (phys, pmm) =>
    match vmmMapPage { v with pmm } virt phys kernelFlags with
    | none => (.noTable, v)
    | some v => (.frame fun i => v.mem (phys + i), v)

/-- The memory manager after the first pages of a growth from `a` on. -/
def grownVmm (v : Vmm σ) (a : ℕ) : ℕ → Vmm σ
  | 0 => v
  | i + 1 => (growPage (grownVmm v a i) (u64 (a + i * pageSize))).2

/-- What the pages of a growth from `a` on come to. -/
def heapGrants (v : Vmm σ) (a i : ℕ) : PageGrant :=
  (growPage (grownVmm v a i) (u64 (a + i * pageSize))).1

end

namespace Resources

variable {σ : Type} (s : Resources σ)

def store (a : ℕ) (bytes : List UInt8) : Resources σ :=
  { s with heap := { s.heap with mem := ByteMem.store s.heap.mem a bytes } }

def kfree (p : ℕ) : Resources σ := { s with heap := StyxOS.kfree s.heap p }

/-- The first bytes at an address of the heap, as a file. -/
def imageAt (a size : ℕ) : ElfImage := ⟨fun i => s.heap.mem (u64 (a + i)), size⟩

variable [FrameAllocator σ]

/-- `kmalloc`. A call that returns grows the heap once at most. -/
def kmalloc (size : ℕ) : Option (ℕ × Resources σ) :=
  let pages := fun _ => heapGrants s.vmm s.heap.heapEnd
  match StyxOS.kmalloc pages 2 s.heap size with
  | none => none
  | some (p, heap) =>
    if heap.halted then none
    else some (p,
      { heap := heap
        vmm := grownVmm s.vmm s.heap.heapEnd (kmallocMapped pages 2 0 s.heap size) })

/-! ## Loading -/

/-- `elf_load` for the task with the PML4 at `pml4`. -/
def elfLoad (pml4 : ℕ) (img : ElfImage) : Option (ℤ × Resources σ) :=
  (StyxOS.elfLoad s.vmm pml4 img).map fun x => (x.1, { s with vmm := x.2 })

/-- `elf_load_from_vfs`, for a file that is there or not, with what is at `entry_out` before and
after. -/
def elfLoadFromVfs (pml4 : ℕ) (entryOut : UInt64) :
    Option VfsFile → Option (ℤ × UInt64 × Resources σ)
  | none => some (-1, entryOut, s)
  | some file => do
    let (buf, s) ← s.kmalloc file.size
    if buf = 0 then some (-2, entryOut, s)
    else
      let s := s.store buf file.bytes
      let got := file.bytes.length
      if got < 64 then some (-3, entryOut, s.kfree buf)
      else do
        let (rc, s) ← s.elfLoad pml4 (s.imageAt buf got)
        let entryOut := if rc = 0 then UInt64.ofNat (s.imageAt buf got).entry else entryOut
        some (rc, entryOut, s.kfree buf)

end Resources

/-! ## Creating a task -/

namespace LaunchState

variable {σ : Type} (s : LaunchState σ)

def setTask (t : TaskPtr) (f : Task → Task) : LaunchState σ :=
  { s with taskTable := Function.update s.taskTable t (f (s.taskTable t)) }

def allocTaskSlot : Option (TaskPtr × LaunchState σ) :=
  match (List.finRange taskMaxTasks).find? fun t => (s.taskTable t).state = .unused with
  | none => none
  | some t => some (t, { s.setTask t fun task =>
      { task with id := s.nextTaskId, state := .ready, ticks := 10 } with
      nextTaskId := s.nextTaskId + 1 })

/-- The slot of a task that could not be created, with what is left of the resources. -/
def giveUp (t : TaskPtr) (r : Resources σ) : LaunchState σ :=
  { s.setTask t fun task => { task with state := .unused } with toResources := r }

def freeSlots : ℕ := (Finset.univ.filter fun t => (s.taskTable t).state = .unused).card

variable [FrameAllocator σ]

/-- The part of `task_create_user` that makes the address space, with the capability table and the
kernel stack at hand. -/
def createSpace (t : TaskPtr) (capTable kstack : ℕ) (entryPoint : UInt64) :
    Option (Option TaskPtr × LaunchState σ) :=
  match allocFrame s.vmm.pmm with
  | none => some (none, s.giveUp t ((s.toResources.kfree kstack).kfree capTable))
  | some (pml4, pmm) =>
    let mem := copyUpperHalf s.vmm.mem pml4 (s.vmm.currentPml4.getD 0)
    let s := { s.setTask t fun task =>
      { task with pml4 := UInt64.ofNat (pml4 + s.vmm.hhdmOff) } with
      vmm := { s.vmm with mem, pmm } }
    match allocFrame s.vmm.pmm with
    | none =>
      let r := { s.toResources with vmm := { s.vmm with pmm := freeFrame pml4 s.vmm.pmm } }
      some (none, s.giveUp t ((r.kfree kstack).kfree capTable))
    | some (ustack, pmm) => do
      let v ← vmmMapPage { s.vmm with pmm, currentPml4 := some pml4 } taskUserStackPage ustack
        userFlags
      let s := { s with vmm := { v with currentPml4 := s.vmm.currentPml4 } }
      some (some t, s.setTask t fun task => { task with
        regs := { task.regs with rip := entryPoint, rbx := entryPoint, rsp := task.kstackTop } })

/-- The part of `task_create_user` after the capability table. -/
def createStack (t : TaskPtr) (capTable : ℕ) (entryPoint : UInt64) :
    Option (Option TaskPtr × LaunchState σ) := do
  let (kstack, r) ← s.toResources.kmalloc taskKernelStackSize
  if kstack = 0 then some (none, s.giveUp t (r.kfree capTable))
  else
    let s := { s with toResources := r }.setTask t fun task =>
      { task with kstackTop := UInt64.ofNat (kstack + taskKernelStackSize) }
    s.createSpace t capTable kstack entryPoint

def taskCreateUser (entryPoint : UInt64) : Option (Option TaskPtr × LaunchState σ) :=
  match s.allocTaskSlot with
  | none => some (none, s)
  | some (t, s) => do
    let (capTable, r) ← s.toResources.kmalloc capTableBytes
    let s := { s with toResources := r }.setTask t fun task =>
      { task with capTable := UInt64.ofNat capTable }
    if capTable = 0 then some (none, s.giveUp t r)
    else
      let s := { s with toResources := r.store capTable (List.replicate capTableBytes 0) }
      s.createStack t capTable entryPoint

def pml4Of (t : TaskPtr) : ℕ := ((s.taskTable t).pml4 - UInt64.ofNat s.vmm.hhdmOff).toNat

/-- The attempt of `main` to load the program from USB: the task to run, or none where the embedded
image comes next. -/
def usbLaunch (file : Option VfsFile) : Option (Option TaskPtr × LaunchState σ) := do
  match ← s.taskCreateUser 0 with
  | (none, s) => some (none, s)
  | (some utask, s) =>
    let (rc, entry, r) ← s.toResources.elfLoadFromVfs (s.pml4Of utask) 0 file
    let s := { s with toResources := r }
    if rc = 0 then some (some utask, s.setTask utask fun task =>
      { task with regs := { task.regs with rip := entry, rbx := entry } })
    else some (none, s)

end LaunchState

end StyxOS
