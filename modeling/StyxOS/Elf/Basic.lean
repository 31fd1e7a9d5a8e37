import StyxOS.Heap.Basic
import StyxOS.Task.Basic
import StyxOS.Vmm.Translate

/-! # Task creation and the ELF loader

`task_create_user` makes a PML4 whose upper half is the kernel's and maps a
stack page in the lower half; `elf_load` maps a fresh frame for every page that
a `PT_LOAD` segment touches, at the addresses that the file asks for. Both run
on the page tables of `vmm.c`; of the kernel heap only the pages it maps when it
grows are here.
-/

namespace StyxOS

open ByteMem

/-! ## The file -/

/-- What `elf_data` points to: `size` bytes of a file, and whatever lies behind them. -/
structure ElfImage where
  data : Mem
  size : ℕ

/-- `elf64_phdr_t`. -/
structure Phdr where
  type : ℕ
  offset : ℕ
  vaddr : ℕ
  filesz : ℕ
  memsz : ℕ
  deriving DecidableEq, Repr

namespace ElfImage

variable (img : ElfImage)

/-- The memory from `elf_data` on, where addresses wrap around. -/
def bytes : Mem := fun a => img.data (a % 2 ^ 64)

def magic : ℕ := loadLE img.bytes 0 4
def elfClass : ℕ := loadLE img.bytes 4 1
def machine : ℕ := loadLE img.bytes 18 2
def entry : ℕ := loadLE img.bytes 24 8
def phoff : ℕ := loadLE img.bytes 32 8
def phnum : ℕ := loadLE img.bytes 56 2

/-- `ph[i]`. -/
def phdr (i : ℕ) : Phdr :=
  let at_ := (img.phoff + 56 * i) % 2 ^ 64
  { type := loadLE img.bytes at_ 4
    offset := loadLE img.bytes (at_ + 8) 8
    vaddr := loadLE img.bytes (at_ + 16) 8
    filesz := loadLE img.bytes (at_ + 32) 8
    memsz := loadLE img.bytes (at_ + 40) 8 }

def phdrs : List Phdr := (List.range img.phnum).map img.phdr

end ElfImage

def elfMagic : ℕ := 0x464C457F

/-- `EM_X86_64` and `PT_LOAD`. -/
def emX8664 : ℕ := 62
def ptLoad : ℕ := 1

/-- `manifest_verify_elf`, which looks at the name and the length only. -/
def manifestVerifyElf (name : String) (len : ℕ) : Bool :=
  if len < 64 then false
  else if name = "untrusted" ∨ name = "malware" ∨ name = "bad_init" then false
  else true

namespace Phdr

variable (ph : Phdr)

/-- The segment ends in the file, as far as 64 bits tell. -/
def inFile (size : ℕ) : Bool := decide ((ph.offset + ph.filesz) % 2 ^ 64 ≤ size)

/-- The pages from `start_page` up to `end_page`. -/
def pages : List ℕ :=
  let startPage := ph.vaddr / 4096 * 4096
  let endPage := (ph.vaddr + ph.memsz + 4095) % 2 ^ 64 / 4096 * 4096
  (List.range ((endPage - startPage) / 4096)).map fun k => startPage + 4096 * k

/-- What the loader puts into the frame for a page: zeros, and the file bytes of the segment. -/
def pageBytes (img : ElfImage) (page : ℕ) : List UInt8 :=
  (List.range 4096).map fun j =>
    if ph.vaddr ≤ page + j ∧ page + j < (ph.vaddr + ph.filesz) % 2 ^ 64 then
      img.bytes (ph.offset + (page + j - ph.vaddr))
    else 0

end Phdr

/-! ## Loading -/

/-- `PTE_PRESENT | PTE_WRITABLE` and `PTE_PRESENT | PTE_WRITABLE | PTE_USER`. -/
def kernelFlags : ℕ := 3
def userFlags : ℕ := 7

section

variable {σ : Type} [FrameAllocator σ]

/-- A fresh frame with the given bytes, mapped for user code. Without a frame nothing is mapped;
without memory for tables the machine halts. -/
def mapFresh (s : Vmm σ) (virt : ℕ) (bytes : List UInt8) : Option (Bool × Vmm σ) :=
  match allocFrame s.pmm with
  | none => some (false, s)
  | some (phys, pmm) => do
    let s ← vmmMapPage { s with mem := store s.mem phys bytes, pmm } virt phys userFlags
    some (true, s)

def loadPages (img : ElfImage) (ph : Phdr) (s : Vmm σ) : List ℕ → Option (ℤ × Vmm σ)
  | [] => some (0, s)
  | page :: pages => do
    let (mapped, s) ← mapFresh s page (ph.pageBytes img page)
    if mapped then loadPages img ph s pages else some (-6, s)

def loadSegments (img : ElfImage) (s : Vmm σ) : List Phdr → Option (ℤ × Vmm σ)
  | [] => some (0, s)
  | ph :: phs =>
    if ph.type ≠ ptLoad then loadSegments img s phs
    else if ph.inFile img.size = false then some (-5, s)
    else do
      let (rc, s) ← loadPages img ph s ph.pages
      if rc = 0 then loadSegments img s phs else some (rc, s)

/-- `elf_load` into the address space of the PML4 at `pml4`. -/
def elfLoad (s : Vmm σ) (pml4 : ℕ) (img : ElfImage) : Option (ℤ × Vmm σ) :=
  if manifestVerifyElf "init" img.size = false then some (-6, s)
  else if img.size < 64 then some (-1, s)
  else if img.magic ≠ elfMagic then some (-2, s)
  else if img.elfClass ≠ 2 then some (-3, s)
  else if img.machine ≠ emX8664 then some (-4, s)
  else do
    let (rc, t) ← loadSegments img { s with currentPml4 := some pml4 } img.phdrs
    some (rc, { t with currentPml4 := s.currentPml4 })

end

/-! ## Tasks -/

/-- `TASK_USER_STACK_PAGE` and `sizeof(cap_table_t)`. -/
def taskUserStackPage : ℕ := 0x3FF000
def capTableBytes : ℕ := 1536

/-- The memory manager, the end of the mapped heap, and the PML4s of the user tasks. -/
structure Spaces (σ : Type) where
  vmm : Vmm σ
  heapEnd : ℕ
  tasks : List ℕ

/-- What a call of `task_create_user` finds: a free task slot, and heap blocks that are large
enough for the capability table and for the kernel stack. -/
structure CreateEnv where
  slotFree : Bool
  capFits : Bool
  stackFits : Bool

section

variable {σ : Type} [FrameAllocator σ]

/-- The loop of `grow_heap`: a frame for each page, or none when they run out. -/
def mapHeapPages (s : Vmm σ) : List ℕ → Option (Bool × Vmm σ)
  | [] => some (true, s)
  | page :: pages =>
    match allocFrame s.pmm with
    | none => some (false, s)
    | some (phys, pmm) => do
      let s ← vmmMapPage { s with pmm } page phys kernelFlags
      mapHeapPages s pages

/-- The pages of a heap that grows by one block for `size` bytes. -/
def grownPages (heapEnd size : ℕ) : List ℕ :=
  (List.range ((blkHdr + size + 4095) / 4096)).map fun i => heapEnd + 4096 * i

/-- What `kmalloc` does to the page tables: nothing when a free block fits, and otherwise what
`grow_heap` does. It fails when the heap cannot grow. -/
def kmallocPages (s : Spaces σ) (fits : Bool) (size : ℕ) : Option (Bool × Spaces σ) :=
  if fits then some (true, s)
  else
    let pages := grownPages s.heapEnd size
    if s.heapEnd + 4096 * pages.length > heapBaseAddr + heapMaxSize then some (false, s)
    else do
      let (grown, vmm) ← mapHeapPages s.vmm pages
      some (grown, { s with
        vmm := vmm
        heapEnd := if grown then s.heapEnd + 4096 * pages.length else s.heapEnd })

/-- A PML4 with an empty lower half and the upper half of another one. -/
def copyUpperHalf (mem : Mem) (new cur : ℕ) : Mem :=
  store mem new (List.replicate 2048 0 ++ load mem (cur + 2048) 2048)

/-- The rest of `task_create_user`: a PML4, and a stack page in its lower half. -/
def createSpace (s : Spaces σ) (cur : ℕ) : Option (Option ℕ × Spaces σ) :=
  match allocFrame s.vmm.pmm with
  | none => some (none, s)
  | some (pml4, pmm) =>
    let vmm := { s.vmm with mem := copyUpperHalf s.vmm.mem pml4 cur, pmm }
    match allocFrame vmm.pmm with
    | none => some (none, { s with vmm := { vmm with pmm := freeFrame pml4 vmm.pmm } })
    | some (ustack, pmm) => do
      let t ← vmmMapPage { vmm with pmm, currentPml4 := some pml4 } taskUserStackPage ustack
        userFlags
      some (some pml4,
        { s with vmm := { t with currentPml4 := vmm.currentPml4 }, tasks := pml4 :: s.tasks })

/-- `task_create_user`: the PML4 of the new task, if there is one. -/
def taskCreateUser (s : Spaces σ) (env : CreateEnv) : Option (Option ℕ × Spaces σ) :=
  if env.slotFree = false then some (none, s)
  else do
    let (capTable, s) ← kmallocPages s env.capFits capTableBytes
    if capTable = false then some (none, s)
    else
      let (stack, s) ← kmallocPages s env.stackFits taskKernelStackSize
      if stack = false then some (none, s)
      else
        match s.vmm.currentPml4 with
        | none => some (none, s)
        | some cur => createSpace s cur

end

end StyxOS
