import StyxOS.Library.ByteMem

/-! # The kernel heap

`heap.c`: a first-fit list of blocks in the bytes of the heap itself, each with
a header of 32 bytes. Addresses and sizes are numbers, reduced modulo 2 ^ 64
where the code computes them. The frames that the physical allocator hands out,
or fails to, are given with each call; loops that the code leaves unbounded run
on fuel, with no result when it is used up.
-/

namespace StyxOS

/-- Reduction of a computed `size_t` or address. -/
def u64 (n : ℕ) : ℕ := n % 2 ^ 64

def pageSize : ℕ := 4096
def heapAlign : ℕ := 16
def heapInitPages : ℕ := 1024
def heapInitSize : ℕ := heapInitPages * pageSize
def heapMagicFree : ℕ := 0xDEADF8EE
def heapMagicUsed : ℕ := 0xC0FFEE42
/-- `HEAP_BASE`. -/
def heapBaseAddr : ℕ := 0xffff800100000000
def heapMaxSize : ℕ := 128 * 1024 * 1024

/-- `sizeof(heap_block_t)`. -/
def blkHdr : ℕ := 32

/-- The fields of `heap_block_t`. -/
def fMagic : ByteMem.RecField := ⟨0, 4⟩
def fFree : ByteMem.RecField := ⟨4, 4⟩
def fSize : ByteMem.RecField := ⟨8, 8⟩
def fNext : ByteMem.RecField := ⟨16, 8⟩

/-- The state of `heap.c` and the memory it lives in. `halted` once the machine has stopped in one
of the `hlt` loops that running out of frames ends in. -/
structure Heap where
  mem : ByteMem.Mem
  head : ℕ
  base : ℕ
  heapEnd : ℕ
  ceiling : ℕ
  halted : Bool

/-- What asking for one page comes to: `pmm_alloc_frame` fails, or `vmm_map_page` halts for want of
a page table, or a frame with these bytes is mapped. -/
inductive PageGrant
  | noFrame
  | noTable
  | frame (bytes : ℕ → UInt8)

/-- The page at `a` now shows the bytes of a frame. -/
def mapPage (m : ByteMem.Mem) (a : ℕ) (bytes : ℕ → UInt8) : ByteMem.Mem :=
  fun x => if a ≤ x ∧ x < a + pageSize then bytes (x - a) else m x

inductive MapResult
  | mapped (m : ByteMem.Mem)
  | noFrame (m : ByteMem.Mem)
  | halted (m : ByteMem.Mem)

/-- The mapping loop of `grow_heap` and `heap_init`, from page `i` on. -/
def mapPages (pages : ℕ → PageGrant) (a : ℕ) : ℕ → ℕ → ByteMem.Mem → MapResult
  | _, 0, m => .mapped m
  | i, n + 1, m =>
    match pages i with
    | .noFrame => .noFrame m
    | .noTable => .halted m
    | .frame bytes => mapPages pages a (i + 1) n (mapPage m (u64 (a + i * pageSize)) bytes)

def writeHeader (m : ByteMem.Mem) (a magic free size next : ℕ) : ByteMem.Mem :=
  let m := fMagic.set m a magic
  let m := fFree.set m a free
  let m := fSize.set m a size
  fNext.set m a next

def alignUp (n : ℕ) : ℕ := u64 (n + (heapAlign - 1)) / heapAlign * heapAlign

/-- `grow_heap`: the address of the new free block, or zero. -/
def growHeap (h : Heap) (pages : ℕ → PageGrant) (bytesNeeded : ℕ) : ℕ × Heap :=
  let total := u64 (blkHdr + bytesNeeded)
  let nPages := u64 (total + pageSize - 1) / pageSize
  let nBytes := u64 (nPages * pageSize)
  if u64 (h.heapEnd + nBytes) > h.ceiling then (0, h) else
  match mapPages pages h.heapEnd 0 nPages h.mem with
  | .noFrame m => (0, { h with mem := m })
  | .halted m => (0, { h with mem := m, halted := true })
  | .mapped m =>
    (h.heapEnd, { h with
      mem := writeHeader m h.heapEnd heapMagicFree 1 (u64 (nBytes + 2 ^ 64 - blkHdr)) 0
      heapEnd := u64 (h.heapEnd + nBytes) })

def heapInit (m : ByteMem.Mem) (pages : ℕ → PageGrant) : Heap :=
  let h : Heap := ⟨m, 0, heapBaseAddr, heapBaseAddr, u64 (heapBaseAddr + heapMaxSize), false⟩
  match mapPages pages h.base 0 heapInitPages h.mem with
  | .noFrame m | .halted m => { h with mem := m, halted := true }
  | .mapped m =>
    { h with
      mem := writeHeader m h.base heapMagicFree 1 (heapInitSize - blkHdr) 0
      head := h.base
      heapEnd := u64 (h.base + heapInitSize) }

inductive Walk
  | found (blk : ℕ)
  | corrupt
  | exhausted (prev : ℕ)
  deriving DecidableEq, Repr

/-- The first-fit walk of `kmalloc` from block `blk`. -/
def firstFit (m : ByteMem.Mem) (allocSize : ℕ) : ℕ → ℕ → ℕ → Option Walk
  | 0, _, _ => none
  | fuel + 1, blk, prev =>
    if blk = 0 then some (.exhausted prev)
    else if fMagic.get m blk ≠ heapMagicFree ∧ fMagic.get m blk ≠ heapMagicUsed then some .corrupt
    else if fFree.get m blk ≠ 0 ∧ fSize.get m blk ≥ allocSize then some (.found blk)
    else firstFit m allocSize fuel (fNext.get m blk) blk

/-- The split of `kmalloc`, when the remainder is large enough for a block of its own. -/
def splitBlock (m : ByteMem.Mem) (blk allocSize : ℕ) : ByteMem.Mem :=
  let remainder := fSize.get m blk - allocSize
  if remainder > blkHdr + heapAlign then
    let split := u64 (blk + blkHdr + allocSize)
    let m := writeHeader m split heapMagicFree 1 (remainder - blkHdr) (fNext.get m blk)
    let m := fNext.set m blk split
    fSize.set m blk allocSize
  else m

def takeBlock (m : ByteMem.Mem) (blk allocSize : ℕ) : ByteMem.Mem :=
  let m := splitBlock m blk allocSize
  let m := fMagic.set m blk heapMagicUsed
  fFree.set m blk 0

/-- A bound on the blocks of the list: each takes up at least a header. -/
def walkFuel (h : Heap) : ℕ := (h.heapEnd - h.base) / blkHdr + 1

/-- Append the block that `grow_heap` returned. -/
def linkBlock (h : Heap) (prev blk : ℕ) : Heap :=
  if prev ≠ 0 then { h with mem := fNext.set h.mem prev blk } else { h with head := blk }

/-- `kmalloc`, which calls itself after growing the heap; `pages i` are the grants of the `i`-th
growth. -/
def kmallocFrom (pages : ℕ → ℕ → PageGrant) : ℕ → ℕ → Heap → ℕ → Option (ℕ × Heap)
  | 0, _, _, _ => none
  | fuel + 1, i, h, size =>
    if size = 0 then some (0, h) else
    match firstFit h.mem (alignUp size) (walkFuel h) h.head 0 with
    | none => none
    | some .corrupt => some (0, h)
    | some (.found blk) =>
      some (u64 (blk + blkHdr), { h with mem := takeBlock h.mem blk (alignUp size) })
    | some (.exhausted prev) =>
      let r := growHeap h (pages i) (alignUp size)
      if r.1 = 0 then some (0, r.2)
      else kmallocFrom pages fuel (i + 1) (linkBlock r.2 prev r.1) size

def kmalloc (pages : ℕ → ℕ → PageGrant) (fuel : ℕ) (h : Heap) (size : ℕ) : Option (ℕ × Heap) :=
  kmallocFrom pages fuel 0 h size

/-- The coalescing of `kfree` with the block that follows. -/
def coalesce (m : ByteMem.Mem) (blk : ℕ) : ByteMem.Mem :=
  let next := fNext.get m blk
  if next ≠ 0 ∧ fFree.get m next ≠ 0 ∧ fMagic.get m next = heapMagicFree then
    let m := fSize.set m blk (u64 (fSize.get m blk + (blkHdr + fSize.get m next)))
    fNext.set m blk (fNext.get m next)
  else m

def kfree (h : Heap) (ptr : ℕ) : Heap :=
  if ptr = 0 then h else
  let blk := u64 (ptr + 2 ^ 64 - blkHdr)
  if fMagic.get h.mem blk ≠ heapMagicUsed then h else
  let m := fMagic.set h.mem blk heapMagicFree
  let m := fFree.set m blk 1
  { h with mem := coalesce m blk }

def kcalloc (pages : ℕ → ℕ → PageGrant) (fuel : ℕ) (h : Heap) (n sz : ℕ) : Option (ℕ × Heap) :=
  if sz ≠ 0 ∧ n > (2 ^ 64 - 1) / sz then some (0, h) else
  (kmalloc pages fuel h (u64 (n * sz))).map fun r =>
    if r.1 = 0 then r
    else (r.1, { r.2 with mem := ByteMem.store r.2.mem r.1 (List.replicate (u64 (n * sz)) 0) })

end StyxOS
