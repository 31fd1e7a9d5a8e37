import StyxOS.Library.ByteMem
import StyxOS.Library.Radix
import StyxOS.Pmm.Soundness
import StyxOS.Snapshot.Paging

/-! # Page tables in physical memory

`vmm_map_page`, `vmm_unmap_page` and the four-level walk of the processor, over
physical memory as the kernel sees it through the direct map. Frames for new
tables come from an allocator that never gives out a frame it has given out
before; the physical memory manager is one.
-/

namespace StyxOS

open ByteMem

/-! ## Frame allocators -/

/-- An allocator of page frames below `2 ^ 52`: `pmm_alloc_frame`, where no result is the null
pointer, and `pmm_free_frame`. -/
class FrameAllocator (σ : Type) where
  allocFrame : σ → Option (ℕ × σ)
  freeFrame : ℕ → σ → σ
  /-- The allocator may still give the frame out. -/
  Avail : σ → ℕ → Prop
  avail_frame : ∀ {s f}, Avail s f → f % 4096 = 0 ∧ f ≠ 0 ∧ f < 2 ^ 52
  allocFrame_avail : ∀ {s f s'}, allocFrame s = some (f, s') →
    Avail s f ∧ ∀ g, Avail s' g → Avail s g ∧ g ≠ f
  freeFrame_avail : ∀ {s f g}, f % 4096 = 0 → f ≠ 0 → f < 2 ^ 52 →
    Avail (freeFrame f s) g → Avail s g ∨ g = f

export FrameAllocator (allocFrame freeFrame Avail)

/-- A list of frames to give out, first to last, each of them once. -/
structure FrameList where
  frames : List ℕ
  nodup : frames.Nodup
  small : ∀ f ∈ frames, f % 4096 = 0 ∧ f ≠ 0 ∧ f < 2 ^ 52

instance : FrameAllocator FrameList where
  allocFrame s := match s with
    | ⟨[], _, _⟩ => none
    | ⟨f :: fs, hn, hs⟩ => some (f, ⟨fs, (List.nodup_cons.mp hn).2, fun g hg => hs g (.tail f hg)⟩)
  freeFrame _ s := s
  Avail s f := f ∈ s.frames
  avail_frame {s f} h := s.small f h
  allocFrame_avail {s f s'} h := by
    obtain ⟨_ | ⟨g, gs⟩, hn, hs⟩ := s
    · cases h
    · obtain ⟨rfl, rfl⟩ := Prod.mk.inj (Option.some.inj h)
      refine ⟨.head gs, fun k hk => ⟨.tail g hk, ?_⟩⟩
      rintro rfl
      exact (List.nodup_cons.mp hn).1 hk
  freeFrame_avail _ _ _ h := .inl h

/-! ## Entries of tables -/

def pteWritable (e : ℕ) : Bool := e.testBit 1

def pml4Index (virt : ℕ) : Fin 512 := Fin.ofNat 512 (virt >>> 39)
def pdptIndex (virt : ℕ) : Fin 512 := Fin.ofNat 512 (virt >>> 30)
def pdIndex (virt : ℕ) : Fin 512 := Fin.ofNat 512 (virt >>> 21)
def ptIndex (virt : ℕ) : Fin 512 := Fin.ofNat 512 (virt >>> 12)

/-- `table[i]`, for a table by its physical address. -/
def entryAt (mem : Mem) (table : ℕ) (i : Fin 512) : ℕ := loadLE mem (table + 8 * i) 8

def setEntry (mem : Mem) (table : ℕ) (i : Fin 512) (e : ℕ) : Mem := storeLE mem (table + 8 * i) 8 e

/-- `memset` of a page to zero. -/
def zeroPage (mem : Mem) (phys : ℕ) : Mem := store mem phys (List.replicate 4096 0)

/-! ## The virtual memory manager -/

/-- Physical memory, the frame allocator, and the static variables of the manager.
`currentPml4` is the physical address behind the pointer of that name. -/
structure Vmm (σ : Type) where
  mem : Mem
  pmm : σ
  currentPml4 : Option ℕ
  hhdmOff : ℕ

/-- The flags of an entry on the way to a page: `PTE_PRESENT | PTE_WRITABLE | (flags &
PTE_USER)`. -/
def parentFlags (flags : ℕ) : ℕ := 3 ||| flags &&& 4

section

variable {σ : Type} [FrameAllocator σ]

/-- One level of `vmm_map_page`: the table behind an entry, which is allocated when it is not
there and opened to user code when the flags say so. Without memory the machine halts. -/
def nextTable (s : Vmm σ) (table : ℕ) (i : Fin 512) (flags : ℕ) : Option (ℕ × Vmm σ) :=
  if ptePresent (entryAt s.mem table i) = false then
    match allocFrame s.pmm with
    | none => none
    | some (phys, pmm) =>
      let mem := setEntry (zeroPage s.mem phys) table i (phys ||| parentFlags flags)
      some (pteAddr (entryAt mem table i), { s with mem, pmm })
  else
    let mem := setEntry s.mem table i (entryAt s.mem table i ||| flags &&& 4)
    some (pteAddr (entryAt mem table i), { s with mem })

def vmmMapPage (s : Vmm σ) (virt phys flags : ℕ) : Option (Vmm σ) :=
  match s.currentPml4 with
  | none => some s
  | some pml4 => do
    let (pdpt, s) ← nextTable s pml4 (pml4Index virt) flags
    let (pd, s) ← nextTable s pdpt (pdptIndex virt) flags
    let (pt, s) ← nextTable s pd (pdIndex virt) flags
    some { s with mem := setEntry s.mem pt (ptIndex virt) (pteAddr phys ||| flags) }

def vmmUnmapPage (s : Vmm σ) (virt : ℕ) : Vmm σ :=
  match s.currentPml4 with
  | none => s
  | some pml4 =>
    let e₄ := entryAt s.mem pml4 (pml4Index virt)
    if ptePresent e₄ = false then s
    else
      let e₃ := entryAt s.mem (pteAddr e₄) (pdptIndex virt)
      if ptePresent e₃ = false then s
      else
        let e₂ := entryAt s.mem (pteAddr e₃) (pdIndex virt)
        if ptePresent e₂ = false then s
        else { s with mem := setEntry s.mem (pteAddr e₂) (ptIndex virt) 0 }

/-- The page tables as `vmm_virt_to_phys` reads them, through the direct map. -/
def Vmm.pageTables (s : Vmm σ) : PageTables :=
  ⟨fun table i => entryAt s.mem (table - s.hhdmOff) (Fin.ofNat 512 i), s.hhdmOff⟩

def vmmVirtToPhys (s : Vmm σ) (virt : ℕ) : ℕ :=
  match s.currentPml4 with
  | none =>
    if s.hhdmOff ≤ virt ∧ virt < (s.hhdmOff + 0x1000000000) % 2 ^ 64 then virt - s.hhdmOff else 0
  | some pml4 => s.pageTables.virtToPhys (pml4 + s.hhdmOff) virt

end

/-! ## The walk of the processor -/

structure Translation where
  phys : ℕ
  writable : Bool
  user : Bool
  deriving DecidableEq, Repr

/-- The translation by the entries of a walk, the last first, of a page of `2 ^ bits` bytes. -/
def translate (virt bits : ℕ) : List ℕ → Option Translation
  | [] => none
  | e :: es => some
    { phys := pteAddr e / 2 ^ bits * 2 ^ bits + virt % 2 ^ bits
      writable := (e :: es).all pteWritable
      user := (e :: es).all pteUser }

/-- The walk of an address from the table in CR3. Bit 7 ends it early in the second and the third
level, and is reserved in the first. -/
def hwWalk (mem : Mem) (cr3 virt : ℕ) : Option Translation :=
  let e₄ := entryAt mem cr3 (pml4Index virt)
  if ptePresent e₄ = false || pteLarge e₄ then none
  else
    let e₃ := entryAt mem (pteAddr e₄) (pdptIndex virt)
    if ptePresent e₃ = false then none
    else if pteLarge e₃ then translate virt 30 [e₃, e₄]
    else
      let e₂ := entryAt mem (pteAddr e₃) (pdIndex virt)
      if ptePresent e₂ = false then none
      else if pteLarge e₂ then translate virt 21 [e₂, e₃, e₄]
      else
        let e₁ := entryAt mem (pteAddr e₂) (ptIndex virt)
        if ptePresent e₁ = false then none else translate virt 12 [e₁, e₂, e₃, e₄]

end StyxOS
