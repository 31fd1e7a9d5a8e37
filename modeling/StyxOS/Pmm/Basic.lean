import Mathlib.Data.List.Basic
import StyxOS.Library.Bitmap

/-! # The physical memory manager

One bit for each frame below the top of usable memory, set when the frame is
taken. `pmm_init` builds the bitmap from the memory map, inside the memory it
describes; `pmm_alloc_frame` takes the first clear bit and `pmm_free_frame`
clears one. Addresses are natural numbers below `2 ^ 64`; a panic halts, and is
a missing result.
-/

namespace StyxOS

/-- A `limine_memmap_entry`. -/
structure MemmapEntry where
  base : ℕ
  length : ℕ
  type : ℕ
  deriving DecidableEq, Repr

/-- `LIMINE_MEMMAP_USABLE`. -/
def memmapUsable : ℕ := 0

def MemmapEntry.usable (e : MemmapEntry) : Bool := e.type == memmapUsable

/-- The end of an entry, as it is computed. -/
def MemmapEntry.stop (e : MemmapEntry) : ℕ := (e.base + e.length) % 2 ^ 64

/-- The base of an entry rounded up to a page. -/
def MemmapEntry.alignedBase (e : MemmapEntry) : ℕ := (e.base + 4096 - 1) % 2 ^ 64 / 4096 * 4096

/-- The static variables of the manager. `bitmap` is the bytes at the pointer of that name. -/
structure Pmm where
  bitmap : Bitmap
  totalFrames : ℕ
  bitmapSize : ℕ
  bitmapPhysAddr : ℕ
  totalUsableMemory : ℕ
  freeMemory : ℕ

/-! ## Initialisation -/

/-- The usable entries, in the order of the map. -/
def usableEntries (memmap : List MemmapEntry) : List MemmapEntry := memmap.filter (·.usable)

def usableMemory (memmap : List MemmapEntry) : ℕ :=
  (usableEntries memmap).foldl (fun n e => (n + e.length) % 2 ^ 64) 0

/-- Pass 1: the highest end of a usable entry. -/
def maxUsableAddr (memmap : List MemmapEntry) : ℕ :=
  (usableEntries memmap).foldl (fun m e => if m < e.stop then e.stop else m) 0

/-- Pass 2: the frames to track, and the bytes of a bitmap for them. -/
def trackedFrames (memmap : List MemmapEntry) : ℕ := maxUsableAddr memmap / 4096

def bitmapBytes (memmap : List MemmapEntry) : ℕ := (trackedFrames memmap + 7) / 8

/-- Pass 3: an entry that the bitmap fits in. -/
def MemmapEntry.fits (e : MemmapEntry) (size : ℕ) : Bool :=
  decide (e.alignedBase ≤ e.stop) && decide (size ≤ e.stop - e.alignedBase)

def bitmapSpot (memmap : List MemmapEntry) (size : ℕ) : Option ℕ :=
  ((usableEntries memmap).find? (·.fits size)).map (·.alignedBase)

/-- The tracked frames from `start` up to `stop`. -/
def framesBetween (total start stop : ℕ) : List ℕ :=
  (List.range' start (stop - start)).filter (· < total)

def MemmapEntry.frames (e : MemmapEntry) (total : ℕ) : List ℕ :=
  framesBetween total ((e.base + 4096 - 1) % 2 ^ 64 / 4096) (e.stop / 4096)

def bitmapFrames (total phys size : ℕ) : List ℕ :=
  framesBetween total (phys / 4096) ((phys + size + 4096 - 1) % 2 ^ 64 / 4096)

/-- Pass 4: all frames taken, those of usable entries free, those of the bitmap and frame zero
taken. -/
def initialBitmap (memmap : List MemmapEntry) (total phys size : ℕ) : Bitmap :=
  let reserved : Bitmap := fun _ => 0xFF
  let freed := (usableEntries memmap).foldl (fun b e => (e.frames total).foldl Bitmap.clear b)
    reserved
  ((bitmapFrames total phys size).foldl Bitmap.set freed).set 0

/-- The state that `pmm_init` leaves when the bitmap is placed at `phys`. -/
def initialPmm (memmap : List MemmapEntry) (phys : ℕ) : Pmm :=
  let totalFrames := trackedFrames memmap
  let bitmapSize := bitmapBytes memmap
  let bitmap := initialBitmap memmap totalFrames phys bitmapSize
  let freeFrames := (List.range totalFrames).countP fun f => !bitmap.test f
  { bitmap, totalFrames, bitmapSize
    bitmapPhysAddr := phys
    totalUsableMemory := usableMemory memmap
    freeMemory := freeFrames * 4096 % 2 ^ 64 }

def pmmInit (memmap : List MemmapEntry) : Option Pmm :=
  if maxUsableAddr memmap = 0 then none
  else (bitmapSpot memmap (bitmapBytes memmap)).map (initialPmm memmap)

/-! ## Allocation and release -/

inductive ByteScan where
  | found (f : ℕ)
  | pastEnd
  | full
  deriving DecidableEq, Repr

namespace Pmm

variable (s : Pmm)

/-- The loop over the bits of byte `i`, from those in the list. -/
def scanBits (i : ℕ) : List ℕ → ByteScan
  | [] => .full
  | bit :: bits =>
    let f := i * 8 + bit
    if f ≥ s.totalFrames then .pastEnd
    else if s.bitmap.test f = false then .found f
    else scanBits i bits

/-- The loop over the bytes of the bitmap, from those in the list. -/
def scanBytes : List ℕ → Option ℕ
  | [] => none
  | i :: is =>
    if s.bitmap i ≠ 0xFF then
      match s.scanBits i (List.range 8) with
      | .found f => some f
      | .pastEnd => none
      | .full => scanBytes is
    else scanBytes is

end Pmm

/-- `pmm_alloc_frame`: the address of a frame, or zero when there is none. -/
def pmmAllocFrame (s : Pmm) : ℕ × Pmm :=
  match s.scanBytes (List.range s.bitmapSize) with
  | none => (0, s)
  | some f =>
    (f * 4096 % 2 ^ 64,
      { s with
        bitmap := s.bitmap.set f
        freeMemory := if s.freeMemory ≥ 4096 then s.freeMemory - 4096 else 0 })

def pmmFreeFrame (s : Pmm) (addr : ℕ) : Option Pmm :=
  if addr % 4096 ≠ 0 then none
  else
    let f := addr / 4096
    if f ≥ s.totalFrames then none
    else if s.bitmap.test f = false then none
    else some { s with
      bitmap := s.bitmap.clear f
      freeMemory := (s.freeMemory + 4096) % 2 ^ 64 }

def pmmGetFreeMemory (s : Pmm) : ℕ := s.freeMemory

/-! ## What the scan finds -/

namespace Pmm

variable {s : Pmm}

def freeFrames (s : Pmm) : Finset ℕ := s.bitmap.clearBits s.totalFrames

/-- The first free frame among those of the bits `n, n + 1, ..., 7` of byte `i`. -/
theorem scanBits_range' {i n k : ℕ} (hk : n + k = 8) :
    (∀ f, s.scanBits i (List.range' n k) = .found f → f ∈ s.freeFrames) ∧
    (s.scanBits i (List.range' n k) = .pastEnd → s.totalFrames < i * 8 + 8 ∧
      ∀ f ∈ s.freeFrames, f < i * 8 + n ∨ i * 8 + 8 ≤ f) ∧
    (s.scanBits i (List.range' n k) = .full →
      ∀ f ∈ s.freeFrames, f < i * 8 + n ∨ i * 8 + 8 ≤ f) := by
  induction k generalizing n with
  | zero =>
    refine ⟨fun f h => ?_, fun h => ?_, fun _ f _ => by omega⟩ <;> simp [scanBits] at h
  | succ k ih =>
    obtain ⟨hfound, hpast, hfull⟩ := ih (n := n + 1) (by omega)
    rw [List.range'_succ, scanBits]
    by_cases hge : i * 8 + n ≥ s.totalFrames
    · rw [if_pos hge]
      refine ⟨fun f h => by simp at h, fun _ => ⟨by omega, fun f hf => ?_⟩, fun h => by simp at h⟩
      have := (Bitmap.mem_clearBits.mp hf).1
      omega
    rw [if_neg hge]
    by_cases hclear : s.bitmap.test (i * 8 + n) = false
    · rw [if_pos hclear]
      refine ⟨fun f h => ?_, fun h => by simp at h, fun h => by simp at h⟩
      rw [← (ByteScan.found.inj h)]
      exact Bitmap.mem_clearBits.mpr ⟨by omega, hclear⟩
    · -- The bit is set, so the frames free from here on are free from the next bit on.
      have hnext : ∀ f ∈ s.freeFrames, f < i * 8 + (n + 1) ∨ i * 8 + 8 ≤ f →
          f < i * 8 + n ∨ i * 8 + 8 ≤ f := by
        intro f hf h
        have hne : f ≠ i * 8 + n := by
          rintro rfl
          exact hclear (Bitmap.mem_clearBits.mp hf).2
        omega
      rw [if_neg hclear]
      refine ⟨hfound, fun h => ⟨(hpast h).1, fun f hf => ?_⟩, fun h f hf => ?_⟩
      · exact hnext f hf ((hpast h).2 f hf)
      · exact hnext f hf (hfull h f hf)

theorem scanBytes_range' {i k : ℕ} (hk : s.totalFrames ≤ (i + k) * 8) :
    (∀ f, s.scanBytes (List.range' i k) = some f → f ∈ s.freeFrames) ∧
    (s.scanBytes (List.range' i k) = none → ∀ f ∈ s.freeFrames, f < i * 8) := by
  induction k generalizing i with
  | zero =>
    refine ⟨fun f h => by simp [scanBytes] at h, fun _ f hf => ?_⟩
    have := (Bitmap.mem_clearBits.mp hf).1
    omega
  | succ k ih =>
    obtain ⟨hsome, hnone⟩ := ih (i := i + 1) (by omega)
    obtain ⟨hfound, hpast, hfull⟩ := s.scanBits_range' (i := i) (n := 0) (k := 8) rfl
    rw [List.range'_succ, scanBytes, List.range_eq_range']
    by_cases hff : s.bitmap i ≠ 0xFF
    · rw [if_pos hff]
      cases hscan : s.scanBits i (List.range' 0 8) with
      | found f =>
        refine ⟨fun g h => ?_, fun h => by simp at h⟩
        rw [← Option.some.inj h]
        exact hfound f hscan
      | pastEnd =>
        refine ⟨fun g h => by simp at h, fun _ f hf => ?_⟩
        have hlt := (Bitmap.mem_clearBits.mp hf).1
        obtain ⟨hend, hout⟩ := hpast hscan
        have := hout f hf
        omega
      | full =>
        refine ⟨hsome, fun h f hf => ?_⟩
        have hlt := hnone h f hf
        have := hfull hscan f hf
        omega
    · rw [if_neg hff]
      refine ⟨hsome, fun h f hf => ?_⟩
      have hlt := hnone h f hf
      have hne : f / 8 ≠ i := by
        intro hi
        have ht := (Bitmap.mem_clearBits.mp hf).2
        rw [Bitmap.test_of_full (by rw [hi]; exact not_not.mp hff)] at ht
        cases ht
      omega

end Pmm

end StyxOS
