import Mathlib.Data.Set.Card
import StyxOS.Library.Run
import StyxOS.Pmm.Basic

/-! # The physical memory manager hands out each frame once

The free frames are the clear bits, and `free_memory` counts them. After
`pmm_init` they are the frames of usable entries other than frame zero and
those of the bitmap, and every call moves one frame between the free ones and
those in the hands of callers.
-/

namespace StyxOS

/-- A memory map as the boot protocol promises it: usable entries are whole pages of the physical
address space, and share no byte with another entry. -/
structure MemoryMapOk (memmap : List MemmapEntry) : Prop where
  aligned : ∀ e ∈ memmap, e.usable = true → e.base % 4096 = 0 ∧ e.length % 4096 = 0
  bounded : ∀ e ∈ memmap, e.usable = true → e.base + e.length < 2 ^ 64
  apart : memmap.Pairwise fun d e => d.usable = true ∨ e.usable = true →
    d.base + d.length ≤ e.base ∨ e.base + e.length ≤ d.base

/-- Some usable entry is large enough for the bitmap. -/
def HasRoom (memmap : List MemmapEntry) : Prop :=
  ∃ e ∈ memmap, e.usable = true ∧ 0 < e.length ∧ bitmapBytes memmap ≤ e.length

/-- The frame at an address can be handed out: it lies in a usable entry, is not frame zero and
shares no byte with the bitmap. -/
structure Allocatable (memmap : List MemmapEntry) (s : Pmm) (addr : ℕ) : Prop where
  aligned : addr % 4096 = 0
  inside : ∃ e ∈ memmap, e.usable = true ∧ e.base ≤ addr ∧ addr + 4096 ≤ e.base + e.length
  ne_zero : addr ≠ 0
  apart : addr + 4096 ≤ s.bitmapPhysAddr ∨ s.bitmapPhysAddr + s.bitmapSize ≤ addr

/-! ## The state between calls -/

namespace Pmm

/-- The bitmap covers the tracked frames, and the counter counts the free ones. -/
structure Counts (s : Pmm) : Prop where
  bounded : s.totalFrames * 4096 < 2 ^ 64
  covered : s.totalFrames ≤ s.bitmapSize * 8
  zero_taken : 0 ∉ s.freeFrames
  counted : s.freeMemory = 4096 * s.freeFrames.card

variable {s : Pmm} {f : ℕ}

theorem card_freeFrames_le (s : Pmm) : s.freeFrames.card ≤ s.totalFrames := by
  have h : s.freeFrames ⊆ Finset.range s.totalFrames := Finset.filter_subset _ _
  simpa using Finset.card_le_card h

/-- A call of `pmm_alloc_frame` takes a free frame, or finds that there is none. -/
theorem Counts.pmmAllocFrame_cases (h : s.Counts) :
    (s.freeFrames = ∅ ∧ pmmAllocFrame s = (0, s)) ∨
      ∃ f ∈ s.freeFrames, (pmmAllocFrame s).1 = f * 4096 ∧
        (pmmAllocFrame s).2.freeFrames = s.freeFrames.erase f ∧
        (pmmAllocFrame s).2.totalFrames = s.totalFrames ∧ (pmmAllocFrame s).2.Counts := by
  obtain ⟨hsome, hnone⟩ := s.scanBytes_range' (i := 0) (k := s.bitmapSize)
    (by simpa using h.covered)
  rw [← List.range_eq_range'] at hsome hnone
  cases hscan : s.scanBytes (List.range s.bitmapSize) with
  | none =>
    left
    refine ⟨Finset.eq_empty_of_forall_notMem fun f hf => ?_, by rw [pmmAllocFrame, hscan]⟩
    have := hnone hscan f hf
    omega
  | some f =>
    right
    have hf : f ∈ s.freeFrames := hsome f hscan
    have hlt : f < s.totalFrames := (Bitmap.mem_clearBits.mp hf).1
    have hcard : 0 < s.freeFrames.card := Finset.card_pos.mpr ⟨f, hf⟩
    have hfree : (s.bitmap.set f).clearBits s.totalFrames = s.freeFrames.erase f :=
      Bitmap.clearBits_set
    have hsmall : f * 4096 < 2 ^ 64 := lt_of_le_of_lt (Nat.mul_le_mul_right _ hlt.le) h.bounded
    rw [pmmAllocFrame, hscan]
    dsimp only
    rw [Nat.mod_eq_of_lt hsmall]
    refine ⟨f, hf, rfl, hfree, rfl, h.bounded, h.covered, ?_, ?_⟩
    · rw [freeFrames, hfree]
      exact fun hz => h.zero_taken (Finset.mem_of_mem_erase hz)
    · have hcounted := h.counted
      rw [freeFrames, hfree, Finset.card_erase_of_mem hf]
      dsimp only
      rw [if_pos (by omega)]
      omega

theorem Counts.pmmFreeFrame_eq (h : s.Counts) (hlt : f < s.totalFrames) (hz : f ≠ 0)
    (hf : f ∉ s.freeFrames) :
    ∃ s', pmmFreeFrame s (f * 4096) = some s' ∧ s'.freeFrames = insert f s.freeFrames ∧
      s'.totalFrames = s.totalFrames ∧ s'.Counts := by
  have hmod : f * 4096 % 4096 = 0 := Nat.mul_mod_left f 4096
  have hdiv : f * 4096 / 4096 = f := Nat.mul_div_cancel f (by norm_num)
  have hset : ¬s.bitmap.test f = false := fun ht => hf (Bitmap.mem_clearBits.mpr ⟨hlt, ht⟩)
  have hfree : (s.bitmap.clear f).clearBits s.totalFrames = insert f s.freeFrames :=
    Bitmap.clearBits_clear hlt
  have hcounted := h.counted
  have hbound := h.bounded
  have hcard : (insert f s.freeFrames).card = s.freeFrames.card + 1 :=
    Finset.card_insert_of_notMem hf
  have hle : (insert f s.freeFrames).card ≤ s.totalFrames := by
    rw [← hfree]
    exact card_freeFrames_le { s with bitmap := s.bitmap.clear f }
  rw [pmmFreeFrame, if_neg (by omega), hdiv, if_neg (by omega), if_neg hset]
  refine ⟨_, rfl, hfree, rfl, hbound, h.covered, ?_, ?_⟩
  · rw [freeFrames, hfree, Finset.mem_insert, not_or]
    exact ⟨hz.symm, h.zero_taken⟩
  · rw [freeFrames, hfree, hcard]
    dsimp only
    omega

end Pmm

/-! ## The state after `pmm_init` -/

theorem mem_framesBetween {total start stop f : ℕ} :
    f ∈ framesBetween total start stop ↔ start ≤ f ∧ f < stop ∧ f < total := by
  simp only [framesBetween, List.mem_filter, List.mem_range', decide_eq_true_eq]
  constructor
  · rintro ⟨⟨i, hi, rfl⟩, hf⟩
    omega
  · rintro ⟨hs, he, hf⟩
    exact ⟨⟨f - start, by omega, by omega⟩, hf⟩

theorem mem_usableEntries {memmap : List MemmapEntry} {e : MemmapEntry} :
    e ∈ usableEntries memmap ↔ e ∈ memmap ∧ e.usable = true := List.mem_filter

theorem stop_le_maxUsableAddr {memmap : List MemmapEntry} {e : MemmapEntry}
    (he : e ∈ usableEntries memmap) : e.stop ≤ maxUsableAddr memmap := by
  have hmax : ∀ (l : List MemmapEntry) (m : ℕ),
      m ≤ l.foldl (fun m e => if m < e.stop then e.stop else m) m ∧
        ∀ e ∈ l, e.stop ≤ l.foldl (fun m e => if m < e.stop then e.stop else m) m := by
    intro l
    induction l with
    | nil => simp
    | cons d l ih =>
      intro m
      obtain ⟨hm, hl⟩ := ih (if m < d.stop then d.stop else m)
      rw [List.foldl_cons]
      refine ⟨le_trans (by split_ifs <;> omega) hm, fun e he => ?_⟩
      rcases List.mem_cons.mp he with rfl | he
      · exact le_trans (by split_ifs <;> omega) hm
      · exact hl e he
  exact (hmax _ 0).2 e he

theorem maxUsableAddr_lt (memmap : List MemmapEntry) : maxUsableAddr memmap < 2 ^ 64 := by
  have hlt : ∀ (l : List MemmapEntry) (m : ℕ), m < 2 ^ 64 →
      l.foldl (fun m e => if m < e.stop then e.stop else m) m < 2 ^ 64 := by
    intro l
    induction l with
    | nil => exact fun m hm => hm
    | cons d l ih =>
      intro m hm
      have hd : d.stop < 2 ^ 64 := Nat.mod_lt _ (by norm_num)
      exact ih _ (by dsimp only; split_ifs <;> assumption)
  exact hlt _ 0 (by norm_num)

theorem test_freed {entries : List MemmapEntry} {total f : ℕ} {b : Bitmap} :
    (entries.foldl (fun b e => (e.frames total).foldl Bitmap.clear b) b).test f =
      (b.test f && !decide (∃ e ∈ entries, f ∈ e.frames total)) := by
  induction entries generalizing b with
  | nil => simp
  | cons e entries ih =>
    rw [List.foldl_cons, ih, Bitmap.test_foldl_clear]
    simp [Bool.and_assoc]

theorem test_initialBitmap {memmap : List MemmapEntry} {total phys size f : ℕ} :
    (initialBitmap memmap total phys size).test f = false ↔
      (∃ e ∈ usableEntries memmap, f ∈ e.frames total) ∧ f ∉ bitmapFrames total phys size ∧
        f ≠ 0 := by
  have hff : Bitmap.test (fun _ => 0xFF) f = true := Bitmap.test_of_full rfl
  rw [initialBitmap, Bitmap.test_set, Bitmap.test_foldl_set, test_freed, hff]
  simp [and_assoc]

namespace MemoryMapOk

variable {memmap : List MemmapEntry} {e : MemmapEntry}

theorem stop_eq (h : MemoryMapOk memmap) (he : e ∈ usableEntries memmap) :
    e.stop = e.base + e.length := by
  obtain ⟨hm, hu⟩ := mem_usableEntries.mp he
  exact Nat.mod_eq_of_lt (h.bounded e hm hu)

theorem alignedBase_eq (h : MemoryMapOk memmap) (he : e ∈ usableEntries memmap) :
    (e.base + 4096 - 1) % 2 ^ 64 / 4096 = e.base / 4096 ∧ e.alignedBase = e.base := by
  obtain ⟨hm, hu⟩ := mem_usableEntries.mp he
  have ha := (h.aligned e hm hu).1
  have hb := h.bounded e hm hu
  have hdiv : (e.base + 4096 - 1) % 2 ^ 64 / 4096 = e.base / 4096 := by omega
  refine ⟨hdiv, ?_⟩
  rw [MemmapEntry.alignedBase, hdiv]
  omega

theorem mem_frames (h : MemoryMapOk memmap) (he : e ∈ usableEntries memmap) {f : ℕ} :
    f ∈ e.frames (trackedFrames memmap) ↔
      e.base ≤ f * 4096 ∧ f * 4096 + 4096 ≤ e.base + e.length := by
  have hstop := stop_le_maxUsableAddr he
  obtain ⟨hm, hu⟩ := mem_usableEntries.mp he
  obtain ⟨ha, hl⟩ := h.aligned e hm hu
  rw [MemmapEntry.frames, mem_framesBetween, (h.alignedBase_eq he).1, trackedFrames]
  rw [h.stop_eq he] at hstop ⊢
  omega

theorem mem_bitmapFrames {total phys size f : ℕ} (ha : phys % 4096 = 0)
    (hb : phys + size + 4096 ≤ 2 ^ 64) (hf : f < total) :
    f ∉ bitmapFrames total phys size ↔ f * 4096 + 4096 ≤ phys ∨ phys + size ≤ f * 4096 := by
  rw [bitmapFrames, mem_framesBetween]
  omega

theorem bitmapSpot_eq (h : MemoryMapOk memmap) {size : ℕ}
    (hbig : ∃ e ∈ memmap, e.usable = true ∧ size ≤ e.length) :
    ∃ e ∈ usableEntries memmap, bitmapSpot memmap size = some e.base ∧ size ≤ e.length := by
  have hfits : ∀ d ∈ usableEntries memmap, (d.fits size = true ↔ size ≤ d.length) := by
    intro d hd
    rw [MemmapEntry.fits, h.stop_eq hd, (h.alignedBase_eq hd).2, Bool.and_eq_true,
      decide_eq_true_eq, decide_eq_true_eq]
    omega
  obtain ⟨d, hd, hu, hsize⟩ := hbig
  have hdu : d ∈ usableEntries memmap := mem_usableEntries.mpr ⟨hd, hu⟩
  cases hfind : (usableEntries memmap).find? (·.fits size) with
  | none => exact absurd ((hfits d hdu).mpr hsize) (List.find?_eq_none.mp hfind d hdu)
  | some e =>
    have he : e ∈ usableEntries memmap := List.mem_of_find?_eq_some hfind
    have hroom : e.fits size = true := by simpa using List.find?_some hfind
    refine ⟨e, he, ?_, (hfits e he).mp hroom⟩
    rw [bitmapSpot, hfind, Option.map_some, (h.alignedBase_eq he).2]

theorem pmmInit_eq (h : MemoryMapOk memmap) (hroom : HasRoom memmap) :
    ∃ s, pmmInit memmap = some s ∧ s.Counts ∧
      ∀ f, f ∈ s.freeFrames ↔ Allocatable memmap s (f * 4096) := by
  obtain ⟨e, he, hu, hlen, hbig⟩ := hroom
  obtain ⟨spot, hspot, heq, hfit⟩ := h.bitmapSpot_eq ⟨e, he, hu, hbig⟩
  obtain ⟨hmem, husable⟩ := mem_usableEntries.mp hspot
  obtain ⟨halign, hwhole⟩ := h.aligned spot hmem husable
  have hbound := h.bounded spot hmem husable
  have htop := maxUsableAddr_lt memmap
  have hpos : maxUsableAddr memmap ≠ 0 := by
    have hle := stop_le_maxUsableAddr (mem_usableEntries.mpr ⟨he, hu⟩)
    rw [h.stop_eq (mem_usableEntries.mpr ⟨he, hu⟩)] at hle
    omega
  have htracked : trackedFrames memmap * 4096 < 2 ^ 64 := by
    rw [trackedFrames]
    omega
  have hfree : ∀ f, f ∈ (initialPmm memmap spot.base).freeFrames ↔
      Allocatable memmap (initialPmm memmap spot.base) (f * 4096) := by
    intro f
    rw [Pmm.freeFrames, Bitmap.mem_clearBits]
    dsimp only [initialPmm]
    rw [test_initialBitmap]
    constructor
    · rintro ⟨hlt, ⟨e, he, hf⟩, hout, hz⟩
      obtain ⟨hm, hu⟩ := mem_usableEntries.mp he
      have hin := (h.mem_frames he).mp hf
      have hapart := (mem_bitmapFrames halign (by omega) hlt).mp hout
      exact ⟨Nat.mul_mod_left f 4096, ⟨e, hm, hu, hin⟩, by omega, hapart⟩
    · rintro ⟨-, ⟨e, hm, hu, hin⟩, hz, hout⟩
      dsimp only at hout
      have he := mem_usableEntries.mpr ⟨hm, hu⟩
      have hf := (h.mem_frames he).mpr hin
      have hlt := (mem_framesBetween.mp hf).2.2
      exact ⟨hlt, ⟨e, he, hf⟩, (mem_bitmapFrames halign (by omega) hlt).mpr hout, by omega⟩
  refine ⟨initialPmm memmap spot.base, ?_, ⟨htracked, ?_, ?_, ?_⟩, hfree⟩
  · rw [pmmInit, if_neg hpos, heq, Option.map_some]
  · dsimp only [initialPmm]
    rw [bitmapBytes]
    omega
  · exact fun hz => ((hfree 0).mp hz).ne_zero rfl
  · have hle := (initialPmm memmap spot.base).card_freeFrames_le
    dsimp only [initialPmm, Pmm.freeFrames] at hle ⊢
    rw [Bitmap.countP_range]
    omega

end MemoryMapOk

/-! ## Runs of calls -/

/-- The calls made after `pmm_init`. -/
inductive PmmCall where
  | alloc
  | free (addr : ℕ)

/-- The manager, with the addresses that its callers hold. -/
structure PmmRun where
  pmm : Pmm
  held : Finset ℕ

namespace PmmRun

/-- One call. A panic halts the machine and leaves everything as it is. -/
def step (r : PmmRun) : PmmCall → PmmRun
  | .alloc =>
    let (addr, s) := pmmAllocFrame r.pmm
    if addr = 0 then ⟨s, r.held⟩ else ⟨s, insert addr r.held⟩
  | .free addr =>
    match pmmFreeFrame r.pmm addr with
    | none => r
    | some s => ⟨s, r.held.erase addr⟩

/-- The call frees a frame that is held, if it frees one. -/
def FreesHeld (r : PmmRun) : PmmCall → Prop
  | .alloc => True
  | .free addr => addr ∈ r.held

structure Splits (memmap : List MemmapEntry) (s₀ : Pmm) (r : PmmRun) : Prop where
  counts : r.pmm.Counts
  tracked : ∀ addr ∈ r.held, addr / 4096 < r.pmm.totalFrames
  held : ∀ addr ∈ r.held, Allocatable memmap s₀ addr
  free : ∀ f, f ∈ r.pmm.freeFrames ↔
    Allocatable memmap s₀ (f * 4096) ∧ f * 4096 ∉ r.held

variable {memmap : List MemmapEntry} {s₀ : Pmm} {r : PmmRun}

theorem step_alloc_of_none (h : pmmAllocFrame r.pmm = (0, r.pmm)) : r.step .alloc = r := by
  simp [step, h]

theorem step_alloc_of_ne (h : (pmmAllocFrame r.pmm).1 ≠ 0) :
    r.step .alloc = ⟨(pmmAllocFrame r.pmm).2, insert (pmmAllocFrame r.pmm).1 r.held⟩ := by
  simp [step, h]

theorem Splits.step (h : Splits memmap s₀ r) {call : PmmCall} (hfrees : r.FreesHeld call) :
    Splits memmap s₀ (r.step call) := by
  cases call with
  | alloc =>
    rcases h.counts.pmmAllocFrame_cases with ⟨-, hnone⟩ | ⟨f, hf, haddr, hfree, htotal, hcounts⟩
    · rwa [step_alloc_of_none hnone]
    · obtain ⟨halloc, hnot⟩ := (h.free f).mp hf
      have hlt : f < r.pmm.totalFrames := (Bitmap.mem_clearBits.mp hf).1
      rw [step_alloc_of_ne (by rw [haddr]; exact halloc.ne_zero), haddr]
      refine ⟨hcounts, ?_, ?_, fun g => ?_⟩
      · intro addr ha
        rw [htotal]
        rcases Finset.mem_insert.mp ha with rfl | ha
        · omega
        · exact h.tracked addr ha
      · intro addr ha
        rcases Finset.mem_insert.mp ha with rfl | ha
        · exact halloc
        · exact h.held addr ha
      · have hne : g ≠ f ↔ g * 4096 ≠ f * 4096 := by omega
        rw [hfree, Finset.mem_erase, h.free g, Finset.mem_insert, not_or, hne]
        exact and_left_comm
  | free addr =>
    have ha : addr ∈ r.held := hfrees
    have halloc := h.held addr ha
    obtain ⟨f, rfl⟩ := Nat.dvd_of_mod_eq_zero halloc.aligned
    rw [Nat.mul_comm] at ha halloc
    have hlt : f < r.pmm.totalFrames := by
      have := h.tracked _ ha
      omega
    have hnot : f ∉ r.pmm.freeFrames := fun hf => ((h.free f).mp hf).2 ha
    obtain ⟨s, hs, hfree, htotal, hcounts⟩ := h.counts.pmmFreeFrame_eq hlt
      (fun hz => halloc.ne_zero (by rw [hz])) hnot
    have heq : r.step (.free (4096 * f)) = ⟨s, r.held.erase (f * 4096)⟩ := by
      rw [Nat.mul_comm, PmmRun.step, hs]
    rw [heq]
    refine ⟨hcounts, fun a hm => ?_, fun a hm => h.held a (Finset.mem_of_mem_erase hm), fun g => ?_⟩
    · rw [htotal]
      exact h.tracked a (Finset.mem_of_mem_erase hm)
    · have hne : g = f ↔ g * 4096 = f * 4096 := by omega
      rw [hfree, Finset.mem_insert, h.free g, Finset.mem_erase, not_and, hne]
      constructor
      · rintro (hg | ⟨hg, hn⟩)
        · exact ⟨by rwa [hg], fun hx => absurd hg hx⟩
        · exact ⟨hg, fun _ => hn⟩
      · rintro ⟨hg, hn⟩
        by_cases hx : g * 4096 = f * 4096
        · exact .inl hx
        · exact .inr ⟨hg, hn hx⟩

theorem Splits.ncard_eq (h : Splits memmap s₀ r) :
    {addr | Allocatable memmap s₀ addr ∧ addr ∉ r.held}.ncard = r.pmm.freeFrames.card := by
  have himage : {addr | Allocatable memmap s₀ addr ∧ addr ∉ r.held} =
      ((r.pmm.freeFrames.image (· * 4096) : Finset ℕ) : Set ℕ) := by
    ext addr
    simp only [Set.mem_ofPred_eq, Finset.coe_image, Set.mem_image, Finset.mem_coe]
    constructor
    · rintro ⟨ha, hn⟩
      have hmul : addr / 4096 * 4096 = addr := by
        have := ha.aligned
        omega
      exact ⟨addr / 4096, (h.free _).mpr (by rw [hmul]; exact ⟨ha, hn⟩), hmul⟩
    · rintro ⟨f, hf, rfl⟩
      exact (h.free f).mp hf
  have hinj : Function.Injective fun f : ℕ => f * 4096 := fun f g hfg => by
    have : f * 4096 = g * 4096 := hfg
    omega
  rw [himage, Set.ncard_coe_finset, Finset.card_image_of_injective _ hinj]

end PmmRun

namespace PmmRun

variable {memmap : List MemmapEntry} {s₀ : Pmm} {r : PmmRun}

theorem Splits.alloc (h : Splits memmap s₀ r) :
    ((pmmAllocFrame r.pmm).1 ≠ 0 → Allocatable memmap s₀ (pmmAllocFrame r.pmm).1 ∧
      (pmmAllocFrame r.pmm).1 ∉ r.held) ∧
    ((pmmAllocFrame r.pmm).1 = 0 ↔ ∀ addr, Allocatable memmap s₀ addr → addr ∈ r.held) := by
  rcases h.counts.pmmAllocFrame_cases with ⟨hempty, hnone⟩ | ⟨f, hf, haddr, -⟩
  · rw [hnone]
    refine ⟨fun hz => absurd rfl hz, fun _ addr ha => ?_, fun _ => rfl⟩
    have hmul : addr / 4096 * 4096 = addr := by
      have := ha.aligned
      omega
    by_contra hn
    have hfree := (h.free (addr / 4096)).mpr (by rw [hmul]; exact ⟨ha, hn⟩)
    rw [hempty] at hfree
    cases hfree
  · obtain ⟨halloc, hn⟩ := (h.free f).mp hf
    rw [haddr]
    exact ⟨fun _ => ⟨halloc, hn⟩, fun hz => absurd hz halloc.ne_zero,
      fun hall => absurd (hall _ halloc) hn⟩

theorem Splits.isSome_pmmFreeFrame (h : Splits memmap s₀ r) {addr : ℕ} (ha : addr ∈ r.held) :
    (pmmFreeFrame r.pmm addr).isSome := by
  have halloc := h.held addr ha
  have hmul : addr / 4096 * 4096 = addr := by
    have := halloc.aligned
    omega
  have hz : addr / 4096 ≠ 0 := fun hz => halloc.ne_zero (by rw [← hmul, hz, Nat.zero_mul])
  have hn : addr / 4096 ∉ r.pmm.freeFrames :=
    fun hf => ((h.free _).mp hf).2 (by rwa [hmul])
  obtain ⟨s, hs, -⟩ := h.counts.pmmFreeFrame_eq (h.tracked addr ha) hz hn
  rw [hmul] at hs
  rw [hs, Option.isSome_some]

end PmmRun

/-- The manager hands out allocatable frames that nobody holds, and says that there is none only
when there is none; its counter counts them; and giving a held frame back does not panic. -/
theorem pmm_sound {memmap : List MemmapEntry} (h : MemoryMapOk memmap) (hroom : HasRoom memmap) :
    ∃ s₀, pmmInit memmap = some s₀ ∧ ∀ calls,
      StepSystem.AllSteps PmmRun.step PmmRun.FreesHeld ⟨s₀, ∅⟩ calls →
        let r := StepSystem.run PmmRun.step ⟨s₀, ∅⟩ calls
        ((pmmAllocFrame r.pmm).1 ≠ 0 → Allocatable memmap s₀ (pmmAllocFrame r.pmm).1 ∧
          (pmmAllocFrame r.pmm).1 ∉ r.held) ∧
        ((pmmAllocFrame r.pmm).1 = 0 ↔ ∀ addr, Allocatable memmap s₀ addr → addr ∈ r.held) ∧
        pmmGetFreeMemory r.pmm =
          4096 * {addr | Allocatable memmap s₀ addr ∧ addr ∉ r.held}.ncard ∧
        ∀ addr ∈ r.held, (pmmFreeFrame r.pmm addr).isSome := by
  obtain ⟨s₀, hinit, hcounts, hfree⟩ := h.pmmInit_eq hroom
  refine ⟨s₀, hinit, fun calls hfrees => ?_⟩
  have hstart : PmmRun.Splits memmap s₀ ⟨s₀, ∅⟩ :=
    ⟨hcounts, by simp, by simp, fun f => by simpa using hfree f⟩
  have hrun : PmmRun.Splits memmap s₀ (StepSystem.run PmmRun.step ⟨s₀, ∅⟩ calls) :=
    StepSystem.run_invariant PmmRun.step (fun _ _ hs hp => hs.step hp) hstart hfrees
  refine ⟨hrun.alloc.1, hrun.alloc.2, ?_, fun addr ha => hrun.isSome_pmmFreeFrame ha⟩
  rw [pmmGetFreeMemory, hrun.counts.counted, hrun.ncard_eq]

/-- A reserved first page, the bitmap in the page after it, and a hole between two usable
entries. -/
def sampleMap : List MemmapEntry := [⟨0, 4096, 1⟩, ⟨4096, 45056, 0⟩, ⟨57344, 8192, 0⟩]

theorem sampleMap_ok : MemoryMapOk sampleMap :=
  ⟨by decide, by decide, by decide⟩

theorem sampleMap_room : HasRoom sampleMap :=
  ⟨⟨4096, 45056, 0⟩, by decide, by decide, by decide, by decide⟩

theorem pmmInit_sampleMap : pmmInit sampleMap = some (initialPmm sampleMap 4096) := by
  have hspot : bitmapSpot sampleMap (bitmapBytes sampleMap) = some 4096 := by decide
  have hpos : maxUsableAddr sampleMap ≠ 0 := by decide
  rw [pmmInit, if_neg hpos, hspot, Option.map_some]

theorem pmm_sound_sample :
    MemoryMapOk sampleMap ∧ HasRoom sampleMap ∧ ∃ s₀, pmmInit sampleMap = some s₀ ∧
      let r := StepSystem.run PmmRun.step ⟨s₀, ∅⟩ [.alloc, .free 8192, .alloc]
      pmmGetFreeMemory r.pmm =
        4096 * {addr | Allocatable sampleMap s₀ addr ∧ addr ∉ r.held}.ncard := by
  obtain ⟨s₀, hinit, hsound⟩ := pmm_sound sampleMap_ok sampleMap_room
  refine ⟨sampleMap_ok, sampleMap_room, s₀, hinit, ?_⟩
  have hstart : s₀ = initialPmm sampleMap 4096 :=
    Option.some.inj (hinit.symm.trans pmmInit_sampleMap)
  have hfrees : StepSystem.AllSteps PmmRun.step PmmRun.FreesHeld ⟨s₀, ∅⟩
      [.alloc, .free 8192, .alloc] := by
    have hheld : 8192 ∈ (PmmRun.step ⟨initialPmm sampleMap 4096, ∅⟩ .alloc).held := by
      decide +kernel
    rw [hstart]
    exact ⟨trivial, hheld, trivial, trivial⟩
  exact (hsound _ hfrees).2.2.1

end StyxOS
