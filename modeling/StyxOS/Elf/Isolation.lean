import StyxOS.Elf.Spaces

/-! # Isolation of tasks

Runs of `task_create_user` and `elf_load` from the tables that the kernel boots
with. While what the loader maps stays in the lower half, no call changes a
translation of the upper half, apart from the pages that the heap grows by, none opens a page
of it to user code, and none puts one frame into two address spaces. A file that asks
for an address in the upper half gets it.
-/

namespace StyxOS

open ByteMem FrameAllocator

/-! ## What the loader maps -/

/-- The pages of the segments that the loader reaches: it stops at one that ends outside the
file. -/
def reachedPages (size : ℕ) : List Phdr → List ℕ
  | [] => []
  | ph :: phs =>
    if ph.type ≠ ptLoad then reachedPages size phs
    else if ph.inFile size = false then []
    else ph.pages ++ reachedPages size phs

namespace ElfImage

def accepted (img : ElfImage) : Prop :=
  64 ≤ img.size ∧ img.magic = elfMagic ∧ img.elfClass = 2 ∧ img.machine = emX8664

/-- What the loader maps of the file is in the lower half. -/
def StaysLow (img : ElfImage) : Prop :=
  img.accepted → ∀ page ∈ reachedPages img.size img.phdrs, InLowerHalf page

end ElfImage

section

variable {σ : Type} [FrameAllocator σ] {k r : ℕ} {roots : Set ℕ} {place : ℕ → Option Position}
  {s s' : Vmm σ} {img : ElfImage} {rc : ℤ}

/-- What a part of a call does to a set of spaces. -/
structure KeepsSpaces (k : ℕ) (roots : Set ℕ) (s s' : Vmm σ) : Prop where
  spaces : ∃ place', SpacesOk k roots place' s'.mem s'.pmm
  upper : UpperKept roots s.mem s'.mem
  currentPml4 : s'.currentPml4 = s.currentPml4

theorem KeepsSpaces.trans {s'' : Vmm σ} (h : KeepsSpaces k roots s s')
    (h' : KeepsSpaces k roots s' s'') : KeepsSpaces k roots s s'' :=
  ⟨h'.spaces, h.upper.trans h'.upper, h'.currentPml4.trans h.currentPml4⟩

theorem length_pageBytes (ph : Phdr) (img : ElfImage) (page : ℕ) :
    (ph.pageBytes img page).length = 4096 := by
  rw [Phdr.pageBytes, List.length_map, List.length_range]

theorem SpacesOk.loadPages {ph : Phdr} {pages : List ℕ} (h : SpacesOk k roots place s.mem s.pmm)
    (hr : r ∈ roots) (hk : r ≠ k) (hpml4 : s.currentPml4 = some (4096 * r))
    (hlow : ∀ page ∈ pages, InLowerHalf page) (hs : loadPages img ph s pages = some (rc, s')) :
    KeepsSpaces k roots s s' := by
  induction pages generalizing s place with
  | nil =>
    obtain ⟨-, rfl⟩ := Prod.mk.inj (Option.some.inj hs)
    exact ⟨⟨place, h⟩, fun _ _ _ _ _ => rfl, rfl⟩
  | cons page pages ih =>
    rw [StyxOS.loadPages, Option.bind_eq_bind] at hs
    obtain ⟨⟨mapped, t⟩, ht, hs⟩ := Option.bind_eq_some_iff.mp hs
    obtain ⟨hpage, hrest⟩ := List.forall_mem_cons.mp hlow
    obtain ⟨place', h', hup, hcur⟩ :=
      h.mapFresh hr hk hpml4 hpage (length_pageBytes ph img page).le ht
    have hstep : KeepsSpaces k roots s t := ⟨⟨place', h'⟩, hup, hcur⟩
    cases mapped with
    | false =>
      obtain ⟨-, rfl⟩ := Prod.mk.inj (Option.some.inj hs)
      exact hstep
    | true => exact hstep.trans (ih h' (hcur.trans hpml4) hrest hs)

theorem SpacesOk.loadSegments {phs : List Phdr} (h : SpacesOk k roots place s.mem s.pmm)
    (hr : r ∈ roots) (hk : r ≠ k) (hpml4 : s.currentPml4 = some (4096 * r))
    (hlow : ∀ page ∈ reachedPages img.size phs, InLowerHalf page)
    (hs : loadSegments img s phs = some (rc, s')) : KeepsSpaces k roots s s' := by
  induction phs generalizing s place with
  | nil =>
    obtain ⟨-, rfl⟩ := Prod.mk.inj (Option.some.inj hs)
    exact ⟨⟨place, h⟩, fun _ _ _ _ _ => rfl, rfl⟩
  | cons ph phs ih =>
    rw [StyxOS.loadSegments] at hs
    rw [reachedPages] at hlow
    by_cases htype : ph.type ≠ ptLoad
    · rw [if_pos htype] at hs hlow
      exact ih h hpml4 hlow hs
    rw [if_neg htype] at hs hlow
    by_cases hout : ph.inFile img.size = false
    · rw [if_pos hout] at hs
      obtain ⟨-, rfl⟩ := Prod.mk.inj (Option.some.inj hs)
      exact ⟨⟨place, h⟩, fun _ _ _ _ _ => rfl, rfl⟩
    rw [if_neg hout, Option.bind_eq_bind] at hs
    rw [if_neg hout] at hlow
    obtain ⟨⟨rc', t⟩, ht, hs⟩ := Option.bind_eq_some_iff.mp hs
    have hstep := h.loadPages hr hk hpml4
      (fun page hp => hlow page (List.mem_append_left _ hp)) ht
    obtain ⟨place', h'⟩ := hstep.spaces
    dsimp only at hs
    by_cases hrc : rc' = 0
    · rw [if_pos hrc] at hs
      exact hstep.trans (ih h' (hstep.currentPml4.trans hpml4)
        (fun page hp => hlow page (List.mem_append_right _ hp)) hs)
    · rw [if_neg hrc] at hs
      obtain ⟨-, rfl⟩ := Prod.mk.inj (Option.some.inj hs)
      exact hstep

/-- `elf_load` does nothing to a file whose header it refuses, and goes over the program headers of
another. -/
theorem elfLoad_cases {pml4 : ℕ} (hs : elfLoad s pml4 img = some (rc, s')) :
    rc ≠ 0 ∧ s' = s ∨ img.accepted ∧ ∃ t,
      loadSegments img { s with currentPml4 := some pml4 } img.phdrs =
      some (rc, t) ∧ s' = { t with currentPml4 := s.currentPml4 } := by
  have hsame : ∀ {x : ℤ}, x ≠ 0 → some (x, s) = some (rc, s') → rc ≠ 0 ∧ s' = s := by
    intro x hx h
    obtain ⟨rfl, rfl⟩ := Prod.mk.inj (Option.some.inj h)
    exact ⟨hx, rfl⟩
  unfold elfLoad at hs
  by_cases hman : manifestVerifyElf "init" img.size = false
  · rw [if_pos hman] at hs
    exact .inl (hsame (by norm_num) hs)
  rw [if_neg hman] at hs
  by_cases hsize : img.size < 64
  · rw [if_pos hsize] at hs
    exact .inl (hsame (by norm_num) hs)
  rw [if_neg hsize] at hs
  by_cases hmagic : img.magic ≠ elfMagic
  · rw [if_pos hmagic] at hs
    exact .inl (hsame (by norm_num) hs)
  rw [if_neg hmagic] at hs
  by_cases hclass : img.elfClass ≠ 2
  · rw [if_pos hclass] at hs
    exact .inl (hsame (by norm_num) hs)
  rw [if_neg hclass] at hs
  by_cases hmach : img.machine ≠ emX8664
  · rw [if_pos hmach] at hs
    exact .inl (hsame (by norm_num) hs)
  rw [if_neg hmach, Option.bind_eq_bind] at hs
  obtain ⟨⟨rc', t⟩, ht, hs⟩ := Option.bind_eq_some_iff.mp hs
  obtain ⟨rfl, rfl⟩ := Prod.mk.inj (Option.some.inj hs)
  exact .inr ⟨⟨Nat.not_lt.mp hsize, not_not.mp hmagic, not_not.mp hclass, not_not.mp hmach⟩,
    t, ht, rfl⟩

theorem SpacesOk.elfLoad (h : SpacesOk k roots place s.mem s.pmm) (hr : r ∈ roots) (hk : r ≠ k)
    (hlow : img.StaysLow) (hs : elfLoad s (4096 * r) img = some (rc, s')) :
    KeepsSpaces k roots s s' := by
  rcases elfLoad_cases hs with ⟨-, rfl⟩ | ⟨hacc, t, ht, rfl⟩
  · exact ⟨⟨place, h⟩, fun _ _ _ _ _ => rfl, rfl⟩
  · have hload := SpacesOk.loadSegments (s := { s with currentPml4 := some (4096 * r) }) h hr hk rfl
      (hlow hacc) ht
    exact ⟨hload.spaces, hload.upper, rfl⟩

/-- The loop of `grow_heap`. -/
theorem SpacesOk.mapHeapPages {pages : List ℕ} {b : Bool}
    (h : SpacesOk k roots place s.mem s.pmm) (hk : k ∈ roots)
    (hpml4 : s.currentPml4 = some (4096 * k)) (hs : mapHeapPages s pages = some (b, s')) :
    (∃ place', SpacesOk k roots place' s'.mem s'.pmm) ∧ s'.currentPml4 = s.currentPml4 ∧
      ∀ r ∈ roots, ∀ path, path.length = 4 → (∀ page ∈ pages, path ≠ pathOf page) →
        findPage s'.mem r path = findPage s.mem r path := by
  induction pages generalizing s place with
  | nil =>
    obtain ⟨-, rfl⟩ := Prod.mk.inj (Option.some.inj hs)
    exact ⟨⟨place, h⟩, rfl, fun _ _ _ _ _ => rfl⟩
  | cons page pages ih =>
    unfold StyxOS.mapHeapPages at hs
    cases halloc : allocFrame s.pmm with
    | none =>
      rw [halloc] at hs
      obtain ⟨-, rfl⟩ := Prod.mk.inj (Option.some.inj hs)
      exact ⟨⟨place, h⟩, rfl, fun _ _ _ _ _ => rfl⟩
    | some x =>
      obtain ⟨phys, pmm⟩ := x
      simp only [halloc, Option.bind_eq_bind, Option.bind_eq_some_iff] at hs
      obtain ⟨t, ht, hs⟩ := hs
      obtain ⟨place', h', hcur, -, hfind⟩ := h.mapKernel hk hpml4 halloc ht
      obtain ⟨hok, hcur', hfind'⟩ := ih h' (hcur.trans hpml4) hs
      refine ⟨hok, hcur'.trans hcur, fun r hr path hpath hne => ?_⟩
      obtain ⟨hpage, hrest⟩ := List.forall_mem_cons.mp hne
      exact (hfind' r hr path hpath hrest).trans (hfind r hr path hpath hpage)

end

/-! ## The state between calls -/

/-- The PML4s of all address spaces, the kernel's first. -/
def Spaces.pml4s {σ : Type} (s : Spaces σ) : List ℕ := s.vmm.currentPml4.toList ++ s.tasks

def Spaces.roots {σ : Type} (s : Spaces σ) : Set ℕ := {r | 4096 * r ∈ s.pml4s}

theorem mem_roots {σ : Type} {s : Spaces σ} {r : ℕ} : r ∈ s.roots ↔ 4096 * r ∈ s.pml4s := Iff.rfl

theorem Spaces.pml4s_eq {σ : Type} {s : Spaces σ} {k : ℕ}
    (h : s.vmm.currentPml4 = some (4096 * k)) : s.pml4s = 4096 * k :: s.tasks := by
  rw [pml4s, h]
  rfl

theorem Spaces.kernel_mem_roots {σ : Type} (s : Spaces σ) {k : ℕ}
    (hk : s.vmm.currentPml4 = some (4096 * k)) : k ∈ s.roots := by
  rw [mem_roots, Spaces.pml4s_eq hk]
  exact List.mem_cons_self

/-- The address is canonical, and in the half of the kernel. -/
def InUpperHalf (virt : ℕ) : Prop := 2 ^ 64 - 2 ^ 47 ≤ virt ∧ virt < 2 ^ 64

def PastHeap (heapEnd virt : ℕ) : Prop := heapEnd ≤ virt ∧ virt < heapBaseAddr + heapMaxSize

theorem upper_pathOf {virt : ℕ} (h : InUpperHalf virt) :
    ∀ i ∈ (pathOf virt).head?, 256 ≤ i.val := by
  intro i hi
  obtain rfl : pml4Index virt = i := by simpa [pathOf] using hi
  unfold InUpperHalf at h
  simp only [pml4Index, Fin.val_ofNat, Nat.shiftRight_eq_div_pow]
  omega

/-- What a call changes in the upper half: nothing, or what lies past the end of the heap when the
heap grows. -/
def UpperKeptBut {σ : Type} (grows : Prop) (s s' : Spaces σ) : Prop :=
  ∀ pml4 ∈ s.pml4s, ∀ virt, InUpperHalf virt → (grows → ¬PastHeap s.heapEnd virt) →
    hwWalk s'.vmm.mem pml4 virt = hwWalk s.vmm.mem pml4 virt

theorem UpperKeptBut.trans {σ : Type} {s s' s'' : Spaces σ} {g g' : Prop}
    (h : UpperKeptBut g s s') (h' : UpperKeptBut g' s' s'') (hsub : ∀ p ∈ s.pml4s, p ∈ s'.pml4s)
    (hend : s.heapEnd ≤ s'.heapEnd) : UpperKeptBut (g ∨ g') s s'' := by
  intro pml4 hp virt hup hg
  rw [h' pml4 (hsub pml4 hp) virt hup ?_]
  · exact h pml4 hp virt hup fun hgg => hg (.inl hgg)
  · intro hgg hpast
    exact hg (.inr hgg) ⟨hend.trans hpast.1, hpast.2⟩

section

variable {σ : Type} [FrameAllocator σ]

/-- The invariant of the runs: the spaces are good, and have PML4s of their own; the heap ends at a
page of the upper half. -/
structure Isolated (s : Spaces σ) : Prop where
  spaces : ∃ k place, s.vmm.currentPml4 = some (4096 * k) ∧
    SpacesOk k s.roots place s.vmm.mem s.vmm.pmm
  frames : ∀ t ∈ s.tasks, t % 4096 = 0
  nodup : s.pml4s.Nodup
  heap : s.heapEnd % 4096 = 0 ∧ heapBaseAddr ≤ s.heapEnd

variable {s s' : Spaces σ} {k : ℕ} {place : ℕ → Option Position}

theorem Isolated.aligned (h : Isolated s) {pml4 : ℕ} (hp : pml4 ∈ s.pml4s) :
    ∃ r, pml4 = 4096 * r ∧ r ∈ s.roots := by
  obtain ⟨k, place, hcur, -⟩ := h.spaces
  rw [Spaces.pml4s_eq hcur] at hp
  rcases List.mem_cons.mp hp with rfl | hp
  · exact ⟨k, rfl, s.kernel_mem_roots hcur⟩
  · obtain ⟨r, rfl⟩ := Nat.dvd_of_mod_eq_zero (h.frames _ hp)
    exact ⟨r, rfl, by rw [mem_roots, Spaces.pml4s_eq hcur]; exact List.mem_cons_of_mem _ hp⟩

/-- No page of the upper half is open to user code. -/
def Spaces.UpperClosed (s : Spaces σ) : Prop :=
  ∀ pml4 ∈ s.pml4s, ∀ virt t, InUpperHalf virt → hwWalk s.vmm.mem pml4 virt = some t →
    t.user = false

/-- User code reaches no frame in two spaces. -/
def Spaces.FramesApart (s : Spaces σ) : Prop :=
  ∀ pml4 ∈ s.pml4s, ∀ pml4' ∈ s.pml4s, pml4 ≠ pml4' → ∀ virt virt' t t',
    hwWalk s.vmm.mem pml4 virt = some t → hwWalk s.vmm.mem pml4' virt' = some t' →
      t.user = true → t'.user = true → t.phys / 4096 ≠ t'.phys / 4096

theorem Isolated.upperClosed (h : Isolated s) : s.UpperClosed := by
  intro pml4 hp virt t hup hwalk
  obtain ⟨k, place, hcur, hok⟩ := h.spaces
  obtain ⟨r, rfl, hr⟩ := h.aligned hp
  rw [hok.tables.hwWalk_eq hr] at hwalk
  obtain ⟨e, he, rfl⟩ := Option.map_eq_some_iff.mp hwalk
  cases hu : pteUser e with
  | false => rfl
  | true =>
    obtain ⟨-, i, hi, hlt⟩ := hok.closed r hr (pathOf virt) e rfl he hu
    exact absurd hlt (Nat.not_lt.mpr (upper_pathOf hup i hi))

theorem Isolated.framesApart (h : Isolated s) : s.FramesApart := by
  intro pml4 hp pml4' hp' hne virt virt' t t' hwalk hwalk' hu hu'
  obtain ⟨k, place, hcur, hok⟩ := h.spaces
  obtain ⟨r, rfl, hr⟩ := h.aligned hp
  obtain ⟨r', rfl, hr'⟩ := h.aligned hp'
  rw [hok.tables.hwWalk_eq hr] at hwalk
  rw [hok.tables.hwWalk_eq hr'] at hwalk'
  obtain ⟨e, he, rfl⟩ := Option.map_eq_some_iff.mp hwalk
  obtain ⟨e', he', rfl⟩ := Option.map_eq_some_iff.mp hwalk'
  have hne' : r ≠ r' := fun hc => hne (by rw [hc])
  have hap := hok.apart r hr r' hr' hne' (pathOf virt) (pathOf virt') e e' rfl rfl he he' hu hu'
  have hm := pteAddr_mod e
  have hm' := pteAddr_mod e'
  dsimp only
  omega

/-! ## The calls -/

/-- Walks that find the same entry translate alike. -/
theorem TablesOk.hwWalk_congr {roots roots' : Set ℕ} {place' : ℕ → Option Position}
    {mem mem' : Mem} {pmm pmm' : σ} {r r' virt : ℕ} (h : TablesOk roots place mem pmm)
    (h' : TablesOk roots' place' mem' pmm') (hr : r ∈ roots) (hr' : r' ∈ roots')
    (hfind : findPage mem' r' (pathOf virt) = findPage mem r (pathOf virt)) :
    hwWalk mem' (4096 * r') virt = hwWalk mem (4096 * r) virt := by
  have hwalk : ∀ {roots place mem} {pmm : σ} {r}, TablesOk roots place mem pmm → r ∈ roots →
      hwWalk mem (4096 * r) virt = (findPage mem r (pathOf virt)).map fun e =>
        ⟨pteAddr e + virt % 4096, pteWritable e, pteUser e⟩ := fun {_ _ mem pmm _} h hr =>
    TablesOk.hwWalk_eq (s := ⟨mem, pmm, none, 0⟩) h hr
  rw [hwalk h hr, hwalk h' hr', hfind]

theorem pastHeap_of_mem_grownPages {heapEnd size page : ℕ}
    (hroom : heapEnd + 4096 * (grownPages heapEnd size).length ≤ heapBaseAddr + heapMaxSize)
    (hp : page ∈ grownPages heapEnd size) :
    heapEnd ≤ page ∧ page + 4096 ≤ heapBaseAddr + heapMaxSize ∧ page % 4096 = heapEnd % 4096 := by
  unfold grownPages at hroom hp
  obtain ⟨i, hi, rfl⟩ := List.mem_map.mp hp
  rw [List.length_map, List.length_range] at hroom
  have := List.mem_range.mp hi
  omega

/-- A change within the spaces keeps the invariant. -/
theorem Isolated.of_spaces (h : Isolated s) (s' : Spaces σ)
    (hcur : s.vmm.currentPml4 = some (4096 * k))
    (htasks : s'.tasks = s.tasks) (hcur' : s'.vmm.currentPml4 = s.vmm.currentPml4)
    (hok : ∃ place', SpacesOk k s.roots place' s'.vmm.mem s'.vmm.pmm)
    (hheap : s'.heapEnd % 4096 = 0 ∧ heapBaseAddr ≤ s'.heapEnd) :
    Isolated s' ∧ s'.pml4s = s.pml4s := by
  obtain ⟨place', hok⟩ := hok
  have hpml4s : s'.pml4s = s.pml4s := by rw [Spaces.pml4s, Spaces.pml4s, htasks, hcur']
  have hroots : s'.roots = s.roots := by rw [Spaces.roots, Spaces.roots, hpml4s]
  refine ⟨⟨⟨k, place', hcur'.trans hcur, by rw [hroots]; exact hok⟩, ?_, ?_, hheap⟩, hpml4s⟩
  · rw [htasks]
    exact h.frames
  · rw [hpml4s]
    exact h.nodup

/-- What the walks of the upper half find decides what it translates to. -/
theorem Isolated.upperKeptBut {g : Prop} (h : Isolated s) (h' : Isolated s')
    (hsub : ∀ p ∈ s.pml4s, p ∈ s'.pml4s)
    (hfind : ∀ r ∈ s.roots, ∀ virt, InUpperHalf virt → (g → ¬PastHeap s.heapEnd virt) →
      findPage s'.vmm.mem r (pathOf virt) = findPage s.vmm.mem r (pathOf virt)) :
    UpperKeptBut g s s' := by
  intro pml4 hp virt hup hg
  obtain ⟨r, rfl, hr⟩ := h.aligned hp
  obtain ⟨k, place, -, hok⟩ := h.spaces
  obtain ⟨k', place', -, hok'⟩ := h'.spaces
  exact hok.tables.hwWalk_congr hok'.tables hr (hsub _ hp) (hfind r hr virt hup hg)

theorem Isolated.kmallocPages (h : Isolated s) {fits b : Bool} {size : ℕ}
    (hs : kmallocPages s fits size = some (b, s')) :
    Isolated s' ∧ s'.pml4s = s.pml4s ∧ s'.vmm.currentPml4 = s.vmm.currentPml4 ∧
      s.heapEnd ≤ s'.heapEnd ∧ UpperKeptBut (fits = false) s s' := by
  have hself : Isolated s ∧ s.pml4s = s.pml4s ∧ s.vmm.currentPml4 = s.vmm.currentPml4 ∧
      s.heapEnd ≤ s.heapEnd ∧ UpperKeptBut (fits = false) s s :=
    ⟨h, rfl, rfl, le_rfl, fun _ _ _ _ _ => rfl⟩
  unfold StyxOS.kmallocPages at hs
  cases fits with
  | true =>
    obtain ⟨-, rfl⟩ := Prod.mk.inj (Option.some.inj hs)
    exact hself
  | false =>
    rw [if_neg Bool.false_ne_true] at hs
    dsimp only at hs
    by_cases hfull : s.heapEnd + 4096 * (grownPages s.heapEnd size).length >
        heapBaseAddr + heapMaxSize
    · rw [if_pos hfull] at hs
      obtain ⟨-, rfl⟩ := Prod.mk.inj (Option.some.inj hs)
      exact hself
    · rw [if_neg hfull, Option.bind_eq_bind] at hs
      obtain ⟨⟨grown, vmm⟩, hmap, hs⟩ := Option.bind_eq_some_iff.mp hs
      obtain ⟨-, rfl⟩ := Prod.mk.inj (Option.some.inj hs)
      obtain ⟨k, place, hcur, hok⟩ := h.spaces
      have hk := s.kernel_mem_roots hcur
      obtain ⟨hok', hcur', hfind⟩ := hok.mapHeapPages hk hcur hmap
      have hroom := Nat.not_lt.mp hfull
      have hend : ∀ c : Bool, s.heapEnd ≤ (if c then
          s.heapEnd + 4096 * (grownPages s.heapEnd size).length else s.heapEnd) ∧
          (if c then s.heapEnd + 4096 * (grownPages s.heapEnd size).length
            else s.heapEnd) % 4096 = 0 := by
        have := h.heap.1
        intro c
        split_ifs <;> omega
      obtain ⟨hiso, hpml4s⟩ := h.of_spaces { s with
        vmm := vmm
        heapEnd := if grown then s.heapEnd + 4096 * (grownPages s.heapEnd size).length
          else s.heapEnd } hcur rfl hcur' hok'
        ⟨(hend grown).2, h.heap.2.trans (hend grown).1⟩
      refine ⟨hiso, hpml4s, hcur', (hend grown).1, h.upperKeptBut hiso ?_ ?_⟩
      · intro p hp
        rw [hpml4s]
        exact hp
      · intro r hr virt hup hout
        refine hfind r hr (pathOf virt) rfl fun page hp hpath => ?_
        obtain ⟨hge, hle, hmod⟩ := pastHeap_of_mem_grownPages hroom hp
        have hheap := h.heap
        have hpage := pathOf_eq_iff.mp hpath
        have hnot := hout rfl
        unfold pageOf at hpage
        unfold InUpperHalf at hup
        unfold PastHeap at hnot
        have hceil : heapBaseAddr + heapMaxSize = 0xffff800108000000 := by decide
        have hbase : heapBaseAddr = 0xffff800100000000 := rfl
        omega

/-- Every space that is not there before has the upper half of the kernel's. -/
def NewShareUpper {σ : Type} (s s' : Spaces σ) : Prop :=
  ∀ kernel, s.vmm.currentPml4 = some kernel → ∀ pml4 ∈ s'.pml4s, pml4 ∉ s.pml4s →
    ∀ virt, InUpperHalf virt →
      hwWalk s'.vmm.mem pml4 virt = hwWalk s'.vmm.mem kernel virt

/-- What a call does to the state between calls. -/
structure CallKeeps (grows : Prop) (s s' : Spaces σ) : Prop where
  isolated : Isolated s'
  upper : UpperKeptBut grows s s'
  shared : NewShareUpper s s'
  sub : ∀ p ∈ s.pml4s, p ∈ s'.pml4s
  currentPml4 : s'.vmm.currentPml4 = s.vmm.currentPml4

theorem Isolated.keeps_self (h : Isolated s) (g : Prop) : CallKeeps g s s :=
  ⟨h, fun _ _ _ _ _ => rfl, fun _ _ _ hp hn => absurd hp hn, fun _ hp => hp, rfl⟩

theorem inLowerHalf_stackPage : InLowerHalf taskUserStackPage := by
  unfold InLowerHalf
  decide

/-- A copied PML4 that has a page for the stack is the space of another task. -/
theorem Isolated.addTask (h : Isolated s) {k m : ℕ} {pmm : σ} {t : Vmm σ}
    (hk : s.vmm.currentPml4 = some (4096 * k))
    (hok : SpacesOk k s.roots place s.vmm.mem s.vmm.pmm)
    (halloc : allocFrame s.vmm.pmm = some (4096 * m, pmm))
    (hmap : mapFresh { s.vmm with
        mem := copyUpperHalf s.vmm.mem (4096 * m) (4096 * k)
        pmm := pmm
        currentPml4 := some (4096 * m) } taskUserStackPage [] = some (true, t)) :
    CallKeeps False s { s with
      vmm := { t with currentPml4 := s.vmm.currentPml4 }
      tasks := 4096 * m :: s.tasks } := by
  have hkr := s.kernel_mem_roots hk
  obtain ⟨hok₁, hroots, hup₁, hnew₁⟩ := hok.addRoot hkr halloc
  have hmk : m ≠ k := fun hc => hroots (hc ▸ hkr)
  obtain ⟨place', hok₂, hup₂, -⟩ :=
    hok₁.mapFresh (Set.mem_insert m _) hmk rfl inLowerHalf_stackPage (by simp) hmap
  dsimp only at hup₂
  generalize hs' : ({ s with
      vmm := { t with currentPml4 := s.vmm.currentPml4 }
      tasks := 4096 * m :: s.tasks } : Spaces σ) = s'
  have hmem : s'.vmm.mem = t.mem := by rw [← hs']
  have hpmm : s'.vmm.pmm = t.pmm := by rw [← hs']
  have hcur' : s'.vmm.currentPml4 = s.vmm.currentPml4 := by rw [← hs']
  have htasks : s'.tasks = 4096 * m :: s.tasks := by rw [← hs']
  have hheap : s'.heapEnd = s.heapEnd := by rw [← hs']
  have hnot : 4096 * m ∉ s.pml4s := hroots
  have hsub : ∀ p, p ∈ s'.pml4s ↔ p = 4096 * m ∨ p ∈ s.pml4s := by
    intro p
    simp only [Spaces.pml4s, hcur', htasks, List.mem_append, List.mem_cons, or_left_comm]
  have hroots' : s'.roots = insert m s.roots := by
    ext r
    rw [mem_roots, hsub, Set.mem_insert_iff, mem_roots]
    exact or_congr_left (Nat.mul_right_inj (by norm_num))
  have hiso : Isolated s' := by
    refine ⟨⟨k, place', hcur'.trans hk, ?_⟩, ?_, ?_, ?_⟩
    · rw [hroots', hmem, hpmm]
      exact hok₂
    · rw [htasks]
      exact List.forall_mem_cons.mpr ⟨Nat.mul_mod_right _ _, h.frames⟩
    · have hnodup := h.nodup
      rw [Spaces.pml4s_eq hk] at hnodup hnot
      rw [Spaces.pml4s_eq (hcur'.trans hk), htasks]
      simp only [List.nodup_cons, List.mem_cons, not_or] at hnodup hnot ⊢
      exact ⟨⟨Ne.symm hnot.1, hnodup.1⟩, hnot.2, hnodup.2⟩
    · rw [hheap]
      exact h.heap
  refine ⟨hiso, h.upperKeptBut hiso (fun p hp => (hsub p).mpr (.inr hp)) ?_, ?_,
    fun p hp => (hsub p).mpr (.inr hp), hcur'⟩
  · intro r hr virt hup _
    rw [hmem, hup₂ r (Set.mem_insert_of_mem m hr) _ rfl (upper_pathOf hup)]
    exact hup₁ r hr _ rfl (upper_pathOf hup)
  · intro kernel hkernel p hp hp' virt hup
    obtain rfl : 4096 * k = kernel := Option.some.inj (hk.symm.trans hkernel)
    obtain rfl : p = 4096 * m := ((hsub p).mp hp).resolve_right hp'
    rw [hmem]
    refine hok₂.tables.hwWalk_congr hok₂.tables (Set.mem_insert_of_mem m hkr)
      (Set.mem_insert m _) ?_
    rw [hup₂ m (Set.mem_insert m _) _ rfl (upper_pathOf hup),
      hup₂ k (Set.mem_insert_of_mem m hkr) _ rfl (upper_pathOf hup),
      hnew₁ _ rfl (upper_pathOf hup), hup₁ k hkr _ rfl (upper_pathOf hup)]

theorem Isolated.createSpace (h : Isolated s) {cur : ℕ} {o : Option ℕ}
    (hcur : s.vmm.currentPml4 = some cur) (hs : createSpace s cur = some (o, s')) :
    CallKeeps False s s' := by
  obtain ⟨k, place, hk, hok⟩ := h.spaces
  obtain rfl : 4096 * k = cur := Option.some.inj (hk.symm.trans hcur)
  unfold StyxOS.createSpace at hs
  cases halloc : allocFrame s.vmm.pmm with
  | none =>
    rw [halloc] at hs
    obtain ⟨-, rfl⟩ := Prod.mk.inj (Option.some.inj hs)
    exact h.keeps_self False
  | some x =>
    obtain ⟨pml4, pmm⟩ := x
    obtain ⟨hav, hnew⟩ := allocFrame_avail halloc
    obtain ⟨hal, hz, hlt⟩ := avail_frame hav
    obtain ⟨m, rfl⟩ := Nat.dvd_of_mod_eq_zero hal
    have hm := hok.tables.unplaced hav
    rw [halloc] at hs
    dsimp only at hs
    cases halloc' : allocFrame pmm with
    | none =>
      rw [halloc'] at hs
      obtain ⟨-, rfl⟩ := Prod.mk.inj (Option.some.inj hs)
      obtain ⟨hok', hfind⟩ := hok.store_data hm (length_upperHalf s.vmm.mem (4096 * k + 2048))
      have hback : ∀ f, Avail (freeFrame (4096 * m) pmm) f → Avail s.vmm.pmm f := by
        intro f hf
        rcases freeFrame_avail hal hz hlt hf with hf | rfl
        · exact (hnew f hf).1
        · exact hav
      obtain ⟨hiso, hpml4s⟩ := h.of_spaces { s with vmm := { s.vmm with
          mem := copyUpperHalf s.vmm.mem (4096 * m) (4096 * k)
          pmm := freeFrame (4096 * m) pmm } } hk rfl rfl
        ⟨place, hok'.of_avail hback⟩ h.heap
      refine ⟨hiso, h.upperKeptBut hiso ?_ ?_, ?_, ?_, rfl⟩
      · exact fun p hp => by rw [hpml4s]; exact hp
      · intro r hr virt hup _
        exact hfind r _ (pathOf virt) (hok.tables.root r hr) (full_of_length (.space r) rfl)
      · exact fun _ _ p hp hn => absurd (hpml4s ▸ hp) hn
      · exact fun p hp => by rw [hpml4s]; exact hp
    | some x =>
      obtain ⟨ustack, pmm'⟩ := x
      simp only [halloc', Option.bind_eq_bind, Option.bind_eq_some_iff, Option.some.injEq,
        Prod.mk.injEq] at hs
      obtain ⟨t, ht, -, rfl⟩ := hs
      have hmap : mapFresh { s.vmm with
            mem := copyUpperHalf s.vmm.mem (4096 * m) (4096 * k)
            pmm := pmm
            currentPml4 := some (4096 * m) } taskUserStackPage [] = some (true, t) := by
        simp only [mapFresh, halloc', store_nil, ht, Option.bind_eq_bind, Option.bind_some]
      exact h.addTask hk hok halloc hmap

theorem Isolated.after_kmalloc {s₁ : Spaces σ} {fits b : Bool} {size : ℕ} {g : Prop}
    (h : Isolated s) (hs : StyxOS.kmallocPages s fits size = some (b, s₁))
    (hrest : Isolated s₁ → CallKeeps g s₁ s') : CallKeeps (fits = false ∨ g) s s' := by
  obtain ⟨hiso, hpml4s, hcur, hend, hup⟩ := h.kmallocPages hs
  obtain ⟨hiso', hup', hshared, hsub, hcur'⟩ := hrest hiso
  rw [hpml4s] at hsub
  refine ⟨hiso', hup.trans hup' (fun p hp => by rw [hpml4s]; exact hp) hend, ?_, hsub,
    hcur'.trans hcur⟩
  intro kernel hkernel pml4 hp hnew
  exact hshared kernel (hcur.trans hkernel) pml4 hp (by rwa [hpml4s])

theorem CallKeeps.mono {g g' : Prop} (h : CallKeeps g s s') (hg : g → g') : CallKeeps g' s s' :=
  ⟨h.isolated, fun p hp virt hup hout => h.upper p hp virt hup fun hgg => hout (hg hgg),
    h.shared, h.sub, h.currentPml4⟩

theorem Isolated.taskCreateUser (h : Isolated s) {env : CreateEnv} {o : Option ℕ}
    (hs : taskCreateUser s env = some (o, s')) :
    CallKeeps (env.capFits = false ∨ env.stackFits = false) s s' := by
  unfold StyxOS.taskCreateUser at hs
  by_cases hslot : env.slotFree = false
  · rw [if_pos hslot] at hs
    obtain ⟨-, rfl⟩ := Prod.mk.inj (Option.some.inj hs)
    exact h.keeps_self _
  rw [if_neg hslot, Option.bind_eq_bind] at hs
  obtain ⟨⟨capTable, s₁⟩, hcap, hs⟩ := Option.bind_eq_some_iff.mp hs
  have hkeeps : CallKeeps (env.capFits = false ∨ env.stackFits = false ∨ False) s s' := by
    refine h.after_kmalloc hcap fun h₁ => ?_
    dsimp only at hs
    by_cases hnocap : capTable = false
    · rw [if_pos hnocap] at hs
      obtain ⟨-, rfl⟩ := Prod.mk.inj (Option.some.inj hs)
      exact h₁.keeps_self _
    rw [if_neg hnocap] at hs
    obtain ⟨⟨stack, s₂⟩, hstack, hs⟩ := Option.bind_eq_some_iff.mp hs
    refine h₁.after_kmalloc hstack fun h₂ => ?_
    dsimp only at hs
    by_cases hnostack : stack = false
    · rw [if_pos hnostack] at hs
      obtain ⟨-, rfl⟩ := Prod.mk.inj (Option.some.inj hs)
      exact h₂.keeps_self False
    rw [if_neg hnostack] at hs
    cases hcur : s₂.vmm.currentPml4 with
    | none =>
      rw [hcur] at hs
      obtain ⟨-, rfl⟩ := Prod.mk.inj (Option.some.inj hs)
      exact h₂.keeps_self False
    | some cur =>
      rw [hcur] at hs
      exact h₂.createSpace hcur hs
  rwa [or_false] at hkeeps

theorem Isolated.elfLoad (h : Isolated s) {task : ℕ} {img : ElfImage} {rc : ℤ} {vmm : Vmm σ}
    (htask : task ∈ s.tasks) (hlow : img.StaysLow) (hs : elfLoad s.vmm task img = some (rc, vmm)) :
    CallKeeps False s { s with vmm := vmm } := by
  obtain ⟨k, place, hcur, hok⟩ := h.spaces
  obtain ⟨r, rfl⟩ := Nat.dvd_of_mod_eq_zero (h.frames _ htask)
  have hnodup := h.nodup
  rw [Spaces.pml4s_eq hcur] at hnodup
  have hr : r ∈ s.roots := by
    rw [mem_roots, Spaces.pml4s_eq hcur]
    exact List.mem_cons_of_mem _ htask
  have hrk : r ≠ k := fun hc => (List.nodup_cons.mp hnodup).1 (hc ▸ htask)
  have hload := hok.elfLoad hr hrk hlow hs
  obtain ⟨hiso, hpml4s⟩ := h.of_spaces { s with vmm := vmm } hcur rfl hload.currentPml4
    hload.spaces h.heap
  refine ⟨hiso, h.upperKeptBut hiso ?_ ?_, ?_, ?_, hload.currentPml4⟩
  · exact fun p hp => by rw [hpml4s]; exact hp
  · exact fun r hr virt hup _ => hload.upper r hr _ rfl (upper_pathOf hup)
  · exact fun _ _ p hp hn => absurd (hpml4s ▸ hp) hn
  · exact fun p hp => by rw [hpml4s]; exact hp

/-! ## Runs -/

/-- A call that makes a task, or loads a file for one. -/
inductive SpaceCall
  | create (env : CreateEnv)
  | load (task : ℕ) (img : ElfImage)

namespace SpaceCall

/-- The call as the kernel performs it; without memory for tables it halts. -/
def apply (s : Spaces σ) : SpaceCall → Option (Spaces σ)
  | create env => (StyxOS.taskCreateUser s env).map Prod.snd
  | load task img => (StyxOS.elfLoad s.vmm task img).map fun x => { s with vmm := x.2 }

/-- Files are loaded for tasks that there are. -/
def Allowed (s : Spaces σ) : SpaceCall → Prop
  | create _ => True
  | load task _ => task ∈ s.tasks

/-- What the call loads stays in the lower half. -/
def StaysLow : SpaceCall → Prop
  | create _ => True
  | load _ img => img.StaysLow

/-- The call finds no room in the heap, and has to grow it. -/
def GrowsHeap : SpaceCall → Prop
  | create env => env.capFits = false ∨ env.stackFits = false
  | load _ _ => False

end SpaceCall

theorem Isolated.apply (h : Isolated s) {call : SpaceCall} (hallow : call.Allowed s)
    (hlow : call.StaysLow) (hs : call.apply s = some s') : CallKeeps call.GrowsHeap s s' := by
  cases call with
  | create env =>
    obtain ⟨⟨o, t⟩, ht, rfl⟩ := Option.map_eq_some_iff.mp hs
    exact h.taskCreateUser ht
  | load task img =>
    obtain ⟨⟨rc, vmm⟩, hvmm, rfl⟩ := Option.map_eq_some_iff.mp hs
    exact h.elfLoad hallow hlow hvmm

/-- The kernel has booted: `vmm_init` and the drivers have mapped pages into a zeroed PML4, none of
them for user code, and there is no task. -/
structure Booted (s : Spaces σ) : Prop where
  space : ∃ (s₀ : Vmm σ) (r : ℕ) (ops : List PageOp), s₀.currentPml4 = some (4096 * r) ∧
    ¬Avail s₀.pmm (4096 * r) ∧ (∀ a, 4096 * r ≤ a → a < 4096 * r + 4096 → s₀.mem a = 0) ∧
    (∀ op ∈ ops, op.Ok ∧ ∀ virt phys flags, op = .map virt phys flags → flags.testBit 2 = false) ∧
    runPageOps s₀ ops = some s.vmm
  tasks : s.tasks = []
  heap : s.heapEnd % 4096 = 0 ∧ heapBaseAddr ≤ s.heapEnd

/-- The states that a run of calls from the boot reaches. -/
inductive Reached : Spaces σ → Prop
  | boot {s : Spaces σ} : Booted s → Reached s
  | call {s s' : Spaces σ} (call : SpaceCall) : Reached s → call.Allowed s → call.StaysLow →
    call.apply s = some s' → Reached s'

theorem exists_pathOf {path : List (Fin 512)} (h : path.length = 4) :
    ∃ virt, pathOf virt = path := by
  obtain ⟨i₄, i₃, i₂, i₁, rfl⟩ := List.length_eq_four.mp h
  refine ⟨2 ^ 39 * i₄ + 2 ^ 30 * i₃ + 2 ^ 21 * i₂ + 2 ^ 12 * i₁, ?_⟩
  have := i₄.isLt
  have := i₃.isLt
  have := i₂.isLt
  have := i₁.isLt
  simp only [pathOf, pml4Index, pdptIndex, pdIndex, ptIndex, List.cons.injEq, Fin.ext_iff,
    Fin.val_ofNat, Nat.shiftRight_eq_div_pow, and_true]
  omega

/-- A run of maps that opens nothing to user code leads to a flat map that opens nothing. -/
theorem foldl_update_closed {ops : List PageOp} {m : ℕ → Option (ℕ × ℕ)}
    (hm : ∀ page x, m page = some x → x.2.testBit 2 = false)
    (hops : ∀ op ∈ ops, ∀ virt phys flags, op = PageOp.map virt phys flags →
      flags.testBit 2 = false) :
    ∀ page x, ops.foldl PageOp.update m page = some x → x.2.testBit 2 = false := by
  induction ops generalizing m with
  | nil => exact hm
  | cons op ops ih =>
    obtain ⟨hop, hrest⟩ := List.forall_mem_cons.mp hops
    refine ih ?_ hrest
    intro page x hx
    cases op with
    | map virt phys flags =>
      rw [PageOp.update, Function.update_apply] at hx
      split_ifs at hx with hpage
      · obtain rfl := Option.some.inj hx
        exact hop virt phys flags rfl
      · exact hm page x hx
    | unmap virt =>
      rw [PageOp.update, Function.update_apply] at hx
      split_ifs at hx with hpage
      exact hm page x hx

theorem Booted.isolated (h : Booted s) : Isolated s := by
  obtain ⟨⟨s₀, r, ops, hpml4, hfree, hzero, hops, hrun⟩, htasks, hheap⟩ := h
  have hrep := (flatRep_empty hpml4 hfree hzero).run (fun op hop => (hops op hop).1) hrun
  have hclosed := foldl_update_closed (m := fun _ => none) (fun _ _ hx => by cases hx)
    fun op hop => (hops op hop).2
  have hcur := hrep.currentPml4
  obtain ⟨place, hok⟩ := hrep.tables
  have hpml4s : s.pml4s = [4096 * r] := by rw [Spaces.pml4s_eq hcur, htasks]
  have hroots : s.roots = {r} := by
    ext r'
    rw [mem_roots, hpml4s, List.mem_singleton, Set.mem_singleton_iff]
    exact Nat.mul_right_inj (by norm_num)
  have hnone : ∀ r' ∈ ({r} : Set ℕ), ∀ path e, path.length = 4 →
      findPage s.vmm.mem r' path = some e → pteUser e = false := by
    rintro r' rfl path e hpath he
    obtain ⟨virt, rfl⟩ := exists_pathOf hpath
    rw [hrep.find] at he
    obtain ⟨x, hx, rfl⟩ := Option.map_eq_some_iff.mp he
    rw [pteUser, leafEntry, testBit_pteAddr_or (by norm_num)]
    exact hclosed _ x hx
  refine ⟨⟨r, place, hcur, ?_⟩, ?_, ?_, hheap⟩
  · rw [hroots]
    refine ⟨hok, ?_, ?_, ?_⟩
    · intro r' hr' path e hpath he hu
      rw [hnone r' hr' path e hpath he] at hu
      cases hu
    · intro r' hr' path e hpath he hu
      rw [hnone r' hr' path e hpath he] at hu
      cases hu
    · intro r' hr' r'' hr'' hne
      exact absurd ((Set.mem_singleton_iff.mp hr').trans (Set.mem_singleton_iff.mp hr'').symm) hne
  · rw [htasks]
    exact fun _ ht => absurd ht List.not_mem_nil
  · rw [hpml4s]
    exact List.nodup_singleton _

theorem Reached.isolated (h : Reached s) : Isolated s := by
  induction h with
  | boot hboot => exact hboot.isolated
  | call call _ hallow hlow hs ih => exact (ih.apply hallow hlow hs).isolated

/-- In every run whose files stay in the lower half, no page of the upper half is open to user code
and no frame is open to it in two spaces; a call leaves the upper half of every space as it is,
except that a heap that has to grow is mapped past its end, and gives a new space the upper half of
the kernel's. -/
theorem elf_isolation {s s' : Spaces σ} {call : SpaceCall} (hs : Reached s)
    (hallow : call.Allowed s) (hlow : call.StaysLow) (hcall : call.apply s = some s') :
    (s.UpperClosed ∧ s.FramesApart) ∧ (s'.UpperClosed ∧ s'.FramesApart) ∧
      UpperKeptBut call.GrowsHeap s s' ∧ NewShareUpper s s' := by
  have hkeeps := hs.isolated.apply hallow hlow hcall
  exact ⟨⟨hs.isolated.upperClosed, hs.isolated.framesApart⟩,
    ⟨hkeeps.isolated.upperClosed, hkeeps.isolated.framesApart⟩, hkeeps.upper, hkeeps.shared⟩

end

/-- A file with one program header, for eight bytes at the given address. -/
def sampleElf (vaddr : ℕ) : ElfImage where
  data := storeLE (storeLE (storeLE (storeLE (storeLE (storeLE (storeLE (storeLE (storeLE
    (fun _ => 0) 0 4 elfMagic) 4 1 2) 18 2 emX8664) 32 8 64) 56 2 1) 64 4 ptLoad) 80 8 vaddr)
    96 8 8) 104 8 8
  size := 120

/-- An empty PML4 at `0x1000`, and the frames after it. -/
def sampleEmpty : Vmm FrameList where
  mem := fun _ => 0
  pmm := ⟨(List.range 24).map fun i => 0x2000 + 0x1000 * i, by decide, by decide⟩
  currentPml4 := some 0x1000
  hhdmOff := 0xffff800000000000

def sampleOps : List PageOp := [.map 0xffff800000001000 0x1000 3]

def sampleSpaces : Spaces FrameList where
  vmm := (runPageOps sampleEmpty sampleOps).getD sampleEmpty
  heapEnd := heapBaseAddr
  tasks := []

theorem sampleSpaces_booted : Booted sampleSpaces := by
  have hrun : (runPageOps sampleEmpty sampleOps).isSome := by decide +kernel
  obtain ⟨vmm, hvmm⟩ := Option.isSome_iff_exists.mp hrun
  have hfree : 4096 * 1 ∉ (List.range 24).map fun i => 0x2000 + 0x1000 * i := by decide
  refine ⟨⟨sampleEmpty, 1, sampleOps, rfl, hfree, fun _ _ _ => rfl, ?_, ?_⟩, rfl, by decide⟩
  · intro op hop
    obtain rfl := List.mem_singleton.mp hop
    refine ⟨by simp [PageOp.Ok], ?_⟩
    rintro virt phys flags ⟨⟩
    decide
  · rw [sampleSpaces, hvmm, Option.getD_some]

/-- A task is made, and a file is loaded for it. -/
def sampleCalls (vaddr : ℕ) : Option (Spaces FrameList × Spaces FrameList) := do
  let s ← (SpaceCall.create ⟨true, true, true⟩).apply sampleSpaces
  let s' ← (SpaceCall.load 0x5000 (sampleElf vaddr)).apply s
  some (s, s')

theorem sampleCalls_reached {vaddr : ℕ} {s s' : Spaces FrameList}
    (h : sampleCalls vaddr = some (s, s')) (htask : s.tasks = [0x5000]) :
    Reached s ∧ (SpaceCall.load 0x5000 (sampleElf vaddr)).Allowed s ∧
      (SpaceCall.load 0x5000 (sampleElf vaddr)).apply s = some s' := by
  simp only [sampleCalls, Option.bind_eq_bind, Option.bind_eq_some_iff, Option.some.injEq,
    Prod.mk.injEq] at h
  obtain ⟨t, ht, t', ht', rfl, rfl⟩ := h
  refine ⟨.call (.create ⟨true, true, true⟩) (.boot sampleSpaces_booted) trivial trivial ht, ?_,
    ht'⟩
  rw [SpaceCall.Allowed, htask]
  exact List.mem_singleton_self _

theorem sampleElf_staysLow : (sampleElf 0x400000).StaysLow := by
  intro _ page hp
  have hpages : reachedPages (sampleElf 0x400000).size (sampleElf 0x400000).phdrs =
      [0x400000] := by decide +kernel
  rw [hpages] at hp
  rw [List.mem_singleton.mp hp, InLowerHalf]
  decide

/-- Two tasks are made, and a program at its usual place is loaded for both. -/
def sampleTasks : Option (Spaces FrameList × Spaces FrameList) := do
  let s ← (SpaceCall.create ⟨true, true, true⟩).apply sampleSpaces
  let s ← (SpaceCall.create ⟨true, true, true⟩).apply s
  let s ← (SpaceCall.load 0x5000 (sampleElf 0x400000)).apply s
  let s' ← (SpaceCall.load 0xa000 (sampleElf 0x400000)).apply s
  some (s, s')

theorem sampleTasks_reached {s s' : Spaces FrameList} (h : sampleTasks = some (s, s'))
    (htasks : s.tasks = [0xa000, 0x5000]) :
    Reached s ∧ (SpaceCall.load 0xa000 (sampleElf 0x400000)).apply s = some s' := by
  simp only [sampleTasks, Option.bind_eq_bind, Option.bind_eq_some_iff, Option.some.injEq,
    Prod.mk.injEq] at h
  obtain ⟨s₁, h₁, s₂, h₂, s₃, h₃, s₄, h₄, rfl, rfl⟩ := h
  have hallow : (SpaceCall.load 0x5000 (sampleElf 0x400000)).Allowed s₂ := by
    obtain ⟨x, -, rfl⟩ := Option.map_eq_some_iff.mp h₃
    change s₂.tasks = [0xa000, 0x5000] at htasks
    rw [SpaceCall.Allowed, htasks]
    decide
  have hboot : Reached s₁ :=
    .call (.create ⟨true, true, true⟩) (.boot sampleSpaces_booted) trivial trivial h₁
  have hmade : Reached s₂ := .call (.create ⟨true, true, true⟩) hboot trivial trivial h₂
  exact ⟨.call _ hmade hallow sampleElf_staysLow h₃, h₄⟩

theorem elf_isolation_sample :
    ∃ s s', sampleTasks = some (s, s') ∧ s'.tasks = [0xa000, 0x5000] ∧ s'.UpperClosed ∧
      s'.FramesApart ∧ UpperKeptBut False s s' := by
  have hrun : sampleTasks.map (fun x => (x.1.tasks, x.2.tasks)) =
      some ([0xa000, 0x5000], [0xa000, 0x5000]) := by decide +kernel
  obtain ⟨⟨s, s'⟩, hcalls, htasks⟩ := Option.map_eq_some_iff.mp hrun
  obtain ⟨hbefore, hafter⟩ := Prod.mk.inj htasks
  obtain ⟨hs, hcall⟩ := sampleTasks_reached hcalls hbefore
  have hallow : (SpaceCall.load 0xa000 (sampleElf 0x400000)).Allowed s := by
    rw [SpaceCall.Allowed, show s.tasks = _ from hbefore]
    exact List.mem_cons_self
  obtain ⟨-, ⟨hclosed, hapart⟩, hup, -⟩ := elf_isolation hs hallow sampleElf_staysLow hcall
  exact ⟨s, s', hcalls, hafter, hclosed, hapart, hup⟩

/-- A file that asks for an address in the upper half replaces the page of the kernel there, in the
space of the kernel too, by one that is open to user code. -/
theorem elf_isolation_broken :
    ∃ s s' : Spaces FrameList, Reached s ∧
      (SpaceCall.load 0x5000 (sampleElf 0xffff800000001000)).Allowed s ∧
      (SpaceCall.load 0x5000 (sampleElf 0xffff800000001000)).apply s = some s' ∧
        ¬UpperKeptBut False s s' ∧ ¬s'.UpperClosed := by
  have hrun : (sampleCalls 0xffff800000001000).map (fun x =>
      ((x.1.tasks, x.1.vmm.currentPml4, x.2.tasks), hwWalk x.1.vmm.mem 0x1000 0xffff800000001000,
        hwWalk x.2.vmm.mem 0x1000 0xffff800000001000,
        hwWalk x.2.vmm.mem 0x5000 0xffff800000001000)) =
      some (([0x5000], some 0x1000, [0x5000]), some ⟨0x1000, true, false⟩,
        some ⟨0xa000, true, false⟩, some ⟨0xa000, true, true⟩) := by
    decide +kernel
  obtain ⟨⟨s, s'⟩, hcalls, hview⟩ := Option.map_eq_some_iff.mp hrun
  simp only [Prod.mk.injEq] at hview
  obtain ⟨⟨htask, hcur, htask'⟩, hbefore, hafter, huser⟩ := hview
  obtain ⟨hs, hallow, hcall⟩ := sampleCalls_reached hcalls htask
  have hupper : InUpperHalf 0xffff800000001000 := by
    unfold InUpperHalf
    norm_num
  refine ⟨s, s', hs, hallow, hcall, fun hkept => ?_, fun hclosed => ?_⟩
  · have hmem : 0x1000 ∈ s.pml4s := by
      rw [Spaces.pml4s, hcur]
      exact List.mem_cons_self
    have hsame := hkept 0x1000 hmem _ hupper False.elim
    rw [hbefore, hafter] at hsame
    revert hsame
    decide
  · have hmem : 0x5000 ∈ s'.pml4s := by
      rw [Spaces.pml4s, htask']
      exact List.mem_append_right _ (List.mem_singleton_self _)
    have hshut := hclosed 0x5000 hmem _ _ hupper huser
    cases hshut

end StyxOS
