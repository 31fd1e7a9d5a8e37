import StyxOS.Task.Launch

/-! # Resources of a failed launch

A call that fails gives back what it has taken: frames, live heap blocks, the
task slot and the mappings of the task. Frames only leave the allocator, apart
from the PML4 that `task_create_user` gives back itself; a page that has been
mapped, for the heap or for the program, is what a failed call keeps.
-/

namespace StyxOS

open ByteMem FrameAllocator

section

variable {σ : Type} [FrameAllocator σ] {v v' v'' : Vmm σ}

/-! ## Frames -/

def Shrinks (v v' : Vmm σ) : Prop := ∀ g, Avail v'.pmm g → Avail v.pmm g

def Takes (v v' : Vmm σ) : Prop := Shrinks v v' ∧ ∃ f, Avail v.pmm f ∧ ¬ Avail v'.pmm f

def SameFrames (v v' : Vmm σ) : Prop := ∀ g, Avail v'.pmm g ↔ Avail v.pmm g

theorem Shrinks.refl (v : Vmm σ) : Shrinks v v := fun _ h => h

theorem Shrinks.trans (h : Shrinks v v') (h' : Shrinks v' v'') : Shrinks v v'' :=
  fun g hg => h g (h' g hg)

theorem Takes.trans (h : Takes v v') (h' : Shrinks v' v'') : Takes v v'' := by
  obtain ⟨hs, f, hf, hgone⟩ := h
  exact ⟨hs.trans h', f, hf, fun hback => hgone (h' f hback)⟩

theorem Shrinks.trans_takes (h : Shrinks v v') (h' : Takes v' v'') : Takes v v'' := by
  obtain ⟨hs, f, hf, hgone⟩ := h'
  exact ⟨h.trans hs, f, h f hf, hgone⟩

theorem Takes.not_sameFrames (h : Takes v v') : ¬ SameFrames v v' := by
  obtain ⟨-, f, hf, hgone⟩ := h
  exact fun hsame => hgone ((hsame f).mpr hf)

theorem takes_of_allocFrame {f : ℕ} {pmm : σ} (h : allocFrame v.pmm = some (f, pmm))
    (hv : v'.pmm = pmm) : Takes v v' := by
  obtain ⟨hf, hnew⟩ := allocFrame_avail h
  rw [← hv] at hnew
  exact ⟨fun g hg => (hnew g hg).1, f, hf, fun hg => (hnew f hg).2 rfl⟩

theorem nextTable_shrinks {table : ℕ} {i : Fin 512} {flags : ℕ} {r : ℕ × Vmm σ}
    (h : nextTable v table i flags = some r) : Shrinks v r.2 := by
  unfold nextTable at h
  split at h
  · cases halloc : allocFrame v.pmm with
    | none => simp [halloc] at h
    | some x =>
      obtain ⟨f, pmm⟩ := x
      simp only [halloc, Option.some.injEq] at h
      obtain rfl := h
      exact (takes_of_allocFrame halloc rfl).1
  · obtain rfl := Option.some.inj h
    exact fun _ hg => hg

theorem vmmMapPage_shrinks {virt phys flags : ℕ} (h : vmmMapPage v virt phys flags = some v') :
    Shrinks v v' := by
  unfold vmmMapPage at h
  split at h
  · obtain rfl := Option.some.inj h
    exact .refl v
  · simp only [Option.bind_eq_bind, Option.bind_eq_some_iff, Option.some.injEq] at h
    obtain ⟨r₁, h₁, r₂, h₂, r₃, h₃, rfl⟩ := h
    exact ((nextTable_shrinks h₁).trans (nextTable_shrinks h₂)).trans (nextTable_shrinks h₃)

theorem mapFresh_takes {virt : ℕ} {bytes : List UInt8} {mapped : Bool}
    (h : mapFresh v virt bytes = some (mapped, v')) :
    if mapped then Takes v v' else v' = v := by
  cases mapped with
  | false => exact eq_of_mapFresh_eq_false h
  | true =>
    unfold mapFresh at h
    cases halloc : allocFrame v.pmm with
    | none => simp [halloc] at h
    | some x =>
      obtain ⟨f, pmm⟩ := x
      simp only [halloc, Option.bind_eq_bind, Option.bind_eq_some_iff, Option.some.injEq,
        Prod.mk.injEq, true_and] at h
      obtain ⟨t, ht, rfl⟩ := h
      have hstep : Takes v { v with mem := store v.mem f bytes, pmm := pmm } :=
        takes_of_allocFrame halloc rfl
      exact hstep.trans (vmmMapPage_shrinks ht)

/-! ## Loading -/

/-- Map fresh frames with the given bytes, until one is missing. -/
def mapWrites (v : Vmm σ) : List (ℕ × List UInt8) → Option (Bool × Vmm σ)
  | [] => some (true, v)
  | w :: ws => do
    let (mapped, v) ← mapFresh v w.1 w.2
    if mapped then mapWrites v ws else some (false, v)

/-- The pages of the segments before one that ends outside the file, with their bytes. -/
def reachedWrites (img : ElfImage) : List Phdr → List (ℕ × List UInt8)
  | [] => []
  | ph :: phs =>
    if ph.type ≠ ptLoad then reachedWrites img phs
    else if ph.inFile img.size = false then []
    else (ph.pages.map fun page => (page, ph.pageBytes img page)) ++ reachedWrites img phs

def AllInFile (img : ElfImage) (phs : List Phdr) : Prop :=
  ∀ ph ∈ phs, ph.type = ptLoad → ph.inFile img.size = true

instance (img : ElfImage) (phs : List Phdr) : Decidable (AllInFile img phs) :=
  inferInstanceAs (Decidable (∀ ph ∈ phs, _))

theorem mapWrites_append (v : Vmm σ) (ws ws' : List (ℕ × List UInt8)) :
    mapWrites v (ws ++ ws') = (mapWrites v ws).bind fun r =>
      if r.1 then mapWrites r.2 ws' else some r := by
  induction ws generalizing v with
  | nil => rfl
  | cons w ws ih =>
    simp only [List.cons_append, mapWrites, Option.bind_eq_bind, Option.bind_assoc]
    congr 1
    funext r
    obtain ⟨mapped, t⟩ := r
    cases mapped with
    | false => rfl
    | true => exact ih t

theorem loadPages_eq (img : ElfImage) (ph : Phdr) (v : Vmm σ) (pages : List ℕ) :
    loadPages img ph v pages =
      (mapWrites v (pages.map fun page => (page, ph.pageBytes img page))).map fun r =>
        (if r.1 then 0 else -6, r.2) := by
  induction pages generalizing v with
  | nil => rfl
  | cons page pages ih =>
    simp only [loadPages, List.map_cons, mapWrites, Option.bind_eq_bind, Option.map_bind]
    congr 1
    funext r
    obtain ⟨mapped, t⟩ := r
    cases mapped with
    | false => rfl
    | true => exact ih t

theorem loadSegments_eq (img : ElfImage) (v : Vmm σ) (phs : List Phdr) :
    loadSegments img v phs = (mapWrites v (reachedWrites img phs)).map fun r =>
      (if r.1 then if AllInFile img phs then 0 else -5 else -6, r.2) := by
  induction phs generalizing v with
  | nil => rfl
  | cons ph phs ih =>
    rw [loadSegments, reachedWrites]
    by_cases htype : ph.type ≠ ptLoad
    · have hall : AllInFile img (ph :: phs) ↔ AllInFile img phs := by
        simp [AllInFile, htype]
      simp only [if_pos htype, ih, hall]
    rw [if_neg htype, if_neg htype]
    by_cases hout : ph.inFile img.size = false
    · have hall : ¬ AllInFile img (ph :: phs) := by
        simp [AllInFile, not_not.mp htype, hout]
      rw [if_pos hout, if_pos hout, mapWrites, Option.map_some, if_pos rfl, if_neg hall]
    · have hall : AllInFile img (ph :: phs) ↔ AllInFile img phs := by
        simp [AllInFile, hout]
      rw [if_neg hout, if_neg hout, mapWrites_append, loadPages_eq]
      simp only [Option.bind_eq_bind, Option.bind_map, Option.map_bind, hall]
      congr 1
      funext r
      obtain ⟨mapped, t⟩ := r
      cases mapped with
      | false => rfl
      | true => simpa using ih t

theorem mapWrites_shrinks {ws : List (ℕ × List UInt8)} {r : Bool × Vmm σ}
    (h : mapWrites v ws = some r) : Shrinks v r.2 := by
  induction ws generalizing v with
  | nil =>
    obtain rfl := Option.some.inj h
    exact .refl v
  | cons w ws ih =>
    rw [mapWrites, Option.bind_eq_bind] at h
    obtain ⟨⟨mapped, t⟩, ht, hrest⟩ := Option.bind_eq_some_iff.mp h
    have hstep := mapFresh_takes ht
    cases mapped with
    | false =>
      obtain rfl : t = v := hstep
      obtain rfl := Option.some.inj hrest
      exact .refl t
    | true => exact hstep.1.trans (ih hrest)

theorem mapWrites_takes {ws : List (ℕ × List UInt8)} {r : Bool × Vmm σ} (hws : ws ≠ [])
    (hframe : allocFrame v.pmm ≠ none) (h : mapWrites v ws = some r) : Takes v r.2 := by
  cases ws with
  | nil => exact absurd rfl hws
  | cons w ws =>
    rw [mapWrites, Option.bind_eq_bind] at h
    obtain ⟨⟨mapped, t⟩, ht, hrest⟩ := Option.bind_eq_some_iff.mp h
    cases mapped with
    | false =>
      exfalso
      obtain ⟨x, halloc⟩ := Option.ne_none_iff_exists'.mp hframe
      simp [mapFresh, halloc, Option.bind_eq_some_iff] at ht
    | true => exact (mapFresh_takes ht).trans (mapWrites_shrinks hrest)

/-! ## Growing the heap -/

theorem growPage_cases (v : Vmm σ) (virt : ℕ) :
    (growPage v virt).2 = v ∧ (∀ bytes, (growPage v virt).1 ≠ .frame bytes) ∨
      Takes v (growPage v virt).2 := by
  unfold growPage
  cases halloc : allocFrame v.pmm with
  | none => simp
  | some x =>
    obtain ⟨f, pmm⟩ := x
    cases hmap : vmmMapPage { v with pmm := pmm } virt f kernelFlags with
    | none => simp [hmap]
    | some t =>
      have hstep : Takes v { v with pmm := pmm } := takes_of_allocFrame halloc rfl
      simp only [hmap]
      exact Or.inr (hstep.trans (vmmMapPage_shrinks hmap))

theorem growPage_shrinks (v : Vmm σ) (virt : ℕ) : Shrinks v (growPage v virt).2 := by
  rcases growPage_cases v virt with ⟨he, -⟩ | ht
  · rw [he]
    exact .refl v
  · exact ht.1

theorem grownVmm_shrinks (v : Vmm σ) (a i k : ℕ) :
    Shrinks (grownVmm v a i) (grownVmm v a (i + k)) := by
  induction k with
  | zero => exact .refl _
  | succ k ih => exact ih.trans (growPage_shrinks _ _)

theorem grownVmm_takes {a k : ℕ} {bytes : ℕ → UInt8} (h : heapGrants v a 0 = .frame bytes)
    (hk : 0 < k) : Takes v (grownVmm v a k) := by
  obtain ⟨k, rfl⟩ : ∃ j, k = 1 + j := ⟨k - 1, by omega⟩
  have hfirst : Takes v (grownVmm v a 1) :=
    (growPage_cases v _).resolve_left fun hno => hno.2 bytes h
  exact hfirst.trans (grownVmm_shrinks v a 1 k)

theorem heapGrants_eq_noFrame_iff (v : Vmm σ) (a i : ℕ) :
    heapGrants v a i = .noFrame ↔ allocFrame (grownVmm v a i).pmm = none := by
  unfold heapGrants growPage
  cases halloc : allocFrame (grownVmm v a i).pmm with
  | none => simp
  | some x =>
    cases hmap : vmmMapPage { grownVmm v a i with pmm := x.2 } (u64 (a + i * pageSize)) x.1
      kernelFlags <;> simp [hmap]

end

namespace Resources

variable {σ : Type} [FrameAllocator σ] {s s' : Resources σ} {size p : ℕ}

/-- `kmalloc` finds no block that fits and comes to map a page for the heap. -/
def Grows (s : Resources σ) (size : ℕ) : Prop :=
  size ≠ 0 ∧ ¬ HasFit s.heap (alignUp size) ∧
    growEnd s.heap (alignUp size) ≤ s.heap.ceiling ∧ allocFrame s.vmm.pmm ≠ none

/-- What a call of `kmalloc` that returns does. -/
structure KmallocEffect (s : Resources σ) (size p : ℕ) (s' : Resources σ) : Prop where
  heap : HeapOk s'.heap
  blocks : p = 0 ∧ s'.heap.liveBlocks = s.heap.liveBlocks ∨
    p ≠ 0 ∧ ∃ n, size ≤ n ∧ (p - blkHdr, n) ∉ s.heap.liveBlocks ∧
      s'.heap.liveBlocks = insert (p - blkHdr, n) s.heap.liveBlocks
  kept : ¬ s.Grows size → s'.vmm = s.vmm
  taken : s.Grows size → Takes s.vmm s'.vmm
  shrinks : Shrinks s.vmm s'.vmm

theorem growPages_pos (hsize : size < 2 ^ 32) : 0 < growPages (alignUp size) := by
  unfold growPages alignUp u64 blkHdr pageSize heapAlign
  omega

theorem kmallocMapped_of_not_grows {bs : List Tiling.Block} (hr : HeapRep s.heap bs)
    (hsize : size < 2 ^ 32) (h : ¬ s.Grows size) :
    kmallocMapped (fun _ => heapGrants s.vmm s.heap.heapEnd) 2 0 s.heap size = 0 := by
  rw [kmallocMapped]
  by_cases h0 : size = 0
  · rw [if_pos h0]
  rw [if_neg h0]
  rcases hr.walk (alignUp size) with ⟨pre, b, post, -, -, hwalk⟩ | ⟨hnone, hwalk⟩
  · rw [hwalk]
  have hfit : ¬ HasFit s.heap (alignUp size) := fun hfit => by
    obtain ⟨b, hb, hf⟩ := hr.hasFit_iff.mp hfit
    exact hnone b hb hf
  rw [hwalk]
  dsimp only
  by_cases hc : growEnd s.heap (alignUp size) > s.heap.ceiling
  · rw [growMapped, if_pos hc, growHeap_eq, if_pos hc, if_pos rfl]
  · have hframe : allocFrame s.vmm.pmm = none := by
      by_contra hne
      exact h ⟨h0, hfit, Nat.not_lt.mp hc, hne⟩
    have hgrant : heapGrants s.vmm s.heap.heapEnd 0 = .noFrame :=
      (heapGrants_eq_noFrame_iff _ _ 0).mpr hframe
    obtain ⟨n, hn⟩ : ∃ n, growPages (alignUp size) = n + 1 :=
      ⟨_, (Nat.sub_add_cancel (growPages_pos hsize)).symm⟩
    rw [growMapped, if_neg hc, growHeap_eq, if_neg hc, hn, mapPages, mappedPages, hgrant]
    simp [growResult]

/-- A call that comes to a page and returns has got a frame for it. -/
theorem kmallocMapped_of_grows {bs : List Tiling.Block} (hr : HeapRep s.heap bs)
    (hsize : size < 2 ^ 32) (h : s.Grows size) {r : ℕ × Heap}
    (hk : StyxOS.kmalloc (fun _ => heapGrants s.vmm s.heap.heapEnd) 2 s.heap size = some r)
    (hrun : r.2.halted = false) :
    (∃ bytes, heapGrants s.vmm s.heap.heapEnd 0 = .frame bytes) ∧
      0 < kmallocMapped (fun _ => heapGrants s.vmm s.heap.heapEnd) 2 0 s.heap size := by
  obtain ⟨h0, hfit, hc, hframe⟩ := h
  have hwalk := hr.walk_of_not_hasFit hfit
  obtain ⟨n, hn⟩ : ∃ n, growPages (alignUp size) = n + 1 :=
    ⟨_, (Nat.sub_add_cancel (growPages_pos hsize)).symm⟩
  rw [StyxOS.kmalloc, kmallocFrom, if_neg h0, hwalk] at hk
  rw [kmallocMapped, if_neg h0, hwalk]
  dsimp only at hk ⊢
  rw [growHeap_eq, if_neg (Nat.not_lt.mpr hc), hn, mapPages] at hk
  rw [growMapped, if_neg (Nat.not_lt.mpr hc), hn, mappedPages]
  cases hgrant : heapGrants s.vmm s.heap.heapEnd 0 with
  | noFrame => exact absurd ((heapGrants_eq_noFrame_iff _ _ 0).mp hgrant) hframe
  | noTable =>
    rw [hgrant] at hk
    obtain rfl := Option.some.inj hk
    exact absurd hrun (by simp [growResult])
  | frame bytes =>
    dsimp only
    exact ⟨⟨bytes, rfl⟩, by omega⟩

theorem kmalloc_effect (hok : HeapOk s.heap) (hsize : size < 2 ^ 32)
    (h : s.kmalloc size = some (p, s')) : KmallocEffect s size p s' := by
  obtain ⟨bs, hr⟩ := hok.rep
  obtain ⟨r, ha, hall⟩ := kmallocFrom_spec hr hsize
    (fun _ => heapGrants s.vmm s.heap.heapEnd) 0
  have hk : StyxOS.kmalloc (fun _ => heapGrants s.vmm s.heap.heapEnd) 2 s.heap size = some r :=
    hall 0
  unfold Resources.kmalloc at h
  simp only [hk] at h
  split at h
  · cases h
  · next hrun =>
    obtain ⟨rfl, rfl⟩ := Prod.mk.inj (Option.some.inj h)
    have hrun' : r.2.halted = false := by simpa using hrun
    obtain ⟨hrep, hblocks⟩ := ha.liveBlocks hr
    constructor
    · exact ⟨hrun', hrep⟩
    · exact hblocks
    · intro hno
      dsimp only
      rw [kmallocMapped_of_not_grows hr hsize hno]
      rfl
    · intro hgrows
      obtain ⟨⟨bytes, hgrant⟩, hpos⟩ := kmallocMapped_of_grows hr hsize hgrows hk hrun'
      exact grownVmm_takes hgrant hpos
    · have hshrinks := grownVmm_shrinks s.vmm s.heap.heapEnd 0
        (kmallocMapped (fun _ => heapGrants s.vmm s.heap.heapEnd) 2 0 s.heap size)
      rwa [Nat.zero_add] at hshrinks

/-! ## The property -/

/-- A failed load has given back the frames and the heap blocks, and the task has the mappings it
had. -/
structure Released (pml4 : ℕ) (s s' : Resources σ) : Prop where
  frames : SameFrames s.vmm s'.vmm
  blocks : s'.heap.liveBlocks = s.heap.liveBlocks
  mappings : ∀ virt, hwWalk s'.vmm.mem pml4 virt = hwWalk s.vmm.mem pml4 virt

/-- `elf_load` releases everything when it fails. -/
def LoadReleases (s : Resources σ) (pml4 : ℕ) (img : ElfImage) : Prop :=
  ∀ rc s', s.elfLoad pml4 img = some (rc, s') → rc ≠ 0 → Released pml4 s s'

/-- `elf_load_from_vfs` releases everything when it fails. -/
def VfsReleases (s : Resources σ) (pml4 : ℕ) (file : Option VfsFile) : Prop :=
  ∀ entryOut rc entryOut' s', s.elfLoadFromVfs pml4 entryOut file = some (rc, entryOut', s') →
    rc ≠ 0 → Released pml4 s s'

/-! ## The condition -/

/-- The file is accepted, and either all its segments are in it and all their pages can be mapped,
or the machine halts on the way. -/
def Completes (v : Vmm σ) (pml4 : ℕ) (img : ElfImage) : Prop :=
  img.accepted ∧ ∀ r, mapWrites { v with currentPml4 := some pml4 }
    (reachedWrites img img.phdrs) = some r → r.1 = true ∧ AllInFile img img.phdrs

/-- The load completes, or does not come to a page, or there is no frame for the first. -/
inductive LoadFits (v : Vmm σ) (pml4 : ℕ) (img : ElfImage) : Prop
  | refused (h : ¬ img.accepted)
  | nothing (h : reachedWrites img img.phdrs = [])
  | noFrame (h : allocFrame v.pmm = none)
  | completes (h : Completes v pml4 img)

/-- Where the buffer takes a page for the heap, the whole load completes; otherwise the load from
the buffer, if it comes to that, releases what it takes. -/
def VfsFits (s : Resources σ) (pml4 : ℕ) : Option VfsFile → Prop
  | none => True
  | some file => ∀ buf t, s.kmalloc file.size = some (buf, t) →
    (s.Grows file.size → buf ≠ 0 ∧ 64 ≤ file.bytes.length ∧
      Completes t.vmm pml4 ((t.store buf file.bytes).imageAt buf file.bytes.length)) ∧
    (¬ s.Grows file.size → buf ≠ 0 → 64 ≤ file.bytes.length →
      LoadFits t.vmm pml4 ((t.store buf file.bytes).imageAt buf file.bytes.length))

/-! ## Loads -/

variable {pml4 : ℕ} {img : ElfImage} {rc : ℤ}

theorem elfLoad_of_not_accepted (s : Resources σ) (pml4 : ℕ) (h : ¬ img.accepted) :
    ∃ rc, rc ≠ 0 ∧ s.elfLoad pml4 img = some (rc, s) := by
  unfold Resources.elfLoad StyxOS.elfLoad
  split_ifs with hman h64 hmagic hclass hmachine
  · exact ⟨-6, by norm_num, rfl⟩
  · exact ⟨-1, by norm_num, rfl⟩
  · exact ⟨-2, by norm_num, rfl⟩
  · exact ⟨-3, by norm_num, rfl⟩
  · exact ⟨-4, by norm_num, rfl⟩
  · exact absurd ⟨Nat.not_lt.mp h64, not_not.mp hmagic, not_not.mp hclass, not_not.mp hmachine⟩ h

/-- The load of a file whose header is accepted maps the pages it comes to, and then knows how it
ends. -/
theorem elfLoad_of_accepted (h : img.accepted) : s.elfLoad pml4 img =
    (mapWrites { s.vmm with currentPml4 := some pml4 } (reachedWrites img img.phdrs)).map fun r =>
      (if r.1 then if AllInFile img img.phdrs then 0 else -5 else -6,
        { s with vmm := { r.2 with currentPml4 := s.vmm.currentPml4 } }) := by
  obtain ⟨h64, hmagic, hclass, hmachine⟩ := h
  have hman : ¬ manifestVerifyElf "init" img.size = false := by
    rw [manifestVerifyElf, if_neg (by omega), if_neg (by decide)]
    decide
  rw [Resources.elfLoad, StyxOS.elfLoad, if_neg hman, if_neg (by omega),
    if_neg (not_not.mpr hmagic),
    if_neg (not_not.mpr hclass), if_neg (not_not.mpr hmachine), loadSegments_eq]
  simp only [Option.bind_eq_bind, Option.bind_map, Option.map_bind, Function.comp_def,
    Option.map_some]
  cases mapWrites { s.vmm with currentPml4 := some pml4 } (reachedWrites img img.phdrs) <;> rfl

theorem elfLoad_of_nothing (h : reachedWrites img img.phdrs = [] ∨ allocFrame s.vmm.pmm = none)
    (hs : s.elfLoad pml4 img = some (rc, s')) : s' = s := by
  by_cases hacc : img.accepted
  · rw [elfLoad_of_accepted hacc] at hs
    obtain ⟨r, hr, hs⟩ := Option.map_eq_some_iff.mp hs
    have hsame : r.2 = { s.vmm with currentPml4 := some pml4 } := by
      cases hws : reachedWrites img img.phdrs with
      | nil =>
        rw [hws, mapWrites] at hr
        rw [← Option.some.inj hr]
      | cons w ws =>
        have hnone := h.resolve_left (by simp [hws])
        rw [hws] at hr
        simp only [mapWrites, mapFresh, hnone, Option.bind_eq_bind, Option.bind_some] at hr
        rw [← Option.some.inj hr]
    obtain ⟨-, rfl⟩ := Prod.mk.inj hs
    rw [hsame]
  · obtain ⟨rc', -, he⟩ := elfLoad_of_not_accepted s pml4 hacc
    rw [he] at hs
    exact (Prod.mk.inj (Option.some.inj hs)).2.symm

theorem Completes.eq_zero (h : Completes s.vmm pml4 img)
    (hs : s.elfLoad pml4 img = some (rc, s')) : rc = 0 := by
  obtain ⟨hacc, hall⟩ := h
  rw [elfLoad_of_accepted hacc] at hs
  obtain ⟨r, hr, hs⟩ := Option.map_eq_some_iff.mp hs
  obtain ⟨hmapped, hin⟩ := hall r hr
  rw [hmapped, if_pos rfl, if_pos hin] at hs
  exact (Prod.mk.inj hs).1.symm

theorem exists_failure (h : ¬ Completes s.vmm pml4 img) :
    ∃ rc s', s.elfLoad pml4 img = some (rc, s') ∧ rc ≠ 0 ∧
      (img.accepted → reachedWrites img img.phdrs ≠ [] → allocFrame s.vmm.pmm ≠ none →
        Takes s.vmm s'.vmm) := by
  by_cases hacc : img.accepted
  · obtain ⟨r, hr, hbad⟩ : ∃ r, mapWrites { s.vmm with currentPml4 := some pml4 }
        (reachedWrites img img.phdrs) = some r ∧ ¬ (r.1 = true ∧ AllInFile img img.phdrs) := by
      by_contra hno
      exact h ⟨hacc, fun r hr => by_contra fun hbad => hno ⟨r, hr, hbad⟩⟩
    refine ⟨_, _, by rw [elfLoad_of_accepted hacc, hr, Option.map_some], ?_, ?_⟩
    · split_ifs with h₁ h₂
      · exact absurd ⟨h₁, h₂⟩ hbad
      · norm_num
      · norm_num
    · intro _ hws hframe
      have htakes : Takes { s.vmm with currentPml4 := some pml4 } r.2 :=
        mapWrites_takes hws hframe hr
      exact htakes
  · obtain ⟨rc, hrc, he⟩ := elfLoad_of_not_accepted s pml4 hacc
    exact ⟨rc, s, he, hrc, fun h => absurd h hacc⟩

theorem Released.refl (pml4 : ℕ) (s : Resources σ) : Released pml4 s s :=
  ⟨fun _ => Iff.rfl, rfl, fun _ => rfl⟩

theorem loadReleases_iff : LoadReleases s pml4 img ↔ LoadFits s.vmm pml4 img := by
  constructor
  · intro h
    by_contra hno
    obtain ⟨rc, s', hs, hrc, htakes⟩ := exists_failure fun hc => hno (.completes hc)
    refine (htakes ?_ ?_ ?_).not_sameFrames (h rc s' hs hrc).frames
    · by_contra hacc
      exact hno (.refused hacc)
    · exact fun hc => hno (.nothing hc)
    · exact fun hc => hno (.noFrame hc)
  · intro h rc s' hs hrc
    have hsame : s' = s := by
      cases h with
      | refused hacc =>
        obtain ⟨rc', -, he⟩ := elfLoad_of_not_accepted s pml4 hacc
        rw [he] at hs
        exact (Prod.mk.inj (Option.some.inj hs)).2.symm
      | nothing hws => exact elfLoad_of_nothing (Or.inl hws) hs
      | noFrame hnone => exact elfLoad_of_nothing (Or.inr hnone) hs
      | completes hc => exact absurd (hc.eq_zero hs) hrc
    rw [hsame]
    exact .refl pml4 s

/-- A block that has been allocated and written to is live, and taken away again leaves the blocks
there were. -/
theorem KmallocEffect.store_live {t : Resources σ} {bytes : List UInt8}
    (h : KmallocEffect s size p t) (hp : p ≠ 0) (hlen : bytes.length ≤ size) :
    ∃ n, HeapOk (t.store p bytes).heap ∧ (p - blkHdr, n) ∈ (t.store p bytes).heap.liveBlocks ∧
      (t.store p bytes).heap.liveBlocks \ {(p - blkHdr, n)} = s.heap.liveBlocks := by
  obtain ⟨hz, -⟩ | ⟨-, n, hn, hnew, hlive⟩ := h.blocks
  · exact absurd hz hp
  have hmem : (p - blkHdr, n) ∈ t.heap.liveBlocks := by
    rw [hlive]
    exact Set.mem_insert _ _
  obtain ⟨hok, hkeep⟩ := h.heap.write hmem (hlen.trans hn)
  have hkeep' : (t.store p bytes).heap.liveBlocks = t.heap.liveBlocks := hkeep
  refine ⟨n, hok, hkeep' ▸ hmem, ?_⟩
  rw [hkeep', hlive, Set.insert_sdiff_self_of_notMem hnew]

theorem KmallocEffect.kfree {t u : Resources σ} {bytes : List UInt8}
    (h : KmallocEffect s size p t) (hp : p ≠ 0) (hlen : bytes.length ≤ size)
    (hu : u.heap = (t.store p bytes).heap) :
    (u.kfree p).heap.liveBlocks = s.heap.liveBlocks := by
  obtain ⟨n, hok, hmem, hback⟩ := h.store_live hp hlen
  rw [← hu] at hok hmem hback
  rw [← hback]
  exact (hok.kfree hmem).2

theorem KmallocEffect.released {t u : Resources σ} {bytes : List UInt8}
    (h : KmallocEffect s size p t) (hp : p ≠ 0) (hlen : bytes.length ≤ size)
    (hvmm : t.vmm = s.vmm) (hu : u.heap = (t.store p bytes).heap)
    (hrel : Released pml4 (t.store p bytes) u) : Released pml4 s (u.kfree p) := by
  constructor
  · rw [← hvmm]
    exact hrel.frames
  · exact h.kfree hp hlen hu
  · rw [← hvmm]
    exact hrel.mappings

theorem elfLoad_heap (hs : s.elfLoad pml4 img = some (rc, s')) : s'.heap = s.heap := by
  obtain ⟨x, -, hx⟩ := Option.map_eq_some_iff.mp hs
  rw [← (Prod.mk.inj hx).2]

/-- What a load from a file comes to, after the call of `kmalloc`. -/
inductive VfsRun (pml4 : ℕ) (file : VfsFile) (buf : ℕ) (t : Resources σ) : ℤ → Resources σ → Prop
  | noBuffer (hbuf : buf = 0) : VfsRun pml4 file buf t (-2) t
  | short (hbuf : buf ≠ 0) (hlen : file.bytes.length < 64) :
      VfsRun pml4 file buf t (-3) ((t.store buf file.bytes).kfree buf)
  | loaded {rc : ℤ} {u : Resources σ} (hbuf : buf ≠ 0) (hlen : 64 ≤ file.bytes.length)
      (hload : (t.store buf file.bytes).elfLoad pml4
        ((t.store buf file.bytes).imageAt buf file.bytes.length) = some (rc, u)) :
      VfsRun pml4 file buf t rc (u.kfree buf)

variable {file : VfsFile} {buf : ℕ} {t u : Resources σ} {entryOut entryOut' : UInt64}

theorem VfsRun.eq (hk : s.kmalloc file.size = some (buf, t)) (h : VfsRun pml4 file buf t rc u)
    (entryOut : UInt64) :
    ∃ entryOut', s.elfLoadFromVfs pml4 entryOut (some file) = some (rc, entryOut', u) := by
  simp only [elfLoadFromVfs, hk, Option.bind_eq_bind, Option.bind_some]
  cases h with
  | noBuffer hbuf => exact ⟨_, if_pos hbuf⟩
  | short hbuf hlen =>
    rw [if_neg hbuf, if_pos hlen]
    exact ⟨_, rfl⟩
  | loaded hbuf hlen hload =>
    rw [if_neg hbuf, if_neg (Nat.not_lt.mpr hlen), hload]
    exact ⟨_, rfl⟩

theorem exists_vfsRun
    (hs : s.elfLoadFromVfs pml4 entryOut (some file) = some (rc, entryOut', s')) :
    ∃ buf t, s.kmalloc file.size = some (buf, t) ∧ VfsRun pml4 file buf t rc s' := by
  cases hk : s.kmalloc file.size with
  | none => simp [elfLoadFromVfs, hk] at hs
  | some x =>
    obtain ⟨buf, t⟩ := x
    simp only [elfLoadFromVfs, hk, Option.bind_eq_bind, Option.bind_some] at hs
    refine ⟨buf, t, rfl, ?_⟩
    split_ifs at hs with hbuf hlen
    · obtain ⟨rfl, -, rfl⟩ := Prod.mk.inj (Option.some.inj hs)
      exact .noBuffer hbuf
    · obtain ⟨rfl, -, rfl⟩ := Prod.mk.inj (Option.some.inj hs)
      exact .short hbuf hlen
    · obtain ⟨⟨rc', u⟩, hload, hrest⟩ := Option.bind_eq_some_iff.mp hs
      simp only [Option.some.injEq, Prod.mk.injEq] at hrest
      obtain ⟨rfl, -, rfl⟩ := hrest
      exact .loaded hbuf (Nat.not_lt.mp hlen) hload

theorem elfLoad_shrinks (hs : s.elfLoad pml4 img = some (rc, s')) : Shrinks s.vmm s'.vmm := by
  by_cases hacc : img.accepted
  · rw [elfLoad_of_accepted hacc] at hs
    obtain ⟨r, hr, hs⟩ := Option.map_eq_some_iff.mp hs
    obtain ⟨-, rfl⟩ := Prod.mk.inj hs
    have hshrinks : Shrinks { s.vmm with currentPml4 := some pml4 } r.2 := mapWrites_shrinks hr
    exact hshrinks
  · obtain ⟨rc', -, he⟩ := elfLoad_of_not_accepted s pml4 hacc
    rw [he] at hs
    obtain ⟨-, rfl⟩ := Prod.mk.inj (Option.some.inj hs)
    exact .refl _

theorem VfsRun.shrinks (h : VfsRun pml4 file buf t rc u) : Shrinks t.vmm u.vmm := by
  cases h with
  | noBuffer => exact .refl _
  | short => exact .refl _
  | @loaded rc u hbuf hlen hload =>
    have hshrinks : Shrinks (t.store buf file.bytes).vmm u.vmm := elfLoad_shrinks hload
    exact hshrinks

/-- Nothing fails after the call of `kmalloc` just when there is a buffer, with a header and a load
that completes. -/
theorem forall_vfsRun_iff : (∀ rc u, VfsRun pml4 file buf t rc u → rc = 0) ↔
    buf ≠ 0 ∧ 64 ≤ file.bytes.length ∧
      Completes t.vmm pml4 ((t.store buf file.bytes).imageAt buf file.bytes.length) := by
  constructor
  · intro h
    have hbuf : buf ≠ 0 := fun hz => absurd (h _ _ (.noBuffer hz)) (by norm_num)
    have hlen : 64 ≤ file.bytes.length := by
      by_contra hlt
      exact absurd (h _ _ (.short hbuf (Nat.not_le.mp hlt))) (by norm_num)
    refine ⟨hbuf, hlen, ?_⟩
    by_contra hc
    obtain ⟨rc, u, hs, hrc, -⟩ := exists_failure (s := t.store buf file.bytes) hc
    exact hrc (h _ _ (.loaded hbuf hlen hs))
  · rintro ⟨hbuf, hlen, hc⟩ rc u h
    cases h with
    | noBuffer hz => exact absurd hz hbuf
    | short _ hlt => omega
    | loaded _ _ hload => exact Completes.eq_zero (s := t.store buf file.bytes) hc hload

/-- A load from a file that fails has released everything just when the heap has taken no page for
its buffer, and the load none. -/
theorem vfsReleases_iff (hok : HeapOk s.heap) (file : Option VfsFile) :
    VfsReleases s pml4 file ↔ VfsFits s pml4 file := by
  cases file with
  | none =>
    constructor
    · exact fun _ => trivial
    · intro _ entryOut rc entryOut' s' hs _
      simp only [elfLoadFromVfs, Option.some.injEq, Prod.mk.injEq] at hs
      obtain ⟨-, -, rfl⟩ := hs
      exact .refl pml4 s
  | some file =>
    constructor
    · intro h buf t hk
      have heff := kmalloc_effect hok file.size_lt hk
      have hrel : ∀ rc u, VfsRun pml4 file buf t rc u → rc ≠ 0 → Released pml4 s u := by
        intro rc u hrun hrc
        obtain ⟨entryOut', hs⟩ := hrun.eq hk 0
        exact h 0 rc entryOut' u hs hrc
      constructor
      · intro hgrows
        refine forall_vfsRun_iff.mp fun rc u hrun => ?_
        by_contra hrc
        exact ((heff.taken hgrows).trans hrun.shrinks).not_sameFrames (hrel rc u hrun hrc).frames
      · intro hno hbuf hlen
        refine loadReleases_iff (s := t.store buf file.bytes).mp fun rc u hs hrc => ?_
        have hreleased := hrel rc _ (.loaded hbuf hlen hs) hrc
        have hvmm : t.vmm = s.vmm := heff.kept hno
        constructor
        · change SameFrames t.vmm u.vmm
          rw [hvmm]
          exact hreleased.frames
        · rw [elfLoad_heap hs]
        · change ∀ virt, hwWalk u.vmm.mem pml4 virt = hwWalk t.vmm.mem pml4 virt
          rw [hvmm]
          exact hreleased.mappings
    · intro h entryOut rc entryOut' s' hs hrc
      obtain ⟨buf, t, hk, hrun⟩ := exists_vfsRun hs
      have heff := kmalloc_effect hok file.size_lt hk
      obtain ⟨hgrown, hkept⟩ := h buf t hk
      by_cases hgrows : s.Grows file.size
      · exact absurd (forall_vfsRun_iff.mpr (hgrown hgrows) rc s' hrun) hrc
      have hvmm : t.vmm = s.vmm := heff.kept hgrows
      cases hrun with
      | noBuffer hbuf =>
        rcases heff.blocks with ⟨-, hsame⟩ | ⟨hne, -⟩
        · exact ⟨fun g => by rw [hvmm], hsame, fun virt => by rw [hvmm]⟩
        · exact absurd hbuf hne
      | short hbuf => exact heff.released hbuf file.length_le hvmm rfl (.refl pml4 _)
      | loaded hbuf hlen hload =>
        have hfits : LoadFits (t.store buf file.bytes).vmm pml4 _ := hkept hgrows hbuf hlen
        have hrel := loadReleases_iff.mpr hfits _ _ hload hrc
        exact heff.released hbuf file.length_le hvmm (elfLoad_heap hload) hrel

/-! ## Loads that cannot fail -/

/-- There is the file and a buffer for it, and the load from it completes. -/
def VfsCompletes (s : Resources σ) (pml4 : ℕ) : Option VfsFile → Prop
  | none => False
  | some file => ∀ buf t, s.kmalloc file.size = some (buf, t) → buf ≠ 0 ∧
      64 ≤ file.bytes.length ∧
        Completes t.vmm pml4 ((t.store buf file.bytes).imageAt buf file.bytes.length)

theorem vfsCompletes_iff {file : Option VfsFile} (entryOut : UInt64) : VfsCompletes s pml4 file ↔
    ∀ rc entryOut' s', s.elfLoadFromVfs pml4 entryOut file = some (rc, entryOut', s') → rc = 0 := by
  cases file with
  | none =>
    simp only [VfsCompletes, false_iff]
    exact fun h => absurd (h (-1) entryOut s rfl) (by norm_num)
  | some file =>
    constructor
    · intro h rc entryOut' s' hs
      obtain ⟨buf, t, hk, hrun⟩ := exists_vfsRun hs
      exact forall_vfsRun_iff.mpr (h buf t hk) rc s' hrun
    · intro h buf t hk
      refine forall_vfsRun_iff.mp fun rc u hrun => ?_
      obtain ⟨entryOut', hs⟩ := hrun.eq hk entryOut
      exact h rc entryOut' u hs

theorem elfLoadFromVfs_shrinks (hok : HeapOk s.heap) {file : Option VfsFile}
    (hs : s.elfLoadFromVfs pml4 entryOut file = some (rc, entryOut', s')) :
    Shrinks s.vmm s'.vmm := by
  cases file with
  | none =>
    simp only [elfLoadFromVfs, Option.some.injEq, Prod.mk.injEq] at hs
    obtain ⟨-, -, rfl⟩ := hs
    exact .refl _
  | some file =>
    obtain ⟨buf, t, hk, hrun⟩ := exists_vfsRun hs
    exact (kmalloc_effect hok file.size_lt hk).shrinks.trans hrun.shrinks

end Resources

end StyxOS
