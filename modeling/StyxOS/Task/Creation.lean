import StyxOS.Task.Release

/-! # Resources of a failed creation

`task_create_user` gives back the blocks, the PML4 and the slot on each of its
early returns. What it does not give back are pages that the heap has grown by,
for one of its blocks, before another step fails.
-/

namespace StyxOS

open ByteMem FrameAllocator

namespace LaunchState

section

variable {σ : Type} {s s' : LaunchState σ} {t : TaskPtr} {tbl tbl' : TaskTable}

/-! ## The slot -/

/-- The slot is free, and the other entries of the table are as they were. -/
structure SlotFreed (t : TaskPtr) (tbl tbl' : TaskTable) : Prop where
  free : (tbl' t).state = .unused
  others : ∀ u, u ≠ t → tbl' u = tbl u

theorem SlotFreed.of_update {task : Task} (h : SlotFreed t (Function.update tbl t task) tbl') :
    SlotFreed t tbl tbl' := by
  constructor
  · exact h.free
  · intro u hu
    rw [h.others u hu, Function.update_of_ne hu]

theorem slotFreed_giveUp {r : Resources σ} (h : ∀ u, u ≠ t → s.taskTable u = tbl u) :
    SlotFreed t tbl (s.giveUp t r).taskTable := by
  constructor
  · simp [giveUp, setTask]
  · intro u hu
    simp [giveUp, setTask, hu, h u hu]

theorem SlotFreed.freeSlots (h : SlotFreed t s.taskTable s'.taskTable)
    (hfree : (s.taskTable t).state = .unused) : s'.freeSlots = s.freeSlots := by
  have hstate : ∀ u, (s'.taskTable u).state = .unused ↔ (s.taskTable u).state = .unused := by
    intro u
    by_cases hu : u = t
    · rw [hu, h.free, hfree]
    · rw [h.others u hu]
  simp only [LaunchState.freeSlots, hstate]

theorem allocTaskSlot_eq_none : s.allocTaskSlot = none ↔ s.freeSlots = 0 := by
  rw [LaunchState.freeSlots, Finset.card_eq_zero, Finset.filter_eq_empty_iff]
  unfold allocTaskSlot
  cases hfind : (List.finRange taskMaxTasks).find? fun t => (s.taskTable t).state = .unused with
  | none =>
    rw [List.find?_eq_none] at hfind
    simp only [true_iff]
    intro u _
    simpa using hfind u (List.mem_finRange u)
  | some t =>
    have ht := List.find?_some hfind
    simp only [reduceCtorEq, false_iff, not_forall]
    exact ⟨t, Finset.mem_univ t, fun hno => hno (by simpa using ht)⟩

theorem allocTaskSlot_eq_some (h : s.allocTaskSlot = some (t, s')) :
    (s.taskTable t).state = .unused ∧ s'.toResources = s.toResources ∧
      ∃ task, s'.taskTable = Function.update s.taskTable t task := by
  unfold allocTaskSlot at h
  split at h
  · cases h
  · next hfind =>
    obtain ⟨rfl, rfl⟩ := Prod.mk.inj (Option.some.inj h)
    exact ⟨by simpa using List.find?_some hfind, rfl, _, rfl⟩

end

/-! ## The property and the condition -/

/-- A failed creation has given back the frames, the heap blocks and the slot. -/
structure Restored {σ : Type} [FrameAllocator σ] (s s' : LaunchState σ) : Prop where
  frames : SameFrames s.vmm s'.vmm
  blocks : s'.heap.liveBlocks = s.heap.liveBlocks
  slots : s'.freeSlots = s.freeSlots

section

variable {σ : Type} [FrameAllocator σ]

/-- `task_create_user` releases everything when it returns NULL. -/
def CreateReleases (s : LaunchState σ) : Prop :=
  ∀ entryPoint s', s.taskCreateUser entryPoint = some (none, s') → Restored s s'

/-- A frame for a PML4 and another one for the user stack. -/
def TwoFrames (v : Vmm σ) : Prop :=
  ∃ f pmm, allocFrame v.pmm = some (f, pmm) ∧ allocFrame pmm ≠ none

/-- After a slot, and a page that the heap has grown by for the capability table or for the kernel
stack, nothing is missing any more. -/
def CreateFits (s : LaunchState σ) : Prop :=
  s.freeSlots ≠ 0 → ∀ capTable r, s.toResources.kmalloc capTableBytes = some (capTable, r) →
    (capTable = 0 → ¬ s.toResources.Grows capTableBytes) ∧
    (capTable ≠ 0 → ∀ kstack r',
      (r.store capTable (List.replicate capTableBytes 0)).kmalloc taskKernelStackSize =
        some (kstack, r') →
      s.toResources.Grows capTableBytes ∨
        (r.store capTable (List.replicate capTableBytes 0)).Grows taskKernelStackSize →
      kstack ≠ 0 ∧ TwoFrames r'.vmm)

end

/-! ## The steps -/

section

variable {σ : Type} [FrameStore σ] {s s' : LaunchState σ} {t : TaskPtr} {capTable kstack n m : ℕ}
  {entryPoint : UInt64}

theorem createSpace_fails (h : s.createSpace t capTable kstack entryPoint = some (none, s')) :
    SlotFreed t s.taskTable s'.taskTable ∧ SameFrames s.vmm s'.vmm ∧
      s'.heap = kfree (kfree s.heap kstack) capTable ∧ ¬ TwoFrames s.vmm := by
  unfold createSpace at h
  cases hpml4 : allocFrame s.vmm.pmm with
  | none =>
    simp only [hpml4, Option.some.injEq, Prod.mk.injEq, true_and] at h
    obtain rfl := h
    refine ⟨slotFreed_giveUp fun _ _ => rfl, fun _ => Iff.rfl, rfl, ?_⟩
    rintro ⟨f, pmm, hf, -⟩
    simp [hpml4] at hf
  | some x =>
    obtain ⟨pml4, pmm⟩ := x
    simp only [hpml4] at h
    cases hustack : allocFrame pmm with
    | none =>
      simp only [hustack, Option.some.injEq, Prod.mk.injEq, true_and] at h
      obtain rfl := h
      refine ⟨slotFreed_giveUp fun u hu => Function.update_of_ne hu _ _,
        FrameStore.freeFrame_allocFrame hpml4, rfl, ?_⟩
      rintro ⟨f, pmm', hf, hne⟩
      obtain ⟨-, rfl⟩ := Prod.mk.inj (Option.some.inj (hpml4.symm.trans hf))
      exact hne hustack
    | some y =>
      simp [hustack, Option.bind_eq_some_iff] at h

theorem exists_createSpace_fails (h : ¬ TwoFrames s.vmm) :
    ∃ s', s.createSpace t capTable kstack entryPoint = some (none, s') := by
  unfold createSpace
  cases hpml4 : allocFrame s.vmm.pmm with
  | none => exact ⟨_, rfl⟩
  | some x =>
    have hustack : allocFrame x.2 = none := by
      by_contra hne
      exact h ⟨x.1, x.2, hpml4, hne⟩
    simp only [hustack]
    exact ⟨_, rfl⟩

/-- What `createStack` has done when it fails, after its call of `kmalloc`. -/
structure StackFails (s : LaunchState σ) (t : TaskPtr) (live : Set (ℕ × ℕ)) (kstack : ℕ)
    (r : Resources σ) (s' : LaunchState σ) : Prop where
  slot : SlotFreed t s.taskTable s'.taskTable
  frames : SameFrames r.vmm s'.vmm
  blocks : s'.heap.liveBlocks = live
  missing : ¬ (kstack ≠ 0 ∧ TwoFrames r.vmm)

theorem createStack_fails (hok : HeapOk s.heap) (hlive : (capTable - blkHdr, n) ∈ s.heap.liveBlocks)
    (h : s.createStack t capTable entryPoint = some (none, s')) :
    ∃ kstack r, s.toResources.kmalloc taskKernelStackSize = some (kstack, r) ∧
      StackFails s t (s.heap.liveBlocks \ {(capTable - blkHdr, n)}) kstack r s' := by
  unfold createStack at h
  cases hk : s.toResources.kmalloc taskKernelStackSize with
  | none => simp [hk] at h
  | some x =>
    obtain ⟨kstack, r⟩ := x
    have heff := Resources.kmalloc_effect hok (by decide) hk
    refine ⟨kstack, r, rfl, ?_⟩
    simp only [hk, Option.bind_eq_bind, Option.bind_some] at h
    rcases heff.blocks with ⟨rfl, hsame⟩ | ⟨hkstack, m, -, hnew, hins⟩
    · rw [if_pos rfl] at h
      obtain ⟨-, rfl⟩ := Prod.mk.inj (Option.some.inj h)
      refine ⟨slotFreed_giveUp fun _ _ => rfl, fun _ => Iff.rfl, ?_, fun hno => hno.1 rfl⟩
      rw [← hsame] at hlive ⊢
      exact (heff.heap.kfree hlive).2
    · rw [if_neg hkstack] at h
      obtain ⟨hslot, hframes, hheap, htwo⟩ := createSpace_fails h
      refine ⟨hslot.of_update, hframes, ?_, fun hyes => htwo hyes.2⟩
      obtain ⟨hok', hfree⟩ := heff.heap.kfree (hins ▸ Set.mem_insert _ _)
      have hback : (kfree r.heap kstack).liveBlocks = s.heap.liveBlocks := by
        rw [hfree, hins, Set.insert_sdiff_self_of_notMem hnew]
      rw [← hback] at hlive ⊢
      rw [hheap]
      exact (hok'.kfree hlive).2

theorem exists_createStack_fails {r : Resources σ}
    (hk : s.toResources.kmalloc taskKernelStackSize = some (kstack, r))
    (h : ¬ (kstack ≠ 0 ∧ TwoFrames r.vmm)) :
    ∃ s', s.createStack t capTable entryPoint = some (none, s') := by
  simp only [createStack, hk, Option.bind_eq_bind, Option.bind_some]
  by_cases hz : kstack = 0
  · exact ⟨_, if_pos hz⟩
  · rw [if_neg hz]
    exact exists_createSpace_fails fun htwo => h ⟨hz, htwo⟩

/-- `task_create_user` once it has a slot and has called `kmalloc` for the capability table. -/
theorem taskCreateUser_of_kmalloc {r : Resources σ} (hslot : s.allocTaskSlot = some (t, s'))
    (hk : s.toResources.kmalloc capTableBytes = some (capTable, r)) (entryPoint : UInt64) :
    ∃ (s₁ : LaunchState σ) (task : Task),
      s₁.toResources = r.store capTable (List.replicate capTableBytes 0) ∧
      s₁.taskTable = Function.update s.taskTable t task ∧
      s.taskCreateUser entryPoint =
        if capTable = 0 then some (none, s₁.giveUp t r)
        else s₁.createStack t capTable entryPoint := by
  obtain ⟨-, hres, task, htbl⟩ := allocTaskSlot_eq_some hslot
  refine ⟨{ s'.setTask t fun task => { task with capTable := UInt64.ofNat capTable } with
    toResources := r.store capTable (List.replicate capTableBytes 0) },
    { task with capTable := UInt64.ofNat capTable }, rfl, ?_, ?_⟩
  · simp [setTask, htbl]
  · simp only [taskCreateUser, hslot, hres, hk, Option.bind_eq_bind, Option.bind_some]
    rfl

/-- Where every creation that fails releases what it took, no page has gone to the heap before it
fails. -/
theorem CreateReleases.fits (hok : HeapOk s.heap) (h : s.CreateReleases) : s.CreateFits := by
  intro hslots capTable r hk
  cases hslot : s.allocTaskSlot with
  | none => exact absurd (allocTaskSlot_eq_none.mp hslot) hslots
  | some x =>
    obtain ⟨t, s'⟩ := x
    have heff := Resources.kmalloc_effect hok (by decide) hk
    obtain ⟨s₁, task, hres, htbl, hrun⟩ := taskCreateUser_of_kmalloc hslot hk 0
    constructor
    · intro hcap hgrows
      rw [if_pos hcap] at hrun
      exact (heff.taken hgrows).not_sameFrames (h 0 _ hrun).frames
    · intro hcap kstack r' hk' hgrown
      by_contra hmissing
      obtain ⟨n, hok₁, hlive, -⟩ := heff.store_live hcap List.length_replicate.le
      have heff' := Resources.kmalloc_effect hok₁ (by decide) hk'
      have htakes : Takes s.vmm r'.vmm := by
        rcases hgrown with hg | hg
        · exact (heff.taken hg).trans heff'.shrinks
        · exact heff.shrinks.trans_takes (heff'.taken hg)
      rw [← hres] at hk' hok₁ hlive
      obtain ⟨s₂, hs₂⟩ := exists_createStack_fails hk' hmissing
      obtain ⟨kstack', r'', hk'', hfails⟩ := createStack_fails hok₁ hlive hs₂
      obtain ⟨rfl, rfl⟩ := Prod.mk.inj (Option.some.inj (hk''.symm.trans hk'))
      rw [if_neg hcap, hs₂] at hrun
      have hsame := (h 0 s₂ hrun).frames
      exact htakes.not_sameFrames fun g => (hfails.frames g).symm.trans (hsame g)

theorem CreateFits.releases (hok : HeapOk s.heap) (h : s.CreateFits) : s.CreateReleases := by
  intro entryPoint s₂ hrun
  cases hslot : s.allocTaskSlot with
  | none =>
    simp only [taskCreateUser, hslot, Option.some.injEq, Prod.mk.injEq, true_and] at hrun
    obtain rfl := hrun
    exact ⟨fun _ => Iff.rfl, rfl, rfl⟩
  | some x =>
    obtain ⟨t, s'⟩ := x
    obtain ⟨hfree, hres', -⟩ := allocTaskSlot_eq_some hslot
    cases hk : s.toResources.kmalloc capTableBytes with
    | none => simp [taskCreateUser, hslot, hres', hk] at hrun
    | some y =>
      obtain ⟨capTable, r⟩ := y
      have heff := Resources.kmalloc_effect hok (by decide) hk
      have hslots : s.freeSlots ≠ 0 := fun hz => by
        rw [allocTaskSlot_eq_none.mpr hz] at hslot
        cases hslot
      obtain ⟨hnone, hsome⟩ := h hslots capTable r hk
      obtain ⟨s₁, task, hres, htbl, he⟩ := taskCreateUser_of_kmalloc hslot hk entryPoint
      rw [he] at hrun
      by_cases hcap : capTable = 0
      · rw [if_pos hcap] at hrun
        obtain ⟨-, rfl⟩ := Prod.mk.inj (Option.some.inj hrun)
        have hfreed : SlotFreed t s₁.taskTable (s₁.giveUp t r).taskTable :=
          slotFreed_giveUp fun _ _ => rfl
        rw [htbl] at hfreed
        rcases heff.blocks with ⟨-, hsame⟩ | ⟨hne, -⟩
        · refine ⟨fun g => ?_, hsame, hfreed.of_update.freeSlots hfree⟩
          rw [← heff.kept (hnone hcap)]
          rfl
        · exact absurd hcap hne
      · rw [if_neg hcap] at hrun
        obtain ⟨n, hok₁, hlive, hback⟩ := heff.store_live hcap List.length_replicate.le
        rw [← hres] at hok₁ hlive hback
        obtain ⟨kstack, r', hk', hfails⟩ := createStack_fails hok₁ hlive hrun
        have heff' := Resources.kmalloc_effect hok₁ (by decide) hk'
        rw [hres] at hk' heff'
        have hkept : ¬ (s.toResources.Grows capTableBytes ∨
            (r.store capTable (List.replicate capTableBytes 0)).Grows taskKernelStackSize) :=
          fun hgrown => hfails.missing (hsome hcap kstack r' hk' hgrown)
        rw [not_or] at hkept
        have hslot := hfails.slot
        rw [htbl] at hslot
        have hvmm : r'.vmm = r.vmm := heff'.kept hkept.2
        refine ⟨?_, hfails.blocks.trans hback, hslot.of_update.freeSlots hfree⟩
        rw [← heff.kept hkept.1, ← hvmm]
        exact hfails.frames

/-- A creation that fails has released everything just when no page went to the heap before another
step failed. -/
theorem createReleases_iff (hok : HeapOk s.heap) : s.CreateReleases ↔ s.CreateFits :=
  ⟨CreateReleases.fits hok, CreateFits.releases hok⟩

/-! ## The fallback -/

theorem createSpace_succeeds {u : TaskPtr}
    (h : s.createSpace t capTable kstack entryPoint = some (some u, s')) :
    s'.heap = s.heap ∧ Takes s.vmm s'.vmm := by
  unfold createSpace at h
  cases hpml4 : allocFrame s.vmm.pmm with
  | none => simp [hpml4] at h
  | some x =>
    obtain ⟨pml4, pmm⟩ := x
    cases hustack : allocFrame pmm with
    | none => simp [hpml4, hustack] at h
    | some y =>
      obtain ⟨ustack, pmm'⟩ := y
      simp only [hpml4, hustack, Option.bind_eq_bind] at h
      obtain ⟨v, hmap, h⟩ := Option.bind_eq_some_iff.mp h
      obtain ⟨-, rfl⟩ := Prod.mk.inj (Option.some.inj h)
      refine ⟨rfl, ?_⟩
      have hfirst : Takes s.vmm { s.vmm with
          mem := copyUpperHalf s.vmm.mem pml4 (s.vmm.currentPml4.getD 0), pmm } :=
        takes_of_allocFrame hpml4 rfl
      have hsecond := (takes_of_allocFrame (v := { s.vmm with
          mem := copyUpperHalf s.vmm.mem pml4 (s.vmm.currentPml4.getD 0), pmm })
            hustack rfl).1.trans
        (vmmMapPage_shrinks hmap)
      exact hfirst.trans hsecond

theorem createStack_succeeds {u : TaskPtr} (hok : HeapOk s.heap)
    (h : s.createStack t capTable entryPoint = some (some u, s')) :
    HeapOk s'.heap ∧ Takes s.vmm s'.vmm := by
  unfold createStack at h
  cases hk : s.toResources.kmalloc taskKernelStackSize with
  | none => simp [hk] at h
  | some x =>
    obtain ⟨kstack, r⟩ := x
    have heff := Resources.kmalloc_effect hok (by decide) hk
    simp only [hk, Option.bind_eq_bind, Option.bind_some] at h
    split_ifs at h with hz
    · simp at h
    · obtain ⟨hheap, htakes⟩ := createSpace_succeeds h
      exact ⟨hheap ▸ heff.heap, heff.shrinks.trans_takes htakes⟩

theorem taskCreateUser_succeeds {u : TaskPtr} (hok : HeapOk s.heap)
    (h : s.taskCreateUser entryPoint = some (some u, s')) :
    HeapOk s'.heap ∧ Takes s.vmm s'.vmm := by
  cases hslot : s.allocTaskSlot with
  | none => simp [taskCreateUser, hslot] at h
  | some x =>
    obtain ⟨t, s₀⟩ := x
    obtain ⟨-, hres', -⟩ := allocTaskSlot_eq_some hslot
    cases hk : s.toResources.kmalloc capTableBytes with
    | none => simp [taskCreateUser, hslot, hres', hk] at h
    | some y =>
      obtain ⟨capTable, r⟩ := y
      have heff := Resources.kmalloc_effect hok (by decide) hk
      obtain ⟨s₁, task, hres, -, he⟩ := taskCreateUser_of_kmalloc hslot hk entryPoint
      rw [he] at h
      split_ifs at h with hcap
      · simp at h
      · obtain ⟨n, hok₁, -, -⟩ := heff.store_live hcap List.length_replicate.le
        rw [← hres] at hok₁
        obtain ⟨hok', htakes⟩ := createStack_succeeds hok₁ h
        rw [hres] at htakes
        exact ⟨hok', heff.shrinks.trans_takes htakes⟩

/-- `main` comes to the embedded image with the resources it had. -/
def FallbackReleases (s : LaunchState σ) (file : Option VfsFile) : Prop :=
  ∀ s', s.usbLaunch file = some (none, s') → Restored s s'

/-- With a creation that releases everything, the fallback has the resources there were just when
the load for a task that was created cannot fail: nobody releases that task. -/
theorem fallbackReleases_iff (hok : HeapOk s.heap) (hfits : s.CreateFits) (file : Option VfsFile) :
    s.FallbackReleases file ↔ ∀ utask s', s.taskCreateUser 0 = some (some utask, s') →
      Resources.VfsCompletes s'.toResources (s'.pml4Of utask) file := by
  constructor
  · intro h utask s₁ hcreate
    obtain ⟨hok₁, htakes⟩ := taskCreateUser_succeeds hok hcreate
    refine (Resources.vfsCompletes_iff 0).mpr fun rc entry r hs => ?_
    by_contra hrc
    have hrun : s.usbLaunch file = some (none, { s₁ with toResources := r }) := by
      simp [usbLaunch, hcreate, hs, hrc]
    have hshrinks := Resources.elfLoadFromVfs_shrinks hok₁ hs
    exact (htakes.trans hshrinks).not_sameFrames (h _ hrun).frames
  · intro h s₂ hrun
    simp only [usbLaunch, Option.bind_eq_bind] at hrun
    obtain ⟨⟨x, s₁⟩, hcreate, hrun⟩ := Option.bind_eq_some_iff.mp hrun
    cases x with
    | none =>
      obtain ⟨-, rfl⟩ := Prod.mk.inj (Option.some.inj hrun)
      exact (createReleases_iff hok).mpr hfits 0 s₁ hcreate
    | some utask =>
      obtain ⟨⟨rc, entry, r⟩, hs, hrun⟩ := Option.bind_eq_some_iff.mp hrun
      have hzero := (Resources.vfsCompletes_iff 0).mp (h utask s₁ hcreate) rc entry r hs
      simp [hzero] at hrun

end

end LaunchState

/-! ## All three together -/

section

variable {σ : Type} [FrameStore σ]

/-- Launches release everything when they fail: a creation, a load for a task, a load from a file,
and the way of `main` to the embedded image. -/
structure LaunchReleases (s : LaunchState σ) (pml4 : ℕ) (img : ElfImage) (file : Option VfsFile) :
    Prop where
  create : s.CreateReleases
  load : Resources.LoadReleases s.toResources pml4 img
  vfs : Resources.VfsReleases s.toResources pml4 file
  fallback : s.FallbackReleases file

/-- No page has been taken, for the heap or for the program, when a step fails, and `main` has no
task yet. -/
structure LaunchFits (s : LaunchState σ) (pml4 : ℕ) (img : ElfImage) (file : Option VfsFile) :
    Prop where
  create : s.CreateFits
  load : Resources.LoadFits s.vmm pml4 img
  vfs : Resources.VfsFits s.toResources pml4 file
  fallback : ∀ utask s', s.taskCreateUser 0 = some (some utask, s') →
    Resources.VfsCompletes s'.toResources (s'.pml4Of utask) file

theorem failed_launch_releases_iff (s : LaunchState σ) (hok : HeapOk s.heap) (pml4 : ℕ)
    (img : ElfImage) (file : Option VfsFile) :
    LaunchReleases s pml4 img file ↔ LaunchFits s pml4 img file := by
  constructor
  · intro h
    have hcreate := (LaunchState.createReleases_iff hok).mp h.create
    exact ⟨hcreate, Resources.loadReleases_iff.mp h.load,
      (Resources.vfsReleases_iff hok file).mp h.vfs,
      (LaunchState.fallbackReleases_iff hok hcreate file).mp h.fallback⟩
  · intro h
    exact ⟨(LaunchState.createReleases_iff hok).mpr h.create,
      Resources.loadReleases_iff.mpr h.load, (Resources.vfsReleases_iff hok file).mpr h.vfs,
      (LaunchState.fallbackReleases_iff hok h.create file).mpr h.fallback⟩

end

def sampleLaunch (h : Heap) : LaunchState FramePool where
  vmm := ⟨fun _ => 0, .sample, some 0xC000, 0xffff800000000000⟩
  heap := h
  taskTable _ := ⟨0, .unused, 0, 0, 0, ⟨0, 0, 0, 0, 0, 0, 0, 0⟩, 0⟩
  nextTaskId := 1

theorem sampleLaunch_ok {h : Heap} (hok : HeapOk h) : HeapOk (sampleLaunch h).heap := hok

/-- The heap after its start. -/
def sampleHeap : Heap := heapInit (fun _ => 0) fun _ => .frame fun _ => 0

theorem sampleHeap_ok : HeapOk sampleHeap := by
  rw [sampleHeap]
  exact heapInit_ok _ fun _ _ => ⟨_, rfl⟩

/-- The same machine with a task in every slot. -/
def sampleFull (h : Heap) : LaunchState FramePool where
  vmm := (sampleLaunch h).vmm
  heap := h
  taskTable _ := ⟨1, .ready, 0, 0, 0, ⟨0, 0, 0, 0, 0, 0, 0, 0⟩, 0⟩
  nextTaskId := 2

theorem sampleFull_ok {h : Heap} (hok : HeapOk h) : HeapOk (sampleFull h).heap := hok

/-- There is no slot, the image is no ELF file and the file is not there: all that is tried fails,
and nothing stays taken. -/
theorem failed_launch_releases_iff_sample :
    LaunchReleases (sampleFull sampleHeap) 0xC000 ⟨fun _ => 0, 176⟩ none := by
  apply (failed_launch_releases_iff _ (sampleFull_ok sampleHeap_ok) 0xC000 _ none).mpr
  have hslots : (sampleFull sampleHeap).freeSlots = 0 := by
    unfold LaunchState.freeSlots
    decide
  have hcreate : (sampleFull sampleHeap).taskCreateUser 0 = some (none, sampleFull sampleHeap) := by
    unfold LaunchState.taskCreateUser
    rfl
  have himage : ¬ (⟨fun _ => 0, 176⟩ : ElfImage).accepted := by
    rw [ElfImage.accepted]
    decide +kernel
  refine ⟨fun hfree => absurd hslots hfree, .refused himage, trivial, fun utask s' hmade => ?_⟩
  rw [hcreate] at hmade
  cases hmade

def cutTwo : ElfImage where
  data := storeLE sampleTwo.data 128 8 1000
  size := sampleTwo.size

/-- The page of the first segment stays taken and mapped when the second one is refused. -/
theorem failed_launch_not_released : ¬ ∀ (s : LaunchState FramePool), HeapOk s.heap →
    ∀ pml4 img file, LaunchReleases s pml4 img file := by
  intro h
  have hload := (h _ (sampleLaunch_ok sampleHeap_ok) 0xC000 cutTwo none).load
  cases Resources.loadReleases_iff.mp hload with
  | refused hno =>
    refine hno ?_
    rw [ElfImage.accepted]
    decide +kernel
  | nothing hno =>
    have hlen : (reachedWrites cutTwo cutTwo.phdrs).length = 1 := by decide +kernel
    simp [hno] at hlen
  | noFrame hno =>
    have hframe : (allocFrame (sampleLaunch sampleHeap).vmm.pmm).isSome = true := by decide +kernel
    simp [hno] at hframe
  | completes hc =>
    have hmaps : (mapWrites { (sampleLaunch sampleHeap).vmm with currentPml4 := some 0xC000 }
        (reachedWrites cutTwo cutTwo.phdrs)).isSome = true := by decide +kernel
    obtain ⟨r, hr⟩ := Option.isSome_iff_exists.mp hmaps
    have hout : ¬ AllInFile cutTwo cutTwo.phdrs := by decide +kernel
    exact hout (hc.2 r hr).2

end StyxOS
