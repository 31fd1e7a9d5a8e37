import StyxOS.Snapshot.Frames

/-! # Whether a resume is complete

A restore returns zero once the image is read and its buffer is allocated,
whatever becomes of the tasks and the pages. The session is all there exactly
when its tasks were there or come back under their own identifiers, every page
has a frame, and pages that share a frame agree.
-/

namespace StyxOS

open ByteMem ResumeState

/-! ## Copying the pages -/

section

variable {s : RamSession} {p : SnapshotPage}

theorem restorePage_frame : restorePage s p =
    if s.pageFrame p = 0 then s
      else { s with phys := store s.phys (s.pageFrame p) p.content.1 } := by
  unfold restorePage RamSession.pageFrame spaceFrame
  cases taskGet s.taskTable p.taskId with
  | none => rfl
  | some t =>
    by_cases h : (s.taskTable t).pml4 = 0
    · simp [h]
    · simp only [h, if_false]

def RamSession.pageStore (s : RamSession) (p : SnapshotPage) : ℕ × List UInt8 :=
  (s.pageFrame p, p.content.1)

theorem restorePages_eq (ps : List SnapshotPage) : ps.foldl restorePage s =
    { s with phys :=
      storeAll s.phys ((ps.filter fun p => s.pageFrame p ≠ 0).map s.pageStore) } := by
  induction ps generalizing s with
  | nil => rfl
  | cons p ps ih =>
    have hframe : (restorePage s p).pageFrame = s.pageFrame := by
      rw [restorePage_frame]
      split <;> rfl
    rw [List.foldl_cons, ih, hframe, restorePage_frame]
    have hstore : (restorePage s p).pageStore = s.pageStore := by
      funext q
      rw [RamSession.pageStore, hframe, RamSession.pageStore]
    rw [restorePage_frame] at hstore
    rw [hstore]
    by_cases h : s.pageFrame p = 0
    · rw [if_pos h, List.filter_cons_of_neg (by simp [h])]
    · rw [if_neg h, List.filter_cons_of_pos (by simp [h]), List.map_cons]
      rfl

/-- All pages are held in the end exactly when all have frames, and those that share one agree. -/
theorem restorePages_hold_iff (ps : List SnapshotPage) :
    (∀ p ∈ ps, s.pageFrame p ≠ 0 ∧
        load (ps.foldl restorePage s).phys (s.pageFrame p) 4096 = p.content.1) ↔
      (∀ p ∈ ps, s.pageFrame p ≠ 0) ∧
        ∀ p ∈ ps, ∀ q ∈ ps, Agree (s.pageStore p) (s.pageStore q) := by
  rw [forall₂_and]
  refine and_congr_right fun hframes => ?_
  have hall : (ps.filter fun p => s.pageFrame p ≠ 0) = ps :=
    List.filter_eq_self.mpr fun p hp => decide_eq_true (hframes p hp)
  have hheld := load_storeAll_iff s.phys (ps.map s.pageStore)
  simp only [List.forall_mem_map] at hheld
  rw [← hheld, restorePages_eq, hall]
  refine forall₂_congr fun p hp => ?_
  rw [RamSession.pageStore, p.content.2]

end

/-! ## A session that comes back -/

/-- The run queue has the saved tasks, and their pages are mapped and hold what was saved. -/
structure Resumed (s₁ : RamSession) (m : ResumeState) : Prop where
  queue : List.Forall₂ (Carries m) m.queueWords s₁.taskRecords
  pages : ∀ p ∈ s₁.pageRecords, ∀ t pml4, some t ∈ m.queueWords →
    m.spaces t = some (p.taskId, pml4) →
      spaceFrame m.pageTables pml4 p.virtAddr ≠ 0 ∧
        load m.phys (spaceFrame m.pageTables pml4 p.virtAddr) 4096 = p.content.1

/-- The end of a restore: the queue is set and the pages are copied. -/
def ResumeState.finish (m : ResumeState) (ws : List (Option TaskPtr)) (ps : List SnapshotPage) :
    ResumeState :=
  { m with
    toRamSession := ps.foldl restorePage { m.toRamSession with runQueue := ws.reduceOption }
    queueWords := ws }

/-- What a session needs to come back, of the machine before the restore. -/
structure ResumeState.CanResume (m : ResumeState) (env : ResumeEnv) (s₁ : RamSession) : Prop where
  tasks : m.TasksResume env 0 m.nextTaskId m.freeSlots s₁.taskRecords
  mapped : ∀ p ∈ s₁.pageRecords, m.resumeFrame env 0 s₁.taskRecords p ≠ 0
  agree : ∀ p ∈ s₁.pageRecords, ∀ q ∈ s₁.pageRecords,
    Agree (m.resumeFrame env 0 s₁.taskRecords p, p.content.1)
      (m.resumeFrame env 0 s₁.taskRecords q, q.content.1)

section

variable {s₁ : RamSession} {cpuid : CpuidFeatures} {env : ResumeEnv} {m m₀ m' : ResumeState}
  {p : SnapshotPage} {sts : List SnapshotTask} {ws : List (Option TaskPtr)} {i : ℕ}

theorem mem_pageRecords (hp : p ∈ s₁.pageRecords) : p.taskId ∈ s₁.taskRecords.map (·.id) := by
  obtain ⟨t, ht, hp⟩ := List.mem_flatMap.mp hp
  obtain ⟨x, -, rfl⟩ := List.mem_map.mp hp
  rw [RamSession.taskRecords, List.map_map]
  exact List.mem_map_of_mem ht

theorem inUse_taskRecords (h : ∀ t ∈ s₁.savedTasks, (s₁.taskTable t).state ≠ .unused) :
    ∀ st ∈ s₁.taskRecords, st.InUse := by
  intro st hst
  obtain ⟨t, ht, rfl⟩ := List.mem_map.mp hst
  rw [SnapshotTask.InUse, RamSession.taskRecord, TaskState.ofCode_code]
  exact h t ht

theorem nodup_taskRecords (h : (s₁.savedTasks.map fun t => (s₁.taskTable t).id).Nodup) :
    (s₁.taskRecords.map (·.id)).Nodup := by
  rwa [RamSession.taskRecords, List.map_map]

theorem resumeImage_image (m : ResumeState) (env : ResumeEnv) (cpuid : CpuidFeatures)
    (ht : s₁.totalSectors < oramNumLeaves) :
    ∃ pool used, m.resumeImage env (s₁.image cpuid) =
      (resumeTasks env 0 s₁.taskRecords { m with epPool := pool, epPoolUsed := used }).map fun r =>
        r.2.finish r.1 s₁.pageRecords := by
  have hinfo : Layout.headerInfo.decode (s₁.image cpuid).header.1 =
      (s₁.header cpuid).toHeaderInfo := RamSession.image_info
  obtain ⟨htc, hpc⟩ : (s₁.header cpuid).taskCount.toNat = s₁.taskRecords.length ∧
      (s₁.header cpuid).pageCount.toNat = s₁.pageRecords.length := RamSession.header_counts ht
  let header := Layout.header.decode ((s₁.image cpuid).header.1 ++ env.tail.1)
  refine ⟨header.capPool, header.capPoolUsed, ?_⟩
  unfold resumeImage
  dsimp only [header]
  rw [decode_header, hinfo, RamSession.flatMap_blocks, htc, hpc, RamSession.decode_tasks,
    RamSession.decode_pages, Option.bind_eq_bind]
  cases resumeTasks env 0 s₁.taskRecords _ with
  | none => rfl
  | some r => rfl

theorem resumeFrame_pool {pool : Bytes 512} {used : Bytes 16} :
    ({ m with epPool := pool, epPoolUsed := used } : ResumeState).resumeFrame env i sts p =
      m.resumeFrame env i sts p := by
  induction sts generalizing i with
  | nil => rfl
  | cons st sts ih =>
    rw [resumeFrame, resumeFrame, ih]
    rfl

theorem ResumeState.Fresh.pool {pool : Bytes 512} {used : Bytes 16} (hf : Fresh env i m) :
    Fresh env i { m with epPool := pool, epPoolUsed := used } :=
  ⟨hf.nonnull, hf.frames, hf.nodup, hf.apart, hf.unread⟩

theorem space_page_iff (P : ℕ → Prop) (hws : ws = sts.map fun st => spaceGet m.spaces st.id)
    (hcarry : List.Forall₂ (Carries m) ws sts) (hp : p.taskId ∈ sts.map (·.id)) :
    (∀ t pml4, some t ∈ ws → m.spaces t = some (p.taskId, pml4) →
        P (spaceFrame m.pageTables pml4 p.virtAddr)) ↔ P (m.pageFrame p) := by
  constructor
  · intro h
    obtain ⟨st, hst, hid⟩ := List.mem_map.mp hp
    obtain ⟨k, hk, rfl⟩ := List.mem_iff_getElem.mp hst
    obtain ⟨hlen, hall⟩ := List.forall₂_iff_get.mp hcarry
    obtain ⟨t, pml4, hword, ht⟩ := hall k (hlen ▸ hk) hk
    have hmem : some t ∈ ws := hword ▸ List.get_mem ws _
    have hget : spaceGet m.spaces p.taskId = some t := by
      rw [← hid, ← hword]
      simp [hws]
    rw [List.get_eq_getElem, hid] at ht
    rw [pageFrame_eq hget ht]
    exact h t pml4 hmem ht
  · intro h t pml4 hmem ht
    rw [hws] at hmem
    obtain ⟨st, -, hget⟩ := List.mem_map.mp hmem
    obtain ⟨p₄, hslot⟩ := spaceGet_some hget
    have hid : p.taskId = st.id := (Prod.mk.inj (Option.some.inj (ht.symm.trans hslot))).1
    rwa [pageFrame_eq (hid ▸ hget) ht] at h

theorem finish_eq {ps : List SnapshotPage} : m.finish ws ps =
    { m with
      runQueue := ws.reduceOption
      phys := (ps.foldl restorePage m.toRamSession).phys
      queueWords := ws } := by
  rw [ResumeState.finish, restorePages_eq, restorePages_eq]
  rfl

/-- The pages after the restore, where the tasks can resume. -/
theorem finish_pages_iff (hin : ∀ st ∈ s₁.taskRecords, st.InUse)
    (hids : (s₁.taskRecords.map (·.id)).Nodup) (hf : Fresh env 0 m)
    (hrun : resumeTasks env 0 s₁.taskRecords m = some (ws, m'))
    (hres : m.TasksResume env 0 m.nextTaskId m.freeSlots s₁.taskRecords) :
    (∀ p ∈ s₁.pageRecords, ∀ t pml4, some t ∈ ws → m'.spaces t = some (p.taskId, pml4) →
        spaceFrame m'.pageTables pml4 p.virtAddr ≠ 0 ∧
          load (s₁.pageRecords.foldl restorePage m'.toRamSession).phys
            (spaceFrame m'.pageTables pml4 p.virtAddr) 4096 = p.content.1) ↔
      (∀ p ∈ s₁.pageRecords, m.resumeFrame env 0 s₁.taskRecords p ≠ 0) ∧
        ∀ p ∈ s₁.pageRecords, ∀ q ∈ s₁.pageRecords,
          Agree (m.resumeFrame env 0 s₁.taskRecords p, p.content.1)
            (m.resumeFrame env 0 s₁.taskRecords q, q.content.1) := by
  have hws := hf.tasks_run hin hids hrun hres
  have hcarry := (resumeTasks_carries_iff hin hids hrun).mpr hres
  have hframe : ∀ p ∈ s₁.pageRecords, m'.pageFrame p = m.resumeFrame env 0 s₁.taskRecords p :=
    fun p hp => hf.resumeFrame_run hin hids hrun hres (mem_pageRecords hp)
  have hheld := restorePages_hold_iff (s := m'.toRamSession) s₁.pageRecords
  calc
    _ ↔ ∀ p ∈ s₁.pageRecords, m'.pageFrame p ≠ 0 ∧
        load (s₁.pageRecords.foldl restorePage m'.toRamSession).phys (m'.pageFrame p) 4096 =
          p.content.1 :=
      forall₂_congr fun p hp => space_page_iff
        (fun f => f ≠ 0 ∧ load (s₁.pageRecords.foldl restorePage m'.toRamSession).phys f 4096 =
          p.content.1) hws hcarry (mem_pageRecords hp)
    _ ↔ _ := hheld
    _ ↔ _ := by
      unfold RamSession.pageStore
      refine and_congr ?_ ?_
      · exact forall₂_congr fun p hp => by rw [hframe p hp]
      · exact forall₂_congr fun p hp => forall₂_congr fun q hq => by rw [hframe p hp, hframe q hq]

theorem resumed_finish_iff (hin : ∀ st ∈ s₁.taskRecords, st.InUse)
    (hids : (s₁.taskRecords.map (·.id)).Nodup) (hf : Fresh env 0 m)
    (hrun : resumeTasks env 0 s₁.taskRecords m = some (ws, m')) :
    Resumed s₁ (m'.finish ws s₁.pageRecords) ↔ m.CanResume env s₁ := by
  have htasks := resumeTasks_carries_iff hin hids hrun
  rw [finish_eq]
  constructor
  · intro h
    have hres := htasks.mp h.queue
    obtain ⟨hmapped, hagree⟩ := (finish_pages_iff hin hids hf hrun hres).mp h.pages
    exact ⟨hres, hmapped, hagree⟩
  · rintro ⟨hres, hmapped, hagree⟩
    have hpages := (finish_pages_iff hin hids hf hrun hres).mpr ⟨hmapped, hagree⟩
    exact ⟨htasks.mpr hres, hpages⟩

theorem canResume_pool {pool : Bytes 512} {used : Bytes 16} :
    ({ m with epPool := pool, epPoolUsed := used } : ResumeState).CanResume env s₁ ↔
      m.CanResume env s₁ := by
  have htasks : ({ m with epPool := pool, epPoolUsed := used } : ResumeState).TasksResume env 0
      m.nextTaskId m.freeSlots s₁.taskRecords ↔
      m.TasksResume env 0 m.nextTaskId m.freeSlots s₁.taskRecords :=
    tasksResume_congr fun _ _ => rfl
  constructor
  · rintro ⟨hres, hmapped, hagree⟩
    simp only [resumeFrame_pool] at hmapped hagree
    exact ⟨htasks.mp hres, hmapped, hagree⟩
  · rintro ⟨hres, hmapped, hagree⟩
    refine ⟨htasks.mpr hres, ?_, ?_⟩
    · simpa only [resumeFrame_pool] using hmapped
    · simpa only [resumeFrame_pool] using hagree

theorem resumed_image_iff (hin : ∀ st ∈ s₁.taskRecords, st.InUse)
    (hids : (s₁.taskRecords.map (·.id)).Nodup) (ht : s₁.totalSectors < oramNumLeaves)
    (hf : Fresh env 0 m) (h : m.resumeImage env (s₁.image cpuid) = some m') :
    Resumed s₁ m' ↔ m.CanResume env s₁ := by
  obtain ⟨pool, used, himage⟩ := resumeImage_image m env cpuid ht
  rw [himage] at h
  obtain ⟨⟨ws, m₂⟩, hrun, rfl⟩ := Option.map_eq_some_iff.mp h
  rw [resumed_finish_iff hin hids hf.pool hrun, canResume_pool]

theorem snapshotResume_eq (h : readImage m.gcmCtx m.oram = some (s₁.image cpuid)) :
    m.snapshotResume env =
      if env.allocated then (m.resumeImage env (s₁.image cpuid)).map (0, ·) else some (-1, m) := by
  rw [snapshotResume, h]
  cases env.allocated <;> rfl

/-- A restore that returns zero has brought the session back, and one that returns -1 has done
nothing, exactly when its buffer is not allocated or the session can resume. -/
theorem snapshot_resume_iff {r : ℤ × ResumeState}
    (hin : ∀ t ∈ s₁.savedTasks, (s₁.taskTable t).state ≠ .unused)
    (hids : (s₁.savedTasks.map fun t => (s₁.taskTable t).id).Nodup)
    (himage : readImage m.gcmCtx m.oram = some (s₁.image cpuid)) (hf : Fresh env 0 m)
    (h : m.snapshotResume env = some r) :
    ((r.1 = 0 → Resumed s₁ r.2) ∧ (r.1 = -1 → r.2 = m)) ↔
      (env.allocated = true → m.CanResume env s₁) := by
  have ht : s₁.totalSectors < oramNumLeaves := by
    obtain ⟨-, -, hlt, -⟩ := readImage_eq_some.mp himage
    rwa [RamSession.length_blocks] at hlt
  rw [snapshotResume_eq himage] at h
  cases halloc : env.allocated with
  | false =>
    rw [halloc] at h
    obtain rfl := Option.some.inj h
    simp
  | true =>
    rw [halloc, if_pos rfl] at h
    obtain ⟨m', hresume, rfl⟩ := Option.map_eq_some_iff.mp h
    have hiff := resumed_image_iff (inUse_taskRecords hin) (nodup_taskRecords hids) ht hf hresume
    simp [hiff]

/-! ## When the machine does not halt -/

theorem taskCreateUser_of_not_succeeds {a : CreateAllocs} {entryPoint : UInt64}
    (h : ¬ a.Succeeds) : ∃ r, m.taskCreateUser a entryPoint = some r := by
  unfold ResumeState.taskCreateUser
  cases m.allocTaskSlot with
  | none => exact ⟨_, rfl⟩
  | some r =>
    dsimp only
    split_ifs with hcap hstack hpml4 hustack
    · exact ⟨_, rfl⟩
    · exact ⟨_, rfl⟩
    · exact ⟨_, rfl⟩
    · exact ⟨_, rfl⟩
    · exact absurd ⟨hcap, hstack, hpml4, hustack⟩ h

theorem resumeTasks_of_not_succeeds (h : ∀ j, ¬ (env.allocs j).Succeeds) (i : ℕ)
    (sts : List SnapshotTask) (m : ResumeState) : ∃ r, resumeTasks env i sts m = some r := by
  induction sts generalizing i m with
  | nil => exact ⟨_, rfl⟩
  | cons st sts ih =>
    have hfind : ∃ r, m.findTask (env.allocs i) st = some r := by
      unfold ResumeState.findTask
      cases taskGet m.taskTable st.id with
      | some t => exact ⟨_, rfl⟩
      | none =>
        dsimp only
        split
        · exact taskCreateUser_of_not_succeeds (h i)
        · exact ⟨_, rfl⟩
    obtain ⟨⟨o, m₁⟩, hfind⟩ := hfind
    obtain ⟨r, htail⟩ := ih (i + 1) (m₁.writeBack st o)
    rw [resumeTasks, hfind, Option.bind_eq_bind, Option.bind_some]
    dsimp only
    rw [htail]
    exact ⟨_, rfl⟩

theorem snapshotResume_of_not_succeeds (h : ∀ j, ¬ (env.allocs j).Succeeds) :
    ∃ r, m.snapshotResume env = some r := by
  unfold snapshotResume
  cases readImage m.gcmCtx m.oram with
  | none => exact ⟨_, rfl⟩
  | some img =>
    dsimp only
    split
    · exact ⟨_, rfl⟩
    · unfold resumeImage
      dsimp only
      generalize Layout.header.decode (img.header.1 ++ env.tail.1) = header
      generalize Layout.task.decodeList header.taskCount.toNat _ = sts
      obtain ⟨r, hrun⟩ := resumeTasks_of_not_succeeds h 0 sts
        { m with epPool := header.capPool, epPoolUsed := header.capPoolUsed }
      rw [hrun]
      exact ⟨_, rfl⟩

end

/-! ## Where nothing is created -/

section

variable {s₁ : RamSession} {cpuid : CpuidFeatures} {env : ResumeEnv} {m : ResumeState}

/-- Where the saved tasks are there, the loop over the records does what it does to the session
alone. -/
theorem resumeTasks_of_found (env : ResumeEnv) (renv : RestoreEnv) (i j : ℕ) (ts : List TaskPtr)
    (huse : ∀ t ∈ s₁.runQueue, (s₁.taskTable t).state ≠ .unused)
    (hts : ∀ t ∈ ts, t ∈ s₁.runQueue) (h : TasksFound s₁ m.toRamSession) :
    ∃ s, restoreTasks renv j (ts.map fun t => s₁.taskRecord (s₁.taskTable t)) m.toRamSession =
        (ts, s) ∧
      resumeTasks env i (ts.map fun t => s₁.taskRecord (s₁.taskTable t)) m =
        some (ts.map some, { m with toRamSession := s }) := by
  induction ts generalizing i j m with
  | nil => exact ⟨m.toRamSession, rfl, rfl⟩
  | cons t ts ih =>
    have ht : t ∈ s₁.runQueue := hts t (by simp)
    have hget := h.taskGet ht
    have hid : (s₁.taskRecord (s₁.taskTable t)).id = (s₁.taskTable t).id := rfl
    have hnext : TasksFound s₁
        (m.writeBack (s₁.taskRecord (s₁.taskTable t)) (some t)).toRamSession := by
      rw [writeBack, h.restoreTask_eq ht]
      exact h.restored huse ht
    obtain ⟨s, hrestore, hresume⟩ := ih (i + 1) (j + 1) (fun u hu => hts u (by simp [hu])) hnext
    refine ⟨s, ?_, ?_⟩
    · rw [List.map_cons, restoreTasks, hid, hget]
      dsimp only
      rw [writeBack] at hrestore
      rw [hrestore]
    · rw [List.map_cons, resumeTasks, findTask, hid, hget, Option.bind_eq_bind, Option.bind_some]
      dsimp only
      rw [hresume]
      rfl

/-- A resume of a session that is left in place is a restore of it. -/
theorem snapshotResume_of_inPlace {renv : RestoreEnv} (hc : s₁.Consistent)
    (hsave : (snapshotSave true cpuid s₁).1 = 0) (h : LeftInPlace cpuid s₁ m.toRamSession)
    (halloc : renv.allocated = env.allocated) (htail : renv.tail = env.tail) :
    ∃ ws, m.snapshotResume env = some ((snapshotRestore renv m.toRamSession).1,
      { m with
        toRamSession := (snapshotRestore renv m.toRamSession).2
        queueWords := ws }) := by
  obtain ⟨-, ht⟩ := snapshotSave_eq_zero.mp hsave
  rw [snapshotResume_eq (h.readImage hsave), h.snapshotRestore_eq hsave, halloc]
  cases env.allocated with
  | false => exact ⟨m.queueWords, rfl⟩
  | true =>
    have hinfo : Layout.headerInfo.decode (s₁.image cpuid).header.1 =
        (s₁.header cpuid).toHeaderInfo := RamSession.image_info
    obtain ⟨htc, hpc⟩ : (s₁.header cpuid).taskCount.toNat = s₁.taskRecords.length ∧
        (s₁.header cpuid).pageCount.toNat = s₁.pageRecords.length := RamSession.header_counts ht
    have hrecords : s₁.taskRecords = s₁.runQueue.map fun t => s₁.taskRecord (s₁.taskTable t) := by
      rw [RamSession.taskRecords, hc.savedTasks_eq]
    refine ⟨s₁.runQueue.map some, ?_⟩
    rw [if_pos rfl, if_pos rfl, resumeImage, installImage, htail]
    dsimp only
    rw [decode_header, hinfo, RamSession.flatMap_blocks, htc, hpc, RamSession.decode_tasks,
      RamSession.decode_pages, hrecords]
    generalize Bytes.ofList 512 _ = pool
    generalize Bytes.ofList 16 _ = used
    have htasks : TasksFound s₁
      ({ m with epPool := pool, epPoolUsed := used } : ResumeState).toRamSession := h.tasks
    obtain ⟨s, hrestore, hresume⟩ := resumeTasks_of_found env renv 0 0 s₁.runQueue
      hc.inUse (fun _ ht => ht) htasks
    have hqueue : (s₁.runQueue.map some).reduceOption = s₁.runQueue :=
      List.filterMap_map.trans List.filterMap_some
    rw [hresume, hrestore, Option.bind_eq_bind, Option.bind_some]
    dsimp only
    rw [hqueue]
    rfl

end

/-! ## A machine without memory for tasks -/

/-- A restore whose buffer is allocated, but nothing for tasks, with zeros on the stack. -/
def bareEnv : ResumeEnv where
  allocated := true
  tail := Bytes.zero 88
  stackTasks := fun _ => none
  allocs := fun _ => ⟨0, 0, 0, 0, []⟩

/-- The session of the sample later, where the task is still there. -/
def laterState : ResumeState where
  toRamSession := laterSession 0
  nextTaskId := 2
  currentPml4 := 1
  queueWords := [some 0]

/-- The same without any task. -/
def emptyState : ResumeState :=
  { laterState with
    taskTable := fun _ => ⟨0, .unused, 0, 0, 0, ⟨0, 0, 0, 0, 0, 0, 0, 0⟩, 0⟩
    runQueue := []
    queueWords := [] }

theorem not_succeeds_bareEnv (j : ℕ) : ¬ (bareEnv.allocs j).Succeeds := fun h => h.1 rfl

theorem fresh_bareEnv {m : ResumeState} : Fresh bareEnv 0 m := by
  have hnone : ∀ j h, (bareEnv.allocs j).newTables h = [] := fun j h => if_pos rfl
  constructor
  · intro j _ hpml4
    exact absurd rfl hpml4
  · intro j _ f hf
    cases hf
  · intro j _
    rw [hnone]
    exact List.nodup_nil
  · intro j k _ _ _ x hx
    rw [hnone] at hx
    cases hx
  · intro j _ x hx
    rw [hnone] at hx
    cases hx

theorem laterState_readImage :
    readImage laterState.gcmCtx laterState.oram = some ((pagedSession 0).image someCpu) :=
  (laterSession_inPlace 0).readImage (pagedSession_saved 0)

theorem pagedSession_inUse :
    ∀ t ∈ (pagedSession 0).savedTasks, ((pagedSession 0).taskTable t).state ≠ .unused := by
  intro t ht
  obtain rfl := List.mem_singleton.mp ht
  decide

theorem pagedSession_ids :
    ((pagedSession 0).savedTasks.map fun t => ((pagedSession 0).taskTable t).id).Nodup :=
  List.nodup_singleton _

theorem pagedSession_pageRecords : (pagedSession 0).pageRecords =
    [(pagedSession 0).pageRecord ((pagedSession 0).taskTable 0) (0, 0x1000)] := by
  have hqueue : (pagedSession 0).savedTasks = [0] := rfl
  have hpml4 : ((pagedSession 0).taskTable 0).pml4 ≠ 0 := by decide
  have hpath : PageTables.pathAddr 0 0 0 0 = 0 := rfl
  have haddr : pteAddr 0x1007 = 0x1000 := rfl
  rw [RamSession.pageRecords, hqueue, List.flatMap_singleton, RamSession.taskPages, if_neg hpml4]
  simp only [PageTables.userPages, pagedSession_userEntries, List.flatMap_singleton,
    List.map_singleton, hpath, haddr]

theorem laterState_canResume : laterState.CanResume bareEnv (pagedSession 0) := by
  have hrecords : (pagedSession 0).taskRecords =
      [(pagedSession 0).taskRecord ((pagedSession 0).taskTable 0)] := rfl
  have hget : (taskGet laterState.taskTable ((pagedSession 0).taskTable 0).id).isSome = true := by
    decide
  constructor
  · rw [hrecords]
    exact (if_pos hget).mpr trivial
  · rw [pagedSession_pageRecords, hrecords]
    simp only [List.forall_mem_singleton]
    have hframe : laterState.pageFrame ((pagedSession 0).pageRecord ((pagedSession 0).taskTable 0)
        (0, 0x1000)) = 0x1000 := by decide +kernel
    have hid : ((pagedSession 0).taskRecord ((pagedSession 0).taskTable 0)).id =
        ((pagedSession 0).pageRecord ((pagedSession 0).taskTable 0) (0, 0x1000)).taskId := rfl
    rw [resumeFrame, if_pos hid]
    exact ne_of_eq_of_ne ((if_pos hget).trans hframe) (by decide)
  · rw [pagedSession_pageRecords]
    simp only [List.forall_mem_singleton]
    intro i j hi hj hij
    have hsame : i = j := Nat.add_left_cancel hij
    simp only [hsame]

/-- The session comes back where its task and its page are still there. -/
theorem snapshot_resume_iff_sample : ∃ r, laterState.snapshotResume bareEnv = some r ∧
    (r.1 = 0 → Resumed (pagedSession 0) r.2) ∧ (r.1 = -1 → r.2 = laterState) := by
  obtain ⟨r, hr⟩ := snapshotResume_of_not_succeeds not_succeeds_bareEnv (m := laterState)
  refine ⟨r, hr, ?_⟩
  exact (snapshot_resume_iff pagedSession_inUse pagedSession_ids laterState_readImage fresh_bareEnv
    hr).mpr fun _ => laterState_canResume

/-- Where the task is gone and cannot be created, a restore returns zero without it. -/
theorem snapshot_resume_incomplete :
    readImage emptyState.gcmCtx emptyState.oram = some ((pagedSession 0).image someCpu) ∧
      Fresh bareEnv 0 emptyState ∧
      ∃ r, emptyState.snapshotResume bareEnv = some r ∧ r.1 = 0 ∧
        ¬ Resumed (pagedSession 0) r.2 := by
  have himage : readImage emptyState.gcmCtx emptyState.oram =
      some ((pagedSession 0).image someCpu) := by
    have hkey : emptyState.snapshotKey = laterState.snapshotKey := rfl
    have hstore : emptyState.oram = laterState.oram := by simp only [emptyState]
    rw [RamSession.gcmCtx, hkey, hstore, ← RamSession.gcmCtx, laterState_readImage]
  refine ⟨himage, fresh_bareEnv, ?_⟩
  obtain ⟨r, hr⟩ := snapshotResume_of_not_succeeds not_succeeds_bareEnv (m := emptyState)
  refine ⟨r, hr, ?_⟩
  have halloc : bareEnv.allocated = true := rfl
  rw [snapshotResume_eq himage, if_pos halloc] at hr
  obtain ⟨m', hresume, rfl⟩ := Option.map_eq_some_iff.mp hr
  refine ⟨rfl, fun hres => ?_⟩
  have ht : (pagedSession 0).totalSectors < oramNumLeaves := by
    rw [pagedSession_totalSectors]
    decide
  have hcan := (resumed_image_iff (inUse_taskRecords pagedSession_inUse)
    (nodup_taskRecords pagedSession_ids) ht fresh_bareEnv hresume).mp hres
  have htasks := hcan.tasks
  have hget : (taskGet emptyState.taskTable 1).isSome ≠ true := by decide
  have hcreate := ((if_neg hget).mp htasks).1
  exact not_succeeds_bareEnv 0 (hcreate.2.2 (by decide))

end StyxOS
