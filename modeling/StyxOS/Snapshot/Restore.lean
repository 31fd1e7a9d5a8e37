import StyxOS.Snapshot.Session

/-! # Undoing changes with a snapshot

A restore finds the records where the save put them, and writes back every
task, capability table and page. Of the header only 480 of its 568 bytes are
stored, so the end of the endpoint pool and the in-use flags come from the
stack: a restore reinstates the session exactly when its buffer is allocated
and the stack happens to hold the bytes that were not stored.
-/

namespace StyxOS

open ByteMem

/-! ## Finding the records -/

theorem flatMap_chunks (n : ℕ) (bs : List UInt8) (h : bs.length ≤ n * 480) :
    ((List.range n).map fun i => Bytes.ofList 480 (bs.drop (i * 480))).flatMap (·.1) =
      bs ++ List.replicate (n * 480 - bs.length) 0 := by
  induction n generalizing bs with
  | zero =>
    have hb : bs = [] := List.length_eq_zero_iff.mp (by omega)
    simp [hb]
  | succ n ih =>
    have htail : ∀ i, bs.drop ((i + 1) * 480) = (bs.drop 480).drop (i * 480) := by
      intro i
      rw [List.drop_drop]
      congr 1
      omega
    have hih := ih (bs.drop 480) (by rw [List.length_drop]; omega)
    simp only [List.flatMap_map, Bytes.val_ofList] at hih
    rw [List.flatMap_map, List.range_succ_eq_map, List.flatMap_cons, List.flatMap_map]
    simp only [Nat.succ_eq_add_one, htail, Nat.zero_mul, List.drop_zero, Bytes.val_ofList, hih]
    rcases Nat.lt_or_ge bs.length 480 with hs | hs
    · have hd : bs.drop 480 = [] := List.drop_eq_nil_of_le (by omega)
      have hl : min (480 - bs.length) 480 + (n * 480 - 0) = (n + 1) * 480 - bs.length := by omega
      rw [hd, List.nil_append, List.length_nil, List.take_append, List.take_of_length_le hs.le,
        List.take_replicate, List.append_assoc, ← List.replicate_add, hl]
    · have hl : n * 480 - (bs.length - 480) = (n + 1) * 480 - bs.length := by omega
      rw [List.take_append_of_le_length hs, ← List.append_assoc, List.take_append_drop,
        List.length_drop, hl]

namespace RamSession

variable {s : RamSession} {cpuid : CpuidFeatures}

theorem flatMap_blocks :
    (s.image cpuid).blocks.flatMap (·.1) =
      s.payload ++ List.replicate (s.totalSectors * 480 - s.payload.length) 0 := by
  apply flatMap_chunks
  rw [totalSectors]
  omega

theorem header_counts (h : s.totalSectors < oramNumLeaves) :
    (s.header cpuid).taskCount.toNat = s.taskRecords.length ∧
      (s.header cpuid).pageCount.toNat = s.pageRecords.length := by
  have hlen := s.length_payload
  have hn : oramNumLeaves = 64 := rfl
  rw [totalSectors] at h
  constructor
  · exact UInt32.toNat_ofNat_of_lt' (by change _ < 2 ^ 32; omega)
  · exact UInt32.toNat_ofNat_of_lt' (by change _ < 2 ^ 32; omega)

theorem decode_tasks (rest : List UInt8) :
    Layout.task.decodeList s.taskRecords.length (s.payload ++ rest) = s.taskRecords := by
  rw [payload, List.append_assoc, Layout.decodeList_encodeList]

theorem decode_pages (rest : List UInt8) :
    Layout.page.decodeList s.pageRecords.length
      ((s.payload ++ rest).drop (s.taskRecords.length * Layout.task.size)) = s.pageRecords := by
  rw [payload, List.append_assoc, List.drop_left' (Layout.task.length_encodeList _),
    Layout.decodeList_encodeList]

end RamSession

/-! ## Finding the tasks -/

theorem taskGet_of_unique {tbl : TaskTable} {id : UInt32} {t : TaskPtr}
    (hs : (tbl t).state ≠ .unused) (hid : (tbl t).id = id)
    (hu : ∀ u, (tbl u).state ≠ .unused → (tbl u).id = id → u = t) : taskGet tbl id = some t := by
  cases hg : taskGet tbl id with
  | none =>
    have hn := List.find?_eq_none.mp hg t (List.mem_finRange t)
    simp [hs, hid] at hn
  | some u =>
    obtain ⟨hus, huid⟩ := taskGet_some hg
    rw [hu u hus huid]

/-- The saved tasks are in their slots, with their identifiers, tables and page tables. -/
def TasksFound (s₁ s : RamSession) : Prop :=
  ∀ t ∈ s₁.runQueue, (s.taskTable t).state ≠ .unused ∧
    (s.taskTable t).id = (s₁.taskTable t).id ∧
    (s.taskTable t).capTable = (s₁.taskTable t).capTable ∧
    (s.taskTable t).pml4 = (s₁.taskTable t).pml4 ∧
    ∀ u, (s.taskTable u).state ≠ .unused → (s.taskTable u).id = (s₁.taskTable t).id → u = t

section
variable {s₁ s : RamSession}

theorem TasksFound.taskGet (h : TasksFound s₁ s) {t : TaskPtr} (ht : t ∈ s₁.runQueue) :
    StyxOS.taskGet s.taskTable (s₁.taskTable t).id = some t := by
  obtain ⟨hs, hid, -, -, hu⟩ := h t ht
  exact taskGet_of_unique hs hid hu

theorem TasksFound.restoreTask_eq (h : TasksFound s₁ s) {t : TaskPtr} (ht : t ∈ s₁.runQueue) :
    restoreTask s t (s₁.taskRecord (s₁.taskTable t)) =
      { s with
        taskTable := Function.update s.taskTable t (s₁.taskTable t)
        capTables :=
          if (s₁.taskTable t).pml4 ≠ 0 ∧ (s₁.taskTable t).capTable ≠ 0 then
            Function.update s.capTables (s₁.taskTable t).capTable
              (s₁.capTables (s₁.taskTable t).capTable)
          else s.capTables } := by
  obtain ⟨-, hid, hcap, hpml4, -⟩ := h t ht
  have hpm : (if (s₁.taskTable t).pml4 ≠ 0 then (1 : UInt32) else 0) ≠ 0 ↔
      (s₁.taskTable t).pml4 ≠ 0 := by
    split <;> simp_all
  unfold restoreTask RamSession.taskRecord
  dsimp only
  rw [TaskState.ofCode_code, hid, hcap, hpml4]
  congr 1
  by_cases hc : (s₁.taskTable t).capTable ≠ 0
  · simp only [hpm, hc, if_true, ne_eq, not_false_eq_true, and_true]
  · rw [if_neg (fun hh => hc hh.2), if_neg (fun hh => hc hh.2)]

theorem TasksFound.restored (h : TasksFound s₁ s)
    (huse : ∀ t ∈ s₁.runQueue, (s₁.taskTable t).state ≠ .unused) {t : TaskPtr}
    (ht : t ∈ s₁.runQueue) :
    TasksFound s₁ { s with taskTable := Function.update s.taskTable t (s₁.taskTable t) } := by
  intro v hv
  obtain ⟨hs, hid, hcap, hpml4, hu⟩ := h v hv
  obtain ⟨hts, htid, -, -, -⟩ := h t ht
  have huniq : ∀ u, (Function.update s.taskTable t (s₁.taskTable t) u).state ≠ .unused →
      (Function.update s.taskTable t (s₁.taskTable t) u).id = (s₁.taskTable v).id → u = v := by
    intro u hus huid
    by_cases hut : u = t
    · subst hut
      rw [Function.update_self] at huid
      exact hu u hts (htid.trans huid)
    · rw [Function.update_of_ne hut] at hus huid
      exact hu u hus huid
  by_cases hvt : v = t
  · subst hvt
    refine ⟨?_, ?_, ?_, ?_, huniq⟩ <;> dsimp only <;> rw [Function.update_self]
    exact huse v hv
  · refine ⟨?_, ?_, ?_, ?_, huniq⟩ <;> dsimp only <;> rw [Function.update_of_ne hvt]
    exacts [hs, hid, hcap, hpml4]

/-- What the loop over the task records leaves: the tasks and tables as they were saved, and
nothing else touched. -/
theorem restoreTasks_spec (env : RestoreEnv)
    (huse : ∀ t ∈ s₁.runQueue, (s₁.taskTable t).state ≠ .unused) (i : ℕ) (ts : List TaskPtr)
    (hts : ∀ t ∈ ts, t ∈ s₁.runQueue) (h : TasksFound s₁ s) :
    ∃ tbl caps, restoreTasks env i (ts.map fun t => s₁.taskRecord (s₁.taskTable t)) s =
        (ts, { s with taskTable := tbl, capTables := caps }) ∧
      TasksFound s₁ { s with taskTable := tbl, capTables := caps } ∧
      (∀ t, t ∈ ts ∨ s.taskTable t = s₁.taskTable t → tbl t = s₁.taskTable t) ∧
      (∀ p, s.capTables p = s₁.capTables p ∨
          (∃ t ∈ ts, (s₁.taskTable t).pml4 ≠ 0 ∧ (s₁.taskTable t).capTable ≠ 0 ∧
            (s₁.taskTable t).capTable = p) →
        caps p = s₁.capTables p) := by
  induction ts generalizing i s with
  | nil =>
    refine ⟨s.taskTable, s.capTables, rfl, h, ?_, ?_⟩
    · rintro t (ht | ht)
      · cases ht
      · exact ht
    · rintro p (hp | ⟨t, ht, -⟩)
      · exact hp
      · cases ht
  | cons t ts ih =>
    have ht : t ∈ s₁.runQueue := hts t (by simp)
    have hget := h.taskGet ht
    have hfound := h.restored huse ht
    have hid : (s₁.taskRecord (s₁.taskTable t)).id = (s₁.taskTable t).id := rfl
    obtain ⟨tbl, caps, he, hf, htbl, hcaps⟩ := ih (i + 1) (fun u hu => hts u (by simp [hu]))
      (s := restoreTask s t (s₁.taskRecord (s₁.taskTable t)))
      (by rw [h.restoreTask_eq ht]; exact hfound)
    rw [h.restoreTask_eq ht] at he hf htbl hcaps
    dsimp only at htbl hcaps
    refine ⟨tbl, caps, ?_, hf, ?_, ?_⟩
    · rw [List.map_cons, restoreTasks, hid, hget]
      dsimp only
      rw [h.restoreTask_eq ht, he]
    · rintro u hu
      apply htbl
      by_cases hut : u = t
      · right
        rw [hut, Function.update_self]
      · rw [Function.update_of_ne hut]
        rcases hu with hu | hu
        · exact Or.inl ((List.mem_cons.mp hu).resolve_left hut)
        · exact Or.inr hu
    · rintro p hp
      apply hcaps
      by_cases hpt : (s₁.taskTable t).pml4 ≠ 0 ∧ (s₁.taskTable t).capTable ≠ 0 ∧
          (s₁.taskTable t).capTable = p
      · left
        obtain ⟨hpml4, hcap, rfl⟩ := hpt
        rw [if_pos ⟨hpml4, hcap⟩, Function.update_self]
      · rcases hp with hp | ⟨u, hu, hpu⟩
        · left
          split
          · rename_i hc
            rw [Function.update_of_ne (fun hne => hpt ⟨hc.1, hc.2, hne.symm⟩), hp]
          · exact hp
        · right
          rcases List.mem_cons.mp hu with rfl | hu
          · exact absurd hpu hpt
          · exact ⟨u, hu, hpu⟩

end

/-! ## Copying the pages back -/

theorem store_load_apply {m m₁ : Mem} {a n x : ℕ} :
    store m a (load m₁ a n) x = if a ≤ x ∧ x < a + n then m₁ x else m x := by
  by_cases h : a ≤ x ∧ x < a + n
  · obtain ⟨i, rfl⟩ := Nat.exists_eq_add_of_le h.1
    rw [if_pos h, store_apply (by simp; omega), getElem_load]
  · rw [if_neg h]
    rcases Nat.lt_or_ge x a with hx | hx
    · exact store_apply_of_lt hx
    · exact store_apply_of_ge (by simp; omega)

theorem PageTables.userPages_lt {pt : PageTables} {pml4 : ℕ} {x : ℕ × ℕ}
    (hx : x ∈ pt.userPages pml4) : x.1 < 2 ^ 48 := by
  simp only [userPages, List.mem_flatMap, List.mem_map] at hx
  obtain ⟨e₄, m₄, e₃, m₃, e₂, m₂, e₁, m₁, rfl⟩ := hx
  have h₄ := (mem_userEntries.mp m₄).1
  have h₃ := (mem_userEntries.mp m₃).1
  have h₂ := (mem_userEntries.mp m₂).1
  have h₁ := (mem_userEntries.mp m₁).1
  dsimp only
  rw [pathAddr_eq h₃ h₂ h₁]
  omega

section
variable {s₁ s : RamSession}

/-- The pages of the saved tasks are still mapped to the frames they were saved from. -/
def PagesMapped (s₁ s : RamSession) : Prop :=
  ∀ t ∈ s₁.runQueue, ∀ p ∈ s₁.taskPages (s₁.taskTable t),
    s.pageTables.virtToPhys (s₁.taskTable t).pml4.toNat p.1 = p.2 ∧ p.2 ≠ 0

theorem restorePage_eq (h : TasksFound s₁ s) (hm : PagesMapped s₁ s) {t : TaskPtr}
    (ht : t ∈ s₁.runQueue) {p : ℕ × ℕ} (hp : p ∈ s₁.taskPages (s₁.taskTable t)) :
    restorePage s (s₁.pageRecord (s₁.taskTable t) p) =
      { s with phys := store s.phys p.2 (load s₁.phys p.2 4096) } := by
  obtain ⟨-, -, -, hpml4, -⟩ := h t ht
  obtain ⟨hv, hz⟩ := hm t ht p hp
  have hget : taskGet s.taskTable (s₁.pageRecord (s₁.taskTable t) p).taskId = some t := h.taskGet ht
  have hnz : (s₁.taskTable t).pml4 ≠ 0 := by
    intro hz
    rw [RamSession.taskPages, if_pos hz] at hp
    cases hp
  rw [RamSession.taskPages, if_neg hnz] at hp
  have hvirt : (s₁.pageRecord (s₁.taskTable t) p).virtAddr.toNat = p.1 := by
    apply UInt64.toNat_ofNat_of_lt'
    have hlt := PageTables.userPages_lt hp
    change p.1 < 2 ^ 64
    omega
  unfold restorePage
  rw [hget]
  dsimp only
  rw [hpml4, if_neg hnz, hvirt, hv, if_neg hz, RamSession.pageRecord]

/-- What the loop over the page records leaves: memory that holds the saved bytes wherever a page
was copied or held them before. -/
theorem restorePages_spec (h : TasksFound s₁ s) (hm : PagesMapped s₁ s)
    (ps : List (TaskPtr × (ℕ × ℕ)))
    (hps : ∀ x ∈ ps, x.1 ∈ s₁.runQueue ∧ x.2 ∈ s₁.taskPages (s₁.taskTable x.1)) :
    ∃ mem, (ps.map fun x => s₁.pageRecord (s₁.taskTable x.1) x.2).foldl restorePage s =
        { s with phys := mem } ∧
      ∀ a, s.phys a = s₁.phys a ∨ (∃ x ∈ ps, x.2.2 ≤ a ∧ a < x.2.2 + 4096) →
        mem a = s₁.phys a := by
  induction ps generalizing s with
  | nil =>
    refine ⟨s.phys, rfl, ?_⟩
    rintro a (ha | ⟨x, hx, -⟩)
    · exact ha
    · cases hx
  | cons x ps ih =>
    obtain ⟨hq, hp⟩ := hps x (by simp)
    obtain ⟨mem, he, hmem⟩ := ih (s := { s with
      phys := store s.phys x.2.2 (load s₁.phys x.2.2 4096) }) h hm
      (fun y hy => hps y (by simp [hy]))
    refine ⟨mem, ?_, ?_⟩
    · rw [List.map_cons, List.foldl_cons, restorePage_eq h hm hq hp, he]
    · rintro a ha
      apply hmem
      dsimp only
      rw [store_load_apply]
      by_cases hin : x.2.2 ≤ a ∧ a < x.2.2 + 4096
      · left
        rw [if_pos hin]
      · rw [if_neg hin]
        rcases ha with ha | ⟨y, hy, hya⟩
        · exact Or.inl ha
        · rcases List.mem_cons.mp hy with rfl | hy
          · exact absurd hya hin
          · exact Or.inr ⟨y, hy, hya⟩

end

/-! ## Undoing what happened since the save -/

/-- A session with a task set that a snapshot can hold: at most eight tasks, all in use, whose user
pages are mapped by small pages. -/
structure RamSession.Consistent (s : RamSession) : Prop where
  queue : s.runQueue.length ≤ 8
  inUse : ∀ t ∈ s.runQueue, (s.taskTable t).state ≠ .unused
  small : ∀ t ∈ s.runQueue, (s.taskTable t).pml4 ≠ 0 →
    s.pageTables.Small (s.taskTable t).pml4.toNat

/-- The tasks of the session, their mappings, the key and the blocks of the save are still in place
in a later one. -/
structure LeftInPlace (cpuid : CpuidFeatures) (s₁ s₂ : RamSession) : Prop where
  key : s₂.snapshotKey = s₁.snapshotKey
  blocks : ∀ lba ≤ s₁.totalSectors, s₂.oram lba = (snapshotSave true cpuid s₁).2.oram lba
  tasks : TasksFound s₁ s₂
  mappings : ∀ t ∈ s₁.runQueue, ∀ p ∈ s₁.taskPages (s₁.taskTable t),
    s₂.pageTables.virtToPhys (s₁.taskTable t).pml4.toNat p.1 =
      s₁.pageTables.virtToPhys (s₁.taskTable t).pml4.toNat p.1

/-- The endpoint pool, the tasks, the capability tables of user tasks and the user pages are as
they were. -/
structure Reinstated (s₁ s : RamSession) : Prop where
  epPool : s.epPool = s₁.epPool
  epPoolUsed : s.epPoolUsed = s₁.epPoolUsed
  tasks : ∀ t ∈ s₁.runQueue, s.taskTable t = s₁.taskTable t
  capTables : ∀ t ∈ s₁.runQueue, (s₁.taskTable t).pml4 ≠ 0 → (s₁.taskTable t).capTable ≠ 0 →
    s.capTables (s₁.taskTable t).capTable = s₁.capTables (s₁.taskTable t).capTable
  pages : ∀ t ∈ s₁.runQueue, ∀ p ∈ s₁.taskPages (s₁.taskTable t),
    load s.phys p.2 4096 = load s₁.phys p.2 4096

section
variable {s₁ s₂ : RamSession} {cpuid : CpuidFeatures} {env : RestoreEnv}

theorem RamSession.Consistent.savedTasks_eq (h : s₁.Consistent) :
    s₁.savedTasks = s₁.runQueue := List.take_of_length_le h.queue

theorem LeftInPlace.pagesMapped (h : LeftInPlace cpuid s₁ s₂) (hc : s₁.Consistent) :
    PagesMapped s₁ s₂ := by
  rintro t ht p hp
  have hnz : (s₁.taskTable t).pml4 ≠ 0 := by
    intro hz
    rw [RamSession.taskPages, if_pos hz] at hp
    cases hp
  have hmap := h.mappings t ht p hp
  rw [RamSession.taskPages, if_neg hnz] at hp
  obtain ⟨hv, hz⟩ := (hc.small t ht hnz).virtToPhys_eq hp
  exact ⟨hmap.trans hv, hz⟩

theorem LeftInPlace.readImage (h : LeftInPlace cpuid s₁ s₂)
    (hsave : (snapshotSave true cpuid s₁).1 = 0) :
    StyxOS.readImage s₂.gcmCtx s₂.oram = some (s₁.image cpuid) := by
  have hctx : s₂.gcmCtx = s₁.gcmCtx := by rw [RamSession.gcmCtx, h.key, RamSession.gcmCtx]
  obtain ⟨hok, hhdr, hlt, hblk⟩ := readImage_eq_some.mp (readImage_snapshotSave hsave)
  rw [hctx, readImage_eq_some]
  refine ⟨hok, ?_, hlt, ?_⟩
  · rw [h.blocks 0 (Nat.zero_le _), hhdr]
  · intro i hi
    have hle : i + 1 ≤ s₁.totalSectors := by
      rwa [RamSession.length_blocks] at hi
    rw [h.blocks (i + 1) hle, hblk i hi]

/-- Installing the image of a save: all but the endpoint pool is as it was, and of the pool what
the header block holds. -/
theorem installImage_spec (env : RestoreEnv) (hc : s₁.Consistent)
    (ht : s₁.totalSectors < oramNumLeaves)
    (h : LeftInPlace cpuid s₁ s₂) :
    (installImage env (s₁.image cpuid) s₂).epPool =
        Bytes.ofList 512 (s₁.epPool.1.take 440 ++ env.tail.1) ∧
      (installImage env (s₁.image cpuid) s₂).epPoolUsed =
        Bytes.ofList 16 ((s₁.epPool.1.take 440 ++ env.tail.1).drop 512) ∧
      ∀ t ∈ s₁.runQueue,
        (installImage env (s₁.image cpuid) s₂).taskTable t = s₁.taskTable t ∧
        ((s₁.taskTable t).pml4 ≠ 0 → (s₁.taskTable t).capTable ≠ 0 →
          (installImage env (s₁.image cpuid) s₂).capTables (s₁.taskTable t).capTable =
            s₁.capTables (s₁.taskTable t).capTable) ∧
        ∀ p ∈ s₁.taskPages (s₁.taskTable t),
          load (installImage env (s₁.image cpuid) s₂).phys p.2 4096 = load s₁.phys p.2 4096 := by
  have hdrop : (s₁.image cpuid).header.1.drop Layout.headerInfo.size = s₁.epPool.1.take 440 := by
    rw [RamSession.header_block, List.drop_left' (Layout.headerInfo.length_encode _)]
  have hinfo : Layout.headerInfo.decode (s₁.image cpuid).header.1 =
      (s₁.header cpuid).toHeaderInfo := RamSession.image_info
  obtain ⟨htc, hpc⟩ : (s₁.header cpuid).taskCount.toNat = s₁.taskRecords.length ∧
      (s₁.header cpuid).pageCount.toNat = s₁.pageRecords.length := RamSession.header_counts ht
  have htasks : s₁.taskRecords =
      s₁.runQueue.map fun t => s₁.taskRecord (s₁.taskTable t) := by
    rw [RamSession.taskRecords, hc.savedTasks_eq]
  have hpages : s₁.pageRecords =
      (s₁.runQueue.flatMap fun t => (s₁.taskPages (s₁.taskTable t)).map (Prod.mk t)).map
        fun x => s₁.pageRecord (s₁.taskTable x.1) x.2 := by
    rw [RamSession.pageRecords, hc.savedTasks_eq, List.map_flatMap]
    simp only [List.map_map, Function.comp_def]
  -- the records are where the save put them
  unfold installImage
  dsimp only
  rw [decode_header, hdrop, hinfo, RamSession.flatMap_blocks, htc, hpc, RamSession.decode_tasks,
    RamSession.decode_pages]
  obtain ⟨tbl, caps, he, hf, htbl, hcaps⟩ := restoreTasks_spec env hc.inUse 0 s₁.runQueue
    (fun _ ht => ht)
    (s := { s₂ with
      epPool := Bytes.ofList 512 (s₁.epPool.1.take 440 ++ env.tail.1)
      epPoolUsed := Bytes.ofList 16 ((s₁.epPool.1.take 440 ++ env.tail.1).drop 512) })
    h.tasks
  rw [htasks, he, hpages]
  dsimp only
  obtain ⟨mem, hm, hmem⟩ := restorePages_spec
    (s := { s₂ with
      taskTable := tbl
      runQueue := s₁.runQueue
      capTables := caps
      epPool := Bytes.ofList 512 (s₁.epPool.1.take 440 ++ env.tail.1)
      epPoolUsed := Bytes.ofList 16 ((s₁.epPool.1.take 440 ++ env.tail.1).drop 512) })
    hf (h.pagesMapped hc)
    (s₁.runQueue.flatMap fun t => (s₁.taskPages (s₁.taskTable t)).map (Prod.mk t)) (by
      rintro x hx
      obtain ⟨t, ht, hx⟩ := List.mem_flatMap.mp hx
      obtain ⟨p, hp, rfl⟩ := List.mem_map.mp hx
      exact ⟨ht, hp⟩)
  rw [hm]
  refine ⟨rfl, rfl, ?_⟩
  intro t ht
  refine ⟨htbl t (Or.inl ht), ?_, ?_⟩
  · intro hpml4 hcap
    exact hcaps _ (Or.inr ⟨t, ht, hpml4, hcap, rfl⟩)
  · intro p hp
    apply load_congr
    intro i hi
    apply hmem
    right
    exact ⟨(t, p), List.mem_flatMap.mpr ⟨t, ht, List.mem_map_of_mem hp⟩, by simp, by simpa using hi⟩

theorem pool_restored_iff (pool : Bytes 512) (used : Bytes 16) (tail : Bytes 88) :
    (Bytes.ofList 512 (pool.1.take 440 ++ tail.1) = pool ∧
        Bytes.ofList 16 ((pool.1.take 440 ++ tail.1).drop 512) = used) ↔
      tail.1 = pool.1.drop 440 ++ used.1 := by
  have hp := pool.2
  have hu := used.2
  have ht := tail.2
  have hwhole : pool.1 ++ used.1 = pool.1.take 440 ++ (pool.1.drop 440 ++ used.1) := by
    rw [← List.append_assoc, List.take_append_drop]
  have hlen : (pool.1.take 440 ++ tail.1).length = 528 := by
    rw [List.length_append, List.length_take]
    omega
  generalize hL : pool.1.take 440 ++ tail.1 = bs at hlen ⊢
  have hfirst : Bytes.ofList 512 bs = pool ↔ bs.take 512 = pool.1 := by
    rw [Subtype.ext_iff, Bytes.val_ofList, List.take_append_of_le_length (by omega)]
  have hlast : Bytes.ofList 16 (bs.drop 512) = used ↔ bs.drop 512 = used.1 := by
    rw [Bytes.ofList_of_length (by rw [List.length_drop]; omega), Subtype.ext_iff]
  rw [hfirst, hlast]
  constructor
  · rintro ⟨h₁, h₂⟩
    apply List.append_cancel_left
    rw [← hwhole, hL, ← h₁, ← h₂, List.take_append_drop]
  · intro h
    rw [h, ← hwhole] at hL
    subst hL
    exact ⟨List.take_left' hp, List.drop_left' hp⟩

theorem LeftInPlace.snapshotRestore_eq (h : LeftInPlace cpuid s₁ s₂)
    (hsave : (snapshotSave true cpuid s₁).1 = 0) :
    snapshotRestore env s₂ =
      if env.allocated then (0, installImage env (s₁.image cpuid) s₂) else (-1, s₂) := by
  rw [snapshotRestore, h.readImage hsave]
  cases env.allocated <;> rfl

theorem reinstated_installImage_iff (hc : s₁.Consistent) (ht : s₁.totalSectors < oramNumLeaves)
    (h : LeftInPlace cpuid s₁ s₂) :
    Reinstated s₁ (installImage env (s₁.image cpuid) s₂) ↔
      env.tail.1 = s₁.epPool.1.drop 440 ++ s₁.epPoolUsed.1 := by
  obtain ⟨hpool, hused, hrest⟩ := installImage_spec env hc ht h
  rw [← pool_restored_iff]
  constructor
  · intro hre
    exact ⟨hpool.symm.trans hre.epPool, hused.symm.trans hre.epPoolUsed⟩
  · rintro ⟨hp, hu⟩
    constructor
    · exact hpool.trans hp
    · exact hused.trans hu
    · intro t htq
      exact (hrest t htq).1
    · intro t htq
      exact (hrest t htq).2.1
    · intro t htq
      exact (hrest t htq).2.2

/-- A restore undoes what happened since the save exactly when its buffer is allocated and the
stack after `header_buf` holds the end of the saved pool and the saved in-use flags. -/
theorem snapshot_undoes_iff (hc : s₁.Consistent) (hsave : (snapshotSave true cpuid s₁).1 = 0)
    (h : LeftInPlace cpuid s₁ s₂) :
    (snapshotRestore env s₂).1 = 0 ∧ Reinstated s₁ (snapshotRestore env s₂).2 ↔
      env.allocated = true ∧ env.tail.1 = s₁.epPool.1.drop 440 ++ s₁.epPoolUsed.1 := by
  obtain ⟨-, ht⟩ := snapshotSave_eq_zero.mp hsave
  rw [h.snapshotRestore_eq hsave, ← reinstated_installImage_iff hc ht h]
  cases env.allocated
  · simp only [Bool.false_eq_true, if_false, false_and, iff_false, not_and]
    intro h0
    cases h0
  · simp only [if_true, true_and]

end

/-! ## A user task with one page -/

/-- A session of one user task with one page, and the given in-use flag of the first endpoint. -/
def pagedSession (used : UInt8) : RamSession where
  taskTable := fun t => ⟨1, if t = 0 then .ready else .unused, 1, 1, 0, ⟨0, 0, 0, 0, 0, 0, 0, 0⟩, 1⟩
  runQueue := [0]
  capTables := fun _ => Bytes.zero 1536
  epPool := Bytes.zero 512
  epPoolUsed := Bytes.ofList 16 [used]
  phys := fun _ => 0
  pageTables := ⟨fun _ i => if i = 0 then 0x1007 else 0, 2 ^ 48⟩
  snapshotKey := List.replicate 32 0
  sequence := 1
  oram := fun _ => Bytes.zero 512

/-- The session later: the task has run, its page and its capabilities have changed, and the first
endpoint is in use. -/
def laterSession (used : UInt8) : RamSession :=
  { pagedSession used with
    taskTable := fun t =>
      ⟨1, if t = 0 then .running else .unused, 1, 1, 0, ⟨1, 2, 3, 4, 5, 6, 7, 8⟩, 9⟩
    capTables := fun _ => Bytes.ofList 1536 [1]
    epPool := Bytes.ofList 512 [1]
    epPoolUsed := Bytes.ofList 16 [1]
    phys := fun _ => 255
    sequence := 2
    oram := (snapshotSave true someCpu (pagedSession used)).2.oram }

theorem pagedSession_userEntries (used : UInt8) (table : ℕ) :
    (pagedSession used).pageTables.userEntries table = [(0, 0x1007)] := by
  have h : ∀ table, (⟨fun _ i => if i = 0 then 0x1007 else 0, 2 ^ 48⟩ : PageTables).userEntries
      table = (⟨fun _ i => if i = 0 then 0x1007 else 0, 2 ^ 48⟩ : PageTables).userEntries 0 :=
    fun _ => rfl
  simp only [pagedSession]
  rw [h]
  decide +kernel

theorem pagedSession_consistent (used : UInt8) : (pagedSession used).Consistent := by
  constructor
  · simp [pagedSession]
  · simp [pagedSession]
  · rintro t - -
    constructor
    · simp [pagedSession]
    · simp only [pagedSession_userEntries, List.mem_singleton]
      rintro _ rfl _ rfl
      refine ⟨by decide, ?_⟩
      rintro _ rfl
      refine ⟨by decide, ?_⟩
      rintro _ rfl
      decide

theorem pagedSession_totalSectors (used : UInt8) : (pagedSession used).totalSectors = 12 := by
  have hq : (pagedSession used).savedTasks = [0] := rfl
  have hz : ((pagedSession used).taskTable 0).pml4 ≠ 0 := by
    change (1 : UInt64) ≠ 0
    decide
  have hu : ((pagedSession used).taskPages ((pagedSession used).taskTable 0)).length = 1 := by
    simp only [RamSession.taskPages, if_neg hz, PageTables.userPages, pagedSession_userEntries,
      List.flatMap_singleton, List.map_singleton, List.length_singleton]
  have hp : (pagedSession used).pageRecords.length = 1 := by
    rw [RamSession.pageRecords, hq, List.flatMap_singleton, List.length_map, hu]
  have ht : (pagedSession used).taskRecords.length = 1 := by
    rw [RamSession.taskRecords, hq, List.map_singleton, List.length_singleton]
  rw [RamSession.totalSectors, RamSession.length_payload, ht, hp]

theorem pagedSession_saved (used : UInt8) :
    (snapshotSave true someCpu (pagedSession used)).1 = 0 := by
  rw [snapshotSave_eq_zero, pagedSession_totalSectors]
  decide

theorem laterSession_inPlace (used : UInt8) :
    LeftInPlace someCpu (pagedSession used) (laterSession used) := by
  constructor
  · simp only [laterSession]
  · intro lba _
    simp only [laterSession]
  · simp [TasksFound, pagedSession, laterSession]
  · intro t _ p _
    simp only [laterSession]

/-- With zeros on the stack, a session without endpoints comes back. -/
theorem snapshot_undoes_iff_sample :
    (snapshotRestore zeroEnv (laterSession 0)).1 = 0 ∧
      Reinstated (pagedSession 0) (snapshotRestore zeroEnv (laterSession 0)).2 := by
  apply (snapshot_undoes_iff (pagedSession_consistent 0) (pagedSession_saved 0)
    (laterSession_inPlace 0)).mpr
  refine ⟨rfl, ?_⟩
  decide +kernel

/-- With zeros on the stack, an endpoint that was in use at the save is free after the restore. -/
theorem snapshot_not_undone :
    (pagedSession 1).Consistent ∧ (snapshotSave true someCpu (pagedSession 1)).1 = 0 ∧
      LeftInPlace someCpu (pagedSession 1) (laterSession 1) ∧
      ¬ ((snapshotRestore zeroEnv (laterSession 1)).1 = 0 ∧
        Reinstated (pagedSession 1) (snapshotRestore zeroEnv (laterSession 1)).2) := by
  refine ⟨pagedSession_consistent 1, pagedSession_saved 1, laterSession_inPlace 1, ?_⟩
  have ha : zeroEnv.allocated = true := rfl
  rw [(laterSession_inPlace 1).snapshotRestore_eq (pagedSession_saved 1), if_pos ha]
  rintro ⟨-, h⟩
  dsimp only at h
  have ht : (pagedSession 1).totalSectors < oramNumLeaves := by
    rw [pagedSession_totalSectors]
    decide
  have htail := (reinstated_installImage_iff (pagedSession_consistent 1) ht
    (laterSession_inPlace 1)).mp h
  revert htail
  decide +kernel

end StyxOS
