import StyxOS.Snapshot.Restore

/-! # Buffers of a snapshot

The bytes that `snapshot_save` and `snapshot_restore` touch in the buffer from
`kmalloc`, in `header_buf` and in their arrays of tasks. A save serializes all
pages it finds before it counts sectors; a restore copies a whole header out of
the 480 bytes that it has decrypted.
-/

namespace StyxOS

open ByteMem

/-! ## What is touched -/

/-- The size that `kmalloc` is asked for. -/
def snapshotBufSize : ℕ := 32768

/-- The bytes of a block, and so of `header_buf`. -/
def blockPayloadSize : ℕ := 480

/-- An access of `serialize_buf`, of `header_buf` or of `tasks[8]`, or a block that is written. -/
inductive SnapAccess
  | buf (off len : ℕ)
  | headerBuf (off len : ℕ)
  | taskSlot (i : ℕ)
  | write (lba : ℕ)
  deriving DecidableEq, Repr

/-- What is touched lies in its buffer. -/
def SnapAccess.Inside : SnapAccess → Prop
  | .buf off len => off + len ≤ snapshotBufSize
  | .headerBuf off len => off + len ≤ blockPayloadSize
  | .taskSlot i => i < 8
  | .write _ => True

/-- The fields of `snapshot_header_t`. -/
def headerFields : List RecField :=
  [⟨0, 8⟩, ⟨8, 4⟩, ⟨12, 4⟩, ⟨16, 4⟩, ⟨20, 4⟩, ⟨24, 4⟩, ⟨28, 4⟩, ⟨32, 8⟩, ⟨40, 512⟩, ⟨552, 16⟩]

/-- The fields of `snapshot_task_t`. -/
def taskFields : List RecField :=
  [⟨0, 4⟩, ⟨4, 4⟩, ⟨8, 4⟩, ⟨16, 8⟩, ⟨24, 64⟩, ⟨88, 1536⟩, ⟨1624, 4⟩]

/-- The fields of `snapshot_page_header_t`, and the page. -/
def pageFields : List RecField := [⟨0, 4⟩, ⟨8, 8⟩, ⟨16, 4096⟩]

def fieldAccesses (p : ℕ) (fields : List RecField) : List SnapAccess :=
  fields.map fun f => .buf (p + f.off) f.width

/-- The fields of records that lie one after the other. -/
def recordAccesses {α : Type} (fields : List RecField) (size : ℕ) : ℕ → List α → List SnapAccess
  | _, [] => []
  | p, _ :: rs => fieldAccesses p fields ++ recordAccesses fields size (p + size) rs

/-! ## Saving -/

def blockOffset (lba : ℕ) : ℕ := Layout.header.size + (lba - 1) * blockPayloadSize

/-- The loop over the sectors, and the commit after it. -/
def sectorAccesses : List ℕ → List SnapAccess
  | [] => [.buf 0 blockPayloadSize, .write 0]
  | lba :: lbas =>
    .buf (blockOffset lba) blockPayloadSize ::
      if lba < oramNumLeaves then .write lba :: sectorAccesses lbas else []

/-- What `snapshot_save` touches, with the blocks that the store takes. -/
def saveAccesses (allocated : Bool) (s : RamSession) : List SnapAccess :=
  if !allocated then []
  else
    .buf 0 snapshotBufSize ::
      recordAccesses taskFields Layout.task.size Layout.header.size s.taskRecords ++
      recordAccesses pageFields Layout.page.size
        (Layout.header.size + s.taskRecords.length * Layout.task.size) s.pageRecords ++
      fieldAccesses 0 headerFields ++ sectorAccesses (List.range' 1 s.totalSectors)

/-! ## Restoring -/

def blockAccesses (ctx : AesGcmCtx) (o : Oram) : List ℕ → List SnapAccess
  | [] => [.headerBuf 28 4]
  | lba :: lbas =>
    .headerBuf 28 4 ::
      match oramRead o lba with
      | none => []
      | some sector =>
        .buf (blockOffset lba) blockPayloadSize ::
          match openSector ctx sector with
          | none => []
          | some _ => blockAccesses ctx o lbas

/-- The fields of a record that finding its task reads. -/
def lookedFields (found : Bool) (st : SnapshotTask) : List RecField :=
  if found then [⟨0, 4⟩]
  else if st.hasPml4 ≠ 0 then [⟨0, 4⟩, ⟨1624, 4⟩, ⟨72, 8⟩]
  else [⟨0, 4⟩, ⟨1624, 4⟩]

/-- The fields of a record that are written back to its task. -/
def restoredFields (st : SnapshotTask) (task : Task) : List RecField :=
  [⟨4, 4⟩, ⟨8, 4⟩, ⟨16, 8⟩, ⟨24, 64⟩, ⟨1624, 4⟩] ++
    if st.hasPml4 ≠ 0 ∧ task.capTable ≠ 0 then [⟨88, 1536⟩] else []

def taskAccesses (env : RestoreEnv) : ℕ → List SnapshotTask → RamSession → List SnapAccess
  | _, [], _ => []
  | i, st :: sts, s =>
    let p := Layout.header.size + i * Layout.task.size
    let (found, t, s) :=
      match taskGet s.taskTable st.id with
      | some t => (true, some t, s)
      | none => (false, env.create (st.hasPml4 ≠ 0) st.regs.rip s)
    fieldAccesses p (lookedFields found st) ++
      match t with
      | none => taskAccesses env (i + 1) sts s
      | some t =>
        fieldAccesses p (restoredFields st (s.taskTable t)) ++
          .taskSlot i :: taskAccesses env (i + 1) sts (restoreTask s t st)

/-- The fields of a page record that are read: the identifier, with the address where the task has a
space, and the page where the address is mapped. -/
def pageReadFields (s : RamSession) (page : SnapshotPage) : List RecField :=
  match taskGet s.taskTable page.taskId with
  | none => [⟨0, 4⟩]
  | some t =>
    let pml4 := (s.taskTable t).pml4
    if pml4 = 0 then [⟨0, 4⟩]
    else if s.pageTables.virtToPhys pml4.toNat page.virtAddr.toNat = 0 then [⟨0, 4⟩, ⟨8, 8⟩]
    else pageFields

def pageAccesses : ℕ → List SnapshotPage → RamSession → List SnapAccess
  | _, [], _ => []
  | p, page :: pages, s =>
    fieldAccesses p (pageReadFields s page) ++
      pageAccesses (p + Layout.page.size) pages (restorePage s page)

/-- The number of iterations of the loop over the tasks, whose counter is signed. -/
def taskIterations (taskCount : UInt32) : ℕ :=
  if taskCount.toNat < 2 ^ 31 then taskCount.toNat else 0

/-- The part of `snapshot_restore` after verification. -/
def installAccesses (env : RestoreEnv) (img : SnapshotImage) (s : RamSession) : List SnapAccess :=
  let header := Layout.header.decode (img.header.1 ++ env.tail.1)
  let s := { s with epPool := header.capPool, epPoolUsed := header.capPoolUsed }
  let buf := img.blocks.flatMap (·.1)
  let n := taskIterations header.taskCount
  let sts := Layout.task.decodeList n buf
  let (tasks, t) := restoreTasks env 0 sts s
  [.headerBuf 12 4, .headerBuf 16 4, .headerBuf 40 512, .headerBuf 552 16, .headerBuf 20 4] ++
    taskAccesses env 0 sts s ++ (List.range n).map .taskSlot ++ .headerBuf 24 4 ::
    pageAccesses (Layout.header.size + n * Layout.task.size)
      (Layout.page.decodeList header.pageCount.toNat (buf.drop (n * Layout.task.size)))
      { t with runQueue := tasks }

def openHeader (ctx : AesGcmCtx) (o : Oram) : Option Block :=
  ((oramRead o 0).bind (openSector ctx)).filter fun header =>
    (Layout.headerInfo.decode header.1).magic = snapshotMagic ∧
      (Layout.headerInfo.decode header.1).version = snapshotVersion

/-- What `snapshot_restore` touches. The header is decrypted before its tag is compared. -/
def restoreAccesses (env : RestoreEnv) (s : RamSession) : List SnapAccess :=
  .headerBuf 0 blockPayloadSize ::
    match (oramRead s.oram 0).bind (openSector s.gcmCtx) with
    | none => []
    | some header =>
      let info := Layout.headerInfo.decode header.1
      if info.magic ≠ snapshotMagic then [.headerBuf 0 8]
      else if info.version ≠ snapshotVersion then [.headerBuf 0 8, .headerBuf 8 4]
      else
        [.headerBuf 0 8, .headerBuf 8 4, .headerBuf 32 8, .headerBuf 28 4] ++
        if !env.allocated then []
        else
          [.buf 0 snapshotBufSize, .headerBuf 0 Layout.header.size, .buf 0 Layout.header.size] ++
          blockAccesses s.gcmCtx s.oram (List.range' 1 info.totalSectors.toNat) ++
          match readBlocks s.gcmCtx s.oram (List.range' 1 info.totalSectors.toNat) with
          | none => []
          | some blocks => installAccesses env ⟨header, blocks⟩ s

/-! ## The property -/

/-- The state fits in the buffer and in the blocks after the header. -/
def RamSession.FitsSnapshot (s : RamSession) : Prop :=
  Layout.header.size + s.payload.length ≤ snapshotBufSize ∧ s.totalSectors < oramNumLeaves

/-- Save and restore stay inside their buffers, and a state that does not fit is refused before a
block is written. -/
structure SnapshotInside (allocated : Bool) (cpuid : CpuidFeatures) (env : RestoreEnv)
    (s : RamSession) : Prop where
  save : ∀ a ∈ saveAccesses allocated s, a.Inside
  refuses : ¬ s.FitsSnapshot → (snapshotSave allocated cpuid s).1 = -1 ∧
    ∀ lba, .write lba ∉ saveAccesses allocated s
  restore : ∀ a ∈ restoreAccesses env s, a.Inside

/-- The state fits in 63 blocks, or there is no buffer; and a restore finds no header that it
accepts, or no buffer. -/
structure SnapshotFits (allocated : Bool) (env : RestoreEnv) (s : RamSession) : Prop where
  save : allocated = false ∨
    s.savedTasks.length * 1632 + s.pageRecords.length * 4112 ≤ 63 * blockPayloadSize
  restore : env.allocated = false ∨ openHeader s.gcmCtx s.oram = none

/-! ## Saves -/

section

variable {α : Type} {fields : List RecField} {size p bound n lba : ℕ} {rs : List α}
  {a : SnapAccess} {s : RamSession} {allocated : Bool} {cpuid : CpuidFeatures}

theorem mem_recordAccesses : a ∈ recordAccesses fields size p rs ↔
    ∃ i < rs.length, ∃ f ∈ fields, a = .buf (p + i * size + f.off) f.width := by
  induction rs generalizing p with
  | nil => simp [recordAccesses]
  | cons r rs ih =>
    simp only [recordAccesses, List.mem_append, ih, fieldAccesses, List.mem_map]
    constructor
    · rintro (⟨f, hf, rfl⟩ | ⟨i, hi, f, hf, rfl⟩)
      · exact ⟨0, by simp, f, hf, by simp⟩
      · refine ⟨i + 1, by simpa using hi, f, hf, ?_⟩
        rw [Nat.succ_mul, Nat.add_comm (i * size), Nat.add_assoc p size]
    · rintro ⟨i, hi, f, hf, rfl⟩
      cases i with
      | zero => exact Or.inl ⟨f, hf, by simp⟩
      | succ i =>
        refine Or.inr ⟨i, by simpa using hi, f, hf, ?_⟩
        rw [Nat.succ_mul, Nat.add_comm (i * size), Nat.add_assoc p size]

theorem recordAccesses_inside (hfields : ∀ f ∈ fields, f.off + f.width ≤ size)
    (h : p + rs.length * size ≤ snapshotBufSize) (ha : a ∈ recordAccesses fields size p rs) :
    a.Inside := by
  obtain ⟨i, hi, f, hf, rfl⟩ := mem_recordAccesses.mp ha
  have hend := hfields f hf
  have hle : (i + 1) * size ≤ rs.length * size := Nat.mul_le_mul_right size hi
  rw [Nat.succ_mul] at hle
  unfold SnapAccess.Inside
  omega

theorem sectorAccesses_inside (hlba : lba ≤ oramNumLeaves)
    (ha : a ∈ sectorAccesses (List.range' lba n)) : a.Inside := by
  induction n generalizing lba with
  | zero =>
    simp only [List.range'_zero, sectorAccesses, List.mem_cons, List.not_mem_nil, or_false] at ha
    rcases ha with rfl | rfl
    · rw [SnapAccess.Inside]
      decide
    · trivial
  | succ n ih =>
    rw [List.range'_succ, sectorAccesses, List.mem_cons] at ha
    rcases ha with rfl | ha
    · have hsize : Layout.header.size = 568 := rfl
      unfold SnapAccess.Inside blockOffset blockPayloadSize snapshotBufSize
      unfold oramNumLeaves at hlba
      omega
    · split_ifs at ha with hlt
      · rcases List.mem_cons.mp ha with rfl | ha
        · trivial
        · exact ih hlt ha
      · exact absurd ha List.not_mem_nil

theorem RamSession.length_taskRecords (s : RamSession) :
    s.taskRecords.length = s.savedTasks.length ∧ s.savedTasks.length ≤ 8 := by
  simp [taskRecords, savedTasks]

theorem saveAccesses_inside_iff : (∀ a ∈ saveAccesses allocated s, a.Inside) ↔
    allocated = false ∨ Layout.header.size + s.payload.length ≤ snapshotBufSize := by
  have hhead : Layout.header.size = 568 := rfl
  have htask : Layout.task.size = 1632 := rfl
  have hpage : Layout.page.size = 4112 := rfl
  obtain ⟨hlen, hle⟩ := s.length_taskRecords
  cases allocated with
  | false => simp [saveAccesses]
  | true =>
    simp only [Bool.true_eq_false, false_or, saveAccesses, Bool.not_true, Bool.false_eq_true,
      if_false, RamSession.length_payload]
    constructor
    · intro h
      cases hpages : s.pageRecords.length with
      | zero =>
        unfold snapshotBufSize
        omega
      | succ n =>
        have hlast : SnapAccess.buf (Layout.header.size + s.taskRecords.length * Layout.task.size +
            n * Layout.page.size + 16) 4096 ∈ recordAccesses pageFields Layout.page.size
              (Layout.header.size + s.taskRecords.length * Layout.task.size) s.pageRecords :=
          mem_recordAccesses.mpr ⟨n, by omega, ⟨16, 4096⟩, by simp [pageFields], rfl⟩
        have hin := h _ (List.mem_append_left _ (List.mem_append_left _
          (List.mem_append_right _ hlast)))
        rw [SnapAccess.Inside, htask, hpage] at hin
        omega
    · intro h a ha
      have hall : Layout.header.size + s.taskRecords.length * Layout.task.size +
          s.pageRecords.length * Layout.page.size ≤ snapshotBufSize := by
        simp only [htask, hpage]
        omega
      simp only [List.cons_append, List.mem_cons, List.mem_append] at ha
      rcases ha with rfl | ((ha | ha) | ha) | ha
      · exact le_refl snapshotBufSize
      · exact recordAccesses_inside (by decide) ((Nat.le_add_right _ _).trans hall) ha
      · exact recordAccesses_inside (by decide) hall ha
      · obtain ⟨f, hf, rfl⟩ := List.mem_map.mp ha
        have hend : ∀ f ∈ headerFields, 0 + f.off + f.width ≤ snapshotBufSize := by decide
        exact hend f hf
      · exact sectorAccesses_inside (by decide) ha

theorem write_mem_sectorAccesses {ctx : AesGcmCtx} {sequence : UInt64} {x : ℕ} {w : Bytes 512}
    (bs : List Block) : .write x ∈ sectorAccesses (List.range' lba bs.length) ↔
      x ∈ (taken (SnapshotImage.dataWrites ctx sequence lba bs ++ [(0, w)])).map Prod.fst := by
  induction bs generalizing lba with
  | nil => simp [sectorAccesses, SnapshotImage.dataWrites, taken, oramNumLeaves]
  | cons b bs ih =>
    simp only [taken] at ih
    simp only [List.length_cons, List.range'_succ, sectorAccesses, SnapshotImage.dataWrites, taken,
      List.cons_append, List.takeWhile_cons, List.mem_cons, reduceCtorEq, false_or]
    by_cases hlt : lba < oramNumLeaves
    · simp only [hlt, if_true, decide_true, List.map_cons, List.mem_cons, ih,
          SnapAccess.write.injEq]
    · simp [hlt]

theorem write_mem_saveAccesses : .write lba ∈ saveAccesses true s ↔
    lba ∈ (s.saveWrites cpuid).map Prod.fst := by
  rw [RamSession.saveWrites, SnapshotImage.writes, ← write_mem_sectorAccesses,
    RamSession.length_blocks]
  have hrecord : ∀ {α : Type} (fields size p) (rs : List α),
      .write lba ∉ recordAccesses fields size p rs := by
    intro α fields size p rs ha
    obtain ⟨i, -, f, -, he⟩ := mem_recordAccesses.mp ha
    cases he
  simp [saveAccesses, hrecord, fieldAccesses]

theorem refuses_iff : (¬ s.FitsSnapshot → (snapshotSave allocated cpuid s).1 = -1 ∧
      ∀ lba, .write lba ∉ saveAccesses allocated s) ↔
    allocated = false ∨ s.FitsSnapshot := by
  constructor
  · intro h
    by_contra hno
    obtain ⟨halloc, hfits⟩ := not_or.mp hno
    obtain rfl : allocated = true := by simpa using halloc
    obtain ⟨n, hn⟩ : ∃ n, s.totalSectors = n + 1 := by
      refine ⟨s.totalSectors - 1, ?_⟩
      by_contra hz
      have hempty : s.payload.length = 0 ∧ s.totalSectors = 0 := by
        unfold RamSession.totalSectors at hz ⊢
        omega
      refine hfits ⟨?_, ?_⟩
      · rw [hempty.1]
        decide
      · rw [hempty.2]
        decide
    -- the first block goes to the store
    have hlen : (s.image cpuid).blocks.length = n + 1 := RamSession.length_blocks.trans hn
    obtain ⟨b, bs, hblocks⟩ := List.exists_cons_of_length_eq_add_one hlen
    have hwrite : 1 ∈ (s.saveWrites cpuid).map Prod.fst := by
      simp [RamSession.saveWrites, SnapshotImage.writes, SnapshotImage.dataWrites, taken, hblocks,
        oramNumLeaves]
    exact (h hfits).2 1 (write_mem_saveAccesses.mpr hwrite)
  · rintro (rfl | hfits)
    · intro _
      exact ⟨rfl, by simp [saveAccesses]⟩
    · exact fun hno => absurd hfits hno

/-! ## Restores -/

variable {env : RestoreEnv} {ctx : AesGcmCtx} {o : Oram} {img : SnapshotImage} {header : Block}

theorem readImage_eq_bind : readImage ctx o = (openHeader ctx o).bind fun header =>
    (readBlocks ctx o (List.range' 1 (Layout.headerInfo.decode header.1).totalSectors.toNat)).map
      fun blocks => ⟨header, blocks⟩ := by
  unfold readImage openHeader
  cases (oramRead o 0).bind (openSector ctx) with
  | none => rfl
  | some header =>
    by_cases hok : (Layout.headerInfo.decode header.1).magic = snapshotMagic ∧
        (Layout.headerInfo.decode header.1).version = snapshotVersion
    · simp [hok, Option.filter]
    · have hno := not_and_or.mp hok
      simp [hok, hno, Option.filter]

theorem restoreAccesses_inside_iff : (∀ a ∈ restoreAccesses env s, a.Inside) ↔
    env.allocated = false ∨ openHeader s.gcmCtx s.oram = none := by
  unfold restoreAccesses openHeader
  cases (oramRead s.oram 0).bind (openSector s.gcmCtx) with
  | none => simp [SnapAccess.Inside]
  | some header =>
    by_cases hmagic : (Layout.headerInfo.decode header.1).magic = snapshotMagic
    · by_cases hversion : (Layout.headerInfo.decode header.1).version = snapshotVersion
      · cases halloc : env.allocated with
        | false => simp [hmagic, hversion, SnapAccess.Inside, blockPayloadSize]
        | true =>
          refine iff_of_false (fun h => ?_) (by simp [hmagic, hversion, Option.filter])
          have hin := h (.headerBuf 0 Layout.header.size) (by simp [hmagic, hversion])
          rw [SnapAccess.Inside] at hin
          exact absurd hin (by decide)
      · simp [hmagic, hversion, Option.filter, SnapAccess.Inside, blockPayloadSize]
    · simp [hmagic, Option.filter, SnapAccess.Inside, blockPayloadSize]

/-- Every restore that succeeds has read behind `header_buf`. -/
theorem restore_not_inside (h : (snapshotRestore env s).1 = 0) :
    ¬ ∀ a ∈ restoreAccesses env s, a.Inside := by
  obtain ⟨halloc, img, himg⟩ := snapshotRestore_eq_zero.mp h
  rw [restoreAccesses_inside_iff, halloc]
  rw [readImage_eq_bind] at himg
  obtain ⟨header, hopen, -⟩ := Option.bind_eq_some_iff.mp himg
  simp [hopen]

theorem fieldAccesses_inside (hfields : ∀ f ∈ fields, f.off + f.width ≤ size)
    (h : p + size ≤ snapshotBufSize) (ha : a ∈ fieldAccesses p fields) : a.Inside := by
  obtain ⟨f, hf, rfl⟩ := List.mem_map.mp ha
  have hend := hfields f hf
  unfold SnapAccess.Inside
  omega

theorem blockAccesses_inside {lbas : List ℕ} (ha : a ∈ blockAccesses ctx o lbas) : a.Inside := by
  induction lbas with
  | nil =>
    obtain rfl := List.mem_singleton.mp ha
    rw [SnapAccess.Inside]
    decide
  | cons lba lbas ih =>
    rw [blockAccesses, List.mem_cons] at ha
    rcases ha with rfl | ha
    · rw [SnapAccess.Inside]
      decide
    by_cases hlt : lba < oramNumLeaves
    · rw [oramRead, if_pos hlt] at ha
      rcases List.mem_cons.mp ha with rfl | ha
      · have hsize : Layout.header.size = 568 := rfl
        unfold SnapAccess.Inside blockOffset blockPayloadSize snapshotBufSize
        unfold oramNumLeaves at hlt
        omega
      · split at ha
        · exact absurd ha List.not_mem_nil
        · exact ih ha
    · rw [oramRead, if_neg hlt] at ha
      exact absurd ha List.not_mem_nil

theorem lookedFields_le {found : Bool} {st : SnapshotTask} :
    ∀ f ∈ lookedFields found st, f.off + f.width ≤ Layout.task.size := by
  unfold lookedFields
  split_ifs <;> decide

theorem restoredFields_le {st : SnapshotTask} {task : Task} :
    ∀ f ∈ restoredFields st task, f.off + f.width ≤ Layout.task.size := by
  unfold restoredFields
  split_ifs <;> decide

theorem pageReadFields_le {page : SnapshotPage} :
    ∀ f ∈ pageReadFields s page, f.off + f.width ≤ Layout.page.size := by
  unfold pageReadFields
  split
  · decide
  · dsimp only
    split_ifs <;> decide

theorem taskAccesses_inside {i : ℕ} {sts : List SnapshotTask} (h : i + sts.length ≤ 8)
    (ha : a ∈ taskAccesses env i sts s) : a.Inside := by
  induction sts generalizing i s with
  | nil => exact absurd ha List.not_mem_nil
  | cons st sts ih =>
    rw [List.length_cons] at h
    have hsize : Layout.header.size = 568 ∧ Layout.task.size = 1632 := ⟨rfl, rfl⟩
    have hend : Layout.header.size + i * Layout.task.size + Layout.task.size ≤ snapshotBufSize := by
      simp only [hsize, snapshotBufSize]
      omega
    simp only [taskAccesses, List.mem_append] at ha
    rcases ha with ha | ha
    · exact fieldAccesses_inside lookedFields_le hend ha
    · split at ha
      · exact ih (by omega) ha
      · simp only [List.mem_append, List.mem_cons] at ha
        rcases ha with ha | rfl | ha
        · exact fieldAccesses_inside restoredFields_le hend ha
        · rw [SnapAccess.Inside]
          omega
        · exact ih (by omega) ha

theorem pageAccesses_inside {pages : List SnapshotPage}
    (h : p + pages.length * Layout.page.size ≤ snapshotBufSize)
    (ha : a ∈ pageAccesses p pages s) : a.Inside := by
  induction pages generalizing p s with
  | nil => exact absurd ha List.not_mem_nil
  | cons page pages ih =>
    rw [List.length_cons, Nat.succ_mul] at h
    rw [pageAccesses, List.mem_append] at ha
    rcases ha with ha | ha
    · exact fieldAccesses_inside pageReadFields_le (by omega) ha
    · exact ih (by omega) ha

/-- The records that the header counts end in the buffer, and there are places for the tasks. -/
structure CountsFit (info : HeaderInfo) : Prop where
  tasks : info.taskCount.toNat ≤ 8
  records : Layout.header.size + info.taskCount.toNat * Layout.task.size +
    info.pageCount.toNat * Layout.page.size ≤ snapshotBufSize

theorem installAccesses_inside (h : CountsFit (Layout.headerInfo.decode img.header.1))
    (ha : a ∈ installAccesses env img s) : a.Inside ∨ ∃ off len, a = .headerBuf off len := by
  have hlt := h.tasks
  have hcount : taskIterations (Layout.headerInfo.decode img.header.1).taskCount =
      (Layout.headerInfo.decode img.header.1).taskCount.toNat := if_pos (by omega)
  simp only [installAccesses, decode_header, hcount, List.cons_append, List.nil_append,
    List.mem_cons, List.mem_append, List.mem_map, List.mem_range] at ha
  rcases ha with rfl | rfl | rfl | rfl | rfl | (ha | ⟨i, hi, rfl⟩) | rfl | ha
  · exact Or.inr ⟨_, _, rfl⟩
  · exact Or.inr ⟨_, _, rfl⟩
  · exact Or.inr ⟨_, _, rfl⟩
  · exact Or.inr ⟨_, _, rfl⟩
  · exact Or.inr ⟨_, _, rfl⟩
  · refine Or.inl (taskAccesses_inside ?_ ha)
    rwa [Layout.length_decodeList, Nat.zero_add]
  · exact Or.inl (hi.trans_le hlt)
  · exact Or.inr ⟨_, _, rfl⟩
  · refine Or.inl (pageAccesses_inside ?_ ha)
    rw [Layout.length_decodeList]
    exact h.records

/-- Behind the copy of the header a restore touches nothing outside its buffers, where the counts of
the header fit. -/
theorem restoreAccesses_inside_of_fits (hopen : openHeader s.gcmCtx s.oram = some header)
    (h : CountsFit (Layout.headerInfo.decode header.1)) (ha : a ∈ restoreAccesses env s) :
    a.Inside ∨ ∃ off len, a = .headerBuf off len := by
  obtain ⟨hread, hok⟩ := Option.filter_eq_some_iff.mp hopen
  simp only [decide_eq_true_eq] at hok
  simp only [restoreAccesses, hread, hok, ne_eq, not_true_eq_false, if_false, List.mem_cons,
    List.cons_append, List.nil_append] at ha
  rcases ha with rfl | rfl | rfl | rfl | rfl | ha
  · exact Or.inr ⟨_, _, rfl⟩
  · exact Or.inr ⟨_, _, rfl⟩
  · exact Or.inr ⟨_, _, rfl⟩
  · exact Or.inr ⟨_, _, rfl⟩
  · exact Or.inr ⟨_, _, rfl⟩
  split_ifs at ha with halloc
  · exact absurd ha List.not_mem_nil
  simp only [List.mem_cons, List.mem_append] at ha
  rcases ha with rfl | rfl | rfl | ha | ha
  · exact Or.inl (le_refl snapshotBufSize)
  · exact Or.inr ⟨_, _, rfl⟩
  · refine Or.inl ?_
    rw [SnapAccess.Inside]
    decide
  · exact Or.inl (blockAccesses_inside ha)
  · split at ha
    · exact absurd ha List.not_mem_nil
    · exact installAccesses_inside h ha

theorem countsFit_image (h : s.totalSectors < oramNumLeaves) : CountsFit (s.image cpuid).info := by
  obtain ⟨hlen, hle⟩ := s.length_taskRecords
  have hpayload := s.length_payload
  unfold RamSession.totalSectors oramNumLeaves at h
  have hword : UInt32.size = 2 ^ 32 := rfl
  have htasks : (UInt32.ofNat s.taskRecords.length).toNat = s.taskRecords.length :=
    UInt32.toNat_ofNat_of_lt' (by omega)
  have hpages : (UInt32.ofNat s.pageRecords.length).toNat = s.pageRecords.length :=
    UInt32.toNat_ofNat_of_lt' (by omega)
  rw [RamSession.image_info]
  constructor
  · change (UInt32.ofNat s.taskRecords.length).toNat ≤ 8
    omega
  · have hsizes : Layout.header.size = 568 ∧ Layout.task.size = 1632 ∧ Layout.page.size = 4112 :=
      ⟨rfl, rfl, rfl⟩
    simp only [RamSession.header, htasks, hpages, hsizes, snapshotBufSize]
    omega

/-- Of what a save has stored, a restore leaves no buffer but that of the header. -/
theorem restoreAccesses_snapshotSave (h : (snapshotSave allocated cpuid s).1 = 0)
    (ha : a ∈ restoreAccesses env (snapshotSave allocated cpuid s).2) :
    a.Inside ∨ ∃ off len, a = .headerBuf off len := by
  obtain ⟨-, ht⟩ := snapshotSave_eq_zero.mp h
  have hctx : (snapshotSave allocated cpuid s).2.gcmCtx = s.gcmCtx := by
    rw [snapshotSave_oram h]
    rfl
  have hread := readImage_snapshotSave h
  rw [readImage_eq_bind, ← hctx] at hread
  obtain ⟨header, hopen, himage⟩ := Option.bind_eq_some_iff.mp hread
  obtain ⟨blocks, -, hblocks⟩ := Option.map_eq_some_iff.mp himage
  have hfit : CountsFit (s.image cpuid).info := countsFit_image ht
  rw [← hblocks] at hfit
  exact restoreAccesses_inside_of_fits hopen hfit ha

end

/-! ## Both -/

theorem snapshot_inside_iff (allocated : Bool) (cpuid : CpuidFeatures) (env : RestoreEnv)
    (s : RamSession) : SnapshotInside allocated cpuid env s ↔ SnapshotFits allocated env s := by
  have hpayload : s.payload.length = s.savedTasks.length * 1632 + s.pageRecords.length * 4112 := by
    rw [RamSession.length_payload, s.length_taskRecords.1]
  have hfits : s.FitsSnapshot ↔
      s.savedTasks.length * 1632 + s.pageRecords.length * 4112 ≤ 63 * blockPayloadSize := by
    have hsize : Layout.header.size = 568 := rfl
    unfold RamSession.FitsSnapshot RamSession.totalSectors snapshotBufSize oramNumLeaves
      blockPayloadSize
    omega
  constructor
  · intro h
    refine ⟨?_, restoreAccesses_inside_iff.mp h.restore⟩
    rw [← hfits]
    exact refuses_iff.mp h.refuses
  · intro h
    have hsave : allocated = false ∨ s.FitsSnapshot := by
      rw [hfits]
      exact h.save
    refine ⟨?_, refuses_iff.mpr hsave, restoreAccesses_inside_iff.mpr h.restore⟩
    exact saveAccesses_inside_iff.mpr (hsave.imp_right fun hf => hf.1)

/-- A session of one user task with eight pages. -/
def eightPages : RamSession :=
  { pagedSession 0 with
    pageTables := ⟨fun table i => if i = 0 ∨ table = 2 ^ 48 + 0x3000 ∧ i < 8 then
      (if table = 1 then 0x1007 else if table = 2 ^ 48 + 0x1000 then 0x2007 else 0x3007) else 0,
      2 ^ 48⟩ }

/-- Eight pages are serialized behind the end of the buffer. -/
theorem snapshot_not_inside : ¬ ∀ allocated cpuid env s, SnapshotInside allocated cpuid env s := by
  intro h
  have hsave := saveAccesses_inside_iff.mp (h true someCpu zeroEnv eightPages).save
  have htasks : eightPages.taskRecords.length = 1 := rfl
  have hpages : eightPages.pageRecords.length = 8 := by
    have hqueue : eightPages.savedTasks = [0] := rfl
    have hpml4 : (eightPages.taskTable 0).pml4 ≠ 0 := by decide
    rw [RamSession.pageRecords, hqueue, List.flatMap_singleton, List.length_map,
      RamSession.taskPages, if_neg hpml4]
    decide +kernel
  rw [RamSession.length_payload, htasks, hpages] at hsave
  exact absurd hsave (by decide)

end StyxOS
