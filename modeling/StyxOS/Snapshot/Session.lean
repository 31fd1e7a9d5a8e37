import StyxOS.Snapshot.Paging
import StyxOS.Snapshot.Store

/-! # Saving and restoring a session

`snapshot_save` and `snapshot_restore` of `snapshot.c` over the state that
they read and write: the tasks, their capability tables, the endpoint pool and
the user pages, with the key, the sequence number and the block store.
-/

namespace StyxOS

open ByteMem

/-- The state that a snapshot is taken of, and the snapshot system's own. Capability tables are
found by their address, page frames by their physical address. -/
structure RamSession where
  taskTable : TaskTable
  runQueue : List TaskPtr
  capTables : UInt64 → Bytes 1536
  epPool : Bytes 512
  epPoolUsed : Bytes 16
  phys : Mem
  pageTables : PageTables
  snapshotKey : List UInt8
  sequence : UInt64
  oram : Oram

/-- The feature words that `get_cpuid_features` returns. -/
structure CpuidFeatures where
  ecx : UInt32
  edx : UInt32

/-- The processor of the samples. -/
def someCpu : CpuidFeatures := ⟨0, 0⟩

namespace RamSession

variable (s : RamSession)

/-- `sched_get_tasks` for up to eight tasks. -/
def savedTasks : List TaskPtr := s.runQueue.take 8

def taskRecord (t : Task) : SnapshotTask where
  id := t.id
  state := t.state.code
  ticks := t.ticks
  kstackTop := t.kstackTop
  regs := t.regs
  capTable := if t.capTable ≠ 0 then s.capTables t.capTable else Bytes.zero 1536
  hasPml4 := if t.pml4 ≠ 0 then 1 else 0

/-- The user pages of a task: virtual and physical address. -/
def taskPages (t : Task) : List (ℕ × ℕ) :=
  if t.pml4 = 0 then [] else s.pageTables.userPages t.pml4.toNat

def pageRecord (t : Task) (page : ℕ × ℕ) : SnapshotPage where
  taskId := t.id
  virtAddr := UInt64.ofNat page.1
  content := ⟨load s.phys page.2 4096, length_load⟩

def taskRecords : List SnapshotTask := s.savedTasks.map fun t => s.taskRecord (s.taskTable t)

def pageRecords : List SnapshotPage :=
  s.savedTasks.flatMap fun t =>
    (s.taskPages (s.taskTable t)).map (s.pageRecord (s.taskTable t))

/-- The serialization buffer after the header. -/
def payload : List UInt8 :=
  Layout.task.encodeList s.taskRecords ++ Layout.page.encodeList s.pageRecords

def totalSectors : ℕ := (s.payload.length + 479) / 480

/-- The header of the snapshot. -/
def header (cpuid : CpuidFeatures) : SnapshotHeader where
  magic := snapshotMagic
  version := snapshotVersion
  cpuidEcx := cpuid.ecx
  cpuidEdx := cpuid.edx
  taskCount := UInt32.ofNat s.taskRecords.length
  pageCount := UInt32.ofNat s.pageRecords.length
  totalSectors := UInt32.ofNat s.totalSectors
  sequence := s.sequence
  capPool := s.epPool
  capPoolUsed := s.epPoolUsed

/-- The blocks that are encrypted: the first 480 bytes of the header, and the payload cut up, with
zeros after its end. -/
def image (cpuid : CpuidFeatures) : SnapshotImage where
  header := Bytes.ofList 480 (Layout.header.encode (s.header cpuid))
  blocks := (List.range s.totalSectors).map fun i => Bytes.ofList 480 (s.payload.drop (i * 480))

def gcmCtx : AesGcmCtx := aesGcmInit s.snapshotKey

/-- The writes that the store takes in a save. -/
def saveWrites (cpuid : CpuidFeatures) : List (ℕ × Bytes 512) :=
  taken ((s.image cpuid).writes s.gcmCtx s.sequence)

end RamSession

/-- `snapshot_save`, with the outcome of its allocation: the return code and the session
afterwards. -/
def snapshotSave (allocated : Bool) (cpuid : CpuidFeatures) (s : RamSession) : ℤ × RamSession :=
  if !allocated then (-1, s)
  else
    let (written, oram) := oramWrites s.oram ((s.image cpuid).writes s.gcmCtx s.sequence)
    if written then (0, { s with oram := oram, sequence := s.sequence + 1 })
    else (-1, { s with oram := oram })

section
variable {s : RamSession} {cpuid : CpuidFeatures}

namespace RamSession

theorem length_payload :
    s.payload.length = s.taskRecords.length * 1632 + s.pageRecords.length * 4112 := by
  rw [payload, List.length_append, Layout.length_encodeList, Layout.length_encodeList]
  rfl

@[simp] theorem length_blocks : (s.image cpuid).blocks.length = s.totalSectors := by
  simp [image]

theorem header_block :
    (s.image cpuid).header.1 = Layout.headerInfo.encode (s.header cpuid).toHeaderInfo ++
      s.epPool.1.take 440 := by
  have hi := Layout.headerInfo.length_encode (s.header cpuid).toHeaderInfo
  have hsize : Layout.headerInfo.size = 40 := rfl
  have henc : Layout.header.encode (s.header cpuid) =
      Layout.headerInfo.encode (s.header cpuid).toHeaderInfo ++ (s.epPool.1 ++ s.epPoolUsed.1) :=
        rfl
  have hpool := s.epPool.2
  change (Bytes.ofList 480 _).1 = _
  rw [Bytes.val_ofList, henc]
  generalize Layout.headerInfo.encode (s.header cpuid).toHeaderInfo = bs at hi ⊢
  rw [hsize] at hi
  rw [List.append_assoc, List.take_append, List.take_of_length_le (by omega), hi, List.append_assoc,
    List.take_append_of_le_length (by omega)]

theorem image_info : (s.image cpuid).info = (s.header cpuid).toHeaderInfo := by
  rw [SnapshotImage.info, header_block, Layout.decode_encode]

theorem image_ok (h : s.totalSectors < oramNumLeaves) : (s.image cpuid).Ok := by
  refine ⟨?_, ?_, ?_⟩
  · rw [image_info]; rfl
  · rw [image_info]; rfl
  · have hn : oramNumLeaves < 2 ^ 32 := by decide
    rw [image_info, length_blocks]
    exact UInt32.toNat_ofNat_of_lt' (h.trans hn)

end RamSession

theorem snapshotSave_eq_zero {allocated : Bool} :
    (snapshotSave allocated cpuid s).1 = 0 ↔
      allocated = true ∧ s.totalSectors < oramNumLeaves := by
  unfold snapshotSave
  rw [oramWrites_eq, SnapshotImage.all_writes, RamSession.length_blocks]
  dsimp only
  by_cases ha : allocated = true
  · by_cases ht : s.totalSectors < oramNumLeaves <;> simp [ha, ht]
  · simp [ha]

theorem snapshotSave_oram {allocated : Bool} (h : (snapshotSave allocated cpuid s).1 = 0) :
    (snapshotSave allocated cpuid s).2 =
      { s with
        oram := applyWrites s.oram ((s.image cpuid).writes s.gcmCtx s.sequence)
        sequence := s.sequence + 1 } := by
  obtain ⟨ha, ht⟩ := snapshotSave_eq_zero.mp h
  have hlen : (s.image cpuid).blocks.length < oramNumLeaves := by
    rwa [RamSession.length_blocks]
  unfold snapshotSave
  rw [oramWrites_eq, SnapshotImage.all_writes, decide_eq_true hlen,
    SnapshotImage.taken_writes_of_lt hlen, ha]
  rfl

theorem readImage_snapshotSave {allocated : Bool} (h : (snapshotSave allocated cpuid s).1 = 0) :
    readImage s.gcmCtx (snapshotSave allocated cpuid s).2.oram = some (s.image cpuid) := by
  obtain ⟨-, ht⟩ := snapshotSave_eq_zero.mp h
  rw [snapshotSave_oram h]
  apply SnapshotImage.readImage_applyWrites (RamSession.image_ok ht)
  rwa [RamSession.length_blocks]

end

/-! ## Restoring -/

/-- What a restore depends on besides the session: whether its buffer is allocated, the stack
bytes that follow `header_buf`, the stack slots of its array of tasks, and the creation of a task
that is gone, by its `has_pml4` and entry point. -/
structure RestoreEnv where
  allocated : Bool
  tail : Bytes 88
  stackTasks : ℕ → TaskPtr
  create : Bool → UInt64 → RamSession → Option TaskPtr × RamSession

/-- A restore whose buffer is allocated, with zeros on the stack. -/
def zeroEnv : RestoreEnv where
  allocated := true
  tail := Bytes.zero 88
  stackTasks := fun _ => 0
  create := fun _ _ s => (none, s)

def restoreTask (s : RamSession) (t : TaskPtr) (st : SnapshotTask) : RamSession :=
  let task := s.taskTable t
  { s with
    taskTable := Function.update s.taskTable t
      { task with
        state := .ofCode st.state
        ticks := st.ticks
        kstackTop := st.kstackTop
        regs := st.regs }
    capTables :=
      if st.hasPml4 ≠ 0 ∧ task.capTable ≠ 0 then
        Function.update s.capTables task.capTable st.capTable
      else s.capTables }

/-- The loop over the task records, with the pointers it stores in the array of tasks. -/
def restoreTasks (env : RestoreEnv) :
    ℕ → List SnapshotTask → RamSession → List TaskPtr × RamSession
  | _, [], s => ([], s)
  | i, st :: sts, s =>
    let (t, s) :=
      match taskGet s.taskTable st.id with
      | some t => (some t, s)
      | none => env.create (st.hasPml4 ≠ 0) st.regs.rip s
    match t with
    | some t =>
      let (ts, s) := restoreTasks env (i + 1) sts (restoreTask s t st)
      (t :: ts, s)
    | none =>
      let (ts, s) := restoreTasks env (i + 1) sts s
      (env.stackTasks i :: ts, s)

/-- Copying a page back, where its task and its mapping are there. -/
def restorePage (s : RamSession) (p : SnapshotPage) : RamSession :=
  match taskGet s.taskTable p.taskId with
  | none => s
  | some t =>
    let pml4 := (s.taskTable t).pml4
    if pml4 = 0 then s
    else
      let phys := s.pageTables.virtToPhys pml4.toNat p.virtAddr.toNat
      if phys = 0 then s else { s with phys := store s.phys phys p.content.1 }

/-- The part of `snapshot_restore` after verification. The header is read from `header_buf` and the
bytes that follow it, the records from the payload with zeros after it. -/
def installImage (env : RestoreEnv) (img : SnapshotImage) (s : RamSession) : RamSession :=
  let header := Layout.header.decode (img.header.1 ++ env.tail.1)
  let s := { s with epPool := header.capPool, epPoolUsed := header.capPoolUsed }
  let buf := img.blocks.flatMap (·.1)
  let (tasks, s) := restoreTasks env 0 (Layout.task.decodeList header.taskCount.toNat buf) s
  let s := { s with runQueue := tasks }
  (Layout.page.decodeList header.pageCount.toNat
    (buf.drop (header.taskCount.toNat * Layout.task.size))).foldl restorePage s

/-- `snapshot_restore`. The comparison of the CPU features has no effect but a message. -/
def snapshotRestore (env : RestoreEnv) (s : RamSession) : ℤ × RamSession :=
  match readImage s.gcmCtx s.oram with
  | none => (-1, s)
  | some img => if !env.allocated then (-1, s) else (0, installImage env img s)

theorem snapshotRestore_eq_zero {env : RestoreEnv} {s : RamSession} :
    (snapshotRestore env s).1 = 0 ↔
      env.allocated = true ∧ ∃ img, readImage s.gcmCtx s.oram = some img := by
  unfold snapshotRestore
  cases readImage s.gcmCtx s.oram with
  | none => simp
  | some img => cases env.allocated <;> simp

theorem decode_header (hb : Block) (tail : List UInt8) :
    Layout.header.decode (hb.1 ++ tail) =
      { toHeaderInfo := Layout.headerInfo.decode hb.1
        capPool := Bytes.ofList 512 (hb.1.drop Layout.headerInfo.size ++ tail)
        capPoolUsed := Bytes.ofList 16 ((hb.1.drop Layout.headerInfo.size ++ tail).drop 512) } := by
  have hle : Layout.headerInfo.size ≤ hb.1.length := by
    rw [hb.2]
    decide
  have hi := Layout.headerInfo.decode_append hb.1 tail hle
  have hd : (hb.1 ++ tail).drop Layout.headerInfo.size = hb.1.drop Layout.headerInfo.size ++ tail :=
    List.drop_append_of_le_length hle
  have he : Layout.header.decode (hb.1 ++ tail) =
      { toHeaderInfo := Layout.headerInfo.decode (hb.1 ++ tail)
        capPool := Bytes.ofList 512 ((hb.1 ++ tail).drop Layout.headerInfo.size)
        capPoolUsed := Bytes.ofList 16 (((hb.1 ++ tail).drop Layout.headerInfo.size).drop 512) } :=
    rfl
  rw [he, hi, hd]

end StyxOS
