import StyxOS.Crypto.Gcm
import StyxOS.Library.Layout
import StyxOS.Task.Basic

/-! # The snapshot format

The records of `snapshot.c` as they lie in memory, and the sectors that a
snapshot is stored in: 480 bytes of ciphertext, the IV, the tag and the
address. A sector is opened with the IV it carries.
-/

namespace StyxOS

open ByteMem

/-! ## Records -/

/-- The fields of `snapshot_header_t` before the endpoint pool. -/
structure HeaderInfo where
  magic : UInt64
  version : UInt32
  cpuidEcx : UInt32
  cpuidEdx : UInt32
  taskCount : UInt32
  pageCount : UInt32
  totalSectors : UInt32
  sequence : UInt64

/-- `snapshot_header_t`. -/
structure SnapshotHeader extends HeaderInfo where
  capPool : Bytes 512
  capPoolUsed : Bytes 16

/-- `snapshot_task_t`. -/
structure SnapshotTask where
  id : UInt32
  state : UInt32
  ticks : UInt32
  kstackTop : UInt64
  regs : TaskRegs
  capTable : Bytes 1536
  hasPml4 : UInt32

/-- `snapshot_page_header_t` with the page that follows it. -/
structure SnapshotPage where
  taskId : UInt32
  virtAddr : UInt64
  content : Bytes 4096

namespace Layout

open ByteMem.Layout

def headerInfo : Layout HeaderInfo :=
  iso (pair le64 (pair le32 (pair le32 (pair le32 (pair le32 (pair le32 (pair le32 le64)))))))
    (fun x =>
      { magic := x.1
        version := x.2.1
        cpuidEcx := x.2.2.1
        cpuidEdx := x.2.2.2.1
        taskCount := x.2.2.2.2.1
        pageCount := x.2.2.2.2.2.1
        totalSectors := x.2.2.2.2.2.2.1
        sequence := x.2.2.2.2.2.2.2 })
    (fun h =>
      (h.magic, h.version, h.cpuidEcx, h.cpuidEdx, h.taskCount, h.pageCount, h.totalSectors,
        h.sequence))
    fun _ => rfl

def header : Layout SnapshotHeader :=
  iso (pair headerInfo (pair (bytes 512) (bytes 16)))
    (fun x => { toHeaderInfo := x.1, capPool := x.2.1, capPoolUsed := x.2.2 })
    (fun h => (h.toHeaderInfo, h.capPool, h.capPoolUsed))
    fun _ => rfl

def taskRegs : Layout TaskRegs :=
  iso (pair le64 (pair le64 (pair le64 (pair le64 (pair le64 (pair le64 (pair le64 le64)))))))
    (fun x =>
      { rbx := x.1
        rbp := x.2.1
        r12 := x.2.2.1
        r13 := x.2.2.2.1
        r14 := x.2.2.2.2.1
        r15 := x.2.2.2.2.2.1
        rip := x.2.2.2.2.2.2.1
        rsp := x.2.2.2.2.2.2.2 })
    (fun r => (r.rbx, r.rbp, r.r12, r.r13, r.r14, r.r15, r.rip, r.rsp))
    fun _ => rfl

def task : Layout SnapshotTask :=
  iso (pair le32 (pair le32 (pair (padded le32 4) (pair le64 (pair taskRegs (pair (bytes 1536)
      (padded le32 4)))))))
    (fun x =>
      { id := x.1
        state := x.2.1
        ticks := x.2.2.1
        kstackTop := x.2.2.2.1
        regs := x.2.2.2.2.1
        capTable := x.2.2.2.2.2.1
        hasPml4 := x.2.2.2.2.2.2 })
    (fun t => (t.id, t.state, t.ticks, t.kstackTop, t.regs, t.capTable, t.hasPml4))
    fun _ => rfl

def page : Layout SnapshotPage :=
  iso (pair (padded le32 4) (pair le64 (bytes 4096)))
    (fun x => { taskId := x.1, virtAddr := x.2.1, content := x.2.2 })
    (fun p => (p.taskId, p.virtAddr, p.content))
    fun _ => rfl

example : header.size = 568 ∧ task.size = 1632 ∧ page.size = 16 + 4096 := by decide

end Layout

def snapshotMagic : UInt64 := 0x53545958534e4150

def snapshotVersion : UInt32 := 1

/-- What the C code stores for a task state. -/
def TaskState.code : TaskState → UInt32
  | unused => 0
  | ready => 1
  | running => 2
  | blocked => 3
  | dead => 4

/-- The state that a stored code names; a code beyond the enumeration is none of them, and counts
as `unused`. -/
def TaskState.ofCode (n : UInt32) : TaskState :=
  if n = 1 then ready else if n = 2 then running else if n = 3 then blocked
  else if n = 4 then dead else unused

@[simp] theorem TaskState.ofCode_code (st : TaskState) : ofCode st.code = st := by
  cases st <;> rfl

/-! ## Sectors -/

abbrev Block := Bytes 480

/-- The IV of a block, which is its associated data too: the address and the sequence number. -/
def blockIv (lba : ℕ) (sequence : UInt64) : List UInt8 := beBytes 4 lba ++ beBytes 8 sequence.toNat

@[simp] theorem length_blockIv (lba : ℕ) (sequence : UInt64) :
    (blockIv lba sequence).length = 12 := by
  simp [blockIv]

theorem blockIv_inj {l m : ℕ} {s t : UInt64} (hl : l < 2 ^ 32) (hm : m < 2 ^ 32)
    (h : blockIv l s = blockIv m t) : l = m ∧ s = t := by
  obtain ⟨h₁, h₂⟩ := List.append_inj h (by simp)
  have hs : s.toNat < 256 ^ 8 := s.toNat_lt
  have ht : t.toNat < 256 ^ 8 := t.toNat_lt
  exact ⟨beBytes_inj hl hm h₁, UInt64.toNat_inj.mp (beBytes_inj hs ht h₂)⟩

/-- The 512-byte structure that a block is stored in. -/
def packSector (ctx : AesGcmCtx) (lba : ℕ) (sequence : UInt64) (pt : Block) : Bytes 512 :=
  let iv := blockIv lba sequence
  let (ct, tag) := aesGcmEncrypt ctx iv iv pt.1
  Bytes.ofList 512 (ct ++ iv ++ tag ++ beBytes 4 lba)

def sectorCt (sector : Bytes 512) : List UInt8 := sector.1.take 480

def sectorIv (sector : Bytes 512) : List UInt8 := (sector.1.drop 480).take 12

def sectorTag (sector : Bytes 512) : List UInt8 := (sector.1.drop 492).take 16

/-- Decryption of a sector with the IV it carries, as `snapshot_restore` does it. -/
def openSector (ctx : AesGcmCtx) (sector : Bytes 512) : Option Block :=
  let (rc, pt) := aesGcmDecrypt ctx (sectorIv sector) (sectorIv sector) (sectorCt sector)
    (sectorTag sector)
  if rc = 0 then some (Bytes.ofList 480 pt) else none

/-- The parts of a sector are where packing puts them. -/
theorem sector_parts {ct iv tag tail : List UInt8} (hct : ct.length = 480) (hiv : iv.length = 12)
    (htag : tag.length = 16) (htail : tail.length = 4) :
    sectorCt (Bytes.ofList 512 (ct ++ iv ++ tag ++ tail)) = ct ∧
      sectorIv (Bytes.ofList 512 (ct ++ iv ++ tag ++ tail)) = iv ∧
      sectorTag (Bytes.ofList 512 (ct ++ iv ++ tag ++ tail)) = tag := by
  have hlen : (ct ++ iv ++ tag ++ tail).length = 512 := by simp [hct, hiv, htag, htail]
  have hval : (Bytes.ofList 512 (ct ++ iv ++ tag ++ tail)).1 = ct ++ (iv ++ (tag ++ tail)) := by
    rw [Bytes.ofList_of_length hlen]
    simp only [List.append_assoc]
  have hdrop : (ct ++ (iv ++ (tag ++ tail))).drop 480 = iv ++ (tag ++ tail) := List.drop_left' hct
  have hdrop' : (ct ++ (iv ++ (tag ++ tail))).drop 492 = tag ++ tail := by
    have h : (480 + 12 : ℕ) = 492 := rfl
    rw [← h, ← List.drop_drop, hdrop, List.drop_left' hiv]
  unfold sectorCt sectorIv sectorTag
  rw [hval, hdrop, hdrop']
  exact ⟨List.take_left' hct, List.take_left' hiv, List.take_left' htag⟩

section
variable (ctx : AesGcmCtx) (lba : ℕ) (sequence : UInt64) (pt : Block)

theorem packSector_parts :
    sectorCt (packSector ctx lba sequence pt) =
        (aesGcmEncrypt ctx (blockIv lba sequence) (blockIv lba sequence) pt.1).1 ∧
      sectorIv (packSector ctx lba sequence pt) = blockIv lba sequence ∧
      sectorTag (packSector ctx lba sequence pt) =
        (aesGcmEncrypt ctx (blockIv lba sequence) (blockIv lba sequence) pt.1).2 := by
  have hct := length_aesGcmEncrypt_fst ctx (blockIv lba sequence) (blockIv lba sequence) pt.1
  have htag := length_aesGcmEncrypt_snd ctx (blockIv lba sequence) (blockIv lba sequence) pt.1
  unfold packSector
  dsimp only
  generalize aesGcmEncrypt ctx (blockIv lba sequence) (blockIv lba sequence) pt.1 = r at hct htag ⊢
  exact sector_parts (hct.trans pt.2) (length_blockIv lba sequence) htag (length_beBytes 4 lba)

@[simp] theorem openSector_packSector :
    openSector ctx (packSector ctx lba sequence pt) = some pt := by
  obtain ⟨hct, hiv, htag⟩ := packSector_parts ctx lba sequence pt
  have hpt : Bytes.ofList 480 pt.1 = pt := Bytes.ofList_of_length pt.2
  rw [openSector, hct, hiv, htag, aesGcmDecrypt_encrypt]
  simp [hpt]

end

attribute [irreducible] packSector openSector

end StyxOS
