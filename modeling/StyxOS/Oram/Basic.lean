import StyxOS.Library.PathTree
import StyxOS.Snapshot.Store

/-! # PathORAM

The block store of `oram.c`: a tree of buckets in the sectors of the mass-storage
device, a position map and a stash. The model runs over any device that offers
the calls of `usb_msc.c`; what is read behind the sector buffers on the stack,
what a store behind them does and what the generator draws are inputs.
-/

namespace StyxOS

open ByteMem

/-- The calls of `usb_msc.c`, and `g_encryption_enabled`. A read takes what its buffer holds before,
and gives the code and what the buffer holds afterwards. -/
class SectorDevice (δ : Type) where
  sectorCount : δ → ℕ
  readSector : δ → ℕ → Bytes 512 → ℤ × Bytes 512 × δ
  writeSector : δ → ℕ → Bytes 512 → ℤ × δ
  encryption : δ → Bool
  setEncryption : Bool → δ → δ

export SectorDevice (sectorCount readSector writeSector encryption setEncryption)

/-! ## The tree -/

/-- `ORAM_L`, `ORAM_Z` and `ORAM_NUM_NODES`. -/
def oramL : ℕ := 6
def oramZ : ℕ := 4
def oramNumNodes : ℕ := 127

/-- `ORAM_META_LBA`, `ORAM_BASE_LBA`, `ORAM_POSMAP_LBA` and `ORAM_MAGIC`. -/
def oramMetaLba : ℕ := 499
def oramBaseLba : ℕ := 500
def oramPosmapLba : ℕ := 1008
def oramMagic : ℕ := 0x4F52414D

/-- The loop of `is_ancestor`, which ends as `curr` falls. -/
def isAncestorFrom (ancestor : ℕ) : ℕ → ℕ → Bool
  | 0, _ => ancestor = 0
  | fuel + 1, curr =>
    if curr > 0 then
      if curr = ancestor then true else isAncestorFrom ancestor fuel ((curr - 1) / 2)
    else ancestor = 0

def isAncestor (ancestor descendant : ℕ) : Bool :=
  isAncestorFrom ancestor descendant descendant

/-- The nodes that the loop of `get_path` goes through, from `curr` up. -/
def climb : ℕ → ℕ → List ℕ
  | 0, _ => []
  | n + 1, curr => curr :: climb n (if curr > 0 then (curr - 1) / 2 else curr)

def leafNode (leaf : ℕ) : ℕ := (oramNumLeaves - 1 + leaf) % 2 ^ 32

/-- `get_path`: the nodes from the root to the leaf. -/
def getPath (leaf : ℕ) : List ℕ := (climb (oramL + 1) (leafNode leaf)).reverse

/-! ## Blocks -/

/-- `oram_block_t`. -/
structure OramBlock where
  lba : ℕ
  data : Bytes 512
deriving DecidableEq

def dummyLba : ℕ := 0xFFFFFFFF

def dummyBlock : OramBlock := ⟨dummyLba, Bytes.zero 512⟩

def sectorOf (node slot : ℕ) : ℕ := (oramBaseLba + node * oramZ + slot) % 2 ^ 32

/-- The sector buffer with the first 512 of the 516 bytes of a block. -/
def OramBlock.toSector (b : OramBlock) : Bytes 512 := Bytes.ofList 512 (leBytes 4 b.lba ++ b.data.1)

/-- The last four bytes of a block, which `oram_write_block` stores behind its sector buffer. -/
def lastFour (data : Bytes 512) : Bytes 4 := ⟨data.1.drop 508, by simp [data.2]⟩

/-- What the store of four bytes behind the sector buffer makes of the sector number in
`oram_write_block`. What lies there is up to the compiler. -/
structure StrayStore where
  lbaAfter : Bytes 4 → ℕ → ℕ
  lt : ∀ bytes, ∀ lba < 2 ^ 32, lbaAfter bytes lba < 2 ^ 32

namespace StrayStore

/-- Nothing that is used lies behind the buffer. -/
def unused : StrayStore := ⟨fun _ lba => lba, fun _ _ hlba => hlba⟩

/-- The sector number lies there, as in the kernel of the repository. -/
def onSectorNumber : StrayStore where
  lbaAfter bytes _ := leVal bytes.1
  lt := fun ⟨bytes, hbytes⟩ _ _ => (leVal_lt bytes).trans_eq (by rw [hbytes]; decide)

theorem lbaAfter_onSectorNumber (bytes : Bytes 4) (lba : ℕ) :
    onSectorNumber.lbaAfter bytes lba = leVal bytes.1 := rfl

/-- The store leaves every sector number as it is. -/
def Spares (f : StrayStore) : Prop := ∀ bytes, ∀ lba < 2 ^ 32, f.lbaAfter bytes lba = lba

theorem spares_unused : unused.Spares := fun _ _ _ => rfl

end StrayStore

/-- The 516 bytes of a block, of which the last four lie behind the sector buffer. -/
def OramBlock.ofSector (buf : Bytes 512) (tail : Bytes 4) : OramBlock where
  lba := leVal (buf.1.take 4)
  data := Bytes.ofList 512 ((buf.1 ++ tail.1).drop 4)

/-! ## The store -/

/-- The device, `pos_map` and the stash, and what lies behind the buffer of `oram_write_block`. -/
structure PathOram (δ : Type) where
  dev : δ
  posMap : ℕ → ℕ
  stash : List OramBlock
  stray : StrayStore

/-- What an access finds: a number from the generator, and for each level and slot of the path what
the sector buffer holds before it is read and what lies behind it. -/
structure AccessEnv where
  random : ℕ
  buf : ℕ → ℕ → Bytes 512
  tail : ℕ → ℕ → Bytes 4

/-- `oram_rand_leaf`, for the number that is drawn. -/
def oramRandLeaf (random : ℕ) : ℕ := random % oramNumLeaves

/-- `pos_map[lba]`, where the map has an entry. -/
def posAt (posMap : ℕ → ℕ) (lba : ℕ) : Option ℕ :=
  if lba < oramNumLeaves then some (posMap lba) else none

section

variable {δ : Type} [SectorDevice δ]

def oramReadBlock (dev : δ) (node slot : ℕ) (buf : Bytes 512) (tail : Bytes 4) : OramBlock × δ :=
  let (_, buf, dev) := readSector dev (sectorOf node slot) buf
  (.ofSector buf tail, dev)

/-- `oram_write_block`. The sector number is read after the copy of the block. -/
def oramWriteBlock (stray : StrayStore) (dev : δ) (node slot : ℕ) (blk : OramBlock) : δ :=
  (writeSector dev (stray.lbaAfter (lastFour blk.data) (sectorOf node slot)) blk.toSector).2

def posmapSector (posMap : ℕ → ℕ) : Bytes 512 :=
  Bytes.ofList 512 ((List.range oramNumLeaves).flatMap fun i => leBytes 4 (posMap i))

def posmapSave (posMap : ℕ → ℕ) (dev : δ) : δ :=
  let saved := encryption dev
  let dev := setEncryption false dev
  let dev := (writeSector dev oramPosmapLba (posmapSector posMap)).2
  setEncryption saved dev

def posmapLoad (buf : Bytes 512) (dev : δ) : (ℕ → ℕ) × δ :=
  let saved := encryption dev
  let dev := setEncryption false dev
  let (_, buf, dev) := readSector dev oramPosmapLba buf
  (fun i => leVal ((buf.1.drop (4 * i)).take 4), setEncryption saved dev)

def writeBucket (stray : StrayStore) (dev : δ) (node : ℕ) (bucket : List OramBlock) : δ :=
  (List.range oramZ).foldl
    (fun dev j => oramWriteBlock stray dev node j (bucket.getD j dummyBlock)) dev

/-- The sector of `ORAM_MAGIC`. -/
def metaSector : Bytes 512 := Bytes.ofList 512 (leBytes 4 oramMagic)

/-- `oram_format`, for the numbers that are drawn for the position map. -/
def oramFormat (random : ℕ → ℕ) (m : PathOram δ) : PathOram δ :=
  let saved := encryption m.dev
  let dev := setEncryption false m.dev
  let dev := (List.range oramNumNodes).foldl (fun dev n => writeBucket m.stray dev n []) dev
  let posMap := fun i => oramRandLeaf (random i)
  let dev := posmapSave posMap dev
  let dev := (writeSector dev oramMetaLba metaSector).2
  { m with dev := setEncryption saved dev, posMap := posMap }

def oramInit (random : ℕ → ℕ) (metaBuf posmapBuf : Bytes 512) (m : PathOram δ) : PathOram δ :=
  let m := { m with stash := [] }
  if sectorCount m.dev = 0 then m
  else
    let saved := encryption m.dev
    let dev := setEncryption false m.dev
    let (_, buf, dev) := readSector dev oramMetaLba metaBuf
    let m := { m with dev := setEncryption saved dev }
    if leVal (buf.1.take 4) ≠ oramMagic then oramFormat random m
    else
      let (posMap, dev) := posmapLoad posmapBuf m.dev
      { m with posMap, dev }

/-! ## Access -/

def pathSlots (path : List ℕ) : List (ℕ × ℕ × ℕ) :=
  path.zipIdx.flatMap fun x => (List.range oramZ).map fun j => (x.2, x.1, j)

/-- The second step of `oram_access`: the blocks of the path, until the stash is full. -/
def fetchPath (env : AccessEnv) (m : PathOram δ) : List (ℕ × ℕ × ℕ) → Bool × PathOram δ
  | [] => (true, m)
  | (i, node, j) :: slots =>
    let (b, dev) := oramReadBlock m.dev node j (env.buf i j) (env.tail i j)
    if b.lba = dummyLba then fetchPath env { m with dev } slots
    else if m.stash.length < 64 then
      fetchPath env { m with dev, stash := m.stash ++ [b] } slots
    else (false, { m with dev })

/-- The third step: what is in the caller's buffer afterwards, and the stash, unless it is full. -/
def process (stash : List OramBlock) (lba : ℕ) (write : Bool) (data : Bytes 512) :
    Option (Bytes 512 × List OramBlock) :=
  match stash.find? (fun b => b.lba = lba), write with
  | some _, true =>
    some (data, stash.set (stash.findIdx fun b => b.lba = lba) ⟨lba, data⟩)
  | none, true => if stash.length < 64 then some (data, stash ++ [⟨lba, data⟩]) else none
  | some b, false => some (b.data, stash)
  | none, false => some (Bytes.zero 512, stash)

/-- The inner loop of the fifth step: the blocks for a bucket, and the stash without them. -/
def takeBucket (posMap : ℕ → ℕ) (node : ℕ) :
    ℕ → List OramBlock → Option (List OramBlock × List OramBlock)
  | _, [] => some ([], [])
  | 0, b :: bs => some ([], b :: bs)
  | n + 1, b :: bs => do
    let leaf ← posAt posMap b.lba
    if isAncestor node (leafNode leaf) then
      let (bucket, rest) ← takeBucket posMap node n bs
      some (b :: bucket, rest)
    else
      let (bucket, rest) ← takeBucket posMap node (n + 1) bs
      some (bucket, b :: rest)

/-- The body of the loop of the fifth step. -/
def evictNode (m : PathOram δ) (node : ℕ) : Option (PathOram δ) := do
  let (bucket, rest) ← takeBucket m.posMap node oramZ m.stash
  some { m with dev := writeBucket m.stray m.dev node bucket, stash := rest }

/-- The fifth step, from the leaf to the root. -/
def evict (m : PathOram δ) (path : List ℕ) : Option (PathOram δ) :=
  path.reverse.foldlM evictNode m

/-- `oram_access`: the code, the caller's buffer and the store. There is no result where the
position map is read behind its end. -/
def oramAccess (env : AccessEnv) (m : PathOram δ) (lba : ℕ) (write : Bool) (data : Bytes 512) :
    Option (ℤ × Bytes 512 × PathOram δ) :=
  if lba ≥ oramNumLeaves then some (-1, data, m)
  else
    let path := getPath (m.posMap lba)
    let (fits, m) := fetchPath env m (pathSlots path)
    if fits = false then some (-1, data, m)
    else
      match process m.stash lba write data with
      | none => some (-1, data, m)
      | some (out, stash) => do
        let posMap := Function.update m.posMap lba (oramRandLeaf env.random)
        let m ← evict { m with stash, posMap } path
        some (0, out, { m with dev := posmapSave m.posMap m.dev })

end

end StyxOS
