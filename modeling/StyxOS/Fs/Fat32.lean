import StyxOS.Oram.Basic

/-! # The FAT32 reader

The mounted volume of `fat32.c`, over any device that offers the calls of
`usb_msc.c`, and the files of `vfs.c` on it. Every sector is read into the one
buffer of the module. The walks along a cluster chain need not end, and are
given a number of rounds.
-/

namespace StyxOS

open ByteMem

def fieldAt (b : List UInt8) (off n : ℕ) : ℕ := leVal ((b.drop off).take n)

/-! ## On the disk -/

/-- The fields of `bpb_t` that `fat32_init` reads. -/
structure Bpb where
  bytesPerSector : ℕ
  sectorsPerCluster : UInt8
  reservedSectors : ℕ
  numFats : ℕ
  fatSize32 : UInt32
  rootCluster : UInt32
deriving DecidableEq

/-- A sector seen as `bpb_t`. -/
def Bpb.ofBytes (b : List UInt8) : Bpb where
  bytesPerSector := fieldAt b 11 2
  sectorsPerCluster := b.getD 13 0
  reservedSectors := fieldAt b 14 2
  numFats := fieldAt b 16 1
  fatSize32 := UInt32.ofNat (fieldAt b 36 4)
  rootCluster := UInt32.ofNat (fieldAt b 44 4)

/-- The fields of `dirent_t` that `fat32_open` reads, with the name and the extension in one. -/
structure Dirent where
  name : List UInt8
  attr : UInt8
  clusterHi : ℕ
  clusterLo : ℕ
  fileSize : UInt32
deriving DecidableEq

/-- Bytes seen as `dirent_t`. -/
def Dirent.ofBytes (b : List UInt8) : Dirent where
  name := b.take 11
  attr := b.getD 11 0
  clusterHi := fieldAt b 20 2
  clusterLo := fieldAt b 26 2
  fileSize := UInt32.ofNat (fieldAt b 28 4)

def direntsOf (b : List UInt8) : List Dirent :=
  (List.range (512 / 32)).map fun e => .ofBytes ((b.drop (e * 32)).take 32)

/-- `ATTR_VOLUME_ID` and `ATTR_LFN`. -/
def attrVolumeId : UInt8 := 0x08
def attrLfn : UInt8 := 0x0F

/-! ## Names -/

def upper (c : UInt8) : UInt8 := if 0x61 ≤ c ∧ c ≤ 0x7A then c - 32 else c

/-- A loop of `path_to_83`: up to `room` characters of a name, without its end mark, before one to
stop at, and the rest of the name. -/
def copyName (stop : UInt8 → Bool) : ℕ → List UInt8 → List UInt8 × List UInt8
  | 0, name => ([], name)
  | _ + 1, [] => ([], [])
  | room + 1, c :: name =>
    if stop c then ([], c :: name)
    else (upper c :: (copyName stop room name).1, (copyName stop room name).2)

def blankPad (n : ℕ) (bs : List UInt8) : List UInt8 := bs ++ List.replicate (n - bs.length) 0x20

def pathTo83 (path : List UInt8) : List UInt8 :=
  let name := if path.head? = some 0x2F then path.tail else path
  let (base, rest) := copyName (· == 0x2E) 8 name
  let ext := if rest.head? = some 0x2E then (copyName (fun _ => false) 3 rest.tail).1 else []
  blankPad 8 base ++ blankPad 3 ext

/-- What the loop over entries comes to: an entry of that name, an end of the search, or a further
sector. -/
inductive Scan
  | found (startCluster fileSize : UInt32)
  | stop
  | goOn
deriving DecidableEq

/-- The loop of `fat32_open` over the entries of a sector. -/
def scanEntries (target : List UInt8) : List Dirent → Scan
  | [] => .goOn
  | d :: ds =>
    let first := d.name.headD 0
    if first = 0x00 then .stop
    else if first = 0xE5 then scanEntries target ds
    else if d.attr = attrLfn then scanEntries target ds
    else if d.attr &&& attrVolumeId ≠ 0 then scanEntries target ds
    else if d.name = target then
      .found (UInt32.ofNat d.clusterHi <<< 16 ||| UInt32.ofNat d.clusterLo) d.fileSize
    else scanEntries target ds

/-! ## The volume -/

/-- The device and the state of `fat32.c`. -/
structure Fat32 (δ : Type) where
  dev : δ
  fatStart : UInt32
  dataStart : UInt32
  rootCluster : UInt32
  spc : UInt8
  sectorBuf : Bytes 512
  ready : Bool

/-- A volume on another device. -/
def Fat32.on {α β : Type} (f : Fat32 α) (d : β) : Fat32 β where
  dev := d
  fatStart := f.fatStart
  dataStart := f.dataStart
  rootCluster := f.rootCluster
  spc := f.spc
  sectorBuf := f.sectorBuf
  ready := f.ready

def isEof (cluster : UInt32) : Bool := 0x0FFFFFF8 ≤ cluster

section

variable {δ : Type} [SectorDevice δ]

namespace Fat32

def readSector (f : Fat32 δ) (lba : UInt32) : ℤ × Fat32 δ :=
  let (rc, buf, dev) := SectorDevice.readSector f.dev lba.toNat f.sectorBuf
  (rc, { f with dev := dev, sectorBuf := buf })

def clusterToLba (f : Fat32 δ) (cluster : UInt32) : UInt32 :=
  f.dataStart + (cluster - 2) * f.spc.toUInt32

def fatNext (f : Fat32 δ) (cluster : UInt32) : UInt32 × Fat32 δ :=
  let fatOffset := cluster * 4
  let fatSector := f.fatStart + fatOffset / 512
  let entryOff := fatOffset % 512
  let (rc, f) := f.readSector fatSector
  if rc ≠ 0 then (0x0FFFFFFF, f)
  else (UInt32.ofNat (fieldAt f.sectorBuf.1 entryOff.toNat 4) &&& 0x0FFFFFFF, f)

end Fat32

def fat32Init (f : Fat32 δ) : Bool × Fat32 δ :=
  let (rc, f) := f.readSector 0
  let bpb := Bpb.ofBytes f.sectorBuf.1
  if rc ≠ 0 then (false, f)
  else if bpb.bytesPerSector ≠ 512 then (false, f)
  else if bpb.fatSize32 = 0 then (false, f)
  else
    (true, { f with
      spc := bpb.sectorsPerCluster
      fatStart := UInt32.ofNat bpb.reservedSectors
      rootCluster := bpb.rootCluster
      dataStart := UInt32.ofNat bpb.reservedSectors + UInt32.ofNat bpb.numFats * bpb.fatSize32
      ready := true })

/-- The loop of `fat32_open` over the sectors of a cluster. -/
def scanSectors (target : List UInt8) (lba : UInt32) : List ℕ → Fat32 δ → Scan × Fat32 δ
  | [], f => (.goOn, f)
  | s :: ss, f =>
    let (rc, f) := f.readSector (lba + UInt32.ofNat s)
    if rc ≠ 0 then (.stop, f)
    else
      match scanEntries target (direntsOf f.sectorBuf.1) with
      | .goOn => scanSectors target lba ss f
      | r => (r, f)

/-- The loop of `fat32_open` over the clusters of the root directory. -/
def scanClusters (target : List UInt8) : ℕ → UInt32 → Fat32 δ →
    Option (Option (UInt32 × UInt32) × Fat32 δ)
  | 0, _, _ => none
  | fuel + 1, cluster, f =>
    if isEof cluster then some (none, f)
    else
      match scanSectors target (f.clusterToLba cluster) (List.range f.spc.toNat) f with
      | (.found startCluster fileSize, f) => some (some (startCluster, fileSize), f)
      | (.stop, f) => some (none, f)
      | (.goOn, f) => scanClusters target fuel (f.fatNext cluster).1 (f.fatNext cluster).2

/-- `fat32_open`: the first cluster and the size of the file, if there is one. -/
def fat32Open (fuel : ℕ) (f : Fat32 δ) (path : List UInt8) :
    Option (Option (UInt32 × UInt32) × Fat32 δ) :=
  if f.ready then scanClusters (pathTo83 path) fuel f.rootCluster f else some (none, f)

/-- The loop of `fat32_read` over the sectors of a cluster, with the bytes read so far. The flag is
off when a read has failed. -/
def readSectors (lba : UInt32) (len : ℕ) : List ℕ → List UInt8 → Fat32 δ →
    Bool × List UInt8 × Fat32 δ
  | [], dst, f => (true, dst, f)
  | s :: ss, dst, f =>
    if dst.length < len then
      let (rc, f) := f.readSector (lba + UInt32.ofNat s)
      if rc ≠ 0 then (false, dst, f)
      else
        let chunk := if dst.length + 512 > len then len - dst.length else 512
        readSectors lba len ss (dst ++ f.sectorBuf.1.take chunk) f
    else (true, dst, f)

/-- The loop of `fat32_read` over the clusters of a file. -/
def readClusters (len : ℕ) : ℕ → UInt32 → List UInt8 → Fat32 δ → Option (List UInt8 × Fat32 δ)
  | 0, _, _, _ => none
  | fuel + 1, cluster, dst, f =>
    if !isEof cluster && dst.length < len then
      match readSectors (f.clusterToLba cluster) len (List.range f.spc.toNat) dst f with
      | (false, dst, f) => some (dst, f)
      | (true, dst, f) => readClusters len fuel (f.fatNext cluster).1 dst (f.fatNext cluster).2
    else some (dst, f)

/-- `fat32_read`: the bytes put into the buffer, whose number is returned. -/
def fat32Read (fuel : ℕ) (f : Fat32 δ) (startCluster : UInt32) (len : ℕ) :
    Option (List UInt8 × Fat32 δ) :=
  if f.ready then readClusters len fuel startCluster [] f else some ([], f)

end

/-! ## Files -/

/-- The volume and the flag of `vfs.c`. -/
structure Vfs (δ : Type) where
  fs : Fat32 δ
  ready : Bool

/-- `vfs_node_t`. -/
structure VfsNode where
  startCluster : UInt32
  size : UInt32
  valid : Bool

/-- The files on another device. -/
def Vfs.on {α β : Type} (v : Vfs α) (d : β) : Vfs β := ⟨v.fs.on d, v.ready⟩

section

variable {δ : Type} [SectorDevice δ]

def vfsInit (v : Vfs δ) : Vfs δ where
  fs := (fat32Init v.fs).2
  ready := (fat32Init v.fs).1

/-- `vfs_open` into a node. -/
def vfsOpen (fuel : ℕ) (v : Vfs δ) (path : List UInt8) (out : VfsNode) :
    Option (Bool × VfsNode × Vfs δ) :=
  if v.ready then
    match fat32Open fuel v.fs path with
    | none => none
    | some (none, fs) => some (false, { out with valid := false }, { v with fs := fs })
    | some (some (cluster, size), fs) =>
      some (true, { startCluster := cluster, size := size, valid := true }, { v with fs := fs })
  else some (false, { out with valid := false }, v)

def vfsRead (fuel : ℕ) (v : Vfs δ) (node : VfsNode) (len : ℕ) : Option (List UInt8 × Vfs δ) :=
  if node.valid then
    let len := if len > node.size.toNat then node.size.toNat else len
    (fat32Read fuel v.fs node.startCluster len).map fun (bytes, fs) => (bytes, { v with fs := fs })
  else some ([], v)

end

end StyxOS
