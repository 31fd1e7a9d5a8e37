import StyxOS.Fs.Volume
import StyxOS.Oram.Usb

/-! # The image builder

The volume that `make_usb_img.py` lays out around one file, as the bytes of the
image, and that the reader of `fat32.c` finds the file in it. The parameters of
the script are numbers without bound, and its byte arrays are memories of which
a part of known length is used.
-/

namespace StyxOS

open ByteMem

/-! ## The script -/

namespace UsbImage

def imgMb : ℕ := 64
def sector : ℕ := 512
def spc : ℕ := 8
def reserved : ℕ := 32
def nfats : ℕ := 2
def rootCluster : ℕ := 2
def fileStartCluster : ℕ := 3

def totalSectors : ℕ := imgMb * 1024 * 1024 / sector

/-- `math.ceil(a / b)`. -/
def ceilDiv (a b : ℕ) : ℕ := (a + b - 1) / b

/-- The body of the loop that converges on `fat_size`. -/
def fatSizeStep (fatSize : ℕ) : ℕ :=
  let dataStart := reserved + nfats * fatSize
  let dataClusters := (totalSectors - dataStart) / spc
  ceilDiv ((dataClusters + 2) * 4) sector

/-- `fat_size`, after four rounds from an upper bound. -/
def fatSize : ℕ := fatSizeStep^[4] (ceilDiv (totalSectors * 4) sector)

def dataStart : ℕ := reserved + nfats * fatSize

/-- `bytearray(n)`, of any length. -/
def zeros : Mem := fun _ => 0

/-- The bytes of a text in the Latin alphabet. -/
def ascii (cs : List Char) : List UInt8 := cs.map fun c => UInt8.ofNat c.toNat

def makeBpb : List UInt8 :=
  let b := store zeros 0 [0xEB, 0x58, 0x90]
  let b := store b 3 (ascii ['M', 'S', 'D', 'O', 'S', '5', '.', '0'])
  let b := storeLE b 11 2 sector
  let b := store b 13 [UInt8.ofNat spc]
  let b := storeLE b 14 2 reserved
  let b := store b 16 [UInt8.ofNat nfats]
  let b := storeLE b 17 2 0
  let b := storeLE b 19 2 0
  let b := store b 21 [0xF8]
  let b := storeLE b 22 2 0
  let b := storeLE b 24 2 63
  let b := storeLE b 26 2 255
  let b := storeLE b 28 4 0
  let b := storeLE b 32 4 totalSectors
  let b := storeLE b 36 4 fatSize
  let b := storeLE b 40 2 0
  let b := storeLE b 42 2 0
  let b := storeLE b 44 4 rootCluster
  let b := storeLE b 48 2 1
  let b := storeLE b 50 2 6
  let b := store b 64 [0x80]
  let b := store b 66 [0x29]
  let b := storeLE b 67 4 0x5A5A0001
  let b := store b 71 (ascii ['S', 'T', 'Y', 'X', 'B', 'O', 'O', 'T', ' ', ' ', ' '])
  let b := store b 82 (ascii ['F', 'A', 'T', '3', '2', ' ', ' ', ' '])
  let b := store b 510 [0x55]
  let b := store b 511 [0xAA]
  load b 0 sector

def clusterSector (c : ℕ) : ℕ := dataStart + (c - 2) * spc

/-- `put` of `build_fat`. -/
def put (fat : Mem) (c v : ℕ) : Mem := storeLE fat (c * 4) 4 v

/-- The body of the loop of `build_fat`. -/
def putLink (clustersNeeded : ℕ) (fat : Mem) (i : ℕ) : Mem :=
  put fat (fileStartCluster + i)
    (if i < clustersNeeded - 1 then fileStartCluster + i + 1 else 0x0FFFFFFF)

def buildFat (clustersNeeded : ℕ) : Mem :=
  let fat := put zeros 0 0x0FFFFFF8
  let fat := put fat 1 0x0FFFFFFF
  let fat := put fat rootCluster 0x0FFFFFFF
  (List.range clustersNeeded).foldl (putLink clustersNeeded) fat

def makeDirent (name8 ext3 : List UInt8) (startCluster fileSize : ℕ) : List UInt8 :=
  let d := store zeros 0 (blankPad 8 name8)
  let d := store d 8 (blankPad 3 ext3)
  let d := store d 11 [0x20]
  let d := storeLE d 20 2 (startCluster / 2 ^ 16 % 2 ^ 16)
  let d := storeLE d 22 2 0x5A00
  let d := storeLE d 24 2 0x5A93
  let d := storeLE d 26 2 (startCluster % 2 ^ 16)
  let d := storeLE d 28 4 fileSize
  load d 0 32

def clustersNeeded (elf : List UInt8) : ℕ := max 1 (ceilDiv elf.length (spc * sector))

def fileOff : ℕ := clusterSector fileStartCluster * sector

/-- `main`: the image built around the file. -/
def usbImage (elf : List UInt8) : Mem :=
  let img := store zeros 0 makeBpb
  let fat := load (buildFat (clustersNeeded elf)) 0 (fatSize * sector)
  let f1 := reserved * sector
  let f2 := f1 + fatSize * sector
  let img := store img f1 fat
  let img := store img f2 fat
  let rootOff := clusterSector rootCluster * sector
  let dirent := makeDirent (ascii ['I', 'N', 'I', 'T']) (ascii ['E', 'L', 'F']) fileStartCluster
    elf.length
  let img := store img rootOff dirent
  store img fileOff elf

/-- The file does not reach beyond the end of the image. -/
def Fits (elf : List UInt8) : Prop := fileOff + elf.length ≤ totalSectors * sector

instance (elf : List UInt8) : Decidable (Fits elf) := inferInstanceAs (Decidable (_ ≤ _))

/-- A sector of the image. -/
def imageSector (elf : List UInt8) (lba : ℕ) : Bytes 512 :=
  ⟨load (usbImage elf) (lba * 512) 512, length_load⟩

/-! ## What is where -/

theorem ofBytes_makeBpb : Bpb.ofBytes makeBpb = ⟨512, 8, 32, 2, 128, 2⟩ := by decide +kernel

theorem length_makeBpb : makeBpb.length = 512 := length_load

def initElf (fileSize : ℕ) : List UInt8 :=
  makeDirent (ascii ['I', 'N', 'I', 'T']) (ascii ['E', 'L', 'F']) fileStartCluster fileSize

/-- The image with its offsets. -/
theorem usbImage_eq (elf : List UInt8) :
    usbImage elf =
      store (store (store (store (store zeros 0 makeBpb) 16384
        (load (buildFat (clustersNeeded elf)) 0 65536)) 81920
        (load (buildFat (clustersNeeded elf)) 0 65536)) 147456 (initElf elf.length)) 151552 elf :=
  rfl

variable {elf : List UInt8}

theorem val_imageSector {lba a : ℕ} (h : lba * 512 = a) :
    (imageSector elf lba).1 = load (usbImage elf) a 512 := by
  simp only [imageSector, h]

theorem imageSector_zero (elf : List UInt8) : (imageSector elf 0).1 = makeBpb := by
  have hfront : ∀ bs : List UInt8, bs.length = 512 → load (store zeros 0 bs) 0 512 = bs := by
    intro bs hbs
    rw [← hbs]
    exact load_store_same
  have himage : load (usbImage elf) 0 512 = load (store zeros 0 makeBpb) 0 512 := by
    rw [usbImage_eq, load_store_disjoint (.inl (by decide)),
      load_store_disjoint (.inl (by decide)), load_store_disjoint (.inl (by decide)),
      load_store_disjoint (.inl (by decide))]
  rw [val_imageSector (Nat.zero_mul 512), himage]
  exact hfront makeBpb length_makeBpb

theorem load_usbImage_fat {a : ℕ} (h : a + 4 ≤ 65536) :
    load (usbImage elf) (16384 + a) 4 = load (buildFat (clustersNeeded elf)) a 4 := by
  rw [usbImage_eq, load_store_disjoint (.inl (by omega)), load_store_disjoint (.inl (by omega)),
    load_store_disjoint (.inl (by omega)), load_store_sub (by rw [length_load]; exact h),
    take_drop_load h, Nat.zero_add]

theorem load_usbImage_root (elf : List UInt8) :
    load (usbImage elf) 147456 32 = initElf elf.length := by
  rw [usbImage_eq, load_store_disjoint (.inl (by omega))]
  exact load_store_same

theorem load_usbImage_file (elf : List UInt8) : load (usbImage elf) 151552 elf.length = elf := by
  rw [usbImage_eq]
  exact load_store_same

/-! ## The table -/

section

variable {fat : Mem} {c c' v n i : ℕ}

theorem loadLE_put_self (h : v < 2 ^ 32) : loadLE (put fat c v) (c * 4) 4 = v :=
  loadLE_storeLE_same h

theorem loadLE_put_of_ne (h : c' ≠ c) : loadLE (put fat c v) (c' * 4) 4 = loadLE fat (c' * 4) 4 :=
  loadLE_storeLE_disjoint (by omega)

def fileLink (n i : ℕ) : ℕ :=
  if i < n - 1 then fileStartCluster + i + 1 else 0x0FFFFFFF

theorem fileLink_lt (hn : n < 2 ^ 27) : fileLink n i < 2 ^ 28 := by
  unfold fileLink fileStartCluster
  split <;> omega

theorem loadLE_foldl_putLink (hn : n < 2 ^ 27) (k : ℕ) (hi : i < k) :
    loadLE ((List.range k).foldl (putLink n) fat) ((fileStartCluster + i) * 4) 4 =
      fileLink n i := by
  induction k with
  | zero => exact absurd hi (Nat.not_lt_zero i)
  | succ k ih =>
    rw [List.range_succ, List.foldl_append, List.foldl_cons, List.foldl_nil, putLink]
    rcases Nat.lt_succ_iff_lt_or_eq.mp hi with hlt | rfl
    · rw [loadLE_put_of_ne (by omega)]
      exact ih hlt
    · exact loadLE_put_self ((fileLink_lt hn).trans (by decide))

theorem loadLE_buildFat (hn : n < 2 ^ 27) (hi : i < n) :
    loadLE (buildFat n) ((fileStartCluster + i) * 4) 4 = fileLink n i :=
  loadLE_foldl_putLink hn n hi

end

/-! ## The entry -/

theorem fieldAt_load {m : Mem} {a k o n : ℕ} (h : o + n ≤ k) :
    fieldAt (load m a k) o n = loadLE m (a + o) n := by
  rw [fieldAt, take_drop_load h, loadLE]

/-- The entry of the file before its size is put in. -/
def initElfHead : Mem :=
  let d := store zeros 0 (blankPad 8 (ascii ['I', 'N', 'I', 'T']))
  let d := store d 8 (blankPad 3 (ascii ['E', 'L', 'F']))
  let d := store d 11 [0x20]
  let d := storeLE d 20 2 (fileStartCluster / 2 ^ 16 % 2 ^ 16)
  let d := storeLE d 22 2 0x5A00
  let d := storeLE d 24 2 0x5A93
  storeLE d 26 2 (fileStartCluster % 2 ^ 16)

theorem initElf_eq (len : ℕ) : initElf len = load (storeLE initElfHead 28 4 len) 0 32 := rfl

/-- The name of the file, as it is opened. -/
def initElfPath : List UInt8 := ascii ['/', 'i', 'n', 'i', 't', '.', 'e', 'l', 'f']

theorem ofBytes_initElf {len : ℕ} (h : len < 2 ^ 32) :
    Dirent.ofBytes (initElf len) = ⟨pathTo83 initElfPath, 0x20, 0, 3, UInt32.ofNat len⟩ := by
  have hhead : ∀ a n, a + n ≤ 28 →
      load (storeLE initElfHead 28 4 len) a n = load initElfHead a n :=
    fun a n han => load_store_disjoint (.inl han)
  have hname : (initElf len).take 11 = pathTo83 initElfPath := by
    have htake := take_drop_load (m := storeLE initElfHead 28 4 len) (a := 0) (i := 0) (n := 11)
      (k := 32) (by decide)
    rw [List.drop_zero] at htake
    rw [initElf_eq, htake, hhead _ _ (by decide)]
    decide +kernel
  have hattr : (initElf len).getD 11 0 = 0x20 := by
    have hbyte : (initElf len).getD 11 0 = storeLE initElfHead 28 4 len 11 := rfl
    rw [hbyte, storeLE, store_apply_of_lt (by decide)]
    decide +kernel
  have hhi : fieldAt (initElf len) 20 2 = 0 := by
    rw [initElf_eq, fieldAt_load (by decide), loadLE, hhead _ _ (by decide)]
    decide +kernel
  have hlo : fieldAt (initElf len) 26 2 = 3 := by
    rw [initElf_eq, fieldAt_load (by decide), loadLE, hhead _ _ (by decide)]
    decide +kernel
  have hsize : fieldAt (initElf len) 28 4 = len := by
    rw [initElf_eq, fieldAt_load (by decide)]
    exact loadLE_storeLE_same h
  rw [Dirent.ofBytes, hname, hattr, hhi, hlo, hsize]

/-! ## The clusters of the file -/

def fileCluster (i : ℕ) : UInt32 := UInt32.ofNat (fileStartCluster + i)

theorem toNat_fileCluster {i : ℕ} (h : i < 16348) : (fileCluster i).toNat = 3 + i := by
  rw [fileCluster, UInt32.toNat_ofNat', fileStartCluster]
  omega

theorem isEof_fileCluster {i : ℕ} (h : i < 16348) : isEof (fileCluster i) = false := by
  rw [isEof, decide_eq_false_iff_not, UInt32.le_iff_toNat_le, toNat_fileCluster h]
  change ¬ 0x0FFFFFF8 ≤ 3 + i
  omega

theorem clustersNeeded_le (h : Fits elf) : clustersNeeded elf ≤ 16347 := by
  have hlen : 151552 + elf.length ≤ 67108864 := h
  unfold clustersNeeded ceilDiv spc sector
  omega

theorem length_le_clustersNeeded (elf : List UInt8) :
    elf.length ≤ clustersNeeded elf * 4096 := by
  unfold clustersNeeded ceilDiv spc sector
  omega

/-- The volume of the image is mounted. -/
structure Mounted {δ : Type} (f : Fat32 δ) : Prop where
  fatStart : f.fatStart = 32
  dataStart : f.dataStart = 288
  rootCluster : f.rootCluster = 2
  spc : f.spc = 8
  ready : f.ready = true

section

variable {δ : Type} {f : Fat32 δ} {i s : ℕ}

theorem Mounted.toNat_fatSector (h : Mounted f) (hi : i < 16348) :
    (f.fatSector (fileCluster i)).toNat = 32 + (3 + i) / 128 := by
  have hc := toNat_fileCluster hi
  rw [Fat32.fatSector, h.fatStart, UInt32.toNat_add, UInt32.toNat_div, UInt32.toNat_mul, hc]
  change (32 + (3 + i) * 4 % 2 ^ 32 / 512) % 2 ^ 32 = _
  omega

theorem toNat_entryOff (hi : i < 16348) :
    (fileCluster i * 4 % 512).toNat = (3 + i) % 128 * 4 := by
  rw [UInt32.toNat_mod, UInt32.toNat_mul, toNat_fileCluster hi]
  change (3 + i) * 4 % 2 ^ 32 % 512 = _
  omega

theorem Mounted.toNat_clusterSector (h : Mounted f) (hi : i < 16348) (hs : s < 8) :
    (f.clusterSector (fileCluster i) s).toNat = 296 + i * 8 + s := by
  have hc := toNat_fileCluster hi
  rw [Fat32.clusterSector, Fat32.clusterToLba, h.dataStart, h.spc, UInt32.toNat_add,
    UInt32.toNat_add, UInt32.toNat_mul, UInt32.toNat_sub, hc, UInt32.toNat_ofNat']
  change ((288 + (2 ^ 32 - 2 + (3 + i)) % 2 ^ 32 * 8 % 2 ^ 32) % 2 ^ 32 + s % 2 ^ 32) % 2 ^ 32 = _
  omega

theorem Mounted.within (h : Mounted f) (hi : i < 16347) :
    f.Within totalSectors (fileCluster i) := by
  have htotal : totalSectors = 131072 := rfl
  constructor
  · rw [h.toNat_fatSector (by omega), htotal]
    omega
  · intro s hs
    rw [h.spc] at hs
    rw [h.toNat_clusterSector (by omega) hs, htotal]
    change s < 8 at hs
    omega

theorem land_entryMask {v : ℕ} (h : v < 2 ^ 28) :
    UInt32.ofNat v &&& 0x0FFFFFFF = UInt32.ofNat v := by
  apply UInt32.toNat_inj.mp
  rw [UInt32.toNat_and, UInt32.toNat_ofNat']
  change v % 2 ^ 32 &&& 2 ^ 28 - 1 = v % 2 ^ 32
  rw [Nat.and_two_pow_sub_one_eq_mod]
  omega

theorem Mounted.fatEntry (h : Mounted f) (hfits : Fits elf) (hi : i < clustersNeeded elf) :
    f.fatEntry (imageSector elf) (fileCluster i) =
      UInt32.ofNat (fileLink (clustersNeeded elf) i) := by
  have hn := clustersNeeded_le hfits
  have hbuild : loadLE (buildFat (clustersNeeded elf)) ((3 + i) * 4) 4 =
      fileLink (clustersNeeded elf) i := loadLE_buildFat (by omega) hi
  have hfield : fieldAt (imageSector elf (32 + (3 + i) / 128)).1 ((3 + i) % 128 * 4) 4 =
      fileLink (clustersNeeded elf) i := by
    have haddr : (32 + (3 + i) / 128) * 512 + (3 + i) % 128 * 4 = 16384 + (3 + i) * 4 := by omega
    rw [val_imageSector rfl, fieldAt_load (by omega), haddr, loadLE,
      load_usbImage_fat (by omega), ← loadLE, hbuild]
  rw [Fat32.fatEntry, h.toNat_fatSector (by omega), toNat_entryOff (by omega), hfield,
    land_entryMask (fileLink_lt (by omega))]

theorem Mounted.fileChain (h : Mounted f) (hfits : Fits elf) :
    f.FileChain (imageSector elf) 3 ((List.range (clustersNeeded elf)).map fileCluster) := by
  have hn := clustersNeeded_le hfits
  have hpos : 0 < clustersNeeded elf := Nat.lt_of_lt_of_le Nat.one_pos (Nat.le_max_left _ _)
  obtain ⟨n, hsucc⟩ := Nat.exists_eq_add_one_of_ne_zero hpos.ne'
  have hlink : ∀ i < clustersNeeded elf, f.fatEntry (imageSector elf) (fileCluster i) =
      UInt32.ofNat (fileLink (clustersNeeded elf) i) := fun i hi => h.fatEntry hfits hi
  rw [hsucc] at hlink hn ⊢
  refine LinkChain.map_range (g := fileCluster) ?_ ?_ ?_
  · intro i hi
    rw [hlink i (by omega), fileLink, if_pos (by omega)]
    rfl
  · rw [hlink n (by omega), fileLink, if_neg (by omega)]
    rfl
  · intro i hi
    rw [isEof_fileCluster (by omega)]
    decide

theorem Mounted.clusterBytes (h : Mounted f) (hi : i < 16348) :
    f.clusterBytes (imageSector elf) (fileCluster i) =
      load (usbImage elf) (151552 + i * 4096) 4096 := by
  have hspc : f.spc.toNat = 8 := by rw [h.spc]; rfl
  have hsize : 8 * 512 = 4096 := rfl
  rw [Fat32.clusterBytes, hspc, ← hsize, ← flatMap_range_load]
  apply List.flatMap_congr
  intro s hs
  have haddr : (296 + i * 8 + s) * 512 = 151552 + i * 4096 + s * 512 := by ring
  rw [h.toNat_clusterSector hi (List.mem_range.mp hs), val_imageSector haddr]

theorem Mounted.take_clusters (h : Mounted f) (hfits : Fits elf) :
    (((List.range (clustersNeeded elf)).map fileCluster).flatMap
      (f.clusterBytes (imageSector elf))).take elf.length = elf := by
  have hn := clustersNeeded_le hfits
  have hbytes : ((List.range (clustersNeeded elf)).map fileCluster).flatMap
      (f.clusterBytes (imageSector elf)) =
        load (usbImage elf) 151552 (clustersNeeded elf * 4096) := by
    rw [List.flatMap_map, ← flatMap_range_load]
    apply List.flatMap_congr
    intro i hi
    exact h.clusterBytes ((List.mem_range.mp hi).trans (by omega))
  have htake := take_drop_load (m := usbImage elf) (a := 151552) (i := 0)
    (k := clustersNeeded elf * 4096) (n := elf.length)
    (by rw [Nat.zero_add]; exact length_le_clustersNeeded elf)
  rw [List.drop_zero, Nat.add_zero] at htake
  rw [hbytes, htake, load_usbImage_file]

end

/-! ## The reader on the image -/

section

variable {δ : Type} [SectorDevice δ] {Good : δ → Prop} {f : Fat32 δ}

theorem fat32Init_image (h : Serves Good (imageSector elf) totalSectors) (hd : Good f.dev) :
    ∃ f', fat32Init f = (true, f') ∧ Mounted f' ∧ Good f'.dev := by
  obtain ⟨d, he, hd'⟩ := h.readSector hd (show (0 : UInt32).toNat < totalSectors by decide)
  have hbpb : (f.reread d (imageSector elf 0)).sectorBuf.1 = makeBpb := imageSector_zero elf
  have hread : f.readSector 0 = (0, f.reread d (imageSector elf 0)) := he
  refine ⟨{ f.reread d (imageSector elf 0) with
      spc := 8, fatStart := 32, rootCluster := 2, dataStart := 288, ready := true }, ?_,
    ⟨rfl, rfl, rfl, rfl, rfl⟩, hd'⟩
  unfold fat32Init
  rw [hread]
  dsimp only
  rw [hbpb, ofBytes_makeBpb]
  rfl

theorem direntsOf_root (hfits : Fits elf) :
    ∃ ds, direntsOf (imageSector elf 288).1 =
      ⟨pathTo83 initElfPath, 0x20, 0, 3, UInt32.ofNat elf.length⟩ :: ds := by
  have hlen : 151552 + elf.length ≤ 67108864 := hfits
  have hfirst : ((imageSector elf 288).1.drop (0 * 32)).take 32 = initElf elf.length := by
    rw [val_imageSector rfl, take_drop_load (by decide)]
    exact load_usbImage_root elf
  rw [direntsOf, List.range_succ_eq_map, List.map_cons, hfirst, ofBytes_initElf (by omega)]
  exact ⟨_, rfl⟩

theorem scanEntries_initElf (size : UInt32) (ds : List Dirent) :
    scanEntries (pathTo83 initElfPath) (⟨pathTo83 initElfPath, 0x20, 0, 3, size⟩ :: ds) =
      .found 3 size := by
  have hfirst : (pathTo83 initElfPath).headD 0 = 0x49 := by decide +kernel
  rw [scanEntries]
  dsimp only
  rw [hfirst, if_neg (by decide), if_neg (by decide), if_neg (by decide), if_neg (by decide),
    if_pos rfl]
  rfl

theorem Mounted.fat32Open (h : Serves Good (imageSector elf) totalSectors) (hm : Mounted f)
    (hd : Good f.dev) (hfits : Fits elf) {fuel : ℕ} (hfuel : 0 < fuel) :
    ∃ d b, fat32Open fuel f initElfPath =
      some (some (3, UInt32.ofNat elf.length), f.reread d b) ∧ Good d := by
  obtain ⟨fuel, rfl⟩ := Nat.exists_eq_add_one_of_ne_zero hfuel.ne'
  obtain ⟨ds, hds⟩ := direntsOf_root hfits
  have hlba : f.clusterToLba f.rootCluster + UInt32.ofNat 0 = 288 := by
    rw [Fat32.clusterToLba, hm.rootCluster, hm.dataStart, hm.spc]
    rfl
  obtain ⟨d, he, hd'⟩ := h.readSector hd (show (288 : UInt32).toNat < totalSectors by decide)
  have hread : f.readSector 288 = (0, f.reread d (imageSector elf 288)) := he
  have hspc : List.range f.spc.toNat = 0 :: List.range' 1 7 := by
    rw [hm.spc]
    rfl
  have hscan : scanSectors (pathTo83 initElfPath) (f.clusterToLba f.rootCluster)
      (List.range f.spc.toNat) f =
        (.found 3 (UInt32.ofNat elf.length), f.reread d (imageSector elf 288)) := by
    have hentries : direntsOf (f.reread d (imageSector elf 288)).sectorBuf.1 = _ := hds
    rw [hspc, scanSectors, hlba, hread]
    dsimp only
    rw [hentries, scanEntries_initElf]
    rfl
  have hopen : isEof f.rootCluster = false := by
    rw [hm.rootCluster]
    rfl
  refine ⟨d, imageSector elf 288, ?_, hd'⟩
  rw [StyxOS.fat32Open, hm.ready, if_pos rfl, scanClusters, hopen, hscan]
  rfl

/-- On a device that returns the sectors of the image, the volume is mounted, the file is opened
with its size, and reading it returns its bytes. -/
theorem fat32_inverts_image (hfits : Fits elf)
    (h : Serves Good (imageSector elf) totalSectors) (v : Vfs δ) (hd : Good v.fs.dev)
    (out : VfsNode) {fuel : ℕ} (hfuel : clustersNeeded elf < fuel) :
    (vfsInit v).ready = true ∧
      ∃ node v₁, vfsOpen fuel (vfsInit v) initElfPath out = some (true, node, v₁) ∧
        node.size.toNat = elf.length ∧
        ∃ v₂, vfsRead fuel v₁ node elf.length = some (elf, v₂) := by
  obtain ⟨f, hinit, hm, hd₀⟩ := fat32Init_image h hd
  obtain ⟨d₁, b₁, hopen, hd₁⟩ := hm.fat32Open h hd₀ hfits (Nat.zero_lt_of_lt hfuel)
  have hm₁ : Mounted (f.reread d₁ b₁) :=
    ⟨hm.fatStart, hm.dataStart, hm.rootCluster, hm.spc, hm.ready⟩
  have hin : ∀ c ∈ (List.range (clustersNeeded elf)).map fileCluster,
      (f.reread d₁ b₁).Within totalSectors c := by
    intro c hc
    obtain ⟨i, hi, rfl⟩ := List.mem_map.mp hc
    exact hm₁.within ((List.mem_range.mp hi).trans_le (clustersNeeded_le hfits))
  obtain ⟨d₂, b₂, hread, -⟩ := h.fat32Read (f := f.reread d₁ b₁) hd₁ hm.ready elf.length
    (hm₁.fileChain hfits) hin (by rwa [List.length_map, List.length_range])
  rw [hm₁.take_clusters hfits] at hread
  have hsize : (UInt32.ofNat elf.length).toNat = elf.length := by
    have hlen : 151552 + elf.length ≤ 67108864 := hfits
    rw [UInt32.toNat_ofNat']
    omega
  have hv : vfsInit v = ⟨f, true⟩ := by rw [vfsInit, hinit]
  refine ⟨by rw [hv], ⟨3, UInt32.ofNat elf.length, true⟩, ⟨f.reread d₁ b₁, true⟩, ?_, hsize,
    ⟨(f.reread d₁ b₁).reread d₂ b₂, true⟩, ?_⟩
  · rw [hv, vfsOpen]
    dsimp only
    rw [hopen]
    rfl
  · rw [vfsRead]
    dsimp only
    rw [if_pos rfl, hsize, if_neg (Nat.lt_irrefl _), hread]
    rfl

end

/-! ## The driver -/

/-- The driver with encryption off, over a disk with these sectors. -/
def OnDisk {σ : Type} {T : Transport σ} {csprng : ℕ → List UInt8} (F : FaithfulTransport T)
    (disk : ℕ → Bytes 512) (n : ℕ) (d : UsbDisk T csprng) : Prop :=
  F.Ready d.storage.dev ∧ d.storage.encryptionEnabled = false ∧
    ∀ lba < n, F.disk d.storage.dev (UInt32.ofNat lba) = disk lba

theorem usb_serves {σ : Type} {T : Transport σ} {csprng : ℕ → List UInt8} (F : FaithfulTransport T)
    (disk : ℕ → Bytes 512) (n : ℕ) :
    Serves (fun d : UsbDisk T csprng => OnDisk F disk n d) disk n := by
  rintro ⟨s⟩ lba buf ⟨hready, hoff, hdisk⟩ hlba
  obtain ⟨dev, he, hready', hdisk'⟩ := F.read_raw csprng hready hoff (UInt32.ofNat lba) buf
  refine ⟨⟨{ s with dev := dev, tag := s.tag + 1 }⟩, ?_, hready', hoff, ?_⟩
  · simp only [readSector, he]
    rw [Bytes.ofList_of_length (F.disk s.dev (UInt32.ofNat lba)).2, ← hdisk lba hlba]
  · intro l hl
    dsimp only
    rw [hdisk']
    exact hdisk l hl

/-- A stick with an image written to it, before the volume is mounted. -/
def stick (elf : List UInt8) : Vfs (UsbDisk MemDisk.transport fun _ => []) where
  fs :=
    { dev := ⟨{ MemDisk.blank with
        dev := ⟨fun lba => imageSector elf lba.toNat, .command⟩ }⟩
      fatStart := 0
      dataStart := 0
      rootCluster := 0
      spc := 0
      sectorBuf := Bytes.zero 512
      ready := false }
  ready := false

theorem stick_onDisk (elf : List UInt8) :
    OnDisk MemDisk.faithful (imageSector elf) totalSectors (stick elf).fs.dev := by
  refine ⟨rfl, rfl, fun lba hlba => ?_⟩
  have htotal : totalSectors = 131072 := rfl
  have hlba' : (UInt32.ofNat lba).toNat = lba := by
    rw [UInt32.toNat_ofNat']
    omega
  change imageSector elf (UInt32.ofNat lba).toNat = _
  rw [hlba']

theorem fat32_inverts_image_sample :
    (vfsInit (stick [1, 2, 3])).ready = true ∧
      ∃ node v₁, vfsOpen 2 (vfsInit (stick [1, 2, 3])) initElfPath ⟨0, 0, false⟩ =
          some (true, node, v₁) ∧
        node.size.toNat = 3 ∧ ∃ v₂, vfsRead 2 v₁ node 3 = some ([1, 2, 3], v₂) :=
  fat32_inverts_image (by decide) (usb_serves MemDisk.faithful _ _) (stick [1, 2, 3])
    (stick_onDisk [1, 2, 3]) ⟨0, 0, false⟩ (by decide)

end UsbImage

end StyxOS
