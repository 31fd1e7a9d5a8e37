import StyxOS.Fs.Volume
import StyxOS.Oram.Flaky

/-! # Reading a file into memory

`fat32_read` with the memory that it writes to, over a device whose transfers
may fail. When all the reads that a call makes succeed, the buffer holds the
bytes of the chain, up to the length asked for, and nothing beyond them is
written.
-/

namespace StyxOS

open ByteMem

/-! ## The loops with the buffer -/

section

variable {δ : Type} [SectorDevice δ]

/-- The loop of `fat32_read` over the sectors of a cluster, with the memory and `done`. The flag is
off when a read has failed. -/
def readSectorsInto (lba : UInt32) (buf len : ℕ) : List ℕ → Mem → ℕ → Fat32 δ →
    Bool × Mem × ℕ × Fat32 δ
  | [], m, done, f => (true, m, done, f)
  | s :: ss, m, done, f =>
    if done < len then
      let (rc, f) := f.readSector (lba + UInt32.ofNat s)
      if rc ≠ 0 then (false, m, done, f)
      else
        let chunk := if done + 512 > len then len - done else 512
        readSectorsInto lba buf len ss (store m (buf + done) (f.sectorBuf.1.take chunk))
          (done + chunk) f
    else (true, m, done, f)

/-- The loop of `fat32_read` over the clusters of a file, with the memory and `done`. -/
def readClustersInto (buf len : ℕ) : ℕ → UInt32 → Mem → ℕ → Fat32 δ →
    Option (ℕ × Mem × Fat32 δ)
  | 0, _, _, _, _ => none
  | fuel + 1, cluster, m, done, f =>
    if !isEof cluster && done < len then
      match readSectorsInto (f.clusterToLba cluster) buf len (List.range f.spc.toNat) m done f with
      | (false, m, done, f) => some (done, m, f)
      | (true, m, done, f) =>
        readClustersInto buf len fuel (f.fatNext cluster).1 m done (f.fatNext cluster).2
    else some (done, m, f)

/-- `fat32_read` into the memory at `buf`: the number of bytes, and the memory. -/
def fat32ReadInto (fuel : ℕ) (f : Fat32 δ) (startCluster : UInt32) (m : Mem) (buf len : ℕ) :
    Option (ℕ × Mem × Fat32 δ) :=
  if f.ready then readClustersInto buf len fuel startCluster m 0 f else some (0, m, f)

/-- The memory holds the bytes read so far. -/
theorem readSectorsInto_eq (lba : UInt32) (buf len : ℕ) (m : Mem) (ss : List ℕ) (dst : List UInt8)
    (f : Fat32 δ) :
    readSectorsInto lba buf len ss (store m buf dst) dst.length f =
      ((readSectors lba len ss dst f).1, store m buf (readSectors lba len ss dst f).2.1,
        (readSectors lba len ss dst f).2.1.length, (readSectors lba len ss dst f).2.2) := by
  induction ss generalizing dst f with
  | nil => rfl
  | cons s ss ih =>
    by_cases hroom : dst.length < len
    · obtain ⟨rc, f', hr⟩ : ∃ rc f', f.readSector (lba + UInt32.ofNat s) = (rc, f') := ⟨_, _, rfl⟩
      simp only [readSectorsInto, readSectors, if_pos hroom, hr]
      by_cases hrc : rc = 0
      · set chunk := if dst.length + 512 > len then len - dst.length else 512 with hchunk
        have hlen : dst.length + chunk = (dst ++ f'.sectorBuf.1.take chunk).length := by
          rw [List.length_append, List.length_take, f'.sectorBuf.2]
          split at hchunk <;> omega
        simp only [hrc, ne_eq, not_true_eq_false, if_false]
        rw [← store_append, hlen]
        exact ih (dst ++ f'.sectorBuf.1.take chunk) f'
      · simp [hrc]
    · simp [readSectorsInto, readSectors, hroom]

theorem readClustersInto_eq (buf len : ℕ) (m : Mem) (fuel : ℕ) (cluster : UInt32)
    (dst : List UInt8) (f : Fat32 δ) :
    readClustersInto buf len fuel cluster (store m buf dst) dst.length f =
      (readClusters len fuel cluster dst f).map fun r => (r.1.length, store m buf r.1, r.2) := by
  induction fuel generalizing cluster dst f with
  | zero => rfl
  | succ fuel ih =>
    rw [readClustersInto, readClusters, readSectorsInto_eq]
    by_cases hgo : (!isEof cluster && decide (dst.length < len)) = true
    · rw [if_pos hgo, if_pos hgo]
      obtain ⟨ok, dst', f', hr⟩ : ∃ ok dst' f', readSectors (f.clusterToLba cluster) len
        (List.range f.spc.toNat) dst f = (ok, dst', f') := ⟨_, _, _, rfl⟩
      rw [hr]
      cases ok with
      | false => rfl
      | true => exact ih _ dst' _
    · rw [if_neg hgo, if_neg hgo]
      rfl

theorem fat32ReadInto_eq (fuel : ℕ) (f : Fat32 δ) (start : UInt32) (m : Mem) (buf len : ℕ) :
    fat32ReadInto fuel f start m buf len =
      (fat32Read fuel f start len).map fun r => (r.1.length, store m buf r.1, r.2) := by
  have hloop := readClustersInto_eq buf len m fuel start [] f
  rw [store_nil, List.length_nil] at hloop
  by_cases hready : f.ready = true
  · rw [fat32ReadInto, fat32Read, if_pos hready, if_pos hready, hloop]
  · rw [fat32ReadInto, fat32Read, if_neg hready, if_neg hready, Option.map_some, store_nil]
    rfl

end

/-! ## Reads that may fail -/

/-- A read of the device: the sector, and the code returned. -/
structure SectorRead where
  lba : ℕ
  code : ℤ
deriving DecidableEq

/-- A device with the reads that were made of it. -/
structure Recorded (δ : Type) where
  dev : δ
  reads : List SectorRead

instance {δ : Type} [SectorDevice δ] : SectorDevice (Recorded δ) where
  sectorCount d := sectorCount d.dev
  readSector d lba buf :=
    let (rc, buf, dev) := readSector d.dev lba buf
    (rc, buf, ⟨dev, d.reads ++ [⟨lba, rc⟩]⟩)
  writeSector d lba buf :=
    let (rc, dev) := writeSector d.dev lba buf
    (rc, ⟨dev, d.reads⟩)
  encryption d := encryption d.dev
  setEncryption b d := ⟨setEncryption b d.dev, d.reads⟩

/-- No read has failed. -/
def Recorded.AllRead {δ : Type} (d : Recorded δ) : Prop := ∀ r ∈ d.reads, r.code = 0

/-- In these states, a read either fails or delivers the sector, and leads to such a state. -/
structure Yields {δ : Type} [SectorDevice δ] (Good : δ → Prop) (disk : ℕ → Bytes 512) : Prop where
  stays : ∀ (d : δ) (lba : ℕ) (buf : Bytes 512), Good d → Good (readSector d lba buf).2.2
  bytes : ∀ (d : δ) (lba : ℕ) (buf : Bytes 512), Good d → (readSector d lba buf).1 = 0 →
    (readSector d lba buf).2.1 = disk lba

namespace Fat32

variable {δ : Type}

/-- The volume with its reads recorded from here on. -/
def recorded (f : Fat32 δ) : Fat32 (Recorded δ) := f.on ⟨f.dev, []⟩

/-- The volume without the record. -/
def unrecorded (f : Fat32 (Recorded δ)) : Fat32 δ := f.on f.dev.dev

@[simp] theorem unrecorded_recorded (f : Fat32 δ) : f.recorded.unrecorded = f := rfl

end Fat32

/-! ## Recording changes nothing -/

section

variable {δ : Type} [SectorDevice δ] (f : Fat32 (Recorded δ))

namespace Fat32

theorem readSector_unrecorded (lba : UInt32) :
    f.unrecorded.readSector lba = ((f.readSector lba).1, (f.readSector lba).2.unrecorded) := rfl

theorem fatNext_unrecorded (cluster : UInt32) :
    f.unrecorded.fatNext cluster = ((f.fatNext cluster).1, (f.fatNext cluster).2.unrecorded) := by
  simp only [fatNext]
  have hr := readSector_unrecorded f (f.fatStart + cluster * 4 / 512)
  rw [show f.unrecorded.fatStart = f.fatStart from rfl, hr]
  dsimp only
  split <;> rfl

end Fat32

theorem readSectors_unrecorded (lba : UInt32) (len : ℕ) (ss : List ℕ) (dst : List UInt8) :
    readSectors lba len ss dst f.unrecorded =
      ((readSectors lba len ss dst f).1, (readSectors lba len ss dst f).2.1,
        (readSectors lba len ss dst f).2.2.unrecorded) := by
  induction ss generalizing dst f with
  | nil => rfl
  | cons s ss ih =>
    by_cases hroom : dst.length < len
    · simp only [readSectors, if_pos hroom, Fat32.readSector_unrecorded]
      by_cases hrc : (f.readSector (lba + UInt32.ofNat s)).1 = 0
      · simp only [hrc, ne_eq, not_true_eq_false, if_false]
        exact ih _ _
      · simp only [hrc, ne_eq, not_false_eq_true, if_true]
    · simp only [readSectors, if_neg hroom]

theorem readClusters_unrecorded (len fuel : ℕ) (cluster : UInt32) (dst : List UInt8) :
    readClusters len fuel cluster dst f.unrecorded =
      (readClusters len fuel cluster dst f).map fun r => (r.1, r.2.unrecorded) := by
  induction fuel generalizing cluster dst f with
  | zero => rfl
  | succ fuel ih =>
    have hsectors := readSectors_unrecorded f (f.clusterToLba cluster) len
      (List.range f.spc.toNat) dst
    by_cases hgo : (!isEof cluster && decide (dst.length < len)) = true
    · rw [readClusters, readClusters, if_pos hgo, if_pos hgo]
      obtain ⟨ok, dst', f', hr⟩ : ∃ ok dst' f', readSectors (f.clusterToLba cluster) len
        (List.range f.spc.toNat) dst f = (ok, dst', f') := ⟨_, _, _, rfl⟩
      rw [hr] at hsectors
      rw [hr, show f.unrecorded.clusterToLba cluster = f.clusterToLba cluster from rfl,
        show f.unrecorded.spc = f.spc from rfl, hsectors]
      cases ok with
      | false => rfl
      | true =>
        dsimp only
        rw [Fat32.fatNext_unrecorded]
        exact ih _ _ _
    · rw [readClusters, readClusters, if_neg hgo, if_neg hgo]
      rfl

theorem fat32Read_unrecorded (fuel : ℕ) (start : UInt32) (len : ℕ) :
    fat32Read fuel f.unrecorded start len =
      (fat32Read fuel f start len).map fun r => (r.1, r.2.unrecorded) := by
  by_cases hready : f.ready = true
  · rw [fat32Read, fat32Read, if_pos hready, show f.unrecorded.ready = f.ready from rfl,
      if_pos hready]
    exact readClusters_unrecorded f len fuel start []
  · rw [fat32Read, fat32Read, if_neg hready, show f.unrecorded.ready = f.ready from rfl,
      if_neg hready]
    rfl

end

theorem Yields.answers {δ : Type} [SectorDevice δ] {Good : δ → Prop} {disk : ℕ → Bytes 512}
    (h : Yields Good disk) (n : ℕ) :
    Answers (fun d : Recorded δ => Good d.dev) (fun d => ¬ d.AllRead) disk n := by
  intro d lba buf hd _
  have hall : ∀ rc, (⟨(readSector d.dev lba buf).2.2,
      d.reads ++ [⟨lba, rc⟩]⟩ : Recorded δ).AllRead ↔ d.AllRead ∧ rc = 0 := by
    intro rc
    simp [Recorded.AllRead, or_imp, forall_and]
  refine ⟨_, _, _, rfl, h.stays d.dev lba buf hd, ?_⟩
  by_cases hrc : (readSector d.dev lba buf).1 = 0
  · exact .inl ⟨hrc, h.bytes d.dev lba buf hd hrc,
      not_congr ((hall _).trans (and_iff_left hrc))⟩
  · exact .inr ⟨hrc, fun hread => hrc ((hall _).mp hread).2⟩

/-! ## The volume as numbers -/

theorem fieldAt_lt (b : List UInt8) (off n : ℕ) : fieldAt b off n < 256 ^ n := by
  have hlen : ((b.drop off).take n).length ≤ n := List.length_take_le _ _
  exact (leVal_lt _).trans_le (Nat.pow_le_pow_right (by decide) hlen)

/-- Where a mounted volume has its table and its clusters. -/
structure FatGeometry where
  fatStart : ℕ
  dataStart : ℕ
  spc : ℕ

namespace FatGeometry

/-- The link of a cluster: the low 28 bits of its entry in the table. -/
def link (g : FatGeometry) (disk : ℕ → Bytes 512) (c : ℕ) : ℕ :=
  fieldAt (disk (g.fatStart + 4 * c / 512)).1 (4 * c % 512) 4 % 2 ^ 28

/-- The sector with index `s` of a cluster. -/
def sector (g : FatGeometry) (c s : ℕ) : ℕ := g.dataStart + (c - 2) * g.spc + s

/-- What a cluster holds. -/
def cluster (g : FatGeometry) (disk : ℕ → Bytes 512) (c : ℕ) : List UInt8 :=
  (List.range g.spc).flatMap fun s => (disk (g.sector c s)).1

/-- The clusters on the way from a first one to an end mark. -/
def Chain (g : FatGeometry) (disk : ℕ → Bytes 512) : ℕ → List ℕ → Prop :=
  LinkChain (g.link disk) fun c => 0x0FFFFFF8 ≤ c

/-- A cluster that is there: it is not reserved, and its sectors have numbers of 32 bits. -/
structure Addressable (g : FatGeometry) (c : ℕ) : Prop where
  ge : 2 ≤ c
  le : g.dataStart + (c - 2) * g.spc + g.spc ≤ 2 ^ 32

theorem length_cluster (g : FatGeometry) (disk : ℕ → Bytes 512) (c : ℕ) :
    (g.cluster disk c).length = 512 * g.spc := by
  rw [cluster, length_flatMap_range fun s _ => (disk (g.sector c s)).2, Nat.mul_comm]

theorem length_clusters (g : FatGeometry) (disk : ℕ → Bytes 512) (cs : List ℕ) :
    (cs.flatMap (g.cluster disk)).length = 512 * g.spc * cs.length := by
  induction cs with
  | nil => rfl
  | cons c cs ih =>
    rw [List.flatMap_cons, List.length_append, length_cluster, ih, List.length_cons,
      Nat.mul_succ, Nat.add_comm]

end FatGeometry

namespace Fat32

variable {δ : Type} {f : Fat32 δ} {disk : ℕ → Bytes 512}

def geometry (f : Fat32 δ) : FatGeometry := ⟨f.fatStart.toNat, f.dataStart.toNat, f.spc.toNat⟩

/-- The state that `fat32_init` leaves behind: the table starts in one of the first 65536
sectors. -/
structure Mounted (f : Fat32 δ) : Prop where
  ready : f.ready = true
  fatStart : f.fatStart.toNat < 2 ^ 16

theorem isEof_iff {c : UInt32} : isEof c = true ↔ 0x0FFFFFF8 ≤ c.toNat := by
  simp [isEof, UInt32.le_iff_toNat_le]

theorem toNat_fatOffset {c : UInt32} (hc : isEof c ≠ true) : (c * 4).toNat = 4 * c.toNat := by
  rw [Ne, isEof_iff] at hc
  rw [UInt32.toNat_mul, Nat.mod_eq_of_lt (by simp; omega)]
  exact Nat.mul_comm _ _

theorem toNat_fatSector (hf : f.fatStart.toNat < 2 ^ 16) {c : UInt32} (hc : isEof c ≠ true) :
    (f.fatSector c).toNat = f.fatStart.toNat + 4 * c.toNat / 512 := by
  have hoff := toNat_fatOffset hc
  rw [Ne, isEof_iff] at hc
  rw [fatSector, UInt32.toNat_add, UInt32.toNat_div, hoff]
  exact Nat.mod_eq_of_lt (by simp; omega)

theorem toNat_fatEntry (hf : f.fatStart.toNat < 2 ^ 16) {c : UInt32} (hc : isEof c ≠ true) :
    (f.fatEntry disk c).toNat = f.geometry.link disk c.toNat := by
  have hoff : (c * 4 % 512).toNat = 4 * c.toNat % 512 := by
    rw [UInt32.toNat_mod, toNat_fatOffset hc]
    rfl
  have hmask : ∀ n : ℕ, (UInt32.ofNat n &&& 0x0FFFFFFF).toNat = n % 2 ^ 28 := by
    intro n
    have hpow : (0x0FFFFFFF : UInt32).toNat = 2 ^ 28 - 1 := rfl
    rw [UInt32.toNat_and, UInt32.toNat_ofNat', hpow, Nat.and_two_pow_sub_one_eq_mod]
    exact Nat.mod_mod_of_dvd n (by decide)
  rw [fatEntry, hmask, toNat_fatSector hf hc, hoff]
  rfl

theorem toNat_clusterSector {c : UInt32} (hc : f.geometry.Addressable c.toNat) {s : ℕ}
    (hs : s < f.spc.toNat) :
    (f.clusterSector c s).toNat = f.geometry.sector c.toNat s := by
  obtain ⟨hge, hle⟩ := hc
  simp only [geometry] at hle
  have hbelow : (c - 2).toNat = c.toNat - 2 := UInt32.toNat_sub_of_le _ _ (by
    rw [UInt32.le_iff_toNat_le]
    exact hge)
  have hmul : ((c - 2) * f.spc.toUInt32).toNat = (c.toNat - 2) * f.spc.toNat := by
    rw [UInt32.toNat_mul, hbelow, UInt8.toNat_toUInt32, Nat.mod_eq_of_lt]
    omega
  have hlba : (f.clusterToLba c).toNat = f.dataStart.toNat + (c.toNat - 2) * f.spc.toNat := by
    rw [clusterToLba, UInt32.toNat_add, hmul, Nat.mod_eq_of_lt]
    omega
  rw [clusterSector, UInt32.toNat_add, hlba, UInt32.toNat_ofNat',
    Nat.mod_eq_of_lt (a := s) (by omega), Nat.mod_eq_of_lt (by omega)]
  rfl

theorem clusterBytes_eq {c : UInt32} (hc : f.geometry.Addressable c.toNat) :
    f.clusterBytes disk c = f.geometry.cluster disk c.toNat := by
  apply List.flatMap_congr
  intro s hs
  rw [toNat_clusterSector hc (List.mem_range.mp hs)]

theorem fileChain_of_chain (hf : f.fatStart.toNat < 2 ^ 16) {c : ℕ} {cs : List ℕ}
    (h : f.geometry.Chain disk c cs) {start : UInt32} (hstart : start.toNat = c) :
    ∃ us : List UInt32, f.FileChain disk start us ∧ us.map UInt32.toNat = cs := by
  induction h generalizing start with
  | nil hend =>
    refine ⟨[], .nil ?_, rfl⟩
    rwa [isEof_iff, hstart]
  | cons hopen _ ih =>
    have hlast : isEof start ≠ true := by rwa [Ne, isEof_iff, hstart]
    obtain ⟨us, hus, hmap⟩ := @ih (f.fatEntry disk start)
      (by rw [toNat_fatEntry hf hlast, hstart])
    exact ⟨start :: us, .cons hlast hus, by rw [List.map_cons, hstart, hmap]⟩

theorem clusters_eq {us : List UInt32}
    (h : ∀ c ∈ us.map UInt32.toNat, f.geometry.Addressable c) :
    us.flatMap (f.clusterBytes disk) =
      (us.map UInt32.toNat).flatMap (f.geometry.cluster disk) := by
  rw [List.flatMap_map]
  apply List.flatMap_congr
  intro c hc
  exact clusterBytes_eq (h c.toNat (List.mem_map_of_mem hc))

end Fat32

section

variable {δ : Type} [SectorDevice δ]

theorem fat32Init_mounted {f : Fat32 δ} (h : (fat32Init f).1 = true) :
    (fat32Init f).2.Mounted := by
  simp only [fat32Init] at h ⊢
  split at h
  · simp at h
  · split at h
    · simp at h
    · split at h
      · simp at h
      · rename_i h₁ h₂ h₃
        rw [if_neg h₁, if_neg h₂, if_neg h₃]
        constructor
        · rfl
        · have hfield := fieldAt_lt (f.readSector 0).2.sectorBuf.1 14 2
          exact (Nat.mod_le _ _).trans_lt hfield

/-- `fat32_read` follows any chain. The call ends, and when every read that it makes succeeds, the
buffer holds the bytes of the chain up to the length asked for, and no other byte is written. -/
theorem fat32ReadInto_chain {Good : δ → Prop} {disk : ℕ → Bytes 512} (hdev : Yields Good disk)
    {f : Fat32 δ} (hd : Good f.dev) (hf : f.Mounted) {start : UInt32}
    {cs : List ℕ} (hchain : f.geometry.Chain disk start.toNat cs)
    (hin : ∀ c ∈ cs, f.geometry.Addressable c) (m : Mem) (buf len : ℕ) {fuel : ℕ}
    (hfuel : cs.length < fuel) :
    ∃ n m' f', fat32ReadInto fuel f.recorded start m buf len = some (n, m', f') ∧
      fat32ReadInto fuel f start m buf len = some (n, m', f'.unrecorded) ∧
      (f'.dev.AllRead →
        n = min len (512 * f.geometry.spc * cs.length) ∧
        load m' buf n = (cs.flatMap (f.geometry.cluster disk)).take n ∧
        ∀ a, a < buf ∨ buf + n ≤ a → m' a = m a) := by
  obtain ⟨us, hus, rfl⟩ := Fat32.fileChain_of_chain hf.fatStart hchain rfl
  rw [List.length_map] at hfuel ⊢
  obtain ⟨dst, d', b', hread, -, hall⟩ := (hdev.answers (2 ^ 32)).fat32Read (f := f.recorded) hd
    hf.ready len hus (fun c _ => f.recorded.within_all c) hfuel
  have hraw : fat32Read fuel f start len = some (dst, (f.recorded.reread d' b').unrecorded) := by
    rw [← Fat32.unrecorded_recorded f, fat32Read_unrecorded, hread]
    rfl
  refine ⟨dst.length, store m buf dst, f.recorded.reread d' b', ?_, ?_, ?_⟩
  · rw [fat32ReadInto_eq, hread]
    rfl
  · rw [fat32ReadInto_eq, hraw]
    rfl
  · intro hok
    obtain ⟨-, hdst⟩ := hall (not_not.mpr hok)
    have hbytes : us.flatMap (f.recorded.clusterBytes disk) =
        (us.map UInt32.toNat).flatMap (f.geometry.cluster disk) :=
      Fat32.clusters_eq (f := f) hin
    rw [hbytes] at hdst
    have hlen : dst.length = min len (512 * f.geometry.spc * us.length) := by
      rw [hdst, List.length_take, FatGeometry.length_clusters, List.length_map]
    refine ⟨hlen, ?_, ?_⟩
    · rw [load_store_same, hdst, List.length_take, List.take_eq_take_iff]
      omega
    · rintro a (ha | ha)
      · exact store_apply_of_lt ha
      · exact store_apply_of_ge ha

end

/-! ## Two volumes -/

theorem FlakyDisk.yields (disk : ℕ → Bytes 512) :
    Yields (fun d : FlakyDisk => d.sectors = disk) disk where
  stays _ _ _ hd := hd
  bytes := by
    rintro d lba buf rfl hrc
    change d.next.moved (d.sectors lba) = d.sectors lba
    cases hnext : d.next with
    | done => rfl
    | failed left =>
      have hcode : d.next.code = 0 := hrc
      rw [hnext] at hcode
      exact absurd hcode (Int.neg_ne_zero.mpr Int.one_ne_zero)

/-- A table in which the chain of the second cluster ends at once. -/
def shortTable : Bytes 512 :=
  ⟨List.replicate 8 0 ++ [0xFF, 0xFF, 0xFF, 0x0F] ++ List.replicate 500 0, by
    rw [List.length_append, List.length_append, List.length_replicate, List.length_replicate]
    rfl⟩

def shortDisk (lba : ℕ) : Bytes 512 :=
  if lba = 1 then shortTable else ⟨List.replicate 512 (UInt8.ofNat lba), List.length_replicate⟩

def shortVolume : Fat32 FlakyDisk where
  dev := { sectors := shortDisk, encryption := false, transfers := [] }
  fatStart := 1
  dataStart := 2
  rootCluster := 2
  spc := 1
  sectorBuf := shortTable
  ready := true

/-- A table in which the chain of the second cluster leads to the fifth and back to the third. -/
def scatteredTable : Bytes 512 :=
  ⟨List.replicate 8 0 ++ [5, 0, 0, 0, 0xFF, 0xFF, 0xFF, 0x0F, 0, 0, 0, 0, 3, 0, 0, 0] ++
    List.replicate 488 0, by
    rw [List.length_append, List.length_append, List.length_replicate, List.length_replicate]
    rfl⟩

def scatteredDisk (lba : ℕ) : Bytes 512 :=
  if lba = 1 then scatteredTable
  else ⟨List.replicate 512 (UInt8.ofNat lba), List.length_replicate⟩

/-- A volume with this table and two sectors in a cluster. -/
def scatteredVolume : Fat32 FlakyDisk :=
  { shortVolume with dev := ⟨scatteredDisk, false, []⟩, spc := 2 }

theorem scatteredVolume_chain :
    scatteredVolume.geometry.Chain scatteredDisk (2 : UInt32).toNat [2, 5, 3] := by
  have hsecond : scatteredVolume.geometry.link scatteredDisk (2 : UInt32).toNat = 5 := by
    decide +kernel
  have hfifth : scatteredVolume.geometry.link scatteredDisk 5 = 3 := by decide +kernel
  have hthird : scatteredVolume.geometry.link scatteredDisk 3 = 0x0FFFFFFF := by decide +kernel
  constructor
  · decide
  · rw [hsecond]
    constructor
    · decide
    · rw [hfifth]
      constructor
      · decide
      · rw [hthird]
        exact .nil (by decide)

/-- Three clusters are read, the last of them in part. -/
theorem fat32ReadInto_chain_sample :
    ∃ n m' f',
      fat32ReadInto 4 scatteredVolume.recorded 2 (fun _ => 0) 4096 2500 = some (n, m', f') ∧
      fat32ReadInto 4 scatteredVolume 2 (fun _ => 0) 4096 2500 = some (n, m', f'.unrecorded) ∧
      n = 2500 ∧
      load m' 4096 2500 =
        ([2, 5, 3].flatMap (scatteredVolume.geometry.cluster scatteredDisk)).take 2500 ∧
      ∀ a, a < 4096 ∨ 6596 ≤ a → m' a = 0 := by
  have hread : (fat32ReadInto 4 scatteredVolume.recorded 2 (fun _ => 0) 4096 2500).map
      (fun x => decide (∀ r ∈ x.2.2.dev.reads, r.code = 0)) = some true := by decide +kernel
  have hin : ∀ c ∈ [2, 5, 3], scatteredVolume.geometry.Addressable c := by
    intro c hc
    simp only [List.mem_cons, List.not_mem_nil, or_false] at hc
    rcases hc with rfl | rfl | rfl <;> exact ⟨by decide, by decide⟩
  have hfuel : [2, 5, 3].length < 4 := by decide
  obtain ⟨n, m', f', hrun, hraw, hall⟩ := fat32ReadInto_chain (f := scatteredVolume)
    (FlakyDisk.yields scatteredDisk) rfl ⟨rfl, by decide⟩ scatteredVolume_chain hin
    (fun _ => 0) 4096 2500 hfuel
  rw [hrun] at hread
  have hok : ∀ r ∈ f'.dev.reads, r.code = 0 := of_decide_eq_true (Option.some.inj hread)
  obtain ⟨hn, hload, hkept⟩ := hall hok
  obtain rfl : n = 2500 := hn
  exact ⟨2500, m', f', hrun, hraw, rfl, hload, hkept⟩

end StyxOS
