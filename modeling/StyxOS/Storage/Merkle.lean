import StyxOS.Storage.UsbMsc

/-! # The sector hash table

The leaf hashes of `merkle.c`: loaded from the device at start, and updated
and persisted by `merkle_update`. Over a transport that stores and returns
sectors faithfully, the table loaded is the one on the device.
-/

namespace StyxOS

open ByteMem

/-! ## Faithful transports -/

/-- A transport with a disk behind it: a write command, its data and the status round store the
sector, and a read command returns it and changes nothing. -/
structure FaithfulTransport {σ : Type*} (T : Transport σ) where
  disk : σ → UInt32 → Sector
  Ready : σ → Prop
  write : ∀ d, Ready d → ∀ tag lba (b : Sector),
    ∃ d₁ d₂ d₃ csw, T.bulkOut d (writeCbw tag lba).toBytes = (0, d₁) ∧
      T.bulkOut d₁ b.1 = (0, d₂) ∧ T.bulkIn d₂ 13 = (0, csw, d₃) ∧
      cswSigned csw ∧ cswStatus csw = 0 ∧ Ready d₃ ∧ disk d₃ = Function.update (disk d) lba b
  read : ∀ d, Ready d → ∀ tag lba,
    ∃ d₁ d₂ d₃ csw, T.bulkOut d (readCbw tag lba).toBytes = (0, d₁) ∧
      T.bulkIn d₁ 512 = (0, (disk d lba).1, d₂) ∧ T.bulkIn d₂ 13 = (0, csw, d₃) ∧
      cswSigned csw ∧ cswStatus csw = 0 ∧ Ready d₃ ∧ disk d₃ = disk d

section
variable {σ : Type*} {T : Transport σ} (F : FaithfulTransport T)

theorem FaithfulTransport.botExecute_write {d : σ} (h : F.Ready d) (tag lba : UInt32)
    (b : Sector) :
    ∃ d', botExecute T d (writeCbw tag lba) b.1 false = (0, b.1, d') ∧ F.Ready d' ∧
      F.disk d' = Function.update (F.disk d) lba b := by
  obtain ⟨d₁, d₂, d₃, csw, h₁, h₂, h₃, hs, hc, hr, hd⟩ := F.write d h tag lba b
  refine ⟨d₃, ?_, hr, hd⟩
  simp [botExecute, dataPhase, h₁, h₂, h₃, hs, hc, b.2]

theorem FaithfulTransport.botExecute_read {d : σ} (h : F.Ready d) (tag lba : UInt32)
    (buf : Sector) :
    ∃ d', botExecute T d (readCbw tag lba) buf.1 true = (0, (F.disk d lba).1, d') ∧ F.Ready d' ∧
      F.disk d' = F.disk d := by
  obtain ⟨d₁, d₂, d₃, csw, h₁, h₂, h₃, hs, hc, hr, hd⟩ := F.read d h tag lba
  refine ⟨d₃, ?_, hr, hd⟩
  simp [botExecute, dataPhase, h₁, h₂, h₃, hs, hc, buf.2]

/-- The sector that a write puts on the disk. -/
def Storage.stored (s : Storage σ) (lba : UInt32) (b : Sector) : Sector :=
  if s.encryptionEnabled then b.encrypt s.xtsCtx lba else b

theorem FaithfulTransport.write_spec {s : Storage σ} (h : F.Ready s.dev) (lba : UInt32)
    (b : Sector) :
    ∃ d', usbMscWriteSector T s lba b.1 = (0, { s with dev := d', tag := s.tag + 1 }) ∧
      F.Ready d' ∧ F.disk d' = Function.update (F.disk s.dev) lba (s.stored lba b) := by
  have hb : (if s.encryptionEnabled then aes256XtsEncryptSector s.xtsCtx lba b.1 else b.1) =
      (s.stored lba b).1 := by
    unfold Storage.stored
    split <;> rfl
  obtain ⟨d', he, hr, hd⟩ := F.botExecute_write h s.tag lba (s.stored lba b)
  refine ⟨d', ?_, hr, hd⟩
  simp only [usbMscWriteSector, hb, he]

theorem FaithfulTransport.read_raw (csprng : ℕ → List UInt8) {s : Storage σ}
    (h : F.Ready s.dev) (hoff : s.encryptionEnabled = false) (lba : UInt32) (buf : Sector) :
    ∃ d', usbMscReadSector T csprng s lba buf.1 =
        (0, (F.disk s.dev lba).1, { s with dev := d', tag := s.tag + 1 }) ∧
      F.Ready d' ∧ F.disk d' = F.disk s.dev := by
  obtain ⟨d', he, hr, hd⟩ := F.botExecute_read h s.tag lba buf
  refine ⟨d', ?_, hr, hd⟩
  simp [usbMscReadSector, he, hoff]

/-- What a read does with encryption on: it decrypts the sector on the disk and checks it. -/
theorem FaithfulTransport.read_checked (csprng : ℕ → List UInt8) {s : Storage σ}
    (h : F.Ready s.dev) (hon : s.encryptionEnabled = true) (lba : UInt32) (buf : Sector) :
    ∃ d', usbMscReadSector T csprng s lba buf.1 =
        (0, ((F.disk s.dev lba).decrypt s.xtsCtx lba).1,
          if integrityVerifySector s lba ((F.disk s.dev lba).decrypt s.xtsCtx lba).1 then
            { s with dev := d', tag := s.tag + 1 }
          else destructTrigger T csprng { s with dev := d', tag := s.tag + 1 }) ∧
      F.Ready d' ∧ F.disk d' = F.disk s.dev := by
  obtain ⟨d', he, hr, hd⟩ := F.botExecute_read h s.tag lba buf
  refine ⟨d', ?_, hr, hd⟩
  unfold usbMscReadSector
  rw [he]
  dsimp only
  rw [if_pos ⟨rfl, hon⟩]
  by_cases hv : integrityVerifySector s lba ((F.disk s.dev lba).decrypt s.xtsCtx lba).1 = true
  · rw [if_pos hv]
    exact if_pos hv
  · rw [if_neg hv]
    exact if_neg hv

end

/-! ## The table -/

section
variable {σ : Type*} (T : Transport σ) (csprng : ℕ → List UInt8)

def recomputeRoot (leaves : ℕ → List UInt8) : List UInt8 :=
  (List.range' 1 (merkleMaxSectors - 1)).foldl (fun running i => sha256Of (running ++ leaves i))
    (sha256Of (leaves 0))

/-- The loop that unpacks the sixteen hashes of table sector `si`. -/
def unpackLeaves (si : ℕ) (sector : List UInt8) (leaves : ℕ → List UInt8) : ℕ → List UInt8 :=
  (List.range 16).foldl
    (fun leaves i =>
      if si * 16 + i < merkleMaxSectors then
        Function.update leaves (si * 16 + i) ((sector.drop (i * 32)).take 32)
      else leaves)
    leaves

/-- The loop body of `load_leaves_from_usb`. -/
def loadLeaf (s : Storage σ) (si : ℕ) : Storage σ :=
  let (rc, sector, s) := usbMscReadSector T csprng s (10 + UInt32.ofNat si) Sector.zero.1
  if rc ≠ 0 then s else { s with leaves := unpackLeaves si sector s.leaves }

def loadLeavesFromUsb (s : Storage σ) : Storage σ :=
  let saved := s.encryptionEnabled
  let s := (List.range 512).foldl (loadLeaf T csprng) { s with encryptionEnabled := false }
  { s with encryptionEnabled := saved }

def merkleInit (s : Storage σ) : Storage σ :=
  let s := { s with leaves := fun _ => List.replicate 32 0, root := List.replicate 32 0 }
  let s := if s.sectorCnt > 0 then loadLeavesFromUsb T csprng s else s
  { s with root := recomputeRoot s.leaves, initialized := true }

/-- A write past the encryption, as the table is persisted. -/
def writeRaw (s : Storage σ) (lba : UInt32) (sector : List UInt8) : Storage σ :=
  let saved := s.encryptionEnabled
  { (usbMscWriteSector T { s with encryptionEnabled := false } lba sector).2 with
    encryptionEnabled := saved }

def persistLeaf (s : Storage σ) (lba : UInt32) : Storage σ :=
  if merkleMaxSectors ≤ lba.toNat then s
  else
    let sectorIdx := lba.toNat / 16
    let sector := (List.range 16).flatMap fun i =>
      if sectorIdx * 16 + i < merkleMaxSectors then s.leaves (sectorIdx * 16 + i)
      else List.replicate 32 0
    writeRaw T s (10 + UInt32.ofNat sectorIdx) sector

/-- The key of the root's MAC, `styxos-merkle-root-hmac-key-v1`. -/
def merkleRootKey : List UInt8 :=
  "styxos-merkle-root-hmac-key-v1".toList.map fun c => c.toNat.toUInt8

def persistRoot (s : Storage σ) : Storage σ :=
  let mac := hmacSha512 merkleRootKey s.root
  writeRaw T s 3 (s.root ++ mac ++ List.replicate (512 - 96) 0)

def merkleUpdate (s : Storage σ) (lba : UInt32) (plaintext : List UInt8) : Storage σ :=
  if !s.initialized || merkleMaxSectors ≤ lba.toNat then s
  else
    let s := { s with leaves := Function.update s.leaves lba.toNat (sha256Of plaintext) }
    let s := persistLeaf T s lba
    let s := { s with root := recomputeRoot s.leaves }
    persistRoot T s

theorem persistLeaf_fields (s : Storage σ) (lba : UInt32) :
    (persistLeaf T s lba).leaves = s.leaves ∧
      (persistLeaf T s lba).initialized = s.initialized := by
  unfold persistLeaf
  split <;> exact ⟨rfl, rfl⟩

/-- After `merkle_update` the content it was given passes the check. -/
theorem merkleVerify_merkleUpdate (s : Storage σ) (lba : UInt32) (plaintext : List UInt8) :
    merkleVerify (merkleUpdate T s lba plaintext) lba plaintext = true := by
  unfold merkleUpdate
  by_cases h : (!s.initialized || decide (merkleMaxSectors ≤ lba.toNat)) = true
  · rw [if_pos h, merkleVerify, if_pos h]
  · have hf := persistLeaf_fields T
      { s with leaves := Function.update s.leaves lba.toNat (sha256Of plaintext) } lba
    rw [if_neg h]
    dsimp only
    have hl : (persistRoot T { persistLeaf T
        { s with leaves := Function.update s.leaves lba.toNat (sha256Of plaintext) } lba with
        root := recomputeRoot (persistLeaf T
          { s with leaves := Function.update s.leaves lba.toNat (sha256Of plaintext) }
          lba).leaves }).leaves = Function.update s.leaves lba.toNat (sha256Of plaintext) := hf.1
    rw [merkleVerify, hl, Function.update_self, beq_self_eq_true, ite_self]

end

/-! ## Loading the table -/

section
variable {σ : Type*} {T : Transport σ} (F : FaithfulTransport T) (csprng : ℕ → List UInt8)

/-- The hash that the table on a disk holds for a sector. -/
def leafOnDisk (disk : UInt32 → Sector) (idx : ℕ) : List UInt8 :=
  ((disk (10 + UInt32.ofNat (idx / 16))).1.drop (idx % 16 * 32)).take 32

theorem unpackLeaves_apply (si : ℕ) (hsi : si < 512) (sector : List UInt8)
    (leaves : ℕ → List UInt8) (idx : ℕ) :
    unpackLeaves si sector leaves idx =
      if idx / 16 = si then (sector.drop (idx % 16 * 32)).take 32 else leaves idx := by
  have hfold : ∀ n ≤ 16, (List.range n).foldl
      (fun leaves i =>
        if si * 16 + i < merkleMaxSectors then
          Function.update leaves (si * 16 + i) ((sector.drop (i * 32)).take 32)
        else leaves) leaves idx =
      if idx / 16 = si ∧ idx % 16 < n then (sector.drop (idx % 16 * 32)).take 32
      else leaves idx := by
    intro n hn
    induction n with
    | zero => simp
    | succ n ih =>
      rw [List.range_succ, List.foldl_append, List.foldl_cons, List.foldl_nil,
        if_pos (by unfold merkleMaxSectors; omega), Function.update_apply, ih (by omega)]
      by_cases he : idx = si * 16 + n
      · have hq : idx / 16 = si := by omega
        have hm : idx % 16 = n := by omega
        rw [if_pos he, if_pos ⟨hq, by omega⟩, hm]
      · rw [if_neg he]
        have hiff : (idx / 16 = si ∧ idx % 16 < n + 1) ↔ (idx / 16 = si ∧ idx % 16 < n) := by omega
        simp only [hiff]
  rw [unpackLeaves, hfold 16 le_rfl]
  have hiff : (idx / 16 = si ∧ idx % 16 < 16) ↔ idx / 16 = si := by omega
  simp only [hiff]

theorem loadLeaf_spec {s : Storage σ} (h : F.Ready s.dev) (hoff : s.encryptionEnabled = false)
    (si : ℕ) :
    ∃ d', loadLeaf T csprng s si =
        { s with
          dev := d'
          tag := s.tag + 1
          leaves := unpackLeaves si (F.disk s.dev (10 + UInt32.ofNat si)).1 s.leaves } ∧
      F.Ready d' ∧ F.disk d' = F.disk s.dev := by
  obtain ⟨d', he, hr, hd⟩ := F.read_raw csprng h hoff (10 + UInt32.ofNat si) Sector.zero
  refine ⟨d', ?_, hr, hd⟩
  simp only [loadLeaf, he, ne_eq, not_true_eq_false, if_false]

/-- The table sectors read so far fill the leaves they hold and no others. -/
theorem foldl_loadLeaf {s : Storage σ} (h : F.Ready s.dev) (hoff : s.encryptionEnabled = false)
    (n : ℕ) (hn : n ≤ 512) :
    ∃ d' tag', (List.range n).foldl (loadLeaf T csprng) s =
        { s with
          dev := d'
          tag := tag'
          leaves := fun idx =>
            if idx / 16 < n then leafOnDisk (F.disk s.dev) idx else s.leaves idx } ∧
      F.Ready d' ∧ F.disk d' = F.disk s.dev := by
  induction n with
  | zero => exact ⟨s.dev, s.tag, by simp, h, rfl⟩
  | succ n ih =>
    obtain ⟨d₁, t₁, he₁, hr₁, hd₁⟩ := ih (by omega)
    rw [List.range_succ, List.foldl_append, he₁, List.foldl_cons, List.foldl_nil]
    obtain ⟨d₂, he₂, hr₂, hd₂⟩ := loadLeaf_spec F csprng (s := { s with
      dev := d₁
      tag := t₁
      leaves := fun idx =>
        if idx / 16 < n then leafOnDisk (F.disk s.dev) idx else s.leaves idx }) hr₁ hoff n
    refine ⟨d₂, t₁ + 1, ?_, hr₂, hd₂.trans hd₁⟩
    rw [he₂]
    congr 1
    funext idx
    rw [unpackLeaves_apply n (by omega)]
    dsimp only
    rw [hd₁]
    by_cases he : idx / 16 = n
    · rw [if_pos he, if_pos (by omega), leafOnDisk, he]
    · have hiff : idx / 16 < n + 1 ↔ idx / 16 < n := by omega
      simp only [if_neg he, hiff]

/-- What the table says after `merkle_init`: what the disk holds for it, or zeros where there is no
device. -/
def initialLeaf (s : Storage σ) (idx : ℕ) : List UInt8 :=
  if s.sectorCnt > 0 ∧ idx < merkleMaxSectors then leafOnDisk (F.disk s.dev) idx
  else List.replicate 32 0

theorem merkleInit_spec {s : Storage σ} (h : F.Ready s.dev) :
    ∃ d' tag', merkleInit T csprng s =
        { s with
          dev := d'
          tag := tag'
          leaves := initialLeaf F s
          root := recomputeRoot (initialLeaf F s)
          initialized := true } ∧
      F.Ready d' ∧ F.disk d' = F.disk s.dev := by
  by_cases hc : s.sectorCnt > 0
  · obtain ⟨d', t', he, hr, hd⟩ := foldl_loadLeaf F csprng (s := { s with
      leaves := fun _ => List.replicate 32 0
      root := List.replicate 32 0
      encryptionEnabled := false }) h rfl 512 le_rfl
    have hl : (fun idx => if idx / 16 < 512 then leafOnDisk (F.disk s.dev) idx
        else List.replicate 32 0) = initialLeaf F s := by
      funext idx
      have hiff : idx / 16 < 512 ↔ s.sectorCnt > 0 ∧ idx < merkleMaxSectors := by
        unfold merkleMaxSectors
        constructor
        · exact fun hlt => ⟨hc, by omega⟩
        · exact fun hlt => by omega
      simp only [hiff, initialLeaf]
    refine ⟨d', t', ?_, hr, hd⟩
    unfold merkleInit
    dsimp only
    rw [if_pos hc, loadLeavesFromUsb]
    dsimp only
    rw [he]
    dsimp only
    rw [hl]
  · have hl : (fun _ => List.replicate 32 0) = initialLeaf F s := by
      funext idx
      simp [initialLeaf, hc]
    refine ⟨s.dev, s.tag, ?_, h, rfl⟩
    unfold merkleInit
    dsimp only
    rw [if_neg hc, hl]

end

end StyxOS
