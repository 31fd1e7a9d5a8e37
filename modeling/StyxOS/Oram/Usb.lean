import StyxOS.Oram.Device
import StyxOS.Storage.ReadAfterWrite

/-! # The driver as a device

With encryption off and a transport that stores sectors faithfully, the driver
of `usb_msc.c` is a faithful device for `oram.c`.
-/

namespace StyxOS

open ByteMem

/-- The driver of `usb_msc.c` with its globals. -/
structure UsbDisk {σ : Type} (T : Transport σ) (csprng : ℕ → List UInt8) where
  storage : Storage σ

section

variable {σ : Type} {T : Transport σ} {csprng : ℕ → List UInt8}

instance : SectorDevice (UsbDisk T csprng) where
  sectorCount d := d.storage.sectorCnt.toNat
  readSector d lba buf :=
    let (rc, buf, storage) := usbMscReadSector T csprng d.storage (UInt32.ofNat lba) buf.1
    (rc, Bytes.ofList 512 buf, ⟨storage⟩)
  writeSector d lba buf :=
    let (rc, storage) := usbMscWriteSector T d.storage (UInt32.ofNat lba) buf.1
    (rc, ⟨storage⟩)
  encryption d := d.storage.encryptionEnabled
  setEncryption b d := ⟨{ d.storage with encryptionEnabled := b }⟩

theorem ofNat_inj_of_lt {a b : ℕ} (ha : a < 2 ^ 32) (hb : b < 2 ^ 32)
    (h : UInt32.ofNat a = UInt32.ofNat b) : a = b := by
  have h' := congrArg UInt32.toNat h
  rwa [UInt32.toNat_ofNat', UInt32.toNat_ofNat', Nat.mod_eq_of_lt ha, Nat.mod_eq_of_lt hb] at h'

/-- The sectors of the disk, by the numbers that `oram.c` uses. -/
def diskView (disk : UInt32 → Sector) (lba : ℕ) : Bytes 512 :=
  if lba < 2 ^ 32 then disk (UInt32.ofNat lba) else Bytes.zero 512

theorem diskView_update {disk : UInt32 → Sector} {lba : ℕ} (hlba : lba < 2 ^ 32) (b : Bytes 512) :
    diskView (Function.update disk (UInt32.ofNat lba) b) =
      Function.update (diskView disk) lba b := by
  funext l
  by_cases hl : l = lba
  · rw [hl, Function.update_self, diskView, if_pos hlba, Function.update_self]
  · rw [Function.update_of_ne hl, diskView, diskView]
    split
    · rename_i hlt
      rw [Function.update_of_ne fun hc => hl (ofNat_inj_of_lt hlt hlba hc)]
    · rfl

/-- The driver with encryption off, over a faithful transport. -/
def usbFaithful (F : FaithfulTransport T) : FaithfulDevice (UsbDisk T csprng) where
  Ready d := F.Ready d.storage.dev ∧ d.storage.encryptionEnabled = false
  view d := diskView (F.disk d.storage.dev)
  read := by
    rintro ⟨s⟩ lba buf ⟨hready, hoff⟩ hlba
    obtain ⟨dev, heq, hready', hdisk⟩ := F.read_raw csprng hready hoff (UInt32.ofNat lba) buf
    refine ⟨?_, ?_, ?_⟩
    · simp only [readSector, heq, diskView, if_pos hlba]
      exact Bytes.ofList_of_length _
    · simp only [readSector, heq]
      exact ⟨hready', hoff⟩
    · simp only [readSector, heq, hdisk]
  write := by
    rintro ⟨s⟩ lba buf ⟨hready, hoff⟩ hlba
    obtain ⟨dev, heq, hready', hdisk⟩ := F.write_spec hready (UInt32.ofNat lba) buf
    have hraw : s.stored (UInt32.ofNat lba) buf = buf := by
      rw [Storage.stored, hoff]
      rfl
    constructor
    · simp only [writeSector, heq]
      exact ⟨hready', hoff⟩
    · simp only [writeSector, heq, hdisk, hraw]
      exact diskView_update hlba buf
  off h := ⟨⟨h.1, rfl⟩, rfl⟩
  back h₀ h := ⟨⟨h.1, h₀.2⟩, rfl⟩

end

end StyxOS
