import StyxOS.Auth.Counter
import StyxOS.Library.Journal
import StyxOS.Oram.Usb
import StyxOS.Storage.Reads
import StyxOS.Storage.RootHash

/-! # The writes on the wire

A transport that keeps the addresses of the write commands sent over it. What
the driver is used for adds to them the addresses that it writes, unless a read
starts the self-destruct, which halts the machine.
-/

namespace StyxOS

open ByteMem

/-- The address of a write command, if the bytes are one. -/
def writeAddress (bs : List UInt8) : Option UInt32 :=
  if bs.length = 31 ∧ bs.getD 15 0 = 0x2A then some (MemDisk.commandLba bs) else none

/-- A transport with a record of the write commands. -/
def Transport.traced {σ : Type} (T : Transport σ) : Transport (σ × List UInt32) where
  bulkOut d bs :=
    let (rc, dev) := T.bulkOut d.1 bs
    (rc, dev, d.2 ++ (writeAddress bs).toList)
  bulkIn d n :=
    let (rc, bs, dev) := T.bulkIn d.1 n
    (rc, bs, dev, d.2)

section

variable {σ : Type} {T : Transport σ}

theorem writeAddress_of_length {bs : List UInt8} (h : bs.length ≠ 31) : writeAddress bs = none :=
  if_neg fun hc => h hc.1

theorem writeAddress_writeCbw (tag lba : UInt32) :
    writeAddress (writeCbw tag lba).toBytes = some lba := by
  have hlen : (writeCbw tag lba).toBytes.length = 31 := rfl
  have hop : (writeCbw tag lba).toBytes.getD 15 0 = 0x2A := rfl
  rw [writeAddress, if_pos ⟨hlen, hop⟩, MemDisk.commandLba_sectorCb tag lba _ (Or.inr rfl)]

theorem writeAddress_readCbw (tag lba : UInt32) : writeAddress (readCbw tag lba).toBytes = none :=
  if_neg fun hc => absurd hc.2 (show (0x28 : UInt8) ≠ 0x2A by decide)

theorem dataPhase_traced (d : σ × List UInt32) {buf : List UInt8} (hbuf : buf.length ≠ 31)
    (dataIn : Bool) : (dataPhase T.traced d buf dataIn).2.2.2 = d.2 := by
  unfold dataPhase
  split
  · rfl
  · split
    · rfl
    · change d.2 ++ (writeAddress buf).toList = d.2
      rw [writeAddress_of_length hbuf, Option.toList_none, List.append_nil]

theorem botExecute_traced (d : σ × List UInt32) (cbw : Cbw) {buf : List UInt8}
    (hbuf : buf.length ≠ 31) (dataIn : Bool) :
    (botExecute T.traced d cbw buf dataIn).2.2.2 = d.2 ++ (writeAddress cbw.toBytes).toList := by
  have hcmd : (T.traced.bulkOut d cbw.toBytes).2.2 = d.2 ++ (writeAddress cbw.toBytes).toList :=
    rfl
  rw [← hcmd, botExecute]
  generalize T.traced.bulkOut d cbw.toBytes = out
  obtain ⟨rc, dev⟩ := out
  have hdata := dataPhase_traced (T := T) dev hbuf dataIn
  dsimp only at hdata ⊢
  split
  · rfl
  · generalize dataPhase T.traced dev buf dataIn = phase at hdata ⊢
    obtain ⟨rc', buf', dev'⟩ := phase
    dsimp only at hdata ⊢
    repeat' split
    all_goals exact hdata

/-! ## What the driver does -/

variable {csprng : ℕ → List UInt8} {W : UInt32 → Prop}

/-- The record of a device, whether the machine has halted, and what its calls leave alone. -/
def wire : Journal (UsbDisk T.traced csprng) UInt32 (ℕ → List UInt8) where
  log d := d.storage.dev.2
  stopped d := d.storage.halted
  frame d := d.storage.leaves

theorem usbMscWriteSector_adds (s : Storage (σ × List UInt32)) {lba : UInt32} (hlba : W lba)
    {buf : List UInt8} (hbuf : buf.length ≠ 31) :
    wire.Adds W (⟨s⟩ : UsbDisk T.traced csprng) ⟨(usbMscWriteSector T.traced s lba buf).2⟩ := by
  have hdata : (if s.encryptionEnabled then aes256XtsEncryptSector s.xtsCtx lba buf
      else buf).length ≠ 31 := by
    split
    · rw [length_aes256XtsEncryptSector]
      decide
    · exact hbuf
  have hlog := botExecute_traced (T := T) s.dev (writeCbw s.tag lba) hdata false
  rw [writeAddress_writeCbw] at hlog
  constructor
  · exact id
  · intro _
    exact ⟨[lba], hlog, List.forall_mem_singleton.mpr hlba⟩
  · rfl

theorem wipePass_leaves {σ : Type} (T : Transport σ) (fill : ℕ → List UInt8) (step count : ℕ)
    (start : UInt32) (s : Storage σ) : (wipePass T fill step count start s).leaves = s.leaves := by
  induction count generalizing start s with
  | zero => rfl
  | succ count ih => exact ih _ _

theorem destructTrigger_leaves {σ : Type} (T : Transport σ) (csprng : ℕ → List UInt8)
    (s : Storage σ) : (destructTrigger T csprng s).leaves = s.leaves := by
  simp only [destructTrigger, wipeSectors, wipePass_leaves]

theorem destructTrigger_adds {s s₀ : Storage (σ × List UInt32)} (h : s₀.leaves = s.leaves) :
    wire.Adds W (⟨s⟩ : UsbDisk T.traced csprng) ⟨destructTrigger T.traced csprng s₀⟩ := by
  have hleaves := destructTrigger_leaves T.traced csprng s₀
  have hhalted : (destructTrigger T.traced csprng s₀).halted = true := destructTrigger_halted s₀
  generalize destructTrigger T.traced csprng s₀ = s' at hleaves hhalted
  constructor
  · exact fun _ => hhalted
  · intro hr
    exact Bool.noConfusion (hhalted.symm.trans hr)
  · exact hleaves.trans h

theorem usbMscReadSector_adds (s : Storage (σ × List UInt32)) (lba : UInt32) {buf : List UInt8}
    (hbuf : buf.length ≠ 31) :
    wire.Adds W (⟨s⟩ : UsbDisk T.traced csprng)
      ⟨(usbMscReadSector T.traced csprng s lba buf).2.2⟩ := by
  have hlog := botExecute_traced (T := T) s.dev (readCbw s.tag lba) hbuf true
  rw [writeAddress_readCbw, Option.toList_none, List.append_nil] at hlog
  unfold usbMscReadSector
  dsimp only
  split
  · split
    · exact ⟨id, fun _ => ⟨[], hlog.trans (List.append_nil _).symm, by simp⟩, rfl⟩
    · exact destructTrigger_adds rfl
  · exact ⟨id, fun _ => ⟨[], hlog.trans (List.append_nil _).symm, by simp⟩, rfl⟩

variable {d : UsbDisk T.traced csprng}

theorem readSector_adds (d : UsbDisk T.traced csprng) (lba : ℕ) (buf : Bytes 512) :
    wire.Adds W d (readSector d lba buf).2.2 :=
  usbMscReadSector_adds d.storage _ (by rw [buf.2]; decide)

theorem writeSector_adds (d : UsbDisk T.traced csprng) {lba : ℕ} (hlba : W (UInt32.ofNat lba))
    (buf : Bytes 512) : wire.Adds W d (writeSector d lba buf).2 :=
  usbMscWriteSector_adds d.storage hlba (by rw [buf.2]; decide)

/-! ## What its clients do -/

theorem counterWrite_adds (cpuid : CpuidLeaf) (count : ℕ) (d : UsbDisk T.traced csprng)
    (hW : W (UInt32.ofNat authCounterLba)) : wire.Adds W d (counterWrite cpuid count d) :=
  writeSector_adds d hW _

theorem writeRaw_traced (s : Storage (σ × List UInt32)) (lba : UInt32) (sector : List UInt8)
    (h : sector.length = 512) :
    ∃ dev, writeRaw T.traced s lba sector = { s with dev := dev, tag := s.tag + 1 } ∧
      dev.2 = s.dev.2 ++ [lba] := by
  have hlog := botExecute_traced (T := T) s.dev (writeCbw s.tag lba)
    (show sector.length ≠ 31 by rw [h]; decide) false
  rw [writeAddress_writeCbw] at hlog
  exact ⟨_, rfl, hlog⟩

/-- An update of a hash adds the address of its table sector and that of the root. -/
theorem merkleUpdate_traced {s : Storage (σ × List UInt32)} (hinit : s.initialized = true)
    {lba : UInt32} (hlt : lba.toNat < merkleMaxSectors)
    (hlen : ∀ idx < merkleMaxSectors, (s.leaves idx).length = 32) (b : List UInt8) :
    ∃ dev tag root, merkleUpdate T.traced s lba b =
        { s with
          dev := dev
          tag := tag
          leaves := Function.update s.leaves lba.toNat (sha256Of b)
          root := root } ∧
      dev.2 = s.dev.2 ++ [10 + UInt32.ofNat (lba.toNat / 16), 3] := by
  generalize hL : Function.update s.leaves lba.toNat (sha256Of b) = L
  have hlen' : ∀ idx < merkleMaxSectors, (L idx).length = 32 := by
    intro idx hidx
    rw [← hL, Function.update_apply]
    split
    · exact length_sha256Of _
    · exact hlen idx hidx
  obtain ⟨dev₁, he₁, hdev₁⟩ := writeRaw_traced (T := T) { s with leaves := L }
    (10 + UInt32.ofNat (lba.toNat / 16)) (leafSector L (lba.toNat / 16))
    (length_leafSector hlen' _)
  have hleaf : persistLeaf T.traced { s with leaves := L } lba =
      { s with leaves := L, dev := dev₁, tag := s.tag + 1 } := by
    unfold persistLeaf
    rw [if_neg (Nat.not_le.mpr hlt)]
    exact he₁
  obtain ⟨R, hR⟩ : ∃ R, recomputeRoot L = R := ⟨_, rfl⟩
  have hroot : (R ++ hmacSha512 merkleRootKey R ++ List.replicate (512 - 96) 0).length = 512 := by
    rw [← hR, List.length_append, List.length_append, List.length_replicate, length_hmacSha512,
      length_recomputeRoot]
  obtain ⟨dev₂, he₂, hdev₂⟩ := writeRaw_traced (T := T)
    { s with leaves := L, dev := dev₁, tag := s.tag + 1, root := R } 3 _ hroot
  refine ⟨dev₂, s.tag + 1 + 1, R, ?_, ?_⟩
  · rw [merkleUpdate_of_lt T.traced hinit hlt, hL, hleaf]
    dsimp only
    rw [hR]
    exact he₂
  · dsimp only at hdev₁ hdev₂
    rw [hdev₂, hdev₁, List.append_assoc]
    rfl

theorem wire_keptByReads (W : UInt32 → Prop) :
    KeptByReads (fun _ => True) fun d d' : UsbDisk T.traced csprng => wire.Adds W d d' where
  refl := .refl
  trans := .trans
  read d lba buf _ := readSector_adds d lba buf

end

end StyxOS
