import Mathlib
import StyxOS.Crypto.Sha512
import StyxOS.Crypto.Xts

/-! # The encrypted block device

The mass-storage driver of `usb_msc.c` over a bulk transport, with the sector
cipher on the way in and out. A read is checked against the hash table of
`merkle.c` through `integrity.c`, and a mismatch starts the self-destruct of
`destruct.c`, after which the machine makes no further call.
-/

namespace StyxOS

open ByteMem

/-- The bulk endpoints of the device: return codes of `xhci_bulk_out` and `xhci_bulk_in`, what was
received, and the device afterwards. -/
structure Transport (σ : Type*) where
  bulkOut : σ → List UInt8 → ℤ × σ
  bulkIn : σ → ℕ → ℤ × List UInt8 × σ

/-- A sector of 512 bytes. -/
abbrev Sector := {b : List UInt8 // b.length = 512}

namespace Sector

def zero : Sector := ⟨List.replicate 512 0, by rw [List.length_replicate]⟩

def encrypt (ctx : Aes256XtsCtx) (lba : UInt32) (b : Sector) : Sector :=
  ⟨aes256XtsEncryptSector ctx lba b.1, by simp⟩

def decrypt (ctx : Aes256XtsCtx) (lba : UInt32) (b : Sector) : Sector :=
  ⟨aes256XtsDecryptSector ctx lba b.1, by simp⟩

@[simp] theorem decrypt_encrypt (ctx : Aes256XtsCtx) (lba : UInt32) (b : Sector) :
    (b.encrypt ctx lba).decrypt ctx lba = b :=
  Subtype.ext (aes256XtsDecryptSector_encryptSector ctx lba b.2)

end Sector

/-! ## Bulk-only transport -/

/-- `cbw_t`. -/
structure Cbw where
  dCBWSignature : UInt32
  dCBWTag : UInt32
  dCBWDataTransferLength : UInt32
  bmCBWFlags : UInt8
  bCBWLUN : UInt8
  bCBWCBLength : UInt8
  cbwcb : List UInt8
deriving Repr

def Cbw.toBytes (c : Cbw) : List UInt8 :=
  leBytes 4 c.dCBWSignature.toNat ++ leBytes 4 c.dCBWTag.toNat ++
    leBytes 4 c.dCBWDataTransferLength.toNat ++ [c.bmCBWFlags, c.bCBWLUN, c.bCBWCBLength] ++ c.cbwcb

/-- `make_cbw`, for the value of `g_tag` it takes. -/
def makeCbw (tag xferLen : UInt32) (flags cbLen : UInt8) (cb : List UInt8) : Cbw where
  dCBWSignature := 0x43425355
  dCBWTag := tag
  dCBWDataTransferLength := xferLen
  bmCBWFlags := flags
  bCBWLUN := 0
  bCBWCBLength := cbLen
  cbwcb := cb

/-- The command block of a transfer of one sector. -/
def sectorCb (opcode : UInt8) (lba : UInt32) : List UInt8 :=
  [opcode, 0] ++ beBytes 4 lba.toNat ++ [0, 0, 1] ++ List.replicate 7 0

def readCbw (tag lba : UInt32) : Cbw := makeCbw tag 512 0x80 10 (sectorCb 0x28 lba)

def writeCbw (tag lba : UInt32) : Cbw := makeCbw tag 512 0x00 10 (sectorCb 0x2A lba)

/-- A status block with the signature of `csw_t`. -/
def cswSigned (csw : List UInt8) : Bool := leVal (csw.take 4) == 0x53425355

def cswStatus (csw : List UInt8) : UInt8 := csw.getD 12 0

section
variable {σ : Type*} (T : Transport σ)

/-- The data phase: the return code and the buffer and device afterwards. -/
def dataPhase (dev : σ) (buf : List UInt8) (dataIn : Bool) : ℤ × List UInt8 × σ :=
  if buf.length = 0 then (0, buf, dev)
  else if dataIn then T.bulkIn dev buf.length
  else ((T.bulkOut dev buf).1, buf, (T.bulkOut dev buf).2)

def botExecute (dev : σ) (cbw : Cbw) (buf : List UInt8) (dataIn : Bool) : ℤ × List UInt8 × σ :=
  let (rc, dev) := T.bulkOut dev cbw.toBytes
  if rc ≠ 0 then (-1, buf, dev)
  else
    let (rc, buf, dev) := dataPhase T dev buf dataIn
    if rc ≠ 0 then (-2, buf, dev)
    else
      let (rc, csw, dev) := T.bulkIn dev 13
      if rc ≠ 0 then (-3, buf, dev)
      else if !cswSigned csw then (-4, buf, dev)
      else if cswStatus csw ≠ 0 then (-5, buf, dev)
      else (0, buf, dev)

end

/-! ## The driver -/

/-- The device with the globals of the storage stack: `g_tag`, `g_sector_cnt`,
`g_encryption_enabled` and `g_xts_ctx` of the driver, the hash table of `merkle.c`, the key that
the self-destruct erases, how much noise it has drawn, and whether the machine has halted. -/
structure Storage (σ : Type*) where
  dev : σ
  tag : UInt32
  sectorCnt : UInt32
  encryptionEnabled : Bool
  xtsCtx : Aes256XtsCtx
  leaves : ℕ → List UInt8
  root : List UInt8
  initialized : Bool
  authDerivedKey : List UInt8
  draws : ℕ
  halted : Bool

section
variable {σ : Type*} (T : Transport σ)

def usbMscWriteSector (s : Storage σ) (lba : UInt32) (buf : List UInt8) : ℤ × Storage σ :=
  let dataPtr := if s.encryptionEnabled then aes256XtsEncryptSector s.xtsCtx lba buf else buf
  let (rc, _, dev) := botExecute T s.dev (writeCbw s.tag lba) dataPtr false
  (rc, { s with dev := dev, tag := s.tag + 1 })

/-- `sha256_of`: the first half of the SHA-512 digest. -/
def sha256Of (data : List UInt8) : List UInt8 := (sha512 data).take 32

def merkleMaxSectors : ℕ := 8192

def merkleVerify (s : Storage σ) (lba : UInt32) (plaintext : List UInt8) : Bool :=
  if !s.initialized || merkleMaxSectors ≤ lba.toNat then true
  else sha256Of plaintext == s.leaves lba.toNat

/-- `integrity_verify_sector` of a buffer that is there. -/
def integrityVerifySector (s : Storage σ) (lba : UInt32) (data : List UInt8) : Bool :=
  merkleVerify s lba data

/-- One pass of `wipe_sectors` over the addresses from `start`, `count` of them left, with the
content that `fill` gives each draw. -/
def wipePass (fill : ℕ → List UInt8) (step : ℕ) : ℕ → UInt32 → Storage σ → Storage σ
  | 0, _, s => s
  | count + 1, start, s =>
    let s' := (usbMscWriteSector T s start (fill s.draws)).2
    wipePass fill step count (start + 1) { s' with draws := s.draws + step }

/-- `wipe_sectors`: noise, zeros, noise. -/
def wipeSectors (csprng : ℕ → List UInt8) (start : UInt32) (count : ℕ) (s : Storage σ) :
    Storage σ :=
  let s := wipePass T csprng 1 count start s
  let s := wipePass T (fun _ => List.replicate 512 0) 0 count start s
  wipePass T csprng 1 count start s

def destructTrigger (csprng : ℕ → List UInt8) (s : Storage σ) : Storage σ :=
  let savedEnc := s.encryptionEnabled
  let s := { s with encryptionEnabled := false }
  let s := wipeSectors T csprng 1 9 s
  let s := wipeSectors T csprng 500 1 s
  { s with
    encryptionEnabled := savedEnc
    authDerivedKey := List.replicate 64 0
    halted := true }

/-- `usb_msc_read_sector` into `buf`: the return code and the buffer afterwards. -/
def usbMscReadSector (csprng : ℕ → List UInt8) (s : Storage σ) (lba : UInt32) (buf : List UInt8) :
    ℤ × List UInt8 × Storage σ :=
  let (rc, buf, dev) := botExecute T s.dev (readCbw s.tag lba) buf true
  let s := { s with dev := dev, tag := s.tag + 1 }
  if rc = 0 ∧ s.encryptionEnabled = true then
    let buf := aes256XtsDecryptSector s.xtsCtx lba buf
    if integrityVerifySector s lba buf then (rc, buf, s)
    else (rc, buf, destructTrigger T csprng s)
  else (rc, buf, s)

end

end StyxOS
