import StyxOS.Crypto.Sha512
import StyxOS.Oram.Basic

/-! # The attempt counter

The counter of failed authentications of `auth_counter.c`: a magic number, the
count and a code under a key that the processor determines, in one sector of
the device.
-/

namespace StyxOS

open ByteMem

/-- `AUTH_COUNTER_LBA`, `AUTH_COUNTER_MAX` and `COUNTER_MAGIC`. -/
def authCounterLba : ℕ := 5
def authCounterMax : ℕ := 3
def counterMagic : ℕ := 0x53545843

/-- What `cpuid` gives for leaf 1, of which the key takes two registers. -/
structure CpuidLeaf where
  eax : UInt32
  edx : UInt32

def deriveDeviceKey (cpuid : CpuidLeaf) : List UInt8 :=
  let fingerprint := leBytes 4 cpuid.eax.toNat ++ leBytes 2 cpuid.edx.toNat ++ List.replicate 26 0
  let salt := "styxos-counter-key-v1".toList.map fun c => c.toNat.toUInt8
  let out := sha512 fingerprint
  xorBytes out (hmacSha512 out salt)

/-- The first five bytes of the sector: the magic number and the count. -/
def counterHead (count : ℕ) : List UInt8 := leBytes 4 counterMagic ++ [UInt8.ofNat count]

def counterSector (cpuid : CpuidLeaf) (count : ℕ) : Bytes 512 :=
  Bytes.ofList 512 (counterHead count ++ hmacSha512 (deriveDeviceKey cpuid) (counterHead count))

/-- The device with `g_count` and `g_usb_present`. -/
structure AuthCounter (δ : Type) where
  dev : δ
  count : ℕ
  usbPresent : Bool

section

variable {δ : Type} [SectorDevice δ]

def counterWrite (cpuid : CpuidLeaf) (count : ℕ) (dev : δ) : δ :=
  (writeSector dev authCounterLba (counterSector cpuid count)).2

/-- `counter_read`, for what its buffer holds before. -/
def counterRead (cpuid : CpuidLeaf) (buf : Bytes 512) (dev : δ) : ℕ × δ :=
  let saved := encryption dev
  let dev := setEncryption false dev
  let (rc, sector, dev) := readSector dev authCounterLba buf
  let dev := setEncryption saved dev
  if rc ≠ 0 then (0, dev)
  else if leVal (sector.1.take 4) ≠ counterMagic then (0, counterWrite cpuid 0 dev)
  else if (sector.1.drop 5).take 64 ≠ hmacSha512 (deriveDeviceKey cpuid) (sector.1.take 5) then
    (authCounterMax, dev)
  else ((sector.1.getD 4 0).toNat, dev)

def authCounterInit (cpuid : CpuidLeaf) (buf : Bytes 512) (a : AuthCounter δ) : AuthCounter δ :=
  if sectorCount a.dev > 0 then
    { dev := (counterRead cpuid buf a.dev).2
      count := (counterRead cpuid buf a.dev).1
      usbPresent := true }
  else { a with count := 0, usbPresent := false }

def authCounterIncrement (cpuid : CpuidLeaf) (a : AuthCounter δ) : AuthCounter δ :=
  { a with
    count := a.count + 1
    dev := if a.usbPresent then counterWrite cpuid (a.count + 1) a.dev else a.dev }

def authCounterReset (cpuid : CpuidLeaf) (a : AuthCounter δ) : AuthCounter δ :=
  { a with
    count := 0
    dev := if a.usbPresent then counterWrite cpuid 0 a.dev else a.dev }

def authCounterLocked (a : AuthCounter δ) : Bool := authCounterMax ≤ a.count

end

end StyxOS
