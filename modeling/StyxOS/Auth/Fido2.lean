import StyxOS.Auth.Counter
import StyxOS.Snapshot.Key

/-! # The FIDO2 assertion and the volume key

The key of the volume is derived from the password and the assertion of the FIDO2
device, for which the software path takes the processor, the PIN and a challenge.
Equal passwords give equal keys for equal challenges, and for different ones only
where two messages that the derivation hashes collide.
-/

namespace StyxOS

open ByteMem

/-- What `cpuid` gives for the leaves 1 and 0. -/
structure Cpuid where
  leaf1 : CpuidLeaf
  ebx : UInt32
  ecx : UInt32
  vendorEbx : UInt32
  vendorEcx : UInt32
  vendorEdx : UInt32

def deriveDeviceFingerprint (cpuid : Cpuid) : List UInt8 :=
  let raw := leBytes 4 cpuid.leaf1.eax.toNat ++ leBytes 4 cpuid.leaf1.edx.toNat ++
    [cpuid.ebx.toUInt8, cpuid.ecx.toUInt8] ++ leBytes 2 cpuid.vendorEbx.toNat ++
    leBytes 2 cpuid.vendorEdx.toNat ++ leBytes 2 cpuid.vendorEcx.toNat
  hmacSha512 raw (asciiBytes "styxos-fido2-cred-v1")

/-- `build_authenticator_data`, which makes no use of its challenge. -/
def buildAuthenticatorData (signCount : ℕ) : List UInt8 :=
  (sha512 (asciiBytes "styxos.io")).take 32 ++ [0x01] ++ beBytes 4 signCount

def usbHidInit : Bool := false

def fido2DeviceDetect : Bool := usbHidInit

section

variable (cpuid : Cpuid) (challenge : Bytes 32) (pin : Option (List UInt8))

/-- The hash of a PIN, where there is one that is not empty. -/
def pinHash : List UInt8 :=
  match pin with
  | none | some [] => List.replicate 64 0
  | some pin => sha512 pin

def privateKey : List UInt8 :=
  let prk := hkdfSha512Extract (deriveDeviceFingerprint cpuid) (challenge.1 ++ pinHash pin)
  hkdfSha512Expand prk (asciiBytes "styxos-fido2-signing-key") 64

/-- `fido2_emulate_assertion`, which never fails. -/
def fido2EmulateAssertion : Bytes 64 :=
  ⟨hmacSha512 (privateKey cpuid challenge pin) (buildAuthenticatorData 1 ++ challenge.1),
    length_hmacSha512 _ _⟩

def fido2GetAssertion : Option (Bytes 64) :=
  if fido2DeviceDetect then some (fido2EmulateAssertion cpuid challenge pin) else none

end

/-! ## Equal assertions -/

variable {cpuid : Cpuid} {c₁ c₂ : Bytes 32} {pin : Option (List UInt8)} {password : List UInt8}

/-- The assertions for two challenges are equal by a collision. -/
def AssertionsCollide (cpuid : Cpuid) (pin : Option (List UInt8)) (c₁ c₂ : Bytes 32) : Prop :=
  HmacCollide (privateKey cpuid c₁ pin) (buildAuthenticatorData 1 ++ c₁.1)
    (privateKey cpuid c₂ pin) (buildAuthenticatorData 1 ++ c₂.1)

theorem fido2EmulateAssertion_eq_iff :
    fido2EmulateAssertion cpuid c₁ pin = fido2EmulateAssertion cpuid c₂ pin ↔
      c₁ = c₂ ∨ AssertionsCollide cpuid pin c₁ c₂ := by
  have hlen : ∀ c, (privateKey cpuid c pin).length = 64 := fun c => length_hkdfSha512Expand _ _ _
  rw [fido2EmulateAssertion, fido2EmulateAssertion, Subtype.mk.injEq,
    hmacSha512_eq_iff ((hlen c₁).trans (hlen c₂).symm) (by rw [hlen]; decide),
    List.append_cancel_left_eq, AssertionsCollide]
  constructor
  · rintro (⟨-, hc⟩ | hcollide)
    · exact .inl (Subtype.ext hc)
    · exact .inr hcollide
  · rintro (rfl | hcollide)
    · exact .inl ⟨rfl, rfl⟩
    · exact .inr hcollide

/-! ## Equal keys -/

/-- The extract of the derivation of `auth_preboot`. -/
def authPrk (password : List UInt8) (fido2Secret : Bytes 64) : List UInt8 :=
  hkdfSha512Extract (asciiBytes "styxos-salt") (password ++ fido2Secret.1)

/-- The key that `auth_preboot` derives, before it is checked. -/
def uncheckedKey (password : List UInt8) (fido2Secret : Bytes 64) : Bytes 64 :=
  ⟨hkdfSha512Expand (authPrk password fido2Secret) (asciiBytes "styxos-key") 64,
    length_hkdfSha512Expand _ _ _⟩

/-- The keys from two secrets are equal by a collision. -/
def KeysCollide (password : List UInt8) (s₁ s₂ : Bytes 64) : Prop :=
  HmacCollide (asciiBytes "styxos-salt") (password ++ s₁.1) (asciiBytes "styxos-salt")
      (password ++ s₂.1) ∨
    HmacCollide (authPrk password s₁) (asciiBytes "styxos-key" ++ [1]) (authPrk password s₂)
      (asciiBytes "styxos-key" ++ [1])

@[simp] theorem length_authPrk (fido2Secret : Bytes 64) :
    (authPrk password fido2Secret).length = 64 := by
  rw [authPrk, hkdfSha512Extract, length_hmacSha512]

theorem authDeriveKey_eq_some_iff {secret key : Bytes 64} :
    authDeriveKey password secret = some key ↔
      (0 < password.length ∧ uncheckedKey password secret ≠ Bytes.zero 64) ∧
        uncheckedKey password secret = key := by
  have hunfold : authDeriveKey password secret =
      if 0 < password.length ∧ uncheckedKey password secret ≠ Bytes.zero 64 then
        some (uncheckedKey password secret)
      else none := rfl
  rw [hunfold]
  split <;> simp_all

theorem authPrk_eq_iff {s₁ s₂ : Bytes 64} :
    authPrk password s₁ = authPrk password s₂ ↔
      s₁ = s₂ ∨ HmacCollide (asciiBytes "styxos-salt") (password ++ s₁.1)
        (asciiBytes "styxos-salt") (password ++ s₂.1) := by
  have hsalt : (asciiBytes "styxos-salt").length = 11 := by decide
  rw [authPrk, authPrk, hkdfSha512Extract, hkdfSha512Extract, if_neg (by rw [hsalt]; decide),
    hmacSha512_eq_iff rfl (by rw [hsalt]; decide), List.append_cancel_left_eq, Subtype.ext_iff]
  simp only [true_and]

theorem uncheckedKey_eq_iff {s₁ s₂ : Bytes 64} :
    uncheckedKey password s₁ = uncheckedKey password s₂ ↔
      s₁ = s₂ ∨ KeysCollide password s₁ s₂ := by
  have hinfo : (asciiBytes "styxos-key").length = 10 := by decide
  rw [uncheckedKey, uncheckedKey, Subtype.mk.injEq, hkdfSha512Expand_64, hkdfSha512Expand_64,
    List.take_of_length_le (by omega),
    hmacSha512_eq_iff ((length_authPrk s₁).trans (length_authPrk s₂).symm) (by simp),
    and_iff_left rfl, authPrk_eq_iff, KeysCollide, or_assoc]

/-- The challenges give one key under the password because two of the hashed messages collide. -/
def ChallengesCollide (cpuid : Cpuid) (password : List UInt8) (c₁ c₂ : Bytes 32) : Prop :=
  AssertionsCollide cpuid none c₁ c₂ ∨
    KeysCollide password (fido2EmulateAssertion cpuid c₁ none) (fido2EmulateAssertion cpuid c₂ none)

theorem uncheckedKey_assertion_eq_iff :
    uncheckedKey password (fido2EmulateAssertion cpuid c₁ none) =
        uncheckedKey password (fido2EmulateAssertion cpuid c₂ none) ↔
      c₁ = c₂ ∨ ChallengesCollide cpuid password c₁ c₂ := by
  rw [uncheckedKey_eq_iff, fido2EmulateAssertion_eq_iff, ChallengesCollide, or_assoc]

end StyxOS
