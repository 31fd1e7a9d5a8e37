import Mathlib.Data.Fin.VecNotation
import StyxOS.Crypto.Sha512
import StyxOS.Tpm.Tis

/-! # Attestation

`tpm.c` over the TIS driver: three measurements at boot, and the check that main
makes before it goes on. What the check decides depends on four answers of the TPM
and on the software copy of the PCRs.
-/

namespace StyxOS.Tpm

open ByteMem

/-- The driver with `g_tpm2_state`. -/
structure Tpm2State (σ : Type*) where
  tis : Tis σ
  pcr : UInt32 → List UInt8
  initialized : Bool

def tpmPcrCount : UInt32 := 24

/-! ### Commands -/

/-- The authorization area of a command: an empty password. -/
def passwordSession : List UInt8 :=
  [0x00, 0x00, 0x00, 0x09, 0x40, 0x00, 0x00, 0x09, 0x00, 0x00, 0x00, 0x00, 0x00]

def startupCmd : List UInt8 :=
  [0x80, 0x01, 0x00, 0x00, 0x00, 0x0C, 0x00, 0x00, 0x01, 0x44, 0x00, 0x00]

def selfTestCmd : List UInt8 :=
  [0x80, 0x01, 0x00, 0x00, 0x00, 0x0B, 0x00, 0x00, 0x01, 0x43, 0x01]

/-- The bytes of the digest that `tpm2_pcr_extend_real` stores behind its buffer. -/
def digestTail (digest : List UInt8) : List UInt8 := (digest.take 32).drop 28

/-- The command of `tpm2_pcr_extend_real`: what its buffer of 61 bytes holds, and what lies behind
it, as far as the length goes that those four bytes leave. -/
def pcrExtendCmd (o : Overrun) (i : UInt32) (digest : List UInt8) : List UInt8 :=
  let len := o.length (digestTail digest)
  let cmd : List UInt8 := List.flatten
    [[0x80, 0x02, 0x00, 0x00, (len >>> 8).toUInt8, len.toUInt8, 0x00, 0x00, 0x01, 0x82],
      [0x00, 0x00, 0x00, i.toUInt8], passwordSession, [0x00, 0x00, 0x00, 0x01, 0x00, 0x0B],
      digest.take 28]
  (List.range len.toNat).map fun k =>
    if k < 61 then cmd.getD k 0 else o.behind (digestTail digest) k

/-- The selection of PCRs of the SHA-256 bank, by its bitmap of three bytes. -/
def pcrSelection (bitmap : List UInt8) : List UInt8 :=
  [0x00, 0x00, 0x00, 0x01, 0x00, 0x0B, 0x03] ++ bitmap

/-- The command of `tpm2_pcr_read_real`: twenty bytes, of which it says that they are 33. -/
def pcrReadCmd (i : UInt32) : List UInt8 :=
  let bitmap : List UInt8 :=
    if i < 8 then [(1 <<< i).toUInt8, 0, 0]
    else if i < 16 then [0, (1 <<< (i - 8)).toUInt8, 0]
    else if i < 24 then [0, 0, (1 <<< (i - 16)).toUInt8]
    else [0, 0, 0]
  ([0x80, 0x01, 0x00, 0x00, 0x00, 0x21, 0x00, 0x00, 0x01, 0x7E] : List UInt8) ++
    pcrSelection bitmap

/-- The command of `tpm2_quote_real`. -/
def quoteCmd (pcrMask : UInt32) (nonce : List UInt8) : List UInt8 :=
  List.flatten
    [[0x80, 0x02, 0x00, 0x00, 0x00, 0x49, 0x00, 0x00, 0x01, 0x58, 0x40, 0x00, 0x00, 0x0C],
      passwordSession, [0x00, 0x20], nonce, [0x00, 0x10],
      pcrSelection [pcrMask.toUInt8, (pcrMask >>> 8).toUInt8, (pcrMask >>> 16).toUInt8]]

section

variable {σ : Type*} (dev : TpmDevice σ)

def tpm2Startup (s : Tis σ) : Option (Bool × Tis σ) := do
  let ((ok, r), s) ← tpmTisSendCmd dev startupCmd 64 s
  return (ok || (decide (10 ≤ r.got) && r.responseCode == 0x100), s)

def tpm2SelfTest (s : Tis σ) : Option (Bool × Tis σ) := do
  let ((ok, _), s) ← tpmTisSendCmd dev selfTestCmd 32 s
  return (ok, s)

def tpm2PcrExtendReal (i : UInt32) (digest : List UInt8) (s : Tis σ) : Option (Bool × Tis σ) := do
  let ((ok, _), s) ← tpmTisSendCmd dev (pcrExtendCmd dev.overrun i digest) 64 s
  return (ok, s)

/-- `tpm2_pcr_read_real`: the digest, if it returns true. -/
def tpm2PcrReadReal (i : UInt32) (s : Tis σ) : Option (Option (List UInt8) × Tis σ) := do
  let ((ok, r), s) ← tpmTisSendCmd dev (pcrReadCmd i) 256 s
  return (if ok = false ∨ r.got < 60 then none else some ((r.resp.drop 28).take 32), s)

/-- The quote or the signature that `tpm2_quote_real` makes up. -/
def madeUp (tag : UInt8) (nonce : List UInt8) : List UInt8 := tag :: nonce ++ List.replicate 31 tag

/-- `tpm2_quote_real`: the result, the quote and the signature. -/
def tpm2QuoteReal (pcrMask : UInt32) (nonce : List UInt8) (s : Tis σ) :
    Option ((Bool × List UInt8 × List UInt8) × Tis σ) := do
  let ((ok, r), s) ← tpmTisSendCmd dev (quoteCmd pcrMask nonce) 256 s
  let quote := if ok = true ∧ 64 ≤ r.got then (r.resp.drop 10).take 64 else madeUp 0x51 nonce
  return ((true, quote, madeUp 0x53 nonce), s)

def tpm2PcrExtend (i : UInt32) (data : List UInt8) (s : Tpm2State σ) :
    Option (Bool × Tpm2State σ) := do
  if tpmPcrCount ≤ i ∨ data = [] then return (false, s)
  let extendedDigest := sha512 (s.pcr i ++ sha512 data)
  let (_, tis) ← tpm2PcrExtendReal dev i extendedDigest s.tis
  return (true, { s with tis := tis, pcr := Function.update s.pcr i (extendedDigest.take 32) })

def zeroDigest : List UInt8 := List.replicate 32 0

/-- `tpm2_init` as far as the TPM itself goes, where there is one. -/
def tpm2Connect (s : Tis σ) : Option (Tis σ) := do
  match tpmTisInit dev s with
  | (false, s) => return s
  | (true, s) =>
    let (_, s) ← tpm2Startup dev s
    let (_, s) ← tpm2SelfTest dev s
    return s

def tpm2Init (s : Tpm2State σ) : Option (Tpm2State σ) := do
  let tis ← tpm2Connect dev s.tis
  let s : Tpm2State σ := { tis := tis, pcr := fun _ => zeroDigest, initialized := true }
  let (_, s) ← tpm2PcrExtend dev 0 (asciiBytes "STYX_KERNEL_IMAGE_V2.0") s
  let (_, s) ← tpm2PcrExtend dev 1 (asciiBytes "LIMINE_BOOT_CFG_MEASURED") s
  let (_, s) ← tpm2PcrExtend dev 2 (asciiBytes "PMM_BITMAP_126MB_LAYOUT") s
  return s

/-- `tpm2_get_pcr`, over what its output buffer holds. -/
def tpm2GetPcr (i : UInt32) (out : List UInt8) (s : Tpm2State σ) :
    Option (List UInt8 × Tpm2State σ) := do
  if tpmPcrCount ≤ i then return (out, s)
  let (read, tis) ← tpm2PcrReadReal dev i s.tis
  return (read.getD (s.pcr i), { s with tis := tis })

def attestationNonce : List UInt8 :=
  [0xAA, 0xBB, 0xCC, 0xDD, 0xEE, 0xFF, 0x11, 0x22] ++ List.replicate 24 0

def tpm2VerifyAttestation (s : Tpm2State σ) : Option (Bool × Tpm2State σ) := do
  let uninit := (List.range 32).map (dev.uninit s.tis.dev)
  let (pcr0, s) ← tpm2GetPcr dev 0 uninit s
  let (pcr1, s) ← tpm2GetPcr dev 1 uninit s
  let (pcr2, s) ← tpm2GetPcr dev 2 uninit s
  if pcr0 = zeroDigest ∨ pcr1 = zeroDigest ∨ pcr2 = zeroDigest then return (false, s)
  let ((ok, quote, sig), tis) ← tpm2QuoteReal dev 0x07 attestationNonce s.tis
  let s := { s with tis := tis }
  if ok = false then return (false, s)
  if quote.headD 0 ≠ 0x51 ∨ sig.headD 0 ≠ 0x53 then return (false, s)
  return (true, s)

/-- The machine before `tpm2_init`. -/
def Tpm2State.powerOn (d : σ) : Tpm2State σ where
  tis := ⟨false, d⟩
  pcr := fun _ => zeroDigest
  initialized := false

end

/-! ### What the TPM should answer -/

/-- The value that a measurement of `tpm2_init` gives the PCR. -/
def measurement (text : String) : List UInt8 :=
  (sha512 (zeroDigest ++ sha512 (asciiBytes text))).take 32

def measuredPcr : Fin 3 → List UInt8
  | 0 => measurement "STYX_KERNEL_IMAGE_V2.0"
  | 1 => measurement "LIMINE_BOOT_CFG_MEASURED"
  | 2 => measurement "PMM_BITMAP_126MB_LAYOUT"

/-- The response of TPM 2.0 to a successful read of one PCR. -/
structure PcrReadResponse where
  updateCounter : List UInt8
  length_updateCounter : updateCounter.length = 4
  bitmap : List UInt8
  length_bitmap : bitmap.length = 3
  digest : List UInt8
  length_digest : digest.length = 32

def PcrReadResponse.bytes (r : PcrReadResponse) : List UInt8 :=
  [0x80, 0x01, 0x00, 0x00, 0x00, 0x3E, 0x00, 0x00, 0x00, 0x00] ++ r.updateCounter ++
    pcrSelection r.bitmap ++ [0x00, 0x00, 0x00, 0x01, 0x00, 0x20] ++ r.digest

/-- The response of TPM 2.0 to a successful quote. -/
structure QuoteResponse where
  signer : List UInt8
  signer_le : signer.length ≤ 66
  clockAndFirmware : List UInt8
  length_clockAndFirmware : clockAndFirmware.length = 25
  pcrDigest : List UInt8
  length_pcrDigest : pcrDigest.length = 32
  signature : List UInt8
  signature_lt : signature.length < 65536

/-- What is signed: the magic number, the type, the signer, the nonce, and the state of the TPM. -/
def QuoteResponse.attest (q : QuoteResponse) (nonce : List UInt8) : List UInt8 :=
  [0xFF, 0x54, 0x43, 0x47, 0x80, 0x18] ++ beBytes 2 q.signer.length ++ q.signer ++
    beBytes 2 nonce.length ++ nonce ++ q.clockAndFirmware ++ pcrSelection [0x07, 0x00, 0x00] ++
    beBytes 2 q.pcrDigest.length ++ q.pcrDigest

/-- The parameters of the response. -/
def QuoteResponse.parameters (q : QuoteResponse) (nonce : List UInt8) : List UInt8 :=
  beBytes 2 (q.attest nonce).length ++ q.attest nonce ++ q.signature

def QuoteResponse.bytes (q : QuoteResponse) (nonce : List UInt8) : List UInt8 :=
  [0x80, 0x02] ++ beBytes 4 ((q.parameters nonce).length + 19) ++ [0x00, 0x00, 0x00, 0x00] ++
    beBytes 4 (q.parameters nonce).length ++ q.parameters nonce ++ [0x00, 0x00, 0x00, 0x00, 0x00]

/-! ### The conversation -/

/-- The answers to the commands of `tpm2_verify_attestation`. -/
structure Answers where
  pcr : Fin 3 → Answer
  quote : Answer

/-- The digest that `tpm2_get_pcr` takes from the answer, for a software copy of the PCR. -/
def Answer.pcr (a : Answer) (copy : List UInt8) : List UInt8 :=
  if a.Ok ∧ 60 ≤ a.reply.got then (a.reply.resp.drop 28).take 32 else copy

/-- The quote that `tpm2_quote_real` takes from the answer. -/
def Answer.quote (a : Answer) (nonce : List UInt8) : List UInt8 :=
  if a.Ok ∧ 64 ≤ a.reply.got then (a.reply.resp.drop 10).take 64 else madeUp 0x51 nonce

/-- The four exchanges of `tpm2_verify_attestation` in their order. -/
def Conversation {σ : Type*} (dev : TpmDevice σ) (s : Tis σ) (A : Answers) (s' : Tis σ) : Prop :=
  ∃ s₁ s₂ s₃, Exchange dev (pcrReadCmd 0) 256 s (A.pcr 0) s₁ ∧
    Exchange dev (pcrReadCmd 1) 256 s₁ (A.pcr 1) s₂ ∧
    Exchange dev (pcrReadCmd 2) 256 s₂ (A.pcr 2) s₃ ∧
    Exchange dev (quoteCmd 0x07 attestationNonce) 256 s₃ A.quote s'

namespace Answers

variable (A : Answers)

/-- What an attestation is to establish: the TPM has executed the quote, of which the nonce is a
part, and what was compared are the PCRs of the TPM, with the measured values. -/
structure Attested : Prop where
  executed : 10 ≤ A.quote.reply.got ∧ A.quote.Ok
  nonce : attestationNonce <:+: A.quote.quote attestationNonce
  own : ∀ i, ∃ r : PcrReadResponse, (A.pcr i).sent = some r.bytes ∧
    (A.pcr i).pcr (measuredPcr i) = r.digest
  measured : ∀ i, (A.pcr i).pcr (measuredPcr i) = measuredPcr i

/-- The TPM answers every command as TPM 2.0 has it, and its PCRs have the measured values. -/
structure Conforming : Prop where
  pcr : ∀ i, ∃ r : PcrReadResponse, (A.pcr i).sent = some r.bytes ∧ r.digest = measuredPcr i
  quote : ∃ q : QuoteResponse, A.quote.sent = some (q.bytes attestationNonce)

/-- A PCR is read as all zeros, or a response of 64 bytes to the quote does not have the tag of the
driver where that looks for it. -/
def Refused : Prop :=
  (∃ i, (A.pcr i).Ok ∧ 60 ≤ (A.pcr i).reply.got ∧
    ((A.pcr i).reply.resp.drop 28).take 32 = zeroDigest) ∨
  (A.quote.Ok ∧ 64 ≤ A.quote.reply.got ∧ A.quote.reply.resp.getD 10 0 ≠ 0x51)

end Answers

/-- The check succeeds only where an attestation has been made, and it does for a conforming TPM. -/
def AttestationSound {σ : Type*} (dev : TpmDevice σ) (d : σ) : Prop :=
  ∀ s, tpm2Init dev (.powerOn d) = some s →
    (∀ s', tpm2VerifyAttestation dev s = some (true, s') →
      ∃ A, Conversation dev s.tis A s'.tis ∧ A.Attested) ∧
    ∀ A t, Conversation dev s.tis A t → A.Conforming →
      ∃ s', tpm2VerifyAttestation dev s = some (true, s')

/-! ### Measurements -/

variable {σ : Type*} {dev : TpmDevice σ} {s s' : Tpm2State σ} {t t' : Tis σ} {A : Answers}

theorem pcr_of_tpm2PcrExtend {i : UInt32} {data : List UInt8} {ok : Bool}
    (h : tpm2PcrExtend dev i data s = some (ok, s')) (hi : i < tpmPcrCount) (hdata : data ≠ []) :
    s'.pcr = Function.update s.pcr i ((sha512 (s.pcr i ++ sha512 data)).take 32) := by
  have hguard : ¬ (tpmPcrCount ≤ i ∨ data = []) := by simp [hi, hdata]
  simp only [tpm2PcrExtend, if_neg hguard, Option.bind_eq_bind, Option.bind_eq_some_iff,
    Option.pure_def, Option.some.injEq, Prod.mk.injEq] at h
  obtain ⟨_, -, -, rfl⟩ := h
  rfl

theorem pcr_of_tpm2Init (h : tpm2Init dev s = some s') (i : Fin 3) :
    s'.pcr (UInt32.ofNat i) = measuredPcr i := by
  simp only [tpm2Init, Option.bind_eq_bind, Option.bind_eq_some_iff, Option.pure_def,
    Option.some.injEq] at h
  obtain ⟨tis, -, ⟨b₀, s₀⟩, h₀, ⟨b₁, s₁⟩, h₁, ⟨b₂, s₂⟩, h₂, rfl⟩ := h
  have hp₀ := pcr_of_tpm2PcrExtend h₀ (by decide) (by decide)
  have hp₁ := pcr_of_tpm2PcrExtend h₁ (by decide) (by decide)
  have hp₂ := pcr_of_tpm2PcrExtend h₂ (by decide) (by decide)
  match i with
  | 0 => simp [hp₂, hp₁, hp₀, measuredPcr, measurement, Function.update_of_ne]
  | 1 => simp [hp₂, hp₁, hp₀, measuredPcr, measurement, Function.update_of_ne]
  | 2 => simp [hp₂, hp₁, hp₀, measuredPcr, measurement, Function.update_of_ne]

theorem measuredPcr_ne_zero : ∀ i, measuredPcr i ≠ zeroDigest := by decide +kernel

/-! ### What the check decides -/

theorem sendCmd_bind_eq_some_iff {α : Type*} {cmd : List UInt8} {n : ℕ} {f : Bool × Reply → α}
    {v : α} :
    ((tpmTisSendCmd dev cmd n t).bind fun out => some (f out.1, out.2)) = some (v, t') ↔
      ∃ a, Exchange dev cmd n t a t' ∧ v = f (decide a.Ok, a.reply) := by
  simp only [Option.bind_eq_some_iff, Prod.exists, Option.some.injEq, Prod.mk.injEq]
  constructor
  · rintro ⟨ok, r, _, hsend, rfl, rfl⟩
    obtain ⟨a, ha, hout⟩ := tpmTisSendCmd_eq_some_iff.mp hsend
    exact ⟨a, ha, by rw [hout]⟩
  · rintro ⟨a, ha, rfl⟩
    exact ⟨_, _, _, ha.sendCmd, rfl, rfl⟩

theorem tpm2PcrReadReal_eq_some_iff {i : UInt32} {read : Option (List UInt8)} :
    tpm2PcrReadReal dev i t = some (read, t') ↔
      ∃ a, Exchange dev (pcrReadCmd i) 256 t a t' ∧
        read = if a.Ok ∧ 60 ≤ a.reply.got then some ((a.reply.resp.drop 28).take 32) else none := by
  refine Iff.trans (sendCmd_bind_eq_some_iff (f := fun out =>
    if out.1 = false ∨ out.2.got < 60 then none else some ((out.2.resp.drop 28).take 32))) ?_
  refine exists_congr fun a => and_congr_right fun _ => ?_
  have hcond : (decide a.Ok = false ∨ a.reply.got < 60) ↔ ¬ (a.Ok ∧ 60 ≤ a.reply.got) := by
    rw [decide_eq_false_iff_not, not_and_or, UInt64.not_le]
  simp only [hcond, ite_not]

theorem Answer.pcr_eq_getD (a : Answer) (copy : List UInt8) :
    (if a.Ok ∧ 60 ≤ a.reply.got then some ((a.reply.resp.drop 28).take 32) else none).getD copy =
      a.pcr copy := by
  unfold pcr
  split <;> rfl

theorem tpm2GetPcr_eq_some_iff {i : UInt32} {out v : List UInt8} (hi : i < tpmPcrCount) :
    tpm2GetPcr dev i out s = some (v, s') ↔
      ∃ a t, Exchange dev (pcrReadCmd i) 256 s.tis a t ∧ v = a.pcr (s.pcr i) ∧
        s' = { s with tis := t } := by
  simp only [tpm2GetPcr, if_neg (UInt32.not_le.mpr hi), Option.bind_eq_bind, Option.pure_def,
    Option.bind_eq_some_iff, Prod.exists, tpm2PcrReadReal_eq_some_iff, Option.some.injEq,
    Prod.mk.injEq]
  constructor
  · rintro ⟨_, t, ⟨a, ha, rfl⟩, rfl, rfl⟩
    exact ⟨a, t, ha, a.pcr_eq_getD _, rfl⟩
  · rintro ⟨a, t, ha, rfl, rfl⟩
    exact ⟨_, t, ⟨a, ha, rfl⟩, a.pcr_eq_getD _, rfl⟩

theorem tpm2QuoteReal_eq_some_iff {mask : UInt32} {nonce : List UInt8}
    {out : Bool × List UInt8 × List UInt8} :
    tpm2QuoteReal dev mask nonce t = some (out, t') ↔
      ∃ a, Exchange dev (quoteCmd mask nonce) 256 t a t' ∧
        out = (true, a.quote nonce, madeUp 0x53 nonce) := by
  refine Iff.trans (sendCmd_bind_eq_some_iff (f := fun out => (true,
    if out.1 = true ∧ 64 ≤ out.2.got then (out.2.resp.drop 10).take 64 else madeUp 0x51 nonce,
    madeUp 0x53 nonce))) ?_
  simp [Answer.quote]

structure Answers.Accepted (A : Answers) : Prop where
  pcr : ∀ i, (A.pcr i).pcr (measuredPcr i) ≠ zeroDigest
  quote : (A.quote.quote attestationNonce).headD 0 = 0x51

theorem tpm2VerifyAttestation_eq_true_iff
    (hpcr : ∀ i : Fin 3, s.pcr (UInt32.ofNat i) = measuredPcr i) :
    tpm2VerifyAttestation dev s = some (true, s') ↔
      ∃ A, Conversation dev s.tis A s'.tis ∧ s' = { s with tis := s'.tis } ∧ A.Accepted := by
  have hp₀ : s.pcr 0 = measuredPcr 0 := hpcr 0
  have hp₁ : s.pcr 1 = measuredPcr 1 := hpcr 1
  have hp₂ : s.pcr 2 = measuredPcr 2 := hpcr 2
  simp only [tpm2VerifyAttestation, Option.bind_eq_bind, Option.pure_def,
    Option.bind_eq_some_iff, Prod.exists,
    tpm2GetPcr_eq_some_iff (show (0 : UInt32) < tpmPcrCount by decide),
    tpm2GetPcr_eq_some_iff (show (1 : UInt32) < tpmPcrCount by decide),
    tpm2GetPcr_eq_some_iff (show (2 : UInt32) < tpmPcrCount by decide)]
  constructor
  · rintro ⟨_, _, ⟨a₀, t₀, h₀, rfl, rfl⟩, _, _, ⟨a₁, t₁, h₁, rfl, rfl⟩, _, _,
      ⟨a₂, t₂, h₂, rfl, rfl⟩, h⟩
    dsimp only at h₁ h₂ h
    rw [hp₀, hp₁, hp₂] at h
    split at h
    · simp at h
    · next hzero =>
      simp only [Option.bind_eq_some_iff, Prod.exists, tpm2QuoteReal_eq_some_iff,
        Prod.mk.injEq] at h
      obtain ⟨_, _, _, t₃, ⟨a₃, h₃, rfl, rfl, rfl⟩, h⟩ := h
      split at h
      · simp at h
      · split at h
        · simp at h
        · next htag =>
          simp only [Option.some.injEq, Prod.mk.injEq, true_and] at h
          subst h
          refine ⟨⟨![a₀, a₁, a₂], a₃⟩, ⟨t₀, t₁, t₂, h₀, h₁, h₂, h₃⟩, rfl, ?_, ?_⟩
          · simp only [not_or] at hzero
            intro i
            match i with
            | 0 => exact hzero.1
            | 1 => exact hzero.2.1
            | 2 => exact hzero.2.2
          · simp only [not_or, not_not] at htag
            exact htag.1
  · rintro ⟨A, ⟨t₀, t₁, t₂, h₀, h₁, h₂, h₃⟩, hs', hacc⟩
    refine ⟨_, _, ⟨_, _, h₀, rfl, rfl⟩, _, _, ⟨_, _, h₁, rfl, rfl⟩, _, _, ⟨_, _, h₂, rfl, rfl⟩, ?_⟩
    dsimp only
    rw [hp₀, hp₁, hp₂, if_neg (by simp [hacc.pcr 0, hacc.pcr 1, hacc.pcr 2]),
      tpm2QuoteReal_eq_some_iff.mpr ⟨_, h₃, rfl⟩]
    simp only [Option.bind_some]
    have htag : ¬ ((A.quote.quote attestationNonce).headD 0 ≠ 0x51 ∨
        (madeUp 0x53 attestationNonce).headD 0 ≠ 0x53) :=
      not_or.mpr ⟨not_not.mpr hacc.quote, not_not.mpr rfl⟩
    rw [if_neg (by decide), if_neg htag, hs']

theorem Answers.accepted_iff : A.Accepted ↔ ¬ A.Refused := by
  have hpcr : ∀ i, (A.pcr i).pcr (measuredPcr i) = zeroDigest ↔
      (A.pcr i).Ok ∧ 60 ≤ (A.pcr i).reply.got ∧
        ((A.pcr i).reply.resp.drop 28).take 32 = zeroDigest := by
    intro i
    rw [Answer.pcr, ← and_assoc]
    split
    · next hread => simp [hread]
    · next hread => simp [hread, measuredPcr_ne_zero i]
  have hquote : (A.quote.quote attestationNonce).headD 0 = 0x51 ↔
      ¬ (A.quote.Ok ∧ 64 ≤ A.quote.reply.got ∧ A.quote.reply.resp.getD 10 0 ≠ 0x51) := by
    rw [Answer.quote, ← and_assoc]
    split
    · next hread => simp [hread, List.headD_eq_head?_getD, List.head?_take]
    · next hread => simp [hread, madeUp]
  rw [Refused, not_or, not_exists, ← hquote]
  constructor
  · rintro ⟨hp, hq⟩
    exact ⟨fun i hi => hp i ((hpcr i).mpr hi), hq⟩
  · rintro ⟨hp, hq⟩
    exact ⟨fun i hi => hp i ((hpcr i).mp hi), hq⟩

/-! ### Well-formed responses -/

theorem PcrReadResponse.length_bytes (r : PcrReadResponse) : r.bytes.length = 62 := by
  simp [bytes, pcrSelection, r.length_updateCounter, r.length_bitmap, r.length_digest]

theorem QuoteResponse.length_parameters (q : QuoteResponse) :
    (q.parameters attestationNonce).length = q.signer.length + q.signature.length + 113 := by
  simp [parameters, attest, attestationNonce, pcrSelection, q.length_clockAndFirmware,
    q.length_pcrDigest]
  omega

theorem QuoteResponse.length_bytes (q : QuoteResponse) :
    (q.bytes attestationNonce).length = q.signer.length + q.signature.length + 132 := by
  simp [bytes, q.length_parameters]
  omega

theorem QuoteResponse.header (q : QuoteResponse) :
    (q.bytes attestationNonce).getD 10 0 = 0 ∧
      ((q.bytes attestationNonce).drop 6).take 4 = [0, 0, 0, 0] := by
  have hsmall : (q.parameters attestationNonce).length / 256 / 256 / 256 = 0 := by
    have hsigner := q.signer_le
    have hsignature := q.signature_lt
    rw [q.length_parameters]
    omega
  simp [bytes, beBytes, leBytes, hsmall]

theorem PcrReadResponse.header (r : PcrReadResponse) :
    r.bytes.getD 28 0 = 0 ∧ (r.bytes.drop 6).take 4 = [0, 0, 0, 0] := by
  obtain ⟨c, hc, b, hb, d, hd⟩ := r
  obtain ⟨c₀, c₁, c₂, c₃, rfl⟩ : ∃ c₀ c₁ c₂ c₃, c = [c₀, c₁, c₂, c₃] := by
    simpa [List.length_eq_succ_iff, eq_comm] using hc
  obtain ⟨b₀, b₁, b₂, rfl⟩ : ∃ b₀ b₁ b₂, b = [b₀, b₁, b₂] := List.length_eq_three.mp hb
  exact ⟨rfl, rfl⟩

theorem Answers.Conforming.refused (h : A.Conforming)
    (hbuffer : A.quote.buffer.length = 256) : A.Refused := by
  obtain ⟨q, hq⟩ := h.quote
  have hsigner := q.signer_le
  have hsignature := q.signature_lt
  have hlen := q.length_bytes
  refine .inr ⟨Answer.ok_of_sent hq (by omega) (by omega) (by omega) q.header.2, ?_, ?_⟩
  · rw [Answer.got_of_sent hq, UInt64.le_iff_toNat_le,
      UInt64.toNat_ofNat_of_lt' (show _ < 2 ^ 64 by omega)]
    simp
    omega
  · rw [Answer.getD_resp_of_sent hq (by omega) (by omega) (by omega), q.header.1]
    decide

theorem not_attested (hbuffer : (A.pcr 0).buffer.length = 256) : ¬ A.Attested := by
  rintro ⟨-, -, hown, hmeasured⟩
  obtain ⟨r, hr, -⟩ := hown 0
  have hlen := r.length_bytes
  have hok : (A.pcr 0).Ok :=
    Answer.ok_of_sent hr (by omega) (by omega) (by omega) r.header.2
  have hgot : 60 ≤ (A.pcr 0).reply.got := by
    rw [Answer.got_of_sent hr, hlen]
    decide
  have hhead : ((A.pcr 0).pcr (measuredPcr 0)).headD 0 = 0 := by
    rw [Answer.pcr, if_pos ⟨hok, hgot⟩, List.headD_eq_head?_getD, List.head?_take, List.head?_drop]
    simpa using (Answer.getD_resp_of_sent hr (by omega) (by omega : 28 < _) (by omega)).trans
      r.header.1
  rw [hmeasured 0] at hhead
  exact absurd hhead (by decide +kernel)

theorem Conversation.length_buffer (h : Conversation dev t A t') :
    (A.pcr 0).buffer.length = 256 ∧ A.quote.buffer.length = 256 := by
  obtain ⟨_, _, _, h₀, -, -, h₃⟩ := h
  exact ⟨h₀.length_buffer, h₃.length_buffer⟩

theorem Conversation.unique {A' : Answers} {u : Tis σ} (h : Conversation dev t A t')
    (h' : Conversation dev t A' u) : A' = A := by
  obtain ⟨t₀, t₁, t₂, h₀, h₁, h₂, h₃⟩ := h
  obtain ⟨u₀, u₁, u₂, g₀, g₁, g₂, g₃⟩ := h'
  obtain ⟨e₀, rfl⟩ := h₀.unique g₀
  obtain ⟨e₁, rfl⟩ := h₁.unique g₁
  obtain ⟨e₂, rfl⟩ := h₂.unique g₂
  obtain ⟨e₃, -⟩ := h₃.unique g₃
  obtain ⟨pcr, quote⟩ := A
  obtain ⟨pcr', quote'⟩ := A'
  obtain rfl : quote' = quote := e₃
  congr 1
  funext i
  match i with
  | 0 => exact e₀
  | 1 => exact e₁
  | 2 => exact e₂

/-- The check is sound where the TPM is refused, and is not a conforming one. -/
theorem attestationSound_iff {d : σ} :
    AttestationSound dev d ↔
      ∀ s, tpm2Init dev (.powerOn d) = some s →
        ∀ A t, Conversation dev s.tis A t → A.Refused ∧ ¬ A.Conforming := by
  refine forall_congr' fun s => forall_congr' fun hinit => ?_
  have htrue := fun s' => @tpm2VerifyAttestation_eq_true_iff σ dev s s' (pcr_of_tpm2Init hinit)
  constructor
  · rintro ⟨hsound, hlive⟩ A t hconv
    have hrefused : A.Refused := by
      by_contra hacc
      obtain ⟨A', hconv', hatt⟩ := hsound { s with tis := t }
        ((htrue _).mpr ⟨A, hconv, rfl, Answers.accepted_iff.mpr hacc⟩)
      exact not_attested hconv'.length_buffer.1 hatt
    refine ⟨hrefused, fun hconf => ?_⟩
    obtain ⟨s', hs'⟩ := hlive A t hconv hconf
    obtain ⟨A', hconv', -, hacc⟩ := (htrue s').mp hs'
    rw [hconv.unique hconv'] at hacc
    exact Answers.accepted_iff.mp hacc hrefused
  · intro h
    constructor
    · intro s' hs'
      obtain ⟨A, hconv, -, hacc⟩ := (htrue s').mp hs'
      exact absurd (h A _ hconv).1 (Answers.accepted_iff.mp hacc)
    · intro A t hconv hconf
      exact absurd hconf (h A t hconv).2

/-- A conforming TPM is never accepted. -/
theorem tpm2VerifyAttestation_ne_true_of_conforming
    (hpcr : ∀ i : Fin 3, s.pcr (UInt32.ofNat i) = measuredPcr i)
    (hconv : Conversation dev s.tis A t) (hconf : A.Conforming) :
    tpm2VerifyAttestation dev s ≠ some (true, s') := by
  rw [ne_eq, tpm2VerifyAttestation_eq_true_iff hpcr]
  rintro ⟨A', hconv', -, hacc⟩
  rw [hconv.unique hconv'] at hacc
  exact Answers.accepted_iff.mp hacc (hconf.refused hconv.length_buffer.2)

/-! ### Two TPMs -/

theorem pcrExtendCmd_ne_nil (o : Overrun) (i : UInt32) (digest : List UInt8) :
    pcrExtendCmd o i digest ≠ [] := by
  intro hnil
  have hlen := congrArg List.length hnil
  simp only [pcrExtendCmd, List.length_map, List.length_range, List.length_nil] at hlen
  exact o.length_ne_zero _ (UInt64.toNat_inj.mp hlen)

theorem tpm2PcrExtend_of_exchange {i : UInt32} {a : Answer} (data : List UInt8)
    (hdata : data ≠ []) (hi : i < tpmPcrCount)
    (h : ∀ digest, Exchange dev (pcrExtendCmd dev.overrun i digest) 64 s.tis a t) :
    ∃ s', tpm2PcrExtend dev i data s = some (true, s') ∧ s'.tis = t := by
  have hguard : ¬ (tpmPcrCount ≤ i ∨ data = []) := by simp [hi, hdata]
  let pcr := Function.update s.pcr i ((sha512 (s.pcr i ++ sha512 data)).take 32)
  refine ⟨{ s with tis := t, pcr := pcr }, ?_, rfl⟩
  simp only [tpm2PcrExtend, if_neg hguard, tpm2PcrExtendReal, (h _).sendCmd]
  rfl

/-- The measurements never fail, whatever comes of their exchanges. -/
theorem tpm2Init_of_exchanges {a₀ a₁ a₂ : Answer} {t₀ t₁ t₂ t₃ : Tis σ}
    (h : tpm2Connect dev s.tis = some t₀)
    (h₀ : ∀ digest, Exchange dev (pcrExtendCmd dev.overrun 0 digest) 64 t₀ a₀ t₁)
    (h₁ : ∀ digest, Exchange dev (pcrExtendCmd dev.overrun 1 digest) 64 t₁ a₁ t₂)
    (h₂ : ∀ digest, Exchange dev (pcrExtendCmd dev.overrun 2 digest) 64 t₂ a₂ t₃) :
    ∃ s', tpm2Init dev s = some s' ∧ s'.tis = t₃ := by
  obtain ⟨s₁, hs₁, rfl⟩ := tpm2PcrExtend_of_exchange
    (s := { tis := t₀, pcr := fun _ => zeroDigest, initialized := true })
    (asciiBytes "STYX_KERNEL_IMAGE_V2.0") (by decide) (by decide) h₀
  obtain ⟨s₂, hs₂, rfl⟩ := tpm2PcrExtend_of_exchange (s := s₁)
    (asciiBytes "LIMINE_BOOT_CFG_MEASURED") (by decide) (by decide) h₁
  obtain ⟨s₃, hs₃, rfl⟩ := tpm2PcrExtend_of_exchange (s := s₂)
    (asciiBytes "PMM_BITMAP_126MB_LAYOUT") (by decide) (by decide) h₂
  exact ⟨s₃, by simp [tpm2Init, h, hs₁, hs₂, hs₃], rfl⟩

/-- No TPM: its registers are read as zeros. -/
def absentTpm : TpmDevice Unit where
  read8 _ d := (0, d)
  read32 _ d := (0, d)
  write8 _ _ d := d
  uninit _ _ := 0
  overrun := .spare

/-- Without a TPM the check succeeds. -/
theorem not_attestationSound_absentTpm : ¬ AttestationSound absentTpm () := by
  have hexchange : ∀ cmd n, Exchange absentTpm cmd n ⟨false, ()⟩
      ⟨(List.range n).map (absentTpm.uninit ()), none⟩ ⟨false, ()⟩ := fun _ _ => .absent (.inl rfl)
  have hconnect : tpm2Connect absentTpm (Tpm2State.powerOn ()).tis = some ⟨false, ()⟩ := rfl
  obtain ⟨s, hinit, htis⟩ := tpm2Init_of_exchanges hconnect (fun _ => hexchange _ _)
    (fun _ => hexchange _ _) fun _ => hexchange _ _
  let a : Answer := ⟨(List.range 256).map (absentTpm.uninit ()), none⟩
  have hconv : Conversation absentTpm s.tis ⟨fun _ => a, a⟩ ⟨false, ()⟩ := by
    rw [htis]
    exact ⟨_, _, _, hexchange _ _, hexchange _ _, hexchange _ _, hexchange _ _⟩
  have hacc : Answers.Accepted ⟨fun _ => a, a⟩ := by
    refine Answers.accepted_iff.mpr ?_
    rintro (⟨_, hok, -⟩ | ⟨hok, -⟩) <;> cases hok.1
  intro hsound
  obtain ⟨A, hconv', hatt⟩ := (hsound s hinit).1 { s with tis := ⟨false, ()⟩ }
    ((tpm2VerifyAttestation_eq_true_iff (pcr_of_tpm2Init hinit)).mpr ⟨_, hconv, rfl, hacc⟩)
  exact not_attested hconv'.length_buffer.1 hatt

/-- There are TPMs that conform, and the check fails for them. -/
theorem exists_conforming : ∃ (d : List (List UInt8) × List UInt8) (s : Tpm2State _) (A : Answers)
    (t : Tis _), tpm2Init scriptedTpm (.powerOn d) = some s ∧ Conversation scriptedTpm s.tis A t ∧
      A.Conforming := by
  have hlen : ∀ i, (measuredPcr i).length = 32 := by
    intro i
    match i with
    | 0 | 1 | 2 => simp [measuredPcr, measurement]
  let r : List UInt8 := [0x80, 0x01, 0x00, 0x00, 0x00, 0x0A, 0x00, 0x00, 0x00, 0x00]
  let p (i : Fin 3) : PcrReadResponse :=
    ⟨[0, 0, 0, 0], rfl, [0, 0, 0], rfl, measuredPcr i, hlen i⟩
  let q : QuoteResponse :=
    ⟨[], by decide, List.replicate 25 0, rfl, List.replicate 32 0, rfl, [], by decide⟩
  let A : Answers :=
    ⟨fun i => ⟨(List.range 256).map fun _ => 0, some (p i).bytes⟩,
      ⟨(List.range 256).map fun _ => 0, some (q.bytes attestationNonce)⟩⟩
  have hp : ∀ i, (p i).bytes ≠ [] := fun i h => by
    have hbytes := (p i).length_bytes
    rw [h] at hbytes
    cases hbytes
  have hq : q.bytes attestationNonce ≠ [] := fun h => by
    have hbytes := q.length_bytes
    rw [h] at hbytes
    cases hbytes
  let rs := [(p 0).bytes, (p 1).bytes, (p 2).bytes, q.bytes attestationNonce]
  have hconnect :
      tpm2Connect scriptedTpm (Tpm2State.powerOn (r :: r :: r :: r :: r :: rs, [])).tis =
      some ⟨true, (r :: r :: r :: rs, [])⟩ := by
    have hstartup : Exchange scriptedTpm startupCmd 64 ⟨true, (r :: r :: r :: r :: r :: rs, [])⟩ _
        ⟨true, (r :: r :: r :: r :: rs, [])⟩ := exchange_scriptedTpm (by decide) (by decide)
    have hselfTest : Exchange scriptedTpm selfTestCmd 32 ⟨true, (r :: r :: r :: r :: rs, [])⟩ _
        ⟨true, (r :: r :: r :: rs, [])⟩ := exchange_scriptedTpm (by decide) (by decide)
    simp [tpm2Connect, Tpm2State.powerOn, tpmTisInit_scriptedTpm, tpm2Startup, tpm2SelfTest,
      hstartup.sendCmd, hselfTest.sendCmd]
  have hextend : ∀ i digest, pcrExtendCmd scriptedTpm.overrun i digest ≠ [] :=
    pcrExtendCmd_ne_nil scriptedTpm.overrun
  obtain ⟨s, hinit, htis⟩ := tpm2Init_of_exchanges hconnect
    (fun _ => exchange_scriptedTpm (hextend _ _) (by decide))
    (fun _ => exchange_scriptedTpm (hextend _ _) (by decide))
    fun _ => exchange_scriptedTpm (hextend _ _) (by decide)
  refine ⟨_, s, A, ⟨true, ([], [])⟩, hinit, ?_, fun i => ⟨p i, rfl, rfl⟩, q, rfl⟩
  rw [htis]
  exact ⟨_, _, _, exchange_scriptedTpm (by decide) (hp 0), exchange_scriptedTpm (by decide) (hp 1),
    exchange_scriptedTpm (by decide) (hp 2), exchange_scriptedTpm (by decide) hq⟩

end StyxOS.Tpm
