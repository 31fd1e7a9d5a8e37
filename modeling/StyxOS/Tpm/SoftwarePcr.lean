import StyxOS.Library.Run
import StyxOS.Library.Sha256
import StyxOS.Tpm.Attestation

/-! # The software copy of the PCRs

`tpm.c` keeps a copy of the PCRs beside those of the TPM, and hands out the copy
where the TPM does not answer. Commands and responses are taken as delivered: the
TPM extends its PCRs by what it is sent, and a read that it answers is right.
-/

namespace StyxOS.Tpm

open ByteMem StepSystem

/-! ### Both copies -/

/-- The PCRs of `g_tpm2_state` and those of the TPM. -/
structure Pcrs where
  soft : UInt32 → List UInt8
  hard : UInt32 → List UInt8

/-- The arguments of a call of `tpm2_pcr_extend`. -/
structure ExtendCall where
  pcrIndex : UInt32
  data : List UInt8

/-- What the TPM makes of `PCR_Extend`, of which 32 bytes are the digest. -/
def tpmExtend (pcr : UInt32 → List UInt8) (i : UInt32) (digest : List UInt8) :
    UInt32 → List UInt8 :=
  Function.update pcr i (Sha256.hash (pcr i ++ digest.take 32))

namespace ExtendCall

variable (c : ExtendCall) (pcr : UInt32 → List UInt8)

def Accepted : Prop := c.pcrIndex < tpmPcrCount ∧ c.data ≠ []

instance : Decidable c.Accepted := inferInstanceAs (Decidable (_ ∧ _))

def extendedDigest : List UInt8 := sha512 (pcr c.pcrIndex ++ sha512 c.data)

/-- `tpm2_pcr_extend` as far as the copy goes. -/
def soften : UInt32 → List UInt8 :=
  if c.Accepted then Function.update pcr c.pcrIndex ((c.extendedDigest pcr).take 32) else pcr

/-- The new value of the copy is what SHA-256 makes of the old value and the new one. -/
def Fixed : Prop :=
  c.Accepted →
    Sha256.hash (pcr c.pcrIndex ++ (c.extendedDigest pcr).take 32) = (c.extendedDigest pcr).take 32

end ExtendCall

namespace Pcrs

variable (s : Pcrs)

/-- All PCRs of a machine that is reset. -/
def reset : Pcrs where
  soft _ := zeroDigest
  hard _ := zeroDigest

/-- `tpm2_pcr_extend`: the TPM is sent the value that its copy has been extended to. -/
def extend (c : ExtendCall) : Pcrs :=
  if c.Accepted then
    { soft := Function.update s.soft c.pcrIndex ((c.extendedDigest s.soft).take 32)
      hard := tpmExtend s.hard c.pcrIndex (c.extendedDigest s.soft) }
  else s

/-- `tpm2_get_pcr`, over what its output buffer holds, by whether the TPM answers the read. -/
def get (answered : Bool) (i : UInt32) (out : List UInt8) : List UInt8 :=
  if tpmPcrCount ≤ i then out else if answered then s.hard i else s.soft i

end Pcrs

/-! ### What the PCRs are read for -/

def wordlist : List String :=
  ["AEGIS", "ARGON", "AURORA", "BEACON", "CIPHER", "COBALT", "CRIMSON", "CRYPTO",
    "CYBER", "DAWN", "ECHO", "ECLIPSE", "EMERALD", "FALCON", "FORGE", "FROST",
    "GENESIS", "GLACIER", "GRID", "HALO", "HELIOS", "HYDRA", "IGNEOUS", "INFINITY",
    "IRIS", "JADE", "KINETIC", "LEGION", "LUNAR", "MATRIX", "NEBULA", "NEXUS",
    "NOVA", "OBSIDIAN", "ODYSSEY", "OMEGA", "ONYX", "ORION", "PHANTOM", "PHOENIX",
    "PULSE", "QUANTUM", "QUARTZ", "RADIAN", "RUBY", "SAPPHIRE", "SENTINEL", "SHADOW",
    "SHIELD", "SPECTRE", "STEALTH", "STORM", "STYX", "TITAN", "TORRENT", "VALKYRIE",
    "VECTOR", "VERITAS", "VIPER", "VORTEX", "ZENITH", "ZEPHYR", "ZERO", "ZODIAC"]

/-- `tpm_visual_seal_t`. -/
structure VisualSeal where
  word1 : String
  word2 : String
  word3 : String
  color1 : UInt32
  color2 : UInt32
  color3 : UInt32
  color4 : UInt32
deriving DecidableEq, Repr

/-- `tpm_visual_derive_seal`, from what it reads of PCR 0 and 1. -/
def tpmVisualDeriveSeal (pcr0 pcr1 : List UInt8) : VisualSeal :=
  let word (k : ℕ) := wordlist.getD ((pcr0.getD k 0).toNat % 64) ""
  let color (k : ℕ) := (0xFF000000 : UInt32) ||| (pcr1.getD k 0).toUInt32 <<< 16 |||
    (pcr1.getD (k + 1) 0).toUInt32 <<< 8 ||| (pcr1.getD (k + 2) 0).toUInt32
  { word1 := word 0
    word2 := word 1
    word3 := word 2
    color1 := color 0
    color2 := color 3
    color3 := color 6
    color4 := color 9 }

/-- The first test of `tpm2_verify_attestation`: no PCR of the boot is unmeasured. -/
def bootMeasured (pcr : UInt32 → List UInt8) : Bool :=
  !(pcr 0 == zeroDigest || pcr 1 == zeroDigest || pcr 2 == zeroDigest)

namespace Pcrs

variable (s : Pcrs)

/-- It does not matter which reads the TPM answers. -/
structure Independent : Prop where
  pcr : ∀ a b i out, s.get a i out = s.get b i out
  visual : ∀ (a b : UInt32 → Bool) out,
    tpmVisualDeriveSeal (s.get (a 0) 0 out) (s.get (a 1) 1 out) =
      tpmVisualDeriveSeal (s.get (b 0) 0 out) (s.get (b 1) 1 out)
  attestation : ∀ (a b : UInt32 → Bool) out,
    bootMeasured (fun i => s.get (a i) i out) = bootMeasured fun i => s.get (b i) i out

variable {s}

theorem independent_iff : s.Independent ↔ ∀ i < tpmPcrCount, s.hard i = s.soft i := by
  have hpcr : (∀ a b i out, s.get a i out = s.get b i out) ↔
      ∀ i < tpmPcrCount, s.hard i = s.soft i := by
    constructor
    · rintro h i hi
      simpa [get, UInt32.not_le.mpr hi] using h true false i []
    · intro h a b i out
      by_cases hi : tpmPcrCount ≤ i
      · simp [get, hi]
      · cases a <;> cases b <;> simp [get, hi, h i (UInt32.not_le.mp hi)]
  constructor
  · rintro ⟨h, -, -⟩
    exact hpcr.mp h
  · intro h
    have hget := hpcr.mpr h
    refine ⟨hget, fun a b out => ?_, fun a b out => ?_⟩
    · rw [hget (a 0) (b 0), hget (a 1) (b 1)]
    · exact congrArg bootMeasured (funext fun i => hget (a i) (b i) i out)

theorem soft_extend (s : Pcrs) (c : ExtendCall) : (s.extend c).soft = c.soften s.soft := by
  unfold extend ExtendCall.soften
  split <;> rfl

theorem Independent.extend_iff (h : s.Independent) (c : ExtendCall) :
    (s.extend c).Independent ↔ c.Fixed s.soft := by
  rw [independent_iff] at h ⊢
  by_cases hc : c.Accepted
  · rw [extend, if_pos hc]
    dsimp only
    constructor
    · rintro hagree -
      have hi := hagree c.pcrIndex hc.1
      rwa [tpmExtend, Function.update_self, Function.update_self, h _ hc.1] at hi
    · intro hfixed i hi
      by_cases heq : i = c.pcrIndex
      · subst heq
        rw [tpmExtend, Function.update_self, Function.update_self, h _ hc.1, hfixed hc]
      · rw [tpmExtend, Function.update_of_ne heq, Function.update_of_ne heq, h i hi]
  · rw [extend, if_neg hc]
    exact ⟨fun _ hc' => absurd hc' hc, fun _ => h⟩

theorem independent_reset : reset.Independent := independent_iff.mpr fun _ _ => rfl

end Pcrs

/-! ### Over a TPM behind its registers -/

section

variable {σ : Type*} {dev : TpmDevice σ} {s s' : Tpm2State σ}

def extendAll (dev : TpmDevice σ) (s : Tpm2State σ) (calls : List ExtendCall) :
    Option (Tpm2State σ) :=
  calls.foldlM (fun s c => (tpm2PcrExtend dev c.pcrIndex c.data s).map Prod.snd) s

/-- Whatever TPM there is, the copy is extended as it is beside one that answers. -/
theorem pcr_of_extendAll {calls : List ExtendCall} (h : extendAll dev s calls = some s')
    {p : Pcrs} (hp : s.pcr = p.soft) : s'.pcr = (run Pcrs.extend p calls).soft := by
  induction calls generalizing s p with
  | nil => cases h; exact hp
  | cons c calls ih =>
    obtain ⟨t, ht, hrest⟩ := Option.bind_eq_some_iff.mp h
    obtain ⟨⟨ok, t⟩, hext, rfl⟩ := Option.map_eq_some_iff.mp ht
    refine ih hrest ?_
    rw [Pcrs.soft_extend, ExtendCall.soften, ← hp]
    split
    · next hc => exact pcr_of_tpm2PcrExtend hext hc.1 hc.2
    · next hc =>
      have hguard : tpmPcrCount ≤ c.pcrIndex ∨ c.data = [] := by
        rwa [ExtendCall.Accepted, not_and_or, UInt32.not_lt, ne_eq, not_not] at hc
      rw [tpm2PcrExtend, if_pos hguard] at hext
      cases hext
      rfl

end

/-! ### The two chains -/

/-- After a reset, in every state that a run of extends reaches, it does not matter which reads the
TPM answers, just when every extend of the run is at a fixed point. -/
theorem software_pcrs_iff (calls : List ExtendCall) :
    (∀ pre, pre <+: calls → (run Pcrs.extend .reset pre).Independent) ↔
      AllSteps (fun pcr (c : ExtendCall) => c.soften pcr) (fun pcr c => c.Fixed pcr)
        (fun _ => zeroDigest) calls := by
  rw [forall_prefix_iff Pcrs.extend Pcrs.independent_reset]
  refine (allSteps_congr Pcrs.extend (I := Pcrs.Independent)
    (fun _ c hs => hs.extend_iff c) (fun _ c hs => (hs.extend_iff c).mpr)
    Pcrs.independent_reset calls).trans ?_
  exact allSteps_hom Pcrs.extend (R := fun pcr c => c.Fixed pcr) Pcrs.soft_extend

/-- The first measurement of the boot takes the copies apart. -/
theorem not_software_pcrs :
    ¬ ∀ calls pre, pre <+: calls → (run Pcrs.extend .reset pre).Independent := by
  intro h
  let calls : List ExtendCall := [⟨0, asciiBytes "STYX_KERNEL_IMAGE_V2.0"⟩]
  have hread := (h calls calls (List.prefix_refl _)).pcr true false 0 []
  revert hread
  decide +kernel

end StyxOS.Tpm
