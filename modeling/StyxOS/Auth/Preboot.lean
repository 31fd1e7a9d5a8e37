import StyxOS.Auth.Fido2
import StyxOS.Auth.Lockout

/-! # Unlocking the volume

`auth_preboot` as a machine that takes what its keyboard helper finds, one poll
after another. A volume is unlocked at one boot and then at another one of the same
device, with the challenge that each of them has drawn.
-/

namespace StyxOS

open ByteMem StepSystem

/-! ## The keyboard -/

/-- What `get_char_poll` finds at the serial port or the keyboard. -/
inductive Poll
  | idle
  | serial (c : UInt8)
  | scancode (code : UInt8)

/-- What `get_char_poll` gives. -/
structure Keystroke where
  c : UInt8
  isF2 : Bool
  isSpace : Bool

def Keystroke.nul : Keystroke where
  c := 0
  isF2 := false
  isSpace := false

def scancodeToAsciiNomod : List UInt8 :=
  [0, 27] ++ asciiBytes "1234567890-=" ++ [8, 9] ++ asciiBytes "qwertyuiop[]" ++ [10, 0] ++
    asciiBytes "asdfghjkl;'\x60" ++ [0] ++ asciiBytes "\\zxcvbnm,./" ++ [0] ++ asciiBytes "*" ++
    [0] ++ asciiBytes " "

def scancodeToAsciiShift : List UInt8 :=
  [0, 27] ++ asciiBytes "!@#$%^&*()_+" ++ [8, 9] ++ asciiBytes "QWERTYUIOP\x7b\x7d" ++ [10, 0] ++
    asciiBytes "ASDFGHJKL:\x22~" ++ [0] ++ asciiBytes "|ZXCVBNM<>?" ++ [0] ++ asciiBytes "*" ++
    [0] ++ asciiBytes " "

/-- `get_char_poll`, with its `shift` before and after. -/
def getCharPoll (shift : Bool) : Poll → Keystroke × Bool
  | .idle => (.nul, shift)
  | .serial c =>
    let c := if c = 13 then 10 else c
    ({ c := c, isF2 := false, isSpace := c = 32 ∨ c = 10 }, shift)
  | .scancode code =>
    if code = 0x2A ∨ code = 0x36 then (.nul, true)
    else if code = 0xAA ∨ code = 0xB6 then (.nul, false)
    else if code ≥ 0x80 then (.nul, shift)
    else if code = 0x3C then ({ c := 0, isF2 := true, isSpace := false }, shift)
    else if code = 0x39 then ({ c := 32, isF2 := false, isSpace := true }, shift)
    else
      let table := if shift then scancodeToAsciiShift else scancodeToAsciiNomod
      ({ c := table.getD code.toNat 0, isF2 := false, isSpace := false }, shift)

/-! ## The machine -/

/-- Where `auth_preboot` is, with the password typed so far: at the password, before the emulator is
started, before it is touched, or behind its loop. -/
inductive AuthPhase
  | password (typed : List UInt8)
  | emulator (typed : List UInt8)
  | touch (typed : List UInt8)
  | granted (typed : List UInt8)
  | destroyed
deriving DecidableEq

/-- The machine before its kernel is started. -/
structure Preboot where
  counter : AuthCounter CounterDisk
  authDerivedKey : Bytes 64
  snapshotKey : SnapshotKey
  shift : Bool
  phase : AuthPhase

/-- What is found by a poll, and whether a write to the disk succeeds then. -/
structure AuthInput where
  poll : Poll
  writeOk : Bool

namespace Preboot

variable (cpuid : Cpuid) (challenge : Bytes 32) (m : Preboot) (i : AuthInput)

/-- The lockout, of which the self-destruct does not return, or another round. -/
def next (m : Preboot) : Preboot :=
  { m with phase := if authCounterLocked m.counter then .destroyed else .password [] }

/-- `auth_preboot` up to its loop. -/
def start (buf : Bytes 512) : Preboot :=
  next { m with counter := authCounterInit cpuid.leaf1 buf m.counter }

/-- A failed attempt. -/
def refuse : Preboot := next { m with counter := authCounterIncrement cpuid.leaf1 m.counter }

/-- The access that an attempt with the password and its key gets. The counter is reset after the
encryption is on. -/
def grant (typed : List UInt8) (derivedKey : Bytes 64) : Preboot :=
  let dev := { m.counter.dev with xtsCtx := aes256XtsInit derivedKey.1, encryption := true }
  { m with
    counter := authCounterReset cpuid.leaf1 { m.counter with dev := dev }
    authDerivedKey := derivedKey
    snapshotKey := snapshotSetKey m.snapshotKey (some derivedKey)
    phase := .granted typed }

/-- The end of a round: nothing but the check of the derived key judges the password. -/
def authorize (a : AuthAttempt) : Preboot :=
  match a.derivedKey with
  | none => m.refuse cpuid
  | some derivedKey => m.grant cpuid a.password derivedKey

/-- The key that is found, and the machine with `shift` and the outcome of its next write. -/
def polled : Keystroke × Preboot :=
  ((getCharPoll m.shift i.poll).1,
    { m with
      shift := (getCharPoll m.shift i.poll).2
      counter := { m.counter with dev := { m.counter.dev with writeOk := i.writeOk } } })

/-- The key as it is added to the password. -/
def typeKey (typed : List UInt8) (c : UInt8) : List UInt8 :=
  if c = 8 then typed.dropLast
  else if 32 ≤ c ∧ c ≤ 126 ∧ typed.length < 32 then typed ++ [c]
  else typed

/-- A poll of `auth_preboot`. With no device found, F2 is waited for whether or not it was pressed
at the password. -/
def step : Preboot :=
  let (key, m') := m.polled i
  match m.phase with
  | .password typed =>
    if key.c = 10 then
      if typed.length > 0 then
        if fido2DeviceDetect then
          m'.authorize cpuid ⟨typed, fido2GetAssertion cpuid challenge none⟩
        else { m' with phase := .emulator typed }
      else m'
    else { m' with phase := .password (typeKey typed key.c) }
  | .emulator typed =>
    if key.isF2 ∨ key.isSpace ∨ key.c = 50 ∨ key.c = 10 ∨ key.c = 32 then
      { m' with phase := .touch typed }
    else m'
  | .touch typed =>
    if key.isSpace then
      m'.authorize cpuid ⟨typed, some (fido2EmulateAssertion cpuid challenge none)⟩
    else m'
  | .granted _ | .destroyed => m

/-- The password of the round that ends with the poll. -/
def roundEnd : Option (List UInt8) :=
  match m.phase with
  | .touch typed => if (m.polled i).1.isSpace then some typed else none
  | .password _ | .emulator _ | .granted _ | .destroyed => none

/-! ## One volume -/

/-- The two machines have one key for the volume and one for the snapshots, and what the first one
writes the second one reads. -/
structure SameVolume (vol m : Preboot) : Prop where
  authDerivedKey : m.authDerivedKey = vol.authDerivedKey
  xtsCtx : m.counter.dev.xtsCtx = vol.counter.dev.xtsCtx
  snapshotKey : m.snapshotKey.key = vol.snapshotKey.key
  decoded : ∀ lba b, m.counter.dev.decoded lba (vol.counter.dev.coded lba b) = b

/-- The poll gives access to the volume with its password only, and then under its keys; and a round
with another password is counted as a failed attempt. -/
structure Judged (password : List UInt8) (vol m : Preboot) (i : AuthInput) : Prop where
  accepted : ∀ typed, (∀ before, m.phase ≠ .granted before) →
    (m.step cpuid challenge i).phase = .granted typed →
      typed = password ∧ SameVolume vol (m.step cpuid challenge i)
  counted : ∀ typed ∈ m.roundEnd i, typed ≠ password →
    (m.step cpuid challenge i).counter =
      authCounterIncrement cpuid.leaf1 (m.polled i).2.counter

/-- If a round ends with the poll, its password is the given one and the challenge is the given one
or collides with it, unless the key that is derived is zero. -/
def SameCredentials (first : Bytes 32) (password : List UInt8) (m : Preboot) (i : AuthInput) :
    Prop :=
  ∀ typed ∈ m.roundEnd i,
    uncheckedKey typed (fido2EmulateAssertion cpuid challenge none) = Bytes.zero 64 ∨
      typed = password ∧
        (challenge = first ∨ ChallengesCollide cpuid password challenge first)

/-! ## What a poll does -/

def Typed (m : Preboot) : Prop :=
  ∀ typed, m.phase = .emulator typed ∨ m.phase = .touch typed → typed ≠ []

/-- The machine has been unlocked, by the password and under a key. -/
structure Unlocked (typed : List UInt8) (key : Bytes 64) (m : Preboot) : Prop where
  phase : m.phase = .granted typed
  authDerivedKey : m.authDerivedKey = key
  xtsCtx : m.counter.dev.xtsCtx = aes256XtsInit key.1
  encryption : m.counter.dev.encryption = true
  snapshotKey : m.snapshotKey = { key := deriveSnapshotKey key, keySet := true }

variable {cpuid : Cpuid} {challenge first : Bytes 32} {m vol : Preboot} {i : AuthInput}
  {typed password : List UInt8} {key : Bytes 64}

theorem typed_next : m.next.Typed := by
  intro typed
  rw [next]
  split <;> simp

theorem phase_next_ne : m.next.phase ≠ .granted typed := by
  rw [next]
  split <;> simp

theorem unlocked_grant (cpuid : Cpuid) (m : Preboot) (typed : List UInt8) (key : Bytes 64) :
    Unlocked typed key (m.grant cpuid typed key) := by
  obtain ⟨⟨⟨sectors, present, enc, ctx, readOk, writeOk⟩, count, usbPresent⟩, _, _, _, _⟩ := m
  cases usbPresent <;> cases writeOk <;> exact ⟨rfl, rfl, rfl, rfl, rfl⟩

theorem sameVolume_iff {typed' : List UInt8} {key' : Bytes 64} (hvol : Unlocked typed key vol)
    (hm : Unlocked typed' key' m) : SameVolume vol m ↔ key = key' := by
  constructor
  · intro h
    rw [← hvol.authDerivedKey, ← hm.authDerivedKey, h.authDerivedKey]
  · rintro rfl
    constructor
    · rw [hm.authDerivedKey, hvol.authDerivedKey]
    · rw [hm.xtsCtx, hvol.xtsCtx]
    · rw [hm.snapshotKey, hvol.snapshotKey]
    · intro lba b
      rw [CounterDisk.decoded, CounterDisk.coded, if_pos hm.encryption, if_pos hvol.encryption,
        hm.xtsCtx, hvol.xtsCtx]
      exact Sector.decrypt_encrypt _ _ b

theorem step_of_roundEnd (cpuid : Cpuid) (challenge : Bytes 32) (h : m.roundEnd i = some typed) :
    m.phase = .touch typed ∧ m.step cpuid challenge i =
      (m.polled i).2.authorize cpuid
        ⟨typed, some (fido2EmulateAssertion cpuid challenge none)⟩ := by
  rw [roundEnd] at h
  rw [step]
  cases hphase : m.phase with
  | touch entered =>
    by_cases hspace : (m.polled i).1.isSpace = true
    · simp_all
    · simp_all
  | password _ | emulator _ | granted _ | destroyed => simp [hphase] at h

theorem step_of_roundEnd_none (cpuid : Cpuid) (challenge : Bytes 32) (h : m.roundEnd i = none) :
    (∀ typed, (m.step cpuid challenge i).phase = .granted typed → m.phase = .granted typed) ∧
      (m.Typed → (m.step cpuid challenge i).Typed) := by
  have hphase' : (m.polled i).2.phase = m.phase := rfl
  rw [roundEnd] at h
  rw [step]
  cases hphase : m.phase with
  | password entered =>
    rw [hphase] at hphase'
    dsimp only
    split
    · split
      · rename_i hlen
        simp [fido2DeviceDetect, usbHidInit, Typed, List.ne_nil_of_length_pos hlen]
      · simp [hphase', Typed]
    · simp [Typed]
  | emulator entered =>
    rw [hphase] at hphase'
    dsimp only
    split <;> simp [hphase, hphase', Typed]
  | touch entered =>
    rw [hphase] at hphase'
    by_cases hspace : (m.polled i).1.isSpace = true
    · simp [hphase, hspace] at h
    · simp [hspace, hphase, hphase', Typed]
  | granted _ | destroyed => simp [hphase, Typed]

/-- The round ends without access where the derived key is zero, and otherwise with access. -/
theorem authorize_cases (cpuid : Cpuid) (m : Preboot) (htyped : typed ≠ []) (secret : Bytes 64) :
    (uncheckedKey typed secret = Bytes.zero 64 ∧
        m.authorize cpuid ⟨typed, some secret⟩ = m.refuse cpuid) ∨
      (uncheckedKey typed secret ≠ Bytes.zero 64 ∧
        m.authorize cpuid ⟨typed, some secret⟩ =
          m.grant cpuid typed (uncheckedKey typed secret)) := by
  have hlen : 0 < typed.length := List.length_pos_of_ne_nil htyped
  by_cases hzero : uncheckedKey typed secret = Bytes.zero 64
  · have hkey : (AuthAttempt.mk typed (some secret)).derivedKey = none :=
      Option.eq_none_iff_forall_not_mem.mpr fun key hkey =>
        (authDeriveKey_eq_some_iff.mp hkey).1.2 hzero
    exact .inl ⟨hzero, by rw [authorize, hkey]⟩
  · have hkey : (AuthAttempt.mk typed (some secret)).derivedKey =
        some (uncheckedKey typed secret) := authDeriveKey_eq_some_iff.mpr ⟨⟨hlen, hzero⟩, rfl⟩
    exact .inr ⟨hzero, by rw [authorize, hkey]⟩

/-- The password is typed before it is judged, and access is under the key of the password and the
challenge. -/
structure PrebootInv (cpuid : Cpuid) (challenge : Bytes 32) (m : Preboot) : Prop where
  typed : m.Typed
  unlocked : ∀ typed, m.phase = .granted typed →
    Unlocked typed (uncheckedKey typed (fido2EmulateAssertion cpuid challenge none)) m

theorem PrebootInv.start (buf : Bytes 512) : PrebootInv cpuid challenge (m.start cpuid buf) where
  typed := typed_next
  unlocked _ h := absurd h phase_next_ne

theorem PrebootInv.step (h : PrebootInv cpuid challenge m) :
    PrebootInv cpuid challenge (m.step cpuid challenge i) := by
  cases hround : m.roundEnd i with
  | none =>
    obtain ⟨hgranted, htyped⟩ := step_of_roundEnd_none cpuid challenge hround
    refine ⟨htyped h.typed, fun typed hphase => ?_⟩
    have hstays : m.step cpuid challenge i = m := by
      rw [Preboot.step, hgranted typed hphase]
    rw [hstays]
    exact h.unlocked typed (hgranted typed hphase)
  | some entered =>
    obtain ⟨hphase, hstep⟩ := step_of_roundEnd cpuid challenge hround
    rw [hstep]
    rcases authorize_cases cpuid _ (h.typed entered (.inr hphase)) _ with ⟨-, heq⟩ | ⟨-, heq⟩ <;>
      rw [heq]
    · exact ⟨typed_next, fun _ hgranted => absurd hgranted phase_next_ne⟩
    · constructor
      · intro typed htyped
        simp [grant] at htyped
      · rintro _ ⟨⟩
        exact unlocked_grant _ _ _ _

theorem unlocked_step (hround : m.roundEnd i = some typed) (htyped : typed ≠ [])
    (hkey : uncheckedKey typed (fido2EmulateAssertion cpuid challenge none) ≠ Bytes.zero 64) :
    Unlocked typed (uncheckedKey typed (fido2EmulateAssertion cpuid challenge none))
      (m.step cpuid challenge i) := by
  rw [(step_of_roundEnd cpuid challenge hround).2]
  rcases authorize_cases cpuid _ htyped _ with ⟨hzero, -⟩ | ⟨-, heq⟩
  · exact absurd hzero hkey
  · rw [heq]
    exact unlocked_grant _ _ _ _

/-! ## Two boots -/

theorem judged_iff (hvol : Unlocked password (uncheckedKey password
    (fido2EmulateAssertion cpuid first none)) vol) (htyped : m.Typed) :
    Judged cpuid challenge password vol m i ↔
      SameCredentials cpuid challenge first password m i := by
  cases hround : m.roundEnd i with
  | none =>
    refine iff_of_true ⟨?_, ?_⟩ ?_
    · intro typed hbefore hphase
      exact absurd ((step_of_roundEnd_none cpuid challenge hround).1 typed hphase) (hbefore typed)
    · simp [hround]
    · simp [SameCredentials, hround]
  | some entered =>
    obtain ⟨hphase, hstep⟩ := step_of_roundEnd cpuid challenge hround
    rw [SameCredentials, hround]
    simp only [Option.mem_some_iff, forall_eq']
    rcases authorize_cases cpuid (m.polled i).2 (htyped entered (.inr hphase))
      (fido2EmulateAssertion cpuid challenge none) with ⟨hzero, heq⟩ | ⟨hzero, heq⟩
    · refine iff_of_true ⟨?_, ?_⟩ (.inl hzero)
      · intro typed _ hgranted
        rw [hstep, heq] at hgranted
        exact absurd hgranted phase_next_ne
      · intro _ _ _
        rw [hstep, heq]
        rfl
    · have hsame := sameVolume_iff hvol (unlocked_grant cpuid (m.polled i).2 entered
        (uncheckedKey entered (fido2EmulateAssertion cpuid challenge none)))
      rw [← heq, ← hstep] at hsame
      rw [or_iff_right hzero, ← uncheckedKey_assertion_eq_iff]
      constructor
      · intro h
        obtain ⟨rfl, hvolume⟩ := h.accepted entered (by simp [hphase]) (by rw [hstep, heq]; rfl)
        exact ⟨rfl, (hsame.mp hvolume).symm⟩
      · rintro ⟨rfl, hkey⟩
        constructor
        · intro typed _ hgranted
          rw [hstep, heq] at hgranted
          obtain ⟨⟩ := hgranted
          exact ⟨rfl, hsame.mpr hkey.symm⟩
        · intro typed htyped' hne
          rw [hround] at htyped'
          exact absurd (Option.mem_some_iff.mp htyped').symm hne

end Preboot

open Preboot

/-- Once a boot has unlocked the volume, another boot on the same processor judges every poll as it
should if and only if every round that ends there, those with the zero key apart, has the password
of the first boot and its challenge or one that collides with it. -/
theorem volume_keyed_iff (cpuid : Cpuid) (first challenge : Bytes 32) (m₁ m₂ : Preboot)
    (buf₁ buf₂ : Bytes 512) (is₁ is₂ : List AuthInput) (password : List UInt8)
    (hunlocked : (run (Preboot.step cpuid first) (m₁.start cpuid buf₁) is₁).phase =
      .granted password) :
    AllSteps (Preboot.step cpuid challenge)
        (Judged cpuid challenge password (run (Preboot.step cpuid first) (m₁.start cpuid buf₁) is₁))
        (m₂.start cpuid buf₂) is₂ ↔
      AllSteps (Preboot.step cpuid challenge) (SameCredentials cpuid challenge first password)
        (m₂.start cpuid buf₂) is₂ := by
  have hvol := (run_invariant_of_forall (Preboot.step cpuid first)
    (fun _ _ h => PrebootInv.step h) (PrebootInv.start buf₁) is₁).unlocked password hunlocked
  exact allSteps_congr (Preboot.step cpuid challenge) (I := PrebootInv cpuid challenge)
    (fun _ _ h => judged_iff hvol h.typed) (fun _ _ h _ => h.step) (.start buf₂) is₂

/-! ## Two boots with one password -/

/-- A machine without a disk, when it is switched on. -/
def switchedOn : Preboot where
  counter :=
    { dev :=
        { sectors := fun _ => Bytes.zero 512
          present := false
          encryption := false
          xtsCtx := aes256XtsInit []
          readOk := true
          writeOk := true }
      count := 0
      usbPresent := false }
  authDerivedKey := Bytes.zero 64
  snapshotKey := SnapshotKey.image
  shift := false
  phase := .password []

def someCpuid : Cpuid where
  leaf1 := ⟨0x000906EA, 0xBFEBFBFF⟩
  ebx := 0x00100800
  ecx := 0x7FFAFBBF
  vendorEbx := 0x756E6547
  vendorEcx := 0x6C65746E
  vendorEdx := 0x49656E69

def overSerial (c : UInt8) : AuthInput where
  poll := .serial c
  writeOk := true

/-- A password of one letter and the start of the emulator. -/
def oneLetter : List AuthInput := [overSerial 97, overSerial 13, overSerial 32]

def zeroChallenge : Bytes 32 := Bytes.zero 32

def oneChallenge : Bytes 32 := Bytes.ofList 32 [1]

/-- A boot up to the touch of the emulator. -/
def bootToTouch (challenge : Bytes 32) : Preboot :=
  run (Preboot.step someCpuid challenge) (switchedOn.start someCpuid (Bytes.zero 512)) oneLetter

/-- A boot with the password `a`. -/
def boot (challenge : Bytes 32) : Preboot :=
  run (Preboot.step someCpuid challenge) (switchedOn.start someCpuid (Bytes.zero 512))
    (oneLetter ++ [overSerial 32])

theorem boot_eq (challenge : Bytes 32) :
    boot challenge = (bootToTouch challenge).step someCpuid challenge (overSerial 32) := by
  rw [boot, run_append, run_cons, run_nil, bootToTouch]

def bootKey (challenge : Bytes 32) : Bytes 64 :=
  uncheckedKey [97] (fido2EmulateAssertion someCpuid challenge none)

theorem deriveDeviceFingerprint_someCpuid : deriveDeviceFingerprint someCpuid =
    beBytes 32 0x35440405d3edc0b03be237c3d6385bd64024e8b50c8b947cb9a61e5b345ef9f2 ++
      beBytes 32 0xeca03a2e2a19ff18b4efc44ed454efabab1b6e4423a3e9639c23fecb75d62ead := by
  decide +kernel

-- The derivation is evaluated one hash after another, so that no single evaluation is large.
theorem head_bootKey_zeroChallenge : (bootKey zeroChallenge).1.head? = some 133 := by
  have hprivate : privateKey someCpuid zeroChallenge none =
      beBytes 32 0x1c42f81cd8bfa73f69c9462a50b28815b3040ea8c5d1101046d9af7399a80502 ++
        beBytes 32 0xc275dbefcab92187b02c40b71165444b34888adb52003b6f6965b2437a87265e := by
    rw [privateKey, deriveDeviceFingerprint_someCpuid]
    decide +kernel
  have hsecret : (fido2EmulateAssertion someCpuid zeroChallenge none).1 =
      beBytes 32 0x9092ecd842ff2c4dcae2fa4107770d263a3a5c92505cf543f82fe4e108c812a5 ++
        beBytes 32 0xac927153b7521e5ecdb074d3b17330e6c0f4f9e5545b3a6794147d4618cacadf := by
    rw [fido2EmulateAssertion]
    dsimp only
    rw [hprivate]
    decide +kernel
  rw [bootKey, uncheckedKey]
  dsimp only
  rw [authPrk, hsecret]
  decide +kernel

theorem head_bootKey_oneChallenge : (bootKey oneChallenge).1.head? = some 172 := by
  have hprivate : privateKey someCpuid oneChallenge none =
      beBytes 32 0x37be7d844fae5a33885d0c251731a69253c36d97e24fb475f387c938a4dfa6c3 ++
        beBytes 32 0xd7b5b24e2d52c876b6835130edc9ff38c8e5e8687f32963faf8b4276ccb7ff40 := by
    rw [privateKey, deriveDeviceFingerprint_someCpuid]
    decide +kernel
  have hsecret : (fido2EmulateAssertion someCpuid oneChallenge none).1 =
      beBytes 32 0x6f2ff5c75f0ed918b5a08b10c0fd49b4c3523b25a5e32abd6a251678f6cf45ee ++
        beBytes 32 0x16e4d55f9c8f69f489bbeb1ec8a4a136d440b74c89cfac058105d11091108695 := by
    rw [fido2EmulateAssertion]
    dsimp only
    rw [hprivate]
    decide +kernel
  rw [bootKey, uncheckedKey]
  dsimp only
  rw [authPrk, hsecret]
  decide +kernel

theorem roundEnd_bootToTouch :
    (bootToTouch zeroChallenge).roundEnd (overSerial 32) = some [97] ∧
      (bootToTouch oneChallenge).roundEnd (overSerial 32) = some [97] := by decide +kernel

theorem unlocked_boot {challenge : Bytes 32}
    (hround : (bootToTouch challenge).roundEnd (overSerial 32) = some [97])
    (hhead : (bootKey challenge).1.head? ≠ some 0) :
    Unlocked [97] (bootKey challenge) (boot challenge) := by
  rw [boot_eq]
  refine unlocked_step hround (by decide) fun hzero => hhead ?_
  rw [bootKey, hzero]
  rfl

theorem unlocked_zeroChallenge : Unlocked [97] (bootKey zeroChallenge) (boot zeroChallenge) :=
  unlocked_boot roundEnd_bootToTouch.1 (by rw [head_bootKey_zeroChallenge]; decide)

theorem unlocked_oneChallenge : Unlocked [97] (bootKey oneChallenge) (boot oneChallenge) :=
  unlocked_boot roundEnd_bootToTouch.2 (by rw [head_bootKey_oneChallenge]; decide)

theorem volume_keyed_iff_firstBoot :
    (boot zeroChallenge).phase = .granted [97] ∧
      AllSteps (Preboot.step someCpuid zeroChallenge)
        (Judged someCpuid zeroChallenge [97] (boot zeroChallenge))
        (switchedOn.start someCpuid (Bytes.zero 512)) (oneLetter ++ [overSerial 32]) := by
  have hrounds : AllSteps (Preboot.step someCpuid zeroChallenge)
      (fun m i => m.roundEnd i = none ∨ m.roundEnd i = some [97])
      (switchedOn.start someCpuid (Bytes.zero 512)) (oneLetter ++ [overSerial 32]) := by
    decide +kernel
  refine ⟨unlocked_zeroChallenge.phase, (volume_keyed_iff someCpuid zeroChallenge zeroChallenge
    switchedOn switchedOn (Bytes.zero 512) (Bytes.zero 512) (oneLetter ++ [overSerial 32])
    (oneLetter ++ [overSerial 32]) [97] unlocked_zeroChallenge.phase).mpr ?_⟩
  refine allSteps_of_allSteps _ (I := fun _ => True) ?_ (fun _ _ _ _ => trivial) trivial hrounds
  rintro m i - hround typed htyped
  rcases hround with hround | hround <;> rw [hround] at htyped
  · cases htyped
  · exact .inr ⟨(Option.mem_some_iff.mp htyped).symm, .inl rfl⟩

/-- After a boot with another challenge the same password gives another key. -/
theorem volume_not_keyed :
    ¬ ∀ (cpuid : Cpuid) (first challenge : Bytes 32) (m₁ m₂ : Preboot) (buf₁ buf₂ : Bytes 512)
      (is₁ is₂ : List AuthInput) (password : List UInt8),
      (run (Preboot.step cpuid first) (m₁.start cpuid buf₁) is₁).phase = .granted password →
      AllSteps (Preboot.step cpuid challenge)
        (Judged cpuid challenge password (run (Preboot.step cpuid first) (m₁.start cpuid buf₁) is₁))
        (m₂.start cpuid buf₂) is₂ := by
  intro h
  have hjudged := (allSteps_iff_forall _).mp (h someCpuid zeroChallenge oneChallenge switchedOn
    switchedOn (Bytes.zero 512) (Bytes.zero 512) (oneLetter ++ [overSerial 32])
    (oneLetter ++ [overSerial 32]) [97] unlocked_zeroChallenge.phase) oneLetter (overSerial 32) []
    rfl
  have htouch : ∀ before, (bootToTouch oneChallenge).phase ≠ .granted before := by
    simp [(step_of_roundEnd someCpuid oneChallenge roundEnd_bootToTouch.2).1]
  have hsecond := unlocked_oneChallenge
  rw [boot_eq] at hsecond
  obtain ⟨-, hsame⟩ := hjudged.accepted [97] htouch hsecond.phase
  have hhead := congrArg (fun key => key.1.head?)
    ((sameVolume_iff unlocked_zeroChallenge hsecond).mp hsame)
  rw [head_bootKey_zeroChallenge, head_bootKey_oneChallenge] at hhead
  exact absurd hhead (by decide)

end StyxOS
