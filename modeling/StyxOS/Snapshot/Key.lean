import StyxOS.Crypto.Sha512
import StyxOS.Library.Run
import StyxOS.Snapshot.Nonce
import StyxOS.Snapshot.Restore

/-! # Where the snapshot key comes from

The key is a global of `snapshot.c` that authentication installs and the
initialisation of the snapshot system clears, with a flag that tells whether it
is installed. A save and a restore use whatever the global holds and do not look
at the flag, so that the key comes from authentication exactly where the flag
happens to be set.
-/

namespace StyxOS

open ByteMem StepSystem

/-- What a call of the snapshot system does with its key and the block store. -/
inductive SnapshotEvent
  | encrypt (key : List UInt8)
  | decrypt (key : List UInt8)
  | oramRead (lba : ℕ)
  | oramWrite (lba : ℕ) (sector : Bytes 512)

/-! ## The calls -/

/-- `snapshot_save` over accesses that may fail: the code and what it does on the way. -/
def saveCalls (fate : ℕ → Bool) (allocated : Bool) (cpuid : CpuidFeatures) (s : RamSession) :
    ℤ × List SnapshotEvent :=
  let (rc, _, blocks) := sealSession fate allocated cpuid s
  (rc, blocks.flatMap fun x =>
    [.encrypt s.snapshotKey, .oramWrite x.1 (packSector s.gcmCtx x.1 s.sequence x.2)])

/-- The read and verify loop over the given addresses, where the access `k` fails if the store has
no such address or `fate` says so. -/
def openAll (fate : ℕ → Bool) (key : List UInt8) (o : Oram) :
    ℕ → List ℕ → Bool × List SnapshotEvent
  | _, [] => (true, [])
  | k, lba :: lbas =>
    if lba < oramNumLeaves ∧ fate k then
      match openSector (aesGcmInit key) (o lba) with
      | none => (false, [.oramRead lba, .decrypt key])
      | some _ =>
        let (opened, events) := openAll fate key o (k + 1) lbas
        (opened, .oramRead lba :: .decrypt key :: events)
    else (false, [.oramRead lba])

/-- `snapshot_restore` over accesses that may fail: the code and what it does on the way. -/
def restoreCalls (fate : ℕ → Bool) (allocated : Bool) (s : RamSession) :
    ℤ × List SnapshotEvent :=
  if fate 0 then
    match openSector s.gcmCtx (s.oram 0) with
    | none => (-1, [.oramRead 0, .decrypt s.snapshotKey])
    | some header =>
      let info := Layout.headerInfo.decode header.1
      if info.magic ≠ snapshotMagic ∨ info.version ≠ snapshotVersion then
        (-1, [.oramRead 0, .decrypt s.snapshotKey])
      else if !allocated then (-1, [.oramRead 0, .decrypt s.snapshotKey])
      else
        let (opened, events) :=
          openAll fate s.snapshotKey s.oram 1 (List.range' 1 info.totalSectors.toNat)
        (if opened then 0 else -1, .oramRead 0 :: .decrypt s.snapshotKey :: events)
  else (-1, [.oramRead 0])

section

variable {fate : ℕ → Bool} {allocated : Bool} {cpuid : CpuidFeatures} {s : RamSession}

theorem saveCalls_true :
    (saveCalls (fun _ => true) allocated cpuid s).1 = (snapshotSave allocated cpuid s).1 :=
  sealSession_true.1

theorem openAll_true (key : List UInt8) (o : Oram) (k : ℕ) (lbas : List ℕ) :
    (openAll (fun _ => true) key o k lbas).1 = (readBlocks (aesGcmInit key) o lbas).isSome := by
  induction lbas generalizing k with
  | nil => rfl
  | cons lba lbas ih =>
    rw [openAll, readBlocks, oramRead]
    by_cases hlba : lba < oramNumLeaves
    · rw [if_pos ⟨hlba, rfl⟩, if_pos hlba, Option.bind_some]
      cases openSector (aesGcmInit key) (o lba) with
      | none => rfl
      | some block =>
        dsimp only
        rw [ih, Option.isSome_map]
    · rw [if_neg fun h => hlba h.1, if_neg hlba]
      rfl

/-- Without failures it is `snapshot_restore`. -/
theorem restoreCalls_true (env : RestoreEnv) :
    (restoreCalls (fun _ => true) env.allocated s).1 = (snapshotRestore env s).1 := by
  have hread : oramRead s.oram 0 = some (s.oram 0) := if_pos (by decide)
  rw [restoreCalls, snapshotRestore, readImage, hread, Option.bind_some, if_pos rfl]
  cases openSector s.gcmCtx (s.oram 0) with
  | none => rfl
  | some header =>
    dsimp only
    split
    · rfl
    · have hopen := openAll_true s.snapshotKey s.oram 1
        (List.range' 1 (Layout.headerInfo.decode header.1).totalSectors.toNat)
      rw [RamSession.gcmCtx]
      cases hblocks : readBlocks (aesGcmInit s.snapshotKey) s.oram
          (List.range' 1 (Layout.headerInfo.decode header.1).totalSectors.toNat) <;>
        cases env.allocated <;> simp_all

end

/-! ## The key -/

/-- The key derivation of `auth_preboot` from the password and the secret of the FIDO2 device, with
the check of what it gives. -/
def authDeriveKey (password : List UInt8) (fido2Secret : Bytes 64) : Option (Bytes 64) :=
  let prk := hkdfSha512Extract (asciiBytes "styxos-salt") (password ++ fido2Secret.1)
  let derivedKey : Bytes 64 :=
    ⟨hkdfSha512Expand prk (asciiBytes "styxos-key") 64, length_hkdfSha512Expand _ _ _⟩
  if password.length > 0 ∧ derivedKey ≠ Bytes.zero 64 then some derivedKey else none

/-- A round of the loop of `auth_preboot`: the password, and the secret where the FIDO2 phase
succeeds. -/
structure AuthAttempt where
  password : List UInt8
  fido2Secret : Option (Bytes 64)

def AuthAttempt.derivedKey (a : AuthAttempt) : Option (Bytes 64) :=
  a.fido2Secret.bind (authDeriveKey a.password)

/-- `g_snapshot_key` and `g_snapshot_key_set`. -/
structure SnapshotKey where
  key : Bytes 32
  keySet : Bool

/-- The key that `snapshot_set_key` derives. -/
def deriveSnapshotKey (authDerivedKey : Bytes 64) : Bytes 32 :=
  let prk := hkdfSha512Extract (authDerivedKey.1.take 32) (authDerivedKey.1.drop 32)
  ⟨hkdfSha512Expand prk (asciiBytes "styxos-snapshot-key-v1") 32, length_hkdfSha512Expand _ _ _⟩

/-- `snapshot_set_key`, where the argument may be NULL. -/
def snapshotSetKey (k : SnapshotKey) : Option (Bytes 64) → SnapshotKey
  | none => k
  | some authDerivedKey => { key := deriveSnapshotKey authDerivedKey, keySet := true }

/-- `snapshot_init`, apart from `oram_init`. -/
def snapshotInit : SnapshotKey := { key := Bytes.zero 32, keySet := false }

def snapshotZeroKey : SnapshotKey := { key := Bytes.zero 32, keySet := false }

/-- What happens to the snapshot system. A save and a restore find whatever tasks, pages, sequence
number and blocks there are by then, with the outcomes of their accesses and their allocation. -/
inductive KeyOp
  /-- The machine is started. -/
  | powerOn
  | authPreboot (a : AuthAttempt)
  | snapshotInit
  | snapshotZeroKey
  | save (content : RamSession) (fate : ℕ → Bool) (allocated : Bool) (cpuid : CpuidFeatures)
  | restore (content : RamSession) (fate : ℕ → Bool) (allocated : Bool)

namespace SnapshotKey

/-- The session that a call finds: the contents, under the key there is. -/
def before (k : SnapshotKey) (content : RamSession) : RamSession :=
  { content with snapshotKey := k.key.1 }

def step (k : SnapshotKey) : KeyOp → SnapshotKey
  | .powerOn => { key := Bytes.zero 32, keySet := false }
  | .authPreboot a =>
    match a.derivedKey with
    | none => k
    | some derivedKey => snapshotSetKey k (some derivedKey)
  | .snapshotInit => StyxOS.snapshotInit
  | .snapshotZeroKey => StyxOS.snapshotZeroKey
  | .save _ _ _ _ | .restore _ _ _ => k

/-- The code and the events of a save or a restore. -/
def calls (k : SnapshotKey) : KeyOp → Option (ℤ × List SnapshotEvent)
  | .save content fate allocated cpuid => some (saveCalls fate allocated cpuid (k.before content))
  | .restore content fate allocated => some (restoreCalls fate allocated (k.before content))
  | .powerOn | .authPreboot _ | .snapshotInit | .snapshotZeroKey => none

/-- The globals of a kernel image. -/
def image : SnapshotKey := { key := Bytes.zero 32, keySet := false }

/-- The key, where the flag says that it is installed. -/
def installed (k : SnapshotKey) : Option (Bytes 32) := if k.keySet then some k.key else none

end SnapshotKey

/-- The key that the last successful authentication has given, as long as no other operation has
taken it away: what is meant to be installed after an operation. -/
def nextKey (key : Option (Bytes 32)) : KeyOp → Option (Bytes 32)
  | .authPreboot a => (a.derivedKey.map deriveSnapshotKey).or key
  | .powerOn | .snapshotInit | .snapshotZeroKey => none
  | .save _ _ _ _ | .restore _ _ _ => key

def authenticatedKey (ops : List KeyOp) : Option (Bytes 32) := run nextKey none ops

theorem SnapshotKey.installed_run (ops : List KeyOp) :
    (run step image ops).installed = authenticatedKey ops := by
  refine run_hom step ?_ image ops
  intro k op
  cases op with
  | authPreboot a =>
    rw [step, nextKey]
    cases a.derivedKey <;> rfl
  | powerOn | snapshotInit | snapshotZeroKey => rfl
  | save _ _ _ _ | restore _ _ _ => rfl

/-! ## Keys from authentication -/

/-- The event is one under the key: ciphers run with it, and what is stored is sealed with it. -/
def SnapshotEvent.Under (key : List UInt8) : SnapshotEvent → Prop
  | .encrypt k | .decrypt k => k = key
  | .oramRead _ => True
  | .oramWrite lba sector =>
    ∃ sequence block, sector = packSector (aesGcmInit key) lba sequence block

/-- With a key, all is done under it; without one, the call fails and does nothing. -/
def KeyedBy : Option (Bytes 32) → ℤ × List SnapshotEvent → Prop
  | some key, r => ∀ e ∈ r.2, e.Under key.1
  | none, r => r = (-1, [])

/-- The operation, after those before it, uses the key from authentication. -/
def KeyFromAuthentication (pre : List KeyOp) (op : KeyOp) : Prop :=
  ∀ r ∈ (run SnapshotKey.step SnapshotKey.image pre).calls op, KeyedBy (authenticatedKey pre) r

/-- The operation comes to use the key: a restore always, a save if it has its buffer. -/
def KeyOp.UsesKey : KeyOp → Prop
  | .save _ _ allocated _ => allocated = true
  | .restore _ _ _ => True
  | .powerOn | .authPreboot _ | .snapshotInit | .snapshotZeroKey => False

section

variable {fate : ℕ → Bool} {allocated : Bool} {cpuid : CpuidFeatures} {s : RamSession}

theorem saveCalls_under : ∀ e ∈ (saveCalls fate allocated cpuid s).2, e.Under s.snapshotKey := by
  intro e he
  obtain ⟨x, -, hx⟩ := List.mem_flatMap.mp he
  rcases List.mem_cons.mp hx with rfl | hx
  · rfl
  · obtain rfl := List.mem_singleton.mp hx
    exact ⟨s.sequence, x.2, rfl⟩

theorem openAll_under (key : List UInt8) (o : Oram) (k : ℕ) (lbas : List ℕ) :
    ∀ e ∈ (openAll fate key o k lbas).2, e.Under key := by
  induction lbas generalizing k with
  | nil => simp [openAll]
  | cons lba lbas ih =>
    rw [openAll]
    split
    · cases openSector (aesGcmInit key) (o lba) with
      | none => simp [SnapshotEvent.Under]
      | some block => simpa [SnapshotEvent.Under] using ih (k + 1)
    · simp [SnapshotEvent.Under]

theorem restoreCalls_under : ∀ e ∈ (restoreCalls fate allocated s).2, e.Under s.snapshotKey := by
  have hhead : ∀ events : List SnapshotEvent, (∀ e ∈ events, e.Under s.snapshotKey) →
      ∀ e ∈ .oramRead 0 :: .decrypt s.snapshotKey :: events, e.Under s.snapshotKey := by
    intro events hevents
    simpa [SnapshotEvent.Under] using hevents
  have hnil : ∀ e ∈ ([] : List SnapshotEvent), e.Under s.snapshotKey := by simp
  rw [restoreCalls]
  split
  · cases openSector s.gcmCtx (s.oram 0) with
    | none => exact hhead [] hnil
    | some header =>
      dsimp only
      split
      · exact hhead [] hnil
      · split
        · exact hhead [] hnil
        · exact hhead _ (openAll_under _ _ _ _)
  · simp [SnapshotEvent.Under]

theorem saveCalls_eq_nil_iff :
    saveCalls fate allocated cpuid s = (-1, []) ↔ allocated = false := by
  cases allocated with
  | false => exact iff_of_true rfl rfl
  | true =>
    have hblocks := sealSession_reached fate true cpuid s
    have hreached : reached fate true (s.image cpuid).plan ≠ [] := by
      rw [reached, if_pos rfl, Ne, List.take_eq_nil_iff, SnapshotImage.plan]
      simp
    rw [saveCalls]
    generalize sealSession fate true cpuid s = r at hblocks ⊢
    obtain ⟨rc, sequence, blocks⟩ := r
    obtain ⟨x, xs, hx⟩ := List.exists_cons_of_ne_nil (hblocks ▸ hreached)
    simp_all

theorem restoreCalls_ne_nil : restoreCalls fate allocated s ≠ (-1, []) := by
  rw [restoreCalls]
  split
  · cases openSector s.gcmCtx (s.oram 0) with
    | none => simp
    | some header =>
      dsimp only
      split
      · simp
      · split <;> simp
  · simp

end

/-- An operation uses the key from authentication exactly when the flag is set where it comes to use
the key. -/
theorem keyFromAuthentication_iff (pre : List KeyOp) (op : KeyOp) :
    KeyFromAuthentication pre op ↔
      (op.UsesKey → (run SnapshotKey.step SnapshotKey.image pre).keySet = true) := by
  unfold KeyFromAuthentication
  rw [← SnapshotKey.installed_run]
  generalize run SnapshotKey.step SnapshotKey.image pre = k
  obtain ⟨key, keySet⟩ := k
  cases op with
  | powerOn | authPreboot _ | snapshotInit | snapshotZeroKey =>
    simp [SnapshotKey.calls, KeyOp.UsesKey]
  | save content fate allocated cpuid =>
    simp only [SnapshotKey.calls, Option.mem_some_iff, forall_eq', KeyOp.UsesKey]
    cases keySet with
    | true => exact iff_of_true saveCalls_under fun _ => rfl
    | false =>
      have hnil : saveCalls fate allocated cpuid (SnapshotKey.before ⟨key, false⟩ content) =
          (-1, []) ↔ allocated = false := saveCalls_eq_nil_iff
      simpa [KeyedBy, SnapshotKey.installed] using hnil
  | restore content fate allocated =>
    simp only [SnapshotKey.calls, Option.mem_some_iff, forall_eq', KeyOp.UsesKey]
    cases keySet with
    | true => exact iff_of_true restoreCalls_under fun _ => rfl
    | false =>
      exact iff_of_false restoreCalls_ne_nil (by simp)

/-- In a run of any operations in any order, all that saves and restores do is under the key from
authentication exactly when the flag that they do not look at is set wherever they come to use the
key. -/
theorem snapshot_key_iff (ops : List KeyOp) :
    (∀ pre op post, ops = pre ++ op :: post → KeyFromAuthentication pre op) ↔
      ∀ pre op post, ops = pre ++ op :: post → op.UsesKey →
        (run SnapshotKey.step SnapshotKey.image pre).keySet = true := by
  simp only [keyFromAuthentication_iff]

/-! ## The snapshot tests -/

/-- The way to the first save of the snapshot tests in the boot menu. -/
def testsPath (a : AuthAttempt) : List KeyOp := [.powerOn, .authPreboot a, .snapshotInit]

def firstSave : KeyOp := .save (pagedSession 0) (fun _ => true) true someCpu

/-- An attempt that succeeds. -/
def someAttempt : AuthAttempt where
  password := asciiBytes "p"
  fido2Secret := some (Bytes.zero 64)

theorem run_testsPath (a : AuthAttempt) :
    run SnapshotKey.step SnapshotKey.image (testsPath a) = snapshotInit := rfl

/-- The first save of the snapshot tests succeeds without a key from authentication, and stores the
same sectors whatever key authentication has given. -/
theorem snapshot_key_forgotten :
    someAttempt.derivedKey.isSome = true ∧
      (¬ ∀ pre op post, testsPath someAttempt ++ [firstSave] = pre ++ op :: post →
        KeyFromAuthentication pre op) ∧
      ((run SnapshotKey.step SnapshotKey.image (testsPath someAttempt)).calls firstSave).map
        Prod.fst = some 0 ∧
      ∀ a b, (run SnapshotKey.step SnapshotKey.image (testsPath a)).calls firstSave =
        (run SnapshotKey.step SnapshotKey.image (testsPath b)).calls firstSave := by
  refine ⟨by decide +kernel, ?_, ?_, ?_⟩
  · intro h
    have hkey := (keyFromAuthentication_iff _ _).mp (h (testsPath someAttempt) firstSave [] rfl)
    rw [run_testsPath] at hkey
    cases hkey rfl
  · rw [run_testsPath, firstSave, SnapshotKey.calls]
    rw [Option.map_some, saveCalls_true]
    exact congrArg some (pagedSession_saved 0)
  · intro a b
    rw [run_testsPath, run_testsPath]

end StyxOS
