import StyxOS.Storage.ReadAfterWrite
import StyxOS.Syscall.Confinement

/-! # What the self-destruct leaves behind

`destruct_trigger` with the secrets that the kernel holds when it is called. Two
runs that differ only in a secret, or only in what the device holds, show what of
it the wiped machine still determines.
-/

namespace StyxOS

/-- The memory of the kernel as far as it holds secrets, with the device. -/
structure SecretState (σ : Type*) where
  storage : Storage σ
  snapshotKey : List UInt8
  snapshotKeySet : Bool
  machine : Machine

/-- The secrets in use: the key that authentication derived, the expanded keys of the sector cipher,
the snapshot key and the keys of the circuit. -/
structure Secrets where
  authDerivedKey : List UInt8
  xtsCtx : Aes256XtsCtx
  snapshotKey : List UInt8
  entryKey : List UInt8
  middleKey : List UInt8
  exitKey : List UInt8

section

variable {σ : Type*}

namespace SecretState

def secrets (s : SecretState σ) : Secrets where
  authDerivedKey := s.storage.authDerivedKey
  xtsCtx := s.storage.xtsCtx
  snapshotKey := s.snapshotKey
  entryKey := s.machine.torCircuit.entryKey
  middleKey := s.machine.torCircuit.middleKey
  exitKey := s.machine.torCircuit.exitKey

def withSecrets (s : SecretState σ) (k : Secrets) : SecretState σ :=
  { s with
    storage := { s.storage with authDerivedKey := k.authDerivedKey, xtsCtx := k.xtsCtx }
    snapshotKey := k.snapshotKey
    machine :=
      { s.machine with
        torCircuit :=
          { s.machine.torCircuit with
            entryKey := k.entryKey
            middleKey := k.middleKey
            exitKey := k.exitKey } } }

/-- The same state with another content of the device. -/
def withDev (s : SecretState σ) (dev : σ) : SecretState σ :=
  { s with storage := { s.storage with dev := dev } }

end SecretState

variable (T : Transport σ) (csprng : ℕ → Sector)

/-- `destruct_trigger`, the beacon included; `none` is a reason that is not given. -/
def SecretState.destructTrigger (s : SecretState σ) (reason : Option (List UInt8)) :
    SecretState σ :=
  { s with
    machine := (netSendBeacon (reason.getD []) s.machine).state
    storage := StyxOS.destructTrigger T (fun n => (csprng n).1) s.storage }

/-! ### The wipe on the device -/

/-- The addresses that a pass of `wipe_sectors` goes through. -/
def wipeSpan (start : UInt32) : ℕ → List UInt32
  | 0 => []
  | n + 1 => start :: wipeSpan (start + 1) n

/-- The addresses that `destruct_trigger` wipes. -/
def wipedLbas : List UInt32 := wipeSpan 1 9 ++ wipeSpan 500 1

variable {T csprng} (F : FaithfulTransport T)

/-- Two storage states differ in the device only, and there nowhere at the addresses `Z`. -/
structure AgreeAt (Z : UInt32 → Prop) (s s' : Storage σ) : Prop where
  ready : F.Ready s.dev
  ready' : F.Ready s'.dev
  rest : s' = { s with dev := s'.dev }
  disk : ∀ lba, Z lba → F.disk s'.dev lba = F.disk s.dev lba

variable {F} {Z : UInt32 → Prop} {s s' : Storage σ}

theorem AgreeAt.write (h : AgreeAt F Z s s') (lba : UInt32) (b : Sector) :
    AgreeAt F (fun l => Z l ∨ l = lba) (usbMscWriteSector T s lba b.1).2
      (usbMscWriteSector T s' lba b.1).2 := by
  obtain ⟨d, heq, hready, hdisk⟩ := F.write_spec h.ready lba b
  obtain ⟨d', heq', hready', hdisk'⟩ := F.write_spec h.ready' lba b
  have hstored : s'.stored lba b = s.stored lba b := by
    rw [h.rest]
    rfl
  rw [heq, heq']
  refine { ready := hready, ready' := hready', rest := ?_, disk := ?_ }
  · rw [h.rest]
  · rintro l hl
    dsimp only
    rw [hdisk, hdisk', hstored]
    by_cases hlba : l = lba
    · rw [hlba, Function.update_self, Function.update_self]
    · rw [Function.update_of_ne hlba, Function.update_of_ne hlba]
      exact h.disk l (hl.resolve_right hlba)

theorem AgreeAt.mono (h : AgreeAt F Z s s') {Z' : UInt32 → Prop} (hz : ∀ lba, Z' lba → Z lba) :
    AgreeAt F Z' s s' :=
  { h with disk := fun lba hlba => h.disk lba (hz lba hlba) }

theorem AgreeAt.congr (h : AgreeAt F Z s s') {f : Storage σ → Storage σ}
    (hdev : ∀ s d, f { s with dev := d } = { f s with dev := d }) : AgreeAt F Z (f s) (f s') := by
  have hkeep : ∀ s, (f s).dev = s.dev := by
    intro s
    have heq : f s = { f s with dev := s.dev } := hdev s s.dev
    exact (congrArg Storage.dev heq).trans rfl
  refine { ready := ?_, ready' := ?_, rest := ?_, disk := ?_ }
  · rw [hkeep]
    exact h.ready
  · rw [hkeep]
    exact h.ready'
  · rw [hkeep, ← hdev, ← h.rest]
  · rw [hkeep, hkeep]
    exact h.disk

theorem AgreeAt.wipePass (fill : ℕ → Sector) (step count : ℕ) :
    ∀ {Z : UInt32 → Prop} {s s' : Storage σ} {start : UInt32}, AgreeAt F Z s s' →
      AgreeAt F (fun l => Z l ∨ l ∈ wipeSpan start count)
        (StyxOS.wipePass T (fun n => (fill n).1) step count start s)
        (StyxOS.wipePass T (fun n => (fill n).1) step count start s') := by
  induction count with
  | zero =>
    intro Z s s' start h
    simpa only [StyxOS.wipePass, wipeSpan, List.not_mem_nil, or_false] using h
  | succ count ih =>
    intro Z s s' start h
    have hdraws : s'.draws = s.draws := by rw [h.rest]
    have hwrite := (h.write start (fill s.draws)).congr
      (f := fun t => { t with draws := s.draws + step }) fun _ _ => rfl
    rw [StyxOS.wipePass, StyxOS.wipePass, hdraws]
    refine (ih hwrite).mono fun lba hlba => ?_
    simpa only [wipeSpan, List.mem_cons, or_assoc] using hlba

theorem AgreeAt.wipeSectors (h : AgreeAt F Z s s') (csprng : ℕ → Sector) (start : UInt32)
    (count : ℕ) :
    AgreeAt F (fun l => Z l ∨ l ∈ wipeSpan start count)
      (StyxOS.wipeSectors T (fun n => (csprng n).1) start count s)
      (StyxOS.wipeSectors T (fun n => (csprng n).1) start count s') :=
  (((h.wipePass csprng 1 count).wipePass (fun _ => Sector.zero) 0 count).wipePass csprng 1
    count).mono fun _ hlba => Or.inl (Or.inl hlba)

theorem AgreeAt.destructTrigger (h : AgreeAt F Z s s') (csprng : ℕ → Sector) :
    AgreeAt F (fun l => Z l ∨ l ∈ wipedLbas) (StyxOS.destructTrigger T (fun n => (csprng n).1) s)
      (StyxOS.destructTrigger T (fun n => (csprng n).1) s') := by
  have henc : s'.encryptionEnabled = s.encryptionEnabled := by rw [h.rest]
  have hoff := h.congr (f := fun s => { s with encryptionEnabled := false }) fun _ _ => rfl
  have hwiped := (hoff.wipeSectors csprng 1 9).wipeSectors csprng 500 1
  rw [StyxOS.destructTrigger, StyxOS.destructTrigger, henc]
  refine (hwiped.congr (f := fun t => { t with
    encryptionEnabled := s.encryptionEnabled
    authDerivedKey := List.replicate 64 0
    halted := true }) fun _ _ => rfl).mono fun lba hlba => ?_
  simpa only [wipedLbas, List.mem_append, or_assoc] using hlba

/-- A pass writes nothing outside its addresses. -/
theorem disk_wipePass (fill : ℕ → Sector) (step count : ℕ) :
    ∀ (start : UInt32) {s : Storage σ}, F.Ready s.dev →
      F.Ready (wipePass T (fun n => (fill n).1) step count start s).dev ∧
      ∀ lba ∉ wipeSpan start count,
        F.disk (wipePass T (fun n => (fill n).1) step count start s).dev lba =
          F.disk s.dev lba := by
  induction count with
  | zero => exact fun _ _ h => ⟨h, fun _ _ => rfl⟩
  | succ count ih =>
    intro start s h
    obtain ⟨d, heq, hready, hdisk⟩ := F.write_spec h start (fill s.draws)
    obtain ⟨hready', hrest⟩ :=
      ih (start + 1) (s := { s with dev := d, tag := s.tag + 1, draws := s.draws + step }) hready
    rw [wipePass, heq]
    refine ⟨hready', fun lba hlba => ?_⟩
    rw [wipeSpan, List.mem_cons, not_or] at hlba
    rw [hrest lba hlba.2, hdisk, Function.update_of_ne hlba.1]

theorem disk_wipeSectors (csprng : ℕ → Sector) (start : UInt32) (count : ℕ) (h : F.Ready s.dev) :
    F.Ready (wipeSectors T (fun n => (csprng n).1) start count s).dev ∧
      ∀ lba ∉ wipeSpan start count,
        F.disk (wipeSectors T (fun n => (csprng n).1) start count s).dev lba =
          F.disk s.dev lba := by
  obtain ⟨hready₁, hdisk₁⟩ := disk_wipePass csprng 1 count start h
  obtain ⟨hready₂, hdisk₂⟩ := disk_wipePass (fun _ => Sector.zero) 0 count start hready₁
  obtain ⟨hready₃, hdisk₃⟩ := disk_wipePass csprng 1 count start hready₂
  refine ⟨hready₃, fun lba hlba => ?_⟩
  exact (hdisk₃ lba hlba).trans ((hdisk₂ lba hlba).trans (hdisk₁ lba hlba))

theorem disk_destructTrigger (csprng : ℕ → Sector) (h : F.Ready s.dev) {lba : UInt32}
    (hlba : lba ∉ wipedLbas) :
    F.disk (destructTrigger T (fun n => (csprng n).1) s).dev lba = F.disk s.dev lba := by
  rw [wipedLbas, List.mem_append, not_or] at hlba
  have hoff : F.Ready { s with encryptionEnabled := false }.dev := h
  obtain ⟨hready, hdisk⟩ := disk_wipeSectors csprng 1 9 hoff
  exact ((disk_wipeSectors csprng 500 1 hready).2 lba hlba.2).trans (hdisk lba hlba.1)

theorem xtsCtx_wipePass (fill : ℕ → List UInt8) (step count : ℕ) :
    ∀ (start : UInt32) (s : Storage σ), (wipePass T fill step count start s).xtsCtx = s.xtsCtx := by
  induction count with
  | zero => exact fun _ _ => rfl
  | succ count ih => exact fun _ _ => ih _ _

theorem xtsCtx_destructTrigger (csprng : ℕ → List UInt8) (s : Storage σ) :
    (destructTrigger T csprng s).xtsCtx = s.xtsCtx := by
  simp only [destructTrigger, wipeSectors, xtsCtx_wipePass]

/-! ### What is left -/

theorem state_netSendBeacon (reason : List UInt8) (m : Machine) :
    ∃ nic, (netSendBeacon reason m).state = { m with nic := nic } := by
  rw [netSendBeacon, Access.get_bind_apply]
  split
  · exact ⟨m.nic, rfl⟩
  · cases netBuildUdp (beaconFlow m.anonymizedMac) (beaconPayload reason) with
    | none => exact ⟨m.nic, rfl⟩
    | some frame => exact ⟨_, rfl⟩

theorem secrets_destructTrigger (csprng : ℕ → Sector) (s : SecretState σ)
    (reason : Option (List UInt8)) :
    (s.destructTrigger T csprng reason).secrets =
      { s.secrets with authDerivedKey := List.replicate 64 0 } := by
  obtain ⟨nic, hnic⟩ := state_netSendBeacon (reason.getD []) s.machine
  simp only [SecretState.secrets, SecretState.destructTrigger, hnic, xtsCtx_destructTrigger]
  rfl

/-- Whatever the secrets are, the halted machine holds the same in their place. -/
def ErasesSecrets (T : Transport σ) (csprng : ℕ → Sector) (reason : Option (List UInt8))
    (s : SecretState σ) : Prop :=
  ∀ k, ((s.withSecrets k).destructTrigger T csprng reason).secrets =
    (s.destructTrigger T csprng reason).secrets

/-- Whatever the device holds, the sector holds the same when the machine halts. -/
def ErasesSector (F : FaithfulTransport T) (csprng : ℕ → Sector) (reason : Option (List UInt8))
    (s : SecretState σ) (lba : UInt32) : Prop :=
  ∀ dev, F.Ready dev →
    F.disk ((s.withDev dev).destructTrigger T csprng reason).storage.dev lba =
      F.disk (s.destructTrigger T csprng reason).storage.dev lba

/-- The key zone and the sectors of the ORAM. -/
def KeySector (lba : UInt32) : Prop :=
  1 ≤ lba.toNat ∧ lba.toNat ≤ 9 ∨ 499 ≤ lba.toNat ∧ lba.toNat ≤ 1008

theorem exists_disk_ne {dev : σ} (h : F.Ready dev) (lba : UInt32) :
    ∃ dev', F.Ready dev' ∧ F.disk dev' lba ≠ F.disk dev lba := by
  obtain ⟨b, hb⟩ : ∃ b : Sector, b ≠ F.disk dev lba := by
    by_cases hzero : F.disk dev lba = Sector.zero
    · refine ⟨⟨List.replicate 512 1, List.length_replicate ..⟩, fun hone => ?_⟩
      exact absurd (congrArg (fun b : Sector => b.1.head?) (hone.trans hzero)) (by decide)
    · exact ⟨Sector.zero, fun heq => hzero heq.symm⟩
  obtain ⟨dev₁, dev₂, dev₃, csw, -, -, -, -, -, hready, hdisk⟩ := F.write dev h 0 lba b
  refine ⟨dev₃, hready, ?_⟩
  rw [hdisk, Function.update_self]
  exact hb

theorem erasesSector_iff (csprng : ℕ → Sector) (reason : Option (List UInt8)) {s : SecretState σ}
    (h : F.Ready s.storage.dev) (lba : UInt32) :
    ErasesSector F csprng reason s lba ↔ lba ∈ wipedLbas := by
  constructor
  · intro herases
    by_contra hlba
    obtain ⟨dev, hready, hne⟩ := exists_disk_ne h lba
    have heq := herases dev hready
    have hkept :=
      disk_destructTrigger (F := F) (s := { s.storage with dev := dev }) csprng hready hlba
    have hkept' := disk_destructTrigger csprng h hlba
    exact hne (hkept.symm.trans (heq.trans hkept'))
  · intro hlba dev hready
    have hagree : AgreeAt F (fun _ => False) s.storage { s.storage with dev := dev } :=
      { ready := h, ready' := hready, rest := rfl, disk := fun _ hfalse => hfalse.elim }
    exact (hagree.destructTrigger csprng).disk lba (Or.inr hlba)

theorem not_erasesSecrets (csprng : ℕ → Sector) (reason : Option (List UInt8))
    (s : SecretState σ) : ¬ ErasesSecrets T csprng reason s := by
  intro herases
  have hkey := herases { s.secrets with snapshotKey := 0 :: s.snapshotKey }
  rw [secrets_destructTrigger, secrets_destructTrigger] at hkey
  exact absurd (congrArg Secrets.snapshotKey hkey) (List.cons_ne_self 0 s.snapshotKey)

theorem not_erasesSector (csprng : ℕ → Sector) (reason : Option (List UInt8)) {s : SecretState σ}
    (h : F.Ready s.storage.dev) :
    ¬ ∀ lba, KeySector lba → ErasesSector F csprng reason s lba := by
  intro herases
  have hlba := (erasesSector_iff csprng reason h 501).mp (herases 501 (Or.inr (by decide)))
  exact absurd hlba (by decide)

/-- The self-destruct leaves key material in memory and on the device, from every state. -/
theorem destruct_leaves_secrets (F : FaithfulTransport T) (csprng : ℕ → Sector)
    (reason : Option (List UInt8)) (s : SecretState σ) (h : F.Ready s.storage.dev) :
    ¬ ErasesSecrets T csprng reason s ∧
      ¬ ∀ lba, KeySector lba → ErasesSector F csprng reason s lba :=
  ⟨not_erasesSecrets csprng reason s, not_erasesSector csprng reason h⟩

end

/-- A running machine with a blank disk and keys in use. -/
def keysInUse : SecretState MemDisk where
  storage := MemDisk.blank
  snapshotKey := List.replicate 32 0x55
  snapshotKeySet := true
  machine :=
    { sampleMachine with
      torCircuit :=
        ⟨0x1001, List.replicate 32 1, List.replicate 32 2, List.replicate 32 3, true⟩ }

theorem destruct_leaves_secrets_keysInUse :
    ¬ ErasesSecrets MemDisk.transport (fun _ => Sector.zero) none keysInUse ∧
      ¬ ∀ lba, KeySector lba →
        ErasesSector MemDisk.faithful (fun _ => Sector.zero) none keysInUse lba :=
  destruct_leaves_secrets MemDisk.faithful (fun _ => Sector.zero) none keysInUse rfl

/-- The self-destruct of this machine does not do what it is for. -/
theorem destruct_incomplete :
    ¬ (ErasesSecrets MemDisk.transport (fun _ => Sector.zero) none keysInUse ∧
      ∀ lba, KeySector lba →
        ErasesSector MemDisk.faithful (fun _ => Sector.zero) none keysInUse lba) := by
  rintro ⟨-, hdisk⟩
  exact not_erasesSector _ none (s := keysInUse) rfl hdisk

end StyxOS
