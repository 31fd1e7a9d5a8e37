import StyxOS.Fs.Image
import StyxOS.Library.Run
import StyxOS.Oram.BlockStore
import StyxOS.Storage.Mode

/-! # The mode of encryption over a boot

The parts of the boot flow that use the stick: mounting the volume and loading
the attempt counter before authentication, the reset of the counter after it,
the loading of the first program, and then the block store. Authentication turns
encryption on, and the way on from the boot menu turns it off again.
-/

namespace StyxOS

open ByteMem StepSystem

inductive BootPhase
  | off
  | waiting
  | granted
  | menu
  | running
  | destroyed
deriving DecidableEq

/-- What happens next. -/
inductive BootOp
  /-- The machine is started, up to the prompt of `auth_preboot`. -/
  | powerOn (counterBuf : Bytes 512)
  /-- An attempt to authenticate that fails. -/
  | refuse
  /-- One that succeeds. -/
  | grant
  /-- `elf_load_from_vfs`, up to the parsing of the file, with the outcome of its allocation. -/
  | loadInit (fuel : ℕ) (node : VfsNode) (allocated : Bool)
  /-- The choice of the snapshot tests in the boot menu, which begin with `oram_init`. -/
  | snapshotTests (random : ℕ → ℕ) (metaBuf posmapBuf : Bytes 512)
  /-- No choice in the boot menu. -/
  | standardBoot
  | oramAccess (env : AccessEnv) (lba : ℕ) (write : Bool) (data : Bytes 512)

/-- The device with the state of the modules that use it. -/
structure Boot (δ : Type) where
  dev : Moded δ
  phase : BootPhase
  vfs : Vfs Unit
  count : ℕ
  usbPresent : Bool
  posMap : ℕ → ℕ
  stash : List OramBlock
  stray : StrayStore

def Vfs.unmounted : Vfs Unit where
  fs :=
    { dev := ()
      fatStart := 0
      dataStart := 0
      rootCluster := 0
      spc := 0
      sectorBuf := Bytes.zero 512
      ready := false }
  ready := false

namespace Boot

variable {δ : Type} [SectorDevice δ]

def counter (s : Boot δ) : AuthCounter (Moded δ) := ⟨s.dev, s.count, s.usbPresent⟩

def oram (s : Boot δ) : PathOram (Moded δ) := ⟨s.dev, s.posMap, s.stash, s.stray⟩

/-- `vfs_init` and `auth_counter_init` after a start. -/
def powerOn (cpuid : CpuidLeaf) (counterBuf : Bytes 512) (s : Boot δ) : Boot δ :=
  let v := vfsInit (Vfs.unmounted.on (setEncryption false s.dev))
  let a := authCounterInit cpuid counterBuf ⟨v.fs.dev, 0, false⟩
  { dev := a.dev
    phase := if authCounterLocked a then .destroyed else .waiting
    vfs := v.on ()
    count := a.count
    usbPresent := a.usbPresent
    posMap := fun _ => 0
    stash := []
    stray := s.stray }

/-- The way of `auth_preboot` after a failure. -/
def refuse (cpuid : CpuidLeaf) (s : Boot δ) : Boot δ :=
  let a := authCounterIncrement cpuid s.counter
  { s with
    dev := a.dev
    count := a.count
    phase := if authCounterLocked a then .destroyed else .waiting }

/-- The way of `auth_preboot` after a success. -/
def grant (cpuid : CpuidLeaf) (s : Boot δ) : Boot δ :=
  let a := authCounterReset cpuid { s.counter with dev := setEncryption true s.dev }
  { s with dev := a.dev, count := a.count, phase := .granted }

/-- `elf_load_from_vfs` of the first program: the file is opened and read. -/
def loadInit (fuel : ℕ) (node : VfsNode) (allocated : Bool) (s : Boot δ) : Option (Boot δ) := do
  let (found, node, v) ← vfsOpen fuel (s.vfs.on s.dev) UsbImage.initElfPath node
  if found && allocated then
    let (_, v) ← vfsRead fuel v node node.size.toNat
    some { s with dev := v.fs.dev, vfs := v.on (), phase := .menu }
  else some { s with dev := v.fs.dev, vfs := v.on (), phase := .menu }

/-- One step, in the phases that allow it. A machine that has been started may be started again, but
not after the self-destruct; a call without result is not made. -/
def step (cpuid : CpuidLeaf) (s : Boot δ) : BootOp → Boot δ
  | .powerOn counterBuf => if s.phase ≠ .destroyed then s.powerOn cpuid counterBuf else s
  | .refuse => if s.phase = .waiting then s.refuse cpuid else s
  | .grant => if s.phase = .waiting then s.grant cpuid else s
  | .loadInit fuel node allocated =>
    if s.phase = .granted then (s.loadInit fuel node allocated).getD s else s
  | .snapshotTests random metaBuf posmapBuf =>
    if s.phase = .granted ∨ s.phase = .menu then
      let m := oramInit random metaBuf posmapBuf s.oram
      { s with dev := m.dev, posMap := m.posMap, stash := m.stash, phase := .running }
    else s
  | .standardBoot =>
    if s.phase = .granted ∨ s.phase = .menu then
      { s with dev := setEncryption false s.dev, phase := .running }
    else s
  | .oramAccess env lba write data =>
    if s.phase = .running then
      match StyxOS.oramAccess env s.oram lba write data with
      | none => s
      | some (_, _, m) => { s with dev := m.dev, posMap := m.posMap, stash := m.stash }
    else s

/-- The last write of the counter was the one after a success, under encryption. -/
def CounterEncrypted (s : Boot δ) : Prop := s.dev.encrypted authCounterLba = true

/-- The condition on a step: the machine is not started with the counter written under encryption,
no program is loaded from a mounted volume, and the store is used with encryption off, and not where
its map has led to other sectors while the counter is encrypted. -/
def Permits (s : Boot δ) : BootOp → Prop
  | .powerOn _ => s.phase ≠ .destroyed → ¬ s.CounterEncrypted
  | .loadInit _ _ _ => s.phase = .granted → s.vfs.ready = false
  | .oramAccess _ lba _ _ => s.phase = .running → lba < oramNumLeaves →
      encryption s.dev = false ∧ (s.CounterEncrypted → s.posMap lba < oramNumLeaves)
  | .refuse | .grant | .snapshotTests _ _ _ | .standardBoot => True

/-- The read of every sector so far was made in the mode in which it was last written. -/
def Consistent (s : Boot δ) : Prop := s.dev.Consistent

/-- A stick as `make_usb_img.py` leaves it, in a machine that is off. -/
structure Fresh (s : Boot δ) : Prop where
  phase : s.phase = .off
  plain : s.dev.encrypted = fun _ => false
  unread : s.dev.consistent = true ∧ s.dev.intact = true

/-! ## Runs -/

def IsCounter (lba : ℕ) : Prop := lba = authCounterLba

theorem not_isCounter_meta : ¬ IsCounter oramMetaLba := show ¬ 499 = 5 by decide

theorem not_isCounter_posmap : ¬ IsCounter oramPosmapLba := show ¬ 1008 = 5 by decide

theorem sectorOf_not_isCounter {leaf : ℕ} (hleaf : leaf < oramNumLeaves) {x : ℕ × ℕ × ℕ}
    (hx : x ∈ pathSlots (getPath leaf)) : ¬ IsCounter (sectorOf x.2.1 x.2.2) := by
  obtain ⟨hnode, hslot⟩ := mem_pathSlots hx
  rw [sectorOf_eq ((getPath_spec leaf hleaf).2 _ hnode) hslot]
  unfold IsCounter authCounterLba
  omega

/-- The device has what is kept, and no sector is encrypted but that of the counter. -/
def Sound (I : Moded δ → Prop) (s : Boot δ) : Prop := ∃ mode, s.dev.Clear I mode IsCounter

variable {s : Boot δ} {I : Moded δ → Prop}

theorem Sound.none (h : s.Sound I) (hcounter : ¬s.CounterEncrypted) :
    ∃ mode, s.dev.Clear I mode fun _ => False := by
  obtain ⟨mode, hclear⟩ := h
  refine ⟨mode, hclear.mode, fun lba hlba => ?_, hclear.kept⟩
  have hlba' : lba = authCounterLba := hclear.encrypted lba hlba
  exact hcounter (by rw [CounterEncrypted, ← hlba']; exact hlba)

theorem vfsOpen_of_not_ready (hready : s.vfs.ready = false) (fuel : ℕ) (node : VfsNode) :
    vfsOpen fuel (s.vfs.on s.dev) UsbImage.initElfPath node =
      some (false, { node with valid := false }, s.vfs.on s.dev) := by
  unfold vfsOpen
  exact if_neg (Bool.eq_false_iff.mp hready)

theorem loadInit_of_not_ready (hready : s.vfs.ready = false) (fuel : ℕ) (node : VfsNode)
    (allocated : Bool) : s.loadInit fuel node allocated = some { s with
      dev := (s.vfs.on s.dev).fs.dev, vfs := (s.vfs.on s.dev).on (), phase := .menu } := by
  unfold Boot.loadInit
  rw [vfsOpen_of_not_ready hready]
  rfl

theorem Sound.loadInit (h : s.Sound I) (hready : s.vfs.ready = false) (fuel : ℕ) (node : VfsNode)
    (allocated : Bool) : ((s.loadInit fuel node allocated).getD s).Sound I := by
  rw [loadInit_of_not_ready hready]
  exact h

theorem step_powerOn (h : s.phase ≠ .destroyed) (cpuid : CpuidLeaf) (counterBuf : Bytes 512) :
    s.step cpuid (.powerOn counterBuf) = s.powerOn cpuid counterBuf := if_pos h

theorem step_grant (h : s.phase = .waiting) (cpuid : CpuidLeaf) :
    s.step cpuid .grant = s.grant cpuid := if_pos h

theorem encrypted_keptByReads : KeptByReads (fun _ => True)
    fun d d' : Moded δ => d'.encrypted = d.encrypted where
  refl _ := rfl
  trans h h' := h'.trans h
  read _ _ _ _ := rfl

/-- The device after the volume was mounted. -/
def mounted (s : Boot δ) : Moded δ :=
  (vfsInit (Vfs.unmounted.on (setEncryption false s.dev))).fs.dev

section

variable [LawfulMode δ] (hI : Moded.Kept I)
include hI

theorem Sound.mounted (h : s.Sound I) (hcounter : ¬s.CounterEncrypted) :
    s.mounted.Clear I false fun _ => False := by
  obtain ⟨mode, hclear⟩ := h.none hcounter
  exact Moded.Clear.fat32Init hI (f := (Vfs.unmounted.on (setEncryption false s.dev)).fs)
    (hclear.setEncryption hI false) id

theorem Sound.powerOn (h : s.Sound I) (hcounter : ¬s.CounterEncrypted) (cpuid : CpuidLeaf)
    (counterBuf : Bytes 512) : (s.powerOn cpuid counterBuf).Sound I := by
  have hmount := h.mounted hI hcounter
  refine ⟨false, Moded.Clear.mono ?_ fun _ => False.elim⟩
  unfold Boot.powerOn authCounterInit
  dsimp only
  split
  · exact hmount.counterRead hI id cpuid counterBuf
  · exact hmount

theorem Sound.refuse (h : s.Sound I) (cpuid : CpuidLeaf) : (s.refuse cpuid).Sound I := by
  obtain ⟨mode, hclear⟩ := h
  refine ⟨mode, ?_⟩
  unfold Boot.refuse authCounterIncrement
  dsimp only
  split
  · exact hclear.counterWrite hI (fun _ => rfl) cpuid _
  · exact hclear

theorem Sound.grant (h : s.Sound I) (cpuid : CpuidLeaf) : (s.grant cpuid).Sound I := by
  obtain ⟨mode, hclear⟩ := h
  refine ⟨true, ?_⟩
  unfold Boot.grant authCounterReset
  dsimp only
  split
  · exact (hclear.setEncryption hI true).counterWrite hI (fun _ => rfl) cpuid _
  · exact hclear.setEncryption hI true

theorem Sound.oramAccess (h : s.Sound I) {env : AccessEnv} {lba : ℕ} {write : Bool}
    {data : Bytes 512} (hop : lba < oramNumLeaves →
      encryption s.dev = false ∧ (s.CounterEncrypted → s.posMap lba < oramNumLeaves))
    {r : ℤ × Bytes 512 × PathOram (Moded δ)}
    (hr : StyxOS.oramAccess env s.oram lba write data = some r) :
    ∃ mode, r.2.2.dev.Clear I mode IsCounter := by
  obtain ⟨mode, hclear⟩ := h
  by_cases hlba : lba < oramNumLeaves
  · obtain ⟨hoff, hpos⟩ := hop hlba
    have hplain : s.dev.Clear I false IsCounter := by
      rw [← hoff, hclear.mode]
      exact hclear
    refine ⟨false, Moded.Clear.oramAccess hI (m := s.oram) hplain (fun _ x hx => ?_) hr⟩
    by_contra hl
    rw [Bool.not_eq_false] at hl
    have hcounter : IsCounter (sectorOf x.2.1 x.2.2) := hclear.encrypted _ hl
    have hencrypted : s.CounterEncrypted := by
      rw [CounterEncrypted, ← show sectorOf x.2.1 x.2.2 = authCounterLba from hcounter]
      exact hl
    exact sectorOf_not_isCounter (hpos hencrypted) hx hcounter
  · rw [StyxOS.oramAccess, if_pos (Nat.le_of_not_lt hlba)] at hr
    cases hr
    exact ⟨mode, hclear⟩

/-- The step lemma: a permitted step keeps what is kept, and encrypts no sector but that of the
counter. -/
theorem Sound.step (cpuid : CpuidLeaf) {op : BootOp} (h : s.Sound I) (hop : s.Permits op) :
    (s.step cpuid op).Sound I := by
  cases op with
  | powerOn counterBuf =>
    rw [Boot.step]
    split
    · next hphase => exact h.powerOn hI (hop hphase) cpuid counterBuf
    · exact h
  | refuse =>
    rw [Boot.step]
    split
    · exact h.refuse hI cpuid
    · exact h
  | grant =>
    rw [Boot.step]
    split
    · exact h.grant hI cpuid
    · exact h
  | loadInit fuel node allocated =>
    rw [Boot.step]
    split
    · next hphase => exact h.loadInit (hop hphase) fuel node allocated
    · exact h
  | snapshotTests random metaBuf posmapBuf =>
    obtain ⟨mode, hclear⟩ := h
    rw [Boot.step]
    split
    · exact ⟨mode, Moded.Clear.oramInit hI (m := s.oram) hclear not_isCounter_meta
        not_isCounter_posmap random metaBuf posmapBuf⟩
    · exact ⟨mode, hclear⟩
  | standardBoot =>
    obtain ⟨mode, hclear⟩ := h
    rw [Boot.step]
    split
    · exact ⟨false, hclear.setEncryption hI false⟩
    · exact ⟨mode, hclear⟩
  | oramAccess env lba write data =>
    rw [Boot.step]
    split
    · next hphase =>
      cases hr : StyxOS.oramAccess env s.oram lba write data with
      | none => exact h
      | some r => exact h.oramAccess hI (hop hphase) hr
    · exact h

end

theorem Fresh.sound (hs : s.Fresh) (hI : I s.dev) : s.Sound I := by
  refine ⟨_, rfl, fun lba hlba => ?_, hI⟩
  rw [hs.plain] at hlba
  cases hlba

/-! ## A second start -/

variable [LawfulMode δ]

theorem grant_counterEncrypted (h : s.usbPresent = true) (cpuid : CpuidLeaf) :
    (s.grant cpuid).CounterEncrypted := by
  have hdev : (s.grant cpuid).dev = counterWrite cpuid 0 (setEncryption true s.dev) := by
    unfold Boot.grant authCounterReset
    exact if_pos h
  have hon : encryption (setEncryption true s.dev) = true := LawfulMode.set_mode true s.dev
  rw [CounterEncrypted, hdev]
  change Function.update s.dev.encrypted authCounterLba (encryption (setEncryption true s.dev))
    authCounterLba = true
  rw [Function.update_self, hon]

theorem powerOn_inconsistent (hcounter : s.CounterEncrypted) (cpuid : CpuidLeaf)
    (counterBuf : Bytes 512)
    (husb : 0 < sectorCount s.mounted) : (s.powerOn cpuid counterBuf).dev.consistent = false := by
  have hmount : s.mounted.encrypted = s.dev.encrypted :=
    encrypted_keptByReads.fat32Init (Vfs.unmounted.on (setEncryption false s.dev)).fs trivial
  unfold mounted at husb hmount
  unfold Boot.powerOn authCounterInit
  dsimp only
  rw [if_pos husb]
  generalize (vfsInit (Vfs.unmounted.on (setEncryption false s.dev))).fs.dev = d at hmount
  have hoff : encryption (setEncryption false d) = false := LawfulMode.set_mode false d
  have hread : (readSector (setEncryption false d) authCounterLba counterBuf).2.2.consistent =
      false := by
    have hbad : (d.encrypted authCounterLba == encryption (setEncryption false d)) = false := by
      rw [hmount, hcounter, hoff]
      rfl
    change (d.consistent && d.encrypted authCounterLba == encryption (setEncryption false d)) =
      false
    rw [hbad, Bool.and_false]
  unfold counterRead
  dsimp only
  repeat' split
  all_goals exact hread

end Boot

/-- A machine that is off, with a blank stick. -/
def blankBoot : Boot (UsbDisk MemDisk.transport fun _ => []) where
  dev := ⟨⟨MemDisk.blank⟩, fun _ => Bytes.zero 512, fun _ => false, true, true⟩
  phase := .off
  vfs := Vfs.unmounted
  count := 0
  usbPresent := false
  posMap := fun _ => 0
  stash := []
  stray := .unused

namespace Boot

theorem blankBoot_fresh : blankBoot.Fresh := ⟨rfl, rfl, rfl, rfl⟩

theorem blankBoot_waiting : (blankBoot.powerOn ⟨0, 0⟩ (Bytes.zero 512)).phase = .waiting ∧
    (blankBoot.powerOn ⟨0, 0⟩ (Bytes.zero 512)).usbPresent = true := by
  decide +kernel

theorem blankBoot_usb :
    0 < sectorCount ((blankBoot.powerOn ⟨0, 0⟩ (Bytes.zero 512)).grant ⟨0, 0⟩).mounted := by
  decide +kernel

/-- After an authentication, the next start reads the counter in the other mode than it was
written. -/
theorem counter_read_in_other_mode :
    ¬ (run (step ⟨0, 0⟩) blankBoot
      [.powerOn (Bytes.zero 512), .grant, .powerOn (Bytes.zero 512)]).Consistent := by
  obtain ⟨hwaiting, hpresent⟩ := blankBoot_waiting
  have husb := blankBoot_usb
  have hstart := step_powerOn (s := blankBoot) (show BootPhase.off ≠ .destroyed by decide) ⟨0, 0⟩
    (Bytes.zero 512)
  rw [run_cons, run_cons, run_cons, run_nil, hstart]
  generalize blankBoot.powerOn ⟨0, 0⟩ (Bytes.zero 512) = s at hwaiting hpresent husb
  generalize Bytes.zero 512 = buf
  have hphase : (s.grant ⟨0, 0⟩).phase ≠ .destroyed := show BootPhase.granted ≠ .destroyed by decide
  rw [step_grant hwaiting, step_powerOn hphase, Consistent, Moded.Consistent,
    powerOn_inconsistent (grant_counterEncrypted hpresent ⟨0, 0⟩) ⟨0, 0⟩ _ husb]
  exact Bool.false_ne_true

end Boot

end StyxOS
