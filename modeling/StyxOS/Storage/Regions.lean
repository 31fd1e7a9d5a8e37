import StyxOS.Fs.Image
import StyxOS.Library.Run
import StyxOS.Storage.Trace

/-! # The regions of the device

The modules that share the stick each have sectors of their own: the hash table
and its root, the tree of blocks with its map, the attempt counter, and the
volume. The table and the tree overlap, and the table reaches into the volume:
the writes that stay out of the others' sectors are listed here.
-/

namespace StyxOS

open ByteMem StepSystem UsbImage

inductive StickModule
  | merkle
  | oram
  | counter
  | volume
deriving DecidableEq

/-- The sectors of a module, where the volume is the image of a file. -/
def Owns (elf : List UInt8) : StickModule → UInt32 → Prop
  | .merkle, lba => lba.toNat = 3 ∨ (10 ≤ lba.toNat ∧ lba.toNat < 10 + 512)
  | .oram, lba => oramMetaLba ≤ lba.toNat ∧ lba.toNat ≤ oramPosmapLba
  | .counter, lba => lba.toNat = authCounterLba
  | .volume, lba => lba.toNat = 0 ∨
      (reserved ≤ lba.toNat ∧
        lba.toNat < clusterSector (fileStartCluster + clustersNeeded elf))

/-- A call of one of the modules. -/
inductive StickOp
  | merkleUpdate (lba : UInt32) (plaintext : Sector)
  | oramFormat (random : ℕ → ℕ)
  | oramAccess (env : AccessEnv) (lba : ℕ) (write : Bool) (data : Bytes 512)
  | counterWrite (cpuid : CpuidLeaf) (count : ℕ)
  | fat32Open (fuel : ℕ) (path : List UInt8)
  | fat32Read (fuel : ℕ) (startCluster : UInt32) (len : ℕ)

def StickOp.module : StickOp → StickModule
  | .merkleUpdate _ _ => .merkle
  | .oramFormat _ | .oramAccess _ _ _ _ => .oram
  | .counterWrite _ _ => .counter
  | .fat32Open _ _ | .fat32Read _ _ _ => .volume

/-- An access gets to the fifth step, which writes the path: the address is one of the store, and
the stash takes the path and the block. -/
def Evicts {δ : Type} [SectorDevice δ] (env : AccessEnv) (m : PathOram δ) (lba : ℕ) (write : Bool)
    (data : Bytes 512) : Prop :=
  lba < oramNumLeaves ∧
    (fetchPath env m (pathSlots (getPath (m.posMap lba)))).1 = true ∧
    (process (fetchPath env m (pathSlots (getPath (m.posMap lba)))).2.stash lba write data).isSome

/-- What an access that does not get that far does is reading. -/
theorem KeptByReads.oramAccess {δ : Type} [SectorDevice δ] {R : δ → δ → Prop}
    (h : KeptByReads (fun _ => True) R) {env : AccessEnv} {m : PathOram δ} {lba : ℕ} {write : Bool}
    {data : Bytes 512}
    (hcut : ¬ Evicts env m lba write data) {r : ℤ × Bytes 512 × PathOram δ}
    (hr : oramAccess env m lba write data = some r) : R m.dev r.2.2.dev := by
  have hfetch : R m.dev (StyxOS.fetchPath env m (pathSlots (getPath (m.posMap lba)))).2.dev :=
    h.fetchPath env m fun _ _ => trivial
  rw [StyxOS.oramAccess] at hr
  by_cases hlba : lba ≥ oramNumLeaves
  · rw [if_pos hlba] at hr
    cases hr
    exact h.refl _
  · rw [if_neg hlba] at hr
    dsimp only at hr
    cases hfits : (StyxOS.fetchPath env m (pathSlots (getPath (m.posMap lba)))).1 with
    | false =>
      rw [hfits, if_pos rfl] at hr
      cases hr
      exact hfetch
    | true =>
      rw [hfits, if_neg Bool.true_eq_false.mp] at hr
      cases hp : process (StyxOS.fetchPath env m (pathSlots (getPath (m.posMap lba)))).2.stash lba
          write data with
      | none =>
        rw [hp] at hr
        cases hr
        exact hfetch
      | some x => exact absurd ⟨Nat.lt_of_not_ge hlba, hfits, by rw [hp]; rfl⟩ hcut

/-- The device with the state of the modules that use it. -/
structure Stick {σ : Type} (T : Transport σ) (csprng : ℕ → List UInt8) where
  disk : UsbDisk T.traced csprng
  posMap : ℕ → ℕ
  stash : List OramBlock
  stray : StrayStore
  volume : Fat32 Unit

namespace Stick

variable {σ : Type} {T : Transport σ} {csprng : ℕ → List UInt8}

def oram (s : Stick T csprng) : PathOram (UsbDisk T.traced csprng) :=
  ⟨s.disk, s.posMap, s.stash, s.stray⟩

def withOram (s : Stick T csprng) (m : PathOram (UsbDisk T.traced csprng)) : Stick T csprng :=
  { s with disk := m.dev, posMap := m.posMap, stash := m.stash }

def withVolume (s : Stick T csprng) (f : Fat32 (UsbDisk T.traced csprng)) : Stick T csprng :=
  { s with disk := f.dev, volume := f.on () }

/-- One call; a halted machine makes none, and a call without result is not made. -/
def step (s : Stick T csprng) (op : StickOp) : Stick T csprng :=
  if s.disk.storage.halted then s
  else
    match op with
    | .merkleUpdate lba plaintext =>
      { s with disk := ⟨StyxOS.merkleUpdate T.traced s.disk.storage lba plaintext.1⟩ }
    | .oramFormat random => s.withOram (StyxOS.oramFormat random s.oram)
    | .oramAccess env lba write data =>
      match StyxOS.oramAccess env s.oram lba write data with
      | none => s
      | some (_, _, m) => s.withOram m
    | .counterWrite cpuid count => { s with disk := StyxOS.counterWrite cpuid count s.disk }
    | .fat32Open fuel path =>
      match StyxOS.fat32Open fuel (s.volume.on s.disk) path with
      | none => s
      | some (_, f) => s.withVolume f
    | .fat32Read fuel startCluster len =>
      match StyxOS.fat32Read fuel (s.volume.on s.disk) startCluster len with
      | none => s
      | some (_, f) => s.withVolume f

/-- The sectors that have been written. -/
def written (s : Stick T csprng) : List UInt32 := s.disk.storage.dev.2

/-- A call that returns has written no sector of another module. -/
def KeepsOut (elf : List UInt8) (s : Stick T csprng) (op : StickOp) : Prop :=
  (s.step op).disk.storage.halted = false →
    ∀ new, (s.step op).written = s.written ++ new →
      ∀ lba ∈ new, ∀ m, m ≠ op.module → ¬ Owns elf m lba

/-- The sector of the hash table that has the hash of an address. -/
def leafLba (lba : UInt32) : ℕ := 10 + lba.toNat / 16

/-- A call that has nothing to write in the sectors of another module: the update of a hash whose
table sector is in none of them, an access that does not get to write, and the others, but for the
formatting of the tree. -/
def Harmless (elf : List UInt8) (s : Stick T csprng) : StickOp → Prop
  | .merkleUpdate lba _ => s.disk.storage.initialized = true → lba.toNat < merkleMaxSectors →
      leafLba lba < reserved ∨
        clusterSector (fileStartCluster + clustersNeeded elf) ≤ leafLba lba ∧
          leafLba lba < oramMetaLba
  | .oramFormat _ => False
  | .oramAccess env lba write data => ¬ Evicts env s.oram lba write data
  | .counterWrite _ _ | .fat32Open _ _ | .fat32Read _ _ _ => True

/-- The hashes in memory are of their length. -/
def Sized (s : Stick T csprng) : Prop :=
  ∀ idx < merkleMaxSectors, (s.disk.storage.leaves idx).length = 32

variable {elf : List UInt8} {s : Stick T csprng} {op : StickOp}

/-- An address of a module, seen by the others. -/
def Outside (elf : List UInt8) (own : StickModule) (lba : UInt32) : Prop :=
  ∀ m, m ≠ own → ¬ Owns elf m lba

theorem clusterSector_end (elf : List UInt8) :
    clusterSector (fileStartCluster + clustersNeeded elf) = 296 + clustersNeeded elf * 8 := by
  have hsize : dataStart = 288 := rfl
  rw [clusterSector, hsize]
  unfold fileStartCluster spc
  omega

theorem outside_counter (elf : List UInt8) :
    Outside elf .counter (UInt32.ofNat authCounterLba) := by
  have hlba : (UInt32.ofNat authCounterLba).toNat = 5 := rfl
  intro m hm
  cases m with
  | counter => exact absurd rfl hm
  | merkle =>
    rw [Owns, hlba]
    omega
  | oram =>
    rw [Owns, hlba]
    unfold oramMetaLba
    omega
  | volume =>
    rw [Owns, hlba]
    unfold reserved
    omega

theorem outside_root (elf : List UInt8) : Outside elf .merkle 3 := by
  have hlba : (3 : UInt32).toNat = 3 := rfl
  intro m hm
  cases m with
  | merkle => exact absurd rfl hm
  | counter =>
    rw [Owns, hlba]
    unfold authCounterLba
    omega
  | oram =>
    rw [Owns, hlba]
    unfold oramMetaLba
    omega
  | volume =>
    rw [Owns, hlba]
    unfold reserved
    omega

/-- The table sectors between the reserved ones and the volume's, and between the end of the file
and the tree. -/
theorem outside_leaf {lba : UInt32} (hlt : lba.toNat < merkleMaxSectors)
    (h : leafLba lba < reserved ∨
      clusterSector (fileStartCluster + clustersNeeded elf) ≤ leafLba lba ∧
        leafLba lba < oramMetaLba) :
    Outside elf .merkle (10 + UInt32.ofNat (lba.toNat / 16)) := by
  unfold merkleMaxSectors at hlt
  have hlba : (10 + UInt32.ofNat (lba.toNat / 16)).toNat = leafLba lba :=
    toNat_tableAddress (by omega)
  have hten : 10 ≤ leafLba lba := Nat.le_add_right _ _
  rw [clusterSector_end] at h
  unfold reserved oramMetaLba at h
  intro m hm
  cases m with
  | merkle => exact absurd rfl hm
  | counter =>
    rw [Owns, hlba]
    unfold authCounterLba
    omega
  | oram =>
    rw [Owns, hlba]
    unfold oramMetaLba
    omega
  | volume =>
    rw [Owns, hlba, clusterSector_end]
    unfold reserved
    omega

theorem keepsOut_of_adds (h : wire.Adds (Outside elf op.module) s.disk (s.step op).disk) :
    s.KeepsOut elf op := by
  intro hrun new hnew lba hlba
  obtain ⟨new', hlog, houtside⟩ := h.adds hrun
  rw [List.append_cancel_left (hnew.symm.trans hlog)] at hlba
  exact houtside lba hlba

theorem sized_of_adds {W : UInt32 → Prop} (hs : s.Sized)
    (h : wire.Adds W s.disk (s.step op).disk) : (s.step op).Sized := by
  intro idx hidx
  rw [show (s.step op).disk.storage.leaves = s.disk.storage.leaves from h.frame]
  exact hs idx hidx

theorem step_adds (h : s.Harmless elf op) (hop : op.module ≠ .merkle) :
    wire.Adds (Outside elf op.module) s.disk (s.step op).disk := by
  have hreads : KeptByReads (fun _ => True) fun d d' : UsbDisk T.traced csprng =>
    wire.Adds (Outside elf op.module) d d' := wire_keptByReads _
  unfold step
  by_cases hrun : s.disk.storage.halted = true
  · rw [if_pos hrun]
    exact .refl _
  · rw [if_neg hrun]
    cases op with
    | merkleUpdate lba plaintext => exact absurd rfl hop
    | oramFormat random => exact h.elim
    | oramAccess env lba write data =>
      dsimp only
      cases hr : StyxOS.oramAccess env s.oram lba write data with
      | none => exact .refl _
      | some r => exact hreads.oramAccess h hr
    | counterWrite cpuid count => exact counterWrite_adds cpuid count s.disk (outside_counter elf)
    | fat32Open fuel path =>
      dsimp only
      cases hr : StyxOS.fat32Open fuel (s.volume.on s.disk) path with
      | none => exact .refl _
      | some r => exact hreads.fat32Open hr
    | fat32Read fuel startCluster len =>
      dsimp only
      cases hr : StyxOS.fat32Read fuel (s.volume.on s.disk) startCluster len with
      | none => exact .refl _
      | some r => exact hreads.fat32Read hr

theorem merkleUpdate_of_not_initialized {σ : Type} (T : Transport σ) {s : Storage σ}
    (h : s.initialized = false) (lba : UInt32) (b : List UInt8) :
    StyxOS.merkleUpdate T s lba b = s := by
  unfold StyxOS.merkleUpdate
  rw [h]
  exact if_pos rfl

/-- What an update of a hash does, where it does something. -/
theorem step_merkleUpdate (hs : s.Sized) (hrun : s.disk.storage.halted = false)
    (hinit : s.disk.storage.initialized = true) {lba : UInt32}
    (hlt : lba.toNat < merkleMaxSectors) (b : Sector) :
    (s.step (.merkleUpdate lba b)).written =
        s.written ++ [10 + UInt32.ofNat (lba.toNat / 16), 3] ∧
      (s.step (.merkleUpdate lba b)).disk.storage.halted = false ∧
      (s.step (.merkleUpdate lba b)).Sized := by
  obtain ⟨dev, tag, root, he, hlog⟩ := merkleUpdate_traced (T := T) hinit hlt hs b.1
  have hstep : s.step (.merkleUpdate lba b) =
      { s with disk := ⟨{ s.disk.storage with
        dev := dev
        tag := tag
        leaves := Function.update s.disk.storage.leaves lba.toNat (sha256Of b.1)
        root := root }⟩ } := by
    unfold step
    rw [if_neg (Bool.eq_false_iff.mp hrun)]
    dsimp only
    rw [he]
  rw [hstep]
  refine ⟨hlog, hrun, ?_⟩
  intro idx hidx
  dsimp only
  rw [Function.update_apply]
  split
  · exact length_sha256Of _
  · exact hs idx hidx

theorem step_merkleUpdate_eq_self {lba : UInt32} (b : Sector)
    (h : ¬ (s.disk.storage.halted = false ∧ s.disk.storage.initialized = true ∧
      lba.toNat < merkleMaxSectors)) : s.step (.merkleUpdate lba b) = s := by
  unfold step
  cases hrun : s.disk.storage.halted with
  | true => exact if_pos rfl
  | false =>
    rw [if_neg Bool.false_ne_true]
    dsimp only
    cases hinit : s.disk.storage.initialized with
    | false => rw [merkleUpdate_of_not_initialized T.traced hinit]
    | true =>
      have hge : merkleMaxSectors ≤ lba.toNat := Nat.le_of_not_lt fun hlt => h ⟨hrun, hinit, hlt⟩
      rw [merkleUpdate_of_ge T.traced hge]

theorem step_merkle (hs : s.Sized) {lba : UInt32} {b : Sector}
    (h : s.Harmless elf (.merkleUpdate lba b)) :
    s.KeepsOut elf (.merkleUpdate lba b) ∧ (s.step (.merkleUpdate lba b)).Sized := by
  by_cases hdoes : s.disk.storage.halted = false ∧ s.disk.storage.initialized = true ∧
      lba.toNat < merkleMaxSectors
  · obtain ⟨hrun, hinit, hlt⟩ := hdoes
    obtain ⟨hlog, -, hsized⟩ := step_merkleUpdate hs hrun hinit hlt b
    refine ⟨?_, hsized⟩
    intro _ new hnew l hl
    rw [List.append_cancel_left (hnew.symm.trans hlog)] at hl
    rcases List.mem_pair.mp hl with rfl | rfl
    · exact outside_leaf hlt (h hinit hlt)
    · exact outside_root elf
  · have hself := step_merkleUpdate_eq_self b hdoes
    constructor
    · apply keepsOut_of_adds
      rw [hself]
      exact .refl _
    · rw [hself]
      exact hs

theorem step_keepsOut (hs : s.Sized) (h : s.Harmless elf op) :
    s.KeepsOut elf op ∧ (s.step op).Sized := by
  by_cases hop : op.module = .merkle
  · cases op with
    | merkleUpdate lba b => exact step_merkle hs h
    | _ => cases hop
  · have hadds := step_adds h hop
    exact ⟨keepsOut_of_adds hadds, sized_of_adds hs hadds⟩

/-- In a run of harmless calls, in any order, no call writes a sector of another module. -/
theorem regions_run (elf : List UInt8) (hs : s.Sized) {ops : List StickOp}
    (h : AllSteps step (Harmless elf) s ops) : AllSteps step (KeepsOut elf) s ops :=
  allSteps_of_allSteps step (fun _ _ hs h => (step_keepsOut hs h).1)
    (fun _ _ hs h => (step_keepsOut hs h).2) hs h

/-! ## The table in the volume -/

/-- The image of a small file with the hash table in use. -/
def mounted : Stick MemDisk.transport fun _ => [] where
  disk := ⟨{ MemDisk.blank with
    dev := (⟨fun lba => imageSector [1, 2, 3] lba.toNat, .command⟩, [])
    leaves := fun _ => List.replicate 32 0
    initialized := true }⟩
  posMap := fun _ => 0
  stash := []
  stray := .unused
  volume :=
    { dev := ()
      fatStart := 32
      dataStart := 288
      rootCluster := 2
      spc := 8
      sectorBuf := Bytes.zero 512
      ready := true }

theorem mounted_sized : mounted.Sized := fun _ _ => List.length_replicate

theorem regions_run_sample :
    AllSteps step (KeepsOut [1, 2, 3]) mounted
      [.merkleUpdate 351 Sector.zero, .counterWrite ⟨0, 0⟩ 1] :=
  regions_run [1, 2, 3] mounted_sized ⟨fun _ _ => .inl (by decide), trivial, trivial⟩

/-- The update of the hash of address 352 writes the first sector of the allocation table. -/
theorem merkle_writes_volume :
    ¬ AllSteps step (KeepsOut [1, 2, 3]) mounted [.merkleUpdate 352 Sector.zero] := by
  rintro ⟨h, -⟩
  obtain ⟨hlog, hrun, -⟩ := step_merkleUpdate mounted_sized rfl rfl
    (show (352 : UInt32).toNat < merkleMaxSectors by decide) Sector.zero
  have hout := h hrun _ hlog 32 (by decide) .volume (by decide)
  exact hout (.inr ⟨by decide, by decide⟩)

end Stick

end StyxOS
