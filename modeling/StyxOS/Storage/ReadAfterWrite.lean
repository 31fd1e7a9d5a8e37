import StyxOS.Library.Run
import StyxOS.Storage.Merkle

/-! # Reading back what was written

Writing a sector stores its ciphertext and leaves the hash table alone, so a
later read of it decrypts to what was written but is checked against the hash
that the table held at start. A read back is accepted exactly where that hash
is the one of the content written, or where the table does not reach.
-/

namespace StyxOS

open ByteMem StepSystem

/-- A call of the driver by its clients. -/
inductive MscCall where
  | read (lba : UInt32) (buf : Sector)
  | write (lba : UInt32) (buf : Sector)

/-- The storage stack with a record of the content last written to each address. -/
structure Session (σ : Type*) where
  storage : Storage σ
  written : UInt32 → Option Sector

section
variable {σ : Type*} (T : Transport σ) (csprng : ℕ → List UInt8)

/-- One call; a halted machine makes none. -/
def Session.call (s : Session σ) (c : MscCall) : Session σ :=
  if s.storage.halted then s
  else
    match c with
    | .read lba buf => { s with storage := (usbMscReadSector T csprng s.storage lba buf.1).2.2 }
    | .write lba buf =>
      { storage := (usbMscWriteSector T s.storage lba buf.1).2
        written := Function.update s.written lba (some buf) }

/-- The session that starts with `merkle_init` and has encryption on from then on. -/
def Session.start (s : Storage σ) : Session σ where
  storage := { merkleInit T csprng s with encryptionEnabled := true }
  written := fun _ => none

/-- The read returns the content last written to its address, which the integrity check accepts,
and the machine goes on. -/
def Session.ReadsBack (s : Session σ) : MscCall → Prop
  | .write _ _ => True
  | .read lba buf => ∀ b, s.written lba = some b → s.storage.halted = false →
      (usbMscReadSector T csprng s.storage lba buf.1).1 = 0 ∧
      (usbMscReadSector T csprng s.storage lba buf.1).2.1 = b.1 ∧
      integrityVerifySector s.storage lba b.1 = true ∧
      (usbMscReadSector T csprng s.storage lba buf.1).2.2.halted = false

/-- Where the content last written was not hashed to the leaf in the table, the address is beyond
the table. -/
def Session.LeafCurrent (leaf : ℕ → List UInt8) (s : Session σ) : MscCall → Prop
  | .write _ _ => True
  | .read lba _ => ∀ b, s.written lba = some b → s.storage.halted = false →
      merkleMaxSectors ≤ lba.toNat ∨ sha256Of b.1 = leaf lba.toNat

variable {T csprng} (F : FaithfulTransport T)

/-- What the storage stack keeps while the machine runs: the disk holds the ciphertext of what was
last written, and the hash table is the one loaded at start. -/
structure Session.Mirrors (leaf : ℕ → List UInt8) (s : Session σ) : Prop where
  ready : F.Ready s.storage.dev
  encrypting : s.storage.encryptionEnabled = true
  initialized : s.storage.initialized = true
  leaves : s.storage.leaves = leaf
  ciphertext : ∀ lba b, s.written lba = some b →
    F.disk s.storage.dev lba = b.encrypt s.storage.xtsCtx lba

variable {leaf : ℕ → List UInt8} {s : Session σ} {F}

theorem Session.Mirrors.verify_iff (h : s.Mirrors F leaf) (lba : UInt32) (b : Sector) :
    integrityVerifySector s.storage lba b.1 = true ↔
      merkleMaxSectors ≤ lba.toNat ∨ sha256Of b.1 = leaf lba.toNat := by
  simp only [integrityVerifySector, merkleVerify, h.initialized, h.leaves, Bool.not_true,
    Bool.false_or]
  by_cases hr : merkleMaxSectors ≤ lba.toNat
  · simp [hr]
  · simp [hr]

theorem destructTrigger_halted (s : Storage σ) : (destructTrigger T csprng s).halted = true := rfl

theorem Session.Mirrors.readsBack_iff (h : s.Mirrors F leaf) (c : MscCall) :
    s.ReadsBack T csprng c ↔ s.LeafCurrent leaf c := by
  cases c with
  | write lba buf => exact Iff.rfl
  | read lba buf =>
    obtain ⟨d', he, -, -⟩ := F.read_checked csprng h.ready h.encrypting lba buf
    apply forall_congr'
    intro b
    apply forall_congr'
    intro hb
    rw [h.ciphertext lba b hb, Sector.decrypt_encrypt] at he
    rw [he, ← h.verify_iff]
    constructor
    · rintro hg hh
      exact (hg hh).2.2.1
    · rintro hv hh
      refine ⟨rfl, rfl, hv hh, ?_⟩
      rw [if_pos (hv hh)]
      exact hh

theorem Session.call_write (h : s.storage.halted = false) {lba : UInt32} {buf : Sector} :
    s.call T csprng (.write lba buf) =
      { storage := (usbMscWriteSector T s.storage lba buf.1).2
        written := Function.update s.written lba (some buf) } :=
  if_neg (Bool.eq_false_iff.mp h)

theorem Session.Mirrors.call (h : s.storage.halted = false → s.Mirrors F leaf) (c : MscCall)
    (hr : (s.call T csprng c).storage.halted = false) : (s.call T csprng c).Mirrors F leaf := by
  by_cases hh : s.storage.halted = true
  · have hc : s.call T csprng c = s := if_pos hh
    rw [hc, hh] at hr
    cases hr
  · have hm := h (Bool.eq_false_iff.mpr hh)
    cases c with
    | write lba buf =>
      obtain ⟨d', he, hrd, hd⟩ := F.write_spec hm.ready lba buf
      rw [Session.call_write (Bool.eq_false_iff.mpr hh), he]
      refine ⟨hrd, hm.encrypting, hm.initialized, hm.leaves, ?_⟩
      intro l b hb
      dsimp only at hb ⊢
      rw [hd]
      by_cases hl : l = lba
      · subst hl
        rw [Function.update_self, Option.some.injEq] at hb
        rw [Function.update_self, Storage.stored, if_pos hm.encrypting, hb]
      · rw [Function.update_of_ne hl] at hb
        rw [Function.update_of_ne hl]
        exact hm.ciphertext l b hb
    | read lba buf =>
      have hc : s.call T csprng (.read lba buf) =
          { s with storage := (usbMscReadSector T csprng s.storage lba buf.1).2.2 } := if_neg hh
      obtain ⟨d', he, hrd, hd⟩ := F.read_checked csprng hm.ready hm.encrypting lba buf
      rw [hc, he] at hr ⊢
      dsimp only at hr ⊢
      by_cases hv : integrityVerifySector s.storage lba
          ((F.disk s.storage.dev lba).decrypt s.storage.xtsCtx lba).1 = true
      · rw [if_pos hv]
        refine ⟨hrd, hm.encrypting, hm.initialized, hm.leaves, ?_⟩
        intro l b hb
        dsimp only at hb ⊢
        rw [hd]
        exact hm.ciphertext l b hb
      · rw [if_neg hv, destructTrigger_halted] at hr
        cases hr

theorem Session.start_mirrors {s : Storage σ} (h : F.Ready s.dev) :
    (Session.start T csprng s).Mirrors F (initialLeaf F s) := by
  obtain ⟨d', t', he, hr, -⟩ := merkleInit_spec F csprng h
  unfold Session.start
  rw [he]
  exact ⟨hr, rfl, rfl, rfl, fun lba b hb => by cases hb⟩

theorem Session.start_halted (F : FaithfulTransport T) {s : Storage σ} (h : F.Ready s.dev) :
    (Session.start T csprng s).storage.halted = s.halted := by
  obtain ⟨d', t', he, -, -⟩ := merkleInit_spec F csprng h
  unfold Session.start
  rw [he]

theorem Session.allSteps_iff {s : Storage σ} (h : F.Ready s.dev) (cs : List MscCall) :
    AllSteps (Session.call T csprng) (Session.ReadsBack T csprng) (Session.start T csprng s) cs ↔
      AllSteps (Session.call T csprng) (Session.LeafCurrent (initialLeaf F s))
        (Session.start T csprng s) cs := by
  refine allSteps_congr (Session.call T csprng)
    (I := fun s' => s'.storage.halted = false → s'.Mirrors F (initialLeaf F s)) ?_ ?_
    (fun _ => Session.start_mirrors h) cs
  · intro s' c hm
    by_cases hh : s'.storage.halted = false
    · exact (hm hh).readsBack_iff c
    · cases c with
      | write lba buf => exact Iff.rfl
      | read lba buf =>
        constructor
        · exact fun _ _ _ hf => absurd hf hh
        · exact fun _ _ _ hf => absurd hf hh
  · intro s' c hm _ hr
    exact Session.Mirrors.call hm c hr

/-- A sector written in the range of the table, to a leaf that is not its hash, is not current when
it is read next. -/
theorem Session.not_leafCurrent {s : Session σ} (h : s.storage.halted = false) {lba : UInt32}
    (hlba : lba.toNat < merkleMaxSectors) {b buf : Sector}
    (hleaf : sha256Of b.1 ≠ leaf lba.toNat) :
    ¬ AllSteps (Session.call T csprng) (Session.LeafCurrent leaf) s
      [.write lba b, .read lba buf] := by
  rintro ⟨-, hread, -⟩
  rw [Session.call_write h] at hread
  rcases hread b (Function.update_self _ _ _) h with hr | hr
  · exact absurd hr (Nat.not_le.mpr hlba)
  · exact hleaf hr

/-- A run of reads and writes reads back every sector written in it exactly when no read finds, for
content written in the run, a leaf that the table held for other content. -/
theorem storage_reads_back_iff (F : FaithfulTransport T) (csprng : ℕ → List UInt8)
    {s : Storage σ} (h : F.Ready s.dev) (cs : List MscCall) :
    AllSteps (Session.call T csprng) (Session.ReadsBack T csprng) (Session.start T csprng s) cs ↔
      AllSteps (Session.call T csprng) (Session.LeafCurrent (initialLeaf F s))
        (Session.start T csprng s) cs :=
  Session.allSteps_iff h cs

end

/-! ## A disk in memory -/

inductive BotPhase where
  | command
  | dataIn (lba : UInt32)
  | dataOut (lba : UInt32)
  | status
deriving DecidableEq

/-- A mass-storage device that keeps its sectors in memory. -/
structure MemDisk where
  disk : UInt32 → Sector
  phase : BotPhase

namespace MemDisk

/-- The address in the command block of a command. -/
def commandLba (cbw : List UInt8) : UInt32 := UInt32.ofNat (beVal ((cbw.drop 17).take 4))

def transport : Transport MemDisk where
  bulkOut d bs :=
    match d.phase with
    | .command =>
      if bs.getD 15 0 = 0x28 then (0, { d with phase := .dataIn (commandLba bs) })
      else if bs.getD 15 0 = 0x2A then (0, { d with phase := .dataOut (commandLba bs) })
      else (-1, d)
    | .dataOut lba =>
      if h : bs.length = 512 then
        (0, { disk := Function.update d.disk lba ⟨bs, h⟩, phase := .status })
      else (-1, d)
    | _ => (-1, d)
  bulkIn d n :=
    match d.phase with
    | .dataIn lba =>
      if n = 512 then (0, (d.disk lba).1, { d with phase := .status }) else (-1, [], d)
    | .status =>
      if n = 13 then (0, leBytes 4 0x53425355 ++ List.replicate 9 0, { d with phase := .command })
      else (-1, [], d)
    | _ => (-1, [], d)

theorem commandLba_sectorCb (tag lba : UInt32) (c : Cbw)
    (h : c = readCbw tag lba ∨ c = writeCbw tag lba) : commandLba c.toBytes = lba := by
  have hd : (c.toBytes.drop 17).take 4 = beBytes 4 lba.toNat := by
    rcases h with rfl | rfl <;> rfl
  have hl : lba.toNat < 256 ^ 4 := lba.toNat_lt
  rw [commandLba, hd, beVal_beBytes, Nat.mod_eq_of_lt hl, UInt32.ofNat_toNat]

def faithful : FaithfulTransport transport where
  disk d := d.disk
  Ready d := d.phase = .command
  write := by
    rintro ⟨disk, phase⟩ rfl tag lba b
    refine ⟨⟨disk, .dataOut lba⟩, ⟨Function.update disk lba b, .status⟩,
      ⟨Function.update disk lba b, .command⟩, leBytes 4 0x53425355 ++ List.replicate 9 0,
      ?_, ?_, rfl, by decide, rfl, rfl, rfl⟩
    · have hl := commandLba_sectorCb tag lba _ (Or.inr rfl)
      have ho : (writeCbw tag lba).toBytes.getD 15 0 = 0x2A := rfl
      unfold transport
      dsimp only
      rw [ho, hl]
      rfl
    · change (if h : b.1.length = 512 then _ else _) = _
      rw [dif_pos b.2]
  read := by
    rintro ⟨disk, phase⟩ rfl tag lba
    refine ⟨⟨disk, .dataIn lba⟩, ⟨disk, .status⟩, ⟨disk, .command⟩,
      leBytes 4 0x53425355 ++ List.replicate 9 0, ?_, rfl, rfl, by decide, rfl, rfl, rfl⟩
    have hl := commandLba_sectorCb tag lba _ (Or.inl rfl)
    have ho : (readCbw tag lba).toBytes.getD 15 0 = 0x28 := rfl
    unfold transport
    dsimp only
    rw [ho, hl]
    rfl

/-- A blank disk, before `merkle_init`. -/
def blank : Storage MemDisk where
  dev := ⟨fun _ => Sector.zero, .command⟩
  tag := 1
  sectorCnt := 0x100000
  encryptionEnabled := false
  xtsCtx := aes256XtsInit (List.replicate 64 0x55)
  leaves := fun _ => []
  root := []
  initialized := false
  authDerivedKey := List.replicate 64 0x55
  draws := 0
  halted := false

end MemDisk

theorem storage_reads_back_iff_sample :
    AllSteps (Session.call MemDisk.transport fun _ => [])
      (Session.ReadsBack MemDisk.transport fun _ => [])
      (Session.start MemDisk.transport (fun _ => []) MemDisk.blank)
      [.write 9000 Sector.zero, .read 9000 Sector.zero] := by
  apply (storage_reads_back_iff MemDisk.faithful (fun _ => []) (s := MemDisk.blank) rfl _).mpr
  refine ⟨trivial, ?_, trivial⟩
  intro b _ _
  left
  decide

/-- On a blank disk, the sector written to address 600 is not read back: its hash is not the zeros
that the table holds, and the read starts the self-destruct. -/
theorem storage_not_read_back :
    ¬ AllSteps (Session.call MemDisk.transport fun _ => [])
      (Session.ReadsBack MemDisk.transport fun _ => [])
      (Session.start MemDisk.transport (fun _ => []) MemDisk.blank)
      [.write 600 Sector.zero, .read 600 Sector.zero] := by
  rw [Session.allSteps_iff (F := MemDisk.faithful) (s := MemDisk.blank) rfl]
  apply Session.not_leafCurrent
  · exact Session.start_halted (F := MemDisk.faithful) rfl
  · decide
  · decide +kernel

end StyxOS
