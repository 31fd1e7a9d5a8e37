import StyxOS.Storage.ReadAfterWrite

/-! # What the integrity check covers

The sector cipher turns any change of a sector into some other plaintext, so a
change is found by the hash of the plaintext or not at all. The table has a hash
for each of the first addresses, and beyond them every content is allowed.
-/

namespace StyxOS

section
variable {σ : Type*} {T : Transport σ} (F : FaithfulTransport T)

/-- The storage stack with encryption on and a hash of what was last written to each address that
the table reaches. -/
structure Guarded (s : Storage σ) (written : UInt32 → Sector) : Prop where
  ready : F.Ready s.dev
  encrypting : s.encryptionEnabled = true
  initialized : s.initialized = true
  running : s.halted = false
  inStep : ∀ lba : UInt32, lba.toNat < merkleMaxSectors →
    s.leaves lba.toNat = sha256Of (written lba).1

/-- What the raw content of an address decrypts to. -/
def Storage.plaintext (s : Storage σ) (lba : UInt32) : Sector :=
  (F.disk s.dev lba).decrypt s.xtsCtx lba

/-- The two contents are not a collision of the truncated hash. -/
def NoCollision (a b : Sector) : Prop := sha256Of a.1 = sha256Of b.1 → a = b

/-- The read finds a mismatch: it ends in the self-destruct, which does not return. -/
def ReportsMismatch (T : Transport σ) (csprng : ℕ → List UInt8) (s : Storage σ) (lba : UInt32)
    (buf : Sector) : Prop :=
  (usbMscReadSector T csprng s lba buf.1).2.2.halted = true

/-- Every address of the device is covered: whatever its raw content, if that decrypts to something
other than what was written last, a read reports a mismatch. -/
def CoversVolume (csprng : ℕ → List UInt8) (s : Storage σ) (written : UInt32 → Sector) : Prop :=
  ∀ lba < s.sectorCnt, s.plaintext F lba ≠ written lba →
    NoCollision (s.plaintext F lba) (written lba) →
    ∀ buf, ReportsMismatch T csprng s lba buf

variable {F} {csprng : ℕ → List UInt8} {s : Storage σ} {written : UInt32 → Sector}

theorem Guarded.verify_iff (h : Guarded F s written) (lba : UInt32) (b : Sector) :
    integrityVerifySector s lba b.1 = true ↔
      merkleMaxSectors ≤ lba.toNat ∨ sha256Of b.1 = sha256Of (written lba).1 := by
  rw [integrityVerifySector, merkleVerify, h.initialized]
  by_cases hlba : merkleMaxSectors ≤ lba.toNat
  · rw [decide_eq_true hlba]
    exact iff_of_true rfl (Or.inl hlba)
  · rw [decide_eq_false hlba, h.inStep lba (Nat.not_le.mp hlba), or_iff_right hlba]
    exact beq_iff_eq

/-- A read returns the plaintext, and goes on only if the check accepts it. -/
theorem Guarded.read_eq (h : Guarded F s written) (csprng : ℕ → List UInt8) (lba : UInt32)
    (buf : Sector) :
    ∃ d', usbMscReadSector T csprng s lba buf.1 =
        (0, (s.plaintext F lba).1,
          if integrityVerifySector s lba (s.plaintext F lba).1 then
            { s with dev := d', tag := s.tag + 1 }
          else destructTrigger T csprng { s with dev := d', tag := s.tag + 1 }) := by
  obtain ⟨d', he, -, -⟩ := F.read_checked csprng h.ready h.encrypting lba buf
  exact ⟨d', he⟩

/-- Below the end of the table a change is found; beyond it, the read returns zero with the altered
plaintext. -/
theorem tampering_detected (F : FaithfulTransport T) (csprng : ℕ → List UInt8)
    (h : Guarded F s written) (lba : UInt32) (hne : s.plaintext F lba ≠ written lba)
    (hcol : NoCollision (s.plaintext F lba) (written lba)) (buf : Sector) :
    (lba.toNat < merkleMaxSectors → ReportsMismatch T csprng s lba buf) ∧
      (merkleMaxSectors ≤ lba.toNat →
        (usbMscReadSector T csprng s lba buf.1).1 = 0 ∧
        (usbMscReadSector T csprng s lba buf.1).2.1 = (s.plaintext F lba).1 ∧
        (usbMscReadSector T csprng s lba buf.1).2.2.halted = false) := by
  obtain ⟨d', he⟩ := h.read_eq csprng lba buf
  have hverify := h.verify_iff lba (s.plaintext F lba)
  constructor
  · intro hlba
    have hbad : ¬ integrityVerifySector s lba (s.plaintext F lba).1 = true := by
      rw [hverify]
      rintro (hge | hsame)
      · exact absurd hge (Nat.not_le.mpr hlba)
      · exact hne (hcol hsame)
    rw [ReportsMismatch, he]
    dsimp only
    rw [if_neg hbad]
    rfl
  · intro hlba
    have hgood : integrityVerifySector s lba (s.plaintext F lba).1 = true :=
      hverify.mpr (Or.inl hlba)
    rw [he]
    refine ⟨rfl, rfl, ?_⟩
    dsimp only
    rw [if_pos hgood]
    exact h.running

end

/-! ## The first address beyond the table -/

/-- A sector of ones. -/
def ones : Sector := ⟨List.replicate 512 1, by rw [List.length_replicate]⟩

theorem ones_ne_zero : ones ≠ Sector.zero := by
  intro h
  have hhead := congrArg (fun b : Sector => b.1.head?) h
  revert hhead
  decide

/-- A disk whose every sector holds zeros, where ones were written. -/
def zeroed : Storage MemDisk where
  dev := ⟨fun lba => Sector.zero.encrypt (aes256XtsInit (List.replicate 64 0x55)) lba, .command⟩
  tag := 1
  sectorCnt := 0x100000
  encryptionEnabled := true
  xtsCtx := aes256XtsInit (List.replicate 64 0x55)
  leaves := fun _ => sha256Of ones.1
  root := []
  initialized := true
  authDerivedKey := []
  draws := 0
  halted := false

theorem zeroed_leaf (idx : ℕ) : zeroed.leaves idx = sha256Of ones.1 := by
  simp only [zeroed]

theorem zeroed_guarded : Guarded MemDisk.faithful zeroed fun _ => ones where
  ready := rfl
  encrypting := rfl
  initialized := rfl
  running := rfl
  inStep lba _ := zeroed_leaf lba.toNat

theorem zeroed_plaintext (lba : UInt32) : zeroed.plaintext MemDisk.faithful lba = Sector.zero :=
  Sector.decrypt_encrypt _ lba Sector.zero

theorem noCollision_zero_ones : NoCollision Sector.zero ones := by
  intro h
  revert h
  decide +kernel

theorem tampering_detected_sample :
    ReportsMismatch MemDisk.transport (fun _ => []) zeroed 600 Sector.zero := by
  have hne : zeroed.plaintext MemDisk.faithful 600 ≠ ones := by
    rw [zeroed_plaintext]
    exact ones_ne_zero.symm
  have hcol : NoCollision (zeroed.plaintext MemDisk.faithful 600) ones := by
    rw [zeroed_plaintext]
    exact noCollision_zero_ones
  exact (tampering_detected MemDisk.faithful (fun _ => []) zeroed_guarded 600 hne hcol
    Sector.zero).1 (by decide)

/-- Zeros in the place of ones at address 8192 are not reported. -/
theorem volume_not_covered :
    Guarded MemDisk.faithful zeroed (fun _ => ones) ∧
      ¬ CoversVolume MemDisk.faithful (fun _ => []) zeroed fun _ => ones := by
  refine ⟨zeroed_guarded, fun h => ?_⟩
  have hne : zeroed.plaintext MemDisk.faithful 8192 ≠ ones := by
    rw [zeroed_plaintext]
    exact ones_ne_zero.symm
  have hcol : NoCollision (zeroed.plaintext MemDisk.faithful 8192) ones := by
    rw [zeroed_plaintext]
    exact noCollision_zero_ones
  have hreport := h 8192 (by decide) hne hcol Sector.zero
  have hgood : integrityVerifySector zeroed 8192 (zeroed.plaintext MemDisk.faithful 8192).1 =
      true := (zeroed_guarded.verify_iff 8192 _).mpr (Or.inl (by decide))
  obtain ⟨d', he⟩ := zeroed_guarded.read_eq (fun _ => []) 8192 Sector.zero
  rw [ReportsMismatch, he] at hreport
  dsimp only at hreport
  rw [if_pos hgood] at hreport
  cases hreport

end StyxOS
