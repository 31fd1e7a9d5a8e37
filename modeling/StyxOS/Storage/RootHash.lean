import StyxOS.Storage.ReadAfterWrite

/-! # The persisted root

`merkle_update` persists the leaf it changes and the root with its MAC, so the
table on the device is the one in memory. `merkle_init` loads the table again
and never reads the root: the leaves after a restart are those in force before
exactly when nobody changed the table meanwhile.
-/

namespace StyxOS

open ByteMem StepSystem

section
variable {σ : Type*} (T : Transport σ) (csprng : ℕ → List UInt8)

/-- One call of `merkle_update`. -/
def merkleStep (s : Storage σ) (u : UInt32 × Sector) : Storage σ := merkleUpdate T s u.1 u.2.1

/-- `merkle_init` has a way out other than the table it loaded: the tree is not in use, or the
machine has halted. -/
def RefusesTable (s : Storage σ) : Prop :=
  (merkleInit T csprng s).initialized = false ∨ (merkleInit T csprng s).halted = true

/-- A restart from `s'` refuses the table or ends up with the leaves in force before. -/
def RestartProtects (s s' : Storage σ) : Prop :=
  RefusesTable T csprng s' ∨
    ∀ idx < merkleMaxSectors, (merkleInit T csprng s').leaves idx = s.leaves idx

/-- The sectors of the leaf table are the same on both disks. -/
def SameTable (disk disk' : UInt32 → Sector) : Prop :=
  ∀ i < 512, disk' (10 + UInt32.ofNat i) = disk (10 + UInt32.ofNat i)

variable {T} (F : FaithfulTransport T)

/-- The table on the device is the one in memory. -/
structure Tabled (s : Storage σ) : Prop where
  ready : F.Ready s.dev
  initialized : s.initialized = true
  leaves : ∀ idx < merkleMaxSectors, leafOnDisk (F.disk s.dev) idx = s.leaves idx

variable {F} {s s' : Storage σ}

theorem length_leafOnDisk (disk : UInt32 → Sector) (idx : ℕ) :
    (leafOnDisk disk idx).length = 32 := by
  rw [leafOnDisk, List.length_take, List.length_drop, (disk _).2]
  omega

theorem Tabled.length_leaf (h : Tabled F s) {idx : ℕ} (hidx : idx < merkleMaxSectors) :
    (s.leaves idx).length = 32 := by
  rw [← h.leaves idx hidx]
  exact length_leafOnDisk ..

theorem length_sha256Of (data : List UInt8) : (sha256Of data).length = 32 := by
  rw [sha256Of, List.length_take, length_sha512]
  rfl

theorem length_recomputeRoot (leaves : ℕ → List UInt8) : (recomputeRoot leaves).length = 32 := by
  have hfold : ∀ (is : List ℕ) (running : List UInt8), running.length = 32 →
      (is.foldl (fun running i => sha256Of (running ++ leaves i)) running).length = 32 := by
    intro is
    induction is with
    | nil => exact fun _ h => h
    | cons i is ih => exact fun _ _ => ih _ (length_sha256Of _)
  exact hfold _ _ (length_sha256Of _)

/-! ## Writing the table -/

theorem FaithfulTransport.writeRaw_spec (F : FaithfulTransport T) (h : F.Ready s.dev)
    (lba : UInt32) (b : Sector) :
    ∃ d', writeRaw T s lba b.1 = { s with dev := d', tag := s.tag + 1 } ∧ F.Ready d' ∧
      F.disk d' = Function.update (F.disk s.dev) lba b := by
  obtain ⟨d', he, hr, hd⟩ :=
    F.write_spec (s := { s with encryptionEnabled := false }) h lba b
  refine ⟨d', ?_, hr, hd⟩
  rw [writeRaw, he]

/-- The table sector that `persist_leaf` writes. -/
def leafSector (leaves : ℕ → List UInt8) (si : ℕ) : List UInt8 :=
  (List.range 16).flatMap fun i =>
    if si * 16 + i < merkleMaxSectors then leaves (si * 16 + i) else List.replicate 32 0

theorem leafSector_entry {leaves : ℕ → List UInt8}
    (h : ∀ idx < merkleMaxSectors, (leaves idx).length = 32) (si : ℕ) :
    ∀ i < 16, (if si * 16 + i < merkleMaxSectors then leaves (si * 16 + i)
      else List.replicate 32 0).length = 32 := by
  intro i _
  split
  · next hlt => exact h _ hlt
  · exact List.length_replicate

theorem length_leafSector {leaves : ℕ → List UInt8}
    (h : ∀ idx < merkleMaxSectors, (leaves idx).length = 32) (si : ℕ) :
    (leafSector leaves si).length = 512 :=
  length_flatMap_range (leafSector_entry h si)

theorem toNat_tableAddress {i : ℕ} (hi : i < 512) : (10 + UInt32.ofNat i).toNat = 10 + i := by
  rw [UInt32.toNat_add, UInt32.toNat_ofNat_of_lt' (by change i < 2 ^ 32; omega)]
  change (10 + i) % 2 ^ 32 = 10 + i
  omega

theorem tableAddress_inj {i j : ℕ} (hi : i < 512) (hj : j < 512)
    (h : 10 + UInt32.ofNat i = 10 + UInt32.ofNat j) : i = j := by
  have hn := congrArg UInt32.toNat h
  rw [toNat_tableAddress hi, toNat_tableAddress hj] at hn
  omega

theorem tableAddress_ne_root {i : ℕ} (hi : i < 512) : 10 + UInt32.ofNat i ≠ 3 := by
  intro h
  have hn := congrArg UInt32.toNat h
  rw [toNat_tableAddress hi] at hn
  change 10 + i = 3 at hn
  omega

theorem persistLeaf_spec (hr : F.Ready s.dev) {lba : UInt32} (hlba : lba.toNat < merkleMaxSectors)
    (hlen : ∀ idx < merkleMaxSectors, (s.leaves idx).length = 32) :
    ∃ d', persistLeaf T s lba = { s with dev := d', tag := s.tag + 1 } ∧ F.Ready d' ∧
      ∀ idx < merkleMaxSectors, leafOnDisk (F.disk d') idx =
        if idx / 16 = lba.toNat / 16 then s.leaves idx else leafOnDisk (F.disk s.dev) idx := by
  obtain ⟨d', he, hr', hd⟩ := F.writeRaw_spec hr (10 + UInt32.ofNat (lba.toNat / 16))
    ⟨leafSector s.leaves (lba.toNat / 16), length_leafSector hlen _⟩
  refine ⟨d', ?_, hr', ?_⟩
  · unfold persistLeaf
    rw [if_neg (Nat.not_le.mpr hlba)]
    exact he
  · intro idx hidx
    unfold merkleMaxSectors at hidx hlba
    rw [leafOnDisk, hd]
    split
    · next hsame =>
      rw [hsame, Function.update_self]
      have hentry := take_drop_flatMap_range (leafSector_entry hlen (lba.toNat / 16))
        (show idx % 16 < 16 by omega)
      have hidx' : lba.toNat / 16 * 16 + idx % 16 = idx := by omega
      rw [hidx', if_pos (show idx < merkleMaxSectors from hidx)] at hentry
      exact hentry
    · next hne =>
      rw [Function.update_of_ne]
      · rfl
      · intro h
        exact hne (tableAddress_inj (by omega) (by omega) h)

theorem persistRoot_spec (hr : F.Ready s.dev) (hroot : s.root.length = 32) :
    ∃ d', persistRoot T s = { s with dev := d', tag := s.tag + 1 } ∧ F.Ready d' ∧
      ∀ idx < merkleMaxSectors, leafOnDisk (F.disk d') idx = leafOnDisk (F.disk s.dev) idx := by
  have hlen : (s.root ++ hmacSha512 merkleRootKey s.root ++ List.replicate (512 - 96) 0).length =
      512 := by
    simp only [List.length_append, List.length_replicate, length_hmacSha512, hroot]
  obtain ⟨d', he, hr', hd⟩ := F.writeRaw_spec hr 3 ⟨_, hlen⟩
  refine ⟨d', he, hr', fun idx hidx => ?_⟩
  unfold merkleMaxSectors at hidx
  rw [leafOnDisk, hd, Function.update_of_ne (tableAddress_ne_root (by omega))]
  rfl

theorem merkleUpdate_of_ge (T : Transport σ) {lba : UInt32} (h : merkleMaxSectors ≤ lba.toNat)
    (b : List UInt8) : merkleUpdate T s lba b = s := by
  unfold merkleUpdate
  rw [decide_eq_true h, Bool.or_true]
  exact if_pos rfl

theorem merkleUpdate_of_lt (T : Transport σ) (hinit : s.initialized = true) {lba : UInt32}
    (h : lba.toNat < merkleMaxSectors) (b : List UInt8) :
    merkleUpdate T s lba b =
      persistRoot T
        { persistLeaf T { s with
            leaves := Function.update s.leaves lba.toNat (sha256Of b) } lba with
          root := recomputeRoot (persistLeaf T
            { s with leaves := Function.update s.leaves lba.toNat (sha256Of b) } lba).leaves } := by
  unfold merkleUpdate
  rw [decide_eq_false (Nat.not_le.mpr h), hinit]
  exact if_neg Bool.false_ne_true

/-- What an update of a leaf does. -/
theorem Tabled.merkleUpdate_spec (h : Tabled F s) {lba : UInt32}
    (hlt : lba.toNat < merkleMaxSectors) (b : List UInt8) :
    ∃ d', merkleUpdate T s lba b =
        { s with
          dev := d'
          tag := s.tag + 1 + 1
          leaves := Function.update s.leaves lba.toNat (sha256Of b)
          root := recomputeRoot (Function.update s.leaves lba.toNat (sha256Of b)) } ∧
      F.Ready d' ∧ ∀ idx < merkleMaxSectors, leafOnDisk (F.disk d') idx =
        Function.update s.leaves lba.toNat (sha256Of b) idx := by
  have hlen : ∀ idx < merkleMaxSectors,
      (Function.update s.leaves lba.toNat (sha256Of b) idx).length = 32 := by
    intro idx hidx
    rw [Function.update_apply]
    split
    · exact length_sha256Of _
    · exact h.length_leaf hidx
  obtain ⟨d₁, he₁, hr₁, hd₁⟩ := persistLeaf_spec (F := F)
    (s := { s with leaves := Function.update s.leaves lba.toNat (sha256Of b) }) h.ready hlt hlen
  obtain ⟨d₂, he₂, hr₂, hd₂⟩ := persistRoot_spec (F := F)
    (s := { s with
      dev := d₁
      tag := s.tag + 1
      leaves := Function.update s.leaves lba.toNat (sha256Of b)
      root := recomputeRoot (Function.update s.leaves lba.toNat (sha256Of b)) }) hr₁ (by
    dsimp only
    exact length_recomputeRoot (Function.update s.leaves lba.toNat (sha256Of b)))
  refine ⟨d₂, ?_, hr₂, ?_⟩
  · rw [merkleUpdate_of_lt T h.initialized hlt, he₁]
    dsimp only at he₂ ⊢
    rw [he₂]
  · intro idx hidx
    rw [hd₂ idx hidx]
    dsimp only
    rw [hd₁ idx hidx]
    split
    · rfl
    · next hne =>
      have hidx' : idx ≠ lba.toNat := fun he => hne (by rw [he])
      rw [Function.update_of_ne hidx']
      exact h.leaves idx hidx

theorem Tabled.step (h : Tabled F s) (u : UInt32 × Sector) : Tabled F (merkleStep T s u) := by
  unfold merkleStep
  by_cases hlba : merkleMaxSectors ≤ u.1.toNat
  · rw [merkleUpdate_of_ge T hlba]
    exact h
  · obtain ⟨d', he, hr, hd⟩ := h.merkleUpdate_spec (Nat.not_le.mp hlba) u.2.1
    rw [he]
    exact ⟨hr, h.initialized, hd⟩

theorem Tabled.leaf_merkleStep (h : Tabled F s) {lba : UInt32} (hlt : lba.toNat < merkleMaxSectors)
    (b : Sector) : (merkleStep T s (lba, b)).leaves lba.toNat = sha256Of b.1 := by
  obtain ⟨d', he, -, -⟩ := h.merkleUpdate_spec hlt b.1
  rw [merkleStep, he]
  exact Function.update_self ..

theorem Tabled.init (F : FaithfulTransport T) (hr : F.Ready s.dev) (hcnt : 0 < s.sectorCnt) :
    Tabled F (merkleInit T csprng s) := by
  obtain ⟨d', t', he, hr', hd⟩ := merkleInit_spec F csprng hr
  rw [he]
  refine ⟨hr', rfl, fun idx hidx => ?_⟩
  dsimp only
  rw [hd, initialLeaf, if_pos ⟨hcnt, hidx⟩]

/-! ## Reading the table again -/

theorem leafOnDisk_eq_iff {disk disk' : UInt32 → Sector} :
    (∀ idx < merkleMaxSectors, leafOnDisk disk' idx = leafOnDisk disk idx) ↔
      SameTable disk disk' := by
  unfold merkleMaxSectors
  constructor
  · intro h i hi
    apply Subtype.ext
    apply eq_of_chunks (n := 16) (w := 32) (disk' _).2 (disk _).2
    intro j hj
    have hij := h (i * 16 + j) (by omega)
    have hq : (i * 16 + j) / 16 = i := by omega
    have hm : (i * 16 + j) % 16 = j := by omega
    rwa [leafOnDisk, leafOnDisk, hq, hm] at hij
  · intro h idx hidx
    rw [leafOnDisk, leafOnDisk, h (idx / 16) (by omega)]

theorem Tabled.restartProtects_iff (h : Tabled F s) (s' : Storage σ) (hr : F.Ready s'.dev)
    (hcnt : 0 < s'.sectorCnt) (hrun : s'.halted = false) :
    RestartProtects T csprng s s' ↔ SameTable (F.disk s.dev) (F.disk s'.dev) := by
  obtain ⟨d', t', he, -, -⟩ := merkleInit_spec F csprng hr
  have hleaf : ∀ idx < merkleMaxSectors,
      (merkleInit T csprng s').leaves idx = leafOnDisk (F.disk s'.dev) idx := by
    intro idx hidx
    rw [he]
    dsimp only
    rw [initialLeaf, if_pos ⟨hcnt, hidx⟩]
  have haccept : ¬ RefusesTable T csprng s' := by
    rintro (hinit | hhalt)
    · rw [he] at hinit
      cases hinit
    · rw [he] at hhalt
      exact Bool.noConfusion (hrun.symm.trans hhalt)
  rw [RestartProtects, or_iff_right haccept, ← leafOnDisk_eq_iff]
  constructor
  · intro hkept idx hidx
    rw [← hleaf idx hidx, hkept idx hidx, h.leaves idx hidx]
  · intro hsame idx hidx
    rw [hleaf idx hidx, hsame idx hidx, h.leaves idx hidx]

/-- After every run of updates, and whatever is on the device when the machine restarts, the restart
refuses the table or ends up with the leaves in force before exactly when nobody changed the
table. -/
theorem merkle_restart_iff (F : FaithfulTransport T) (csprng : ℕ → List UInt8)
    (s s' : Storage σ) (hr : F.Ready s.dev) (hcnt : 0 < s.sectorCnt)
    (updates : List (UInt32 × Sector)) (hr' : F.Ready s'.dev) (hcnt' : 0 < s'.sectorCnt)
    (hrun : s'.halted = false) :
    RestartProtects T csprng (run (merkleStep T) (merkleInit T csprng s) updates) s' ↔
      SameTable (F.disk (run (merkleStep T) (merkleInit T csprng s) updates).dev)
        (F.disk s'.dev) := by
  have htabled : Tabled F (run (merkleStep T) (merkleInit T csprng s) updates) :=
    run_invariant_of_forall (merkleStep T) (fun _ u h => h.step u) (Tabled.init csprng F hr hcnt)
      updates
  exact htabled.restartProtects_iff csprng s' hr' hcnt' hrun

end

/-! ## A wiped table -/

/-- The blank disk after one update. -/
def oneUpdate : Storage MemDisk :=
  run (merkleStep MemDisk.transport) (merkleInit MemDisk.transport (fun _ => []) MemDisk.blank)
    [(0, Sector.zero)]

theorem blank_tabled : Tabled MemDisk.faithful
    (merkleInit MemDisk.transport (fun _ => []) MemDisk.blank) := by
  apply Tabled.init
  · rfl
  · decide

theorem oneUpdate_tabled : Tabled MemDisk.faithful oneUpdate :=
  run_invariant_of_forall (merkleStep MemDisk.transport) (fun _ u h => h.step u) blank_tabled _

/-- The machine that finds a device at start. -/
def found (d : MemDisk) : Storage MemDisk := { MemDisk.blank with dev := d }

theorem found_dev (d : MemDisk) : (found d).dev = d := rfl
theorem found_sectorCnt (d : MemDisk) : 0 < (found d).sectorCnt :=
  show (0 : UInt32) < 0x100000 by decide
theorem found_halted (d : MemDisk) : (found d).halted = false := rfl

theorem merkle_restart_iff_sample :
    RestartProtects MemDisk.transport (fun _ => [])
      (run (merkleStep MemDisk.transport)
        (merkleInit MemDisk.transport (fun _ => []) MemDisk.blank) [(0, Sector.zero)])
      (found oneUpdate.dev) := by
  have hblank : MemDisk.faithful.Ready MemDisk.blank.dev := rfl
  have hready : MemDisk.faithful.Ready (found oneUpdate.dev).dev := by
    rw [found_dev]
    exact oneUpdate_tabled.ready
  apply (merkle_restart_iff MemDisk.faithful (fun _ => []) MemDisk.blank (found oneUpdate.dev)
    hblank (by decide) [(0, Sector.zero)] hready (found_sectorCnt _) (found_halted _)).mpr
  intro i _
  rw [found_dev, oneUpdate]

theorem oneUpdate_leaf : oneUpdate.leaves 0 = sha256Of Sector.zero.1 := by
  have hlt : (0 : UInt32).toNat < merkleMaxSectors := by decide
  have hleaf := blank_tabled.leaf_merkleStep hlt Sector.zero
  rw [UInt32.toNat_zero] at hleaf
  exact hleaf

/-- Zeros written over the whole device while it was off are taken for the leaves. -/
theorem merkle_table_not_protected :
    ¬ RestartProtects MemDisk.transport (fun _ => []) oneUpdate MemDisk.blank := by
  rw [oneUpdate_tabled.restartProtects_iff (fun _ => []) MemDisk.blank rfl (by decide) rfl,
    ← leafOnDisk_eq_iff]
  intro h
  have hzero := h 0 (by decide)
  rw [oneUpdate_tabled.leaves 0 (by decide), oneUpdate_leaf] at hzero
  revert hzero
  decide +kernel

end StyxOS
