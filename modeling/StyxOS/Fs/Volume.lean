import StyxOS.Fs.Fat32
import StyxOS.Library.Chain

/-! # What a volume holds

The sectors of a disk as a volume: where the allocation table leads from a
cluster, and the bytes of the clusters on the way. Reading a file returns the
bytes of its chain, up to the length asked for.
-/

namespace StyxOS

open ByteMem

/-- In these states, a device returns these sectors below a bound and stays in such a state. -/
def Serves {δ : Type} [SectorDevice δ] (Good : δ → Prop) (disk : ℕ → Bytes 512) (n : ℕ) : Prop :=
  ∀ (d : δ) (lba : ℕ) (buf : Bytes 512), Good d → lba < n →
    ∃ d', readSector d lba buf = (0, disk lba, d') ∧ Good d'

/-- In these states, a device answers a read below a bound with the sector, or it fails and is then
in a state that tells so. -/
def Answers {δ : Type} [SectorDevice δ] (Good Failed : δ → Prop) (disk : ℕ → Bytes 512) (n : ℕ) :
    Prop :=
  ∀ (d : δ) (lba : ℕ) (buf : Bytes 512), Good d → lba < n →
    ∃ rc b d', readSector d lba buf = (rc, b, d') ∧ Good d' ∧
      (rc = 0 ∧ b = disk lba ∧ (Failed d' ↔ Failed d) ∨ rc ≠ 0 ∧ Failed d')

namespace Fat32

variable {δ : Type}

/-- The volume on another state of its device, with something else in its buffer. -/
def reread (f : Fat32 δ) (d : δ) (b : Bytes 512) : Fat32 δ := { f with dev := d, sectorBuf := b }

/-- The sector of the table that has the entry of a cluster. -/
def fatSector (f : Fat32 δ) (cluster : UInt32) : UInt32 := f.fatStart + cluster * 4 / 512

/-- The entry of a cluster in the table on the disk. -/
def fatEntry (f : Fat32 δ) (disk : ℕ → Bytes 512) (cluster : UInt32) : UInt32 :=
  UInt32.ofNat (fieldAt (disk (f.fatSector cluster).toNat).1 (cluster * 4 % 512).toNat 4) &&&
    0x0FFFFFFF

def clusterSector (f : Fat32 δ) (cluster : UInt32) (s : ℕ) : UInt32 :=
  f.clusterToLba cluster + UInt32.ofNat s

def clusterBytes (f : Fat32 δ) (disk : ℕ → Bytes 512) (cluster : UInt32) : List UInt8 :=
  (List.range f.spc.toNat).flatMap fun s => (disk (f.clusterSector cluster s).toNat).1

/-- The table entry and the sectors of a cluster lie below a bound. -/
structure Within (f : Fat32 δ) (n : ℕ) (cluster : UInt32) : Prop where
  entry : (f.fatSector cluster).toNat < n
  sectors : ∀ s < f.spc.toNat, (f.clusterSector cluster s).toNat < n

theorem within_all (f : Fat32 δ) (cluster : UInt32) : f.Within (2 ^ 32) cluster :=
  ⟨UInt32.toNat_lt _, fun _ _ => UInt32.toNat_lt _⟩

def FileChain (f : Fat32 δ) (disk : ℕ → Bytes 512) : UInt32 → List UInt32 → Prop :=
  LinkChain (f.fatEntry disk) fun c => isEof c = true

end Fat32

section

variable {δ : Type} [SectorDevice δ] {Good Failed : δ → Prop} {disk : ℕ → Bytes 512} {n : ℕ}
  {f : Fat32 δ} {d : δ}

theorem Serves.readSector (h : Serves Good disk n) (hd : Good f.dev) {lba : UInt32}
    (hlba : lba.toNat < n) :
    ∃ d', f.readSector lba = (0, f.reread d' (disk lba.toNat)) ∧ Good d' := by
  obtain ⟨d', he, hd'⟩ := h f.dev lba.toNat f.sectorBuf hd hlba
  exact ⟨d', by rw [Fat32.readSector, he]; rfl, hd'⟩

theorem Answers.readSector (h : Answers Good Failed disk n) (hd : Good f.dev) {lba : UInt32}
    (hlba : lba.toNat < n) :
    ∃ rc d' b', f.readSector lba = (rc, f.reread d' b') ∧ Good d' ∧
      (rc = 0 ∧ b' = disk lba.toNat ∧ (Failed d' ↔ Failed f.dev) ∨ rc ≠ 0 ∧ Failed d') := by
  obtain ⟨rc, b', d', he, hd', hcase⟩ := h f.dev lba.toNat f.sectorBuf hd hlba
  exact ⟨rc, d', b', by rw [Fat32.readSector, he]; rfl, hd', hcase⟩

theorem Answers.fatNext (h : Answers Good Failed disk n) (hd : Good f.dev) {cluster : UInt32}
    (hin : f.Within n cluster) :
    ∃ c d' b', f.fatNext cluster = (c, f.reread d' b') ∧ Good d' ∧
      (c = f.fatEntry disk cluster ∧ (Failed d' ↔ Failed f.dev) ∨ isEof c = true ∧ Failed d') := by
  obtain ⟨rc, d', b', he, hd', hcase⟩ := h.readSector hd hin.entry
  have hread : f.readSector (f.fatStart + cluster * 4 / 512) = (rc, f.reread d' b') := he
  simp only [Fat32.fatNext, hread]
  rcases hcase with ⟨rfl, rfl, hsame⟩ | ⟨hrc, hfail⟩
  · exact ⟨_, d', disk (f.fatSector cluster).toNat, rfl, hd', .inl ⟨rfl, hsame⟩⟩
  · exact ⟨_, d', b', by rw [if_pos hrc], hd', .inr ⟨by decide, hfail⟩⟩

/-- Reading sectors of a cluster fills the buffer with them, unless a read fails. -/
theorem Answers.readSectors (h : Answers Good Failed disk n) (len : ℕ) (lba : UInt32) {ss : List ℕ}
    (hin : ∀ s ∈ ss, (lba + UInt32.ofNat s).toNat < n) (dst : List UInt8) (hd : Good f.dev) :
    ∃ ok dst' d' b', readSectors lba len ss dst f = (ok, dst', f.reread d' b') ∧ Good d' ∧
      (ok = true ∧ (Failed d' ↔ Failed f.dev) ∧
          dst' = fillTo len dst (ss.flatMap fun s => (disk (lba + UInt32.ofNat s).toNat).1) ∨
        ok = false ∧ Failed d') := by
  induction ss generalizing f dst with
  | nil => exact ⟨_, _, f.dev, f.sectorBuf, rfl, hd, .inl ⟨rfl, Iff.rfl, by simp⟩⟩
  | cons s ss ih =>
    obtain ⟨hs, hss⟩ := List.forall_mem_cons.mp hin
    rw [StyxOS.readSectors, List.flatMap_cons]
    by_cases hroom : dst.length < len
    · obtain ⟨rc, d₁, b₁, he, hd₁, hcase₁⟩ := h.readSector hd hs
      rw [if_pos hroom, he]
      dsimp only
      rcases hcase₁ with ⟨rfl, rfl, hsame⟩ | ⟨hrc, hfail⟩
      · set S := disk (lba + UInt32.ofNat s).toNat with hS
        have hchunk : S.1.take (if dst.length + 512 > len then len - dst.length else 512) =
            S.1.take (len - dst.length) := by
          split
          · rfl
          · rw [List.take_of_length_le (by rw [S.2]), List.take_of_length_le (by rw [S.2]; omega)]
        obtain ⟨ok, dst', d₂, b₂, he₂, hd₂, hcase₂⟩ :=
          ih hss (fillTo len dst S.1) (f := f.reread d₁ S) hd₁
        refine ⟨ok, dst', d₂, b₂, ?_, hd₂, ?_⟩
        · rw [if_neg (not_not.mpr rfl)]
          change StyxOS.readSectors lba len ss (dst ++ S.1.take _) (f.reread d₁ S) = _
          rw [hchunk]
          exact he₂
        · rw [← hsame, ← fillTo_fillTo]
          exact hcase₂
      · rw [if_pos hrc]
        exact ⟨false, dst, d₁, b₁, rfl, hd₁, .inr ⟨rfl, hfail⟩⟩
    · rw [if_neg hroom, fillTo_of_le (Nat.le_of_not_lt hroom)]
      exact ⟨true, dst, f.dev, f.sectorBuf, rfl, hd, .inl ⟨rfl, Iff.rfl, rfl⟩⟩

/-- Reading along a chain ends. It fills the buffer with the clusters on it, unless a read fails. -/
theorem Answers.readClusters (h : Answers Good Failed disk n) (len : ℕ) {cluster : UInt32}
    {cs : List UInt32} (hchain : f.FileChain disk cluster cs) (hin : ∀ c ∈ cs, f.Within n c)
    {fuel : ℕ} (hfuel : cs.length < fuel) (dst : List UInt8) (b : Bytes 512) (hd : Good d) :
    ∃ dst' d' b', readClusters len fuel cluster dst (f.reread d b) = some (dst', f.reread d' b') ∧
      Good d' ∧
      (¬ Failed d' → ¬ Failed d ∧ dst' = fillTo len dst (cs.flatMap (f.clusterBytes disk))) := by
  induction hchain generalizing fuel dst d b with
  | nil hend =>
    obtain ⟨fuel, rfl⟩ := Nat.exists_eq_add_one_of_ne_zero (Nat.ne_zero_of_lt hfuel)
    refine ⟨dst, d, b, ?_, hd, ?_⟩
    · rw [StyxOS.readClusters, hend]
      rfl
    · intro hok
      exact ⟨hok, by simp⟩
  | @cons c cs hopen hrest ih =>
    obtain ⟨fuel, rfl⟩ := Nat.exists_eq_add_one_of_ne_zero (Nat.ne_zero_of_lt hfuel)
    obtain ⟨hc, hcs⟩ := List.forall_mem_cons.mp hin
    rw [StyxOS.readClusters, Bool.eq_false_iff.mpr hopen, List.flatMap_cons]
    by_cases hroom : dst.length < len
    · rw [decide_eq_true hroom, Bool.not_false, Bool.true_and, if_pos rfl]
      have hsectors : ∀ s ∈ List.range f.spc.toNat,
          (f.clusterToLba c + UInt32.ofNat s).toNat < n := fun s hs =>
        hc.sectors s (List.mem_range.mp hs)
      obtain ⟨ok, dst₁, d₁, b₁, he₁, hd₁, hcase₁⟩ :=
        h.readSectors len (f.clusterToLba c) hsectors dst (f := f.reread d b) hd
      have hread : StyxOS.readSectors ((f.reread d b).clusterToLba c) len
          (List.range (f.reread d b).spc.toNat) dst (f.reread d b) =
          (ok, dst₁, f.reread d₁ b₁) := he₁
      rw [hread]
      rcases hcase₁ with ⟨rfl, hsame₁, hdst₁⟩ | ⟨rfl, hfail⟩
      · have hagain : (f.reread d₁ b₁).Within n c := ⟨hc.entry, hc.sectors⟩
        obtain ⟨c', d₂, b₂, he₂, hd₂, hcase₂⟩ := h.fatNext (f := f.reread d₁ b₁) hd₁ hagain
        have hnext : (f.reread d₁ b₁).fatNext c = (c', f.reread d₂ b₂) := he₂
        dsimp only
        rw [hnext]
        rcases hcase₂ with ⟨rfl, hsame₂⟩ | ⟨hend, hfail⟩
        · obtain ⟨dst₃, d₃, b₃, he₃, hd₃, hok₃⟩ :=
            ih hcs (Nat.lt_of_succ_lt_succ hfuel) dst₁ b₂ hd₂
          refine ⟨dst₃, d₃, b₃, he₃, hd₃, ?_⟩
          intro hok
          obtain ⟨hok, hdst₃⟩ := hok₃ hok
          constructor
          · intro hfailed
            exact hok (hsame₂.mpr (hsame₁.mpr hfailed))
          · rw [hdst₃, hdst₁, fillTo_fillTo]
            rfl
        · -- The end mark in place of the entry ends the loop in the next round.
          obtain ⟨fuel, rfl⟩ := Nat.exists_eq_add_one_of_ne_zero
            (Nat.ne_zero_of_lt (Nat.lt_of_succ_lt_succ hfuel))
          refine ⟨dst₁, d₂, b₂, ?_, hd₂, fun hok => absurd hfail hok⟩
          rw [StyxOS.readClusters, hend]
          rfl
      · exact ⟨dst₁, d₁, b₁, rfl, hd₁, fun hok => absurd hfail hok⟩
    · refine ⟨dst, d, b, ?_, hd, ?_⟩
      · rw [decide_eq_false hroom]
        rfl
      · intro hok
        exact ⟨hok, (fillTo_of_le (Nat.le_of_not_lt hroom)).symm⟩

/-- Reading a file ends, and returns the bytes of its chain up to the length asked for, unless a
read fails. -/
theorem Answers.fat32Read (h : Answers Good Failed disk n) (hd : Good f.dev)
    (hready : f.ready = true) (len : ℕ) {start : UInt32} {cs : List UInt32}
    (hchain : f.FileChain disk start cs) (hin : ∀ c ∈ cs, f.Within n c) {fuel : ℕ}
    (hfuel : cs.length < fuel) :
    ∃ dst d' b', fat32Read fuel f start len = some (dst, f.reread d' b') ∧ Good d' ∧
      (¬ Failed d' → ¬ Failed f.dev ∧ dst = (cs.flatMap (f.clusterBytes disk)).take len) := by
  rw [StyxOS.fat32Read, hready, if_pos rfl, ← nil_fillTo]
  exact h.readClusters len hchain hin hfuel [] f.sectorBuf hd

theorem Serves.answers (h : Serves Good disk n) : Answers Good (fun _ => False) disk n := by
  intro d lba buf hd hlba
  obtain ⟨d', he, hd'⟩ := h d lba buf hd hlba
  exact ⟨0, disk lba, d', he, hd', .inl ⟨rfl, rfl, Iff.rfl⟩⟩

/-- Reading a file returns the bytes of its chain, up to the length asked for. -/
theorem Serves.fat32Read (h : Serves Good disk n) (hd : Good f.dev) (hready : f.ready = true)
    (len : ℕ) {start : UInt32} {cs : List UInt32} (hchain : f.FileChain disk start cs)
    (hin : ∀ c ∈ cs, f.Within n c) {fuel : ℕ} (hfuel : cs.length < fuel) :
    ∃ d' b', fat32Read fuel f start len =
        some ((cs.flatMap (f.clusterBytes disk)).take len, f.reread d' b') ∧ Good d' := by
  obtain ⟨dst, d', b', he, hd', hok⟩ := h.answers.fat32Read hd hready len hchain hin hfuel
  obtain ⟨-, rfl⟩ := hok not_false
  exact ⟨d', b', he, hd'⟩

end

end StyxOS
