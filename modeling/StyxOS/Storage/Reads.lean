import StyxOS.Fs.Fat32

/-! # Clients that only read

A relation between states of a device that composes, and that reads keep, is
kept by the walks of `fat32.c` and by the fetch of `oram.c`, which do nothing to
the device but read it.
-/

namespace StyxOS

open ByteMem

/-- A relation between the states before and after, which the reads of some sectors keep. -/
structure KeptByReads {δ : Type} [SectorDevice δ] (A : ℕ → Prop) (R : δ → δ → Prop) : Prop where
  refl : ∀ d, R d d
  trans : ∀ {d d' d''}, R d d' → R d' d'' → R d d''
  read : ∀ (d : δ) {lba : ℕ} (buf : Bytes 512), A lba → R d (readSector d lba buf).2.2

namespace KeptByReads

section

variable {δ : Type} [SectorDevice δ] {A : ℕ → Prop} {R : δ → δ → Prop} (h : KeptByReads A R)
include h

theorem readSector (f : Fat32 δ) (lba : UInt32) (hlba : A lba.toNat) :
    R f.dev (f.readSector lba).2.dev := h.read f.dev _ hlba

theorem fat32Init (f : Fat32 δ) (hzero : A 0) : R f.dev (fat32Init f).2.dev := by
  have hread := h.readSector f 0 hzero
  unfold StyxOS.fat32Init
  dsimp only
  repeat' split
  all_goals exact hread

theorem fetchPath (env : AccessEnv) (m : PathOram δ) {slots : List (ℕ × ℕ × ℕ)}
    (hslots : ∀ x ∈ slots, A (sectorOf x.2.1 x.2.2)) :
    R m.dev (fetchPath env m slots).2.dev := by
  induction slots generalizing m with
  | nil => exact h.refl _
  | cons x slots ih =>
    obtain ⟨i, node, j⟩ := x
    obtain ⟨hx, hrest⟩ := List.forall_mem_cons.mp hslots
    have hread := h.read m.dev (env.buf i j) hx
    have hnext : ∀ stash, R m.dev (StyxOS.fetchPath env { m with
        dev := (SectorDevice.readSector m.dev (sectorOf node j) (env.buf i j)).2.2
        stash := stash } slots).2.dev :=
      fun stash => h.trans hread (ih ⟨_, m.posMap, stash, m.stray⟩ hrest)
    unfold StyxOS.fetchPath oramReadBlock
    dsimp only
    split
    · exact hnext _
    · split
      · exact hnext _
      · exact hread

end

/-! ## Walks to anywhere -/

variable {δ : Type} [SectorDevice δ] {R : δ → δ → Prop} (h : KeptByReads (fun _ => True) R)
include h

theorem fatNext (f : Fat32 δ) (cluster : UInt32) : R f.dev (f.fatNext cluster).2.dev := by
  have hread := h.readSector f (f.fatStart + cluster * 4 / 512) trivial
  unfold Fat32.fatNext
  dsimp only
  split
  · exact hread
  · exact hread

theorem scanSectors (target : List UInt8) (lba : UInt32) (ss : List ℕ) (f : Fat32 δ) :
    R f.dev (scanSectors target lba ss f).2.dev := by
  induction ss generalizing f with
  | nil => exact h.refl _
  | cons s ss ih =>
    have hread := h.readSector f (lba + UInt32.ofNat s) trivial
    unfold StyxOS.scanSectors
    dsimp only
    split
    · exact hread
    · split
      · exact h.trans hread (ih _)
      · exact hread

theorem scanClusters {target : List UInt8} {fuel : ℕ} {cluster : UInt32} {f : Fat32 δ}
    {r : Option (UInt32 × UInt32) × Fat32 δ} (hr : scanClusters target fuel cluster f = some r) :
    R f.dev r.2.dev := by
  induction fuel generalizing cluster f with
  | zero => cases hr
  | succ fuel ih =>
    have hscan := h.scanSectors target (f.clusterToLba cluster) (List.range f.spc.toNat) f
    rw [StyxOS.scanClusters] at hr
    generalize StyxOS.scanSectors target (f.clusterToLba cluster) (List.range f.spc.toNat) f = scan
      at hr hscan
    obtain ⟨outcome, f'⟩ := scan
    split at hr
    · cases hr
      exact h.refl _
    · cases outcome with
      | found startCluster fileSize =>
        cases hr
        exact hscan
      | stop =>
        cases hr
        exact hscan
      | goOn => exact h.trans hscan (h.trans (h.fatNext f' cluster) (ih hr))

theorem fat32Open {fuel : ℕ} {f : Fat32 δ} {path : List UInt8}
    {r : Option (UInt32 × UInt32) × Fat32 δ} (hr : fat32Open fuel f path = some r) :
    R f.dev r.2.dev := by
  rw [StyxOS.fat32Open] at hr
  split at hr
  · exact h.scanClusters hr
  · cases hr
    exact h.refl _

theorem readSectors (lba : UInt32) (len : ℕ) (ss : List ℕ) (dst : List UInt8) (f : Fat32 δ) :
    R f.dev (readSectors lba len ss dst f).2.2.dev := by
  induction ss generalizing dst f with
  | nil => exact h.refl _
  | cons s ss ih =>
    have hread := h.readSector f (lba + UInt32.ofNat s) trivial
    unfold StyxOS.readSectors
    dsimp only
    split
    · split
      · exact hread
      · exact h.trans hread (ih _ _)
    · exact h.refl _

theorem readClusters {len fuel : ℕ} {cluster : UInt32} {dst : List UInt8} {f : Fat32 δ}
    {r : List UInt8 × Fat32 δ} (hr : readClusters len fuel cluster dst f = some r) :
    R f.dev r.2.dev := by
  induction fuel generalizing cluster dst f with
  | zero => cases hr
  | succ fuel ih =>
    have hread := h.readSectors (f.clusterToLba cluster) len (List.range f.spc.toNat) dst f
    rw [StyxOS.readClusters] at hr
    generalize StyxOS.readSectors (f.clusterToLba cluster) len (List.range f.spc.toNat) dst f = out
      at hr hread
    obtain ⟨ok, dst', f'⟩ := out
    split at hr
    · cases ok with
      | false =>
        cases hr
        exact hread
      | true => exact h.trans hread (h.trans (h.fatNext f' cluster) (ih hr))
    · cases hr
      exact h.refl _

theorem fat32Read {fuel : ℕ} {f : Fat32 δ} {start : UInt32} {len : ℕ} {r : List UInt8 × Fat32 δ}
    (hr : fat32Read fuel f start len = some r) : R f.dev r.2.dev := by
  rw [StyxOS.fat32Read] at hr
  split at hr
  · exact h.readClusters hr
  · cases hr
    exact h.refl _

end KeptByReads

end StyxOS
