import StyxOS.Fs.Names
import StyxOS.Fs.Termination
import StyxOS.Storage.Reads

/-! # Which entry a path opens

The entries of the root directory, cluster by cluster along its chain, and the
one that `fat32_open` takes: the first that is not passed by. It is the entry of
an ordinary file with the name of the path when the path fits into a name of
eight and three characters and no directory has that name.
-/

namespace StyxOS

open ByteMem

def attrDirectory : UInt8 := 0x10

namespace Dirent

/-- The first cluster of what the entry is for. -/
def startCluster (d : Dirent) : UInt32 :=
  UInt32.ofNat d.clusterHi <<< 16 ||| UInt32.ofNat d.clusterLo

structure Ordinary (d : Dirent) : Prop where
  live : d.name.headD 0 ≠ 0x00
  shown : ¬ d.Hidden
  file : d.attr &&& attrDirectory = 0

/-- The entry has this name and is looked at. -/
structure Matches (target : List UInt8) (d : Dirent) : Prop where
  live : d.name.headD 0 ≠ 0x00
  shown : ¬ d.Hidden
  name : d.name = target

end Dirent

def Scan.toOption : Scan → Option (UInt32 × UInt32)
  | .found startCluster fileSize => some (startCluster, fileSize)
  | _ => none

namespace Fat32

variable {δ : Type}

def clusterDirents (f : Fat32 δ) (disk : ℕ → Bytes 512) (c : UInt32) : List Dirent :=
  (List.range f.spc.toNat).flatMap fun s => direntsOf (disk (f.clusterSector c s).toNat).1

/-- The entries in the first clusters of a chain. -/
def dirPrefix (f : Fat32 δ) (disk : ℕ → Bytes 512) : ℕ → UInt32 → List Dirent
  | 0, _ => []
  | k + 1, c =>
    if isEof c then [] else f.clusterDirents disk c ++ f.dirPrefix disk k (f.fatEntry disk c)

/-- The entry is in the root directory behind some others, and none of them is the end mark. -/
def InDirectory (f : Fat32 δ) (disk : ℕ → Bytes 512) (pre : List Dirent) (d : Dirent) : Prop :=
  ∃ k post, f.dirPrefix disk k f.rootCluster = pre ++ d :: post ∧
    ∀ e ∈ pre ++ [d], e.name.headD 0 ≠ 0x00

end Fat32

theorem Fat32.dirPrefix_on {β δ : Type} (f : Fat32 β) (d : δ) (disk : ℕ → Bytes 512) :
    (f.on d).dirPrefix disk = f.dirPrefix disk := by
  funext k c
  induction k generalizing c with
  | zero => rfl
  | succ k ih =>
    rw [dirPrefix, dirPrefix, ih]
    rfl

theorem Fat32.inDirectory_on {β δ : Type} (f : Fat32 β) (d : δ) {disk : ℕ → Bytes 512} :
    (f.on d).InDirectory disk = f.InDirectory disk := by
  funext pre e
  rw [InDirectory, dirPrefix_on]
  rfl

/-! ## The search on a list of entries -/

section

variable {target : List UInt8} {ds es : List Dirent} {d : Dirent}

theorem scanEntries_append (h : scanEntries target ds = .goOn) (es : List Dirent) :
    scanEntries target (ds ++ es) = scanEntries target es := by
  induction ds with
  | nil => rfl
  | cons d ds ih =>
    rw [scanEntries_goOn_iff, List.forall_mem_cons, ← scanEntries_goOn_iff] at h
    obtain ⟨⟨hfirst, hpast⟩, hrest⟩ := h
    rw [List.cons_append, scanEntries_cons, if_neg hfirst, if_pos hpast]
    exact ih hrest

theorem scanEntries_append_of_ne (h : scanEntries target ds ≠ .goOn) (es : List Dirent) :
    scanEntries target (ds ++ es) = scanEntries target ds := by
  induction ds with
  | nil => exact absurd rfl h
  | cons d ds ih =>
    rw [List.cons_append, scanEntries_cons, scanEntries_cons]
    by_cases hfirst : d.name.headD 0 = 0x00
    · rw [if_pos hfirst, if_pos hfirst]
    · rw [if_neg hfirst, if_neg hfirst]
      by_cases hpast : d.Hidden ∨ d.name ≠ target
      · rw [if_pos hpast, if_pos hpast]
        apply ih
        rwa [scanEntries_cons, if_neg hfirst, if_pos hpast] at h
      · rw [if_neg hpast, if_neg hpast]

theorem scanEntries_match (hd : d.Matches target) (h : ∀ e ∈ ds, e.PassedBy target)
    (es : List Dirent) :
    scanEntries target (ds ++ d :: es) = .found d.startCluster d.fileSize := by
  rw [scanEntries_append (scanEntries_goOn_iff.mpr h), scanEntries_cons, if_neg hd.live, if_neg]
  · rfl
  · exact not_or.mpr ⟨hd.shown, not_not.mpr hd.name⟩

theorem match_of_scanEntries {c n : UInt32} (h : scanEntries target ds = .found c n) :
    ∃ pre d post, ds = pre ++ d :: post ∧ (∀ e ∈ pre, e.PassedBy target) ∧ d.Matches target ∧
      d.startCluster = c ∧ d.fileSize = n := by
  induction ds with
  | nil => cases h
  | cons d ds ih =>
    rw [scanEntries_cons] at h
    by_cases hfirst : d.name.headD 0 = 0x00
    · rw [if_pos hfirst] at h
      cases h
    · rw [if_neg hfirst] at h
      by_cases hpast : d.Hidden ∨ d.name ≠ target
      · rw [if_pos hpast] at h
        obtain ⟨pre, e, post, rfl, hpre, he⟩ := ih h
        exact ⟨d :: pre, e, post, rfl, List.forall_mem_cons.mpr ⟨⟨hfirst, hpast⟩, hpre⟩, he⟩
      · rw [if_neg hpast] at h
        obtain ⟨hshown, hname⟩ := not_or.mp hpast
        injection h with hc hn
        exact ⟨[], d, ds, rfl, by simp, ⟨hfirst, hshown, not_not.mp hname⟩, hc, hn⟩

theorem scanEntries_found (hd : d.Matches target) (h : ∀ e ∈ ds, e.name.headD 0 ≠ 0x00)
    (es : List Dirent) : ∃ c n, scanEntries target (ds ++ d :: es) = .found c n := by
  induction ds with
  | nil =>
    have hfound : scanEntries target ([] ++ d :: es) = .found d.startCluster d.fileSize :=
      scanEntries_match hd (by simp) es
    exact ⟨_, _, hfound⟩
  | cons e ds ih =>
    obtain ⟨hfirst, hrest⟩ := List.forall_mem_cons.mp h
    rw [List.cons_append, scanEntries_cons, if_neg hfirst]
    split
    · exact ih hrest
    · exact ⟨_, _, rfl⟩

end

/-! ## The search on the device -/

section

variable {δ : Type} [SectorDevice δ] {Good Failed : δ → Prop} {disk : ℕ → Bytes 512}
  {f : Fat32 δ} {d : δ} {target : List UInt8}

/-- Searching sectors is searching their entries, unless a read fails. -/
theorem Answers.scanSectors (h : Answers Good Failed disk (2 ^ 32)) (target : List UInt8)
    (lba : UInt32) (ss : List ℕ) (hd : Good f.dev) :
    ∃ r d' b', scanSectors target lba ss f = (r, f.reread d' b') ∧ Good d' ∧
      (r = scanEntries target
          (ss.flatMap fun s => direntsOf (disk (lba + UInt32.ofNat s).toNat).1) ∧
          (Failed d' ↔ Failed f.dev) ∨
        r = .stop ∧ Failed d') := by
  induction ss generalizing f with
  | nil => exact ⟨_, f.dev, f.sectorBuf, rfl, hd, .inl ⟨rfl, Iff.rfl⟩⟩
  | cons s ss ih =>
    obtain ⟨rc, d₁, b₁, he, hd₁, hcase₁⟩ := h.readSector hd (lba + UInt32.ofNat s).toNat_lt
    rw [StyxOS.scanSectors, he, List.flatMap_cons]
    dsimp only
    rcases hcase₁ with ⟨rfl, rfl, hsame⟩ | ⟨hrc, hfail⟩
    · rw [if_neg (not_not.mpr rfl)]
      set b := disk (lba + UInt32.ofNat s).toNat with hb
      rw [show (f.reread d₁ b).sectorBuf = b from rfl]
      cases hscan : scanEntries target (direntsOf b.1) with
      | goOn =>
        obtain ⟨r, d₂, b₂, he₂, hd₂, hcase₂⟩ := ih (f := f.reread d₁ b) hd₁
        refine ⟨r, d₂, b₂, he₂, hd₂, ?_⟩
        rw [scanEntries_append hscan, ← hsame]
        exact hcase₂
      | found c n =>
        refine ⟨_, d₁, b, rfl, hd₁, .inl ⟨?_, hsame⟩⟩
        rw [scanEntries_append_of_ne (by rw [hscan]; exact Scan.noConfusion), hscan]
      | stop =>
        refine ⟨_, d₁, b, rfl, hd₁, .inl ⟨?_, hsame⟩⟩
        rw [scanEntries_append_of_ne (by rw [hscan]; exact Scan.noConfusion), hscan]
    · rw [if_pos hrc]
      exact ⟨_, d₁, b₁, rfl, hd₁, .inr ⟨rfl, hfail⟩⟩

/-- The search ends with the outcome that the entries of some first clusters have, unless a read
fails. -/
theorem Answers.scanClusters (h : Answers Good Failed disk (2 ^ 32)) {k : ℕ} {cluster : UInt32}
    (hscan : scanEntries target (f.dirPrefix disk k cluster) ≠ .goOn) {fuel : ℕ} (hfuel : k ≤ fuel)
    (b : Bytes 512) (hd : Good d) :
    ∃ r d' b', scanClusters target fuel cluster (f.reread d b) = some (r, f.reread d' b') ∧
      Good d' ∧ (¬ Failed d' →
        r = (scanEntries target (f.dirPrefix disk k cluster)).toOption) := by
  induction k generalizing cluster fuel d b with
  | zero => exact absurd rfl hscan
  | succ k ih =>
    obtain ⟨fuel, rfl⟩ := Nat.exists_eq_add_one_of_ne_zero
      (Nat.ne_zero_of_lt (Nat.lt_of_succ_le hfuel))
    rw [Fat32.dirPrefix] at hscan ⊢
    by_cases heof : isEof cluster = true
    · rw [if_pos heof] at hscan
      exact absurd rfl hscan
    · rw [if_neg heof] at hscan ⊢
      rw [StyxOS.scanClusters, if_neg heof]
      obtain ⟨r, d₁, b₁, he₁, hd₁, hcase₁⟩ := h.scanSectors target (f.clusterToLba cluster)
        (List.range f.spc.toNat) (f := f.reread d b) hd
      have hcluster : StyxOS.scanSectors target ((f.reread d b).clusterToLba cluster)
          (List.range (f.reread d b).spc.toNat) (f.reread d b) = (r, f.reread d₁ b₁) := he₁
      rw [hcluster]
      rcases hcase₁ with ⟨hr, hsame₁⟩ | ⟨rfl, hfail⟩
      · change r = scanEntries target (f.clusterDirents disk cluster) at hr
        by_cases hgo : r = .goOn
        · rw [hgo] at hr ⊢
          rw [scanEntries_append hr.symm] at hscan ⊢
          obtain ⟨c', d₂, b₂, he₂, hd₂, hcase₂⟩ := h.fatNext (f := f.reread d₁ b₁) hd₁
            ((f.reread d₁ b₁).within_all cluster)
          have hnext : (f.reread d₁ b₁).fatNext cluster = (c', f.reread d₂ b₂) := he₂
          dsimp only
          rw [hnext]
          rcases hcase₂ with ⟨rfl, hsame₂⟩ | ⟨hend, hfail⟩
          · exact ih hscan (Nat.le_of_succ_le_succ hfuel) b₂ hd₂
          · -- The end mark in place of the entry ends the loop in the next round.
            have hk : k ≠ 0 := by
              rintro rfl
              exact hscan rfl
            obtain ⟨fuel, rfl⟩ := Nat.exists_eq_add_one_of_ne_zero
              (Nat.ne_zero_of_lt (Nat.lt_of_lt_of_le (Nat.pos_of_ne_zero hk)
                (Nat.le_of_succ_le_succ hfuel)))
            refine ⟨none, d₂, b₂, ?_, hd₂, fun hok => absurd hfail hok⟩
            rw [StyxOS.scanClusters, if_pos hend]
        · rw [scanEntries_append_of_ne (hr ▸ hgo), ← hr]
          cases r with
          | goOn => exact absurd rfl hgo
          | found c n => exact ⟨some (c, n), d₁, b₁, rfl, hd₁, fun _ => rfl⟩
          | stop => exact ⟨none, d₁, b₁, rfl, hd₁, fun _ => rfl⟩
      · exact ⟨none, d₁, b₁, rfl, hd₁, fun hok => absurd hfail hok⟩

theorem Answers.of_scanClusters (h : Answers Good Failed disk (2 ^ 32)) {fuel : ℕ}
    {cluster c n : UInt32} {b : Bytes 512} {f' : Fat32 δ} (hd : Good d)
    (hr : StyxOS.scanClusters target fuel cluster (f.reread d b) = some (some (c, n), f')) :
    ∃ k, scanEntries target (f.dirPrefix disk k cluster) = .found c n := by
  induction fuel generalizing cluster d b with
  | zero => cases hr
  | succ fuel ih =>
    rw [StyxOS.scanClusters] at hr
    by_cases heof : isEof cluster = true
    · rw [if_pos heof] at hr
      cases hr
    · rw [if_neg heof] at hr
      obtain ⟨r, d₁, b₁, he₁, hd₁, hcase₁⟩ := h.scanSectors target (f.clusterToLba cluster)
        (List.range f.spc.toNat) (f := f.reread d b) hd
      have hcluster : StyxOS.scanSectors target ((f.reread d b).clusterToLba cluster)
          (List.range (f.reread d b).spc.toNat) (f.reread d b) = (r, f.reread d₁ b₁) := he₁
      rw [hcluster] at hr
      rcases hcase₁ with ⟨hscan, -⟩ | ⟨rfl, -⟩
      · change r = scanEntries target (f.clusterDirents disk cluster) at hscan
        cases r with
        | found c' n' =>
          cases hr
          refine ⟨1, ?_⟩
          rw [Fat32.dirPrefix, if_neg heof, Fat32.dirPrefix, List.append_nil, ← hscan]
        | stop => cases hr
        | goOn =>
          obtain ⟨c', d₂, b₂, he₂, hd₂, hcase₂⟩ := h.fatNext (f := f.reread d₁ b₁) hd₁
            ((f.reread d₁ b₁).within_all cluster)
          have hnext : (f.reread d₁ b₁).fatNext cluster = (c', f.reread d₂ b₂) := he₂
          dsimp only at hr
          rw [hnext] at hr
          obtain ⟨k, hk⟩ := ih hd₂ hr
          rcases hcase₂ with ⟨rfl, -⟩ | ⟨hend, -⟩
          · refine ⟨k + 1, ?_⟩
            rw [Fat32.dirPrefix, if_neg heof, scanEntries_append hscan.symm]
            exact hk
          · have hnone : f.dirPrefix disk k c' = [] := by
              cases k with
              | zero => rfl
              | succ k => rw [Fat32.dirPrefix, if_pos hend]
            rw [hnone] at hk
            cases hk
      · cases hr

end

/-! ## Recording the search -/

section

variable {δ : Type} [SectorDevice δ] (f : Fat32 (Recorded δ))

theorem scanSectors_unrecorded (target : List UInt8) (lba : UInt32) (ss : List ℕ) :
    scanSectors target lba ss f.unrecorded =
      ((scanSectors target lba ss f).1, (scanSectors target lba ss f).2.unrecorded) := by
  induction ss generalizing f with
  | nil => rfl
  | cons s ss ih =>
    simp only [scanSectors, Fat32.readSector_unrecorded]
    by_cases hrc : (f.readSector (lba + UInt32.ofNat s)).1 = 0
    · simp only [hrc, ne_eq, not_true_eq_false, if_false]
      rw [show (f.readSector (lba + UInt32.ofNat s)).2.unrecorded.sectorBuf =
        (f.readSector (lba + UInt32.ofNat s)).2.sectorBuf from rfl]
      cases scanEntries target (direntsOf (f.readSector (lba + UInt32.ofNat s)).2.sectorBuf.1) with
      | found c n => rfl
      | stop => rfl
      | goOn => exact ih _
    · simp only [hrc, ne_eq, not_false_eq_true, if_true]

theorem scanClusters_unrecorded (target : List UInt8) (fuel : ℕ) (cluster : UInt32) :
    scanClusters target fuel cluster f.unrecorded =
      (scanClusters target fuel cluster f).map fun r => (r.1, r.2.unrecorded) := by
  induction fuel generalizing cluster f with
  | zero => rfl
  | succ fuel ih =>
    have hsectors := scanSectors_unrecorded f target (f.clusterToLba cluster)
      (List.range f.spc.toNat)
    rw [scanClusters, scanClusters]
    by_cases heof : isEof cluster = true
    · rw [if_pos heof, if_pos heof]
      rfl
    · obtain ⟨r, f', hr⟩ : ∃ r f', scanSectors target (f.clusterToLba cluster)
        (List.range f.spc.toNat) f = (r, f') := ⟨_, _, rfl⟩
      rw [hr] at hsectors
      rw [if_neg heof, if_neg heof, hr,
        show f.unrecorded.clusterToLba cluster = f.clusterToLba cluster from rfl,
        show f.unrecorded.spc = f.spc from rfl, hsectors]
      cases r with
      | found c n => rfl
      | stop => rfl
      | goOn =>
        dsimp only
        rw [Fat32.fatNext_unrecorded]
        exact ih _ _

theorem fat32Open_unrecorded (fuel : ℕ) (path : List UInt8) :
    fat32Open fuel f.unrecorded path =
      (fat32Open fuel f path).map fun r => (r.1, r.2.unrecorded) := by
  rw [fat32Open, fat32Open, show f.unrecorded.ready = f.ready from rfl]
  split
  · exact scanClusters_unrecorded f (pathTo83 path) fuel f.rootCluster
  · rfl

end

/-! ## The right file -/

section

variable {δ : Type}

/-- The entry is for the ordinary file of this name. -/
structure Fat32.Lists (f : Fat32 δ) (disk : ℕ → Bytes 512) (path : List UInt8) (d : Dirent) :
    Prop where
  listed : ∃ pre, f.InDirectory disk pre d
  ordinary : d.Ordinary
  named : IsNamed d.name path

/-- The search for a path returns the cluster and the size of the ordinary file of this name, or
nothing. Where the root directory has an end and lists the file, the search ends, and finds a file
if no read fails. -/
structure FindsRight [SectorDevice δ] (f : Fat32 δ) (disk : ℕ → Bytes 512) (path : List UInt8) :
    Prop where
  sound : ∀ fuel c n f', fat32Open fuel f path = some (some (c, n), f') →
    ∃ d, f.Lists disk path d ∧ d.startCluster = c ∧ d.fileSize = n
  complete : ∀ cs, f.FileChain disk f.rootCluster cs → (∃ d, f.Lists disk path d) →
    ∃ fuel r f', fat32Open fuel f.recorded path = some (r, f') ∧
      fat32Open fuel f path = some (r, f'.unrecorded) ∧ (f'.dev.AllRead → r.isSome = true)

/-- The first entry that matches a path is for an ordinary file and the path fits, or the file of
this name has another entry with the same cluster and size. In a directory with an end, the entry of
the file of this name is plain, or another one matches. -/
structure LookupFits (f : Fat32 δ) (disk : ℕ → Bytes 512) (path : List UInt8) : Prop where
  first : ∀ pre d, f.InDirectory disk pre d → (∀ e ∈ pre, e.PassedBy (pathTo83 path)) →
    d.Matches (pathTo83 path) →
    Fits83 (foldCase (relative path)) ∧ d.attr &&& attrDirectory = 0 ∨
      ∃ e ≠ d, f.Lists disk path e ∧ e.startCluster = d.startCluster ∧ e.fileSize = d.fileSize
  plain : ∀ cs, f.FileChain disk f.rootCluster cs → ∀ d, f.Lists disk path d →
    Plain d.name ∨ ∃ pre e, f.InDirectory disk pre e ∧ e.Matches (pathTo83 path)

variable {f : Fat32 δ} {disk : ℕ → Bytes 512} {path : List UInt8}

theorem length_name_direntsOf (b : Bytes 512) : ∀ d ∈ direntsOf b.1, d.name.length = 11 := by
  intro d hd
  obtain ⟨e, he, rfl⟩ := List.mem_map.mp hd
  have hlt : e < 16 := List.mem_range.mp he
  simp only [Dirent.ofBytes, List.length_take, List.length_drop, b.2]
  omega

theorem length_name_dirPrefix {k : ℕ} {c : UInt32} :
    ∀ d ∈ f.dirPrefix disk k c, d.name.length = 11 := by
  induction k generalizing c with
  | zero => simp [Fat32.dirPrefix]
  | succ k ih =>
    rw [Fat32.dirPrefix]
    split
    · simp
    · intro d hd
      rcases List.mem_append.mp hd with hd | hd
      · obtain ⟨s, -, hs⟩ := List.mem_flatMap.mp hd
        exact length_name_direntsOf _ d hs
      · exact ih d hd

theorem Fat32.InDirectory.length_name {pre : List Dirent} {d : Dirent}
    (h : f.InDirectory disk pre d) : d.name.length = 11 := by
  obtain ⟨k, post, he, -⟩ := h
  have hmem : d ∈ f.dirPrefix disk k f.rootCluster := by
    rw [he]
    simp
  exact length_name_dirPrefix d hmem

theorem Fat32.InDirectory.live {pre : List Dirent} {d : Dirent} (h : f.InDirectory disk pre d) :
    ∀ e ∈ pre, e.name.headD 0 ≠ 0x00 := by
  obtain ⟨k, post, -, hlive⟩ := h
  exact fun e he => hlive e (List.mem_append_left _ he)

theorem inDirectory_of_scan {k : ℕ} {c n : UInt32}
    (h : scanEntries (pathTo83 path) (f.dirPrefix disk k f.rootCluster) = .found c n) :
    ∃ pre d, f.InDirectory disk pre d ∧ (∀ e ∈ pre, e.PassedBy (pathTo83 path)) ∧
      d.Matches (pathTo83 path) ∧ d.startCluster = c ∧ d.fileSize = n := by
  obtain ⟨pre, d, post, he, hpre, hd, hc, hn⟩ := match_of_scanEntries h
  refine ⟨pre, d, ⟨k, post, he, ?_⟩, hpre, hd, hc, hn⟩
  intro e hmem
  rcases List.mem_append.mp hmem with hmem | hmem
  · exact (hpre e hmem).1
  · rw [List.mem_singleton.mp hmem]
    exact hd.live

/-- A matching entry that the code takes is for the file of the path when the path fits and the
entry is not for a directory, and only then. -/
theorem lists_iff {pre : List Dirent} {d : Dirent} (hin : f.InDirectory disk pre d)
    (hd : d.Matches (pathTo83 path)) :
    f.Lists disk path d ↔
      Fits83 (foldCase (relative path)) ∧ d.attr &&& attrDirectory = 0 := by
  rw [← isNamed_pathTo83_iff]
  constructor
  · rintro ⟨-, hord, hname⟩
    exact ⟨hd.name ▸ hname, hord.file⟩
  · rintro ⟨hname, hfile⟩
    exact ⟨⟨pre, hin⟩, ⟨hd.live, hd.shown, hfile⟩, hd.name ▸ hname⟩

end

/-! ## When the search is right -/

section

variable {δ : Type} [SectorDevice δ] {Good : δ → Prop} {disk : ℕ → Bytes 512} {f : Fat32 δ}
  {path : List UInt8}

theorem Yields.of_fat32Open (h : Yields Good disk) (hd : Good f.dev) (hready : f.ready = true)
    {fuel : ℕ} {c n : UInt32} {f' : Fat32 δ}
    (hr : fat32Open fuel f path = some (some (c, n), f')) :
    ∃ k, scanEntries (pathTo83 path) (f.dirPrefix disk k f.rootCluster) = .found c n := by
  have hrec := fat32Open_unrecorded f.recorded fuel path
  rw [Fat32.unrecorded_recorded, hr] at hrec
  obtain ⟨⟨r, f₁⟩, hopen, he⟩ := Option.map_eq_some_iff.mp hrec.symm
  obtain ⟨rfl, -⟩ := Prod.mk.inj he
  rw [fat32Open, show f.recorded.ready = f.ready from rfl, hready, if_pos rfl] at hopen
  have hsearch := (h.answers (2 ^ 32)).of_scanClusters (f := f.recorded) (d := ⟨f.dev, []⟩)
    (b := f.sectorBuf) hd hopen
  rwa [Fat32.recorded, Fat32.dirPrefix_on] at hsearch

/-- A search for which the first clusters have an outcome ends with it, unless a read fails. -/
theorem Yields.fat32Open (h : Yields Good disk) (hd : Good f.dev) (hready : f.ready = true) {k : ℕ}
    (hscan : scanEntries (pathTo83 path) (f.dirPrefix disk k f.rootCluster) ≠ .goOn) :
    ∃ r f', fat32Open k f.recorded path = some (r, f') ∧
      fat32Open k f path = some (r, f'.unrecorded) ∧ (f'.dev.AllRead →
        r = (scanEntries (pathTo83 path) (f.dirPrefix disk k f.rootCluster)).toOption) := by
  have hsame : f.recorded.dirPrefix disk = f.dirPrefix disk := Fat32.dirPrefix_on f _ disk
  rw [← hsame] at hscan ⊢
  obtain ⟨r, d', b', he, -, hok⟩ := (h.answers (2 ^ 32)).scanClusters (f := f.recorded)
    (d := ⟨f.dev, []⟩) hscan (Nat.le_refl k) f.sectorBuf hd
  have hopen : StyxOS.fat32Open k f.recorded path = some (r, f.recorded.reread d' b') := by
    rw [StyxOS.fat32Open, show f.recorded.ready = f.ready from rfl, hready, if_pos rfl]
    exact he
  refine ⟨r, _, hopen, ?_, fun hread => hok (not_not.mpr hread)⟩
  have hraw := fat32Open_unrecorded f.recorded k path
  rw [hopen] at hraw
  exact hraw

theorem LookupFits.findsRight (hfits : LookupFits f disk path) (h : Yields Good disk)
    (hd : Good f.dev) (hready : f.ready = true) : FindsRight f disk path := by
  constructor
  · intro fuel c n f' hopen
    obtain ⟨k, hk⟩ := h.of_fat32Open hd hready hopen
    obtain ⟨pre, d, hin, hpre, hmatch, rfl, rfl⟩ := inDirectory_of_scan hk
    rcases hfits.first pre d hin hpre hmatch with hself | ⟨e, -, he, hc, hn⟩
    · exact ⟨d, (lists_iff hin hmatch).mpr hself, rfl, rfl⟩
    · exact ⟨e, he, hc, hn⟩
  · rintro cs hchain ⟨d, hlists⟩
    have hmatch : ∃ pre e, f.InDirectory disk pre e ∧ e.Matches (pathTo83 path) := by
      rcases hfits.plain cs hchain d hlists with hplain | hother
      · obtain ⟨⟨pre, hin⟩, hord, hname⟩ := hlists
        exact ⟨pre, d, hin, hord.live, hord.shown,
          (eq_pathTo83_iff hin.length_name hname).mpr hplain⟩
      · exact hother
    obtain ⟨pre, e, hin, he⟩ := hmatch
    have hlive := hin.live
    obtain ⟨k, post, hfront, -⟩ := hin
    obtain ⟨c, n, hfound⟩ := scanEntries_found he hlive post
    rw [← hfront] at hfound
    obtain ⟨r, f', hrec, hraw, hok⟩ :=
      h.fat32Open hd hready (by rw [hfound]; exact Scan.noConfusion)
    refine ⟨k, r, f', hrec, hraw, fun hread => ?_⟩
    rw [hok hread, hfound]
    rfl

theorem FindsRight.lookupFits (h : FindsRight f disk path) (hdev : Yields Good disk)
    (hd : Good f.dev) (hready : f.ready = true)
    (hread : ∀ fuel r f', StyxOS.fat32Open fuel f.recorded path = some (r, f') → f'.dev.AllRead) :
    LookupFits f disk path := by
  constructor
  · intro pre d hin hpre hmatch
    have hin' := hin
    obtain ⟨k, post, hfront, -⟩ := hin
    have hscan := scanEntries_match hmatch hpre post
    rw [← hfront] at hscan
    obtain ⟨r, f', hrec, hraw, hok⟩ :=
      hdev.fat32Open hd hready (by rw [hscan]; exact Scan.noConfusion)
    rw [hok (hread _ _ _ hrec), hscan] at hraw
    obtain ⟨e, he, hc, hn⟩ := h.sound _ _ _ _ hraw
    by_cases hsame : e = d
    · rw [hsame] at he
      exact .inl ((lists_iff hin' hmatch).mp he)
    · exact .inr ⟨e, hsame, he, hc, hn⟩
  · intro cs hchain d hlists
    obtain ⟨fuel, r, f', hrec, hraw, hok⟩ := h.complete cs hchain ⟨d, hlists⟩
    obtain ⟨⟨c, n⟩, rfl⟩ := Option.isSome_iff_exists.mp (hok (hread _ _ _ hrec))
    obtain ⟨k, hk⟩ := hdev.of_fat32Open hd hready hraw
    obtain ⟨pre, e, hin, -, hmatch, -⟩ := inDirectory_of_scan hk
    exact .inr ⟨pre, e, hin, hmatch⟩

end

theorem lookupFits_on {β δ : Type} (f : Fat32 β) (d : δ) {disk : ℕ → Bytes 512}
    {path : List UInt8} : LookupFits (f.on d) disk path ↔ LookupFits f disk path := by
  have hlists : ∀ e, (f.on d).Lists disk path e ↔ f.Lists disk path e := by
    intro e
    constructor
    · rintro ⟨hin, hord, hname⟩
      rw [Fat32.inDirectory_on] at hin
      exact ⟨hin, hord, hname⟩
    · rintro ⟨hin, hord, hname⟩
      rw [← Fat32.inDirectory_on f d] at hin
      exact ⟨hin, hord, hname⟩
  constructor
  · rintro ⟨hfirst, hplain⟩
    simp only [hlists, Fat32.inDirectory_on] at hfirst hplain
    exact ⟨hfirst, hplain⟩
  · rintro ⟨hfirst, hplain⟩
    constructor
    · simpa only [hlists, Fat32.inDirectory_on] using hfirst
    · simp only [hlists, Fat32.inDirectory_on]
      exact hplain

theorem FlakyDisk.keptByReads : KeptByReads (fun _ => True) fun d d' : Recorded FlakyDisk =>
    d.dev.transfers = [] ∧ d.AllRead → d'.dev.transfers = [] ∧ d'.AllRead where
  refl _ h := h
  trans h h' hd := h' (h hd)
  read := by
    rintro ⟨⟨sectors, encryption, transfers⟩, reads⟩ lba buf - ⟨rfl, hall⟩
    refine ⟨rfl, ?_⟩
    intro r hr
    rcases List.mem_append.mp hr with hr | hr
    · exact hall r hr
    · rw [List.mem_singleton.mp hr]
      rfl

/-- The search for a path finds the right file or nothing on every device with these sectors,
exactly when the condition is met. -/
theorem fat32Open_right_iff {β : Type} (f : Fat32 β) (hready : f.ready = true)
    (disk : ℕ → Bytes 512) (path : List UInt8) :
    (∀ (δ : Type) [SectorDevice δ] (Good : δ → Prop) (d : δ), Yields Good disk → Good d →
        FindsRight (f.on d) disk path) ↔ LookupFits f disk path := by
  constructor
  · intro h
    have hright := h FlakyDisk _ ⟨disk, false, []⟩ (FlakyDisk.yields disk) rfl
    rw [← lookupFits_on f (⟨disk, false, []⟩ : FlakyDisk)]
    apply hright.lookupFits (FlakyDisk.yields disk) rfl hready
    intro fuel r f' hopen
    exact (FlakyDisk.keptByReads.fat32Open hopen ⟨rfl, by simp [Recorded.AllRead, Fat32.on,
      Fat32.recorded]⟩).2
  · intro hfits δ _ Good d hdev hd
    exact ((lookupFits_on f d).mpr hfits).findsRight hdev hd hready

/-! ## A directory in the place of a file -/

/-- A disk with a directory `SUB` in the first sector of the root cluster, and nothing else
there. -/
def subDisk : ℕ → Bytes 512
  | 2 => ⟨[0x53, 0x55, 0x42] ++ List.replicate 8 0x20 ++ [0x10] ++ List.replicate 14 0 ++ [3] ++
      List.replicate 485 0, by
      simp only [List.length_append, List.length_replicate, List.length_cons, List.length_nil]⟩
  | n => shortDisk n

def subVolume : Fat32 FlakyDisk := { shortVolume with dev := ⟨subDisk, false, []⟩ }

theorem dirents_subDisk : ∀ d ∈ direntsOf (subDisk 2).1,
    d.name.headD 0 = 0 ∨ d.attr &&& attrDirectory ≠ 0 := by
  decide +kernel

theorem mem_of_inDirectory {disk : ℕ → Bytes 512} {pre : List Dirent} {d : Dirent}
    (hend : isEof (subVolume.fatEntry disk 2) = true)
    (hcluster : subVolume.clusterDirents disk 2 = direntsOf (disk 2).1)
    (h : subVolume.InDirectory disk pre d) : d ∈ direntsOf (disk 2).1 ∧ d.name.headD 0 ≠ 0 := by
  obtain ⟨k, post, he, hlive⟩ := h
  have hfront : subVolume.dirPrefix disk k 2 ⊆ direntsOf (disk 2).1 := by
    cases k with
    | zero => exact List.nil_subset _
    | succ k =>
      have hrest : subVolume.dirPrefix disk k (subVolume.fatEntry disk 2) = [] := by
        cases k with
        | zero => rfl
        | succ k => rw [Fat32.dirPrefix, if_pos hend]
      rw [Fat32.dirPrefix, if_neg (by decide), hrest, List.append_nil, hcluster]
      exact List.Subset.refl _
  change subVolume.dirPrefix disk k 2 = _ at he
  rw [he] at hfront
  exact ⟨hfront (by simp), hlive d (by simp)⟩

theorem not_lists_subVolume (path : List UInt8) (d : Dirent) :
    ¬ subVolume.Lists subDisk path d := by
  rintro ⟨⟨pre, hin⟩, hord, -⟩
  obtain ⟨hmem, hlive⟩ := mem_of_inDirectory (by decide +kernel) (by decide +kernel) hin
  rcases dirents_subDisk d hmem with hfree | hfile
  · exact hlive hfree
  · exact hfile hord.file

/-- Opening the path `sub` finds the directory. -/
theorem fat32Open_not_right :
    ¬ ∀ (f : Fat32 FlakyDisk) (path : List UInt8), f.ready = true → f.dev.transfers = [] →
      FindsRight f f.dev.sectors path := by
  intro h
  have hright := h subVolume [0x73, 0x75, 0x62] rfl rfl
  have hopen : (fat32Open 1 subVolume [0x73, 0x75, 0x62]).map (·.1) = some (some (3, 0)) := by
    decide +kernel
  obtain ⟨⟨r, f'⟩, hr, hfound⟩ := Option.map_eq_some_iff.mp hopen
  obtain ⟨d, hlists, -⟩ := hright.sound 1 3 0 f' (hr.trans (by rw [← hfound]))
  exact not_lists_subVolume _ d hlists

/-- A disk with a file `SUB` in this place. -/
def fileDisk : ℕ → Bytes 512
  | 2 => ⟨[0x53, 0x55, 0x42] ++ List.replicate 8 0x20 ++ [0x20] ++ List.replicate 14 0 ++ [3] ++
      List.replicate 485 0, by
      simp only [List.length_append, List.length_replicate, List.length_cons, List.length_nil]⟩
  | n => shortDisk n

theorem dirents_fileDisk : ∀ d ∈ direntsOf (fileDisk 2).1,
    d.name.headD 0 = 0 ∨
      d.attr &&& attrDirectory = 0 ∧ foldCase d.name = d.name ∧ 0x2E ∉ d.name.take 8 := by
  decide +kernel

/-- The path `sub` finds it. -/
theorem fat32Open_right_iff_sample :
    FindsRight (subVolume.on (⟨fileDisk, false, []⟩ : FlakyDisk)) fileDisk
      [0x73, 0x75, 0x62] := by
  have hfile : ∀ pre d, subVolume.InDirectory fileDisk pre d →
      d.attr &&& attrDirectory = 0 ∧ Plain d.name := by
    intro pre d hin
    obtain ⟨hmem, hlive⟩ := mem_of_inDirectory (by decide +kernel) (by decide +kernel) hin
    obtain ⟨hattr, hcapitals, hdot⟩ := (dirents_fileDisk d hmem).resolve_left hlive
    exact ⟨hattr, hcapitals, hdot⟩
  have hfits : LookupFits subVolume fileDisk [0x73, 0x75, 0x62] := by
    constructor
    · intro pre d hin _ _
      exact Or.inl ⟨⟨by decide, by decide, Or.inl (by decide)⟩, (hfile pre d hin).1⟩
    · rintro cs - d ⟨⟨pre, hin⟩, -, -⟩
      exact Or.inl (hfile pre d hin).2
  exact (fat32Open_right_iff subVolume rfl fileDisk [0x73, 0x75, 0x62]).mpr hfits FlakyDisk _ _
    (FlakyDisk.yields fileDisk) rfl

end StyxOS
