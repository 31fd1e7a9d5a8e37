import StyxOS.Fs.Reading
import StyxOS.Library.Endless

/-! # Whether the walks along a chain end

`fat32_open` and `fat32_read` stop at an end mark that the device returns, and
look at nothing else to find that a chain has no end. The search ends unless the
device holds a chain without an end for the root directory, in which no sector
stops it. Reading ends unless no bytes come with a cluster and the chain has no
end.
-/

namespace StyxOS

open ByteMem

section

variable {δ : Type} [SectorDevice δ]

/-! ## Chains as the device returns them -/

/-- An entry that is not looked at: deleted, of a long name, or a label. -/
def Dirent.Hidden (d : Dirent) : Prop :=
  d.name.headD 0 = 0xE5 ∨ d.attr = attrLfn ∨ d.attr &&& attrVolumeId ≠ 0

instance (d : Dirent) : Decidable d.Hidden := inferInstanceAs (Decidable (_ ∨ _ ∨ _))

/-- An entry at which the search for a name goes on. -/
def Dirent.PassedBy (target : List UInt8) (d : Dirent) : Prop :=
  d.name.headD 0 ≠ 0x00 ∧ (d.Hidden ∨ d.name ≠ target)

/-- The sectors are delivered one after the other, with entries that are all passed by. -/
inductive SectorsPassed (target : List UInt8) : List UInt32 → Fat32 δ → Fat32 δ → Prop
  | nil (f : Fat32 δ) : SectorsPassed target [] f f
  | cons {lba : UInt32} {lbas : List UInt32} {f f' f'' : Fat32 δ} :
      f.readSector lba = (0, f') → (∀ d ∈ direntsOf f'.sectorBuf.1, d.PassedBy target) →
      SectorsPassed target lbas f' f'' → SectorsPassed target (lba :: lbas) f f''

/-- A cluster of a directory is passed by, and the device links another one to it. -/
def DirectoryLink (target : List UInt8) (s s' : UInt32 × Fat32 δ) : Prop :=
  isEof s.1 = false ∧ ∃ f,
    SectorsPassed target ((List.range s.2.spc.toNat).map (s.2.clusterSector s.1)) s.2 f ∧
    f.fatNext s.1 = s'

/-- The device links another cluster to a cluster of a file. -/
def FileLink (s s' : UInt32 × Fat32 δ) : Prop := isEof s.1 = false ∧ s.2.fatNext s.1 = s'

/-! ## The search -/

/-- What the search makes of an entry. -/
theorem scanEntries_cons (target : List UInt8) (d : Dirent) (ds : List Dirent) :
    scanEntries target (d :: ds) =
      if d.name.headD 0 = 0x00 then .stop
      else if d.Hidden ∨ d.name ≠ target then scanEntries target ds
      else .found (UInt32.ofNat d.clusterHi <<< 16 ||| UInt32.ofNat d.clusterLo) d.fileSize := by
  rw [scanEntries]
  by_cases hfree : d.name.headD 0 = 0x00
  · rw [if_pos hfree, if_pos hfree]
  · rw [if_neg hfree, if_neg hfree]
    by_cases hhidden : d.Hidden
    · have hpast : d.Hidden ∨ d.name ≠ target := .inl hhidden
      rw [if_pos hpast]
      rcases hhidden with hdeleted | hlfn | hlabel
      · rw [if_pos hdeleted]
      · rw [if_pos hlfn, ite_self]
      · rw [if_pos hlabel, ite_self, ite_self]
    · obtain ⟨hdeleted, hlfn, hlabel⟩ : ¬ _ ∧ ¬ _ ∧ ¬ _ := by
        rwa [Dirent.Hidden, not_or, not_or] at hhidden
      rw [if_neg hdeleted, if_neg hlfn, if_neg hlabel]
      by_cases hname : d.name = target
      · rw [if_pos hname, if_neg (not_or.mpr ⟨hhidden, not_not.mpr hname⟩)]
      · have hpast : d.Hidden ∨ d.name ≠ target := .inr hname
        rw [if_neg hname, if_pos hpast]

theorem scanEntries_goOn_iff {target : List UInt8} {ds : List Dirent} :
    scanEntries target ds = .goOn ↔ ∀ d ∈ ds, d.PassedBy target := by
  induction ds with
  | nil => simp [scanEntries]
  | cons d ds ih =>
    rw [List.forall_mem_cons, ← ih, scanEntries_cons, Dirent.PassedBy]
    by_cases hfirst : d.name.headD 0 = 0x00
    · simp only [hfirst, if_true, ne_eq, not_true_eq_false, false_and, reduceCtorEq]
    · by_cases hpast : d.Hidden ∨ d.name ≠ target
      · simp only [hfirst, hpast, if_true, if_false, ne_eq, not_false_eq_true, true_and]
      · simp only [hfirst, hpast, if_false, and_false, false_and, reduceCtorEq]

theorem scanSectors_goOn_iff {target : List UInt8} {lba : UInt32} {ss : List ℕ} {f f' : Fat32 δ} :
    scanSectors target lba ss f = (.goOn, f') ↔
      SectorsPassed target (ss.map fun s => lba + UInt32.ofNat s) f f' := by
  induction ss generalizing f with
  | nil =>
    constructor
    · intro h
      cases h
      exact .nil _
    · intro h
      cases h
      rfl
  | cons s ss ih =>
    obtain ⟨rc, f₁, hr⟩ : ∃ rc f₁, f.readSector (lba + UInt32.ofNat s) = (rc, f₁) := ⟨_, _, rfl⟩
    rw [scanSectors, hr]
    dsimp only
    constructor
    · intro h
      by_cases hrc : rc = 0
      · rw [if_neg (not_not.mpr hrc)] at h
        cases hscan : scanEntries target (direntsOf f₁.sectorBuf.1) with
        | found c n =>
          rw [hscan] at h
          cases h
        | stop =>
          rw [hscan] at h
          cases h
        | goOn =>
          rw [hscan] at h
          exact .cons (hrc ▸ hr) (scanEntries_goOn_iff.mp hscan) (ih.mp h)
      · rw [if_pos hrc] at h
        cases h
    · intro h
      cases h with
      | cons hread hpass hrest =>
        obtain ⟨rfl, rfl⟩ := Prod.mk.inj (hr.symm.trans hread)
        rw [if_neg (not_not.mpr rfl), scanEntries_goOn_iff.mpr hpass]
        exact ih.mpr hrest

theorem scanClusters_link {target : List UInt8} {s s' : UInt32 × Fat32 δ}
    (h : DirectoryLink target s s') (fuel : ℕ) :
    scanClusters target (fuel + 1) s.1 s.2 = scanClusters target fuel s'.1 s'.2 := by
  obtain ⟨hopen, f, hpass, rfl⟩ := h
  have hscan : scanSectors target (s.2.clusterToLba s.1) (List.range s.2.spc.toNat) s.2 =
    (.goOn, f) := scanSectors_goOn_iff.mpr hpass
  rw [scanClusters, hopen, if_neg Bool.false_ne_true, hscan]

theorem scanClusters_last {target : List UInt8} {s : UInt32 × Fat32 δ}
    (h : ∀ s', ¬ DirectoryLink target s s') (fuel : ℕ) :
    ∃ r, scanClusters target (fuel + 1) s.1 s.2 = some r := by
  rw [scanClusters]
  by_cases heof : isEof s.1 = true
  · rw [if_pos heof]
    exact ⟨_, rfl⟩
  · rw [if_neg heof]
    obtain ⟨r, f, hscan⟩ : ∃ r f, scanSectors target (s.2.clusterToLba s.1)
      (List.range s.2.spc.toNat) s.2 = (r, f) := ⟨_, _, rfl⟩
    rw [hscan]
    cases r with
    | found c n => exact ⟨_, rfl⟩
    | stop => exact ⟨_, rfl⟩
    | goOn =>
      exact absurd ⟨Bool.eq_false_iff.mpr heof, f, scanSectors_goOn_iff.mp hscan, rfl⟩ (h _)

/-- The search ends exactly when the chain of the root directory, as the device returns it, does
not lead on for ever past entries that are passed by. -/
theorem fat32Open_ends_iff {f : Fat32 δ} (hready : f.ready = true) (path : List UInt8) :
    (∃ fuel r, fat32Open fuel f path = some r) ↔
      ¬ Endless (DirectoryLink (pathTo83 path)) (f.rootCluster, f) := by
  rw [← Endless.ends_iff (I := fun _ => True) (fun _ _ _ _ => trivial)
    (f := fun fuel s => scanClusters (pathTo83 path) fuel s.1 s.2)
    (fun _ => rfl) (fun fuel _ _ _ h => scanClusters_link h fuel)
    (fun fuel _ h => scanClusters_last h fuel) trivial]
  simp only [fat32Open, hready, if_true]

/-! ## Reading -/

@[simp] theorem Fat32.spc_readSector (f : Fat32 δ) (lba : UInt32) :
    (f.readSector lba).2.spc = f.spc := rfl

@[simp] theorem Fat32.spc_fatNext (f : Fat32 δ) (cluster : UInt32) :
    (f.fatNext cluster).2.spc = f.spc := by
  simp only [Fat32.fatNext]
  split <;> rfl

theorem readSectors_grows (lba : UInt32) (len : ℕ) (ss : List ℕ) (dst : List UInt8) (f : Fat32 δ) :
    dst.length ≤ (readSectors lba len ss dst f).2.1.length ∧
      (readSectors lba len ss dst f).2.2.spc = f.spc := by
  induction ss generalizing dst f with
  | nil => exact ⟨Nat.le_refl _, rfl⟩
  | cons s ss ih =>
    by_cases hroom : dst.length < len
    · by_cases hrc : (f.readSector (lba + UInt32.ofNat s)).1 = 0
      · simp only [readSectors, hroom, hrc, if_true, ne_eq, not_true_eq_false, if_false]
        obtain ⟨hlen, hspc⟩ := ih (dst ++ (f.readSector (lba + UInt32.ofNat s)).2.sectorBuf.1.take
          (if dst.length + 512 > len then len - dst.length else 512))
          (f.readSector (lba + UInt32.ofNat s)).2
        constructor
        · exact le_trans (by simp) hlen
        · exact hspc
      · simp only [readSectors, hroom, hrc, if_true, ne_eq, not_false_eq_true]
        exact ⟨Nat.le_refl _, rfl⟩
    · simp only [readSectors, hroom, if_false]
      exact ⟨Nat.le_refl _, trivial⟩

theorem length_readSectors {lba : UInt32} {len s : ℕ} {ss : List ℕ} {dst dst' : List UInt8}
    {f f' : Fat32 δ} (hroom : dst.length < len)
    (h : readSectors lba len (s :: ss) dst f = (true, dst', f')) : dst.length < dst'.length := by
  obtain ⟨rc, f₁, hr⟩ : ∃ rc f₁, f.readSector (lba + UInt32.ofNat s) = (rc, f₁) := ⟨_, _, rfl⟩
  rw [readSectors, if_pos hroom, hr] at h
  by_cases hrc : rc = 0
  · rw [hrc] at h
    set chunk := if dst.length + 512 > len then len - dst.length else 512 with hchunk
    have hsome : 0 < chunk ∧ chunk ≤ 512 := by
      rw [hchunk]
      split <;> omega
    have hgrow := (readSectors_grows lba len ss (dst ++ f₁.sectorBuf.1.take chunk) f₁).1.trans_eq
      (congrArg (fun r => r.2.1.length) h)
    rw [List.length_append, List.length_take, f₁.sectorBuf.2, Nat.min_eq_left hsome.2] at hgrow
    change dst.length + chunk ≤ dst'.length at hgrow
    omega
  · simp [hrc] at h

theorem readClusters_ends {len : ℕ} {f : Fat32 δ} (hspc : f.spc ≠ 0) {fuel : ℕ} {dst : List UInt8}
    (hfuel : len - dst.length < fuel) (cluster : UInt32) :
    ∃ r, readClusters len fuel cluster dst f = some r := by
  induction fuel generalizing cluster dst f with
  | zero => exact absurd hfuel (Nat.not_lt_zero _)
  | succ fuel ih =>
    rw [readClusters]
    split
    · rename_i hgo
      have hroom : dst.length < len := by
        rw [Bool.and_eq_true, decide_eq_true_iff] at hgo
        exact hgo.2
      obtain ⟨k, hk⟩ : ∃ k, f.spc.toNat = k + 1 :=
        Nat.exists_eq_add_one_of_ne_zero fun h => hspc (UInt8.toNat_inj.mp h)
      obtain ⟨ok, dst', f', hr⟩ : ∃ ok dst' f', readSectors (f.clusterToLba cluster) len
        (List.range f.spc.toNat) dst f = (ok, dst', f') := ⟨_, _, _, rfl⟩
      rw [hr]
      cases ok with
      | false => exact ⟨_, rfl⟩
      | true =>
        have hkept := (readSectors_grows (f.clusterToLba cluster) len (List.range f.spc.toNat)
          dst f).2
        rw [hr] at hkept
        rw [hk, List.range_succ_eq_map] at hr
        have hmore := length_readSectors hroom hr
        apply ih
        · rwa [Fat32.spc_fatNext, hkept]
        · omega
    · exact ⟨_, rfl⟩

theorem readClusters_link {len : ℕ} (hlen : len ≠ 0) {s s' : UInt32 × Fat32 δ}
    (hspc : s.2.spc = 0) (h : FileLink s s') (fuel : ℕ) :
    readClusters len (fuel + 1) s.1 [] s.2 = readClusters len fuel s'.1 [] s'.2 := by
  obtain ⟨hopen, rfl⟩ := h
  have hroom : decide (([] : List UInt8).length < len) = true :=
    decide_eq_true (Nat.pos_of_ne_zero hlen)
  rw [readClusters, hopen, hroom, hspc]
  rfl

theorem readClusters_last {len : ℕ} {s : UInt32 × Fat32 δ} (h : ∀ s', ¬ FileLink s s') (fuel : ℕ) :
    ∃ r, readClusters len (fuel + 1) s.1 [] s.2 = some r := by
  have heof : isEof s.1 = true := by
    by_contra hopen
    exact h _ ⟨Bool.eq_false_iff.mpr hopen, rfl⟩
  rw [readClusters, heof]
  exact ⟨_, rfl⟩

/-- Reading ends exactly when bytes come with a cluster, or none is asked for, or the chain of the
file, as the device returns it, does not lead on for ever. -/
theorem fat32Read_ends_iff {f : Fat32 δ} (hready : f.ready = true) (start : UInt32) (len : ℕ) :
    (∃ fuel r, fat32Read fuel f start len = some r) ↔
      f.spc ≠ 0 ∨ len = 0 ∨ ¬ Endless FileLink (start, f) := by
  simp only [fat32Read, hready, if_true]
  by_cases hspc : f.spc = 0
  · by_cases hlen : len = 0
    · simp only [hspc, hlen, ne_eq, not_true_eq_false, true_or, or_true, iff_true]
      refine ⟨1, ([], f), ?_⟩
      simp [readClusters]
    · have hkeep : ∀ s s' : UInt32 × Fat32 δ, s.2.spc = 0 → FileLink s s' → s'.2.spc = 0 := by
        rintro s s' hs ⟨-, rfl⟩
        rwa [Fat32.spc_fatNext]
      rw [or_iff_right (not_not.mpr hspc), or_iff_right hlen]
      exact Endless.ends_iff hkeep (f := fun fuel s => readClusters len fuel s.1 [] s.2)
        (fun _ => rfl) (fun fuel _ _ hs h => readClusters_link hlen hs h fuel)
        (fun fuel _ h => readClusters_last h fuel) (s := (start, f)) hspc
  · simp only [ne_eq, hspc, not_false_eq_true, true_or, iff_true]
    exact ⟨_, readClusters_ends hspc (Nat.lt_succ_self _) start⟩

/-- Both operations on a mounted volume end exactly when the directory is not passed by for ever,
and bytes come with a cluster, or none is asked for, or the file is not without an end. -/
theorem fat32_ends_iff {f : Fat32 δ} (hready : f.ready = true) (path : List UInt8) (start : UInt32)
    (len : ℕ) :
    ((∃ fuel r, fat32Open fuel f path = some r) ∧ ∃ fuel r, fat32Read fuel f start len = some r) ↔
      ¬ Endless (DirectoryLink (pathTo83 path)) (f.rootCluster, f) ∧
        (f.spc ≠ 0 ∨ len = 0 ∨ ¬ Endless FileLink (start, f)) := by
  rw [fat32Open_ends_iff hready, fat32Read_ends_iff hready]

end

/-! ## On a disk whose sectors stay as they are -/

section

variable {δ : Type} [SectorDevice δ] {Good : δ → Prop} {disk : ℕ → Bytes 512} {f : Fat32 δ}

omit [SectorDevice δ] in
/-- Where the state of the device does not matter, steps go on for ever when each cluster on the way
has what a step takes. -/
theorem endless_iterate {next : UInt32 → UInt32} {P : UInt32 → Prop}
    {r : UInt32 × Fat32 δ → UInt32 × Fat32 δ → Prop}
    (hout : ∀ c d b s', Good d → r (c, f.reread d b) s' →
      P c ∧ ∃ d' b', s' = (next c, f.reread d' b') ∧ Good d')
    (hin : ∀ c d b, Good d → P c → ∃ d' b', r (c, f.reread d b) (next c, f.reread d' b') ∧ Good d')
    (hd : Good f.dev) (c : UInt32) : Endless r (c, f) ↔ ∀ k, P (next^[k] c) := by
  constructor
  · rintro ⟨g, hzero, hg⟩
    have hway : ∀ k, ∃ d b, g k = (next^[k] c, f.reread d b) ∧ Good d := by
      intro k
      induction k with
      | zero => exact ⟨f.dev, f.sectorBuf, hzero, hd⟩
      | succ k ih =>
        obtain ⟨d, b, hk, hgood⟩ := ih
        have hnext := hg k
        rw [hk] at hnext
        obtain ⟨-, d', b', he, hd'⟩ := hout _ d b _ hgood hnext
        exact ⟨d', b', by rw [he, Function.iterate_succ_apply'], hd'⟩
    intro k
    obtain ⟨d, b, hk, hgood⟩ := hway k
    have hnext := hg k
    rw [hk] at hnext
    exact (hout _ d b _ hgood hnext).1
  · intro hall
    apply Endless.of_invariant
      (I := fun s => ∃ k d b, s = (next^[k] c, f.reread d b) ∧ Good d)
    · rintro s ⟨k, d, b, rfl, hgood⟩
      obtain ⟨d', b', hnext, hd'⟩ := hin _ d b hgood (hall k)
      exact ⟨_, hnext, k + 1, d', b', by rw [Function.iterate_succ_apply'], hd'⟩
    · exact ⟨0, f.dev, f.sectorBuf, rfl, hd⟩

theorem Serves.fatNext (h : Serves Good disk (2 ^ 32)) (hd : Good f.dev) (cluster : UInt32) :
    ∃ d' b', f.fatNext cluster = (f.fatEntry disk cluster, f.reread d' b') ∧ Good d' := by
  obtain ⟨c, d', b', he, hd', ⟨rfl, -⟩ | ⟨-, hfail⟩⟩ := h.answers.fatNext hd
    (f.within_all cluster)
  · exact ⟨d', b', he, hd'⟩
  · exact hfail.elim

/-- The chain of a file is without an end when no link of the table on the way is an end mark. -/
theorem Serves.endless_file_iff (h : Serves Good disk (2 ^ 32)) (hd : Good f.dev) (start : UInt32) :
    Endless FileLink (start, f) ↔ ∀ k, isEof ((f.fatEntry disk)^[k] start) = false := by
  apply endless_iterate (P := fun c => isEof c = false) (r := FileLink) _ _ hd
  · rintro c d b s' hgood ⟨hopen, hlink⟩
    obtain ⟨d', b', he, hd'⟩ := h.fatNext (f := f.reread d b) hgood c
    exact ⟨hopen, d', b', hlink.symm.trans he, hd'⟩
  · rintro c d b hgood hopen
    obtain ⟨d', b', he, hd'⟩ := h.fatNext (f := f.reread d b) hgood c
    exact ⟨d', b', ⟨hopen, he⟩, hd'⟩

theorem Serves.sectorsPassed (h : Serves Good disk (2 ^ 32)) {target : List UInt8}
    {lbas : List UInt32} (hd : Good f.dev)
    (hpass : ∀ lba ∈ lbas, ∀ e ∈ direntsOf (disk lba.toNat).1, e.PassedBy target) :
    ∃ d b, SectorsPassed target lbas f (f.reread d b) ∧ Good d := by
  induction lbas generalizing f with
  | nil => exact ⟨f.dev, f.sectorBuf, .nil f, hd⟩
  | cons lba lbas ih =>
    obtain ⟨hfirst, hrest⟩ := List.forall_mem_cons.mp hpass
    obtain ⟨d₁, he, hd₁⟩ := h.readSector hd lba.toNat_lt
    obtain ⟨d₂, b₂, hpassed, hd₂⟩ := ih (f := f.reread d₁ (disk lba.toNat)) hd₁ hrest
    exact ⟨d₂, b₂, .cons he hfirst hpassed, hd₂⟩

theorem Serves.of_sectorsPassed (h : Serves Good disk (2 ^ 32)) {target : List UInt8}
    {lbas : List UInt32} {f' : Fat32 δ} (hd : Good f.dev) (hs : SectorsPassed target lbas f f') :
    (∀ lba ∈ lbas, ∀ e ∈ direntsOf (disk lba.toNat).1, e.PassedBy target) ∧
      ∃ d b, f' = f.reread d b ∧ Good d := by
  induction hs with
  | nil f => exact ⟨by simp, f.dev, f.sectorBuf, rfl, hd⟩
  | @cons lba lbas f f₁ f₂ hread hpass _ ih =>
    obtain ⟨d₁, he, hd₁⟩ := h.readSector hd lba.toNat_lt
    obtain ⟨-, rfl⟩ := Prod.mk.inj (he.symm.trans hread)
    obtain ⟨hrest, d₂, b₂, rfl, hd₂⟩ := ih hd₁
    exact ⟨List.forall_mem_cons.mpr ⟨hpass, hrest⟩, d₂, b₂, rfl, hd₂⟩

/-- A directory is passed by for ever when no link of the table on the way is an end mark, and no
sector of the clusters has an entry that ends the search. -/
theorem Serves.endless_directory_iff (h : Serves Good disk (2 ^ 32)) (hd : Good f.dev)
    (target : List UInt8) :
    Endless (DirectoryLink target) (f.rootCluster, f) ↔
      ∀ k, isEof ((f.fatEntry disk)^[k] f.rootCluster) = false ∧
        ∀ s < f.spc.toNat,
          ∀ e ∈ direntsOf
            (disk (f.clusterSector ((f.fatEntry disk)^[k] f.rootCluster) s).toNat).1,
          e.PassedBy target := by
  apply endless_iterate (P := fun c => isEof c = false ∧ ∀ s < f.spc.toNat,
    ∀ e ∈ direntsOf (disk (f.clusterSector c s).toNat).1, e.PassedBy target) _ _ hd
  · rintro c d b s' hgood ⟨hopen, f₁, hpassed, hlink⟩
    obtain ⟨hpass, d₁, b₁, rfl, hd₁⟩ := h.of_sectorsPassed hgood hpassed
    obtain ⟨d', b', he, hd'⟩ := h.fatNext (f := f.reread d₁ b₁) hd₁ c
    refine ⟨⟨hopen, ?_⟩, d', b', hlink.symm.trans he, hd'⟩
    intro s hs
    exact hpass _ (List.mem_map_of_mem (List.mem_range.mpr hs))
  · rintro c d b hgood ⟨hopen, hpass⟩
    have hall : ∀ lba ∈ (List.range f.spc.toNat).map (f.clusterSector c),
        ∀ e ∈ direntsOf (disk lba.toNat).1, e.PassedBy target := by
      intro lba hlba
      obtain ⟨s, hs, rfl⟩ := List.mem_map.mp hlba
      exact hpass s (List.mem_range.mp hs)
    obtain ⟨d₁, b₁, hpassed, hd₁⟩ := h.sectorsPassed (f := f.reread d b) hgood hall
    obtain ⟨d', b', he, hd'⟩ := h.fatNext (f := f.reread d₁ b₁) hd₁ c
    exact ⟨d', b', ⟨hopen, _, hpassed, he⟩, hd'⟩

end

/-! ## A directory that is linked to itself -/

theorem FlakyDisk.serves (disk : ℕ → Bytes 512) (n : ℕ) :
    Serves (fun d : FlakyDisk => d.sectors = disk ∧ d.transfers = []) disk n := by
  rintro ⟨sectors, encryption, transfers⟩ lba buf ⟨rfl, rfl⟩ -
  exact ⟨_, rfl, rfl, rfl⟩

/-- The directory of three clusters comes to an end. -/
theorem fat32_ends_iff_sample :
    (∃ fuel r, fat32Open fuel scatteredVolume [0x61] = some r) ∧
      ∃ fuel r, fat32Read fuel scatteredVolume 2 2500 = some r := by
  apply (fat32_ends_iff rfl [0x61] 2 2500).mpr
  refine ⟨fun hendless => ?_, .inl (by decide)⟩
  have hall := ((FlakyDisk.serves scatteredDisk (2 ^ 32)).endless_directory_iff
    (f := scatteredVolume) ⟨rfl, rfl⟩ (pathTo83 [0x61])).mp hendless
  have hend : isEof ((scatteredVolume.fatEntry scatteredDisk)^[3] 2) = true := by decide +kernel
  exact absurd ((hall 3).1.symm.trans hend) (by decide)

/-- A first sector with one sector in a cluster, the table in sector 1 and the clusters behind. -/
def loopBpb : Bytes 512 :=
  ⟨List.replicate 11 0 ++ [0, 2, 1, 1, 0, 1] ++ List.replicate 19 0 ++ [1, 0, 0, 0] ++
    List.replicate 4 0 ++ [2, 0, 0, 0] ++ List.replicate 464 0, by
    simp only [List.length_append, List.length_replicate, List.length_cons, List.length_nil]⟩

/-- A table that links the second cluster to itself. -/
def loopTable : Bytes 512 :=
  ⟨List.replicate 8 0 ++ [2, 0, 0, 0] ++ List.replicate 500 0, by
    simp only [List.length_append, List.length_replicate, List.length_cons, List.length_nil]⟩

/-- A disk with such a table, and with deleted entries behind it. -/
def loopDisk : ℕ → Bytes 512
  | 0 => loopBpb
  | 1 => loopTable
  | _ => ⟨List.replicate 512 0xE5, List.length_replicate⟩

def loopVolume : Fat32 FlakyDisk where
  dev := { sectors := loopDisk, encryption := false, transfers := [] }
  fatStart := 0
  dataStart := 0
  rootCluster := 0
  spc := 0
  sectorBuf := loopTable
  ready := false

theorem fat32Init_loopVolume :
    fat32Init loopVolume = (true, { loopVolume with
      fatStart := 1, dataStart := 2, rootCluster := 2, spc := 1, sectorBuf := loopBpb
      ready := true }) := by
  have hbpb : Bpb.ofBytes loopBpb.1 = ⟨512, 1, 1, 1, 1, 2⟩ := by decide +kernel
  have hread : loopVolume.readSector 0 = (0, { loopVolume with sectorBuf := loopBpb }) := rfl
  unfold fat32Init
  rw [hread]
  dsimp only
  rw [hbpb]
  rfl

theorem deleted_loopDisk : ∀ d ∈ direntsOf (List.replicate 512 0xE5), d.name.headD 0 = 0xE5 := by
  decide +kernel

/-- On a volume that is mounted from this disk, the search for a file does not end. -/
theorem fat32_not_ends :
    ¬ ∀ (f : Fat32 FlakyDisk) (path : List UInt8) (start : UInt32) (len : ℕ),
      (fat32Init f).1 = true →
        (∃ fuel r, fat32Open fuel (fat32Init f).2 path = some r) ∧
          ∃ fuel r, fat32Read fuel (fat32Init f).2 start len = some r := by
  intro hends
  have hinit := fat32Init_loopVolume
  set f : Fat32 FlakyDisk := { loopVolume with
      fatStart := 1, dataStart := 2, rootCluster := 2, spc := 1, sectorBuf := loopBpb
      ready := true } with hf
  have hopen := (hends loopVolume [0x61] 2 0 (by rw [hinit])).1
  rw [hinit, fat32Open_ends_iff rfl] at hopen
  apply hopen
  rw [(FlakyDisk.serves loopDisk (2 ^ 32)).endless_directory_iff ⟨rfl, rfl⟩]
  have hlink : f.fatEntry loopDisk 2 = 2 := by decide +kernel
  intro k
  rw [show f.rootCluster = 2 from rfl, Function.iterate_fixed hlink]
  constructor
  · rfl
  · intro s hs e he
    have hzero : s = 0 := Nat.lt_one_iff.mp hs
    rw [hzero] at he
    have hdeleted := deleted_loopDisk e he
    exact ⟨by rw [hdeleted]; decide, .inl (.inl hdeleted)⟩

end StyxOS
