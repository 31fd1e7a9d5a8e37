import StyxOS.Crypto.Sha512
import StyxOS.Elf.Isolation

/-! # The manifest of trusted binaries

`manifest_verify_elf` with its table, and the images that the loader maps in some
state of the machine. The digest of an image is computed for the log.
-/

namespace StyxOS.Manifest

open ByteMem FrameAllocator

/-- `manifest_entry_t`. -/
structure ManifestEntry where
  name : String
  sha512Prefix : List UInt8
deriving DecidableEq, Repr

def gTrustedManifest : List ManifestEntry :=
  [⟨"init", [0x7F, 0x45, 0x4C, 0x46]⟩, ⟨"tor_daemon", [0x7F, 0x45, 0x4C, 0x46]⟩,
    ⟨"shell", [0x7F, 0x45, 0x4C, 0x46]⟩]

def Blocked (name : Option String) : Prop :=
  name = some "untrusted" ∨ name = some "malware" ∨ name = some "bad_init"

instance (name : Option String) : Decidable (Blocked name) := inferInstanceAs (Decidable (_ ∨ _))

/-- `manifest_verify_elf`, where a pointer that is NULL is `none`. -/
def manifestVerifyElf (name : Option String) (data : Option (List UInt8)) : Bool :=
  match data with
  | none => false
  | some data =>
    if data.length < 64 then false
    else if Blocked name then false
    -- An entry of the table with this name makes a difference to the log only.
    else if gTrustedManifest.any fun e => name = some e.name then true
    else true

/-- The table has an entry with the name, and its bytes are those of the digest. -/
def Listed (name : Option String) (data : Option (List UInt8)) : Prop :=
  ∃ bs, data = some bs ∧ ∃ e ∈ gTrustedManifest, name = some e.name ∧
    (sha512 bs).take e.sha512Prefix.length = e.sha512Prefix

/-- What the function rejects. -/
def Rejected (name : Option String) (data : Option (List UInt8)) : Prop :=
  data.elim True fun bs => bs.length < 64 ∨ Blocked name

theorem manifestVerifyElf_eq_true_iff {name : Option String} {data : Option (List UInt8)} :
    manifestVerifyElf name data = true ↔ ¬ Rejected name data := by
  cases data with
  | none => simp [manifestVerifyElf, Rejected]
  | some bs => simp [manifestVerifyElf, Rejected]

/-! ## Images that are mapped -/

/-- The bytes of the file. -/
def fileBytes (img : ElfImage) : List UInt8 := load img.bytes 0 img.size

/-- The bytes of the digest that the table would record. -/
def recordedDigest (img : ElfImage) : List UInt8 := (sha512 (fileBytes img)).take 4

/-- What the loader asks of the manifest. -/
theorem manifestVerifyElf_image (img : ElfImage) :
    manifestVerifyElf (some "init") (some (fileBytes img)) =
      StyxOS.manifestVerifyElf "init" img.size := by
  have hblocked : ¬ Blocked (some "init") := by decide
  rw [manifestVerifyElf, StyxOS.manifestVerifyElf, if_neg hblocked,
    if_neg (by decide : ¬ ("init" = "untrusted" ∨ "init" = "malware" ∨ "init" = "bad_init"))]
  simp [fileBytes]

/-- In some state of the machine the loader maps a page of the image. -/
def EverMapped (img : ElfImage) : Prop :=
  ∃ (σ : Type) (_ : FrameAllocator σ) (s s' : Vmm σ) (pml4 : ℕ) (rc : ℤ),
    elfLoad s pml4 img = some (rc, s') ∧ s' ≠ s

/-- The loader accepts the header of the image, and comes to a page of it. -/
def Mappable (img : ElfImage) : Prop := img.accepted ∧ reachedPages img.size img.phdrs ≠ []

section

variable {σ : Type} [FrameAllocator σ] {img : ElfImage} {ph : Phdr} {phs : List Phdr}
  {s s' : Vmm σ} {rc : ℤ}

theorem eq_of_loadSegments (hpages : reachedPages img.size phs = [])
    (h : loadSegments img s phs = some (rc, s')) : s' = s := by
  induction phs with
  | nil =>
    obtain ⟨-, rfl⟩ := Prod.mk.inj (Option.some.inj h)
    rfl
  | cons ph phs ih =>
    rw [loadSegments] at h
    rw [reachedPages] at hpages
    by_cases htype : ph.type ≠ ptLoad
    · rw [if_pos htype] at h hpages
      exact ih hpages h
    rw [if_neg htype] at h hpages
    by_cases hout : ph.inFile img.size = false
    · rw [if_pos hout] at h
      obtain ⟨-, rfl⟩ := Prod.mk.inj (Option.some.inj h)
      rfl
    rw [if_neg hout] at h hpages
    obtain ⟨hnil, hrest⟩ := List.append_eq_nil_iff.mp hpages
    rw [hnil] at h
    exact ih hrest (by simpa [loadPages] using h)

end

/-! ### A machine with one frame -/

/-- Page tables of which every entry leads back to the table at `0x5000`, so that a page is mapped
without a new table, and one free frame. -/
def oneFrame : Vmm FrameList where
  mem a := (leBytes 8 0x5007).getD (a % 8) 0
  pmm := ⟨[0x1000], by decide, by decide⟩
  currentPml4 := some 0x5000
  hhdmOff := 0

variable {s : Vmm FrameList} {img : ElfImage} {ph : Phdr} {phs : List Phdr}
  {bs : List UInt8}

theorem setEntry_entryAt (mem : Mem) (table : ℕ) (i : Fin 512) :
    setEntry mem table i (entryAt mem table i) = mem := by
  have hbytes : leBytes 8 (leVal (load mem (table + 8 * i) 8)) = load mem (table + 8 * i) 8 := by
    simpa using leBytes_leVal (load mem (table + 8 * i) 8)
  rw [setEntry, storeLE, entryAt, loadLE, hbytes, store_load_self]

theorem nextTable_loop (h : ∀ i, entryAt s.mem 0x5000 i = 0x5007) (i : Fin 512) :
    nextTable s 0x5000 i userFlags = some (0x5000, s) := by
  have hpresent : ptePresent 0x5007 = true := by decide
  have hopen : 0x5007 ||| userFlags &&& 4 = 0x5007 := by decide
  have haddr : pteAddr 0x5007 = 0x5000 := by decide
  have hset : setEntry s.mem 0x5000 i 0x5007 = s.mem := by
    rw [← h i]
    exact setEntry_entryAt _ _ _
  simp [nextTable, h, hpresent, hopen, hset, haddr]

theorem entryAt_oneFrame (i : Fin 512) : entryAt oneFrame.mem 0x5000 i = 0x5007 := by
  have hperiod : ∀ k < 8, oneFrame.mem (0x5000 + 8 * i.val + k) = oneFrame.mem (0 + k) := by
    intro k hk
    have hmod : (0x5000 + 8 * i.val + k) % 8 = (0 + k) % 8 := by omega
    simp only [oneFrame, hmod]
  have hzero : loadLE oneFrame.mem 0 8 = 0x5007 := by decide
  rw [entryAt, ← hzero, loadLE, loadLE, load, load]
  exact congrArg leVal (List.map_congr_left fun k hk => hperiod k (List.mem_range.mp hk))

theorem mapFresh_oneFrame (page : ℕ) (hlen : bs.length = 4096) :
    ∃ t : Vmm FrameList, mapFresh oneFrame page bs = some (true, t) ∧ t.pmm.frames = [] := by
  let u : Vmm FrameList :=
    { oneFrame with mem := store oneFrame.mem 0x1000 bs, pmm := ⟨[], by decide, by decide⟩ }
  have hentry : ∀ i : Fin 512, entryAt u.mem 0x5000 i = 0x5007 := by
    intro i
    have hfar : 0x1000 + bs.length ≤ 0x5000 + 8 * i.val := by omega
    rw [entryAt, loadLE_store_disjoint (.inr hfar)]
    exact entryAt_oneFrame i
  have halloc : mapFresh oneFrame page bs =
      (vmmMapPage u page 0x1000 userFlags).bind fun t => some (true, t) := rfl
  have hcur : u.currentPml4 = some 0x5000 := rfl
  rw [halloc, vmmMapPage, hcur]
  simp only [nextTable_loop hentry, Option.bind_eq_bind, Option.bind_some]
  exact ⟨_, rfl, rfl⟩

theorem loadPages_of_no_frame (img : ElfImage) (ph : Phdr) (h : s.pmm.frames = [])
    (pages : List ℕ) :
    ∃ rc, loadPages img ph s pages = some (rc, s) := by
  have halloc : allocFrame s.pmm = none := by
    cases hpmm : s.pmm with
    | mk frames hn hs =>
      rw [hpmm] at h
      obtain rfl : frames = [] := h
      rfl
  cases pages with
  | nil => exact ⟨0, rfl⟩
  | cons page pages => exact ⟨-6, by simp [loadPages, mapFresh, halloc]⟩

theorem loadSegments_of_no_frame (img : ElfImage) (phs : List Phdr) (h : s.pmm.frames = []) :
    ∃ rc, loadSegments img s phs = some (rc, s) := by
  induction phs with
  | nil => exact ⟨0, rfl⟩
  | cons ph phs ih =>
    rw [loadSegments]
    split
    · exact ih
    · split
      · exact ⟨-5, rfl⟩
      · obtain ⟨rc, hrc⟩ := loadPages_of_no_frame img ph h ph.pages
        by_cases hzero : rc = 0
        · simpa [hrc, hzero] using ih
        · exact ⟨rc, by simp [hrc, hzero]⟩

theorem loadSegments_oneFrame (hpages : reachedPages img.size phs ≠ []) :
    ∃ rc t, loadSegments img oneFrame phs = some (rc, t) ∧ t.pmm.frames = [] := by
  induction phs with
  | nil => exact absurd rfl hpages
  | cons ph phs ih =>
    rw [reachedPages] at hpages
    rw [loadSegments]
    split
    · next htype => exact ih (by rwa [if_pos htype] at hpages)
    · next htype =>
      rw [if_neg htype] at hpages
      split
      · next hout => exact absurd (if_pos hout) hpages
      · next hout =>
        rw [if_neg hout] at hpages
        cases hph : ph.pages with
        | nil =>
          rw [hph] at hpages
          simpa [loadPages] using ih hpages
        | cons page pages =>
          obtain ⟨t, ht, hempty⟩ := mapFresh_oneFrame page (length_pageBytes ph img page)
          obtain ⟨rc, hrc⟩ := loadPages_of_no_frame img ph hempty pages
          by_cases hzero : rc = 0
          · obtain ⟨rc', hrc'⟩ := loadSegments_of_no_frame img phs hempty
            exact ⟨rc', t, by simp [loadPages, ht, hrc, hzero, hrc'], hempty⟩
          · exact ⟨rc, t, by simp [loadPages, ht, hrc, hzero], hempty⟩

theorem everMapped_iff : EverMapped img ↔ Mappable img := by
  constructor
  · rintro ⟨σ, _, s, s', pml4, rc, hload, hne⟩
    rcases elfLoad_cases hload with ⟨-, rfl⟩ | ⟨hacc, t, ht, rfl⟩
    · exact absurd rfl hne
    · refine ⟨hacc, fun hpages => hne ?_⟩
      rw [eq_of_loadSegments hpages ht]
  · rintro ⟨hacc, hpages⟩
    obtain ⟨rc, t, ht, hempty⟩ := loadSegments_oneFrame hpages
    refine ⟨FrameList, inferInstance, oneFrame, { t with currentPml4 := some 0x5000 }, 0x5000, rc,
      ?_, fun heq => ?_⟩
    · obtain ⟨hsize, hmagic, hclass, hmachine⟩ := hacc
      have hman : StyxOS.manifestVerifyElf "init" img.size ≠ false := by
        simp [StyxOS.manifestVerifyElf, Nat.not_lt.mpr hsize]
      have hloop : loadSegments img { oneFrame with currentPml4 := some 0x5000 } img.phdrs =
          some (rc, t) := ht
      simp [elfLoad, hman, Nat.not_lt.mpr hsize, hmagic, hclass, hmachine, hloop]
      rfl
    · have hframes : t.pmm.frames = oneFrame.pmm.frames := congrArg (fun s => s.pmm.frames) heq
      rw [hempty] at hframes
      cases hframes

/-! ## Only manifested binaries -/

variable {name : Option String} {data : Option (List UInt8)} {img' : ElfImage}

/-- What is verified has an entry in the table with its digest, so has what is mapped, and of two
images with different digests at most one is. -/
structure OnlyManifested (name : Option String) (data : Option (List UInt8)) (img img' : ElfImage) :
    Prop where
  verified : manifestVerifyElf name data = true → Listed name data
  mapped : EverMapped img → Listed (some "init") (some (fileBytes img))
  apart : recordedDigest img ≠ recordedDigest img' → ¬ (EverMapped img ∧ EverMapped img')

/-- Only what the table lists is verified and mapped where nothing else passes the checks of length,
blocked names and header. -/
theorem only_manifested_iff :
    OnlyManifested name data img img' ↔
      (Rejected name data ∨ Listed name data) ∧
        (Mappable img → Listed (some "init") (some (fileBytes img))) ∧
        (Mappable img → Mappable img' → recordedDigest img = recordedDigest img') := by
  constructor
  · rintro ⟨hverified, hmapped, hapart⟩
    simp only [everMapped_iff, manifestVerifyElf_eq_true_iff] at hverified hmapped hapart
    refine ⟨?_, hmapped, fun hm hm' => ?_⟩
    · by_cases hrejected : Rejected name data
      · exact .inl hrejected
      · exact .inr (hverified hrejected)
    · by_contra hne
      exact hapart hne ⟨hm, hm'⟩
  · rintro ⟨hverified, hmapped, hapart⟩
    constructor
    · intro htrue
      exact hverified.resolve_left (manifestVerifyElf_eq_true_iff.mp htrue)
    · simpa only [everMapped_iff] using hmapped
    · rintro hne ⟨hm, hm'⟩
      exact hne (hapart (everMapped_iff.mp hm) (everMapped_iff.mp hm'))

theorem Listed.digest {bs : List UInt8} (h : Listed name (some bs)) :
    (sha512 bs).take 4 = [0x7F, 0x45, 0x4C, 0x46] := by
  obtain ⟨_, ⟨⟩, e, he, -, hprefix⟩ := h
  simp only [gTrustedManifest, List.mem_cons, List.not_mem_nil, or_false] at he
  rcases he with rfl | rfl | rfl <;> exact hprefix

/-- A program of 120 bytes is verified as `init`, and can be mapped, although its digest is not in
the table. -/
theorem not_only_manifested :
    ¬ OnlyManifested (some "init") (some (fileBytes (sampleElf 0x400000))) (sampleElf 0x400000)
      (sampleElf 0x401000) := by
  have hverify :
      manifestVerifyElf (some "init") (some (fileBytes (sampleElf 0x400000))) = true := by
    decide +kernel
  have hdigest : recordedDigest (sampleElf 0x400000) ≠ [0x7F, 0x45, 0x4C, 0x46] := by
    decide +kernel
  intro h
  exact hdigest (h.verified hverify).digest

end StyxOS.Manifest
