import StyxOS.Elf.Image

/-! # Reads of the loader

The indices of `elf_data` at which `elf_load` reads: the header, the entries of
the program header table that it comes to, and the bytes of the segments whose
pages get a frame. Offsets and sizes come from the file, and the loader adds
them in 64 bits before it compares them.
-/

namespace StyxOS

open ByteMem FrameAllocator

/-! ## What is read -/

/-- The places where `elf_load` reads the file: its header, an entry of the table, and the bytes of
a segment for a page. -/
inductive LoadEvent
  | header
  | entry (i : ℕ)
  | page (i a : ℕ)
  deriving DecidableEq, Repr

/-- The fields of `elf64_header_t` that the loader reads. -/
def ehdrFields : List RecField := [⟨0, 4⟩, ⟨4, 1⟩, ⟨18, 2⟩, ⟨24, 8⟩, ⟨32, 8⟩, ⟨56, 2⟩]

/-- The fields of `elf64_phdr_t` that the loader reads: the type, and those of a `PT_LOAD` entry. -/
def phdrFields (ph : Phdr) : List RecField :=
  if ph.type = ptLoad then [⟨0, 4⟩, ⟨8, 8⟩, ⟨16, 8⟩, ⟨32, 8⟩, ⟨40, 8⟩] else [⟨0, 4⟩]

/-- The indices of a field of the record at `a`, which wrap around. -/
def fieldReads (a : ℕ) (f : RecField) : List ℕ :=
  (List.range f.width).map fun k => (a + f.off + k) % 2 ^ 64

/-- The indices from which the bytes of a page are copied. -/
def Phdr.pageReads (ph : Phdr) (page : ℕ) : List ℕ :=
  ((List.range 4096).filter fun j =>
    ph.vaddr ≤ page + j ∧ page + j < (ph.vaddr + ph.filesz) % 2 ^ 64).map fun j =>
      (ph.offset + (page + j - ph.vaddr)) % 2 ^ 64

namespace LoadEvent

def reads (e : LoadEvent) (img : ElfImage) : List ℕ :=
  match e with
  | .header => ehdrFields.flatMap (fieldReads 0)
  | .entry i => (phdrFields (img.phdr i)).flatMap (fieldReads (img.phoff + 56 * i))
  | .page i a => (img.phdr i).pageReads a

/-- What is read lies in the file. -/
def Inside (e : LoadEvent) (img : ElfImage) : Prop := ∀ x ∈ e.reads img, x < img.size

/-- The fields end in the file, and a segment that passes the check ends 4096 bytes before the
addresses do; the bytes of the segment for the page end in the file. -/
def Fits (e : LoadEvent) (img : ElfImage) : Prop :=
  match e with
  | .header => True
  | .entry i =>
    (∀ f ∈ phdrFields (img.phdr i), (img.phoff + 56 * i + f.off) % 2 ^ 64 + f.width ≤ img.size) ∧
      ((img.phdr i).type = ptLoad → (img.phdr i).inFile img.size = true →
        (img.phdr i).memsz = 0 ∨ (img.phdr i).vaddr + (img.phdr i).memsz + 4095 < 2 ^ 64)
  | .page i a =>
    let ph := img.phdr i
    let first := max ph.vaddr a
    let last := min (ph.vaddr + ph.filesz) (a + 4096)
    ph.vaddr + ph.filesz < 2 ^ 64 → first < last →
      (ph.offset + (first - ph.vaddr)) % 2 ^ 64 + (last - first) ≤ img.size

end LoadEvent

instance (img : ElfImage) : Decidable img.accepted :=
  inferInstanceAs (Decidable (_ ∧ _ ∧ _ ∧ _))

section

variable {σ : Type} [FrameAllocator σ]

/-- The pages of a segment that get a frame. -/
def pageEvents (img : ElfImage) (i : ℕ) (s : Vmm σ) : List ℕ → List LoadEvent
  | [] => []
  | page :: pages =>
    match allocFrame s.pmm with
    | none => []
    | some _ =>
      .page i page ::
        match mapFresh s page ((img.phdr i).pageBytes img page) with
        | none => []
        | some (_, s) => pageEvents img i s pages

/-- The entries that the loader comes to, and their pages. -/
def loadEvents (img : ElfImage) (s : Vmm σ) : List ℕ → List LoadEvent
  | [] => []
  | i :: is =>
    .entry i ::
      if (img.phdr i).type ≠ ptLoad then loadEvents img s is
      else if (img.phdr i).inFile img.size = false then []
      else pageEvents img i s (img.phdr i).pages ++
        match loadPages img (img.phdr i) s (img.phdr i).pages with
        | none => []
        | some (rc, s) => if rc = 0 then loadEvents img s is else []

/-- Where `elf_load` reads a file that passes `manifest_verify_elf`. -/
def elfEvents (s : Vmm σ) (pml4 : ℕ) (img : ElfImage) : List LoadEvent :=
  .header ::
    if img.accepted then
      loadEvents img { s with currentPml4 := some pml4 } (List.range img.phnum)
    else []

/-! ## The property -/

/-- The page loop of a segment is short and reaches all of its addresses. -/
structure Phdr.Covered (ph : Phdr) : Prop where
  short : ph.pages.length ≤ (ph.memsz + 8190) / 4096
  covers : ∀ virt, ph.Covers virt → pageBase virt ∈ ph.pages

/-- Entry `i` and what it describes can be read in the file, and its pages cover it. -/
def ElfImage.Loadable (img : ElfImage) (i : ℕ) : Prop :=
  (LoadEvent.entry i).Inside img ∧ ((img.phdr i).type = ptLoad →
    (img.phdr i).inFile img.size = true ∧ (img.phdr i).Covered ∧
      ∀ page ∈ (img.phdr i).pages, (LoadEvent.page i page).Inside img)

/-- The loader reads inside the file only, loads no file that cannot be read so, and covers the
segments that it accepts. -/
structure LoadsInside (s : Vmm σ) (pml4 : ℕ) (img : ElfImage) : Prop where
  inside : ∀ e ∈ elfEvents s pml4 img, e.Inside img
  rejects : ∀ t, elfLoad s pml4 img = some (0, t) → ∀ i < img.phnum, img.Loadable i
  covers : ∀ i, .entry i ∈ elfEvents s pml4 img → (img.phdr i).type = ptLoad →
    (img.phdr i).inFile img.size = true → (img.phdr i).Covered

end

/-! ## Indices -/

theorem forall_mod_lt_iff {a n size : ℕ} (hn : 0 < n) (hsize : size < 2 ^ 64) :
    (∀ k < n, (a + k) % 2 ^ 64 < size) ↔ a % 2 ^ 64 + n ≤ size := by
  constructor
  · intro h
    by_contra hgt
    have h0 := h 0 hn
    rw [Nat.add_zero] at h0
    have hbad := h (size - a % 2 ^ 64) (by omega)
    omega
  · intro h k hk
    omega

variable {img : ElfImage} {ph : Phdr} {i page : ℕ}

theorem forall_fieldReads_iff {a : ℕ} {f : RecField} (hf : 0 < f.width) {size : ℕ}
    (hsize : size < 2 ^ 64) :
    (∀ x ∈ fieldReads a f, x < size) ↔ (a + f.off) % 2 ^ 64 + f.width ≤ size := by
  rw [← forall_mod_lt_iff hf hsize]
  simp [fieldReads]

theorem width_pos_of_mem_phdrFields {f : RecField} (hf : f ∈ phdrFields ph) : 0 < f.width := by
  unfold phdrFields at hf
  split at hf
  · simp only [List.mem_cons, List.not_mem_nil, or_false] at hf
    rcases hf with rfl | rfl | rfl | rfl | rfl <;> decide
  · obtain rfl := List.mem_singleton.mp hf
    decide

theorem header_inside (h : 64 ≤ img.size) : LoadEvent.header.Inside img := by
  have hall : ∀ x ∈ ehdrFields.flatMap (fieldReads 0), x < 64 := by decide
  exact fun x hx => (hall x hx).trans_le h

theorem phdr_lt (img : ElfImage) (i : ℕ) :
    (img.phdr i).vaddr < 2 ^ 64 ∧ (img.phdr i).filesz < 2 ^ 64 ∧ (img.phdr i).memsz < 2 ^ 64 := by
  have hlt : ∀ a, loadLE img.bytes a 8 < 2 ^ 64 := fun a => by
    have h := leVal_lt (load img.bytes a 8)
    rw [length_load] at h
    exact h.trans_eq (by norm_num)
  exact ⟨hlt _, hlt _, hlt _⟩

/-- The bytes that a page takes from the file lie in it just when the last one does. -/
theorem forall_pageReads_iff (hv : ph.vaddr < 2 ^ 64) (hf : ph.filesz < 2 ^ 64) {size : ℕ}
    (hsize : size < 2 ^ 64) : (∀ x ∈ ph.pageReads page, x < size) ↔
      (ph.vaddr + ph.filesz < 2 ^ 64 →
        max ph.vaddr page < min (ph.vaddr + ph.filesz) (page + 4096) →
          (ph.offset + (max ph.vaddr page - ph.vaddr)) % 2 ^ 64 +
            (min (ph.vaddr + ph.filesz) (page + 4096) - max ph.vaddr page) ≤ size) := by
  simp only [Phdr.pageReads, List.mem_map, List.mem_filter, List.mem_range, decide_eq_true_eq,
    forall_exists_index, and_imp]
  constructor
  · intro h hend hlt
    rw [← forall_mod_lt_iff (by omega) hsize]
    intro k hk
    refine h _ (max ph.vaddr page + k - page) (by omega) (by omega) (by omega) ?_
    congr 1
    omega
  · rintro h x j hj hge hlt rfl
    have hend : ph.vaddr + ph.filesz < 2 ^ 64 := by omega
    rw [Nat.mod_eq_of_lt hend] at hlt
    have hrun := (forall_mod_lt_iff (by omega) hsize).mpr (h hend (by omega))
      (page + j - max ph.vaddr page) (by omega)
    refine hrun.trans_eq' ?_
    congr 1
    omega

/-! ## Pages -/

theorem mem_pages_iff : page ∈ ph.pages ↔ page % 4096 = 0 ∧ ph.vaddr / 4096 * 4096 ≤ page ∧
    page < (ph.vaddr + ph.memsz + 4095) % 2 ^ 64 / 4096 * 4096 := by
  simp only [Phdr.pages, List.mem_map, List.mem_range]
  constructor
  · rintro ⟨k, hk, rfl⟩
    omega
  · rintro ⟨hal, hge, hlt⟩
    exact ⟨(page - ph.vaddr / 4096 * 4096) / 4096, by omega, by omega⟩

/-- The loop covers a segment just when it is empty or rounding up its end does not wrap; it is
never long. -/
theorem covered_iff (hv : ph.vaddr < 2 ^ 64) :
    ph.Covered ↔ ph.memsz = 0 ∨ ph.vaddr + ph.memsz + 4095 < 2 ^ 64 := by
  constructor
  · intro h
    by_contra hn
    have hlast := h.covers (ph.vaddr + ph.memsz - 1) ⟨by omega, by omega⟩
    rw [mem_pages_iff, pageBase] at hlast
    omega
  · intro h
    constructor
    · simp only [Phdr.pages, List.length_map, List.length_range]
      omega
    · rintro virt ⟨hge, hlt⟩
      rw [mem_pages_iff, pageBase]
      omega

theorem LoadEvent.fits_entry_iff (hsize : img.size < 2 ^ 64) :
    (LoadEvent.entry i).Fits img ↔ (LoadEvent.entry i).Inside img ∧
      ((img.phdr i).type = ptLoad → (img.phdr i).inFile img.size = true →
        (img.phdr i).Covered) := by
  rw [covered_iff (phdr_lt img i).1]
  refine and_congr_left fun _ => ?_
  constructor
  · intro h x hx
    obtain ⟨f, hf, hx⟩ := List.mem_flatMap.mp hx
    exact (forall_fieldReads_iff (width_pos_of_mem_phdrFields hf) hsize).mpr (h f hf) x hx
  · intro h f hf
    rw [← forall_fieldReads_iff (width_pos_of_mem_phdrFields hf) hsize]
    exact fun x hx => h x (List.mem_flatMap.mpr ⟨f, hf, hx⟩)

theorem LoadEvent.fits_page_iff (hsize : img.size < 2 ^ 64) :
    (LoadEvent.page i page).Fits img ↔ (LoadEvent.page i page).Inside img := by
  obtain ⟨hv, hf, -⟩ := phdr_lt img i
  exact (forall_pageReads_iff hv hf hsize).symm

/-! ## Nothing else is read -/

/-- The files have the same bytes where the first is read. -/
def SameReads (img img' : ElfImage) (events : List LoadEvent) : Prop :=
  ∀ e ∈ events, ∀ x ∈ e.reads img, img'.data x = img.data x

section

variable {σ : Type} [FrameAllocator σ] {s : Vmm σ} {img' : ElfImage} {events : List LoadEvent}

theorem field_congr {a : ℕ} {f : RecField}
    (h : ∀ x ∈ fieldReads a f, img'.data x = img.data x) :
    loadLE img'.bytes (a % 2 ^ 64 + f.off) f.width =
      loadLE img.bytes (a % 2 ^ 64 + f.off) f.width := by
  refine loadLE_congr fun k hk => h _ ?_
  simp only [fieldReads, List.mem_map, List.mem_range]
  exact ⟨k, hk, by omega⟩

theorem phdr_congr (hoff : img'.phoff = img.phoff)
    (h : ∀ x ∈ (LoadEvent.entry i).reads img, img'.data x = img.data x) :
    (img'.phdr i).type = (img.phdr i).type ∧
      ((img.phdr i).type = ptLoad → img'.phdr i = img.phdr i) := by
  have hfield : ∀ f ∈ phdrFields (img.phdr i),
      loadLE img'.bytes ((img.phoff + 56 * i) % 2 ^ 64 + f.off) f.width =
        loadLE img.bytes ((img.phoff + 56 * i) % 2 ^ 64 + f.off) f.width := fun f hf =>
    field_congr fun x hx => h x (List.mem_flatMap.mpr ⟨f, hf, hx⟩)
  have htype : (img'.phdr i).type = (img.phdr i).type := by
    have hf := hfield ⟨0, 4⟩ (by unfold phdrFields; split <;> simp)
    simpa only [ElfImage.phdr, hoff, Nat.add_zero] using hf
  refine ⟨htype, fun hload => ?_⟩
  rw [phdrFields, if_pos hload] at hfield
  have hoffset := hfield ⟨8, 8⟩ (by simp)
  have hvaddr := hfield ⟨16, 8⟩ (by simp)
  have hfilesz := hfield ⟨32, 8⟩ (by simp)
  have hmemsz := hfield ⟨40, 8⟩ (by simp)
  dsimp only at hoffset hvaddr hfilesz hmemsz
  unfold ElfImage.phdr at htype ⊢
  simp only [hoff, hoffset, hvaddr, hfilesz, hmemsz, Phdr.mk.injEq, and_true] at htype ⊢
  exact htype

theorem pageBytes_congr (h : ∀ x ∈ ph.pageReads page, img'.data x = img.data x) :
    ph.pageBytes img' page = ph.pageBytes img page := by
  refine List.map_congr_left fun j hj => ?_
  split
  · next hc =>
    refine h _ (List.mem_map.mpr ⟨j, List.mem_filter.mpr ⟨hj, ?_⟩, rfl⟩)
    simpa using hc
  · rfl

theorem loadPages_congr {pages : List ℕ} (h : SameReads img img' (pageEvents img i s pages)) :
    loadPages img' (img.phdr i) s pages = loadPages img (img.phdr i) s pages := by
  induction pages generalizing s with
  | nil => rfl
  | cons page pages ih =>
    rw [pageEvents] at h
    rw [loadPages, loadPages]
    cases halloc : allocFrame s.pmm with
    | none => simp [mapFresh, halloc]
    | some x =>
      rw [halloc] at h
      have hread : ∀ x ∈ (img.phdr i).pageReads page, img'.data x = img.data x :=
        h (.page i page) List.mem_cons_self
      rw [pageBytes_congr hread]
      cases hmap : mapFresh s page ((img.phdr i).pageBytes img page) with
      | none => rfl
      | some y =>
        obtain ⟨mapped, t⟩ := y
        rw [hmap] at h
        have hrest := ih fun e he => h e (List.mem_cons_of_mem _ he)
        simp only [Option.bind_eq_bind, Option.bind_some, hrest]

theorem loadSegments_congr (hsize : img'.size = img.size) (hoff : img'.phoff = img.phoff)
    {is : List ℕ} (h : SameReads img img' (loadEvents img s is)) :
    loadSegments img' s (is.map img'.phdr) = loadSegments img s (is.map img.phdr) := by
  induction is generalizing s with
  | nil => rfl
  | cons i is ih =>
    rw [loadEvents] at h
    obtain ⟨htype, hphdr⟩ := phdr_congr hoff (h _ List.mem_cons_self)
    rw [List.map_cons, List.map_cons, loadSegments, loadSegments, htype]
    by_cases ht : (img.phdr i).type ≠ ptLoad
    · rw [if_pos ht] at h ⊢
      rw [if_pos ht]
      exact ih fun e he => h e (List.mem_cons_of_mem _ he)
    rw [if_neg ht] at h ⊢
    rw [if_neg ht, hphdr (not_not.mp ht), hsize]
    by_cases hout : (img.phdr i).inFile img.size = false
    · rw [if_pos hout, if_pos hout]
    rw [if_neg hout] at h ⊢
    rw [if_neg hout, loadPages_congr fun e he =>
      h e (List.mem_cons_of_mem _ (List.mem_append_left _ he))]
    cases hload : loadPages img (img.phdr i) s (img.phdr i).pages with
    | none => simp
    | some y =>
      obtain ⟨rc, t⟩ := y
      simp only [Option.bind_eq_bind, Option.bind_some]
      by_cases hrc : rc = 0
      · rw [if_pos hrc, if_pos hrc]
        refine ih fun e he => h e (List.mem_cons_of_mem _ (List.mem_append_right _ ?_))
        rw [hload]
        dsimp only
        rw [if_pos hrc]
        exact he
      · rw [if_neg hrc, if_neg hrc]

/-- The events tell all that is read: bytes of the file elsewhere make no difference to the load. -/
theorem elfLoad_congr {pml4 : ℕ} (hsize : img'.size = img.size)
    (h : SameReads img img' (elfEvents s pml4 img)) :
    elfLoad s pml4 img' = elfLoad s pml4 img := by
  have hfield : ∀ f ∈ ehdrFields,
      loadLE img'.bytes f.off f.width = loadLE img.bytes f.off f.width := fun f hf => by
    have := field_congr (a := 0) fun x hx =>
      h .header List.mem_cons_self x (List.mem_flatMap.mpr ⟨f, hf, hx⟩)
    simpa using this
  have hmagic : img'.magic = img.magic := hfield ⟨0, 4⟩ (by simp [ehdrFields])
  have hclass : img'.elfClass = img.elfClass := hfield ⟨4, 1⟩ (by simp [ehdrFields])
  have hmachine : img'.machine = img.machine := hfield ⟨18, 2⟩ (by simp [ehdrFields])
  have hoff : img'.phoff = img.phoff := hfield ⟨32, 8⟩ (by simp [ehdrFields])
  have hnum : img'.phnum = img.phnum := hfield ⟨56, 2⟩ (by simp [ehdrFields])
  unfold elfLoad
  rw [hsize, hmagic, hclass, hmachine, ElfImage.phdrs, ElfImage.phdrs, hnum]
  split_ifs with h₁ h₂ h₃ h₄ h₅
  · rfl
  · rfl
  · rfl
  · rfl
  · rfl
  · have hacc : img.accepted :=
      ⟨Nat.not_lt.mp h₂, not_not.mp h₃, not_not.mp h₄, not_not.mp h₅⟩
    rw [loadSegments_congr hsize hoff fun e he => h e ?_]
    rw [elfEvents, if_pos hacc]
    exact List.mem_cons_of_mem _ he

end

/-! ## Loads that succeed -/

section

variable {σ : Type} [FrameAllocator σ] {s s' : Vmm σ} {pages is : List ℕ}

theorem mem_pageEvents (h : loadPages img (img.phdr i) s pages = some (0, s'))
    (hp : page ∈ pages) : .page i page ∈ pageEvents img i s pages := by
  induction pages generalizing s with
  | nil => cases hp
  | cons a pages ih =>
    rw [loadPages, Option.bind_eq_bind] at h
    obtain ⟨⟨mapped, t⟩, ht, h⟩ := Option.bind_eq_some_iff.mp h
    cases mapped with
    | false => simp at h
    | true =>
      have hframe : ∃ x, allocFrame s.pmm = some x := by
        cases halloc : allocFrame s.pmm with
        | none => simp [mapFresh, halloc] at ht
        | some x => exact ⟨x, rfl⟩
      obtain ⟨x, halloc⟩ := hframe
      rw [pageEvents, halloc, ht]
      rcases List.mem_cons.mp hp with rfl | hp
      · exact List.mem_cons_self
      · exact List.mem_cons_of_mem _ (ih h hp)

theorem mem_loadEvents (h : loadSegments img s (is.map img.phdr) = some (0, s')) (hi : i ∈ is) :
    .entry i ∈ loadEvents img s is ∧ ((img.phdr i).type = ptLoad →
      (img.phdr i).inFile img.size = true ∧
        ∀ page ∈ (img.phdr i).pages, .page i page ∈ loadEvents img s is) := by
  induction is generalizing s with
  | nil => cases hi
  | cons j is ih =>
    rw [List.map_cons, loadSegments] at h
    rw [loadEvents]
    by_cases htype : (img.phdr j).type ≠ ptLoad
    · rw [if_pos htype] at h ⊢
      rcases List.mem_cons.mp hi with rfl | hi
      · exact ⟨List.mem_cons_self, fun ht => absurd ht htype⟩
      · obtain ⟨hentry, hpages⟩ := ih h hi
        exact ⟨List.mem_cons_of_mem _ hentry, fun ht =>
          ⟨(hpages ht).1, fun p hp => List.mem_cons_of_mem _ ((hpages ht).2 p hp)⟩⟩
    rw [if_neg htype] at h ⊢
    by_cases hout : (img.phdr j).inFile img.size = false
    · simp [hout] at h
    rw [if_neg hout] at h ⊢
    rw [Option.bind_eq_bind] at h
    obtain ⟨⟨rc, t⟩, ht, h⟩ := Option.bind_eq_some_iff.mp h
    dsimp only at h
    by_cases hrc : rc = 0
    · obtain rfl := hrc
      rw [if_pos rfl] at h
      rw [ht]
      dsimp only
      rw [if_pos rfl]
      rcases List.mem_cons.mp hi with rfl | hi
      · refine ⟨List.mem_cons_self, fun _ => ⟨by simpa using hout, fun p hp => ?_⟩⟩
        exact List.mem_cons_of_mem _ (List.mem_append_left _ (mem_pageEvents ht hp))
      · obtain ⟨hentry, hpages⟩ := ih h hi
        have hmem : ∀ {e : LoadEvent}, e ∈ loadEvents img t is → e ∈ LoadEvent.entry j ::
            (pageEvents img j s (img.phdr j).pages ++ loadEvents img t is) := fun he =>
          List.mem_cons_of_mem _ (List.mem_append_right _ he)
        exact ⟨hmem hentry, fun ht => ⟨(hpages ht).1, fun p hp => hmem ((hpages ht).2 p hp)⟩⟩
    · rw [if_neg hrc] at h
      exact absurd (Prod.mk.inj (Option.some.inj h)).1 hrc

/-- For every file that passes the check of the manifest, and with frames that run out anywhere:
`elf_load` stays in the file, rejects what it cannot load so and covers what it accepts, just when
the entries and pages that it comes to fit in the file. -/
theorem elf_load_inside_iff (s : Vmm σ) (pml4 : ℕ) (hsize : img.size < 2 ^ 64)
    (hman : manifestVerifyElf "init" img.size = true) :
    LoadsInside s pml4 img ↔ ∀ e ∈ elfEvents s pml4 img, e.Fits img := by
  have h64 : 64 ≤ img.size := by
    by_contra hlt
    rw [manifestVerifyElf, if_pos (by omega)] at hman
    exact Bool.noConfusion hman
  constructor
  · intro h e he
    cases e with
    | header => trivial
    | entry i => exact (LoadEvent.fits_entry_iff hsize).mpr ⟨h.inside _ he, h.covers i he⟩
    | page i a => exact (LoadEvent.fits_page_iff hsize).mpr (h.inside _ he)
  · intro h
    have hinside : ∀ e ∈ elfEvents s pml4 img, e.Inside img := by
      intro e he
      cases e with
      | header => exact header_inside h64
      | entry i => exact ((LoadEvent.fits_entry_iff hsize).mp (h _ he)).1
      | page i a => exact (LoadEvent.fits_page_iff hsize).mp (h _ he)
    have hcovers : ∀ i, .entry i ∈ elfEvents s pml4 img → (img.phdr i).type = ptLoad →
        (img.phdr i).inFile img.size = true → (img.phdr i).Covered := fun i hi =>
      ((LoadEvent.fits_entry_iff hsize).mp (h _ hi)).2
    refine ⟨hinside, fun t ht i hi => ?_, hcovers⟩
    rcases elfLoad_cases ht with ⟨hne, -⟩ | ⟨hacc, t', ht', -⟩
    · exact absurd rfl hne
    · obtain ⟨hentry, hpages⟩ := mem_loadEvents ht' (List.mem_range.mpr hi)
      have hmem : ∀ {e}, e ∈ loadEvents img { s with currentPml4 := some pml4 }
          (List.range img.phnum) → e ∈ elfEvents s pml4 img := fun he => by
        rw [elfEvents, if_pos hacc]
        exact List.mem_cons_of_mem _ he
      refine ⟨hinside _ (hmem hentry), fun htype => ?_⟩
      obtain ⟨hin, hall⟩ := hpages htype
      exact ⟨hin, hcovers i (hmem hentry) htype hin, fun p hp => hinside _ (hmem (hall p hp))⟩

/-- The loader reads the table behind the end of a file that is cut after its header. -/
theorem elf_load_not_inside :
    ¬ ∀ (img : ElfImage) (s : Vmm FrameList) (pml4 : ℕ), img.size < 2 ^ 64 →
      manifestVerifyElf "init" img.size = true → LoadsInside s pml4 img := by
  intro hall
  have h := hall { sampleElf 0x400000 with size := 64 } sampleEmpty 0x1000 (by decide) (by decide)
  have hevent : .entry 0 ∈ elfEvents sampleEmpty 0x1000 { sampleElf 0x400000 with size := 64 } := by
    decide +kernel
  have hread : 64 ∈ (LoadEvent.entry 0).reads { sampleElf 0x400000 with size := 64 } := by
    decide +kernel
  exact absurd (h.inside _ hevent 64 hread) (by decide)

end

/-! ## Well-formed files -/

/-- The table and the segments lie in the file, and the segments end before the addresses do. -/
structure ElfImage.WellFormed (img : ElfImage) : Prop where
  table : img.phoff + 56 * img.phnum ≤ img.size
  inFile : ∀ ph ∈ img.segments, ph.offset + ph.filesz ≤ img.size
  below : ∀ ph ∈ img.segments, ph.vaddr + ph.memsz + 4095 < 2 ^ 64

theorem ElfImage.mem_segments (hi : i < img.phnum) (h : (img.phdr i).type = ptLoad) :
    img.phdr i ∈ img.segments := by
  simp only [segments, phdrs, List.mem_filter, List.mem_map, List.mem_range, decide_eq_true_eq]
  exact ⟨⟨i, hi, rfl⟩, h⟩

theorem ElfImage.WellFormed.fits_entry (h : img.WellFormed) (hsize : img.size < 2 ^ 64)
    (hi : i < img.phnum) : (LoadEvent.entry i).Fits img := by
  have htable := h.table
  refine ⟨fun f hf => ?_, fun htype _ => Or.inr (h.below _ (img.mem_segments hi htype))⟩
  have hend : f.off + f.width ≤ 56 := by
    unfold phdrFields at hf
    split at hf
    · simp only [List.mem_cons, List.not_mem_nil, or_false] at hf
      rcases hf with rfl | rfl | rfl | rfl | rfl <;> decide
    · obtain rfl := List.mem_singleton.mp hf
      decide
  omega

theorem ElfImage.WellFormed.fits_page (h : img.WellFormed) (hsize : img.size < 2 ^ 64)
    (hi : i < img.phnum) (htype : (img.phdr i).type = ptLoad) :
    (LoadEvent.page i page).Fits img := by
  have hin := h.inFile _ (img.mem_segments hi htype)
  intro hend hlt
  omega

section

variable {σ : Type} [FrameAllocator σ] {s : Vmm σ} {e : LoadEvent} {is pages : List ℕ}

theorem eq_page_of_mem_pageEvents (h : e ∈ pageEvents img i s pages) : ∃ a, e = .page i a := by
  induction pages generalizing s with
  | nil => cases h
  | cons page pages ih =>
    rw [pageEvents] at h
    split at h
    · cases h
    · rcases List.mem_cons.mp h with rfl | h
      · exact ⟨page, rfl⟩
      · split at h
        · cases h
        · exact ih h

theorem forall_mem_loadEvents {P : LoadEvent → Prop} (hentry : ∀ i ∈ is, P (.entry i))
    (hpage : ∀ i ∈ is, (img.phdr i).type = ptLoad → ∀ a, P (.page i a)) :
    ∀ e ∈ loadEvents img s is, P e := by
  induction is generalizing s with
  | nil => simp [loadEvents]
  | cons i is ih =>
    obtain ⟨hi, hentries⟩ := List.forall_mem_cons.mp hentry
    obtain ⟨hip, hpages⟩ := List.forall_mem_cons.mp hpage
    rw [loadEvents]
    refine List.forall_mem_cons.mpr ⟨hi, ?_⟩
    split_ifs with htype hout
    · exact ih hentries hpages
    · simp
    · refine List.forall_mem_append.mpr ⟨fun e he => ?_, ?_⟩
      · obtain ⟨a, rfl⟩ := eq_page_of_mem_pageEvents he
        exact hip (not_not.mp htype) a
      · split
        · simp
        · split_ifs
          · exact ih hentries hpages
          · simp

theorem ElfImage.WellFormed.fits (h : img.WellFormed) (hsize : img.size < 2 ^ 64) (s : Vmm σ)
    (pml4 : ℕ) :
    ∀ e ∈ elfEvents s pml4 img, e.Fits img := by
  rw [elfEvents]
  refine List.forall_mem_cons.mpr ⟨trivial, ?_⟩
  split
  · exact forall_mem_loadEvents (fun i hi => h.fits_entry hsize (List.mem_range.mp hi))
      fun i hi ht a => h.fits_page hsize (List.mem_range.mp hi) ht
  · simp

end

theorem sampleApart_wellFormed : sampleApart.WellFormed := by
  constructor
  · decide +kernel
  · rw [sampleApart_segments]
    decide
  · rw [sampleApart_segments]
    decide

/-- Two segments are loaded from inside their file. -/
theorem elf_load_inside_iff_sample : LoadsInside sampleEmpty 0x1000 sampleApart :=
  (elf_load_inside_iff sampleEmpty 0x1000 (by decide) (by decide)).mpr
    (sampleApart_wellFormed.fits (by decide) sampleEmpty 0x1000)

end StyxOS
