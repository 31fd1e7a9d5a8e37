import StyxOS.Elf.Isolation

/-! # Program images

A load that succeeds is a run of page writes, of which the last on each page
decides. A file whose segments are apart as byte ranges becomes its image,
beside what was mapped before, exactly when no segment takes a page from a
segment before it that has bytes there, or from an older mapping.
-/

namespace StyxOS

open ByteMem FrameAllocator

/-! ## What a file describes -/

def Phdr.Covers (ph : Phdr) (virt : ℕ) : Prop := ph.vaddr ≤ virt ∧ virt < ph.vaddr + ph.memsz

/-- The byte that the segment has at an address: one of the file, or zero. -/
def Phdr.byteAt (ph : Phdr) (img : ElfImage) (virt : ℕ) : UInt8 :=
  if ph.vaddr ≤ virt ∧ virt < ph.vaddr + ph.filesz then img.bytes (ph.offset + (virt - ph.vaddr))
  else 0

def pageBase (virt : ℕ) : ℕ := virt / 4096 * 4096

def userByte (mem : Mem) (pml4 virt : ℕ) : Option UInt8 :=
  (hwWalk mem pml4 virt).bind fun t => if t.user then some (mem t.phys) else none

namespace ElfImage

variable (img : ElfImage)

/-- The `PT_LOAD` segments. -/
def segments : List Phdr := img.phdrs.filter fun ph => ph.type = ptLoad

/-- The segments are apart, in the user half and in the file, and have no more bytes in the file
than in memory. -/
structure Linked : Prop where
  apart : img.segments.Pairwise fun a b => ∀ virt, a.Covers virt → ¬b.Covers virt
  user : ∀ ph ∈ img.segments, ph.vaddr + ph.memsz ≤ 2 ^ 47
  inFile : ∀ ph ∈ img.segments, ph.offset + ph.filesz ≤ img.size
  filesz : ∀ ph ∈ img.segments, ph.filesz ≤ ph.memsz

/-- User code reads the bytes of the segments. -/
def LoadedIn (mem : Mem) (pml4 : ℕ) : Prop :=
  ∀ ph ∈ img.segments, ∀ j < ph.memsz,
    userByte mem pml4 (ph.vaddr + j) =
      some (if j < ph.filesz then img.bytes (ph.offset + j) else 0)

/-- What was mapped outside the segments is mapped as before, and reads the same to user code. -/
def KeepsOutside (mem mem' : Mem) (pml4 : ℕ) : Prop :=
  ∀ virt, Canonical virt → (∀ ph ∈ img.segments, ¬ph.Covers virt) → ∀ t,
    hwWalk mem pml4 virt = some t →
      hwWalk mem' pml4 virt = some t ∧ (t.user = true → mem' t.phys = mem t.phys)

/-- No segment touches a page on which one before it has a byte of the file other than zero. -/
def PagesApart : Prop :=
  img.segments.Pairwise fun a b => ∀ j < a.filesz, img.bytes (a.offset + j) ≠ 0 →
    pageBase (a.vaddr + j) ∉ b.pages

/-- No segment touches a page that is mapped and reaches out of the segments. -/
def MissesMapped (mem : Mem) (pml4 : ℕ) : Prop :=
  ∀ virt, Canonical virt → hwWalk mem pml4 virt ≠ none →
    (∀ ph ∈ img.segments, ¬ph.Covers virt) → ∀ ph ∈ img.segments, pageBase virt ∉ ph.pages

end ElfImage

section

variable {ph : Phdr} {img : ElfImage} {page virt : ℕ}

theorem mem_pages (h : ph.vaddr + ph.memsz ≤ 2 ^ 47) :
    page ∈ ph.pages ↔ page % 4096 = 0 ∧ ph.vaddr / 4096 * 4096 ≤ page ∧
      page < (ph.vaddr + ph.memsz + 4095) / 4096 * 4096 := by
  have hmod : (ph.vaddr + ph.memsz + 4095) % 2 ^ 64 = ph.vaddr + ph.memsz + 4095 :=
    Nat.mod_eq_of_lt (by omega)
  rw [Phdr.pages, hmod]
  simp only [List.mem_map, List.mem_range]
  constructor
  · rintro ⟨i, hi, rfl⟩
    omega
  · rintro ⟨hal, hge, hlt⟩
    exact ⟨(page - ph.vaddr / 4096 * 4096) / 4096, by omega, by omega⟩

theorem pageBase_mem_pages (h : ph.vaddr + ph.memsz ≤ 2 ^ 47) (hc : ph.Covers virt) :
    pageBase virt ∈ ph.pages := by
  obtain ⟨hge, hlt⟩ := hc
  rw [mem_pages h, pageBase]
  omega

theorem lt_of_mem_pages (h : ph.vaddr + ph.memsz ≤ 2 ^ 47) (hp : page ∈ ph.pages) :
    page < 2 ^ 47 := by
  have := (mem_pages h).mp hp
  omega

theorem inLowerHalf_of_lt (h : virt < 2 ^ 47) : InLowerHalf virt := by
  simp only [InLowerHalf, pml4Index, Fin.val_ofNat, Nat.shiftRight_eq_div_pow]
  omega

theorem pageOf_eq_iff_pageBase (h : ph.vaddr + ph.memsz ≤ 2 ^ 47) (hv : Canonical virt)
    (hp : page ∈ ph.pages) : pageOf page = pageOf virt ↔ page = pageBase virt := by
  have hlt := lt_of_mem_pages h hp
  have hal := ((mem_pages h).mp hp).1
  rw [pageOf_eq_iff (.inl hlt) hv, pageBase]
  omega

theorem getElem_pageBytes {j : ℕ} (hfile : ph.vaddr + ph.filesz < 2 ^ 64)
    (hj : j < (ph.pageBytes img page).length) :
    (ph.pageBytes img page)[j] = ph.byteAt img (page + j) := by
  simp only [Phdr.pageBytes, List.getElem_map, List.getElem_range, Nat.mod_eq_of_lt hfile,
    Phdr.byteAt]

theorem byteAt_of_not_covers (hsz : ph.filesz ≤ ph.memsz) (hn : ¬ph.Covers virt) :
    ph.byteAt img virt = 0 := by
  refine if_neg fun hc => hn ⟨hc.1, ?_⟩
  omega

end

/-! ## The load as a run of page writes -/

/-- The pages that a load writes, in order, with their bytes. -/
def pageWrites (img : ElfImage) (phs : List Phdr) : List (ℕ × List UInt8) :=
  phs.flatMap fun ph => ph.pages.map fun page => (page, ph.pageBytes img page)

def contents (ws : List (ℕ × List UInt8)) (m : ℕ → Option (List UInt8)) :
    ℕ → Option (List UInt8) :=
  ws.foldl (fun m w => Function.update m (pageOf w.1) (some w.2)) m

theorem contents_cases (ws : List (ℕ × List UInt8)) (m : ℕ → Option (List UInt8)) (p : ℕ) :
    (∀ w ∈ ws, pageOf w.1 ≠ p) ∧ contents ws m p = m p ∨
      ∃ w ∈ ws, pageOf w.1 = p ∧ contents ws m p = some w.2 := by
  induction ws generalizing m with
  | nil => exact .inl ⟨fun _ hw => absurd hw List.not_mem_nil, rfl⟩
  | cons w ws ih =>
    rcases ih (Function.update m (pageOf w.1) (some w.2)) with ⟨hnone, heq⟩ | ⟨w', hw', hp, heq⟩
    · by_cases hp : pageOf w.1 = p
      · refine .inr ⟨w, List.mem_cons_self, hp, heq.trans ?_⟩
        rw [← hp, Function.update_self]
      · refine .inl ⟨List.forall_mem_cons.mpr ⟨hp, hnone⟩, heq.trans ?_⟩
        rw [Function.update_of_ne (Ne.symm hp)]
    · exact .inr ⟨w', List.mem_cons_of_mem _ hw', hp, heq⟩

/-- A page has the bytes of the last segment that touches it, if there is one. -/
theorem contents_pageWrites (img : ElfImage) (phs : List Phdr) (p : ℕ) :
    (∀ ph ∈ phs, ∀ page ∈ ph.pages, pageOf page ≠ p) ∧
        contents (pageWrites img phs) (fun _ => none) p = none ∨
      ∃ n, ∃ hn : n < phs.length, ∃ page ∈ phs[n].pages, pageOf page = p ∧
        contents (pageWrites img phs) (fun _ => none) p = some (phs[n].pageBytes img page) ∧
        ∀ m, ∀ hm : m < phs.length, n < m → ∀ page ∈ phs[m].pages, pageOf page ≠ p := by
  induction phs using List.reverseRecOn with
  | nil => exact .inl ⟨fun _ h => absurd h List.not_mem_nil, rfl⟩
  | append_singleton phs ph ih =>
    have happ : contents (pageWrites img (phs ++ [ph])) (fun _ => none) =
        contents (ph.pages.map fun page => (page, ph.pageBytes img page))
          (contents (pageWrites img phs) fun _ => none) := by
      rw [pageWrites, List.flatMap_append, contents, List.foldl_append, List.flatMap_singleton]
      rfl
    rw [happ]
    rcases contents_cases (ph.pages.map fun page => (page, ph.pageBytes img page))
      (contents (pageWrites img phs) fun _ => none) p with ⟨hmiss, heq⟩ | ⟨w, hw, hp, heq⟩
    · have hmiss' : ∀ page ∈ ph.pages, pageOf page ≠ p := fun page hpage =>
        hmiss _ (List.mem_map_of_mem hpage)
      rw [heq]
      rcases ih with ⟨hnone, heq'⟩ | ⟨n, hn, page, hpage, hp, heq', hlater⟩
      · left
        refine ⟨fun ph' hph' => ?_, heq'⟩
        rcases List.mem_append.mp hph' with h | h
        · exact hnone ph' h
        · rwa [List.mem_singleton.mp h]
      · right
        have hlen : n < (phs ++ [ph]).length := by
          rw [List.length_append]
          omega
        refine ⟨n, hlen, page, ?_, hp, ?_, fun m hm hlt => ?_⟩
        · rwa [List.getElem_append_left hn]
        · rwa [List.getElem_append_left hn]
        · rcases Nat.lt_or_ge m phs.length with hm' | hm'
          · rw [List.getElem_append_left hm']
            exact hlater m hm' hlt
          · rw [List.getElem_append_right hm']
            simpa using hmiss'
    · right
      obtain ⟨page, hpage, rfl⟩ := List.mem_map.mp hw
      have hlen : phs.length < (phs ++ [ph]).length := by simp
      refine ⟨phs.length, hlen, page, ?_, hp, ?_, fun m hm hlt => ?_⟩
      · simpa using hpage
      · simpa using heq
      · rw [List.length_append, List.length_singleton] at hm
        omega

section

variable {σ : Type} [FrameAllocator σ]

def mapAll (s : Vmm σ) (ws : List (ℕ × List UInt8)) : Option (Vmm σ) :=
  ws.foldlM (fun s w => (mapFresh s w.1 w.2).bind fun x => if x.1 then some x.2 else none) s

variable {img : ElfImage} {ph : Phdr} {s s' : Vmm σ}

theorem mapAll_append {ws ws' : List (ℕ × List UInt8)} :
    mapAll s (ws ++ ws') = (mapAll s ws).bind fun t => mapAll t ws' :=
  List.foldlM_append

theorem mapAll_of_loadPages {pages : List ℕ} (hs : loadPages img ph s pages = some (0, s')) :
    mapAll s (pages.map fun page => (page, ph.pageBytes img page)) = some s' := by
  induction pages generalizing s with
  | nil =>
    obtain ⟨-, rfl⟩ := Prod.mk.inj (Option.some.inj hs)
    rfl
  | cons page pages ih =>
    rw [loadPages, Option.bind_eq_bind] at hs
    obtain ⟨⟨mapped, t⟩, ht, hs⟩ := Option.bind_eq_some_iff.mp hs
    rw [List.map_cons, mapAll, List.foldlM_cons, ht]
    cases mapped with
    | false => simp at hs
    | true => exact ih hs

theorem mapAll_of_loadSegments {phs : List Phdr} (hs : loadSegments img s phs = some (0, s')) :
    mapAll s (pageWrites img (phs.filter fun ph => ph.type = ptLoad)) = some s' := by
  induction phs generalizing s with
  | nil =>
    obtain ⟨-, rfl⟩ := Prod.mk.inj (Option.some.inj hs)
    rfl
  | cons ph phs ih =>
    rw [loadSegments] at hs
    by_cases htype : ph.type ≠ ptLoad
    · rw [if_pos htype] at hs
      rw [List.filter_cons_of_neg (by simpa using htype)]
      exact ih hs
    rw [if_neg htype] at hs
    rw [List.filter_cons_of_pos (by simpa using htype), pageWrites, List.flatMap_cons,
      mapAll_append]
    by_cases hout : ph.inFile img.size = false
    · rw [if_pos hout] at hs
      simp at hs
    rw [if_neg hout, Option.bind_eq_bind] at hs
    obtain ⟨⟨rc, t⟩, ht, hs⟩ := Option.bind_eq_some_iff.mp hs
    dsimp only at hs
    by_cases hrc : rc = 0
    · rw [if_pos hrc] at hs
      rw [hrc] at ht
      rw [mapAll_of_loadPages ht]
      exact ih hs
    · rw [if_neg hrc] at hs
      exact absurd (Prod.mk.inj (Option.some.inj hs)).1 hrc

/-! ## The simulation -/

/-- The memory of a space in frame `r` during a load from `s₀`: the pages written so far have the
bytes `m`, in frames of their own, and everything else is as it was; so is the content of the
addresses `old`, whose frames were in use. -/
structure LoadRep (roots : Set ℕ) (r : ℕ) (old : Set ℕ) (s₀ s : Vmm σ)
    (m : ℕ → Option (List UInt8)) (place : ℕ → Option Position) : Prop where
  tables : TablesOk roots place s.mem s.pmm
  currentPml4 : s.currentPml4 = some (4096 * r)
  gone : ∀ f, Avail s.pmm f → Avail s₀.pmm f
  same : ∀ virt, m (pageOf virt) = none →
    findPage s.mem r (pathOf virt) = findPage s₀.mem r (pathOf virt)
  written : ∀ virt bs, m (pageOf virt) = some bs → ∃ f,
    findPage s.mem r (pathOf virt) = some (leafEntry f userFlags) ∧ Avail s₀.pmm f ∧
      (¬Avail s.pmm f ∧ place (f / 4096) = none) ∧ load s.mem f 4096 = bs
  kept : ∀ a ∈ old, (¬Avail s.pmm (4096 * (a / 4096)) ∧ place (a / 4096) = none) ∧
    s.mem a = s₀.mem a

variable {roots old : Set ℕ} {r virt : ℕ} {s₀ : Vmm σ} {m : ℕ → Option (List UInt8)}
  {place : ℕ → Option Position} {bs : List UInt8}

theorem LoadRep.mapFresh (h : LoadRep roots r old s₀ s m place) (hr : r ∈ roots)
    (hlow : InLowerHalf virt) (hlen : bs.length = 4096)
    (hs : mapFresh s virt bs = some (true, s')) :
    ∃ place', LoadRep roots r old s₀ s' (Function.update m (pageOf virt) (some bs)) place' := by
  obtain ⟨place', f, hok, hmaps⟩ := h.tables.mapFresh hr h.currentPml4 hlow hlen.le hs
  have hother : ∀ v, pageOf v ≠ pageOf virt →
      findPage s'.mem r (pathOf v) = findPage s.mem r (pathOf v) := by
    intro v hv
    refine hmaps.other r _ (pathOf v) (h.tables.root r hr) (full_of_length (.space r) rfl) ?_
    exact fun hc => hv (pathOf_eq_iff.mp (slot_root_inj rfl rfl hc).1)
  have howned : ∀ n, ¬Avail s.pmm (4096 * n) ∧ place n = none →
      ¬Avail s'.pmm (4096 * n) ∧ place' n = none := fun n hn =>
    ⟨fun hf => hn.1 (hmaps.gone _ hf).1, hmaps.unplaced hn.2 fun hc => hn.1 hc.1⟩
  refine ⟨place', hok, hmaps.currentPml4.trans h.currentPml4,
    fun g hg => h.gone g (hmaps.gone g hg).1, ?_, ?_, ?_⟩
  · intro v hv
    by_cases hpage : pageOf v = pageOf virt
    · rw [hpage, Function.update_self] at hv
      cases hv
    · rw [Function.update_of_ne hpage] at hv
      exact (hother v hpage).trans (h.same v hv)
  · intro v bs' hv
    by_cases hpage : pageOf v = pageOf virt
    · rw [hpage, Function.update_self] at hv
      obtain rfl := Option.some.inj hv
      obtain ⟨n, rfl⟩ := Nat.dvd_of_mod_eq_zero (avail_frame hmaps.frame).1
      refine ⟨4096 * n, ?_, h.gone _ hmaps.frame, ⟨fun hf => (hmaps.gone _ hf).2 rfl, ?_⟩, ?_⟩
      · rw [pathOf_eq_iff.mpr hpage]
        exact hmaps.here
      · rw [Nat.mul_div_cancel_left _ (by norm_num)]
        exact hmaps.unplaced (h.tables.unplaced hmaps.frame) fun hc => hc.2 rfl
      · have hcontent := hmaps.content
        rwa [hlen] at hcontent
    · rw [Function.update_of_ne hpage] at hv
      obtain ⟨f', hfind, hav, hused, hcontent⟩ := h.written v bs' hv
      obtain ⟨n, rfl⟩ := Nat.dvd_of_mod_eq_zero (avail_frame hav).1
      rw [Nat.mul_div_cancel_left _ (by norm_num)] at hused
      refine ⟨4096 * n, (hother v hpage).trans hfind, hav, ?_, ?_⟩
      · rw [Nat.mul_div_cancel_left _ (by norm_num)]
        exact howned n hused
      · refine (load_congr fun i hi => ?_).trans hcontent
        have hn : (4096 * n + i) / 4096 = n := by omega
        exact hmaps.kept _ (by rw [hn]; exact hused.2) (by rw [hn]; exact hused.1)
  · intro a ha
    obtain ⟨hused, hsame⟩ := h.kept a ha
    exact ⟨howned _ hused, (hmaps.kept a hused.2 hused.1).trans hsame⟩

theorem LoadRep.mapAll {ws : List (ℕ × List UInt8)} (h : LoadRep roots r old s₀ s m place)
    (hr : r ∈ roots) (hws : ∀ w ∈ ws, InLowerHalf w.1 ∧ w.2.length = 4096)
    (hs : mapAll s ws = some s') : ∃ place', LoadRep roots r old s₀ s' (contents ws m) place' := by
  induction ws generalizing s m place with
  | nil =>
    obtain rfl := Option.some.inj hs
    exact ⟨place, h⟩
  | cons w ws ih =>
    rw [StyxOS.mapAll, List.foldlM_cons, Option.bind_eq_bind] at hs
    obtain ⟨t, ht, hs⟩ := Option.bind_eq_some_iff.mp hs
    obtain ⟨⟨mapped, t'⟩, ht', ht⟩ := Option.bind_eq_some_iff.mp ht
    obtain ⟨rfl, ht⟩ := Option.ite_none_right_eq_some.mp ht
    obtain rfl := Option.some.inj ht
    obtain ⟨hw, hrest⟩ := List.forall_mem_cons.mp hws
    obtain ⟨place', h'⟩ := h.mapFresh hr hw.1 hw.2 ht'
    exact ih h' hrest hs

/-! ## What a load leaves -/

/-- The memory of a task after a load: a page that segments touch is a fresh frame with the bytes of
the last of them, and other pages are mapped as before; user code finds what it had where it still
has it. -/
structure LoadView (img : ElfImage) (s s' : Vmm σ) (pml4 : ℕ) : Prop where
  covered : ∀ virt, Canonical virt → ∀ ph ∈ img.segments, pageBase virt ∈ ph.pages →
    ∃ n, ∃ hn : n < img.segments.length, pageBase virt ∈ img.segments[n].pages ∧
      (∃ t, hwWalk s'.mem pml4 virt = some t ∧ t.user = true ∧
        Avail s.pmm (4096 * (t.phys / 4096)) ∧
        s'.mem t.phys = img.segments[n].byteAt img virt) ∧
      ∀ m, ∀ hm : m < img.segments.length, n < m → pageBase virt ∉ img.segments[m].pages
  outside : ∀ virt, Canonical virt → (∀ ph ∈ img.segments, pageBase virt ∉ ph.pages) →
    hwWalk s'.mem pml4 virt = hwWalk s.mem pml4 virt
  kept : ∀ virt t, hwWalk s.mem pml4 virt = some t → t.user = true →
    ¬Avail s.pmm (4096 * (t.phys / 4096)) ∧ s'.mem t.phys = s.mem t.phys

theorem LoadRep.view {k : ℕ} {place₀ : ℕ → Option Position} (hlink : img.Linked)
    (hspaces : SpacesOk k roots place₀ s.mem s.pmm) (hr : r ∈ roots)
    (hold : ∀ virt t, hwWalk s.mem (4096 * r) virt = some t → t.user = true → t.phys ∈ old)
    (hfree : ∀ a ∈ old, ¬Avail s.pmm (4096 * (a / 4096)))
    (h : LoadRep roots r old s s' (contents (pageWrites img img.segments) fun _ => none) place) :
    LoadView img s s' (4096 * r) where
  covered virt hvirt ph hph hpage := by
    rcases contents_pageWrites img img.segments (pageOf virt) with
      ⟨hnone, -⟩ | ⟨n, hn, page, hpage', hp, hcontent, hlater⟩
    · exact absurd ((pageOf_eq_iff_pageBase (hlink.user ph hph) hvirt hpage).mpr rfl)
        (hnone ph hph _ hpage)
    have huser := hlink.user _ (List.getElem_mem hn)
    obtain rfl := (pageOf_eq_iff_pageBase huser hvirt hpage').mp hp
    obtain ⟨f, hfind, hav, -, hload⟩ := h.written virt _ hcontent
    obtain ⟨-, husr, haddr⟩ := userEntry_bits (avail_frame hav)
    have hal := (avail_frame hav).1
    refine ⟨n, hn, hpage', ⟨⟨f + virt % 4096, true, true⟩, ?_, rfl, ?_, ?_⟩, ?_⟩
    · have hw : pteWritable (leafEntry f userFlags) = true := testBit_pteAddr_or (by norm_num)
      rw [h.tables.hwWalk_eq hr, hfind, Option.map_some, haddr, husr, hw]
    · have hphys : 4096 * ((f + virt % 4096) / 4096) = f := by omega
      rw [hphys]
      exact hav
    · have hlt : virt % 4096 < 4096 := Nat.mod_lt _ (by norm_num)
      have hfile := hlink.filesz _ (List.getElem_mem hn)
      have hbase : pageBase virt + virt % 4096 = virt := by
        rw [pageBase]
        omega
      have hbyte : (load s'.mem f 4096)[virt % 4096]? =
          some (img.segments[n].byteAt img virt) := by
        rw [hload, List.getElem?_eq_getElem (by rw [length_pageBytes]; exact hlt),
          getElem_pageBytes (by omega), hbase]
      rw [List.getElem?_eq_getElem (by rw [length_load]; exact hlt), getElem_load] at hbyte
      exact Option.some.inj hbyte
    · intro m hm hlt hpage
      have huser' := hlink.user _ (List.getElem_mem hm)
      exact hlater m hm hlt _ hpage ((pageOf_eq_iff_pageBase huser' hvirt hpage).mpr rfl)
  outside virt hvirt hout := by
    have hnone : contents (pageWrites img img.segments) (fun _ => none) (pageOf virt) = none := by
      rcases contents_pageWrites img img.segments (pageOf virt) with
        ⟨-, hnone⟩ | ⟨n, hn, page, hpage, hp, -⟩
      · exact hnone
      · have huser := hlink.user _ (List.getElem_mem hn)
        rw [(pageOf_eq_iff_pageBase huser hvirt hpage).mp hp] at hpage
        exact absurd hpage (hout _ (List.getElem_mem hn))
    exact hspaces.tables.hwWalk_congr h.tables hr hr (h.same virt hnone)
  kept virt t ht hu := by
    have hmem := hold virt t ht hu
    exact ⟨hfree _ hmem, (h.kept _ hmem).2⟩

theorem SpacesOk.loadView {k : ℕ} (hspaces : SpacesOk k roots place s.mem s.pmm) (hr : r ∈ roots)
    (hlink : img.Linked) (hs : StyxOS.elfLoad s (4096 * r) img = some (0, s')) :
    LoadView img s s' (4096 * r) := by
  rcases elfLoad_cases hs with ⟨hrc, -⟩ | ⟨-, t, ht, rfl⟩
  · exact absurd rfl hrc
  have hall := mapAll_of_loadSegments ht
  -- The frames that user code reaches are in use, and no tables.
  have hold : ∀ virt x, hwWalk s.mem (4096 * r) virt = some x → x.user = true →
      ¬Avail s.pmm (4096 * (x.phys / 4096)) ∧ place (x.phys / 4096) = none := by
    intro virt x hx hu
    rw [hspaces.tables.hwWalk_eq hr] at hx
    obtain ⟨e, he, rfl⟩ := Option.map_eq_some_iff.mp hx
    have hdiv : (pteAddr e + virt % 4096) / 4096 = pteAddr e / 4096 := by
      have := pteAddr_mod e
      omega
    rw [hdiv, mul_pteAddr_div]
    exact hspaces.owned r hr _ e rfl he hu
  have hrep : LoadRep roots r
      {a | ¬Avail s.pmm (4096 * (a / 4096)) ∧ place (a / 4096) = none}
      { s with currentPml4 := some (4096 * r) } { s with currentPml4 := some (4096 * r) }
      (fun _ => none) place :=
    ⟨hspaces.tables, rfl, fun _ hf => hf, fun _ _ => rfl,
      fun _ _ hv => (Option.some_ne_none _ hv.symm).elim, fun a ha => ⟨ha, rfl⟩⟩
  have hws : ∀ w ∈ pageWrites img img.segments, InLowerHalf w.1 ∧ w.2.length = 4096 := by
    intro w hw
    obtain ⟨ph, hph, hw⟩ := List.mem_flatMap.mp hw
    obtain ⟨page, hpage, rfl⟩ := List.mem_map.mp hw
    have hlt := lt_of_mem_pages (hlink.user ph hph) hpage
    dsimp only
    exact ⟨inLowerHalf_of_lt hlt, length_pageBytes ph img page⟩
  obtain ⟨place', hrep'⟩ := hrep.mapAll hr hws hall
  have hview := LoadRep.view (s := { s with currentPml4 := some (4096 * r) }) hlink hspaces hr
    (fun virt x hx hu => hold virt x hx hu) (fun a ha => ha.1) hrep'
  exact ⟨hview.covered, hview.outside, hview.kept⟩

end

section

variable {σ : Type} {img : ElfImage} {ph : Phdr} {s s' : Vmm σ} {virt task : ℕ}

theorem hwWalk_eq_none {mem : Mem} {w : ℕ} (hpage : pageOf w = pageOf virt)
    (h : hwWalk mem task w = none) : hwWalk mem task virt = none := by
  have hpath := pathOf_eq_iff.mpr hpage
  simp only [pathOf, List.cons.injEq, and_true] at hpath
  obtain ⟨h₄, h₃, h₂, h₁⟩ := hpath
  unfold hwWalk at h ⊢
  rw [← h₄, ← h₃, ← h₂, ← h₁]
  dsimp only [translate] at h ⊢
  split_ifs at h ⊢ <;> rfl

theorem userByte_of_walk {mem : Mem} {t : Translation} (h : hwWalk mem task virt = some t)
    (hu : t.user = true) : userByte mem task virt = some (mem t.phys) := by
  rw [userByte, h, Option.bind_some, if_pos hu]

theorem byteAt_add {j : ℕ} : ph.byteAt img (ph.vaddr + j) =
    if j < ph.filesz then img.bytes (ph.offset + j) else 0 := by
  have hiff : (ph.vaddr ≤ ph.vaddr + j ∧ ph.vaddr + j < ph.vaddr + ph.filesz) ↔
      j < ph.filesz := by omega
  simp only [Phdr.byteAt, hiff, Nat.add_sub_cancel_left]

variable [FrameAllocator σ]

theorem LoadView.loaded (h : LoadView img s s' task) (hlink : img.Linked)
    (hpages : img.PagesApart) : img.LoadedIn s'.mem task := by
  intro ph hph j hj
  obtain ⟨i, hi, rfl⟩ := List.getElem_of_mem hph
  have huser := hlink.user _ hph
  have hcov : img.segments[i].Covers (img.segments[i].vaddr + j) := by
    unfold Phdr.Covers
    omega
  obtain ⟨n, hn, hpage, ⟨t, ht, hu, -, hbyte⟩, hlater⟩ :=
    h.covered _ (.inl (by omega)) _ hph (pageBase_mem_pages huser hcov)
  rw [userByte_of_walk ht hu, hbyte, ← byteAt_add]
  rcases Nat.lt_trichotomy n i with hlt | rfl | hlt
  · exact absurd (pageBase_mem_pages huser hcov) (hlater i hi hlt)
  · rfl
  -- A later segment has zeros there, and so has this one.
  · have hzero : img.segments[n].byteAt img (img.segments[i].vaddr + j) = 0 :=
      byteAt_of_not_covers (hlink.filesz _ (List.getElem_mem hn))
        (List.pairwise_iff_getElem.mp hlink.apart i n hi hn hlt _ hcov)
    rw [hzero, byteAt_add]
    split_ifs with hfile
    · by_contra hne
      exact List.pairwise_iff_getElem.mp hpages i n hi hn hlt j hfile
        (fun hc => hne (by rw [hc])) hpage
    · rfl

theorem LoadView.pagesApart (h : LoadView img s s' task) (hlink : img.Linked)
    (hload : img.LoadedIn s'.mem task) : img.PagesApart := by
  refine List.pairwise_iff_getElem.mpr fun i j hi hj hij x hx hne hpage => ?_
  have hsz := hlink.filesz _ (List.getElem_mem hi)
  have huser := hlink.user _ (List.getElem_mem hi)
  have hcov : img.segments[i].Covers (img.segments[i].vaddr + x) := by
    unfold Phdr.Covers
    omega
  obtain ⟨n, hn, -, ⟨t, ht, hu, -, hbyte⟩, hlater⟩ :=
    h.covered _ (.inl (by omega)) _ (List.getElem_mem hj) hpage
  have hjn : j ≤ n := Nat.not_lt.mp fun hlt => hlater j hj hlt hpage
  have hread := hload _ (List.getElem_mem hi) x (by omega)
  rw [userByte_of_walk ht hu, hbyte, if_pos hx] at hread
  have hzero : img.segments[n].byteAt img (img.segments[i].vaddr + x) = 0 :=
    byteAt_of_not_covers (hlink.filesz _ (List.getElem_mem hn))
      (List.pairwise_iff_getElem.mp hlink.apart i n hi hn (by omega) _ hcov)
  rw [hzero] at hread
  exact hne (Option.some.inj hread).symm

theorem LoadView.keepsOutside_iff (h : LoadView img s s' task) :
    img.KeepsOutside s.mem s'.mem task ↔ img.MissesMapped s.mem task := by
  constructor
  · intro hkeep virt hvirt hmapped hout ph hph hpage
    obtain ⟨t, ht⟩ := Option.ne_none_iff_exists'.mp hmapped
    obtain ⟨n, hn, -, ⟨t', ht', hu, hav, -⟩, -⟩ := h.covered virt hvirt ph hph hpage
    obtain rfl := Option.some.inj ((hkeep virt hvirt hout t ht).1.symm.trans ht')
    exact (h.kept virt t ht hu).1 hav
  · intro hmiss virt hvirt hout t ht
    have hfar := hmiss virt hvirt (by rw [ht]; exact Option.some_ne_none t) hout
    exact ⟨(h.outside virt hvirt hfar).trans ht, fun hu => (h.kept virt t ht hu).2⟩

end

/-- A load that succeeds leaves the image of the file, beside what the task had, exactly when no
segment touches a page where an earlier one has a byte of the file other than zero, and none touches
a page that reaches out of the segments and was mapped. -/
theorem elf_load_image_iff {σ : Type} [FrameAllocator σ] {s : Spaces σ} {vmm : Vmm σ} {task : ℕ}
    {img : ElfImage} (hs : Reached s) (htask : task ∈ s.tasks) (hlink : img.Linked)
    (hload : elfLoad s.vmm task img = some (0, vmm)) :
    (img.LoadedIn vmm.mem task ∧ img.KeepsOutside s.vmm.mem vmm.mem task) ↔
      img.PagesApart ∧ img.MissesMapped s.vmm.mem task := by
  obtain ⟨k, place, hcur, hok⟩ := hs.isolated.spaces
  have hmem : task ∈ s.pml4s := by
    rw [Spaces.pml4s_eq hcur]
    exact List.mem_cons_of_mem _ htask
  obtain ⟨r, rfl, hr⟩ := hs.isolated.aligned hmem
  have hview := hok.loadView hr hlink hload
  rw [hview.keepsOutside_iff]
  exact and_congr_left fun _ => ⟨hview.pagesApart hlink, hview.loaded hlink⟩

/-- A task is made, and `elf_load` is called for it. -/
def sampleLoad (img : ElfImage) : Option (Spaces FrameList × ℤ × Vmm FrameList) := do
  let s ← (SpaceCall.create ⟨true, true, true⟩).apply sampleSpaces
  let x ← elfLoad s.vmm 0x5000 img
  some (s, x)

theorem sampleLoad_reached {img : ElfImage} {s : Spaces FrameList} {x : ℤ × Vmm FrameList}
    (h : sampleLoad img = some (s, x)) : Reached s ∧ elfLoad s.vmm 0x5000 img = some x := by
  simp only [sampleLoad, Option.bind_eq_bind, Option.bind_eq_some_iff, Option.some.injEq,
    Prod.mk.injEq] at h
  obtain ⟨t, ht, y, hy, rfl, rfl⟩ := h
  exact ⟨.call (.create ⟨true, true, true⟩) (.boot sampleSpaces_booted) trivial trivial ht, hy⟩

/-- A file with two segments of eight bytes, at `0x400000` and right behind. -/
def sampleTwo : ElfImage where
  data := storeLE (storeLE (storeLE (storeLE (storeLE (sampleElf 0x400000).data 56 2 2) 120 4
    ptLoad) 136 8 0x400008) 152 8 8) 160 8 8
  size := 176

/-- The same with the second segment on the next page. -/
def sampleApart : ElfImage where
  data := storeLE sampleTwo.data 136 8 0x401000
  size := 176

theorem sampleApart_segments :
    sampleApart.segments = [⟨1, 0, 0x400000, 8, 8⟩, ⟨1, 0, 0x401000, 8, 8⟩] := by
  decide +kernel

theorem sampleApart_linked : sampleApart.Linked := by
  constructor <;> rw [sampleApart_segments]
  · simp [Phdr.Covers]
    omega
  · norm_num
  · norm_num [sampleApart]
  · norm_num

/-- The two segments miss the stack page and each other. -/
theorem elf_load_image_iff_sample :
    ∃ s vmm, sampleLoad sampleApart = some (s, 0, vmm) ∧ sampleApart.LoadedIn vmm.mem 0x5000 ∧
      sampleApart.KeepsOutside s.vmm.mem vmm.mem 0x5000 := by
  have hrun : (sampleLoad sampleApart).map (fun x => (x.1.tasks, x.2.1,
      hwWalk x.1.vmm.mem 0x5000 0x400000, hwWalk x.1.vmm.mem 0x5000 0x401000)) =
        some ([0x5000], 0, none, none) := by decide +kernel
  obtain ⟨⟨s, rc, vmm⟩, hload, hview⟩ := Option.map_eq_some_iff.mp hrun
  simp only [Prod.mk.injEq] at hview
  obtain ⟨htask, rfl, hfirst, hsecond⟩ := hview
  obtain ⟨hs, hcall⟩ := sampleLoad_reached hload
  have hmem : 0x5000 ∈ s.tasks := by
    rw [htask]
    exact List.mem_singleton_self _
  have hapart : sampleApart.PagesApart := by
    rw [ElfImage.PagesApart, sampleApart_segments]
    decide +kernel
  have hmiss : sampleApart.MissesMapped s.vmm.mem 0x5000 := by
    intro virt hvirt hmapped _ ph hph hpage
    have hfree : ∀ a ∈ ph.pages, a < 2 ^ 47 ∧ hwWalk s.vmm.mem 0x5000 a = none := by
      rw [sampleApart_segments] at hph
      rcases List.mem_pair.mp hph with rfl | rfl
      · intro a ha
        obtain rfl : a = 0x400000 := List.mem_singleton.mp ha
        exact ⟨by norm_num, hfirst⟩
      · intro a ha
        obtain rfl : a = 0x401000 := List.mem_singleton.mp ha
        exact ⟨by norm_num, hsecond⟩
    obtain ⟨hlow, hnone⟩ := hfree _ hpage
    refine hmapped (hwWalk_eq_none ?_ hnone)
    rw [pageOf_eq_iff (.inl hlow) hvirt, pageBase]
    omega
  exact ⟨s, vmm, hload, (elf_load_image_iff hs hmem sampleApart_linked hcall).mpr ⟨hapart, hmiss⟩⟩

/-- The second segment takes the page of the first. -/
theorem elf_load_image_wrong :
    ∃ (s : Spaces FrameList) (vmm : Vmm FrameList), Reached s ∧ 0x5000 ∈ s.tasks ∧
      sampleTwo.Linked ∧ elfLoad s.vmm 0x5000 sampleTwo = some (0, vmm) ∧
        ¬sampleTwo.LoadedIn vmm.mem 0x5000 := by
  have hrun : (sampleLoad sampleTwo).map (fun x => (x.1.tasks, x.2.1,
      userByte x.2.2.mem 0x5000 0x400000)) = some ([0x5000], 0, some 0) := by decide +kernel
  obtain ⟨⟨s, rc, vmm⟩, hload, hview⟩ := Option.map_eq_some_iff.mp hrun
  simp only [Prod.mk.injEq] at hview
  obtain ⟨htask, rfl, hbyte⟩ := hview
  obtain ⟨hs, hcall⟩ := sampleLoad_reached hload
  have hsegs : sampleTwo.segments = [⟨1, 0, 0x400000, 8, 8⟩, ⟨1, 0, 0x400008, 8, 8⟩] := by
    decide +kernel
  have hfirst : sampleTwo.bytes 0 = 0x7f := by decide +kernel
  refine ⟨s, vmm, hs, ?_, ?_, hcall, fun hloaded => ?_⟩
  · rw [htask]
    exact List.mem_singleton_self _
  · constructor <;> rw [hsegs]
    · simp [Phdr.Covers]
      omega
    · norm_num
    · norm_num [sampleTwo]
    · norm_num
  · have hread := hloaded ⟨1, 0, 0x400000, 8, 8⟩ (by rw [hsegs]; exact List.mem_cons_self) 0
      (by norm_num)
    rw [if_pos (by norm_num), Nat.add_zero, hfirst] at hread
    dsimp only at hread
    rw [hbyte] at hread
    revert hread
    decide

end StyxOS
