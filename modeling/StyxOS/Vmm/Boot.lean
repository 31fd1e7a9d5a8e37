import StyxOS.Pmm.Basic
import StyxOS.Vmm.Refine

/-! # The first page tables

`vmm_init` builds the tables of the kernel while it runs on those of the boot
loader, and then writes CR3. The code, its stack and everything it has a pointer
to must be found at the same place after that write.
-/

namespace StyxOS

open ByteMem FrameAllocator

/-! ## The walk of the loader's tables -/

/-- `translate_limine_address`; `0` is no translation. -/
def translateLimineAddress (mem : Mem) (pml4Phys virt : ℕ) : ℕ :=
  let e₄ := entryAt mem pml4Phys (pml4Index virt)
  if ptePresent e₄ = false then 0
  else
    let e₃ := entryAt mem (pteAddr e₄) (pdptIndex virt)
    if ptePresent e₃ = false then 0
    else if pteLarge e₃ then pteAddr e₃ + (virt &&& 0x3FFFFFFF)
    else
      let e₂ := entryAt mem (pteAddr e₃) (pdIndex virt)
      if ptePresent e₂ = false then 0
      else if pteLarge e₂ then pteAddr e₂ + (virt &&& 0x1FFFFF)
      else
        let e₁ := entryAt mem (pteAddr e₂) (ptIndex virt)
        if ptePresent e₁ = false then 0 else pteAddr e₁ + (virt &&& 0xFFF)

/-! ## What the boot loader hands over -/

structure LimineFramebuffer where
  address : ℕ
  height : ℕ
  pitch : ℕ
  deriving DecidableEq, Repr

/-- The responses that `vmm_init` reads, each of which may be missing, and the registers: the
memory map, the physical and the virtual base of the kernel, and the framebuffers. -/
structure BootInfo where
  memmap : Option (List MemmapEntry)
  kernelAddress : Option (ℕ × ℕ)
  framebuffers : Option (List LimineFramebuffer)
  cr3 : ℕ
  rsp : ℕ

/-- `LIMINE_MEMMAP_KERNEL_AND_MODULES`. -/
def memmapKernelAndModules : ℕ := 6

/-- `(n + PAGE_SIZE - 1) & ~(PAGE_SIZE - 1)`. -/
def pageRoundUp (n : ℕ) : ℕ := (n + 4096 - 1) % 2 ^ 64 / 4096 * 4096

/-- The counter of a loop over pages, from `start` and below `stop`, both of which are aligned. -/
def pagesBetween (start stop : ℕ) : List ℕ :=
  (List.range ((stop - start) / 4096)).map fun i => start + 4096 * i

/-- The pages that an entry of the memory map touches. -/
def MemmapEntry.pages (e : MemmapEntry) : List ℕ :=
  pagesBetween (e.base / 4096 * 4096) (pageRoundUp (e.base + e.length))

/-- `kernel_size`: the length of the first entry for the kernel, in whole pages. -/
def kernelSize (memmap : List MemmapEntry) : ℕ :=
  match memmap.find? (·.type == memmapKernelAndModules) with
  | some e => pageRoundUp e.length
  | none => 0

/-- The pages of the framebuffer. -/
def LimineFramebuffer.pages (fb : LimineFramebuffer) : List ℕ :=
  (pagesBetween 0 (pageRoundUp (fb.pitch * fb.height))).map fun offset =>
    (fb.address + offset) % 2 ^ 64

/-- The pages from 64 KiB below the stack pointer to 8 KiB above it. Up to the last page of all
the loop does not end, since its counter wraps. -/
def stackPages (rsp : ℕ) : Option (List ℕ) :=
  let stackBase := (rsp + 2 ^ 64 - 64 * 1024) % 2 ^ 64 / 4096 * 4096
  let stackTop := (rsp + 8 * 1024) % 2 ^ 64 / 4096 * 4096
  if stackTop + 4096 = 2 ^ 64 then none else some (pagesBetween stackBase (stackTop + 4096))

section

variable {σ : Type} [FrameAllocator σ]

/-- Calls of `vmm_map_page` with `PTE_PRESENT | PTE_WRITABLE`, for addresses and frames. -/
def mapFrames (s : Vmm σ) (pages : List (ℕ × ℕ)) : Option (Vmm σ) :=
  pages.foldlM (fun s x => vmmMapPage s x.1 x.2 3) s

/-- A page of the framebuffer or of the stack: it is mapped to where the loader has it, or as part
of the direct map; else there is a warning. -/
def mapAsLimine (limine : ℕ) (s : Vmm σ) (virt : ℕ) : Option (Vmm σ) :=
  let phys := translateLimineAddress s.mem limine virt
  if phys ≠ 0 then vmmMapPage s virt phys 3
  else if s.hhdmOff ≤ virt then vmmMapPage s virt (virt - s.hhdmOff) 3
  else some s

/-- The pages of the direct map, with their frames. -/
def hhdmPages (memmap : List MemmapEntry) (hhdmOff : ℕ) : List (ℕ × ℕ) :=
  memmap.flatMap fun e => e.pages.map fun phys => ((phys + hhdmOff) % 2 ^ 64, phys)

def kernelPages (memmap : List MemmapEntry) (kernel : ℕ × ℕ) : List (ℕ × ℕ) :=
  (pagesBetween 0 (kernelSize memmap)).map fun offset =>
    ((kernel.2 + offset) % 2 ^ 64, (kernel.1 + offset) % 2 ^ 64)

/-- The pages of the first framebuffer, if there is one. -/
def framebufferPages (boot : BootInfo) : List ℕ :=
  match boot.framebuffers with
  | some (fb :: _) => fb.pages
  | _ => []

/-- `vmm_init`: the state after it, and the new CR3. It halts without a memory map, without the
address of the kernel, and without memory. -/
def vmmInit (s : Vmm σ) (boot : BootInfo) (hhdmOffset : ℕ) : Option (Vmm σ × ℕ) := do
  let memmap ← boot.memmap
  let kernel ← boot.kernelAddress
  let (pml4, pmm) ← allocFrame s.pmm
  let s : Vmm σ := ⟨zeroPage s.mem pml4, pmm, some pml4, hhdmOffset⟩
  let s ← mapFrames s (hhdmPages memmap hhdmOffset)
  if kernelSize memmap = 0 then none
  else
    let s ← mapFrames s (kernelPages memmap kernel)
    let s ← (framebufferPages boot).foldlM (mapAsLimine boot.cr3) s
    let stack ← stackPages boot.rsp
    let s ← stack.foldlM (mapAsLimine boot.cr3) s
    some (s, pml4)

end

/-! ## Walks and pages -/

section

variable {mem mem' : Mem} {cr3 v w : ℕ} {t : Translation}

theorem translate_page {bits : ℕ} {e : ℕ} {es : List ℕ} (hbits : bits = 12 ∨ bits = 21 ∨ bits = 30)
    (hpage : pageOf v = pageOf w) (h : translate v bits (e :: es) = some t) :
    translate w bits (e :: es) = some { t with phys := t.phys / 4096 * 4096 + w % 4096 } ∧
      t.phys % 4096 = v % 4096 ∧ t.phys < 2 ^ 52 := by
  obtain rfl := Option.some.inj h
  have hlt := pteAddr_lt e
  unfold pageOf at hpage
  have hframe : pteAddr e / 2 ^ bits * 2 ^ bits + w % 2 ^ bits =
      (pteAddr e / 2 ^ bits * 2 ^ bits + v % 2 ^ bits) / 4096 * 4096 + w % 4096 := by
    rcases hbits with rfl | rfl | rfl <;> omega
  refine ⟨?_, ?_, ?_⟩
  · rw [translate, hframe]
  · rcases hbits with rfl | rfl | rfl <;> dsimp only <;> omega
  · rcases hbits with rfl | rfl | rfl <;> dsimp only <;> omega

theorem hwWalk_page (hpage : pageOf v = pageOf w) (h : hwWalk mem cr3 v = some t) :
    hwWalk mem cr3 w = some { t with phys := t.phys / 4096 * 4096 + w % 4096 } ∧
      t.phys % 4096 = v % 4096 ∧ t.phys < 2 ^ 52 := by
  have hpath := pathOf_eq_iff.mpr hpage
  simp only [pathOf, List.cons.injEq, and_true] at hpath
  obtain ⟨h₄, h₃, h₂, h₁⟩ := hpath
  unfold hwWalk at h ⊢
  rw [← h₄, ← h₃, ← h₂, ← h₁]
  dsimp only at h ⊢
  split_ifs at h ⊢
  · exact translate_page (by norm_num) hpage h
  · exact translate_page (by norm_num) hpage h
  · exact translate_page (by norm_num) hpage h

theorem hwWalk_frame {a : ℕ} (hpage : pageOf v = pageOf w) (h : hwWalk mem cr3 v = some t)
    (hw : ∀ t, hwWalk mem cr3 w = some t → t.phys = a) :
    a < 2 ^ 52 ∧ a / 4096 * 4096 = t.phys / 4096 * 4096 := by
  obtain ⟨hwalk, -, hlt⟩ := hwWalk_page hpage h
  obtain rfl := hw _ hwalk
  dsimp only
  omega

/-- Where the page of an entry is large, the entry names the first frame of the page. -/
def LargeAligned (mem : Mem) (cr3 virt : ℕ) : Prop :=
  let e₃ := entryAt mem (pteAddr (entryAt mem cr3 (pml4Index virt))) (pdptIndex virt)
  let e₂ := entryAt mem (pteAddr e₃) (pdIndex virt)
  if pteLarge e₃ then pteAddr e₃ % 2 ^ 30 = 0 else pteLarge e₂ = true → pteAddr e₂ % 2 ^ 21 = 0

theorem translateLimineAddress_of_hwWalk (hal : LargeAligned mem cr3 v)
    (h : hwWalk mem cr3 v = some t) : translateLimineAddress mem cr3 v = t.phys := by
  have hmask : ∀ n, v &&& 2 ^ n - 1 = v % 2 ^ n := fun n => Nat.and_two_pow_sub_one_eq_mod v n
  have h30 : v &&& 0x3FFFFFFF = v % 2 ^ 30 := hmask 30
  have h21 : v &&& 0x1FFFFF = v % 2 ^ 21 := hmask 21
  have h12 : v &&& 0xFFF = v % 2 ^ 12 := hmask 12
  unfold hwWalk at h
  unfold LargeAligned at hal
  unfold translateLimineAddress
  rw [h30, h21, h12]
  dsimp only at h hal ⊢
  split_ifs at h with h₄ h₃ hl₃ h₂ hl₂ h₁
  all_goals
    obtain rfl := Option.some.inj h
    simp only [Bool.or_eq_true, decide_eq_true_eq, not_or] at h₄
    rw [if_neg h₄.1, if_neg h₃]
  · rw [if_pos hl₃] at hal ⊢
    dsimp only
    omega
  · rw [if_neg hl₃] at hal ⊢
    have hal₂ := hal hl₂
    rw [if_neg h₂, if_pos hl₂]
    dsimp only
    omega
  · rw [if_neg hl₃, if_neg h₂, if_neg hl₂, if_neg h₁]
    have hmod := pteAddr_mod (entryAt mem (pteAddr (entryAt mem (pteAddr (entryAt mem (pteAddr
      (entryAt mem cr3 (pml4Index v))) (pdptIndex v))) (pdIndex v))) (ptIndex v))
    dsimp only
    omega

/-- The tables that the walk of an address reads. -/
def walkTables (mem : Mem) (cr3 virt : ℕ) : List ℕ :=
  let e₄ := entryAt mem cr3 (pml4Index virt)
  let e₃ := entryAt mem (pteAddr e₄) (pdptIndex virt)
  let e₂ := entryAt mem (pteAddr e₃) (pdIndex virt)
  cr3 :: if ptePresent e₄ = false then [] else
    pteAddr e₄ :: if ptePresent e₃ = false || pteLarge e₃ then [] else
      pteAddr e₃ :: if ptePresent e₂ = false || pteLarge e₂ then [] else [pteAddr e₂]

theorem translateLimineAddress_congr
    (h : ∀ table ∈ walkTables mem cr3 v, ∀ i, entryAt mem' table i = entryAt mem table i) :
    translateLimineAddress mem' cr3 v = translateLimineAddress mem cr3 v := by
  unfold walkTables at h
  unfold translateLimineAddress
  dsimp only at h ⊢
  rw [h cr3 (.head _)]
  by_cases h₄ : ptePresent (entryAt mem cr3 (pml4Index v)) = false
  · rw [if_pos h₄, if_pos h₄]
  · rw [if_neg h₄] at h
    rw [if_neg h₄, if_neg h₄, h _ (.tail _ (.head _))]
    generalize pteAddr (entryAt mem cr3 (pml4Index v)) = t₃ at *
    by_cases h₃ : ptePresent (entryAt mem t₃ (pdptIndex v)) = false
    · rw [if_pos h₃, if_pos h₃]
    · by_cases hl₃ : pteLarge (entryAt mem t₃ (pdptIndex v))
      · simp only [if_neg h₃, if_pos hl₃]
      · rw [if_neg (by simp [h₃, hl₃])] at h
        simp only [if_neg h₃, if_neg hl₃]
        rw [h _ (.tail _ (.tail _ (.head _)))]
        generalize pteAddr (entryAt mem t₃ (pdptIndex v)) = t₂ at *
        by_cases h₂ : ptePresent (entryAt mem t₂ (pdIndex v)) = false
        · rw [if_pos h₂, if_pos h₂]
        · by_cases hl₂ : pteLarge (entryAt mem t₂ (pdIndex v))
          · simp only [if_neg h₂, if_pos hl₂]
          · rw [if_neg (by simp [h₂, hl₂])] at h
            simp only [if_neg h₂, if_neg hl₂]
            rw [h _ (.tail _ (.tail _ (.tail _ (.head _))))]

end

/-! ## Building the tables -/

/-- A map from pages to frames and flags after one more map, and after a list of them. -/
def flatPage (m : ℕ → Option (ℕ × ℕ)) (x : ℕ × ℕ) : ℕ → Option (ℕ × ℕ) :=
  Function.update m (pageOf x.1) (some (pteAddr x.2, 3))

def flatPages (m : ℕ → Option (ℕ × ℕ)) (pages : List (ℕ × ℕ)) : ℕ → Option (ℕ × ℕ) :=
  pages.foldl flatPage m

/-- The frame for a page of the framebuffer or of the stack. -/
def limineFrame (mem : Mem) (limine hhdmOff virt : ℕ) : Option ℕ :=
  if translateLimineAddress mem limine virt ≠ 0 then some (translateLimineAddress mem limine virt)
  else if hhdmOff ≤ virt then some (virt - hhdmOff) else none

/-- The pages among these that are mapped, with their frames. -/
def liminePages (mem : Mem) (limine hhdmOff : ℕ) (virts : List ℕ) : List (ℕ × ℕ) :=
  virts.filterMap fun virt => (limineFrame mem limine hhdmOff virt).map fun phys => (virt, phys)

section

variable {σ : Type} [FrameAllocator σ] {s₀ s s' : Vmm σ} {r virt phys limine : ℕ}
  {m : ℕ → Option (ℕ × ℕ)} {pages : List (ℕ × ℕ)} {virts : List ℕ}

/-- What holds while the tables are built: they represent the map so far, and of the memory at the
start no frame has changed but those that could be allocated. -/
structure Built (r : ℕ) (s₀ s : Vmm σ) (m : ℕ → Option (ℕ × ℕ)) : Prop where
  rep : FlatRep r s m
  tables : ∃ place, TablesOk {r} place s.mem s.pmm ∧
    ∀ n p, place n = some p → Avail s₀.pmm (4096 * n)
  avail : ∀ f, Avail s.pmm f → Avail s₀.pmm f
  data : ∀ a, ¬Avail s₀.pmm (4096 * (a / 4096)) → s.mem a = s₀.mem a

theorem vmmMapPage_pteAddr (s : Vmm σ) (virt phys flags : ℕ) :
    vmmMapPage s virt (pteAddr phys) flags = vmmMapPage s virt phys flags := by
  rw [vmmMapPage, vmmMapPage, pteAddr_of_frame (pteAddr_mod phys) (pteAddr_lt phys)]

theorem Built.map (h : Built r s₀ s m) (hs : vmmMapPage s virt phys 3 = some s') :
    Built r s₀ s' (flatPage m (virt, phys)) := by
  obtain ⟨place, hok, hplace⟩ := h.tables
  obtain ⟨place', hok', hmaps⟩ :=
    hok.vmmMapPage rfl h.rep.currentPml4 (by norm_num) (fun _ => .inr subset_rfl) hs
  have hfresh : ∀ n p, place' n = some p → Avail s₀.pmm (4096 * n) := by
    intro n p hn
    rcases hmaps.fresh n p hn with hold | hnew
    · exact hplace n p hold
    · exact h.avail _ hnew
  refine ⟨?_, ⟨place', hok', hfresh⟩, fun f hf => h.avail f (hmaps.avail f hf), fun a ha => ?_⟩
  · have hop : (PageOp.map virt (pteAddr phys) 3).Ok :=
      ⟨⟨pteAddr_mod phys, pteAddr_lt phys⟩, by decide, by norm_num⟩
    exact h.rep.apply hop ((vmmMapPage_pteAddr s virt phys 3).trans hs)
  · rw [← h.data a ha]
    apply hmaps.data
    cases hp : place' (a / 4096) with
    | none => rfl
    | some p => exact absurd (hfresh _ p hp) ha

theorem Built.mapFrames (h : Built r s₀ s m) (hs : StyxOS.mapFrames s pages = some s') :
    Built r s₀ s' (flatPages m pages) := by
  induction pages generalizing s m with
  | nil =>
    obtain rfl := Option.some.inj hs
    exact h
  | cons x pages ih =>
    rw [StyxOS.mapFrames, List.foldlM_cons] at hs
    obtain ⟨s₁, hs₁, hrest⟩ := Option.bind_eq_some_iff.mp hs
    exact ih (h.map hs₁) hrest

theorem Built.translate (h : Built r s₀ s m) (hlimine : limine % 4096 = 0)
    (htables : ∀ table ∈ walkTables s₀.mem limine virt, ¬Avail s₀.pmm table) :
    translateLimineAddress s.mem limine virt = translateLimineAddress s₀.mem limine virt := by
  have haligned : ∀ table ∈ walkTables s₀.mem limine virt, table % 4096 = 0 := by
    intro table hmem
    unfold walkTables at hmem
    dsimp only at hmem
    split_ifs at hmem <;> simp only [List.mem_cons, List.not_mem_nil, or_false] at hmem
    · rw [hmem, hlimine]
    · rcases hmem with rfl | rfl
      · exact hlimine
      · exact pteAddr_mod _
    · rcases hmem with rfl | rfl | rfl
      · exact hlimine
      · exact pteAddr_mod _
      · exact pteAddr_mod _
    · rcases hmem with rfl | rfl | rfl | rfl
      · exact hlimine
      · exact pteAddr_mod _
      · exact pteAddr_mod _
      · exact pteAddr_mod _
  apply translateLimineAddress_congr
  intro table hmem i
  have hmod := haligned table hmem
  have hi := i.isLt
  refine loadLE_congr fun j hj => h.data _ ?_
  rw [show 4096 * ((table + 8 * i + j) / 4096) = table by omega]
  exact htables table hmem

theorem Built.mapAsLimine (h : Built r s₀ s m) (hlimine : limine % 4096 = 0)
    (htables : ∀ virt ∈ virts, ∀ table ∈ walkTables s₀.mem limine virt, ¬Avail s₀.pmm table)
    (hs : virts.foldlM (StyxOS.mapAsLimine limine) s = some s') :
    Built r s₀ s' (flatPages m (liminePages s₀.mem limine s.hhdmOff virts)) := by
  induction virts generalizing s m with
  | nil =>
    obtain rfl := Option.some.inj hs
    exact h
  | cons virt virts ih =>
    obtain ⟨hhere, hthere⟩ := List.forall_mem_cons.mp htables
    rw [List.foldlM_cons] at hs
    obtain ⟨s₁, hs₁, hrest⟩ := Option.bind_eq_some_iff.mp hs
    have hsame := h.translate hlimine hhere
    rw [StyxOS.mapAsLimine, hsame] at hs₁
    rw [liminePages, List.filterMap_cons, limineFrame]
    by_cases hphys : translateLimineAddress s₀.mem limine virt ≠ 0
    · rw [if_pos hphys] at hs₁ ⊢
      rw [← vmmMapPage_hhdmOff hs₁]
      exact ih (h.map hs₁) hthere hrest
    · rw [if_neg hphys] at hs₁ ⊢
      by_cases hhigh : s.hhdmOff ≤ virt
      · rw [if_pos hhigh] at hs₁ ⊢
        have hnext := ih (h.map hs₁) hthere hrest
        rw [vmmMapPage_hhdmOff hs₁] at hnext
        exact hnext
      · rw [if_neg hhigh] at hs₁ ⊢
        obtain rfl := Option.some.inj hs₁
        exact ih h hthere hrest

theorem flatPages_cases {page : ℕ} {y : ℕ × ℕ} (h : flatPages m pages page = some y) :
    m page = some y ∨ ∃ x ∈ pages, pageOf x.1 = page ∧ y = (pteAddr x.2, 3) := by
  induction pages generalizing m with
  | nil => exact .inl h
  | cons x pages ih =>
    rcases ih h with hhere | ⟨z, hz, hpage, rfl⟩
    · by_cases hx : page = pageOf x.1
      · rw [hx, flatPage, Function.update_self] at hhere
        exact .inr ⟨x, .head _, hx.symm, (Option.some.inj hhere).symm⟩
      · rw [flatPage, Function.update_of_ne hx] at hhere
        exact .inl hhere
    · exact .inr ⟨z, .tail _ hz, hpage, rfl⟩

theorem flatPages_isSome {page : ℕ}
    (h : (m page).isSome ∨ ∃ x ∈ pages, pageOf x.1 = page) :
    (flatPages m pages page).isSome := by
  induction pages generalizing m with
  | nil =>
    rcases h with h | ⟨x, hx, -⟩
    · exact h
    · cases hx
  | cons x pages ih =>
    apply ih
    by_cases hpage : page = pageOf x.1
    · left
      rw [hpage, flatPage, Function.update_self]
      rfl
    · rw [flatPage, Function.update_of_ne hpage]
      rcases h with h | ⟨y, hy, rfl⟩
      · exact .inl h
      · rcases List.mem_cons.mp hy with rfl | hy
        · exact absurd rfl hpage
        · exact .inr ⟨y, hy, rfl⟩

/-- What `vmm_init` maps, in order. -/
def bootPages (mem : Mem) (boot : BootInfo) (hhdmOff : ℕ) (memmap : List MemmapEntry)
    (kernel : ℕ × ℕ) (stack : List ℕ) : List (ℕ × ℕ) :=
  hhdmPages memmap hhdmOff ++ kernelPages memmap kernel ++
    liminePages mem boot.cr3 hhdmOff (framebufferPages boot) ++
    liminePages mem boot.cr3 hhdmOff stack

theorem mapFrames_hhdmOff (hs : mapFrames s pages = some s') : s'.hhdmOff = s.hhdmOff := by
  induction pages generalizing s with
  | nil => rw [← Option.some.inj hs]
  | cons x pages ih =>
    rw [mapFrames, List.foldlM_cons] at hs
    obtain ⟨s₁, hs₁, hrest⟩ := Option.bind_eq_some_iff.mp hs
    exact (ih hrest).trans (vmmMapPage_hhdmOff hs₁)

theorem mapAsLimine_hhdmOff (hs : virts.foldlM (mapAsLimine limine) s = some s') :
    s'.hhdmOff = s.hhdmOff := by
  induction virts generalizing s with
  | nil => rw [← Option.some.inj hs]
  | cons virt virts ih =>
    rw [List.foldlM_cons] at hs
    obtain ⟨s₁, hs₁, hrest⟩ := Option.bind_eq_some_iff.mp hs
    rw [ih hrest]
    unfold mapAsLimine at hs₁
    dsimp only at hs₁
    split_ifs at hs₁
    · exact vmmMapPage_hhdmOff hs₁
    · exact vmmMapPage_hhdmOff hs₁
    · rw [← Option.some.inj hs₁]

variable {boot : BootInfo} {hhdmOff cr3 : ℕ}

/-- When `vmm_init` returns, the new tables represent the map of those pages. -/
theorem vmmInit_built (hcr3 : boot.cr3 % 4096 = 0)
    (htables : ∀ virt ∈ framebufferPages boot ++ (stackPages boot.rsp).getD [],
      ∀ table ∈ walkTables s.mem boot.cr3 virt, ¬Avail s.pmm table)
    (h : vmmInit s boot hhdmOff = some (s', cr3)) :
    ∃ memmap kernel stack, boot.memmap = some memmap ∧ boot.kernelAddress = some kernel ∧
      stackPages boot.rsp = some stack ∧ cr3 % 4096 = 0 ∧
      Built (cr3 / 4096) s s'
        (flatPages (fun _ => none) (bootPages s.mem boot hhdmOff memmap kernel stack)) := by
  simp only [vmmInit, Option.bind_eq_bind, Option.bind_eq_some_iff, Prod.exists,
    Option.ite_none_left_eq_some, Option.some.injEq, Prod.mk.injEq] at h
  obtain ⟨memmap, hmemmap, kphys, kvirt, hkernel, pml4, pmm, halloc, s₁, h₁, -, s₂, h₂, s₃, h₃,
    stack, hstack, s₄, h₄, rfl, rfl⟩ := h
  obtain ⟨havail, hless⟩ := allocFrame_avail halloc
  obtain ⟨haligned, -, -⟩ := avail_frame havail
  obtain ⟨r, rfl⟩ := Nat.dvd_of_mod_eq_zero haligned
  rw [hstack, Option.getD_some] at htables
  have hfree : ¬Avail pmm (4096 * r) := fun hav => (hless _ hav).2 rfl
  have hzero : ∀ a, 4096 * r ≤ a → a < 4096 * r + 4096 → zeroPage s.mem (4096 * r) a = 0 := by
    intro a hlo hhi
    obtain ⟨i, rfl⟩ := Nat.exists_eq_add_of_le hlo
    have hi : i < (List.replicate 4096 (0 : UInt8)).length := by
      rw [List.length_replicate]
      omega
    rw [zeroPage, store_apply hi, List.getElem_replicate]
  have hstart : Built r s ⟨zeroPage s.mem (4096 * r), pmm, some (4096 * r), hhdmOff⟩
      fun _ => none := by
    refine ⟨flatRep_empty rfl hfree hzero, ⟨_, (tablesOk_zeroed hfree hzero).1, ?_⟩,
      fun f hf => (hless f hf).1, fun a ha => ?_⟩
    · intro n p hn
      by_cases hnr : n = r
      · rw [hnr]
        exact havail
      · rw [if_neg hnr] at hn
        cases hn
    · refine store_page_apply_of_ne (by rw [List.length_replicate]) fun hpage => ha ?_
      rw [hpage]
      exact havail
  have hb₁ := hstart.mapFrames h₁
  have hb₂ := hb₁.mapFrames h₂
  have hb₃ := hb₂.mapAsLimine hcr3 (fun v hv => htables v (List.mem_append_left _ hv)) h₃
  have hb₄ := hb₃.mapAsLimine hcr3 (fun v hv => htables v (List.mem_append_right _ hv)) h₄
  rw [mapAsLimine_hhdmOff h₃, mapFrames_hhdmOff h₂, mapFrames_hhdmOff h₁] at hb₄
  refine ⟨memmap, (kphys, kvirt), stack, hmemmap, hkernel, hstack, haligned, ?_⟩
  rw [Nat.mul_div_cancel_left r (by norm_num), bootPages, flatPages, List.foldl_append,
    List.foldl_append, List.foldl_append]
  exact hb₄

/-! ## Switching the tables -/

/-- What the protocol of the boot loader promises of its tables. They are outside the memory that
may be allocated. Where they translate an address of the direct map or of the kernel, they do so
linearly. The framebuffer and the stack are not in frame zero. -/
structure LimineBoot (s : Vmm σ) (boot : BootInfo) (hhdmOff : ℕ) : Prop where
  cr3 : boot.cr3 % 4096 = 0
  tables : ∀ virt ∈ framebufferPages boot ++ (stackPages boot.rsp).getD [],
    ∀ table ∈ walkTables s.mem boot.cr3 virt, ¬Avail s.pmm table
  large : ∀ virt ∈ framebufferPages boot ++ (stackPages boot.rsp).getD [],
    LargeAligned s.mem boot.cr3 virt
  frame : ∀ virt ∈ framebufferPages boot ++ (stackPages boot.rsp).getD [],
    ∀ t, hwWalk s.mem boot.cr3 virt = some t → t.phys ≠ 0
  direct : ∀ memmap, boot.memmap = some memmap → ∀ e ∈ memmap, ∀ phys ∈ e.pages,
    ∀ t, hwWalk s.mem boot.cr3 (phys + hhdmOff) = some t → t.phys = phys
  kernel : ∀ memmap kernel, boot.memmap = some memmap → boot.kernelAddress = some kernel →
    ∀ offset ∈ pagesBetween 0 (kernelSize memmap),
      ∀ t, hwWalk s.mem boot.cr3 (kernel.2 + offset) = some t → t.phys = kernel.1 + offset

/-- The addresses that the code may use while the tables are switched: those of the direct map, of
the kernel, of a framebuffer that starts on a page, and around the stack pointer. -/
inductive InUse (boot : BootInfo) (hhdmOff : ℕ) : ℕ → Prop
  | direct {memmap : List MemmapEntry} {e : MemmapEntry} {phys : ℕ} :
      boot.memmap = some memmap → e ∈ memmap → hhdmOff % 4096 = 0 → e.base ≤ phys →
      phys < pageRoundUp (e.base + e.length) → InUse boot hhdmOff (phys + hhdmOff)
  | kernel {memmap : List MemmapEntry} {kernel : ℕ × ℕ} {offset : ℕ} :
      boot.memmap = some memmap → boot.kernelAddress = some kernel → kernel.2 % 4096 = 0 →
      offset < kernelSize memmap → InUse boot hhdmOff (kernel.2 + offset)
  | framebuffer {fb : LimineFramebuffer} {fbs : List LimineFramebuffer} {offset : ℕ} :
      boot.framebuffers = some (fb :: fbs) → fb.address % 4096 = 0 →
      offset < pageRoundUp (fb.pitch * fb.height) → InUse boot hhdmOff (fb.address + offset)
  | stack {virt : ℕ} : 64 * 1024 ≤ boot.rsp → boot.rsp + 8 * 1024 < 2 ^ 64 →
      boot.rsp - 64 * 1024 ≤ virt → virt ≤ boot.rsp + 8 * 1024 → InUse boot hhdmOff virt

theorem mem_pagesBetween {start stop n : ℕ} :
    n ∈ pagesBetween start stop ↔ ∃ i, i < (stop - start) / 4096 ∧ start + 4096 * i = n := by
  simp [pagesBetween]

theorem page_mem_pagesBetween {start stop n : ℕ} (hstart : start % 4096 = 0)
    (hstop : stop % 4096 = 0) (hlo : start ≤ n) (hhi : n < stop) :
    n / 4096 * 4096 ∈ pagesBetween start stop :=
  mem_pagesBetween.mpr ⟨n / 4096 - start / 4096, by omega, by omega⟩

theorem pteAddr_of_lt {a : ℕ} (h : a < 2 ^ 52) : pteAddr a = a / 4096 * 4096 := by
  rw [pteAddr_eq]
  omega

theorem mem_liminePages {mem : Mem} {x : ℕ × ℕ} :
    x ∈ liminePages mem limine hhdmOff virts ↔
      x.1 ∈ virts ∧ limineFrame mem limine hhdmOff x.1 = some x.2 := by
  obtain ⟨v, p⟩ := x
  simp only [liminePages, List.mem_filterMap, Option.map_eq_some_iff, Prod.mk.injEq]
  constructor
  · rintro ⟨w, hw, q, hq, rfl, rfl⟩
    exact ⟨hw, hq⟩
  · rintro ⟨hv, hp⟩
    exact ⟨v, hv, p, hp, rfl, rfl⟩

/-- A frame that is mapped is the one that the loader has there. -/
theorem LimineBoot.frame_eq (hboot : LimineBoot s boot hhdmOff) {memmap : List MemmapEntry}
    {kernel : ℕ × ℕ} {stack : List ℕ} (hmemmap : boot.memmap = some memmap)
    (hkernel : boot.kernelAddress = some kernel) (hstack : stackPages boot.rsp = some stack)
    {x : ℕ × ℕ} (hx : x ∈ bootPages s.mem boot hhdmOff memmap kernel stack) {t : Translation}
    (ht : hwWalk s.mem boot.cr3 x.1 = some t) : pteAddr x.2 = t.phys / 4096 * 4096 := by
  have hpageOf : ∀ n, pageOf (n % 2 ^ 64) = pageOf n := fun n => by unfold pageOf; omega
  have hlimine : ∀ virts, (∀ v ∈ virts, v ∈ framebufferPages boot ++ stack) →
      x ∈ liminePages s.mem boot.cr3 hhdmOff virts → pteAddr x.2 = t.phys / 4096 * 4096 := by
    intro virts hsub hmem
    obtain ⟨hvirt, hframe⟩ := mem_liminePages.mp hmem
    have hlisted : x.1 ∈ framebufferPages boot ++ (stackPages boot.rsp).getD [] := by
      rw [hstack]
      exact hsub _ hvirt
    have heq := translateLimineAddress_of_hwWalk (hboot.large _ hlisted) ht
    rw [limineFrame, heq, if_pos (hboot.frame _ hlisted t ht)] at hframe
    rw [← Option.some.inj hframe, pteAddr_of_lt (hwWalk_page rfl ht).2.2]
  rw [bootPages, List.mem_append, List.mem_append, List.mem_append] at hx
  rcases hx with ((hx | hx) | hx) | hx
  · obtain ⟨e, he, hx⟩ := List.mem_flatMap.mp hx
    obtain ⟨phys, hphys, rfl⟩ := List.mem_map.mp hx
    obtain ⟨hlt, heq⟩ := hwWalk_frame (hpageOf (phys + hhdmOff)) ht
      (hboot.direct memmap hmemmap e he phys hphys)
    rw [pteAddr_of_lt hlt, heq]
  · obtain ⟨offset, hoffset, rfl⟩ := List.mem_map.mp hx
    obtain ⟨hlt, heq⟩ := hwWalk_frame (hpageOf (kernel.2 + offset)) ht
      (hboot.kernel memmap kernel hmemmap hkernel offset hoffset)
    rw [Nat.mod_eq_of_lt (hlt.trans (by norm_num)), pteAddr_of_lt hlt, heq]
  · exact hlimine _ (fun v hv => List.mem_append_left _ hv) hx
  · exact hlimine _ (fun v hv => List.mem_append_right _ hv) hx

theorem page_mem_stackPages {rsp : ℕ} {stack : List ℕ} (h : stackPages rsp = some stack)
    (hlow : 64 * 1024 ≤ rsp) (htop : rsp + 8 * 1024 < 2 ^ 64) (hlo : rsp - 64 * 1024 ≤ virt)
    (hhi : virt ≤ rsp + 8 * 1024) : virt / 4096 * 4096 ∈ stack := by
  have hbase : (rsp + 2 ^ 64 - 64 * 1024) % 2 ^ 64 = rsp - 64 * 1024 := by omega
  have hstop : ((rsp + 8 * 1024) / 4096 * 4096 + 4096) % 4096 = 0 :=
    (Nat.add_mod_right _ _).trans (Nat.mul_mod_left _ _)
  have hend : virt < (rsp + 8 * 1024) / 4096 * 4096 + 4096 := by
    have hpage := Nat.div_le_div_right (c := 4096) hhi
    omega
  rw [stackPages, hbase, Nat.mod_eq_of_lt htop] at h
  obtain ⟨-, hlist⟩ := Option.ite_none_left_eq_some.mp h
  rw [← Option.some.inj hlist]
  exact page_mem_pagesBetween (Nat.mul_mod_left _ _) hstop
    ((Nat.div_mul_le_self _ _).trans hlo) hend

/-- The page of an address in use is mapped, if the loader has it. -/
theorem LimineBoot.mapped (hboot : LimineBoot s boot hhdmOff) {memmap : List MemmapEntry}
    {kernel : ℕ × ℕ} {stack : List ℕ} (hmemmap : boot.memmap = some memmap)
    (hkernel : boot.kernelAddress = some kernel) (hstack : stackPages boot.rsp = some stack)
    (huse : InUse boot hhdmOff virt) {t : Translation}
    (ht : hwWalk s.mem boot.cr3 virt = some t) :
    ∃ x ∈ bootPages s.mem boot hhdmOff memmap kernel stack, pageOf x.1 = pageOf virt := by
  have hround : ∀ n, pageRoundUp n % 4096 = 0 := fun n => Nat.mul_mod_left _ _
  -- a page of the framebuffer or the stack has a frame, since the loader has one for it
  have hlimine : ∀ v ∈ framebufferPages boot ++ stack, pageOf v = pageOf virt →
      ∃ phys, limineFrame s.mem boot.cr3 hhdmOff v = some phys := by
    intro v hv hpage
    have hlisted : v ∈ framebufferPages boot ++ (stackPages boot.rsp).getD [] := by
      rw [hstack]
      exact hv
    obtain ⟨hwalk, -, -⟩ := hwWalk_page hpage.symm ht
    have heq := translateLimineAddress_of_hwWalk (hboot.large _ hlisted) hwalk
    have hne := hboot.frame _ hlisted _ hwalk
    rw [limineFrame, heq, if_pos hne]
    exact ⟨_, rfl⟩
  simp only [bootPages, List.mem_append]
  cases huse with
  | @direct memmap' e phys hmap he hoff hlo hhi =>
    obtain rfl := Option.some.inj (hmemmap.symm.trans hmap)
    have hpage : phys / 4096 * 4096 ∈ e.pages :=
      page_mem_pagesBetween (Nat.mul_mod_left _ _) (hround _) (by omega) hhi
    refine ⟨_, .inl (.inl (.inl (List.mem_flatMap.mpr ⟨e, he, List.mem_map_of_mem hpage⟩))), ?_⟩
    unfold pageOf
    dsimp only
    omega
  | @kernel memmap' kernel' offset hmap hker halign hlt =>
    obtain rfl := Option.some.inj (hmemmap.symm.trans hmap)
    obtain rfl := Option.some.inj (hkernel.symm.trans hker)
    have hsize : kernelSize memmap % 4096 = 0 := by
      unfold kernelSize
      split
      · exact hround _
      · rfl
    have hpage : offset / 4096 * 4096 ∈ pagesBetween 0 (kernelSize memmap) :=
      page_mem_pagesBetween rfl hsize (Nat.zero_le _) hlt
    refine ⟨_, .inl (.inl (.inr (List.mem_map_of_mem hpage))), ?_⟩
    unfold pageOf
    dsimp only
    omega
  | @framebuffer fb fbs offset hfb halign hlt =>
    have hpage : (fb.address + offset / 4096 * 4096) % 2 ^ 64 ∈ framebufferPages boot := by
      rw [framebufferPages, hfb]
      exact List.mem_map_of_mem (page_mem_pagesBetween rfl (hround _) (Nat.zero_le _) hlt)
    have hsame : pageOf ((fb.address + offset / 4096 * 4096) % 2 ^ 64) =
        pageOf (fb.address + offset) := by
      unfold pageOf
      omega
    obtain ⟨phys, hphys⟩ := hlimine _ (List.mem_append_left _ hpage) hsame
    exact ⟨(_, phys), .inl (.inr (mem_liminePages.mpr ⟨hpage, hphys⟩)), hsame⟩
  | stack hlow htop hlo hhi =>
    have hpage := page_mem_stackPages hstack hlow htop hlo hhi
    have hsame : pageOf (virt / 4096 * 4096) = pageOf virt := by
      unfold pageOf
      omega
    obtain ⟨phys, hphys⟩ := hlimine _ (List.mem_append_right _ hpage) hsame
    exact ⟨(_, phys), .inr (mem_liminePages.mpr ⟨hpage, hphys⟩), hsame⟩

/-- When `vmm_init` returns, the write to CR3 moves nothing: every address in use that the loader
had is translated to the same place, every address that the new tables translate and the old ones
did is translated to the same place, no address is open to user code, and the memory behind the
addresses is untouched except in frames that could be allocated. -/
theorem paging_switch (hboot : LimineBoot s boot hhdmOff)
    (h : vmmInit s boot hhdmOff = some (s', cr3)) :
    (∀ virt t, InUse boot hhdmOff virt → hwWalk s.mem boot.cr3 virt = some t →
      hwWalk s'.mem cr3 virt = some ⟨t.phys, true, false⟩) ∧
    (∀ virt t', hwWalk s'.mem cr3 virt = some t' → t'.writable = true ∧ t'.user = false ∧
      ∀ t, hwWalk s.mem boot.cr3 virt = some t → t'.phys = t.phys) ∧
    ∀ a, ¬Avail s.pmm (4096 * (a / 4096)) → s'.mem a = s.mem a := by
  obtain ⟨memmap, kernel, stack, hmemmap, hkernel, hstack, haligned, hbuilt⟩ :=
    vmmInit_built hboot.cr3 hboot.tables h
  have hwalk : ∀ virt, hwWalk s'.mem cr3 virt = (flatPages (fun _ => none)
      (bootPages s.mem boot hhdmOff memmap kernel stack) (pageOf virt)).map
        (flatTranslate virt) := by
    intro virt
    rw [← hbuilt.rep.hwWalk_eq, Nat.mul_div_cancel' (Nat.dvd_of_mod_eq_zero haligned)]
  have hfound : ∀ virt t', hwWalk s'.mem cr3 virt = some t' →
      t'.writable = true ∧ t'.user = false ∧
        ∀ t, hwWalk s.mem boot.cr3 virt = some t → t'.phys = t.phys := by
    intro virt t' ht'
    rw [hwalk, Option.map_eq_some_iff] at ht'
    obtain ⟨y, hy, rfl⟩ := ht'
    rcases flatPages_cases hy with hnone | ⟨x, hx, hpage, rfl⟩
    · cases hnone
    have hbits : Nat.testBit 3 1 = true ∧ Nat.testBit 3 2 = false := by decide
    refine ⟨by simp [flatTranslate, hbits], by simp [flatTranslate, hbits], fun t ht => ?_⟩
    obtain ⟨hold, hmod, -⟩ := hwWalk_page hpage.symm ht
    have hframe := hboot.frame_eq hmemmap hkernel hstack hx hold
    rw [flatTranslate]
    dsimp only at hframe ⊢
    omega
  refine ⟨fun virt t huse ht => ?_, hfound, hbuilt.data⟩
  obtain ⟨x, hx, hpage⟩ := hboot.mapped hmemmap hkernel hstack huse ht
  have hsome : (hwWalk s'.mem cr3 virt).isSome := by
    rw [hwalk, Option.isSome_map]
    exact flatPages_isSome (.inr ⟨x, hx, hpage⟩)
  obtain ⟨t', ht'⟩ := Option.isSome_iff_exists.mp hsome
  obtain ⟨hw, hu, hphys⟩ := hfound virt t' ht'
  rw [ht', ← hphys t ht, ← hw, ← hu]

end

/-- Tables of a loader with large pages: the first GiB in the direct map, and the second at the
kernel. -/
def sampleBoot : Vmm FrameList :=
  ⟨storeAll (fun _ => 0) [(0x1800, [0x03, 0x20]), (0x1ff8, [0x03, 0x30]), (0x2000, [0x83]),
      (0x3ff0, [0x83, 0, 0, 0x40])],
    ⟨[0x10000, 0x11000, 0x12000, 0x13000, 0x14000, 0x15000, 0x16000, 0x17000, 0x18000],
      by decide, by decide⟩, none, 0⟩

def sampleBootInfo : BootInfo :=
  ⟨some [⟨0x40000000, 0x1000, 6⟩], some (0x40000000, 0xffffffff80000000), none, 0x1000,
    0xffff800000100000⟩

theorem sampleBoot_limine : LimineBoot sampleBoot sampleBootInfo 0xffff800000000000 := by
  have hstack : stackPages sampleBootInfo.rsp =
      some (pagesBetween 0xffff8000000f0000 0xffff800000103000) := by decide +kernel
  have hpages : framebufferPages sampleBootInfo ++ (stackPages sampleBootInfo.rsp).getD [] =
      pagesBetween 0xffff8000000f0000 0xffff800000103000 := by rw [hstack]; rfl
  have htables : ∀ virt ∈ pagesBetween 0xffff8000000f0000 0xffff800000103000,
      ∀ table ∈ walkTables sampleBoot.mem 0x1000 virt, table ∉ sampleBoot.pmm.frames := by
    decide +kernel
  have hlarge : ∀ virt ∈ pagesBetween 0xffff8000000f0000 0xffff800000103000,
      LargeAligned sampleBoot.mem 0x1000 virt := by
    unfold LargeAligned
    decide +kernel
  have hframe : ∀ virt ∈ pagesBetween 0xffff8000000f0000 0xffff800000103000,
      (hwWalk sampleBoot.mem 0x1000 virt).map (·.phys) ≠ some 0 := by decide +kernel
  have hdirect : ∀ phys ∈ MemmapEntry.pages ⟨0x40000000, 0x1000, 6⟩,
      hwWalk sampleBoot.mem 0x1000 (phys + 0xffff800000000000) = none := by decide +kernel
  have hkernel : ∀ offset ∈ pagesBetween 0 0x1000,
      (hwWalk sampleBoot.mem 0x1000 (0xffffffff80000000 + offset)).map (·.phys) =
        some (0x40000000 + offset) := by decide +kernel
  constructor
  · rfl
  · rw [hpages]
    exact htables
  · rw [hpages]
    exact hlarge
  · rw [hpages]
    intro virt hvirt t ht hzero
    exact hframe virt hvirt
      (by rw [show hwWalk sampleBoot.mem 0x1000 virt = some t from ht, ← hzero]; rfl)
  · rintro memmap hmemmap e he phys hphys t ht
    obtain rfl := Option.some.inj hmemmap
    obtain rfl := List.mem_singleton.mp he
    cases (hdirect phys hphys).symm.trans ht
  · rintro memmap kernel hmemmap hker offset hoffset t ht
    obtain rfl := Option.some.inj hmemmap
    obtain rfl := Option.some.inj hker
    have hsize : kernelSize [⟨0x40000000, 0x1000, 6⟩] = 0x1000 := by decide
    rw [hsize] at hoffset
    have heq := hkernel offset hoffset
    rw [show hwWalk sampleBoot.mem 0x1000 (0xffffffff80000000 + offset) = some t from ht] at heq
    exact Option.some.inj heq

theorem paging_switch_sample :
    ∃ s' cr3, vmmInit sampleBoot sampleBootInfo 0xffff800000000000 = some (s', cr3) ∧
      hwWalk s'.mem cr3 0xffff800000100008 = some ⟨0x100008, true, false⟩ ∧
        hwWalk s'.mem cr3 0xffffffff80000010 = some ⟨0x40000010, true, false⟩ := by
  have hrun : (vmmInit sampleBoot sampleBootInfo 0xffff800000000000).isSome := by decide +kernel
  obtain ⟨⟨s', cr3⟩, h⟩ := Option.isSome_iff_exists.mp hrun
  obtain ⟨hkept, -, -⟩ := paging_switch sampleBoot_limine h
  have hstack : InUse sampleBootInfo 0xffff800000000000 0xffff800000100008 := by
    apply InUse.stack <;> decide +kernel
  have hkernel : InUse sampleBootInfo 0xffff800000000000 0xffffffff80000010 :=
    @InUse.kernel _ _ _ (0x40000000, 0xffffffff80000000) 0x10 rfl rfl (by decide)
      (by decide +kernel)
  refine ⟨s', cr3, h, hkept _ ⟨0x100008, true, false⟩ hstack ?_,
    hkept _ ⟨0x40000010, true, false⟩ hkernel ?_⟩
  · decide +kernel
  · decide +kernel

end StyxOS
