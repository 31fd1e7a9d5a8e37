import StyxOS.Vmm.Tables

/-! # Page tables refine a flat map

A run of `vmm_map_page` and `vmm_unmap_page` on one PML4 is matched by updates
of a map from pages to frames and flags. The walk of the processor reads that
map, although the tables are shared between pages and their user bits only
accumulate. `vmm_virt_to_phys` reads it outside the window of the direct map,
which it answers by arithmetic.
-/

namespace StyxOS

open ByteMem FrameAllocator

/-! ## The walks -/

theorem entryAt_tables (mem : Mem) (e : ℕ) (i : Fin 512) :
    entryAt mem (pteAddr e) i = tables mem (pteAddr e / 4096) i := by
  rw [tables, mul_pteAddr_div]

/-- `vmm_unmap_page` clears the entry at the end of the walk, if the walk gets there. -/
theorem vmmUnmapPage_eq {σ : Type} {s : Vmm σ} {r virt : ℕ}
    (hpml4 : s.currentPml4 = some (4096 * r)) :
    vmmUnmapPage s virt =
      match Radix.reach tableReading (tables s.mem) r (pathOf virt) with
      | none => s
      | some x => { s with mem := setEntry s.mem (4096 * x.1) x.2 0 } := by
  have hnext : ∀ e, ptePresent e = true → tableReading.next e = some (pteAddr e / 4096) :=
    fun e he => tableReading_next he
  have hstop : ∀ e, ptePresent e = false → tableReading.next e = none :=
    fun e he => tableReading_next_eq_none.mpr he
  simp only [vmmUnmapPage, hpml4, entryAt_tables, pathOf, Radix.reach]
  rw [← tables]
  cases h₄ : ptePresent (tables s.mem r (pml4Index virt)) with
  | false => simp [hstop _ h₄]
  | true =>
    simp only [hnext _ h₄, Option.bind_some]
    generalize pteAddr (tables s.mem r (pml4Index virt)) / 4096 = n₃
    cases h₃ : ptePresent (tables s.mem n₃ (pdptIndex virt)) with
    | false => simp [hstop _ h₃]
    | true =>
      simp only [hnext _ h₃, Option.bind_some]
      generalize pteAddr (tables s.mem n₃ (pdptIndex virt)) / 4096 = n₂
      cases h₂ : ptePresent (tables s.mem n₂ (pdIndex virt)) with
      | false => simp [hstop _ h₂]
      | true => simp [hnext _ h₂, mul_pteAddr_div]

section

variable {σ : Type} [FrameAllocator σ] {roots : Set ℕ} {place : ℕ → Option Position}
  {s s' : Vmm σ} {r virt : ℕ}

/-- Clearing an entry keeps the invariant, and ends one translation. -/
theorem TablesOk.vmmUnmapPage (h : TablesOk roots place s.mem s.pmm) (virt : ℕ) (hr : r ∈ roots)
    (hpml4 : s.currentPml4 = some (4096 * r)) :
    TablesOk roots place (vmmUnmapPage s virt).mem (vmmUnmapPage s virt).pmm ∧
      (vmmUnmapPage s virt).currentPml4 = s.currentPml4 ∧
      (vmmUnmapPage s virt).hhdmOff = s.hhdmOff ∧
      findPage (vmmUnmapPage s virt).mem r (pathOf virt) = none ∧
      ∀ path, path.length = 4 → path ≠ pathOf virt →
        findPage (vmmUnmapPage s virt).mem r path = findPage s.mem r path := by
  have hroot := h.root r hr
  have hfull : tableShape.Full (.space r, []) (pathOf virt) := full_of_length (.space r) rfl
  rw [vmmUnmapPage_eq hpml4]
  cases hreach : Radix.reach tableReading (tables s.mem) r (pathOf virt) with
  | none => exact ⟨h, rfl, rfl, by rw [findPage, Radix.find, hreach]; rfl, fun _ _ _ => rfl⟩
  | some x =>
    obtain ⟨n, i⟩ := x
    obtain ⟨q, hq, hslot⟩ := h.placed.slot_of_reach hroot hfull hreach
    have hlast : ¬tableShape.Inner q := by
      rw [pathOf, slot_of_four] at hslot
      obtain ⟨rfl, -⟩ := Prod.mk.inj (Option.some.inj hslot)
      simp [Radix.Shape.Inner, tableShape, Position.length_child]
    have hput := tables_setEntry s.mem n i (show 0 < 2 ^ 64 by norm_num)
    refine ⟨h.setLeaf hq hlast (by norm_num) fun _ _ _ _ _ hu => ?_, rfl, rfl, ?_, ?_⟩
    · cases hu
    · rw [findPage, hput, Radix.find_put_of_reach hq hlast h.placed hroot hfull hreach]
      rfl
    · intro path hlen hne
      rw [findPage, hput, Radix.find_put_of_slot_ne hq hlast h.placed hroot
        (full_of_length (.space r) hlen)]
      · rfl
      · intro hc
        exact hne (slot_root_inj hlen rfl (hc.trans hslot.symm)).1

theorem TablesOk.vmmUnmapPage_root (h : TablesOk roots place s.mem s.pmm) (virt : ℕ)
    (hr : r ∈ roots) (hpml4 : s.currentPml4 = some (4096 * r)) {k : ℕ} {p : Position}
    (hk : place k = some p) (hp : p.2 = []) (j : Fin 512) :
    tables (StyxOS.vmmUnmapPage s virt).mem k j = tables s.mem k j := by
  have hroot := h.root r hr
  have hfull : tableShape.Full (.space r, []) (pathOf virt) := full_of_length (.space r) rfl
  rw [vmmUnmapPage_eq hpml4]
  cases hreach : Radix.reach tableReading (tables s.mem) r (pathOf virt) with
  | none => rfl
  | some x =>
    obtain ⟨n, i⟩ := x
    obtain ⟨q, hq, hslot⟩ := h.placed.slot_of_reach hroot hfull hreach
    have hkn : k ≠ n := by
      rintro rfl
      rw [hk] at hq
      obtain rfl := Option.some.inj hq
      rw [pathOf, slot_of_four] at hslot
      obtain ⟨rfl, -⟩ := Prod.mk.inj (Option.some.inj hslot)
      have hlen := congrArg List.length hp
      simp [Position.length_child] at hlen
    dsimp only
    rw [tables_setEntry s.mem n i (show 0 < 2 ^ 64 by norm_num), Radix.put_of_ne (.inl hkn)]

/-- The walk of the processor ends at the entry that the tables hold for the address, and allows
what that entry allows. -/
theorem TablesOk.hwWalk_eq (h : TablesOk roots place s.mem s.pmm) (hr : r ∈ roots) :
    hwWalk s.mem (4096 * r) virt = (findPage s.mem r (pathOf virt)).map fun e =>
      ⟨pteAddr e + virt % 4096, pteWritable e, pteUser e⟩ := by
  have hp₄ := h.root r hr
  have hin₄ : tableShape.Inner (.space r, []) := by simp [Radix.Shape.Inner, tableShape]
  have hnext : ∀ e, ptePresent e = true → tableReading.next e = some (pteAddr e / 4096) :=
    fun e he => tableReading_next he
  have hstop : ∀ e, ptePresent e = false → tableReading.next e = none :=
    fun e he => tableReading_next_eq_none.mpr he
  have huser := h.user r hr (pathOf virt)
  simp only [findPage, pathOf, Radix.find_cons, Radix.find_singleton, Radix.parents] at huser ⊢
  simp only [hwWalk, entryAt_tables]
  rw [← tables]
  cases h₄ : ptePresent (tables s.mem r (pml4Index virt)) with
  | false => simp [hstop _ h₄]
  | true =>
    obtain ⟨hw₄, hl₄⟩ := h.inner r _ _ hp₄ hin₄ h₄
    have hp₃ := h.placed r _ _ _ hp₄ hin₄ (hnext _ h₄)
    simp only [hnext _ h₄, Option.bind_some, Option.elim_some] at huser ⊢
    generalize hn₃ : pteAddr (tables s.mem r (pml4Index virt)) / 4096 = n₃ at *
    have hin₃ : tableShape.Inner (tableShape.child (.space r, []) (pml4Index virt)) := by
      simp [Radix.Shape.Inner, tableShape, Position.length_child]
    cases h₃ : ptePresent (tables s.mem n₃ (pdptIndex virt)) with
    | false => simp [hstop _ h₃, hl₄]
    | true =>
      obtain ⟨hw₃, hl₃⟩ := h.inner n₃ _ _ hp₃ hin₃ h₃
      have hp₂ := h.placed n₃ _ _ _ hp₃ hin₃ (hnext _ h₃)
      simp only [hnext _ h₃, Option.bind_some, Option.elim_some] at huser ⊢
      generalize hn₂ : pteAddr (tables s.mem n₃ (pdptIndex virt)) / 4096 = n₂ at *
      have hin₂ : tableShape.Inner
          (tableShape.child (tableShape.child (.space r, []) (pml4Index virt))
            (pdptIndex virt)) := by
        simp [Radix.Shape.Inner, tableShape, Position.length_child]
      cases h₂ : ptePresent (tables s.mem n₂ (pdIndex virt)) with
      | false => simp [hstop _ h₂, hl₄, hl₃]
      | true =>
        obtain ⟨hw₂, hl₂⟩ := h.inner n₂ _ _ hp₂ hin₂ h₂
        simp only [hnext _ h₂, Option.bind_some, Option.elim_some] at huser ⊢
        generalize hn₁ : pteAddr (tables s.mem n₂ (pdIndex virt)) / 4096 = n₁ at *
        cases h₁ : ptePresent (tables s.mem n₁ (ptIndex virt)) with
        | false => simp [hl₄, hl₃, hl₂, tableReading, h₁]
        | true =>
          have hfound : tableReading.present (tables s.mem n₁ (ptIndex virt)) = true := h₁
          have hopen := huser _ rfl (by rw [hfound]; rfl)
          have hall : pteUser (tables s.mem n₁ (ptIndex virt)) = true →
              pteUser (tables s.mem n₂ (pdIndex virt)) = true ∧
              pteUser (tables s.mem n₃ (pdptIndex virt)) = true ∧
              pteUser (tables s.mem r (pml4Index virt)) = true := fun hu =>
            ⟨hopen hu _ (by simp), hopen hu _ (by simp), hopen hu _ (by simp)⟩
          have hframe : pteAddr (tables s.mem n₁ (ptIndex virt)) / 2 ^ 12 * 2 ^ 12 =
              pteAddr (tables s.mem n₁ (ptIndex virt)) := by
            rw [pteAddr_eq]
            omega
          simp only [hl₄, hl₃, hl₂, hfound, translate, hframe, List.all_cons, List.all_nil, hw₄,
            hw₃, hw₂, Bool.and_true, Bool.or_false, Bool.false_eq_true, Bool.true_eq_false,
            if_false, if_true, Option.map_some, decide_false]
          cases hu : pteUser (tables s.mem n₁ (ptIndex virt)) with
          | false => simp
          | true =>
            obtain ⟨hu₂, hu₃, hu₄⟩ := hall hu
            simp [hu₂, hu₃, hu₄]

end

/-! ## The flat map -/

/-- The page of an address, among those that four levels tell apart. -/
def pageOf (virt : ℕ) : ℕ := virt / 4096 % 2 ^ 36

/-- The address is a sign extension of its low 48 bits. -/
def Canonical (virt : ℕ) : Prop := virt < 2 ^ 47 ∨ 2 ^ 64 - 2 ^ 47 ≤ virt ∧ virt < 2 ^ 64

theorem pageOf_eq_iff {v w : ℕ} (hv : Canonical v) (hw : Canonical w) :
    pageOf v = pageOf w ↔ v / 4096 = w / 4096 := by
  unfold Canonical at hv hw
  unfold pageOf
  omega

theorem pathOf_eq_iff {v w : ℕ} : pathOf v = pathOf w ↔ pageOf v = pageOf w := by
  simp only [pathOf, pml4Index, pdptIndex, pdIndex, ptIndex, List.cons.injEq, Fin.ext_iff,
    Fin.val_ofNat, Nat.shiftRight_eq_div_pow, and_true, pageOf]
  omega

/-- An operation on the mappings of a PML4. -/
inductive PageOp
  | map (virt phys flags : ℕ)
  | unmap (virt : ℕ)

namespace PageOp

/-- The operation as the kernel performs it; a map without memory halts. -/
def apply {σ : Type} [FrameAllocator σ] (s : Vmm σ) : PageOp → Option (Vmm σ)
  | map virt phys flags => vmmMapPage s virt phys flags
  | unmap virt => some (vmmUnmapPage s virt)

/-- A map is of a page frame below `2 ^ 52`, with `PTE_PRESENT` and no flag but `PTE_WRITABLE` and
`PTE_USER` besides. -/
def Ok : PageOp → Prop
  | map _ phys flags => (phys % 4096 = 0 ∧ phys < 2 ^ 52) ∧ flags.testBit 0 = true ∧ flags < 8
  | unmap _ => True

/-- The operation on a map from pages to frames and flags. -/
def update (m : ℕ → Option (ℕ × ℕ)) : PageOp → ℕ → Option (ℕ × ℕ)
  | map virt phys flags => Function.update m (pageOf virt) (some (phys, flags))
  | unmap virt => Function.update m (pageOf virt) none

end PageOp

/-- A run of operations. -/
def runPageOps {σ : Type} [FrameAllocator σ] (s : Vmm σ) (ops : List PageOp) : Option (Vmm σ) :=
  ops.foldlM PageOp.apply s

/-- The flat map after a run of operations from an empty one. -/
def flatMap (ops : List PageOp) : ℕ → Option (ℕ × ℕ) := ops.foldl PageOp.update fun _ => none

/-- What a frame and its flags translate an address of the page to. -/
def flatTranslate (virt : ℕ) (x : ℕ × ℕ) : Translation :=
  ⟨x.1 + virt % 4096, x.2.testBit 1, x.2.testBit 2⟩

section

variable {σ : Type} [FrameAllocator σ] {roots : Set ℕ} {place : ℕ → Option Position}
  {s s' : Vmm σ} {r virt : ℕ} {m : ℕ → Option (ℕ × ℕ)} {op : PageOp} {ops : List PageOp}

/-- The tables of one address space hold the entries of a flat map. -/
structure FlatRep (r : ℕ) (s : Vmm σ) (m : ℕ → Option (ℕ × ℕ)) : Prop where
  tables : ∃ place, TablesOk {r} place s.mem s.pmm
  currentPml4 : s.currentPml4 = some (4096 * r)
  frame : ∀ page x, m page = some x →
    (x.1 % 4096 = 0 ∧ x.1 < 2 ^ 52) ∧ x.2.testBit 0 = true ∧ x.2 < 8
  find : ∀ virt, findPage s.mem r (pathOf virt) =
    (m (pageOf virt)).map fun x => leafEntry x.1 x.2

theorem tablesOk_zeroed {mem : Mem} {pmm : σ} (hfree : ¬Avail pmm (4096 * r))
    (hzero : ∀ a, 4096 * r ≤ a → a < 4096 * r + 4096 → mem a = 0) :
    TablesOk {r} (fun n => if n = r then some (.space r, []) else none) mem pmm ∧
      Radix.Blank tableReading (StyxOS.tables mem) r := by
  have hentry : ∀ i, StyxOS.tables mem r i = 0 := by
    intro i
    have hi := i.isLt
    have hload : load mem (4096 * r + 8 * i) 8 = List.replicate 8 0 := by
      refine List.eq_replicate_iff.mpr ⟨length_load, fun b hb => ?_⟩
      obtain ⟨j, hj, rfl⟩ := List.mem_map.mp hb
      have := List.mem_range.mp hj
      exact hzero _ (by omega) (by omega)
    rw [StyxOS.tables, entryAt, loadLE, hload]
    rfl
  have hblank : Radix.Blank tableReading (StyxOS.tables mem) r := by
    intro i
    rw [hentry i]
    exact ⟨rfl, rfl⟩
  have hplace : ∀ n p, (if n = r then some (Region.space r, []) else none) = some p →
      n = r ∧ p = ((.space r, []) : Position) := by
    intro n p hn
    by_cases h : n = r
    · rw [if_pos h] at hn
      exact ⟨h, (Option.some.inj hn).symm⟩
    · rw [if_neg h] at hn; cases hn
  refine ⟨⟨?_, ?_, ?_, ?_, ?_⟩, hblank⟩
  · intro n p i k hn _ hk
    obtain ⟨rfl, -⟩ := hplace n p hn
    rw [hentry] at hk
    cases hk
  · rintro n rfl
    exact if_pos rfl
  · intro n p hn
    obtain ⟨rfl, -⟩ := hplace n p hn
    exact hfree
  · intro n p i hn _ hpres
    obtain ⟨rfl, -⟩ := hplace n p hn
    rw [hentry] at hpres
    cases hpres
  · rintro n rfl path e _ hfind
    rw [findPage, hblank.find] at hfind
    cases hfind

theorem flatRep_empty (hpml4 : s.currentPml4 = some (4096 * r)) (hfree : ¬Avail s.pmm (4096 * r))
    (hzero : ∀ a, 4096 * r ≤ a → a < 4096 * r + 4096 → s.mem a = 0) :
    FlatRep r s fun _ => none := by
  obtain ⟨hok, hblank⟩ := tablesOk_zeroed hfree hzero
  exact ⟨⟨_, hok⟩, hpml4, fun _ _ h => (Option.some_ne_none _ h.symm).elim, fun v => hblank.find⟩

theorem FlatRep.apply (h : FlatRep r s m) (hop : op.Ok) (hs : op.apply s = some s') :
    FlatRep r s' (op.update m) := by
  obtain ⟨place, hok⟩ := h.tables
  cases op with
  | map virt phys flags =>
    obtain ⟨hframe, hpres, hlt⟩ := hop
    obtain ⟨place', hok', hmaps⟩ :=
      hok.vmmMapPage rfl h.currentPml4 (by omega) (fun _ => .inr subset_rfl) hs
    refine ⟨⟨place', hok'⟩, by rw [hmaps.currentPml4, h.currentPml4], ?_, fun v => ?_⟩
    · intro page x hx
      by_cases hpage : page = pageOf virt
      · rw [PageOp.update, hpage, Function.update_self] at hx
        obtain rfl := Option.some.inj hx
        exact ⟨hframe, hpres, hlt⟩
      · rw [PageOp.update, Function.update_of_ne hpage] at hx
        exact h.frame page x hx
    · by_cases hpage : pageOf v = pageOf virt
      · have hpresent : ptePresent (leafEntry phys flags) = true := by
          rw [ptePresent, leafEntry, testBit_pteAddr_or (by norm_num), hpres]
        rw [PageOp.update, hpage, Function.update_self, pathOf_eq_iff.mpr hpage, hmaps.here,
          if_pos hpresent, Option.map_some]
      · rw [PageOp.update, Function.update_of_ne hpage, ← h.find]
        refine hmaps.other r _ _ (hok.root r rfl) (full_of_length (.space r) rfl) fun hc => hpage ?_
        exact pathOf_eq_iff.mp (slot_root_inj rfl rfl hc).1
  | unmap virt =>
    obtain rfl := Option.some.inj hs
    obtain ⟨hok', hpml4, -, hfind, hother⟩ :=
      hok.vmmUnmapPage virt rfl h.currentPml4
    refine ⟨⟨place, hok'⟩, by rw [hpml4, h.currentPml4], ?_, fun v => ?_⟩
    · intro page x hx
      by_cases hpage : page = pageOf virt
      · rw [PageOp.update, hpage, Function.update_self] at hx
        cases hx
      · rw [PageOp.update, Function.update_of_ne hpage] at hx
        exact h.frame page x hx
    · by_cases hpage : pageOf v = pageOf virt
      · rw [PageOp.update, hpage, Function.update_self, pathOf_eq_iff.mpr hpage, hfind,
          Option.map_none]
      · rw [PageOp.update, Function.update_of_ne hpage, ← h.find]
        exact hother _ rfl fun hc => hpage (pathOf_eq_iff.mp hc)

theorem FlatRep.run (h : FlatRep r s m) (hops : ∀ op ∈ ops, op.Ok)
    (hs : runPageOps s ops = some s') : FlatRep r s' (ops.foldl PageOp.update m) := by
  induction ops generalizing s m with
  | nil =>
    obtain rfl := Option.some.inj hs
    exact h
  | cons op ops ih =>
    rw [runPageOps, List.foldlM_cons] at hs
    obtain ⟨s₁, hs₁, hrun⟩ := Option.bind_eq_some_iff.mp hs
    obtain ⟨hop, hrest⟩ := List.forall_mem_cons.mp hops
    exact ih (h.apply hop hs₁) hrest hrun

theorem vmmMapPage_hhdmOff {phys flags : ℕ} (hs : vmmMapPage s virt phys flags = some s') :
    s'.hhdmOff = s.hhdmOff := by
  have hnext : ∀ {s s' : Vmm σ} {table t : ℕ} {i : Fin 512},
      nextTable s table i flags = some (t, s') → s'.hhdmOff = s.hhdmOff := by
    intro s s' table t i hs
    unfold nextTable at hs
    split_ifs at hs
    · cases halloc : allocFrame s.pmm with
      | none => rw [halloc] at hs; cases hs
      | some x =>
        rw [halloc] at hs
        rw [← (Prod.mk.inj (Option.some.inj hs)).2]
    · rw [← (Prod.mk.inj (Option.some.inj hs)).2]
  unfold vmmMapPage at hs
  cases hpml4 : s.currentPml4 with
  | none =>
    rw [hpml4] at hs
    rw [← Option.some.inj hs]
  | some pml4 =>
    simp only [hpml4, Option.bind_eq_bind, Option.bind_eq_some_iff, Prod.exists,
      Option.some.injEq] at hs
    obtain ⟨t₃, s₁, h₄, t₂, s₂, h₃, t₁, s₃, h₂, rfl⟩ := hs
    exact (hnext h₂).trans ((hnext h₃).trans (hnext h₄))

theorem runPageOps_hhdmOff (hs : runPageOps s ops = some s') : s'.hhdmOff = s.hhdmOff := by
  induction ops generalizing s with
  | nil => rw [← Option.some.inj hs]
  | cons op ops ih =>
    rw [runPageOps, List.foldlM_cons] at hs
    obtain ⟨s₁, hs₁, hrun⟩ := Option.bind_eq_some_iff.mp hs
    rw [ih hrun]
    cases op with
    | map virt phys flags => exact vmmMapPage_hhdmOff hs₁
    | unmap virt =>
      rw [← Option.some.inj hs₁]
      unfold vmmUnmapPage
      cases hpml4 : s.currentPml4 with
      | none => rfl
      | some pml4 => dsimp only; split_ifs <;> rfl

theorem FlatRep.hwWalk_eq (h : FlatRep r s m) :
    hwWalk s.mem (4096 * r) virt = (m (pageOf virt)).map (flatTranslate virt) := by
  obtain ⟨place, hok⟩ := h.tables
  rw [hok.hwWalk_eq rfl, h.find, Option.map_map]
  cases hm : m (pageOf virt) with
  | none => rfl
  | some x =>
    obtain ⟨⟨hal, hlt⟩, -, hflags⟩ := h.frame _ x hm
    have haddr : pteAddr (leafEntry x.1 x.2) = x.1 := by
      rw [leafEntry, pteAddr_or (by omega), pteAddr_of_frame (pteAddr_mod _) (pteAddr_lt _),
        pteAddr_of_frame hal hlt]
    have hw : pteWritable (leafEntry x.1 x.2) = x.2.testBit 1 := testBit_pteAddr_or (by norm_num)
    have hu : pteUser (leafEntry x.1 x.2) = x.2.testBit 2 := testBit_pteAddr_or (by norm_num)
    simp only [Option.map_some, Function.comp_apply, haddr, hw, hu, flatTranslate]

end

/-! ## Runs that go through -/

/-- The allocator gives out that many frames, one after the other. -/
def Supplies {σ : Type} [FrameAllocator σ] : ℕ → σ → Prop
  | 0, _ => True
  | n + 1, p => ∃ f p', allocFrame p = some (f, p') ∧ Supplies n p'

section

variable {σ : Type} [FrameAllocator σ] {s : Vmm σ} {n : ℕ}

theorem Supplies.of_succ {p : σ} (h : Supplies (n + 1) p) : Supplies n p := by
  induction n generalizing p with
  | zero => trivial
  | succ n ih =>
    obtain ⟨f, p', halloc, hp'⟩ := h
    exact ⟨f, p', halloc, ih hp'⟩

theorem nextTable_of_supplies (h : Supplies (n + 1) s.pmm) (table : ℕ) (i : Fin 512) (flags : ℕ) :
    ∃ t s', nextTable s table i flags = some (t, s') ∧ Supplies n s'.pmm := by
  unfold nextTable
  split_ifs
  · obtain ⟨f, p', halloc, hp'⟩ := h
    rw [halloc]
    exact ⟨_, _, rfl, hp'⟩
  · exact ⟨_, _, rfl, h.of_succ⟩

theorem vmmMapPage_of_supplies (h : Supplies (n + 3) s.pmm) (virt phys flags : ℕ) :
    ∃ s', vmmMapPage s virt phys flags = some s' ∧ Supplies n s'.pmm := by
  unfold vmmMapPage
  cases s.currentPml4 with
  | none => exact ⟨s, rfl, h.of_succ.of_succ.of_succ⟩
  | some pml4 =>
    obtain ⟨t₃, s₁, h₄, hs₁⟩ := nextTable_of_supplies h pml4 (pml4Index virt) flags
    obtain ⟨t₂, s₂, h₃, hs₂⟩ := nextTable_of_supplies hs₁ t₃ (pdptIndex virt) flags
    obtain ⟨t₁, s₃, h₂, hs₃⟩ := nextTable_of_supplies hs₂ t₂ (pdIndex virt) flags
    simp only [h₄, h₃, h₂, Option.bind_eq_bind, Option.bind_some]
    exact ⟨_, rfl, hs₃⟩

theorem PageOp.apply_of_supplies (h : Supplies (n + 3) s.pmm) (op : PageOp) :
    ∃ s', op.apply s = some s' ∧ Supplies n s'.pmm := by
  cases op with
  | map virt phys flags => exact vmmMapPage_of_supplies h virt phys flags
  | unmap virt =>
    refine ⟨_, rfl, ?_⟩
    have hpmm : (vmmUnmapPage s virt).pmm = s.pmm := by
      unfold vmmUnmapPage
      cases s.currentPml4 with
      | none => rfl
      | some pml4 => dsimp only; split_ifs <;> rfl
    rw [hpmm]
    exact h.of_succ.of_succ.of_succ

theorem runPageOps_of_supplies {ops : List PageOp} (h : Supplies (3 * ops.length) s.pmm) :
    ∃ s', runPageOps s ops = some s' := by
  induction ops generalizing s with
  | nil => exact ⟨s, rfl⟩
  | cons op ops ih =>
    obtain ⟨s₁, hs₁, hsup⟩ := op.apply_of_supplies (n := 3 * ops.length) h
    obtain ⟨s', hrun⟩ := ih hsup
    refine ⟨s', ?_⟩
    rw [runPageOps, List.foldlM_cons, hs₁]
    exact hrun

end

/-- Any run of maps and unmaps on a zeroed PML4 goes through with the frames it needs. After it,
the walk of the processor finds for each canonical address what the last operation on its page
says. -/
theorem page_tables_refine {σ : Type} [FrameAllocator σ] {s : Vmm σ} {pml4 : ℕ}
    {ops : List PageOp} (hpml4 : s.currentPml4 = some pml4) (haligned : pml4 % 4096 = 0)
    (hfree : ¬Avail s.pmm pml4) (hzero : ∀ a, pml4 ≤ a → a < pml4 + 4096 → s.mem a = 0)
    (hops : ∀ op ∈ ops, op.Ok) :
    (Supplies (3 * ops.length) s.pmm → ∃ s', runPageOps s ops = some s') ∧
      ∀ s', runPageOps s ops = some s' → ∀ virt, Canonical virt →
        hwWalk s'.mem pml4 virt = (flatMap ops (pageOf virt)).map (flatTranslate virt) := by
  obtain ⟨r, rfl⟩ := Nat.dvd_of_mod_eq_zero haligned
  refine ⟨runPageOps_of_supplies, fun s' hrun virt _ => ?_⟩
  exact ((flatRep_empty hpml4 hfree hzero).run hops hrun).hwWalk_eq

/-- An empty PML4 at `0x1000`, and six frames for the tables under it. -/
def sampleVmm : Vmm FrameList where
  mem := fun _ => 0
  pmm := ⟨[0x2000, 0x3000, 0x4000, 0x7000, 0x8000, 0x9000], by decide, by decide⟩
  currentPml4 := some 0x1000
  hhdmOff := 0xffff800000000000

theorem sampleVmm_unavailable : ¬Avail sampleVmm.pmm 0x1000 := by
  have h : 0x1000 ∉ [0x2000, 0x3000, 0x4000, 0x7000, 0x8000, 0x9000] := by decide
  exact h

/-- The stack page of a task and a page beside it, the one opened to user code and the other not. -/
theorem page_tables_refine_sample :
    ∃ s', runPageOps sampleVmm [.map 0x3ff000 0x5000 7, .map 0x3fe000 0x6000 3] = some s' ∧
      hwWalk s'.mem 0x1000 0x3fe123 = some ⟨0x6123, true, false⟩ := by
  have hops : ∀ op ∈ [PageOp.map 0x3ff000 0x5000 7, .map 0x3fe000 0x6000 3], op.Ok := by
    simp [PageOp.Ok]
  obtain ⟨hgoes, hwalk⟩ := page_tables_refine (s := sampleVmm) rfl (by norm_num)
    sampleVmm_unavailable (fun _ _ _ => rfl) hops
  have hsupplies : Supplies (3 * 2) sampleVmm.pmm :=
    ⟨_, _, rfl, _, _, rfl, _, _, rfl, _, _, rfl, _, _, rfl, _, _, rfl, trivial⟩
  obtain ⟨s', hs'⟩ := hgoes hsupplies
  refine ⟨s', hs', ?_⟩
  rw [hwalk s' hs' 0x3fe123 (.inl (by norm_num))]
  decide

end StyxOS
