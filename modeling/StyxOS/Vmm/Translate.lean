import StyxOS.Heap.Basic
import StyxOS.Vmm.Refine

/-! # Translation for devices

`vmm_virt_to_phys` answers for a window above the direct map by arithmetic and
walks the tables elsewhere. The window covers the heap when the direct map is
at the bottom of the upper half.
-/

namespace StyxOS

open ByteMem FrameAllocator

/-- The window that `vmm_virt_to_phys` takes for the direct map. -/
def InWindow (hhdmOff virt : ℕ) : Prop :=
  hhdmOff ≤ virt ∧ virt < (hhdmOff + 0x1000000000) % 2 ^ 64

instance (hhdmOff virt : ℕ) : Decidable (InWindow hhdmOff virt) :=
  inferInstanceAs (Decidable (_ ∧ _))

theorem word_pageTables {σ : Type} {s : Vmm σ} {table i : ℕ} :
    s.pageTables.word (table + s.hhdmOff) (i &&& 0x1FF) =
      entryAt s.mem table (Fin.ofNat 512 i) := by
  have hi : Fin.ofNat 512 (i &&& 0x1FF) = Fin.ofNat 512 i := by
    apply Fin.ext
    simp [PageTables.mod_index]
  have ht : table + s.hhdmOff - s.hhdmOff = table := Nat.add_sub_cancel _ _
  rw [Vmm.pageTables]
  dsimp only
  rw [hi, ht]

theorem vmmVirtToPhys_of_inWindow {σ : Type} {s : Vmm σ} {virt : ℕ}
    (h : InWindow s.hhdmOff virt) : vmmVirtToPhys s virt = virt - s.hhdmOff := by
  unfold vmmVirtToPhys
  cases s.currentPml4 with
  | none => exact if_pos h
  | some pml4 => exact if_pos h

section

variable {σ : Type} [FrameAllocator σ] {s s' : Vmm σ} {roots : Set ℕ} {place : ℕ → Option Position}
  {r virt e phys flags : ℕ} {m : ℕ → Option (ℕ × ℕ)}

theorem TablesOk.vmmVirtToPhys_eq (h : TablesOk roots place s.mem s.pmm) (hr : r ∈ roots)
    (hpml4 : s.currentPml4 = some (4096 * r)) (hout : ¬InWindow s.hhdmOff virt)
    (hfind : findPage s.mem r (pathOf virt) = some e) :
    vmmVirtToPhys s virt = pteAddr e + virt % 4096 := by
  have hmod : virt &&& 0xFFF = virt % 4096 := Nat.and_two_pow_sub_one_eq_mod virt 12
  have hp₄ := h.root r hr
  have hin₄ : tableShape.Inner (.space r, []) := by simp [Radix.Shape.Inner, tableShape]
  have hin₃ : tableShape.Inner (tableShape.child (.space r, []) (pml4Index virt)) := by
    simp [Radix.Shape.Inner, tableShape, Position.length_child]
  have hin₂ : tableShape.Inner
      (tableShape.child (tableShape.child (.space r, []) (pml4Index virt)) (pdptIndex virt)) := by
    simp [Radix.Shape.Inner, tableShape, Position.length_child]
  simp only [findPage, pathOf, Radix.find_cons, Radix.find_singleton, Option.bind_eq_some_iff,
    Option.ite_none_right_eq_some, Option.some.injEq] at hfind
  obtain ⟨n₃, hx₄, n₂, hx₃, n₁, hx₂, h₁, rfl⟩ := hfind
  have hp₃ := h.placed r _ _ _ hp₄ hin₄ hx₄
  have hp₂ := h.placed n₃ _ _ _ hp₃ hin₃ hx₃
  obtain ⟨h₄, heq₄⟩ := Option.ite_none_right_eq_some.mp hx₄
  obtain ⟨h₃, heq₃⟩ := Option.ite_none_right_eq_some.mp hx₃
  obtain ⟨h₂, heq₂⟩ := Option.ite_none_right_eq_some.mp hx₂
  have hl₃ := (h.inner n₃ _ _ hp₃ hin₃ h₃).2
  have hl₂ := (h.inner n₂ _ _ hp₂ hin₂ h₂).2
  obtain rfl := Option.some.inj heq₄
  obtain rfl := Option.some.inj heq₃
  obtain rfl := Option.some.inj heq₂
  have hlast : ptePresent (tables s.mem (pteAddr (tables s.mem (pteAddr (tables s.mem
      (pteAddr (tables s.mem r (pml4Index virt)) / 4096) (pdptIndex virt)) / 4096)
        (pdIndex virt)) / 4096) (ptIndex virt)) = true := h₁
  have hout' : ¬(s.pageTables.hhdmOff ≤ virt ∧
      virt < (s.pageTables.hhdmOff + 0x1000000000) % 2 ^ 64) := hout
  have hnext : ∀ e, s.pageTables.next e = pteAddr e + s.hhdmOff := fun _ => rfl
  have hroot : entryAt s.mem (4096 * r) (pml4Index virt) = tables s.mem r (pml4Index virt) := rfl
  have w₄ : ∀ t, s.pageTables.word (t + s.hhdmOff) (virt >>> 39 &&& 0x1FF) =
      entryAt s.mem t (pml4Index virt) := fun _ => word_pageTables
  have w₃ : ∀ t, s.pageTables.word (t + s.hhdmOff) (virt >>> 30 &&& 0x1FF) =
      entryAt s.mem t (pdptIndex virt) := fun _ => word_pageTables
  have w₂ : ∀ t, s.pageTables.word (t + s.hhdmOff) (virt >>> 21 &&& 0x1FF) =
      entryAt s.mem t (pdIndex virt) := fun _ => word_pageTables
  have w₁ : ∀ t, s.pageTables.word (t + s.hhdmOff) (virt >>> 12 &&& 0x1FF) =
      entryAt s.mem t (ptIndex virt) := fun _ => word_pageTables
  simp only [vmmVirtToPhys, hpml4, PageTables.virtToPhys]
  rw [if_neg hout']
  simp only [hnext, w₄, w₃, w₂, w₁, entryAt_tables, hroot, h₄, h₃, h₂, hlast, hl₃, hl₂, hmod,
    Bool.not_true, Bool.false_eq_true, if_false]

/-- What a page is mapped to, `vmm_virt_to_phys` answers for it exactly when it lies outside the
window, or lies in it where the direct map has that frame. -/
theorem FlatRep.vmmVirtToPhys_iff (h : FlatRep r s m)
    (hmap : m (pageOf virt) = some (phys, flags)) :
    vmmVirtToPhys s virt = phys + virt % 4096 ↔
      (InWindow s.hhdmOff virt → virt - s.hhdmOff = phys + virt % 4096) := by
  by_cases hwin : InWindow s.hhdmOff virt
  · rw [vmmVirtToPhys_of_inWindow hwin]
    exact ⟨fun heq _ => heq, fun himp => himp hwin⟩
  · obtain ⟨place, hok⟩ := h.tables
    obtain ⟨⟨hal, hlt⟩, -, hflags⟩ := h.frame _ _ hmap
    have hfind : findPage s.mem r (pathOf virt) = some (leafEntry phys flags) := by
      rw [h.find, hmap, Option.map_some]
    have heq := hok.vmmVirtToPhys_eq rfl h.currentPml4 hwin hfind
    rw [leafEntry, pteAddr_or (by omega), pteAddr_of_frame (pteAddr_mod _) (pteAddr_lt _),
      pteAddr_of_frame hal hlt] at heq
    exact ⟨fun _ hin => absurd hin hwin, fun _ => heq⟩

end

/-- After any run of maps and unmaps on a zeroed PML4, for every address whose page was last mapped
to a frame: `vmm_virt_to_phys` names that frame exactly when the address is outside the window above
the direct map, or the frame is the one that the direct map has there. -/
theorem virt_to_phys_iff {σ : Type} [FrameAllocator σ] {s s' : Vmm σ} {pml4 : ℕ}
    {ops : List PageOp} (hpml4 : s.currentPml4 = some pml4) (haligned : pml4 % 4096 = 0)
    (hfree : ¬Avail s.pmm pml4) (hzero : ∀ a, pml4 ≤ a → a < pml4 + 4096 → s.mem a = 0)
    (hops : ∀ op ∈ ops, op.Ok) (hrun : runPageOps s ops = some s') {virt phys flags : ℕ}
    (hmap : flatMap ops (pageOf virt) = some (phys, flags)) :
    vmmVirtToPhys s' virt = phys + virt % 4096 ↔
      (InWindow s.hhdmOff virt → virt - s.hhdmOff = phys + virt % 4096) := by
  obtain ⟨r, rfl⟩ := Nat.dvd_of_mod_eq_zero haligned
  rw [← runPageOps_hhdmOff hrun]
  exact ((flatRep_empty hpml4 hfree hzero).run hops hrun).vmmVirtToPhys_iff hmap

theorem virt_to_phys_iff_sample :
    ∃ s', runPageOps sampleVmm [.map 0xffff900000000000 0x5000 3] = some s' ∧
      vmmVirtToPhys s' 0xffff900000000123 = 0x5123 := by
  have hops : ∀ op ∈ [PageOp.map 0xffff900000000000 0x5000 3], op.Ok := by simp [PageOp.Ok]
  have hrun : (runPageOps sampleVmm [.map 0xffff900000000000 0x5000 3]).isSome := by
    decide +kernel
  obtain ⟨s', hs'⟩ := Option.isSome_iff_exists.mp hrun
  have hmap : flatMap [.map 0xffff900000000000 0x5000 3] (pageOf 0xffff900000000123) =
      some (0x5000, 3) := by decide
  refine ⟨s', hs', ?_⟩
  apply (virt_to_phys_iff rfl (by norm_num) sampleVmm_unavailable (fun _ _ _ => rfl) hops hs'
    hmap).mpr
  decide

/-- The first page of the heap, with the direct map at the bottom of the upper half, is answered
for by the distance from there. -/
theorem virt_to_phys_wrong :
    ¬∀ (s' : Vmm FrameList) (ops : List PageOp), (∀ op ∈ ops, op.Ok) →
      runPageOps sampleVmm ops = some s' → ∀ virt phys flags,
        flatMap ops (pageOf virt) = some (phys, flags) →
          vmmVirtToPhys s' virt = phys + virt % 4096 := by
  intro hclaim
  have hops : ∀ op ∈ [PageOp.map heapBaseAddr 0x5000 3], op.Ok := by simp [PageOp.Ok]
  have hrun : (runPageOps sampleVmm [.map heapBaseAddr 0x5000 3]).isSome := by decide +kernel
  obtain ⟨s', hs'⟩ := Option.isSome_iff_exists.mp hrun
  have hoff : s'.hhdmOff = 0xffff800000000000 := runPageOps_hhdmOff hs'
  have hwin : InWindow s'.hhdmOff heapBaseAddr := by
    rw [hoff]
    decide
  have heq := hclaim s' _ hops hs' heapBaseAddr 0x5000 3 (by decide)
  rw [vmmVirtToPhys_of_inWindow hwin, hoff] at heq
  revert heq
  decide

end StyxOS
