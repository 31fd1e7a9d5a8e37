import Mathlib.Data.Nat.Bitwise
import Mathlib.Tactic.NormNum

/-! # Page tables

The two walks over the page tables that a snapshot depends on: the traversal
of `snapshot_save` that lists the user pages of a task, and the translation of
`vmm_virt_to_phys`. A page that the first lists, the second translates.
-/

namespace StyxOS

/-- The words of the page tables by the address of a table in the direct map, and the offset of
the direct map. -/
structure PageTables where
  word : ℕ → ℕ → ℕ
  hhdmOff : ℕ

def ptePresent (e : ℕ) : Bool := e.testBit 0

def pteUser (e : ℕ) : Bool := e.testBit 2

/-- The bit that makes an entry of an upper level map a large page. -/
def pteLarge (e : ℕ) : Bool := e.testBit 7

/-- `PTE_ADDR_MASK`. -/
def pteAddr (e : ℕ) : ℕ := e &&& 0x000ffffffffff000

namespace PageTables

variable (pt : PageTables)

def next (e : ℕ) : ℕ := pteAddr e + pt.hhdmOff

/-- The entries of a table that the traversal enters: present, and open to user code. -/
def userEntries (table : ℕ) : List (ℕ × ℕ) :=
  ((List.range 512).map fun i => (i, pt.word table i)).filter fun x =>
    ptePresent x.2 && pteUser x.2

/-- The address that a path through the four levels translates. -/
def pathAddr (i₄ i₃ i₂ i₁ : ℕ) : ℕ := i₄ <<< 39 ||| i₃ <<< 30 ||| i₂ <<< 21 ||| i₁ <<< 12

/-- The user pages under a PML4, in the order of the traversal: virtual and physical address. -/
def userPages (pml4 : ℕ) : List (ℕ × ℕ) :=
  (pt.userEntries pml4).flatMap fun e₄ =>
    (pt.userEntries (pt.next e₄.2)).flatMap fun e₃ =>
      (pt.userEntries (pt.next e₃.2)).flatMap fun e₂ =>
        (pt.userEntries (pt.next e₂.2)).map fun e₁ =>
          (pathAddr e₄.1 e₃.1 e₂.1 e₁.1, pteAddr e₁.2)

/-- `vmm_virt_to_phys` under a PML4 that is there. -/
def virtToPhys (pml4 virt : ℕ) : ℕ :=
  if pt.hhdmOff ≤ virt ∧ virt < (pt.hhdmOff + 0x1000000000) % 2 ^ 64 then virt - pt.hhdmOff
  else
    let e₄ := pt.word pml4 ((virt >>> 39) &&& 0x1FF)
    if !ptePresent e₄ then 0
    else
      let e₃ := pt.word (pt.next e₄) ((virt >>> 30) &&& 0x1FF)
      if !ptePresent e₃ then 0
      else if pteLarge e₃ then pteAddr e₃ + (virt &&& 0x3FFFFFFF)
      else
        let e₂ := pt.word (pt.next e₃) ((virt >>> 21) &&& 0x1FF)
        if !ptePresent e₂ then 0
        else if pteLarge e₂ then pteAddr e₂ + (virt &&& 0x1FFFFF)
        else
          let e₁ := pt.word (pt.next e₂) ((virt >>> 12) &&& 0x1FF)
          if !ptePresent e₁ then 0
          else pteAddr e₁ + (virt &&& 0xFFF)

/-- The tables that `vmm_map_page` builds for user pages: no large pages, no page at frame zero,
and a direct map above the addresses that four levels translate. -/
structure Small (pml4 : ℕ) : Prop where
  hhdm_ge : 2 ^ 48 ≤ pt.hhdmOff
  directory : ∀ e₄ ∈ pt.userEntries pml4, ∀ e₃ ∈ pt.userEntries (pt.next e₄.2),
    pteLarge e₃.2 = false ∧
      ∀ e₂ ∈ pt.userEntries (pt.next e₃.2), pteLarge e₂.2 = false ∧
        ∀ e₁ ∈ pt.userEntries (pt.next e₂.2), pteAddr e₁.2 ≠ 0

variable {pt}

theorem mem_userEntries {table : ℕ} {x : ℕ × ℕ} :
    x ∈ pt.userEntries table ↔
      x.1 < 512 ∧ pt.word table x.1 = x.2 ∧ ptePresent x.2 = true ∧ pteUser x.2 = true := by
  obtain ⟨i, e⟩ := x
  simp only [userEntries, List.mem_filter, List.mem_map, List.mem_range, Prod.mk.injEq,
    Bool.and_eq_true]
  constructor
  · rintro ⟨⟨j, hj, rfl, rfl⟩, hp⟩
    exact ⟨hj, rfl, hp⟩
  · rintro ⟨hi, rfl, hp⟩
    exact ⟨⟨i, hi, rfl, rfl⟩, hp⟩

theorem pathAddr_eq {i₄ i₃ i₂ i₁ : ℕ} (h₃ : i₃ < 512) (h₂ : i₂ < 512) (h₁ : i₁ < 512) :
    pathAddr i₄ i₃ i₂ i₁ = i₄ * 2 ^ 39 + i₃ * 2 ^ 30 + i₂ * 2 ^ 21 + i₁ * 2 ^ 12 := by
  have hor : ∀ a b n, b < 2 ^ n → a <<< n ||| b = a * 2 ^ n + b := by
    intro a b n hb
    rw [← Nat.shiftLeft_add_eq_or_of_lt hb, Nat.shiftLeft_eq]
  have h12 : i₁ <<< 12 = i₁ * 2 ^ 12 := Nat.shiftLeft_eq _ _
  have h21 : i₂ <<< 21 ||| i₁ <<< 12 = i₂ * 2 ^ 21 + i₁ * 2 ^ 12 := by
    rw [hor _ _ _ (by omega), h12]
  have h30 : i₃ <<< 30 ||| (i₂ <<< 21 ||| i₁ <<< 12) =
      i₃ * 2 ^ 30 + (i₂ * 2 ^ 21 + i₁ * 2 ^ 12) := by
    rw [hor _ _ _ (by omega), h21]
  unfold pathAddr
  rw [Nat.or_assoc, Nat.or_assoc, hor _ _ _ (by omega), h30]
  omega

theorem mod_index (a : ℕ) : a &&& 0x1FF = a % 512 := Nat.and_two_pow_sub_one_eq_mod a 9

theorem Small.virtToPhys_eq {pml4 : ℕ} (h : pt.Small pml4) {x : ℕ × ℕ}
    (hx : x ∈ pt.userPages pml4) : pt.virtToPhys pml4 x.1 = x.2 ∧ x.2 ≠ 0 := by
  simp only [userPages, List.mem_flatMap, List.mem_map] at hx
  obtain ⟨e₄, m₄, e₃, m₃, e₂, m₂, e₁, m₁, rfl⟩ := hx
  obtain ⟨hl₃, hd⟩ := h.directory e₄ m₄ e₃ m₃
  obtain ⟨hl₂, hz⟩ := hd e₂ m₂
  have hz₁ := hz e₁ m₁
  obtain ⟨h₄, w₄, p₄, -⟩ := mem_userEntries.mp m₄
  obtain ⟨h₃, w₃, p₃, -⟩ := mem_userEntries.mp m₃
  obtain ⟨h₂, w₂, p₂, -⟩ := mem_userEntries.mp m₂
  obtain ⟨h₁, w₁, p₁, -⟩ := mem_userEntries.mp m₁
  refine ⟨?_, hz₁⟩
  have hge := h.hhdm_ge
  dsimp only
  rw [pathAddr_eq h₃ h₂ h₁]
  have i₄ : (e₄.1 * 2 ^ 39 + e₃.1 * 2 ^ 30 + e₂.1 * 2 ^ 21 + e₁.1 * 2 ^ 12) >>> 39 &&& 0x1FF =
      e₄.1 := by
    rw [mod_index, Nat.shiftRight_eq_div_pow]; omega
  have i₃ : (e₄.1 * 2 ^ 39 + e₃.1 * 2 ^ 30 + e₂.1 * 2 ^ 21 + e₁.1 * 2 ^ 12) >>> 30 &&& 0x1FF =
      e₃.1 := by
    rw [mod_index, Nat.shiftRight_eq_div_pow]; omega
  have i₂ : (e₄.1 * 2 ^ 39 + e₃.1 * 2 ^ 30 + e₂.1 * 2 ^ 21 + e₁.1 * 2 ^ 12) >>> 21 &&& 0x1FF =
      e₂.1 := by
    rw [mod_index, Nat.shiftRight_eq_div_pow]; omega
  have i₁ : (e₄.1 * 2 ^ 39 + e₃.1 * 2 ^ 30 + e₂.1 * 2 ^ 21 + e₁.1 * 2 ^ 12) >>> 12 &&& 0x1FF =
      e₁.1 := by
    rw [mod_index, Nat.shiftRight_eq_div_pow]; omega
  have i₀ : (e₄.1 * 2 ^ 39 + e₃.1 * 2 ^ 30 + e₂.1 * 2 ^ 21 + e₁.1 * 2 ^ 12) &&& 0xFFF = 0 := by
    have hm := Nat.and_two_pow_sub_one_eq_mod
      (e₄.1 * 2 ^ 39 + e₃.1 * 2 ^ 30 + e₂.1 * 2 ^ 21 + e₁.1 * 2 ^ 12) 12
    norm_num at hm ⊢
    omega
  unfold virtToPhys
  rw [if_neg (by omega), i₄, i₃, i₂, i₁, i₀]
  simp [w₄, w₃, w₂, w₁, p₄, p₃, p₂, p₁, hl₃, hl₂]

end PageTables

end StyxOS
