import StyxOS.Pmm.Soundness
import StyxOS.Vmm.Basic

/-! # The frames of `pmm.c`

The physical memory manager as the allocator that the page tables get their
frames from. What it still has to give out is its free frames, and a frame given
back right after it was handed out is free again.
-/

namespace StyxOS

/-- An allocator in which a frame that has just been handed out can be given back. -/
class FrameStore (σ : Type) extends FrameAllocator σ where
  freeFrame_allocFrame : ∀ {s f s'}, allocFrame s = some (f, s') →
    ∀ g, Avail (freeFrame f s') g ↔ Avail s g

/-- The manager between calls, on a machine whose addresses have 52 bits. -/
structure FramePool where
  pmm : Pmm
  counts : pmm.Counts
  small : pmm.totalFrames * 4096 ≤ 2 ^ 52

namespace FramePool

variable {s s' : FramePool} {f g n : ℕ}

/-- A call of `pmm_alloc_frame` that finds a frame. -/
theorem alloc_spec (s : FramePool) (h : (pmmAllocFrame s.pmm).1 ≠ 0) :
    ∃ n ∈ s.pmm.freeFrames, (pmmAllocFrame s.pmm).1 = n * 4096 ∧
      (pmmAllocFrame s.pmm).2.freeFrames = s.pmm.freeFrames.erase n ∧
      (pmmAllocFrame s.pmm).2.totalFrames = s.pmm.totalFrames ∧
      (pmmAllocFrame s.pmm).2.Counts := by
  rcases s.counts.pmmAllocFrame_cases with ⟨-, he⟩ | hf
  · rw [he] at h
    exact absurd rfl h
  · exact hf

/-- `pmm_alloc_frame`, with no result for the null pointer. -/
def alloc (s : FramePool) : Option (ℕ × FramePool) :=
  if h : (pmmAllocFrame s.pmm).1 = 0 then none
  else some ((pmmAllocFrame s.pmm).1,
    { pmm := (pmmAllocFrame s.pmm).2
      counts := by
        obtain ⟨n, -, -, -, -, hc⟩ := s.alloc_spec h
        exact hc
      small := by
        obtain ⟨n, -, -, -, ht, -⟩ := s.alloc_spec h
        rw [ht]
        exact s.small })

theorem alloc_eq_some (h : s.alloc = some (f, s')) : ∃ n ∈ s.pmm.freeFrames, f = n * 4096 ∧
    s'.pmm.freeFrames = s.pmm.freeFrames.erase n ∧ s'.pmm.totalFrames = s.pmm.totalFrames := by
  unfold alloc at h
  split at h
  · cases h
  · next hne =>
    obtain ⟨rfl, rfl⟩ := Prod.mk.inj (Option.some.inj h)
    obtain ⟨n, hn, hf, hfree, ht, -⟩ := s.alloc_spec hne
    exact ⟨n, hn, hf, hfree, ht⟩

theorem free_spec {p : Pmm} (hz : f ≠ 0) (h : pmmFreeFrame s.pmm f = some p) :
    p.freeFrames = insert (f / 4096) s.pmm.freeFrames ∧ f % 4096 = 0 ∧
      p.totalFrames = s.pmm.totalFrames ∧ p.Counts := by
  have hmod : f % 4096 = 0 := by
    by_contra hmod
    simp [pmmFreeFrame, hmod] at h
  obtain ⟨n, rfl⟩ := Nat.dvd_of_mod_eq_zero hmod
  have hdiv : 4096 * n / 4096 = n := Nat.mul_div_cancel_left n (by norm_num)
  have hlt : n < s.pmm.totalFrames := by
    by_contra hge
    simp [pmmFreeFrame, hdiv, Nat.not_lt.mp hge] at h
  have htaken : n ∉ s.pmm.freeFrames := by
    intro hin
    have hclear := (Bitmap.mem_clearBits.mp hin).2
    simp [pmmFreeFrame, hdiv, hclear] at h
  obtain ⟨p', hp', hfree, htotal, hcounts⟩ := s.counts.pmmFreeFrame_eq hlt (by omega) htaken
  rw [Nat.mul_comm, hp'] at h
  obtain rfl := Option.some.inj h
  exact ⟨by rw [hfree, hdiv], hmod, htotal, hcounts⟩

/-- `pmm_free_frame`, which panics where it has no result. Frame zero is never handed out, and so
never given back. -/
def free (f : ℕ) (s : FramePool) : FramePool :=
  if hz : f = 0 then s
  else
    match h : pmmFreeFrame s.pmm f with
    | none => s
    | some p => ⟨p, (free_spec hz h).2.2.2, by
        rw [(free_spec hz h).2.2.1]
        exact s.small⟩

theorem freeFrames_free (hz : f ≠ 0) : (free f s).pmm.freeFrames = s.pmm.freeFrames ∨
    (free f s).pmm.freeFrames = insert (f / 4096) s.pmm.freeFrames := by
  unfold free
  rw [dif_neg hz]
  split
  · exact Or.inl rfl
  · next p h => exact Or.inr (free_spec hz h).1

theorem freeFrames_free_alloc (h : s.alloc = some (f, s')) :
    (free f s').pmm.freeFrames = s.pmm.freeFrames := by
  obtain ⟨n, hn, rfl, hfree, htotal⟩ := alloc_eq_some h
  have hz : n ≠ 0 := fun hz => s.counts.zero_taken (hz ▸ hn)
  obtain ⟨p, hp, hback, -, -⟩ := s'.counts.pmmFreeFrame_eq (f := n)
    (by rw [htotal]; exact (Bitmap.mem_clearBits.mp hn).1) hz (by rw [hfree]; simp)
  unfold free
  rw [dif_neg (by omega)]
  split
  · next hnone => simp [hnone] at hp
  · next q hq =>
    obtain rfl := Option.some.inj (hq.symm.trans hp)
    rw [hback, hfree, Finset.insert_erase hn]

instance : FrameStore FramePool where
  allocFrame := alloc
  freeFrame := free
  Avail s f := f % 4096 = 0 ∧ f / 4096 ∈ s.pmm.freeFrames
  avail_frame {s f} h := by
    have hz : f / 4096 ≠ 0 := fun hz => s.counts.zero_taken (hz ▸ h.2)
    have hlt := (Bitmap.mem_clearBits.mp h.2).1
    have hsmall := s.small
    omega
  allocFrame_avail {s f s'} h := by
    obtain ⟨n, hn, rfl, hfree, -⟩ := alloc_eq_some h
    refine ⟨⟨Nat.mul_mod_left n 4096, by rwa [Nat.mul_div_cancel n (by norm_num)]⟩, ?_⟩
    rintro g ⟨hmod, hg⟩
    rw [hfree, Finset.mem_erase] at hg
    exact ⟨⟨hmod, hg.2⟩, by omega⟩
  freeFrame_avail {s f g} _ hz _ h := by
    rcases freeFrames_free hz with hsame | hins
    · rw [hsame] at h
      exact Or.inl h
    · rw [hins, Finset.mem_insert] at h
      rcases h with ⟨hmod, hg | hg⟩
      · right; omega
      · exact Or.inl ⟨hmod, hg⟩
  freeFrame_allocFrame {s f s'} h g := by rw [freeFrames_free_alloc h]

/-- The manager of a small machine after `pmm_init`. -/
def sample : FramePool where
  pmm := initialPmm sampleMap 4096
  counts := by
    obtain ⟨s, hs, hcounts, -⟩ := MemoryMapOk.pmmInit_eq sampleMap_ok sampleMap_room
    rw [pmmInit_sampleMap] at hs
    obtain rfl := Option.some.inj hs
    exact hcounts
  small := by decide

end FramePool

end StyxOS
