import StyxOS.Heap.Exact

/-! # Live blocks

The blocks of the list that are in use, as a set of headers and sizes read from
memory. `kmalloc` adds at most one, `kfree` takes it away again, and writes into
a payload change none.
-/

namespace StyxOS

open Tiling ByteMem

/-- The headers of the blocks in use, with the sizes they record. -/
def Heap.liveBlocks (h : Heap) : Set (ℕ × ℕ) :=
  {x | OnList h.mem h.head x.1 ∧ fMagic.get h.mem x.1 = heapMagicUsed ∧
    fSize.get h.mem x.1 = x.2}

/-- The heap is running and represents a list. -/
structure HeapOk (h : Heap) : Prop where
  running : h.halted = false
  rep : ∃ bs, HeapRep h bs

variable {h h' : Heap} {bs bs' : List Block} {a p s size : ℕ}

theorem heapInit_ok (m : Mem) {pages : ℕ → PageGrant}
    (hp : ∀ i < heapInitPages, ∃ bytes, pages i = .frame bytes) : HeapOk (heapInit m pages) := by
  have hrun := heapInit_running m hp
  rcases heapInit_rep m pages with hh | hr
  · exact Bool.noConfusion (hrun.symm.trans hh)
  · exact ⟨hrun, _, hr⟩

theorem magicOf_eq_used {b : Block} : magicOf b = heapMagicUsed ↔ b.used = true := by
  unfold magicOf
  cases b.used <;> decide

theorem HeapRep.mem_liveBlocks (hr : HeapRep h bs) :
    (a, s) ∈ h.liveBlocks ↔ ∃ o, a = heapBaseAddr + o ∧ At blkHdr bs o ⟨s, true⟩ := by
  constructor
  · rintro ⟨hon, hmagic, hsize⟩
    rw [hr.head] at hon
    obtain ⟨o, b, hat, rfl⟩ := at_of_onList hon hr.links hr.nonempty
    obtain ⟨n, hh⟩ := hr.header hat
    rw [hr.base, hh.magic, magicOf_eq_used] at hmagic
    rw [hr.base, hh.size] at hsize
    refine ⟨o, by rw [hr.base], ?_⟩
    obtain ⟨size, used⟩ := b
    obtain rfl : used = true := hmagic
    obtain rfl : size = s := hsize
    exact hat
  · rintro ⟨o, rfl, hat⟩
    obtain ⟨n, hh⟩ := hr.header hat
    refine ⟨?_, hh.magic, hh.size⟩
    rw [hr.head, ← hr.base]
    exact onList_of_links hr.links hat

theorem HeapRep.liveBlocks_eq (hr : HeapRep h bs) (hr' : HeapRep h' bs')
    (hkeeps : KeepsBlocks bs bs') (honly : KeepsBlocks bs' bs) : h'.liveBlocks = h.liveBlocks := by
  ext ⟨a, s⟩
  rw [hr.mem_liveBlocks, hr'.mem_liveBlocks]
  constructor
  · rintro ⟨o, ha, hat⟩
    exact ⟨o, ha, honly o _ hat rfl⟩
  · rintro ⟨o, ha, hat⟩
    exact ⟨o, ha, hkeeps o _ hat rfl⟩

theorem Allocated.liveBlocks {r : ℕ × Heap} (ha : Allocated h bs size r) (hr : HeapRep h bs) :
    (∃ bs', HeapRep r.2 bs') ∧ (r.1 = 0 ∧ r.2.liveBlocks = h.liveBlocks ∨
      r.1 ≠ 0 ∧ ∃ s, size ≤ s ∧ (r.1 - blkHdr, s) ∉ h.liveBlocks ∧
        r.2.liveBlocks = insert (r.1 - blkHdr, s) h.liveBlocks) := by
  cases ha with
  | fails rep keeps only => exact ⟨⟨_, rep⟩, Or.inl ⟨rfl, hr.liveBlocks_eq rep keeps only⟩⟩
  | @succeeds h' bs' o s rep keeps hat hs hnew only =>
    refine ⟨⟨_, rep⟩, Or.inr ⟨by unfold blkHdr; omega, s, hs, ?_, ?_⟩⟩
    · rw [Nat.add_sub_cancel, hr.mem_liveBlocks]
      rintro ⟨o', ho, hat'⟩
      obtain rfl : o' = o := by omega
      exact Bool.noConfusion (hnew _ hat')
    · ext ⟨a, t⟩
      rw [Nat.add_sub_cancel, rep.mem_liveBlocks, Set.mem_insert_iff, hr.mem_liveBlocks]
      constructor
      · rintro ⟨o', rfl, hat'⟩
        by_cases ho : o' = o
        · obtain rfl := ho
          obtain ⟨rfl, -⟩ := Block.mk.inj (hat'.unique (by decide) hat)
          exact Or.inl rfl
        · exact Or.inr ⟨o', rfl, only o' _ hat' rfl ho⟩
      · rintro (he | ⟨o', rfl, hat'⟩)
        · obtain ⟨rfl, rfl⟩ := Prod.mk.inj he
          exact ⟨o, rfl, hat⟩
        · exact ⟨o', rfl, keeps o' _ hat' rfl⟩

theorem HeapOk.pos_of_live (hok : HeapOk h) (hp : (p - blkHdr, s) ∈ h.liveBlocks) :
    ∃ bs o, HeapRep h bs ∧ p = heapBaseAddr + o + blkHdr ∧ At blkHdr bs o ⟨s, true⟩ := by
  obtain ⟨bs, hr⟩ := hok.rep
  obtain ⟨o, ho, hat⟩ := hr.mem_liveBlocks.mp hp
  refine ⟨bs, o, hr, ?_, hat⟩
  unfold heapBaseAddr at ho ⊢
  omega

theorem HeapOk.kfree (hok : HeapOk h) (hp : (p - blkHdr, s) ∈ h.liveBlocks) :
    HeapOk (kfree h p) ∧ (kfree h p).liveBlocks = h.liveBlocks \ {(p - blkHdr, s)} := by
  obtain ⟨bs, o, hr, rfl, hat⟩ := hok.pos_of_live hp
  obtain ⟨bs', rep, keeps, only⟩ := kfree_spec hr hat
  rw [hr.base] at rep
  refine ⟨⟨(kfree_halted _ _).trans hok.running, bs', rep⟩, ?_⟩
  ext ⟨a, t⟩
  rw [rep.mem_liveBlocks, Set.mem_sdiff, hr.mem_liveBlocks, Nat.add_sub_cancel,
    Set.mem_singleton_iff]
  constructor
  · rintro ⟨o', rfl, hat'⟩
    obtain ⟨hold, hne⟩ := only o' _ hat' rfl
    refine ⟨⟨o', rfl, hold⟩, fun he => hne ?_⟩
    have := (Prod.mk.inj he).1
    omega
  · rintro ⟨⟨o', rfl, hat'⟩, hne⟩
    refine ⟨o', rfl, keeps o' _ hat' rfl ?_⟩
    rintro rfl
    obtain ⟨rfl, -⟩ := Block.mk.inj (hat'.unique (by decide) hat)
    exact hne rfl

theorem HeapOk.write (hok : HeapOk h) (hp : (p - blkHdr, s) ∈ h.liveBlocks) {bytes : List UInt8}
    (hlen : bytes.length ≤ s) :
    HeapOk { h with mem := store h.mem p bytes } ∧
      Heap.liveBlocks { h with mem := store h.mem p bytes } = h.liveBlocks := by
  obtain ⟨bs, o, hr, rfl, hat⟩ := hok.pos_of_live hp
  have hr' : HeapRep { h with mem := store h.mem (heapBaseAddr + o + blkHdr) bytes } bs := by
    refine hr.payload hat fun y hy => ?_
    rw [hr.base] at hy
    dsimp only at hy
    rcases hy with hy | hy
    · exact store_apply_of_lt hy
    · exact store_apply_of_ge (by omega)
  exact ⟨⟨hok.running, bs, hr'⟩, hr.liveBlocks_eq hr' (.refl bs) (.refl bs)⟩

end StyxOS
