import StyxOS.Heap.Chain

/-! # Allocation over the block list

A heap represents a list of blocks that tiles it. `kmalloc` splits or takes a
free block, after one growth if none fits, and `kfree` releases a block and
merges it with a free successor; blocks in use stay where they are.
-/

namespace StyxOS

open Tiling ByteMem

/-- The heap's block list is `bs`, laid out from its base to its end. -/
structure HeapRep (h : Heap) (bs : List Block) : Prop where
  head : h.head = h.base
  base : h.base = heapBaseAddr
  ceiling : h.ceiling = heapBaseAddr + heapMaxSize
  links : Links h.mem 0 h.base bs
  nonempty : bs ≠ []
  heapEnd : h.heapEnd = h.base + span blkHdr bs
  le_ceiling : h.heapEnd ≤ h.ceiling
  aligned : ∀ b ∈ bs, 16 ∣ b.size

variable {h : Heap} {bs : List Block} {need size : ℕ}

namespace HeapRep

theorem end_lt (hr : HeapRep h bs) : h.base + span blkHdr bs < 2 ^ 63 + 2 ^ 63 - 2 ^ 40 := by
  have h₁ := hr.le_ceiling
  rw [hr.heapEnd, hr.ceiling] at h₁
  unfold heapBaseAddr heapMaxSize at h₁
  omega

theorem base_pos (hr : HeapRep h bs) : 0 < h.base := by
  rw [hr.base]
  decide

theorem congr_mem (hr : HeapRep h bs) {h' : Heap} (hhead : h'.head = h.head)
    (hbase : h'.base = h.base) (hend : h'.heapEnd = h.heapEnd) (hceil : h'.ceiling = h.ceiling)
    (hm : ∀ y < h.heapEnd, h'.mem y = h.mem y) : HeapRep h' bs where
  head := by rw [hhead, hbase, hr.head]
  base := hbase.trans hr.base
  ceiling := hceil.trans hr.ceiling
  links := by
    rw [hbase]
    exact hr.links.congr fun y _ hy => hm y (by rw [hr.heapEnd]; exact hy)
  nonempty := hr.nonempty
  heapEnd := by rw [hend, hbase, hr.heapEnd]
  le_ceiling := by rw [hend, hceil]; exact hr.le_ceiling
  aligned := hr.aligned

/-- Replace a run of blocks in a heap by one of the same span. -/
theorem replace {pre mid post : List Block} (mid' : List Block) (m' : Mem)
    (hr : HeapRep h (pre ++ mid ++ post)) (hs : span blkHdr mid = span blkHdr mid')
    (hmid : mid ≠ []) (hmid' : mid' ≠ []) (hal : ∀ b ∈ mid', 16 ∣ b.size)
    (hout : ∀ y, y < h.base + span blkHdr pre ∨ h.base + span blkHdr pre + span blkHdr mid ≤ y →
      m' y = h.mem y)
    (hnew : Links m' (if post = [] then 0 else h.base + span blkHdr pre + span blkHdr mid)
      (h.base + span blkHdr pre) mid') : HeapRep { h with mem := m' } (pre ++ mid' ++ post) where
  head := hr.head
  base := hr.base
  ceiling := hr.ceiling
  links := hr.links.replace hs hmid hmid' hout hnew
  nonempty := by simp [hmid']
  heapEnd := by
    have := hr.heapEnd
    simp only [span_append] at this ⊢
    rw [this, hs]
  le_ceiling := hr.le_ceiling
  aligned b hb := by
    simp only [List.mem_append] at hb
    rcases hb with (hb | hb) | hb
    · exact hr.aligned b (by simp [hb])
    · exact hal b hb
    · exact hr.aligned b (by simp [hb])

theorem payload {o : ℕ} {b : Block} {m' : Mem} (hr : HeapRep h bs) (hb : At blkHdr bs o b)
    (hm : ∀ y, y < h.base + o + blkHdr ∨ h.base + o + blkHdr + b.size ≤ y → m' y = h.mem y) :
    HeapRep { h with mem := m' } bs := by
  obtain ⟨pre, post, rfl, rfl⟩ := hb.exists_split
  have hr' : HeapRep h (pre ++ [b] ++ post) := by simpa using hr
  have hh := hr.links.header
  have := hr'.replace [b] m' rfl (by simp) (by simp)
    (fun c hc => hr'.aligned c (by simp [List.mem_singleton.mp hc]))
    (fun y hy => hm y (by simp only [span_cons, span_nil] at hy; omega))
    ⟨by simpa using hh.congr fun y _ hy => hm y (by omega), trivial⟩
  simpa using this

end HeapRep

/-! ## The walk -/

/-- The block fits a request. -/
def Fits (need : ℕ) (b : Block) : Prop := b.used = false ∧ need ≤ b.size

/-- The address of the last block, or what came before if there is none. -/
def lastAddr (a : ℕ) : List Block → ℕ → ℕ
  | [], prev => prev
  | b :: bs, _ => lastAddr (a + (blkHdr + b.size)) bs a

theorem lastAddr_concat (a : ℕ) (init : List Block) (l : Block) (prev : ℕ) :
    lastAddr a (init ++ [l]) prev = a + span blkHdr init := by
  induction init generalizing a prev with
  | nil => rfl
  | cons b init ih =>
    rw [List.cons_append, lastAddr, ih, span_cons]
    omega

theorem firstFit_cons {m : Mem} {a n fuel prev : ℕ} {b : Block} (ha : 0 < a)
    (hb : Header m a b n) : firstFit m need (fuel + 1) a prev =
      if b.used = false ∧ need ≤ b.size then some (.found a) else firstFit m need fuel n a := by
  rw [firstFit, if_neg ha.ne', hb.magic, hb.free, hb.size, hb.next]
  cases hu : b.used with
  | false => simp [magicOf, freeOf, hu]
  | true => simp [magicOf, freeOf, hu]

/-- The walk finds a block that fits, or passes them all. -/
theorem firstFit_spec {m : Mem} {a fuel : ℕ} (need prev : ℕ) (hl : Links m 0 a bs) (ha : 0 < a)
    (hfuel : bs.length < fuel) :
    (∃ pre b post, bs = pre ++ b :: post ∧ Fits need b ∧
      firstFit m need fuel (if bs = [] then 0 else a) prev = some (.found (a + span blkHdr pre))) ∨
    ((∀ b ∈ bs, ¬ Fits need b) ∧
      firstFit m need fuel (if bs = [] then 0 else a) prev =
        some (.exhausted (lastAddr a bs prev))) := by
  induction bs generalizing a fuel prev with
  | nil =>
    obtain ⟨fuel, rfl⟩ : ∃ f, fuel = f + 1 := ⟨fuel - 1, by simp at hfuel; omega⟩
    exact Or.inr ⟨by simp, rfl⟩
  | cons b bs ih =>
    obtain ⟨fuel, rfl⟩ : ∃ f, fuel = f + 1 := ⟨fuel - 1, by simp at hfuel; omega⟩
    rw [if_neg (by simp), firstFit_cons ha hl.1]
    split
    · next hfit => exact Or.inl ⟨[], b, bs, rfl, hfit, rfl⟩
    · next hfit =>
      rcases ih a hl.2 (by omega) (by simpa using hfuel) with
        ⟨pre, c, post, rfl, hc, he⟩ | ⟨hnone, he⟩
      · refine Or.inl ⟨b :: pre, c, post, rfl, hc, ?_⟩
        rw [he, span_cons, Nat.add_assoc]
      · refine Or.inr ⟨fun c hc => ?_, he⟩
        rcases List.mem_cons.mp hc with rfl | hc
        · exact hfit
        · exact hnone c hc

theorem HeapRep.length_lt_walkFuel (hr : HeapRep h bs) : bs.length < walkFuel h := by
  have hlen := length_mul_le_span blkHdr bs
  have hspan : h.heapEnd - h.base = span blkHdr bs := by rw [hr.heapEnd]; omega
  unfold walkFuel
  rw [hspan]
  unfold blkHdr at hlen ⊢
  omega

/-- The walk of a call over the whole list. -/
theorem HeapRep.walk (hr : HeapRep h bs) (need : ℕ) :
    (∃ pre b post, bs = pre ++ b :: post ∧ Fits need b ∧
      firstFit h.mem need (walkFuel h) h.head 0 = some (.found (h.base + span blkHdr pre))) ∨
    ((∀ b ∈ bs, ¬ Fits need b) ∧
      firstFit h.mem need (walkFuel h) h.head 0 = some (.exhausted (lastAddr h.base bs 0))) := by
  have hspec := firstFit_spec need 0 hr.links hr.base_pos hr.length_lt_walkFuel
  rw [if_neg hr.nonempty] at hspec
  rw [hr.head]
  exact hspec

/-! ## Taking a block, growing -/

theorem le_alignUp (h : size ≤ 2 ^ 64 - 16) : size ≤ alignUp size ∧ 16 ∣ alignUp size := by
  unfold alignUp u64 heapAlign
  omega

theorem alignUp_spec (h0 : 0 < size) (h : size < 2 ^ 32) :
    size ≤ alignUp size ∧ 16 ∣ alignUp size ∧ alignUp size < 2 ^ 33 ∧ 0 < alignUp size := by
  unfold alignUp u64 heapAlign
  omega

theorem HeapRep.take {pre post : List Block} {b : Block} (hr : HeapRep h (pre ++ b :: post))
    (hfit : Fits need b) (hneed : 16 ∣ need) :
    HeapRep { h with mem := takeBlock h.mem (h.base + span blkHdr pre) need }
      (pre ++ takenBlocks b need ++ post) := by
  have hr' : HeapRep h (pre ++ [b] ++ post) := by simpa using hr
  have hend := hr.end_lt
  rw [span_append, span_cons] at hend
  have hlinks := takeBlock_links need hr.links.header (by omega)
    (by split <;> omega)
  refine hr'.replace _ _ (span_takenBlocks hfit.2).symm (by simp) takenBlocks_ne_nil
    (takenBlocks_aligned hneed (hr.aligned b (by simp))) (fun y hy => hlinks.2 y ?_) ?_
  · simp only [span_cons, span_nil] at hy
    omega
  · simpa [Nat.add_assoc] using hlinks.1

theorem HeapRep.clear_of_lt (hr : HeapRep h bs) (hneed : need < 2 ^ 33) :
    h.heapEnd + (blkHdr + need + pageSize - 1) / pageSize * pageSize < 2 ^ 64 := by
  have hend := hr.end_lt
  rw [hr.heapEnd]
  unfold blkHdr pageSize
  unfold blkHdr at hend
  omega

/-- Growth fails and keeps the list, or lays out one free block of the size needed at the end. -/
theorem growHeap_spec (hr : HeapRep h bs) (pages : ℕ → PageGrant)
    (hneed : h.heapEnd + (blkHdr + need + pageSize - 1) / pageSize * pageSize < 2 ^ 64) :
    ((growHeap h pages need).1 = 0 ∧ HeapRep (growHeap h pages need).2 bs) ∨
    ∃ s m, need ≤ s ∧ 16 ∣ s ∧ h.heapEnd + (blkHdr + s) ≤ h.ceiling ∧
      Header m h.heapEnd ⟨s, false⟩ 0 ∧ (∀ y < h.heapEnd, m y = h.mem y) ∧
      growHeap h pages need =
        (h.heapEnd, { h with mem := m, heapEnd := h.heapEnd + (blkHdr + s) }) := by
  have hbase : heapBaseAddr ≤ h.heapEnd := by
    rw [hr.heapEnd, hr.base]
    exact Nat.le_add_right _ _
  unfold growHeap
  dsimp only
  generalize hb : u64 (u64 (u64 (blkHdr + need) + pageSize - 1) / pageSize * pageSize) = nBytes
  have hbytes : blkHdr + need ≤ nBytes ∧ 16 ∣ nBytes ∧ h.heapEnd + nBytes < 2 ^ 64 ∧
      u64 (u64 (blkHdr + need) + pageSize - 1) / pageSize * pageSize = nBytes := by
    unfold heapBaseAddr at hbase
    unfold blkHdr pageSize at hneed
    unfold u64 blkHdr pageSize at hb
    unfold u64 blkHdr pageSize
    omega
  have hsize : u64 (nBytes + 2 ^ 64 - blkHdr) = nBytes - blkHdr := by
    unfold u64 blkHdr at *
    omega
  have hhdr : blkHdr ≤ nBytes := by omega
  have hend : u64 (h.heapEnd + nBytes) = h.heapEnd + nBytes := Nat.mod_eq_of_lt (by omega)
  rw [hend]
  split
  · exact Or.inl ⟨rfl, hr⟩
  · next hc =>
    have hpages : ∀ y < h.heapEnd, (mapPages pages h.heapEnd 0
        (u64 (u64 (blkHdr + need) + pageSize - 1) / pageSize) h.mem).mem y = h.mem y :=
      fun y hy => mapPages_apply _ _ _ _ _ hy (by rw [Nat.zero_add, hbytes.2.2.2]; omega)
    cases hm : mapPages pages h.heapEnd 0
        (u64 (u64 (blkHdr + need) + pageSize - 1) / pageSize) h.mem with
    | noFrame m =>
      rw [hm] at hpages
      exact Or.inl ⟨rfl, hr.congr_mem rfl rfl rfl rfl hpages⟩
    | halted m =>
      rw [hm] at hpages
      exact Or.inl ⟨rfl, hr.congr_mem rfl rfl rfl rfl hpages⟩
    | mapped m =>
      rw [hm] at hpages
      have hs : blkHdr + (nBytes - blkHdr) = nBytes := by omega
      refine Or.inr ⟨nBytes - blkHdr, writeHeader m h.heapEnd heapMagicFree 1 (nBytes - blkHdr) 0,
        by omega, by unfold blkHdr; omega, by omega,
        writeHeader_header (by omega) (by decide), fun y hy => ?_, ?_⟩
      · rw [writeHeader_apply (Or.inl hy)]
        exact hpages y hy
      · rw [hs, hsize]

theorem HeapRep.links_grown (hr : HeapRep h bs) {s : ℕ} {m : Mem}
    (hh : Header m h.heapEnd ⟨s, false⟩ 0) (hm : ∀ y < h.heapEnd, m y = h.mem y) :
    Links (fNext.set m (lastAddr h.base bs 0) h.heapEnd) 0 h.base (bs ++ [⟨s, false⟩]) := by
  obtain ⟨init, l, rfl⟩ : ∃ init l, bs = init ++ [l] :=
    ⟨bs.dropLast, bs.getLast hr.nonempty, (List.dropLast_append_getLast hr.nonempty).symm⟩
  have hceil : h.ceiling < 2 ^ 64 := by rw [hr.ceiling]; decide
  have hle := hr.le_ceiling
  have hend := hr.heapEnd
  rw [span_append, span_cons, span_nil] at hend
  rw [lastAddr_concat, List.append_assoc]
  obtain ⟨hinit, hlast, -⟩ := (links_append (by simp)).mp hr.links
  have hlast' : Header (fNext.set m (h.base + span blkHdr init) h.heapEnd)
      (h.base + span blkHdr init) l h.heapEnd :=
    (hlast.congr fun y _ hy => hm y (by omega)).set_next (by omega)
  refine (links_append (by simp)).mpr ⟨hinit.congr fun y _ hy => ?_, ?_, ?_, trivial⟩
  · rw [set_apply_of_outside (by decide) (by omega), hm y (by omega)]
  · rw [if_neg (by simp)]
    have he : h.base + span blkHdr init + (blkHdr + l.size) = h.heapEnd := by omega
    rw [he]
    exact hlast'
  · rw [if_pos rfl]
    have he : h.base + span blkHdr init + (blkHdr + l.size) = h.heapEnd := by omega
    rw [he]
    exact hh.congr fun y hy _ => set_apply_of_outside (by decide) (by omega)

theorem HeapRep.lastAddr_ne_zero (hr : HeapRep h bs) : lastAddr h.base bs 0 ≠ 0 := by
  obtain ⟨init, l, rfl⟩ : ∃ init l, bs = init ++ [l] :=
    ⟨bs.dropLast, bs.getLast hr.nonempty, (List.dropLast_append_getLast hr.nonempty).symm⟩
  have hbase := hr.base_pos
  rw [lastAddr_concat]
  omega

theorem HeapRep.grown (hr : HeapRep h bs) {s : ℕ} {m : Mem} (hs : 16 ∣ s)
    (hc : h.heapEnd + (blkHdr + s) ≤ h.ceiling) (hh : Header m h.heapEnd ⟨s, false⟩ 0)
    (hm : ∀ y < h.heapEnd, m y = h.mem y) :
    HeapRep (linkBlock { h with mem := m, heapEnd := h.heapEnd + (blkHdr + s) }
      (lastAddr h.base bs 0) h.heapEnd) (bs ++ [⟨s, false⟩]) := by
  have hend := hr.heapEnd
  unfold linkBlock
  rw [if_pos hr.lastAddr_ne_zero]
  refine ⟨hr.head, hr.base, hr.ceiling, hr.links_grown hh hm, by simp, ?_, hc, ?_⟩
  · dsimp only
    simp only [span_append, span_cons, span_nil]
    omega
  · intro b hb
    rcases List.mem_append.mp hb with hb | hb
    · exact hr.aligned b hb
    · rw [List.mem_singleton.mp hb]
      exact hs

/-! ## The three calls -/

def KeepsBlocks (bs bs' : List Block) : Prop :=
  ∀ o b, At blkHdr bs o b → b.used = true → At blkHdr bs' o b

theorem KeepsBlocks.refl (bs : List Block) : KeepsBlocks bs bs := fun _ _ hat _ => hat

/-- The result of an allocation: NULL, or the payload of a block in use of at least the size, at an
offset where none was in use. No other block comes into use. -/
inductive Allocated (h : Heap) (bs : List Block) (size : ℕ) : ℕ × Heap → Prop
  | fails {h' : Heap} {bs' : List Block} (rep : HeapRep h' bs') (keeps : KeepsBlocks bs bs')
      (only : KeepsBlocks bs' bs) : Allocated h bs size (0, h')
  | succeeds {h' : Heap} {bs' : List Block} {o s : ℕ} (rep : HeapRep h' bs')
      (keeps : KeepsBlocks bs bs') (hat : At blkHdr bs' o ⟨s, true⟩) (hs : size ≤ s)
      (hnew : ∀ b, At blkHdr bs o b → b.used = false)
      (only : ∀ o' b, At blkHdr bs' o' b → b.used = true → o' ≠ o → At blkHdr bs o' b) :
      Allocated h bs size (heapBaseAddr + o + blkHdr, h')

theorem Allocated.null (hr : HeapRep h bs) : Allocated h bs size (0, h) :=
  .fails hr (.refl bs) (.refl bs)

/-- The block that the walk finds is taken, and no other block changes. -/
theorem HeapRep.allocated_take {pre post : List Block} {b : Block}
    (hr : HeapRep h (pre ++ b :: post)) (hb : Fits need b) (hneed : 16 ∣ need)
    (hsize : size ≤ need) : Allocated h (pre ++ b :: post) size
      (heapBaseAddr + span blkHdr pre + blkHdr,
        { h with mem := takeBlock h.mem (h.base + span blkHdr pre) need }) := by
  obtain ⟨s, hs⟩ := takenBlocks_head b need
  obtain ⟨hhead, hle⟩ := hs hb.2
  have hkeeps : KeepsBlocks (pre ++ b :: post) (pre ++ takenBlocks b need ++ post) := by
    intro o' b' hat hu
    refine At.replace [b] _ (span_takenBlocks hb.2).symm (by simpa using hat) ?_
    rintro o'' - (⟨-, rfl⟩ | ⟨_, -, hbad⟩)
    · rw [hb.1] at hu
      exact Bool.noConfusion hu
    · exact hbad
  have hat : At blkHdr (pre ++ takenBlocks b need ++ post) (span blkHdr pre) ⟨s, true⟩ := by
    rw [List.append_assoc]
    exact at_append.mpr (Or.inr ⟨0, rfl, at_append.mpr (Or.inl hhead)⟩)
  have hold : ∀ b', At blkHdr (pre ++ b :: post) (span blkHdr pre) b' → b'.used = false := by
    intro b' hb'
    rw [hb'.unique (by decide) (at_span pre b post)]
    exact hb.1
  have honly : ∀ o' b', At blkHdr (pre ++ takenBlocks b need ++ post) o' b' →
      b'.used = true → o' ≠ span blkHdr pre → At blkHdr (pre ++ b :: post) o' b' := by
    intro o' b' hat' hu hne
    have hback := hat'.replace _ [b] (span_takenBlocks hb.2) fun o'' he hin =>
      hne (by rw [he, takenBlocks_used hin hu, Nat.add_zero])
    simpa using hback
  exact .succeeds (hr.take hb hneed) hkeeps hat (hsize.trans hle) hold honly

/-- The call returns the payload of the block that the walk finds, with any fuel. -/
theorem HeapRep.kmallocFrom_found {pre post : List Block} {b : Block}
    (hr : HeapRep h (pre ++ b :: post)) (h0 : 0 < size)
    (hwalk : firstFit h.mem (alignUp size) (walkFuel h) h.head 0 =
      some (.found (h.base + span blkHdr pre))) (pages : ℕ → ℕ → PageGrant) (i fuel : ℕ) :
    kmallocFrom pages (fuel + 1) i h size = some (heapBaseAddr + span blkHdr pre + blkHdr,
      { h with mem := takeBlock h.mem (h.base + span blkHdr pre) (alignUp size) }) := by
  have hend := hr.end_lt
  rw [span_append, span_cons] at hend
  have haddr : u64 (h.base + span blkHdr pre + blkHdr) = h.base + span blkHdr pre + blkHdr :=
    Nat.mod_eq_of_lt (by omega)
  rw [kmallocFrom, if_neg h0.ne', hwalk, ← hr.base, ← haddr]

theorem kmallocFrom_of_fits (hr : HeapRep h bs) (h0 : 0 < size) (hsize : size ≤ 2 ^ 64 - 16)
    (hfit : ∃ b ∈ bs, Fits (alignUp size) b) (pages : ℕ → ℕ → PageGrant) (i : ℕ) :
    ∃ r, Allocated h bs size r ∧ r.1 ≠ 0 ∧ r.2.halted = h.halted ∧
      ∀ fuel, kmallocFrom pages (fuel + 1) i h size = some r := by
  obtain ⟨hge, hal⟩ := le_alignUp hsize
  rcases hr.walk (alignUp size) with ⟨pre, b, post, rfl, hb, hwalk⟩ | ⟨hnone, -⟩
  · exact ⟨_, hr.allocated_take hb hal hge, by unfold blkHdr; omega, rfl,
      hr.kmallocFrom_found h0 hwalk pages i⟩
  · obtain ⟨b, hb, hf⟩ := hfit
    exact absurd hf (hnone b hb)

theorem Allocated.of_append {h' : Heap} {ys : List Block} {r : ℕ × Heap}
    (hys : ∀ b ∈ ys, b.used = false) (ha : Allocated h' (bs ++ ys) size r) :
    Allocated h bs size r := by
  have hkeeps : KeepsBlocks bs (bs ++ ys) := fun _ _ hat _ => at_append.mpr (Or.inl hat)
  have hback : KeepsBlocks (bs ++ ys) bs := by
    intro o b hat hu
    rcases at_append.mp hat with hat | ⟨o', -, hat⟩
    · exact hat
    · rw [hys b hat.mem] at hu
      exact Bool.noConfusion hu
  cases ha with
  | fails rep keeps only =>
    exact .fails rep (fun o b hat hu => keeps o b (hkeeps o b hat hu) hu)
      fun o b hat hu => hback o b (only o b hat hu) hu
  | succeeds rep keeps hat hs hnew only =>
    exact .succeeds rep (fun o b hat hu => keeps o b (hkeeps o b hat hu) hu) hat hs
      (fun b hb => hnew b (at_append.mpr (Or.inl hb)))
      fun o b hat hu hne => hback o b (only o b hat hu hne) hu

theorem HeapRep.heapEnd_pos (hr : HeapRep h bs) : 0 < h.heapEnd := by
  have := hr.base_pos
  rw [hr.heapEnd]
  omega

/-- Where no block fits and the heap grows, the retry takes the new block. -/
theorem kmallocFrom_of_grown (hr : HeapRep h bs) (h0 : 0 < size) (hsize : size ≤ 2 ^ 64 - 16)
    (hnone : ∀ b ∈ bs, ¬ Fits (alignUp size) b) (pages : ℕ → ℕ → PageGrant) {i s : ℕ} {m : Mem}
    (hs : alignUp size ≤ s) (h16 : 16 ∣ s) (hc : h.heapEnd + (blkHdr + s) ≤ h.ceiling)
    (hh : Header m h.heapEnd ⟨s, false⟩ 0) (hm : ∀ y < h.heapEnd, m y = h.mem y)
    (hg : growHeap h (pages i) (alignUp size) =
      (h.heapEnd, { h with mem := m, heapEnd := h.heapEnd + (blkHdr + s) })) :
    ∃ r, Allocated h bs size r ∧ r.1 ≠ 0 ∧ r.2.halted = h.halted ∧
      ∀ fuel, kmallocFrom pages (fuel + 2) i h size = some r := by
  have hwalk : firstFit h.mem (alignUp size) (walkFuel h) h.head 0 =
      some (.exhausted (lastAddr h.base bs 0)) := by
    rcases hr.walk (alignUp size) with ⟨pre, b, post, rfl, hb, -⟩ | ⟨-, hw⟩
    · exact absurd hb (hnone b (by simp))
    · exact hw
  obtain ⟨r, ha, hnz, hhalt, hall⟩ := kmallocFrom_of_fits (hr.grown h16 hc hh hm) h0 hsize
    ⟨⟨s, false⟩, by simp, rfl, hs⟩ pages (i + 1)
  refine ⟨r, ha.of_append (by simp), hnz, ?_, fun fuel => ?_⟩
  · rw [hhalt, linkBlock]
    split <;> rfl
  · rw [kmallocFrom, if_neg h0.ne', hwalk]
    dsimp only
    rw [hg]
    dsimp only
    rw [if_neg hr.heapEnd_pos.ne']
    exact hall fuel

/-- `kmalloc` keeps the list and needs at most one retry: two levels of recursion give the result,
and more give the same. -/
theorem kmallocFrom_spec (hr : HeapRep h bs) (hsize : size < 2 ^ 32) (pages : ℕ → ℕ → PageGrant)
    (i : ℕ) : ∃ r, Allocated h bs size r ∧
      ∀ fuel, kmallocFrom pages (fuel + 2) i h size = some r := by
  rcases Nat.eq_zero_or_pos size with rfl | h0
  · exact ⟨_, .null hr, fun fuel => by rw [kmallocFrom, if_pos rfl]⟩
  · rcases hr.walk (alignUp size) with ⟨pre, b, post, rfl, hb, -⟩ | ⟨hnone, hwalk⟩
    · obtain ⟨r, ha, -, -, hall⟩ := kmallocFrom_of_fits hr h0 (by omega) ⟨b, by simp, hb⟩ pages i
      exact ⟨r, ha, fun fuel => hall (fuel + 1)⟩
    · obtain ⟨-, -, hlt, -⟩ := alignUp_spec h0 hsize
      rcases growHeap_spec hr (pages i) (hr.clear_of_lt hlt) with
        ⟨hz, hrep⟩ | ⟨s, m, hs, h16, hc, hh, hm, hg⟩
      · refine ⟨_, .fails hrep (.refl bs) (.refl bs), fun fuel => ?_⟩
        rw [kmallocFrom, if_neg h0.ne', hwalk]
        dsimp only
        rw [if_pos hz]
      · obtain ⟨r, ha, -, -, hall⟩ :=
          kmallocFrom_of_grown hr h0 (by omega) hnone pages hs h16 hc hh hm hg
        exact ⟨r, ha, hall⟩

/-- Of the blocks in use, the one at `o` is gone and the others are where they were. -/
structure Releases (bs bs' : List Block) (o : ℕ) : Prop where
  keeps : ∀ o' b', At blkHdr bs o' b' → b'.used = true → o' ≠ o → At blkHdr bs' o' b'
  only : ∀ o' b', At blkHdr bs' o' b' → b'.used = true → At blkHdr bs o' b' ∧ o' ≠ o

theorem releases_run {pre mid post : List Block} {s : ℕ} {c : Block}
    (hs : span blkHdr (⟨s, true⟩ :: mid) = span blkHdr [c]) (hmid : ∀ b ∈ mid, b.used = false)
    (hc : c.used = false) : Releases (pre ++ (⟨s, true⟩ :: mid) ++ post) (pre ++ [c] ++ post)
      (span blkHdr pre) := by
  constructor
  · intro o' b' hat hu hne
    refine hat.replace _ _ hs ?_
    rintro o'' rfl (⟨rfl, -⟩ | ⟨_, -, hbad⟩)
    · exact hne rfl
    · rw [hmid b' hbad.mem] at hu
      exact Bool.noConfusion hu
  · intro o' b' hat hu
    refine ⟨hat.replace _ _ hs.symm fun o'' _ hin => ?_, ?_⟩
    · rw [List.mem_singleton.mp hin.mem, hc] at hu
      exact Bool.noConfusion hu
    · rintro rfl
      rw [List.append_assoc] at hat
      rw [hat.unique (by decide) (at_span pre c post), hc] at hu
      exact Bool.noConfusion hu

/-- What `kfree` makes of a block in use and the blocks behind it. -/
def freedBlocks (s : ℕ) : List Block → List Block
  | [] => [⟨s, false⟩]
  | c :: post => if c.used then ⟨s, false⟩ :: c :: post else ⟨s + (blkHdr + c.size), false⟩ :: post

theorem HeapRep.kfree {pre post : List Block} {s : ℕ} (hr : HeapRep h (pre ++ ⟨s, true⟩ :: post)) :
    HeapRep (kfree h (h.base + span blkHdr pre + blkHdr)) (pre ++ freedBlocks s post) := by
  have hend := hr.end_lt
  have hs16 : 16 ∣ s := hr.aligned ⟨s, true⟩ (by simp)
  rw [span_append, span_cons] at hend
  dsimp only at hend
  have hblk : u64 (h.base + span blkHdr pre + blkHdr + 2 ^ 64 - blkHdr) =
      h.base + span blkHdr pre := by
    have hx : h.base + span blkHdr pre + blkHdr + 2 ^ 64 - blkHdr =
        h.base + span blkHdr pre + 2 ^ 64 := by omega
    rw [hx, u64, Nat.add_mod_right, Nat.mod_eq_of_lt (by omega)]
  have hhdr := hr.links.header
  have hmagic : fMagic.get h.mem (h.base + span blkHdr pre) = heapMagicUsed := hhdr.magic
  unfold StyxOS.kfree
  rw [if_neg (by unfold blkHdr; omega), hblk, if_neg (not_not_intro hmagic)]
  dsimp only
  have hfreed := hhdr.mark_free
  have hm : ∀ y, y < h.base + span blkHdr pre ∨ h.base + span blkHdr pre + blkHdr ≤ y →
      fFree.set (fMagic.set h.mem (h.base + span blkHdr pre) heapMagicFree)
        (h.base + span blkHdr pre) 1 y = h.mem y := fun y hy => by
    rw [set_apply_of_outside (by decide) hy, set_apply_of_outside (by decide) hy]
  generalize fFree.set (fMagic.set h.mem (h.base + span blkHdr pre) heapMagicFree)
    (h.base + span blkHdr pre) 1 = m at hfreed hm ⊢
  dsimp only at hfreed
  -- a block without a free successor is released as it is
  have halone : coalesce m (h.base + span blkHdr pre) = m →
      HeapRep { h with mem := coalesce m (h.base + span blkHdr pre) }
        (pre ++ ⟨s, false⟩ :: post) := by
    intro hc
    rw [hc]
    have hr' : HeapRep h (pre ++ [⟨s, true⟩] ++ post) := by simpa using hr
    have hrep : HeapRep { h with mem := m } (pre ++ [⟨s, false⟩] ++ post) :=
      hr'.replace _ _ rfl (by simp) (by simp) (by simpa using hs16)
        (fun y hy => hm y (by simp only [span_cons, span_nil] at hy; omega))
        ⟨by simpa [Nat.add_assoc] using hfreed, trivial⟩
    simpa using hrep
  cases post with
  | nil => exact halone (coalesce_of_used hfreed (Or.inl rfl))
  | cons c post =>
    have hr₂ : HeapRep h ((pre ++ [⟨s, true⟩]) ++ c :: post) := by simpa using hr
    have hc := hr₂.links.header
    rw [span_append, span_cons, span_nil, Nat.add_zero, ← Nat.add_assoc] at hc
    dsimp only at hc
    have hcm := hc.congr fun y hy _ => hm y (Or.inr (by omega))
    rw [if_neg (by simp)] at hfreed
    rw [span_cons] at hend
    rw [freedBlocks]
    split
    · next hcu => exact halone (coalesce_of_used hfreed (Or.inr ⟨c, _, hcu, hcm⟩))
    · next hcu =>
      have hcu : c.used = false := by simpa using hcu
      obtain ⟨hmerged, hout⟩ := coalesce_of_free hfreed rfl hcm hcu (by omega)
        (by split <;> omega)
      have hr' : HeapRep h (pre ++ [⟨s, true⟩, c] ++ post) := by simpa using hr
      have hspan : span blkHdr [⟨s, true⟩, c] = span blkHdr [⟨s + (blkHdr + c.size), false⟩] := by
        simp only [span_cons, span_nil]
        omega
      have hc16 : 16 ∣ c.size := hr.aligned c (by simp)
      have hrep := hr'.replace [⟨s + (blkHdr + c.size), false⟩]
        (coalesce m (h.base + span blkHdr pre)) hspan (by simp) (by simp) ?_ (fun y hy => ?_)
        ⟨?_, trivial⟩
      · simpa using hrep
      · intro b hb
        rw [List.mem_singleton.mp hb]
        dsimp only
        unfold blkHdr
        omega
      · simp only [span_cons, span_nil] at hy
        rw [hout y (by omega), hm y (by omega)]
      · have he : h.base + span blkHdr pre + span blkHdr [⟨s, true⟩, c] =
            h.base + span blkHdr pre + (blkHdr + s) + (blkHdr + c.size) := by
          simp only [span_cons, span_nil]
          omega
        rw [if_pos rfl, he]
        exact hmerged

@[simp] theorem kfree_halted (h : Heap) (p : ℕ) : (kfree h p).halted = h.halted := by
  unfold kfree
  dsimp only
  split_ifs <;> rfl

theorem kfree_spec {o s : ℕ} (hr : HeapRep h bs) (hat : At blkHdr bs o ⟨s, true⟩) :
    ∃ bs', HeapRep (kfree h (h.base + o + blkHdr)) bs' ∧ Releases bs bs' o := by
  obtain ⟨pre, post, rfl, rfl⟩ := hat.exists_split
  refine ⟨_, hr.kfree, ?_⟩
  have halone : Releases (pre ++ [⟨s, true⟩] ++ post) (pre ++ [⟨s, false⟩] ++ post)
      (span blkHdr pre) := releases_run rfl (by simp) rfl
  simp only [List.append_assoc, List.singleton_append] at halone
  cases post with
  | nil => exact halone
  | cons c post =>
    rw [freedBlocks]
    split
    · exact halone
    · next hcu =>
      have hmerged : Releases (pre ++ [⟨s, true⟩, c] ++ post)
          (pre ++ [⟨s + (blkHdr + c.size), false⟩] ++ post) (span blkHdr pre) :=
        releases_run (by simp only [span_cons, span_nil]; omega) (by simpa using hcu) rfl
      simpa using hmerged

/-- What `kcalloc` does with the result of `kmalloc`. -/
def zeroFill (total : ℕ) (r : ℕ × Heap) : ℕ × Heap :=
  if r.1 = 0 then r else (r.1, { r.2 with mem := store r.2.mem r.1 (List.replicate total 0) })

theorem kcalloc_eq {n sz : ℕ} (hover : ¬(sz ≠ 0 ∧ n > (2 ^ 64 - 1) / sz))
    (hmul : u64 (n * sz) = n * sz) (pages : ℕ → ℕ → PageGrant) (fuel : ℕ) :
    kcalloc pages fuel h n sz = (kmalloc pages fuel h (n * sz)).map (zeroFill (n * sz)) := by
  rw [kcalloc, if_neg hover, hmul]
  rfl

theorem HeapRep.zeroed {o s : ℕ} (hr : HeapRep h bs) (hat : At blkHdr bs o ⟨s, true⟩)
    (hs : size ≤ s) : HeapRep { h with
      mem := store h.mem (heapBaseAddr + o + blkHdr) (List.replicate size 0) } bs := by
  refine hr.payload hat fun y hy => ?_
  rw [hr.base] at hy
  dsimp only at hy
  rcases hy with hy | hy
  · exact store_apply_of_lt hy
  · exact store_apply_of_ge (by simp only [List.length_replicate]; omega)

theorem Allocated.zeroFill {r : ℕ × Heap} (ha : Allocated h bs size r) :
    Allocated h bs size (zeroFill size r) := by
  unfold StyxOS.zeroFill
  cases ha with
  | fails rep keeps only =>
    rw [if_pos rfl]
    exact .fails rep keeps only
  | @succeeds h' bs' o s rep keeps hat hs hnew only =>
    rw [if_neg (by unfold blkHdr; omega)]
    exact .succeeds (rep.zeroed hat hs) keeps hat hs hnew only

theorem kcalloc_spec {n sz : ℕ} (hr : HeapRep h bs) (hsize : n * sz < 2 ^ 32)
    (pages : ℕ → ℕ → PageGrant) : ∃ r, Allocated h bs (n * sz) r ∧
      ∀ fuel, kcalloc pages (fuel + 2) h n sz = some r := by
  have hmul : u64 (n * sz) = n * sz := Nat.mod_eq_of_lt (by omega)
  obtain ⟨r, ha, hall⟩ := kmallocFrom_spec hr hsize pages 0
  by_cases hover : sz ≠ 0 ∧ n > (2 ^ 64 - 1) / sz
  · exact ⟨_, .null hr, fun fuel => by rw [kcalloc, if_pos hover]⟩
  · refine ⟨_, ha.zeroFill, fun fuel => ?_⟩
    rw [kcalloc_eq hover hmul, kmalloc, hall fuel, Option.map_some]

end StyxOS
