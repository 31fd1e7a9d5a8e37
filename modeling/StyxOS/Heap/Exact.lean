import StyxOS.Heap.History

/-! # Exact allocation

Whether an allocation either gives a payload of the size asked for inside the
heap, or fails and leaves everything as it was. Sizes run up to 2 ^ 64 - 1, so
rounding them and adding them to addresses may wrap, and a growth that fails
halfway keeps the pages it has mapped.
-/

namespace StyxOS

open Tiling ByteMem StepSystem

variable {h : Heap} {bs : List Block} {need size : ℕ}

/-! ## The pages that a call maps -/

/-- The pages of the mapping loop that get a frame, from page `i` on. -/
def mappedPages (pages : ℕ → PageGrant) : ℕ → ℕ → ℕ
  | _, 0 => 0
  | i, n + 1 =>
    match pages i with
    | .frame _ => mappedPages pages (i + 1) n + 1
    | _ => 0

/-- `n_pages` of `grow_heap`. -/
def growPages (need : ℕ) : ℕ := u64 (u64 (blkHdr + need) + pageSize - 1) / pageSize

/-- The end that `grow_heap` compares with the ceiling. -/
def growEnd (h : Heap) (need : ℕ) : ℕ := u64 (h.heapEnd + growPages need * pageSize)

/-- The pages that `grow_heap` maps. -/
def growMapped (h : Heap) (pages : ℕ → PageGrant) (need : ℕ) : ℕ :=
  if growEnd h need > h.ceiling then 0 else mappedPages pages 0 (growPages need)

/-- The pages that `kmalloc` maps. -/
def kmallocMapped (pages : ℕ → ℕ → PageGrant) : ℕ → ℕ → Heap → ℕ → ℕ
  | 0, _, _, _ => 0
  | fuel + 1, i, h, size =>
    if size = 0 then 0 else
    match firstFit h.mem (alignUp size) (walkFuel h) h.head 0 with
    | some (.exhausted prev) =>
      let r := growHeap h (pages i) (alignUp size)
      growMapped h (pages i) (alignUp size) +
        if r.1 = 0 then 0 else kmallocMapped pages fuel (i + 1) (linkBlock r.2 prev r.1) size
    | _ => 0

/-- The pages that `kcalloc` maps. -/
def kcallocMapped (pages : ℕ → ℕ → PageGrant) (fuel : ℕ) (h : Heap) (n sz : ℕ) : ℕ :=
  if sz ≠ 0 ∧ n > (2 ^ 64 - 1) / sz then 0 else kmallocMapped pages fuel 0 h (u64 (n * sz))

/-! ## The property -/

/-- The call returns a payload that holds the size and lies inside the heap. -/
structure Gives (h : Heap) (size : ℕ) (r : ℕ × Heap) : Prop where
  size_le : size ≤ fSize.get r.2.mem (r.1 - blkHdr)
  base_le : h.base ≤ r.1
  le_end : r.1 + fSize.get r.2.mem (r.1 - blkHdr) ≤ r.2.heapEnd
  end_le : r.2.heapEnd ≤ h.ceiling
  running : r.2.halted = false

/-- The call gives what was asked for, or returns NULL, has mapped no page and changed nothing. -/
inductive Exact (h : Heap) (size mapped : ℕ) : ℕ × Heap → Prop
  | gives {r : ℕ × Heap} (hr : Gives h size r) : Exact h size mapped r
  | fails (hm : mapped = 0) : Exact h size mapped (0, h)

/-- The operation returns, and exactly if it is an allocation. -/
def ExactCall (h : Heap) : HeapOp → Prop
  | .malloc size pages => ∃ fuel r, kmalloc pages fuel h size = some r ∧
      Exact h size (kmallocMapped pages fuel 0 h size) r
  | .calloc n sz pages => ∃ fuel r, kcalloc pages fuel h n sz = some r ∧
      Exact h (n * sz) (kcallocMapped pages fuel h n sz) r
  | _ => True

/-! ## The condition -/

/-- A free block of the list has the size. -/
def HasFit (h : Heap) (need : ℕ) : Prop :=
  ∃ a, OnList h.mem h.head a ∧ fFree.get h.mem a ≠ 0 ∧ need ≤ fSize.get h.mem a

/-- The pages that a request takes with its header, in numbers that do not wrap. -/
def pagesFor (size : ℕ) : ℕ :=
  (blkHdr + (size + (heapAlign - 1)) / heapAlign * heapAlign + pageSize - 1) / pageSize

/-- The request is for nothing, or a block fits it and rounding it does not wrap, or the growth that
it needs is refused before the first page, or gets all its pages below the ceiling. -/
inductive Served (h : Heap) (size : ℕ) (pages : ℕ → PageGrant) : Prop
  | nothing (h0 : size = 0)
  | fits (hsize : size ≤ 2 ^ 64 - heapAlign) (room : HasFit h (alignUp size))
  | full (none : ¬ HasFit h (alignUp size)) (hc : growEnd h (alignUp size) > h.ceiling)
  | noFrame (none : ¬ HasFit h (alignUp size)) (hn : 0 < growPages (alignUp size))
      (hp : pages 0 = .noFrame)
  | grows (none : ¬ HasFit h (alignUp size))
      (hc : h.heapEnd + pagesFor size * pageSize ≤ h.ceiling)
      (hp : ∀ i < pagesFor size, ∃ bytes, pages i = .frame bytes)

/-- The same for an operation; `kcalloc` refuses a product that is out of range. -/
def ServedCall (h : Heap) : HeapOp → Prop
  | .malloc size pages => Served h size (pages 0)
  | .calloc n sz pages => 2 ^ 64 ≤ n * sz ∨ Served h (n * sz) (pages 0)
  | _ => True

/-! ## Room on the list -/

theorem at_of_onList {m : Mem} {a x : ℕ} (h : OnList m a x) {bs : List Block}
    (hl : Links m 0 a bs) (hne : bs ≠ []) : ∃ o b, At blkHdr bs o b ∧ x = a + o := by
  induction h generalizing bs with
  | @here a =>
    cases bs with
    | nil => exact absurd rfl hne
    | cons b bs => exact ⟨0, b, Or.inl ⟨rfl, rfl⟩, rfl⟩
  | @next a x hnext _ ih =>
    cases bs with
    | nil => exact absurd rfl hne
    | cons b bs =>
      obtain ⟨hb, hbs⟩ := hl
      have hn := hb.next
      split at hn
      · exact absurd hn hnext
      · next hne' =>
        rw [hn] at ih
        obtain ⟨o, c, hat, rfl⟩ := ih hbs hne'
        exact ⟨blkHdr + b.size + o, c, Or.inr ⟨o, rfl, hat⟩, by omega⟩

theorem HeapRep.hasFit_iff (hr : HeapRep h bs) : HasFit h need ↔ ∃ b ∈ bs, Fits need b := by
  constructor
  · rintro ⟨a, hon, hfree, hle⟩
    rw [hr.head] at hon
    obtain ⟨o, b, hat, rfl⟩ := at_of_onList hon hr.links hr.nonempty
    obtain ⟨n, hh⟩ := hr.header hat
    rw [hr.base, hh.free, freeOf] at hfree
    rw [hr.base, hh.size] at hle
    refine ⟨b, hat.mem, ?_, hle⟩
    cases hu : b.used with
    | false => rfl
    | true => simp [hu] at hfree
  · rintro ⟨b, hb, hu, hle⟩
    obtain ⟨pre, post, rfl⟩ := List.append_of_mem hb
    have hat : At blkHdr (pre ++ b :: post) (span blkHdr pre) b := at_span pre b post
    have hh := hr.links.header
    refine ⟨h.base + span blkHdr pre, ?_, ?_, ?_⟩
    · rw [hr.head]
      exact onList_of_links hr.links hat
    · rw [hh.free, freeOf, hu]
      decide
    · rw [hh.size]
      exact hle

theorem HeapRep.walk_of_not_hasFit (hr : HeapRep h bs) (hnone : ¬ HasFit h need) :
    firstFit h.mem need (walkFuel h) h.head 0 = some (.exhausted (lastAddr h.base bs 0)) := by
  rw [hr.hasFit_iff] at hnone
  rcases hr.walk need with ⟨pre, b, post, rfl, hb, -⟩ | ⟨-, hw⟩
  · exact absurd ⟨b, by simp, hb⟩ hnone
  · exact hw

theorem firstFit_passes {m : Mem} {a : ℕ} {c : Block} (fuel prev : ℕ)
    (hl : Links m 0 a (bs ++ [c])) (ha : 0 < a) (hbs : ∀ b ∈ bs, ¬ Fits need b)
    (hc : Fits need c) : firstFit m need fuel a prev = none ∨
      firstFit m need fuel a prev = some (.found (a + span blkHdr bs)) := by
  induction bs generalizing a fuel prev with
  | nil =>
    cases fuel with
    | zero => exact Or.inl rfl
    | succ fuel =>
      unfold Fits at hc
      rw [firstFit_cons ha hl.1, if_pos hc]
      exact Or.inr rfl
  | cons b bs ih =>
    cases fuel with
    | zero => exact Or.inl rfl
    | succ fuel =>
      obtain ⟨hb, hrest⟩ := hl
      have hfit := hbs b (by simp)
      unfold Fits at hfit
      have he : a + (blkHdr + b.size + span blkHdr bs) =
          a + (blkHdr + b.size) + span blkHdr bs := by omega
      rw [firstFit_cons ha hb, if_neg hfit, if_neg (by simp), span_cons, he]
      exact ih fuel a hrest (by omega) fun b' hb' => hbs b' (List.mem_cons_of_mem _ hb')

/-! ## Growing -/

theorem mapPages_mapped {pages : ℕ → PageGrant} {a i n : ℕ} {m m' : Mem}
    (h : mapPages pages a i n m = .mapped m') :
    mappedPages pages i n = n ∧ ∀ j < n, ∃ bytes, pages (i + j) = .frame bytes := by
  induction n generalizing i m with
  | zero => exact ⟨rfl, by simp⟩
  | succ n ih =>
    unfold mapPages at h
    unfold mappedPages
    cases hp : pages i with
    | noFrame => simp [hp] at h
    | noTable => simp [hp] at h
    | frame bytes =>
      simp only [hp] at h ⊢
      obtain ⟨hn, hall⟩ := ih h
      refine ⟨by rw [hn], fun j hj => ?_⟩
      cases j with
      | zero => exact ⟨bytes, hp⟩
      | succ j =>
        obtain ⟨bytes', hp'⟩ := hall j (by omega)
        exact ⟨bytes', by rw [← hp']; congr 1; omega⟩

theorem mapPages_of_frames (pages : ℕ → PageGrant) (a i : ℕ) {n : ℕ} (m : Mem)
    (hp : ∀ j < n, ∃ bytes, pages (i + j) = .frame bytes) :
    ∃ m', mapPages pages a i n m = .mapped m' := by
  induction n generalizing i m with
  | zero => exact ⟨m, rfl⟩
  | succ n ih =>
    obtain ⟨bytes, h0⟩ := hp 0 (by omega)
    rw [Nat.add_zero] at h0
    unfold mapPages
    simp only [h0]
    refine ih (i + 1) _ fun j hj => ?_
    obtain ⟨bytes', hj'⟩ := hp (j + 1) (by omega)
    exact ⟨bytes', by rw [← hj']; congr 1; omega⟩

theorem mapPages_noFrame {pages : ℕ → PageGrant} {a i n : ℕ} {m m' : Mem}
    (h : mapPages pages a i n m = .noFrame m') (h0 : mappedPages pages i n = 0) :
    0 < n ∧ pages i = .noFrame := by
  cases n with
  | zero => simp [mapPages] at h
  | succ n =>
    unfold mapPages at h
    unfold mappedPages at h0
    cases hp : pages i with
    | noFrame => exact ⟨by omega, rfl⟩
    | noTable => simp [hp] at h
    | frame bytes => simp [hp] at h0

/-- What `grow_heap` returns once the end it has computed is below the ceiling. -/
def growResult (h : Heap) (need : ℕ) : MapResult → ℕ × Heap
  | .noFrame m => (0, { h with mem := m })
  | .halted m => (0, { h with mem := m, halted := true })
  | .mapped m =>
    (h.heapEnd, { h with
      mem := writeHeader m h.heapEnd heapMagicFree 1
        (u64 (growPages need * pageSize + 2 ^ 64 - blkHdr)) 0
      heapEnd := growEnd h need })

theorem growHeap_eq (h : Heap) (pages : ℕ → PageGrant) (need : ℕ) :
    growHeap h pages need = if growEnd h need > h.ceiling then (0, h) else
      growResult h need (mapPages pages h.heapEnd 0 (growPages need) h.mem) := by
  have hbytes : u64 (growPages need * pageSize) = growPages need * pageSize := by
    unfold growPages u64 pageSize
    omega
  unfold growEnd growPages at *
  unfold growHeap
  dsimp only
  rw [hbytes]
  split
  · rfl
  · generalize mapPages pages h.heapEnd 0 _ h.mem = res
    unfold growResult growEnd growPages
    cases res <;> rfl

/-- A growth by no pages, for a size that wraps, makes a block of almost 2 ^ 64 bytes; a walk that
returns finds it. -/
theorem HeapRep.firstFit_of_no_pages (hr : HeapRep h bs) (hnone : ¬ HasFit h need)
    (h0 : growPages need = 0) (hneed : 16 ∣ need) (hlt : need < 2 ^ 64) (fuel prev : ℕ) :
    let m := fNext.set (writeHeader h.mem h.heapEnd heapMagicFree 1 (2 ^ 64 - blkHdr) 0)
      (lastAddr h.base bs 0) h.heapEnd
    firstFit m need fuel h.base prev = none ∨
      firstFit m need fuel h.base prev = some (.found h.heapEnd) := by
  intro m
  have hfit : Fits need ⟨2 ^ 64 - blkHdr, false⟩ := by
    refine ⟨rfl, ?_⟩
    unfold growPages u64 blkHdr pageSize at h0
    unfold blkHdr
    dsimp only
    omega
  have hlinks := hr.links_grown
    (m := writeHeader h.mem h.heapEnd heapMagicFree 1 (2 ^ 64 - blkHdr) 0)
    (writeHeader_header (by decide) (by decide)) fun y hy => writeHeader_apply (Or.inl hy)
  rw [hr.hasFit_iff] at hnone
  have hpass := firstFit_passes fuel prev hlinks hr.base_pos
    (fun b hb hf => hnone ⟨b, hb, hf⟩) hfit
  rwa [← hr.heapEnd] at hpass

theorem HeapRep.payload_ne_zero (hr : HeapRep h bs) {x : ℕ} (hhi : x ≤ h.heapEnd) :
    u64 (x + blkHdr) ≠ 0 := by
  have hpos := hr.base_pos
  have hend := hr.end_lt
  rw [hr.heapEnd] at hhi
  unfold u64 blkHdr at *
  omega

theorem alignUp_lt (size : ℕ) : alignUp size < 2 ^ 64 ∧ 16 ∣ alignUp size := by
  unfold alignUp u64 heapAlign
  omega

theorem growPages_eq_pagesFor (hsize : size ≤ heapMaxSize) :
    growPages (alignUp size) = pagesFor size := by
  unfold heapMaxSize at hsize
  unfold growPages pagesFor alignUp u64 blkHdr pageSize heapAlign
  omega

theorem HeapRep.growEnd_eq (hr : HeapRep h bs) (hsize : size ≤ heapMaxSize) :
    growEnd h (alignUp size) = h.heapEnd + pagesFor size * pageSize := by
  have hend := hr.le_ceiling
  rw [hr.ceiling] at hend
  rw [growEnd, growPages_eq_pagesFor hsize]
  refine Nat.mod_eq_of_lt ?_
  unfold heapMaxSize at hsize
  unfold heapBaseAddr heapMaxSize at hend
  unfold pagesFor blkHdr pageSize heapAlign
  omega

/-! ## Exact calls are served -/

/-- When the size has wrapped the heap grows by no page, and the retry that returns has taken the
block of no pages. -/
theorem HeapRep.retry_ne_zero (hr : HeapRep h bs) (h0 : size ≠ 0)
    (hnone : ¬ HasFit h (alignUp size)) (hzero : growPages (alignUp size) = 0)
    {pages : ℕ → ℕ → PageGrant} {fuel i : ℕ} {r : ℕ × Heap}
    (hk : kmallocFrom pages fuel i (linkBlock (growResult h (alignUp size) (.mapped h.mem)).2
      (lastAddr h.base bs 0) h.heapEnd) size = some r) : r.1 ≠ 0 := by
  obtain ⟨hlt, h16⟩ := alignUp_lt size
  have hsz : u64 (0 * pageSize + 2 ^ 64 - blkHdr) = 2 ^ 64 - blkHdr := by decide
  cases fuel with
  | zero => simp [kmallocFrom] at hk
  | succ fuel =>
    rw [kmallocFrom, if_neg h0, linkBlock, if_pos hr.lastAddr_ne_zero, growResult] at hk
    dsimp only at hk
    rw [hzero, hsz, hr.head] at hk
    rcases hr.firstFit_of_no_pages hnone hzero h16 hlt _ 0 with hw | hw
    · rw [hw] at hk
      exact absurd hk (by simp)
    · rw [hw] at hk
      cases hk
      exact hr.payload_ne_zero le_rfl

/-- A call that returns a payload of a size that the heap could hold, or fails without having mapped
a page, meets the condition. -/
theorem HeapRep.served_of_kmalloc (hr : HeapRep h bs) {pages : ℕ → ℕ → PageGrant} {fuel : ℕ}
    {r : ℕ × Heap} (hk : kmalloc pages fuel h size = some r) (hrun : r.2.halted = false)
    (he : r.1 ≠ 0 ∧ size ≤ heapMaxSize ∨ r.1 = 0 ∧ kmallocMapped pages fuel 0 h size = 0) :
    Served h size (pages 0) := by
  by_cases h0 : size = 0
  · exact .nothing h0
  cases fuel with
  | zero => simp [kmalloc, kmallocFrom] at hk
  | succ fuel =>
    rw [kmalloc, kmallocFrom, if_neg h0] at hk
    rw [kmallocMapped, if_neg h0] at he
    by_cases hroom : HasFit h (alignUp size)
    · rcases hr.walk (alignUp size) with ⟨pre, b, post, rfl, -, hwalk⟩ | ⟨hnone, -⟩
      · rcases he with ⟨-, hmax⟩ | ⟨hz, -⟩
        · exact .fits (by unfold heapMaxSize at hmax; unfold heapAlign; omega) hroom
        · rw [hwalk] at hk
          cases hk
          refine absurd hz (hr.payload_ne_zero ?_)
          rw [hr.heapEnd, span_append]
          omega
      · obtain ⟨b, hb, hf⟩ := hr.hasFit_iff.mp hroom
        exact absurd hf (hnone b hb)
    · have hwalk := hr.walk_of_not_hasFit hroom
      rw [hwalk] at hk he
      dsimp only at hk he
      rw [growHeap_eq] at hk he
      by_cases hc : growEnd h (alignUp size) > h.ceiling
      · exact .full hroom hc
      · rw [growMapped, if_neg hc, if_neg hc] at he
        rw [if_neg hc] at hk
        have hne := hr.heapEnd_pos.ne'
        cases hm : mapPages (pages 0) h.heapEnd 0 (growPages (alignUp size)) h.mem with
        | noFrame m =>
          rw [hm, growResult, if_pos rfl] at hk he
          cases hk
          rcases he with ⟨hbad, -⟩ | ⟨-, hz⟩
          · exact absurd rfl hbad
          · obtain ⟨hn, hp⟩ := mapPages_noFrame hm hz
            exact .noFrame hroom hn hp
        | halted m =>
          rw [hm, growResult, if_pos rfl] at hk
          cases hk
          exact absurd hrun (by simp)
        | mapped m =>
          obtain ⟨hn, hall⟩ := mapPages_mapped hm
          rw [hm, growResult, if_neg hne] at hk he
          rcases he with ⟨-, hmax⟩ | ⟨hz, h0p⟩
          · rw [hr.growEnd_eq hmax] at hc
            rw [growPages_eq_pagesFor hmax] at hall
            exact .grows hroom (by omega) (by simpa using hall)
          -- no page was mapped: the size has wrapped, and the retry takes the new block
          · have hzero : growPages (alignUp size) = 0 := by omega
            rw [hzero] at hm
            cases hm
            exact absurd hz (hr.retry_ne_zero h0 hroom hzero hk)

/-! ## Served calls are exact -/

theorem At.le_span {o : ℕ} {b : Block} (hat : At blkHdr bs o b) :
    o + blkHdr + b.size ≤ span blkHdr bs := by
  obtain ⟨pre, post, rfl, rfl⟩ := hat.exists_split
  rw [span_append, span_cons]
  omega

theorem Allocated.gives {r : ℕ × Heap} (ha : Allocated h bs size r) (hr : HeapRep h bs)
    (hne : r.1 ≠ 0) (hrun : r.2.halted = false) : Gives h size r := by
  cases ha with
  | fails => exact absurd rfl hne
  | @succeeds h' bs' o s rep keeps hat hs hnew only =>
    obtain ⟨n, hh⟩ := rep.header hat
    have hsz : fSize.get h'.mem (heapBaseAddr + o + blkHdr - blkHdr) = s := by
      rw [Nat.add_sub_cancel]
      exact hh.size
    have hspan := At.le_span hat
    constructor
    · rw [hsz]
      exact hs
    · rw [hr.base]
      dsimp only
      omega
    · rw [hsz, rep.heapEnd, rep.base]
      dsimp only at hspan ⊢
      omega
    · rw [hr.ceiling, ← rep.ceiling]
      exact rep.le_ceiling
    · exact hrun

theorem HeapRep.growHeap_of_frames (hr : HeapRep h bs) {pages : ℕ → PageGrant}
    (hsize : size ≤ heapMaxSize) (hc : h.heapEnd + pagesFor size * pageSize ≤ h.ceiling)
    (hp : ∀ i < pagesFor size, ∃ bytes, pages i = .frame bytes) :
    (growHeap h pages (alignUp size)).1 ≠ 0 := by
  obtain ⟨m, hm⟩ := mapPages_of_frames pages h.heapEnd 0 h.mem (by simpa using hp)
  rw [growHeap_eq, hr.growEnd_eq hsize, if_neg (by omega), growPages_eq_pagesFor hsize, hm]
  exact hr.heapEnd_pos.ne'

theorem HeapRep.kmalloc_of_served (hr : HeapRep h bs) (hrun : h.halted = false)
    {pages : ℕ → ℕ → PageGrant} (hs : Served h size (pages 0)) :
    ∃ r, Allocated h bs size r ∧ Exact h size (kmallocMapped pages 2 0 h size) r ∧
      kmalloc pages 2 h size = some r := by
  have hkeeps : Allocated h bs size (0, h) := .null hr
  rcases Nat.eq_zero_or_pos size with rfl | h0
  · exact ⟨_, hkeeps, .fails (by rw [kmallocMapped, if_pos rfl]),
      by rw [kmalloc, kmallocFrom, if_pos rfl]⟩
  -- a growth that ends with the heap as it was before
  have hrefused : ¬ HasFit h (alignUp size) →
      growHeap h (pages 0) (alignUp size) = (0, h) →
      growMapped h (pages 0) (alignUp size) = 0 →
      ∃ r, Allocated h bs size r ∧ Exact h size (kmallocMapped pages 2 0 h size) r ∧
        kmalloc pages 2 h size = some r := by
    intro hnone hg hm
    have hwalk := hr.walk_of_not_hasFit hnone
    refine ⟨_, hkeeps, .fails ?_, ?_⟩
    · rw [kmallocMapped, if_neg h0.ne', hwalk]
      dsimp only
      rw [hg, hm, if_pos rfl]
    · rw [kmalloc, kmallocFrom, if_neg h0.ne', hwalk]
      dsimp only
      rw [hg, if_pos rfl]
  cases hs with
  | nothing hz => omega
  | fits hsize hroom =>
    obtain ⟨r, ha, hne, hh, hall⟩ :=
      kmallocFrom_of_fits hr h0 hsize (hr.hasFit_iff.mp hroom) pages 0
    exact ⟨r, ha, .gives (ha.gives hr hne (hh.trans hrun)), hall 1⟩
  | full hnone hc =>
    refine hrefused hnone ?_ ?_
    · rw [growHeap_eq, if_pos hc]
    · rw [growMapped, if_pos hc]
  | noFrame hnone hn hp =>
    obtain ⟨n, hn⟩ : ∃ n, growPages (alignUp size) = n + 1 := ⟨_, (Nat.sub_add_cancel hn).symm⟩
    refine hrefused hnone ?_ ?_
    · rw [growHeap_eq, hn, mapPages, hp]
      simp [growResult]
    · rw [growMapped, hn, mappedPages, hp]
      simp
  | grows hnone hc hp =>
    have hmax : size ≤ heapMaxSize := by
      have hle := hr.ceiling
      have hend := hr.heapEnd
      rw [hr.base] at hend
      unfold pagesFor blkHdr heapAlign pageSize at hc
      omega
    obtain ⟨-, -, hlt, -⟩ := alignUp_spec h0 (by unfold heapMaxSize at hmax; omega)
    rcases growHeap_spec hr (pages 0) (hr.clear_of_lt hlt) with
      ⟨hz, -⟩ | ⟨s, m, hle, h16, hc', hh, hm, hg⟩
    · exact absurd hz (hr.growHeap_of_frames hmax hc hp)
    · rw [hr.hasFit_iff] at hnone
      obtain ⟨r, ha, hne, hhalt, hall⟩ := kmallocFrom_of_grown hr h0
        (by unfold heapMaxSize at hmax; omega) (fun b hb hf => hnone ⟨b, hb, hf⟩) pages hle h16 hc'
        hh hm hg
      exact ⟨r, ha, .gives (ha.gives hr hne (hhalt.trans hrun)), hall 0⟩

/-! ## Calls -/

theorem overflow_iff {n sz : ℕ} : (sz ≠ 0 ∧ n > (2 ^ 64 - 1) / sz) ↔ 2 ^ 64 ≤ n * sz := by
  rcases Nat.eq_zero_or_pos sz with rfl | hpos
  · simp
  · rw [gt_iff_lt, Nat.div_lt_iff_lt_mul hpos]
    omega

@[simp] theorem zeroFill_fst (total : ℕ) (r : ℕ × Heap) : (zeroFill total r).1 = r.1 := by
  unfold zeroFill
  split <;> rfl

@[simp] theorem zeroFill_halted (total : ℕ) (r : ℕ × Heap) :
    (zeroFill total r).2.halted = r.2.halted := by
  unfold zeroFill
  split <;> rfl

/-- An exact call does not halt, and returns a payload of a size that the heap can hold or maps no
page. -/
theorem HeapRep.of_exact (hr : HeapRep h bs) (hrun : h.halted = false) {mapped : ℕ} {r : ℕ × Heap}
    (he : Exact h size mapped r) :
    r.2.halted = false ∧ (r.1 ≠ 0 ∧ size ≤ heapMaxSize ∨ r.1 = 0 ∧ mapped = 0) := by
  have hpos := hr.base_pos
  cases he with
  | gives hg =>
    have hceil := hg.end_le
    have hbase := hg.base_le
    have hsize := hg.size_le
    have hend := hg.le_end
    rw [hr.ceiling] at hceil
    rw [hr.base] at hbase hpos
    exact ⟨hg.running, Or.inl ⟨by omega, by omega⟩⟩
  | fails hm => exact ⟨hrun, Or.inr ⟨rfl, hm⟩⟩

theorem HeapRep.exact_zeroFill (hr : HeapRep h bs) {mapped : ℕ} {r : ℕ × Heap}
    (he : Exact h size mapped r) : Exact h size mapped (zeroFill size r) := by
  have hpos := hr.base_pos
  cases he with
  | gives hg =>
    have hbase := hg.base_le
    have hhdr : blkHdr ≤ r.1 := by
      rw [hr.base] at hbase
      unfold heapBaseAddr at hbase
      unfold blkHdr
      omega
    have hget : fSize.get (store r.2.mem r.1 (List.replicate size 0)) (r.1 - blkHdr) =
        fSize.get r.2.mem (r.1 - blkHdr) := by
      refine RecField.get_congr fun i hi => store_apply_of_lt ?_
      unfold fSize at *
      unfold blkHdr at *
      dsimp only at hi ⊢
      omega
    refine .gives ?_
    rw [zeroFill, if_neg (by omega)]
    constructor
    · rw [hget]
      exact hg.size_le
    · exact hg.base_le
    · rw [hget]
      exact hg.le_end
    · exact hg.end_le
    · exact hg.running
  | fails hm =>
    rw [zeroFill, if_pos rfl]
    exact .fails hm

theorem HeapRep.exactCall_iff (hr : HeapRep h bs) (hrun : h.halted = false) (op : HeapOp) :
    ExactCall h op ↔ ServedCall h op := by
  cases op with
  | malloc size pages =>
    constructor
    · rintro ⟨fuel, r, hk, he⟩
      obtain ⟨hh, hcase⟩ := hr.of_exact hrun he
      exact hr.served_of_kmalloc hk hh hcase
    · intro hs
      obtain ⟨r, -, he, hk⟩ := hr.kmalloc_of_served hrun hs
      exact ⟨2, r, hk, he⟩
  | calloc n sz pages =>
    unfold ExactCall ServedCall kcallocMapped
    dsimp only
    by_cases hover : sz ≠ 0 ∧ n > (2 ^ 64 - 1) / sz
    · refine iff_of_true ⟨0, _, by rw [kcalloc, if_pos hover], .fails (if_pos hover)⟩ (Or.inl ?_)
      exact overflow_iff.mp hover
    · have hlt : ¬ 2 ^ 64 ≤ n * sz := fun h => hover (overflow_iff.mpr h)
      have hmul : u64 (n * sz) = n * sz := Nat.mod_eq_of_lt (by omega)
      simp only [if_neg hover, hmul, hlt, false_or, kcalloc_eq hover hmul]
      constructor
      · rintro ⟨fuel, r', hk, he⟩
        obtain ⟨r, hr', rfl⟩ := Option.map_eq_some_iff.mp hk
        obtain ⟨hh, hcase⟩ := hr.of_exact hrun he
        rw [zeroFill_halted] at hh
        rw [zeroFill_fst] at hcase
        exact hr.served_of_kmalloc hr' hh hcase
      · intro hs
        obtain ⟨r, -, he, hk⟩ := hr.kmalloc_of_served hrun hs
        exact ⟨2, _, by rw [hk, Option.map_some], hr.exact_zeroFill he⟩
  | free p => exact Iff.rfl
  | write a bytes => exact Iff.rfl

theorem HeapRep.kcalloc_of_served (hr : HeapRep h bs) (hrun : h.halted = false) {n sz : ℕ}
    {pages : ℕ → ℕ → PageGrant} (hs : ServedCall h (.calloc n sz pages)) :
    ∃ r, Allocated h bs (n * sz) r ∧ kcalloc pages 2 h n sz = some r := by
  rcases hs with hover | hs
  · exact ⟨_, .null hr, by rw [kcalloc, if_pos (overflow_iff.mpr hover)]⟩
  · by_cases hover : sz ≠ 0 ∧ n > (2 ^ 64 - 1) / sz
    · exact ⟨_, .null hr, by rw [kcalloc, if_pos hover]⟩
    · have hmul : u64 (n * sz) = n * sz :=
        Nat.mod_eq_of_lt (not_le.mp fun h => hover (overflow_iff.mpr h))
      obtain ⟨r, ha, -, hk⟩ := hr.kmalloc_of_served hrun hs
      exact ⟨_, ha.zeroFill, by rw [kcalloc_eq hover hmul, hk, Option.map_some]⟩

/-! ## Runs -/

namespace HeapHistory

/-- What clients may do: ask for any size, free NULL or a live payload, write inside a live one. -/
def Client (h : HeapHistory) : HeapOp → Prop
  | .malloc size _ => size < 2 ^ 64
  | .calloc n sz _ => n < 2 ^ 64 ∧ sz < 2 ^ 64
  | .free p => p = 0 ∨ ∃ n, (p, n) ∈ h.live
  | .write a bytes => ∃ p n, (p, n) ∈ h.live ∧ p ≤ a ∧ a + bytes.length ≤ p + h.payloadSize p

theorem Inv.step_of_served {h : HeapHistory} (hi : h.Inv bs) {op : HeapOp} (ha : h.Client op)
    (hrun : h.heap.halted = false) (hs : ServedCall h.heap op) : ∃ bs', (h.step op).Inv bs' := by
  have hh : ¬ h.heap.halted = true := by rw [hrun]; decide
  cases op with
  | malloc size pages =>
    obtain ⟨r, hr, -, hk⟩ := hi.rep.kmalloc_of_served hrun hs
    unfold HeapHistory.step
    rw [if_neg hh]
    dsimp only
    rw [hk]
    exact hi.alloc hr
  | calloc n sz pages =>
    obtain ⟨r, hr, hk⟩ := hi.rep.kcalloc_of_served hrun hs
    unfold HeapHistory.step
    rw [if_neg hh]
    dsimp only
    rw [hk]
    exact hi.alloc hr
  | free p =>
    rcases ha with rfl | ha
    · unfold HeapHistory.step
      rw [if_neg hh]
      refine ⟨bs, hi.rep, fun p n hp => hi.live p n (List.mem_filter.mp hp).1, ?_⟩
      exact hi.nodup.sublist (List.filter_sublist.map _)
    · have hfree : h.Allowed (.free p) := ha
      exact (hi.step hfree).1
  | write a bytes =>
    have hwrite : h.Allowed (.write a bytes) := ha
    exact (hi.step hwrite).1

end HeapHistory

/-- In a run of the heap's clients after `heap_init`, every allocation is exact just when every
allocation meets the condition. -/
theorem heap_exact_iff (m : Mem) (pages : ℕ → PageGrant) (ops : List HeapOp)
    (ha : AllSteps HeapHistory.step HeapHistory.Client (heapBoot m pages) ops) :
    AllSteps HeapHistory.step (fun h op => h.heap.halted = true ∨ ExactCall h.heap op)
        (heapBoot m pages) ops ↔
      AllSteps HeapHistory.step (fun h op => h.heap.halted = true ∨ ServedCall h.heap op)
        (heapBoot m pages) ops := by
  let I : HeapHistory → Prop := fun h => h.heap.halted = true ∨ ∃ bs, h.Inv bs
  refine allSteps_congr_of_allSteps (I := I) HeapHistory.step ?_ ?_ ?_ ha
  · rintro h op (hh | ⟨bs, hi⟩) -
    · simp [hh]
    · cases hrun : h.heap.halted with
      | true => simp
      | false => simpa using hi.rep.exactCall_iff hrun op
  · rintro h op hI hop hs
    cases hrun : h.heap.halted with
    | true =>
      left
      unfold HeapHistory.step
      rwa [if_pos hrun]
    | false =>
      rw [hrun] at hs
      rcases hI with hh | ⟨bs, hi⟩
      · simp [hrun] at hh
      · exact Or.inr (hi.step_of_served hop hrun (hs.resolve_left (by decide)))
  · rcases heapInit_rep m pages with hh | hr
    · exact Or.inl hh
    · exact Or.inr ⟨_, hr, fun _ _ hp => absurd hp List.not_mem_nil, List.nodup_nil⟩

theorem heapInit_running (m : Mem) {pages : ℕ → PageGrant}
    (hp : ∀ i < heapInitPages, ∃ bytes, pages i = .frame bytes) :
    (heapInit m pages).halted = false := by
  obtain ⟨m', hm⟩ := mapPages_of_frames pages heapBaseAddr 0 m (by simpa using hp)
  unfold heapInit
  dsimp only
  rw [hm]

theorem hasFit_fresh (m : Mem) {pages : ℕ → PageGrant}
    (hp : ∀ i < heapInitPages, ∃ bytes, pages i = .frame bytes) {need : ℕ}
    (hneed : need ≤ heapInitSize - blkHdr) : HasFit (heapBoot m pages).heap need := by
  have hboot : (heapBoot m pages).heap = heapInit m pages := rfl
  rw [hboot]
  rcases heapInit_rep m pages with hh | hr
  · rw [heapInit_running m hp] at hh
    exact absurd hh (by decide)
  · exact hr.hasFit_iff.mpr ⟨_, List.mem_singleton_self _, rfl, hneed⟩

/-- Two allocations, the second of more than there is, and a release of NULL, on a machine whose
frames run out after the start. -/
theorem heap_exact_iff_sample :
    AllSteps HeapHistory.step (fun h op => h.heap.halted = true ∨ ExactCall h.heap op)
      (heapBoot (fun _ => 0) fun _ => .frame fun _ => 0)
      [.malloc 24 fun _ _ => .noFrame, .calloc (2 ^ 63) 4 fun _ _ => .noFrame, .free 0] := by
  have hclient : AllSteps HeapHistory.step HeapHistory.Client
      (heapBoot (fun _ => 0) fun _ => .frame fun _ => 0)
      [.malloc 24 fun _ _ => .noFrame, .calloc (2 ^ 63) 4 fun _ _ => .noFrame, .free 0] :=
    ⟨(by decide : 24 < 2 ^ 64), (by decide : 2 ^ 63 < 2 ^ 64 ∧ 4 < 2 ^ 64), Or.inl rfl, trivial⟩
  have hroom : HasFit (heapBoot (fun _ => 0) fun _ => .frame fun _ => 0).heap (alignUp 24) :=
    hasFit_fresh _ (fun _ _ => ⟨_, rfl⟩) (by decide)
  apply (heap_exact_iff _ _ _ hclient).mpr
  refine ⟨Or.inr ?_, Or.inr ?_, Or.inr trivial, trivial⟩
  · exact .fits (by decide) hroom
  · exact Or.inl (by decide)

theorem not_exactCall_fresh (m : Mem) {pages : ℕ → PageGrant}
    (hp : ∀ i < heapInitPages, ∃ bytes, pages i = .frame bytes) (grants : ℕ → ℕ → PageGrant) :
    ¬ ((heapBoot m pages).heap.halted = true ∨
      ExactCall (heapBoot m pages).heap (.malloc (2 ^ 64 - 1) grants)) := by
  have hboot : (heapBoot m pages).heap = heapInit m pages := rfl
  have hrun := heapInit_running m hp
  have hfit : HasFit (heapBoot m pages).heap (alignUp (2 ^ 64 - 1)) :=
    hasFit_fresh m hp (by decide)
  rw [hboot] at hfit
  rw [hboot, hrun]
  rcases heapInit_rep m pages with hh | hr
  · simp [hrun] at hh
  · rintro (hbad | he)
    · exact Bool.noConfusion hbad
    · cases (hr.exactCall_iff hrun _).mp he with
      | nothing h0 => exact absurd h0 (by decide)
      | fits hsize _ => exact absurd hsize (by decide)
      | full hnone _ => exact hnone hfit
      | noFrame hnone _ _ => exact hnone hfit
      | grows hnone _ _ => exact hnone hfit

/-- A client that asks a fresh heap for 2 ^ 64 - 1 bytes is given a block. -/
theorem heap_not_exact :
    ¬ ∀ (m : Mem) (pages : ℕ → PageGrant) (ops : List HeapOp),
      AllSteps HeapHistory.step HeapHistory.Client (heapBoot m pages) ops →
      AllSteps HeapHistory.step (fun h op => h.heap.halted = true ∨ ExactCall h.heap op)
        (heapBoot m pages) ops := by
  intro hall
  have hrun := hall (fun _ => 0) (fun _ => .frame fun _ => 0)
    [.malloc (2 ^ 64 - 1) fun _ _ => .noFrame]
    ⟨(by decide : 2 ^ 64 - 1 < 2 ^ 64), trivial⟩
  exact not_exactCall_fresh _ (fun _ _ => ⟨_, rfl⟩) _ hrun.1

end StyxOS
