import StyxOS.Heap.Exact
import Mathlib.Data.List.Chain

/-! # Freed memory

When everything has been freed, the heap is of use as a whole only if its list
is one block again. `kfree` merges a block with the one behind it and never with
the one in front, so a block freed behind a free one leaves a seam that no later
release removes.
-/

namespace StyxOS

open Tiling ByteMem StepSystem

variable {h : Heap} {bs bs' pre post mid : List Block} {b c : Block} {need size s : ℕ}

/-! ## Neighbours on the list -/

/-- Of two neighbours at least one is in use. -/
def Merged (bs : List Block) : Prop := bs.IsChain fun b c => b.used = true ∨ c.used = true

theorem Merged.length_eq_one (hm : Merged bs) (hne : bs ≠ []) (hfree : ∀ b ∈ bs, b.used = false) :
    bs.length = 1 := by
  match bs, hne, hm with
  | [_], _, _ => rfl
  | b :: c :: bs, _, hm =>
    have hb := hfree b (by simp)
    have hc := hfree c (by simp)
    rcases (List.isChain_cons_cons.mp hm).1 with hu | hu
    · exact Bool.noConfusion (hb.symm.trans hu)
    · exact Bool.noConfusion (hc.symm.trans hu)

theorem Merged.replace_free (hm : Merged (pre ++ b :: post)) (hb : b.used = false)
    (hmid : Merged mid) : Merged (pre ++ mid ++ post) := by
  obtain ⟨hpre, htail, hseam⟩ := List.isChain_append.mp hm
  obtain ⟨hhead, hpost⟩ := List.isChain_cons.mp htail
  have hlast : ∀ x ∈ pre.getLast?, x.used = true := fun x hx =>
    (hseam x hx b (by simp)).resolve_right (by simp [hb])
  have hfirst : ∀ y ∈ post.head?, y.used = true := fun y hy =>
    (hhead y hy).resolve_left (by simp [hb])
  rw [List.append_assoc]
  refine hpre.append (hmid.append hpost fun _ _ y hy => Or.inr (hfirst y hy)) fun x hx _ _ =>
    Or.inl (hlast x hx)

theorem merged_takenBlocks (b : Block) (need : ℕ) : Merged (takenBlocks b need) := by
  unfold takenBlocks
  split
  · exact List.isChain_cons_cons.mpr ⟨Or.inl rfl, .singleton _⟩
  · exact .singleton _

theorem takenBlocks_head_used (hc : c ∈ (takenBlocks b need).head?) : c.used = true := by
  unfold takenBlocks at hc
  split at hc
  · obtain rfl : _ = c := by simpa using hc
    rfl
  · obtain rfl : _ = c := by simpa using hc
    rfl

/-- What an allocation makes of the list: a block that fits gives way to what is taken of it, or
where none fits a new block is taken at the end. -/
inductive TakenIn (need : ℕ) (bs : List Block) : List Block → Prop
  | within {pre post : List Block} {b : Block} (hbs : bs = pre ++ b :: post) (hfit : Fits need b) :
      TakenIn need bs (pre ++ takenBlocks b need ++ post)
  | behind {s : ℕ} (hs : need ≤ s) : TakenIn need bs (bs ++ takenBlocks ⟨s, false⟩ need)

theorem Merged.takenIn (hm : Merged bs) (hp : TakenIn need bs bs') : Merged bs' := by
  cases hp with
  | within hbs hfit =>
    subst hbs
    exact hm.replace_free hfit.1 (merged_takenBlocks _ _)
  | behind hs =>
    exact hm.append (merged_takenBlocks _ _) fun _ _ c hc => Or.inr (takenBlocks_head_used hc)

theorem Merged.freed (hm : Merged (pre ++ ⟨s, true⟩ :: post))
    (hpre : ∀ b ∈ pre.getLast?, b.used = true) : Merged (pre ++ freedBlocks s post) := by
  obtain ⟨hinit, htail, -⟩ := List.isChain_append.mp hm
  obtain ⟨-, hpost⟩ := List.isChain_cons.mp htail
  refine hinit.append ?_ fun b hb _ _ => Or.inl (hpre b hb)
  cases post with
  | nil => exact .singleton _
  | cons c post =>
    rw [freedBlocks]
    split
    · next hc => exact List.isChain_cons_cons.mpr ⟨Or.inr hc, hpost⟩
    · next hc =>
      obtain ⟨hhead, hrest⟩ := List.isChain_cons.mp hpost
      refine List.isChain_cons.mpr ⟨fun y hy => Or.inr ?_, hrest⟩
      exact (hhead y hy).resolve_left hc

/-- The release of the only block in use leaves one block just when it is the first and at most one
is behind it. -/
theorem length_freedBlocks (hpost : ∀ c ∈ post, c.used = false) :
    (pre ++ freedBlocks s post).length = 1 ↔ pre = [] ∧ post.length ≤ 1 := by
  have hlen : (freedBlocks s post).length = max post.length 1 := by
    cases post with
    | nil => rfl
    | cons c post =>
      have hc := hpost c (by simp)
      rw [freedBlocks, if_neg (by simp [hc])]
      simp
  rw [List.length_append, hlen, ← List.length_eq_zero_iff]
  omega

/-! ## The list is determined by memory -/

theorem Header.block_unique {m : Mem} {a n n' : ℕ} (hb : Header m a b n) (hc : Header m a c n') :
    b = c ∧ n = n' := by
  have hu : magicOf b = magicOf c := hb.magic.symm.trans hc.magic
  have hs : b.size = c.size := hb.size.symm.trans hc.size
  refine ⟨?_, hb.next.symm.trans hc.next⟩
  obtain ⟨size, used⟩ := b
  obtain ⟨size', used'⟩ := c
  obtain rfl : size = size' := hs
  have hmagic : heapMagicUsed ≠ heapMagicFree := by decide
  cases used <;> cases used' <;> simp_all [magicOf]

theorem Links.unique {m : Mem} {a : ℕ} (hl : Links m 0 a bs) (hl' : Links m 0 a bs')
    (hne : bs ≠ []) (hne' : bs' ≠ []) : bs = bs' := by
  induction bs generalizing a bs' with
  | nil => exact absurd rfl hne
  | cons b bs ih =>
    cases bs' with
    | nil => exact absurd rfl hne'
    | cons c bs' =>
      obtain ⟨hb, hrest⟩ := hl
      obtain ⟨hc, hrest'⟩ := hl'
      obtain ⟨rfl, hn⟩ := hb.block_unique hc
      by_cases h : bs = []
      · by_cases h' : bs' = []
        · rw [h, h']
        · rw [if_pos h, if_neg h'] at hn
          unfold blkHdr at hn
          omega
      · by_cases h' : bs' = []
        · rw [if_neg h, if_pos h'] at hn
          unfold blkHdr at hn
          omega
        · rw [ih hrest hrest' h h']

theorem HeapRep.unique (hr : HeapRep h bs) (hr' : HeapRep h bs') : bs = bs' :=
  hr.links.unique hr'.links hr.nonempty hr'.nonempty

/-! ## The calls on the list -/

/-- `heap_end` and a request with its header, in whole pages, stay below 2 ^ 64. -/
def Heap.Unwrapped (h : Heap) (size : ℕ) : Prop := h.heapEnd + pagesFor size * pageSize < 2 ^ 64

theorem Heap.Unwrapped.bounds (hr : HeapRep h bs) (hw : h.Unwrapped size) :
    size ≤ 2 ^ 64 - 16 ∧
      h.heapEnd + (blkHdr + alignUp size + pageSize - 1) / pageSize * pageSize < 2 ^ 64 := by
  have hend := hr.heapEnd
  rw [hr.base] at hend
  unfold Heap.Unwrapped pagesFor at hw
  have hsize : size ≤ 2 ^ 64 - 16 := by
    unfold heapBaseAddr at hend
    unfold blkHdr heapAlign pageSize at hw
    omega
  have hal : alignUp size = (size + (heapAlign - 1)) / heapAlign * heapAlign := by
    unfold alignUp u64 heapAlign
    omega
  rw [hal]
  exact ⟨hsize, hw⟩

theorem HeapRep.unwrapped (hr : HeapRep h bs) (hsize : size ≤ heapMaxSize) : h.Unwrapped size := by
  have hend := hr.end_lt
  rw [← hr.heapEnd] at hend
  unfold heapMaxSize at hsize
  unfold Heap.Unwrapped pagesFor blkHdr heapAlign pageSize
  omega

theorem split_of_last_fits (he : bs ++ [c] = pre ++ b :: post)
    (hnone : ∀ b ∈ bs, ¬ Fits need b) (hb : Fits need b) : pre = bs ∧ b = c ∧ post = [] := by
  rcases List.eq_nil_or_concat post with rfl | ⟨post', d, rfl⟩
  · obtain ⟨h₁, h₂⟩ := List.append_inj' he rfl
    exact ⟨h₁.symm, by simpa using h₂.symm, rfl⟩
  · rw [List.concat_eq_append, ← List.cons_append, ← List.append_assoc] at he
    obtain ⟨h₁, -⟩ := List.append_inj' he rfl
    exact absurd hb (hnone b (by simp [h₁]))

theorem HeapRep.kmalloc_takenIn (hr : HeapRep h bs) (hw : h.Unwrapped size)
    (pages : ℕ → ℕ → PageGrant) : ∃ r bs', kmalloc pages 2 h size = some r ∧
      Allocated h bs size r ∧ HeapRep r.2 bs' ∧
      (r.1 = 0 ∧ bs' = bs ∨ r.1 ≠ 0 ∧ TakenIn (alignUp size) bs bs') := by
  rcases Nat.eq_zero_or_pos size with rfl | h0
  · exact ⟨_, bs, by rw [kmalloc, kmallocFrom, if_pos rfl], .null hr, hr, Or.inl ⟨rfl, rfl⟩⟩
  obtain ⟨hsize, hclear⟩ := hw.bounds hr
  obtain ⟨hge, hal⟩ := le_alignUp hsize
  have hpos : ∀ o, heapBaseAddr + o + blkHdr ≠ 0 := fun o => by unfold blkHdr; omega
  rcases hr.walk (alignUp size) with ⟨pre, b, post, rfl, hb, hwalk⟩ | ⟨hnone, hwalk⟩
  · exact ⟨_, _, hr.kmallocFrom_found h0 hwalk pages 0 1, hr.allocated_take hb hal hge,
      hr.take hb hal, Or.inr ⟨hpos _, .within rfl hb⟩⟩
  · rcases growHeap_spec hr (pages 0) hclear with ⟨hz, hrep⟩ | ⟨s, m, hs, h16, hc, hh, hm, hg⟩
    · refine ⟨_, bs, ?_, .fails hrep (.refl bs) (.refl bs), hrep, Or.inl ⟨rfl, rfl⟩⟩
      rw [kmalloc, kmallocFrom, if_neg h0.ne', hwalk]
      dsimp only
      rw [if_pos hz]
    · have hgrown := hr.grown h16 hc hh hm
      obtain ⟨r, ha, hne, -, hall⟩ :=
        kmallocFrom_of_grown hr h0 hsize hnone pages hs h16 hc hh hm hg
      -- the walk over the grown list passes all the old blocks
      rcases hgrown.walk (alignUp size) with ⟨pre, b, post, he, hb, hwalk'⟩ | ⟨hbad, -⟩
      · obtain ⟨rfl, rfl, rfl⟩ := split_of_last_fits he hnone hb
        have hfirst := hgrown.kmallocFrom_found h0 hwalk' pages 1 0
        have hcall := hall 0
        rw [kmallocFrom, if_neg h0.ne', hwalk] at hcall
        dsimp only at hcall
        rw [hg] at hcall
        dsimp only at hcall
        rw [if_neg hr.heapEnd_pos.ne', hfirst] at hcall
        obtain rfl := Option.some.inj hcall
        refine ⟨_, _, hall 0, ha, hgrown.take hb hal, Or.inr ⟨hne, ?_⟩⟩
        rw [List.append_nil]
        exact .behind hs
      · exact absurd ⟨rfl, hs⟩ (hbad ⟨s, false⟩ (by simp))

theorem HeapRep.kmalloc_of_single (hr : HeapRep h [⟨s, false⟩]) (h0 : 0 < size) (hs : size ≤ s)
    (pages : ℕ → ℕ → PageGrant) (fuel : ℕ) : ∃ r, kmalloc pages (fuel + 1) h size = some r ∧
      r.1 ≠ 0 ∧ r.2.heapEnd = h.heapEnd ∧ kmallocMapped pages (fuel + 1) 0 h size = 0 := by
  have h16 : 16 ∣ s := hr.aligned ⟨s, false⟩ (by simp)
  have hend := hr.end_lt
  rw [span_cons] at hend
  dsimp only at hend
  have hfit : Fits (alignUp size) ⟨s, false⟩ := by
    refine ⟨rfl, ?_⟩
    unfold alignUp u64 heapAlign
    dsimp only
    omega
  rcases hr.walk (alignUp size) with ⟨pre, b, post, he, hb, hwalk⟩ | ⟨hnone, -⟩
  · have hnone : ∀ b ∈ ([] : List Block), ¬ Fits (alignUp size) b := by simp
    obtain ⟨rfl, rfl, rfl⟩ := split_of_last_fits he hnone hb
    refine ⟨_, hr.kmallocFrom_found h0 hwalk pages 0 fuel, by unfold blkHdr; omega, rfl, ?_⟩
    rw [kmallocMapped, if_neg h0.ne', hwalk]
  · exact absurd hfit (hnone ⟨s, false⟩ (by simp))

theorem size_lt_of_two_le (hlen : 2 ≤ bs.length) (hb : b ∈ bs) :
    b.size < span blkHdr bs - blkHdr := by
  obtain ⟨pre, post, rfl⟩ := List.append_of_mem hb
  have hpre := length_mul_le_span blkHdr pre
  have hpost := length_mul_le_span blkHdr post
  rw [List.length_append, List.length_cons] at hlen
  rw [span_append, span_cons]
  unfold blkHdr at *
  omega

theorem HeapRep.kmalloc_of_several (hr : HeapRep h bs) (hlen : 2 ≤ bs.length) :
    kmalloc (fun _ _ => .noFrame) 1 h (span blkHdr bs - blkHdr) = some (0, h) := by
  have hlong := length_mul_le_span blkHdr bs
  have hend := hr.le_ceiling
  rw [hr.ceiling, hr.heapEnd, hr.base] at hend
  have hmax : span blkHdr bs - blkHdr ≤ heapMaxSize := by omega
  have hge : span blkHdr bs - blkHdr ≤ alignUp (span blkHdr bs - blkHdr) :=
    (le_alignUp (by unfold heapMaxSize at hmax; omega)).1
  have hpos : 0 < span blkHdr bs - blkHdr := by
    unfold blkHdr at *
    omega
  rcases hr.walk (alignUp (span blkHdr bs - blkHdr)) with ⟨pre, b, post, he, hb, -⟩ | ⟨-, hwalk⟩
  · have hmem : b ∈ bs := by simp [he]
    have hlt := size_lt_of_two_le hlen hmem
    have hle := hb.2
    omega
  · obtain ⟨n, hn⟩ : ∃ n, growPages (alignUp (span blkHdr bs - blkHdr)) = n + 1 := by
      refine Nat.exists_eq_succ_of_ne_zero ?_
      rw [growPages_eq_pagesFor hmax]
      unfold pagesFor blkHdr heapAlign pageSize
      omega
    have hgrow : growHeap h (fun _ => .noFrame) (alignUp (span blkHdr bs - blkHdr)) = (0, h) := by
      rw [growHeap_eq, hn, mapPages]
      split <;> rfl
    rw [kmalloc, kmallocFrom, if_neg hpos.ne', hwalk]
    dsimp only
    rw [hgrow, if_pos rfl]

theorem Allocated.rep_zeroFill {r : ℕ × Heap} (ha : Allocated h bs size r)
    (hr : HeapRep r.2 bs') : HeapRep (StyxOS.zeroFill size r).2 bs' := by
  unfold StyxOS.zeroFill
  cases ha with
  | fails => exact hr
  | @succeeds h' _ o s rep keeps hat hs hnew only =>
    obtain rfl := hr.unique rep
    rw [if_neg (by unfold blkHdr; omega)]
    exact hr.zeroed hat hs

theorem span_aligned (hal : ∀ b ∈ bs, 16 ∣ b.size) : 16 ∣ span blkHdr bs := by
  induction bs with
  | nil => exact Nat.dvd_zero _
  | cons b bs ih =>
    have hb := hal b List.mem_cons_self
    have hrest := ih fun c hc => hal c (List.mem_cons_of_mem _ hc)
    rw [span_cons]
    unfold blkHdr at *
    omega

/-! ## Histories -/

namespace HeapHistory

variable {h : HeapHistory} {op : HeapOp}

/-- The blocks in use are those of the live payloads. -/
structure Tracked (h : HeapHistory) (bs : List Block) : Prop extends h.Inv bs where
  used : ∀ o b, At blkHdr bs o b → b.used = true → ∃ n, (heapBaseAddr + o + blkHdr, n) ∈ h.live

theorem Tracked.live_eq_nil_iff (ht : h.Tracked bs) :
    h.live = [] ↔ ∀ b ∈ bs, b.used = false := by
  constructor
  · rintro hlive b hb
    obtain ⟨pre, post, rfl⟩ := List.append_of_mem hb
    by_contra hu
    obtain ⟨n, hn⟩ := ht.used _ b (at_span pre b post) (by simpa using hu)
    rw [hlive] at hn
    exact List.not_mem_nil hn
  · intro hfree
    refine List.eq_nil_iff_forall_not_mem.mpr ?_
    rintro ⟨p, n⟩ hp
    obtain ⟨o, s, hat, -, -⟩ := ht.live p n hp
    exact Bool.noConfusion (hfree _ hat.mem)

/-- The operation asks for no more than `heap_end` and the page size leave room for below 2 ^ 64. -/
def Unwrapped (h : HeapHistory) : HeapOp → Prop
  | .malloc size _ => h.heap.Unwrapped size
  | .calloc n sz _ => 2 ^ 64 ≤ n * sz ∨ h.heap.Unwrapped (n * sz)
  | _ => True

inductive Change (h : HeapHistory) (bs : List Block) : HeapOp → List Block → Prop
  | kept {op : HeapOp} (hop : ∀ p, op = .free p → p = 0) (hlive : (h.step op).live = h.live) :
      Change h bs op bs
  | taken {op : HeapOp} {need : ℕ} {bs' : List Block} (hop : ∀ p, op ≠ .free p)
      (ht : TakenIn need bs bs') (hlive : (h.step op).live ≠ []) : Change h bs op bs'
  | freed {pre post : List Block} {s : ℕ} (hbs : bs = pre ++ ⟨s, true⟩ :: post) :
      Change h bs (.free (heapBaseAddr + span blkHdr pre + blkHdr)) (pre ++ freedBlocks s post)

theorem alloc_live {r : ℕ × Heap} (hne : r.1 ≠ 0) :
    (h.alloc size (some r)).live = (r.1, size) :: h.live := if_neg hne

theorem Tracked.alloc (ht : h.Tracked bs) {r : ℕ × Heap} (ha : Allocated h.heap bs size r)
    (hr : HeapRep r.2 bs') : (h.alloc size (some r)).Tracked bs' := by
  obtain ⟨bs₀, hi⟩ := ht.toInv.alloc ha
  obtain rfl := hi.rep.unique hr
  refine ⟨hi, fun o b hat hu => ?_⟩
  cases ha with
  | fails rep keeps only =>
    obtain rfl := rep.unique hr
    exact ht.used o b (only o b hat hu) hu
  | @succeeds h' _ o' s rep keeps hat' hs hnew only =>
    obtain rfl := rep.unique hr
    rw [alloc_live (by unfold blkHdr; omega)]
    by_cases ho : o = o'
    · subst ho
      exact ⟨size, List.mem_cons_self⟩
    · obtain ⟨n, hn⟩ := ht.used o b (only o b hat hu ho) hu
      exact ⟨n, List.mem_cons_of_mem _ hn⟩

/-- An allocation takes a block or keeps the list. -/
theorem Tracked.step_alloc (ht : h.Tracked bs) (hop : ∀ p, op ≠ .free p) {r : ℕ × Heap}
    (hstep : h.step op = h.alloc size (some r)) (ha : Allocated h.heap bs size r)
    (hr : HeapRep r.2 bs')
    (hcase : r.1 = 0 ∧ bs' = bs ∨ r.1 ≠ 0 ∧ TakenIn (alignUp size) bs bs') :
    (h.step op).Tracked bs' ∧ h.Change bs op bs' := by
  refine ⟨hstep ▸ ht.alloc ha hr, ?_⟩
  rcases hcase with ⟨hz, rfl⟩ | ⟨hne, hin⟩
  · refine .kept (fun p hp => absurd hp (hop p)) ?_
    rw [hstep]
    exact if_pos hz
  · refine .taken hop hin ?_
    rw [hstep, alloc_live hne]
    exact List.cons_ne_nil _ _

/-- A release of a live payload frees its block. -/
theorem Tracked.step_free (ht : h.Tracked (pre ++ ⟨s, true⟩ :: post))
    (hrun : h.heap.halted = false) :
    h.step (.free (heapBaseAddr + span blkHdr pre + blkHdr)) =
        ⟨kfree h.heap (heapBaseAddr + span blkHdr pre + blkHdr),
          h.live.filter fun x => x.1 ≠ heapBaseAddr + span blkHdr pre + blkHdr⟩ ∧
      (h.step (.free (heapBaseAddr + span blkHdr pre + blkHdr))).Tracked
        (pre ++ freedBlocks s post) := by
  have hat : At blkHdr _ _ _ := at_span pre ⟨s, true⟩ post
  have hstep : h.step (.free (heapBaseAddr + span blkHdr pre + blkHdr)) =
      ⟨kfree h.heap (heapBaseAddr + span blkHdr pre + blkHdr),
        h.live.filter fun x => x.1 ≠ heapBaseAddr + span blkHdr pre + blkHdr⟩ := by
    unfold HeapHistory.step
    rw [if_neg (by simp [hrun])]
  have hallowed : h.Allowed (.free (heapBaseAddr + span blkHdr pre + blkHdr)) :=
    ht.used _ _ hat rfl
  obtain ⟨⟨bs₀, hi⟩, -⟩ := ht.toInv.step hallowed
  obtain ⟨bs₁, hrep, hrel⟩ := kfree_spec ht.rep hat
  have hfreed := ht.rep.kfree
  rw [ht.rep.base] at hrep hfreed
  obtain rfl := hrep.unique hfreed
  rw [hstep] at hi ⊢
  obtain rfl := hi.rep.unique hfreed
  refine ⟨rfl, hi, fun o' b hat' hu => ?_⟩
  obtain ⟨hold, hne⟩ := hrel.only o' b hat' hu
  obtain ⟨n', hn'⟩ := ht.used o' b hold hu
  refine ⟨n', List.mem_filter.mpr ⟨hn', ?_⟩⟩
  simp only [ne_eq, decide_not, Bool.not_eq_eq_eq_not, Bool.not_true, decide_eq_false_iff_not]
  omega

/-- The step lemma: the blocks in use stay those of the live payloads, and the list changes in one
of three ways. -/
theorem Tracked.step (ht : h.Tracked bs) (hrun : h.heap.halted = false) (ha : h.Client op)
    (hw : h.Unwrapped op) : ∃ bs', (h.step op).Tracked bs' ∧ h.Change bs op bs' := by
  have hh : ¬ h.heap.halted = true := by simp [hrun]
  cases op with
  | malloc size pages =>
    obtain ⟨r, bs', hk, hall, hr, hcase⟩ := ht.rep.kmalloc_takenIn hw pages
    refine ⟨bs', ht.step_alloc (fun p hp => HeapOp.noConfusion hp) ?_ hall hr hcase⟩
    unfold HeapHistory.step
    rw [if_neg hh]
    dsimp only
    rw [hk]
  | calloc n sz pages =>
    by_cases hover : sz ≠ 0 ∧ n > (2 ^ 64 - 1) / sz
    · have hnull : Allocated h.heap bs (n * sz) (0, h.heap) := .null ht.rep
      refine ⟨bs, ht.step_alloc (fun p hp => HeapOp.noConfusion hp) ?_ hnull ht.rep
        (Or.inl ⟨rfl, rfl⟩)⟩
      unfold HeapHistory.step
      rw [if_neg hh]
      dsimp only
      rw [kcalloc, if_pos hover]
    · have hlt : ¬ 2 ^ 64 ≤ n * sz := fun hle => hover (overflow_iff.mpr hle)
      have hmul : u64 (n * sz) = n * sz := Nat.mod_eq_of_lt (by omega)
      obtain ⟨r, bs', hk, hall, hr, hcase⟩ := ht.rep.kmalloc_takenIn (hw.resolve_left hlt) pages
      refine ⟨bs', ht.step_alloc (fun p hp => HeapOp.noConfusion hp) ?_ hall.zeroFill
        (hall.rep_zeroFill hr) (by rwa [zeroFill_fst])⟩
      unfold HeapHistory.step
      rw [if_neg hh]
      dsimp only
      rw [kcalloc_eq hover hmul, hk, Option.map_some]
  | free p =>
    rcases ha with rfl | ⟨n, hp⟩
    · have hstep : h.step (.free 0) = h := by
        have hfilter : (h.live.filter fun x => x.1 ≠ 0) = h.live := by
          refine List.filter_eq_self.mpr ?_
          rintro ⟨p, n⟩ hp
          obtain ⟨o, s, -, hpo, -⟩ := ht.live p n hp
          unfold blkHdr at hpo
          simp only [ne_eq, decide_not, Bool.not_eq_eq_eq_not, Bool.not_true,
            decide_eq_false_iff_not]
          omega
        unfold HeapHistory.step
        rw [if_neg hh]
        dsimp only
        rw [hfilter, kfree, if_pos rfl]
      refine ⟨bs, by rwa [hstep], .kept (fun p hp => ?_) (by rw [hstep])⟩
      exact (HeapOp.free.inj hp).symm
    · obtain ⟨o, s, hat, rfl, -⟩ := ht.live p n hp
      obtain ⟨pre, post, rfl, rfl⟩ := hat.exists_split
      exact ⟨_, (ht.step_free hrun).2, .freed rfl⟩
  | write a bytes =>
    have hstep : h.step (.write a bytes) =
        { h with heap := { h.heap with mem := store h.heap.mem a bytes } } := by
      unfold HeapHistory.step
      rw [if_neg hh]
    rw [hstep]
    refine ⟨bs, ⟨⟨ht.toInv.rep_write ha, ht.live, ht.nodup⟩, ht.used⟩,
      .kept (fun p hp => HeapOp.noConfusion hp) (by rw [hstep])⟩

/-! ## The condition on releases -/

/-- Once nothing is live, whatever fits between the ends of the heap with one header can be had
without growing it. -/
def Reusable (h : HeapHistory) : Prop :=
  h.live = [] → ∀ size, 0 < size →
    size ≤ (h.heap.heapEnd - h.heap.base - blkHdr) / heapAlign * heapAlign →
    ∀ pages fuel, ∃ r, kmalloc pages (fuel + 1) h.heap size = some r ∧ r.1 ≠ 0 ∧
      r.2.heapEnd = h.heap.heapEnd ∧ kmallocMapped pages (fuel + 1) 0 h.heap size = 0

/-- A release of the only live payload finds it in the first block, with at most one behind it. -/
def FreesWhole (h : HeapHistory) : HeapOp → Prop
  | .free p => p ≠ 0 → (∀ x ∈ h.live, x.1 = p) →
    p = h.heap.head + blkHdr ∧ (fNext.get h.heap.mem h.heap.head = 0 ∨
      fNext.get h.heap.mem (fNext.get h.heap.mem h.heap.head) = 0)
  | _ => True

/-- A release finds no free block right in front of the one it frees. -/
def BehindUsed (h : HeapHistory) : HeapOp → Prop
  | .free p => p ≠ 0 → ∀ a, OnList h.heap.mem h.heap.head a →
    fNext.get h.heap.mem a = p - blkHdr → fFree.get h.heap.mem a = 0
  | _ => True

theorem Tracked.reusable_iff (ht : h.Tracked bs) :
    h.Reusable ↔ (h.live = [] → bs.length = 1) := by
  have hspan : h.heap.heapEnd - h.heap.base = span blkHdr bs := by
    rw [ht.rep.heapEnd]
    omega
  refine forall_congr' fun hlive => ?_
  constructor
  · intro hreuse
    by_contra hne
    have hlen : 2 ≤ bs.length := by
      have hpos := List.length_pos_iff.mpr ht.rep.nonempty
      omega
    have hlong := length_mul_le_span blkHdr bs
    have h16 := span_aligned ht.rep.aligned
    obtain ⟨r, hr, hnz, -⟩ := hreuse (span blkHdr bs - blkHdr) (by unfold blkHdr at *; omega)
      (by rw [hspan]; unfold blkHdr heapAlign at *; omega) (fun _ _ => .noFrame) 0
    rw [ht.rep.kmalloc_of_several hlen] at hr
    obtain rfl := Option.some.inj hr
    exact hnz rfl
  · intro hone
    obtain ⟨⟨s, used⟩, rfl⟩ := List.length_eq_one_iff.mp hone
    obtain rfl : used = false := ht.live_eq_nil_iff.mp hlive ⟨s, used⟩ (by simp)
    intro size h0 hsize pages fuel
    rw [hspan, span_cons, span_nil] at hsize
    dsimp only at hsize
    exact ht.rep.kmalloc_of_single h0 (by unfold heapAlign at hsize; omega) pages fuel

theorem Tracked.freesWhole_iff (ht : h.Tracked (pre ++ ⟨s, true⟩ :: post))
    (hlast : ∀ x ∈ h.live, x.1 = heapBaseAddr + span blkHdr pre + blkHdr) :
    h.FreesWhole (.free (heapBaseAddr + span blkHdr pre + blkHdr)) ↔
      pre = [] ∧ post.length ≤ 1 := by
  have hpos : heapBaseAddr + span blkHdr pre + blkHdr ≠ 0 := by unfold blkHdr; omega
  have hhead : h.heap.head = heapBaseAddr := ht.rep.head.trans ht.rep.base
  have hlen := length_mul_le_span blkHdr pre
  have hlinks := ht.rep.links
  rw [ht.rep.base] at hlinks
  have hfirst : pre = [] → ((fNext.get h.heap.mem heapBaseAddr = 0 ∨
      fNext.get h.heap.mem (fNext.get h.heap.mem heapBaseAddr) = 0) ↔ post.length ≤ 1) := by
    rintro rfl
    obtain ⟨hb, hrest⟩ := hlinks
    have hn := hb.next
    match post with
    | [] => simp [hn]
    | [c] =>
      rw [if_neg (by simp)] at hn
      rw [hn, hrest.1.next]
      simp
    | c :: d :: post =>
      rw [if_neg (by simp)] at hn
      rw [hn, hrest.1.next, if_neg (by simp)]
      unfold blkHdr
      simp
  unfold FreesWhole
  rw [hhead]
  constructor
  · intro hwhole
    obtain ⟨hp, hnext⟩ := hwhole hpos hlast
    have hpre : pre = [] := by
      refine List.length_eq_zero_iff.mp ?_
      unfold blkHdr at *
      omega
    exact ⟨hpre, (hfirst hpre).mp hnext⟩
  · rintro ⟨rfl, hpost⟩ - -
    exact ⟨rfl, (hfirst rfl).mpr hpost⟩

/-- The release step: where nothing is live afterwards, the list is one block just under the
condition. -/
theorem Tracked.freed_iff (ht : h.Tracked (pre ++ ⟨s, true⟩ :: post))
    (hstep : (h.step (.free (heapBaseAddr + span blkHdr pre + blkHdr))).Tracked
      (pre ++ freedBlocks s post)) (hrun : h.heap.halted = false) :
    ((h.step (.free (heapBaseAddr + span blkHdr pre + blkHdr))).live = [] →
        (pre ++ freedBlocks s post).length = 1) ↔
      h.FreesWhole (.free (heapBaseAddr + span blkHdr pre + blkHdr)) := by
  have hlive : (h.step (.free (heapBaseAddr + span blkHdr pre + blkHdr))).live = [] ↔
      ∀ x ∈ h.live, x.1 = heapBaseAddr + span blkHdr pre + blkHdr := by
    unfold HeapHistory.step
    rw [if_neg (by simp [hrun])]
    simp [List.filter_eq_nil_iff]
  by_cases hnil : (h.step (.free (heapBaseAddr + span blkHdr pre + blkHdr))).live = []
  · have hlast := hlive.mp hnil
    -- no block behind the one released is in use
    have hpost : ∀ c ∈ post, c.used = false := by
      intro c hc
      by_contra hu
      obtain ⟨p₁, p₂, rfl⟩ := List.append_of_mem hc
      have hat : At blkHdr _ _ _ := at_span (pre ++ ⟨s, true⟩ :: p₁) c p₂
      rw [List.append_assoc, List.cons_append] at hat
      obtain ⟨n, hn⟩ := ht.used _ c hat (by simpa using hu)
      have heq := hlast _ hn
      rw [span_append, span_cons] at heq
      unfold blkHdr at heq
      omega
    rw [ht.freesWhole_iff hlast, length_freedBlocks hpost]
    exact ⟨fun hl => hl hnil, fun hr _ => hr⟩
  · refine iff_of_true (fun hbad => absurd hbad hnil) fun _ hlast => ?_
    exact absurd (hlive.mpr hlast) hnil

theorem Tracked.step_iff (ht : h.Tracked bs) (hreuse : h.Reusable)
    (hrun : h.heap.halted = false) (ha : h.Client op) (hw : h.Unwrapped op) :
    (∃ bs', (h.step op).Tracked bs') ∧ ((h.step op).Reusable ↔ h.FreesWhole op) := by
  have hone := ht.reusable_iff.mp hreuse
  obtain ⟨bs', ht', hchange⟩ := ht.step hrun ha hw
  refine ⟨⟨bs', ht'⟩, ?_⟩
  rw [ht'.reusable_iff]
  cases hchange with
  | kept hop hlive =>
    refine iff_of_true (fun hnil => hone (hlive ▸ hnil)) ?_
    cases op with
    | free p => exact fun hp => absurd (hop p rfl) hp
    | _ => trivial
  | taken hop hin hlive =>
    refine iff_of_true (fun hnil => absurd hnil hlive) ?_
    cases op with
    | free p => exact absurd rfl (hop p)
    | _ => trivial
  | freed hbs =>
    subst hbs
    exact ht.freed_iff ht' hrun

theorem Tracked.merged_step (ht : h.Tracked bs) (hm : Merged bs) (hrun : h.heap.halted = false)
    (ha : h.Client op) (hw : h.Unwrapped op) (hb : h.BehindUsed op) :
    ∃ bs', (h.step op).Tracked bs' ∧ Merged bs' := by
  obtain ⟨bs', ht', hchange⟩ := ht.step hrun ha hw
  refine ⟨bs', ht', ?_⟩
  cases hchange with
  | kept => exact hm
  | taken _ hin => exact hm.takenIn hin
  | @freed pre post s hbs =>
    subst hbs
    refine hm.freed fun b hb' => ?_
    obtain ⟨init, rfl⟩ := List.getLast?_eq_some_iff.mp hb'
    have hrep : HeapRep h.heap (init ++ b :: ⟨s, true⟩ :: post) := by simpa using ht.rep
    have hhdr := hrep.links.header
    have hfree := hb (by unfold blkHdr; omega) (h.heap.base + span blkHdr init)
      (by rw [hrep.head]; exact onList_of_links hrep.links (at_span init b _))
      (by
        rw [hhdr.next, if_neg (by simp), hrep.base, span_append, span_cons, span_nil]
        omega)
    rw [hhdr.free, freeOf] at hfree
    by_contra hu
    rw [if_neg hu] at hfree
    exact absurd hfree (by decide)

/-! ## Runs -/

theorem heapBoot_running (m : Mem) {pages : ℕ → PageGrant}
    (hp : ∀ i < heapInitPages, ∃ bytes, pages i = .frame bytes) :
    (heapBoot m pages).heap.halted = false := heapInit_running m hp

theorem tracked_heapBoot (m : Mem) (pages : ℕ → PageGrant)
    (hrun : (heapBoot m pages).heap.halted = false) :
    (heapBoot m pages).Tracked [⟨heapInitSize - blkHdr, false⟩] := by
  rcases heapInit_rep m pages with hh | hr
  · exact absurd hh (by simpa [heapBoot] using hrun)
  · refine ⟨⟨hr, fun _ _ hp => absurd hp List.not_mem_nil, List.nodup_nil⟩, fun o b hat hu => ?_⟩
    rw [List.mem_singleton.mp hat.mem] at hu
    exact Bool.noConfusion hu

/-- A run of the clients whose requests do not wrap. -/
def Calls (h : HeapHistory) (op : HeapOp) : Prop := h.Client op ∧ h.Unwrapped op

/-- The machine has halted, or the heap is of use as a whole once nothing is live. -/
def HaltedOrReusable (h : HeapHistory) : Prop := h.heap.halted = true ∨ h.Reusable

theorem step_of_halted (hh : h.heap.halted = true) (op : HeapOp) : h.step op = h := by
  unfold HeapHistory.step
  exact if_pos hh

/-- The invariant of a run: the machine has halted, or the history is tracked. -/
def Running (h : HeapHistory) : Prop := h.heap.halted = true ∨ ∃ bs, h.Tracked bs

theorem freesWhole_of_halts (hrun : h.heap.halted = false)
    (hh : (h.step op).heap.halted = true) : h.FreesWhole op := by
  cases op with
  | free p =>
    unfold HeapHistory.step at hh
    rw [if_neg (by simp [hrun])] at hh
    exact Bool.noConfusion (hrun.symm.trans ((kfree_halted _ _).symm.trans hh))
  | _ => trivial

theorem Running.step_iff (hi : h.Running) (hreuse : h.HaltedOrReusable) (ha : h.Calls op) :
    (h.step op).Running ∧
      ((h.step op).HaltedOrReusable ↔ h.heap.halted = true ∨ h.FreesWhole op) := by
  cases hrun : h.heap.halted with
  | true =>
    rw [step_of_halted hrun]
    exact ⟨hi, iff_of_true hreuse (Or.inl rfl)⟩
  | false =>
    obtain ⟨bs, ht⟩ := hi.resolve_left (by simp [hrun])
    obtain ⟨ht', hiff⟩ := ht.step_iff (hreuse.resolve_left (by simp [hrun])) hrun ha.1 ha.2
    refine ⟨Or.inr ht', ?_⟩
    constructor
    · rintro (hh | hr)
      · exact Or.inr (freesWhole_of_halts hrun hh)
      · exact Or.inr (hiff.mp hr)
    · rintro (hbad | hf)
      · exact Bool.noConfusion hbad
      · exact Or.inr (hiff.mpr hf)

theorem running_heapBoot (m : Mem) (pages : ℕ → PageGrant) : (heapBoot m pages).Running := by
  cases hrun : (heapBoot m pages).heap.halted with
  | true => exact Or.inl hrun
  | false => exact Or.inr ⟨_, tracked_heapBoot m pages hrun⟩

theorem haltedOrReusable_heapBoot (m : Mem) (pages : ℕ → PageGrant) :
    (heapBoot m pages).HaltedOrReusable := by
  cases hrun : (heapBoot m pages).heap.halted with
  | true => exact Or.inl hrun
  | false => exact Or.inr ((tracked_heapBoot m pages hrun).reusable_iff.mpr fun _ => rfl)

/-- The run lemma for releases behind blocks in use: neighbours stay apart, so a list without a
block in use is a single block. -/
theorem reusable_of_merged {ops : List HeapOp}
    (hi : h.heap.halted = true ∨ ∃ bs, h.Tracked bs ∧ Merged bs)
    (ha : AllSteps HeapHistory.step Calls h ops)
    (hb : AllSteps HeapHistory.step (fun h op => h.heap.halted = true ∨ h.BehindUsed op) h ops) :
    AllSteps HeapHistory.step (fun h op => (h.step op).HaltedOrReusable) h ops := by
  induction ops generalizing h with
  | nil => trivial
  | cons op ops ih =>
    have hnext : (h.step op).heap.halted = true ∨ ∃ bs, (h.step op).Tracked bs ∧ Merged bs := by
      rcases hi with hh | ⟨bs, ht, hm⟩
      · rw [step_of_halted hh]
        exact Or.inl hh
      · cases hrun : h.heap.halted with
        | true =>
          rw [step_of_halted hrun]
          exact Or.inl hrun
        | false =>
          have hbehind := hb.1.resolve_left (by simp [hrun])
          exact Or.inr (ht.merged_step hm hrun ha.1.1 ha.1.2 hbehind)
    refine ⟨?_, ih hnext ha.2 hb.2⟩
    rcases hnext with hh | ⟨bs, ht, hm⟩
    · exact Or.inl hh
    · refine Or.inr (ht.reusable_iff.mpr fun hlive => ?_)
      exact hm.length_eq_one ht.rep.nonempty (ht.live_eq_nil_iff.mp hlive)

end HeapHistory

open HeapHistory in
/-- In a run of the heap's clients whose requests do not wrap, every state without live payloads can
give out the whole heap again just when every release of the last live payload finds it in the first
block with at most one behind it. It is enough that no release finds a free block right in front. -/
theorem heap_reuse_iff (m : Mem) (pages : ℕ → PageGrant) (ops : List HeapOp)
    (ha : AllSteps HeapHistory.step Calls (heapBoot m pages) ops) :
    ((∀ pre, pre <+: ops →
        (run HeapHistory.step (heapBoot m pages) pre).HaltedOrReusable) ↔
      AllSteps HeapHistory.step (fun h op => h.heap.halted = true ∨ h.FreesWhole op)
        (heapBoot m pages) ops) ∧
    (AllSteps HeapHistory.step (fun h op => h.heap.halted = true ∨ h.BehindUsed op)
        (heapBoot m pages) ops →
      ∀ pre, pre <+: ops →
        (run HeapHistory.step (heapBoot m pages) pre).HaltedOrReusable) := by
  have hstart := haltedOrReusable_heapBoot m pages
  rw [forall_prefix_iff HeapHistory.step hstart]
  constructor
  · let I : HeapHistory → Prop := fun h => h.Running ∧ h.HaltedOrReusable
    refine allSteps_congr_of_allSteps (I := I) HeapHistory.step ?_ ?_
      ⟨running_heapBoot m pages, hstart⟩ ha
    · rintro h op ⟨hi, hreuse⟩ hcall
      exact (hi.step_iff hreuse hcall).2
    · rintro h op ⟨hi, hreuse⟩ hcall hf
      obtain ⟨hi', hiff⟩ := hi.step_iff hreuse hcall
      exact ⟨hi', hiff.mpr hf⟩
  · refine reusable_of_merged ?_ ha
    cases hrun : (heapBoot m pages).heap.halted with
    | true => exact Or.inl rfl
    | false => exact Or.inr ⟨_, tracked_heapBoot m pages hrun, .singleton _⟩

theorem heap_reuse_iff_sample :
    (run HeapHistory.step (heapBoot (fun _ => 0) fun _ => .frame fun _ => 0)
      [.malloc 24 fun _ _ => .noFrame, .free 0]).HaltedOrReusable := by
  have hrun : (heapBoot (fun _ => 0) fun _ => .frame fun _ => 0).heap.halted = false :=
    HeapHistory.heapBoot_running _ fun _ _ => ⟨_, rfl⟩
  have hfresh := HeapHistory.tracked_heapBoot _ _ hrun
  exact (heap_reuse_iff (fun _ => 0) (fun _ => .frame fun _ => 0)
    [.malloc 24 fun _ _ => .noFrame, .free 0]
    ⟨⟨(by decide : 24 < 2 ^ 64), hfresh.rep.unwrapped (by decide)⟩, ⟨Or.inl rfl, trivial⟩,
      trivial⟩).2 ⟨Or.inr trivial, Or.inr fun hbad => absurd rfl hbad, trivial⟩ _
    (List.prefix_refl _)

namespace HeapHistory

variable {h : HeapHistory}

/-- A request that only the last block fits is served from it. -/
theorem Tracked.step_malloc_last (ht : h.Tracked (bs ++ [c])) (hrun : h.heap.halted = false)
    (h0 : 0 < size) (hsize : size ≤ 2 ^ 64 - 16) (hnone : ∀ b ∈ bs, ¬ Fits (alignUp size) b)
    (hc : Fits (alignUp size) c) (pages : ℕ → ℕ → PageGrant) :
    (h.step (.malloc size pages)).Tracked (bs ++ takenBlocks c (alignUp size)) ∧
      (h.step (.malloc size pages)).heap.halted = false ∧
      (h.step (.malloc size pages)).live =
        (heapBaseAddr + span blkHdr bs + blkHdr, size) :: h.live := by
  obtain ⟨hge, hal⟩ := le_alignUp hsize
  rcases ht.rep.walk (alignUp size) with ⟨pre, b, post, he, hb, hwalk⟩ | ⟨hbad, -⟩
  · obtain ⟨rfl, rfl, rfl⟩ := split_of_last_fits he hnone hb
    have hcall := ht.rep.kmallocFrom_found h0 hwalk pages 0 1
    have htaken := ht.alloc (ht.rep.allocated_take hb hal hge) (ht.rep.take hb hal)
    have hstep : h.step (.malloc size pages) = h.alloc size (some (heapBaseAddr +
        span blkHdr pre + blkHdr, { h.heap with
          mem := takeBlock h.heap.mem (h.heap.base + span blkHdr pre) (alignUp size) })) := by
      unfold HeapHistory.step
      rw [if_neg (by simp [hrun])]
      dsimp only
      rw [kmalloc, hcall]
    rw [hstep]
    refine ⟨?_, hrun, alloc_live (by unfold blkHdr; omega)⟩
    rwa [List.append_nil] at htaken
  · exact absurd hc (hbad c (by simp))

/-- Two allocations and their releases in the same order. -/
def releasedInOrder : List HeapOp :=
  [.malloc 16 fun _ _ => .noFrame, .malloc 16 fun _ _ => .noFrame,
    .free (heapBaseAddr + span blkHdr [] + blkHdr),
    .free (heapBaseAddr + span blkHdr [⟨16, false⟩] + blkHdr)]

theorem Tracked.releasedInOrder (ht : h.Tracked ([] ++ [⟨4194272, false⟩]))
    (hrun : h.heap.halted = false) : AllSteps HeapHistory.step Calls h releasedInOrder ∧
      ¬ (run HeapHistory.step h releasedInOrder).HaltedOrReusable := by
  have htaken₁ : [] ++ takenBlocks ⟨4194272, false⟩ (alignUp 16) =
      [⟨16, true⟩] ++ [⟨4194224, false⟩] := by decide
  have htaken₂ : [⟨16, true⟩] ++ takenBlocks ⟨4194224, false⟩ (alignUp 16) =
      [] ++ ⟨16, true⟩ :: [⟨16, true⟩, ⟨4194176, false⟩] := by decide
  have hfreed₁ : [] ++ freedBlocks 16 [⟨16, true⟩, ⟨4194176, false⟩] =
      [⟨16, false⟩] ++ ⟨16, true⟩ :: [⟨4194176, false⟩] := rfl
  have hfreed₂ : [⟨16, false⟩] ++ freedBlocks 16 [⟨4194176, false⟩] =
      [⟨16, false⟩, ⟨4194224, false⟩] := rfl
  obtain ⟨ht₁, hrun₁, -⟩ := ht.step_malloc_last hrun (by decide : 0 < 16) (by decide)
    (by simp) ⟨rfl, by decide⟩ fun _ _ => .noFrame
  rw [htaken₁] at ht₁
  obtain ⟨ht₂, hrun₂, -⟩ := ht₁.step_malloc_last hrun₁ (by decide : 0 < 16) (by decide)
    (by unfold Fits; simp) ⟨rfl, by decide⟩ fun _ _ => .noFrame
  rw [htaken₂] at ht₂
  obtain ⟨hstep₃, ht₃⟩ := ht₂.step_free hrun₂
  have hrun₃ := (congrArg (fun h => h.heap.halted) hstep₃).trans ((kfree_halted _ _).trans hrun₂)
  rw [hfreed₁] at ht₃
  obtain ⟨hstep₄, ht₄⟩ := ht₃.step_free hrun₃
  have hrun₄ := (congrArg (fun h => h.heap.halted) hstep₄).trans ((kfree_halted _ _).trans hrun₃)
  rw [hfreed₂] at ht₄
  refine ⟨⟨⟨(by decide : 16 < 2 ^ 64), ht.rep.unwrapped (by decide)⟩,
    ⟨(by decide : 16 < 2 ^ 64), ht₁.rep.unwrapped (by decide)⟩,
    ⟨Or.inr (ht₂.used _ _ (at_span [] ⟨16, true⟩ _) rfl), trivial⟩,
    ⟨Or.inr (ht₃.used _ _ (at_span [⟨16, false⟩] ⟨16, true⟩ _) rfl), trivial⟩, trivial⟩, ?_⟩
  rintro (hbad | hreuse)
  · exact Bool.noConfusion (hrun₄.symm.trans hbad)
  · exact absurd (ht₄.reusable_iff.mp hreuse (ht₄.live_eq_nil_iff.mpr (by simp))) (by decide)

end HeapHistory

/-- Two blocks of a fresh heap that are released in the order in which they were allocated stay
apart. -/
theorem not_heap_reuse : ¬ ∀ (m : Mem) (pages : ℕ → PageGrant) (ops : List HeapOp),
    AllSteps HeapHistory.step HeapHistory.Calls (heapBoot m pages) ops →
      ∀ pre, pre <+: ops →
        (run HeapHistory.step (heapBoot m pages) pre).HaltedOrReusable := by
  intro hall
  have hrun := HeapHistory.heapBoot_running (fun _ => 0) fun i _ =>
    (⟨fun _ => 0, rfl⟩ : ∃ bytes, (fun _ => PageGrant.frame fun _ => 0) i = .frame bytes)
  obtain ⟨hcalls, hbad⟩ := (HeapHistory.tracked_heapBoot _ _ hrun).releasedInOrder hrun
  exact hbad (hall _ _ _ hcalls _ (List.prefix_refl _))

end StyxOS
