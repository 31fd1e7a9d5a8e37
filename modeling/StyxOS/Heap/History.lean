import StyxOS.Heap.Alloc
import StyxOS.Library.Run

/-! # The heap over whole runs

Allocations, releases and writes by clients in any order, with frames granted or
refused at every call. A history records the payloads that are live, with the
sizes asked for.
-/

namespace StyxOS

open Tiling ByteMem StepSystem

def HeaderOk (m : Mem) (a : ℕ) : Prop :=
  fMagic.get m a = heapMagicFree ∧ fFree.get m a = 1 ∨
    fMagic.get m a = heapMagicUsed ∧ fFree.get m a = 0

/-- The list from `a` tiles the addresses from `a` to `e`. -/
inductive Tiles (m : Mem) (e : ℕ) : ℕ → Prop
  | last {a : ℕ} (hdr : HeaderOk m a) (next : fNext.get m a = 0)
      (ends : a + blkHdr + fSize.get m a = e) : Tiles m e a
  | cons {a : ℕ} (hdr : HeaderOk m a) (next : fNext.get m a = a + blkHdr + fSize.get m a)
      (rest : Tiles m e (fNext.get m a)) : Tiles m e a

/-- The list from `a` passes through `x`. -/
inductive OnList (m : Mem) : ℕ → ℕ → Prop
  | here {a : ℕ} : OnList m a a
  | next {a x : ℕ} (hne : fNext.get m a ≠ 0) (h : OnList m (fNext.get m a) x) : OnList m a x

/-- The calls of the heap's clients, with the frames that each allocation finds, and their
writes. -/
inductive HeapOp
  | malloc (size : ℕ) (pages : ℕ → ℕ → PageGrant)
  | calloc (n sz : ℕ) (pages : ℕ → ℕ → PageGrant)
  | free (p : ℕ)
  | write (a : ℕ) (bytes : List UInt8)

/-- A heap with its live payloads and the sizes they were asked for. -/
structure HeapHistory where
  heap : Heap
  live : List (ℕ × ℕ)

namespace HeapHistory

/-- The size that the header of a payload records. -/
def payloadSize (h : HeapHistory) (p : ℕ) : ℕ := fSize.get h.heap.mem (p - blkHdr)

/-- Record what an allocation returned. -/
def alloc (h : HeapHistory) (size : ℕ) : Option (ℕ × Heap) → HeapHistory
  | none => h
  | some r => ⟨r.2, if r.1 = 0 then h.live else (r.1, size) :: h.live⟩

/-- One operation, with fuel for one retry of `kmalloc`. -/
def step (h : HeapHistory) (op : HeapOp) : HeapHistory :=
  if h.heap.halted then h else
  match op with
  | .malloc size pages => h.alloc size (kmalloc pages 2 h.heap size)
  | .calloc n sz pages => h.alloc (n * sz) (kcalloc pages 2 h.heap n sz)
  | .free p => ⟨kfree h.heap p, h.live.filter fun x => x.1 ≠ p⟩
  | .write a bytes => { h with heap := { h.heap with mem := store h.heap.mem a bytes } }

/-- What clients may do: ask for less than 4 GiB, free a live payload, write inside one. -/
def Allowed (h : HeapHistory) : HeapOp → Prop
  | .malloc size _ => size < 2 ^ 32
  | .calloc n sz _ => n * sz < 2 ^ 32
  | .free p => ∃ n, (p, n) ∈ h.live
  | .write a bytes => ∃ p n, (p, n) ∈ h.live ∧ p ≤ a ∧ a + bytes.length ≤ p + h.payloadSize p

/-- The representation invariant as `heap.c` keeps it in memory. -/
structure Ok (h : HeapHistory) : Prop where
  head : h.heap.head = heapBaseAddr
  tiles : Tiles h.heap.mem h.heap.heapEnd heapBaseAddr
  heapEnd_le : h.heap.heapEnd ≤ h.heap.ceiling
  ceiling : h.heap.ceiling = heapBaseAddr + heapMaxSize
  live : ∀ p n, (p, n) ∈ h.live → 16 ∣ p ∧ n ≤ h.payloadSize p ∧
    OnList h.heap.mem heapBaseAddr (p - blkHdr) ∧ fMagic.get h.heap.mem (p - blkHdr) = heapMagicUsed
  disjoint : h.live.Pairwise fun x y =>
    x.1 + h.payloadSize x.1 ≤ y.1 ∨ y.1 + h.payloadSize y.1 ≤ x.1

/-- The recursion of an allocation ends after one retry: more fuel than that changes nothing. -/
def OneRetry (h : HeapHistory) : HeapOp → Prop
  | .malloc size pages => ∃ r, ∀ fuel, kmalloc pages (fuel + 2) h.heap size = some r
  | .calloc n sz pages => ∃ r, ∀ fuel, kcalloc pages (fuel + 2) h.heap n sz = some r
  | _ => True

end HeapHistory

/-! ## Reading the representation -/

theorem Header.ok {m : Mem} {a n : ℕ} {b : Block} (h : Header m a b n) : HeaderOk m a := by
  unfold HeaderOk
  rw [h.magic, h.free]
  unfold magicOf freeOf
  cases b.used <;> simp

theorem tiles_of_links {m : Mem} {a : ℕ} {bs : List Block} (hne : bs ≠ []) (h : Links m 0 a bs) :
    Tiles m (a + span blkHdr bs) a := by
  induction bs generalizing a with
  | nil => exact absurd rfl hne
  | cons b bs ih =>
    obtain ⟨hb, hbs⟩ := h
    rcases eq_or_ne bs [] with rfl | hbs'
    · exact .last hb.ok hb.next (by rw [hb.size, span_cons, span_nil]; omega)
    · rw [if_neg hbs'] at hb
      refine .cons hb.ok (by rw [hb.next, hb.size]; omega) ?_
      rw [hb.next, span_cons, ← Nat.add_assoc]
      exact ih hbs' hbs

theorem onList_of_links {m : Mem} {a o : ℕ} {b : Block} {bs : List Block} (h : Links m 0 a bs)
    (hat : At blkHdr bs o b) : OnList m a (a + o) := by
  induction bs generalizing a o with
  | nil => cases hat
  | cons c bs ih =>
    rcases hat with ⟨rfl, -⟩ | ⟨o', rfl, hat⟩
    · exact .here
    · obtain ⟨hc, hbs⟩ := h
      rw [if_neg (by rintro rfl; cases hat)] at hc
      refine .next ?_ ?_
      · rw [hc.next]
        unfold blkHdr
        omega
      · have he : a + (blkHdr + c.size + o') = a + (blkHdr + c.size) + o' := by omega
        rw [hc.next, he]
        exact ih hbs hat

theorem HeapRep.header {h : Heap} {bs : List Block} {o : ℕ} {b : Block} (hr : HeapRep h bs)
    (hat : At blkHdr bs o b) : ∃ n, Header h.mem (heapBaseAddr + o) b n := by
  obtain ⟨pre, post, rfl, rfl⟩ := hat.exists_split
  rw [← hr.base]
  exact ⟨_, hr.links.header⟩

theorem at_aligned {bs : List Block} {o : ℕ} {b : Block} (hal : ∀ c ∈ bs, 16 ∣ c.size)
    (hat : At blkHdr bs o b) : 16 ∣ o := by
  induction bs generalizing o with
  | nil => cases hat
  | cons c bs ih =>
    rcases hat with ⟨rfl, -⟩ | ⟨o', rfl, hat⟩
    · exact Nat.dvd_zero _
    · have h₁ := ih (fun d hd => hal d (List.mem_cons_of_mem _ hd)) hat
      have h₂ := hal c (List.mem_cons_self ..)
      unfold blkHdr
      omega

/-! ## The invariant -/

/-- The heap represents a list in which every live payload is that of a block in use. -/
structure HeapHistory.Inv (h : HeapHistory) (bs : List Block) : Prop where
  rep : HeapRep h.heap bs
  live : ∀ p n, (p, n) ∈ h.live → ∃ o s, At blkHdr bs o ⟨s, true⟩ ∧
    p = heapBaseAddr + o + blkHdr ∧ n ≤ s
  nodup : (h.live.map Prod.fst).Nodup

namespace HeapHistory

variable {h : HeapHistory} {bs : List Block}

theorem Inv.payloadSize_eq (hi : h.Inv bs) {o s : ℕ} (hat : At blkHdr bs o ⟨s, true⟩) :
    h.payloadSize (heapBaseAddr + o + blkHdr) = s := by
  obtain ⟨n, hh⟩ := hi.rep.header hat
  rw [payloadSize, Nat.add_sub_cancel, hh.size]

theorem Inv.ok (hi : h.Inv bs) : h.Ok where
  head := by rw [hi.rep.head, hi.rep.base]
  tiles := by
    have := tiles_of_links hi.rep.nonempty hi.rep.links
    rwa [← hi.rep.heapEnd, hi.rep.base] at this
  heapEnd_le := hi.rep.le_ceiling
  ceiling := hi.rep.ceiling
  live p n hp := by
    obtain ⟨o, s, hat, rfl, hs⟩ := hi.live p n hp
    obtain ⟨nx, hh⟩ := hi.rep.header hat
    refine ⟨?_, by rwa [hi.payloadSize_eq hat], ?_, ?_⟩
    · have := at_aligned hi.rep.aligned hat
      unfold heapBaseAddr blkHdr
      omega
    · rw [Nat.add_sub_cancel, ← hi.rep.base]
      exact onList_of_links hi.rep.links hat
    · rw [Nat.add_sub_cancel]
      exact hh.magic
  disjoint := by
    have hnd : h.live.Pairwise fun x y => x.1 ≠ y.1 := List.pairwise_map.mp hi.nodup
    refine hnd.imp_of_mem fun {x y} hx hy hne => ?_
    obtain ⟨o, s, hat, hxp, -⟩ := hi.live x.1 x.2 hx
    obtain ⟨o', s', hat', hyp, -⟩ := hi.live y.1 y.2 hy
    rw [hxp, hyp] at hne ⊢
    rw [hi.payloadSize_eq hat, hi.payloadSize_eq hat']
    rcases hat.disjoint hat' with ⟨rfl, -⟩ | hd | hd
    · exact absurd rfl hne
    · left; dsimp only at hd; omega
    · right; dsimp only at hd; omega

theorem Inv.alloc (hi : h.Inv bs) {size : ℕ} {r : ℕ × Heap} (hr : Allocated h.heap bs size r) :
    ∃ bs', (h.alloc size (some r)).Inv bs' := by
  cases hr with
  | @fails h' bs' rep keeps only =>
    refine ⟨bs', rep, fun p n hp => ?_, hi.nodup⟩
    obtain ⟨o, s, hat, hpo, hs⟩ := hi.live p n hp
    exact ⟨o, s, keeps o _ hat rfl, hpo, hs⟩
  | @succeeds h' bs' o s rep keeps hat hs hnew only =>
    have hne : heapBaseAddr + o + blkHdr ≠ 0 := by unfold blkHdr; omega
    have he : h.alloc size (some (heapBaseAddr + o + blkHdr, h')) =
        ⟨h', (heapBaseAddr + o + blkHdr, size) :: h.live⟩ := by
      unfold HeapHistory.alloc
      dsimp only
      rw [if_neg hne]
    rw [he]
    refine ⟨bs', rep, fun p n hp => ?_, ?_⟩
    · rcases List.mem_cons.mp hp with he | hp
      · obtain ⟨rfl, rfl⟩ := Prod.mk.inj he
        exact ⟨o, s, hat, rfl, hs⟩
      · obtain ⟨o', s', hat', hpo, hs'⟩ := hi.live p n hp
        exact ⟨o', s', keeps o' _ hat' rfl, hpo, hs'⟩
    · refine List.nodup_cons.mpr ⟨fun hp => ?_, hi.nodup⟩
      obtain ⟨⟨p, n⟩, hp, he⟩ := List.mem_map.mp hp
      obtain ⟨o', s', hat', hpo, -⟩ := hi.live p n hp
      obtain rfl : o' = o := by
        dsimp only at he
        omega
      exact absurd (hnew _ hat') (by simp)

theorem Inv.rep_write (hi : h.Inv bs) {a : ℕ} {bytes : List UInt8}
    (ha : h.Allowed (.write a bytes)) :
    HeapRep { h.heap with mem := store h.heap.mem a bytes } bs := by
  obtain ⟨p, n, hp, hlo, hhi⟩ := ha
  obtain ⟨o, s, hat, rfl, -⟩ := hi.live p n hp
  rw [hi.payloadSize_eq hat] at hhi
  refine hi.rep.payload hat fun y hy => ?_
  rw [hi.rep.base] at hy
  dsimp only at hy
  rcases hy with hy | hy
  · exact store_apply_of_lt (by omega)
  · exact store_apply_of_ge (by omega)

theorem Inv.step (hi : h.Inv bs) {op : HeapOp} (ha : h.Allowed op) :
    (∃ bs', (h.step op).Inv bs') ∧ h.OneRetry op := by
  have hretry : h.OneRetry op := by
    cases op with
    | malloc size pages =>
      obtain ⟨r, -, hall⟩ := kmallocFrom_spec hi.rep ha pages 0
      exact ⟨r, hall⟩
    | calloc n sz pages =>
      obtain ⟨r, -, hall⟩ := kcalloc_spec hi.rep ha pages
      exact ⟨r, hall⟩
    | free p => trivial
    | write a bytes => trivial
  refine ⟨?_, hretry⟩
  unfold HeapHistory.step
  split
  · exact ⟨bs, hi⟩
  · cases op with
    | malloc size pages =>
      obtain ⟨r, hr, hall⟩ := kmallocFrom_spec hi.rep ha pages 0
      dsimp only
      rw [kmalloc, hall 0]
      exact hi.alloc hr
    | calloc n sz pages =>
      obtain ⟨r, hr, hall⟩ := kcalloc_spec hi.rep ha pages
      dsimp only
      rw [hall 0]
      exact hi.alloc hr
    | free p =>
      obtain ⟨n, hp⟩ := ha
      obtain ⟨o, s, hat, rfl, -⟩ := hi.live p n hp
      obtain ⟨bs', rep, keeps, -⟩ := kfree_spec hi.rep hat
      rw [hi.rep.base] at rep
      refine ⟨bs', rep, fun q k hq => ?_, ?_⟩
      · obtain ⟨hq, hne⟩ := List.mem_filter.mp hq
        obtain ⟨o', s', hat', hqo, hs'⟩ := hi.live q k hq
        refine ⟨o', s', keeps o' _ hat' rfl ?_, hqo, hs'⟩
        rintro rfl
        simp [hqo] at hne
      · exact hi.nodup.sublist (List.filter_sublist.map _)
    | write a bytes => exact ⟨bs, hi.rep_write ha, hi.live, hi.nodup⟩

end HeapHistory

theorem heapInit_rep (m : Mem) (pages : ℕ → PageGrant) : (heapInit m pages).halted = true ∨
    HeapRep (heapInit m pages) [⟨heapInitSize - blkHdr, false⟩] := by
  unfold heapInit
  dsimp only
  split
  · exact Or.inl rfl
  · exact Or.inl rfl
  · have hceil : u64 (heapBaseAddr + heapMaxSize) = heapBaseAddr + heapMaxSize := by decide
    have hend : u64 (heapBaseAddr + heapInitSize) =
        heapBaseAddr + span blkHdr [⟨heapInitSize - blkHdr, false⟩] := by decide
    have hle : heapBaseAddr + span blkHdr [⟨heapInitSize - blkHdr, false⟩] ≤
        heapBaseAddr + heapMaxSize := by decide
    refine Or.inr ⟨rfl, rfl, hceil, ⟨?_, trivial⟩, by simp, hend, ?_, ?_⟩
    · exact writeHeader_header (by decide) (by decide)
    · dsimp only
      rwa [hceil, hend]
    · simp only [List.mem_singleton, forall_eq]
      decide

/-- The history that begins with `heap_init`. -/
def heapBoot (m : Mem) (pages : ℕ → PageGrant) : HeapHistory := ⟨heapInit m pages, []⟩

/-- In every run of allowed operations after `heap_init`, before and after each of them the heap is
well formed unless the machine has halted, and every allocation ends after at most one retry. -/
theorem heap_wellFormed (m : Mem) (pages : ℕ → PageGrant) (ops : List HeapOp)
    (ha : AllSteps HeapHistory.step HeapHistory.Allowed (heapBoot m pages) ops) :
    AllSteps HeapHistory.step
      (fun h op => h.heap.halted = true ∨ (h.Ok ∧ (h.step op).Ok ∧ h.OneRetry op))
      (heapBoot m pages) ops := by
  rw [allSteps_iff_forall] at ha ⊢
  rintro pre op post rfl
  let I : HeapHistory → Prop := fun h => h.heap.halted = true ∨ ∃ bs, h.Inv bs
  have hstep : ∀ h op, I h → h.Allowed op → I (h.step op) := by
    rintro h op (hh | ⟨bs, hi⟩) hop
    · left
      unfold HeapHistory.step
      rwa [if_pos hh]
    · exact Or.inr (hi.step hop).1
  have h0 : I (heapBoot m pages) := by
    rcases heapInit_rep m pages with hh | hr
    · exact Or.inl hh
    · exact Or.inr ⟨_, hr, fun _ _ hp => absurd hp List.not_mem_nil, List.nodup_nil⟩
  have hpre : AllSteps HeapHistory.step HeapHistory.Allowed (heapBoot m pages) pre :=
    ((allSteps_append _).mp ((allSteps_iff_forall _).mpr ha)).1
  rcases run_invariant _ hstep h0 hpre with hh | ⟨bs, hi⟩
  · exact Or.inl hh
  · obtain ⟨⟨bs', hi'⟩, hretry⟩ := hi.step (ha pre op post rfl)
    exact Or.inr ⟨hi.ok, hi'.ok, hretry⟩

/-- Two allocations on a machine that never runs out of frames. -/
theorem heap_wellFormed_sample :
    AllSteps HeapHistory.step
      (fun h op => h.heap.halted = true ∨ (h.Ok ∧ (h.step op).Ok ∧ h.OneRetry op))
      (heapBoot (fun _ => 0) fun _ => .frame fun _ => 0)
      [.malloc 24 fun _ _ => .frame fun _ => 0, .calloc 4 8 fun _ _ => .noFrame] :=
  heap_wellFormed _ _ _
    ⟨(by decide : 24 < 2 ^ 32), (by decide : 4 * 8 < 2 ^ 32), trivial⟩

end StyxOS
