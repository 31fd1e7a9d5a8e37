import StyxOS.Heap.Basic
import StyxOS.Library.Tiling

/-! # The block list in memory

A list of blocks laid out from an address, each header pointing at the one that
follows. A run of blocks can be replaced by another of the same span when memory
changes inside the run only; what `kmalloc` and `kfree` write are such changes.
-/

namespace StyxOS

open Tiling ByteMem

/-- The `magic` and `free` fields of a block. -/
def magicOf (b : Block) : ℕ := if b.used then heapMagicUsed else heapMagicFree

def freeOf (b : Block) : ℕ := if b.used then 0 else 1

/-- The header at `a` describes the block and points at `next`. -/
structure Header (m : Mem) (a : ℕ) (b : Block) (next : ℕ) : Prop where
  magic : fMagic.get m a = magicOf b
  free : fFree.get m a = freeOf b
  size : fSize.get m a = b.size
  next : fNext.get m a = next

/-- The blocks lie end to end from an address; the last header points at `t`. -/
def Links (m : Mem) (t : ℕ) : ℕ → List Block → Prop
  | _, [] => True
  | a, b :: bs =>
    Header m a b (if bs = [] then t else a + (blkHdr + b.size)) ∧
      Links m t (a + (blkHdr + b.size)) bs

variable {m m' : Mem} {t a x n need : ℕ} {b c : Block} {bs pre mid mid' post : List Block}

theorem Header.congr (h : Header m a b n) (hm : ∀ y, a ≤ y → y < a + blkHdr → m' y = m y) :
    Header m' a b n := by
  have hget : ∀ f : RecField, f.off + f.width ≤ blkHdr → f.get m' a = f.get m a := fun f hf =>
    RecField.get_congr fun i hi => hm _ (by omega) (by omega)
  exact ⟨(hget fMagic (by decide)).trans h.magic, (hget fFree (by decide)).trans h.free,
    (hget fSize (by decide)).trans h.size, (hget fNext (by decide)).trans h.next⟩

theorem Links.congr (h : Links m t a bs)
    (hm : ∀ y, a ≤ y → y < a + span blkHdr bs → m' y = m y) : Links m' t a bs := by
  induction bs generalizing a with
  | nil => trivial
  | cons b bs ih =>
    rw [span_cons] at hm
    exact ⟨h.1.congr fun y h₁ h₂ => hm y h₁ (by omega),
      ih h.2 fun y h₁ h₂ => hm y (by omega) (by omega)⟩

theorem links_append {ys : List Block} (hys : ys ≠ []) :
    Links m t a (pre ++ ys) ↔
      Links m (a + span blkHdr pre) a pre ∧ Links m t (a + span blkHdr pre) ys := by
  induction pre generalizing a with
  | nil => simp [Links]
  | cons b pre ih =>
    simp only [List.cons_append, Links, ih, span_cons, List.append_eq_nil_iff, hys, and_false,
      if_false, Nat.add_assoc]
    cases pre with
    | nil => simp [Links]
    | cons c pre => simp [and_assoc]

/-- Replace a run of blocks: memory changes inside the run only, and the new run is laid out there
and points where the old one did. -/
theorem Links.replace (h : Links m t a (pre ++ mid ++ post))
    (hs : span blkHdr mid = span blkHdr mid') (hmid : mid ≠ []) (hmid' : mid' ≠ [])
    (hout : ∀ y, y < a + span blkHdr pre ∨ a + span blkHdr pre + span blkHdr mid ≤ y → m' y = m y)
    (hnew : Links m' (if post = [] then t else a + span blkHdr pre + span blkHdr mid)
      (a + span blkHdr pre) mid') : Links m' t a (pre ++ mid' ++ post) := by
  rw [List.append_assoc] at h ⊢
  have hpre : Links m' (a + span blkHdr pre) a pre :=
    ((links_append (by simp [hmid])).mp h).1.congr fun y _ hy => hout y (Or.inl hy)
  have htail := ((links_append (by simp [hmid])).mp h).2
  refine (links_append (by simp [hmid'])).mpr ⟨hpre, ?_⟩
  cases hp : post with
  | nil =>
    rw [if_pos hp] at hnew
    simpa using hnew
  | cons p ps =>
    have hne : post ≠ [] := by rw [hp]; simp
    rw [if_neg hne] at hnew
    rw [← hp]
    rw [links_append hne] at htail ⊢
    rw [← hs]
    exact ⟨hnew, htail.2.congr fun y hy _ => hout y (Or.inr hy)⟩

theorem Links.header (h : Links m t a (pre ++ b :: post)) :
    Header m (a + span blkHdr pre) b
      (if post = [] then t else a + span blkHdr pre + (blkHdr + b.size)) :=
  ((links_append (by simp)).mp h).2.1

/-! ## Writing headers -/

theorem lt_field (h : n < 2 ^ 64) : n < 256 ^ 8 := by
  have : (256 : ℕ) ^ 8 = 2 ^ 64 := by decide
  omega

theorem set_apply_of_outside {f : RecField} {v y : ℕ} (hf : f.off + f.width ≤ blkHdr)
    (hy : y < a ∨ a + blkHdr ≤ y) : f.set m a v y = m y := by
  rcases hy with hy | hy
  · exact RecField.set_apply_of_lt (by omega)
  · exact RecField.set_apply_of_ge (by omega)

theorem writeHeader_apply {mg fr sz nx y : ℕ} (hy : y < a ∨ a + blkHdr ≤ y) :
    writeHeader m a mg fr sz nx y = m y := by
  unfold writeHeader
  rw [set_apply_of_outside (by decide) hy, set_apply_of_outside (by decide) hy,
    set_apply_of_outside (by decide) hy, set_apply_of_outside (by decide) hy]

theorem writeHeader_header {sz nx : ℕ} (hsz : sz < 2 ^ 64) (hnx : nx < 2 ^ 64) :
    Header (writeHeader m a heapMagicFree 1 sz nx) a ⟨sz, false⟩ nx := by
  have hs : sz < 256 ^ fSize.width := lt_field hsz
  have hn : nx < 256 ^ fNext.width := lt_field hnx
  unfold writeHeader
  constructor
  · simp (disch := decide) only [RecField.get_set_other]
    exact RecField.get_set_same (by decide)
  · simp (disch := decide) only [RecField.get_set_other]
    exact RecField.get_set_same (by decide)
  · simp (disch := decide) only [RecField.get_set_other]
    exact RecField.get_set_same hs
  · exact RecField.get_set_same hn

theorem Header.mark_used (h : Header m a b n) :
    Header (fFree.set (fMagic.set m a heapMagicUsed) a 0) a ⟨b.size, true⟩ n := by
  constructor
  · simp (disch := decide) only [RecField.get_set_other]
    exact RecField.get_set_same (by decide)
  · exact RecField.get_set_same (by decide)
  · simp (disch := decide) only [RecField.get_set_other]
    exact h.size
  · simp (disch := decide) only [RecField.get_set_other]
    exact h.next

theorem Header.mark_free (h : Header m a b n) :
    Header (fFree.set (fMagic.set m a heapMagicFree) a 1) a ⟨b.size, false⟩ n := by
  constructor
  · simp (disch := decide) only [RecField.get_set_other]
    exact RecField.get_set_same (by decide)
  · exact RecField.get_set_same (by decide)
  · simp (disch := decide) only [RecField.get_set_other]
    exact h.size
  · simp (disch := decide) only [RecField.get_set_other]
    exact h.next

theorem Header.resize (h : Header m a b n) {sz nx : ℕ} (hsz : sz < 2 ^ 64) (hnx : nx < 2 ^ 64) :
    Header (fSize.set (fNext.set m a nx) a sz) a ⟨sz, b.used⟩ nx ∧
      Header (fNext.set (fSize.set m a sz) a nx) a ⟨sz, b.used⟩ nx := by
  have hs : sz < 256 ^ fSize.width := lt_field hsz
  have hn : nx < 256 ^ fNext.width := lt_field hnx
  refine ⟨⟨?_, ?_, RecField.get_set_same hs, ?_⟩, ⟨?_, ?_, ?_, RecField.get_set_same hn⟩⟩
  · simp (disch := decide) only [RecField.get_set_other]
    exact h.magic
  · simp (disch := decide) only [RecField.get_set_other]
    exact h.free
  · simp (disch := decide) only [RecField.get_set_other]
    exact RecField.get_set_same hn
  · simp (disch := decide) only [RecField.get_set_other]
    exact h.magic
  · simp (disch := decide) only [RecField.get_set_other]
    exact h.free
  · simp (disch := decide) only [RecField.get_set_other]
    exact RecField.get_set_same hs

theorem Header.set_next (h : Header m a b n) {nx : ℕ} (hnx : nx < 2 ^ 64) :
    Header (fNext.set m a nx) a b nx := by
  have hn : nx < 256 ^ fNext.width := lt_field hnx
  refine ⟨?_, ?_, ?_, RecField.get_set_same hn⟩
  · simp (disch := decide) only [RecField.get_set_other]
    exact h.magic
  · simp (disch := decide) only [RecField.get_set_other]
    exact h.free
  · simp (disch := decide) only [RecField.get_set_other]
    exact h.size

/-! ## Taking a block -/

/-- What `kmalloc` makes of the block it has found. -/
def takenBlocks (b : Block) (need : ℕ) : List Block :=
  if b.size - need > blkHdr + heapAlign then
    [⟨need, true⟩, ⟨b.size - need - blkHdr, false⟩]
  else [⟨b.size, true⟩]

theorem takenBlocks_ne_nil : takenBlocks b need ≠ [] := by
  unfold takenBlocks
  split <;> simp

theorem span_takenBlocks (hfit : need ≤ b.size) :
    span blkHdr (takenBlocks b need) = span blkHdr [b] := by
  unfold takenBlocks
  split
  · simp only [span_cons, span_nil]
    omega
  · simp

theorem takenBlocks_head (b : Block) (need : ℕ) :
    ∃ s, need ≤ b.size → At blkHdr (takenBlocks b need) 0 ⟨s, true⟩ ∧ need ≤ s := by
  unfold takenBlocks
  split
  · exact ⟨need, fun _ => ⟨Or.inl ⟨rfl, rfl⟩, le_rfl⟩⟩
  · exact ⟨b.size, fun h => ⟨Or.inl ⟨rfl, rfl⟩, h⟩⟩

theorem takenBlocks_used {o : ℕ} (hat : At blkHdr (takenBlocks b need) o c) (hu : c.used = true) :
    o = 0 := by
  unfold takenBlocks at hat
  split at hat
  · rcases hat with ⟨rfl, -⟩ | ⟨o', rfl, hat⟩
    · rfl
    · rw [List.mem_singleton.mp hat.mem] at hu
      exact Bool.noConfusion hu
  · rcases hat with ⟨rfl, -⟩ | ⟨_, -, hbad⟩
    · rfl
    · exact hbad.elim

theorem takenBlocks_aligned (hneed : 16 ∣ need) (hb : 16 ∣ b.size) :
    ∀ c ∈ takenBlocks b need, 16 ∣ c.size := by
  unfold takenBlocks blkHdr heapAlign
  split
  · intro c hc
    simp only [List.mem_cons, List.not_mem_nil, or_false] at hc
    rcases hc with rfl | rfl
    · exact hneed
    · dsimp only
      omega
  · intro c hc
    obtain rfl := List.mem_singleton.mp hc
    exact hb

/-- The split leaves a block of the size asked for and a free one behind it. -/
theorem splitBlock_header (h : Header m x b n) (hend : x + blkHdr + b.size < 2 ^ 64)
    (hn : n < 2 ^ 64) (hrem : b.size - need > blkHdr + heapAlign) :
    Header (splitBlock m x need) x ⟨need, b.used⟩ (x + blkHdr + need) ∧
      Header (splitBlock m x need) (x + blkHdr + need) ⟨b.size - need - blkHdr, false⟩ n ∧
      ∀ y, y < x ∨ x + blkHdr + b.size ≤ y → splitBlock m x need y = m y := by
  have hsp : u64 (x + blkHdr + need) = x + blkHdr + need := Nat.mod_eq_of_lt (by omega)
  have he : splitBlock m x need = fSize.set (fNext.set (writeHeader m (x + blkHdr + need)
      heapMagicFree 1 (b.size - need - blkHdr) n) x (x + blkHdr + need)) x need := by
    unfold splitBlock
    rw [h.size, h.next, hsp]
    exact if_pos hrem
  rw [he]
  have hnew : Header (writeHeader m (x + blkHdr + need) heapMagicFree 1
      (b.size - need - blkHdr) n) (x + blkHdr + need) ⟨b.size - need - blkHdr, false⟩ n :=
    writeHeader_header (by omega) hn
  have hold : Header (writeHeader m (x + blkHdr + need) heapMagicFree 1
      (b.size - need - blkHdr) n) x b n :=
    h.congr fun y _ hy => writeHeader_apply (by omega)
  refine ⟨(hold.resize (by omega) (by omega)).1, hnew.congr fun y hy _ => ?_, fun y hy => ?_⟩
  · rw [set_apply_of_outside (by decide) (by omega), set_apply_of_outside (by decide) (by omega)]
  · rw [set_apply_of_outside (by decide) (by omega), set_apply_of_outside (by decide) (by omega),
      writeHeader_apply (by omega)]

theorem takeBlock_links (need : ℕ) (h : Header m x b n) (hend : x + blkHdr + b.size < 2 ^ 64)
    (hn : n < 2 ^ 64) :
    Links (takeBlock m x need) n x (takenBlocks b need) ∧
      ∀ y, y < x ∨ x + blkHdr + b.size ≤ y → takeBlock m x need y = m y := by
  have hmark : ∀ y, y < x ∨ x + blkHdr ≤ y →
      takeBlock m x need y = splitBlock m x need y := fun y hy => by
    unfold takeBlock
    rw [set_apply_of_outside (by decide) hy, set_apply_of_outside (by decide) hy]
  unfold takenBlocks
  split
  · next hrem =>
    obtain ⟨hold, hnew, hout⟩ := splitBlock_header h hend hn hrem
    refine ⟨⟨?_, ?_, trivial⟩, fun y hy => ?_⟩
    · rw [Nat.add_assoc] at hold
      exact hold.mark_used
    · rw [← Nat.add_assoc]
      exact hnew.congr fun y hy _ => hmark y (by omega)
    · rw [hmark y (by omega), hout y hy]
  · next hrem =>
    have he : splitBlock m x need = m := by
      unfold splitBlock
      rw [h.size]
      exact if_neg hrem
    rw [he] at hmark
    refine ⟨⟨?_, trivial⟩, fun y hy => hmark y (by omega)⟩
    unfold takeBlock
    rw [he]
    exact h.mark_used

/-! ## Coalescing -/

theorem coalesce_of_used (h : Header m x b n) (hn : n = 0 ∨ ∃ c t, c.used = true ∧ Header m n c t) :
    coalesce m x = m := by
  unfold coalesce
  rw [h.next]
  rcases hn with rfl | ⟨c, t, hc, hh⟩
  · simp
  · have hf : fFree.get m n = 0 := by rw [hh.free, freeOf, if_pos hc]
    simp [hf]

theorem coalesce_of_free (h : Header m x b n) (hx : n = x + (blkHdr + b.size))
    (hc : Header m n c t) (hfree : c.used = false) (hend : n + (blkHdr + c.size) < 2 ^ 64)
    (ht : t < 2 ^ 64) :
    Header (coalesce m x) x ⟨b.size + (blkHdr + c.size), b.used⟩ t ∧
      ∀ y, y < x ∨ x + blkHdr ≤ y → coalesce m x y = m y := by
  have hpos : n ≠ 0 := by unfold blkHdr at hx; omega
  have hf : fFree.get m n ≠ 0 := by rw [hc.free, freeOf, hfree]; decide
  have hm : fMagic.get m n = heapMagicFree := by rw [hc.magic, magicOf, hfree]; rfl
  unfold coalesce
  rw [h.next]
  dsimp only
  rw [if_pos ⟨hpos, hf, hm⟩, h.size, hc.size]
  have hsz : u64 (b.size + (blkHdr + c.size)) = b.size + (blkHdr + c.size) :=
    Nat.mod_eq_of_lt (by omega)
  rw [hsz]
  have hkeep : fNext.get (fSize.set m x (b.size + (blkHdr + c.size))) n = t := by
    rw [RecField.get_set_apart, hc.next]
    unfold RecField.Apart fSize fNext
    unfold blkHdr at hx
    dsimp only
    omega
  rw [hkeep]
  refine ⟨(h.resize (by omega) ht).2, fun y hy => ?_⟩
  rw [set_apply_of_outside (by decide) hy, set_apply_of_outside (by decide) hy]

/-! ## Mapping pages -/

/-- The memory that the mapping loop leaves. -/
def MapResult.mem : MapResult → Mem
  | mapped m | noFrame m | halted m => m

theorem mapPages_apply (pages : ℕ → PageGrant) (a i k : ℕ) (m : Mem) {y : ℕ} (hy : y < a)
    (hend : a + (i + k) * pageSize < 2 ^ 64) : (mapPages pages a i k m).mem y = m y := by
  induction k generalizing i m with
  | zero => rfl
  | succ k ih =>
    have hnext : i + 1 + k = i + (k + 1) := by omega
    have haddr : u64 (a + i * pageSize) = a + i * pageSize := by
      unfold u64 pageSize at *
      omega
    unfold mapPages
    split
    · rfl
    · rfl
    · rw [ih (i + 1) _ (by rwa [hnext]), haddr, mapPage, if_neg (by omega)]

end StyxOS
