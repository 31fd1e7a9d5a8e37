import StyxOS.Library.Bytes
import StyxOS.Oram.Basic

/-! # Faithful devices

Over a device that returns what was last written to each sector, what a part of
`oram.c` does to the device is a change of the map from sectors to bytes. The
changes are stated here for blocks, buckets, the position map and a placement
of the stash on a path.
-/

namespace StyxOS

open ByteMem

/-- A device that returns the bytes last written to each sector, in the encryption mode it is in and
in the one that `oram.c` switches to for its bookkeeping. -/
structure FaithfulDevice (δ : Type) [SectorDevice δ] where
  Ready : δ → Prop
  view : δ → ℕ → Bytes 512
  read : ∀ {d lba} (buf : Bytes 512), Ready d → lba < 2 ^ 32 →
    (readSector d lba buf).2.1 = view d lba ∧ Ready (readSector d lba buf).2.2 ∧
      view (readSector d lba buf).2.2 = view d
  write : ∀ {d lba} (buf : Bytes 512), Ready d → lba < 2 ^ 32 →
    Ready (writeSector d lba buf).2 ∧
      view (writeSector d lba buf).2 = Function.update (view d) lba buf
  off : ∀ {d}, Ready d → Ready (setEncryption false d) ∧ view (setEncryption false d) = view d
  back : ∀ {d₀ d}, Ready d₀ → Ready d →
    Ready (setEncryption (encryption d₀) d) ∧ view (setEncryption (encryption d₀) d) = view d

theorem oramRandLeaf_lt (random : ℕ) : oramRandLeaf random < oramNumLeaves :=
  Nat.mod_lt _ (by decide)

theorem lt_pow_of_lt_numLeaves {leaf : ℕ} (h : leaf < oramNumLeaves) : leaf < 2 ^ 32 :=
  h.trans (by decide)

theorem sectorOf_lt (node slot : ℕ) : sectorOf node slot < 2 ^ 32 := Nat.mod_lt _ (by norm_num)

theorem sectorOf_eq {node slot : ℕ} (hn : node < oramNumNodes) (hj : slot < oramZ) :
    sectorOf node slot = 500 + node * 4 + slot := by
  unfold oramNumNodes at hn
  unfold oramZ at hj
  exact Nat.mod_eq_of_lt (by simp only [oramBaseLba, oramZ]; omega)

theorem sectorOf_inj {n n' j j' : ℕ} (hn : n < oramNumNodes) (hj : j < oramZ)
    (hn' : n' < oramNumNodes) (hj' : j' < oramZ) :
    sectorOf n j = sectorOf n' j' ↔ n = n' ∧ j = j' := by
  rw [sectorOf_eq hn hj, sectorOf_eq hn' hj']
  unfold oramZ at hj hj'
  omega

theorem sectorOf_ne_posmap {n j : ℕ} (hn : n < oramNumNodes) (hj : j < oramZ) :
    sectorOf n j ≠ oramPosmapLba ∧ sectorOf n j ≠ oramMetaLba := by
  rw [sectorOf_eq hn hj]
  unfold oramNumNodes at hn
  unfold oramZ at hj
  unfold oramPosmapLba oramMetaLba
  omega

/-! ## Views -/

def bucketView (V : ℕ → Bytes 512) (node : ℕ) (bucket : List OramBlock) : ℕ → Bytes 512 :=
  (List.range oramZ).foldl
    (fun V j => Function.update V (sectorOf node j) (bucket.getD j dummyBlock).toSector) V

def placedView (V : ℕ → Bytes 512) (placed : List (ℕ × List OramBlock)) : ℕ → Bytes 512 :=
  placed.foldl (fun V x => bucketView V x.1 x.2) V

section

variable {V : ℕ → Bytes 512} {node n j l : ℕ} {bucket : List OramBlock}
  {placed : List (ℕ × List OramBlock)}

/-- What a sector holds after slots have been written: what they put there, or what it held. -/
theorem foldl_slots_apply {js : List ℕ} {v : Bytes 512}
    (hv : ∀ j ∈ js, sectorOf node j = l → (bucket.getD j dummyBlock).toSector = v)
    (h : V l = v ∨ ∃ j ∈ js, sectorOf node j = l) :
    js.foldl (fun V j => Function.update V (sectorOf node j)
      (bucket.getD j dummyBlock).toSector) V l = v := by
  induction js generalizing V with
  | nil =>
    rcases h with h | ⟨j, hj, -⟩
    · exact h
    · cases hj
  | cons j js ih =>
    obtain ⟨hj, hrest⟩ := List.forall_mem_cons.mp hv
    rw [List.foldl_cons]
    refine ih hrest ?_
    by_cases hl : sectorOf node j = l
    · exact .inl (by rw [← hl, Function.update_self]; exact hj hl)
    · rw [Function.update_of_ne (Ne.symm hl)]
      refine h.imp_right fun ⟨j', hj', hl'⟩ => ?_
      rcases List.mem_cons.mp hj' with rfl | hj'
      · exact absurd hl' hl
      · exact ⟨j', hj', hl'⟩

theorem bucketView_self (hn : node < oramNumNodes) (hj : j < oramZ) :
    bucketView V node bucket (sectorOf node j) = (bucket.getD j dummyBlock).toSector := by
  refine foldl_slots_apply (fun j' hj' hl => ?_) (.inr ⟨j, List.mem_range.mpr hj, rfl⟩)
  rw [((sectorOf_inj hn (List.mem_range.mp hj') hn hj).mp hl).2]

theorem bucketView_of_ne (h : ∀ j < oramZ, l ≠ sectorOf node j) :
    bucketView V node bucket l = V l :=
  foldl_slots_apply (fun j hj hl => absurd hl.symm (h j (List.mem_range.mp hj))) (.inl rfl)

theorem placedView_of_ne (h : ∀ x ∈ placed, ∀ j < oramZ, l ≠ sectorOf x.1 j) :
    placedView V placed l = V l := by
  induction placed generalizing V with
  | nil => rfl
  | cons x placed ih =>
    obtain ⟨hx, hrest⟩ := List.forall_mem_cons.mp h
    exact (ih hrest).trans (bucketView_of_ne hx)

theorem placedView_self {x : ℕ × List OramBlock} (hnodup : (placed.map Prod.fst).Nodup)
    (hlt : ∀ y ∈ placed, y.1 < oramNumNodes) (hx : x ∈ placed) (hj : j < oramZ) :
    placedView V placed (sectorOf x.1 j) = (x.2.getD j dummyBlock).toSector := by
  induction placed generalizing V with
  | nil => cases hx
  | cons y placed ih =>
    obtain ⟨hy, hrest⟩ := List.forall_mem_cons.mp hlt
    obtain ⟨hnew, hnodup⟩ := List.nodup_cons.mp hnodup
    rcases List.mem_cons.mp hx with rfl | hx
    · have hfar : ∀ z ∈ placed, ∀ j' < oramZ, sectorOf x.1 j ≠ sectorOf z.1 j' := by
        intro z hz j' hj' hc
        rw [sectorOf_inj hy hj (hrest z hz) hj'] at hc
        exact hnew (List.mem_map.mpr ⟨z, hz, hc.1.symm⟩)
      exact (placedView_of_ne hfar).trans (bucketView_self hy hj)
    · exact ih hnodup hrest hx

end

/-! ## The position map on disk -/

theorem leVal_posmapSector {posMap : ℕ → ℕ} {i : ℕ} (hi : i < oramNumLeaves)
    (hpos : posMap i < 2 ^ 32) :
    leVal (((posmapSector posMap).1.drop (4 * i)).take 4) = posMap i := by
  have hwidth : ∀ k < oramNumLeaves, (leBytes 4 (posMap k)).length = 4 :=
    fun k _ => length_leBytes 4 (posMap k)
  have hlen := length_flatMap_range hwidth
  have hchunk := take_drop_flatMap_range hwidth hi
  unfold oramNumLeaves at hi
  have hentry : ((posmapSector posMap).1.drop (4 * i)).take 4 = leBytes 4 (posMap i) := by
    rw [posmapSector, Bytes.val_ofList, List.drop_take, List.take_take,
      List.drop_append_of_le_length (by rw [hlen]; simp only [oramNumLeaves]; omega),
      Nat.min_eq_left (by omega), List.take_append_of_le_length
        (by rw [List.length_drop, hlen]; simp only [oramNumLeaves]; omega)]
    rwa [Nat.mul_comm]
  rw [hentry, leVal_leBytes]
  exact Nat.mod_eq_of_lt (by omega)

theorem posmapSector_congr {posMap posMap' : ℕ → ℕ}
    (h : ∀ i < oramNumLeaves, posMap i = posMap' i) :
      posmapSector posMap = posmapSector posMap' := by
  rw [posmapSector, posmapSector, List.flatMap_congr fun i hi => by rw [h i (List.mem_range.mp hi)]]

/-! ## The parts of an access -/

section

variable {δ : Type} [SectorDevice δ] (F : FaithfulDevice δ) {d : δ} {V : ℕ → Bytes 512}

namespace FaithfulDevice

def Holds (d : δ) (V : ℕ → Bytes 512) : Prop := F.Ready d ∧ F.view d = V

variable {F}

theorem Holds.oramReadBlock (h : F.Holds d V) (node slot : ℕ) (buf : Bytes 512) (tail : Bytes 4) :
    (oramReadBlock d node slot buf tail).1 = .ofSector (V (sectorOf node slot)) tail ∧
      F.Holds (oramReadBlock d node slot buf tail).2 V := by
  obtain ⟨hready, rfl⟩ := h
  obtain ⟨hbuf, hready', hview⟩ := F.read buf hready (sectorOf_lt node slot)
  exact ⟨congrArg (OramBlock.ofSector · tail) hbuf, hready', hview⟩

theorem Holds.writeSector (h : F.Holds d V) {lba : ℕ} (hlba : lba < 2 ^ 32) (buf : Bytes 512) :
    F.Holds (writeSector d lba buf).2 (Function.update V lba buf) := by
  obtain ⟨hready, rfl⟩ := h
  exact F.write buf hready hlba

theorem Holds.posmapSave (h : F.Holds d V) (posMap : ℕ → ℕ) :
    F.Holds (posmapSave posMap d) (Function.update V oramPosmapLba (posmapSector posMap)) := by
  obtain ⟨hready, rfl⟩ := h
  obtain ⟨hoff, hview⟩ := F.off hready
  obtain ⟨hwrite, hview'⟩ := F.write (posmapSector posMap) hoff
    (show oramPosmapLba < 2 ^ 32 by decide)
  obtain ⟨hback, hview''⟩ := F.back hready hwrite
  exact ⟨hback, by rw [StyxOS.posmapSave, hview'', hview', hview]⟩

theorem Holds.posmapLoad (h : F.Holds d V) (buf : Bytes 512) :
    (posmapLoad buf d).1 = (fun i => leVal (((V oramPosmapLba).1.drop (4 * i)).take 4)) ∧
      F.Holds (posmapLoad buf d).2 V := by
  obtain ⟨hready, rfl⟩ := h
  obtain ⟨hoff, hview⟩ := F.off hready
  obtain ⟨hbuf, hread, hview'⟩ := F.read buf hoff (show oramPosmapLba < 2 ^ 32 by decide)
  obtain ⟨hback, hview''⟩ := F.back hready hread
  refine ⟨?_, hback, hview''.trans (hview'.trans hview)⟩
  funext i
  rw [StyxOS.posmapLoad, ← hview, ← hbuf]

theorem Holds.oramWriteBlock {stray : StrayStore} (h : F.Holds d V) (hspares : stray.Spares)
    (node slot : ℕ) (b : OramBlock) : F.Holds (oramWriteBlock stray d node slot b)
      (Function.update V (sectorOf node slot) b.toSector) := by
  rw [StyxOS.oramWriteBlock, hspares _ _ (sectorOf_lt node slot)]
  exact h.writeSector (sectorOf_lt node slot) b.toSector

theorem Holds.writeBucket {stray : StrayStore} (h : F.Holds d V) (hspares : stray.Spares)
    (node : ℕ) (bucket : List OramBlock) :
    F.Holds (writeBucket stray d node bucket) (bucketView V node bucket) := by
  unfold StyxOS.writeBucket bucketView
  generalize List.range oramZ = js
  induction js generalizing d V with
  | nil => exact h
  | cons j js ih => exact ih (h.oramWriteBlock hspares node j _)

end FaithfulDevice

open FaithfulDevice

variable {F} {m : PathOram δ} {env : AccessEnv} {slots : List (ℕ × ℕ × ℕ)}

def fetched (env : AccessEnv) (V : ℕ → Bytes 512) (slots : List (ℕ × ℕ × ℕ)) : List OramBlock :=
  slots.filterMap fun x =>
    let b := OramBlock.ofSector (V (sectorOf x.2.1 x.2.2)) (env.tail x.1 x.2.2)
    if b.lba = dummyLba then none else some b

theorem fetchPath_eq (env : AccessEnv) (slots : List (ℕ × ℕ × ℕ)) (h : F.Holds m.dev V)
    (hroom : m.stash.length + (fetched env V slots).length ≤ 64) :
    ∃ dev, fetchPath env m slots =
        (true, { m with dev := dev, stash := m.stash ++ fetched env V slots }) ∧
      F.Holds dev V := by
  induction slots generalizing m with
  | nil => exact ⟨m.dev, by rw [fetchPath, fetched, List.filterMap_nil, List.append_nil], h⟩
  | cons x slots ih =>
    obtain ⟨i, node, j⟩ := x
    obtain ⟨hb, hdev⟩ := h.oramReadBlock node j (env.buf i j) (env.tail i j)
    rw [fetchPath]
    generalize hread : oramReadBlock m.dev node j (env.buf i j) (env.tail i j) = r at hb hdev
    obtain ⟨b, dev⟩ := r
    dsimp only at hb hdev ⊢
    by_cases hdummy : b.lba = dummyLba
    · have hskip : fetched env V ((i, node, j) :: slots) = fetched env V slots := by
        rw [fetched, List.filterMap_cons_none (by simp [← hb, hdummy])]
        rfl
      rw [hskip] at hroom ⊢
      rw [if_pos hdummy]
      exact ih (m := { m with dev := dev }) hdev hroom
    · have htake : fetched env V ((i, node, j) :: slots) = b :: fetched env V slots := by
        rw [fetched, List.filterMap_cons_some (b := b) (by simp [← hb, hdummy])]
        rfl
      rw [htake, List.length_cons] at hroom
      rw [htake, if_neg hdummy, if_pos (by omega)]
      obtain ⟨dev', heq, hdev'⟩ := ih (m := { m with dev := dev, stash := m.stash ++ [b] }) hdev
        (by rw [List.length_append, List.length_singleton]; omega)
      refine ⟨dev', ?_, hdev'⟩
      rw [heq, List.append_assoc]
      rfl

/-- A block may go to a node on the way to its leaf. -/
def mayHold (posMap : ℕ → ℕ) (node : ℕ) (b : OramBlock) : Bool :=
  isAncestor node (leafNode (posMap b.lba))

theorem takeBucket_eq {posMap : ℕ → ℕ} {node k : ℕ} {bs : List OramBlock}
    (h : ∀ b ∈ bs, b.lba < oramNumLeaves) :
    takeBucket posMap node k bs = some (PathTree.takeUpTo (mayHold posMap node) k bs) := by
  induction bs generalizing k with
  | nil => cases k <;> rfl
  | cons b bs ih =>
    obtain ⟨hb, hrest⟩ := List.forall_mem_cons.mp h
    cases k with
    | zero => rfl
    | succ k =>
      have hpos : posAt posMap b.lba = some (posMap b.lba) := if_pos hb
      cases hmay : isAncestor node (leafNode (posMap b.lba)) <;>
        simp [takeBucket, hpos, ih hrest, PathTree.takeUpTo, mayHold, hmay]

theorem evict_eq (nodes : List ℕ) (h : F.Holds m.dev V) (hspares : m.stray.Spares)
    (hlba : ∀ b ∈ m.stash, b.lba < oramNumLeaves) :
    ∃ dev, nodes.foldlM evictNode m = some { m with
        dev := dev, stash := (PathTree.place (mayHold m.posMap) oramZ nodes m.stash).2 } ∧
      F.Holds dev
        (placedView V (PathTree.place (mayHold m.posMap) oramZ nodes m.stash).1) := by
  induction nodes generalizing m V with
  | nil => exact ⟨m.dev, rfl, h⟩
  | cons node nodes ih =>
    have hperm := PathTree.takeUpTo_perm (mayHold m.posMap node) oramZ m.stash
    have hrest : ∀ b ∈ (PathTree.takeUpTo (mayHold m.posMap node) oramZ m.stash).2,
        b.lba < oramNumLeaves := fun b hb =>
      hlba b (hperm.mem_iff.mp (List.mem_append_right _ hb))
    rw [List.foldlM_cons, evictNode, takeBucket_eq hlba]
    simp only [Option.bind_eq_bind, Option.bind_some]
    obtain ⟨dev, heq, hdev⟩ := ih (m := { m with
      dev := writeBucket m.stray m.dev node
        (PathTree.takeUpTo (mayHold m.posMap node) oramZ m.stash).1
      stash := (PathTree.takeUpTo (mayHold m.posMap node) oramZ m.stash).2 })
      (h.writeBucket hspares node _) hspares hrest
    exact ⟨dev, heq, hdev⟩

end

end StyxOS
