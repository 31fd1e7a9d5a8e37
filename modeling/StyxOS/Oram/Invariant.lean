import StyxOS.Oram.Usb

/-! # The invariant of PathORAM

Every block is held once, in the stash or on the path to its leaf. An access
keeps that: it takes the blocks of one path into the stash, where there is room
for as many blocks as there are addresses, and places on the path what may be
there.
-/

namespace StyxOS

open ByteMem

/-! ## Paths -/

theorem getPath_spec : ∀ leaf < oramNumLeaves,
    (getPath leaf).Nodup ∧ ∀ n ∈ getPath leaf, n < oramNumNodes := by
  decide

theorem isAncestorFrom_iff {a : ℕ} {k fuel curr : ℕ} (hk : curr + 1 < 2 ^ (k + 1))
    (hfuel : curr ≤ fuel) : isAncestorFrom a fuel curr = true ↔ a ∈ climb (k + 1) curr := by
  induction k generalizing fuel curr with
  | zero =>
    obtain rfl : curr = 0 := by omega
    cases fuel <;> simp [isAncestorFrom, climb]
  | succ k ih =>
    rcases Nat.eq_zero_or_pos curr with rfl | hpos
    · have hzero : ∀ n, a ∈ climb (n + 1) 0 ↔ a = 0 := by
        intro n
        induction n with
        | zero => simp [climb]
        | succ n ihn =>
          rw [climb, if_neg (Nat.lt_irrefl 0), List.mem_cons, ihn]
          exact or_self_iff
      rw [hzero]
      cases fuel <;> simp [isAncestorFrom]
    · obtain ⟨fuel, rfl⟩ := Nat.exists_eq_add_of_lt (Nat.lt_of_lt_of_le hpos hfuel)
      have hhalf : (curr - 1) / 2 + 1 < 2 ^ (k + 1) := by
        rw [pow_succ] at hk
        omega
      have hih : isAncestorFrom a fuel ((curr - 1) / 2) = true ↔ _ := ih hhalf (by omega)
      rw [Nat.zero_add, isAncestorFrom, climb, if_pos hpos, if_pos hpos, List.mem_cons, ← hih]
      by_cases hc : curr = a
      · simp [hc]
      · simp [hc, Ne.symm hc]

theorem mayHold_iff {posMap : ℕ → ℕ} {n : ℕ} {b : OramBlock}
    (h : posMap b.lba < oramNumLeaves) :
    mayHold posMap n b = true ↔ n ∈ getPath (posMap b.lba) := by
  unfold oramNumLeaves at h
  have hnode : leafNode (posMap b.lba) = 63 + posMap b.lba :=
    Nat.mod_eq_of_lt (by simp only [oramNumLeaves]; omega)
  rw [mayHold, isAncestor, getPath, List.mem_reverse, hnode]
  exact isAncestorFrom_iff (k := oramL) (by simp only [oramL]; omega) le_rfl

/-! ## The blocks of the tree -/

def slotLba (V : ℕ → Bytes 512) (n j : ℕ) : ℕ := leVal ((V (sectorOf n j)).1.take 4)

def treeLbas (V : ℕ → Bytes 512) (n : ℕ) : List ℕ :=
  (List.range oramZ).filterMap fun j =>
    if slotLba V n j = dummyLba then none else some (slotLba V n j)

/-- What holds between accesses, of the sectors, the position map and the stash. -/
structure OramInvariant (V : ℕ → Bytes 512) (posMap : ℕ → ℕ) (stash : List OramBlock) : Prop where
  unique : PathTree.Unique (List.range oramNumNodes) (treeLbas V) (stash.map OramBlock.lba)
  onPath : ∀ n < oramNumNodes, ∀ lba ∈ treeLbas V n, n ∈ getPath (posMap lba)
  pos : ∀ lba < oramNumLeaves, posMap lba < oramNumLeaves
  tree : ∀ n < oramNumNodes, ∀ lba ∈ treeLbas V n, lba < oramNumLeaves
  inStash : ∀ b ∈ stash, b.lba < oramNumLeaves

section

variable {V V' : ℕ → Bytes 512} {posMap : ℕ → ℕ} {stash S S' : List OramBlock} {env : AccessEnv}
  {n lba : ℕ} {write : Bool} {data out : Bytes 512}

theorem treeLbas_congr (h : ∀ j < oramZ, V' (sectorOf n j) = V (sectorOf n j)) :
    treeLbas V' n = treeLbas V n := by
  refine List.filterMap_congr fun j hj => ?_
  rw [slotLba, slotLba, h j (List.mem_range.mp hj)]

theorem toSector_take (b : OramBlock) : b.toSector.1.take 4 = leBytes 4 b.lba := by
  rw [OramBlock.toSector, Bytes.val_ofList, List.take_take, List.append_assoc,
    List.take_left' (by rw [length_leBytes]; rfl)]

theorem leVal_toSector {b : OramBlock} (h : b.lba < 2 ^ 32) :
    leVal (b.toSector.1.take 4) = b.lba := by
  rw [toSector_take, leVal_leBytes]
  exact Nat.mod_eq_of_lt (by omega)

theorem filterMap_getD {α β : Type} {f : α → Option β} {g : α → β} {d : α} {bs : List α} {k : ℕ}
    (hd : f d = none) (hbs : ∀ b ∈ bs, f b = some (g b)) (hk : bs.length ≤ k) :
    (List.range k).filterMap (fun j => f (bs.getD j d)) = bs.map g := by
  induction bs generalizing k with
  | nil => exact List.filterMap_eq_nil_iff.mpr fun j _ => hd
  | cons b bs ih =>
    obtain ⟨hb, hrest⟩ := List.forall_mem_cons.mp hbs
    obtain ⟨k, rfl⟩ : ∃ k', k = k' + 1 := ⟨k - 1, by rw [List.length_cons] at hk; omega⟩
    rw [List.range_succ_eq_map,
      List.filterMap_cons_some (f := fun j => f ((b :: bs).getD j d)) (a := 0) hb,
      List.filterMap_map, List.map_cons,
        ← ih (k := k) hrest (by rw [List.length_cons] at hk; omega)]
    rfl

theorem treeLbas_of_bucket (bucket : List OramBlock) (hlen : bucket.length ≤ oramZ)
    (hlba : ∀ b ∈ bucket, b.lba < oramNumLeaves)
    (hV : ∀ j < oramZ, V (sectorOf n j) = (bucket.getD j dummyBlock).toSector) :
    treeLbas V n = bucket.map OramBlock.lba := by
  have hsmall : oramNumLeaves < dummyLba := by decide
  rw [← filterMap_getD (f := fun b => if leVal (b.toSector.1.take 4) = dummyLba then none
    else some (leVal (b.toSector.1.take 4))) (d := dummyBlock) ?_ ?_ hlen]
  · refine List.filterMap_congr fun j hj => ?_
    rw [slotLba, hV j (List.mem_range.mp hj)]
  · rw [leVal_toSector (by decide)]
    rfl
  · intro b hb
    have hlt := (hlba b hb).trans hsmall
    rw [leVal_toSector (hlt.trans (by decide)), if_neg hlt.ne]

/-! ## The path in the stash -/

theorem map_lba_fetched (env : AccessEnv) (path : List ℕ) :
    (fetched env V (pathSlots path)).map OramBlock.lba = path.flatMap (treeLbas V) := by
  have hnode : ∀ x : ℕ × ℕ, (((List.range oramZ).map fun j => (x.2, x.1, j)).filterMap fun x =>
      let b := OramBlock.ofSector (V (sectorOf x.2.1 x.2.2)) (env.tail x.1 x.2.2)
      if b.lba = dummyLba then none else some b).map OramBlock.lba = treeLbas V x.1 := by
    intro x
    have hblock : ∀ b : OramBlock, (if b.lba = dummyLba then none else some b).map OramBlock.lba =
        if b.lba = dummyLba then none else some b.lba := fun b => by split <;> rfl
    rw [List.filterMap_map, List.map_filterMap, treeLbas]
    exact List.filterMap_congr fun j _ => hblock _
  rw [fetched, pathSlots, List.filterMap_flatMap, List.map_flatMap, List.flatMap_congr
    fun x _ => hnode x, ← List.flatMap_map Prod.fst, List.zipIdx_map_fst]

def gathered (env : AccessEnv) (V : ℕ → Bytes 512) (stash : List OramBlock) (leaf : ℕ) :
    List OramBlock :=
  stash ++ fetched env V (pathSlots (getPath leaf))

theorem OramInvariant.gathered_spec (h : OramInvariant V posMap stash) (env : AccessEnv)
    (hlba : lba < oramNumLeaves) :
    ((gathered env V stash (posMap lba)).map OramBlock.lba).Nodup ∧
      (∀ n < oramNumNodes, n ∉ getPath (posMap lba) →
        List.Disjoint ((gathered env V stash (posMap lba)).map OramBlock.lba) (treeLbas V n)) ∧
      ∀ b ∈ gathered env V stash (posMap lba), b.lba < oramNumLeaves := by
  obtain ⟨hnodup, hlt⟩ := getPath_spec _ (h.pos lba hlba)
  obtain ⟨hall, hout⟩ := h.unique.gather hnodup fun n hn => List.mem_range.mpr (hlt n hn)
  rw [← map_lba_fetched env, ← List.map_append] at hall hout
  refine ⟨hall, fun n hn => hout n (List.mem_range.mpr hn), fun b hb => ?_⟩
  rcases List.mem_append.mp hb with hb | hb
  · exact h.inStash b hb
  · have hmem := List.mem_map_of_mem (f := OramBlock.lba) hb
    rw [map_lba_fetched] at hmem
    obtain ⟨n, hn, hb⟩ := List.mem_flatMap.mp hmem
    exact h.tree n (hlt n hn) _ hb

theorem length_le_of_nodup (hnodup : (S.map OramBlock.lba).Nodup)
    (hlt : ∀ b ∈ S, b.lba < oramNumLeaves) : S.length ≤ oramNumLeaves := by
  rw [← List.length_map (f := OramBlock.lba)]
  exact PathTree.length_le_of_nodup_of_lt hnodup (List.forall_mem_map.mpr hlt)

theorem map_lba_set {i : ℕ} {b : OramBlock} (hi : i < S.length) (hat : S[i].lba = b.lba) :
    (S.set i b).map OramBlock.lba = S.map OramBlock.lba := by
  have hi' : i < (S.map OramBlock.lba).length := by rwa [List.length_map]
  have hsame : (S.map OramBlock.lba)[i] = b.lba := by rw [List.getElem_map, hat]
  rw [List.map_set, ← hsame, List.set_getElem_self]

theorem find?_decide {α : Type} {p : α → Prop} [DecidablePred p] {l : List α} {a : α}
    (h : l.find? (fun x => decide (p x)) = some a) : p a :=
  of_decide_eq_true (List.find?_some (p := fun x => decide (p x)) h)

theorem find?_lba_eq_none_iff :
    S.find? (fun b => b.lba = lba) = none ↔ lba ∉ S.map OramBlock.lba := by
  simp only [List.find?_eq_none, decide_eq_true_eq, List.mem_map, not_exists, not_and]

theorem findIdx_lba_spec {b : OramBlock} (h : S.find? (fun b => b.lba = lba) = some b) :
    ∃ hidx : (S.findIdx fun b => b.lba = lba) < S.length,
      S[S.findIdx fun b => b.lba = lba].lba = lba := by
  have hidx : (S.findIdx fun b => b.lba = lba) < S.length :=
    List.findIdx_lt_length.mpr ⟨b, List.mem_of_find?_eq_some h,
      List.find?_some (p := fun b : OramBlock => decide (b.lba = lba)) h⟩
  exact ⟨hidx, of_decide_eq_true (List.findIdx_getElem (w := hidx))⟩

/-- The third step finds room for a block, and changes the addresses in the stash at most by adding
that of the request. -/
theorem process_spec (hnodup : (S.map OramBlock.lba).Nodup)
    (hlt : ∀ b ∈ S, b.lba < oramNumLeaves) (hlba : lba < oramNumLeaves) (write : Bool)
    (data : Bytes 512) :
    ∃ out S', process S lba write data = some (out, S') ∧ (S'.map OramBlock.lba).Nodup ∧
      ∀ b ∈ S', b.lba = lba ∨ b ∈ S := by
  cases hfind : S.find? (fun b => b.lba = lba) with
  | some b =>
    obtain ⟨hidx, hat⟩ := findIdx_lba_spec hfind
    cases write with
    | true =>
      refine ⟨data, S.set (S.findIdx fun b => b.lba = lba) ⟨lba, data⟩, by simp [process, hfind],
        ?_,
        fun b' hb' => ?_⟩
      · rwa [map_lba_set hidx hat]
      · rcases List.mem_or_eq_of_mem_set hb' with hb' | rfl
        · exact .inr hb'
        · exact .inl rfl
    | false => exact ⟨b.data, S, by simp [process, hfind], hnodup, fun _ hb' => .inr hb'⟩
  | none =>
    cases write with
    | true =>
      have hnew := find?_lba_eq_none_iff.mp hfind
      have hnodup' : ((S ++ [(⟨lba, data⟩ : OramBlock)]).map OramBlock.lba).Nodup := by
        rw [List.map_append, List.map_singleton]
        refine List.nodup_append'.mpr ⟨hnodup, List.nodup_singleton _, fun x hx hx' => ?_⟩
        rw [List.mem_singleton.mp hx'] at hx
        exact hnew hx
      have hlt' : ∀ b ∈ S ++ [(⟨lba, data⟩ : OramBlock)], b.lba < oramNumLeaves := fun b hb => by
        rcases List.mem_append.mp hb with hb | hb
        · exact hlt b hb
        · rwa [List.mem_singleton.mp hb]
      have hlen := length_le_of_nodup hnodup' hlt'
      rw [List.length_append, List.length_singleton] at hlen
      refine ⟨data, S ++ [⟨lba, data⟩], ?_, hnodup', fun b hb => ?_⟩
      · have : S.length < 64 := hlen
        simp [process, hfind, this]
      · rcases List.mem_append.mp hb with hb | hb
        · exact .inr hb
        · exact .inl (by rw [List.mem_singleton.mp hb])
    | false => exact ⟨Bytes.zero 512, S, by simp [process, hfind], hnodup, fun _ hb => .inr hb⟩

end

/-! ## The stash on the path -/

/-- What the fifth step places on the path of an access that draws `leaf`, and what it leaves. -/
def placement (posMap : ℕ → ℕ) (lba leaf : ℕ) (S : List OramBlock) :
    List (ℕ × List OramBlock) × List OramBlock :=
  PathTree.place (mayHold (Function.update posMap lba leaf)) oramZ (getPath (posMap lba)).reverse S

def accessView (V : ℕ → Bytes 512) (posMap : ℕ → ℕ) (lba leaf : ℕ) (S : List OramBlock) :
    ℕ → Bytes 512 :=
  Function.update (placedView V (placement posMap lba leaf S).1) oramPosmapLba
    (posmapSector (Function.update posMap lba leaf))

section

variable {V : ℕ → Bytes 512} {posMap : ℕ → ℕ} {stash S : List OramBlock} {env : AccessEnv}
  {lba leaf n j : ℕ} {x : ℕ × List OramBlock} {b : OramBlock}

theorem placement_perm : ((placement posMap lba leaf S).1.flatMap Prod.snd ++
    (placement posMap lba leaf S).2).Perm S := PathTree.place_perm _ _ _ _

theorem map_fst_placement :
    (placement posMap lba leaf S).1.map Prod.fst = (getPath (posMap lba)).reverse :=
  PathTree.map_fst_place _ _ _ _

theorem mem_of_mem_placement (hx : x ∈ (placement posMap lba leaf S).1) :
    x.1 ∈ getPath (posMap lba) ∧ x.2.length ≤ oramZ ∧
      ∀ b ∈ x.2, b ∈ S ∧ mayHold (Function.update posMap lba leaf) x.1 b = true := by
  obtain ⟨hlen, hmay⟩ := PathTree.of_mem_place hx
  refine ⟨?_, hlen, fun b hb => ⟨?_, hmay b hb⟩⟩
  · rw [← List.mem_reverse, ← map_fst_placement]
    exact List.mem_map_of_mem hx
  · exact placement_perm.mem_iff.mp (List.mem_append_left _ (List.mem_flatMap.mpr ⟨x, hx, hb⟩))

theorem mem_placement (leaf : ℕ) (hb : b ∈ S) : b ∈ (placement posMap lba leaf S).2 ∨
    ∃ x ∈ (placement posMap lba leaf S).1, b ∈ x.2 := by
  rcases List.mem_append.mp (placement_perm.mem_iff.mpr hb) with hb | hb
  · exact .inr (List.mem_flatMap.mp hb)
  · exact .inl hb

theorem exists_placement (leaf : ℕ) (S : List OramBlock) (hn : n ∈ getPath (posMap lba)) :
    ∃ x ∈ (placement posMap lba leaf S).1, x.1 = n := by
  rw [← List.mem_reverse, ← map_fst_placement] at hn
  exact List.mem_map.mp hn

theorem accessView_placed (hpos : posMap lba < oramNumLeaves)
    (hx : x ∈ (placement posMap lba leaf S).1) (hj : j < oramZ) :
    accessView V posMap lba leaf S (sectorOf x.1 j) = (x.2.getD j dummyBlock).toSector := by
  obtain ⟨hpath, hlt⟩ := getPath_spec _ hpos
  have hnode : ∀ y ∈ (placement posMap lba leaf S).1, y.1 < oramNumNodes := fun y hy =>
    hlt _ (mem_of_mem_placement hy).1
  rw [accessView, Function.update_of_ne (sectorOf_ne_posmap (hnode x hx) hj).1]
  refine placedView_self ?_ hnode hx hj
  rw [map_fst_placement]
  exact List.nodup_reverse.mpr hpath

theorem accessView_off (hpos : posMap lba < oramNumLeaves) (hn : n < oramNumNodes)
    (hj : j < oramZ) (hoff : n ∉ getPath (posMap lba)) :
    accessView V posMap lba leaf S (sectorOf n j) = V (sectorOf n j) := by
  rw [accessView, Function.update_of_ne (sectorOf_ne_posmap hn hj).1]
  refine placedView_of_ne fun x hx j' hj' hc => hoff ?_
  have hpath := (mem_of_mem_placement hx).1
  rw [sectorOf_inj hn hj ((getPath_spec _ hpos).2 _ hpath) hj'] at hc
  rwa [hc.1]

theorem treeLbas_placed (hpos : posMap lba < oramNumLeaves)
    (hS : ∀ b ∈ S, b.lba < oramNumLeaves) (hx : x ∈ (placement posMap lba leaf S).1) :
    treeLbas (accessView V posMap lba leaf S) x.1 = x.2.map OramBlock.lba := by
  obtain ⟨-, hlen, hmem⟩ := mem_of_mem_placement hx
  exact treeLbas_of_bucket x.2 hlen (fun b hb => hS b (hmem b hb).1)
    fun j hj => accessView_placed hpos hx hj

theorem treeLbas_off (hpos : posMap lba < oramNumLeaves) (hn : n < oramNumNodes)
    (hoff : n ∉ getPath (posMap lba)) :
    treeLbas (accessView V posMap lba leaf S) n = treeLbas V n :=
  treeLbas_congr fun _ hj => accessView_off hpos hn hj hoff

/-- An address in the tree is where it was, off the path, or is one of a block that was placed. -/
theorem mem_treeLbas_accessView (hpos : posMap lba < oramNumLeaves)
    (hS : ∀ b ∈ S, b.lba < oramNumLeaves) (hn : n < oramNumNodes) {l : ℕ}
    (hl : l ∈ treeLbas (accessView V posMap lba leaf S) n) :
    n ∉ getPath (posMap lba) ∧ l ∈ treeLbas V n ∨
      ∃ x ∈ (placement posMap lba leaf S).1, x.1 = n ∧ ∃ b ∈ x.2, b.lba = l := by
  by_cases hoff : n ∈ getPath (posMap lba)
  · obtain ⟨x, hx, rfl⟩ := exists_placement leaf S hoff
    rw [treeLbas_placed hpos hS hx] at hl
    exact .inr ⟨x, hx, rfl, List.mem_map.mp hl⟩
  · rw [treeLbas_off hpos hn hoff] at hl
    exact .inl ⟨hoff, hl⟩

theorem OramInvariant.disjoint_process (h : OramInvariant V posMap stash)
    (hlba : lba < oramNumLeaves)
    (hS : ∀ b ∈ S, b.lba = lba ∨ b ∈ gathered env V stash (posMap lba)) (hn : n < oramNumNodes)
    (hoff : n ∉ getPath (posMap lba)) : List.Disjoint (S.map OramBlock.lba) (treeLbas V n) := by
  intro l hl hl'
  obtain ⟨b, hb, rfl⟩ := List.mem_map.mp hl
  rcases hS b hb with hb | hb
  · rw [hb] at hl'
    exact hoff (h.onPath n hn lba hl')
  · exact (h.gathered_spec env hlba).2.1 n hn hoff (List.mem_map_of_mem hb) hl'

/-- Placing the stash on the path keeps the invariant. -/
theorem OramInvariant.place (h : OramInvariant V posMap stash) (hlba : lba < oramNumLeaves)
    (hleaf : leaf < oramNumLeaves) (hnodup : (S.map OramBlock.lba).Nodup)
    (hlt : ∀ b ∈ S, b.lba < oramNumLeaves)
    (hS : ∀ b ∈ S, b.lba = lba ∨ b ∈ gathered env V stash (posMap lba)) :
    OramInvariant (accessView V posMap lba leaf S) (Function.update posMap lba leaf)
      (placement posMap lba leaf S).2 := by
  have hpos := h.pos lba hlba
  have hpos' : ∀ l < oramNumLeaves, Function.update posMap lba leaf l < oramNumLeaves := by
    intro l hl
    rw [Function.update_apply]
    split
    · exact hleaf
    · exact h.pos l hl
  refine ⟨?_, ?_, hpos', ?_, ?_⟩
  · refine h.unique.putBack (getPath (posMap lba)).reverse (S.map OramBlock.lba)
      List.nodup_range ?_ hnodup ?_ ?_
    · intro n hn hoff
      exact treeLbas_off hpos (List.mem_range.mp hn) fun hc => hoff (List.mem_reverse.mpr hc)
    · intro n hn hoff
      exact h.disjoint_process hlba hS (List.mem_range.mp hn) fun hc =>
        hoff (List.mem_reverse.mpr hc)
    · have hflat : (getPath (posMap lba)).reverse.flatMap
          (treeLbas (accessView V posMap lba leaf S)) =
            ((placement posMap lba leaf S).1.flatMap Prod.snd).map OramBlock.lba := by
        rw [← map_fst_placement, List.flatMap_map, List.map_flatMap]
        exact List.flatMap_congr fun x hx => treeLbas_placed hpos hlt hx
      rw [hflat, ← List.map_append]
      exact placement_perm.map OramBlock.lba
  · intro n hn l hl
    rcases mem_treeLbas_accessView hpos hlt hn hl with ⟨hoff, hl⟩ | ⟨x, hx, rfl, b, hb, rfl⟩
    · have hne : l ≠ lba := fun hc => hoff (h.onPath n hn lba (hc ▸ hl))
      rw [Function.update_of_ne hne]
      exact h.onPath n hn l hl
    · obtain ⟨hbS, hmay⟩ := (mem_of_mem_placement hx).2.2 b hb
      exact (mayHold_iff (hpos' _ (hlt b hbS))).mp hmay
  · intro n hn l hl
    rcases mem_treeLbas_accessView hpos hlt hn hl with ⟨-, hl⟩ | ⟨x, hx, rfl, b, hb, rfl⟩
    · exact h.tree n hn l hl
    · exact hlt b ((mem_of_mem_placement hx).2.2 b hb).1
  · exact fun b hb => hlt b (placement_perm.mem_iff.mp (List.mem_append_right _ hb))

end

/-! ## Accesses -/

section

variable {δ : Type} [SectorDevice δ] {F : FaithfulDevice δ} {m : PathOram δ} {V : ℕ → Bytes 512}
  {lba : ℕ}

/-- An access to an address of the store succeeds and keeps the invariant. -/
theorem OramInvariant.access (h : OramInvariant V m.posMap m.stash) (hd : F.Holds m.dev V)
    (hspares : m.stray.Spares) (hlba : lba < oramNumLeaves) (env : AccessEnv) (write : Bool)
    (data : Bytes 512) :
    ∃ out S m', process (gathered env V m.stash (m.posMap lba)) lba write data = some (out, S) ∧
      (∀ b ∈ S, b.lba < oramNumLeaves) ∧ oramAccess env m lba write data = some (0, out, m') ∧
      F.Holds m'.dev (accessView V m.posMap lba (oramRandLeaf env.random) S) ∧
      m'.posMap = Function.update m.posMap lba (oramRandLeaf env.random) ∧
      m'.stash = (placement m.posMap lba (oramRandLeaf env.random) S).2 ∧ m'.stray = m.stray ∧
      OramInvariant (accessView V m.posMap lba (oramRandLeaf env.random) S) m'.posMap m'.stash := by
  obtain ⟨hnodup, -, hlt⟩ := h.gathered_spec env hlba
  obtain ⟨dev₁, hfetch, hd₁⟩ := fetchPath_eq env (pathSlots (getPath (m.posMap lba))) hd (by
      have hlen := length_le_of_nodup hnodup hlt
      rwa [gathered, List.length_append] at hlen)
  obtain ⟨out, S, hprocess, hnodup', hS⟩ := process_spec hnodup hlt hlba write data
  have hlt' : ∀ b ∈ S, b.lba < oramNumLeaves := fun b hb => by
    rcases hS b hb with hb | hb
    · rwa [hb]
    · exact hlt b hb
  have hleaf := oramRandLeaf_lt env.random
  obtain ⟨dev₂, hevict, hd₂⟩ := evict_eq (F := F)
    (m := { dev := dev₁
            posMap := Function.update m.posMap lba (oramRandLeaf env.random)
            stash := S
            stray := m.stray }) (getPath (m.posMap lba)).reverse hd₁ hspares hlt'
  refine ⟨out, S, { dev := posmapSave (Function.update m.posMap lba (oramRandLeaf env.random)) dev₂
                    posMap := Function.update m.posMap lba (oramRandLeaf env.random)
                    stash := (placement m.posMap lba (oramRandLeaf env.random) S).2
                    stray := m.stray },
    hprocess, hlt', ?_, ?_, ?_, ?_, rfl, ?_⟩
  · have hge : ¬lba ≥ oramNumLeaves := Nat.not_le.mpr hlba
    rw [gathered] at hprocess
    simp only [oramAccess, if_neg hge, hfetch, hprocess, evict, hevict, Option.bind_eq_bind,
      Option.bind_some, placement, Bool.true_eq_false, if_false]
  · dsimp only
    exact hd₂.posmapSave _
  · dsimp only
  · dsimp only
  · dsimp only
    exact h.place hlba hleaf hnodup' hlt' hS

/-! ## Runs -/

/-- A call of `oram_access` with what it finds. -/
structure OramCall where
  env : AccessEnv
  lba : ℕ
  write : Bool
  data : Bytes 512

def OramCall.apply (m : PathOram δ) (c : OramCall) : Option (ℤ × Bytes 512 × PathOram δ) :=
  oramAccess c.env m c.lba c.write c.data

/-- The store after a run of calls. -/
def runCalls (m : PathOram δ) (calls : List OramCall) : Option (PathOram δ) :=
  calls.foldlM (fun m c => (c.apply m).map fun x => x.2.2) m

/-- The sectors after `oram_format`. -/
def formatView (V : ℕ → Bytes 512) (posMap : ℕ → ℕ) : ℕ → Bytes 512 :=
  Function.update (Function.update
    (placedView V ((List.range oramNumNodes).map fun n => (n, []))) oramPosmapLba
    (posmapSector posMap)) oramMetaLba metaSector

theorem formatView_sectorOf {posMap : ℕ → ℕ} {n j : ℕ} (hn : n < oramNumNodes) (hj : j < oramZ) :
    formatView V posMap (sectorOf n j) = dummyBlock.toSector := by
  obtain ⟨hposmap, hmeta⟩ := sectorOf_ne_posmap hn hj
  have hfst : ((List.range oramNumNodes).map fun n => (n, ([] : List OramBlock))).map Prod.fst =
      List.range oramNumNodes := by
    rw [List.map_map]
    exact List.map_id _
  rw [formatView, Function.update_of_ne hmeta, Function.update_of_ne hposmap]
  refine placedView_self (x := (n, [])) ?_ ?_ (List.mem_map.mpr ⟨n, List.mem_range.mpr hn, rfl⟩) hj
  · rw [hfst]
    exact List.nodup_range
  · exact List.forall_mem_map.mpr fun n hn => List.mem_range.mp hn

theorem holds_oramFormat (hd : F.Holds m.dev V) (hspares : m.stray.Spares) (random : ℕ → ℕ) :
    F.Holds (oramFormat random m).dev (formatView V (oramFormat random m).posMap) := by
  obtain ⟨hready, rfl⟩ := hd
  obtain ⟨hoff, hview⟩ := F.off hready
  have hbuckets : ∀ (ns : List ℕ) {d : δ} {V : ℕ → Bytes 512}, F.Holds d V →
      F.Holds (ns.foldl (fun d n => writeBucket m.stray d n []) d)
        (placedView V (ns.map fun n => (n, []))) := by
    intro ns
    induction ns with
    | nil => exact fun h => h
    | cons n ns ih => exact fun h => ih (h.writeBucket hspares n [])
  have htree := hbuckets (List.range oramNumNodes) ⟨hoff, hview⟩
  have hall := (htree.posmapSave fun i => oramRandLeaf (random i)).writeSector
    (show oramMetaLba < 2 ^ 32 by decide) metaSector
  obtain ⟨hback, hview'⟩ := F.back hready hall.1
  exact ⟨hback, hview'.trans hall.2⟩

theorem oramInvariant_format (V : ℕ → Bytes 512) (hstash : m.stash = []) (random : ℕ → ℕ) :
    OramInvariant (formatView V (oramFormat random m).posMap) (oramFormat random m).posMap
      (oramFormat random m).stash := by
  have hempty : ∀ n < oramNumNodes,
      treeLbas (formatView V (oramFormat random m).posMap) n = [] := fun n hn =>
    treeLbas_of_bucket [] (Nat.zero_le _) (fun b hb => absurd hb List.not_mem_nil)
      fun j hj => formatView_sectorOf hn hj
  have hnil : (oramFormat random m).stash = [] := hstash
  rw [hnil]
  refine ⟨?_, ?_, fun lba _ => oramRandLeaf_lt _, ?_, fun b hb => absurd hb List.not_mem_nil⟩
  · rw [PathTree.Unique, List.flatMap_eq_nil_iff.mpr fun n hn => hempty n (List.mem_range.mp hn)]
    exact List.nodup_nil
  · intro n hn lba hlba
    rw [hempty n hn] at hlba
    cases hlba
  · intro n hn lba hlba
    rw [hempty n hn] at hlba
    cases hlba

/-- What one call does to a store that is as it should be. -/
theorem OramInvariant.apply (h : OramInvariant V m.posMap m.stash) (hd : F.Holds m.dev V)
    (hspares : m.stray.Spares) (c : OramCall) :
    ∃ rc out m', c.apply m = some (rc, out, m') ∧ (c.lba < oramNumLeaves → rc = 0) ∧
      F.Ready m'.dev ∧ m'.stray.Spares ∧
        OramInvariant (F.view m'.dev) m'.posMap m'.stash := by
  by_cases hlba : c.lba < oramNumLeaves
  · obtain ⟨out, S, m', -, -, heq, hd', -, -, hstray, h'⟩ :=
      h.access hd hspares hlba c.env c.write c.data
    refine ⟨0, out, m', heq, fun _ => rfl, hd'.1, ?_, ?_⟩
    · rwa [hstray]
    · rw [hd'.2]
      exact h'
  · refine ⟨-1, c.data, m, if_pos (Nat.not_lt.mp hlba), fun hlt => absurd hlt hlba, hd.1, hspares,
      ?_⟩
    rw [hd.2]
    exact h

theorem OramInvariant.run (h : OramInvariant (F.view m.dev) m.posMap m.stash)
    (hready : F.Ready m.dev) (hspares : m.stray.Spares) (calls : List OramCall) :
    ∃ m', runCalls m calls = some m' ∧ F.Ready m'.dev ∧ m'.stray.Spares ∧
      OramInvariant (F.view m'.dev) m'.posMap m'.stash := by
  induction calls generalizing m with
  | nil => exact ⟨m, rfl, hready, hspares, h⟩
  | cons c calls ih =>
    obtain ⟨rc, out, m₁, heq, -, hready₁, hspares₁, h₁⟩ := h.apply ⟨hready, rfl⟩ hspares c
    obtain ⟨m', hm', hok⟩ := ih h₁ hready₁ hspares₁
    refine ⟨m', ?_, hok⟩
    rw [runCalls, List.foldlM_cons, heq]
    exact hm'

/-- In every run from a formatted store with an empty stash, where the store behind the sector
buffer does no harm, each block is held once and lies on its path, all positions and addresses are
in range, and every call to an address of the store succeeds: the stash never overflows, and the
position map is never read behind its end. -/
theorem path_oram_invariant (F : FaithfulDevice δ) {m : PathOram δ} (hready : F.Ready m.dev)
    (hstash : m.stash = []) (hspares : m.stray.Spares) (random : ℕ → ℕ) (calls : List OramCall) :
    ∃ m', runCalls (oramFormat random m) calls = some m' ∧
      OramInvariant (F.view m'.dev) m'.posMap m'.stash ∧ m'.stash.length ≤ 64 ∧
      ∀ c : OramCall, ∃ rc out m'', c.apply m' = some (rc, out, m'') ∧
        (c.lba < oramNumLeaves → rc = 0) := by
  obtain ⟨hready', hview⟩ := holds_oramFormat (F := F) ⟨hready, rfl⟩ hspares random
  have hinv := oramInvariant_format (F.view m.dev) hstash random
  rw [← hview] at hinv
  obtain ⟨m', hm', hr', hs', h'⟩ := hinv.run hready' hspares calls
  refine ⟨m', hm', h', length_le_of_nodup (List.nodup_append'.mp h'.unique).1 h'.inStash,
    fun c => ?_⟩
  obtain ⟨rc, out, m'', heq, hrc, -⟩ := h'.apply ⟨hr', rfl⟩ hs' c
  exact ⟨rc, out, m'', heq, hrc⟩

end

/-- A store over a blank disk. -/
def blankOram (stray : StrayStore) : PathOram (UsbDisk MemDisk.transport fun _ => []) where
  dev := ⟨MemDisk.blank⟩
  posMap := fun _ => 0
  stash := []
  stray := stray

theorem blankOram_ready (stray : StrayStore) :
    (usbFaithful MemDisk.faithful).Ready (blankOram stray).dev := ⟨rfl, rfl⟩

/-- A call that draws the leaf of the address and finds zeros on the stack. -/
def plainCall (lba : ℕ) (write : Bool) (data : Bytes 512) : OramCall where
  env := ⟨lba, fun _ _ => Bytes.zero 512, fun _ _ => Bytes.zero 4⟩
  lba := lba
  write := write
  data := data

theorem path_oram_invariant_sample :
    ∃ m', runCalls (oramFormat id (blankOram .unused))
        [plainCall 5 true (Bytes.zero 512), plainCall 5 false (Bytes.zero 512)] = some m' ∧
      OramInvariant ((usbFaithful MemDisk.faithful).view m'.dev) m'.posMap m'.stash ∧
      m'.stash.length ≤ 64 := by
  obtain ⟨m', hm', hinv, hlen, -⟩ :=
    path_oram_invariant (usbFaithful MemDisk.faithful) (blankOram_ready .unused) rfl
      StrayStore.spares_unused id
      [plainCall 5 true (Bytes.zero 512), plainCall 5 false (Bytes.zero 512)]
  exact ⟨m', hm', hinv, hlen⟩

/-! ## The sector number behind the buffer -/

section

variable {δ : Type} [SectorDevice δ] {F : FaithfulDevice δ} {m : PathOram δ} {d : δ}
  {V : ℕ → Bytes 512}

/-- The sectors are those of `V`, but for sector 0. -/
def HoldsFromOne (F : FaithfulDevice δ) (V : ℕ → Bytes 512) (d : δ) : Prop :=
  F.Ready d ∧ ∀ l, l ≠ 0 → F.view d l = V l

theorem leVal_lastFour_dummy : leVal (lastFour dummyBlock.data).1 = 0 := by decide +kernel

theorem HoldsFromOne.writeBucket (h : HoldsFromOne F V d) (node : ℕ) :
    HoldsFromOne F V (writeBucket .onSectorNumber d node []) := by
  unfold StyxOS.writeBucket
  generalize List.range oramZ = js
  induction js generalizing d with
  | nil => exact h
  | cons j js ih =>
    refine ih ?_
    dsimp only
    rw [List.getD_nil, oramWriteBlock, StrayStore.lbaAfter_onSectorNumber, leVal_lastFour_dummy]
    obtain ⟨hready, hview⟩ := F.write dummyBlock.toSector h.1 (show 0 < 2 ^ 32 by norm_num)
    refine ⟨hready, fun l hl => ?_⟩
    rw [hview, Function.update_of_ne hl]
    exact h.2 l hl

theorem view_oramFormat_onSectorNumber (hd : F.Holds m.dev V) (hstray : m.stray = .onSectorNumber)
    (random : ℕ → ℕ) {n j : ℕ} (hn : n < oramNumNodes) (hj : j < oramZ) :
    F.view (oramFormat random m).dev (sectorOf n j) = V (sectorOf n j) := by
  obtain ⟨hready, rfl⟩ := hd
  have hbuckets : ∀ (ns : List ℕ) {d : δ}, HoldsFromOne F (F.view m.dev) d →
      HoldsFromOne F (F.view m.dev) (ns.foldl (fun d n => writeBucket m.stray d n []) d) := by
    intro ns
    rw [hstray]
    induction ns with
    | nil => exact fun h => h
    | cons n ns ih => exact fun h => ih (h.writeBucket n)
  obtain ⟨hoff, hview⟩ := F.off hready
  obtain ⟨htree, hkept⟩ := hbuckets (List.range oramNumNodes) ⟨hoff, fun l _ => congrFun hview l⟩
  have hall := (FaithfulDevice.Holds.posmapSave (F := F) ⟨htree, rfl⟩
    fun i => oramRandLeaf (random i)).writeSector (show oramMetaLba < 2 ^ 32 by decide) metaSector
  obtain ⟨-, hback⟩ := F.back hready hall.1
  obtain ⟨hposmap, hmeta⟩ := sectorOf_ne_posmap hn hj
  have hpos : sectorOf n j ≠ 0 := by
    rw [sectorOf_eq hn hj]
    omega
  refine (congrFun (hback.trans hall.2) _).trans ?_
  rw [Function.update_of_ne hmeta, Function.update_of_ne hposmap]
  exact hkept _ hpos

end

/-- On a blank disk the sectors of the tree stay zeros after the formatting, which are blocks with
the address 0. -/
theorem not_path_oram_invariant :
    let m := oramFormat id (blankOram .onSectorNumber)
    ¬OramInvariant ((usbFaithful MemDisk.faithful).view m.dev) m.posMap m.stash := by
  intro m h
  have hblank : ∀ j < oramZ, (usbFaithful MemDisk.faithful).view m.dev (sectorOf 0 j) =
      Bytes.zero 512 := by
    intro j hj
    refine (view_oramFormat_onSectorNumber ⟨blankOram_ready .onSectorNumber, rfl⟩ rfl id
      (by decide) hj).trans ?_
    exact if_pos (sectorOf_lt 0 j)
  have hroot : treeLbas ((usbFaithful MemDisk.faithful).view m.dev) 0 = [0, 0, 0, 0] := by
    rw [treeLbas_congr (V := fun _ => Bytes.zero 512) hblank]
    decide +kernel
  have hnodup := (List.nodup_flatMap.mp (List.nodup_append'.mp h.unique).2.1).1 0
    (List.mem_range.mpr (by decide))
  rw [hroot] at hnodup
  exact absurd hnodup (by decide)

end StyxOS
