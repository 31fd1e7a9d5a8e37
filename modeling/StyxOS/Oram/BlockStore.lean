import StyxOS.Library.Run
import StyxOS.Oram.Flaky
import StyxOS.Oram.Invariant

/-! # PathORAM as a block store

A run is followed by the data last written to each address. Every block keeps
the first 508 bytes of its data wherever it is, if it goes to its own sector.
The last four do not fit into a sector: after a fetch they are what was on the
stack behind the sector buffer, and a read is right exactly when that is what
was written.
-/

namespace StyxOS

open ByteMem StepSystem

/-- The four bytes behind the sector buffer at the last fetch of each block, after the slots of a
path have been fetched. -/
def fetchTails (env : AccessEnv) (V : ℕ → Bytes 512) (slots : List (ℕ × ℕ × ℕ))
    (tails : ℕ → Bytes 4) (lba : ℕ) : Bytes 4 :=
  match slots.find? (fun x => slotLba V x.2.1 x.2.2 = lba) with
  | some x => env.tail x.1 x.2.2
  | none => tails lba

section

variable {V : ℕ → Bytes 512} {env : AccessEnv} {posMap : ℕ → ℕ} {S S' stash : List OramBlock}
  {flat : ℕ → Bytes 512} {tails : ℕ → Bytes 4} {lba leaf : ℕ} {data out : Bytes 512}

/-! ## Sectors of blocks -/

theorem bytes_ext {a b : Bytes 512} :
    a = b ↔ a.1.take 508 = b.1.take 508 ∧ lastFour a = lastFour b := by
  constructor
  · rintro rfl
    exact ⟨rfl, rfl⟩
  · rintro ⟨hfirst, hlast⟩
    have hdrop : a.1.drop 508 = b.1.drop 508 := congrArg Subtype.val hlast
    apply Subtype.ext
    rw [← List.take_append_drop 508 a.1, hfirst, hdrop, List.take_append_drop]

theorem lastFour_zero : lastFour (Bytes.zero 512) = Bytes.zero 4 := by decide +kernel

theorem toSector_drop (b : OramBlock) : b.toSector.1.drop 4 = b.data.1.take 508 := by
  have hlen : (leBytes 4 b.lba ++ b.data.1).length = 516 := by
    rw [List.length_append, length_leBytes, b.data.2]
  rw [OramBlock.toSector, Bytes.val_ofList, List.take_append_of_le_length (by rw [hlen]; omega),
    List.drop_take, List.drop_left' (length_leBytes 4 b.lba)]

theorem ofSector_data (buf : Bytes 512) (tail : Bytes 4) :
    (OramBlock.ofSector buf tail).data.1 = buf.1.drop 4 ++ tail.1 := by
  have hlen : ((buf.1 ++ tail.1).drop 4).length = 512 := by
    rw [List.length_drop, List.length_append, buf.2, tail.2]
  have hdata : (OramBlock.ofSector buf tail).data.1 = (buf.1 ++ tail.1).drop 4 :=
    congrArg Subtype.val (Bytes.ofList_of_length hlen)
  rw [hdata, List.drop_append_of_le_length (by rw [buf.2]; omega)]

theorem ofSector_parts (buf : Bytes 512) (tail : Bytes 4) :
    (OramBlock.ofSector buf tail).data.1.take 508 = buf.1.drop 4 ∧
      lastFour (OramBlock.ofSector buf tail).data = tail := by
  have hlen : (buf.1.drop 4).length = 508 := by rw [List.length_drop, buf.2]
  constructor
  · rw [ofSector_data, List.take_left' hlen]
  · apply Subtype.ext
    calc (OramBlock.ofSector buf tail).data.1.drop 508
        = (buf.1.drop 4 ++ tail.1).drop 508 := by rw [ofSector_data]
      _ = tail.1 := List.drop_left' hlen

/-! ## What is held -/

/-- What the stash and the tree hold, of the data last written and of the bytes of the last
fetch. -/
structure Holding (V : ℕ → Bytes 512) (stash : List OramBlock) (flat : ℕ → Bytes 512)
    (tails : ℕ → Bytes 4) : Prop where
  inStash : ∀ b ∈ stash, b.data.1.take 508 = (flat b.lba).1.take 508 ∧ lastFour b.data = tails b.lba
  inTree : ∀ n < oramNumNodes, ∀ j < oramZ, slotLba V n j ≠ dummyLba →
    (V (sectorOf n j)).1.drop 4 = (flat (slotLba V n j)).1.take 508
  absent : ∀ lba < oramNumLeaves, lba ∉ stash.map OramBlock.lba →
    (∀ n < oramNumNodes, lba ∉ treeLbas V n) →
      flat lba = Bytes.zero 512 ∧ tails lba = Bytes.zero 4

theorem mem_treeLbas {n : ℕ} :
    lba ∈ treeLbas V n ↔ lba ≠ dummyLba ∧ ∃ j < oramZ, slotLba V n j = lba := by
  simp only [treeLbas, List.mem_filterMap, List.mem_range, Option.ite_none_left_eq_some,
    Option.some.injEq]
  constructor
  · rintro ⟨j, hj, hne, rfl⟩
    exact ⟨hne, j, hj, rfl⟩
  · rintro ⟨hne, j, hj, rfl⟩
    exact ⟨j, hj, hne, rfl⟩

theorem mem_fetched {slots : List (ℕ × ℕ × ℕ)} {b : OramBlock} :
    b ∈ fetched env V slots ↔ ∃ x ∈ slots, slotLba V x.2.1 x.2.2 ≠ dummyLba ∧
      OramBlock.ofSector (V (sectorOf x.2.1 x.2.2)) (env.tail x.1 x.2.2) = b := by
  simp only [fetched, List.mem_filterMap]
  constructor
  · rintro ⟨x, hx, hb⟩
    obtain ⟨hne, hb⟩ := Option.ite_none_left_eq_some.mp hb
    exact ⟨x, hx, hne, Option.some.inj hb⟩
  · rintro ⟨x, hx, hne, rfl⟩
    exact ⟨x, hx, if_neg hne⟩

theorem mem_pathSlots {path : List ℕ} {x : ℕ × ℕ × ℕ} (h : x ∈ pathSlots path) :
    x.2.1 ∈ path ∧ x.2.2 < oramZ := by
  obtain ⟨y, hy, hx⟩ := List.mem_flatMap.mp h
  obtain ⟨j, hj, rfl⟩ := List.mem_map.mp hx
  have hnode : y.1 ∈ path := List.fst_mem_of_mem_zipIdx hy
  exact ⟨hnode, List.mem_range.mp hj⟩

theorem fetchTails_of_mem {slots : List (ℕ × ℕ × ℕ)} {b : OramBlock}
    (hnodup : ((fetched env V slots).map OramBlock.lba).Nodup) (hb : b ∈ fetched env V slots) :
    lastFour b.data = fetchTails env V slots tails b.lba := by
  obtain ⟨x, hx, hne, rfl⟩ := mem_fetched.mp hb
  have hfind : ∃ y, slots.find? (fun y => slotLba V y.2.1 y.2.2 =
      (OramBlock.ofSector (V (sectorOf x.2.1 x.2.2)) (env.tail x.1 x.2.2)).lba) = some y := by
    refine Option.isSome_iff_exists.mp (List.find?_isSome.mpr ⟨x, hx, ?_⟩)
    exact decide_eq_true rfl
  obtain ⟨y, hy⟩ := hfind
  have hsame := find?_decide hy
  have hymem : OramBlock.ofSector (V (sectorOf y.2.1 y.2.2)) (env.tail y.1 y.2.2) ∈
      fetched env V slots :=
    mem_fetched.mpr ⟨y, List.mem_of_find?_eq_some hy, hsame ▸ hne, rfl⟩
  have heq := List.inj_on_of_nodup_map hnodup hymem hb hsame
  rw [fetchTails, hy, ← heq]
  exact (ofSector_parts _ _).2

theorem fetchTails_of_notMem {slots : List (ℕ × ℕ × ℕ)} (hne : lba ≠ dummyLba)
    (h : lba ∉ (fetched env V slots).map OramBlock.lba) :
    fetchTails env V slots tails lba = tails lba := by
  have hnone : slots.find? (fun x => slotLba V x.2.1 x.2.2 = lba) = none := by
    refine List.find?_eq_none.mpr fun x hx hc => h ?_
    have hx' : slotLba V x.2.1 x.2.2 = lba := of_decide_eq_true hc
    exact List.mem_map.mpr ⟨_, mem_fetched.mpr ⟨x, hx, hx' ▸ hne, rfl⟩, hx'⟩
  rw [fetchTails, hnone]

theorem ne_dummyLba (h : lba < oramNumLeaves) : lba ≠ dummyLba :=
  (h.trans (by decide)).ne

/-- The blocks in the stash once the path is fetched. -/
theorem Holding.gathered (h : Holding V stash flat tails) (hinv : OramInvariant V posMap stash)
    (env : AccessEnv) (hlba : lba < oramNumLeaves) :
    ∀ b ∈ gathered env V stash (posMap lba), b.data.1.take 508 = (flat b.lba).1.take 508 ∧
      lastFour b.data =
        fetchTails env V (pathSlots (getPath (posMap lba))) tails b.lba := by
  obtain ⟨hnodup, -, hlt⟩ := hinv.gathered_spec env hlba
  rw [StyxOS.gathered, List.map_append] at hnodup
  obtain ⟨-, hfetched, hdisj⟩ := List.nodup_append'.mp hnodup
  intro b hb
  have hdummy := ne_dummyLba (hlt b hb)
  rcases List.mem_append.mp hb with hb | hb
  · rw [fetchTails_of_notMem hdummy fun hc => hdisj (List.mem_map_of_mem hb) hc]
    exact h.inStash b hb
  · refine ⟨?_, fetchTails_of_mem hfetched hb⟩
    obtain ⟨x, hx, hne, rfl⟩ := mem_fetched.mp hb
    obtain ⟨hn, hj⟩ := mem_pathSlots hx
    rw [(ofSector_parts _ _).1]
    exact h.inTree _ ((getPath_spec _ (hinv.pos lba hlba)).2 _ hn) _ hj hne

/-! ## The third step -/

theorem process_read (h : process S lba false data = some (out, S')) :
    S' = S ∧ ((∃ b ∈ S, b.lba = lba ∧ out = b.data) ∨
      lba ∉ S.map OramBlock.lba ∧ out = Bytes.zero 512) := by
  unfold process at h
  cases hfind : S.find? (fun b => b.lba = lba) with
  | some b =>
    rw [hfind] at h
    obtain ⟨rfl, rfl⟩ := Prod.mk.inj (Option.some.inj h)
    exact ⟨rfl, .inl ⟨b, List.mem_of_find?_eq_some hfind,
      find?_decide (p := fun b : OramBlock => b.lba = lba) hfind, rfl⟩⟩
  | none =>
    rw [hfind] at h
    obtain ⟨rfl, rfl⟩ := Prod.mk.inj (Option.some.inj h)
    exact ⟨rfl, .inr ⟨find?_lba_eq_none_iff.mp hfind, rfl⟩⟩

theorem process_write (hnodup : (S.map OramBlock.lba).Nodup)
    (h : process S lba true data = some (out, S')) :
    ∀ b, b ∈ S' ↔ b = ⟨lba, data⟩ ∨ b ∈ S ∧ b.lba ≠ lba := by
  unfold process at h
  cases hfind : S.find? (fun b => b.lba = lba) with
  | some b₀ =>
    rw [hfind] at h
    obtain ⟨-, rfl⟩ := Prod.mk.inj (Option.some.inj h)
    obtain ⟨hidx, hat⟩ := findIdx_lba_spec hfind
    generalize (S.findIdx fun b => b.lba = lba) = i at hidx hat
    have hnodup' : ((S.set i ⟨lba, data⟩).map OramBlock.lba).Nodup := by
      rwa [map_lba_set hidx hat]
    have hnew : (⟨lba, data⟩ : OramBlock) ∈ S.set i ⟨lba, data⟩ := List.mem_set hidx _
    intro b
    constructor
    · intro hb
      rcases List.mem_or_eq_of_mem_set hb with hb' | rfl
      · by_cases hl : b.lba = lba
        · exact .inl (List.inj_on_of_nodup_map hnodup' hb hnew hl)
        · exact .inr ⟨hb', hl⟩
      · exact .inl rfl
    · rintro (rfl | ⟨hb, hl⟩)
      · exact hnew
      · obtain ⟨k, hk, rfl⟩ := List.getElem_of_mem hb
        refine List.mem_iff_getElem.mpr ⟨k, by rwa [List.length_set], ?_⟩
        rw [List.getElem_set_ne]
        rintro rfl
        exact hl hat
  | none =>
    have hnone : ∀ b ∈ S, b.lba ≠ lba := fun b hb hl =>
      find?_lba_eq_none_iff.mp hfind (List.mem_map.mpr ⟨b, hb, hl⟩)
    rw [hfind] at h
    dsimp only at h
    by_cases hroom : S.length < 64
    · rw [if_pos hroom] at h
      obtain ⟨-, rfl⟩ := Prod.mk.inj (Option.some.inj h)
      intro b
      rw [List.mem_append, List.mem_singleton, or_comm]
      exact or_congr_right ⟨fun hb => ⟨hb, hnone b hb⟩, fun hb => hb.1⟩
    · rw [if_neg hroom] at h
      cases h

/-! ## An access -/

def flatAfter (flat : ℕ → Bytes 512) (lba : ℕ) (write : Bool) (data : Bytes 512) :
    ℕ → Bytes 512 :=
  if write then Function.update flat lba data else flat

/-- The bytes of the last fetches, after a call. -/
def tailsAfter (env : AccessEnv) (V : ℕ → Bytes 512) (posMap : ℕ → ℕ) (tails : ℕ → Bytes 4)
    (lba : ℕ) (write : Bool) (data : Bytes 512) : ℕ → Bytes 4 :=
  let tails := fetchTails env V (pathSlots (getPath (posMap lba))) tails
  if write then Function.update tails lba (lastFour data) else tails

variable {write : Bool} {l : ℕ}

theorem flatAfter_of_ne (h : l ≠ lba) : flatAfter flat lba write data l = flat l := by
  unfold flatAfter
  split
  · exact Function.update_of_ne h _ _
  · rfl

theorem tailsAfter_of_ne (h : l ≠ lba) : tailsAfter env V posMap tails lba write data l =
    fetchTails env V (pathSlots (getPath (posMap lba))) tails l := by
  unfold tailsAfter
  split
  · exact Function.update_of_ne h _ _
  · rfl

/-- What the stash holds after the third step. -/
theorem Holding.process (h : Holding V stash flat tails) (hinv : OramInvariant V posMap stash)
    (hlba : lba < oramNumLeaves)
    (hs : process (StyxOS.gathered env V stash (posMap lba)) lba write data = some (out, S)) :
    (∀ b ∈ S, b.data.1.take 508 = (flatAfter flat lba write data b.lba).1.take 508 ∧
      lastFour b.data = tailsAfter env V posMap tails lba write data b.lba) ∧
    ∀ b ∈ StyxOS.gathered env V stash (posMap lba), b.lba ∈ S.map OramBlock.lba := by
  have hold := h.gathered hinv env hlba
  cases write with
  | false =>
    obtain ⟨rfl, -⟩ := process_read hs
    exact ⟨hold, fun b hb => List.mem_map_of_mem hb⟩
  | true =>
    have hmem := process_write (hinv.gathered_spec env hlba).1 hs
    constructor
    · intro b hb
      rcases (hmem b).mp hb with rfl | ⟨hb, hne⟩
      · simp [flatAfter, tailsAfter]
      · rw [flatAfter_of_ne hne, tailsAfter_of_ne hne]
        exact hold b hb
    · intro b hb
      by_cases hl : b.lba = lba
      · exact List.mem_map.mpr ⟨_, (hmem _).mpr (.inl rfl), hl.symm⟩
      · exact List.mem_map_of_mem ((hmem b).mpr (.inr ⟨hb, hl⟩))

/-- The slots of the tree hold what they should after an access that left `S` to be placed. -/
theorem Holding.access_inTree (leaf : ℕ) (h : Holding V stash flat tails)
    (hinv : OramInvariant V posMap stash) (hlba : lba < oramNumLeaves)
    (hdata : ∀ b ∈ S, b.data.1.take 508 = (flatAfter flat lba write data b.lba).1.take 508)
    (hlt : ∀ b ∈ S, b.lba < oramNumLeaves) {n j : ℕ} (hn : n < oramNumNodes) (hj : j < oramZ)
    (hne : slotLba (accessView V posMap lba leaf S) n j ≠ dummyLba) :
    (accessView V posMap lba leaf S (sectorOf n j)).1.drop 4 =
      (flatAfter flat lba write data
        (slotLba (accessView V posMap lba leaf S) n j)).1.take 508 := by
  have hpos := hinv.pos lba hlba
  by_cases hoff : n ∈ getPath (posMap lba)
  · obtain ⟨x, hx, rfl⟩ := exists_placement leaf S hoff
    have hslot : slotLba (accessView V posMap lba leaf S) x.1 j =
        leVal ((x.2.getD j dummyBlock).toSector.1.take 4) := by
      rw [slotLba, accessView_placed hpos hx hj]
    rw [hslot] at hne ⊢
    rw [accessView_placed hpos hx hj, toSector_drop]
    by_cases hjx : j < x.2.length
    · rw [List.getD_eq_getElem _ _ hjx]
      have hbS := (mem_of_mem_placement hx).2.2 _ (List.getElem_mem hjx)
      rw [leVal_toSector ((hlt _ hbS.1).trans (by decide))]
      exact hdata _ hbS.1
    · rw [List.getD_eq_default _ _ (Nat.not_lt.mp hjx), leVal_toSector (by decide)] at hne
      exact absurd rfl hne
  · have hslot : slotLba (accessView V posMap lba leaf S) n j = slotLba V n j := by
      rw [slotLba, accessView_off hpos hn hj hoff, slotLba]
    rw [hslot] at hne ⊢
    rw [accessView_off hpos hn hj hoff]
    have hin : slotLba V n j ∈ treeLbas V n := mem_treeLbas.mpr ⟨hne, j, hj, rfl⟩
    have hne' : slotLba V n j ≠ lba := by
      intro hc
      rw [hc] at hin
      exact hoff (hinv.onPath n hn lba hin)
    rw [flatAfter_of_ne hne']
    exact h.inTree n hn j hj hne

/-- What is not held after an access was not held before it, and was not gathered. -/
theorem notHeld_of_access (hpos : posMap lba < oramNumLeaves)
    (hlt : ∀ b ∈ S, b.lba < oramNumLeaves)
    (hkept : ∀ b ∈ StyxOS.gathered env V stash (posMap lba), b.lba ∈ S.map OramBlock.lba)
    (hstash : l ∉ (placement posMap lba leaf S).2.map OramBlock.lba)
    (htree : ∀ n < oramNumNodes, l ∉ treeLbas (accessView V posMap lba leaf S) n) :
    l ∉ S.map OramBlock.lba ∧
      l ∉ (StyxOS.gathered env V stash (posMap lba)).map OramBlock.lba ∧
      ∀ n < oramNumNodes, l ∉ treeLbas V n := by
  have hS : l ∉ S.map OramBlock.lba := by
    intro hc
    obtain ⟨b, hb, rfl⟩ := List.mem_map.mp hc
    rcases mem_placement leaf hb with hrest | ⟨x, hx, hbx⟩
    · exact hstash (List.mem_map_of_mem hrest)
    · refine htree x.1 ((getPath_spec _ hpos).2 _ (mem_of_mem_placement hx).1) ?_
      rw [treeLbas_placed hpos hlt hx]
      exact List.mem_map_of_mem hbx
  have hgathered : l ∉ (StyxOS.gathered env V stash (posMap lba)).map OramBlock.lba := by
    intro hc
    obtain ⟨b, hb, rfl⟩ := List.mem_map.mp hc
    exact hS (hkept b hb)
  refine ⟨hS, hgathered, ?_⟩
  intro n hn hc
  by_cases hoff : n ∈ getPath (posMap lba)
  · rw [StyxOS.gathered, List.map_append, List.mem_append, not_or, map_lba_fetched] at hgathered
    exact hgathered.2 (List.mem_flatMap.mpr ⟨n, hoff, hc⟩)
  · refine htree n hn ?_
    rwa [treeLbas_off hpos hn hoff]

/-- An access keeps what is held. -/
theorem Holding.access (leaf : ℕ) (h : Holding V stash flat tails)
    (hinv : OramInvariant V posMap stash)
    (hlba : lba < oramNumLeaves)
    (hs : StyxOS.process (StyxOS.gathered env V stash (posMap lba)) lba write data = some (out, S))
    (hlt : ∀ b ∈ S, b.lba < oramNumLeaves) :
    Holding (accessView V posMap lba leaf S) (placement posMap lba leaf S).2
      (flatAfter flat lba write data) (tailsAfter env V posMap tails lba write data) := by
  obtain ⟨hdata, hkept⟩ := h.process hinv hlba hs
  constructor
  case inStash =>
    exact fun b hb => hdata b (placement_perm.mem_iff.mp (List.mem_append_right _ hb))
  case inTree =>
    intro n hn j hj hne
    exact h.access_inTree leaf hinv hlba (fun b hb => (hdata b hb).1) hlt hn hj hne
  case absent =>
    intro l hl hstash htree
    obtain ⟨hS, hgathered, hbefore⟩ :=
      notHeld_of_access (hinv.pos lba hlba) hlt hkept hstash htree
    rw [StyxOS.gathered, List.map_append, List.mem_append, not_or] at hgathered
    obtain ⟨hnostash, hnofetch⟩ := hgathered
    obtain ⟨hzero, htail⟩ := h.absent l hl hnostash hbefore
    have hfetch : fetchTails env V (pathSlots (getPath (posMap lba))) tails l = Bytes.zero 4 :=
      (fetchTails_of_notMem (ne_dummyLba hl) hnofetch).trans htail
    cases write with
    | false => exact ⟨hzero, hfetch⟩
    | true =>
      have hne : l ≠ lba := by
        rintro rfl
        have hmem := process_write (hinv.gathered_spec env hlba).1 hs
        exact hS (List.mem_map.mpr ⟨_, (hmem _).mpr (.inl rfl), rfl⟩)
      rw [flatAfter_of_ne hne, tailsAfter_of_ne hne]
      exact ⟨hzero, hfetch⟩

/-- What a read gives: the data last written but for the last four bytes, which are those of the
last fetch. -/
theorem Holding.read (h : Holding V stash flat tails) (hinv : OramInvariant V posMap stash)
    (hlba : lba < oramNumLeaves)
    (hs : StyxOS.process (StyxOS.gathered env V stash (posMap lba)) lba false data =
      some (out, S)) :
    out.1.take 508 = (flat lba).1.take 508 ∧
      lastFour out = fetchTails env V (pathSlots (getPath (posMap lba))) tails lba := by
  obtain ⟨-, ⟨b, hb, rfl, rfl⟩ | ⟨hno, rfl⟩⟩ := process_read hs
  · exact h.gathered hinv env hlba b hb
  · rw [StyxOS.gathered, List.map_append, List.mem_append, not_or] at hno
    obtain ⟨hnostash, hnofetch⟩ := hno
    have hbefore : ∀ n < oramNumNodes, lba ∉ treeLbas V n := by
      intro n hn hc
      rw [map_lba_fetched] at hnofetch
      exact hnofetch (List.mem_flatMap.mpr ⟨n, hinv.onPath n hn lba hc, hc⟩)
    obtain ⟨hzero, htail⟩ := h.absent lba hlba hnostash hbefore
    rw [fetchTails_of_notMem (ne_dummyLba hlba) hnofetch, hzero, htail]
    exact ⟨rfl, lastFour_zero⟩

/-- A read gives the data exactly when the first bytes are those last written and the last four are
those of the last fetch. -/
theorem Holding.read_iff (h : Holding V stash flat tails) (hinv : OramInvariant V posMap stash)
    (hlba : lba < oramNumLeaves)
    (hs : StyxOS.process (StyxOS.gathered env V stash (posMap lba)) lba false data =
      some (out, S)) (v : Bytes 512) :
    out = v ↔ (flat lba).1.take 508 = v.1.take 508 ∧
      fetchTails env V (pathSlots (getPath (posMap lba))) tails lba = lastFour v := by
  obtain ⟨hfirst, hlast⟩ := h.read hinv hlba hs
  rw [bytes_ext, hfirst, hlast]

end

/-! ## Runs -/

/-- A store with a record of the data last written to each address, and of the bytes of the last
fetches. -/
structure FlatRun (δ : Type) where
  oram : PathOram δ
  flat : ℕ → Bytes 512
  tails : ℕ → Bytes 4

section

variable {δ : Type} [SectorDevice δ]

/-- A formatted store, to which nothing was written. -/
def FlatRun.start (random : ℕ → ℕ) (m : PathOram δ) : FlatRun δ where
  oram := oramFormat random m
  flat := fun _ => Bytes.zero 512
  tails := fun _ => Bytes.zero 4

/-- A call. -/
def FlatRun.call (F : FaithfulDevice δ) (s : FlatRun δ) (c : OramCall) : FlatRun δ where
  oram := ((c.apply s.oram).map fun x => x.2.2).getD s.oram
  flat := if c.lba < oramNumLeaves then flatAfter s.flat c.lba c.write c.data else s.flat
  tails :=
    if c.lba < oramNumLeaves then
      tailsAfter c.env (F.view s.oram.dev) s.oram.posMap s.tails c.lba c.write c.data
    else s.tails

/-- A read of an address of the store succeeds with the data last written there. -/
def FlatRun.ReadsFlat (s : FlatRun δ) (c : OramCall) : Prop :=
  c.lba < oramNumLeaves → c.write = false → ∃ m', c.apply s.oram = some (0, s.flat c.lba, m')

/-- At the last fetch of the block that is read, the stack had its last four bytes behind the sector
buffer. -/
def FlatRun.StackMatches (F : FaithfulDevice δ) (s : FlatRun δ) (c : OramCall) : Prop :=
  c.lba < oramNumLeaves → c.write = false →
    fetchTails c.env (F.view s.oram.dev) (pathSlots (getPath (s.oram.posMap c.lba))) s.tails c.lba =
      lastFour (s.flat c.lba)

variable {F : FaithfulDevice δ} {s : FlatRun δ} {c : OramCall}

/-- The invariant of the runs. -/
structure FlatRun.Ok (F : FaithfulDevice δ) (s : FlatRun δ) : Prop where
  ready : F.Ready s.oram.dev
  spares : s.oram.stray.Spares
  invariant : OramInvariant (F.view s.oram.dev) s.oram.posMap s.oram.stash
  holding : Holding (F.view s.oram.dev) s.oram.stash s.flat s.tails

theorem FlatRun.Ok.call (h : s.Ok F) (c : OramCall) : (s.call F c).Ok F := by
  unfold FlatRun.call
  by_cases hlba : c.lba < oramNumLeaves
  · obtain ⟨out, S, m', hs, hlt, heq, hd, hpos, hstash, hstray, hinv⟩ :=
      h.invariant.access ⟨h.ready, rfl⟩ h.spares hlba c.env c.write c.data
    have hhold := h.holding.access (oramRandLeaf c.env.random) h.invariant hlba hs hlt
    rw [OramCall.apply, heq, if_pos hlba, if_pos hlba]
    rw [← hd.2] at hinv hhold
    rw [← hstash] at hhold
    have hspares : m'.stray.Spares := by
      rw [hstray]
      exact h.spares
    exact ⟨hd.1, hspares, hinv, hhold⟩
  · have hout : c.apply s.oram = some (-1, c.data, s.oram) := if_pos (Nat.not_lt.mp hlba)
    rw [hout, if_neg hlba, if_neg hlba]
    exact ⟨h.ready, h.spares, h.invariant, h.holding⟩

theorem FlatRun.Ok.readsFlat_iff (h : s.Ok F) (c : OramCall) :
    s.ReadsFlat c ↔ s.StackMatches F c := by
  refine forall_congr' fun hlba => forall_congr' fun hread => ?_
  obtain ⟨out, S, m', hs, -, heq, -⟩ :=
    h.invariant.access ⟨h.ready, rfl⟩ h.spares hlba c.env c.write c.data
  rw [hread] at hs
  have hout : out = s.flat c.lba ↔ _ :=
    (h.holding.read_iff h.invariant hlba hs _).trans (and_iff_right rfl)
  rw [OramCall.apply, heq, ← hout]
  constructor
  · rintro ⟨m'', hm''⟩
    exact (Prod.mk.inj (Prod.mk.inj (Option.some.inj hm'')).2).1
  · rintro rfl
    exact ⟨_, rfl⟩

theorem FlatRun.start_ok {m : PathOram δ} (hready : F.Ready m.dev) (hstash : m.stash = [])
    (hspares : m.stray.Spares) (random : ℕ → ℕ) : (FlatRun.start random m).Ok F := by
  have hd := holds_oramFormat (F := F) (m := m) ⟨hready, rfl⟩ hspares random
  have hinv := oramInvariant_format (F.view m.dev) hstash random
  have hempty : (oramFormat random m).stash = [] := hstash
  refine ⟨hd.1, hspares, by rw [← hd.2] at hinv; exact hinv, ?_⟩
  rw [FlatRun.start, hd.2, hempty]
  refine ⟨fun b hb => absurd hb List.not_mem_nil, fun n hn j hj hne => ?_,
    fun _ _ _ _ => ⟨rfl, rfl⟩⟩
  rw [slotLba, formatView_sectorOf hn hj, leVal_toSector (by decide)] at hne
  exact absurd rfl hne

/-- In a run from a formatted store where the store behind the sector buffer does no harm, over any
sequence of calls and of leaves, every read gives the data last written to its address exactly
when, for each read, the four bytes on the stack behind the sector buffer at the last fetch of its
block since it was written are its last four. -/
theorem block_store_iff (F : FaithfulDevice δ) {m : PathOram δ} (hready : F.Ready m.dev)
    (hstash : m.stash = []) (hspares : m.stray.Spares) (random : ℕ → ℕ) (calls : List OramCall) :
    AllSteps (FlatRun.call F) FlatRun.ReadsFlat (FlatRun.start random m) calls ↔
      AllSteps (FlatRun.call F) (FlatRun.StackMatches F) (FlatRun.start random m) calls :=
  allSteps_congr (FlatRun.call F) (fun _ c h => h.readsFlat_iff c) (fun _ c h _ => h.call c)
    (FlatRun.start_ok hready hstash hspares random) calls

end

/-- A store over a disk of zeros, on which all transfers succeed. -/
def zeroOram (stray : StrayStore) : PathOram FlakyDisk where
  dev := ⟨fun _ => Bytes.zero 512, false, []⟩
  posMap := fun _ => 0
  stash := []
  stray := stray

theorem zeroOram_ready (stray : StrayStore) : flakyFaithful.Ready (zeroOram stray).dev :=
  fun _ ht => absurd ht List.not_mem_nil

theorem block_store_iff_sample :
    AllSteps (FlatRun.call flakyFaithful) FlatRun.ReadsFlat (FlatRun.start id (zeroOram .unused))
      [plainCall 5 true (Bytes.ofList 512 [1, 2, 3]), plainCall 5 false (Bytes.zero 512)] := by
  refine (block_store_iff flakyFaithful (zeroOram_ready _) rfl StrayStore.spares_unused id _).mpr
    ⟨?_, ?_, trivial⟩
  · intro _ hread
    cases hread
  · intro _ _
    decide +kernel

/-- Of the 512 bytes that are written the last four are not read back, whether the sector number
lies behind the buffer or nothing that is used. -/
theorem block_store_loses_bytes :
    let ones : Bytes 512 := ⟨List.replicate 512 1, List.length_replicate⟩
    ¬AllSteps (FlatRun.call flakyFaithful) FlatRun.ReadsFlat
        (FlatRun.start id (zeroOram .onSectorNumber))
        [plainCall 5 true ones, plainCall 5 false ones] ∧
      ¬AllSteps (FlatRun.call flakyFaithful) FlatRun.ReadsFlat
        (FlatRun.start id (zeroOram .unused))
        [plainCall 5 true ones, plainCall 5 false ones] := by
  intro ones
  -- What the read gives at the end of the data is not what was written.
  have hloses : ∀ s : FlatRun FlakyDisk,
      ((s.call flakyFaithful (plainCall 5 true ones)).flat 5).1.drop 508 = [1, 1, 1, 1] →
      ((plainCall 5 false ones).apply
        (s.call flakyFaithful (plainCall 5 true ones)).oram).map (fun x => x.2.1.1.drop 508) =
          some [0, 0, 0, 0] →
      ¬AllSteps (FlatRun.call flakyFaithful) FlatRun.ReadsFlat s
        [plainCall 5 true ones, plainCall 5 false ones] := by
    rintro s hflat hlost ⟨-, hread, -⟩
    obtain ⟨m', hm'⟩ := hread (show 5 < 64 by decide) rfl
    rw [hm', Option.map_some, Option.some.injEq] at hlost
    exact absurd (hflat.symm.trans hlost) (by decide)
  constructor
  · exact hloses _ (by decide +kernel) (by decide +kernel)
  · exact hloses _ (by decide +kernel) (by decide +kernel)

end StyxOS
