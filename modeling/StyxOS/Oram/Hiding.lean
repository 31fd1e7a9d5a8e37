import StyxOS.Library.Run
import StyxOS.Oram.Transcript

/-! # Hiding the access pattern

The fetch and the fifth step show the path of the block and nothing else while
encryption is on. The position map is written in the clear: two requests to the
same position look alike exactly when they leave the same map, which shows the
address that was accessed whenever its position changes.
-/

namespace StyxOS

open ByteMem StepSystem

/-! ## The position map in the clear -/

theorem posmapSector_update_iff {posMap posMap' : ℕ → ℕ} {a b leaf : ℕ}
    (hsame : ∀ i < oramNumLeaves, posMap i = posMap' i) (ha : a < oramNumLeaves)
    (hb : b < oramNumLeaves) (hpos : posMap a = posMap' b) (hval : posMap a < 2 ^ 32)
    (hleaf : leaf < 2 ^ 32) :
    posmapSector (Function.update posMap a leaf) = posmapSector (Function.update posMap' b leaf) ↔
      a = b ∨ leaf = posMap a := by
  constructor
  · intro h
    by_cases hab : a = b
    · exact .inl hab
    · refine .inr ?_
      have hleft : Function.update posMap a leaf a = leaf := Function.update_self _ _ _
      have hright : Function.update posMap' b leaf a = posMap a := by
        rw [Function.update_of_ne hab, hsame a ha]
      have hread := leVal_posmapSector ha (show Function.update posMap a leaf a < 2 ^ 32 by
        rw [hleft]; exact hleaf)
      rw [h, leVal_posmapSector ha (by rw [hright]; exact hval), hleft, hright] at hread
      exact hread.symm
  · intro h
    refine posmapSector_congr fun i hi => ?_
    rcases h with rfl | rfl
    · by_cases hia : i = a
      · rw [hia, Function.update_self, Function.update_self]
      · rw [Function.update_of_ne hia, Function.update_of_ne hia, hsame i hi]
    · rw [Function.update_eq_self, hpos, Function.update_eq_self, hsame i hi]

/-! ## One request against another -/

section

variable {δ : Type} [SectorDevice δ] {m m' : PathOram (Logged δ)} {c c₁ c₂ : OramCall} {rc : ℤ}
  {out : Bytes 512} {stash S : List OramBlock} {lba : ℕ} {write : Bool} {data : Bytes 512}
  {t₁ t₂ : List SectorEvent}

/-- The store when the path of a request has been fetched, or has filled the stash. -/
def fetchFor (m : PathOram δ) (c : OramCall) : Bool × PathOram δ :=
  fetchPath c.env m (pathSlots (getPath (m.posMap c.lba)))

/-- There is no room for the block that is written. -/
def StashFull (stash : List OramBlock) (c : OramCall) : Prop :=
  c.write = true ∧ c.lba ∉ stash.map OramBlock.lba ∧ 64 ≤ stash.length

theorem process_eq_none_iff :
    process stash lba write data = none ↔
      write = true ∧ lba ∉ stash.map OramBlock.lba ∧ 64 ≤ stash.length := by
  unfold process
  cases hfind : stash.find? (fun b => b.lba = lba) with
  | some b =>
    have hb : b.lba = lba := find?_decide (p := fun b : OramBlock => b.lba = lba) hfind
    have hin : lba ∈ stash.map OramBlock.lba :=
      List.mem_map.mpr ⟨b, List.mem_of_find?_eq_some hfind, hb⟩
    cases write <;> simp [hin]
  | none =>
    have hout := find?_lba_eq_none_iff.mp hfind
    cases write with
    | false => simp
    | true =>
      by_cases hroom : stash.length < 64
      · simp [hroom]
      · simp [hroom, hout, Nat.not_lt.mp hroom]

/-- The stash with a request carried out, where there is room. -/
def withRequest (stash : List OramBlock) (c : OramCall) : List OramBlock :=
  if c.write = true then
    if c.lba ∈ stash.map OramBlock.lba then
      stash.set (stash.findIdx fun b => b.lba = c.lba) ⟨c.lba, c.data⟩
    else stash ++ [⟨c.lba, c.data⟩]
  else stash

theorem eq_withRequest (h : process stash c.lba c.write c.data = some (out, S)) :
    S = withRequest stash c := by
  unfold process at h
  unfold withRequest
  cases hfind : stash.find? (fun b => b.lba = c.lba) with
  | some b =>
    have hb : b.lba = c.lba := find?_decide (p := fun b : OramBlock => b.lba = c.lba) hfind
    have hin : c.lba ∈ stash.map OramBlock.lba :=
      List.mem_map.mpr ⟨b, List.mem_of_find?_eq_some hfind, hb⟩
    rw [if_pos hin]
    cases hwrite : c.write <;> simpa [hfind, hwrite, eq_comm] using congrArg (Option.map Prod.snd) h
  | none =>
    rw [if_neg (find?_lba_eq_none_iff.mp hfind)]
    cases hwrite : c.write with
    | false => simpa [hfind, hwrite, eq_comm] using congrArg (Option.map Prod.snd) h
    | true =>
      simp only [hfind, hwrite] at h
      split at h
      · simpa [eq_comm] using congrArg (Option.map Prod.snd) h
      · cases h

theorem length_withRequest (stash : List OramBlock) (c : OramCall) :
    stash.length ≤ (withRequest stash c).length ∧
      (withRequest stash c).length ≤ stash.length + 1 := by
  unfold withRequest
  split_ifs <;> simp

theorem getElem?_withRequest {i : ℕ} {b : OramBlock} (h : (withRequest stash c)[i]? = some b) :
    (stash.map OramBlock.lba)[i]? = some b.lba ∨ i = stash.length ∧ b.lba = c.lba := by
  have hself : stash[i]? = some b → (stash.map OramBlock.lba)[i]? = some b.lba := fun hb => by
    rw [List.getElem?_map, hb, Option.map_some]
  unfold withRequest at h
  split_ifs at h with hwrite hin
  · left
    obtain ⟨b₀, hb₀, hlba⟩ := List.mem_map.mp hin
    obtain ⟨b₁, hfind⟩ := Option.isSome_iff_exists.mp
      (List.find?_isSome (p := fun b : OramBlock => b.lba = c.lba) |>.mpr
        ⟨b₀, hb₀, decide_eq_true hlba⟩)
    obtain ⟨hidx, hat⟩ := findIdx_lba_spec hfind
    rw [← map_lba_set (b := ⟨c.lba, c.data⟩) hidx hat, List.getElem?_map, h, Option.map_some]
  · rcases Nat.lt_or_ge i stash.length with hi | hi
    · rw [List.getElem?_append_left hi] at h
      exact .inl (hself h)
    · rw [List.getElem?_append_right hi, List.getElem?_singleton] at h
      obtain ⟨hzero, hb⟩ := Option.ite_none_right_eq_some.mp h
      exact .inr ⟨by omega, by rw [← Option.some.inj hb]⟩
  · exact .inl (hself h)

def posMapAfter (posMap : ℕ → ℕ) (c : OramCall) : ℕ → ℕ :=
  Function.update posMap c.lba (oramRandLeaf c.env.random)

theorem posMapAfter_self (posMap : ℕ → ℕ) (c : OramCall) :
    posMapAfter posMap c c.lba = oramRandLeaf c.env.random := Function.update_self _ _ _

theorem posMapAfter_eq {posMap : ℕ → ℕ} (hpos : posMap c₁.lba = posMap c₂.lba)
    (hdrawn : oramRandLeaf c₁.env.random = oramRandLeaf c₂.env.random)
    (h : c₁.lba = c₂.lba ∨ oramRandLeaf c₁.env.random = posMap c₁.lba) :
    posMapAfter posMap c₂ = posMapAfter posMap c₁ := by
  unfold posMapAfter
  rcases h with h | h
  · rw [h, hdrawn]
  · rw [← hdrawn, h, Function.update_eq_self, hpos, Function.update_eq_self]

/-- The sectors that a request writes to the buckets of its path, from the store after the fetch. -/
def sectorsFor (m : PathOram δ) (c : OramCall) : Option (List (ℕ × Bytes 512)) :=
  (process m.stash c.lba c.write c.data).bind fun x =>
    placedSectors m.stray (posMapAfter m.posMap c) (getPath (m.posMap c.lba)).reverse x.2

/-- The write of a position map, as it is seen. -/
def posmapEvent (posMap : ℕ → ℕ) : SectorEvent := .write oramPosmapLba (some (posmapSector posMap))

/-- The steps of `oram_access` after the fetch. -/
theorem apply_eq (hlba : c.lba < oramNumLeaves) : c.apply m =
    if (fetchFor m c).1 = false then some (-1, c.data, (fetchFor m c).2)
    else
      match process (fetchFor m c).2.stash c.lba c.write c.data with
      | none => some (-1, c.data, (fetchFor m c).2)
      | some (out, stash) =>
        (evict { (fetchFor m c).2 with stash, posMap := posMapAfter (fetchFor m c).2.posMap c }
          (getPath (m.posMap c.lba))).bind fun m =>
            some (0, out, { m with dev := posmapSave m.posMap m.dev }) := by
  rw [OramCall.apply, oramAccess, if_neg (Nat.not_le.mpr hlba)]
  unfold fetchFor
  dsimp only
  generalize fetchPath c.env m (pathSlots (getPath (m.posMap c.lba))) = r
  obtain ⟨fits, m₁⟩ := r
  cases hprocess : process m₁.stash c.lba c.write c.data <;> rfl

/-- What is seen of a call: the fetch, and unless the stash was full the fifth step and the position
map. -/
theorem apply_sees [LawfulMode δ] (hlba : c.lba < oramNumLeaves)
    (h : c.apply m = some (rc, out, m')) :
    ∃ es, m.dev.Sees (fetchFor m c).2.dev es ∧
      ((fetchFor m c).1 = true → es = readEvents (pathSlots (getPath (m.posMap c.lba)))) ∧
      (rc = -1 ∧ ((fetchFor m c).1 = false ∨ StashFull (fetchFor m c).2.stash c) ∧
          m.dev.Sees m'.dev es ∨
        rc = 0 ∧ (fetchFor m c).1 = true ∧ ¬StashFull (fetchFor m c).2.stash c ∧
          m'.posMap = posMapAfter m.posMap c ∧
          ∃ ws, sectorsFor (fetchFor m c).2 c = some ws ∧
            (m.stray.Spares → ws.map Prod.fst = (getPath (m.posMap c.lba)).reverse.flatMap
              fun n => (List.range oramZ).map (sectorOf n)) ∧
            m.dev.Sees m'.dev (es ++ (writeEvents (encryption m.dev) ws ++
              [posmapEvent (posMapAfter m.posMap c)]))) := by
  obtain ⟨hpos, hstray, es, hes, hall⟩ : (fetchFor m c).2.posMap = m.posMap ∧
      (fetchFor m c).2.stray = m.stray ∧ _ :=
    fetchPath_sees c.env m (pathSlots (getPath (m.posMap c.lba)))
  change m.dev.Sees (fetchFor m c).2.dev es at hes
  refine ⟨es, hes, hall, ?_⟩
  rw [apply_eq hlba] at h
  by_cases hfits : (fetchFor m c).1 = false
  · rw [if_pos hfits] at h
    obtain ⟨rfl, hm'⟩ := Prod.mk.inj (Option.some.inj h)
    obtain rfl : (fetchFor m c).2 = m' := (Prod.mk.inj hm').2
    exact .inl ⟨rfl, .inl hfits, hes⟩
  · rw [if_neg hfits] at h
    cases hprocess : process (fetchFor m c).2.stash c.lba c.write c.data with
    | none =>
      rw [hprocess] at h
      obtain ⟨rfl, hm'⟩ := Prod.mk.inj (Option.some.inj h)
      obtain rfl : (fetchFor m c).2 = m' := (Prod.mk.inj hm').2
      exact .inl ⟨rfl, .inr (process_eq_none_iff.mp hprocess), hes⟩
    | some x =>
      obtain ⟨out', S⟩ := x
      rw [hprocess] at h
      obtain ⟨m₁, hevict, hdone⟩ := Option.bind_eq_some_iff.mp h
      obtain ⟨rfl, hrest⟩ := Prod.mk.inj (Option.some.inj hdone)
      obtain rfl := (Prod.mk.inj hrest).2
      obtain ⟨hpos₁, ws, hws, hsees⟩ := evict_sees hevict
      have hsave := Logged.Sees.posmapSave m₁.dev m₁.posMap
      rw [hpos] at hpos₁ hws
      rw [hpos₁] at hsave
      refine .inr ⟨rfl, Bool.eq_true_of_not_eq_false hfits, ?_, hpos₁, ws, ?_,
        fun hspares => map_fst_placedSectors (hstray ▸ hspares) hws, ?_⟩
      · intro hfull
        rw [process_eq_none_iff.mpr hfull] at hprocess
        cases hprocess
      · rw [sectorsFor, hprocess, hpos]
        exact hws
      · have hmode : encryption (fetchFor m c).2.dev = encryption m.dev := hes.mode
        rw [hpos₁, ← hmode]
        exact hes.trans (hsees.trans hsave)

/-- What is seen of a call. -/
def transcript (m : PathOram (Logged δ)) (c : OramCall) : Option (List SectorEvent) :=
  (c.apply m).map fun x => x.2.2.dev.log.drop m.dev.log.length

/-- Two requests find the same room: after either, the stash has the same block at each place, up to
its last four bytes, but for places where the buckets of the path that may take the block are full
of blocks before it. -/
def SameRoom (posMap : ℕ → ℕ) (path : List ℕ) (stash : List OramBlock) (c₁ c₂ : OramCall) :
    Prop :=
  ∀ i : ℕ, (withRequest stash c₁)[i]?.map OramBlock.toSector =
      (withRequest stash c₂)[i]?.map OramBlock.toSector ∨
    ∀ b, (withRequest stash c₁)[i]? = some b ∨ (withRequest stash c₂)[i]? = some b →
      PathTree.Crowded (mayHold posMap) oramZ path.reverse ((withRequest stash c₁).take i) b

/-- Two requests to one position leave the same traces: unless the stash is full after the fetch, or
at the write for both, they are for the same address or draw the leaf where the blocks are, and
with encryption off the blocks that find room on the path are the same. -/
def Alike (m : PathOram (Logged δ)) (c₁ c₂ : OramCall) : Prop :=
  (fetchFor m c₁).1 = true →
    (StashFull (fetchFor m c₁).2.stash c₁ ↔ StashFull (fetchFor m c₁).2.stash c₂) ∧
    (¬StashFull (fetchFor m c₁).2.stash c₁ →
      (c₁.lba = c₂.lba ∨ oramRandLeaf c₁.env.random = m.posMap c₁.lba) ∧
      (encryption m.dev = false →
        SameRoom (posMapAfter m.posMap c₁) (getPath (m.posMap c₁.lba)) (fetchFor m c₁).2.stash
          c₁ c₂))

/-- What two requests write to the buckets, from the same stash to the same path under the same
position map. -/
theorem placedSectors_eq_iff {stray : StrayStore} {posMap : ℕ → ℕ} {path : List ℕ}
    {ws ws' : List (ℕ × Bytes 512)} (hspares : stray.Spares) (hpos : posMap c₁.lba = posMap c₂.lba)
    (h₁ : placedSectors stray posMap path.reverse (withRequest stash c₁) = some ws)
    (h₂ : placedSectors stray posMap path.reverse (withRequest stash c₂) = some ws') :
    ws = ws' ↔ SameRoom posMap path stash c₁ c₂ := by
  obtain ⟨rfl, hlba⟩ := placedSectors_of_some h₁
  obtain ⟨rfl, hlba'⟩ := placedSectors_of_some h₂
  have hsame : ∀ (i : ℕ) (x y : OramBlock), (withRequest stash c₁)[i]? = some x →
      (withRequest stash c₂)[i]? = some y → PathTree.SameNodes (mayHold posMap) x y := by
    intro i x y hx hy
    have hposxy : posMap x.lba = posMap y.lba := by
      have hinside : ∀ {b : OramBlock}, (stash.map OramBlock.lba)[i]? = some b.lba →
          i < stash.length := fun hb => by
        obtain ⟨hi, -⟩ := List.getElem?_eq_some_iff.mp hb
        rwa [List.length_map] at hi
      rcases getElem?_withRequest hx with hx | ⟨hi, hx⟩ <;>
        rcases getElem?_withRequest hy with hy | ⟨hi', hy⟩
      · rw [Option.some.inj (hx.symm.trans hy)]
      · exact absurd (hinside hx) (by omega)
      · exact absurd (hinside hy) (by omega)
      · rw [hx, hy, hpos]
    intro n
    rw [mayHold, mayHold, hposxy]
  rw [flatMap_bucketSectors_iff hspares (by rw [PathTree.map_fst_place, PathTree.map_fst_place])
    (fun x hx => ⟨(PathTree.of_mem_place hx).1, hlba x hx⟩)
    fun x hx => ⟨(PathTree.of_mem_place hx).1, hlba' x hx⟩]
  exact PathTree.shown_place_iff (length_withRequest stash c₁) (length_withRequest stash c₂) hsame

theorem transcript_of_sees {es : List SectorEvent} (h : c.apply m = some (rc, out, m'))
    (hsees : m.dev.Sees m'.dev es) : transcript m c = some es := by
  rw [transcript, h, Option.map_some, hsees.log, List.drop_left]

theorem exists_apply_of_transcript {t : List SectorEvent} (h : transcript m c = some t) :
    ∃ rc out m', c.apply m = some (rc, out, m') := by
  obtain ⟨⟨rc, out, m'⟩, heq, -⟩ := Option.map_eq_some_iff.mp h
  exact ⟨rc, out, m', heq⟩

theorem posmapEvent_inj {posMap posMap' : ℕ → ℕ} :
    posmapEvent posMap = posmapEvent posMap' ↔ posmapSector posMap = posmapSector posMap' := by
  simp only [posmapEvent, SectorEvent.write.injEq, Option.some.injEq, true_and]

theorem writes_eq_iff {mode : Bool} {ws ws' : List (ℕ × Bytes 512)} {posMap posMap' : ℕ → ℕ}
    (hfst : ws.map Prod.fst = ws'.map Prod.fst) :
    writeEvents mode ws ++ [posmapEvent posMap] = writeEvents mode ws' ++ [posmapEvent posMap'] ↔
      posmapSector posMap = posmapSector posMap' ∧ (mode = false → ws = ws') := by
  rw [← writeEvents_eq_iff hfst, ← posmapEvent_inj, and_comm]
  constructor
  · intro h
    obtain ⟨hws, hmap⟩ := List.append_inj' h rfl
    exact ⟨hws, List.singleton_inj.mp hmap⟩
  · rintro ⟨hws, hmap⟩
    rw [hws, hmap]

/-- In any state, over any device, where the store behind the sector buffer does no harm: two
requests to one position, with the same leaf drawn and the same stack, are seen as the same exactly
when they leave the same traces. -/
theorem transcript_eq_iff [LawfulMode δ] (hspares : m.stray.Spares) (c₁ c₂ : OramCall)
    (hlba₁ : c₁.lba < oramNumLeaves)
    (hlba₂ : c₂.lba < oramNumLeaves) (hpos : m.posMap c₁.lba = m.posMap c₂.lba)
    (hval : m.posMap c₁.lba < 2 ^ 32)
    (hdrawn : oramRandLeaf c₁.env.random = oramRandLeaf c₂.env.random)
    (hbuf : c₁.env.buf = c₂.env.buf) (htail : c₁.env.tail = c₂.env.tail)
    (h₁ : transcript m c₁ = some t₁) (h₂ : transcript m c₂ = some t₂) :
    t₁ = t₂ ↔ Alike m c₁ c₂ := by
  have hfetch : fetchFor m c₂ = fetchFor m c₁ := by
    rw [fetchFor, fetchFor, hpos]
    exact fetchPath_congr hbuf.symm htail.symm _
  obtain ⟨rc₁, out₁, m₁, ha₁⟩ := exists_apply_of_transcript h₁
  obtain ⟨rc₂, out₂, m₂, ha₂⟩ := exists_apply_of_transcript h₂
  obtain ⟨es, hes, -, hcase₁⟩ := apply_sees hlba₁ ha₁
  obtain ⟨es', hes', -, hcase₂⟩ := apply_sees hlba₂ ha₂
  rw [hfetch] at hes' hcase₂
  obtain rfl : es = es' := List.append_cancel_left (hes.log.symm.trans hes'.log)
  have hleaf := lt_pow_of_lt_numLeaves (oramRandLeaf_lt c₁.env.random)
  rcases hcase₁ with ⟨-, hstop₁, hs₁⟩ | ⟨-, hfits, hroom₁, -, ws, hws, hfst, hs₁⟩ <;>
    rcases hcase₂ with ⟨-, hstop₂, hs₂⟩ | ⟨-, hfits₂, hroom₂, -, ws', hws', hfst', hs₂⟩ <;>
    obtain rfl := Option.some.inj (h₁.symm.trans (transcript_of_sees ha₁ hs₁)) <;>
    obtain rfl := Option.some.inj (h₂.symm.trans (transcript_of_sees ha₂ hs₂))
  -- Both stop after the fetch.
  · refine iff_of_true rfl fun hfits => ?_
    have hfull₁ := hstop₁.resolve_left (ne_false_of_eq_true hfits)
    have hfull₂ := hstop₂.resolve_left (ne_false_of_eq_true hfits)
    exact ⟨iff_of_true hfull₁ hfull₂, fun hroom => absurd hfull₁ hroom⟩
  -- Only the second goes on.
  · have hfull₁ := hstop₁.resolve_left (ne_false_of_eq_true hfits₂)
    exact iff_of_false (by simp) fun halike => hroom₂ ((halike hfits₂).1.mp hfull₁)
  -- Only the first goes on.
  · have hfull₂ := hstop₂.resolve_left (ne_false_of_eq_true hfits)
    exact iff_of_false (by simp) fun halike => hroom₁ ((halike hfits).1.mpr hfull₂)
  · have hsame : ws.map Prod.fst = ws'.map Prod.fst := by rw [hfst hspares, hfst' hspares, hpos]
    rw [List.append_cancel_left_eq, writes_eq_iff hsame]
    have hmap := posmapSector_update_iff (fun i _ => (rfl : m.posMap i = m.posMap i)) hlba₁ hlba₂
      hpos hval hleaf
    have hmap' : posmapSector (posMapAfter m.posMap c₁) = posmapSector (posMapAfter m.posMap c₂) ↔
        c₁.lba = c₂.lba ∨ oramRandLeaf c₁.env.random = m.posMap c₁.lba := by
      rw [← hmap, posMapAfter, posMapAfter, hdrawn]
    -- Under one position map, what is written depends on the blocks that find room.
    have hroom : (c₁.lba = c₂.lba ∨ oramRandLeaf c₁.env.random = m.posMap c₁.lba) →
        (ws = ws' ↔ SameRoom (posMapAfter m.posMap c₁) (getPath (m.posMap c₁.lba))
          (fetchFor m c₁).2.stash c₁ c₂) := by
      intro halike
      have hmaps : posMapAfter m.posMap c₂ = posMapAfter m.posMap c₁ :=
        posMapAfter_eq hpos hdrawn halike
      obtain ⟨hposAfter, hstray, -⟩ : (fetchFor m c₁).2.posMap = m.posMap ∧
        (fetchFor m c₁).2.stray = m.stray ∧ _ := fetchPath_sees _ _ _
      rw [sectorsFor, hposAfter] at hws hws'
      obtain ⟨⟨out₁', S₁⟩, hprocess₁, hplaced₁⟩ := Option.bind_eq_some_iff.mp hws
      obtain ⟨⟨out₂', S₂⟩, hprocess₂, hplaced₂⟩ := Option.bind_eq_some_iff.mp hws'
      obtain rfl := eq_withRequest hprocess₁
      obtain rfl := eq_withRequest hprocess₂
      rw [hmaps, ← hpos] at hplaced₂
      refine placedSectors_eq_iff (hstray ▸ hspares) ?_ hplaced₁ hplaced₂
      rw [posMapAfter_self, ← hmaps, posMapAfter_self, hdrawn]
    rw [hmap', Alike]
    constructor
    · exact fun h _ => ⟨iff_of_false hroom₁ hroom₂, fun _ =>
        ⟨h.1, fun hoff => (hroom h.1).mp (h.2 hoff)⟩⟩
    · intro h
      obtain ⟨halike, hbuckets⟩ := (h hfits).2 hroom₁
      exact ⟨halike, fun hoff => (hroom halike).mpr (hbuckets hoff)⟩

end

/-! ## Two runs -/

section

variable {δ : Type} [SectorDevice δ] {m : PathOram (Logged δ)} {c : OramCall}

/-- A faithful device is one when it is observed. -/
def loggedFaithful (F : FaithfulDevice δ) : FaithfulDevice (Logged δ) where
  Ready d := F.Ready d.dev
  view d := F.view d.dev
  read buf h hlba := F.read buf h hlba
  write buf h hlba := F.write buf h hlba
  off h := F.off h
  back h₀ h := F.back h₀ h

def pathSectors (leaf : ℕ) : List ℕ :=
  (pathSlots (getPath leaf)).map fun x => sectorOf x.2.1 x.2.2

theorem pathSectors_spec : ∀ leaf < oramNumLeaves,
    (pathSectors leaf).length = 28 ∧ (pathSectors leaf)[24]? = some (752 + 4 * leaf) := by
  decide +kernel

theorem pathSectors_inj {a b : ℕ} (ha : a < oramNumLeaves) (hb : b < oramNumLeaves)
    (h : pathSectors a = pathSectors b) : a = b := by
  have hlast := (pathSectors_spec a ha).2
  rw [h, (pathSectors_spec b hb).2, Option.some.injEq] at hlast
  omega

theorem readEvents_eq (leaf : ℕ) :
    readEvents (pathSlots (getPath leaf)) = (pathSectors leaf).map .read := by
  rw [pathSectors, List.map_map]
  rfl

/-- A store as it should be, with encryption on. -/
structure HiddenOk (F : FaithfulDevice δ) (m : PathOram (Logged δ)) : Prop where
  ready : F.Ready m.dev.dev
  spares : m.stray.Spares
  invariant : OramInvariant (F.view m.dev.dev) m.posMap m.stash
  mode : encryption m.dev = true

/-- What is seen of an access in the course of a run. -/
theorem HiddenOk.apply [LawfulMode δ] {F : FaithfulDevice δ} (h : HiddenOk F m)
    (hlba : c.lba < oramNumLeaves) :
    ∃ out m' ws, c.apply m = some (0, out, m') ∧ HiddenOk F m' ∧
      m'.posMap = posMapAfter m.posMap c ∧
      ws.map Prod.fst = (getPath (m.posMap c.lba)).reverse.flatMap
        (fun n => (List.range oramZ).map (sectorOf n)) ∧
      transcript m c = some ((pathSectors (m.posMap c.lba)).map .read ++
        (writeEvents true ws ++ [posmapEvent (posMapAfter m.posMap c)])) := by
  obtain ⟨rc, out, m', happly, hrc, hready, hspares, hinv⟩ :=
    OramInvariant.apply (F := loggedFaithful F) h.invariant ⟨h.ready, rfl⟩ h.spares c
  obtain rfl := hrc hlba
  obtain ⟨es, -, hes, ⟨hfail, -⟩ | ⟨-, hfits, -, hpos, ws, -, hfst, hsees⟩⟩ :=
    apply_sees hlba happly
  · exact absurd hfail (by decide)
  · refine ⟨out, m', ws, happly, ⟨hready, hspares, hinv, hsees.mode.trans h.mode⟩, hpos,
      hfst h.spares, ?_⟩
    rw [transcript_of_sees happly hsees, hes hfits, readEvents_eq, h.mode]

/-- One call in each of two stores. -/
def stepBoth (s : PathOram (Logged δ) × PathOram (Logged δ)) (c : OramCall × OramCall) :
    PathOram (Logged δ) × PathOram (Logged δ) :=
  (((c.1.apply s.1).map fun x => x.2.2).getD s.1, ((c.2.apply s.2).map fun x => x.2.2).getD s.2)

/-- The two calls are seen as the same. -/
def SameTranscript (s : PathOram (Logged δ) × PathOram (Logged δ)) (c : OramCall × OramCall) :
    Prop :=
  transcript s.1 c.1 = transcript s.2 c.2

/-- If one of the calls is for an address of the store, both are, for the same position, and for the
same address or with the leaf drawn where the blocks are. -/
def SamePositions (s : PathOram (Logged δ) × PathOram (Logged δ)) (c : OramCall × OramCall) :
    Prop :=
  c.1.lba < oramNumLeaves ∨ c.2.lba < oramNumLeaves →
    c.1.lba < oramNumLeaves ∧ c.2.lba < oramNumLeaves ∧
      s.1.posMap c.1.lba = s.2.posMap c.2.lba ∧
      (c.1.lba = c.2.lba ∨ oramRandLeaf c.1.env.random = s.1.posMap c.1.lba)

structure BothOk (F : FaithfulDevice δ) (s : PathOram (Logged δ) × PathOram (Logged δ)) :
    Prop where
  fst : HiddenOk F s.1
  snd : HiddenOk F s.2
  same : ∀ i < oramNumLeaves, s.1.posMap i = s.2.posMap i

theorem apply_of_ge (h : ¬c.lba < oramNumLeaves) : c.apply m = some (-1, c.data, m) :=
  if_pos (Nat.not_lt.mp h)

theorem transcript_of_ge (h : ¬c.lba < oramNumLeaves) : transcript m c = some [] := by
  rw [transcript, apply_of_ge h, Option.map_some, List.drop_length]

variable [LawfulMode δ] {F : FaithfulDevice δ} {s : PathOram (Logged δ) × PathOram (Logged δ)}
  {cs : OramCall × OramCall}

theorem BothOk.sameTranscript_iff (h : BothOk F s)
    (hleaf : oramRandLeaf cs.1.env.random = oramRandLeaf cs.2.env.random) :
    SameTranscript s cs ↔ SamePositions s cs := by
  by_cases h₁ : cs.1.lba < oramNumLeaves <;> by_cases h₂ : cs.2.lba < oramNumLeaves
  · obtain ⟨out₁, m₁, ws₁, -, -, -, hfst₁, ht₁⟩ := h.fst.apply h₁
    obtain ⟨out₂, m₂, ws₂, -, -, -, hfst₂, ht₂⟩ := h.snd.apply h₂
    have hpos₁ := h.fst.invariant.pos _ h₁
    have hpos₂ := h.snd.invariant.pos _ h₂
    have hlen₁ := (pathSectors_spec _ hpos₁).1
    have hlen₂ := (pathSectors_spec _ hpos₂).1
    -- With the positions the same, the rest is the position map.
    have hrest : s.1.posMap cs.1.lba = s.2.posMap cs.2.lba →
        (writeEvents true ws₁ ++ [posmapEvent (posMapAfter s.1.posMap cs.1)] =
          writeEvents true ws₂ ++ [posmapEvent (posMapAfter s.2.posMap cs.2)] ↔
        cs.1.lba = cs.2.lba ∨ oramRandLeaf cs.1.env.random = s.1.posMap cs.1.lba) := by
      intro hpos
      have hsame : ws₁.map Prod.fst = ws₂.map Prod.fst := by rw [hfst₁, hfst₂, hpos]
      rw [writes_eq_iff hsame, posMapAfter, posMapAfter, ← hleaf,
        posmapSector_update_iff h.same h₁ h₂ hpos (lt_pow_of_lt_numLeaves hpos₁)
          (lt_pow_of_lt_numLeaves (oramRandLeaf_lt _))]
      exact and_iff_left fun hc => Bool.noConfusion hc
    rw [SameTranscript, ht₁, ht₂, Option.some.injEq]
    constructor
    · intro heq _
      obtain ⟨hreads, hwrites⟩ := List.append_inj heq (by simp only [List.length_map, hlen₁, hlen₂])
      have hpos : s.1.posMap cs.1.lba = s.2.posMap cs.2.lba :=
        pathSectors_inj hpos₁ hpos₂
          (List.map_injective_iff.mpr (fun _ _ => SectorEvent.read.inj) hreads)
      exact ⟨h₁, h₂, hpos, (hrest hpos).mp hwrites⟩
    · intro hsame
      obtain ⟨-, -, hpos, hmap⟩ := hsame (.inl h₁)
      rw [(hrest hpos).mpr hmap, hpos]
  · obtain ⟨out₁, m₁, ws₁, -, -, -, -, ht₁⟩ := h.fst.apply h₁
    refine iff_of_false ?_ fun hsame => h₂ (hsame (.inl h₁)).2.1
    rw [SameTranscript, ht₁, transcript_of_ge h₂]
    simp
  · obtain ⟨out₂, m₂, ws₂, -, -, -, -, ht₂⟩ := h.snd.apply h₂
    refine iff_of_false ?_ fun hsame => h₁ (hsame (.inr h₂)).1
    rw [SameTranscript, ht₂, transcript_of_ge h₁]
    simp
  · refine iff_of_true ?_ fun hone => ?_
    · rw [SameTranscript, transcript_of_ge h₁, transcript_of_ge h₂]
    · exact (hone.elim h₁ h₂).elim

theorem BothOk.step (h : BothOk F s)
    (hleaf : oramRandLeaf cs.1.env.random = oramRandLeaf cs.2.env.random)
    (hsame : SamePositions s cs) : BothOk F (stepBoth s cs) := by
  by_cases h₁ : cs.1.lba < oramNumLeaves
  · obtain ⟨-, h₂, hpos, hmap⟩ := hsame (.inl h₁)
    obtain ⟨out₁, m₁, ws₁, ha₁, hok₁, hpos₁, -, -⟩ := h.fst.apply h₁
    obtain ⟨out₂, m₂, ws₂, ha₂, hok₂, hpos₂, -, -⟩ := h.snd.apply h₂
    have hstep : stepBoth s cs = (m₁, m₂) := by rw [stepBoth, ha₁, ha₂]; rfl
    rw [hstep]
    refine ⟨hok₁, hok₂, fun i hi => ?_⟩
    have hsector := (posmapSector_update_iff h.same h₁ h₂ hpos
      (lt_pow_of_lt_numLeaves (h.fst.invariant.pos _ h₁))
      (lt_pow_of_lt_numLeaves (oramRandLeaf_lt _))).mpr hmap
    have hread₁ := leVal_posmapSector hi (lt_pow_of_lt_numLeaves (hok₁.invariant.pos i hi))
    have hread₂ := leVal_posmapSector hi (lt_pow_of_lt_numLeaves (hok₂.invariant.pos i hi))
    dsimp only
    rw [← hread₁, ← hread₂, hpos₁, hpos₂, posMapAfter, posMapAfter, ← hleaf, hsector]
  · have h₂ : ¬cs.2.lba < oramNumLeaves := fun hc => h₁ (hsame (.inr hc)).1
    have hstep : stepBoth s cs = s := by rw [stepBoth, apply_of_ge h₁, apply_of_ge h₂]; rfl
    rw [hstep]
    exact h

end

/-- Where the store behind the sector buffer does no harm, two requests to one position that draw
the same leaf show the same of themselves exactly when they leave the same traces: in any state of a
store over any device, one against the other, and in two runs from a formatted store with
encryption on, call by call. -/
theorem oram_hiding_iff {δ : Type} [SectorDevice δ] [LawfulMode δ] :
    (∀ (m : PathOram (Logged δ)) (c₁ c₂ : OramCall) (t₁ t₂ : List SectorEvent), m.stray.Spares →
      c₁.lba < oramNumLeaves → c₂.lba < oramNumLeaves → m.posMap c₁.lba = m.posMap c₂.lba →
      m.posMap c₁.lba < 2 ^ 32 → oramRandLeaf c₁.env.random = oramRandLeaf c₂.env.random →
      c₁.env.buf = c₂.env.buf → c₁.env.tail = c₂.env.tail → transcript m c₁ = some t₁ →
      transcript m c₂ = some t₂ → (t₁ = t₂ ↔ Alike m c₁ c₂)) ∧
    ∀ (F : FaithfulDevice δ) (m : PathOram (Logged δ)), F.Ready m.dev.dev → m.stash = [] →
      m.stray.Spares → encryption m.dev = true →
      ∀ (random : ℕ → ℕ) (calls : List (OramCall × OramCall)),
      (∀ c ∈ calls, oramRandLeaf c.1.env.random = oramRandLeaf c.2.env.random) →
      (AllSteps stepBoth SameTranscript (oramFormat random m, oramFormat random m) calls ↔
        AllSteps stepBoth SamePositions (oramFormat random m, oramFormat random m) calls) := by
  refine ⟨fun _ c₁ c₂ _ _ hspares => transcript_eq_iff hspares c₁ c₂, ?_⟩
  intro F m hready hstash hspares hon random calls hleaf
  have hd : (loggedFaithful F).Holds m.dev (F.view m.dev.dev) := ⟨hready, rfl⟩
  obtain ⟨hready', hview⟩ := holds_oramFormat hd hspares random
  have hinv := oramInvariant_format (F.view m.dev.dev) hstash random
  rw [← hview] at hinv
  have hmode : encryption (oramFormat random m).dev = true := (LawfulMode.set_mode _ _).trans hon
  have hok : HiddenOk F (oramFormat random m) := ⟨hready', hspares, hinv, hmode⟩
  have hboth : BothOk F (oramFormat random m, oramFormat random m) := ⟨hok, hok, fun _ _ => rfl⟩
  exact allSteps_congr_of_mem stepBoth
    (fun _ _ hc (h : BothOk F _) => h.sameTranscript_iff (hleaf _ hc))
    (fun _ _ hc h hsame => h.step (hleaf _ hc) hsame) hboth

/-- A store over a disk of zeros, observed. -/
def hiddenOram (stray : StrayStore) (mode : Bool) : PathOram (Logged FlakyDisk) where
  dev := ⟨⟨fun _ => Bytes.zero 512, mode, []⟩, []⟩
  posMap := fun _ => 0
  stash := []
  stray := stray

/-- With encryption off, two reads of different blocks that draw the leaf where both are look alike.
With encryption on, a write and a read of one block do. -/
theorem oram_hiding_iff_sample :
    transcript (oramFormat (fun _ => 7) (hiddenOram .unused false))
          (leafCall 7 0 false (Bytes.zero 512)) =
        transcript (oramFormat (fun _ => 7) (hiddenOram .unused false))
          (leafCall 7 1 false (Bytes.zero 512)) ∧
      AllSteps stepBoth SameTranscript
        (oramFormat id (hiddenOram .unused true), oramFormat id (hiddenOram .unused true))
        [(leafCall 7 0 true (Bytes.ofList 512 [1]), leafCall 7 0 false (Bytes.zero 512))] := by
  constructor
  · have hsome₁ : (transcript (oramFormat (fun _ => 7) (hiddenOram .unused false))
        (leafCall 7 0 false (Bytes.zero 512))).isSome := by decide +kernel
    have hsome₂ : (transcript (oramFormat (fun _ => 7) (hiddenOram .unused false))
        (leafCall 7 1 false (Bytes.zero 512))).isSome := by decide +kernel
    obtain ⟨t₁, ht₁⟩ := Option.isSome_iff_exists.mp hsome₁
    obtain ⟨t₂, ht₂⟩ := Option.isSome_iff_exists.mp hsome₂
    have hempty : ∀ (lba : ℕ) (stash : List OramBlock),
        ¬StashFull stash (leafCall 7 lba false (Bytes.zero 512)) := fun _ _ hfull =>
      Bool.noConfusion hfull.1
    have hroom : ∀ (posMap : ℕ → ℕ) (path : List ℕ) (stash : List OramBlock),
        SameRoom posMap path stash (leafCall 7 0 false (Bytes.zero 512))
          (leafCall 7 1 false (Bytes.zero 512)) := fun _ _ _ _ => .inl rfl
    have hseen : t₁ = t₂ := by
      refine (oram_hiding_iff.1 (oramFormat (fun _ => 7) (hiddenOram .unused false))
        (leafCall 7 0 false (Bytes.zero 512)) (leafCall 7 1 false (Bytes.zero 512)) t₁ t₂
        StrayStore.spares_unused (by decide) (by decide) rfl
        (lt_pow_of_lt_numLeaves (oramRandLeaf_lt 7)) rfl rfl rfl ht₁ ht₂).mpr
        fun _ => ⟨?_, fun _ => ⟨.inr rfl, fun _ => hroom _ _ _⟩⟩
      exact iff_of_false (hempty 0 _) (hempty 1 _)
    rw [ht₁, ht₂, hseen]
  · have hsame : ∀ m : PathOram (Logged FlakyDisk), SamePositions (m, m)
        (leafCall 7 0 true (Bytes.ofList 512 [1]), leafCall 7 0 false (Bytes.zero 512)) :=
      fun m _ => ⟨by decide, by decide, rfl, .inl rfl⟩
    refine (oram_hiding_iff.2 flakyFaithful (hiddenOram .unused true)
      (fun _ ht => absurd ht List.not_mem_nil) rfl StrayStore.spares_unused rfl id _ ?_).mpr
      ⟨hsame _, trivial⟩
    intro c hc
    rw [List.mem_singleton.mp hc]
    rfl

theorem getLast?_transcript {δ : Type} [SectorDevice δ] [LawfulMode δ] {m : PathOram (Logged δ)}
    {c : OramCall} (hlba : c.lba < oramNumLeaves) (hrc : (c.apply m).map Prod.fst = some 0) :
    (transcript m c).bind List.getLast? = some (posmapEvent (posMapAfter m.posMap c)) := by
  obtain ⟨⟨rc, out, m'⟩, happly, rfl⟩ := Option.map_eq_some_iff.mp hrc
  obtain ⟨es, -, -, ⟨hfail, -⟩ | ⟨-, -, -, -, ws, -, -, hsees⟩⟩ := apply_sees hlba happly
  · cases hfail
  · rw [transcript_of_sees happly hsees, ← List.append_assoc]
    exact List.getLast?_concat

/-- Two reads of blocks at one position that draw the same leaf do not look the same. -/
def ShowsAddress (m : PathOram (Logged FlakyDisk)) : Prop :=
  m.posMap 0 = m.posMap 1 ∧
    (leafCall 7 0 false (Bytes.zero 512)).env = (leafCall 7 1 false (Bytes.zero 512)).env ∧
    transcript m (leafCall 7 0 false (Bytes.zero 512)) ≠
      transcript m (leafCall 7 1 false (Bytes.zero 512))

theorem showsAddress_of_succeeds {m : PathOram (Logged FlakyDisk)} (hm : m.posMap = fun _ => 0)
    (h₀ : ((leafCall 7 0 false (Bytes.zero 512)).apply m).map Prod.fst = some 0)
    (h₁ : ((leafCall 7 1 false (Bytes.zero 512)).apply m).map Prod.fst = some 0) :
    ShowsAddress m := by
  refine ⟨by rw [hm], rfl, fun hsame => ?_⟩
  have hmaps := (getLast?_transcript (by decide) h₀).symm.trans
    ((congrArg (fun t => t.bind List.getLast?) hsame).trans (getLast?_transcript (by decide) h₁))
  rw [hm] at hmaps
  have hsectors : posmapSector (Function.update (fun _ => 0) 0 7) =
      posmapSector (Function.update (fun _ => 0) 1 7) :=
    posmapEvent_inj.mp (Option.some.inj hmaps)
  exact absurd hsectors (by decide +kernel)

/-- So it is right after the formatting, whether nothing that is used lies behind the buffer or the
sector number. -/
theorem oram_shows_address :
    ShowsAddress (oramFormat (fun _ => 0) (hiddenOram .unused true)) ∧
      ShowsAddress (oramFormat (fun _ => 0) (hiddenOram .onSectorNumber true)) := by
  constructor
  · exact showsAddress_of_succeeds rfl (by decide +kernel) (by decide +kernel)
  · exact showsAddress_of_succeeds rfl (by decide +kernel) (by decide +kernel)

end StyxOS
