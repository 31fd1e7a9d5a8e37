import StyxOS.Oram.Durability

/-! # What an observer of the device sees

The numbers of the sectors that are read and written, and the bytes of those
that are written with encryption off. An access shows the path of the block, as
far as the fetch gets, and then the sectors of the fifth step and the position
map.
-/

namespace StyxOS

open ByteMem

/-- A transfer as it is seen: the bytes of a write only where they are in the clear. -/
inductive SectorEvent
  | read (lba : ℕ)
  | write (lba : ℕ) (clear : Option (Bytes 512))
deriving DecidableEq

/-- A device with what was seen of it. -/
structure Logged (δ : Type) where
  dev : δ
  log : List SectorEvent

def writeEvent (mode : Bool) (lba : ℕ) (buf : Bytes 512) : SectorEvent :=
  .write lba (if mode then none else some buf)

instance {δ : Type} [SectorDevice δ] : SectorDevice (Logged δ) where
  sectorCount d := sectorCount d.dev
  readSector d lba buf :=
    let (rc, buf, dev) := readSector d.dev lba buf
    (rc, buf, ⟨dev, d.log ++ [.read lba]⟩)
  writeSector d lba buf :=
    let (rc, dev) := writeSector d.dev lba buf
    (rc, ⟨dev, d.log ++ [writeEvent (encryption d.dev) lba buf]⟩)
  encryption d := encryption d.dev
  setEncryption b d := ⟨setEncryption b d.dev, d.log⟩

/-- Only `setEncryption` changes the mode. -/
class LawfulMode (δ : Type) [SectorDevice δ] : Prop where
  read_mode : ∀ (d : δ) (lba : ℕ) (buf : Bytes 512),
    encryption (readSector d lba buf).2.2 = encryption d
  write_mode : ∀ (d : δ) (lba : ℕ) (buf : Bytes 512),
    encryption (writeSector d lba buf).2 = encryption d
  set_mode : ∀ (b : Bool) (d : δ), encryption (setEncryption b d) = b

instance : LawfulMode FlakyDisk where
  read_mode _ _ _ := rfl
  write_mode _ _ _ := rfl
  set_mode _ _ := rfl

instance {σ : Type} {T : Transport σ} {csprng : ℕ → List UInt8} :
    LawfulMode (UsbDisk T csprng) where
  read_mode := by
    rintro ⟨s⟩ lba buf
    simp only [encryption, readSector, usbMscReadSector]
    split
    · split <;> rfl
    · rfl
  write_mode _ _ _ := rfl
  set_mode _ _ := rfl

section

variable {δ : Type} [SectorDevice δ]

instance [LawfulMode δ] : LawfulMode (Logged δ) where
  read_mode d := LawfulMode.read_mode d.dev
  write_mode d := LawfulMode.write_mode d.dev
  set_mode b d := LawfulMode.set_mode b d.dev

/-- The part of a call from `d` to `d'` is seen as the events, and leaves the mode as it is. -/
structure Logged.Sees (d d' : Logged δ) (es : List SectorEvent) : Prop where
  log : d'.log = d.log ++ es
  mode : encryption d' = encryption d

namespace Logged.Sees

variable {d d' d'' : Logged δ} {es es' : List SectorEvent}

theorem refl (d : Logged δ) : d.Sees d [] := ⟨(List.append_nil _).symm, rfl⟩

theorem trans (h : d.Sees d' es) (h' : d'.Sees d'' es') : d.Sees d'' (es ++ es') :=
  ⟨by rw [h'.log, h.log, List.append_assoc], h'.mode.trans h.mode⟩

variable [LawfulMode δ]

theorem read (d : Logged δ) (lba : ℕ) (buf : Bytes 512) :
    d.Sees (readSector d lba buf).2.2 [.read lba] := ⟨rfl, LawfulMode.read_mode d lba buf⟩

theorem write (d : Logged δ) (lba : ℕ) (buf : Bytes 512) :
    d.Sees (writeSector d lba buf).2 [writeEvent (encryption d) lba buf] :=
  ⟨rfl, LawfulMode.write_mode d lba buf⟩

theorem posmapSave (d : Logged δ) (posMap : ℕ → ℕ) :
    d.Sees (posmapSave posMap d) [.write oramPosmapLba (some (posmapSector posMap))] := by
  have hoff : encryption (setEncryption false d) = false := LawfulMode.set_mode false d
  constructor
  · have hw := (write (setEncryption false d) oramPosmapLba (posmapSector posMap)).log
    rw [hoff] at hw
    exact hw
  · exact LawfulMode.set_mode _ _

end Logged.Sees

end

/-! ## The fetch -/

section

variable {δ : Type} [SectorDevice δ] {m m' : PathOram (Logged δ)} {env : AccessEnv}
  {posMap : ℕ → ℕ} {nodes : List ℕ} {S : List OramBlock} {stray : StrayStore}

theorem fetchPath_congr {env' : AccessEnv} (hbuf : env.buf = env'.buf)
    (htail : env.tail = env'.tail)
    (slots : List (ℕ × ℕ × ℕ)) : fetchPath env m slots = fetchPath env' m slots := by
  induction slots generalizing m with
  | nil => rfl
  | cons x slots ih =>
    obtain ⟨i, node, j⟩ := x
    simp only [fetchPath, hbuf, htail, ih]

variable [LawfulMode δ]

def readEvents (slots : List (ℕ × ℕ × ℕ)) : List SectorEvent :=
  slots.map fun x => .read (sectorOf x.2.1 x.2.2)

theorem fetchPath_sees (env : AccessEnv) (m : PathOram (Logged δ)) (slots : List (ℕ × ℕ × ℕ)) :
    (fetchPath env m slots).2.posMap = m.posMap ∧ (fetchPath env m slots).2.stray = m.stray ∧
      ∃ es, m.dev.Sees (fetchPath env m slots).2.dev es ∧
        ((fetchPath env m slots).1 = true → es = readEvents slots) := by
  induction slots generalizing m with
  | nil => exact ⟨rfl, rfl, [], .refl _, fun _ => rfl⟩
  | cons x slots ih =>
    obtain ⟨i, node, j⟩ := x
    have hread := Logged.Sees.read m.dev (sectorOf node j) (env.buf i j)
    -- The rest of the slots, with the stash that the first leaves.
    have hrest : ∀ stash, (fetchPath env { m with
        dev := (readSector m.dev (sectorOf node j) (env.buf i j)).2.2, stash } slots).2.posMap =
          m.posMap ∧
        (fetchPath env { m with
          dev := (readSector m.dev (sectorOf node j) (env.buf i j)).2.2, stash } slots).2.stray =
            m.stray ∧
        ∃ es, m.dev.Sees (fetchPath env { m with
            dev := (readSector m.dev (sectorOf node j) (env.buf i j)).2.2, stash } slots).2.dev es ∧
          ((fetchPath env { m with
            dev := (readSector m.dev (sectorOf node j) (env.buf i j)).2.2, stash } slots).1 = true →
              es = readEvents ((i, node, j) :: slots)) := by
      intro stash
      obtain ⟨hpos, hstray, es, hes, hall⟩ := ih { m with
        dev := (readSector m.dev (sectorOf node j) (env.buf i j)).2.2, stash }
      exact ⟨hpos, hstray, _, hread.trans hes, fun hfits => by rw [hall hfits]; rfl⟩
    rw [fetchPath]
    dsimp only [oramReadBlock]
    split
    · exact hrest m.stash
    · split
      · exact hrest _
      · exact ⟨rfl, rfl, _, hread, fun hc => absurd hc Bool.false_ne_true⟩

/-! ## The fifth step -/

/-- The sectors of a bucket with the numbers that they are written to. -/
def bucketSectors (stray : StrayStore) (node : ℕ) (bucket : List OramBlock) :
    List (ℕ × Bytes 512) :=
  (List.range oramZ).map fun j =>
    (stray.lbaAfter (lastFour (bucket.getD j dummyBlock).data) (sectorOf node j),
      (bucket.getD j dummyBlock).toSector)

def placedSectors (stray : StrayStore) (posMap : ℕ → ℕ) :
    List ℕ → List OramBlock → Option (List (ℕ × Bytes 512))
  | [], _ => some []
  | node :: nodes, stash => do
    let (bucket, rest) ← takeBucket posMap node oramZ stash
    let sectors ← placedSectors stray posMap nodes rest
    some (bucketSectors stray node bucket ++ sectors)

/-- The sectors, as they are seen when they are written. -/
def writeEvents (mode : Bool) (sectors : List (ℕ × Bytes 512)) : List SectorEvent :=
  sectors.map fun x => writeEvent mode x.1 x.2

theorem writeBucket_sees (d : Logged δ) (node : ℕ) (bucket : List OramBlock) :
    d.Sees (writeBucket stray d node bucket)
      (writeEvents (encryption d) (bucketSectors stray node bucket)) := by
  unfold writeBucket bucketSectors
  generalize List.range oramZ = js
  induction js generalizing d with
  | nil => exact .refl d
  | cons j js ih =>
    have hfirst := Logged.Sees.write d
      (stray.lbaAfter (lastFour (bucket.getD j dummyBlock).data) (sectorOf node j))
      (bucket.getD j dummyBlock).toSector
    have hrest := ih (oramWriteBlock stray d node j (bucket.getD j dummyBlock))
    have hmode : encryption (oramWriteBlock stray d node j (bucket.getD j dummyBlock)) =
        encryption d := hfirst.mode
    rw [hmode] at hrest
    exact hfirst.trans hrest

theorem evict_sees (h : nodes.foldlM evictNode m = some m') :
    m'.posMap = m.posMap ∧
      ∃ sectors, placedSectors m.stray m.posMap nodes m.stash = some sectors ∧
      m.dev.Sees m'.dev (writeEvents (encryption m.dev) sectors) := by
  induction nodes generalizing m with
  | nil =>
    obtain rfl : m = m' := Option.some.inj h
    exact ⟨rfl, [], rfl, .refl _⟩
  | cons node nodes ih =>
    rw [List.foldlM_cons] at h
    obtain ⟨m₁, hnode, hrest⟩ := Option.bind_eq_some_iff.mp h
    obtain ⟨⟨bucket, rest⟩, htake, hm₁⟩ := Option.bind_eq_some_iff.mp hnode
    obtain rfl := Option.some.inj hm₁
    obtain ⟨hpos, sectors, hsectors, hsees⟩ := ih hrest
    have hfirst : m.dev.Sees (writeBucket m.stray m.dev node bucket)
        (writeEvents (encryption m.dev) (bucketSectors m.stray node bucket)) :=
      writeBucket_sees m.dev node bucket
    refine ⟨hpos, bucketSectors m.stray node bucket ++ sectors, ?_, ?_⟩
    · rw [placedSectors, htake]
      simp only [Option.bind_eq_bind, Option.bind_some]
      rw [hsectors]
      rfl
    · rw [hfirst.mode] at hsees
      rw [writeEvents, List.map_append]
      exact hfirst.trans hsees

theorem bucketSectors_of_spares (h : stray.Spares) (node : ℕ) (bucket : List OramBlock) :
    bucketSectors stray node bucket = (List.range oramZ).map fun j =>
      (sectorOf node j, (bucket.getD j dummyBlock).toSector) := by
  refine List.map_congr_left fun j _ => ?_
  rw [h _ _ (sectorOf_lt node j)]

theorem map_fst_placedSectors {sectors : List (ℕ × Bytes 512)} (hspares : stray.Spares)
    (h : placedSectors stray posMap nodes S = some sectors) :
    sectors.map Prod.fst = nodes.flatMap fun n => (List.range oramZ).map (sectorOf n) := by
  induction nodes generalizing S sectors with
  | nil =>
    obtain rfl := Option.some.inj h
    rfl
  | cons node nodes ih =>
    obtain ⟨⟨bucket, rest⟩, -, h⟩ := Option.bind_eq_some_iff.mp h
    obtain ⟨sectors', hsectors', h⟩ := Option.bind_eq_some_iff.mp h
    obtain rfl := Option.some.inj h
    rw [List.map_append, ih hsectors', List.flatMap_cons, bucketSectors_of_spares hspares,
      List.map_map]
    rfl

/-- Where the position map is not read behind its end, a bucket is filled greedily, with blocks of
the store. -/
theorem takeBucket_of_some {node k : ℕ} {x : List OramBlock × List OramBlock}
    (h : takeBucket posMap node k S = some x) :
    x = PathTree.takeUpTo (mayHold posMap node) k S ∧ ∀ b ∈ x.1, b.lba < oramNumLeaves := by
  induction S generalizing k x with
  | nil =>
    cases k with
    | zero =>
      obtain rfl := Option.some.inj h
      exact ⟨rfl, fun b hb => absurd hb List.not_mem_nil⟩
    | succ k =>
      obtain rfl := Option.some.inj h
      exact ⟨rfl, fun b hb => absurd hb List.not_mem_nil⟩
  | cons b bs ih =>
    cases k with
    | zero =>
      obtain rfl := Option.some.inj h
      exact ⟨rfl, fun b hb => absurd hb List.not_mem_nil⟩
    | succ k =>
      obtain ⟨leaf, hleaf, h⟩ := Option.bind_eq_some_iff.mp h
      obtain ⟨hlba, rfl⟩ : b.lba < oramNumLeaves ∧ posMap b.lba = leaf := by
        simpa [posAt] using hleaf
      rw [PathTree.takeUpTo, mayHold]
      split at h
      · next hmay =>
        obtain ⟨⟨bucket, rest⟩, hrec, h⟩ := Option.bind_eq_some_iff.mp h
        obtain rfl := Option.some.inj h
        obtain ⟨heq, hall⟩ := ih hrec
        rw [if_pos hmay, ← heq]
        exact ⟨rfl, List.forall_mem_cons.mpr ⟨hlba, hall⟩⟩
      · next hmay =>
        obtain ⟨⟨bucket, rest⟩, hrec, h⟩ := Option.bind_eq_some_iff.mp h
        obtain rfl := Option.some.inj h
        obtain ⟨heq, hall⟩ := ih hrec
        rw [if_neg hmay, ← heq]
        exact ⟨rfl, hall⟩

/-- What the fifth step writes is the stash, placed greedily. -/
theorem placedSectors_of_some {sectors : List (ℕ × Bytes 512)}
    (h : placedSectors stray posMap nodes S = some sectors) :
    sectors = (PathTree.place (mayHold posMap) oramZ nodes S).1.flatMap
        (fun x => bucketSectors stray x.1 x.2) ∧
      ∀ x ∈ (PathTree.place (mayHold posMap) oramZ nodes S).1, ∀ b ∈ x.2,
        b.lba < oramNumLeaves := by
  induction nodes generalizing S sectors with
  | nil =>
    obtain rfl := Option.some.inj h
    exact ⟨rfl, fun x hx => absurd hx List.not_mem_nil⟩
  | cons node nodes ih =>
    obtain ⟨⟨bucket, rest⟩, htake, h⟩ := Option.bind_eq_some_iff.mp h
    obtain ⟨sectors', hsectors', h⟩ := Option.bind_eq_some_iff.mp h
    obtain rfl := Option.some.inj h
    obtain ⟨heq, hall⟩ := takeBucket_of_some htake
    obtain ⟨hbucket, hrest⟩ := Prod.mk.inj heq
    dsimp only at hsectors' hall
    rw [hrest] at hsectors'
    obtain ⟨heq', hall'⟩ := ih hsectors'
    rw [hbucket] at hall ⊢
    exact ⟨by rw [PathTree.place, List.flatMap_cons, ← heq'],
      List.forall_mem_cons.mpr ⟨hall, hall'⟩⟩

theorem toSector_ne_dummy {b : OramBlock} (h : b.lba < oramNumLeaves) :
    b.toSector ≠ dummyBlock.toSector := by
  intro hc
  have hlba := leVal_toSector (h.trans (by decide : oramNumLeaves < 2 ^ 32))
  rw [hc, leVal_toSector (by decide)] at hlba
  exact ne_dummyLba h hlba.symm

theorem eq_of_getD {α : Type} {as bs : List α} {d : α} {n : ℕ} (has : as.length ≤ n)
    (hbs : bs.length ≤ n) (hda : d ∉ as) (hdb : d ∉ bs)
    (h : ∀ j < n, as.getD j d = bs.getD j d) : as = bs := by
  refine List.ext_getElem? fun j => ?_
  by_cases hj : j < n
  · have hsame := h j hj
    rw [List.getD_eq_getElem?_getD, List.getD_eq_getElem?_getD] at hsame
    cases ha : as[j]? with
    | some a =>
      cases hb : bs[j]? with
      | some b => simpa [ha, hb] using hsame
      | none =>
        rw [ha, hb, Option.getD_some, Option.getD_none] at hsame
        exact absurd (hsame ▸ List.mem_of_getElem? ha) hda
    | none =>
      cases hb : bs[j]? with
      | some b =>
        rw [ha, hb, Option.getD_some, Option.getD_none] at hsame
        exact absurd (hsame ▸ List.mem_of_getElem? hb) hdb
      | none => rfl
  · rw [List.getElem?_eq_none (by omega), List.getElem?_eq_none (by omega)]

/-- The sectors of a bucket show the sectors of its blocks. -/
theorem bucketSectors_eq_iff {node : ℕ} {bucket bucket' : List OramBlock}
    (hspares : stray.Spares) (hlen : bucket.length ≤ oramZ) (hlen' : bucket'.length ≤ oramZ)
    (hlba : ∀ b ∈ bucket, b.lba < oramNumLeaves) (hlba' : ∀ b ∈ bucket', b.lba < oramNumLeaves) :
    bucketSectors stray node bucket = bucketSectors stray node bucket' ↔
      bucket.map OramBlock.toSector = bucket'.map OramBlock.toSector := by
  have hout : ∀ {bucket : List OramBlock}, (∀ b ∈ bucket, b.lba < oramNumLeaves) →
      dummyBlock.toSector ∉ bucket.map OramBlock.toSector := by
    intro bucket hall hc
    obtain ⟨b, hb, heq⟩ := List.mem_map.mp hc
    exact toSector_ne_dummy (hall b hb) heq
  rw [bucketSectors_of_spares hspares, bucketSectors_of_spares hspares]
  constructor
  · intro h
    refine eq_of_getD (n := oramZ) (by rwa [List.length_map]) (by rwa [List.length_map])
      (hout hlba) (hout hlba') fun j hj => ?_
    rw [List.getD_map, List.getD_map]
    exact (Prod.mk.inj (List.map_inj_left.mp h j (List.mem_range.mpr hj))).2
  · intro h
    refine List.map_inj_left.mpr fun j _ => ?_
    rw [← List.getD_map (f := OramBlock.toSector), ← List.getD_map (f := OramBlock.toSector), h]

/-- The sectors that are written show the placed blocks. -/
theorem flatMap_bucketSectors_iff {placed placed' : List (ℕ × List OramBlock)}
    (hspares : stray.Spares) (hfst : placed.map Prod.fst = placed'.map Prod.fst)
    (h : ∀ x ∈ placed, x.2.length ≤ oramZ ∧ ∀ b ∈ x.2, b.lba < oramNumLeaves)
    (h' : ∀ x ∈ placed', x.2.length ≤ oramZ ∧ ∀ b ∈ x.2, b.lba < oramNumLeaves) :
    placed.flatMap (fun x => bucketSectors stray x.1 x.2) =
        placed'.flatMap (fun x => bucketSectors stray x.1 x.2) ↔
      PathTree.shown OramBlock.toSector placed = PathTree.shown OramBlock.toSector placed' := by
  induction placed generalizing placed' with
  | nil =>
    obtain rfl : placed' = [] := List.map_eq_nil_iff.mp hfst.symm
    exact iff_of_true rfl rfl
  | cons x placed ih =>
    cases placed' with
    | nil => cases hfst
    | cons x' placed' =>
      obtain ⟨n, bucket⟩ := x
      obtain ⟨n', bucket'⟩ := x'
      obtain ⟨hnode, hnodes⟩ := List.cons.inj hfst
      obtain rfl : n = n' := hnode
      obtain ⟨⟨hlen, hlba⟩, hrest⟩ := List.forall_mem_cons.mp h
      obtain ⟨⟨hlen', hlba'⟩, hrest'⟩ := List.forall_mem_cons.mp h'
      have hlength : (bucketSectors stray n bucket).length =
          (bucketSectors stray n bucket').length := by
        rw [bucketSectors, bucketSectors, List.length_map, List.length_map]
      have hbuckets : bucketSectors stray n bucket = bucketSectors stray n bucket' ↔
          bucket.map OramBlock.toSector = bucket'.map OramBlock.toSector :=
        bucketSectors_eq_iff hspares hlen hlen' hlba hlba'
      rw [List.flatMap_cons, List.flatMap_cons]
      constructor
      · intro hall
        obtain ⟨hfirst, hothers⟩ := List.append_inj hall hlength
        exact List.cons_eq_cons.mpr
          ⟨Prod.ext rfl (hbuckets.mp hfirst), (ih hnodes hrest hrest').mp hothers⟩
      · intro hall
        obtain ⟨hfirst, hothers⟩ := List.cons.inj hall
        rw [hbuckets.mpr (Prod.mk.inj hfirst).2, (ih hnodes hrest hrest').mpr hothers]

theorem writeEvents_eq_iff {mode : Bool} {ws ws' : List (ℕ × Bytes 512)}
    (hfst : ws.map Prod.fst = ws'.map Prod.fst) :
    writeEvents mode ws = writeEvents mode ws' ↔ (mode = false → ws = ws') := by
  cases mode with
  | true =>
    have hhide : ∀ ws : List (ℕ × Bytes 512), writeEvents true ws =
        (ws.map Prod.fst).map fun l => .write l none := fun ws => by
      rw [List.map_map]
      rfl
    rw [hhide, hhide, hfst]
    exact ⟨fun _ hc => absurd hc.symm Bool.false_ne_true, fun _ => rfl⟩
  | false =>
    refine ⟨fun h _ => ?_, fun h => by rw [h rfl]⟩
    have hinj : Function.Injective fun x : ℕ × Bytes 512 => writeEvent false x.1 x.2 := by
      rintro ⟨l, b⟩ ⟨l', b'⟩ heq
      obtain ⟨hl, hb⟩ := SectorEvent.write.inj heq
      exact Prod.ext hl (Option.some.inj hb)
    exact List.map_injective_iff.mpr hinj h

end

end StyxOS
