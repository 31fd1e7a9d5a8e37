import StyxOS.Snapshot.Commit

/-! # Mixing the sectors of several saves

A restore opens each sector with the IV that the sector itself carries, and
that IV is all that says for which address and in which save it was made. So
a store put together from the sectors of several saves is accepted, and its
payload is the one that belongs to the header exactly when each payload sector
carries the IV of its address and of that save, and saves that share a
sequence number do not get in each other's place.
-/

namespace StyxOS

open ByteMem

/-- A save under the key: its sequence number and its image. -/
structure SaveRun where
  sequence : UInt64
  image : SnapshotImage

namespace SaveRun

variable (ctx : AesGcmCtx)

/-- The sectors that the save encrypts, with their addresses. It stops at the first that the store
refuses. -/
def sectors (r : SaveRun) : List (ℕ × Bytes 512) :=
  (r.image.writes ctx r.sequence).take oramNumLeaves

end SaveRun

/-- What decryption sees of a sector: IV, ciphertext and tag. The IV is the associated data. -/
def sectorTuple (b : Bytes 512) : List UInt8 × List UInt8 × List UInt8 :=
  (sectorIv b, sectorCt b, sectorTag b)

/-- The sector is one that the save made for the address, as far as decryption sees. -/
def MadeFor (ctx : AesGcmCtx) (r : SaveRun) (lba : ℕ) (b : Bytes 512) : Prop :=
  ∃ w ∈ r.sectors ctx, w.1 = lba ∧ sectorTuple b = sectorTuple w.2

/-- The sectors of the store that decrypt are ones that some save made. -/
def Unforged (ctx : AesGcmCtx) (saves : List SaveRun) (o : Oram) : Prop :=
  ∀ lba < oramNumLeaves, ∀ b, openSector ctx (o lba) = some b →
    ∃ r ∈ saves, ∃ l, MadeFor ctx r l (o lba)

/-- The number of payload blocks that the header in the store asks for. -/
def askedSectors (ctx : AesGcmCtx) (o : Oram) : ℕ :=
  match openSector ctx (o 0) with
  | none => 0
  | some header => (Layout.headerInfo.decode header.1).totalSectors.toNat

/-- Header and payload blocks come from one save, and each payload block was made for the address
it is used at. -/
def Bound (ctx : AesGcmCtx) (saves : List SaveRun) (o : Oram) : Prop :=
  ∃ r ∈ saves, (∃ l, MadeFor ctx r l (o 0)) ∧
    ∀ i < askedSectors ctx o, MadeFor ctx r (i + 1) (o (i + 1))

/-- The payload sectors carry the IV of their address and of the save of the header, and where
saves share a sequence number, a sector is not in the place of a different one of that save. -/
def InPlaceOf (ctx : AesGcmCtx) (saves : List SaveRun) (o : Oram) : Prop :=
  ∃ r ∈ saves, (∃ l, MadeFor ctx r l (o 0)) ∧
    ∀ i < askedSectors ctx o, sectorIv (o (i + 1)) = blockIv (i + 1) r.sequence ∧
      ∀ t ∈ saves, t.sequence = r.sequence → MadeFor ctx t (i + 1) (o (i + 1)) →
        MadeFor ctx r (i + 1) (o (i + 1))

section
variable {ctx : AesGcmCtx} {saves : List SaveRun} {o : Oram}

theorem SaveRun.mem_sectors {r : SaveRun} {w : ℕ × Bytes 512} (h : w ∈ r.sectors ctx) :
    w.1 ≤ oramNumLeaves ∧ ∃ b, w.2 = packSector ctx w.1 r.sequence b := by
  rw [sectors, SnapshotImage.writes, List.take_append, List.mem_append,
    SnapshotImage.dataWrites_take] at h
  rcases h with h | h
  · obtain ⟨i, b, hb, rfl⟩ := SnapshotImage.mem_dataWrites.mp h
    have hi : i < (r.image.blocks.take oramNumLeaves).length :=
      (List.getElem?_eq_some_iff.mp hb).1
    rw [List.length_take] at hi
    exact ⟨by dsimp only; omega, b, rfl⟩
  · have hw := List.mem_singleton.mp (List.mem_of_mem_take h)
    rw [hw]
    exact ⟨Nat.zero_le _, r.image.header, rfl⟩

theorem MadeFor.sectorIv {r : SaveRun} {lba : ℕ} {b : Bytes 512} (h : MadeFor ctx r lba b) :
    lba ≤ oramNumLeaves ∧ StyxOS.sectorIv b = blockIv lba r.sequence := by
  obtain ⟨w, hw, rfl, ht⟩ := h
  obtain ⟨hle, pt, hb⟩ := SaveRun.mem_sectors hw
  obtain ⟨-, hiv, -⟩ := packSector_parts ctx w.1 r.sequence pt
  rw [← hb] at hiv
  exact ⟨hle, (congrArg Prod.fst ht).trans hiv⟩

theorem askedSectors_eq {img : SnapshotImage} (h : readImage ctx o = some img) :
    askedSectors ctx o = img.blocks.length := by
  obtain ⟨hok, hh, -, -⟩ := readImage_eq_some.mp h
  rw [askedSectors, hh]
  exact hok.total

theorem bound_iff_inPlaceOf (hu : Unforged ctx saves o) {img : SnapshotImage}
    (h : readImage ctx o = some img) : Bound ctx saves o ↔ InPlaceOf ctx saves o := by
  obtain ⟨-, -, hlt, hopen⟩ := readImage_eq_some.mp h
  unfold Bound InPlaceOf
  rw [askedSectors_eq h]
  constructor
  · rintro ⟨r, hr, hhdr, hb⟩
    refine ⟨r, hr, hhdr, ?_⟩
    intro i hi
    exact ⟨(hb i hi).sectorIv.2, fun _ _ _ _ => hb i hi⟩
  · rintro ⟨r, hr, hhdr, hb⟩
    refine ⟨r, hr, hhdr, ?_⟩
    intro i hi
    obtain ⟨hiv, hsame⟩ := hb i hi
    obtain ⟨t, ht, l, hl⟩ := hu (i + 1) (by omega) _ (hopen i hi)
    obtain ⟨hle, hiv'⟩ := hl.sectorIv
    -- the IV tells the address and the sequence number of the save that made the sector
    have hn : oramNumLeaves = 64 := rfl
    obtain ⟨rfl, hseq⟩ := blockIv_inj (by omega) (by omega) (hiv'.symm.trans hiv)
    exact hsame t ht hseq hl

end

/-- In a store without forged sectors, a snapshot that restores is bound together exactly when its
payload sectors are in their own places and of the header's save. -/
theorem snapshot_binding_iff {env : RestoreEnv} {s : RamSession} {saves : List SaveRun}
    (hu : Unforged s.gcmCtx saves s.oram) (h : (snapshotRestore env s).1 = 0) :
    Bound s.gcmCtx saves s.oram ↔ InPlaceOf s.gcmCtx saves s.oram := by
  obtain ⟨-, img, himg⟩ := snapshotRestore_eq_zero.mp h
  exact bound_iff_inPlaceOf hu himg

/-! ## A header over the payload of another save -/

/-- The header of one save over the payload of another, whose first sector fills the rest of the
store. -/
def splicedOram (ctx : AesGcmCtx) (header payload : SaveRun) : Oram
  | 0 => packSector ctx 0 header.sequence header.image.header
  | n + 1 =>
    let i := if n < payload.image.blocks.length then n else 0
    packSector ctx (i + 1) payload.sequence (payload.image.blocks.getD i (Bytes.zero 480))

section
variable {ctx : AesGcmCtx} {h p : SaveRun}

theorem madeFor_header (hl : h.image.blocks.length < oramNumLeaves) :
    MadeFor ctx h 0 (packSector ctx 0 h.sequence h.image.header) := by
  refine ⟨(0, packSector ctx 0 h.sequence h.image.header), ?_, rfl, rfl⟩
  rw [SaveRun.sectors, List.take_of_length_le, SnapshotImage.writes]
  · simp
  · simp [SnapshotImage.writes]
    omega

theorem madeFor_payload {i : ℕ} (hi : i < p.image.blocks.length)
    (hl : p.image.blocks.length < oramNumLeaves) :
    MadeFor ctx p (i + 1)
      (packSector ctx (i + 1) p.sequence (p.image.blocks.getD i (Bytes.zero 480))) := by
  refine ⟨(i + 1, packSector ctx (i + 1) p.sequence (p.image.blocks.getD i (Bytes.zero 480))),
    ?_, rfl, rfl⟩
  rw [SaveRun.sectors, List.take_of_length_le, SnapshotImage.writes, List.mem_append]
  · left
    rw [SnapshotImage.mem_dataWrites]
    refine ⟨i, p.image.blocks[i], List.getElem?_eq_getElem hi, ?_⟩
    rw [List.getD_eq_getElem _ _ hi, Nat.add_comm]
  · simp [SnapshotImage.writes]
    omega

theorem splicedOram_unforged (hh : h.image.blocks.length < oramNumLeaves)
    (hp : p.image.blocks.length < oramNumLeaves) (hpos : 0 < p.image.blocks.length) :
    Unforged ctx [h, p] (splicedOram ctx h p) := by
  intro lba _ b _
  cases lba with
  | zero => exact ⟨h, by simp, 0, madeFor_header hh⟩
  | succ n =>
    refine ⟨p, by simp, _, madeFor_payload ?_ hp⟩
    split
    · assumption
    · exact hpos

theorem readImage_splicedOram (hok : h.image.Ok)
    (hlen : h.image.blocks.length = p.image.blocks.length)
    (hh : h.image.blocks.length < oramNumLeaves) :
    readImage ctx (splicedOram ctx h p) = some ⟨h.image.header, p.image.blocks⟩ := by
  rw [readImage_eq_some]
  refine ⟨⟨hok.magic, hok.version, hok.total.trans hlen⟩, ?_, ?_, ?_⟩
  · exact openSector_packSector _ _ _ _
  · exact hlen ▸ hh
  · intro i hi
    dsimp only [splicedOram]
    rw [if_pos hi, openSector_packSector, List.getD_eq_getElem _ _ hi]

theorem splicedOram_inPlaceOf (hok : p.image.Ok) (hp : p.image.blocks.length < oramNumLeaves) :
    InPlaceOf ctx [p, p] (splicedOram ctx p p) := by
  refine ⟨p, by simp, ⟨0, madeFor_header hp⟩, ?_⟩
  intro i hi
  rw [askedSectors_eq (readImage_splicedOram hok rfl hp)] at hi
  constructor
  · dsimp only [splicedOram]
    rw [if_pos hi, (packSector_parts _ _ _ _).2.1]
  · rintro t ht - hm
    have he : t = p := by simpa using ht
    rwa [he] at hm

theorem splicedOram_not_bound (hseq : h.sequence ≠ p.sequence)
    (hok : h.image.Ok) (hlen : h.image.blocks.length = p.image.blocks.length)
    (hh : h.image.blocks.length < oramNumLeaves) (hpos : 0 < p.image.blocks.length) :
    ¬ Bound ctx [h, p] (splicedOram ctx h p) := by
  rintro ⟨r, -, ⟨l, hl⟩, hb⟩
  rw [askedSectors_eq (readImage_splicedOram hok hlen hh)] at hb
  have hn : oramNumLeaves = 64 := rfl
  -- the IVs of the header and of the first payload sector disagree on the save
  obtain ⟨hle, hiv⟩ := hl.sectorIv
  obtain ⟨-, hiv₀, -⟩ := packSector_parts ctx 0 h.sequence h.image.header
  obtain ⟨-, hs₀⟩ := blockIv_inj (by omega) (by omega) (hiv₀.symm.trans hiv)
  obtain ⟨-, hiv₁⟩ := (hb 0 hpos).sectorIv
  dsimp only [splicedOram] at hiv₁
  rw [if_pos hpos, (packSector_parts _ _ _ _).2.1] at hiv₁
  obtain ⟨-, hs₁⟩ := blockIv_inj (by omega) (by omega) hiv₁
  exact hseq (hs₀.trans hs₁.symm)

end

/-- The saves of the two sessions before. -/
def firstRun : SaveRun := ⟨1, firstSession.image someCpu⟩

def nextRun : SaveRun := ⟨2, (nextSession 1).image someCpu⟩

def splicedSession (header payload : SaveRun) : RamSession :=
  { firstSession with oram := splicedOram firstSession.gcmCtx header payload }

theorem firstRun_blocks : firstRun.image.blocks.length = 4 := by
  rw [firstRun, RamSession.length_blocks, firstSession, oneTask_totalSectors]

theorem nextRun_blocks : nextRun.image.blocks.length = 4 := by
  rw [nextRun, RamSession.length_blocks, nextSession, oneTask_totalSectors]

theorem firstRun_ok : firstRun.image.Ok := by
  apply RamSession.image_ok
  rw [firstSession, oneTask_totalSectors]
  decide

theorem nextRun_ok : nextRun.image.Ok := by
  apply RamSession.image_ok
  rw [nextSession, oneTask_totalSectors]
  decide

theorem snapshotRestore_spliced {h p : SaveRun} (hok : h.image.Ok)
    (hh : h.image.blocks.length = 4) (hp : p.image.blocks.length = 4) :
    (snapshotRestore zeroEnv (splicedSession h p)).1 = 0 := by
  rw [snapshotRestore_eq_zero]
  refine ⟨rfl, _, readImage_splicedOram hok (hh.trans hp.symm) ?_⟩
  rw [hh]
  decide

theorem snapshot_binding_iff_sample :
    Bound (splicedSession firstRun firstRun).gcmCtx [firstRun, firstRun]
      (splicedSession firstRun firstRun).oram := by
  have h4 := firstRun_blocks
  have hlt : firstRun.image.blocks.length < oramNumLeaves := by rw [h4]; decide
  apply (snapshot_binding_iff (splicedOram_unforged hlt hlt (by omega))
    (snapshotRestore_spliced firstRun_ok h4 h4)).mpr
  exact splicedOram_inPlaceOf firstRun_ok hlt

/-- The header of the second save over the payload of the first restores, though no sector is
forged and the payload is not the header's. -/
theorem snapshot_not_bound :
    Unforged (splicedSession nextRun firstRun).gcmCtx [nextRun, firstRun]
        (splicedSession nextRun firstRun).oram ∧
      (snapshotRestore zeroEnv (splicedSession nextRun firstRun)).1 = 0 ∧
      ¬ Bound (splicedSession nextRun firstRun).gcmCtx [nextRun, firstRun]
        (splicedSession nextRun firstRun).oram := by
  have hn : oramNumLeaves = 64 := rfl
  have hf := firstRun_blocks
  have hx := nextRun_blocks
  refine ⟨?_, ?_, ?_⟩
  · exact splicedOram_unforged (by omega) (by omega) (by omega)
  · exact snapshotRestore_spliced nextRun_ok hx hf
  · exact splicedOram_not_bound (by decide) nextRun_ok (hx.trans hf.symm) (by omega) (by omega)

end StyxOS
