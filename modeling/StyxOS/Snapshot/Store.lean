import Mathlib.Data.List.TakeWhile
import Mathlib.Logic.Function.Basic
import StyxOS.Snapshot.Format

/-! # The snapshot in the block store

A snapshot is a header block and the blocks of its payload. A save writes the
payload to the addresses from one on and the header to address zero last; a
restore reads the header and as many payload blocks as it says. The block
store is taken as an ideal one.
-/

namespace StyxOS

open ByteMem

/-- The block store behind `oram_access`. -/
abbrev Oram := ℕ → Bytes 512

def oramNumLeaves : ℕ := 64

/-- `oram_access` for a read. -/
def oramRead (o : Oram) (lba : ℕ) : Option (Bytes 512) :=
  if lba < oramNumLeaves then some (o lba) else none

/-- `oram_access` for writes made one after the other, until the first that fails: whether all
succeeded, and the store afterwards. -/
def oramWrites : Oram → List (ℕ × Bytes 512) → Bool × Oram
  | o, [] => (true, o)
  | o, w :: ws =>
    if w.1 < oramNumLeaves then oramWrites (Function.update o w.1 w.2) ws else (false, o)

/-- What a snapshot consists of once decrypted: `header_buf` and the payload blocks. -/
@[ext]
structure SnapshotImage where
  header : Block
  blocks : List Block
deriving DecidableEq

namespace SnapshotImage

/-- The header as far as `header_buf` holds it. -/
def info (img : SnapshotImage) : HeaderInfo := Layout.headerInfo.decode img.header.1

/-- An image that a restore accepts: magic and version are right and the count of sectors is that
of the payload. -/
structure Ok (img : SnapshotImage) : Prop where
  magic : img.info.magic = snapshotMagic
  version : img.info.version = snapshotVersion
  total : img.info.totalSectors.toNat = img.blocks.length

/-- What of the header a restore installs: the counts of records, and the endpoint pool as far as
`header_buf` holds it. The sequence number and the CPU features are not part of it. -/
def headerContent (img : SnapshotImage) : UInt32 × UInt32 × List UInt8 :=
  (img.info.taskCount, img.info.pageCount, img.header.1.drop Layout.headerInfo.size)

def content (img : SnapshotImage) : (UInt32 × UInt32 × List UInt8) × List Block :=
  (img.headerContent, img.blocks)

variable (ctx : AesGcmCtx) (sequence : UInt64) (img : SnapshotImage)

/-- The payload sectors that a save writes, from `lba` on. -/
def dataWrites : ℕ → List Block → List (ℕ × Bytes 512)
  | _, [] => []
  | lba, b :: bs => (lba, packSector ctx lba sequence b) :: dataWrites (lba + 1) bs

/-- The writes of a save: the payload, then the header. -/
def writes : List (ℕ × Bytes 512) :=
  dataWrites ctx sequence 1 img.blocks ++ [(0, packSector ctx 0 sequence img.header)]

end SnapshotImage

/-- The read and verify loop over the given addresses. -/
def readBlocks (ctx : AesGcmCtx) (o : Oram) : List ℕ → Option (List Block)
  | [] => some []
  | lba :: lbas =>
    match (oramRead o lba).bind (openSector ctx) with
    | none => none
    | some b => (readBlocks ctx o lbas).map (b :: ·)

/-- The part of `snapshot_restore` that reads and verifies. -/
def readImage (ctx : AesGcmCtx) (o : Oram) : Option SnapshotImage :=
  match (oramRead o 0).bind (openSector ctx) with
  | none => none
  | some header =>
    let info := Layout.headerInfo.decode header.1
    if info.magic ≠ snapshotMagic ∨ info.version ≠ snapshotVersion then none
    else
      (readBlocks ctx o (List.range' 1 info.totalSectors.toNat)).map fun blocks =>
        { header := header, blocks := blocks }

section
variable {ctx : AesGcmCtx} {o : Oram}

theorem readBlocks_eq_some {lbas : List ℕ} {bs : List Block} :
    readBlocks ctx o lbas = some bs ↔
      List.Forall₂ (fun lba b => lba < oramNumLeaves ∧ openSector ctx (o lba) = some b)
        lbas bs := by
  induction lbas generalizing bs with
  | nil => cases bs <;> simp [readBlocks]
  | cons lba lbas ih =>
    have hread : ∀ b, (oramRead o lba).bind (openSector ctx) = some b ↔
        lba < oramNumLeaves ∧ openSector ctx (o lba) = some b := by
      intro b
      unfold oramRead
      split <;> simp_all
    rw [readBlocks]
    cases hb : (oramRead o lba).bind (openSector ctx) with
    | none =>
      constructor
      · intro h; cases h
      · rintro (- | ⟨h, -⟩)
        rw [(hread _).mpr h] at hb
        cases hb
    | some b =>
      have hb' := (hread b).mp hb
      constructor
      · intro h
        obtain ⟨bs', hbs, rfl⟩ := Option.map_eq_some_iff.mp h
        exact .cons hb' (ih.mp hbs)
      · rintro (- | ⟨h, hs⟩)
        have he := hb'.2.symm.trans h.2
        cases he
        simp only [ih.mpr hs, Option.map_some]

theorem readBlocks_range {n : ℕ} {bs : List Block} :
    readBlocks ctx o (List.range' 1 n) = some bs ↔
      n = bs.length ∧ bs.length < oramNumLeaves ∧
        ∀ i, (h : i < bs.length) → openSector ctx (o (i + 1)) = some bs[i] := by
  rw [readBlocks_eq_some, List.forall₂_iff_get]
  constructor
  · rintro ⟨hl, h⟩
    rw [List.length_range'] at hl
    have hi : ∀ i, (hb : i < bs.length) → i + 1 < oramNumLeaves ∧
        openSector ctx (o (i + 1)) = some bs[i] := by
      intro i hb
      have hg := h i (by simpa [hl] using hb) hb
      simpa [List.getElem_range', Nat.add_comm] using hg
    refine ⟨hl, ?_, fun i hb => (hi i hb).2⟩
    rcases Nat.eq_zero_or_pos bs.length with hz | hp
    · rw [hz]; decide
    · have hlast := (hi (bs.length - 1) (by omega)).1
      omega
  · rintro ⟨rfl, hlt, h⟩
    refine ⟨List.length_range', ?_⟩
    intro i h₁ h₂
    simp only [List.get_eq_getElem, List.getElem_range', Nat.one_mul, Nat.add_comm 1]
    exact ⟨by omega, h i h₂⟩

theorem readImage_eq_some {img : SnapshotImage} :
    readImage ctx o = some img ↔
      img.Ok ∧ openSector ctx (o 0) = some img.header ∧ img.blocks.length < oramNumLeaves ∧
        ∀ i, (h : i < img.blocks.length) → openSector ctx (o (i + 1)) = some img.blocks[i] := by
  have hread : (oramRead o 0).bind (openSector ctx) = openSector ctx (o 0) := by
    simp [oramRead, oramNumLeaves]
  unfold readImage
  rw [hread]
  cases hh : openSector ctx (o 0) with
  | none =>
    constructor
    · intro h; cases h
    · rintro ⟨-, h, -⟩; cases h
  | some header =>
    dsimp only
    constructor
    · intro h
      by_cases hm : (Layout.headerInfo.decode header.1).magic ≠ snapshotMagic ∨
          (Layout.headerInfo.decode header.1).version ≠ snapshotVersion
      · rw [if_pos hm] at h
        cases h
      · rw [if_neg hm] at h
        obtain ⟨bs, hbs, rfl⟩ := Option.map_eq_some_iff.mp h
        obtain ⟨hn, hlt, ho⟩ := readBlocks_range.mp hbs
        obtain ⟨hmagic, hversion⟩ := not_or.mp hm
        exact ⟨⟨not_not.mp hmagic, not_not.mp hversion, hn⟩, rfl, hlt, ho⟩
    · rintro ⟨hok, he, hlt, ho⟩
      cases he
      rw [if_neg (by simpa [SnapshotImage.info] using ⟨hok.magic, hok.version⟩)]
      have hbs := readBlocks_range.mpr ⟨hok.total, hlt, ho⟩
      rw [SnapshotImage.info] at hbs
      rw [hbs]
      rfl

end

/-! ## Writing -/

section
variable {ctx : AesGcmCtx} {sequence : UInt64}

/-- The store after some writes have been made. -/
def applyWrites (o : Oram) (ws : List (ℕ × Bytes 512)) : Oram :=
  ws.foldl (fun o w => Function.update o w.1 w.2) o

/-- The writes of a list that the store takes before the first that it refuses. -/
def taken (ws : List (ℕ × Bytes 512)) : List (ℕ × Bytes 512) :=
  ws.takeWhile fun w => w.1 < oramNumLeaves

theorem oramWrites_eq (o : Oram) (ws : List (ℕ × Bytes 512)) :
    oramWrites o ws = (ws.all fun w => w.1 < oramNumLeaves, applyWrites o (taken ws)) := by
  induction ws generalizing o with
  | nil => rfl
  | cons w ws ih =>
    by_cases h : w.1 < oramNumLeaves
    · rw [oramWrites, if_pos h, ih]
      simp [taken, applyWrites, h]
    · rw [oramWrites, if_neg h]
      simp [taken, applyWrites, h]

theorem applyWrites_of_notMem {o : Oram} {ws : List (ℕ × Bytes 512)} {lba : ℕ}
    (h : ∀ w ∈ ws, w.1 ≠ lba) : applyWrites o ws lba = o lba := by
  induction ws generalizing o with
  | nil => rfl
  | cons w ws ih =>
    rw [applyWrites, List.foldl_cons, ← applyWrites, ih fun w hw => h w (by simp [hw]),
      Function.update_of_ne (h w (by simp)).symm]

namespace SnapshotImage

theorem dataWrites_take (lba k : ℕ) (bs : List Block) :
    (dataWrites ctx sequence lba bs).take k = dataWrites ctx sequence lba (bs.take k) := by
  induction bs generalizing lba k with
  | nil => simp [dataWrites]
  | cons b bs ih =>
    cases k with
    | zero => rfl
    | succ k => simp [dataWrites, ih]

@[simp] theorem length_dataWrites (lba : ℕ) (bs : List Block) :
    (dataWrites ctx sequence lba bs).length = bs.length := by
  induction bs generalizing lba with
  | nil => rfl
  | cons b bs ih => simp [dataWrites, ih]

theorem mem_dataWrites {lba : ℕ} {bs : List Block} {w : ℕ × Bytes 512} :
    w ∈ dataWrites ctx sequence lba bs ↔
      ∃ i b, bs[i]? = some b ∧ w = (lba + i, packSector ctx (lba + i) sequence b) := by
  induction bs generalizing lba with
  | nil => simp [dataWrites]
  | cons b bs ih =>
    rw [dataWrites, List.mem_cons, ih]
    constructor
    · rintro (rfl | ⟨i, c, hc, rfl⟩)
      · exact ⟨0, b, rfl, rfl⟩
      · exact ⟨i + 1, c, hc, by rw [Nat.add_assoc, Nat.add_comm 1]⟩
    · rintro ⟨i, c, hc, rfl⟩
      cases i with
      | zero =>
        left
        cases hc
        rfl
      | succ i =>
        right
        exact ⟨i, c, hc, by rw [Nat.add_assoc, Nat.add_comm 1]⟩

theorem applyWrites_dataWrites {o : Oram} {lba : ℕ} {bs : List Block} {i : ℕ} {b : Block}
    (h : bs[i]? = some b) :
    applyWrites o (dataWrites ctx sequence lba bs) (lba + i) =
      packSector ctx (lba + i) sequence b := by
  induction bs generalizing o lba i with
  | nil => simp at h
  | cons c bs ih =>
    rw [dataWrites, applyWrites, List.foldl_cons, ← applyWrites]
    cases i with
    | zero =>
      cases h
      rw [applyWrites_of_notMem]
      · exact Function.update_self _ _ _
      · rintro w hw
        obtain ⟨j, d, -, rfl⟩ := mem_dataWrites.mp hw
        dsimp only
        omega
    | succ i =>
      have hi : applyWrites (Function.update o lba (packSector ctx lba sequence c))
          (dataWrites ctx sequence (lba + 1) bs) (lba + 1 + i) =
            packSector ctx (lba + 1 + i) sequence b := ih h
      rwa [Nat.add_assoc, Nat.add_comm 1] at hi

theorem applyWrites_dataWrites_of_ge {o : Oram} {lba : ℕ} {bs : List Block} {l : ℕ}
    (h : l < lba ∨ lba + bs.length ≤ l) :
    applyWrites o (dataWrites ctx sequence lba bs) l = o l := by
  apply applyWrites_of_notMem
  rintro w hw
  obtain ⟨i, b, hb, rfl⟩ := mem_dataWrites.mp hw
  have hi : i < bs.length := (List.getElem?_eq_some_iff.mp hb).1
  dsimp only
  omega

theorem taken_dataWrites {lba : ℕ} (h : lba ≤ oramNumLeaves) (bs : List Block) :
    taken (dataWrites ctx sequence lba bs) =
      dataWrites ctx sequence lba (bs.take (oramNumLeaves - lba)) := by
  induction bs generalizing lba with
  | nil => simp [dataWrites, taken]
  | cons b bs ih =>
    unfold taken at ih ⊢
    rcases Nat.lt_or_ge lba oramNumLeaves with hl | hl
    · obtain ⟨k, hk⟩ : ∃ k, oramNumLeaves - lba = k + 1 := ⟨oramNumLeaves - lba - 1, by omega⟩
      have hk' : oramNumLeaves - (lba + 1) = k := by omega
      rw [hk, List.take_succ_cons, dataWrites, dataWrites,
        List.takeWhile_cons_of_pos (by simpa using hl), ih hl, hk']
    · have hz : oramNumLeaves - lba = 0 := by omega
      rw [hz, List.take_zero, dataWrites, dataWrites,
        List.takeWhile_cons_of_neg (by simpa using hl)]

variable {img : SnapshotImage}

theorem all_writes :
    ((img.writes ctx sequence).all fun w => w.1 < oramNumLeaves) =
      decide (img.blocks.length < oramNumLeaves) := by
  apply Bool.eq_iff_iff.mpr
  rw [List.all_eq_true, decide_eq_true_eq]
  constructor
  · intro h
    rcases Nat.eq_zero_or_pos img.blocks.length with hz | hp
    · rw [hz]; decide
    · have hget : img.blocks[img.blocks.length - 1]? = some (img.blocks[img.blocks.length - 1]) :=
        List.getElem?_eq_getElem (by omega)
      have hlast := h _ (List.mem_append_left _
        (mem_dataWrites.mpr ⟨_, _, hget, rfl⟩))
      simp only [decide_eq_true_eq] at hlast
      omega
  · rintro h w hw
    rw [writes, List.mem_append, List.mem_singleton] at hw
    rcases hw with hw | rfl
    · obtain ⟨i, b, hb, rfl⟩ := mem_dataWrites.mp hw
      have hi : i < img.blocks.length := (List.getElem?_eq_some_iff.mp hb).1
      simp only [decide_eq_true_eq]
      omega
    · exact decide_eq_true (by decide : 0 < oramNumLeaves)

theorem taken_writes_of_lt (h : img.blocks.length < oramNumLeaves) :
    taken (img.writes ctx sequence) = img.writes ctx sequence := by
  have hall : ((img.writes ctx sequence).all fun w => w.1 < oramNumLeaves) = true := by
    rw [all_writes, decide_eq_true h]
  rw [List.all_eq_true] at hall
  exact List.takeWhile_eq_self_iff.mpr hall

theorem taken_writes_of_ge (h : oramNumLeaves ≤ img.blocks.length) :
    taken (img.writes ctx sequence) =
      dataWrites ctx sequence 1 (img.blocks.take (oramNumLeaves - 1)) := by
  have hdata : taken (dataWrites ctx sequence 1 img.blocks) =
      dataWrites ctx sequence 1 (img.blocks.take (oramNumLeaves - 1)) :=
    taken_dataWrites (by decide) img.blocks
  rw [← hdata]
  unfold taken at hdata ⊢
  rw [writes, List.takeWhile_append, if_neg]
  rw [hdata, length_dataWrites, length_dataWrites, List.length_take]
  have hn : oramNumLeaves = 64 := rfl
  omega

/-- The store at any point of a save: some of the payload is written, or all of it and the
header. -/
theorem prefix_taken_writes {ws : List (ℕ × Bytes 512)}
    (h : ws <+: taken (img.writes ctx sequence)) :
    (∃ j ≤ img.blocks.length, ws = dataWrites ctx sequence 1 (img.blocks.take j)) ∨
      img.blocks.length < oramNumLeaves ∧ ws = img.writes ctx sequence := by
  rcases Nat.lt_or_ge img.blocks.length oramNumLeaves with hlt | hge
  · rw [taken_writes_of_lt hlt, writes, List.prefix_concat_iff] at h
    rcases h with rfl | h
    · exact Or.inr ⟨hlt, rfl⟩
    · left
      rw [List.prefix_iff_eq_take.mp h, dataWrites_take]
      have hle := h.length_le
      rw [length_dataWrites] at hle
      exact ⟨ws.length, hle, rfl⟩
  · left
    rw [taken_writes_of_ge hge] at h
    rw [List.prefix_iff_eq_take.mp h, dataWrites_take, List.take_take]
    exact ⟨min ws.length (oramNumLeaves - 1), by omega, rfl⟩

theorem dataWrites_prefix_taken {j : ℕ} (h : j < oramNumLeaves) :
    dataWrites ctx sequence 1 (img.blocks.take j) <+: taken (img.writes ctx sequence) := by
  rcases Nat.lt_or_ge img.blocks.length oramNumLeaves with hlt | hge
  · rw [taken_writes_of_lt hlt, writes, ← dataWrites_take]
    exact (List.take_prefix _ _).trans (List.prefix_append _ _)
  · have ht : img.blocks.take j = (img.blocks.take (oramNumLeaves - 1)).take j := by
      rw [List.take_take, Nat.min_eq_left (by omega)]
    rw [taken_writes_of_ge hge, ht, ← dataWrites_take]
    exact List.take_prefix _ _

theorem readImage_applyWrites (hok : img.Ok) (h : img.blocks.length < oramNumLeaves) (o : Oram) :
    readImage ctx (applyWrites o (img.writes ctx sequence)) = some img := by
  have hsplit : applyWrites o (img.writes ctx sequence) =
      Function.update (applyWrites o (dataWrites ctx sequence 1 img.blocks)) 0
        (packSector ctx 0 sequence img.header) := by
    rw [applyWrites, writes, List.foldl_append]
    rfl
  rw [readImage_eq_some, hsplit]
  refine ⟨hok, ?_, h, ?_⟩
  · rw [Function.update_self, openSector_packSector]
  · intro i hi
    rw [Function.update_of_ne (by omega), Nat.add_comm,
      applyWrites_dataWrites (List.getElem?_eq_getElem hi), openSector_packSector]

end SnapshotImage

end

end StyxOS
