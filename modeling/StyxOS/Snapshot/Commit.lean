import StyxOS.Snapshot.Session

/-! # Interrupting a save

A save overwrites the payload of the snapshot before it, block by block, under
the old header, which goes on accepting whatever blocks it finds. Stopped
anywhere, it leaves a store that restores to the old or to the new snapshot
exactly when the two payloads do not differ where they overlap, or differ in
one block only under headers of the same content.
-/

namespace StyxOS

open ByteMem

/-- A restore from the store accepts it and installs the content of the image. -/
def RestoresAs (ctx : AesGcmCtx) (o : Oram) (img : SnapshotImage) : Prop :=
  ∃ img', readImage ctx o = some img' ∧ img'.content = img.content

namespace SnapshotImage

variable {A B : SnapshotImage}

/-- The payloads agree at the addresses that both use. -/
def SharedAgree (A B : SnapshotImage) : Prop :=
  ∀ (i : ℕ) a b, A.blocks[i]? = some a → B.blocks[i]? = some b → a = b

/-- The headers have one content and the payloads one length, and no two blocks differ. -/
def OneDiffers (A B : SnapshotImage) : Prop :=
  A.headerContent = B.headerContent ∧ A.blocks.length = B.blocks.length ∧
    ∃ i : ℕ, ∀ j : ℕ, j ≠ i → A.blocks[j]? = B.blocks[j]?

/-- The image in the store after `n` payload blocks of `B` have been written over `A`. -/
def overwritten (A B : SnapshotImage) (n : ℕ) : SnapshotImage where
  header := A.header
  blocks := A.blocks.mapIdx fun i a => if i < n then B.blocks.getD i a else a

theorem getElem?_overwritten (n i : ℕ) :
    (A.overwritten B n).blocks[i]? =
      A.blocks[i]?.map fun a => if i < n then B.blocks.getD i a else a := by
  simp [overwritten]

@[simp] theorem length_overwritten (n : ℕ) :
    (A.overwritten B n).blocks.length = A.blocks.length := by
  simp [overwritten]

theorem overwritten_headerContent (n : ℕ) :
    (A.overwritten B n).headerContent = A.headerContent := rfl

variable {ctx : AesGcmCtx} {o : Oram}

theorem readImage_overwritten (sequence : UInt64) (hA : readImage ctx o = some A) {n : ℕ}
    (hn : n ≤ B.blocks.length) :
    readImage ctx (applyWrites o (dataWrites ctx sequence 1 (B.blocks.take n))) =
      some (A.overwritten B n) := by
  obtain ⟨hok, hh, hlt, hb⟩ := readImage_eq_some.mp hA
  rw [readImage_eq_some]
  refine ⟨⟨hok.magic, hok.version, ?_⟩, ?_, ?_, ?_⟩
  · rw [length_overwritten]
    exact hok.total
  · rw [applyWrites_dataWrites_of_ge (Or.inl (by decide))]
    exact hh
  · rwa [length_overwritten]
  · intro i hi
    rw [length_overwritten] at hi
    simp only [overwritten, List.getElem_mapIdx]
    by_cases h : i < n
    · have hib : i < B.blocks.length := by omega
      have htake : (B.blocks.take n)[i]? = some B.blocks[i] := by
        rw [List.getElem?_take_of_lt h, List.getElem?_eq_getElem hib]
      rw [if_pos h, List.getD_eq_getElem _ _ hib, Nat.add_comm, applyWrites_dataWrites htake,
        openSector_packSector]
    · rw [if_neg h, applyWrites_dataWrites_of_ge, hb i hi]
      right
      rw [List.length_take]
      omega

theorem overwritten_blocks_eq_left (n : ℕ) :
    (A.overwritten B n).blocks = A.blocks ↔
      ∀ i < n, ∀ a b, A.blocks[i]? = some a → B.blocks[i]? = some b → a = b := by
  rw [List.ext_getElem?_iff]
  constructor
  · intro h i hi a b ha hb
    have hg := h i
    rw [getElem?_overwritten, ha, Option.map_some, if_pos hi, List.getD_eq_getElem?_getD, hb] at hg
    exact (Option.some.inj hg).symm
  · intro h i
    rw [getElem?_overwritten]
    cases ha : A.blocks[i]? with
    | none => rfl
    | some a =>
      rw [Option.map_some]
      by_cases hi : i < n
      · rw [if_pos hi, List.getD_eq_getElem?_getD]
        cases hb : B.blocks[i]? with
        | none => rfl
        | some b => rw [Option.getD_some, h i hi a b ha hb]
      · rw [if_neg hi]

theorem overwritten_blocks_eq_right {n : ℕ} (hn : n ≤ B.blocks.length) :
    (A.overwritten B n).blocks = B.blocks ↔
      A.blocks.length = B.blocks.length ∧ ∀ i, n ≤ i → A.blocks[i]? = B.blocks[i]? := by
  constructor
  · intro h
    have hl : A.blocks.length = B.blocks.length := by
      rw [← h, length_overwritten]
    refine ⟨hl, ?_⟩
    intro i hi
    have hg := congrArg (fun l : List Block => l[i]?) h
    rw [getElem?_overwritten] at hg
    rw [← hg]
    cases A.blocks[i]? with
    | none => rfl
    | some a => rw [Option.map_some, if_neg (by omega)]
  · rintro ⟨hl, h⟩
    apply List.ext_getElem?
    intro i
    rw [getElem?_overwritten]
    by_cases hi : i < n
    · have hA : i < A.blocks.length := by omega
      have hB : i < B.blocks.length := by omega
      rw [List.getElem?_eq_getElem hA, Option.map_some, if_pos hi, List.getD_eq_getElem _ _ hB,
        List.getElem?_eq_getElem hB]
    · rw [← h i (by omega)]
      cases A.blocks[i]? with
      | none => rfl
      | some a => rw [Option.map_some, if_neg hi]

/-- The image found after `n` blocks is the old one or the new one. -/
def AtomicAt (A B : SnapshotImage) (n : ℕ) : Prop :=
  (A.overwritten B n).content = A.content ∨ (A.overwritten B n).content = B.content

theorem content_eq_iff : A.content = B.content ↔
    A.headerContent = B.headerContent ∧ A.blocks = B.blocks := Prod.mk_inj

theorem atomicAt_iff {n : ℕ} (hn : n ≤ B.blocks.length) :
    A.AtomicAt B n ↔
      (∀ i < n, ∀ a b, A.blocks[i]? = some a → B.blocks[i]? = some b → a = b) ∨
        A.headerContent = B.headerContent ∧ A.blocks.length = B.blocks.length ∧
          ∀ i, n ≤ i → A.blocks[i]? = B.blocks[i]? := by
  rw [AtomicAt, content_eq_iff, content_eq_iff, overwritten_headerContent,
    overwritten_blocks_eq_left, overwritten_blocks_eq_right hn]
  simp only [true_and]

/-- Being atomic at every point of the payload. The first block that differs tells the images
after it from the old one, and the next block that differs tells the images before it from the
new one. -/
theorem forall_atomicAt_iff {m : ℕ} (hm : ∀ i, i < A.blocks.length → i < B.blocks.length → i < m)
    (hle : m ≤ B.blocks.length) :
    (∀ n ≤ m, A.AtomicAt B n) ↔ A.SharedAgree B ∨ A.OneDiffers B := by
  constructor
  · intro h
    by_cases hs : A.SharedAgree B
    · exact Or.inl hs
    · right
      simp only [SharedAgree, not_forall] at hs
      obtain ⟨i, a, b, ha, hb, hne⟩ := hs
      have hiA : i < A.blocks.length := (List.getElem?_eq_some_iff.mp ha).1
      have hiB : i < B.blocks.length := (List.getElem?_eq_some_iff.mp hb).1
      have him : i < m := hm i hiA hiB
      rcases (atomicAt_iff (by omega)).mp (h (i + 1) (by omega)) with hl | ⟨hh, hlen, hr⟩
      · exact absurd (hl i (by omega) a b ha hb) hne
      · refine ⟨hh, hlen, i, ?_⟩
        intro j hj
        rcases Nat.lt_or_ge i j with hij | hij
        · exact hr j hij
        · by_contra hd
          have hjA : j < A.blocks.length := by omega
          have hjB : j < B.blocks.length := by omega
          rw [List.getElem?_eq_getElem hjA, List.getElem?_eq_getElem hjB] at hd
          rcases (atomicAt_iff (by omega)).mp (h (j + 1) (by omega)) with hl | ⟨-, -, hr'⟩
          · have he := hl j (by omega) _ _ (List.getElem?_eq_getElem hjA)
              (List.getElem?_eq_getElem hjB)
            exact hd (congrArg some he)
          · have he := hr' i (by omega)
            rw [ha, hb] at he
            exact hne (Option.some.inj he)
  · rintro (hs | ⟨hh, hlen, i, hi⟩) n hn
    · exact (atomicAt_iff (by omega)).mpr (Or.inl fun j _ a b => hs j a b)
    · apply (atomicAt_iff (by omega)).mpr
      rcases Nat.lt_or_ge i n with hin | hin
      · right
        refine ⟨hh, hlen, ?_⟩
        intro j hj
        exact hi j (by omega)
      · left
        intro j hj a b ha hb
        have he := hi j (by omega)
        rw [ha, hb] at he
        exact Option.some.inj he

end SnapshotImage

section
variable {sA sB : RamSession} {cpuA cpuB : CpuidFeatures}

/-- The stores that a save goes through restore to the old or the new snapshot, as the points of
the payload are atomic. -/
theorem restoresAs_iff_atomicAt (h : (snapshotSave true cpuA sA).1 = 0)
    (horam : sB.oram = (snapshotSave true cpuA sA).2.oram)
    (hkey : sB.snapshotKey = sA.snapshotKey) {n : ℕ} (hn : n ≤ (sB.image cpuB).blocks.length) :
    (RestoresAs sB.gcmCtx (applyWrites sB.oram (SnapshotImage.dataWrites sB.gcmCtx sB.sequence 1
        ((sB.image cpuB).blocks.take n))) (sA.image cpuA) ∨
      RestoresAs sB.gcmCtx (applyWrites sB.oram (SnapshotImage.dataWrites sB.gcmCtx sB.sequence 1
        ((sB.image cpuB).blocks.take n))) (sB.image cpuB)) ↔
      (sA.image cpuA).AtomicAt (sB.image cpuB) n := by
  have hctx : sB.gcmCtx = sA.gcmCtx := by rw [RamSession.gcmCtx, hkey, RamSession.gcmCtx]
  have hA : readImage sB.gcmCtx sB.oram = some (sA.image cpuA) := by
    rw [hctx, horam]
    exact readImage_snapshotSave h
  have hread := SnapshotImage.readImage_overwritten sB.sequence hA hn
  unfold RestoresAs SnapshotImage.AtomicAt
  rw [hread]
  simp only [Option.some.injEq, exists_eq_left']

theorem SnapshotImage.restores_iff (h : (snapshotSave true cpuA sA).1 = 0)
    (horam : sB.oram = (snapshotSave true cpuA sA).2.oram)
    (hkey : sB.snapshotKey = sA.snapshotKey) :
    (∀ ws, ws <+: sB.saveWrites cpuB →
        RestoresAs sB.gcmCtx (applyWrites sB.oram ws) (sA.image cpuA) ∨
          RestoresAs sB.gcmCtx (applyWrites sB.oram ws) (sB.image cpuB)) ↔
      (sA.image cpuA).SharedAgree (sB.image cpuB) ∨ (sA.image cpuA).OneDiffers (sB.image cpuB) := by
  have hlt : (sA.image cpuA).blocks.length < oramNumLeaves := by
    rw [RamSession.length_blocks]
    exact (snapshotSave_eq_zero.mp h).2
  constructor
  · intro hall
    apply (forall_atomicAt_iff (m := min (sB.image cpuB).blocks.length (oramNumLeaves - 1))
      (by omega) (by omega)).mp
    intro n hn
    apply (restoresAs_iff_atomicAt h horam hkey (by omega)).mp
    exact hall _ (dataWrites_prefix_taken (by omega))
  · intro hcond ws hws
    rcases prefix_taken_writes hws with ⟨n, hn, rfl⟩ | ⟨hltB, rfl⟩
    · apply (restoresAs_iff_atomicAt h horam hkey hn).mpr
      exact (forall_atomicAt_iff (by omega) le_rfl).mpr hcond n hn
    · right
      rw [RamSession.length_blocks] at hltB
      refine ⟨sB.image cpuB, ?_, rfl⟩
      apply readImage_applyWrites (RamSession.image_ok hltB)
      rwa [RamSession.length_blocks]

/-- A save over a complete snapshot under the same key can be interrupted anywhere, and leaves the
old or the new snapshot, exactly when their payloads agree where they overlap, or differ in no more
than one block under headers of one content. -/
theorem snapshot_commit_iff (h : (snapshotSave true cpuA sA).1 = 0)
    (horam : sB.oram = (snapshotSave true cpuA sA).2.oram)
    (hkey : sB.snapshotKey = sA.snapshotKey) :
    (∀ ws, ws <+: sB.saveWrites cpuB →
        RestoresAs sB.gcmCtx (applyWrites sB.oram ws) (sA.image cpuA) ∨
          RestoresAs sB.gcmCtx (applyWrites sB.oram ws) (sB.image cpuB)) ↔
      (sA.image cpuA).SharedAgree (sB.image cpuB) ∨ (sA.image cpuA).OneDiffers (sB.image cpuB) :=
  SnapshotImage.restores_iff h horam hkey

end

/-! ## A task that runs on between two saves -/

/-- A session of one task with the given ticks and generation of the first endpoint. -/
def oneTask (ticks : UInt32) (generation : UInt8) (sequence : UInt64) (oram : Oram) :
    RamSession where
  taskTable := fun _ => ⟨1, .ready, 0, 0, 0, ⟨0, 0, 0, 0, 0, 0, 0, 0⟩, ticks⟩
  runQueue := [0]
  capTables := fun _ => Bytes.zero 1536
  epPool := Bytes.ofList 512 [generation]
  epPoolUsed := Bytes.zero 16
  phys := fun _ => 0
  pageTables := ⟨fun _ _ => 0, 2 ^ 48⟩
  snapshotKey := List.replicate 32 0
  sequence := sequence
  oram := oram

theorem oneTask_totalSectors (ticks : UInt32) (generation : UInt8) (sequence : UInt64)
    (oram : Oram) : (oneTask ticks generation sequence oram).totalSectors = 4 := by
  have ht : (oneTask ticks generation sequence oram).taskRecords.length = 1 := by
    simp [RamSession.taskRecords, RamSession.savedTasks, oneTask]
  have hp : (oneTask ticks generation sequence oram).pageRecords.length = 0 := by
    simp [RamSession.pageRecords, RamSession.savedTasks, RamSession.taskPages, oneTask]
  rw [RamSession.totalSectors, RamSession.length_payload, ht, hp]

/-- The session saved first, and the store it leaves. -/
def firstSession : RamSession := oneTask 1 0 1 fun _ => Bytes.zero 512

def firstOram : Oram := (snapshotSave true someCpu firstSession).2.oram

/-- The session saved next. -/
def nextSession (generation : UInt8) : RamSession := oneTask 2 generation 2 firstOram

theorem firstSession_saved : (snapshotSave true someCpu firstSession).1 = 0 := by
  rw [snapshotSave_eq_zero, firstSession, oneTask_totalSectors]
  decide

theorem nextSession_oram (generation : UInt8) :
    (nextSession generation).oram = (snapshotSave true someCpu firstSession).2.oram := by
  simp only [nextSession, oneTask, firstOram]

theorem nextSession_key (generation : UInt8) :
    (nextSession generation).snapshotKey = firstSession.snapshotKey := by
  simp only [nextSession, firstSession, oneTask]

theorem snapshot_commit_iff_sample :
    (snapshotSave true someCpu firstSession).1 = 0 ∧
      ∀ ws, ws <+: (nextSession 0).saveWrites someCpu →
        RestoresAs (nextSession 0).gcmCtx (applyWrites (nextSession 0).oram ws)
            (firstSession.image someCpu) ∨
          RestoresAs (nextSession 0).gcmCtx (applyWrites (nextSession 0).oram ws)
            ((nextSession 0).image someCpu) := by
  refine ⟨firstSession_saved, ?_⟩
  apply (snapshot_commit_iff firstSession_saved (nextSession_oram 0) (nextSession_key 0)).mpr
  right
  refine ⟨?_, ?_, 0, ?_⟩
  · decide +kernel
  · rw [RamSession.length_blocks, RamSession.length_blocks, firstSession, nextSession,
      oneTask_totalSectors, oneTask_totalSectors]
  · intro j hj
    have htail : (firstSession.image someCpu).blocks.tail =
        ((nextSession 0).image someCpu).blocks.tail := by decide +kernel
    obtain ⟨k, rfl⟩ := Nat.exists_eq_succ_of_ne_zero hj
    rw [← List.getElem?_tail, htail, List.getElem?_tail]

/-- Interrupted after its first write, the save of a session in which the task ran on and the
endpoint pool changed leaves neither snapshot: the header is the old one, the task the new one. -/
theorem snapshot_commit_not_atomic :
    ¬ ∀ ws, ws <+: (nextSession 1).saveWrites someCpu →
      RestoresAs (nextSession 1).gcmCtx (applyWrites (nextSession 1).oram ws)
          (firstSession.image someCpu) ∨
        RestoresAs (nextSession 1).gcmCtx (applyWrites (nextSession 1).oram ws)
          ((nextSession 1).image someCpu) := by
  rw [SnapshotImage.restores_iff firstSession_saved (nextSession_oram 1) (nextSession_key 1)]
  have hfirst : (firstSession.image someCpu).blocks[0]? ≠
      ((nextSession 1).image someCpu).blocks[0]? := by decide +kernel
  have hheader : (firstSession.image someCpu).headerContent ≠
      ((nextSession 1).image someCpu).headerContent := by decide +kernel
  rintro (hs | ho)
  · have hA : 0 < (firstSession.image someCpu).blocks.length := by
      rw [RamSession.length_blocks, firstSession, oneTask_totalSectors]
      decide
    have hB : 0 < ((nextSession 1).image someCpu).blocks.length := by
      rw [RamSession.length_blocks, nextSession, oneTask_totalSectors]
      decide
    apply hfirst
    rw [List.getElem?_eq_getElem hA, List.getElem?_eq_getElem hB]
    exact congrArg some (hs 0 _ _ (List.getElem?_eq_getElem hA) (List.getElem?_eq_getElem hB))
  · exact hheader ho.1

end StyxOS
