import StyxOS.Library.Run
import StyxOS.Snapshot.Commit

/-! # The IVs of the snapshots

The IV of a block is its address and the sequence number, which starts from one
at every boot and moves on only when a save has succeeded. Runs of saves, each
stopped at any access, and of boots under one key are followed by the calls of
`aes_gcm_encrypt` that they make.
-/

namespace StyxOS

open ByteMem StepSystem

/-! ## Keys and values -/

section

variable {α β γ : Type*} {l l' : List (α × β)}

def SingleValued (l : List (α × β)) : Prop := ∀ x ∈ l, ∀ y ∈ l, x.1 = y.1 → x.2 = y.2

instance [DecidableEq α] [DecidableEq β] (l : List (α × β)) : Decidable (SingleValued l) :=
  inferInstanceAs (Decidable (∀ x ∈ l, ∀ y ∈ l, x.1 = y.1 → x.2 = y.2))

theorem singleValued_append : SingleValued (l ++ l') ↔
    SingleValued l ∧ SingleValued l' ∧ ∀ x ∈ l, ∀ y ∈ l', x.1 = y.1 → x.2 = y.2 := by
  constructor
  · intro h
    refine ⟨fun x hx y hy => ?_, fun x hx y hy => ?_, fun x hx y hy => ?_⟩
    · exact h x (List.mem_append_left _ hx) y (List.mem_append_left _ hy)
    · exact h x (List.mem_append_right _ hx) y (List.mem_append_right _ hy)
    · exact h x (List.mem_append_left _ hx) y (List.mem_append_right _ hy)
  · rintro ⟨hl, hl', hcross⟩ x hx y hy heq
    rcases List.mem_append.mp hx with hx | hx <;> rcases List.mem_append.mp hy with hy | hy
    · exact hl x hx y hy heq
    · exact hcross x hx y hy heq
    · exact (hcross y hy x hx heq.symm).symm
    · exact hl' x hx y hy heq

theorem singleValued_of_nodup (h : (l.map Prod.fst).Nodup) : SingleValued l := by
  intro x hx y hy heq
  rw [List.inj_on_of_nodup_map h hx hy heq]

end

/-! ## A save -/

namespace SnapshotImage

variable (img : SnapshotImage)

/-- The addresses and blocks of a save, in the order in which they are encrypted. -/
def plan : List (ℕ × Block) := (img.blocks.zipIdx 1).map Prod.swap ++ [(0, img.header)]

theorem dataWrites_eq (ctx : AesGcmCtx) (sequence : UInt64) (lba : ℕ) (bs : List Block) :
    dataWrites ctx sequence lba bs =
      (bs.zipIdx lba).map fun x => (x.2, packSector ctx x.2 sequence x.1) := by
  induction bs generalizing lba with
  | nil => rfl
  | cons b bs ih => rw [dataWrites, ih, List.zipIdx_cons, List.map_cons]

theorem writes_eq_map_plan (ctx : AesGcmCtx) (sequence : UInt64) :
    img.writes ctx sequence = img.plan.map fun x => (x.1, packSector ctx x.1 sequence x.2) := by
  rw [writes, plan, dataWrites_eq, List.map_append, List.map_map]
  rfl

theorem nodup_plan : (img.plan.map Prod.fst).Nodup := by
  have hdata : ((img.blocks.zipIdx 1).map Prod.swap).map Prod.fst =
      List.range' 1 img.blocks.length := by
    rw [List.map_map]
    exact List.zipIdx_map_snd 1 img.blocks
  rw [plan, List.map_append, hdata]
  refine List.nodup_append'.mpr ⟨List.nodup_range', List.nodup_singleton _, fun x hx hx' => ?_⟩
  have hzero : x = 0 := List.mem_singleton.mp hx'
  have hpos := (List.mem_range'_1.mp hx).1
  omega

end SnapshotImage

/-- The loop of `snapshot_save` where the access `k` fails if the store has no such address or
`fate` says so: whether all succeed, and the blocks that are encrypted. -/
def encryptAll (fate : ℕ → Bool) : ℕ → List (ℕ × Block) → Bool × List (ℕ × Block)
  | _, [] => (true, [])
  | k, x :: xs =>
    if x.1 < oramNumLeaves ∧ fate k then
      let (written, blocks) := encryptAll fate (k + 1) xs
      (written, x :: blocks)
    else (false, [x])

/-- The blocks that a save comes to: all up to the first one whose access fails or whose address is
outside the store, and none without a buffer. -/
def reached (fate : ℕ → Bool) (allocated : Bool) (xs : List (ℕ × Block)) : List (ℕ × Block) :=
  if allocated then
    xs.take ((xs.zipIdx.takeWhile fun x => x.1.1 < oramNumLeaves && fate x.2).length + 1)
  else []

/-- `snapshot_save` over accesses that may fail: the code, the sequence number afterwards, and the
blocks that are encrypted under the number before. -/
def sealSession (fate : ℕ → Bool) (allocated : Bool) (cpuid : CpuidFeatures) (s : RamSession) :
    ℤ × UInt64 × List (ℕ × Block) :=
  if !allocated then (-1, s.sequence, [])
  else
    let (written, blocks) := encryptAll fate 0 (s.image cpuid).plan
    if written then (0, s.sequence + 1, blocks) else (-1, s.sequence, blocks)

section

variable {fate : ℕ → Bool} {k : ℕ} {xs : List (ℕ × Block)} {s : RamSession} {cpuid : CpuidFeatures}
  {allocated : Bool}

theorem encryptAll_blocks (fate : ℕ → Bool) (k : ℕ) (xs : List (ℕ × Block)) :
    (encryptAll fate k xs).2 =
      xs.take
        (((xs.zipIdx k).takeWhile fun x => x.1.1 < oramNumLeaves && fate x.2).length + 1) := by
  induction xs generalizing k with
  | nil => rfl
  | cons x xs ih =>
    rw [encryptAll, List.zipIdx_cons, List.takeWhile_cons]
    by_cases hok : x.1 < oramNumLeaves ∧ fate k = true
    · have hb : (decide (x.1 < oramNumLeaves) && fate k) = true := by simpa using hok
      rw [if_pos hok, if_pos hb, List.length_cons, List.take_succ_cons]
      dsimp only
      rw [ih]
    · have hb : ¬(decide (x.1 < oramNumLeaves) && fate k) = true := by simpa using hok
      rw [if_neg hok, if_neg hb, List.length_nil, List.take_succ_cons, List.take_zero]

theorem prefix_encryptAll (fate : ℕ → Bool) (k : ℕ) (xs : List (ℕ × Block)) :
    (encryptAll fate k xs).2 <+: xs := by
  rw [encryptAll_blocks]
  exact List.take_prefix _ _

theorem lba_le_of_mem_encryptAll {lba : ℕ} {bs : List Block} {h : Block} {x : ℕ × Block}
    (hlba : lba ≤ oramNumLeaves)
    (hx : x ∈ (encryptAll fate k ((bs.zipIdx lba).map Prod.swap ++ [(0, h)])).2) :
    x.1 ≤ oramNumLeaves := by
  induction bs generalizing lba k with
  | nil =>
    obtain rfl := List.mem_singleton.mp ((prefix_encryptAll _ _ _).subset hx)
    exact Nat.zero_le _
  | cons b bs ih =>
    rw [List.zipIdx_cons, List.map_cons, List.cons_append, encryptAll] at hx
    split at hx
    · rename_i hok
      rcases List.mem_cons.mp hx with rfl | hx
      · exact hlba
      · exact ih hok.1 hx
    · obtain rfl := List.mem_singleton.mp hx
      exact hlba

theorem encryptAll_true (o : Oram) (ctx : AesGcmCtx) (sequence : UInt64) (k : ℕ)
    (xs : List (ℕ × Block)) : (encryptAll (fun _ => true) k xs).1 =
      (oramWrites o (xs.map fun x => (x.1, packSector ctx x.1 sequence x.2))).1 := by
  induction xs generalizing o k with
  | nil => rfl
  | cons x xs ih =>
    rw [List.map_cons, oramWrites, encryptAll]
    by_cases hlt : x.1 < oramNumLeaves
    · rw [if_pos hlt, if_pos ⟨hlt, rfl⟩]
      exact ih _ _
    · rw [if_neg hlt, if_neg fun hc => hlt hc.1]

theorem sealSession_true :
    (sealSession (fun _ => true) allocated cpuid s).1 = (snapshotSave allocated cpuid s).1 ∧
      (sealSession (fun _ => true) allocated cpuid s).2.1 =
        (snapshotSave allocated cpuid s).2.sequence := by
  rw [sealSession, snapshotSave, SnapshotImage.writes_eq_map_plan]
  have hwritten := encryptAll_true s.oram s.gcmCtx s.sequence 0 (s.image cpuid).plan
  cases allocated with
  | false => exact ⟨rfl, rfl⟩
  | true =>
    dsimp only
    rw [hwritten]
    cases (oramWrites s.oram ((s.image cpuid).plan.map fun x =>
      (x.1, packSector s.gcmCtx x.1 s.sequence x.2))).1 <;> exact ⟨rfl, rfl⟩

theorem sealSession_sequence (fate : ℕ → Bool) (allocated : Bool) (cpuid : CpuidFeatures)
    (s : RamSession) : (sealSession fate allocated cpuid s).2.1 =
      if (sealSession fate allocated cpuid s).1 = 0 then s.sequence + 1 else s.sequence := by
  unfold sealSession
  generalize encryptAll fate 0 (s.image cpuid).plan = r
  obtain ⟨written, blocks⟩ := r
  cases allocated <;> cases written <;> rfl

theorem sealSession_reached (fate : ℕ → Bool) (allocated : Bool) (cpuid : CpuidFeatures)
    (s : RamSession) : (sealSession fate allocated cpuid s).2.2 =
      reached fate allocated (s.image cpuid).plan := by
  have hblocks := encryptAll_blocks fate 0 (s.image cpuid).plan
  unfold sealSession reached
  generalize encryptAll fate 0 (s.image cpuid).plan = r at hblocks ⊢
  obtain ⟨written, blocks⟩ := r
  cases allocated with
  | false => rfl
  | true => cases written <;> exact hblocks

theorem reached_blocks (fate : ℕ → Bool) (allocated : Bool) (img : SnapshotImage) :
    SingleValued (reached fate allocated img.plan) ∧
      ∀ x ∈ reached fate allocated img.plan, x.1 < 2 ^ 32 := by
  cases allocated with
  | false => exact ⟨fun x hx => absurd hx List.not_mem_nil, fun x hx => absurd hx List.not_mem_nil⟩
  | true =>
    have hblocks : reached fate true img.plan = (encryptAll fate 0 img.plan).2 :=
      (encryptAll_blocks fate 0 img.plan).symm
    rw [hblocks]
    constructor
    · have hprefix := (prefix_encryptAll fate 0 img.plan).sublist.map Prod.fst
      exact singleValued_of_nodup (img.nodup_plan.sublist hprefix)
    · intro x hx
      have hle := lba_le_of_mem_encryptAll (by decide) hx
      have hn : oramNumLeaves < 2 ^ 32 := by decide
      omega

end

/-! ## Runs -/

/-- The session with the calls of `aes_gcm_encrypt` that were made under its key, how many saves
have succeeded since the boot, and of each save how many had succeeded before it and the blocks that
it encrypted. -/
structure SealRun where
  session : RamSession
  calls : List (List UInt8 × Block)
  done : ℕ
  saves : List (ℕ × List (ℕ × Block))

/-- A save of whatever the tasks and pages are by then, with the outcomes of its accesses, or a boot
that installs the key again. -/
inductive SealStep
  | save (content : RamSession) (fate : ℕ → Bool) (allocated : Bool) (cpuid : CpuidFeatures)
  | boot (content : RamSession)

/-- The calls of `aes_gcm_encrypt` for the blocks. -/
def sealCalls (sequence : UInt64) (blocks : List (ℕ × Block)) : List (List UInt8 × Block) :=
  blocks.map fun x => (blockIv x.1 sequence, x.2)

namespace SealRun

/-- The first boot. -/
def start (session : RamSession) : SealRun where
  session := { session with sequence := 1 }
  calls := []
  done := 0
  saves := []

/-- The session that a save finds: other contents, under the key and the number there are. -/
def before (s : SealRun) (content : RamSession) : RamSession :=
  { content with snapshotKey := s.session.snapshotKey, sequence := s.session.sequence }

def step (s : SealRun) : SealStep → SealRun
  | .save content fate allocated cpuid =>
    let (rc, sequence, blocks) := sealSession fate allocated cpuid (s.before content)
    { session := { s.before content with sequence }
      calls := s.calls ++ sealCalls s.session.sequence blocks
      done := if rc = 0 then s.done + 1 else s.done
      saves := (s.done, blocks) :: s.saves }
  | .boot content =>
    { s with session := { s.before content with sequence := 1 }, done := 0 }

/-- No IV is used for two plaintexts up to the end of the step. -/
def IvsUnique (s : SealRun) (i : SealStep) : Prop := SingleValued (s.step i).calls

instance (s : SealRun) (i : SealStep) : Decidable (s.IvsUnique i) :=
  inferInstanceAs (Decidable (SingleValued (s.step i).calls))

/-- A save has the same blocks as the saves that came, in their boots, after as many that had
succeeded, at the addresses that both reach. -/
def Agrees (s : SealRun) : SealStep → Prop
  | .save content fate allocated cpuid => ∀ y ∈ s.saves, y.1 % 2 ^ 64 = s.done % 2 ^ 64 →
      ∀ x ∈ reached fate allocated ((s.before content).image cpuid).plan, ∀ x' ∈ y.2,
        x'.1 = x.1 → x'.2 = x.2
  | .boot _ => True

/-- The invariant of the runs in which saves agree. -/
structure Ok (s : SealRun) : Prop where
  sequence : s.session.sequence = UInt64.ofNat (s.done + 1)
  calls : ∀ c, c ∈ s.calls ↔ ∃ y ∈ s.saves, c ∈ sealCalls (UInt64.ofNat (y.1 + 1)) y.2
  small : ∀ y ∈ s.saves, ∀ x ∈ y.2, x.1 < 2 ^ 32
  unique : SingleValued s.calls

variable {s : SealRun} {i : SealStep}

theorem start_ok (session : RamSession) : (start session).Ok where
  sequence := rfl
  calls c := by simp [start]
  small y hy := absurd hy List.not_mem_nil
  unique x hx := absurd hx List.not_mem_nil

theorem ofNat_succ_eq_iff {m n : ℕ} :
    UInt64.ofNat (m + 1) = UInt64.ofNat (n + 1) ↔ m % 2 ^ 64 = n % 2 ^ 64 := by
  rw [← UInt64.toNat_inj, UInt64.toNat_ofNat', UInt64.toNat_ofNat']
  omega

theorem singleValued_sealCalls {sequence : UInt64} {blocks : List (ℕ × Block)}
    (hblocks : SingleValued blocks) (hsmall : ∀ x ∈ blocks, x.1 < 2 ^ 32) :
    SingleValued (sealCalls sequence blocks) := by
  intro c hc c' hc' heq
  obtain ⟨x, hx, rfl⟩ := List.mem_map.mp hc
  obtain ⟨x', hx', rfl⟩ := List.mem_map.mp hc'
  exact hblocks x hx x' hx' (blockIv_inj (hsmall x hx) (hsmall x' hx') heq).1

theorem Ok.ivsUnique_iff (h : s.Ok) (i : SealStep) : s.IvsUnique i ↔ s.Agrees i := by
  cases i with
  | boot content => exact iff_of_true h.unique trivial
  | save content fate allocated cpuid =>
    obtain ⟨hblocks, hsmall⟩ := reached_blocks fate allocated ((s.before content).image cpuid)
    rw [IvsUnique, step]
    dsimp only
    rw [sealSession_reached]
    rw [singleValued_append, and_iff_right h.unique,
      and_iff_right (singleValued_sealCalls hblocks hsmall)]
    constructor
    · intro hcross y hy hsame x hx x' hx' hlba
      have hseq := (ofNat_succ_eq_iff.mpr hsame).trans h.sequence.symm
      have hold := (h.calls _).mpr ⟨y, hy, List.mem_map_of_mem hx'⟩
      refine hcross _ hold _ (List.mem_map_of_mem hx) ?_
      rw [hseq, hlba]
    · intro hagrees c hc c' hc' heq
      obtain ⟨y, hy, hcy⟩ := (h.calls c).mp hc
      obtain ⟨x', hx', rfl⟩ := List.mem_map.mp hcy
      obtain ⟨x, hx, rfl⟩ := List.mem_map.mp hc'
      obtain ⟨hlba, hseq⟩ := blockIv_inj (h.small y hy x' hx') (hsmall x hx) heq
      exact hagrees y hy (ofNat_succ_eq_iff.mp (hseq.trans h.sequence)) x hx x' hx' hlba

theorem Ok.step (h : s.Ok) (i : SealStep) (hi : s.Agrees i) : (s.step i).Ok := by
  have hunique := (h.ivsUnique_iff i).mpr hi
  cases i with
  | boot content => exact ⟨rfl, h.calls, h.small, hunique⟩
  | save content fate allocated cpuid =>
    have hsmall := (reached_blocks fate allocated ((s.before content).image cpuid)).2
    rw [← sealSession_reached] at hsmall
    refine ⟨?_, ?_, List.forall_mem_cons.mpr ⟨hsmall, h.small⟩, hunique⟩
    · rw [SealRun.step]
      dsimp only
      rw [sealSession_sequence]
      have hnext : s.session.sequence + 1 = UInt64.ofNat (s.done + 1 + 1) := by
        rw [h.sequence, UInt64.ofNat_add (s.done + 1) 1]
        rfl
      split
      · exact hnext
      · exact h.sequence
    · intro c
      rw [SealRun.step]
      dsimp only
      rw [List.mem_append, List.exists_mem_cons_iff, h.calls, ← h.sequence, or_comm]

end SealRun

/-- In a run of saves and boots under one key, no IV is ever used for two plaintexts exactly when
the saves that came after equally many in their boots have the same blocks at the addresses that
they reach. -/
theorem iv_reuse_iff (session : RamSession) (steps : List SealStep) :
    AllSteps SealRun.step SealRun.IvsUnique (SealRun.start session) steps ↔
      AllSteps SealRun.step SealRun.Agrees (SealRun.start session) steps :=
  allSteps_congr SealRun.step (fun _ i h => h.ivsUnique_iff i) (fun _ i h hi => h.step i hi)
    (SealRun.start_ok session) steps

/-- The number does not move on when a save fails, and starts again at a boot: either way the block
at address one is encrypted again under its IV after the task has run on. -/
theorem iv_reused :
    let early := oneTask 1 0 1 fun _ => Bytes.zero 512
    let late := oneTask 2 0 1 fun _ => Bytes.zero 512
    ¬AllSteps SealRun.step SealRun.IvsUnique (SealRun.start early)
      [.save early (fun k => k ≠ 1) true someCpu, .save late (fun _ => true) true someCpu] ∧
    ¬AllSteps SealRun.step SealRun.IvsUnique (SealRun.start early)
      [.save early (fun _ => true) true someCpu, .boot late,
        .save late (fun _ => true) true someCpu] := by
  intro early late
  constructor
  · rintro ⟨-, hunique, -⟩
    exact absurd hunique (by decide +kernel)
  · rintro ⟨-, -, hunique, -⟩
    exact absurd hunique (by decide +kernel)

end StyxOS
