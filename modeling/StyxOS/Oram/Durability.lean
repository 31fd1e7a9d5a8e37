import StyxOS.Oram.BlockStore

/-! # Durability of PathORAM

A run of calls and power cycles over a disk whose transfers may fail. The codes
of the transfers are not looked at, and a power cycle keeps the sectors but not
the stash. While every transfer moves its bytes to its sector, what a read gives
is known: the data whose write reported success, or zeros where a power cycle
found the block in the stash.
-/

namespace StyxOS

open ByteMem StepSystem

/-! ## The position map at start -/

section

variable {δ : Type} [SectorDevice δ] {F : FaithfulDevice δ} {m : PathOram δ} {d : δ}
  {V : ℕ → Bytes 512}

theorem holds_oramInit (hd : F.Holds m.dev V) (hcount : sectorCount m.dev ≠ 0)
    (hmagic : V oramMetaLba = metaSector) (random : ℕ → ℕ) (metaBuf posmapBuf : Bytes 512) :
    ∃ dev, oramInit random metaBuf posmapBuf m =
        { dev := dev
          posMap := fun i => leVal (((V oramPosmapLba).1.drop (4 * i)).take 4)
          stash := []
          stray := m.stray } ∧
      F.Holds dev V := by
  obtain ⟨hready, rfl⟩ := hd
  obtain ⟨hoff, hview⟩ := F.off hready
  obtain ⟨hbuf, hread, hview'⟩ := F.read metaBuf hoff (show oramMetaLba < 2 ^ 32 by decide)
  obtain ⟨hback, hview''⟩ := F.back hready hread
  have hd' : F.Holds (setEncryption (encryption m.dev)
      (readSector (setEncryption false m.dev) oramMetaLba metaBuf).2.2) (F.view m.dev) :=
    ⟨hback, hview''.trans (hview'.trans hview)⟩
  obtain ⟨hload, hd''⟩ := hd'.posmapLoad posmapBuf
  have hfound : leVal ((readSector (setEncryption false m.dev) oramMetaLba metaBuf).2.1.1.take 4) =
      oramMagic := by
    rw [hbuf, hview, hmagic]
    decide +kernel
  refine ⟨_, ?_, hd''⟩
  simp only [oramInit, if_neg hcount, hfound, ne_eq, not_true_eq_false, if_false, hload]

end

/-! ## A power cycle -/

section

variable {V : ℕ → Bytes 512} {posMap posMap' : ℕ → ℕ} {stash : List OramBlock}
  {flat : ℕ → Bytes 512} {tails : ℕ → Bytes 4} {lba : ℕ}

theorem OramInvariant.reload (h : OramInvariant V posMap stash)
    (hpos : ∀ lba < oramNumLeaves, posMap' lba = posMap lba) : OramInvariant V posMap' [] := by
  refine ⟨(List.nodup_append'.mp h.unique).2.1, ?_, ?_, h.tree,
    fun b hb => absurd hb List.not_mem_nil⟩
  · intro n hn lba hlba
    rw [hpos lba (h.tree n hn lba hlba)]
    exact h.onPath n hn lba hlba
  · intro lba hlba
    rw [hpos lba hlba]
    exact h.pos lba hlba

theorem OramInvariant.not_inStash (h : OramInvariant V posMap stash) {n : ℕ}
    (hn : n < oramNumNodes) (hlba : lba ∈ treeLbas V n) : lba ∉ stash.map OramBlock.lba := by
  intro hc
  refine (List.nodup_append'.mp h.unique).2.2 hc ?_
  exact List.mem_flatMap.mpr ⟨n, List.mem_range.mpr hn, hlba⟩

def stashHas (stash : List OramBlock) (lba : ℕ) : Bool := stash.any fun b => b.lba = lba

theorem stashHas_iff : stashHas stash lba = true ↔ lba ∈ stash.map OramBlock.lba := by
  simp only [stashHas, List.any_eq_true, decide_eq_true_eq, List.mem_map]

theorem Holding.reload (h : Holding V stash flat tails) (hinv : OramInvariant V posMap stash) :
    Holding V [] (fun lba => if stashHas stash lba then Bytes.zero 512 else flat lba)
      (fun lba => if stashHas stash lba then Bytes.zero 4 else tails lba) := by
  refine ⟨fun b hb => absurd hb List.not_mem_nil, ?_, ?_⟩
  · intro n hn j hj hne
    have hout : ¬stashHas stash (slotLba V n j) = true := by
      rw [stashHas_iff]
      exact hinv.not_inStash hn (mem_treeLbas.mpr ⟨hne, j, hj, rfl⟩)
    rw [if_neg hout]
    exact h.inTree n hn j hj hne
  · intro lba hlba _ htree
    by_cases hin : stashHas stash lba = true
    · rw [if_pos hin, if_pos hin]
      exact ⟨rfl, rfl⟩
    · rw [if_neg hin, if_neg hin]
      rw [stashHas_iff] at hin
      exact h.absent lba hlba hin htree

end

/-! ## Runs -/

/-- A store with the data of the last write to each address that reported success, the bytes of the
last fetches, and the addresses of the blocks that a power cycle has found in the stash since. -/
structure DurableRun where
  oram : PathOram FlakyDisk
  acked : ℕ → Option (Bytes 512)
  tails : ℕ → Bytes 4
  lost : ℕ → Bool

/-- A call or a power cycle, with the outcomes of its transfers. -/
inductive DurableStep
  | access (transfers : List Transfer) (c : OramCall)
  | powerCycle (transfers : List Transfer) (random : ℕ → ℕ) (metaBuf posmapBuf : Bytes 512)

/-- The bytes are moved by all transfers of the step. -/
def DurableStep.Moves : DurableStep → Prop
  | .access ts _ => ∀ t ∈ ts, t.Moves
  | .powerCycle ts _ _ _ => ∀ t ∈ ts, t.Moves

/-- The store before a step that makes the transfers. -/
def PathOram.withTransfers (m : PathOram FlakyDisk) (ts : List Transfer) : PathOram FlakyDisk :=
  { m with dev := { m.dev with transfers := ts } }

/-- The memory is cleared, the sectors are kept, and `oram_init` runs. -/
def PathOram.powerCycle (m : PathOram FlakyDisk) (random : ℕ → ℕ) (metaBuf posmapBuf : Bytes 512) :
    PathOram FlakyDisk :=
  oramInit random metaBuf posmapBuf { m with posMap := fun _ => 0, stash := [] }

namespace DurableRun

/-- A formatted store, to which nothing was written. -/
def start (random : ℕ → ℕ) (m : PathOram FlakyDisk) : DurableRun where
  oram := oramFormat random m
  acked := fun _ => none
  tails := fun _ => Bytes.zero 4
  lost := fun _ => false

def afterCall (s : DurableRun) (c : OramCall) (rc : ℤ) (m : PathOram FlakyDisk) : DurableRun where
  oram := m
  acked := if rc = 0 ∧ c.write then Function.update s.acked c.lba (some c.data) else s.acked
  tails :=
    if rc = 0 then
      tailsAfter c.env s.oram.dev.sectors s.oram.posMap s.tails c.lba c.write c.data
    else s.tails
  lost := if rc = 0 ∧ c.write then Function.update s.lost c.lba false else s.lost

def step (s : DurableRun) : DurableStep → DurableRun
  | .access ts c =>
    match c.apply (s.oram.withTransfers ts) with
    | some (rc, _, m) => s.afterCall c rc m
    | none => s
  | .powerCycle ts random metaBuf posmapBuf =>
    { s with
      oram := (s.oram.withTransfers ts).powerCycle random metaBuf posmapBuf
      tails := fun lba => if stashHas s.oram.stash lba then Bytes.zero 4 else s.tails lba
      lost := fun lba => stashHas s.oram.stash lba || s.lost lba }

/-- A read that reports success gives the data of the last write that reported success. -/
def ReadsAcked (s : DurableRun) : DurableStep → Prop
  | .access ts c => ∀ data out m, c.write = false → s.acked c.lba = some data →
      c.apply (s.oram.withTransfers ts) = some (0, out, m) → out = data
  | .powerCycle .. => True

/-- The block that is read was not in the stash at a power cycle since it was written, unless it
starts with zeros, and at its last fetch the stack had its last four bytes. -/
def Retained (s : DurableRun) : DurableStep → Prop
  | .access _ c => ∀ data, c.lba < oramNumLeaves → c.write = false → s.acked c.lba = some data →
      (s.lost c.lba = true → data.1.take 508 = List.replicate 508 0) ∧
        fetchTails c.env s.oram.dev.sectors (pathSlots (getPath (s.oram.posMap c.lba))) s.tails
          c.lba = lastFour data
  | .powerCycle .. => True

def held (s : DurableRun) (lba : ℕ) : Bytes 512 :=
  if s.lost lba then Bytes.zero 512 else (s.acked lba).getD (Bytes.zero 512)

/-- The invariant of the runs in which all transfers move their bytes. -/
structure Ok (s : DurableRun) : Prop where
  spares : s.oram.stray.Spares
  invariant : OramInvariant s.oram.dev.sectors s.oram.posMap s.oram.stash
  posmap : s.oram.dev.sectors oramPosmapLba = posmapSector s.oram.posMap
  magic : s.oram.dev.sectors oramMetaLba = metaSector
  holding : Holding s.oram.dev.sectors s.oram.stash s.held s.tails

variable {s : DurableRun} {ts : List Transfer} {c : OramCall}

theorem held_afterCall (s : DurableRun) (c : OramCall) (m : PathOram FlakyDisk) :
    (s.afterCall c 0 m).held = flatAfter s.held c.lba c.write c.data := by
  funext l
  cases hw : c.write with
  | false => simp only [held, afterCall, flatAfter, hw, Bool.false_eq_true, and_false, if_false]
  | true =>
    by_cases hl : l = c.lba
    · simp [held, afterCall, flatAfter, hw, hl]
    · simp [held, afterCall, flatAfter, hw, Function.update_of_ne hl]

theorem accessView_meta {V : ℕ → Bytes 512} {posMap : ℕ → ℕ} {lba leaf : ℕ} {S : List OramBlock}
    (hpos : posMap lba < oramNumLeaves) :
      accessView V posMap lba leaf S oramMetaLba = V oramMetaLba := by
  rw [accessView, Function.update_of_ne (by decide)]
  refine placedView_of_ne fun x hx j hj hc => ?_
  exact (sectorOf_ne_posmap ((getPath_spec _ hpos).2 _ (mem_of_mem_placement hx).1) hj).2 hc.symm

theorem Ok.access (h : s.Ok) (hts : ∀ t ∈ ts, t.Moves) (c : OramCall) :
    (s.step (.access ts c)).Ok := by
  by_cases hlba : c.lba < oramNumLeaves
  · have hready : flakyFaithful.Holds (s.oram.withTransfers ts).dev s.oram.dev.sectors := ⟨hts, rfl⟩
    obtain ⟨out, S, m', hs, hlt, heq, ⟨-, hview⟩, hpos, hstash, hstray, hinv⟩ :=
      OramInvariant.access (F := flakyFaithful) (m := s.oram.withTransfers ts) h.invariant hready
        h.spares hlba c.env c.write c.data
    have hhold := h.holding.access (oramRandLeaf c.env.random) h.invariant hlba hs hlt
    have hstep : s.step (.access ts c) = s.afterCall c 0 m' := by
      simp only [step, OramCall.apply, heq]
    have hsectors : m'.dev.sectors = accessView s.oram.dev.sectors s.oram.posMap c.lba
      (oramRandLeaf c.env.random) S := hview
    rw [hstep]
    refine ⟨?_, ?_, ?_, ?_, ?_⟩
    · rw [afterCall, hstray]
      exact h.spares
    · rw [afterCall, hsectors]
      exact hinv
    · rw [afterCall, hsectors, hpos]
      exact Function.update_self _ _ _
    · rw [afterCall, hsectors]
      exact (accessView_meta (h.invariant.pos _ hlba)).trans h.magic
    · rw [held_afterCall, afterCall, hsectors, if_pos rfl, hstash]
      exact hhold
  · have hout : c.apply (s.oram.withTransfers ts) = some (-1, c.data, s.oram.withTransfers ts) :=
      if_pos (Nat.not_lt.mp hlba)
    have hstep : s.step (.access ts c) = { s with oram := s.oram.withTransfers ts } := by
      simp only [step, hout]
      rfl
    rw [hstep]
    exact ⟨h.spares, h.invariant, h.posmap, h.magic, h.holding⟩

theorem Ok.powerCycle (h : s.Ok) (hts : ∀ t ∈ ts, t.Moves) (random : ℕ → ℕ)
    (metaBuf posmapBuf : Bytes 512) : (s.step (.powerCycle ts random metaBuf posmapBuf)).Ok := by
  have hready : flakyFaithful.Holds (s.oram.withTransfers ts).dev s.oram.dev.sectors := ⟨hts, rfl⟩
  obtain ⟨dev, heq, -, hview⟩ := holds_oramInit
    (m := { s.oram.withTransfers ts with posMap := fun _ => 0, stash := [] }) hready
    (show (0x100000 : ℕ) ≠ 0 by decide) h.magic random metaBuf posmapBuf
  have hload : ∀ lba < oramNumLeaves,
      leVal (((s.oram.dev.sectors oramPosmapLba).1.drop (4 * lba)).take 4) = s.oram.posMap lba := by
    intro lba hlba
    rw [h.posmap]
    exact leVal_posmapSector hlba (lt_pow_of_lt_numLeaves (h.invariant.pos lba hlba))
  have hheld : (s.step (.powerCycle ts random metaBuf posmapBuf)).held =
      fun lba => if stashHas s.oram.stash lba then Bytes.zero 512 else s.held lba := by
    funext lba
    cases hin : stashHas s.oram.stash lba <;> simp [held, step, hin]
  have hsectors : dev.sectors = s.oram.dev.sectors := hview
  have horam : (s.step (.powerCycle ts random metaBuf posmapBuf)).oram = _ := heq
  refine ⟨?_, ?_, ?_, ?_, ?_⟩
  · rw [horam]
    exact h.spares
  · rw [horam, hsectors]
    exact h.invariant.reload hload
  · rw [horam, hsectors, h.posmap]
    refine posmapSector_congr fun lba hlba => ?_
    rw [← h.posmap]
    exact (hload lba hlba).symm
  · rw [horam, hsectors]
    exact h.magic
  · rw [hheld, horam, hsectors]
    exact h.holding.reload h.invariant

theorem Ok.step {i : DurableStep} (h : s.Ok) (hi : i.Moves) : (s.step i).Ok := by
  cases i with
  | access ts c => exact h.access hi c
  | powerCycle ts random metaBuf posmapBuf => exact h.powerCycle hi random metaBuf posmapBuf

theorem Ok.readsAcked_iff {i : DurableStep} (h : s.Ok) (hi : i.Moves) :
    s.ReadsAcked i ↔ s.Retained i := by
  cases i with
  | powerCycle ts random metaBuf posmapBuf => exact Iff.rfl
  | access ts c =>
    by_cases hlba : c.lba < oramNumLeaves
    · have hready : flakyFaithful.Holds (s.oram.withTransfers ts).dev s.oram.dev.sectors :=
        ⟨hi, rfl⟩
      obtain ⟨out, S, m', hs, -, heq, -⟩ := OramInvariant.access (F := flakyFaithful)
        (m := s.oram.withTransfers ts) h.invariant hready h.spares hlba c.env c.write c.data
      have hzeros : (Bytes.zero 512).1.take 508 = List.replicate 508 0 := List.take_replicate
      have hget : ∀ data, s.acked c.lba = some data →
          ((s.lost c.lba = true → data.1.take 508 = List.replicate 508 0) ↔
            (s.held c.lba).1.take 508 = data.1.take 508) := by
        intro data hdata
        rw [held, hdata]
        cases s.lost c.lba with
        | false => exact ⟨fun _ => rfl, fun _ hc => absurd hc Bool.false_ne_true⟩
        | true =>
          exact ⟨fun hzero => (hzero rfl).symm ▸ hzeros, fun hheld _ => hheld.symm.trans hzeros⟩
      constructor
      · intro hreads data _ hread hdata
        rw [hread] at hs
        rw [hget data hdata]
        exact (h.holding.read_iff h.invariant hlba hs data).mp
          (hreads data out _ hread hdata heq)
      · intro hretained data out' m'' hread hdata hout
        rw [hread] at hs
        obtain ⟨hkept, htail⟩ := hretained data hlba hread hdata
        have hsame := hout.symm.trans heq
        have houts : out' = out := (Prod.mk.inj (Prod.mk.inj (Option.some.inj hsame)).2).1
        rw [houts]
        exact (h.holding.read_iff h.invariant hlba hs data).mpr ⟨(hget data hdata).mp hkept, htail⟩
    · constructor
      · exact fun _ data hlt => absurd hlt hlba
      · intro _ data out m hread _ hout
        have hfail : c.apply (s.oram.withTransfers ts) =
            some (-1, c.data, s.oram.withTransfers ts) :=
          if_pos (Nat.not_lt.mp hlba)
        rw [hfail] at hout
        exact absurd (Prod.mk.inj (Option.some.inj hout)).1 (by decide)

theorem start_ok {m : PathOram FlakyDisk} (hmoves : m.dev.AllMove) (hstash : m.stash = [])
    (hspares : m.stray.Spares) (random : ℕ → ℕ) : (start random m).Ok := by
  obtain ⟨-, hview⟩ :=
    holds_oramFormat (F := flakyFaithful) (m := m) ⟨hmoves, rfl⟩ hspares random
  have hstart := FlatRun.start_ok (F := flakyFaithful) hmoves hstash hspares random
  have hsectors : (oramFormat random m).dev.sectors =
      formatView m.dev.sectors (oramFormat random m).posMap := hview
  refine ⟨hspares, hstart.invariant, ?_, ?_, hstart.holding⟩
  · rw [start, hsectors, formatView, Function.update_of_ne (by decide)]
    exact Function.update_self _ _ _
  · rw [start, hsectors]
    exact Function.update_self _ _ _

end DurableRun

/-- In a run from a formatted store where the store behind the sector buffer does no harm, of calls
and power cycles all of whose transfers move their bytes, every read that reports success gives
the data of the last write that did, exactly when no block is read that a power cycle has found in
the stash, and the stack has the last four bytes. -/
theorem oram_durable_iff {m : PathOram FlakyDisk} (hmoves : m.dev.AllMove) (hstash : m.stash = [])
    (hspares : m.stray.Spares) (random : ℕ → ℕ) (steps : List DurableStep)
    (hsteps : ∀ i ∈ steps, i.Moves) :
    AllSteps DurableRun.step DurableRun.ReadsAcked (DurableRun.start random m) steps ↔
      AllSteps DurableRun.step DurableRun.Retained (DurableRun.start random m) steps :=
  allSteps_congr_of_mem DurableRun.step (fun _ _ hi h => h.readsAcked_iff (hsteps _ hi))
    (fun _ _ hi h _ => h.step (hsteps _ hi)) (DurableRun.start_ok hmoves hstash hspares random)

/-- A call that draws the leaf and finds zeros on the stack. -/
def leafCall (leaf lba : ℕ) (write : Bool) (data : Bytes 512) : OramCall :=
  { plainCall lba write data with env := { (plainCall lba write data).env with random := leaf } }

theorem oram_durable_iff_sample :
    AllSteps DurableRun.step DurableRun.ReadsAcked (DurableRun.start id (zeroOram .unused))
      [.access [.done, .failed none] (plainCall 5 true (Bytes.ofList 512 [1, 2, 3])),
        .powerCycle [] id (Bytes.zero 512) (Bytes.zero 512),
        .access [] (plainCall 5 false (Bytes.zero 512))] := by
  have hmoves : ∀ i ∈ [DurableStep.access [.done, .failed none]
      (plainCall 5 true (Bytes.ofList 512 [1, 2, 3])),
      .powerCycle [] id (Bytes.zero 512) (Bytes.zero 512),
      .access [] (plainCall 5 false (Bytes.zero 512))], i.Moves := by
    simp [DurableStep.Moves, Transfer.Moves]
  refine (oram_durable_iff (zeroOram_ready _) rfl StrayStore.spares_unused id _ hmoves).mpr
    ⟨?_, trivial, ?_, trivial⟩
  · intro data _ hread
    cases hread
  · intro data _ _ hdata
    have hwritten : data = Bytes.ofList 512 [1, 2, 3] :=
      Option.some.inj (hdata.symm.trans (by decide +kernel))
    rw [hwritten]
    exact ⟨fun hlost => absurd hlost (by decide +kernel), by decide +kernel⟩

/-- A read that reports success with other bytes than those of the last write. -/
theorem DurableRun.not_readsAcked {s : DurableRun} {ts : List Transfer} {c : OramCall}
    (data : Bytes 512) (bs : List UInt8) (hread : c.write = false)
    (hacked : s.acked c.lba = some data) (hne : data.1.take 3 ≠ bs)
    (hout : ((c.apply (s.oram.withTransfers ts)).map fun x => (x.1, x.2.1.1.take 3)) =
      some (0, bs)) : ¬s.ReadsAcked (.access ts c) := by
  intro h
  obtain ⟨⟨rc, out, m⟩, heq, hx⟩ := Option.map_eq_some_iff.mp hout
  obtain ⟨rfl, rfl⟩ := Prod.mk.inj hx
  exact hne (by rw [← h data out m hread hacked heq])

/-- A block whose write reported success is lost where the sector number lies behind the buffer. It
is also lost where nothing does, by a write of a bucket that fails or by a power cycle with the
block in the stash. -/
theorem oram_not_durable :
    let data := Bytes.ofList 512 [1, 2, 3]
    ¬AllSteps DurableRun.step DurableRun.ReadsAcked
        (DurableRun.start id (zeroOram .onSectorNumber))
        [.access [] (plainCall 5 true data), .access [] (plainCall 5 false (Bytes.zero 512))] ∧
      ¬AllSteps DurableRun.step DurableRun.ReadsAcked (DurableRun.start id (zeroOram .unused))
        [.access (List.replicate 28 .done ++ [.failed (some dummyBlock.toSector)])
            (plainCall 5 true data),
          .access [] (plainCall 5 false (Bytes.zero 512))] ∧
      ¬AllSteps DurableRun.step DurableRun.ReadsAcked (DurableRun.start id (zeroOram .unused))
        (((List.range 5).map fun lba => .access [] (leafCall 63 lba true data)) ++
          [.powerCycle [] id (Bytes.zero 512) (Bytes.zero 512),
            .access [] (leafCall 63 4 false (Bytes.zero 512))]) := by
  intro data
  refine ⟨?_, ?_, ?_⟩
  · rintro ⟨-, hread, -⟩
    exact DurableRun.not_readsAcked data [0, 0, 0] rfl (by decide +kernel)
      (by decide +kernel) (by decide +kernel) hread
  · rintro ⟨-, hread, -⟩
    exact DurableRun.not_readsAcked data [0, 0, 0] rfl (by decide +kernel)
      (by decide +kernel) (by decide +kernel) hread
  · intro h
    obtain ⟨-, -, hread, -⟩ := (allSteps_append _).mp h
    exact DurableRun.not_readsAcked data [0, 0, 0] rfl (by decide +kernel)
      (by decide +kernel) (by decide +kernel) hread

end StyxOS
