import StyxOS.Cap.History
import StyxOS.Sched.Safety

/-! # Authority confinement

Where the authority in a slot comes from. A lineage leads from a slot back to
the creation of its endpoint through derivations in one table, and every slot of
an initialised table has one, along which rights never grow. The pool never
hands out an endpoint again: nothing clears an in-use flag.
-/

namespace StyxOS

/-- After `log`, what slot `i` of `table` holds descends from the creation of `ep` with the given
rights, through derivations within the table. -/
inductive Lineage : List CapEvent → UInt64 → Fin capTableSize → EpPtr → UInt32 → Prop
  | created {log table i ep rights} : Lineage (.created table i ep rights :: log) table i ep rights
  | derived {log table src dst ep rights} (h : Lineage log table src ep rights) :
      Lineage (.derived table src dst :: log) table dst ep rights
  | kept {log ev table i ep rights} (hev : ¬ ev.Writes table i)
      (h : Lineage log table i ep rights) : Lineage (ev :: log) table i ep rights

/-- The endpoint that an event hands out. -/
def CapEvent.handedOut : CapEvent → Option EpPtr
  | created _ _ e _ => some e
  | _ => none

/-- The endpoints that creations have handed out. -/
def handedOut (log : List CapEvent) : List EpPtr := log.filterMap CapEvent.handedOut

/-- The rights `r` are among the rights `s`. -/
def RightsLe (r s : UInt32) : Prop := r &&& ~~~s = 0

theorem RightsLe.refl (r : UInt32) : RightsLe r r := by
  rw [RightsLe, ← UInt32.toBitVec_inj]
  simp

theorem RightsLe.trans {a b c : UInt32} (hab : RightsLe a b) (hbc : RightsLe b c) :
    RightsLe a c := by
  rw [RightsLe, ← UInt32.toBitVec_inj] at *
  simp only [UInt32.toBitVec_and, UInt32.toBitVec_not, UInt32.toBitVec_ofNat] at *
  ext i hi
  have h₁ := congrArg (fun v => v.getLsbD i) hab
  have h₂ := congrArg (fun v => v.getLsbD i) hbc
  simp [hi] at h₁ h₂ ⊢
  exact fun h => h₂ (h₁ h)

theorem Lineage.mem_created {log : List CapEvent} {t : UInt64} {i : Fin capTableSize} {e : EpPtr}
    {r : UInt32} (h : Lineage log t i e r) : ∃ j, CapEvent.created t j e r ∈ log := by
  induction h with
  | created => exact ⟨_, List.mem_cons_self ..⟩
  | derived _ ih =>
    obtain ⟨j, hj⟩ := ih
    exact ⟨j, List.mem_cons_of_mem _ hj⟩
  | kept _ _ ih =>
    obtain ⟨j, hj⟩ := ih
    exact ⟨j, List.mem_cons_of_mem _ hj⟩

theorem Lineage.mem_handedOut {log : List CapEvent} {t : UInt64} {i : Fin capTableSize}
    {e : EpPtr} {r : UInt32} (h : Lineage log t i e r) : e ∈ handedOut log := by
  obtain ⟨j, hj⟩ := h.mem_created
  exact List.mem_filterMap.mpr ⟨_, hj, rfl⟩

/-- The confinement of authority in a state: every slot in use of an initialised table refers to an
endpoint in use, has a lineage from its only creation, no more rights than that creation passed,
and a generation up to the endpoint's. -/
structure CapHistory.Confined (h : CapHistory) : Prop where
  slots : ∀ t, CapEvent.inited t ∈ h.log → ∀ i, (h.kernel.caps.tables t i).object ≠ .null →
    ∃ e r, (h.kernel.caps.tables t i).object = .endpoint e ∧ h.kernel.caps.epPoolUsed e = true ∧
      Lineage h.log t i e r ∧ RightsLe (h.kernel.caps.tables t i).rights r ∧
      (h.kernel.caps.tables t i).generation ≤ (h.kernel.caps.epPool e).generation
  handedOut_nodup : (handedOut h.log).Nodup

/-- A call that returns an error leaves the kernel as it was. -/
def CapHistory.FailsClean (K : KernelLayout) (h : CapHistory) (op : CapOp) : Prop :=
  ∀ err, (capCall K h.kernel op).1 = some err → err ≠ .ok → (capCall K h.kernel op).2 = h.kernel

/-! ## The invariant -/

/-- What a slot in use holds: first-generation authority over an endpoint, with a lineage. -/
def SlotOk (log : List CapEvent) (t : UInt64) (i : Fin capTableSize) (x : CapSlot) : Prop :=
  ∃ e r, x.object = .endpoint e ∧ Lineage log t i e r ∧ RightsLe x.rights r ∧ x.generation = 0

theorem SlotOk.kept {log : List CapEvent} {ev : CapEvent} {t : UInt64} {i : Fin capTableSize}
    {x : CapSlot} (hx : SlotOk log t i x) (hev : ¬ ev.Writes t i) : SlotOk (ev :: log) t i x := by
  obtain ⟨e, r, ho, hl, hr, hg⟩ := hx
  exact ⟨e, r, ho, .kept hev hl, hr, hg⟩

/-- An endpoint is in use from its creation on, and it is created once. -/
structure PoolInv (c : Caps) (log : List CapEvent) : Prop where
  used : ∀ e, c.epPoolUsed e = true ↔ e ∈ handedOut log
  nodup : (handedOut log).Nodup

namespace PoolInv

variable {c c' : Caps} {log : List CapEvent}

theorem fresh (f : FreshPool) : PoolInv f.history.kernel.caps f.history.log where
  used e := by simp [FreshPool.history, f.unused e, handedOut]
  nodup := List.nodup_nil

theorem effect {table : UInt64} {ev : Option CapEvent} (hi : PoolInv c log)
    (he : CapEffect table c ev c') : PoolInv c' (ev.toList ++ log) := by
  cases he with
  | quiet _ hused _ =>
    refine ⟨fun e => ?_, hi.nodup⟩
    rw [hused]
    exact hi.used e
  | @created i e r owner hfree =>
    have hnew : e ∉ handedOut log := by
      rw [← hi.used e, freeEp_some hfree]
      exact Bool.false_ne_true
    refine ⟨fun f => ?_, List.nodup_cons.mpr ⟨hnew, hi.nodup⟩⟩
    change Function.update c.epPoolUsed e true f = true ↔ f ∈ e :: handedOut log
    rw [List.mem_cons, ← hi.used f, Function.update_apply]
    split
    · next h => exact iff_of_true rfl (Or.inl h)
    · next h => exact (or_iff_right h).symm
  | inited => exact ⟨hi.used, hi.nodup⟩
  | derived _ _ => exact ⟨hi.used, hi.nodup⟩
  | freed => exact ⟨hi.used, hi.nodup⟩
  | revoked _ => exact ⟨hi.used, hi.nodup⟩

end PoolInv

structure CapInv (c : Caps) (log : List CapEvent) : Prop where
  slots : ∀ t, CapEvent.inited t ∈ log → ∀ i, (c.tables t i).object ≠ .null →
    SlotOk log t i (c.tables t i)
  used : ∀ e, c.epPoolUsed e = true ↔ e ∈ handedOut log
  nodup : (handedOut log).Nodup

namespace CapInv

variable {c c' : Caps} {log : List CapEvent} {ev : CapEvent}

theorem confined {h : CapHistory} (hi : CapInv h.kernel.caps h.log) : h.Confined where
  slots t ht i hn := by
    obtain ⟨e, r, ho, hl, hr, hg⟩ := hi.slots t ht i hn
    refine ⟨e, r, ho, (hi.used e).mpr hl.mem_handedOut, hl, hr, ?_⟩
    rw [hg]
    exact Nat.zero_le _
  handedOut_nodup := hi.nodup

theorem fresh (f : FreshPool) : CapInv f.history.kernel.caps f.history.log where
  slots _ ht := absurd ht List.not_mem_nil
  used e := by simp [FreshPool.history, f.unused e, handedOut]
  nodup := List.nodup_nil

/-- After an event that writes one slot and initialises nothing, the other slots are as they
were; what the written one holds is left to show. -/
theorem write_slot (hi : CapInv c log) (hc : c'.tables = c.tables) {t : UInt64}
    {i : Fin capTableSize} {x : CapSlot} (hw : ∀ t' i', ev.Writes t' i' ↔ t' = t ∧ i' = i)
    (hin : ∀ t', ev ≠ .inited t')
    (hx : CapEvent.inited t ∈ log → x.object ≠ .null → SlotOk (ev :: log) t i x) (t' : UInt64)
    (ht' : CapEvent.inited t' ∈ ev :: log) (i' : Fin capTableSize)
    (hn : ((c'.setSlot t i x).tables t' i').object ≠ .null) :
    SlotOk (ev :: log) t' i' ((c'.setSlot t i x).tables t' i') := by
  have ht : CapEvent.inited t' ∈ log := by
    rcases List.mem_cons.mp ht' with h | h
    · exact absurd h.symm (hin t')
    · exact h
  rw [setSlot_tables, hc] at hn ⊢
  split at hn
  · next he =>
    obtain ⟨rfl, rfl⟩ := he
    simp only [and_self, if_true]
    exact hx ht hn
  · next he =>
    rw [if_neg he]
    exact (hi.slots t' ht i' hn).kept fun h => he ((hw t' i').mp h)

theorem pool (hi : CapInv c log) : PoolInv c log := ⟨hi.used, hi.nodup⟩

theorem effect {table : UInt64} {ev : Option CapEvent} (hi : CapInv c log)
    (he : CapEffect table c ev c')
    (hev : ∀ x ∈ ev, x = CapEvent.inited table ∨ CapEvent.inited table ∈ log) :
    CapInv c' (ev.toList ++ log) := by
  have hpool := hi.pool.effect he
  refine ⟨?_, hpool.used, hpool.nodup⟩
  cases he with
  | quiet ht _ _ =>
    intro t h i
    rw [ht]
    exact hi.slots t h i
  | inited =>
    intro t ht i hn
    by_cases h : t = table
    · subst h
      simp [capTableInit, CapSlot.empty] at hn
    · have hl : CapEvent.inited t ∈ log := by simpa [h] using ht
      simp only [capTableInit, Function.update_of_ne h] at hn ⊢
      exact (hi.slots t hl i hn).kept h
  | @created i e r owner hfree =>
    exact hi.write_slot rfl (fun _ _ => Iff.rfl) (by simp) fun _ _ =>
      ⟨e, r, rfl, .created, .refl r, rfl⟩
  | @derived s d r hsrc hr =>
    refine hi.write_slot rfl (fun _ _ => Iff.rfl) (by simp) fun ht _ => ?_
    obtain ⟨e, r₀, ho, hl, hr₀, hg⟩ := hi.slots table ht s hsrc
    exact ⟨e, r₀, ho, .derived hl, .trans hr hr₀, hg⟩
  | freed =>
    exact hi.write_slot rfl (fun _ _ => Iff.rfl) (by simp) fun _ hn => absurd rfl hn
  | revoked _ =>
    intro t ht i hn
    have hl : CapEvent.inited t ∈ log := by simpa using ht
    exact (hi.slots t hl i hn).kept not_false

end CapInv

namespace CapHistory

variable {K : KernelLayout} {h : CapHistory} {ops : List CapOp}

theorem capInv_run (hi : CapInv h.kernel.caps h.log)
    (hu : StepSystem.AllSteps (step K) UsesInitialised h ops) :
    CapInv (StepSystem.run (step K) h ops).kernel.caps (StepSystem.run (step K) h ops).log :=
  invariant_run K (fun hi he hev => hi.effect he hev) hu hi

end CapHistory

open StepSystem

/-- In every run from an empty pool that initialises tables before it uses them, authority is
confined before and after each call, and calls that return an error change nothing. -/
theorem authority_confined (K : KernelLayout) (f : FreshPool) (ops : List CapOp)
    (hu : AllSteps (CapHistory.step K) CapHistory.UsesInitialised f.history ops) :
    AllSteps (CapHistory.step K)
      (fun h op => h.Confined ∧ (h.step K op).Confined ∧ h.FailsClean K op) f.history ops := by
  rw [allSteps_iff_forall]
  rintro pre op post rfl
  obtain ⟨hpre, hop, -⟩ := (allSteps_append _).mp hu
  have hi := CapHistory.capInv_run (CapInv.fresh f) hpre
  have hi' : CapInv ((run (CapHistory.step K) f.history pre).step K op).kernel.caps
      ((run (CapHistory.step K) f.history pre).step K op).log :=
    @CapHistory.capInv_run K _ [op] hi ⟨hop, trivial⟩
  exact ⟨hi.confined, hi'.confined, (capCall_effect K _ op).2⟩

/-- A kernel at boot: an empty pool, and the scheduler in the given state. -/
def bootKernel (s : Sched) : Kernel where
  caps := ⟨fun _ => ⟨0, .idle, 0, 0, 0⟩, fun _ => false, fun _ _ => .empty⟩
  sched := s
  memory := ⟨fun _ _ => 0, fun _ => 0, fun _ _ => true, fun _ _ => true, fun _ _ _ => rfl⟩
  halted := false

def emptyPool : FreshPool := ⟨bootKernel twoTasks.sched, fun _ => rfl⟩

/-- One table: an endpoint is created, a weaker capability derived from it and the endpoint
revoked. -/
theorem authority_confined_sample :
    AllSteps (CapHistory.step sampleLayout)
      (fun h op => h.Confined ∧ (h.step sampleLayout op).Confined ∧ h.FailsClean sampleLayout op)
      emptyPool.history
      [.tableInit 1, .endpointCreate 1 0 3 0, .derive 1 0 1 1, .revokeEndpoint 1 0] :=
  authority_confined sampleLayout emptyPool _
    ⟨Or.inl ⟨1, rfl⟩, Or.inr (by decide), Or.inr (by decide), Or.inr (by decide), trivial⟩

end StyxOS
