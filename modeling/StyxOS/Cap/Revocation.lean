import Mathlib.Data.List.Count
import StyxOS.Cap.Provenance

/-! # Permanence of revocation

A slot keeps the generation its endpoint had when it was created, which is zero,
and an endpoint counts its revocations in 64 bits. Short of 2 ^ 64 of them a
revoked endpoint never matches a slot again.
-/

namespace StyxOS

open StepSystem

/-- Through no slot of an initialised table that refers to the endpoint does a lookup, a
derivation, a send or a receive succeed; the derivation and the transfers fail cleanly. -/
def CapHistory.Revoked (K : KernelLayout) (h : CapHistory) (e : EpPtr) : Prop :=
  ∀ t, CapEvent.inited t ∈ h.log → ∀ idx i, slotIndex idx = some i →
    (h.kernel.caps.tables t i).object = .endpoint e →
    (∀ ty r slot, capLookup h.kernel.caps t idx ty r ≠ .ok slot) ∧
    (∀ dst r, (capDerive h.kernel.caps t idx dst r).1 ≠ .ok) ∧
    ∀ cpu buf,
      (∃ err, err ≠ .ok ∧ capSend K cpu h.kernel t idx buf = (some err, h.kernel)) ∧
      ∃ err, err ≠ .ok ∧ capRecv K cpu h.kernel t idx buf = (some err, h.kernel)

/-- Endpoints count their revocations, and none was revoked before it was handed out. -/
structure GenInv (c : Caps) (log : List CapEvent) : Prop where
  base : CapInv c log
  gen : ∀ e ∈ handedOut log, (c.epPool e).generation = UInt64.ofNat (log.count (.revoked e))
  early : ∀ e, e ∉ handedOut log → log.count (.revoked e) = 0

namespace GenInv

variable {c c' : Caps} {log : List CapEvent}

theorem fresh (f : FreshPool) : GenInv f.history.kernel.caps f.history.log :=
  ⟨.fresh f, fun _ h => absurd h List.not_mem_nil, fun _ _ => rfl⟩

theorem count_cons_of_ne {ev : CapEvent} {e : EpPtr} (h : ev ≠ .revoked e) :
    (ev :: log).count (.revoked e) = log.count (.revoked e) :=
  List.count_cons_of_ne h

theorem effect {table : UInt64} {ev : Option CapEvent} (hi : GenInv c log)
    (he : CapEffect table c ev c')
    (hev : ∀ x ∈ ev, x = CapEvent.inited table ∨ CapEvent.inited table ∈ log) :
    GenInv c' (ev.toList ++ log) := by
  refine ⟨hi.base.effect he hev, ?_, ?_⟩
  · cases he with
    | quiet _ _ hg => exact fun e h => (hg e).trans (hi.gen e h)
    | @created i e r owner hfree =>
      intro f hf
      rw [Option.toList_some, List.singleton_append, count_cons_of_ne (by simp)]
      simp only [setSlot_epPool, setEp_epPool]
      split
      · next h =>
        have hnew : e ∉ handedOut log := fun h => by
          rw [← hi.base.used e, freeEp_some hfree] at h
          exact Bool.noConfusion h
        rw [h, hi.early e hnew]
        rfl
      · next h => exact hi.gen f ((List.mem_cons.mp hf).resolve_left h)
    | @revoked i e hslot =>
      intro f hf
      simp only [setEp_epPool, Option.toList_some, List.singleton_append]
      split
      · next h =>
        subst h
        rw [List.count_cons_self, endpointRevoke, hi.gen f hf]
        simp
      · next h =>
        rw [count_cons_of_ne fun he => h (CapEvent.revoked.inj he).symm]
        exact hi.gen f hf
    | _ =>
      intro e h
      rw [Option.toList_some, List.singleton_append, count_cons_of_ne (by simp)]
      exact hi.gen e h
  · cases he with
    | quiet => exact hi.early
    | @created i e r owner hfree =>
      intro f hf
      rw [Option.toList_some, List.singleton_append, count_cons_of_ne (by simp)]
      exact hi.early f fun h => hf (List.mem_cons_of_mem _ h)
    | @revoked i e hslot =>
      intro f hf
      have hin : CapEvent.inited table ∈ log := by simpa using hev _ rfl
      obtain ⟨e', r, ho, hl, -⟩ := hi.base.slots table hin i (by rw [hslot]; simp)
      obtain rfl : e = e' := by rw [hslot] at ho; exact CapObject.endpoint.inj ho
      rw [Option.toList_some, List.singleton_append, count_cons_of_ne]
      · exact hi.early f hf
      · rintro ⟨⟩
        exact hf hl.mem_handedOut
    | _ =>
      intro e h
      rw [Option.toList_some, List.singleton_append, count_cons_of_ne (by simp)]
      exact hi.early e h

end GenInv

theorem ofNat_ne_zero {n : ℕ} (hpos : 0 < n) (hlt : n < 2 ^ 64) : UInt64.ofNat n ≠ 0 := by
  intro h
  have h' := congrArg UInt64.toNat h
  rw [UInt64.toNat_ofNat_of_lt' hlt] at h'
  exact absurd h' hpos.ne'

theorem isStale_of_generation_ne {c : Caps} {x : CapSlot} {e : EpPtr} (ho : x.object = .endpoint e)
    (h : (c.epPool e).generation ≠ x.generation) : isStale c x = true := by
  unfold isStale
  rw [ho]
  simpa using h

namespace CapHistory

variable {K : KernelLayout} {h : CapHistory}

theorem revoked_of_stale {e : EpPtr}
    (hs : ∀ t, CapEvent.inited t ∈ h.log → ∀ i, (h.kernel.caps.tables t i).object = .endpoint e →
      isStale h.kernel.caps (h.kernel.caps.tables t i) = true) : h.Revoked K e := by
  intro t ht idx i hi ho
  have hstale := hs t ht i ho
  have hlookup : ∀ ty r slot, capLookup h.kernel.caps t idx ty r ≠ .ok slot := by
    intro ty r slot hok
    obtain ⟨j, hj, hslot, -, -, hfresh, -⟩ := capLookup_ok hok
    obtain rfl : i = j := Option.some.inj (hi.symm.trans hj)
    rw [← hslot, hstale] at hfresh
    exact Bool.noConfusion hfresh
  have htransfer : ∀ d cpu buf, ∃ err, err ≠ .ok ∧
      capTransfer K cpu d h.kernel t idx buf = (some err, h.kernel) := by
    intro d cpu buf
    rcases capTransfer_cases K cpu d h.kernel t idx buf with he | ⟨slot, -, hok, -⟩
    · exact he
    · exact absurd hok (hlookup _ _ _)
  refine ⟨hlookup, fun dst r => ?_, fun cpu buf => ⟨htransfer .send cpu buf,
    htransfer .recv cpu buf⟩⟩
  rcases capDerive_cases h.kernel.caps t idx dst r with ⟨err, hne, he⟩ | ⟨s, d, hs', -, -, hf, -⟩
  · rw [he]; exact hne
  · obtain rfl : i = s := Option.some.inj (hi.symm.trans hs')
    rw [hstale] at hf
    exact absurd hf (by decide)

theorem genInv_run {ops : List CapOp} (hi : GenInv h.kernel.caps h.log)
    (hu : AllSteps (step K) UsesInitialised h ops) :
    GenInv (run (step K) h ops).kernel.caps (run (step K) h ops).log :=
  invariant_run K (fun hi he hev => hi.effect he hev) hu hi

theorem revoked_of_count {e : EpPtr} (hi : GenInv h.kernel.caps h.log)
    (hpos : CapEvent.revoked e ∈ h.log) (hlt : h.log.count (.revoked e) < 2 ^ 64) :
    h.Revoked K e := by
  refine revoked_of_stale fun t ht i ho => ?_
  obtain ⟨e', r, ho', hl, -, hg⟩ := hi.base.slots t ht i (by rw [ho]; simp)
  obtain rfl : e = e' := by rw [ho] at ho'; exact CapObject.endpoint.inj ho'
  refine isStale_of_generation_ne ho ?_
  rw [hg, hi.gen e hl.mem_handedOut]
  exact ofNat_ne_zero (List.count_pos_iff.mpr hpos) hlt

theorem log_step_suffix (K : KernelLayout) (h : CapHistory) (op : CapOp) :
    h.log <:+ (h.step K op).log := by
  unfold step
  split
  · exact List.suffix_rfl
  · exact List.suffix_append ..

theorem log_run_suffix (K : KernelLayout) (h : CapHistory) (ops : List CapOp) :
    h.log <:+ (run (step K) h ops).log := by
  induction ops generalizing h with
  | nil => exact List.suffix_rfl
  | cons op ops ih => exact (log_step_suffix K h op).trans (ih _)

theorem mem_log_revoke {t : UInt64} {idx : UInt32} {i : Fin capTableSize} {e : EpPtr}
    (hrun : h.kernel.halted = false) (hi : slotIndex idx = some i)
    (ho : (h.kernel.caps.tables t i).object = .endpoint e) :
    CapEvent.revoked e ∈ (h.step K (.revokeEndpoint t idx)).log := by
  simp [step, hrun, capCall, capRevokeEndpoint, eventOf, hi, ho]

end CapHistory

/-- Revocation is permanent: once `cap_revoke_endpoint` has succeeded through a slot that refers to
the endpoint, no later state reaches it, as long as it is revoked fewer than 2 ^ 64 times. -/
theorem revocation_permanent (K : KernelLayout) (f : FreshPool) (pre post : List CapOp)
    (t : UInt64) (idx : UInt32) (i : Fin capTableSize) (e : EpPtr) (hi : slotIndex idx = some i)
    (hu : AllSteps (CapHistory.step K) CapHistory.UsesInitialised f.history
      (pre ++ .revokeEndpoint t idx :: post))
    (hrun : (run (CapHistory.step K) f.history pre).kernel.halted = false)
    (ho : ((run (CapHistory.step K) f.history pre).kernel.caps.tables t i).object = .endpoint e)
    (hlt : (run (CapHistory.step K) f.history (pre ++ .revokeEndpoint t idx :: post)).log.count
      (.revoked e) < 2 ^ 64) :
    (run (CapHistory.step K) f.history (pre ++ .revokeEndpoint t idx :: post)).Revoked K e := by
  refine CapHistory.revoked_of_count (CapHistory.genInv_run (GenInv.fresh f) hu) ?_ hlt
  rw [run_append, run_cons]
  exact (CapHistory.log_run_suffix K _ post).subset (CapHistory.mem_log_revoke hrun hi ho)

/-- An endpoint is created and shared, revoked through the first slot, and out of reach. -/
theorem revocation_permanent_sample :
    (run (CapHistory.step sampleLayout) emptyPool.history
      ([.tableInit 1, .endpointCreate 1 0 3 0, .derive 1 0 1 1] ++
        .revokeEndpoint 1 0 :: [.tableInit 2, .freeSlot 1 0])).Revoked sampleLayout 0 :=
  revocation_permanent sampleLayout emptyPool _ _ 1 0 0 0 rfl
    ⟨Or.inl ⟨1, rfl⟩, Or.inr (by decide), Or.inr (by decide), Or.inr (by decide),
      Or.inl ⟨2, rfl⟩, Or.inr (by decide), trivial⟩
    rfl (by decide) (by decide)

end StyxOS
