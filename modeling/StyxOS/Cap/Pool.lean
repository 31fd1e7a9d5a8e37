import StyxOS.Cap.Provenance

/-! # The endpoint pool

`cap_endpoint_create` finds no free endpoint exactly when each of the sixteen
has been handed out by an earlier creation. Freeing slots and revoking endpoints
gives none of them back.
-/

namespace StyxOS

open StepSystem

namespace PoolInv

variable {c : Caps} {log : List CapEvent}

theorem freeEp_eq_none_iff (hi : PoolInv c log) : freeEp c = none ↔ ∀ e, e ∈ handedOut log := by
  rw [freeEp, List.find?_eq_none]
  constructor
  · intro h e
    rw [← hi.used e]
    simpa using h e (List.mem_finRange e)
  · intro h e _
    simpa using (hi.used e).mpr (h e)

end PoolInv

theorem mem_handedOut_iff {log : List CapEvent} {e : EpPtr} :
    e ∈ handedOut log ↔ ∃ t i r, CapEvent.created t i e r ∈ log := by
  rw [handedOut, List.mem_filterMap]
  constructor
  · rintro ⟨ev, hmem, hev⟩
    cases ev with
    | created t i e' r =>
      obtain rfl := Option.some.inj hev
      exact ⟨t, i, r, hmem⟩
    | _ => cases hev
  · rintro ⟨t, i, r, hmem⟩
    exact ⟨_, hmem, rfl⟩

theorem capEndpointCreate_free {c : Caps} {table : UInt64} {idx r owner : UInt32}
    {i : Fin capTableSize} (hi : slotIndex idx = some i)
    (hfree : (c.tables table i).object = .null) :
    (capEndpointCreate c table idx r owner).1 = .errPool ↔ freeEp c = none := by
  unfold capEndpointCreate epPoolAlloc
  simp only [hi, hfree, capObject_type_eq_null, ne_eq, not_true_eq_false, if_false]
  cases freeEp c with
  | none => exact iff_of_true rfl rfl
  | some e => exact iff_of_false (by simp) (by simp)

namespace CapHistory

variable {K : KernelLayout} {h : CapHistory}

theorem poolInv_step (hi : PoolInv h.kernel.caps h.log) (op : CapOp) :
    PoolInv (h.step K op).kernel.caps (h.step K op).log := by
  unfold step
  split
  · exact hi
  · have heff := hi.effect (capCall_effect K h.kernel op).1
    dsimp only
    split at heff
    · next hok => rwa [if_pos hok]
    · next hok => rwa [if_neg hok]

theorem poolInv_run (hi : PoolInv h.kernel.caps h.log) (ops : List CapOp) :
    PoolInv (run (step K) h ops).kernel.caps (run (step K) h ops).log :=
  run_invariant_of_forall (I := fun h => PoolInv h.kernel.caps h.log) (step K)
    (fun _ op hi => poolInv_step hi op) hi ops

/-- A slot of some table refers to the endpoint and has its generation. -/
def Referenced (h : CapHistory) (e : EpPtr) : Prop :=
  ∃ t i, (h.kernel.caps.tables t i).object = .endpoint e ∧
    (h.kernel.caps.tables t i).generation = (h.kernel.caps.epPool e).generation

end CapHistory

/-- After every run from an empty pool, `cap_endpoint_create` on a free slot returns
`CAP_ERR_POOL` exactly when every endpoint of the pool was handed out by an earlier creation, and
no endpoint was handed out twice. -/
theorem pool_exhausted_iff (K : KernelLayout) (f : FreshPool) (ops : List CapOp) (table : UInt64)
    (idx rights owner : UInt32) (i : Fin capTableSize) (hi : slotIndex idx = some i)
    (hfree : ((run (CapHistory.step K) f.history ops).kernel.caps.tables table i).object = .null) :
    ((capEndpointCreate (run (CapHistory.step K) f.history ops).kernel.caps table idx rights
        owner).1 = .errPool ↔
      ∀ e, ∃ t i r, CapEvent.created t i e r ∈ (run (CapHistory.step K) f.history ops).log) ∧
    (handedOut (run (CapHistory.step K) f.history ops).log).Nodup := by
  have hinv := CapHistory.poolInv_run (K := K) (PoolInv.fresh f) ops
  refine ⟨?_, hinv.nodup⟩
  rw [capEndpointCreate_free hi hfree, hinv.freeEp_eq_none_iff]
  exact forall_congr' fun e => mem_handedOut_iff

/-- One creation leaves an endpoint for the next. -/
theorem pool_exhausted_iff_sample :
    (capEndpointCreate (run (CapHistory.step sampleLayout) emptyPool.history
        [.tableInit 1, .endpointCreate 1 0 3 0]).kernel.caps 1 1 3 0).1 ≠ .errPool := by
  rw [Ne, (pool_exhausted_iff sampleLayout emptyPool [.tableInit 1, .endpointCreate 1 0 3 0] 1 1 3 0
    1 rfl (by decide +kernel)).1]
  intro hall
  obtain ⟨t, i, r, hmem⟩ := hall 1
  have hlog : (run (CapHistory.step sampleLayout) emptyPool.history
      [.tableInit 1, .endpointCreate 1 0 3 0]).log = [.created 1 0 0 3, .inited 1] := by
    decide +kernel
  rw [hlog] at hmem
  simp at hmem

/-! ## The leak -/

/-- An endpoint is created in the first slot of a table and the slot is freed, `n` times. -/
def churn (table : UInt64) (n : ℕ) : List CapOp :=
  (List.replicate n [CapOp.endpointCreate table 0 3 0, .freeSlot table 0]).flatten

theorem churn_succ (table : UInt64) (n : ℕ) :
    churn table (n + 1) = [.endpointCreate table 0 3 0, .freeSlot table 0] ++ churn table n := rfl

theorem tables_freeSlot_create {c : Caps} {table : UInt64} (hempty : c.tables table 0 = .empty)
    (r owner : UInt32) :
    (capFreeSlot (capEndpointCreate c table 0 r owner).2 table 0).2.tables = c.tables := by
  have hidx : slotIndex 0 = some 0 := rfl
  have hfree : ∀ c' : Caps, (capFreeSlot c' table 0).2 = c'.setSlot table 0 .empty := by
    intro c'
    simp only [capFreeSlot, hidx]
  have hsame : ∀ x, Function.update (Function.update (c.tables table) 0 x) 0 .empty =
      c.tables table := by
    intro x
    rw [Function.update_idem, ← hempty, Function.update_eq_self]
  rw [hfree]
  rcases capEndpointCreate_cases c table 0 r owner with ⟨err, -, he⟩ | ⟨i, e, hi, -, -, he⟩
  · rw [he, Caps.setSlot, ← hempty, Function.update_eq_self, Function.update_eq_self]
  · obtain rfl : 0 = i := Option.some.inj (hidx.symm.trans hi)
    rw [he]
    simp only [Caps.setSlot, Caps.setEp, Function.update_self, Function.update_idem, ← hempty,
      Function.update_eq_self]

theorem tables_churn {K : KernelLayout} {h : CapHistory} {table : UInt64}
    (hempty : h.kernel.caps.tables table 0 = .empty) (n : ℕ) :
    (run (CapHistory.step K) h (churn table n)).kernel.caps.tables = h.kernel.caps.tables := by
  induction n generalizing h with
  | zero => rfl
  | succ n ih =>
    rw [churn_succ, run_append]
    have hround : (run (CapHistory.step K) h
        [.endpointCreate table 0 3 0, .freeSlot table 0]).kernel.caps.tables =
          h.kernel.caps.tables := by
      cases hhalt : h.kernel.halted with
      | true => simp [run, CapHistory.step, hhalt]
      | false =>
        simp only [run, List.foldl_cons, List.foldl_nil, CapHistory.step, capCall, hhalt,
          Bool.false_eq_true, if_false]
        exact tables_freeSlot_create hempty 3 0
    rw [ih (by rw [hround, hempty]), hround]

/-- After sixteen endpoints were created and their slots freed, no slot of any table refers to an
endpoint, and `cap_endpoint_create` on a free slot returns `CAP_ERR_POOL`. -/
theorem endpoints_leaked :
    (∀ e, ¬ (run (CapHistory.step sampleLayout) emptyPool.history
      (.tableInit 1 :: churn 1 16)).Referenced e) ∧
    ((run (CapHistory.step sampleLayout) emptyPool.history
      (.tableInit 1 :: churn 1 16)).kernel.caps.tables 1 0).object = .null ∧
    (capEndpointCreate (run (CapHistory.step sampleLayout) emptyPool.history
      (.tableInit 1 :: churn 1 16)).kernel.caps 1 0 3 0).1 = .errPool := by
  have htables : (run (CapHistory.step sampleLayout) emptyPool.history
      (.tableInit 1 :: churn 1 16)).kernel.caps.tables = fun _ _ => .empty := by
    rw [run_cons, tables_churn rfl]
    exact Function.update_eq_self 1 _
  refine ⟨?_, ?_, by decide +kernel⟩
  · rintro e ⟨t, i, hslot, -⟩
    rw [htables] at hslot
    cases hslot
  · rw [htables]
    rfl

end StyxOS
