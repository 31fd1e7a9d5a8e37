import StyxOS.Ipc.Basic
import StyxOS.Library.Run

/-! # Histories of capability calls

A run makes calls of the capability engine over any number of tables. Its log,
newest event first, keeps the successful ones: which tables were initialised,
which slot each endpoint was created in, derivations, frees and revocations.
`CapEffect` says everything that one call can do to slots, endpoints and log.
-/

namespace StyxOS

/-- A call with its arguments. The live registers of a parking call come with it. -/
inductive CapOp
  | tableInit (table : UInt64)
  | endpointCreate (table : UInt64) (slotIdx rights ownerTask : UInt32)
  | derive (table : UInt64) (srcIdx dstIdx childRights : UInt32)
  | freeSlot (table : UInt64) (idx : UInt32)
  | revokeEndpoint (table : UInt64) (slotIdx : UInt32)
  | send (cpu : TaskRegs) (table : UInt64) (slotIdx : UInt32) (msg : UInt64)
  | recv (cpu : TaskRegs) (table : UInt64) (slotIdx : UInt32) (out : UInt64)
  | lookup (table : UInt64) (idx : UInt32) (expectedType : CapType) (requiredRights : UInt32)
  deriving DecidableEq

def CapOp.table : CapOp → UInt64
  | tableInit t | endpointCreate t .. | derive t .. | freeSlot t _ | revokeEndpoint t _
  | send _ t .. | recv _ t .. | lookup t .. => t

def lookupErr : Except CapErr CapSlot → CapErr
  | .error err => err
  | .ok _ => .ok

/-- One call: its error code (none when it faults) and the kernel it leaves. -/
def capCall (K : KernelLayout) (k : Kernel) : CapOp → Option CapErr × Kernel
  | .tableInit t => (some .ok, { k with caps := capTableInit k.caps t })
  | .endpointCreate t i r o =>
    let p := capEndpointCreate k.caps t i r o
    (some p.1, { k with caps := p.2 })
  | .derive t s d r =>
    let p := capDerive k.caps t s d r
    (some p.1, { k with caps := p.2 })
  | .freeSlot t i =>
    let p := capFreeSlot k.caps t i
    (some p.1, { k with caps := p.2 })
  | .revokeEndpoint t i =>
    let p := capRevokeEndpoint k.caps t i
    (some p.1, { k with caps := p.2 })
  | .send cpu t i msg => capSend K cpu k t i msg
  | .recv cpu t i out => capRecv K cpu k t i out
  | .lookup t i ty r => (some (lookupErr (capLookup k.caps t i ty r)), k)

inductive CapEvent
  | inited (table : UInt64)
  | created (table : UInt64) (i : Fin capTableSize) (ep : EpPtr) (rights : UInt32)
  | derived (table : UInt64) (src dst : Fin capTableSize)
  | freed (table : UInt64) (i : Fin capTableSize)
  | revoked (ep : EpPtr)
  deriving DecidableEq

def CapEvent.Writes : CapEvent → UInt64 → Fin capTableSize → Prop
  | inited t, t', _ => t' = t
  | created t i _ _, t', i' | derived t _ i, t', i' | freed t i, t', i' => t' = t ∧ i' = i
  | revoked _, _, _ => False

/-- The event of a call that returned CAP_OK in this state. -/
def eventOf (c : Caps) : CapOp → Option CapEvent
  | .tableInit t => some (.inited t)
  | .endpointCreate t i r _ =>
    (slotIndex i).bind fun i => (freeEp c).map fun e => .created t i e r
  | .derive t s d _ => (slotIndex s).bind fun s => (slotIndex d).map fun d => .derived t s d
  | .freeSlot t i => (slotIndex i).map fun i => .freed t i
  | .revokeEndpoint t i => (slotIndex i).bind fun i =>
    match (c.tables t i).object with
    | .endpoint e => some (.revoked e)
    | _ => none
  | .send .. | .recv .. | .lookup .. => none

structure CapHistory where
  kernel : Kernel
  log : List CapEvent

namespace CapHistory

/-- A halted machine makes no call. -/
def step (K : KernelLayout) (h : CapHistory) (op : CapOp) : CapHistory :=
  if h.kernel.halted then h else
  let r := capCall K h.kernel op
  { kernel := r.2
    log := (if r.1 = some .ok then (eventOf h.kernel.caps op).toList else []) ++ h.log }

/-- The contract of `cap_table_init`: it comes before every other call on the table. -/
def UsesInitialised (h : CapHistory) (op : CapOp) : Prop :=
  (∃ t, op = .tableInit t) ∨ CapEvent.inited op.table ∈ h.log

instance (h : CapHistory) (op : CapOp) : Decidable (h.UsesInitialised op) :=
  match op with
  | .tableInit t => isTrue (Or.inl ⟨t, rfl⟩)
  | .endpointCreate t .. | .derive t .. | .freeSlot t _ | .revokeEndpoint t _ | .send _ t ..
  | .recv _ t .. | .lookup t .. =>
    decidable_of_iff (CapEvent.inited t ∈ h.log)
      ⟨Or.inr, fun h => h.elim (fun ⟨_, h⟩ => by cases h) id⟩

end CapHistory

/-- A kernel whose endpoint pool is empty, as it is at boot. -/
structure FreshPool where
  kernel : Kernel
  unused : ∀ e, kernel.caps.epPoolUsed e = false

def FreshPool.history (f : FreshPool) : CapHistory := ⟨f.kernel, []⟩

/-! ## The effect of a call -/

/-- Everything a call can do to the tables and the pool, with the event it logs. `table` is the
table it was made on. -/
inductive CapEffect (table : UInt64) (c : Caps) : Option CapEvent → Caps → Prop
  | quiet {c' : Caps} (tables : c'.tables = c.tables) (used : c'.epPoolUsed = c.epPoolUsed)
      (gen : ∀ e, (c'.epPool e).generation = (c.epPool e).generation) : CapEffect table c none c'
  | inited : CapEffect table c (some (.inited table)) (capTableInit c table)
  | created {i : Fin capTableSize} {e : EpPtr} {r owner : UInt32} (hfree : freeEp c = some e) :
      CapEffect table c (some (.created table i e r))
        ((({ c with epPoolUsed := Function.update c.epPoolUsed e true } : Caps).setEp e
          (endpointInit owner)).setSlot table i ⟨.endpoint e, r, 0⟩)
  | derived {s d : Fin capTableSize} {r : UInt32} (hsrc : (c.tables table s).object ≠ .null)
      (hr : r &&& ~~~(c.tables table s).rights = 0) :
      CapEffect table c (some (.derived table s d))
        (c.setSlot table d ⟨(c.tables table s).object, r, (c.tables table s).generation⟩)
  | freed {i : Fin capTableSize} :
      CapEffect table c (some (.freed table i)) (c.setSlot table i .empty)
  | revoked {i : Fin capTableSize} {e : EpPtr} (hslot : (c.tables table i).object = .endpoint e) :
      CapEffect table c (some (.revoked e)) (c.setEp e (endpointRevoke (c.epPool e)))

theorem CapEffect.refl (table : UInt64) (c : Caps) : CapEffect table c none c :=
  .quiet rfl rfl fun _ => rfl

theorem CapEffect.setEp {table : UInt64} {c : Caps} {e : EpPtr} {x : Endpoint}
    (h : x.generation = (c.epPool e).generation) : CapEffect table c none (c.setEp e x) := by
  refine .quiet rfl rfl fun f => ?_
  rw [setEp_epPool]
  split
  · next hf => rw [hf, h]
  · rfl

/-- An IPC call leaves slots and generations alone, and everything else too when it fails. -/
theorem capTransfer_effect (K : KernelLayout) (cpu : TaskRegs) (d : IpcDir) (k : Kernel)
    (table : UInt64) (slotIdx : UInt32) (buf : UInt64) :
    CapEffect table k.caps none (capTransfer K cpu d k table slotIdx buf).2.caps ∧
      ∀ err, (capTransfer K cpu d k table slotIdx buf).1 = some err → err ≠ .ok →
        (capTransfer K cpu d k table slotIdx buf).2 = k := by
  rcases capTransfer_cases K cpu d k table slotIdx buf with ⟨err, -, he⟩ | ⟨slot, e, -, -, he⟩
  · rw [he]
    exact ⟨.refl .., fun _ _ _ => rfl⟩
  · rw [he]
    rcases rendezvous_cases K cpu d k e buf with
      ⟨-, ⟨-, hr⟩ | ⟨m, -, hr⟩⟩ | ⟨-, hr⟩ | ⟨-, hr⟩ <;> rw [hr]
    · exact ⟨.refl .., fun _ h => by cases h⟩
    · exact ⟨.setEp rfl, fun err h hne => absurd (Option.some.inj h).symm hne⟩
    · exact ⟨.setEp rfl, fun err h hne => absurd (Option.some.inj h).symm hne⟩
    · exact ⟨.refl .., fun _ _ _ => rfl⟩

/-- The inversion lemma: one call has one of the effects, with the event it logs, and a call that
returns an error has none. -/
theorem capCall_effect (K : KernelLayout) (k : Kernel) (op : CapOp) :
    CapEffect op.table k.caps
        (if (capCall K k op).1 = some .ok then eventOf k.caps op else none)
        (capCall K k op).2.caps ∧
      ∀ err, (capCall K k op).1 = some err → err ≠ .ok → (capCall K k op).2 = k := by
  cases op with
  | tableInit t =>
    exact ⟨.inited, fun err h hne => absurd (Option.some.inj h).symm hne⟩
  | endpointCreate t i r o =>
    rcases capEndpointCreate_cases k.caps t i r o with ⟨err, hne, he⟩ | ⟨s, e, hs, -, hf, he⟩ <;>
      simp only [capCall, he, CapOp.table]
    · simp only [Option.some.injEq, hne, if_false]
      exact ⟨.refl .., fun _ _ _ => trivial⟩
    · simp only [eventOf, hs, hf, if_true, Option.bind_some, Option.map_some]
      exact ⟨.created hf, fun err h hne => absurd (Option.some.inj h).symm hne⟩
  | derive t s d r =>
    rcases capDerive_cases k.caps t s d r with
      ⟨err, hne, he⟩ | ⟨s', d', hs, hd, hnn, -, hr, -, he⟩ <;> simp only [capCall, he, CapOp.table]
    · simp only [Option.some.injEq, hne, if_false]
      exact ⟨.refl .., fun _ _ _ => trivial⟩
    · simp only [eventOf, hs, hd, if_true, Option.bind_some, Option.map_some]
      exact ⟨.derived hnn hr, fun err h hne => absurd (Option.some.inj h).symm hne⟩
  | freeSlot t i =>
    rcases capFreeSlot_cases k.caps t i with ⟨err, hne, he⟩ | ⟨s, hs, he⟩ <;>
      simp only [capCall, he, CapOp.table]
    · simp only [Option.some.injEq, hne, if_false]
      exact ⟨.refl .., fun _ _ _ => trivial⟩
    · simp only [eventOf, hs, if_true, Option.map_some]
      exact ⟨.freed, fun err h hne => absurd (Option.some.inj h).symm hne⟩
  | revokeEndpoint t i =>
    rcases capRevokeEndpoint_cases k.caps t i with ⟨err, hne, he⟩ | ⟨s, e, hs, ho, he⟩ <;>
      simp only [capCall, he, CapOp.table]
    · simp only [Option.some.injEq, hne, if_false]
      exact ⟨.refl .., fun _ _ _ => trivial⟩
    · simp only [eventOf, hs, ho, if_true, Option.bind_some]
      exact ⟨.revoked ho, fun err h hne => absurd (Option.some.inj h).symm hne⟩
  | send cpu t i msg =>
    simp only [eventOf, ite_self]
    exact capTransfer_effect K cpu .send k t i msg
  | recv cpu t i out =>
    simp only [eventOf, ite_self]
    exact capTransfer_effect K cpu .recv k t i out
  | lookup t i ty r =>
    simp only [eventOf, ite_self]
    exact ⟨.refl .., fun _ _ _ => rfl⟩

namespace CapHistory

variable {K : KernelLayout} {h : CapHistory}

/-- A step of a history: the effect of its call, whose event heads the log. Only the
initialisation of a table is logged for one not initialised before. -/
theorem step_effect (K : KernelLayout) {h : CapHistory} {op : CapOp} (hu : h.UsesInitialised op) :
    ∃ ev, CapEffect op.table h.kernel.caps ev (h.step K op).kernel.caps ∧
      (h.step K op).log = ev.toList ++ h.log ∧
      ∀ x ∈ ev, x = .inited op.table ∨ CapEvent.inited op.table ∈ h.log := by
  unfold step
  split
  · exact ⟨none, .refl .., rfl, by simp⟩
  · refine ⟨_, (capCall_effect K h.kernel op).1, ?_, fun x hx => ?_⟩
    · dsimp only
      split <;> rfl
    · rcases hu with ⟨t, rfl⟩ | hu
      · exact Or.inl (Option.some.inj hx).symm
      · exact Or.inr hu

/-- The rule for an invariant of tables, pool and log: every effect preserves it. -/
theorem invariant_run (K : KernelLayout) {I : Caps → List CapEvent → Prop}
    (heff : ∀ {table c c' log ev}, I c log → CapEffect table c ev c' →
      (∀ x ∈ ev, x = CapEvent.inited table ∨ CapEvent.inited table ∈ log) →
      I c' (ev.toList ++ log)) {h : CapHistory} {ops : List CapOp}
    (hu : StepSystem.AllSteps (step K) UsesInitialised h ops) (hI : I h.kernel.caps h.log) :
    I (StepSystem.run (step K) h ops).kernel.caps (StepSystem.run (step K) h ops).log := by
  refine StepSystem.run_invariant (I := fun h => I h.kernel.caps h.log) (step K)
    (fun h op hI hu => ?_) hI hu
  obtain ⟨ev, he, hl, hev⟩ := step_effect K hu
  rw [hl]
  exact heff hI he hev

end CapHistory

end StyxOS
