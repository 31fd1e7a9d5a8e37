import Mathlib.Algebra.GroupWithZero.Nat
import Mathlib.Logic.Function.Basic
import Mathlib.Data.Fin.Basic

/-! # The capability engine

Slots, endpoints, the static endpoint pool and the table operations of `cap.c`
and `endpoint.c`. The tables of all tasks share the pool; a table is named by
its address. Every operation returns its error code and the state it leaves.
-/

namespace StyxOS

abbrev endpointPoolSize : ℕ := 16

/-- An `endpoint_t *`: a slot of the static pool `ep_pool`. -/
abbrev EpPtr := Fin endpointPoolSize

abbrev capTableSize : ℕ := 64

instance neZero_capTableSize : NeZero capTableSize := ⟨by decide⟩

/-- `cap_type_t`. -/
inductive CapType
  | null | endpoint | memory | irq | devport
  deriving DecidableEq, Repr

/-- `cap_err_t`. -/
inductive CapErr
  | ok | errNull | errAccess | errRights | errStale | errFull | errBounds | errType | errState
  | errPool | errOccupied
  deriving DecidableEq, Repr

def capRightSend : UInt32 := 1
def capRightRecv : UInt32 := 2
def capRightDerive : UInt32 := 8

/-- `ep_state_t`. -/
inductive EpState
  | idle | sendWaiting | recvWaiting
  deriving DecidableEq, Repr

/-- `endpoint_t`; `pendingMsg` is a virtual address, zero for NULL. -/
structure Endpoint where
  generation : UInt64
  state : EpState
  pendingMsg : UInt64
  ownerTask : UInt32
  parkedTaskId : UInt32
  deriving DecidableEq, Repr

/-- The `type` and `object` fields of a slot: an endpoint slot refers to its endpoint, the types
reserved for later milestones to nothing. -/
inductive CapObject
  | null | endpoint (ep : EpPtr) | memory | irq | devport
  deriving DecidableEq, Repr

def CapObject.type : CapObject → CapType
  | null => .null
  | endpoint _ => .endpoint
  | memory => .memory
  | irq => .irq
  | devport => .devport

/-- `cap_slot_t`. -/
structure CapSlot where
  object : CapObject
  rights : UInt32
  generation : UInt64
  deriving DecidableEq, Repr

/-- The slot that `cap_table_init` and `cap_free_slot` write. -/
def CapSlot.empty : CapSlot := ⟨.null, 0, 0⟩

/-- `cap_table_t`. -/
abbrev CapTable := Fin capTableSize → CapSlot

/-- The endpoint pool with its in-use flags, and the capability tables by address. -/
structure Caps where
  epPool : EpPtr → Endpoint
  epPoolUsed : EpPtr → Bool
  tables : UInt64 → CapTable

namespace Caps

variable (c : Caps)

def setSlot (table : UInt64) (i : Fin capTableSize) (x : CapSlot) : Caps :=
  { c with tables := Function.update c.tables table (Function.update (c.tables table) i x) }

def setEp (e : EpPtr) (x : Endpoint) : Caps := { c with epPool := Function.update c.epPool e x }

end Caps

/-- The bounds check on a slot index. -/
def slotIndex (idx : UInt32) : Option (Fin capTableSize) :=
  if h : idx.toNat < capTableSize then some ⟨idx.toNat, h⟩ else none

def freeEp (c : Caps) : Option EpPtr :=
  (List.finRange endpointPoolSize).find? fun e => !c.epPoolUsed e

def epPoolAlloc (c : Caps) : Option (EpPtr × Caps) :=
  (freeEp c).map fun e => (e, { c with epPoolUsed := Function.update c.epPoolUsed e true })

def endpointInit (owner : UInt32) : Endpoint := ⟨0, .idle, 0, owner, 0⟩

def endpointRevoke (ep : Endpoint) : Endpoint :=
  { ep with generation := ep.generation + 1, state := .idle, pendingMsg := 0, parkedTaskId := 0 }

def capTableInit (c : Caps) (table : UInt64) : Caps :=
  { c with tables := Function.update c.tables table fun _ => .empty }

def capFreeSlot (c : Caps) (table : UInt64) (idx : UInt32) : CapErr × Caps :=
  match slotIndex idx with
  | none => (.errBounds, c)
  | some i => (.ok, c.setSlot table i .empty)

/-- The generation check: an endpoint slot whose generation is not the endpoint's. -/
def isStale (c : Caps) (slot : CapSlot) : Bool :=
  match slot.object with
  | .endpoint e => (c.epPool e).generation != slot.generation
  | _ => false

/-- `cap_lookup`: the error, or the slot found. -/
def capLookup (c : Caps) (table : UInt64) (idx : UInt32) (expected : CapType)
    (required : UInt32) : Except CapErr CapSlot :=
  match slotIndex idx with
  | none => .error .errBounds
  | some i =>
    let slot := c.tables table i
    if slot.object.type = .null then .error .errNull
    else if slot.object.type ≠ expected then .error .errType
    else if isStale c slot then .error .errStale
    else if slot.rights &&& required ≠ required then .error .errAccess
    else .ok slot

def capDerive (c : Caps) (table : UInt64) (src dst childRights : UInt32) : CapErr × Caps :=
  match slotIndex src, slotIndex dst with
  | some s, some d =>
    let slot := c.tables table s
    if slot.object.type = .null then (.errNull, c)
    else if isStale c slot then (.errStale, c)
    else if childRights &&& ~~~slot.rights ≠ 0 then (.errRights, c)
    else if (c.tables table d).object.type ≠ .null then (.errOccupied, c)
    else (.ok, c.setSlot table d ⟨slot.object, childRights, slot.generation⟩)
  | _, _ => (.errBounds, c)

def capEndpointCreate (c : Caps) (table : UInt64) (idx rights owner : UInt32) : CapErr × Caps :=
  match slotIndex idx with
  | none => (.errBounds, c)
  | some i =>
    if (c.tables table i).object.type ≠ .null then (.errOccupied, c)
    else match epPoolAlloc c with
      | none => (.errPool, c)
      | some (e, c) =>
        let c := c.setEp e (endpointInit owner)
        (.ok, c.setSlot table i ⟨.endpoint e, rights, (c.epPool e).generation⟩)

def capRevokeEndpoint (c : Caps) (table : UInt64) (idx : UInt32) : CapErr × Caps :=
  match slotIndex idx with
  | none => (.errBounds, c)
  | some i =>
    match (c.tables table i).object with
    | .endpoint e => (.ok, c.setEp e (endpointRevoke (c.epPool e)))
    | _ => (.errType, c)

/-! ## What the operations do -/

variable {c : Caps}

@[simp] theorem capObject_type_eq_null {o : CapObject} : o.type = .null ↔ o = .null := by
  cases o <;> simp [CapObject.type]

theorem setSlot_tables (table t : UInt64) (i j : Fin capTableSize) (x : CapSlot) :
    (c.setSlot table i x).tables t j = if t = table ∧ j = i then x else c.tables t j := by
  unfold Caps.setSlot
  by_cases ht : t = table
  · subst ht
    by_cases hj : j = i <;> simp [hj]
  · simp [ht]

@[simp] theorem setSlot_epPool (table : UInt64) (i : Fin capTableSize) (x : CapSlot) :
    (c.setSlot table i x).epPool = c.epPool := rfl
@[simp] theorem setSlot_epPoolUsed (table : UInt64) (i : Fin capTableSize) (x : CapSlot) :
    (c.setSlot table i x).epPoolUsed = c.epPoolUsed := rfl
@[simp] theorem setEp_tables (e : EpPtr) (x : Endpoint) : (c.setEp e x).tables = c.tables := rfl
@[simp] theorem setEp_epPoolUsed (e : EpPtr) (x : Endpoint) :
    (c.setEp e x).epPoolUsed = c.epPoolUsed := rfl

theorem setEp_epPool (e f : EpPtr) (x : Endpoint) :
    (c.setEp e x).epPool f = if f = e then x else c.epPool f := by
  simp only [Caps.setEp, Function.update_apply]

theorem freeEp_some {e : EpPtr} (h : freeEp c = some e) : c.epPoolUsed e = false := by
  simpa using List.find?_some h

theorem capLookup_ok {table : UInt64} {idx : UInt32} {ty : CapType} {r : UInt32} {slot : CapSlot}
    (h : capLookup c table idx ty r = .ok slot) :
    ∃ i, slotIndex idx = some i ∧ c.tables table i = slot ∧ slot.object.type = ty ∧
      slot.object ≠ .null ∧ isStale c slot = false ∧ slot.rights &&& r = r := by
  unfold capLookup at h
  split at h
  · cases h
  · next i hi =>
    dsimp only at h
    split_ifs at h with h₁ h₂ h₃ h₄
    obtain rfl := Except.ok.inj h
    simp only [ne_eq, not_not] at h₂ h₄
    exact ⟨i, hi, rfl, h₂, fun hn => h₁ (by rw [hn]; rfl), by simpa using h₃, h₄⟩

theorem capLookup_ne_ok {table : UInt64} {idx : UInt32} {ty : CapType} {r : UInt32}
    (h : capLookup c table idx ty r = .error .ok) : False := by
  unfold capLookup at h
  split at h
  · cases h
  · dsimp only at h
    split_ifs at h <;> cases h

/-- `cap_derive` fails and changes nothing, or copies a live slot with fewer rights into a free
one of the same table. -/
theorem capDerive_cases (c : Caps) (table : UInt64) (src dst r : UInt32) :
    (∃ e, e ≠ .ok ∧ capDerive c table src dst r = (e, c)) ∨
    ∃ s d, slotIndex src = some s ∧ slotIndex dst = some d ∧
      (c.tables table s).object ≠ .null ∧ isStale c (c.tables table s) = false ∧
      r &&& ~~~(c.tables table s).rights = 0 ∧ (c.tables table d).object = .null ∧
      capDerive c table src dst r = (.ok, c.setSlot table d
        ⟨(c.tables table s).object, r, (c.tables table s).generation⟩) := by
  unfold capDerive
  split
  · next s d hs hd =>
    dsimp only
    split_ifs with h₁ h₂ h₃ h₄
    · exact Or.inl ⟨_, by decide, rfl⟩
    · exact Or.inl ⟨_, by decide, rfl⟩
    · exact Or.inl ⟨_, by decide, rfl⟩
    · exact Or.inl ⟨_, by decide, rfl⟩
    · simp only [ne_eq, not_not] at h₃ h₄
      exact Or.inr ⟨s, d, hs, hd, fun hn => h₁ (by rw [hn]; rfl), by simpa using h₂, h₃,
        capObject_type_eq_null.mp h₄, rfl⟩
  · exact Or.inl ⟨_, by decide, rfl⟩

/-- `cap_endpoint_create` fails and changes nothing, or takes a free endpoint of the pool and
writes a slot for its first generation. -/
theorem capEndpointCreate_cases (c : Caps) (table : UInt64) (idx r owner : UInt32) :
    (∃ e, e ≠ .ok ∧ capEndpointCreate c table idx r owner = (e, c)) ∨
    ∃ i e, slotIndex idx = some i ∧ (c.tables table i).object = .null ∧ freeEp c = some e ∧
      capEndpointCreate c table idx r owner = (.ok,
        (({ c with epPoolUsed := Function.update c.epPoolUsed e true } : Caps).setEp e
          (endpointInit owner)).setSlot table i ⟨.endpoint e, r, 0⟩) := by
  unfold capEndpointCreate
  split
  · exact Or.inl ⟨_, by decide, rfl⟩
  · next i hi =>
    split_ifs with h₁
    · exact Or.inl ⟨_, by decide, rfl⟩
    · simp only [ne_eq, not_not] at h₁
      unfold epPoolAlloc
      cases hf : freeEp c with
      | none => exact Or.inl ⟨_, by decide, rfl⟩
      | some e =>
        refine Or.inr ⟨i, e, hi, capObject_type_eq_null.mp h₁, rfl, ?_⟩
        simp [setEp_epPool, endpointInit]

theorem capRevokeEndpoint_cases (c : Caps) (table : UInt64) (idx : UInt32) :
    (∃ e, e ≠ .ok ∧ capRevokeEndpoint c table idx = (e, c)) ∨
    ∃ i e, slotIndex idx = some i ∧ (c.tables table i).object = .endpoint e ∧
      capRevokeEndpoint c table idx = (.ok, c.setEp e (endpointRevoke (c.epPool e))) := by
  unfold capRevokeEndpoint
  split
  · exact Or.inl ⟨_, by decide, rfl⟩
  · next i hi =>
    split
    · next e he => exact Or.inr ⟨i, e, hi, he, rfl⟩
    · exact Or.inl ⟨_, by decide, rfl⟩

theorem capFreeSlot_cases (c : Caps) (table : UInt64) (idx : UInt32) :
    (∃ e, e ≠ .ok ∧ capFreeSlot c table idx = (e, c)) ∨
    ∃ i, slotIndex idx = some i ∧ capFreeSlot c table idx = (.ok, c.setSlot table i .empty) := by
  unfold capFreeSlot
  split
  · exact Or.inl ⟨_, by decide, rfl⟩
  · next i hi => exact Or.inr ⟨i, hi, rfl⟩

end StyxOS
