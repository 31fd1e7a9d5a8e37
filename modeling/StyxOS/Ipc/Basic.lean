import StyxOS.Cap.Basic
import StyxOS.Library.ByteMem
import StyxOS.Library.Rendezvous
import StyxOS.Sched.Basic

/-! # Capability IPC

The state that `cap_send` and `cap_recv` work on, the two calls of `cap.c`, and
their system calls. A message is copied through the page tables in force when
the copy is made. A copy that touches a page not mapped for it ends in the
exception handler, which halts the machine.
-/

namespace StyxOS

/-- The first address above the user half of an address space. -/
def userTop : ℕ := 0x800000000000

/-- Memory as the page tables show it. Each value of CR3 selects a user half of its own; the
kernel half is one and the same under all of them. -/
structure Memory where
  user : UInt64 → ByteMem.Mem
  kernel : ByteMem.Mem
  readable : UInt64 → ℕ → Bool
  writable : UInt64 → ℕ → Bool
  readable_of_writable : ∀ c a, writable c a = true → readable c a = true

namespace Memory

variable (m : Memory) (c : UInt64)

/-- The bytes that the processor sees under the page tables `c`. -/
def view : ByteMem.Mem := fun a => if a < userTop then m.user c a else m.kernel a

/-- Store bytes through the page tables `c`. -/
def write (a : ℕ) (bs : List UInt8) : Memory :=
  let v := ByteMem.store (m.view c) a bs
  { m with
    user := Function.update m.user c v
    kernel := fun x => if x < userTop then m.kernel x else v x }

def canRead (a n : ℕ) : Bool := (List.range n).all fun i => m.readable c (a + i)

def canWrite (a n : ℕ) : Bool := (List.range n).all fun i => m.writable c (a + i)

end Memory

/-- `sizeof(ipc_msg_t)`. -/
def ipcMsgSize : ℕ := 48

/-- The message that the buffer at `a` holds, if the whole of it is mapped. -/
def readMsg (m : Memory) (c : UInt64) (a : UInt64) : Option (List UInt8) :=
  if m.canRead c a.toNat ipcMsgSize then some (ByteMem.load (m.view c) a.toNat ipcMsgSize) else none

/-- The assignment `*dst = *src` of messages; `none` is a page fault. -/
def copyMsg (m : Memory) (c : UInt64) (dst src : UInt64) : Option Memory :=
  match readMsg m c src with
  | none => none
  | some bs => if m.canWrite c dst.toNat ipcMsgSize then some (m.write c dst.toNat bs) else none

/-- The capability tables and endpoints, the scheduler, and memory; `halted` once the exception
handler has stopped the machine. -/
structure Kernel where
  caps : Caps
  sched : Sched
  memory : Memory
  halted : Bool

/-- The side of a rendezvous that a call takes. -/
abbrev IpcDir := Rendezvous.Side

namespace IpcDir

def right : IpcDir → UInt32
  | .send => capRightSend
  | .recv => capRightRecv

/-- The state of an endpoint whose caller on this side is parked. -/
def waiting : IpcDir → EpState
  | .send => .sendWaiting
  | .recv => .recvWaiting

/-- Destination and source of the copy made by a caller on this side: `*ep->pending_msg = *msg` in
`cap_send`, `*out = *ep->pending_msg` in `cap_recv`. -/
def buffers (d : IpcDir) (pending buf : UInt64) : UInt64 × UInt64 :=
  match d with
  | .send => (pending, buf)
  | .recv => (buf, pending)

end IpcDir

/-- The copy of a rendezvous, skipped when `pending_msg` is NULL. -/
def transferMsg (d : IpcDir) (m : Memory) (c pending buf : UInt64) : Option Memory :=
  if pending = 0 then some m
  else copyMsg m c (IpcDir.buffers d pending buf).1 (IpcDir.buffers d pending buf).2

def Endpoint.idle (ep : Endpoint) : Endpoint :=
  { ep with state := .idle, pendingMsg := 0, parkedTaskId := 0 }

/-- The endpoint whose caller on side `d` waits with its buffer at `buf`. -/
def Endpoint.park (ep : Endpoint) (d : IpcDir) (buf : UInt64) (id : UInt32) : Endpoint :=
  { ep with state := IpcDir.waiting d, pendingMsg := buf, parkedTaskId := id }

/-- Unpark the task with this identifier; zero stands for none. -/
def unparkTask (s : Sched) (id : UInt32) : Sched :=
  if id = 0 then s else schedUnblock s (taskGet s.taskTable id)

/-- Park the current task unless it is the kernel task: the identifier stored in the endpoint, and
the scheduler after `sched_block`. -/
def parkCurrent (K : KernelLayout) (cpu : TaskRegs) (s : Sched) : UInt32 × Sched :=
  match s.current with
  | some t =>
    if (s.taskTable t).id ≠ 0 then ((s.taskTable t).id, schedBlock K cpu s (some t)) else (0, s)
  | none => (0, s)

/-- The body that `cap_send` and `cap_recv` share once the lookup has found the endpoint. The error
is `none` when the copy faults. -/
def rendezvous (K : KernelLayout) (cpu : TaskRegs) (d : IpcDir) (k : Kernel) (e : EpPtr)
    (buf : UInt64) : Option CapErr × Kernel :=
  let ep := k.caps.epPool e
  if ep.state = IpcDir.waiting d.other then
    match transferMsg d k.memory k.sched.cr3 ep.pendingMsg buf with
    | none => (none, { k with halted := true })
    | some m => (some .ok,
      { k with
        caps := k.caps.setEp e ep.idle
        sched := unparkTask k.sched ep.parkedTaskId
        memory := m })
  else if ep.state = .idle then
    let p := parkCurrent K cpu k.sched
    (some .ok, { k with caps := k.caps.setEp e (ep.park d buf p.1), sched := p.2 })
  else (some .errState, k)

/-- `cap_send` and `cap_recv` up to the side of the rendezvous. -/
def capTransfer (K : KernelLayout) (cpu : TaskRegs) (d : IpcDir) (k : Kernel) (table : UInt64)
    (slotIdx : UInt32) (buf : UInt64) : Option CapErr × Kernel :=
  match capLookup k.caps table slotIdx .endpoint (IpcDir.right d) with
  | .error err => (some err, k)
  | .ok slot =>
    match slot.object with
    | .endpoint e => rendezvous K cpu d k e buf
    | _ => (some .errType, k)

def capSend (K : KernelLayout) (cpu : TaskRegs) (k : Kernel) (table : UInt64) (slotIdx : UInt32)
    (msg : UInt64) : Option CapErr × Kernel := capTransfer K cpu .send k table slotIdx msg

def capRecv (K : KernelLayout) (cpu : TaskRegs) (k : Kernel) (table : UInt64) (slotIdx : UInt32)
    (out : UInt64) : Option CapErr × Kernel := capTransfer K cpu .recv k table slotIdx out

def sysretOk : ℤ := 0
def sysretEbadcall : ℤ := -1
def sysretEaccess : ℤ := -2
def sysretEfault : ℤ := -3

def CapErr.code : CapErr → ℕ
  | ok => 0
  | errNull => 1
  | errAccess => 2
  | errRights => 3
  | errStale => 4
  | errFull => 5
  | errBounds => 6
  | errType => 7
  | errState => 8
  | errPool => 9
  | errOccupied => 10

/-- The check that the cases of `syscall_dispatch` make on a pointer and a length, in 64 bits. -/
def badRange (base len : UInt64) : Bool :=
  base ≥ 0x800000000000 || base + len ≥ 0x800000000000

/-- The SYS_CAP_SEND and SYS_CAP_RECV cases of `syscall_dispatch`, with its check for a current
task. The result is `none` when the call faults. -/
def sysCapTransfer (K : KernelLayout) (cpu : TaskRegs) (d : IpcDir) (k : Kernel)
    (arg0 arg1 : UInt64) : Option ℤ × Kernel :=
  match k.sched.current with
  | none => (some sysretEaccess, k)
  | some cur =>
    if badRange arg1 (UInt64.ofNat ipcMsgSize) then (some sysretEfault, k) else
    let r := capTransfer K cpu d k (k.sched.taskTable cur).capTable arg0.toUInt32 arg1
    (r.1.map fun err => if err = .ok then sysretOk else -(err.code : ℤ), r.2)

/-! ## What the calls do -/

namespace Memory

variable {m : Memory} {c c' : UInt64} {a n : ℕ} {bs : List UInt8}

theorem view_write_self (h : a + bs.length ≤ userTop) :
    (m.write c a bs).view c = ByteMem.store (m.view c) a bs := by
  funext x
  simp only [view, write, Function.update_self]
  split
  · rfl
  · next hx => rw [ByteMem.store_apply_of_ge (by omega), view, if_neg hx]

theorem view_write_of_ne (hc : c' ≠ c) (h : a + bs.length ≤ userTop) :
    (m.write c a bs).view c' = m.view c' := by
  funext x
  simp only [view, write, Function.update_of_ne hc]
  split
  · rfl
  · next hx => rw [ByteMem.store_apply_of_ge (by omega), view, if_neg hx]

@[simp] theorem canRead_write {a' n' : ℕ} :
    (m.write c a bs).canRead c' a' n' = m.canRead c' a' n' := rfl

theorem canRead_of_canWrite (h : m.canWrite c a n = true) : m.canRead c a n = true := by
  simp only [canWrite, canRead, List.all_eq_true] at h ⊢
  exact fun i hi => m.readable_of_writable c _ (h i hi)

end Memory

theorem readMsg_eq_some {m : Memory} {c a : UInt64} {bs : List UInt8} :
    readMsg m c a = some bs ↔ m.canRead c a.toNat ipcMsgSize = true ∧
      ByteMem.load (m.view c) a.toNat ipcMsgSize = bs := by
  unfold readMsg
  split
  · next h => simp [h]
  · next h => simp [h]

theorem length_of_readMsg {m : Memory} {c a : UInt64} {bs : List UInt8}
    (h : readMsg m c a = some bs) : bs.length = ipcMsgSize := by
  rw [← (readMsg_eq_some.mp h).2, ByteMem.length_load]

theorem readMsg_write_self {m : Memory} {c a : UInt64} {bs : List UInt8}
    (ha : a.toNat + ipcMsgSize ≤ userTop) (hl : bs.length = ipcMsgSize)
    (hr : m.canRead c a.toNat ipcMsgSize = true) :
    readMsg (m.write c a.toNat bs) c a = some bs := by
  refine readMsg_eq_some.mpr ⟨hr, ?_⟩
  rw [Memory.view_write_self (by omega), ← hl]
  exact ByteMem.load_store_same

theorem copyMsg_eq_some {m m' : Memory} {c dst src : UInt64} :
    copyMsg m c dst src = some m' ↔ ∃ bs, readMsg m c src = some bs ∧
      m.canWrite c dst.toNat ipcMsgSize = true ∧ m' = m.write c dst.toNat bs := by
  unfold copyMsg
  cases h : readMsg m c src with
  | none => simp
  | some bs =>
    dsimp only
    split
    · next hw => simp [hw, eq_comm]
    · next hw => simp [hw]

/-- The buffers of a copy that does not fault: both are mapped, unless the copy is skipped. -/
def CopyMapped (d : IpcDir) (m : Memory) (c pending buf : UInt64) : Prop :=
  pending ≠ 0 →
    m.canRead c (IpcDir.buffers d pending buf).2.toNat ipcMsgSize = true ∧
    m.canWrite c (IpcDir.buffers d pending buf).1.toNat ipcMsgSize = true

theorem copyMapped_iff {d : IpcDir} {m : Memory} {c pending buf : UInt64} :
    CopyMapped d m c pending buf ↔ ∃ m', transferMsg d m c pending buf = some m' := by
  unfold CopyMapped transferMsg
  split
  · next h => simp [h]
  · next h =>
    simp only [ne_eq, h, not_false_eq_true, forall_const, copyMsg_eq_some, readMsg_eq_some]
    constructor
    · rintro ⟨hr, hw⟩
      exact ⟨_, _, ⟨hr, rfl⟩, hw, rfl⟩
    · rintro ⟨_, _, ⟨hr, -⟩, hw, -⟩
      exact ⟨hr, hw⟩

theorem badRange_eq_false {base : UInt64} {n : ℕ} (hn : n < 2 ^ 63)
    (h : badRange base (UInt64.ofNat n) = false) : base.toNat + n < userTop := by
  simp only [badRange, Bool.or_eq_false_iff, decide_eq_false_iff_not, ge_iff_le,
    UInt64.le_iff_toNat_le,
    UInt64.toNat_add, UInt64.toNat_ofNat'] at h
  have h₁ : (0x800000000000 : UInt64).toNat = userTop := rfl
  rw [h₁, Nat.mod_eq_of_lt (by omega : n < 2 ^ 64)] at h
  unfold userTop at h ⊢
  omega

/-- The three outcomes of a call once the endpoint is found. -/
theorem rendezvous_cases (K : KernelLayout) (cpu : TaskRegs) (d : IpcDir) (k : Kernel) (e : EpPtr)
    (buf : UInt64) :
    ((k.caps.epPool e).state = IpcDir.waiting d.other ∧
      ((transferMsg d k.memory k.sched.cr3 (k.caps.epPool e).pendingMsg buf = none ∧
        rendezvous K cpu d k e buf = (none, { k with halted := true })) ∨
      ∃ m, transferMsg d k.memory k.sched.cr3 (k.caps.epPool e).pendingMsg buf = some m ∧
        rendezvous K cpu d k e buf = (some .ok,
          { k with
            caps := k.caps.setEp e (k.caps.epPool e).idle
            sched := unparkTask k.sched (k.caps.epPool e).parkedTaskId
            memory := m }))) ∨
    ((k.caps.epPool e).state = .idle ∧
      rendezvous K cpu d k e buf = (some .ok,
        { k with
          caps := k.caps.setEp e ((k.caps.epPool e).park d buf (parkCurrent K cpu k.sched).1)
          sched := (parkCurrent K cpu k.sched).2 })) ∨
    ((k.caps.epPool e).state = IpcDir.waiting d ∧
      rendezvous K cpu d k e buf = (some .errState, k)) := by
  unfold rendezvous
  dsimp only
  split
  · next h =>
    refine Or.inl ⟨h, ?_⟩
    cases ht : transferMsg d k.memory k.sched.cr3 (k.caps.epPool e).pendingMsg buf with
    | none => exact Or.inl ⟨rfl, rfl⟩
    | some m => exact Or.inr ⟨m, rfl, rfl⟩
  · next h =>
    right
    split
    · next hi => exact Or.inl ⟨hi, rfl⟩
    · next hi =>
      refine Or.inr ⟨?_, rfl⟩
      cases d <;> cases hs : (k.caps.epPool e).state <;>
        simp_all [Rendezvous.Side.other, IpcDir.waiting]

/-- A call fails and changes nothing, or goes to the endpoint of a live slot with the right. -/
theorem capTransfer_cases (K : KernelLayout) (cpu : TaskRegs) (d : IpcDir) (k : Kernel)
    (table : UInt64) (slotIdx : UInt32) (buf : UInt64) :
    (∃ err, err ≠ .ok ∧ capTransfer K cpu d k table slotIdx buf = (some err, k)) ∨
    ∃ slot e, capLookup k.caps table slotIdx .endpoint (IpcDir.right d) = .ok slot ∧
      slot.object = .endpoint e ∧
      capTransfer K cpu d k table slotIdx buf = rendezvous K cpu d k e buf := by
  unfold capTransfer
  cases h : capLookup k.caps table slotIdx .endpoint (IpcDir.right d) with
  | error err =>
    refine Or.inl ⟨err, ?_, rfl⟩
    rintro rfl
    exact capLookup_ne_ok h
  | ok slot =>
    obtain ⟨i, -, -, hty, -⟩ := capLookup_ok h
    cases ho : slot.object with
    | endpoint e => exact Or.inr ⟨slot, e, rfl, ho, by dsimp only; rw [ho]⟩
    | _ => rw [ho] at hty; cases hty

end StyxOS
