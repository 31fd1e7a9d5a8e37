import StyxOS.Ipc.Basic
import StyxOS.Library.Run
import StyxOS.Sched.Space

/-! # Delivery across address spaces

A history sets the calls of the user tasks beside synchronous channels, one for
each endpoint. The endpoints pair sends with receives as the channels do, in
every run. What the copy of a rendezvous delivers is another matter: the parked
caller's buffer is a virtual address, and the copy resolves it in the address
space of the task that runs when the other caller arrives.
-/

namespace StyxOS

open StepSystem

/-- What a caller passed: its task, its buffer, and the message that the buffer held at the call,
in the caller's own address space. -/
structure Party where
  task : TaskPtr
  buf : UInt64
  msg : Option (List UInt8)

/-- What can happen between two states of a run. `store` is a write by the running user code. -/
inductive IpcOp
  | call (d : IpcDir) (cpu : TaskRegs) (arg0 arg1 : UInt64)
  | tick (cpu : TaskRegs)
  | yield (cpu : TaskRegs)
  | exit (cpu : TaskRegs)
  | revoke (table : UInt64) (slotIdx : UInt32)
  | store (a : ℕ) (bs : List UInt8)

/-- A kernel with the channels that its endpoints stand for. -/
structure IpcHistory where
  kernel : Kernel
  chans : Rendezvous.State EpPtr Party

/-- The task whose user code runs: a current task with page tables of its own. -/
def userTask (s : Sched) : Option TaskPtr := s.current.filter fun t => HasSpace s t

/-- The endpoint of the slot that a call names, if the lookup accepts it. -/
def callEndpoint (k : Kernel) (d : IpcDir) (t : TaskPtr) (arg0 : UInt64) : Option EpPtr :=
  match capLookup k.caps (k.sched.taskTable t).capTable arg0.toUInt32 .endpoint
      (IpcDir.right d) with
  | .error _ => none
  | .ok slot =>
    match slot.object with
    | .endpoint e => some e
    | _ => none

/-- A write by user code; outside its writable pages it ends in the exception handler. -/
def userStore (k : Kernel) (a : ℕ) (bs : List UInt8) : Kernel :=
  if a + bs.length ≤ userTop ∧ k.memory.canWrite k.sched.cr3 a bs.length then
    { k with memory := k.memory.write k.sched.cr3 a bs }
  else { k with halted := true }

namespace IpcHistory

def party (K : KernelLayout) (h : IpcHistory) (t : TaskPtr) (buf : UInt64) : Party :=
  ⟨t, buf, readMsg h.kernel.memory (taskSpace K h.kernel.sched t) buf⟩

/-- An accepted call is a call on the channel of its endpoint. -/
def noteCall (K : KernelLayout) (h : IpcHistory) (t : TaskPtr) (d : IpcDir) (arg0 arg1 : UInt64) :
    Rendezvous.State EpPtr Party :=
  match callEndpoint h.kernel d t arg0 with
  | none => h.chans
  | some e => Rendezvous.call h.chans d e (h.party K t arg1)

def noteRevoke (h : IpcHistory) (table : UInt64) (slotIdx : UInt32) :
    Rendezvous.State EpPtr Party :=
  match slotIndex slotIdx with
  | none => h.chans
  | some i =>
    match (h.kernel.caps.tables table i).object with
    | .endpoint e => Rendezvous.drop h.chans e
    | _ => h.chans

def stepCall (K : KernelLayout) (h : IpcHistory) (d : IpcDir) (cpu : TaskRegs)
    (arg0 arg1 : UInt64) : IpcHistory :=
  match userTask h.kernel.sched with
  | none => h
  | some t =>
    let r := sysCapTransfer K cpu d h.kernel arg0 arg1
    ⟨r.2, if r.1 = some sysretOk then h.noteCall K t d arg0 arg1 else h.chans⟩

def withSched (h : IpcHistory) (s : Sched) : IpcHistory :=
  { h with kernel := { h.kernel with sched := s } }

def step (K : KernelLayout) (h : IpcHistory) (op : IpcOp) : IpcHistory :=
  if h.kernel.halted then h else
  match op with
  | .call d cpu arg0 arg1 => h.stepCall K d cpu arg0 arg1
  | .tick cpu => h.withSched (schedTick K cpu h.kernel.sched)
  | .yield cpu => h.withSched (schedYield K cpu h.kernel.sched)
  | .exit cpu => h.withSched (sysExit K cpu h.kernel.sched)
  | .revoke table i =>
    ⟨{ h.kernel with caps := (capRevokeEndpoint h.kernel.caps table i).2 }, h.noteRevoke table i⟩
  | .store a bs =>
    match userTask h.kernel.sched with
    | none => h
    | some _ => { h with kernel := userStore h.kernel a bs }

/-- The step is a call on side `d` by `me` that returns OK on an endpoint where the call `w` of the
other side waits. -/
def Completes (K : KernelLayout) (h : IpcHistory) (op : IpcOp) (d : IpcDir) (w : Party)
    (me : Party) : Prop :=
  ∃ cpu arg0 e n, op = .call d cpu arg0 me.buf ∧ h.kernel.halted = false ∧
    userTask h.kernel.sched = some me.task ∧ me = h.party K me.task me.buf ∧
    callEndpoint h.kernel d me.task arg0 = some e ∧
    h.chans.waiting e = some ⟨n, d.other, w⟩ ∧
    (sysCapTransfer K cpu d h.kernel arg0 me.buf).1 = some sysretOk

end IpcHistory

/-- The sender of a rendezvous that `me` completes on side `d`. -/
def sender (d : IpcDir) (w me : Party) : Party :=
  match d with
  | .send => me
  | .recv => w

def receiver (d : IpcDir) (w me : Party) : Party :=
  match d with
  | .send => w
  | .recv => me

/-- The endpoint is in the state that its channel is in, with the waiting caller's buffer. -/
def EndpointMatches (ep : Endpoint) : Option (Rendezvous.Offer Party) → Prop
  | none => ep.state = .idle ∧ ep.pendingMsg = 0
  | some w => ep.state = IpcDir.waiting w.side ∧ ep.pendingMsg = w.info.buf

/-- The property of a step: the endpoints pair calls as the channels do, every call is accounted
for, calls are dropped by revocation only; and when the step completes a rendezvous, the receiver's
buffer holds, in the receiver's address space, the message that the sender's buffer held in the
sender's when it called, and no other task's memory has changed. -/
structure IpcHistory.Delivers (K : KernelLayout) (h : IpcHistory) (op : IpcOp) : Prop where
  accounted : Rendezvous.Accounted (h.step K op).chans
  linked : ∀ e, EndpointMatches ((h.step K op).kernel.caps.epPool e)
    ((h.step K op).chans.waiting e)
  dropped : (h.step K op).chans.dropped = h.chans.dropped ∨ ∃ table i, op = .revoke table i
  delivered : ∀ d w me, h.Completes K op d w me → ∀ bs, (sender d w me).msg = some bs →
    readMsg (h.step K op).kernel.memory (taskSpace K h.kernel.sched (receiver d w me).task)
      (receiver d w me).buf = some bs
  others : ∀ d w me, h.Completes K op d w me → ∀ t, t ≠ (receiver d w me).task →
    HasSpace h.kernel.sched t →
    (h.step K op).kernel.memory.view (taskSpace K h.kernel.sched t) =
      h.kernel.memory.view (taskSpace K h.kernel.sched t)

/-- The bytes are where the copy of a rendezvous needs them. For a receive: the running task's
address space shows the message of the waiting sender at the sender's buffer, or at its own if the
sender's is NULL. For a send: the waiting receiver is the running task itself, or the message is
already in the receiver's buffer and, unless that is NULL, at the same address of the sender. -/
def InPlace (K : KernelLayout) (h : IpcHistory) (t : TaskPtr) (d : IpcDir) (w : Party)
    (buf : UInt64) : Prop :=
  let shown := readMsg h.kernel.memory (taskSpace K h.kernel.sched t)
  match d with
  | .recv => ∀ bs, w.msg = some bs → shown (if w.buf = 0 then buf else w.buf) = some bs
  | .send => ∀ bs, shown buf = some bs → w.task = t ∧ w.buf ≠ 0 ∨
      readMsg h.kernel.memory (taskSpace K h.kernel.sched w.task) w.buf = some bs ∧
        (w.buf = 0 ∨ shown w.buf = some bs)

/-- The condition on a step: where its call finds the other side waiting and both buffers are
mapped in the running task's address space, the bytes are in place. -/
def IpcHistory.Fits (K : KernelLayout) (h : IpcHistory) : IpcOp → Prop
  | .call d _ arg0 buf => h.kernel.halted = false → ∀ t e n w,
    userTask h.kernel.sched = some t → callEndpoint h.kernel d t arg0 = some e →
    h.chans.waiting e = some ⟨n, d.other, w⟩ → badRange buf (UInt64.ofNat ipcMsgSize) = false →
    CopyMapped d h.kernel.memory (taskSpace K h.kernel.sched t) w.buf buf → InPlace K h t d w buf
  | _ => True

/-! ## One rendezvous -/

variable {K : KernelLayout}

section Copy

variable {m m' : Memory} {c p buf : UInt64}

/-- A receive that completes leaves in its buffer what its own address space shows at the sender's
buffer. -/
theorem readMsg_transfer_recv (hbuf : buf.toNat + ipcMsgSize ≤ userTop)
    (ht : transferMsg .recv m c p buf = some m') (bs : List UInt8) :
    readMsg m' c buf = some bs ↔ readMsg m c (if p = 0 then buf else p) = some bs := by
  unfold transferMsg at ht
  split at ht
  · next hp => rw [if_pos hp, Option.some.inj ht]
  · next hp =>
    obtain ⟨bs₀, hr, hw, rfl⟩ := copyMsg_eq_some.mp ht
    change readMsg m c p = some bs₀ at hr
    rw [if_neg hp, hr]
    have := readMsg_write_self hbuf (length_of_readMsg hr) (Memory.canRead_of_canWrite hw)
    exact Eq.congr_left this

theorem view_transfer_of_ne {d : IpcDir} {c' : UInt64} (hc : c' ≠ c)
    (hbuf : buf.toNat + ipcMsgSize ≤ userTop) (hp : p.toNat + ipcMsgSize ≤ userTop)
    (ht : transferMsg d m c p buf = some m') : m'.view c' = m.view c' := by
  unfold transferMsg at ht
  split at ht
  · rw [Option.some.inj ht]
  · obtain ⟨bs, hr, hw, rfl⟩ := copyMsg_eq_some.mp ht
    refine Memory.view_write_of_ne hc ?_
    rw [length_of_readMsg hr]
    cases d <;> assumption

theorem readMsg_transfer_of_ne {d : IpcDir} {c' a : UInt64} (hc : c' ≠ c)
    (hbuf : buf.toNat + ipcMsgSize ≤ userTop) (hp : p.toNat + ipcMsgSize ≤ userTop)
    (ht : transferMsg d m c p buf = some m') : readMsg m' c' a = readMsg m c' a := by
  have hv := view_transfer_of_ne hc hbuf hp ht
  unfold transferMsg at ht
  split at ht
  · rw [Option.some.inj ht]
  · obtain ⟨bs, hr, hw, rfl⟩ := copyMsg_eq_some.mp ht
    unfold readMsg
    rw [hv, Memory.canRead_write]

theorem readMsg_transfer_send (hp0 : p ≠ 0) (hp : p.toNat + ipcMsgSize ≤ userTop)
    (ht : transferMsg .send m c p buf = some m') : readMsg m' c p = readMsg m c buf := by
  rw [transferMsg, if_neg hp0] at ht
  obtain ⟨bs, hr, hw, rfl⟩ := copyMsg_eq_some.mp ht
  change readMsg m c buf = some bs at hr
  rw [hr]
  exact readMsg_write_self hp (length_of_readMsg hr) (Memory.canRead_of_canWrite hw)

theorem view_transfer_send (hp : p.toNat + ipcMsgSize ≤ userTop) {bs : List UInt8}
    (hbs : readMsg m c buf = some bs) (ht : transferMsg .send m c p buf = some m') :
    m'.view c = m.view c ↔ p = 0 ∨ readMsg m c p = some bs := by
  unfold transferMsg at ht
  split at ht
  · next hp0 => simp [hp0, Option.some.inj ht]
  · next hp0 =>
    obtain ⟨bs', hr, hw, rfl⟩ := copyMsg_eq_some.mp ht
    obtain rfl : bs = bs' := Option.some.inj (hbs.symm.trans hr)
    have hl := length_of_readMsg hr
    change (m.write c p.toNat bs).view c = m.view c ↔ _
    rw [Memory.view_write_self (by omega), ByteMem.store_eq_self_iff, hl, readMsg_eq_some]
    have hcr : m.canRead c p.toNat ipcMsgSize = true := Memory.canRead_of_canWrite hw
    simp [hp0, hcr]

end Copy

/-! ## The invariant -/

structure IpcHistory.Inv (K : KernelLayout) (h : IpcHistory) : Prop where
  space : SpaceInv K h.kernel.sched
  accounted : Rendezvous.Accounted h.chans
  linked : ∀ e, EndpointMatches (h.kernel.caps.epPool e) (h.chans.waiting e)
  parties : ∀ e w, h.chans.waiting e = some w →
    HasSpace h.kernel.sched w.info.task ∧ w.info.buf.toNat + ipcMsgSize ≤ userTop

theorem userTask_eq_some {s : Sched} {t : TaskPtr} :
    userTask s = some t ↔ s.current = some t ∧ HasSpace s t := by
  simp [userTask, Option.filter_eq_some_iff]

theorem callEndpoint_eq_some {k : Kernel} {d : IpcDir} {t : TaskPtr} {arg0 : UInt64} {e : EpPtr}
    (h : callEndpoint k d t arg0 = some e) (K : KernelLayout) (cpu : TaskRegs) (buf : UInt64) :
    capTransfer K cpu d k (k.sched.taskTable t).capTable arg0.toUInt32 buf =
      rendezvous K cpu d k e buf := by
  cases hok : capLookup k.caps (k.sched.taskTable t).capTable arg0.toUInt32 .endpoint
      (IpcDir.right d) with
  | error err =>
    rw [callEndpoint, hok] at h
    cases h
  | ok slot =>
    rw [callEndpoint, hok] at h
    rw [capTransfer, hok]
    dsimp only at h ⊢
    cases ho : slot.object with
    | endpoint e' =>
      rw [ho] at h
      obtain rfl := Option.some.inj h
      rfl
    | _ =>
      rw [ho] at h
      cases h

theorem callEndpoint_eq_none {k : Kernel} {d : IpcDir} {t : TaskPtr} {arg0 : UInt64}
    (h : callEndpoint k d t arg0 = none) (K : KernelLayout) (cpu : TaskRegs) (buf : UInt64) :
    ∃ err, err ≠ .ok ∧ capTransfer K cpu d k (k.sched.taskTable t).capTable arg0.toUInt32 buf =
      (some err, k) := by
  rcases capTransfer_cases K cpu d k (k.sched.taskTable t).capTable arg0.toUInt32 buf with
    he | ⟨slot, e, hok, ho, -⟩
  · exact he
  · simp [callEndpoint, hok, ho] at h

theorem errCode_ne_ok {err : CapErr} (h : err ≠ .ok) :
    some (if err = .ok then sysretOk else -(err.code : ℤ)) ≠ some sysretOk := by
  cases err <;> simp [CapErr.code, sysretOk] at h ⊢

theorem EndpointMatches.of_idle {ep : Endpoint} {o : Option (Rendezvous.Offer Party)}
    (h : EndpointMatches ep o) (hs : ep.state = .idle) : o = none := by
  cases o with
  | none => rfl
  | some w =>
    have hw := h.1
    rw [hs] at hw
    cases hside : w.side <;> rw [hside] at hw <;> cases hw

theorem EndpointMatches.of_waiting {ep : Endpoint} {o : Option (Rendezvous.Offer Party)}
    (h : EndpointMatches ep o) {d : IpcDir} (hs : ep.state = IpcDir.waiting d) :
    ∃ n w, o = some ⟨n, d, w⟩ ∧ ep.pendingMsg = w.buf := by
  cases o with
  | none =>
    have hw := h.1
    rw [hs] at hw
    cases d <;> cases hw
  | some w =>
    obtain ⟨n, side, w⟩ := w
    have hw := h.1
    rw [hs] at hw
    obtain rfl : d = side := by cases d <;> cases side <;> first | rfl | cases hw
    exact ⟨n, w, rfl, h.2⟩

namespace IpcHistory

variable {h : IpcHistory}

/-- What a system call of a user task does: it is refused, it faults in the copy, it waits, or it
meets the call that waits on the other side. -/
inductive CallOutcome (K : KernelLayout) (cpu : TaskRegs) (h : IpcHistory) (t : TaskPtr)
    (d : IpcDir) (arg0 buf : UInt64) : Option ℤ × Kernel → Prop
  | refused {ret : Option ℤ} (hret : ret ≠ some sysretOk)
      (hwhy : badRange buf (UInt64.ofNat ipcMsgSize) = true ∨
        callEndpoint h.kernel d t arg0 = none ∨
        ∃ e w, callEndpoint h.kernel d t arg0 = some e ∧ h.chans.waiting e = some w ∧ w.side = d) :
      CallOutcome K cpu h t d arg0 buf (ret, h.kernel)
  | faults {e : EpPtr} {n : ℕ} {w : Party} (he : callEndpoint h.kernel d t arg0 = some e)
      (hw : h.chans.waiting e = some ⟨n, d.other, w⟩)
      (hm : transferMsg d h.kernel.memory (taskSpace K h.kernel.sched t) w.buf buf = none) :
      CallOutcome K cpu h t d arg0 buf (none, { h.kernel with halted := true })
  | waits {e : EpPtr} (he : callEndpoint h.kernel d t arg0 = some e)
      (hw : h.chans.waiting e = none) (hr : buf.toNat + ipcMsgSize ≤ userTop) :
      CallOutcome K cpu h t d arg0 buf (some sysretOk,
        { h.kernel with
          caps := h.kernel.caps.setEp e
            ((h.kernel.caps.epPool e).park d buf (parkCurrent K cpu h.kernel.sched).1)
          sched := (parkCurrent K cpu h.kernel.sched).2 })
  | meets {e : EpPtr} {n : ℕ} {w : Party} {m : Memory}
      (he : callEndpoint h.kernel d t arg0 = some e)
      (hw : h.chans.waiting e = some ⟨n, d.other, w⟩) (hr : buf.toNat + ipcMsgSize ≤ userTop)
      (hbad : badRange buf (UInt64.ofNat ipcMsgSize) = false)
      (hm : transferMsg d h.kernel.memory (taskSpace K h.kernel.sched t) w.buf buf = some m) :
      CallOutcome K cpu h t d arg0 buf (some sysretOk,
        { h.kernel with
          caps := h.kernel.caps.setEp e (h.kernel.caps.epPool e).idle
          sched := unparkTask h.kernel.sched (h.kernel.caps.epPool e).parkedTaskId
          memory := m })

theorem Inv.call_outcome (hi : h.Inv K) {t : TaskPtr} (ht : userTask h.kernel.sched = some t)
    (d : IpcDir) (cpu : TaskRegs) (arg0 buf : UInt64) :
    CallOutcome K cpu h t d arg0 buf (sysCapTransfer K cpu d h.kernel arg0 buf) := by
  obtain ⟨hcur, hspace⟩ := userTask_eq_some.mp ht
  have hcr3 : h.kernel.sched.cr3 = taskSpace K h.kernel.sched t := hi.space.loaded t hcur hspace
  unfold sysCapTransfer
  rw [hcur]
  dsimp only
  split
  · next hbad => exact .refused (by decide) (Or.inl hbad)
  · next hbad =>
    rw [Bool.not_eq_true] at hbad
    have hr := (badRange_eq_false (by decide) hbad).le
    cases he : callEndpoint h.kernel d t arg0 with
    | none =>
      obtain ⟨err, hne, hc⟩ := callEndpoint_eq_none he K cpu buf
      rw [hc]
      exact .refused (errCode_ne_ok hne) (Or.inr (Or.inl he))
    | some e =>
      rw [callEndpoint_eq_some he K cpu buf]
      rcases rendezvous_cases K cpu d h.kernel e buf with
        ⟨hs, hout⟩ | ⟨hs, hout⟩ | ⟨hs, hout⟩
      · obtain ⟨n, w, hw, hp⟩ := (hi.linked e).of_waiting hs
        rw [hp, hcr3] at hout
        rcases hout with ⟨hm, hout⟩ | ⟨m, hm, hout⟩
        · rw [hout]
          exact .faults he hw hm
        · rw [hout]
          exact .meets he hw hr hbad hm
      · rw [hout]
        exact .waits he ((hi.linked e).of_idle hs) hr
      · obtain ⟨n, w, hw, -⟩ := (hi.linked e).of_waiting hs
        rw [hout]
        exact .refused (errCode_ne_ok (by decide)) (Or.inr (Or.inr ⟨e, _, he, hw, rfl⟩))

theorem Inv.withSched (hi : h.Inv K) {s : Sched} (hs : SpaceInv K s)
    (hfix : ∀ t, (s.taskTable t).fixed = (h.kernel.sched.taskTable t).fixed) :
    (h.withSched s).Inv K where
  space := hs
  accounted := hi.accounted
  linked := hi.linked
  parties e w hw := by
    obtain ⟨hsp, hb⟩ := hi.parties e w hw
    exact ⟨(hasSpace_congr (hfix _)).mpr hsp, hb⟩

theorem parkCurrent_space (hs : SpaceInv K h.kernel.sched) (cpu : TaskRegs) :
    SpaceInv K (parkCurrent K cpu h.kernel.sched).2 ∧ ∀ t,
      ((parkCurrent K cpu h.kernel.sched).2.taskTable t).fixed =
        (h.kernel.sched.taskTable t).fixed := by
  unfold parkCurrent
  split
  · split
    · exact ⟨hs.block cpu _, fun t => schedBlock_fixed hs.startHead cpu _ t⟩
    · exact ⟨hs, fun _ => rfl⟩
  · exact ⟨hs, fun _ => rfl⟩

theorem unparkTask_space (hs : SpaceInv K h.kernel.sched) (id : UInt32) :
    SpaceInv K (unparkTask h.kernel.sched id) ∧ ∀ t,
      ((unparkTask h.kernel.sched id).taskTable t).fixed =
        (h.kernel.sched.taskTable t).fixed := by
  unfold unparkTask
  split
  · exact ⟨hs, fun _ => rfl⟩
  · exact ⟨hs.unblock _, fun t => schedUnblock_fixed _ t⟩

theorem Inv.linked_update (hi : h.Inv K) {e : EpPtr} {x : Endpoint}
    {o : Option (Rendezvous.Offer Party)} (hx : EndpointMatches x o) (f : EpPtr) :
    EndpointMatches ((h.kernel.caps.setEp e x).epPool f)
      (Function.update h.chans.waiting e o f) := by
  rw [setEp_epPool, Function.update_apply]
  split
  · exact hx
  · exact hi.linked f

theorem noteCall_eq {t : TaskPtr} {d : IpcDir} {arg0 buf : UInt64} {e : EpPtr}
    (he : callEndpoint h.kernel d t arg0 = some e) :
    h.noteCall K t d arg0 buf = Rendezvous.call h.chans d e (h.party K t buf) := by
  unfold noteCall
  rw [he]

theorem Inv.stepCall (hi : h.Inv K) (d : IpcDir) (cpu : TaskRegs) (arg0 buf : UInt64) :
    (h.stepCall K d cpu arg0 buf).Inv K := by
  unfold IpcHistory.stepCall
  split
  · exact hi
  · next t ht =>
    obtain ⟨-, hspace⟩ := userTask_eq_some.mp ht
    have hout := hi.call_outcome ht d cpu arg0 buf
    revert hout
    generalize sysCapTransfer K cpu d h.kernel arg0 buf = r
    intro hout
    cases hout with
    | refused hret _ =>
      dsimp only
      rw [if_neg hret]
      exact hi
    | faults he hw hm => exact ⟨hi.space, hi.accounted, hi.linked, hi.parties⟩
    | @waits e he hw hr =>
      dsimp only
      rw [if_pos rfl, noteCall_eq he]
      obtain ⟨hs, hfix⟩ := parkCurrent_space hi.space cpu
      have hm : EndpointMatches ((h.kernel.caps.epPool e).park d buf
          (parkCurrent K cpu h.kernel.sched).1) (some ⟨h.chans.calls.length, d, h.party K t buf⟩) :=
        ⟨rfl, rfl⟩
      refine ⟨hs, hi.accounted.call .., fun f => ?_, fun f w hf => ?_⟩
      · rw [Rendezvous.call_waiting_of_none hw]
        exact hi.linked_update hm f
      · rw [Rendezvous.call_waiting_of_none hw, Function.update_apply] at hf
        split at hf
        · obtain rfl := Option.some.inj hf
          exact ⟨(hasSpace_congr (hfix t)).mpr hspace, hr⟩
        · obtain ⟨hsp, hb⟩ := hi.parties f w hf
          exact ⟨(hasSpace_congr (hfix _)).mpr hsp, hb⟩
    | @meets e n w m he hw hr hbad hm =>
      dsimp only
      rw [if_pos rfl, noteCall_eq he]
      obtain ⟨hs, hfix⟩ := unparkTask_space hi.space (h.kernel.caps.epPool e).parkedTaskId
      have hm : EndpointMatches (h.kernel.caps.epPool e).idle none := ⟨rfl, rfl⟩
      refine ⟨hs, hi.accounted.call .., fun f => ?_, fun f w hf => ?_⟩
      · rw [Rendezvous.call_waiting_of_meet hw d.other_ne]
        exact hi.linked_update hm f
      · rw [Rendezvous.call_waiting_of_meet hw d.other_ne] at hf
        obtain ⟨hsp, hb⟩ := hi.parties f w (Rendezvous.Accounted.waiting_clear hf).2
        exact ⟨(hasSpace_congr (hfix _)).mpr hsp, hb⟩

theorem Inv.stepRevoke (hi : h.Inv K) (table : UInt64) (i : UInt32) :
    Inv K ⟨{ h.kernel with caps := (capRevokeEndpoint h.kernel.caps table i).2 },
      h.noteRevoke table i⟩ := by
  unfold capRevokeEndpoint noteRevoke
  cases slotIndex i with
  | none => exact hi
  | some i =>
    dsimp only
    cases ho : (h.kernel.caps.tables table i).object with
    | endpoint e =>
      have hm : EndpointMatches (endpointRevoke (h.kernel.caps.epPool e)) none := ⟨rfl, rfl⟩
      refine ⟨hi.space, hi.accounted.drop e, fun f => ?_, fun f w hf => ?_⟩
      · dsimp only
        rw [Rendezvous.drop_waiting]
        exact hi.linked_update hm f
      · dsimp only at hf
        rw [Rendezvous.drop_waiting] at hf
        exact hi.parties f w (Rendezvous.Accounted.waiting_clear hf).2
    | _ => exact hi

theorem Inv.step (hi : h.Inv K) (op : IpcOp) : (h.step K op).Inv K := by
  unfold IpcHistory.step
  split
  · exact hi
  · cases op with
    | call d cpu arg0 buf => exact hi.stepCall d cpu arg0 buf
    | tick cpu => exact hi.withSched (hi.space.tick cpu) (schedTick_fixed hi.space.startHead cpu)
    | yield cpu =>
      exact hi.withSched (hi.space.yield cpu) (schedYield_fixed hi.space.startHead cpu)
    | exit cpu => exact hi.withSched (hi.space.exit cpu) (sysExit_fixed hi.space.startHead cpu)
    | revoke table i => exact hi.stepRevoke table i
    | store a bs =>
      dsimp only
      split
      · exact hi
      · unfold userStore
        split <;> exact ⟨hi.space, hi.accounted, hi.linked, hi.parties⟩

/-! ## Exactly when a step delivers -/

/-- A completed copy delivers the message and changes no one else's memory exactly when the bytes
were in place. -/
theorem Inv.copy_iff (hi : h.Inv K) {t : TaskPtr} (ht : HasSpace h.kernel.sched t) {d : IpcDir}
    {e : EpPtr} {n : ℕ} {w : Party} {buf : UInt64} {m : Memory}
    (hw : h.chans.waiting e = some ⟨n, d.other, w⟩) (hr : buf.toNat + ipcMsgSize ≤ userTop)
    (hm : transferMsg d h.kernel.memory (taskSpace K h.kernel.sched t) w.buf buf = some m) :
    ((∀ bs, (sender d w (h.party K t buf)).msg = some bs →
        readMsg m (taskSpace K h.kernel.sched (receiver d w (h.party K t buf)).task)
          (receiver d w (h.party K t buf)).buf = some bs) ∧
      ∀ u, u ≠ (receiver d w (h.party K t buf)).task → HasSpace h.kernel.sched u →
        m.view (taskSpace K h.kernel.sched u) =
          h.kernel.memory.view (taskSpace K h.kernel.sched u)) ↔ InPlace K h t d w buf := by
  obtain ⟨hwsp, hwr⟩ := hi.parties e _ hw
  have hne : ∀ u, u ≠ t → HasSpace h.kernel.sched u →
      taskSpace K h.kernel.sched u ≠ taskSpace K h.kernel.sched t := fun u hut hu he =>
    hut (hi.space.taskSpace_inj hu he)
  have hothers : ∀ u, u ≠ t → HasSpace h.kernel.sched u →
      m.view (taskSpace K h.kernel.sched u) =
        h.kernel.memory.view (taskSpace K h.kernel.sched u) := fun u hut hu =>
    view_transfer_of_ne (hne u hut hu) hr hwr hm
  cases d with
  | recv =>
    change (_ ∧ ∀ u, u ≠ t → _) ↔ ∀ bs, w.msg = some bs → _ = _
    simp only [sender, receiver, party, readMsg_transfer_recv hr hm]
    exact ⟨fun hd => hd.1, fun hd => ⟨hd, hothers⟩⟩
  | send =>
    change ((∀ bs, readMsg h.kernel.memory (taskSpace K h.kernel.sched t) buf = some bs → _) ∧
      ∀ u, u ≠ w.task → _) ↔ ∀ bs, _ = some bs → _
    simp only [receiver]
    constructor
    · rintro ⟨hd, ho⟩ bs hbs
      rcases eq_or_ne w.task t with hwt | hwt
      · rcases eq_or_ne w.buf 0 with h0 | h0
        · have hread := hd bs hbs
          rw [transferMsg, if_pos h0] at hm
          obtain rfl := Option.some.inj hm
          exact Or.inr ⟨hread, Or.inl h0⟩
        · exact Or.inl ⟨hwt, h0⟩
      · have hread := hd bs hbs
        rw [readMsg_transfer_of_ne (hne _ hwt hwsp) hr hwr hm] at hread
        exact Or.inr ⟨hread, (view_transfer_send hwr hbs hm).mp (ho t hwt.symm ht)⟩
    · intro hp
      refine ⟨fun bs hbs => ?_, fun u huw hu => ?_⟩
      · rcases hp bs hbs with ⟨hwt, h0⟩ | ⟨hread, hown⟩
        · rw [hwt, readMsg_transfer_send h0 hwr hm, hbs]
        · rcases eq_or_ne w.task t with hwt | hwt
          · rcases eq_or_ne w.buf 0 with h0 | h0
            · rw [transferMsg, if_pos h0] at hm
              rwa [← Option.some.inj hm]
            · rw [hwt, readMsg_transfer_send h0 hwr hm, hbs]
          · rwa [readMsg_transfer_of_ne (hne _ hwt hwsp) hr hwr hm]
      · rcases eq_or_ne u t with hut | hut
        · subst hut
          cases hbs : readMsg h.kernel.memory (taskSpace K h.kernel.sched u) buf with
          | none =>
            have h0 : w.buf = 0 := by
              by_contra h0
              rw [transferMsg, if_neg h0] at hm
              obtain ⟨bs, hbs', -⟩ := copyMsg_eq_some.mp hm
              exact absurd (hbs.symm.trans hbs') (by simp)
            rw [transferMsg, if_pos h0] at hm
            rw [Option.some.inj hm]
          | some bs =>
            refine (view_transfer_send hwr hbs hm).mpr ?_
            rcases hp bs hbs with ⟨hwt, -⟩ | ⟨-, hown⟩
            · exact absurd hwt.symm huw
            · exact hown
        · exact hothers u hut hu

/-- The bookkeeping part of the property holds of every step. -/
theorem Inv.delivers_iff_copies (hi : h.Inv K) (op : IpcOp) : h.Delivers K op ↔
    ∀ d w me, h.Completes K op d w me →
      (∀ bs, (sender d w me).msg = some bs →
        readMsg (h.step K op).kernel.memory (taskSpace K h.kernel.sched (receiver d w me).task)
          (receiver d w me).buf = some bs) ∧
      ∀ t, t ≠ (receiver d w me).task → HasSpace h.kernel.sched t →
        (h.step K op).kernel.memory.view (taskSpace K h.kernel.sched t) =
          h.kernel.memory.view (taskSpace K h.kernel.sched t) := by
  constructor
  · exact fun hd d w me hc => ⟨hd.delivered d w me hc, hd.others d w me hc⟩
  · intro hcopy
    refine ⟨(hi.step op).accounted, (hi.step op).linked, ?_, fun d w me hc => (hcopy d w me hc).1,
      fun d w me hc => (hcopy d w me hc).2⟩
    unfold IpcHistory.step
    split
    · exact Or.inl rfl
    · cases op with
      | call d cpu arg0 buf =>
        left
        dsimp only
        unfold IpcHistory.stepCall noteCall
        split
        · rfl
        · dsimp only
          split
          · split
            · rfl
            · exact Rendezvous.call_dropped ..
          · rfl
      | revoke table i => exact Or.inr ⟨table, i, rfl⟩
      | store a bs =>
        left
        dsimp only
        split <;> rfl
      | _ => exact Or.inl rfl

theorem step_call_memory {t : TaskPtr} (hrun : h.kernel.halted = false)
    (ht : userTask h.kernel.sched = some t) (d : IpcDir) (cpu : TaskRegs) (arg0 buf : UInt64) :
    (h.step K (.call d cpu arg0 buf)).kernel.memory =
      (sysCapTransfer K cpu d h.kernel arg0 buf).2.memory := by
  unfold IpcHistory.step
  rw [hrun]
  change (h.stepCall K d cpu arg0 buf).kernel.memory = _
  unfold IpcHistory.stepCall
  rw [ht]

theorem Inv.delivers_iff (hi : h.Inv K) (op : IpcOp) : h.Delivers K op ↔ h.Fits K op := by
  rw [hi.delivers_iff_copies]
  cases op with
  | call d cpu arg0 buf =>
    constructor
    · intro hcopy hrun t e n w ht he hw hbad hmapped
      obtain ⟨-, hspace⟩ := userTask_eq_some.mp ht
      obtain ⟨m, hm⟩ := copyMapped_iff.mp hmapped
      have hmem := step_call_memory (K := K) hrun ht d cpu arg0 buf
      have hout := hi.call_outcome ht d cpu arg0 buf
      generalize hr : sysCapTransfer K cpu d h.kernel arg0 buf = r at hout hmem
      cases hout with
      | refused hret hwhy =>
        rcases hwhy with hb | hn | ⟨e', w', he', hw', hside⟩
        · exact absurd (hb.symm.trans hbad) (by decide)
        · exact absurd (hn.symm.trans he) (by simp)
        · obtain rfl := Option.some.inj (he.symm.trans he')
          obtain rfl := Option.some.inj (hw.symm.trans hw')
          exact absurd hside d.other_ne
      | faults he' hw' hm' =>
        obtain rfl := Option.some.inj (he.symm.trans he')
        cases Option.some.inj (hw.symm.trans hw')
        exact absurd (hm.symm.trans hm') (by simp)
      | waits he' hw' =>
        obtain rfl := Option.some.inj (he.symm.trans he')
        exact absurd (hw.symm.trans hw') (by simp)
      | meets he' hw' hrange _ hm' =>
        obtain rfl := Option.some.inj (he.symm.trans he')
        cases Option.some.inj (hw.symm.trans hw')
        have hc := hcopy d w (h.party K t buf)
          ⟨cpu, arg0, e, n, rfl, hrun, ht, rfl, he, hw, congrArg Prod.fst hr⟩
        rw [hmem] at hc
        exact (hi.copy_iff hspace hw hrange hm').mp hc
    · rintro hfit d' w me ⟨cpu', arg0', e, n, hop, hrun, ht, hme, he, hw, hret⟩
      obtain ⟨rfl, rfl, rfl, rfl⟩ := IpcOp.call.inj hop
      obtain ⟨-, hspace⟩ := userTask_eq_some.mp ht
      rw [step_call_memory hrun ht]
      have hout := hi.call_outcome ht d cpu arg0 me.buf
      generalize sysCapTransfer K cpu d h.kernel arg0 me.buf = r at hout hret
      cases hout with
      | refused hne _ => exact absurd hret hne
      | faults => exact absurd hret (by simp)
      | waits he' hw' =>
        obtain rfl := Option.some.inj (he.symm.trans he')
        exact absurd (hw.symm.trans hw') (by simp)
      | meets he' hw' hrange hbad hm' =>
        obtain rfl := Option.some.inj (he.symm.trans he')
        cases Option.some.inj (hw.symm.trans hw')
        rw [hme]
        exact (hi.copy_iff hspace hw hrange hm').mpr
          (hfit hrun _ e n w ht he hw hbad (copyMapped_iff.mpr ⟨_, hm'⟩))
  | _ => exact ⟨fun _ => trivial, fun _ => by rintro d w me ⟨_, _, _, _, hop, -⟩; cases hop⟩

end IpcHistory

/-- A kernel before any of the calls: the endpoints are idle, no two tasks share page tables, and
the running task's are loaded. The capability tables hold what they may. -/
structure IpcStart (K : KernelLayout) where
  kernel : Kernel
  idle : ∀ e, (kernel.caps.epPool e).state = .idle ∧ (kernel.caps.epPool e).pendingMsg = 0
  space : SpaceInv K kernel.sched

def IpcStart.history (s : IpcStart K) : IpcHistory := ⟨s.kernel, Rendezvous.init⟩

theorem IpcStart.inv (s : IpcStart K) : s.history.Inv K where
  space := s.space
  accounted := .init
  linked := s.idle
  parties _ _ h := by cases h

/-- In every interleaving of the two system calls with switches, exits, revocations and writes by
user code, every step delivers if and only if at every rendezvous whose copy does not fault the
bytes are in place. -/
theorem ipc_delivers_iff (K : KernelLayout) (s : IpcStart K) (ops : List IpcOp) :
    AllSteps (IpcHistory.step K) (IpcHistory.Delivers K) s.history ops ↔
      AllSteps (IpcHistory.step K) (IpcHistory.Fits K) s.history ops :=
  allSteps_congr _ (fun _ op hi => hi.delivers_iff op) (fun _ op hi _ => hi.step op) s.inv ops

/-- Two user tasks with page tables of their own, the first of them running, and one endpoint that
both may send to and receive from. The first one's memory is all sevens. -/
def twoSpaces : Kernel where
  caps :=
    { epPool := fun _ => ⟨0, .idle, 0, 0, 0⟩
      epPoolUsed := fun e => e = 0
      tables := fun t i => if (t = 1 ∨ t = 2) ∧ i = 0 then ⟨.endpoint 0, 3, 0⟩ else .empty }
  sched :=
    { taskTable := fun t => match t with
        | 0 => ⟨0, .ready, 0, 0, 0, zeroRegs, 10⟩
        | 1 => ⟨1, .running, 1, 0xffff800000001000, 0xffff900000001000, zeroRegs, 10⟩
        | 2 => ⟨2, .ready, 2, 0xffff800000002000, 0xffff900000002000, zeroRegs, 10⟩
        | _ => ⟨0, .unused, 0, 0, 0, zeroRegs, 0⟩
      runQueue := [0, 1, 2]
      currentIdx := 1
      current := some 1
      cr3 := 0x1000
      rsp0 := 0xffff900000001000 }
  memory := ⟨fun c _ => if c = 0x1000 then 7 else 0, fun _ => 0, fun _ _ => true, fun _ _ => true,
    fun _ _ _ => rfl⟩
  halted := false

theorem twoSpaces_rip : ∀ t, (twoSpaces.sched.taskTable t).regs.rip ≠
    sampleLayout.schedStartResume := by decide

def twoSpacesStart : IpcStart sampleLayout where
  kernel := twoSpaces
  idle _ := ⟨rfl, rfl⟩
  space :=
    { startHead := fun t ht => absurd ht.1 (twoSpaces_rip t)
      separate := by decide
      loaded := by decide }

/-- The first task sends and the second receives: it finds its own zeros, not the sevens. -/
theorem ipc_not_delivered :
    ¬ AllSteps (IpcHistory.step sampleLayout) (IpcHistory.Delivers sampleLayout)
      twoSpacesStart.history [.call .send zeroRegs 0 0x4000, .call .recv zeroRegs 0 0x5000] := by
  rintro ⟨-, hd, -⟩
  have h := hd.delivered .recv _ ⟨2, 0x5000, some (List.replicate 48 0)⟩
    ⟨zeroRegs, 0, 0, 0, rfl, rfl, rfl, rfl, rfl, rfl, rfl⟩ (List.replicate 48 7) rfl
  exact absurd h (by decide)

end StyxOS
