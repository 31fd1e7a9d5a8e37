import StyxOS.Ipc.Delivery
import StyxOS.Syscall.Dispatch

/-! # Confinement of user pointers

Each call checks its pointers on its own, with the sum of base and length taken
in 64 bits, or with the base alone. A call is confined, touching user addresses
only and refusing a buffer that reaches beyond them, exactly when the check
cannot be passed by a sum that wraps or by a base just below the bound.
-/

namespace StyxOS

open Access StepSystem

/-! ## Runs of the machine -/

/-- What can happen to the machine: a system call of the running task, a timer interrupt, a key
pressed, an endpoint revoked by the kernel, a write by user code. -/
inductive MachineOp
  | syscall (cpu : TaskRegs) (num : UInt64) (args : SysArgs)
  | tick (cpu : TaskRegs)
  | key (c : UInt8)
  | revoke (table : UInt64) (slotIdx : UInt32)
  | store (a : ℕ) (bs : List UInt8)

namespace Machine

/-- A write by user code; outside its writable pages it ends in the exception handler. -/
def userStore (m : Machine) (a : ℕ) (bs : List UInt8) : Machine :=
  if a + bs.length ≤ userTop ∧ m.kernel.memory.canWrite m.kernel.sched.cr3 a bs.length then
    m.withMemory (m.kernel.memory.write m.kernel.sched.cr3 a bs)
  else m.halt

def step (K : KernelLayout) (m : Machine) (op : MachineOp) : Machine :=
  if m.kernel.halted then m else
  match op with
  | .syscall cpu num args => (syscallDispatch K cpu num args m).state
  | .tick cpu => m.withSched (schedTick K cpu m.kernel.sched)
  | .key c => { m with keys := keyRingPush m.keys c }
  | .revoke table i =>
    { m with kernel := { m.kernel with caps := (capRevokeEndpoint m.kernel.caps table i).2 } }
  | .store a bs => m.userStore a bs

/-- The messages that wait at the endpoints lie in user memory. -/
def PendingInUser (m : Machine) : Prop :=
  ∀ e, (m.kernel.caps.epPool e).pendingMsg.toNat + ipcMsgSize ≤ userTop

theorem pendingInUser_capsOnly : CapsOnly PendingInUser := by
  intro m m' h hm e
  rw [h]
  exact hm e

end Machine

/-! ## What a call asks for -/

/-- The buffers that a call hands over: base and length. -/
def Sys.buffers (args : SysArgs) : Sys → List (UInt64 × ℕ)
  | .write | .torCell => [(args.arg1, args.arg2.toNat)]
  | .capSend | .capRecv => [(args.arg1, ipcMsgSize)]
  | .sysinfo => [(args.arg0, 16)]
  | .send | .recv => [(args.arg2, args.arg3.toNat)]
  | .pqcKem =>
    [(args.arg0, kyber1024CiphertextBytes), (args.arg1, kyber1024SsBytes),
      (args.arg2, kyber1024PublickeyBytes)]
  | _ => []

/-- The buffers that the call with a number hands over. -/
def userBuffers (num : UInt64) (args : SysArgs) : List (UInt64 × ℕ) :=
  match Sys.ofNumber num with
  | none => []
  | some call => call.buffers args

/-- The right that the capability check at the beginning of a call asks for. -/
def Sys.right : Sys → Option UInt32
  | .write | .torCell | .socket | .connect | .send | .emergencyWipe => some capRightSend
  | .readKey | .recv => some capRightRecv
  | _ => none

def Sys.refused (call : Sys) (c : Caps) (table arg0 : UInt64) : Bool :=
  match call.right with
  | none => false
  | some right =>
    match capLookup c table arg0.toUInt32 .endpoint right with
    | .error _ => true
    | .ok _ => false

/-- The call is refused before its pointers matter: there is no current task, or the capability
check at its beginning fails. -/
def accessRefused (m : Machine) (num : UInt64) (args : SysArgs) : Bool :=
  match m.kernel.sched.current with
  | none => true
  | some cur =>
    match Sys.ofNumber num with
    | none => false
    | some call => call.refused m.kernel.caps (m.kernel.sched.taskTable cur).capTable args.arg0

/-- The property of a call: the addresses it touches are user addresses; and if a buffer reaches
beyond them, it touches nothing and returns EFAULT, or EACCESS if it is refused for its
capability. -/
structure Confined (K : KernelLayout) (cpu : TaskRegs) (m : Machine) (num : UInt64)
    (args : SysArgs) : Prop where
  below : ∀ a ∈ (syscallDispatch K cpu num args m).touched, a < userTop
  refused : ∀ b ∈ userBuffers num args, userTop < b.1.toNat + b.2 →
    (syscallDispatch K cpu num args m).touched = [] ∧
      (syscallDispatch K cpu num args m).value =
        some (if accessRefused m num args then sysretEaccess else sysretEfault)

/-- A base and a length whose sum does not fit 64 bits, the base being a user address. -/
def Wraps (base len : UInt64) : Prop := base.toNat < userTop ∧ 2 ^ 64 ≤ base.toNat + len.toNat

/-- The pointers pass the check of the call though a buffer reaches beyond the bound: the sum
wraps, or a structure begins below the bound and ends above it. -/
def Sys.Overlooked (args : SysArgs) : Sys → Prop
  | .write => Wraps args.arg1 args.arg2
  | .send | .recv => Wraps args.arg2 args.arg3
  | .sysinfo => args.arg0.toNat < userTop ∧ userTop < args.arg0.toNat + 16
  | .pqcKem =>
    (args.arg0.toNat < userTop ∧ args.arg1.toNat < userTop ∧ args.arg2.toNat < userTop) ∧
      (userTop < args.arg0.toNat + kyber1024CiphertextBytes ∨
        userTop < args.arg1.toNat + kyber1024SsBytes ∨
        userTop < args.arg2.toNat + kyber1024PublickeyBytes)
  | _ => False

def Sys.Passes (args : SysArgs) : Sys → Prop
  | .write => badRange args.arg1 args.arg2 = false
  | .torCell => badRange args.arg1 args.arg2 = false ∧ args.arg2 ≤ 512
  | .capSend | .capRecv => badRange args.arg1 (UInt64.ofNat ipcMsgSize) = false
  | .sysinfo => args.arg0.toNat < userTop
  | .send | .recv => badRange args.arg2 args.arg3 = false
  | .pqcKem =>
    args.arg0.toNat < userTop ∧ args.arg1.toNat < userTop ∧ args.arg2.toNat < userTop
  | _ => True

/-- The pointers of the call with a number pass its check though a buffer reaches beyond the
bound. -/
def Overlooked (num : UInt64) (args : SysArgs) : Prop :=
  ∃ call, Sys.ofNumber num = some call ∧ call.Overlooked args

/-! ## The checks -/

section
variable {base len : UInt64} {n : ℕ}

theorem toNat_ge_userTop : base ≥ 0x800000000000 ↔ userTop ≤ base.toNat := UInt64.le_iff_toNat_le

theorem badRange_iff :
    badRange base len = true ↔
      userTop ≤ base.toNat ∨ userTop ≤ (base.toNat + len.toNat) % 2 ^ 64 := by
  simp only [badRange, Bool.or_eq_true, decide_eq_true_eq, toNat_ge_userTop, UInt64.toNat_add]

theorem le_of_badRange (h : badRange base len = false) (hw : ¬ Wraps base len) :
    base.toNat + len.toNat ≤ userTop := by
  have hb : ¬ badRange base len = true := by rw [h]; exact Bool.false_ne_true
  rw [badRange_iff] at hb
  have hl := len.toNat_lt
  have hu : userTop = 2 ^ 47 := by decide
  unfold Wraps at hw
  omega

theorem Wraps.badRange_eq (h : Wraps base len) : badRange base len = false := by
  have hl := len.toNat_lt
  have hu : userTop = 2 ^ 47 := by decide
  obtain ⟨hb, hs⟩ := h
  apply Bool.eq_false_iff.mpr
  rw [ne_eq, badRange_iff]
  omega

theorem Wraps.reaches (h : Wraps base len) : userTop < base.toNat + len.toNat := by
  have hu : userTop = 2 ^ 47 := by decide
  obtain ⟨hb, hs⟩ := h
  omega

end

/-! ## What each call touches -/

section
variable {I : Machine → Prop} {P : ℕ → Prop} {Q : ℤ → Prop} (hI : CapsOnly I)
include hI

omit hI in
theorem meets_withEndpoint {table arg0 : UInt64} {right : UInt32} {body : Access Machine ℤ}
    (hq : Q sysretEaccess) (h : Meets I P Q body) :
    Meets I P Q (withEndpoint table arg0 right body) := by
  apply meets_get_bind
  rintro m -
  split
  · exact meets_pure hq
  · exact h

theorem meets_writeLoop {a : UInt64} {n : ℕ} (h : Covers P a n) :
    Meets I P (fun _ => True) (writeLoop n a) := by
  induction n generalizing a with
  | zero => exact meets_pure trivial
  | succ n ih =>
    apply meets_bind (meets_readByte hI h.head)
    rintro c -
    apply meets_ite
    · rintro -
      exact meets_pure trivial
    · rintro -
      refine meets_bind (meets_modify_of_caps hI fun m => ?_) ?_
      · rfl
      · rintro - -
        exact ih h.tail

theorem meets_keyboardGetChar : Meets I P (fun _ => True) keyboardGetChar := by
  apply meets_get_bind
  rintro m -
  apply meets_ite
  · rintro -
    exact meets_pure trivial
  · rintro -
    refine meets_bind (meets_modify_of_caps hI fun m => ?_) ?_
    · rfl
    · rintro - -
      exact meets_pure trivial

theorem meets_sysSysinfo {args : SysArgs} (hq : Q sysretOk)
    (he : userTop ≤ args.arg0.toNat → Q sysretEfault)
    (h : args.arg0.toNat < userTop → Covers P args.arg0 16) :
    Meets I P Q (sysSysinfo args) := by
  apply meets_ite
  · intro hge
    exact meets_pure (he (toNat_ge_userTop.mp hge))
  · intro hlt
    have hc := h (by rw [toNat_ge_userTop] at hlt; omega)
    apply meets_get_bind
    rintro m -
    apply meets_bind (meets_copyOut hI (hc.mono (by simp)))
    rintro - -
    apply meets_bind (meets_copyOut hI (hc.add (by simp)))
    rintro - -
    apply meets_bind (meets_copyOut hI (hc.add (by simp)))
    rintro - -
    exact meets_pure hq

theorem meets_kyber1024Encapsulate {ct ss pk : UInt64} (hct : Covers P ct kyber1024CiphertextBytes)
    (hss : Covers P ss kyber1024SsBytes) :
    Meets I P (fun v => -1 ≤ v) (kyber1024Encapsulate ct ss pk) := by
  apply meets_ite
  · rintro -
    exact meets_pure (by omega)
  · rintro -
    apply meets_bind (meets_csprngGetBytes hI)
    intro coin hcoin
    apply meets_bind (meets_copyOut hI (hss.mono (by simp [kyber1024SsBytes])))
    rintro - -
    apply meets_bind (meets_csprngGetBytes hI)
    intro noise hnoise
    apply meets_bind (meets_copyOut hI (hnoise ▸ hct))
    rintro - -
    apply meets_bind (meets_writeByte hI (hct.mono (by decide : 1 ≤ _)).head)
    rintro - -
    apply meets_bind (meets_copyOut hI (hct.add (by rw [hcoin]; decide)))
    rintro - -
    exact meets_pure (by omega)

theorem meets_destructMachine {reason : List UInt8} :
    Meets I P Q (destructMachine reason) := by
  apply meets_bind (meets_netSendBeacon hI)
  rintro ok -
  exact meets_pageFault hI

end

/-! ## Messages -/

section
variable {K : KernelLayout} {cpu : TaskRegs} {P : ℕ → Prop}

theorem touched_transfer {d : IpcDir} {m : Memory} {c pending buf : UInt64}
    (hp : pending.toNat + ipcMsgSize ≤ userTop) (hb : buf.toNat + ipcMsgSize ≤ userTop) :
    ∀ a ∈ transferTouched d m c pending buf, a < userTop := by
  have hbuffers : (IpcDir.buffers d pending buf).1.toNat + ipcMsgSize ≤ userTop ∧
      (IpcDir.buffers d pending buf).2.toNat + ipcMsgSize ≤ userTop := by
    cases d
    · exact ⟨hp, hb⟩
    · exact ⟨hb, hp⟩
  obtain ⟨hdst, hsrc⟩ := hbuffers
  intro a ha
  unfold transferTouched at ha
  split at ha
  · cases ha
  · rcases List.mem_append.mp ha with ha | ha
    · have := (List.mem_range'_1.mp ha).2
      omega
    · split at ha
      · have := (List.mem_range'_1.mp ha).2
        omega
      · cases ha

theorem touched_capTransfer {d : IpcDir} {m : Machine} {table : UInt64} {slotIdx : UInt32}
    {buf : UInt64} (hm : m.PendingInUser) (hb : buf.toNat + ipcMsgSize ≤ userTop) :
    ∀ a ∈ capTransferTouched d m.kernel table slotIdx buf, a < userTop := by
  intro a ha
  unfold capTransferTouched at ha
  split at ha
  · cases ha
  · split at ha
    · split at ha
      · exact touched_transfer (hm _) hb a ha
      · cases ha
    · cases ha

theorem pending_capTransfer {d : IpcDir} {m : Machine} {table : UInt64} {slotIdx : UInt32}
    {buf : UInt64} (hm : m.PendingInUser) (hb : buf.toNat + ipcMsgSize ≤ userTop) (e : EpPtr) :
    ((capTransfer K cpu d m.kernel table slotIdx buf).2.caps.epPool e).pendingMsg.toNat +
      ipcMsgSize ≤ userTop := by
  have hzero : (0 : UInt64).toNat + ipcMsgSize ≤ userTop := by decide
  rcases capTransfer_cases K cpu d m.kernel table slotIdx buf with
    ⟨err, -, h⟩ | ⟨slot, f, -, -, h⟩
  · rw [h]
    exact hm e
  · rw [h]
    rcases rendezvous_cases K cpu d m.kernel f buf with
      ⟨-, ⟨-, hr⟩ | ⟨mem, -, hr⟩⟩ | ⟨-, hr⟩ | ⟨-, hr⟩
    · rw [hr]
      exact hm e
    · rw [hr, setEp_epPool]
      split
      · exact hzero
      · exact hm e
    · rw [hr, setEp_epPool]
      split
      · exact hb
      · exact hm e
    · rw [hr]
      exact hm e

theorem meets_sysCapMsg {d : IpcDir} {table : UInt64} {args : SysArgs}
    (hP : ∀ a < userTop, P a) :
    Meets Machine.PendingInUser P (fun _ => True) (sysCapMsg K cpu d table args) := by
  apply meets_ite
  · rintro -
    exact meets_pure trivial
  · intro hb
    have hbuf : args.arg1.toNat + ipcMsgSize ≤ userTop :=
      (badRange_eq_false (by decide) (by simpa using hb)).le
    apply meets_get_bind
    intro m hm
    apply meets_bind (meets_touch fun a ha => hP a (touched_capTransfer hm hbuf a ha))
    rintro - -
    apply meets_bind (meets_modify fun s _ => pending_capTransfer hm hbuf)
    rintro - -
    split
    · exact meets_fault
    · exact meets_pure trivial

end

/-! ## Any call -/

section
variable {K : KernelLayout} {cpu : TaskRegs} {P : ℕ → Prop} {Q : ℤ → Prop} {table : UInt64}
  {args : SysArgs} {call : Sys} {m : Machine}

theorem ne_efault_of_ge {v : ℤ} (h : -1 ≤ v) : v ≠ sysretEfault := by
  have he : sysretEfault = -3 := rfl
  omega

theorem Sys.mem_buffers_pqcKem {b : UInt64 × ℕ} :
    b ∈ Sys.pqcKem.buffers args ↔ b = (args.arg0, kyber1024CiphertextBytes) ∨
      b = (args.arg1, kyber1024SsBytes) ∨ b = (args.arg2, kyber1024PublickeyBytes) := by
  simp only [Sys.buffers, List.mem_cons, List.not_mem_nil, or_false]

theorem meets_badRange {I : Machine → Prop} {base len : UInt64} {body : Access Machine ℤ}
    (hbad : badRange base len = true → Q sysretEfault)
    (hok : badRange base len = false → Meets I P Q body) :
    Meets I P Q (if badRange base len then pure sysretEfault else body) := by
  apply meets_ite
  · intro h
    exact meets_pure (hbad h)
  · intro h
    exact hok (Bool.eq_false_iff.mpr h)

theorem toNat_toUInt16_cellLen {len : UInt64} (h : len ≤ 512) : len.toUInt16.toNat = len.toNat := by
  have hlt : len.toNat ≤ 512 := UInt64.le_iff_toNat_le.mp h
  rw [UInt64.toNat_toUInt16, Nat.mod_eq_of_lt (by omega)]

/-- A buffer whose range passes is covered; one that wraps around passes. -/
theorem meets_userBuffer {I : Machine → Prop} {base len : UInt64} {body : Access Machine ℤ}
    (hcov : badRange base len = false → Covers P base len.toNat)
    (hbody : Covers P base len.toNat →
      Meets I P (fun v => Wraps base len → v ≠ sysretEfault) body) :
    Meets I P (fun v => Wraps base len → v ≠ sysretEfault)
      (if badRange base len then pure sysretEfault else body) := by
  apply meets_badRange
  · intro hb hw
    exact absurd hb (by rw [hw.badRange_eq]; exact Bool.false_ne_true)
  · intro hb
    exact hbody (hcov hb)

/-- What a call touches once its pointers have passed, and what it returns when they should not
have. -/
theorem Sys.meets_run (K : KernelLayout) (cpu : TaskRegs) (table : UInt64) (args : SysArgs)
    (call : Sys) (hcov : call.Passes args → ∀ b ∈ call.buffers args, Covers P b.1 b.2)
    (hP : ∀ a < userTop, P a) :
    Meets Machine.PendingInUser P (fun v => call.Overlooked args → v ≠ sysretEfault)
      (call.run K cpu table args) := by
  have hI := Machine.pendingInUser_capsOnly
  have heaccess : sysretEaccess ≠ sysretEfault := by decide
  have hok : sysretOk ≠ sysretEfault := by decide
  cases call with
  | yield =>
    refine meets_bind (meets_modify_of_caps hI fun m => ?_) ?_
    · rfl
    · rintro - -
      exact meets_pure fun _ => hok
  | write =>
    apply meets_withEndpoint fun _ => heaccess
    apply meets_userBuffer fun hb => hcov hb _ (List.mem_singleton.mpr rfl)
    intro hc
    apply meets_bind (meets_writeLoop hI hc)
    rintro - -
    exact meets_pure fun _ => hok
  | capSend => exact (meets_sysCapMsg hP).mono fun _ _ => False.elim
  | capRecv => exact (meets_sysCapMsg hP).mono fun _ _ => False.elim
  | exit =>
    refine meets_bind (meets_modify_of_caps hI fun m => ?_) ?_
    · rfl
    · rintro - -
      exact meets_pure fun _ => hok
  | readKey =>
    apply meets_withEndpoint fun _ => heaccess
    apply meets_bind (meets_keyboardGetChar hI)
    rintro c -
    exact meets_pure False.elim
  | torCell =>
    apply meets_withEndpoint fun _ => heaccess
    apply meets_ite
    · rintro -
      exact meets_pure False.elim
    · intro hb
      have hb : badRange args.arg1 args.arg2 = false ∧ args.arg2 ≤ 512 := by simpa using hb
      have hc : Covers P args.arg1 args.arg2.toUInt16.toNat := by
        rw [toNat_toUInt16_cellLen hb.2]
        exact hcov hb _ (List.mem_singleton.mpr rfl)
      apply meets_bind (meets_torSendCell hI hc)
      rintro ok -
      exact meets_pure False.elim
  | sysinfo =>
    apply meets_sysSysinfo hI
    · exact fun _ => hok
    · rintro hge ⟨hlt, -⟩
      omega
    · intro hlt
      exact hcov hlt _ (List.mem_singleton.mpr rfl)
  | socket =>
    apply meets_withEndpoint fun _ => heaccess
    exact (meets_tcpSocketCreate hI).mono fun _ hv _ => ne_efault_of_ge hv
  | connect =>
    apply meets_withEndpoint fun _ => heaccess
    exact (meets_tcpSocketConnect hI).mono fun _ hv _ => ne_efault_of_ge hv
  | send =>
    apply meets_withEndpoint fun _ => heaccess
    apply meets_userBuffer fun hb => hcov hb _ (List.mem_singleton.mpr rfl)
    exact fun hc => (meets_tcpSocketSend hI hc).mono fun _ hv _ => ne_efault_of_ge hv
  | recv =>
    apply meets_withEndpoint fun _ => heaccess
    apply meets_userBuffer fun hb => hcov hb _ (List.mem_singleton.mpr rfl)
    exact fun hc => (meets_tcpSocketRecv hI hc).mono fun _ hv _ => ne_efault_of_ge hv
  | pqcKem =>
    apply meets_ite
    · rintro hge
      apply meets_pure
      rintro ⟨⟨h₀, h₁, h₂⟩, -⟩
      simp only [toNat_ge_userTop] at hge
      omega
    · intro hlt
      simp only [toNat_ge_userTop, not_or, not_le] at hlt
      have hc := hcov hlt
      have hct := hc _ (Sys.mem_buffers_pqcKem.mpr (Or.inl rfl))
      have hss := hc _ (Sys.mem_buffers_pqcKem.mpr (Or.inr (Or.inl rfl)))
      exact (meets_kyber1024Encapsulate hI hct hss).mono fun _ hv _ => ne_efault_of_ge hv
  | emergencyWipe =>
    apply meets_withEndpoint fun _ => heaccess
    exact meets_destructMachine hI

theorem Sys.Overlooked.reaches (h : call.Overlooked args) :
    ∃ b ∈ call.buffers args, userTop < b.1.toNat + b.2 := by
  cases call with
  | write => exact ⟨_, List.mem_singleton.mpr rfl, Wraps.reaches h⟩
  | send => exact ⟨_, List.mem_singleton.mpr rfl, Wraps.reaches h⟩
  | recv => exact ⟨_, List.mem_singleton.mpr rfl, Wraps.reaches h⟩
  | sysinfo => exact ⟨_, List.mem_singleton.mpr rfl, h.2⟩
  | pqcKem =>
    rcases h.2 with h | h | h
    · exact ⟨_, Sys.mem_buffers_pqcKem.mpr (Or.inl rfl), h⟩
    · exact ⟨_, Sys.mem_buffers_pqcKem.mpr (Or.inr (Or.inl rfl)), h⟩
    · exact ⟨_, Sys.mem_buffers_pqcKem.mpr (Or.inr (Or.inr rfl)), h⟩
  | _ => exact False.elim h

theorem Sys.le_of_passes (hp : call.Passes args) (ho : ¬ call.Overlooked args) :
    ∀ b ∈ call.buffers args, b.1.toNat + b.2 ≤ userTop := by
  intro b hb
  cases call with
  | write =>
    obtain rfl := List.mem_singleton.mp hb
    exact le_of_badRange hp ho
  | send =>
    obtain rfl := List.mem_singleton.mp hb
    exact le_of_badRange hp ho
  | recv =>
    obtain rfl := List.mem_singleton.mp hb
    exact le_of_badRange hp ho
  | torCell =>
    obtain rfl := List.mem_singleton.mp hb
    have hlen : args.arg2.toNat ≤ 512 := UInt64.le_iff_toNat_le.mp hp.2
    apply le_of_badRange hp.1
    rintro ⟨hlt, hw⟩
    have hu : userTop = 2 ^ 47 := by decide
    omega
  | capSend =>
    obtain rfl := List.mem_singleton.mp hb
    exact (badRange_eq_false (by decide) hp).le
  | capRecv =>
    obtain rfl := List.mem_singleton.mp hb
    exact (badRange_eq_false (by decide) hp).le
  | sysinfo =>
    obtain rfl := List.mem_singleton.mp hb
    exact not_lt.mp fun h => ho ⟨hp, h⟩
  | pqcKem =>
    apply not_lt.mp
    intro h
    apply ho
    refine ⟨hp, ?_⟩
    rcases Sys.mem_buffers_pqcKem.mp hb with rfl | rfl | rfl
    · exact Or.inl h
    · exact Or.inr (Or.inl h)
    · exact Or.inr (Or.inr h)
  | _ => cases hb

theorem withEndpoint_of_error {arg0 : UInt64} {right : UInt32} {body : Access Machine ℤ}
    {err : CapErr}
    (h : capLookup m.kernel.caps table arg0.toUInt32 .endpoint right = .error err) :
    withEndpoint table arg0 right body m = ⟨[], some sysretEaccess, m⟩ := by
  rw [withEndpoint, get_bind_apply, h]
  rfl

theorem withEndpoint_of_ok {arg0 : UInt64} {right : UInt32} {body : Access Machine ℤ}
    {slot : CapSlot} (h : capLookup m.kernel.caps table arg0.toUInt32 .endpoint right = .ok slot) :
    withEndpoint table arg0 right body m = body m := by
  rw [withEndpoint, get_bind_apply, h]

theorem Sys.run_of_right {right : UInt32} (h : call.right = some right) :
    ∃ body, call.run K cpu table args = withEndpoint table args.arg0 right body := by
  cases call <;> cases h <;> exact ⟨_, rfl⟩

theorem Sys.run_of_refused (h : call.refused m.kernel.caps table args.arg0 = true) :
    call.run K cpu table args m = ⟨[], some sysretEaccess, m⟩ := by
  unfold Sys.refused at h
  cases hr : call.right with
  | none => simp [hr] at h
  | some right =>
    obtain ⟨body, hb⟩ : ∃ body, call.run K cpu table args =
        withEndpoint table args.arg0 right body := Sys.run_of_right hr
    rw [hr] at h
    dsimp only at h
    split at h
    · next hl => rw [hb, withEndpoint_of_error hl]
    · cases h

theorem Sys.lookup_of_not_refused {right : UInt32} (h : call.right = some right)
    (hr : call.refused m.kernel.caps table args.arg0 = false) :
    ∃ slot, capLookup m.kernel.caps table args.arg0.toUInt32 .endpoint right = .ok slot := by
  unfold Sys.refused at hr
  rw [h] at hr
  dsimp only at hr
  split at hr
  · cases hr
  · next slot hl => exact ⟨slot, hl⟩

theorem Sys.run_of_not_passes (hr : call.refused m.kernel.caps table args.arg0 = false)
    (hp : ¬ call.Passes args) : call.run K cpu table args m = ⟨[], some sysretEfault, m⟩ := by
  cases call with
  | write =>
    obtain ⟨slot, hl⟩ := Sys.lookup_of_not_refused rfl hr
    change sysWrite table args m = _
    rw [sysWrite, withEndpoint_of_ok hl, if_pos (by simpa [Sys.Passes] using hp)]
    rfl
  | capSend =>
    change sysCapMsg K cpu .send table args m = _
    rw [sysCapMsg, if_pos (by simpa [Sys.Passes] using hp)]
    rfl
  | capRecv =>
    change sysCapMsg K cpu .recv table args m = _
    rw [sysCapMsg, if_pos (by simpa [Sys.Passes] using hp)]
    rfl
  | torCell =>
    obtain ⟨slot, hl⟩ := Sys.lookup_of_not_refused rfl hr
    have hbad : (badRange args.arg1 args.arg2 || decide (args.arg2 > 512)) = true := by
      by_contra hc
      apply hp
      simpa [Sys.Passes] using hc
    change sysTorCell table args m = _
    rw [sysTorCell, withEndpoint_of_ok hl, if_pos hbad]
    rfl
  | sysinfo =>
    change sysSysinfo args m = _
    rw [sysSysinfo, if_pos (toNat_ge_userTop.mpr (not_lt.mp hp))]
    rfl
  | send =>
    obtain ⟨slot, hl⟩ := Sys.lookup_of_not_refused rfl hr
    change sysSend table args m = _
    rw [sysSend, withEndpoint_of_ok hl, if_pos (by simpa [Sys.Passes] using hp)]
    rfl
  | recv =>
    obtain ⟨slot, hl⟩ := Sys.lookup_of_not_refused rfl hr
    change sysRecv table args m = _
    rw [sysRecv, withEndpoint_of_ok hl, if_pos (by simpa [Sys.Passes] using hp)]
    rfl
  | pqcKem =>
    have hbad : args.arg0 ≥ 0x800000000000 ∨ args.arg1 ≥ 0x800000000000 ∨
        args.arg2 ≥ 0x800000000000 := by
      simp only [toNat_ge_userTop]
      unfold Sys.Passes at hp
      omega
    change sysPqcKem args m = _
    rw [sysPqcKem, if_pos hbad]
    rfl
  | _ => exact absurd trivial hp

/-! ## The machine in a run -/

theorem syscallDispatch_of_none {num : UInt64} (h : m.kernel.sched.current = none) :
    syscallDispatch K cpu num args m = ⟨[], some sysretEaccess, m⟩ := by
  rw [syscallDispatch, get_bind_apply, h]
  rfl

theorem syscallDispatch_of_badcall {num : UInt64} {cur : TaskPtr}
    (h : m.kernel.sched.current = some cur) (hn : Sys.ofNumber num = none) :
    syscallDispatch K cpu num args m = ⟨[], some sysretEbadcall, m⟩ := by
  rw [syscallDispatch, get_bind_apply, h]
  dsimp only
  rw [hn]
  rfl

theorem syscallDispatch_of_call (K : KernelLayout) (cpu : TaskRegs) (args : SysArgs) {num : UInt64}
    {cur : TaskPtr}
    (h : m.kernel.sched.current = some cur) (hn : Sys.ofNumber num = some call) :
    syscallDispatch K cpu num args m =
      call.run K cpu (m.kernel.sched.taskTable cur).capTable args m := by
  rw [syscallDispatch, get_bind_apply, h]
  dsimp only
  rw [hn]

theorem Machine.pendingInUser_step {op : MachineOp} (h : m.PendingInUser) :
    (m.step K op).PendingInUser := by
  unfold Machine.step
  split
  · exact h
  · cases op with
    | syscall cpu num args =>
      cases hc : m.kernel.sched.current with
      | none =>
        dsimp only
        rw [syscallDispatch_of_none hc]
        exact h
      | some cur =>
        cases hn : Sys.ofNumber num with
        | none =>
          dsimp only
          rw [syscallDispatch_of_badcall hc hn]
          exact h
        | some call =>
          dsimp only
          rw [syscallDispatch_of_call K cpu args hc hn]
          have hrun := Sys.meets_run (P := fun _ => True) K cpu
            (m.kernel.sched.taskTable cur).capTable args call (fun _ _ _ => covers_true)
            (fun _ _ => trivial)
          exact (hrun m h).2.1
    | tick cpu => exact h
    | key c => exact h
    | revoke table i =>
      intro e
      have hzero : (0 : UInt64).toNat + ipcMsgSize ≤ userTop := by decide
      dsimp only [capRevokeEndpoint]
      split
      · exact h e
      · split
        · rw [setEp_epPool]
          split
          · exact hzero
          · exact h e
        · exact h e
    | store a bs =>
      dsimp only [Machine.userStore]
      split
      · exact h
      · exact h

theorem confined_call_iff {num : UInt64} {cur : TaskPtr} (h : m.PendingInUser)
    (hc : m.kernel.sched.current = some cur) (hn : Sys.ofNumber num = some call)
    (hr : call.refused m.kernel.caps (m.kernel.sched.taskTable cur).capTable args.arg0 = false) :
    Confined K cpu m num args ↔ ¬ call.Overlooked args := by
  have hd := syscallDispatch_of_call K cpu args hc hn
  have hbuffers : userBuffers num args = call.buffers args := by rw [userBuffers, hn]
  have haccess : accessRefused m num args = false := by
    rw [accessRefused, hc]
    dsimp only
    rw [hn]
    exact hr
  constructor
  · intro hconf ho
    obtain ⟨b, hb, hreach⟩ := ho.reaches
    have hv := (hconf.refused b (hbuffers ▸ hb) hreach).2
    rw [hd, haccess] at hv
    have hrun := Sys.meets_run (P := fun _ => True) K cpu
      (m.kernel.sched.taskTable cur).capTable args call (fun _ _ _ => covers_true)
      (fun _ _ => trivial)
    exact (hrun m h).2.2 _ hv ho rfl
  · intro ho
    constructor
    · rw [hd]
      have hrun := Sys.meets_run (P := (· < userTop)) K cpu
        (m.kernel.sched.taskTable cur).capTable args call
        (fun hp b hb => covers_of_le (Sys.le_of_passes hp ho b hb)) (fun _ ha => ha)
      exact (hrun m h).1
    · intro b hb hreach
      have hp : ¬ call.Passes args := by
        intro hp
        have hle := Sys.le_of_passes hp ho b (hbuffers ▸ hb)
        omega
      rw [hd, haccess, Sys.run_of_not_passes hr hp]
      exact ⟨rfl, rfl⟩

theorem confined_iff_of_pending {num : UInt64} (h : m.PendingInUser) :
    Confined K cpu m num args ↔
      accessRefused m num args = true ∨ ¬ Overlooked num args := by
  have hempty : ∀ v, syscallDispatch K cpu num args m = ⟨[], some v, m⟩ →
      (∀ b ∈ userBuffers num args, userTop < b.1.toNat + b.2 →
        v = if accessRefused m num args then sysretEaccess else sysretEfault) →
      Confined K cpu m num args := by
    intro v hd hv
    constructor
    · rw [hd]
      rintro a ha
      cases ha
    · rintro b hb hreach
      rw [hd, hv b hb hreach]
      exact ⟨rfl, rfl⟩
  cases hc : m.kernel.sched.current with
  | none =>
    have haccess : accessRefused m num args = true := by rw [accessRefused, hc]
    refine ⟨fun _ => Or.inl haccess, fun _ => ?_⟩
    apply hempty _ (syscallDispatch_of_none hc)
    rintro - - -
    rw [haccess]
    rfl
  | some cur =>
    cases hn : Sys.ofNumber num with
    | none =>
      refine ⟨fun _ => Or.inr ?_, fun _ => ?_⟩
      · rintro ⟨call, hcall, -⟩
        rw [hn] at hcall
        cases hcall
      · apply hempty _ (syscallDispatch_of_badcall hc hn)
        rintro b hb
        rw [userBuffers, hn] at hb
        cases hb
    | some call =>
      have haccess : accessRefused m num args =
          call.refused m.kernel.caps (m.kernel.sched.taskTable cur).capTable args.arg0 := by
        rw [accessRefused, hc]
        dsimp only
        rw [hn]
      have hover : Overlooked num args ↔ call.Overlooked args := by
        constructor
        · rintro ⟨call', hcall, ho⟩
          cases hn.symm.trans hcall
          exact ho
        · intro ho
          exact ⟨call, hn, ho⟩
      rw [haccess, hover]
      cases hr : call.refused m.kernel.caps (m.kernel.sched.taskTable cur).capTable args.arg0 with
      | true =>
        refine ⟨fun _ => Or.inl rfl, fun _ => ?_⟩
        apply hempty sysretEaccess
        · rw [syscallDispatch_of_call K cpu args hc hn, Sys.run_of_refused hr]
        · rintro - - -
          rw [haccess, hr]
          rfl
      | false =>
        rw [confined_call_iff h hc hn hr]
        simp only [Bool.false_eq_true, false_or]

/-- In every run from a machine where no message waits, any call made next is confined exactly when
it is refused for its capability or its pointers are not overlooked. -/
theorem syscall_confined_iff (h : ∀ e, (m.kernel.caps.epPool e).pendingMsg = 0)
    (ops : List MachineOp) (num : UInt64) :
    Confined K cpu (run (Machine.step K) m ops) num args ↔
      accessRefused (run (Machine.step K) m ops) num args = true ∨ ¬ Overlooked num args := by
  apply confined_iff_of_pending
  apply run_invariant_of_forall (Machine.step K) (I := Machine.PendingInUser)
  · intro s op hs
    exact Machine.pendingInUser_step hs
  · intro e
    rw [h e]
    decide

end

/-! ## A string of almost all addresses -/

/-- The two tasks of before, with sockets closed, no Tor circuit and no network card. -/
def sampleMachine : Machine where
  kernel := twoSpaces
  keys := ⟨fun _ => 0, 0, 0⟩
  sockets := fun _ => ⟨false, .closed, 0, 0, 0, 0, 0, 0, 0, fun _ => 0, 0, 0⟩
  nextEphemeralPort := 49152
  torCircuit := ⟨0, [], [], [], false⟩
  torCellsSent := 0
  nic := ⟨false, fun _ => false, 0, []⟩
  anonymizedMac := List.replicate 6 0
  entropy := fun _ => 0
  freeMemory := 0
  serial := []
  screen := []

/-- `SYS_WRITE` through the first slot. -/
def writeArgs (buf len : UInt64) : SysArgs := ⟨0, buf, len, 0⟩

theorem syscall_confined_iff_sample :
    Confined sampleLayout zeroRegs (run (Machine.step sampleLayout) sampleMachine
      [.syscall zeroRegs 7 ⟨0x4000, 0, 0, 0⟩, .tick zeroRegs]) 1 (writeArgs 0x4000 16) := by
  apply (syscall_confined_iff (fun _ => rfl) _ 1).mpr
  right
  rintro ⟨call, hcall, ho⟩
  obtain rfl : Sys.write = call := Option.some.inj hcall
  obtain ⟨-, hw⟩ : Wraps 0x4000 16 := ho
  revert hw
  decide

/-- A string at 0x4000 whose length is 0x4000 short of 2^64 is written, though it reaches beyond
every user address. -/
theorem syscall_not_confined :
    ¬ Confined sampleLayout zeroRegs sampleMachine 1 (writeArgs 0x4000 0xffffffffffffc000) := by
  have hp : sampleMachine.PendingInUser := by
    intro e
    decide +revert
  rw [confined_iff_of_pending hp]
  rintro (hr | ho)
  · revert hr
    decide
  · apply ho
    refine ⟨.write, rfl, ?_⟩
    constructor
    · decide
    · decide

end StyxOS
