import StyxOS.Syscall.Confinement

/-! # Authority over the network

The calls on sockets and on the Tor circuit and the emergency wipe ask for an
endpoint with a right, whichever endpoint it is, and two calls ask for none. What
a call does to the network is compared with what its task was given.
-/

namespace StyxOS

open Access ByteMem StepSystem

/-! ## What a task was given -/

/-- A slot that refers to something, and not to an endpoint that was revoked since. -/
def LiveSlot (c : Caps) (slot : CapSlot) : Prop := slot.object ≠ .null ∧ isStale c slot = false

/-- The live slots of a table all refer to one endpoint. -/
def OnlyEndpoint (c : Caps) (table : UInt64) (e : EpPtr) : Prop :=
  ∀ i, LiveSlot c (c.tables table i) → (c.tables table i).object = .endpoint e

def NoCapability (c : Caps) (table : UInt64) : Prop := ∀ i, ¬ LiveSlot c (c.tables table i)

theorem NoCapability.lookup {c : Caps} {table : UInt64} (h : NoCapability c table) (idx : UInt32)
    (right : UInt32) : ∃ err, err ≠ .ok ∧ capLookup c table idx .endpoint right = .error err := by
  cases hl : capLookup c table idx .endpoint right with
  | error err =>
    refine ⟨err, ?_, rfl⟩
    rintro rfl
    exact capLookup_ne_ok hl
  | ok slot =>
    obtain ⟨i, -, rfl, -, hne, hstale, -⟩ := capLookup_ok hl
    exact absurd ⟨hne, hstale⟩ (h i)

/-! ## The network -/

/-- The sockets, the number of Tor cells, and the card with the frames it took. -/
def Machine.network (m : Machine) : (Fin maxTcpSockets → TcpSocket) × UInt32 × Nic :=
  (m.sockets, m.torCellsSent, m.nic)

/-- The bytes of a buffer are mapped for the running task. -/
def Machine.Reads (m : Machine) (a : UInt64) (n : ℕ) : Prop :=
  Covers (fun x => m.kernel.memory.readable m.kernel.sched.cr3 x = true) a n

/-- A call that was let through finds something to do for the network: a circuit to send a cell on,
a socket that is free, or one that is open for what is asked, and a buffer that is mapped. -/
def Sys.ActsOnNetwork (m : Machine) (args : SysArgs) : Sys → Prop
  | .torCell => m.torCircuit.established = true ∧
      (args.arg1 ≠ 0 → m.Reads args.arg1 (torCopyLen args.arg2.toUInt16))
  | .socket => ∃ i, (m.sockets i).active = false
  | .connect => (activeSocket m args.arg1).isSome
  | .send => ∃ i, activeSocket m args.arg1 = some i ∧ (m.sockets i).state = .established ∧
      (0 < args.arg3 → args.arg2 ≠ 0) ∧ args.arg3.toNat ≤ netTcpPayloadMax ∧
      m.Reads args.arg2 args.arg3.toNat ∧ (0 < args.arg3 ∨ m.nic.active = true)
  | .recv => ∃ i, activeSocket m args.arg1 = some i ∧
      (m.sockets i).rxHead ≠ (m.sockets i).rxTail ∧ 0 < args.arg3 ∧
      m.kernel.memory.writable m.kernel.sched.cr3 args.arg2.toNat = true
  | .emergencyWipe => m.nic.active = true
  | _ => False

/-- A part of the machine that a call without network leaves alone: none of kernel, keyboard, random
numbers and console. -/
def Apart {τ : Type} (g : Machine → τ) : Prop :=
  ∀ (m : Machine) kernel keys entropy serial screen,
    g { m with
      kernel := kernel
      keys := keys
      entropy := entropy
      serial := serial
      screen := screen } = g m

theorem apart_network : Apart Machine.network := fun _ _ _ _ _ _ => rfl

/-- A part of the machine that no call changes. -/
structure Fixed {τ : Type} (g : Machine → τ) : Prop where
  others : ∀ (m : Machine) kernel keys entropy serial screen sockets port cells,
    g { m with
      kernel := kernel
      keys := keys
      entropy := entropy
      serial := serial
      screen := screen
      sockets := sockets
      nextEphemeralPort := port
      torCellsSent := cells } = g m
  card : ∀ (m : Machine) frame, g { m with nic := (e1000SendPacket m.nic frame).2 } = g m

theorem Fixed.apart {τ : Type} {g : Machine → τ} (h : Fixed g) : Apart g :=
  fun m _ _ _ _ _ => h.others m _ _ _ _ _ _ _ _

theorem fixed_anonymizedMac : Fixed Machine.anonymizedMac :=
  ⟨fun _ _ _ _ _ _ _ _ _ => rfl, fun _ _ => rfl⟩

theorem fixed_nicActive : Fixed fun m => m.nic.active := by
  refine ⟨fun _ _ _ _ _ _ _ _ _ => rfl, fun m frame => ?_⟩
  dsimp only
  rw [e1000SendPacket]
  split
  · rfl
  · rfl

section
variable {τ : Type} {g : Machine → τ} (hg : Apart g)
variable {m : Machine} {a : UInt64} {n : ℕ} {K : KernelLayout} {cpu : TaskRegs} {table : UInt64}
  {args : SysArgs}

include hg

theorem keeps_pageFault {α : Type} : Keeps g (pageFault : Access Machine α) := by
  refine keeps_bind (keeps_modify fun m => ?_) fun _ => keeps_fault
  exact hg m _ _ _ _ _

theorem keeps_readByte : Keeps g (readByte a) :=
  keeps_bind keeps_touch fun _ =>
    keeps_get_bind fun _ => keeps_ite keeps_pure (keeps_pageFault hg)

theorem keeps_writeByte {b : UInt8} : Keeps g (writeByte a b) := by
  apply keeps_bind keeps_touch
  intro
  apply keeps_get_bind
  intro m
  refine keeps_ite (keeps_modify fun m => ?_) (keeps_pageFault hg)
  exact hg m _ _ _ _ _

theorem keeps_copyIn : Keeps g (copyIn a n) := by
  induction n generalizing a with
  | zero => exact keeps_pure
  | succ n ih =>
    apply keeps_bind (keeps_readByte hg)
    intro b
    apply keeps_bind ih
    intro bs
    exact keeps_pure

theorem keeps_copyOut {bs : List UInt8} : Keeps g (copyOut a bs) := by
  induction bs generalizing a with
  | nil => exact keeps_pure
  | cons b bs ih =>
    apply keeps_bind (keeps_writeByte hg)
    intro
    exact ih

theorem keeps_csprngGetBytes : Keeps g (csprngGetBytes n) := by
  apply keeps_get_bind
  intro m
  refine keeps_bind (keeps_modify fun m => ?_) fun _ => keeps_pure
  exact hg m _ _ _ _ _

theorem keeps_keyboardGetChar : Keeps g keyboardGetChar := by
  apply keeps_get_bind
  intro m
  apply keeps_ite keeps_pure
  refine keeps_bind (keeps_modify fun m => ?_) fun _ => keeps_pure
  exact hg m _ _ _ _ _

theorem keeps_writeLoop : Keeps g (writeLoop n a) := by
  induction n generalizing a with
  | zero => exact keeps_pure
  | succ n ih =>
    apply keeps_bind (keeps_readByte hg)
    intro c
    apply keeps_ite keeps_pure
    refine keeps_bind (keeps_modify fun m => ?_) fun _ => ih
    exact hg m _ _ _ _ _

theorem keeps_kyber1024Encapsulate {ct ss pk : UInt64} :
    Keeps g (kyber1024Encapsulate ct ss pk) := by
  apply keeps_ite keeps_pure
  apply keeps_bind (keeps_csprngGetBytes hg)
  intro coin
  apply keeps_bind (keeps_copyOut hg)
  intro
  apply keeps_bind (keeps_csprngGetBytes hg)
  intro noise
  apply keeps_bind (keeps_copyOut hg)
  intro
  apply keeps_bind (keeps_writeByte hg)
  intro
  apply keeps_bind (keeps_copyOut hg)
  intro
  exact keeps_pure

theorem keeps_sysCapMsg {d : IpcDir} : Keeps g (sysCapMsg K cpu d table args) := by
  apply keeps_ite keeps_pure
  apply keeps_get_bind
  intro m
  apply keeps_bind keeps_touch
  intro
  refine keeps_bind (keeps_modify fun m' => ?_) fun _ => ?_
  · exact hg m' _ _ _ _ _
  split
  · exact keeps_fault
  · exact keeps_pure

theorem keeps_sysSysinfo : Keeps g (sysSysinfo args) := by
  apply keeps_ite keeps_pure
  apply keeps_get_bind
  intro m
  apply keeps_bind (keeps_copyOut hg)
  intro
  apply keeps_bind (keeps_copyOut hg)
  intro
  apply keeps_bind (keeps_copyOut hg)
  intro
  exact keeps_pure

theorem keeps_netBuildTcp {f : Flow} {seqNum ackNum : UInt32} {flags : UInt8}
    {windowSize : UInt16} {payload payloadLen : UInt64} :
    Keeps g (netBuildTcp f seqNum ackNum flags windowSize payload payloadLen) :=
  keeps_ite keeps_pure (keeps_bind (keeps_copyIn hg) fun _ => keeps_pure)

theorem keeps_tcpSocketRecv_of_tail
    (htail : ∀ (m : Machine) i tail, g (m.setSocket i { m.sockets i with rxTail := tail }) = g m)
    {socketId buf maxLen : UInt64} : Keeps g (tcpSocketRecv socketId buf maxLen) := by
  have hloop : ∀ (i : Fin maxTcpSockets) (limit held count : ℕ),
      Keeps g (recvLoop i buf limit held count) := by
    intro i limit held
    induction held with
    | zero => exact fun _ => keeps_pure
    | succ held ih =>
      intro count
      apply keeps_ite keeps_pure
      apply keeps_get_bind
      intro m
      apply keeps_bind (keeps_writeByte hg)
      intro
      exact keeps_bind (keeps_modify fun m' => htail m' i _) fun _ => ih (count + 1)
  apply keeps_get_bind
  intro m
  split
  · exact keeps_pure
  · exact keeps_bind (hloop _ _ _ _) fun _ => keeps_pure

theorem keeps_torPayload {payload : UInt64} : Keeps g (torPayload payload n) :=
  keeps_ite (keeps_copyIn hg) keeps_pure

omit hg

/-! ## Reading a payload -/

theorem readByte_of_readable
    (h : m.kernel.memory.readable m.kernel.sched.cr3 a.toNat = true) :
    (readByte a m).value = some (m.kernel.memory.view m.kernel.sched.cr3 a.toNat) ∧
      (readByte a m).state = m := by
  constructor
  · change ((if m.kernel.memory.readable m.kernel.sched.cr3 a.toNat then pure _
      else pageFault : Access Machine UInt8) m).value = _
    rw [if_pos h]
    rfl
  · change ((if m.kernel.memory.readable m.kernel.sched.cr3 a.toNat then pure _
      else pageFault : Access Machine UInt8) m).state = _
    rw [if_pos h]
    rfl

theorem value_readByte_of_not_readable
    (h : m.kernel.memory.readable m.kernel.sched.cr3 a.toNat ≠ true) :
    (readByte a m).value = none := by
  change ((if m.kernel.memory.readable m.kernel.sched.cr3 a.toNat then pure _
    else pageFault : Access Machine UInt8) m).value = none
  rw [if_neg h]
  rfl

theorem copyIn_of_reads (h : m.Reads a n) :
    (∃ bs, bs.length = n ∧ (copyIn a n m).value = some bs) ∧ (copyIn a n m).state = m := by
  induction n generalizing a with
  | zero => exact ⟨⟨[], rfl, rfl⟩, rfl⟩
  | succ n ih =>
    obtain ⟨hv, hs⟩ := readByte_of_readable (m := m) (Covers.head h)
    obtain ⟨⟨bs, hlen, hbs⟩, hrest⟩ := ih (Covers.tail h)
    rw [copyIn, value_bind_of_some hv, state_bind_of_some hv, hs, value_bind_of_some hbs,
      state_bind_of_some hbs, hrest]
    exact ⟨⟨_, by rw [List.length_cons, hlen], rfl⟩, rfl⟩

theorem value_copyIn_of_not_reads (h : ¬ m.Reads a n) : (copyIn a n m).value = none := by
  induction n generalizing a with
  | zero => exact absurd (fun i hi => absurd hi (Nat.not_lt_zero i)) h
  | succ n ih =>
    by_cases hr : m.kernel.memory.readable m.kernel.sched.cr3 a.toNat = true
    · obtain ⟨hv, hs⟩ := readByte_of_readable (m := m) hr
      have hrest : ¬ m.Reads (a + 1) n := fun ht => h (Covers.cons hr ht)
      rw [copyIn, value_bind_of_some hv, hs, value_bind_of_none (ih hrest)]
    · rw [copyIn, value_bind_of_none (value_readByte_of_not_readable hr)]

/-! ## What the calls do to the network -/

theorem add_one_ne (n : UInt32) : n + 1 ≠ n := by
  intro h
  simp at h

theorem network_ne_of_socket {m' : Machine} {i : Fin maxTcpSockets}
    (h : m'.sockets i ≠ m.sockets i) : m'.network ≠ m.network := by
  intro hn
  have hs : m'.sockets = m.sockets := congrArg Prod.fst hn
  exact h (by rw [hs])

theorem network_tcpSocketCreate :
    (tcpSocketCreate m).state.network = m.network ↔ ¬ ∃ i, (m.sockets i).active = false := by
  rw [tcpSocketCreate, get_bind_apply]
  cases hf : (List.finRange maxTcpSockets).find? fun i => !(m.sockets i).active with
  | none =>
    have hall : ∀ i, (m.sockets i).active = true := by
      simpa using List.find?_eq_none.mp hf
    refine iff_of_true rfl ?_
    rintro ⟨i, hi⟩
    rw [hall i] at hi
    cases hi
  | some i =>
    have hi : (m.sockets i).active = false := by simpa using List.find?_some hf
    refine iff_of_false ?_ (not_not_intro ⟨i, hi⟩)
    apply network_ne_of_socket (i := i)
    intro heq
    change (Function.update _ i _ : Fin maxTcpSockets → TcpSocket) i = _ at heq
    rw [Function.update_self] at heq
    have hactive : true = (m.sockets i).active := congrArg TcpSocket.active heq
    rw [hi] at hactive
    cases hactive

theorem network_tcpSocketConnect {socketId : UInt64} {dstIp : UInt32} {dstPort : UInt16} :
    (tcpSocketConnect socketId dstIp dstPort m).state.network = m.network ↔
      ¬ (activeSocket m socketId).isSome := by
  rw [tcpSocketConnect, get_bind_apply]
  cases h : activeSocket m socketId with
  | none => exact iff_of_true rfl (by decide)
  | some i =>
    refine iff_of_false ?_ (by simp)
    apply network_ne_of_socket (i := i)
    intro heq
    change (Function.update _ i _ : Fin maxTcpSockets → TcpSocket) i = _ at heq
    rw [Function.update_self] at heq
    have hseq := congrArg TcpSocket.seqNum heq
    change ((Function.update _ i _ : Fin maxTcpSockets → TcpSocket) i).seqNum = _ at hseq
    rw [Function.update_self] at hseq
    exact absurd hseq (add_one_ne _)

theorem e1000SendPacket_eq_iff {nic : Nic} {frame : List UInt8} (h₀ : 0 < frame.length)
    (h₁ : frame.length ≤ e1000BufferSize) :
    (e1000SendPacket nic frame).2 = nic ↔ nic.active = false := by
  unfold e1000SendPacket
  cases hactive : nic.active with
  | false => exact iff_of_true rfl rfl
  | true =>
    have hgo : (!true || decide (frame.length = 0) || decide (e1000BufferSize < frame.length)) =
        false := by
      simp only [Bool.not_true, Bool.false_or, Bool.or_eq_false_iff, decide_eq_false_iff_not]
      omega
    rw [hgo]
    refine iff_of_false ?_ (by decide)
    intro heq
    have hattempts : nic.attempts + 1 = nic.attempts := congrArg Nic.attempts heq
    omega

theorem length_tcpFrame {f : Flow} (hsrc : f.srcMac.length = 6) (hdst : f.dstMac.length = 6)
    {seqNum ackNum : UInt32} {flags : UInt8} {windowSize : UInt16} {payload : List UInt8} :
    (tcpFrame f seqNum ackNum flags windowSize payload).length = 54 + payload.length := by
  simp only [tcpFrame, ethHeader, ipHeader, be16, be32, List.length_append, List.length_cons,
    List.length_nil, length_beBytes, hsrc, hdst]
  omega

theorem length_udpFrame {f : Flow} (hsrc : f.srcMac.length = 6) (hdst : f.dstMac.length = 6)
    {payload : List UInt8} (h₀ : 0 < payload.length) (h₁ : payload.length ≤ netUdpPayloadMax) :
    ∃ frame, netBuildUdp f payload = some frame ∧ frame.length = 42 + payload.length := by
  rw [netBuildUdp, if_neg (by omega)]
  refine ⟨_, rfl, ?_⟩
  simp only [ethHeader, ipHeader, be16, be32, List.length_append, List.length_cons,
    List.length_nil, length_beBytes, hsrc, hdst]

section
variable {f : Flow} {seqNum ackNum : UInt32} {flags : UInt8} {windowSize : UInt16}
  {payload payloadLen : UInt64}

theorem netBuildTcp_of_refused
    (h : (0 < payloadLen ∧ payload = 0) ∨ netTcpPayloadMax < payloadLen.toNat) :
    netBuildTcp f seqNum ackNum flags windowSize payload payloadLen m = ⟨[], some none, m⟩ := by
  rw [netBuildTcp, if_pos h]
  rfl

theorem netBuildTcp_of_not_reads
    (h : ¬((0 < payloadLen ∧ payload = 0) ∨ netTcpPayloadMax < payloadLen.toNat))
    (hr : ¬ m.Reads payload payloadLen.toNat) :
    (netBuildTcp f seqNum ackNum flags windowSize payload payloadLen m).value = none := by
  rw [netBuildTcp, if_neg h, value_bind_of_none (value_copyIn_of_not_reads hr)]

/-- A payload that is mapped gives a frame that the card takes. -/
theorem netBuildTcp_of_reads (seqNum ackNum : UInt32) (flags : UInt8) (windowSize : UInt16)
    (hsrc : f.srcMac.length = 6) (hdst : f.dstMac.length = 6)
    (h : ¬((0 < payloadLen ∧ payload = 0) ∨ netTcpPayloadMax < payloadLen.toNat))
    (hr : m.Reads payload payloadLen.toNat) :
    (netBuildTcp f seqNum ackNum flags windowSize payload payloadLen m).state = m ∧
      ∃ frame, (netBuildTcp f seqNum ackNum flags windowSize payload payloadLen m).value =
        some (some frame) ∧ 0 < frame.length ∧ frame.length ≤ e1000BufferSize := by
  obtain ⟨⟨bs, hbs, hv⟩, hs⟩ := copyIn_of_reads hr
  have hmax : bs.length ≤ netTcpPayloadMax := by
    rw [hbs]
    exact Nat.not_lt.mp fun hlt => h (.inr hlt)
  rw [netBuildTcp, if_neg h, value_bind_of_some hv, state_bind_of_some hv, hs]
  refine ⟨rfl, _, rfl, ?_⟩
  rw [length_tcpFrame hsrc hdst]
  have hbuffer : e1000BufferSize = 2048 := rfl
  have hpayload : netTcpPayloadMax = 1460 := rfl
  omega

end

theorem update_seqNum_eq_iff {i : Fin maxTcpSockets} {len : UInt64}
    (h : len.toNat ≤ netTcpPayloadMax) :
    Function.update m.sockets i
        { m.sockets i with seqNum := (m.sockets i).seqNum + len.toUInt32 } = m.sockets ↔
      len = 0 := by
  rw [Function.update_eq_self_iff]
  constructor
  · intro heq
    have hseq : (m.sockets i).seqNum + len.toUInt32 = (m.sockets i).seqNum :=
      congrArg TcpSocket.seqNum heq
    have hz : len.toUInt32 = 0 := by simpa using hseq
    have hpayload : netTcpPayloadMax = 1460 := rfl
    have hnat : len.toNat % 2 ^ 32 = 0 := by
      rw [← UInt64.toNat_toUInt32, hz]
      rfl
    exact UInt64.toNat_inj.mp (by rw [UInt64.toNat_zero]; omega)
  · rintro rfl
    simp

theorem network_tcpSocketSend {socketId buf len : UInt64} (hmac : m.anonymizedMac.length = 6) :
    (tcpSocketSend socketId buf len m).state.network = m.network ↔
      ¬ ∃ i, activeSocket m socketId = some i ∧ (m.sockets i).state = .established ∧
        (0 < len → buf ≠ 0) ∧ len.toNat ≤ netTcpPayloadMax ∧ m.Reads buf len.toNat ∧
        (0 < len ∨ m.nic.active = true) := by
  rw [tcpSocketSend, get_bind_apply]
  cases hsock : activeSocket m socketId with
  | none =>
    refine iff_of_true rfl ?_
    rintro ⟨i, hi, -⟩
    cases hi
  | some i =>
    dsimp only
    by_cases hst : (m.sockets i).state = .established
    · rw [if_neg (not_not_intro hst)]
      by_cases hlen : (0 < len ∧ buf = 0) ∨ netTcpPayloadMax < len.toNat
      · have hno : (netBuildTcp ((m.sockets i).flow m.anonymizedMac) (m.sockets i).seqNum
            (m.sockets i).ackNum (tcpAck ||| tcpPsh) (m.sockets i).windowSize buf len m) =
              ⟨[], some none, m⟩ := netBuildTcp_of_refused hlen
        rw [state_bind_of_some (a := none) (by rw [hno]), hno]
        refine iff_of_true rfl ?_
        rintro ⟨j, -, -, hbuf, hmax, -⟩
        rcases hlen with ⟨hpos, hz⟩ | hlong
        · exact hbuf hpos hz
        · omega
      · by_cases hreads : m.Reads buf len.toNat
        · obtain ⟨hs, frame, hv, h₀, h₁⟩ := netBuildTcp_of_reads
            (f := (m.sockets i).flow m.anonymizedMac) (m.sockets i).seqNum (m.sockets i).ackNum
            (tcpAck ||| tcpPsh) (m.sockets i).windowSize hmac rfl hlen hreads
          rw [state_bind_of_some hv, hs]
          change (Function.update m.sockets i
              { m.sockets i with seqNum := (m.sockets i).seqNum + len.toUInt32 },
            m.torCellsSent, (e1000SendPacket m.nic frame).2) =
              (m.sockets, m.torCellsSent, m.nic) ↔ _
          obtain ⟨hbuf, hmax⟩ := not_or.mp hlen
          rw [Prod.mk.injEq, Prod.mk.injEq, e1000SendPacket_eq_iff h₀ h₁,
            update_seqNum_eq_iff (Nat.not_lt.mp hmax)]
          constructor
          · rintro ⟨hz, -, hoff⟩ ⟨j, -, -, -, -, -, hpos | hon⟩
            · rw [hz] at hpos
              cases hpos
            · rw [hoff] at hon
              cases hon
          · intro hno
            have hnone : ¬(0 < len ∨ m.nic.active = true) := fun hact =>
              hno ⟨i, rfl, hst, fun hpos hz => hbuf ⟨hpos, hz⟩, Nat.not_lt.mp hmax, hreads, hact⟩
            obtain ⟨hz, hoff⟩ := not_or.mp hnone
            exact ⟨UInt64.le_zero_iff.mp (UInt64.not_lt.mp hz), rfl, Bool.eq_false_iff.mpr hoff⟩
        · rw [state_bind_of_none (netBuildTcp_of_not_reads hlen hreads)]
          refine iff_of_true (keeps_netBuildTcp apart_network m) ?_
          rintro ⟨j, -, -, -, -, hr, -⟩
          exact hreads hr
    · rw [if_pos hst]
      refine iff_of_true rfl ?_
      rintro ⟨j, hj, hest, -⟩
      cases hj
      exact hst hest

theorem writeByte_of_writable {b : UInt8}
    (h : m.kernel.memory.writable m.kernel.sched.cr3 a.toNat = true) :
    (writeByte a b m).value = some () ∧ (writeByte a b m).state.sockets = m.sockets := by
  constructor
  · change ((if m.kernel.memory.writable m.kernel.sched.cr3 a.toNat then modify _
      else pageFault : Access Machine Unit) m).value = _
    rw [if_pos h]
    rfl
  · change ((if m.kernel.memory.writable m.kernel.sched.cr3 a.toNat then modify _
      else pageFault : Access Machine Unit) m).state.sockets = _
    rw [if_pos h]
    rfl

theorem value_writeByte_of_not_writable {b : UInt8}
    (h : m.kernel.memory.writable m.kernel.sched.cr3 a.toNat ≠ true) :
    (writeByte a b m).value = none := by
  change ((if m.kernel.memory.writable m.kernel.sched.cr3 a.toNat then modify _
    else pageFault : Access Machine Unit) m).value = none
  rw [if_neg h]
  rfl

theorem one_add_ofNat (j : ℕ) : 1 + Fin.ofNat tcpRxBufSize j = Fin.ofNat tcpRxBufSize (j + 1) := by
  apply Fin.ext
  have hone : (1 : Fin tcpRxBufSize).val = 1 := rfl
  rw [Fin.val_add, Fin.val_ofNat, Fin.val_ofNat, hone, Nat.add_mod_mod, Nat.add_comm]

theorem add_ofNat_ne {x : Fin tcpRxBufSize} {j : ℕ} (h₀ : 0 < j) (h₁ : j < tcpRxBufSize) :
    x + Fin.ofNat tcpRxBufSize j ≠ x := by
  intro h
  have hz : Fin.ofNat tcpRxBufSize j = 0 := by simpa using h
  have hval : j % tcpRxBufSize = 0 := congrArg Fin.val hz
  rw [Nat.mod_eq_of_lt h₁] at hval
  omega

theorem rxTail_recvLoop (i : Fin maxTcpSockets) (buf : UInt64) (maxLen held count : ℕ) :
    ∃ j ≤ held, ((recvLoop i buf maxLen held count m).state.sockets i).rxTail =
      (m.sockets i).rxTail + Fin.ofNat tcpRxBufSize j := by
  have hzero : ∀ x : Fin tcpRxBufSize, x = x + Fin.ofNat tcpRxBufSize 0 := fun x => by simp
  induction held generalizing count m with
  | zero => exact ⟨0, le_rfl, hzero _⟩
  | succ held ih =>
    rw [recvLoop]
    by_cases hmax : maxLen ≤ count
    · rw [if_pos hmax]
      exact ⟨0, Nat.zero_le _, hzero _⟩
    · rw [if_neg hmax, get_bind_apply]
      by_cases hw : m.kernel.memory.writable m.kernel.sched.cr3
          (buf + UInt64.ofNat count).toNat = true
      · obtain ⟨hv, hs⟩ := writeByte_of_writable (b := (m.sockets i).rxBuf (m.sockets i).rxTail) hw
        rw [state_bind_of_some hv]
        obtain ⟨j, hj, hrest⟩ := ih (m := (writeByte (buf + UInt64.ofNat count)
            ((m.sockets i).rxBuf (m.sockets i).rxTail) m).state.setSocket i
          { (writeByte (buf + UInt64.ofNat count)
              ((m.sockets i).rxBuf (m.sockets i).rxTail) m).state.sockets i with
            rxTail := (m.sockets i).rxTail + 1 }) (count + 1)
        refine ⟨j + 1, by omega, ?_⟩
        rw [state_bind_of_some (a := ()) rfl]
        refine hrest.trans ?_
        change ((Function.update _ i _ : Fin maxTcpSockets → TcpSocket) i).rxTail + _ = _
        rw [Function.update_self]
        dsimp only
        rw [add_assoc, one_add_ofNat]
      · rw [state_bind_of_none (value_writeByte_of_not_writable hw)]
        have hn := keeps_writeByte apart_network (a := buf + UInt64.ofNat count)
          (b := (m.sockets i).rxBuf (m.sockets i).rxTail) m
        have hsock := congrArg Prod.fst hn
        refine ⟨0, Nat.zero_le _, ?_⟩
        rw [← hzero]
        exact congrArg TcpSocket.rxTail (congrFun hsock i)

/-- A byte that can be stored is taken out of the ring. -/
theorem network_recvLoop {i : Fin maxTcpSockets} {buf : UInt64} {maxLen held : ℕ}
    (hheld : held < tcpRxBufSize) :
    (recvLoop i buf maxLen held 0 m).state.network = m.network ↔
      ¬(0 < held ∧ 0 < maxLen ∧
        m.kernel.memory.writable m.kernel.sched.cr3 buf.toNat = true) := by
  cases held with
  | zero => exact iff_of_true rfl fun h => absurd h.1 (Nat.lt_irrefl 0)
  | succ held =>
    rw [recvLoop]
    by_cases hmax : maxLen ≤ 0
    · rw [if_pos hmax]
      exact iff_of_true rfl fun h => absurd h.2.1 (Nat.not_lt.mpr hmax)
    · have hfirst : buf + UInt64.ofNat 0 = buf := UInt64.add_zero buf
      rw [if_neg hmax, get_bind_apply, hfirst]
      by_cases hw : m.kernel.memory.writable m.kernel.sched.cr3 buf.toNat = true
      · refine iff_of_false ?_ (not_not_intro ⟨Nat.succ_pos _, Nat.not_le.mp hmax, hw⟩)
        obtain ⟨hv, hs⟩ := writeByte_of_writable (b := (m.sockets i).rxBuf (m.sockets i).rxTail) hw
        rw [state_bind_of_some hv, state_bind_of_some (a := ()) rfl]
        apply network_ne_of_socket (i := i)
        intro heq
        obtain ⟨j, hj, hrest⟩ := rxTail_recvLoop i buf maxLen held (0 + 1)
          (m := (writeByte buf ((m.sockets i).rxBuf (m.sockets i).rxTail) m).state.setSocket i
            { (writeByte buf ((m.sockets i).rxBuf (m.sockets i).rxTail) m).state.sockets i with
              rxTail := (m.sockets i).rxTail + 1 })
        have htail := hrest.symm.trans (congrArg TcpSocket.rxTail heq)
        change ((Function.update _ i _ : Fin maxTcpSockets → TcpSocket) i).rxTail + _ = _ at htail
        rw [Function.update_self] at htail
        dsimp only at htail
        rw [add_assoc, one_add_ofNat] at htail
        exact add_ofNat_ne (Nat.succ_pos j) (by omega) htail
      · rw [state_bind_of_none (value_writeByte_of_not_writable hw)]
        exact iff_of_true (keeps_writeByte apart_network m) fun h => hw h.2.2

theorem network_tcpSocketRecv {socketId buf maxLen : UInt64} :
    (tcpSocketRecv socketId buf maxLen m).state.network = m.network ↔
      ¬ ∃ i, activeSocket m socketId = some i ∧ (m.sockets i).rxHead ≠ (m.sockets i).rxTail ∧
        0 < maxLen ∧ m.kernel.memory.writable m.kernel.sched.cr3 buf.toNat = true := by
  rw [tcpSocketRecv, get_bind_apply]
  cases hsock : activeSocket m socketId with
  | none =>
    refine iff_of_true rfl ?_
    rintro ⟨i, hi, -⟩
    cases hi
  | some i =>
    dsimp only
    rw [state_bind_pure, network_recvLoop (Fin.isLt _)]
    have hheld : 0 < ((m.sockets i).rxHead - (m.sockets i).rxTail).val ↔
        (m.sockets i).rxHead ≠ (m.sockets i).rxTail := by
      rw [Nat.pos_iff_ne_zero, ne_eq, ne_eq, ← sub_eq_zero (a := (m.sockets i).rxHead)]
      exact not_congr Fin.val_eq_zero_iff
    have hmax : 0 < maxLen.toNat ↔ 0 < maxLen := (UInt64.lt_iff_toNat_lt (a := 0)).symm
    rw [hheld, hmax]
    refine not_congr ⟨fun h => ⟨i, rfl, h⟩, ?_⟩
    rintro ⟨j, hj, h⟩
    cases hj
    exact h

theorem length_torCell (circuit : TorCircuit) (payload : List UInt8) :
    (torCell circuit payload).length = torCellSize := by
  rw [torCell, List.length_take, List.length_append, List.length_replicate]
  omega

theorem length_torOnion (circuit : TorCircuit) (count : UInt32) {cell : List UInt8}
    (h : cell.length = torCellSize) : (torOnion circuit count cell).length = torCellSize := by
  have hsize : torCellSize = 512 := rfl
  simp only [torOnion, List.length_append, length_chacha20Encrypt, List.length_take,
    List.length_drop, h]
  omega

theorem torPayload_of_reads {payload : UInt64} (h : payload ≠ 0 → m.Reads payload n) :
    (∃ bs, (torPayload payload n m).value = some bs) ∧ (torPayload payload n m).state = m := by
  rw [torPayload]
  split
  · next hgo =>
    obtain ⟨⟨bs, -, hv⟩, hs⟩ := copyIn_of_reads (h hgo.1)
    exact ⟨⟨bs, hv⟩, hs⟩
  · exact ⟨⟨[], rfl⟩, rfl⟩

theorem value_torPayload_of_not_reads {payload : UInt64}
    (h : ¬(payload ≠ 0 → m.Reads payload n)) : (torPayload payload n m).value = none := by
  obtain ⟨hne, hr⟩ := Classical.not_imp.mp h
  have hpos : 0 < n := by
    by_contra hz
    exact hr fun i hi => absurd hi (by omega)
  rw [torPayload, if_pos ⟨hne, hpos⟩]
  exact value_copyIn_of_not_reads hr

theorem sendIfActive_torCellsSent (frame : List UInt8) :
    (∃ ok, (sendIfActive frame m).value = some ok) ∧
      (sendIfActive frame m).state.torCellsSent = m.torCellsSent := by
  rw [sendIfActive, get_bind_apply]
  split
  · exact ⟨⟨_, rfl⟩, rfl⟩
  · exact ⟨⟨_, rfl⟩, rfl⟩

/-- A cell that is sent is counted. -/
theorem network_torSendCell {payload : UInt64} {len : UInt16}
    (hmac : m.anonymizedMac.length = 6) :
    (torSendCell payload len torCapabilityToken m).state.network = m.network ↔
      ¬(m.torCircuit.established = true ∧
        (payload ≠ 0 → m.Reads payload (torCopyLen len))) := by
  rw [torSendCell, get_bind_apply, if_neg (not_not_intro rfl)]
  cases hcircuit : m.torCircuit.established with
  | false => exact iff_of_true rfl fun h => absurd h.1 (by decide)
  | true =>
    rw [if_neg (by decide)]
    by_cases hr : payload ≠ 0 → m.Reads payload (torCopyLen len)
    · refine iff_of_false ?_ (not_not_intro ⟨rfl, hr⟩)
      obtain ⟨⟨bs, hv⟩, hs⟩ := torPayload_of_reads hr
      rw [state_bind_of_some hv, hs]
      have honion := length_torOnion m.torCircuit (m.torCellsSent + 1)
        (length_torCell m.torCircuit bs)
      obtain ⟨frame, hframe, -⟩ := length_udpFrame (f := torFlow m.anonymizedMac) hmac rfl
        (by rw [honion]; decide) (by rw [honion]; decide)
      rw [hframe]
      obtain ⟨⟨ok, hok⟩, hcount⟩ := sendIfActive_torCellsSent (m := m) frame
      dsimp only
      rw [state_bind_of_some hok]
      intro hn
      have hcells := congrArg (fun x => x.2.1) hn
      change (sendIfActive frame m).state.torCellsSent + 1 = m.torCellsSent at hcells
      rw [hcount] at hcells
      exact add_one_ne _ hcells
    · rw [state_bind_of_none (value_torPayload_of_not_reads hr)]
      exact iff_of_true (keeps_torPayload apart_network m) fun h => hr h.2

theorem length_beaconPayload (reason : List UInt8) :
    0 < (beaconPayload reason).length ∧ (beaconPayload reason).length ≤ netUdpPayloadMax := by
  have hprefix : (asciiBytes
      "\x7b\"event\":\"TAMPER\",\"node\":\"STYXOS_NODE\",\"reason\":\"").length = 49 := by
    decide +kernel
  have hsuffix : (asciiBytes "\",\"action\":\"SELF_DESTRUCT\"\x7d").length = 27 := by decide +kernel
  have hmax : netUdpPayloadMax = 1472 := rfl
  have htake : (reason.take 128).length ≤ 128 := List.length_take_le 128 reason
  rw [beaconPayload, List.length_append, List.length_append, hprefix, hsuffix]
  omega

theorem network_destructMachine (reason : List UInt8) (hmac : m.anonymizedMac.length = 6) :
    ((destructMachine reason : Access Machine ℤ) m).state.network = m.network ↔
      ¬ m.nic.active = true := by
  obtain ⟨h₀, h₁⟩ := length_beaconPayload reason
  obtain ⟨frame, hframe, hlen⟩ :=
    length_udpFrame (f := beaconFlow m.anonymizedMac) hmac rfl h₀ h₁
  have hmax : netUdpPayloadMax = 1472 := rfl
  have hbuffer : e1000BufferSize = 2048 := rfl
  cases hactive : m.nic.active with
  | false =>
    have hb : netSendBeacon reason m =
        ⟨[], some false, m⟩ := by
      rw [netSendBeacon, get_bind_apply, if_pos (by rw [hactive]; rfl)]
      rfl
    rw [destructMachine, state_bind_of_some (a := false) (by rw [hb]), hb]
    exact iff_of_true rfl (by decide)
  | true =>
    have hb : netSendBeacon reason m =
        sendFrame frame m := by
      rw [netSendBeacon, get_bind_apply, if_neg (by rw [hactive]; decide), hframe]
    refine iff_of_false ?_ (by decide)
    have hv : (netSendBeacon reason m).value =
        some (e1000SendPacket m.nic frame).1 := by
      rw [hb]
      rfl
    rw [destructMachine, state_bind_of_some hv, hb]
    intro hn
    have hnic : (e1000SendPacket m.nic frame).2 = m.nic := congrArg (fun x => x.2.2) hn
    rw [e1000SendPacket_eq_iff (by omega) (by omega), hactive] at hnic
    cases hnic

/-! ## What no call changes -/

section

variable (hf : Fixed g)
include hf

theorem keeps_sendFrame (frame : List UInt8) : Keeps g (sendFrame frame) :=
  fun m => hf.card m frame

theorem keeps_tcpSocketCreate : Keeps g tcpSocketCreate := by
  apply keeps_get_bind
  intro m
  split
  · exact keeps_pure
  · apply keeps_bind
    · exact keeps_bind (keeps_csprngGetBytes hf.apart) fun _ => keeps_pure
    · intro seqNum
      exact keeps_bind (keeps_modify fun m => hf.others m _ _ _ _ _ _ _ _) fun _ => keeps_pure

theorem keeps_tcpSocketConnect {socketId : UInt64} {dstIp : UInt32} {dstPort : UInt16} :
    Keeps g (tcpSocketConnect socketId dstIp dstPort) := by
  apply keeps_get_bind
  intro m
  split
  · exact keeps_pure
  · refine keeps_bind (keeps_modify fun m => hf.others m _ _ _ _ _ _ _ _) fun _ => ?_
    apply keeps_bind (keeps_netBuildTcp hf.apart)
    intro frame
    cases frame with
    | none => exact keeps_pure
    | some frame =>
      refine keeps_bind (keeps_modify fun m => hf.others m _ _ _ _ _ _ _ _) fun _ => ?_
      apply keeps_bind (keeps_sendFrame hf frame)
      intro ok
      exact keeps_bind (keeps_modify fun m => hf.others m _ _ _ _ _ _ _ _) fun _ => keeps_pure

theorem keeps_tcpSocketSend {socketId buf len : UInt64} :
    Keeps g (tcpSocketSend socketId buf len) := by
  apply keeps_get_bind
  intro m
  split
  · exact keeps_pure
  · apply keeps_ite keeps_pure
    apply keeps_bind (keeps_netBuildTcp hf.apart)
    intro frame
    cases frame with
    | none => exact keeps_pure
    | some frame =>
      refine keeps_bind (keeps_modify fun m => hf.others m _ _ _ _ _ _ _ _) fun _ => ?_
      exact keeps_bind (keeps_sendFrame hf frame) fun _ => keeps_pure

theorem keeps_tcpSocketRecv {socketId buf maxLen : UInt64} :
    Keeps g (tcpSocketRecv socketId buf maxLen) :=
  keeps_tcpSocketRecv_of_tail hf.apart fun m _ _ => hf.others m _ _ _ _ _ _ _ _

theorem keeps_sendIfActive (frame : List UInt8) :
    Keeps g (sendIfActive frame) :=
  keeps_get_bind fun _ => keeps_ite (keeps_sendFrame hf frame) keeps_pure

theorem keeps_torSendCell {payload : UInt64} {len : UInt16} {capToken : UInt32} :
    Keeps g (torSendCell payload len capToken) := by
  apply keeps_get_bind
  intro m
  apply keeps_ite keeps_pure
  apply keeps_ite keeps_pure
  apply keeps_bind (keeps_torPayload hf.apart)
  intro bs
  dsimp only
  split
  · exact keeps_pure
  · apply keeps_bind (keeps_sendIfActive hf _)
    intro ok
    exact keeps_bind (keeps_modify fun m => hf.others m _ _ _ _ _ _ _ _) fun _ => keeps_pure

theorem keeps_destructMachine {α : Type} {reason : List UInt8} :
    Keeps g (destructMachine reason : Access Machine α) := by
  apply keeps_bind
  · apply keeps_get_bind
    intro m
    apply keeps_ite keeps_pure
    split
    · exact keeps_pure
    · exact keeps_sendFrame hf _
  · intro ok
    exact keeps_bind (keeps_modify fun m => hf.others m _ _ _ _ _ _ _ _) fun _ => keeps_fault

omit hf in
theorem keeps_withEndpoint {arg0 : UInt64} {right : UInt32} {body : Access Machine ℤ}
    (h : Keeps g body) : Keeps g (withEndpoint table arg0 right body) := by
  apply keeps_get_bind
  intro m
  split
  · exact keeps_pure
  · exact h

theorem Sys.keeps_run (call : Sys) : Keeps g (call.run K cpu table args) := by
  have hg := hf.apart
  cases call with
  | yield => exact keeps_bind (keeps_modify fun m => hf.others m _ _ _ _ _ _ _ _) fun _ =>
    keeps_pure
  | write =>
    exact keeps_withEndpoint
      (keeps_ite keeps_pure (keeps_bind (keeps_writeLoop hg) fun _ => keeps_pure))
  | capSend => exact keeps_sysCapMsg hg
  | capRecv => exact keeps_sysCapMsg hg
  | exit => exact keeps_bind (keeps_modify fun m => hf.others m _ _ _ _ _ _ _ _) fun _ => keeps_pure
  | readKey =>
    exact keeps_withEndpoint (keeps_bind (keeps_keyboardGetChar hg) fun _ => keeps_pure)
  | torCell =>
    exact keeps_withEndpoint
      (keeps_ite keeps_pure (keeps_bind (keeps_torSendCell hf) fun _ => keeps_pure))
  | sysinfo => exact keeps_sysSysinfo hg
  | socket => exact keeps_withEndpoint (keeps_tcpSocketCreate hf)
  | connect => exact keeps_withEndpoint (keeps_tcpSocketConnect hf)
  | send => exact keeps_withEndpoint (keeps_ite keeps_pure (keeps_tcpSocketSend hf))
  | recv => exact keeps_withEndpoint (keeps_ite keeps_pure (keeps_tcpSocketRecv hf))
  | pqcKem => exact keeps_ite keeps_pure (keeps_kyber1024Encapsulate hg)
  | emergencyWipe => exact keeps_withEndpoint (keeps_destructMachine hf)

end

/-! ## What a call does to the network -/

/-- A call that was let through, and whose pointers passed, leaves the network alone exactly when it
finds nothing to do for it. -/
theorem Sys.network_of_passes (call : Sys) (hmac : m.anonymizedMac.length = 6)
    (hr : call.refused m.kernel.caps table args.arg0 = false) (hp : call.Passes args) :
    (call.run K cpu table args m).state.network = m.network ↔ ¬ call.ActsOnNetwork m args := by
  have hnet := apart_network
  cases call with
  | yield => exact iff_of_true rfl not_false
  | write =>
    refine iff_of_true (keeps_withEndpoint (keeps_ite keeps_pure ?_) m) not_false
    exact keeps_bind (keeps_writeLoop hnet) fun _ => keeps_pure
  | capSend => exact iff_of_true (keeps_sysCapMsg hnet m) not_false
  | capRecv => exact iff_of_true (keeps_sysCapMsg hnet m) not_false
  | exit => exact iff_of_true rfl not_false
  | readKey =>
    refine iff_of_true (keeps_withEndpoint ?_ m) not_false
    exact keeps_bind (keeps_keyboardGetChar hnet) fun _ => keeps_pure
  | torCell =>
    obtain ⟨slot, hl⟩ := Sys.lookup_of_not_refused rfl hr
    have hlen : ¬ args.arg2 > 512 := UInt64.not_lt.mpr hp.2
    change (sysTorCell table args m).state.network = _ ↔ _
    rw [sysTorCell, withEndpoint_of_ok hl, if_neg (by simp [hp.1, hlen]), state_bind_pure]
    exact network_torSendCell hmac
  | sysinfo => exact iff_of_true (keeps_sysSysinfo hnet m) not_false
  | socket =>
    obtain ⟨slot, hl⟩ := Sys.lookup_of_not_refused rfl hr
    change (sysSocket table args m).state.network = _ ↔ _
    rw [sysSocket, withEndpoint_of_ok hl]
    exact network_tcpSocketCreate
  | connect =>
    obtain ⟨slot, hl⟩ := Sys.lookup_of_not_refused rfl hr
    change (sysConnect table args m).state.network = _ ↔ _
    rw [sysConnect, withEndpoint_of_ok hl]
    exact network_tcpSocketConnect
  | send =>
    obtain ⟨slot, hl⟩ := Sys.lookup_of_not_refused rfl hr
    change (sysSend table args m).state.network = _ ↔ _
    rw [sysSend, withEndpoint_of_ok hl, if_neg (by simpa [Sys.Passes] using hp)]
    exact network_tcpSocketSend hmac
  | recv =>
    obtain ⟨slot, hl⟩ := Sys.lookup_of_not_refused rfl hr
    change (sysRecv table args m).state.network = _ ↔ _
    rw [sysRecv, withEndpoint_of_ok hl, if_neg (by simpa [Sys.Passes] using hp)]
    exact network_tcpSocketRecv
  | pqcKem =>
    refine iff_of_true ?_ not_false
    exact keeps_ite keeps_pure (keeps_kyber1024Encapsulate hnet) m
  | emergencyWipe =>
    obtain ⟨slot, hl⟩ := Sys.lookup_of_not_refused rfl hr
    change (sysEmergencyWipe table args m).state.network = _ ↔ _
    rw [sysEmergencyWipe, withEndpoint_of_ok hl]
    exact network_destructMachine _ hmac

/-- A call that reaches the network: it is let through, its pointers pass, and it finds something to
do. -/
def Sys.Reaches (m : Machine) (table : UInt64) (args : SysArgs) (call : Sys) : Prop :=
  call.refused m.kernel.caps table args.arg0 = false ∧ call.Passes args ∧
    call.ActsOnNetwork m args

theorem Sys.network_run_iff (call : Sys) (hmac : m.anonymizedMac.length = 6) :
    (call.run K cpu table args m).state.network = m.network ↔ ¬ call.Reaches m table args := by
  cases hr : call.refused m.kernel.caps table args.arg0 with
  | true =>
    rw [Sys.run_of_refused hr]
    refine iff_of_true rfl ?_
    rintro ⟨hlet, -⟩
    rw [hr] at hlet
    cases hlet
  | false =>
    by_cases hp : call.Passes args
    · rw [Sys.network_of_passes call hmac hr hp]
      exact not_congr ⟨fun h => ⟨hr, hp, h⟩, fun h => h.2.2⟩
    · rw [Sys.run_of_not_passes hr hp]
      exact iff_of_true rfl fun h => hp h.2.1

/-! ## Calls without a capability -/

/-- The outcome is an error, and nothing changed. -/
def Harmless (m : Machine) (o : Outcome Machine ℤ) : Prop :=
  (∃ v, v < 0 ∧ o.value = some v) ∧ o.state = m

/-- The two calls that ask for no capability, with pointers that pass. -/
def Sys.Unguarded (args : SysArgs) : Sys → Prop
  | .sysinfo => Sys.Passes args .sysinfo
  | .pqcKem => Sys.Passes args .pqcKem ∧ args.arg0 ≠ 0 ∧ args.arg1 ≠ 0 ∧ args.arg2 ≠ 0
  | _ => False

theorem harmless_pure {v : ℤ} (h : v < 0) : Harmless m ⟨[], some v, m⟩ := ⟨⟨v, h, rfl⟩, rfl⟩

theorem CapErr.code_pos {err : CapErr} (h : err ≠ .ok) : 0 < err.code := by
  cases err with
  | ok => exact absurd rfl h
  | _ => decide

theorem harmless_sysCapMsg {d : IpcDir} (h : NoCapability m.kernel.caps table)
    (hp : badRange args.arg1 (UInt64.ofNat ipcMsgSize) = false) :
    Harmless m (sysCapMsg K cpu d table args m) := by
  obtain ⟨err, hne, hl⟩ := h.lookup args.arg0.toUInt32 (IpcDir.right d)
  have ht : capTransfer K cpu d m.kernel table args.arg0.toUInt32 args.arg1 =
      (some err, m.kernel) := by
    rw [capTransfer, hl]
  rw [sysCapMsg, if_neg (by simpa using hp), get_bind_apply, ht]
  refine ⟨⟨-(err.code : ℤ), ?_, ?_⟩, rfl⟩
  · have hcode := CapErr.code_pos hne
    omega
  · change ((pure (if err = .ok then sysretOk else -(err.code : ℤ)) : Access Machine ℤ) m).value = _
    rw [if_neg hne]
    rfl

variable {call : Sys}

theorem Sys.refused_of_noCapability {right : UInt32} (h : NoCapability m.kernel.caps table)
    (hr : call.right = some right) : call.refused m.kernel.caps table args.arg0 = true := by
  obtain ⟨err, -, hl⟩ := h.lookup args.arg0.toUInt32 right
  unfold Sys.refused
  rw [hr]
  dsimp only
  rw [hl]

theorem not_harmless {x : Access Machine ℤ}
    (h : Meets (fun _ => True) (fun _ => True) (fun v => v = 0) x) : ¬ Harmless m (x m) := by
  rintro ⟨⟨v, hneg, hv⟩, -⟩
  have hzero := (h m trivial).2.2 v hv
  omega

theorem capsOnly_true : CapsOnly fun _ => True := fun _ _ _ h => h

theorem meets_sysSysinfo_zero (hp : Sys.Passes args .sysinfo) :
    Meets (fun _ => True) (fun _ => True) (fun v => v = 0) (sysSysinfo args) := by
  apply meets_sysSysinfo capsOnly_true
  · rfl
  · intro hge
    exact absurd hp (not_lt.mpr hge)
  · exact fun _ => covers_true

theorem meets_kyber1024Encapsulate_zero {ct ss pk : UInt64} (hct : ct ≠ 0) (hss : ss ≠ 0)
    (hpk : pk ≠ 0) :
    Meets (fun _ => True) (fun _ => True) (fun v => v = 0) (kyber1024Encapsulate ct ss pk) := by
  have hI := capsOnly_true
  apply meets_ite
  · rintro (h | h | h)
    · exact absurd h hct
    · exact absurd h hss
    · exact absurd h hpk
  · rintro -
    apply meets_bind (meets_csprngGetBytes hI)
    rintro coin -
    apply meets_bind (meets_copyOut hI covers_true)
    rintro - -
    apply meets_bind (meets_csprngGetBytes hI)
    rintro noise -
    apply meets_bind (meets_copyOut hI covers_true)
    rintro - -
    apply meets_bind (meets_writeByte hI trivial)
    rintro - -
    apply meets_bind (meets_copyOut hI covers_true)
    rintro - -
    exact meets_pure rfl

/-- Without a capability, a call other than the two that give up the processor is harmless unless it
is one of the two that ask for none. -/
theorem Sys.harmless_run_iff (call : Sys) (h : NoCapability m.kernel.caps table)
    (hyield : call ≠ .yield) (hexit : call ≠ .exit) :
    Harmless m (call.run K cpu table args m) ↔ ¬ call.Unguarded args := by
  cases hright : call.right with
  | some right =>
    rw [Sys.run_of_refused (Sys.refused_of_noCapability h hright)]
    refine iff_of_true (harmless_pure (by decide)) ?_
    cases call with
    | sysinfo => cases hright
    | pqcKem => cases hright
    | _ => exact not_false
  | none =>
    have hr : call.refused m.kernel.caps table args.arg0 = false := by
      rw [Sys.refused, hright]
    by_cases hp : call.Passes args
    · cases call with
      | yield => exact absurd rfl hyield
      | exit => exact absurd rfl hexit
      | capSend => exact iff_of_true (harmless_sysCapMsg h hp) not_false
      | capRecv => exact iff_of_true (harmless_sysCapMsg h hp) not_false
      | sysinfo => exact iff_of_false (not_harmless (meets_sysSysinfo_zero hp)) (not_not_intro hp)
      | pqcKem =>
        have hbad : ¬(args.arg0 ≥ 0x800000000000 ∨ args.arg1 ≥ 0x800000000000 ∨
            args.arg2 ≥ 0x800000000000) := by
          simp only [toNat_ge_userTop]
          unfold Sys.Passes at hp
          omega
        change Harmless m (sysPqcKem args m) ↔ _
        rw [sysPqcKem, if_neg hbad]
        by_cases hnull : args.arg0 = 0 ∨ args.arg1 = 0 ∨ args.arg2 = 0
        · rw [kyber1024Encapsulate, if_pos hnull]
          refine iff_of_true (harmless_pure (by decide)) ?_
          rintro ⟨-, h₀, h₁, h₂⟩
          tauto
        · simp only [not_or] at hnull
          obtain ⟨h₀, h₁, h₂⟩ := hnull
          refine iff_of_false (not_harmless ?_) (not_not_intro ⟨hp, h₀, h₁, h₂⟩)
          exact meets_kyber1024Encapsulate_zero h₀ h₁ h₂
      | _ => cases hright
    · rw [Sys.run_of_not_passes hr hp]
      refine iff_of_true (harmless_pure (by decide)) ?_
      cases call with
      | sysinfo => exact hp
      | pqcKem => exact fun h => hp h.1
      | _ => exact not_false

/-! ## Runs -/

/-- A call by a task that was given one endpoint only leaves the network alone, and a call by a task
that was given nothing is harmless, unless it gives up the processor. -/
structure NoAmbientAuthority (K : KernelLayout) (console : EpPtr) (m : Machine) (cpu : TaskRegs)
    (num : UInt64) (args : SysArgs) (table : UInt64) : Prop where
  network : OnlyEndpoint m.kernel.caps table console →
    (syscallDispatch K cpu num args m).state.network = m.network
  harmless : NoCapability m.kernel.caps table → Sys.ofNumber num ≠ some .yield →
    Sys.ofNumber num ≠ some .exit → Harmless m (syscallDispatch K cpu num args m)

/-- The condition on a call by a task with a table: with one endpoint only, it does not reach the
network; with nothing, it is not one of the two calls that ask for no capability. -/
structure Restrained (console : EpPtr) (m : Machine) (num : UInt64) (args : SysArgs)
    (table : UInt64) : Prop where
  network : OnlyEndpoint m.kernel.caps table console →
    ∀ call, Sys.ofNumber num = some call → ¬ call.Reaches m table args
  harmless : NoCapability m.kernel.caps table →
    ∀ call, Sys.ofNumber num = some call → ¬ call.Unguarded args

/-- A property of the calls in a run: of each call that a task makes, with the table of the task. -/
def OnCalls (P : Machine → TaskRegs → UInt64 → SysArgs → UInt64 → Prop) (m : Machine)
    (op : MachineOp) : Prop :=
  ∀ cpu num args cur, op = .syscall cpu num args → m.kernel.halted = false →
    m.kernel.sched.current = some cur → P m cpu num args (m.kernel.sched.taskTable cur).capTable

theorem noAmbientAuthority_iff {console : EpPtr} {num : UInt64} {cur : TaskPtr}
    (hmac : m.anonymizedMac.length = 6) (hc : m.kernel.sched.current = some cur) :
    NoAmbientAuthority K console m cpu num args (m.kernel.sched.taskTable cur).capTable ↔
      Restrained console m num args (m.kernel.sched.taskTable cur).capTable := by
  cases hn : Sys.ofNumber num with
  | none =>
    have hd : syscallDispatch K cpu num args m = ⟨[], some sysretEbadcall, m⟩ :=
      syscallDispatch_of_badcall hc hn
    apply iff_of_true
    · constructor
      · rintro -
        rw [hd]
      · rintro - - -
        rw [hd]
        exact harmless_pure (by decide)
    · constructor
      · intro _ call hcall
        rw [hn] at hcall
        cases hcall
      · intro _ call hcall
        rw [hn] at hcall
        cases hcall
  | some call =>
    have hd := syscallDispatch_of_call K cpu args hc hn
    constructor
    · intro h
      constructor
      · intro hone call' hcall
        obtain rfl : call = call' := Option.some.inj (hn.symm.trans hcall)
        exact (Sys.network_run_iff call hmac).mp (hd ▸ h.network hone)
      · intro hnone call' hcall hunguarded
        obtain rfl : call = call' := Option.some.inj (hn.symm.trans hcall)
        have hyield : call ≠ .yield := by
          rintro rfl
          exact hunguarded
        have hexit : call ≠ .exit := by
          rintro rfl
          exact hunguarded
        have hh := h.harmless hnone (hn ▸ fun he => hyield (Option.some.inj he))
          (hn ▸ fun he => hexit (Option.some.inj he))
        rw [hd] at hh
        exact (Sys.harmless_run_iff call hnone hyield hexit).mp hh hunguarded
    · intro h
      constructor
      · intro hone
        rw [hd]
        exact (Sys.network_run_iff call hmac).mpr (h.network hone call hn)
      · intro hnone hyield hexit
        rw [hd]
        exact (Sys.harmless_run_iff call hnone (fun he => hyield (he ▸ hn))
          fun he => hexit (he ▸ hn)).mpr (h.harmless hnone call hn)

theorem Machine.fixed_step (hf : Fixed g) (op : MachineOp) : g (m.step K op) = g m := by
  unfold Machine.step
  split
  · rfl
  · cases op with
    | syscall cpu num args =>
      cases hc : m.kernel.sched.current with
      | none =>
        dsimp only
        rw [syscallDispatch_of_none hc]
      | some cur =>
        cases hn : Sys.ofNumber num with
        | none =>
          dsimp only
          rw [syscallDispatch_of_badcall hc hn]
        | some call =>
          dsimp only
          rw [syscallDispatch_of_call K cpu args hc hn]
          exact Sys.keeps_run hf call m
    | tick cpu => exact hf.apart m _ _ _ _ _
    | key c => exact hf.apart m _ _ _ _ _
    | revoke table i => exact hf.apart m _ _ _ _ _
    | store a bs =>
      dsimp only [Machine.userStore]
      split
      · exact hf.apart m _ _ _ _ _
      · exact hf.apart m _ _ _ _ _

/-- In every run the calls give no authority that was not handed out, exactly when each of them is
restrained. -/
theorem noAmbientAuthority_run_iff (K : KernelLayout) (console : EpPtr)
    (hmac : m.anonymizedMac.length = 6) (ops : List MachineOp) :
    AllSteps (Machine.step K) (OnCalls (NoAmbientAuthority K console)) m ops ↔
      AllSteps (Machine.step K) (OnCalls fun m _ => Restrained console m) m ops := by
  apply allSteps_congr (I := fun m => m.anonymizedMac.length = 6)
  · intro m op hmac
    constructor
    · intro h cpu num args cur hop hhalt hc
      exact (noAmbientAuthority_iff hmac hc).mp (h cpu num args cur hop hhalt hc)
    · intro h cpu num args cur hop hhalt hc
      exact (noAmbientAuthority_iff hmac hc).mpr (h cpu num args cur hop hhalt hc)
  · intro m op hmac _
    rw [Machine.fixed_step fixed_anonymizedMac]
    exact hmac
  · exact hmac

end

/-- The second slot of the running task's table refers to nothing, and `SYS_SOCKET` through the
first one makes a socket. -/
theorem noAmbientAuthority_run_iff_sample :
    AllSteps (Machine.step sampleLayout) (OnCalls (NoAmbientAuthority sampleLayout 0))
      sampleMachine [.syscall zeroRegs 8 ⟨1, 0, 0, 0⟩] := by
  apply (noAmbientAuthority_run_iff sampleLayout 0 rfl _).mpr
  refine ⟨?_, trivial⟩
  rintro _ _ _ cur hop - hc
  cases hop
  obtain rfl : 1 = cur := Option.some.inj hc
  constructor
  · rintro - call hcall ⟨hr, -⟩
    obtain rfl : Sys.socket = call := Option.some.inj hcall
    revert hr
    decide
  · rintro - call hcall
    obtain rfl : Sys.socket = call := Option.some.inj hcall
    exact not_false

theorem sampleMachine_onlyEndpoint : OnlyEndpoint sampleMachine.kernel.caps 1 0 := by
  unfold OnlyEndpoint LiveSlot
  decide

/-- The task that has the one endpoint makes a socket through it. -/
theorem ambient_authority :
    ¬ AllSteps (Machine.step sampleLayout) (OnCalls (NoAmbientAuthority sampleLayout 0))
      sampleMachine [.syscall zeroRegs 8 ⟨0, 0, 0, 0⟩] := by
  rintro ⟨h, -⟩
  have hn := (h _ _ _ 1 rfl rfl rfl).network sampleMachine_onlyEndpoint
  have hactive := congrArg (fun x => (x.1 0).active) hn
  revert hactive
  decide

end StyxOS
