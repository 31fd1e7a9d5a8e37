import StyxOS.Net.Tcp

/-! # Sending after the circuit was torn down

`tor_check_dead_reckoning` and the steps that come after it: system calls, timer
interrupts with the padding and the circuit rotation that they drive, and the
commands of the shell. What the card takes in them is compared with what it had
taken when the circuit was torn down.
-/

namespace StyxOS

open Access ByteMem StepSystem

/-! ### Padding -/

def noiseFlow (srcMac : List UInt8) (srcPort dstPort : UInt16) : Flow where
  srcMac := srcMac
  dstMac := [0xFF, 0xFF, 0xFF, 0xFF, 0xFF, 0xFF]
  srcIp := 0xC0A80164
  dstIp := 0xFFFFFFFF
  srcPort := srcPort
  dstPort := dstPort

/-- The noise packet of `padding.c`: random bytes of a random length between random ports. -/
def sendNoise : Access Machine Bool := do
  let len ← csprngU32
  let payload ← csprngGetBytes (64 + len.toNat % 193)
  let srcPort ← csprngU32
  let dstPort ← csprngU32
  let m ← get
  match netBuildUdp (noiseFlow m.anonymizedMac (10000 + (srcPort % 5000).toUInt16)
      (20000 + (dstPort % 5000).toUInt16)) payload with
  | none => pure false
  | some frame => sendFrame frame

/-- The machine with the counters of the timer, of the padding and of the circuit rotation. -/
structure NetKernel where
  machine : Machine
  pitTicks : UInt64
  lastPaddingTicks : UInt64
  paddingBoost : Bool
  paddingPacketsSent : UInt32
  lastRotationTicks : UInt32

namespace NetKernel

variable (s : NetKernel)

def paddingInterval : UInt64 := if s.paddingBoost then 5 else 20

/-- What `padding_tick` does when a noise packet is due. -/
def injectNoise (ticks : UInt64) : NetKernel :=
  let out := sendNoise s.machine
  { s with
    machine := out.state
    lastPaddingTicks := ticks
    paddingPacketsSent := s.paddingPacketsSent + if out.value = some true then 1 else 0 }

def paddingTick (ticks : UInt64) : NetKernel :=
  if !s.machine.nic.active then s
  else if s.paddingInterval ≤ ticks - s.lastPaddingTicks then s.injectNoise ticks
  else s

/-! ### The circuit -/

/-- `tor_rotate_circuit`, which boosts the padding while it draws the new keys. -/
def torRotateCircuit : NetKernel :=
  let draw : Access Machine Unit := do
    let circuitId ← csprngU32
    let entryKey ← csprngGetBytes 32
    let middleKey ← csprngGetBytes 32
    let exitKey ← csprngGetBytes 32
    modify fun m =>
      { m with
        torCircuit :=
          { m.torCircuit with
            circuitId := circuitId ||| 0x1000
            entryKey := entryKey
            middleKey := middleKey
            exitKey := exitKey } }
  { s with machine := (draw s.machine).state, paddingBoost := false }

def torTick (ticks : UInt64) : NetKernel :=
  if !s.machine.torCircuit.established then s
  else if s.lastRotationTicks = 0 then { s with lastRotationTicks := ticks.toUInt32 }
  else if 6000 ≤ ticks - s.lastRotationTicks.toUInt64 then
    { s with lastRotationTicks := ticks.toUInt32 }.torRotateCircuit
  else s

def torCheckDeadReckoning (simulateDrop : Bool) : Bool × NetKernel :=
  if simulateDrop then
    (false,
      { s with
        machine :=
          { s.machine with torCircuit := { s.machine.torCircuit with established := false } } })
  else (s.machine.torCircuit.established, s)

/-! ### Steps -/

def pitCallback (K : KernelLayout) (cpu : TaskRegs) : NetKernel :=
  let ticks := s.pitTicks + 1
  let s := ({ s with pitTicks := ticks }.paddingTick ticks).torTick ticks
  { s with machine := s.machine.withSched (schedTick K cpu s.machine.kernel.sched) }

/-- `destruct_trigger`. -/
def destruct (reason : String) : NetKernel :=
  { s with
    machine := ((destructMachine (asciiBytes reason) : Access Machine Unit) s.machine).state }

/-- The random bytes that `snapshot_save` takes for the leaves of its blocks. -/
def drawLeaves (drawn : ℕ) : NetKernel :=
  { s with machine := ((csprngGetBytes drawn : Access Machine (List UInt8)) s.machine).state }

/-- `shell_execute_cmd`: the commands that do more than print. `mismatch` tells whether a sector
that `snapshot_save` reads fails its integrity check. -/
def shellExecuteCmd (cmdLine : String) (mismatch : Bool) (drawn : ℕ) : NetKernel :=
  if cmdLine = "tor" then s.torRotateCircuit
  else if cmdLine = "snapshot" then
    if mismatch then (s.drawLeaves drawn).destruct "Sector integrity verification mismatch"
    else s.drawLeaves drawn
  else if cmdLine = "wipe" then s.destruct "Manual user wipe command from shell"
  else s

end NetKernel

/-- What happens after the circuit was torn down: system calls, timer interrupts, commands of the
shell, typed characters, and writes by user code to its memory. -/
inductive NetOp
  | syscall (cpu : TaskRegs) (num : UInt64) (args : SysArgs)
  | tick (cpu : TaskRegs)
  | shell (cmdLine : String) (mismatch : Bool) (drawn : ℕ)
  | key (c : UInt8)
  | store (a : ℕ) (bs : List UInt8)

def netStep (K : KernelLayout) (s : NetKernel) (op : NetOp) : NetKernel :=
  if s.machine.kernel.halted then s else
  match op with
  | .syscall cpu num args => { s with machine := s.machine.step K (.syscall cpu num args) }
  | .tick cpu => s.pitCallback K cpu
  | .shell cmdLine mismatch drawn => s.shellExecuteCmd cmdLine mismatch drawn
  | .key c => { s with machine := s.machine.step K (.key c) }
  | .store a bs => { s with machine := s.machine.step K (.store a bs) }

/-- The step puts no frame into the card's transmit ring. -/
def Silent (K : KernelLayout) (s : NetKernel) (op : NetOp) : Prop :=
  (netStep K s op).machine.nic.sent = s.machine.nic.sent

/-! ### When a step sends -/

/-- A call that was let through has a frame for the card once the circuit is down. -/
def Sys.Transmits (m : Machine) (args : SysArgs) : Sys → Prop
  | .connect => (activeSocket m args.arg1).isSome
  | .send => ∃ i, activeSocket m args.arg1 = some i ∧ (m.sockets i).state = .established ∧
      (0 < args.arg3 → args.arg2 ≠ 0) ∧ args.arg3.toNat ≤ netTcpPayloadMax ∧
      m.Reads args.arg2 args.arg3.toNat
  | .emergencyWipe => True
  | _ => False

/-- The step has a frame for the card: a call that is let through and transmits, a timer interrupt
at which noise is due, or a command that ends in the wipe. -/
def NetOp.Transmits (s : NetKernel) : NetOp → Prop
  | .syscall _ num args => ∃ cur call, s.machine.kernel.sched.current = some cur ∧
      Sys.ofNumber num = some call ∧
      call.refused s.machine.kernel.caps (s.machine.kernel.sched.taskTable cur).capTable
        args.arg0 = false ∧
      call.Passes args ∧ call.Transmits s.machine args
  | .tick _ => s.paddingInterval ≤ s.pitTicks + 1 - s.lastPaddingTicks
  | .shell cmdLine mismatch _ => cmdLine = "wipe" ∨ (cmdLine = "snapshot" ∧ mismatch = true)
  | .key _ | .store _ _ => False

/-- The machine runs, the card takes a frame, and the step has one for it. -/
def Transmits (s : NetKernel) (op : NetOp) : Prop :=
  s.machine.kernel.halted = false ∧ s.machine.NicAccepts ∧ op.Transmits s

/-! ### What the card takes -/

section

variable {m : Machine} {K : KernelLayout} {cpu : TaskRegs} {table : UInt64} {args : SysArgs}

theorem sent_sendFrame {frame : List UInt8} (h₀ : frame.length ≠ 0)
    (h₁ : frame.length ≤ e1000BufferSize) :
    (sendFrame frame m).state.nic.sent = m.nic.sent ↔ ¬ m.NicAccepts := by
  rw [sent_sendFrame_eq h₀ h₁]
  split
  · next h => simp [h]
  · next h => simp [h]

theorem sent_eq_of_network {m' : Machine} (h : m'.network = m.network) :
    m'.nic.sent = m.nic.sent := by
  have hnic : m'.nic = m.nic := congrArg (fun x => x.2.2) h
  rw [hnic]

theorem csprngGetBytes_apply (n : ℕ) (m : Machine) : ∃ bs entropy, bs.length = n ∧
    csprngGetBytes n m = ⟨[], some bs, { m with entropy := entropy }⟩ :=
  ⟨_, _, by simp, rfl⟩

theorem csprngU32_apply (m : Machine) : ∃ v entropy,
    csprngU32 m = ⟨[], some v, { m with entropy := entropy }⟩ := ⟨_, _, rfl⟩

def IsNoise (m : Machine) (frame : List UInt8) : Prop :=
  ∃ srcPort dstPort payload, netBuildUdp (noiseFlow m.anonymizedMac srcPort dstPort) payload =
    some frame ∧ 64 ≤ payload.length ∧ payload.length ≤ 256

theorem IsNoise.length {frame : List UInt8} (h : IsNoise m frame)
    (hmac : m.anonymizedMac.length = 6) : 106 ≤ frame.length ∧ frame.length ≤ 298 := by
  obtain ⟨srcPort, dstPort, payload, hframe, hlow, hhigh⟩ := h
  have hmax : netUdpPayloadMax = 1472 := rfl
  have h₀ : 0 < payload.length := by omega
  obtain ⟨frame', hframe', hsize⟩ := length_udpFrame
    (f := noiseFlow m.anonymizedMac srcPort dstPort) hmac rfl h₀ (by omega)
  obtain rfl : frame = frame' := Option.some.inj (hframe.symm.trans hframe')
  omega

theorem sendNoise_apply (hmac : m.anonymizedMac.length = 6) : ∃ frame entropy, IsNoise m frame ∧
    sendNoise m = sendFrame frame { m with entropy := entropy } := by
  obtain ⟨len, e₁, h₁⟩ := csprngU32_apply m
  obtain ⟨payload, e₂, hlen, h₂⟩ := csprngGetBytes_apply (64 + len.toNat % 193)
    { m with entropy := e₁ }
  obtain ⟨srcPort, e₃, h₃⟩ := csprngU32_apply { m with entropy := e₂ }
  obtain ⟨dstPort, e₄, h₄⟩ := csprngU32_apply { m with entropy := e₃ }
  have hmod : len.toNat % 193 < 193 := Nat.mod_lt _ (by decide)
  have hmax : netUdpPayloadMax = 1472 := rfl
  have h₀ : 0 < payload.length := by omega
  obtain ⟨frame, hframe, -⟩ := length_udpFrame
    (f := noiseFlow m.anonymizedMac (10000 + (srcPort % 5000).toUInt16)
      (20000 + (dstPort % 5000).toUInt16)) hmac rfl h₀ (by omega)
  refine ⟨frame, e₄, ⟨_, _, payload, hframe, by omega, by omega⟩, ?_⟩
  simp only [sendNoise, Bind.bind, h₁, h₂, h₃, h₄, Access.get, hframe, List.nil_append]

theorem sent_sendNoise (hmac : m.anonymizedMac.length = 6) :
    (sendNoise m).state.nic.sent = m.nic.sent ↔ ¬ m.NicAccepts := by
  obtain ⟨frame, entropy, hnoise, happly⟩ := sendNoise_apply hmac
  have hbuffer : e1000BufferSize = 2048 := rfl
  obtain ⟨hlow, hhigh⟩ := hnoise.length hmac
  rw [happly]
  exact sent_sendFrame (m := { m with entropy := entropy }) (by omega) (by omega)

theorem sent_destructMachine (α : Type) (reason : List UInt8) (hmac : m.anonymizedMac.length = 6) :
    ((destructMachine reason : Access Machine α) m).state.nic.sent = m.nic.sent ↔
      ¬ m.NicAccepts := by
  obtain ⟨h₀, h₁⟩ := length_beaconPayload reason
  obtain ⟨frame, hframe, hlen⟩ :=
    length_udpFrame (f := beaconFlow m.anonymizedMac) hmac rfl h₀ h₁
  have hmax : netUdpPayloadMax = 1472 := rfl
  have hbuffer : e1000BufferSize = 2048 := rfl
  have hnonempty : frame.length ≠ 0 := by omega
  have hsent := sent_sendFrame (m := m) hnonempty (by omega)
  cases hactive : m.nic.active with
  | false =>
    have hb : netSendBeacon reason m = ⟨[], some false, m⟩ := by
      rw [netSendBeacon, get_bind_apply, if_pos (by rw [hactive]; rfl)]
      rfl
    rw [destructMachine, state_bind_of_some (a := false) (by rw [hb]), hb]
    refine iff_of_true rfl ?_
    rintro ⟨hon, -⟩
    rw [hactive] at hon
    cases hon
  | true =>
    have hb : netSendBeacon reason m = sendFrame frame m := by
      rw [netSendBeacon, get_bind_apply, if_neg (by rw [hactive]; decide), hframe]
    have hv : (netSendBeacon reason m).value = some (e1000SendPacket m.nic frame).1 := by
      rw [hb]
      rfl
    rw [destructMachine, state_bind_of_some hv, hb]
    exact hsent

theorem sent_tcpSocketConnect {socketId : UInt64} {dstIp : UInt32} {dstPort : UInt16}
    (hmac : m.anonymizedMac.length = 6) :
    (tcpSocketConnect socketId dstIp dstPort m).state.nic.sent = m.nic.sent ↔
      ¬(m.NicAccepts ∧ (activeSocket m socketId).isSome) := by
  cases h : activeSocket m socketId with
  | none =>
    refine iff_of_true (sent_eq_of_network (network_tcpSocketConnect.mpr ?_)) ?_
    · simp [h]
    · simp
  | some i =>
    rw [connect_apply h]
    have hempty : ([] : List UInt8).length ≤ netTcpPayloadMax := Nat.zero_le _
    obtain ⟨h₀, h₁⟩ := length_frame hmac
      { m.sockets i with remoteIp := dstIp, remotePort := dstPort } (m.sockets i).seqNum
      (m.sockets i).ackNum tcpSyn (m.sockets i).windowSize hempty
    exact (sent_sendFrame (m := m) h₀ h₁).trans (not_congr (and_iff_left rfl).symm)

theorem sent_tcpSocketSend {socketId buf len : UInt64} (hmac : m.anonymizedMac.length = 6) :
    (tcpSocketSend socketId buf len m).state.nic.sent = m.nic.sent ↔
      ¬(m.NicAccepts ∧ ∃ i, activeSocket m socketId = some i ∧ (m.sockets i).state = .established ∧
        (0 < len → buf ≠ 0) ∧ len.toNat ≤ netTcpPayloadMax ∧ m.Reads buf len.toNat) := by
  by_cases hsend : ∃ i, activeSocket m socketId = some i ∧ (m.sockets i).state = .established ∧
      (0 < len → buf ≠ 0) ∧ len.toNat ≤ netTcpPayloadMax ∧ m.Reads buf len.toNat
  · obtain ⟨i, hi, hest, hbuf, hlen, hreads⟩ := id hsend
    obtain ⟨⟨bs, hbs, hv⟩, hs⟩ := copyIn_of_reads hreads
    have hmax : bs.length ≤ netTcpPayloadMax := hbs ▸ hlen
    rw [(tcpSocketSend_eq hbuf hv hs hbs).2, send_apply hi hest hmax hmac]
    obtain ⟨h₀, h₁⟩ := length_frame hmac (m.sockets i) (m.sockets i).seqNum (m.sockets i).ackNum
      (tcpAck ||| tcpPsh) (m.sockets i).windowSize hmax
    exact (sent_sendFrame (m := m) h₀ h₁).trans (not_congr (and_iff_left hsend).symm)
  · refine iff_of_true (sent_eq_of_network ((network_tcpSocketSend hmac).mpr ?_))
      fun h => hsend h.2
    rintro ⟨i, hi, hest, hbuf, hlen, hreads, -⟩
    exact hsend ⟨i, hi, hest, hbuf, hlen, hreads⟩

theorem nic_tcpSocketCreate : (tcpSocketCreate m).state.nic = m.nic := by
  cases hf : (List.finRange maxTcpSockets).find? fun i => !(m.sockets i).active with
  | none =>
    rw [tcpSocketCreate, get_bind_apply, hf]
    rfl
  | some i =>
    rw [tcpSocketCreate, get_bind_apply, hf]
    rfl

/-- A call that was let through, after the circuit is down. -/
theorem Sys.sent_of_passes (call : Sys) (hmac : m.anonymizedMac.length = 6)
    (hdown : m.torCircuit.established = false)
    (hr : call.refused m.kernel.caps table args.arg0 = false) (hp : call.Passes args) :
    (call.run K cpu table args m).state.nic.sent = m.nic.sent ↔
      ¬(m.NicAccepts ∧ call.Transmits m args) := by
  have hidle : (¬ call.ActsOnNetwork m args) →
      (call.run K cpu table args m).state.nic.sent = m.nic.sent := fun h =>
    sent_eq_of_network ((Sys.network_of_passes call hmac hr hp).mpr h)
  cases call with
  | socket =>
    obtain ⟨slot, hl⟩ := Sys.lookup_of_not_refused rfl hr
    refine iff_of_true ?_ fun h => h.2
    change (sysSocket table args m).state.nic.sent = _
    rw [sysSocket, withEndpoint_of_ok hl, nic_tcpSocketCreate]
  | connect =>
    obtain ⟨slot, hl⟩ := Sys.lookup_of_not_refused rfl hr
    change (sysConnect table args m).state.nic.sent = _ ↔ _
    rw [sysConnect, withEndpoint_of_ok hl]
    exact sent_tcpSocketConnect hmac
  | send =>
    obtain ⟨slot, hl⟩ := Sys.lookup_of_not_refused rfl hr
    change (sysSend table args m).state.nic.sent = _ ↔ _
    rw [sysSend, withEndpoint_of_ok hl, if_neg (by simpa [Sys.Passes] using hp)]
    exact sent_tcpSocketSend hmac
  | recv =>
    obtain ⟨slot, hl⟩ := Sys.lookup_of_not_refused rfl hr
    refine iff_of_true ?_ fun h => h.2
    change (sysRecv table args m).state.nic.sent = _
    rw [sysRecv, withEndpoint_of_ok hl, if_neg (by simpa [Sys.Passes] using hp)]
    have hkeep : tcb 0 (tcpSocketRecv args.arg1 args.arg2 args.arg3 m).state = tcb 0 m :=
      keeps_tcb_recv m
    exact congrArg (fun x => x.2.2.2.sent) hkeep
  | emergencyWipe =>
    obtain ⟨slot, hl⟩ := Sys.lookup_of_not_refused rfl hr
    change (sysEmergencyWipe table args m).state.nic.sent = _ ↔ _
    rw [sysEmergencyWipe, withEndpoint_of_ok hl, sent_destructMachine ℤ _ hmac]
    exact not_congr (and_iff_left trivial).symm
  | torCell =>
    refine iff_of_true (hidle ?_) fun h => h.2
    rintro ⟨hup, -⟩
    rw [hdown] at hup
    cases hup
  | yield | write | capSend | capRecv | exit | readKey | sysinfo | pqcKem =>
    exact iff_of_true (hidle not_false) fun h => h.2

/-! ### Steps and runs -/

theorem keeps_sendNoise {τ : Type} {g : Machine → τ} (hf : Fixed g) : Keeps g sendNoise := by
  have hu32 : Keeps g csprngU32 := keeps_bind (keeps_csprngGetBytes hf.apart) fun _ => keeps_pure
  apply keeps_bind hu32
  intro len
  apply keeps_bind (keeps_csprngGetBytes hf.apart)
  intro payload
  apply keeps_bind hu32
  intro srcPort
  apply keeps_bind hu32
  intro dstPort
  apply keeps_get_bind
  intro m
  split
  · exact keeps_pure
  · exact keeps_sendFrame hf _

/-- What no step changes: the address of the card, whether a circuit is established, and whether the
card is active. -/
def Machine.standing (m : Machine) : List UInt8 × Bool × Bool :=
  (m.anonymizedMac, m.torCircuit.established, m.nic.active)

theorem fixed_standing : Fixed Machine.standing := by
  refine ⟨fun _ _ _ _ _ _ _ _ _ => rfl, fun m frame => ?_⟩
  have hactive := fixed_nicActive.card m frame
  dsimp only at hactive
  rw [Machine.standing, hactive]
  rfl

variable (s : NetKernel)

theorem NetKernel.standing_destruct (reason : String) :
    (s.destruct reason).machine.standing = s.machine.standing :=
  keeps_destructMachine fixed_standing s.machine

theorem NetKernel.standing_torRotateCircuit :
    s.torRotateCircuit.machine.standing = s.machine.standing := by
  have hu32 : Keeps Machine.standing csprngU32 :=
    keeps_bind (keeps_csprngGetBytes fixed_standing.apart) fun _ => keeps_pure
  have hbytes : Keeps Machine.standing (csprngGetBytes 32) :=
    keeps_csprngGetBytes fixed_standing.apart
  simp only [NetKernel.torRotateCircuit]
  apply keeps_bind hu32
  intro circuitId
  apply keeps_bind hbytes
  intro entryKey
  apply keeps_bind hbytes
  intro middleKey
  exact keeps_bind hbytes fun exitKey => keeps_modify fun _ => rfl

@[simp] theorem NetKernel.machine_injectNoise (ticks : UInt64) :
    (s.injectNoise ticks).machine = (sendNoise s.machine).state := by
  rw [NetKernel.injectNoise]

theorem NetKernel.standing_paddingTick (ticks : UInt64) :
    (s.paddingTick ticks).machine.standing = s.machine.standing := by
  rw [NetKernel.paddingTick]
  split
  · rfl
  · split
    · rw [s.machine_injectNoise]
      exact keeps_sendNoise fixed_standing s.machine
    · rfl

theorem NetKernel.standing_torTick (ticks : UInt64) :
    (s.torTick ticks).machine.standing = s.machine.standing := by
  rw [NetKernel.torTick]
  split
  · rfl
  · split
    · rfl
    · split
      · exact NetKernel.standing_torRotateCircuit _
      · rfl

theorem standing_netStep (op : NetOp) :
    (netStep K s op).machine.standing = s.machine.standing := by
  unfold netStep
  split
  · rfl
  · cases op with
    | syscall cpu num args => exact Machine.fixed_step fixed_standing _
    | key c => exact Machine.fixed_step fixed_standing _
    | store a bs => exact Machine.fixed_step fixed_standing _
    | tick cpu =>
      change (NetKernel.torTick _ _).machine.standing = _
      rw [NetKernel.standing_torTick, NetKernel.standing_paddingTick]
    | shell cmdLine mismatch drawn =>
      change (s.shellExecuteCmd cmdLine mismatch drawn).machine.standing = _
      rw [NetKernel.shellExecuteCmd]
      split
      · exact s.standing_torRotateCircuit
      · split
        · split
          · exact (s.drawLeaves drawn).standing_destruct _
          · rfl
        · split
          · exact s.standing_destruct _
          · rfl

variable {s}

/-- A system call, once the circuit is down. -/
theorem sent_syscall (hmac : m.anonymizedMac.length = 6) (hdown : m.torCircuit.established = false)
    (hgo : m.kernel.halted = false) (num : UInt64) :
    (m.step K (.syscall cpu num args)).nic.sent = m.nic.sent ↔
      ¬(m.NicAccepts ∧ ∃ cur call, m.kernel.sched.current = some cur ∧
        Sys.ofNumber num = some call ∧
        call.refused m.kernel.caps (m.kernel.sched.taskTable cur).capTable args.arg0 = false ∧
        call.Passes args ∧ call.Transmits m args) := by
  have hstep : m.step K (.syscall cpu num args) = (syscallDispatch K cpu num args m).state := by
    rw [Machine.step, if_neg (by simp [hgo])]
  rw [hstep]
  cases hc : m.kernel.sched.current with
  | none =>
    rw [syscallDispatch_of_none hc]
    refine iff_of_true rfl ?_
    rintro ⟨-, cur, call, hcur, -⟩
    cases hcur
  | some cur =>
    cases hn : Sys.ofNumber num with
    | none =>
      rw [syscallDispatch_of_badcall hc hn]
      refine iff_of_true rfl ?_
      rintro ⟨-, cur, call, -, hcall, -⟩
      cases hcall
    | some call =>
      rw [syscallDispatch_of_call K cpu args hc hn]
      have hone : (∃ cur' call', some cur = some cur' ∧ some call = some call' ∧
          call'.refused m.kernel.caps (m.kernel.sched.taskTable cur').capTable args.arg0 = false ∧
          call'.Passes args ∧ call'.Transmits m args) ↔
          call.refused m.kernel.caps (m.kernel.sched.taskTable cur).capTable args.arg0 = false ∧
            call.Passes args ∧ call.Transmits m args := by
        simp
      rw [hone]
      cases hr : call.refused m.kernel.caps (m.kernel.sched.taskTable cur).capTable args.arg0 with
      | true =>
        rw [Sys.run_of_refused hr]
        exact iff_of_true rfl (by simp)
      | false =>
        by_cases hp : call.Passes args
        · rw [Sys.sent_of_passes call hmac hdown hr hp]
          simp [hp]
        · rw [Sys.run_of_not_passes hr hp]
          exact iff_of_true rfl (by simp [hp])

theorem sent_pitCallback (hmac : s.machine.anonymizedMac.length = 6)
    (hdown : s.machine.torCircuit.established = false) :
    (s.pitCallback K cpu).machine.nic.sent = s.machine.nic.sent ↔
      ¬(s.machine.NicAccepts ∧ s.paddingInterval ≤ s.pitTicks + 1 - s.lastPaddingTicks) := by
  have hidle : ∀ t : NetKernel, t.machine.torCircuit.established = false →
      ∀ ticks, t.torTick ticks = t := by
    intro t ht ticks
    rw [NetKernel.torTick, if_pos (by simp [ht])]
  have hstate : (s.pitCallback K cpu).machine.nic.sent =
      ({ s with pitTicks := s.pitTicks + 1 }.paddingTick (s.pitTicks + 1)).machine.nic.sent := by
    have hstanding := NetKernel.standing_paddingTick { s with pitTicks := s.pitTicks + 1 }
      (s.pitTicks + 1)
    have hoff := congrArg (fun x => x.2.1) hstanding
    rw [NetKernel.pitCallback]
    dsimp only
    rw [hidle _ (hoff.trans hdown)]
    rfl
  rw [hstate, NetKernel.paddingTick]
  cases hactive : s.machine.nic.active with
  | false =>
    rw [if_pos (by simp)]
    refine iff_of_true rfl ?_
    rintro ⟨⟨hon, -⟩, -⟩
    rw [hactive] at hon
    cases hon
  | true =>
    rw [if_neg (by simp)]
    change (ite (s.paddingInterval ≤ s.pitTicks + 1 - s.lastPaddingTicks) _ _ :
      NetKernel).machine.nic.sent = _ ↔ _
    split
    · next hdue =>
      rw [NetKernel.machine_injectNoise]
      dsimp only
      exact (sent_sendNoise hmac).trans (not_congr (and_iff_left hdue).symm)
    · next hdue => exact iff_of_true rfl fun h => hdue h.2

theorem sent_shellExecuteCmd (hmac : s.machine.anonymizedMac.length = 6) (cmdLine : String)
    (mismatch : Bool) (drawn : ℕ) :
    (s.shellExecuteCmd cmdLine mismatch drawn).machine.nic.sent = s.machine.nic.sent ↔
      ¬(s.machine.NicAccepts ∧ (cmdLine = "wipe" ∨ (cmdLine = "snapshot" ∧ mismatch = true))) := by
  rw [NetKernel.shellExecuteCmd]
  split
  · next htor =>
    subst htor
    exact iff_of_true rfl (by simp)
  · split
    · next hsnap =>
      subst hsnap
      cases mismatch with
      | false => exact iff_of_true rfl (by simp)
      | true =>
        have hdestruct := sent_destructMachine (m := (s.drawLeaves drawn).machine) Unit
          (asciiBytes "Sector integrity verification mismatch") hmac
        exact hdestruct.trans (not_congr (and_iff_left (Or.inr ⟨rfl, rfl⟩)).symm)
    · next hsnap =>
      split
      · next hwipe =>
        have hdestruct := sent_destructMachine Unit
          (asciiBytes "Manual user wipe command from shell") hmac
        exact hdestruct.trans (not_congr (and_iff_left (Or.inl hwipe)).symm)
      · next hwipe => exact iff_of_true rfl (by simp [hsnap, hwipe])

theorem silent_iff (hmac : s.machine.anonymizedMac.length = 6)
    (hdown : s.machine.torCircuit.established = false) (op : NetOp) :
    Silent K s op ↔ ¬ Transmits s op := by
  cases hgo : s.machine.kernel.halted with
  | true =>
    have hstep : netStep K s op = s := if_pos hgo
    rw [Silent, hstep]
    exact iff_of_true rfl fun h => by simp [h.1] at hgo
  | false =>
    have hiff : Transmits s op ↔ s.machine.NicAccepts ∧ op.Transmits s := and_iff_right hgo
    unfold Silent netStep
    rw [if_neg (by simp [hgo]), hiff]
    cases op with
    | syscall cpu num args => exact sent_syscall hmac hdown hgo num
    | tick cpu => exact sent_pitCallback hmac hdown
    | shell cmdLine mismatch drawn => exact sent_shellExecuteCmd hmac cmdLine mismatch drawn
    | key c =>
      refine iff_of_true ?_ fun h => h.2
      dsimp only
      rw [Machine.step, if_neg (by simp [hgo])]
    | store a bs =>
      refine iff_of_true ?_ fun h => h.2
      dsimp only
      rw [Machine.step, if_neg (by simp [hgo])]
      dsimp only [Machine.userStore]
      split
      · rfl
      · rfl

/-- After the circuit was torn down, a run puts no frame into the transmit ring exactly when at no
step of it a frame is due that the card takes. -/
theorem fail_closed_iff (K : KernelLayout) (s : NetKernel)
    (hmac : s.machine.anonymizedMac.length = 6) (ops : List NetOp) :
    AllSteps (netStep K) (Silent K) (s.torCheckDeadReckoning true).2 ops ↔
      AllSteps (netStep K) (fun t op => ¬ Transmits t op) (s.torCheckDeadReckoning true).2 ops := by
  apply allSteps_congr (netStep K) (I := fun t => t.machine.anonymizedMac.length = 6 ∧
    t.machine.torCircuit.established = false)
  · rintro t op ⟨hmac, hdown⟩
    exact silent_iff hmac hdown op
  · rintro t op ⟨hmac, hdown⟩ -
    have hstanding : (netStep K t op).machine.standing = t.machine.standing := standing_netStep t op
    simp only [Machine.standing, Prod.mk.injEq] at hstanding
    obtain ⟨hmac', hdown', -⟩ := hstanding
    exact ⟨hmac' ▸ hmac, hdown'.trans hdown⟩
  · exact ⟨hmac, rfl⟩

/-- With the card off, every run is silent. -/
theorem silent_of_inactive (K : KernelLayout) (s : NetKernel)
    (hmac : s.machine.anonymizedMac.length = 6) (hoff : s.machine.nic.active = false)
    (ops : List NetOp) : AllSteps (netStep K) (Silent K) (s.torCheckDeadReckoning true).2 ops := by
  apply (fail_closed_iff K s hmac ops).mpr
  apply (allSteps_iff_forall (netStep K)).mpr
  rintro pre op post - ⟨-, ⟨hon, -⟩, -⟩
  have hstays : (run (netStep K) (s.torCheckDeadReckoning true).2 pre).machine.nic.active =
      false := by
    apply run_invariant_of_forall (netStep K) (I := fun t => t.machine.nic.active = false)
    · intro t op ht
      have hstanding := congrArg (fun x => x.2.2) (standing_netStep (K := K) t op)
      exact hstanding.trans ht
    · exact hoff
  rw [hstays] at hon
  cases hon

/-- A machine with an established circuit and an active card, at a tick. -/
def netSample (ticks : UInt64) : NetKernel where
  machine := { tcpSample fun _ => true with torCircuit := ⟨0x1000, [], [], [], true⟩ }
  pitTicks := ticks
  lastPaddingTicks := 0
  paddingBoost := false
  paddingPacketsSent := 0
  lastRotationTicks := 0

theorem fail_closed_iff_sample :
    AllSteps (netStep sampleLayout) (Silent sampleLayout)
      ((netSample 0).torCheckDeadReckoning true).2 [.tick zeroRegs, .shell "net" false 0] := by
  apply (fail_closed_iff sampleLayout (netSample 0) rfl _).mpr
  refine ⟨?_, ?_, trivial⟩
  · rintro ⟨-, -, hdue⟩
    have hdue' : (20 : UInt64) ≤ 1 := hdue
    exact absurd hdue' (by decide)
  · rintro ⟨-, -, hcmd⟩
    simp [NetOp.Transmits] at hcmd

/-- The timer interrupt after the circuit was torn down sends a noise packet. -/
theorem not_fail_closed :
    ¬ AllSteps (netStep sampleLayout) (Silent sampleLayout)
      ((netSample 19).torCheckDeadReckoning true).2 [.tick zeroRegs] := by
  rintro ⟨hsilent, -⟩
  revert hsilent
  unfold Silent
  decide +kernel

end

end StyxOS
