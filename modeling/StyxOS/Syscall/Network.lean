import StyxOS.Crypto.ChaCha20
import StyxOS.Syscall.Machine

/-! # The network calls

The socket functions of `tcp.c` that system calls reach, and `tor_send_cell` of
`tor.c`. Payloads are read from, and received bytes written to, the caller's
memory.
-/

namespace StyxOS

open Access ByteMem

def gwMac : List UInt8 := [0x52, 0x55, 0x0A, 0x00, 0x02, 0x02]

/-- `e1000_send_packet` of the machine's card. -/
def sendFrame (frame : List UInt8) : Access Machine Bool := do
  let m ← get
  modify fun m => { m with nic := (e1000SendPacket m.nic frame).2 }
  pure (e1000SendPacket m.nic frame).1

/-! ## Sockets -/

/-- `net_build_tcp` for a payload in memory; `none` is its length of zero. -/
def netBuildTcp (f : Flow) (seqNum ackNum : UInt32) (flags : UInt8) (windowSize : UInt16)
    (payload payloadLen : UInt64) : Access Machine (Option (List UInt8)) :=
  if (0 < payloadLen ∧ payload = 0) ∨ netTcpPayloadMax < payloadLen.toNat then pure none
  else do
    let bs ← copyIn payload payloadLen.toNat
    pure (some (tcpFrame f seqNum ackNum flags windowSize bs))

def TcpSocket.flow (s : TcpSocket) (srcMac : List UInt8) : Flow where
  srcMac := srcMac
  dstMac := gwMac
  srcIp := s.localIp
  dstIp := s.remoteIp
  srcPort := s.localPort
  dstPort := s.remotePort

/-- The socket that an argument, cast to `int`, names. -/
def socketIndex (arg : UInt64) : Option (Fin maxTcpSockets) :=
  if h : arg.toUInt32.toNat < maxTcpSockets then some ⟨_, h⟩ else none

def activeSocket (m : Machine) (arg : UInt64) : Option (Fin maxTcpSockets) :=
  (socketIndex arg).filter fun i => (m.sockets i).active

def nextPort (p : UInt16) : UInt16 := if p + 1 > 65530 then 49152 else p + 1

def tcpSocketCreate : Access Machine ℤ := do
  let m ← get
  match (List.finRange maxTcpSockets).find? fun i => !(m.sockets i).active with
  | none => pure (-1)
  | some i => do
    let seqNum ← csprngU32
    modify fun m =>
      { m.setSocket i
          { m.sockets i with
            active := true
            state := .closed
            localIp := 0xC0A80164
            localPort := m.nextEphemeralPort
            seqNum := seqNum
            ackNum := 0
            windowSize := UInt16.ofNat tcpRxBufSize
            rxHead := 0
            rxTail := 0 } with
        nextEphemeralPort := nextPort m.nextEphemeralPort }
    pure (i : ℤ)

def tcpSocketConnect (socketId : UInt64) (dstIp : UInt32) (dstPort : UInt16) :
    Access Machine ℤ := do
  let m ← get
  match activeSocket m socketId with
  | none => pure (-1)
  | some i => do
    let s := { m.sockets i with remoteIp := dstIp, remotePort := dstPort }
    modify fun m => m.setSocket i s
    let frame ← netBuildTcp (s.flow m.anonymizedMac) s.seqNum s.ackNum tcpSyn s.windowSize 0 0
    match frame with
    | none => pure (-1)
    | some frame => do
      modify fun m => m.setSocket i { s with state := .synSent, seqNum := s.seqNum + 1 }
      let _ ← sendFrame frame
      modify fun m =>
        m.setSocket i { m.sockets i with state := .established, ackNum := 1000 }
      pure 0

def tcpSocketSend (socketId buf len : UInt64) : Access Machine ℤ := do
  let m ← get
  match activeSocket m socketId with
  | none => pure (-1)
  | some i =>
    let s := m.sockets i
    if s.state ≠ .established then pure (-1)
    else do
      let frame ← netBuildTcp (s.flow m.anonymizedMac) s.seqNum s.ackNum (tcpAck ||| tcpPsh)
        s.windowSize buf len
      match frame with
      | none => pure (-1)
      | some frame => do
        modify fun m => m.setSocket i { s with seqNum := s.seqNum + len.toUInt32 }
        let ok ← sendFrame frame
        pure (if ok then (len.toNat : ℤ) else -1)

/-- The loop of `tcp_socket_recv`, for as many bytes as the ring holds. -/
def recvLoop (i : Fin maxTcpSockets) (buf : UInt64) (maxLen : ℕ) : ℕ → ℕ → Access Machine ℕ
  | 0, count => pure count
  | held + 1, count =>
    if maxLen ≤ count then pure count
    else do
      let m ← get
      let s := m.sockets i
      writeByte (buf + UInt64.ofNat count) (s.rxBuf s.rxTail)
      modify fun m => m.setSocket i { m.sockets i with rxTail := s.rxTail + 1 }
      recvLoop i buf maxLen held (count + 1)

/-- `tcp_socket_recv`. The ring holds the bytes from `rx_tail` up to `rx_head`. -/
def tcpSocketRecv (socketId buf maxLen : UInt64) : Access Machine ℤ := do
  let m ← get
  match activeSocket m socketId with
  | none => pure (-1)
  | some i => do
    let count ← recvLoop i buf maxLen.toNat ((m.sockets i).rxHead - (m.sockets i).rxTail).val 0
    pure (count : ℤ)

/-! ## Tor -/

def torCellSize : ℕ := 512

def torCapabilityToken : UInt32 := 0x544F5231

def torCell (circuit : TorCircuit) (payload : List UInt8) : List UInt8 :=
  (be32 circuit.circuitId ++ [0x03] ++ List.replicate 9 0 ++ payload ++
    List.replicate torCellSize 0).take torCellSize

/-- The three layers of encryption, over all of the cell but its header. -/
def torOnion (circuit : TorCircuit) (count : UInt32) (cell : List UInt8) : List UInt8 :=
  let nonce := be32 circuit.circuitId ++ be32 count ++ List.replicate 4 0
  let body := chacha20Encrypt circuit.exitKey nonce 1 (cell.drop 5)
  let body := chacha20Encrypt circuit.middleKey nonce 1 body
  let body := chacha20Encrypt circuit.entryKey nonce 1 body
  cell.take 5 ++ body

def torFlow (srcMac : List UInt8) : Flow where
  srcMac := srcMac
  dstMac := gwMac
  srcIp := 0xC0A80164
  dstIp := 0xC0A80101
  srcPort := 9001
  dstPort := 9001

/-- `copy_len` of `tor_send_cell`. -/
def torCopyLen (len : UInt16) : ℕ := if len > 498 then 498 else len.toNat

/-- The copy of the payload into the cell, skipped when there is none. -/
def torPayload (payload : UInt64) (copyLen : ℕ) : Access Machine (List UInt8) :=
  if payload ≠ 0 ∧ 0 < copyLen then copyIn payload copyLen else pure []

def sendIfActive (frame : List UInt8) : Access Machine Bool := do
  let m ← get
  if m.nic.active then sendFrame frame else pure false

def torSendCell (payload : UInt64) (len : UInt16) (capToken : UInt32) : Access Machine Bool := do
  let m ← get
  if capToken ≠ torCapabilityToken then pure false
  else if !m.torCircuit.established then pure false
  else do
    let bs ← torPayload payload (torCopyLen len)
    let cell := torOnion m.torCircuit (m.torCellsSent + 1) (torCell m.torCircuit bs)
    match netBuildUdp (torFlow m.anonymizedMac) cell with
    | none => pure false
    | some frame => do
      let _ ← sendIfActive frame
      modify fun m => { m with torCellsSent := m.torCellsSent + 1 }
      pure true

/-! ## The distress beacon -/

def beaconFlow (srcMac : List UInt8) : Flow where
  srcMac := srcMac
  dstMac := gwMac
  srcIp := 0xC0A80164
  dstIp := 0xC0A80101
  srcPort := 12345
  dstPort := 4444

def beaconPayload (reason : List UInt8) : List UInt8 :=
  asciiBytes "\x7b\"event\":\"TAMPER\",\"node\":\"STYXOS_NODE\",\"reason\":\"" ++ reason.take 128 ++
    asciiBytes "\",\"action\":\"SELF_DESTRUCT\"\x7d"

def netSendBeacon (reason : List UInt8) : Access Machine Bool := do
  let m ← get
  if !m.nic.active then pure false
  else
    match netBuildUdp (beaconFlow m.anonymizedMac) (beaconPayload reason) with
    | none => pure false
    | some frame => sendFrame frame

/-! ## What the calls touch -/

section
variable {I : Machine → Prop} {P : ℕ → Prop} (hI : CapsOnly I)
include hI

theorem meets_sendFrame {frame : List UInt8} :
    Meets I P (fun _ => True) (sendFrame frame) := by
  apply meets_get_bind
  rintro m -
  refine meets_bind (meets_modify_of_caps hI fun m => ?_) ?_
  · rfl
  · rintro - -
    exact meets_pure trivial

theorem meets_netBuildTcp {f : Flow} {seqNum ackNum : UInt32} {flags : UInt8}
    {windowSize : UInt16} {payload payloadLen : UInt64} (h : Covers P payload payloadLen.toNat) :
    Meets I P (fun _ => True)
      (netBuildTcp f seqNum ackNum flags windowSize payload payloadLen) := by
  apply meets_ite
  · rintro -
    exact meets_pure trivial
  · rintro -
    apply meets_bind (meets_copyIn hI h)
    rintro bs -
    exact meets_pure trivial

theorem meets_tcpSocketCreate : Meets I P (fun v => -1 ≤ v) tcpSocketCreate := by
  apply meets_get_bind
  rintro m -
  split
  · exact meets_pure (by omega)
  · apply meets_bind (meets_csprngU32 hI)
    rintro seqNum -
    refine meets_bind (meets_modify_of_caps hI fun m => ?_) ?_
    · rfl
    · rintro - -
      exact meets_pure (by omega)

theorem meets_tcpSocketConnect {socketId : UInt64} {dstIp : UInt32} {dstPort : UInt16} :
    Meets I P (fun v => -1 ≤ v) (tcpSocketConnect socketId dstIp dstPort) := by
  apply meets_get_bind
  rintro m -
  split
  · exact meets_pure (by omega)
  · refine meets_bind (meets_modify_of_caps hI fun m => ?_) ?_
    · rfl
    rintro - -
    have hnone : Covers P 0 (0 : UInt64).toNat := fun i hi => absurd hi (Nat.not_lt_zero i)
    apply meets_bind (meets_netBuildTcp hI hnone)
    rintro frame -
    cases frame with
    | none => exact meets_pure (by omega)
    | some frame =>
      refine meets_bind (meets_modify_of_caps hI fun m => ?_) ?_
      · rfl
      rintro - -
      apply meets_bind (meets_sendFrame hI)
      rintro ok -
      refine meets_bind (meets_modify_of_caps hI fun m => ?_) ?_
      · rfl
      rintro - -
      exact meets_pure (by omega)

theorem meets_tcpSocketSend {socketId buf len : UInt64} (h : Covers P buf len.toNat) :
    Meets I P (fun v => -1 ≤ v) (tcpSocketSend socketId buf len) := by
  apply meets_get_bind
  rintro m -
  split
  · exact meets_pure (by omega)
  · apply meets_ite
    · rintro -
      exact meets_pure (by omega)
    · rintro -
      apply meets_bind (meets_netBuildTcp hI h)
      rintro frame -
      cases frame with
      | none => exact meets_pure (by omega)
      | some frame =>
        refine meets_bind (meets_modify_of_caps hI fun m => ?_) ?_
        · rfl
        rintro - -
        apply meets_bind (meets_sendFrame hI)
        rintro ok -
        apply meets_pure
        split <;> omega

theorem meets_recvLoop {i : Fin maxTcpSockets} {buf : UInt64} {maxLen : ℕ}
    (h : Covers P buf maxLen) (held count : ℕ) :
    Meets I P (fun _ => True) (recvLoop i buf maxLen held count) := by
  induction held generalizing count with
  | zero => exact meets_pure trivial
  | succ held ih =>
    apply meets_ite
    · rintro -
      exact meets_pure trivial
    · intro hlt
      apply meets_get_bind
      rintro m -
      apply meets_bind (meets_writeByte hI (h count (by omega)))
      rintro - -
      refine meets_bind (meets_modify_of_caps hI fun m => ?_) ?_
      · rfl
      rintro - -
      exact ih (count + 1)

theorem meets_tcpSocketRecv {socketId buf maxLen : UInt64} (h : Covers P buf maxLen.toNat) :
    Meets I P (fun v => -1 ≤ v) (tcpSocketRecv socketId buf maxLen) := by
  apply meets_get_bind
  rintro m -
  split
  · exact meets_pure (by omega)
  · apply meets_bind (meets_recvLoop hI h _ 0)
    rintro count -
    exact meets_pure (by omega)

theorem meets_netSendBeacon {reason : List UInt8} :
    Meets I P (fun _ => True) (netSendBeacon reason) := by
  apply meets_get_bind
  rintro m -
  apply meets_ite
  · rintro -
    exact meets_pure trivial
  · rintro -
    split
    · exact meets_pure trivial
    · exact meets_sendFrame hI

theorem meets_sendIfActive {frame : List UInt8} :
    Meets I P (fun _ => True) (sendIfActive frame) := by
  apply meets_get_bind
  rintro m -
  apply meets_ite
  · rintro -
    exact meets_sendFrame hI
  · rintro -
    exact meets_pure trivial

theorem meets_torPayload {payload : UInt64} {n : ℕ} (h : Covers P payload n) :
    Meets I P (fun _ => True) (torPayload payload n) := by
  apply meets_ite
  · rintro -
    exact meets_copyIn hI h
  · rintro -
    exact meets_pure trivial

omit hI in
theorem torCopyLen_le (len : UInt16) : torCopyLen len ≤ len.toNat := by
  unfold torCopyLen
  split
  · next h => exact UInt16.le_iff_toNat_le.mp (UInt16.le_of_lt h)
  · exact le_rfl

theorem meets_torSendCell {payload : UInt64} {len : UInt16} {capToken : UInt32}
    (h : Covers P payload len.toNat) :
    Meets I P (fun _ => True) (torSendCell payload len capToken) := by
  apply meets_get_bind
  rintro m -
  apply meets_ite
  · rintro -
    exact meets_pure trivial
  rintro -
  apply meets_ite
  · rintro -
    exact meets_pure trivial
  rintro -
  apply meets_bind (meets_torPayload hI (h.mono (torCopyLen_le len)))
  rintro bs -
  dsimp only
  split
  · exact meets_pure trivial
  · apply meets_bind (meets_sendIfActive hI)
    rintro ok -
    refine meets_bind (meets_modify_of_caps hI fun m => ?_) ?_
    · rfl
    rintro - -
    exact meets_pure trivial

end

end StyxOS
