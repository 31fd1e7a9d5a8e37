import StyxOS.Syscall.Authority

/-! # The stream of a TCP socket

What the calls of `tcp.c` on one socket put on the wire, with a card that takes or
refuses each frame and calls on other sockets in between.
-/

namespace StyxOS

open Access ByteMem StepSystem

/-! ### The calls -/

def tcpFin : UInt8 := 0x01

/-- `net_build_tcp` for the bytes of a payload; `none` is a null pointer with a length above
zero. -/
def buildTcp (f : Flow) (seqNum ackNum : UInt32) (flags : UInt8) (windowSize : UInt16) :
    Option (List UInt8) → Option (List UInt8)
  | none => none
  | some payload =>
    if netTcpPayloadMax < payload.length then none
    else some (tcpFrame f seqNum ackNum flags windowSize payload)

/-- `tcp_socket_send` for the bytes of a buffer. -/
def tcpSendBytes (socketId : UInt64) (payload : Option (List UInt8)) : Access Machine ℤ := do
  let m ← get
  match activeSocket m socketId with
  | none => pure (-1)
  | some i =>
    let s := m.sockets i
    if s.state ≠ .established then pure (-1)
    else
      match buildTcp (s.flow m.anonymizedMac) s.seqNum s.ackNum (tcpAck ||| tcpPsh) s.windowSize
        payload with
      | none => pure (-1)
      | some frame => do
        let len := (payload.getD []).length
        modify fun m => m.setSocket i { s with seqNum := s.seqNum + UInt32.ofNat len }
        let ok ← sendFrame frame
        pure (if ok then (len : ℤ) else -1)

/-- What `tcp_socket_close` does to a socket that is established: the frame with the FIN is built
and not sent. -/
def tcpBuildFin (i : Fin maxTcpSockets) : Access Machine Unit := do
  let m ← get
  if (m.sockets i).state = .established then do
    let s := m.sockets i
    let _ ← netBuildTcp (s.flow m.anonymizedMac) s.seqNum s.ackNum (tcpFin ||| tcpAck) s.windowSize
      0 0
    modify fun m => m.setSocket i { m.sockets i with state := .finWait1 }
  else pure ()

def tcpSocketClose (socketId : UInt64) : Access Machine ℤ := do
  let m ← get
  match activeSocket m socketId with
  | none => pure (-1)
  | some i => do
    tcpBuildFin i
    modify fun m => m.setSocket i { m.sockets i with active := false, state := .closed }
    pure 0

/-- A send from memory is a send of the bytes that memory holds. -/
theorem tcpSocketSend_eq {m : Machine} {socketId buf len : UInt64} {bs : List UInt8}
    (hbuf : 0 < len → buf ≠ 0) (hread : (copyIn buf len.toNat m).value = some bs)
    (hkeep : (copyIn buf len.toNat m).state = m) (hlen : bs.length = len.toNat) :
    (tcpSocketSend socketId buf len m).value = (tcpSendBytes socketId (some bs) m).value ∧
      (tcpSocketSend socketId buf len m).state = (tcpSendBytes socketId (some bs) m).state := by
  rw [tcpSocketSend, tcpSendBytes, get_bind_apply, get_bind_apply]
  cases activeSocket m socketId with
  | none => exact ⟨rfl, rfl⟩
  | some i =>
    dsimp only
    split
    · exact ⟨rfl, rfl⟩
    · rw [buildTcp, hlen]
      by_cases hlong : netTcpPayloadMax < len.toNat
      · rw [netBuildTcp, if_pos (Or.inr hlong), if_pos hlong]
        exact ⟨rfl, rfl⟩
      · have hgo : ¬((0 < len ∧ buf = 0) ∨ netTcpPayloadMax < len.toNat) := by
          rintro (⟨hpos, hnull⟩ | hlt)
          · exact hbuf hpos hnull
          · exact hlong hlt
        have hcast : len.toUInt32 = UInt32.ofNat len.toNat := by
          rw [UInt64.toUInt32, UInt32.ofNat]
          rfl
        have hbuild : ∀ f seqNum ackNum flags windowSize,
            (netBuildTcp f seqNum ackNum flags windowSize buf len m).value =
              some (some (tcpFrame f seqNum ackNum flags windowSize bs)) ∧
            (netBuildTcp f seqNum ackNum flags windowSize buf len m).state = m := by
          intro f seqNum ackNum flags windowSize
          rw [netBuildTcp, if_neg hgo, value_bind_of_some hread, state_bind_of_some hread, hkeep]
          exact ⟨rfl, rfl⟩
        obtain ⟨hvalue, hstate⟩ := hbuild ((m.sockets i).flow m.anonymizedMac) (m.sockets i).seqNum
          (m.sockets i).ackNum (tcpAck ||| tcpPsh) (m.sockets i).windowSize
        rw [value_bind_of_some hvalue, state_bind_of_some hvalue, hstate, if_neg hlong]
        simp only [Option.getD_some, hlen, hcast, and_self]

/-! ### Segments -/

structure Segment where
  flags : UInt8
  seqNum : UInt32
  payload : List UInt8
  deriving DecidableEq, Repr

def segmentOf (frame : List UInt8) : Segment where
  flags := frame.getD 47 0
  seqNum := UInt32.ofNat (beVal ((frame.drop 38).take 4))
  payload := frame.drop 54

theorem segmentOf_tcpFrame {f : Flow} (hsrc : f.srcMac.length = 6) (hdst : f.dstMac.length = 6)
    (seqNum ackNum : UInt32) (flags : UInt8) (windowSize : UInt16) (payload : List UInt8) :
    segmentOf (tcpFrame f seqNum ackNum flags windowSize payload) = ⟨flags, seqNum, payload⟩ := by
  have hlen : (ethHeader f ++ ipHeader f 0x02 6
      (UInt16.ofNat (netIpHdrLen + netTcpHdrLen + payload.length)) ++ be16 f.srcPort ++
      be16 f.dstPort).length = 38 := by
    simp only [ethHeader, ipHeader, be16, be32, List.length_append, List.length_cons,
      List.length_nil, length_beBytes, hsrc, hdst]
  obtain ⟨csum, hframe⟩ : ∃ csum : UInt16, tcpFrame f seqNum ackNum flags windowSize payload =
      (ethHeader f ++ ipHeader f 0x02 6
        (UInt16.ofNat (netIpHdrLen + netTcpHdrLen + payload.length)) ++ be16 f.srcPort ++
        be16 f.dstPort) ++ (be32 seqNum ++ (be32 ackNum ++ ([0x50] ++ (flags :: (be16 windowSize ++
          be16 csum ++ [0, 0] ++ payload))))) := by
    rw [tcpFrame]
    dsimp only
    generalize finishChecksum _ = csum
    refine ⟨csum, ?_⟩
    simp only [List.append_assoc, List.cons_append, List.nil_append]
  rw [hframe]
  generalize ethHeader f ++ ipHeader f 0x02 6 _ ++ be16 f.srcPort ++ be16 f.dstPort = pre at *
  have hseq : seqNum.toNat < 256 ^ 4 := seqNum.toNat_lt
  have hflags : (pre ++ (be32 seqNum ++ (be32 ackNum ++ [0x50]))).length = 47 := by
    simp only [List.length_append, hlen, length_be32, List.length_singleton]
  have hrest : (pre ++ (be32 seqNum ++ (be32 ackNum ++ ([0x50] ++ (flags :: (be16 windowSize ++
      be16 csum ++ [0, 0])))))).length = 54 := by
    simp only [List.length_append, List.length_cons, List.length_nil, hlen, length_be32,
      length_be16]
  rw [segmentOf, Segment.mk.injEq]
  refine ⟨?_, ?_, ?_⟩
  · have happ : ∀ rest : List UInt8, pre ++ (be32 seqNum ++ (be32 ackNum ++ ([0x50] ++ rest))) =
        (pre ++ (be32 seqNum ++ (be32 ackNum ++ [0x50]))) ++ rest := by
      intro rest
      simp only [List.append_assoc]
    rw [happ, List.getD_append_right _ _ _ _ hflags.le, hflags]
    rfl
  · rw [List.drop_left' hlen, List.take_left' (length_be32 seqNum), be32, beVal_beBytes,
      Nat.mod_eq_of_lt hseq, UInt32.ofNat_toNat]
  · have happ : pre ++ (be32 seqNum ++ (be32 ackNum ++ ([0x50] ++ (flags :: (be16 windowSize ++
          be16 csum ++ [0, 0] ++ payload))))) =
        (pre ++ (be32 seqNum ++ (be32 ackNum ++ ([0x50] ++ (flags :: (be16 windowSize ++
          be16 csum ++ [0, 0])))))) ++ payload := by
      simp only [List.append_assoc, List.cons_append, List.nil_append]
    rw [happ, List.drop_left' hrest]

/-! ### The calls on an active socket -/

/-- The card takes the next frame. -/
def Machine.NicAccepts (m : Machine) : Prop :=
  m.nic.active = true ∧ m.nic.free m.nic.attempts = true

instance (m : Machine) : Decidable m.NicAccepts := inferInstanceAs (Decidable (_ ∧ _))

theorem Machine.nicAccepts_iff {m : Machine} :
    m.NicAccepts ↔ (m.nic.active && m.nic.free m.nic.attempts) = true := by
  rw [Bool.and_eq_true]
  exact Iff.rfl

namespace Machine

variable (m : Machine) (i : Fin maxTcpSockets)

/-- The machine after the card was given a segment of the socket. -/
def afterSegment (s : TcpSocket) (flags : UInt8) (payload : List UInt8) : Machine :=
  { m with
    nic := (e1000SendPacket m.nic (tcpFrame (s.flow m.anonymizedMac) s.seqNum s.ackNum flags
      s.windowSize payload)).2 }

def afterConnect (dstIp : UInt32) (dstPort : UInt16) : Machine :=
  let s := { m.sockets i with remoteIp := dstIp, remotePort := dstPort }
  (m.afterSegment s tcpSyn []).setSocket i
    { s with state := .established, seqNum := s.seqNum + 1, ackNum := 1000 }

def afterSend (payload : List UInt8) : Machine :=
  let s := m.sockets i
  (m.afterSegment s (tcpAck ||| tcpPsh) payload).setSocket i
    { s with seqNum := s.seqNum + UInt32.ofNat payload.length }

def afterClose : Machine := m.setSocket i { m.sockets i with active := false, state := .closed }

end Machine

section

variable {m : Machine} {i : Fin maxTcpSockets} {socketId : UInt64}

theorem netBuildTcp_empty (f : Flow) (seqNum ackNum : UInt32) (flags : UInt8)
    (windowSize : UInt16) (m : Machine) :
    netBuildTcp f seqNum ackNum flags windowSize 0 0 m =
      ⟨[], some (some (tcpFrame f seqNum ackNum flags windowSize [])), m⟩ := rfl

theorem connect_apply (h : activeSocket m socketId = some i) (dstIp : UInt32) (dstPort : UInt16) :
    tcpSocketConnect socketId dstIp dstPort m = ⟨[], some 0, m.afterConnect i dstIp dstPort⟩ := by
  rw [tcpSocketConnect, get_bind_apply, h]
  simp only [Bind.bind, Access.modify, netBuildTcp_empty, sendFrame, Access.get,
    Machine.setSocket, Machine.afterConnect, Machine.afterSegment, Function.update_self,
    Function.update_idem, pure_apply, List.append_nil]

/-- A frame of a socket is one that the card takes. -/
theorem length_frame (hmac : m.anonymizedMac.length = 6) (s : TcpSocket) (seqNum ackNum : UInt32)
    (flags : UInt8) (windowSize : UInt16) {payload : List UInt8}
    (hlen : payload.length ≤ netTcpPayloadMax) :
    (tcpFrame (s.flow m.anonymizedMac) seqNum ackNum flags windowSize payload).length ≠ 0 ∧
      (tcpFrame (s.flow m.anonymizedMac) seqNum ackNum flags windowSize payload).length ≤
        e1000BufferSize := by
  have hmax : netTcpPayloadMax = 1460 := rfl
  have hbuffer : e1000BufferSize = 2048 := rfl
  rw [length_tcpFrame hmac rfl]
  omega

theorem e1000SendPacket_accepts {frame : List UInt8} (h₀ : frame.length ≠ 0)
    (h₁ : frame.length ≤ e1000BufferSize) (nic : Nic) :
    (e1000SendPacket nic frame).1 = (nic.active && nic.free nic.attempts) ∧
      (e1000SendPacket nic frame).2.sent =
        if nic.active && nic.free nic.attempts then nic.sent ++ [frame] else nic.sent := by
  have hlong : ¬ e1000BufferSize < frame.length := Nat.not_lt.mpr h₁
  rw [e1000SendPacket]
  cases hactive : nic.active <;> cases hfree : nic.free nic.attempts <;> simp [h₀, hlong]

theorem sent_sendFrame_eq {frame : List UInt8} (h₀ : frame.length ≠ 0)
    (h₁ : frame.length ≤ e1000BufferSize) : (sendFrame frame m).state.nic.sent =
      if m.NicAccepts then m.nic.sent ++ [frame] else m.nic.sent := by
  simp only [Machine.nicAccepts_iff]
  exact (e1000SendPacket_accepts h₀ h₁ m.nic).2

theorem send_apply (h : activeSocket m socketId = some i)
    (hest : (m.sockets i).state = .established) {payload : List UInt8}
    (hlen : payload.length ≤ netTcpPayloadMax) (hmac : m.anonymizedMac.length = 6) :
    tcpSendBytes socketId (some payload) m =
      ⟨[], some (if m.NicAccepts then (payload.length : ℤ) else -1), m.afterSend i payload⟩ := by
  have hbuild : ∀ f seqNum ackNum flags windowSize,
      buildTcp f seqNum ackNum flags windowSize (some payload) =
        some (tcpFrame f seqNum ackNum flags windowSize payload) :=
    fun _ _ _ _ _ => if_neg (Nat.not_lt.mpr hlen)
  rw [tcpSendBytes, get_bind_apply, h]
  dsimp only
  rw [if_neg (not_not.mpr hest), hbuild]
  simp only [Bind.bind, Access.modify, sendFrame, Access.get, Machine.setSocket,
    Machine.afterSend, Machine.afterSegment, pure_apply, List.append_nil, Option.getD_some]
  obtain ⟨h₀, h₁⟩ := length_frame hmac (m.sockets i) (m.sockets i).seqNum (m.sockets i).ackNum
    (tcpAck ||| tcpPsh) (m.sockets i).windowSize hlen
  simp only [(e1000SendPacket_accepts h₀ h₁ m.nic).1, Machine.nicAccepts_iff]

theorem send_apply_refused (h : activeSocket m socketId = some i)
    {payload : Option (List UInt8)}
    (hno : (m.sockets i).state ≠ .established ∨
      ∀ bs, payload = some bs → netTcpPayloadMax < bs.length) :
    tcpSendBytes socketId payload m = ⟨[], some (-1), m⟩ := by
  rw [tcpSendBytes, get_bind_apply, h]
  dsimp only
  rcases hno with hst | hlong
  · rw [if_pos hst]
    rfl
  · cases payload with
    | none =>
      rw [buildTcp]
      split <;> rfl
    | some bs =>
      rw [buildTcp, if_pos (hlong bs rfl)]
      split <;> rfl

theorem close_apply (h : activeSocket m socketId = some i) :
    tcpSocketClose socketId m = ⟨[], some 0, m.afterClose i⟩ := by
  have hfin : tcpBuildFin i m = ⟨[], some (),
      if (m.sockets i).state = .established then
        m.setSocket i { m.sockets i with state := .finWait1 } else m⟩ := by
    rw [tcpBuildFin, get_bind_apply]
    split
    · rfl
    · rfl
  rw [tcpSocketClose, get_bind_apply, h]
  simp only [Bind.bind, hfin, Access.modify, pure_apply, List.append_nil, Machine.afterClose]
  split
  · simp only [Machine.setSocket, Function.update_self, Function.update_idem]
  · rfl

theorem sockets_afterConnect (dstIp : UInt32) (dstPort : UInt16) :
    ((m.afterConnect i dstIp dstPort).sockets i).state = .established ∧
      ((m.afterConnect i dstIp dstPort).sockets i).active = (m.sockets i).active ∧
      ((m.afterConnect i dstIp dstPort).sockets i).seqNum = (m.sockets i).seqNum + 1 := by
  simp [Machine.afterConnect, Machine.setSocket]

theorem sockets_afterSend (payload : List UInt8) :
    ((m.afterSend i payload).sockets i).state = (m.sockets i).state ∧
      ((m.afterSend i payload).sockets i).active = (m.sockets i).active ∧
      ((m.afterSend i payload).sockets i).seqNum =
        (m.sockets i).seqNum + UInt32.ofNat payload.length := by
  simp [Machine.afterSend, Machine.setSocket]

/-- The segments of the frames that the card took between two states. -/
def newSegments (m m' : Machine) : List Segment :=
  (m'.nic.sent.drop m.nic.sent.length).map segmentOf

theorem newSegments_of_nic_eq {m' : Machine} (h : m'.nic = m.nic) : newSegments m m' = [] := by
  rw [newSegments, h, List.drop_length, List.map_nil]

theorem newSegments_afterSegment (hmac : m.anonymizedMac.length = 6) (s : TcpSocket) (flags : UInt8)
    {payload : List UInt8} (hlen : payload.length ≤ netTcpPayloadMax) {m' : Machine}
    (hnic : m'.nic = (m.afterSegment s flags payload).nic) :
    newSegments m m' = if m.NicAccepts then [⟨flags, s.seqNum, payload⟩] else [] := by
  obtain ⟨h₀, h₁⟩ := length_frame hmac s s.seqNum s.ackNum flags s.windowSize hlen
  have hsent := (e1000SendPacket_accepts h₀ h₁ m.nic).2
  rw [newSegments, hnic, Machine.afterSegment, hsent]
  simp only [Machine.nicAccepts_iff]
  split
  · rw [List.drop_left, List.map_singleton, segmentOf_tcpFrame hmac rfl]
  · rw [List.drop_length, List.map_nil]

end

/-! ### The calls of a run -/

inductive TcpCall
  | create
  | connect (socketId : UInt64) (dstIp : UInt32) (dstPort : UInt16)
  | send (socketId : UInt64) (payload : Option (List UInt8))
  | recv (socketId buf maxLen : UInt64)
  | close (socketId : UInt64)

namespace TcpCall

def exec : TcpCall → Access Machine ℤ
  | create => tcpSocketCreate
  | connect socketId dstIp dstPort => tcpSocketConnect socketId dstIp dstPort
  | send socketId payload => tcpSendBytes socketId payload
  | recv socketId buf maxLen => tcpSocketRecv socketId buf maxLen
  | close socketId => tcpSocketClose socketId

def socket : TcpCall → Option (Fin maxTcpSockets)
  | create => none
  | connect socketId _ _ | send socketId _ | recv socketId _ _ | close socketId =>
    socketIndex socketId

/-- The call has a segment to hand to the card. -/
def Sends : TcpCall → Prop
  | connect .. | send .. => True
  | _ => False

end TcpCall

/-- A machine with what a run records about one socket: the segments that the card took in its
calls, the initial sequence number, whether a connect returned zero, the buffers for which a send
returned no negative value, and whether a close returned zero. -/
structure TcpRun where
  machine : Machine
  wire : List Segment
  isn : UInt32
  connected : Bool
  buffers : List (List UInt8)
  closed : Bool

section

variable (i : Fin maxTcpSockets)

/-- What a call that returned adds to the record. -/
def TcpRun.note (r : TcpRun) (ret : Option ℤ) : TcpCall → TcpRun
  | .connect .. => { r with connected := r.connected || ret == some 0 }
  | .send _ payload =>
    if 0 ≤ ret.getD (-1) then { r with buffers := r.buffers ++ [payload.getD []] } else r
  | .close _ => { r with closed := r.closed || ret == some 0 }
  | .create | .recv .. => r

def tcpStep (r : TcpRun) (c : TcpCall) : TcpRun :=
  let out := c.exec r.machine
  if c.socket = some i then
    { r with
      machine := out.state
      wire := r.wire ++ newSegments r.machine out.state }.note out.value c
  else { r with machine := out.state }

def dataSegments : UInt32 → List (List UInt8) → List Segment
  | _, [] => []
  | seqNum, b :: bs =>
    ⟨tcpAck ||| tcpPsh, seqNum, b⟩ :: dataSegments (seqNum + UInt32.ofNat b.length) bs

def streamEnd (seqNum : UInt32) (buffers : List (List UInt8)) : UInt32 :=
  buffers.foldl (fun seqNum b => seqNum + UInt32.ofNat b.length) seqNum

/-- What the wire is to carry: a SYN, the data, and a FIN once the socket is closed. -/
def TcpRun.stream (r : TcpRun) : List Segment :=
  if r.connected then
    ⟨tcpSyn, r.isn, []⟩ :: (dataSegments (r.isn + 1) r.buffers ++
      if r.closed then [⟨tcpFin ||| tcpAck, streamEnd (r.isn + 1) r.buffers, []⟩] else [])
  else []

/-- After the call the wire carries the stream; and a connect or send of which the card took no
segment has returned -1 and left state and sequence number as they were. -/
def Streams (r : TcpRun) (c : TcpCall) : Prop :=
  (tcpStep i r c).wire = (tcpStep i r c).stream ∧
    (c.socket = some i → c.Sends → (tcpStep i r c).wire = r.wire →
      (c.exec r.machine).value = some (-1) ∧
      ((tcpStep i r c).machine.sockets i).state = (r.machine.sockets i).state ∧
      ((tcpStep i r c).machine.sockets i).seqNum = (r.machine.sockets i).seqNum)

/-- The calls on the socket are a connect, then sends, then a close. -/
def InOrder (r : TcpRun) (c : TcpCall) : Prop :=
  c.socket = some i →
    match c with
    | .connect .. => r.connected = false ∧ r.closed = false
    | .send .. => r.connected = true ∧ r.closed = false
    | .close _ => r.closed = false
    | _ => True

/-- The card takes the SYN, and every data segment that is built and not empty; and an established
socket is not closed. -/
def Delivered (r : TcpRun) (c : TcpCall) : Prop :=
  c.socket = some i →
    match c with
    | .connect .. => r.machine.NicAccepts
    | .send _ payload => ∀ bs, payload = some bs → bs ≠ [] → bs.length ≤ netTcpPayloadMax →
        r.machine.NicAccepts
    | .close _ => (r.machine.sockets i).state ≠ .established
    | _ => True

/-! ### Calls on other sockets -/

variable {i} {m : Machine}

def tcb (i : Fin maxTcpSockets) (m : Machine) : Bool × TcpState × UInt32 × Nic :=
  ((m.sockets i).active, (m.sockets i).state, (m.sockets i).seqNum, m.nic)

theorem activeSocket_eq_some {socketId : UInt64} {j : Fin maxTcpSockets}
    (h : activeSocket m socketId = some j) :
    socketIndex socketId = some j ∧ (m.sockets j).active = true :=
  Option.filter_eq_some_iff.mp h

theorem activeSocket_of_active {socketId : UInt64} (h : socketIndex socketId = some i)
    (hactive : (m.sockets i).active = true) : activeSocket m socketId = some i :=
  Option.filter_eq_some_iff.mpr ⟨h, hactive⟩

theorem keeps_tcb_recv {socketId buf maxLen : UInt64} :
    Keeps (tcb i) (tcpSocketRecv socketId buf maxLen) := by
  apply keeps_tcpSocketRecv_of_tail fun _ _ _ _ _ _ => rfl
  intro m j tail
  by_cases hj : i = j
  · subst hj
    simp [tcb, Machine.setSocket]
  · simp [tcb, Machine.setSocket, Function.update_of_ne hj]

theorem mac_exec (c : TcpCall) (hmac : m.anonymizedMac.length = 6) :
    (c.exec m).state.anonymizedMac = m.anonymizedMac := by
  cases c with
  | create => exact keeps_tcpSocketCreate fixed_anonymizedMac m
  | connect socketId dstIp dstPort => exact keeps_tcpSocketConnect fixed_anonymizedMac m
  | recv socketId buf maxLen => exact keeps_tcpSocketRecv fixed_anonymizedMac m
  | close socketId =>
    cases h : activeSocket m socketId with
    | none =>
      rw [TcpCall.exec, tcpSocketClose, get_bind_apply, h]
      rfl
    | some j =>
      rw [TcpCall.exec, close_apply h]
      rfl
  | send socketId payload =>
    cases h : activeSocket m socketId with
    | none =>
      rw [TcpCall.exec, tcpSendBytes, get_bind_apply, h]
      rfl
    | some j =>
      by_cases hno : (m.sockets j).state ≠ .established ∨
          ∀ bs, payload = some bs → netTcpPayloadMax < bs.length
      · rw [TcpCall.exec, send_apply_refused h hno]
      · obtain ⟨hest, hbuilt⟩ := not_or.mp hno
        push Not at hest hbuilt
        obtain ⟨bs, rfl, hlen⟩ := hbuilt
        rw [TcpCall.exec, send_apply h hest hlen hmac]
        rfl

/-- A free socket is opened with the next port, closed to data. -/
theorem create_apply {j : Fin maxTcpSockets}
    (hf : (List.finRange maxTcpSockets).find? (fun i => !(m.sockets i).active) = some j) :
    ∃ s : TcpSocket, s.active = true ∧ s.state = .closed ∧ s.localPort = m.nextEphemeralPort ∧
      (tcpSocketCreate m).value = some (j : ℤ) ∧
      (tcpSocketCreate m).state.sockets = Function.update m.sockets j s ∧
      (tcpSocketCreate m).state.nextEphemeralPort = nextPort m.nextEphemeralPort := by
  rw [tcpSocketCreate, get_bind_apply, hf]
  exact ⟨_, rfl, rfl, rfl, rfl, rfl, rfl⟩

/-- A call that does not name an active socket leaves it as it is. -/
theorem sockets_exec_of_ne {c : TcpCall} (hne : c.socket ≠ some i)
    (hactive : (m.sockets i).active = true) (hmac : m.anonymizedMac.length = 6) :
    ((c.exec m).state.sockets i).active = (m.sockets i).active ∧
      ((c.exec m).state.sockets i).state = (m.sockets i).state ∧
      ((c.exec m).state.sockets i).seqNum = (m.sockets i).seqNum := by
  have hother : ∀ {socketId : UInt64} {j : Fin maxTcpSockets}, socketIndex socketId ≠ some i →
      activeSocket m socketId = some j → i ≠ j := by
    rintro socketId j hid hj rfl
    exact hid (activeSocket_eq_some hj).1
  cases c with
  | create =>
    rw [TcpCall.exec]
    cases hf : (List.finRange maxTcpSockets).find? fun i => !(m.sockets i).active with
    | none =>
      rw [tcpSocketCreate, get_bind_apply, hf]
      exact ⟨rfl, rfl, rfl⟩
    | some j =>
      have hj : (m.sockets j).active = false := by simpa using List.find?_some hf
      have hij : i ≠ j := by
        rintro rfl
        rw [hactive] at hj
        cases hj
      obtain ⟨s, -, -, -, -, hsockets, -⟩ := create_apply hf
      rw [hsockets, Function.update_of_ne hij]
      exact ⟨rfl, rfl, rfl⟩
  | recv socketId buf maxLen =>
    have hkeep : tcb i (tcpSocketRecv socketId buf maxLen m).state = tcb i m := keeps_tcb_recv m
    simp only [tcb, Prod.mk.injEq] at hkeep
    exact ⟨hkeep.1, hkeep.2.1, hkeep.2.2.1⟩
  | connect socketId dstIp dstPort =>
    cases h : activeSocket m socketId with
    | none =>
      rw [TcpCall.exec, tcpSocketConnect, get_bind_apply, h]
      exact ⟨rfl, rfl, rfl⟩
    | some j =>
      rw [TcpCall.exec, connect_apply h]
      simp [Machine.afterConnect, Machine.setSocket, Machine.afterSegment,
        Function.update_of_ne (hother hne h)]
  | close socketId =>
    cases h : activeSocket m socketId with
    | none =>
      rw [TcpCall.exec, tcpSocketClose, get_bind_apply, h]
      exact ⟨rfl, rfl, rfl⟩
    | some j =>
      rw [TcpCall.exec, close_apply h]
      simp [Machine.afterClose, Machine.setSocket, Function.update_of_ne (hother hne h)]
  | send socketId payload =>
    cases h : activeSocket m socketId with
    | none =>
      rw [TcpCall.exec, tcpSendBytes, get_bind_apply, h]
      exact ⟨rfl, rfl, rfl⟩
    | some j =>
      by_cases hno : (m.sockets j).state ≠ .established ∨
          ∀ bs, payload = some bs → netTcpPayloadMax < bs.length
      · rw [TcpCall.exec, send_apply_refused h hno]
        exact ⟨rfl, rfl, rfl⟩
      · obtain ⟨hest, hbuilt⟩ := not_or.mp hno
        push Not at hest hbuilt
        obtain ⟨bs, rfl, hlen⟩ := hbuilt
        rw [TcpCall.exec, send_apply h hest hlen hmac]
        simp [Machine.afterSend, Machine.setSocket, Machine.afterSegment,
          Function.update_of_ne (hother hne h)]

/-! ### The stream -/

theorem streamEnd_append (seqNum : UInt32) (buffers : List (List UInt8)) (b : List UInt8) :
    streamEnd seqNum (buffers ++ [b]) = streamEnd seqNum buffers + UInt32.ofNat b.length := by
  simp [streamEnd]

theorem dataSegments_append (buffers : List (List UInt8)) (b : List UInt8) :
    ∀ seqNum, dataSegments seqNum (buffers ++ [b]) =
      dataSegments seqNum buffers ++ [⟨tcpAck ||| tcpPsh, streamEnd seqNum buffers, b⟩] := by
  induction buffers with
  | nil => exact fun _ => rfl
  | cons b' buffers ih =>
    intro seqNum
    rw [List.cons_append, dataSegments, dataSegments, ih, List.cons_append]
    rfl

variable (i)

/-- The record of a socket agrees with its state. -/
structure TcpInv (r : TcpRun) : Prop where
  wire : r.wire = r.stream
  fresh : r.connected = false → r.buffers = []
  mac : r.machine.anonymizedMac.length = 6
  active : r.closed = false → (r.machine.sockets i).active = true
  state : r.closed = false → (r.machine.sockets i).state =
    if r.connected then TcpState.established else .closed
  seqNum : r.closed = false → (r.machine.sockets i).seqNum =
    if r.connected then streamEnd (r.isn + 1) r.buffers else r.isn

variable {i} {r : TcpRun}

theorem TcpInv.other (h : TcpInv i r) {c : TcpCall} (hne : c.socket ≠ some i) :
    Streams i r c ∧ TcpInv i (tcpStep i r c) := by
  have hstep : tcpStep i r c = { r with machine := (c.exec r.machine).state } := if_neg hne
  have hsockets := fun hc => sockets_exec_of_ne hne (h.active hc) h.mac
  rw [Streams, hstep]
  refine ⟨⟨h.wire, fun he => absurd he hne⟩, ?_⟩
  exact { wire := h.wire
          fresh := h.fresh
          mac := by rw [mac_exec c h.mac]; exact h.mac
          active := fun hc => (hsockets hc).1.trans (h.active hc)
          state := fun hc => (hsockets hc).2.1.trans (h.state hc)
          seqNum := fun hc => (hsockets hc).2.2.trans (h.seqNum hc) }

theorem TcpInv.connect (h : TcpInv i r) {socketId : UInt64} (dstIp : UInt32) (dstPort : UInt16)
    (hid : socketIndex socketId = some i) (hfresh : r.connected = false)
    (hopen : r.closed = false) :
    (Streams i r (.connect socketId dstIp dstPort) ↔ r.machine.NicAccepts) ∧
      (r.machine.NicAccepts → TcpInv i (tcpStep i r (.connect socketId dstIp dstPort))) := by
  have hexec := connect_apply (activeSocket_of_active hid (h.active hopen)) dstIp dstPort
  have hseq : (r.machine.sockets i).seqNum = r.isn := by
    rw [h.seqNum hopen, hfresh]
    rfl
  have hwire : r.wire = [] := by
    rw [h.wire, TcpRun.stream, hfresh]
    rfl
  have hnew : newSegments r.machine (r.machine.afterConnect i dstIp dstPort) =
      if r.machine.NicAccepts then [⟨tcpSyn, r.isn, []⟩] else [] := by
    have hnic : (r.machine.afterConnect i dstIp dstPort).nic = (r.machine.afterSegment
        { r.machine.sockets i with remoteIp := dstIp, remotePort := dstPort } tcpSyn []).nic := rfl
    rw [newSegments_afterSegment h.mac _ _ (Nat.zero_le _) hnic]
    simp only [hseq]
  have hstep : tcpStep i r (.connect socketId dstIp dstPort) =
      { r with
        machine := r.machine.afterConnect i dstIp dstPort
        wire := if r.machine.NicAccepts then [⟨tcpSyn, r.isn, []⟩] else []
        connected := true } := by
    have hsock : (TcpCall.connect socketId dstIp dstPort).socket = some i := hid
    rw [tcpStep, if_pos hsock, TcpCall.exec, hexec, TcpRun.note, hwire, hnew]
    simp
  have hstream : (tcpStep i r (.connect socketId dstIp dstPort)).stream =
      [⟨tcpSyn, r.isn, []⟩] := by
    rw [hstep, TcpRun.stream]
    simp [h.fresh hfresh, hopen, dataSegments]
  have hstreams : Streams i r (.connect socketId dstIp dstPort) ↔ r.machine.NicAccepts := by
    rw [Streams, hstream, hstep, hwire]
    by_cases hnic : r.machine.NicAccepts
    · simp [hnic]
    · simp [hnic]
  refine ⟨hstreams, fun hnic => ?_⟩
  have hw := (hstreams.mpr hnic).1
  rw [hstep] at hw ⊢
  obtain ⟨hstate, hactive, hnext⟩ := sockets_afterConnect (m := r.machine) (i := i) dstIp dstPort
  exact { wire := hw
          fresh := fun hc => by cases hc
          mac := h.mac
          active := fun _ => hactive.trans (h.active hopen)
          state := fun _ => hstate
          seqNum := fun _ => by
            rw [hnext, hseq, h.fresh hfresh]
            rfl }

/-! A send on a socket that is connected and open -/

section

variable {socketId : UInt64} (h : TcpInv i r) (hid : socketIndex socketId = some i)
  (hconn : r.connected = true) (hopen : r.closed = false)
include h hid hconn hopen

omit hconn in
theorem TcpInv.send_unbuilt {payload : Option (List UInt8)}
    (hno : ∀ bs, payload = some bs → netTcpPayloadMax < bs.length) :
    Streams i r (.send socketId payload) ∧ tcpStep i r (.send socketId payload) = r := by
  have hexec := send_apply_refused (activeSocket_of_active hid (h.active hopen)) (Or.inr hno)
  have hsock : (TcpCall.send socketId payload).socket = some i := hid
  have hstep : tcpStep i r (.send socketId payload) = r := by
    rw [tcpStep, if_pos hsock, TcpCall.exec, hexec, TcpRun.note, newSegments_of_nic_eq rfl]
    simp
  rw [Streams, hstep, TcpCall.exec, hexec]
  exact ⟨⟨h.wire, fun _ _ _ => ⟨rfl, rfl, rfl⟩⟩, rfl⟩

/-- The segment is built: it goes to the wire if the card takes it, and the sequence number moves in
both cases. -/
theorem TcpInv.send_built {bs : List UInt8} (hlen : bs.length ≤ netTcpPayloadMax) :
    (TcpCall.exec (.send socketId (some bs)) r.machine).value =
        some (if r.machine.NicAccepts then (bs.length : ℤ) else -1) ∧
      tcpStep i r (.send socketId (some bs)) =
        if r.machine.NicAccepts then
          { r with
            machine := r.machine.afterSend i bs
            wire := r.wire ++ [⟨tcpAck ||| tcpPsh, streamEnd (r.isn + 1) r.buffers, bs⟩]
            buffers := r.buffers ++ [bs] }
        else { r with machine := r.machine.afterSend i bs } := by
  have hsock : (TcpCall.send socketId (some bs)).socket = some i := hid
  have hest : (r.machine.sockets i).state = .established := by
    rw [h.state hopen, hconn]
    rfl
  have hseq : (r.machine.sockets i).seqNum = streamEnd (r.isn + 1) r.buffers := by
    rw [h.seqNum hopen, hconn]
    rfl
  have hexec := send_apply (activeSocket_of_active hid (h.active hopen)) hest hlen h.mac
  have hnew : newSegments r.machine (r.machine.afterSend i bs) =
      if r.machine.NicAccepts then
        [⟨tcpAck ||| tcpPsh, streamEnd (r.isn + 1) r.buffers, bs⟩] else [] := by
    have hnic : (r.machine.afterSend i bs).nic = (r.machine.afterSegment (r.machine.sockets i)
        (tcpAck ||| tcpPsh) bs).nic := rfl
    rw [newSegments_afterSegment h.mac _ _ hlen hnic, hseq]
  rw [tcpStep, if_pos hsock, TcpCall.exec, hexec, TcpRun.note, hnew]
  constructor
  · rfl
  · by_cases hnic : r.machine.NicAccepts
    · simp [hnic]
    · simp [hnic]

theorem TcpInv.send_taken {bs : List UInt8} (hlen : bs.length ≤ netTcpPayloadMax)
    (hnic : r.machine.NicAccepts) :
    Streams i r (.send socketId (some bs)) ∧ TcpInv i (tcpStep i r (.send socketId (some bs))) := by
  obtain ⟨-, hstep⟩ := h.send_built hid hconn hopen hlen
  rw [if_pos hnic] at hstep
  have hwire : (tcpStep i r (.send socketId (some bs))).wire =
      (tcpStep i r (.send socketId (some bs))).stream := by
    rw [hstep, h.wire, TcpRun.stream, TcpRun.stream]
    simp [hconn, hopen, dataSegments_append]
  constructor
  · refine ⟨hwire, fun _ _ hsame => ?_⟩
    rw [hstep] at hsame
    simp at hsame
  · obtain ⟨hstate, hactive, hnext⟩ := sockets_afterSend (m := r.machine) (i := i) bs
    rw [hstep] at hwire ⊢
    exact { wire := hwire
            fresh := fun hc => by
              rw [hconn] at hc
              cases hc
            mac := h.mac
            active := fun _ => hactive.trans (h.active hopen)
            state := fun _ => hstate.trans (h.state hopen)
            seqNum := fun _ => by
              rw [hnext, h.seqNum hopen, if_pos hconn, if_pos hconn, streamEnd_append] }

theorem TcpInv.send_refused {bs : List UInt8} (hlen : bs.length ≤ netTcpPayloadMax)
    (hnic : ¬ r.machine.NicAccepts) :
    (Streams i r (.send socketId (some bs)) ↔ bs = []) ∧
      (bs = [] → TcpInv i (tcpStep i r (.send socketId (some bs)))) := by
  obtain ⟨hvalue, hstep⟩ := h.send_built hid hconn hopen hlen
  rw [if_neg hnic] at hvalue hstep
  obtain ⟨hstate, hactive, hnext⟩ := sockets_afterSend (m := r.machine) (i := i) bs
  have hzero : (r.machine.sockets i).seqNum + UInt32.ofNat bs.length =
      (r.machine.sockets i).seqNum ↔ bs = [] := by
    have hmax : netTcpPayloadMax = 1460 := rfl
    constructor
    · intro heq
      have hn : UInt32.ofNat bs.length = 0 := by
        have := congrArg (· - (r.machine.sockets i).seqNum) heq
        simpa using this
      have hmod := congrArg UInt32.toNat hn
      rw [UInt32.toNat_ofNat', Nat.mod_eq_of_lt (by omega)] at hmod
      exact List.eq_nil_of_length_eq_zero hmod
    · rintro rfl
      simp
  have hsock : (TcpCall.send socketId (some bs)).socket = some i := hid
  constructor
  · rw [Streams, hstep, hvalue]
    constructor
    · rintro ⟨-, hkeep⟩
      obtain ⟨-, -, hsame⟩ := hkeep hsock trivial rfl
      exact hzero.mp (hnext.symm.trans hsame)
    · intro hnil
      exact ⟨h.wire, fun _ _ _ => ⟨rfl, hstate, hnext.trans (hzero.mpr hnil)⟩⟩
  · intro hnil
    rw [hstep]
    exact { wire := h.wire
            fresh := h.fresh
            mac := h.mac
            active := fun _ => hactive.trans (h.active hopen)
            state := fun _ => hstate.trans (h.state hopen)
            seqNum := fun _ => (hnext.trans (hzero.mpr hnil)).trans (h.seqNum hopen) }

theorem TcpInv.send (payload : Option (List UInt8)) :
    (Streams i r (.send socketId payload) ↔ Delivered i r (.send socketId payload)) ∧
      (Delivered i r (.send socketId payload) →
        TcpInv i (tcpStep i r (.send socketId payload))) := by
  have hsock : (TcpCall.send socketId payload).socket = some i := hid
  by_cases hno : ∀ bs, payload = some bs → netTcpPayloadMax < bs.length
  · obtain ⟨hstreams, hstep⟩ := h.send_unbuilt hid hopen hno
    have hdelivered : Delivered i r (.send socketId payload) :=
      fun _ bs hbs _ hlen => absurd (hno bs hbs) (Nat.not_lt.mpr hlen)
    rw [hstep]
    exact ⟨⟨fun _ => hdelivered, fun _ => hstreams⟩, fun _ => h⟩
  · push Not at hno
    obtain ⟨bs, rfl, hlen⟩ := hno
    by_cases hnic : r.machine.NicAccepts
    · obtain ⟨hstreams, hinv⟩ := h.send_taken hid hconn hopen hlen hnic
      exact ⟨⟨fun _ _ _ _ _ _ => hnic, fun _ => hstreams⟩, fun _ => hinv⟩
    · obtain ⟨hstreams, hinv⟩ := h.send_refused hid hconn hopen hlen hnic
      have hempty : Delivered i r (.send socketId (some bs)) ↔ bs = [] := by
        constructor
        · intro hd
          by_contra hne
          exact hnic (hd hsock bs rfl hne hlen)
        · rintro rfl - bs hbs hne -
          exact absurd (Option.some.inj hbs).symm hne
      exact ⟨hstreams.trans hempty.symm, fun hd => hinv (hempty.mp hd)⟩

end

theorem TcpInv.close (h : TcpInv i r) {socketId : UInt64}
    (hid : socketIndex socketId = some i) (hopen : r.closed = false) :
    (Streams i r (.close socketId) ↔ Delivered i r (.close socketId)) ∧
      (Delivered i r (.close socketId) → TcpInv i (tcpStep i r (.close socketId))) := by
  have hsock : (TcpCall.close socketId).socket = some i := hid
  have hexec := close_apply (activeSocket_of_active hid (h.active hopen))
  have hstep : tcpStep i r (.close socketId) =
      { r with machine := r.machine.afterClose i, closed := true } := by
    have hnew : newSegments r.machine (r.machine.afterClose i) = [] := newSegments_of_nic_eq rfl
    rw [tcpStep, if_pos hsock, TcpCall.exec, hexec, TcpRun.note, hnew]
    simp
  have hwire : (tcpStep i r (.close socketId)).wire =
      (tcpStep i r (.close socketId)).stream ↔ r.connected = false := by
    rw [hstep, h.wire, TcpRun.stream, TcpRun.stream]
    cases r.connected with
    | false => simp
    | true => simp [hopen]
  have hdelivered : Delivered i r (.close socketId) ↔ r.connected = false := by
    have hstate := h.state hopen
    constructor
    · intro hd
      have hne := hd hsock
      by_contra hconn
      rw [Bool.not_eq_false] at hconn
      rw [hconn] at hstate
      exact hne hstate
    · intro hconn _
      rw [hconn] at hstate
      dsimp only
      rw [hstate]
      decide
  have hstreams : Streams i r (.close socketId) ↔ r.connected = false :=
    (and_iff_left fun _ hsends => hsends.elim).trans hwire
  refine ⟨hstreams.trans hdelivered.symm, fun hd => ?_⟩
  have hw := hwire.mpr (hdelivered.mp hd)
  rw [hstep] at hw ⊢
  exact { wire := hw
          fresh := h.fresh
          mac := h.mac
          active := fun hc => by cases hc
          state := fun hc => by cases hc
          seqNum := fun hc => by cases hc }

theorem TcpInv.recv (h : TcpInv i r) {socketId : UInt64} (hid : socketIndex socketId = some i)
    (buf maxLen : UInt64) :
    Streams i r (.recv socketId buf maxLen) ∧
      TcpInv i (tcpStep i r (.recv socketId buf maxLen)) := by
  have hsock : (TcpCall.recv socketId buf maxLen).socket = some i := hid
  have hkeep : tcb i (tcpSocketRecv socketId buf maxLen r.machine).state = tcb i r.machine :=
    keeps_tcb_recv r.machine
  simp only [tcb, Prod.mk.injEq] at hkeep
  obtain ⟨hactive, hstate, hseq, hnic⟩ := hkeep
  have hstep : tcpStep i r (.recv socketId buf maxLen) =
      { r with machine := (tcpSocketRecv socketId buf maxLen r.machine).state } := by
    rw [tcpStep, if_pos hsock, TcpCall.exec, newSegments_of_nic_eq hnic, List.append_nil,
      TcpRun.note]
  rw [Streams, hstep]
  refine ⟨⟨h.wire, fun _ hsends => hsends.elim⟩, ?_⟩
  exact { wire := h.wire
          fresh := h.fresh
          mac := by
            have hmac : (tcpSocketRecv socketId buf maxLen r.machine).state.anonymizedMac =
                r.machine.anonymizedMac := mac_exec (.recv socketId buf maxLen) h.mac
            rw [hmac]
            exact h.mac
          active := fun hc => hactive.trans (h.active hc)
          state := fun hc => hstate.trans (h.state hc)
          seqNum := fun hc => hseq.trans (h.seqNum hc) }

theorem TcpInv.step (h : TcpInv i r) {c : TcpCall} (ho : InOrder i r c) :
    (Streams i r c ↔ Delivered i r c) ∧ (Delivered i r c → TcpInv i (tcpStep i r c)) := by
  by_cases hsock : c.socket = some i
  · have hcall := ho hsock
    cases c with
    | create => cases hsock
    | connect socketId dstIp dstPort =>
      obtain ⟨hstreams, hinv⟩ := h.connect dstIp dstPort hsock hcall.1 hcall.2
      have hdelivered : Delivered i r (.connect socketId dstIp dstPort) ↔ r.machine.NicAccepts :=
        ⟨fun hd => hd hsock, fun hnic _ => hnic⟩
      exact ⟨hstreams.trans hdelivered.symm, fun hd => hinv (hdelivered.mp hd)⟩
    | send socketId payload => exact h.send hsock hcall.1 hcall.2 payload
    | recv socketId buf maxLen =>
      obtain ⟨hstreams, hinv⟩ := h.recv hsock buf maxLen
      exact ⟨⟨fun _ _ => trivial, fun _ => hstreams⟩, fun _ => hinv⟩
    | close socketId => exact h.close hsock hcall
  · obtain ⟨hstreams, hinv⟩ := h.other hsock
    exact ⟨⟨fun _ he => absurd he hsock, fun _ => hstreams⟩, fun _ => hinv⟩

/-! ### Runs -/

/-- The record after a create returned the socket. -/
def TcpRun.start (i : Fin maxTcpSockets) (m : Machine) : TcpRun :=
  let created := (tcpSocketCreate m).state
  ⟨created, [], (created.sockets i).seqNum, false, [], false⟩

theorem TcpInv.start (hmac : m.anonymizedMac.length = 6)
    (hcreate : (tcpSocketCreate m).value = some (i : ℤ)) : TcpInv i (TcpRun.start i m) := by
  cases hf : (List.finRange maxTcpSockets).find? fun i => !(m.sockets i).active with
  | none =>
    rw [tcpSocketCreate, get_bind_apply, hf] at hcreate
    have hneg : ((i : ℕ) : ℤ) = -1 := (Option.some.inj hcreate).symm
    omega
  | some j =>
    obtain ⟨s, hactive, hstate, -, hvalue, hsockets, -⟩ := create_apply hf
    obtain rfl : j = i := by
      have hij := Option.some.inj (hvalue.symm.trans hcreate)
      exact Fin.ext (Int.ofNat_inj.mp hij)
    have hs : (TcpRun.start j m).machine.sockets j = s := by
      rw [TcpRun.start, hsockets, Function.update_self]
    exact { wire := rfl
            fresh := fun _ => rfl
            mac := by
              have hkeep := mac_exec .create hmac
              rw [TcpRun.start]
              exact (congrArg List.length hkeep).trans hmac
            active := fun _ => by rw [hs, hactive]
            state := fun _ => by
              rw [hs, hstate]
              rfl
            seqNum := fun _ => rfl }

/-- From the create of a socket on, the wire carries the stream of the socket's buffers exactly when
the card takes every segment of it that is built, and the socket is not closed once connected. -/
theorem tcp_stream_iff {m : Machine} {i : Fin maxTcpSockets} (hmac : m.anonymizedMac.length = 6)
    (hcreate : (tcpSocketCreate m).value = some (i : ℤ)) {calls : List TcpCall}
    (ho : AllSteps (tcpStep i) (InOrder i) (TcpRun.start i m) calls) :
    AllSteps (tcpStep i) (Streams i) (TcpRun.start i m) calls ↔
      AllSteps (tcpStep i) (Delivered i) (TcpRun.start i m) calls :=
  allSteps_congr_of_allSteps (tcpStep i) (fun _ _ h ho => (h.step ho).1)
    (fun _ _ h ho => (h.step ho).2) (TcpInv.start hmac hcreate) ho

/-- A machine whose card takes the frames that `free` admits. -/
def tcpSample (free : ℕ → Bool) : Machine := { sampleMachine with nic := ⟨true, free, 0, []⟩ }

theorem tcp_stream_iff_sent :
    AllSteps (tcpStep 0) (Streams 0) (TcpRun.start 0 (tcpSample fun _ => true))
      [.connect 0 0x0a000202 80, .create, .send 0 (some [1, 2, 3]), .send 0 none] := by
  have hcreate : (tcpSocketCreate (tcpSample fun _ => true)).value =
      some ((0 : Fin maxTcpSockets) : ℤ) := by decide +kernel
  apply (tcp_stream_iff rfl hcreate ?_).mpr
  · simp only [allSteps_cons, allSteps_nil, and_true]
    refine ⟨fun _ => ?_, ?_, fun _ => ?_, ?_⟩
    · decide +kernel
    · rintro ⟨⟩
    · decide +kernel
    · rintro - _ ⟨⟩
  · simp only [allSteps_cons, allSteps_nil, and_true]
    refine ⟨fun _ => ⟨rfl, rfl⟩, ?_, fun _ => ⟨?_, rfl⟩, fun _ => ⟨?_, rfl⟩⟩
    · rintro ⟨⟩
    · decide +kernel
    · decide +kernel

/-- A close that returns 0 leaves the stream without its FIN; a send that the card refuses returns
-1 and has moved the sequence number. -/
theorem tcp_stream_broken :
    let m := tcpSample fun n => n == 0
    let close := [TcpCall.connect 0 0x0a000202 80, .close 0]
    let send := [TcpCall.connect 0 0x0a000202 80, .send 0 (some [1, 2, 3])]
    (tcpSocketCreate m).value = some ((0 : Fin maxTcpSockets) : ℤ) ∧
      (AllSteps (tcpStep 0) (InOrder 0) (TcpRun.start 0 m) close ∧
        ¬ AllSteps (tcpStep 0) (Streams 0) (TcpRun.start 0 m) close) ∧
      (AllSteps (tcpStep 0) (InOrder 0) (TcpRun.start 0 m) send ∧
        ¬ AllSteps (tcpStep 0) (Streams 0) (TcpRun.start 0 m) send) := by
  simp only [allSteps_cons, allSteps_nil, and_true]
  refine ⟨by decide +kernel, ⟨⟨fun _ => ⟨rfl, rfl⟩, fun _ => rfl⟩, ?_⟩,
    ⟨fun _ => ⟨rfl, rfl⟩, fun _ => ⟨by decide +kernel, rfl⟩⟩, ?_⟩
  · rintro ⟨-, hwire, -⟩
    revert hwire
    decide +kernel
  · rintro ⟨-, -, hkeep⟩
    obtain ⟨-, -, hseq⟩ := hkeep rfl trivial (by decide +kernel)
    revert hseq
    decide +kernel

end

end StyxOS
