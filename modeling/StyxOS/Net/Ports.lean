import StyxOS.Library.CyclicNames
import StyxOS.Net.Tcp

/-! # The local ports of TCP sockets

`tcp_socket_create` takes ports from a counter that starts over and does not
look at the sockets that are open, and `tcp_handle_packet` looks for the first
socket with the port of a packet. Two sockets get one port when one of them stays
open while the counter goes round.
-/

namespace StyxOS

open Access StepSystem

/-! ### The calls -/

/-- `tcp_init`. The counter of ports stays as it is. -/
def tcpInit : Access Machine Unit :=
  modify fun m =>
    { m with
      sockets := fun _ =>
        { active := false
          state := .closed
          localIp := 0
          remoteIp := 0
          localPort := 0
          remotePort := 0
          seqNum := 0
          ackNum := 0
          windowSize := 0
          rxBuf := fun _ => 0
          rxHead := 0
          rxTail := 0 } }

/-- The loop of `tcp_handle_packet`. -/
def socketOfPort (m : Machine) (dstPort : UInt16) : Option (Fin maxTcpSockets) :=
  (List.finRange maxTcpSockets).find? fun i =>
    (m.sockets i).active && (m.sockets i).localPort == dstPort

/-- `tcp_handle_packet`; `none` is a null pointer. -/
def tcpHandlePacket : Option (List UInt8) → Access Machine Unit
  | none => pure ()
  | some packet =>
    if packet.length < netEthHdrLen + netIpHdrLen + netTcpHdrLen then pure ()
    else
      let ip := packet.drop netEthHdrLen
      if ip.getD 9 0 ≠ 6 then pure ()
      else do
        let tcp := ip.drop netIpHdrLen
        let dstPort := (tcp.getD 2 0).toUInt16 <<< 8 ||| (tcp.getD 3 0).toUInt16
        let m ← get
        match socketOfPort m dstPort with
        | none => pure ()
        | some i =>
          if tcp.getD 13 0 &&& tcpSyn ≠ 0 ∧ (m.sockets i).state = .synSent then
            modify fun m => m.setSocket i { m.sockets i with state := .established }
          else pure ()

/-- What happens to the sockets: a call, or a packet that comes in. -/
inductive TcpEvent
  | call (c : TcpCall)
  | packet (packet : Option (List UInt8))

def TcpEvent.exec (m : Machine) : TcpEvent → Machine
  | call c => (c.exec m).state
  | packet p => (tcpHandlePacket p m).state

/-- The active sockets have different ports, all of them ephemeral; so a packet is for no socket but
the one that `tcp_handle_packet` finds. -/
structure PortsOk (m : Machine) : Prop where
  distinct : ∀ i j, (m.sockets i).active = true → (m.sockets j).active = true →
    (m.sockets i).localPort = (m.sockets j).localPort → i = j
  range : ∀ i, (m.sockets i).active = true →
    49152 ≤ (m.sockets i).localPort ∧ (m.sockets i).localPort ≤ 65530
  only : ∀ dstPort i, socketOfPort m dstPort = some i → ∀ j, (m.sockets j).active = true →
    (m.sockets j).localPort = dstPort → j = i

/-! ### Ports by number -/

def portCount : ℕ := 65530 - 49152 + 1

/-- The ports in the order in which the counter gives them out. -/
def ephemeralPort (k : ℕ) : UInt16 := UInt16.ofNat (49152 + k % portCount)

theorem toNat_ephemeralPort (k : ℕ) : (ephemeralPort k).toNat = 49152 + k % portCount := by
  have hk : k % portCount < portCount := Nat.mod_lt _ (by decide)
  have hcount : portCount = 16379 := rfl
  rw [ephemeralPort, UInt16.toNat_ofNat']
  omega

theorem ephemeralPort_eq_iff {k l : ℕ} :
    ephemeralPort k = ephemeralPort l ↔ k % portCount = l % portCount := by
  rw [← UInt16.toNat_inj, toNat_ephemeralPort, toNat_ephemeralPort, Nat.add_left_cancel_iff]

theorem ephemeralPort_range (k : ℕ) : 49152 ≤ ephemeralPort k ∧ ephemeralPort k ≤ 65530 := by
  have hk : k % portCount < portCount := Nat.mod_lt _ (by decide)
  have hcount : portCount = 16379 := rfl
  rw [UInt16.le_iff_toNat_le, UInt16.le_iff_toNat_le, toNat_ephemeralPort]
  change 49152 ≤ _ ∧ _ ≤ 65530
  omega

theorem nextPort_ephemeralPort (k : ℕ) : nextPort (ephemeralPort k) = ephemeralPort (k + 1) := by
  have hk : k % portCount < portCount := Nat.mod_lt _ (by decide)
  have hcount : portCount = 16379 := rfl
  have hsucc : (ephemeralPort k + 1).toNat = 49152 + k % portCount + 1 := by
    rw [UInt16.toNat_add, toNat_ephemeralPort]
    change (_ + 1) % 65536 = _
    omega
  rw [← UInt16.toNat_inj, toNat_ephemeralPort, nextPort]
  have hlast : ephemeralPort k + 1 > 65530 ↔ 65530 < 49152 + k % portCount + 1 := by
    rw [gt_iff_lt, UInt16.lt_iff_toNat_lt, hsucc]
    exact Iff.rfl
  rw [hcount] at hk hsucc hlast ⊢
  by_cases hwrap : ephemeralPort k + 1 > 65530
  · have hend := hlast.mp hwrap
    rw [if_pos hwrap]
    change 49152 = _
    omega
  · have hmore := mt hlast.mpr hwrap
    rw [if_neg hwrap, hsucc]
    omega

theorem exists_ephemeralPort {p : UInt16} (hp : 49152 ≤ p ∧ p ≤ 65530) :
    p = ephemeralPort (p.toNat - 49152) := by
  obtain ⟨hlow, hhigh⟩ := hp
  rw [UInt16.le_iff_toNat_le] at hlow hhigh
  change 49152 ≤ p.toNat at hlow
  change p.toNat ≤ 65530 at hhigh
  have hcount : portCount = 16379 := rfl
  rw [← UInt16.toNat_inj, toNat_ephemeralPort, Nat.mod_eq_of_lt (by omega)]
  omega

/-! ### Runs with the numbers of ports -/

/-- A machine, with the number of ports that were given out and the number of each socket's port. -/
structure PortRun where
  machine : Machine
  pool : CyclicNames.Pool (Fin maxTcpSockets)

/-- The socket that `tcp_socket_create` finds. -/
def freeSocket (m : Machine) : Option (Fin maxTcpSockets) :=
  (List.finRange maxTcpSockets).find? fun i => !(m.sockets i).active

/-- What an event does to the ports in use. -/
def TcpEvent.portOp (m : Machine) : TcpEvent → Option (CyclicNames.Op (Fin maxTcpSockets))
  | call .create => (freeSocket m).map .take
  | call (.close socketId) => (activeSocket m socketId).map .giveBack
  | _ => none

def portStep (r : PortRun) (e : TcpEvent) : PortRun where
  machine := e.exec r.machine
  pool := (e.portOp r.machine).elim r.pool (CyclicNames.step r.pool)

/-- The run after `tcp_init`, with the counter where it is. -/
def PortRun.start (m : Machine) : PortRun where
  machine := (tcpInit m).state
  pool := { made := m.nextEphemeralPort.toNat - 49152, held := fun _ => none }

/-- A create that finds a free socket finds all active sockets among the last 16378 created. -/
def CreatesInTime (r : PortRun) (e : TcpEvent) : Prop :=
  e = .call .create → (∃ i, (r.machine.sockets i).active = false) →
    CyclicNames.Recent portCount r.pool

/-- The numbers are those of the ports of the active sockets and of the counter. -/
structure PortRun.Numbered (r : PortRun) : Prop where
  counter : r.machine.nextEphemeralPort = ephemeralPort r.pool.made
  active : ∀ i, (r.machine.sockets i).active = (r.pool.held i).isSome
  port : ∀ i k, r.pool.held i = some k → (r.machine.sockets i).localPort = ephemeralPort k

section

variable {m : Machine} {r : PortRun}

theorem freeSocket_eq_some {i : Fin maxTcpSockets} (h : freeSocket m = some i) :
    (m.sockets i).active = false := by
  simpa using List.find?_some h

theorem isSome_freeSocket : (freeSocket m).isSome ↔ ∃ i, (m.sockets i).active = false := by
  simp [freeSocket, List.find?_isSome]

theorem socketOfPort_eq_some {dstPort : UInt16} {i : Fin maxTcpSockets}
    (h : socketOfPort m dstPort = some i) :
    (m.sockets i).active = true ∧ (m.sockets i).localPort = dstPort := by
  simpa using List.find?_some h

namespace PortRun.Numbered

theorem start (hport : 49152 ≤ m.nextEphemeralPort ∧ m.nextEphemeralPort ≤ 65530) :
    (PortRun.start m).Numbered := by
  constructor
  · exact exists_ephemeralPort hport
  · exact fun _ => rfl
  · nofun

theorem portsOk_iff (h : r.Numbered) :
    PortsOk r.machine ↔ CyclicNames.Distinct portCount r.pool := by
  have hnumber : ∀ i, (r.machine.sockets i).active = true → ∃ k, r.pool.held i = some k := by
    intro i hi
    rw [h.active] at hi
    exact Option.isSome_iff_exists.mp hi
  have hactive : ∀ i k, r.pool.held i = some k → (r.machine.sockets i).active = true := by
    intro i k hk
    rw [h.active, hk]
    rfl
  constructor
  · intro hok i j k l hi hj hkl
    apply hok.distinct i j (hactive i k hi) (hactive j l hj)
    rw [h.port i k hi, h.port j l hj]
    exact ephemeralPort_eq_iff.mpr hkl
  · intro hd
    have hdistinct : ∀ i j, (r.machine.sockets i).active = true →
        (r.machine.sockets j).active = true →
        (r.machine.sockets i).localPort = (r.machine.sockets j).localPort → i = j := by
      intro i j hi hj hij
      obtain ⟨k, hk⟩ := hnumber i hi
      obtain ⟨l, hl⟩ := hnumber j hj
      rw [h.port i k hk, h.port j l hl] at hij
      exact hd i j k l hk hl (ephemeralPort_eq_iff.mp hij)
    constructor
    · exact hdistinct
    · intro i hi
      obtain ⟨k, hk⟩ := hnumber i hi
      rw [h.port i k hk]
      exact ephemeralPort_range k
    · intro dstPort i hi j hj hport
      obtain ⟨hactive, hfound⟩ := socketOfPort_eq_some hi
      exact hdistinct j i hj hactive (hport.trans hfound.symm)

end PortRun.Numbered

/-! ### One event -/

/-- The ports in use and the counter of ports. -/
def portView (m : Machine) : (Fin maxTcpSockets → Bool × UInt16) × UInt16 :=
  (fun i => ((m.sockets i).active, (m.sockets i).localPort), m.nextEphemeralPort)

theorem portView_setSocket {i : Fin maxTcpSockets} {s : TcpSocket}
    (hactive : s.active = (m.sockets i).active) (hport : s.localPort = (m.sockets i).localPort) :
    portView (m.setSocket i s) = portView m := by
  have hview : ∀ j, (((m.setSocket i s).sockets j).active,
      ((m.setSocket i s).sockets j).localPort) =
        ((m.sockets j).active, (m.sockets j).localPort) := by
    intro j
    by_cases hj : j = i
    · subst hj
      simp [Machine.setSocket, hactive, hport]
    · simp [Machine.setSocket, Function.update_of_ne hj]
  exact Prod.ext (funext hview) rfl

theorem portView_tcpHandlePacket (packet : Option (List UInt8)) :
    portView (tcpHandlePacket packet m).state = portView m := by
  cases packet with
  | none => rfl
  | some bytes =>
    rw [tcpHandlePacket]
    split
    · rfl
    · dsimp only
      split
      · rfl
      · rw [get_bind_apply]
        generalize (bytes.drop netEthHdrLen).drop netIpHdrLen = tcp
        cases socketOfPort m ((tcp.getD 2 0).toUInt16 <<< 8 ||| (tcp.getD 3 0).toUInt16) with
        | none => rfl
        | some i =>
          dsimp only
          split
          · exact portView_setSocket rfl rfl
          · rfl

theorem portView_tcpSendBytes (socketId : UInt64) (payload : Option (List UInt8)) :
    portView (tcpSendBytes socketId payload m).state = portView m := by
  rw [tcpSendBytes, get_bind_apply]
  cases activeSocket m socketId with
  | none => rfl
  | some i =>
    dsimp only
    split
    · rfl
    · cases buildTcp ((m.sockets i).flow m.anonymizedMac) (m.sockets i).seqNum
        (m.sockets i).ackNum (tcpAck ||| tcpPsh) (m.sockets i).windowSize payload with
      | none => rfl
      | some frame => exact portView_setSocket rfl rfl

theorem portView_exec {e : TcpEvent} (h : e.portOp m = none) :
    portView (e.exec m) = portView m := by
  cases e with
  | packet p => exact portView_tcpHandlePacket p
  | call c =>
    cases c with
    | create =>
      have hfree : freeSocket m = none := Option.map_eq_none_iff.mp h
      rw [freeSocket] at hfree
      rw [TcpEvent.exec, TcpCall.exec, tcpSocketCreate, get_bind_apply, hfree]
      rfl
    | connect socketId dstIp dstPort =>
      rw [TcpEvent.exec, TcpCall.exec]
      cases hi : activeSocket m socketId with
      | none =>
        rw [tcpSocketConnect, get_bind_apply, hi]
        rfl
      | some i =>
        rw [connect_apply hi]
        exact portView_setSocket rfl rfl
    | send socketId payload => exact portView_tcpSendBytes socketId payload
    | recv socketId buf maxLen =>
      apply keeps_tcpSocketRecv_of_tail fun _ _ _ _ _ _ => rfl
      exact fun m i tail => portView_setSocket rfl rfl
    | close socketId =>
      have hi : activeSocket m socketId = none := Option.map_eq_none_iff.mp h
      rw [TcpEvent.exec, TcpCall.exec, tcpSocketClose, get_bind_apply, hi]
      rfl

/-- A create takes the next port for the free socket, and a close gives the port of its socket
back. -/
theorem portOp_eq_some {e : TcpEvent} {op : CyclicNames.Op (Fin maxTcpSockets)}
    (h : e.portOp m = some op) :
    (∃ i, e = .call .create ∧ freeSocket m = some i ∧ op = .take i) ∨
      ∃ socketId i, e = .call (.close socketId) ∧ activeSocket m socketId = some i ∧
        op = .giveBack i := by
  cases e with
  | packet p => cases h
  | call c =>
    cases c with
    | create =>
      obtain ⟨i, hi, hop⟩ := Option.map_eq_some_iff.mp h
      exact Or.inl ⟨i, rfl, hi, hop.symm⟩
    | close socketId =>
      obtain ⟨i, hi, hop⟩ := Option.map_eq_some_iff.mp h
      exact Or.inr ⟨socketId, i, rfl, hi, hop.symm⟩
    | connect socketId dstIp dstPort => cases h
    | send socketId payload => cases h
    | recv socketId buf maxLen => cases h

theorem portStep_of_none {e : TcpEvent} (h : e.portOp r.machine = none) :
    portStep r e = ⟨e.exec r.machine, r.pool⟩ := by
  rw [portStep, h]
  rfl

theorem portStep_of_some {e : TcpEvent} {op : CyclicNames.Op (Fin maxTcpSockets)}
    (h : e.portOp r.machine = some op) :
    portStep r e = ⟨e.exec r.machine, CyclicNames.step r.pool op⟩ := by
  rw [portStep, h]
  rfl

namespace PortRun.Numbered

theorem create (h : r.Numbered) {i : Fin maxTcpSockets} (hi : freeSocket r.machine = some i) :
    PortRun.Numbered ⟨(tcpSocketCreate r.machine).state, CyclicNames.step r.pool (.take i)⟩ := by
  obtain ⟨s, hactive, -, hport, -, hsockets, hcounter⟩ := create_apply hi
  have hfree : r.pool.held i = none := by
    have hoff := freeSocket_eq_some hi
    rw [h.active] at hoff
    simpa using hoff
  rw [CyclicNames.step_take_of_free hfree]
  constructor
  · rw [hcounter, h.counter, nextPort_ephemeralPort]
  · intro j
    rw [hsockets]
    by_cases hj : j = i
    · subst hj
      simp [hactive]
    · simp [Function.update_of_ne hj, h.active j]
  · intro j k hk
    rw [hsockets]
    by_cases hj : j = i
    · subst hj
      obtain rfl : r.pool.made = k := by simpa using hk
      simpa [hport] using h.counter
    · simp only [Function.update_of_ne hj] at hk ⊢
      exact h.port j k hk

theorem close (h : r.Numbered) {socketId : UInt64} {i : Fin maxTcpSockets}
    (hi : activeSocket r.machine socketId = some i) :
    PortRun.Numbered
      ⟨(tcpSocketClose socketId r.machine).state, CyclicNames.step r.pool (.giveBack i)⟩ := by
  rw [close_apply hi, CyclicNames.step]
  constructor
  · exact h.counter
  · intro j
    by_cases hj : j = i
    · subst hj
      simp [Machine.afterClose, Machine.setSocket]
    · simp [Machine.afterClose, Machine.setSocket, Function.update_of_ne hj, h.active j]
  · intro j k hk
    by_cases hj : j = i
    · subst hj
      simp at hk
    · simp only [Function.update_of_ne hj] at hk
      simpa [Machine.afterClose, Machine.setSocket, Function.update_of_ne hj] using h.port j k hk

theorem step (h : r.Numbered) (e : TcpEvent) : (portStep r e).Numbered := by
  cases hop : e.portOp r.machine with
  | none =>
    have hview := portView_exec hop
    have hsocket : ∀ i, ((e.exec r.machine).sockets i).active = (r.machine.sockets i).active ∧
        ((e.exec r.machine).sockets i).localPort = (r.machine.sockets i).localPort :=
      fun i => Prod.mk.inj (congrFun (congrArg Prod.fst hview) i)
    rw [portStep_of_none hop]
    constructor
    · exact (congrArg Prod.snd hview).trans h.counter
    · exact fun i => (hsocket i).1.trans (h.active i)
    · exact fun i k hk => (hsocket i).2.trans (h.port i k hk)
  | some op =>
    rw [portStep_of_some hop]
    obtain ⟨i, rfl, hi, rfl⟩ | ⟨socketId, i, rfl, hi, rfl⟩ := portOp_eq_some hop
    · exact h.create hi
    · exact h.close hi

theorem createsInTime_iff (h : r.Numbered) (e : TcpEvent) :
    CreatesInTime r e ↔
      ∀ op, e.portOp r.machine = some op → CyclicNames.Timely portCount r.pool op := by
  constructor
  · intro ht op hop
    obtain ⟨i, rfl, hi, rfl⟩ | ⟨socketId, i, rfl, hi, rfl⟩ := portOp_eq_some hop
    · exact fun _ => ht rfl ⟨i, freeSocket_eq_some hi⟩
    · trivial
  · intro ht he hfree
    obtain ⟨i, hi⟩ := Option.isSome_iff_exists.mp (isSome_freeSocket.mpr hfree)
    have hnone : r.pool.held i = none := by
      have hoff := freeSocket_eq_some hi
      rw [h.active] at hoff
      simpa using hoff
    subst he
    apply ht (.take i) _ hnone
    rw [TcpEvent.portOp, hi]
    rfl

end PortRun.Numbered

/-- The invariant of a run whose creates were in time. -/
structure PortRun.InWindow (r : PortRun) : Prop where
  numbered : r.Numbered
  window : CyclicNames.Window portCount r.pool

theorem PortRun.InWindow.portsOk_step_iff (h : r.InWindow) (e : TcpEvent) :
    PortsOk (portStep r e).machine ↔ CreatesInTime r e := by
  rw [(h.numbered.step e).portsOk_iff, h.numbered.createsInTime_iff]
  cases hop : e.portOp r.machine with
  | none =>
    rw [portStep_of_none hop]
    exact iff_of_true h.window.distinct nofun
  | some op =>
    rw [portStep_of_some hop]
    rw [CyclicNames.distinct_step_iff h.window (by decide)]
    simp

theorem PortRun.InWindow.step (h : r.InWindow) {e : TcpEvent} (ht : CreatesInTime r e) :
    (portStep r e).InWindow := by
  refine ⟨h.numbered.step e, ?_⟩
  rw [h.numbered.createsInTime_iff] at ht
  cases hop : e.portOp r.machine with
  | none =>
    rw [portStep_of_none hop]
    exact h.window
  | some op =>
    rw [portStep_of_some hop]
    exact CyclicNames.window_step h.window (by decide) (ht op hop)

end

/-! ### Runs -/

/-- After `tcp_init`, the active sockets have different ephemeral ports throughout a run exactly
when every create that finds a free socket finds all active sockets among the last 16378 created. -/
theorem portsOk_run_iff {m : Machine}
    (hport : 49152 ≤ m.nextEphemeralPort ∧ m.nextEphemeralPort ≤ 65530) (events : List TcpEvent) :
    (∀ pre, pre <+: events → PortsOk (run TcpEvent.exec (tcpInit m).state pre)) ↔
      AllSteps portStep CreatesInTime (PortRun.start m) events := by
  have hstart : (PortRun.start m).InWindow := by
    refine ⟨PortRun.Numbered.start hport, CyclicNames.window_of_free fun _ => rfl⟩
  have hinit : PortsOk (PortRun.start m).machine :=
    hstart.numbered.portsOk_iff.mpr hstart.window.distinct
  have hmachine : ∀ pre, run TcpEvent.exec (tcpInit m).state pre =
      (run portStep (PortRun.start m) pre).machine :=
    fun pre => (run_hom (f := PortRun.machine) portStep (fun _ _ => rfl) (PortRun.start m) pre).symm
  simp only [hmachine]
  rw [forall_prefix_iff portStep (I := fun r => PortsOk r.machine) hinit]
  exact allSteps_congr portStep (fun _ e h => h.portsOk_step_iff e) (fun _ _ h ht => h.step ht)
    hstart events

theorem portsOk_run_iff_open :
    PortsOk (run TcpEvent.exec (tcpInit sampleMachine).state [.call .create, .call .create]) := by
  refine (portsOk_run_iff (by decide) _).mpr ?_ _ (List.prefix_refl _)
  simp only [allSteps_cons, allSteps_nil, and_true]
  constructor
  · intro _ _ i k hk
    cases hk
  · intro _ _ i k _
    have hmade : (portStep (PortRun.start sampleMachine) (.call .create)).pool.made = 1 := by
      decide +kernel
    have hcount : portCount = 16379 := rfl
    omega

/-! ### A socket that stays open -/

/-- The first socket is open with the first port, and no other is open. -/
structure OnlyFirst (k : ℕ) (m : Machine) : Prop where
  first : (m.sockets 0).active = true ∧ (m.sockets 0).localPort = ephemeralPort 0
  others : ∀ i, i ≠ 0 → (m.sockets i).active = false
  counter : m.nextEphemeralPort = ephemeralPort k

section

variable {m : Machine} {k : ℕ}

theorem OnlyFirst.freeSocket (h : OnlyFirst k m) : freeSocket m = some 1 := by
  have hactive : (fun i => !(m.sockets i).active) = fun i => decide (i ≠ 0) := by
    ext i
    by_cases hi : i = 0
    · subst hi
      simp [h.first.1]
    · simp [h.others i hi, hi]
  rw [StyxOS.freeSocket, hactive]
  decide

theorem OnlyFirst.churn (h : OnlyFirst k m) :
    OnlyFirst (k + 1) (run TcpEvent.exec m [.call .create, .call (.close 1)]) := by
  obtain ⟨s, hactive, -, -, -, hsockets, hcounter⟩ := create_apply h.freeSocket
  have hopen : activeSocket (tcpSocketCreate m).state 1 = some 1 := by
    apply activeSocket_of_active rfl
    rw [hsockets, Function.update_self, hactive]
  have hfirst : (tcpSocketCreate m).state.sockets 0 = m.sockets 0 := by
    rw [hsockets, Function.update_of_ne (by decide)]
  simp only [run_cons, run_nil, TcpEvent.exec, TcpCall.exec, close_apply hopen]
  rw [Machine.afterClose, Machine.setSocket, hsockets, Function.update_idem]
  constructor
  · simpa using h.first
  · intro i hi
    by_cases hone : i = 1
    · subst hone
      simp
    · simpa [Function.update_of_ne hone] using h.others i hi
  · rw [hcounter, h.counter, nextPort_ephemeralPort]

theorem OnlyFirst.churns (h : OnlyFirst k m) (n : ℕ) : OnlyFirst (k + n) (run TcpEvent.exec m
    (List.replicate n [TcpEvent.call .create, .call (.close 1)]).flatten) := by
  induction n generalizing k m with
  | zero => exact h
  | succ n ih =>
    rw [List.replicate_succ, List.flatten_cons, run_append, ← Nat.add_assoc, Nat.add_right_comm]
    exact ih h.churn

theorem OnlyFirst.not_portsOk_create (h : OnlyFirst portCount m) :
    ¬ PortsOk (tcpSocketCreate m).state := by
  obtain ⟨s, hactive, -, hport, -, hsockets, -⟩ := create_apply h.freeSocket
  have hfirst : (tcpSocketCreate m).state.sockets 0 = m.sockets 0 := by
    rw [hsockets, Function.update_of_ne (by decide)]
  have hsecond : (tcpSocketCreate m).state.sockets 1 = s := by
    rw [hsockets, Function.update_self]
  intro hok
  have hsame : (0 : Fin maxTcpSockets) = 1 := by
    apply hok.distinct
    · rw [hfirst]
      exact h.first.1
    · rw [hsecond]
      exact hactive
    · rw [hfirst, hsecond, h.first.2, hport, h.counter]
      exact ephemeralPort_eq_iff.mpr (Nat.mod_self _).symm
  exact absurd hsame (by decide)

theorem OnlyFirst.not_portsOk_churns {n : ℕ} (h : OnlyFirst k m) (hn : k + n = portCount) :
    ¬ PortsOk (run TcpEvent.exec m
      ((List.replicate n [TcpEvent.call .create, .call (.close 1)]).flatten ++
        [.call .create])) := by
  have hround := h.churns n
  rw [hn] at hround
  rw [run_append]
  exact hround.not_portsOk_create

end

/-- One socket stays open while another is opened and closed 16378 times; the next create gives
the port of the first away. -/
theorem not_portsOk_run : ¬ PortsOk (run TcpEvent.exec (tcpInit sampleMachine).state
    ([.call .create] ++
      ((List.replicate 16378 [TcpEvent.call .create, .call (.close 1)]).flatten ++
        [.call .create]))) := by
  have hstart : OnlyFirst 1
      (run TcpEvent.exec (tcpInit sampleMachine).state [.call .create]) := by
    obtain ⟨s, hactive, -, hport, -, hsockets, hcounter⟩ :=
      create_apply (m := (tcpInit sampleMachine).state) (j := 0) rfl
    rw [run_cons, run_nil, TcpEvent.exec, TcpCall.exec]
    constructor
    · rw [hsockets, Function.update_self, hport]
      exact ⟨hactive, rfl⟩
    · intro i hi
      rw [hsockets, Function.update_of_ne hi]
      rfl
    · rw [hcounter]
      rfl
  rw [run_append]
  exact hstart.not_portsOk_churns (by decide)

end StyxOS
