import StyxOS.Net.Tcp

/-! # Tor cells

What `SYS_TOR_CELL` puts into the cell that it sends, and what a receiver who holds
the keys of the circuit gets back out of it.
-/

namespace StyxOS

open Access ByteMem

/-! ### The payload -/

/-- The bytes in the caller's memory from an address on. -/
def Machine.userBytes (m : Machine) (a : UInt64) (n : ℕ) : List UInt8 :=
  (List.range n).map fun i => m.kernel.memory.view m.kernel.sched.cr3 (a + UInt64.ofNat i).toNat

/-- The payload of a `SYS_TOR_CELL`; a null pointer is none. -/
def Machine.cellPayload (m : Machine) (payload : UInt64) (len : ℕ) : List UInt8 :=
  if payload = 0 then [] else m.userBytes payload len

section

variable {m : Machine} {payload : UInt64} {len : UInt16} {n : ℕ}

@[simp] theorem Machine.length_userBytes (a : UInt64) (n : ℕ) : (m.userBytes a n).length = n := by
  simp [Machine.userBytes]

theorem Machine.userBytes_succ (a : UInt64) (n : ℕ) : m.userBytes a (n + 1) =
    m.kernel.memory.view m.kernel.sched.cr3 a.toNat :: m.userBytes (a + 1) n := by
  have hnext : ∀ i, (a + UInt64.ofNat (i + 1)).toNat = (a + 1 + UInt64.ofNat i).toNat := by
    intro i
    rw [UInt64.add_assoc, UInt64.ofNat_add, UInt64.add_comm (UInt64.ofNat i)]
    rfl
  simp only [Machine.userBytes, List.range_succ_eq_map, List.map_cons, List.map_map,
    Function.comp_def, Nat.succ_eq_add_one, hnext]
  simp

theorem Machine.take_userBytes (a : UInt64) {k : ℕ} (h : k ≤ n) :
    (m.userBytes a n).take k = m.userBytes a k := by
  simp [Machine.userBytes, ← List.map_take, List.take_range, Nat.min_eq_left h]

theorem value_copyIn_of_reads {a : UInt64} (h : m.Reads a n) :
    (copyIn a n m).value = some (m.userBytes a n) := by
  induction n generalizing a with
  | zero => rfl
  | succ n ih =>
    obtain ⟨hv, hs⟩ := readByte_of_readable (m := m) (Covers.head h)
    rw [copyIn, value_bind_of_some hv, hs, value_bind_of_some (ih (Covers.tail h)),
      Machine.userBytes_succ]
    rfl

theorem torCopyLen_eq (len : UInt16) : torCopyLen len = min 498 len.toNat := by
  have h498 : (498 : UInt16).toNat = 498 := rfl
  unfold torCopyLen
  split
  · next h =>
    have hlt := UInt16.lt_iff_toNat_lt.mp h
    omega
  · next h =>
    have hle := Nat.not_lt.mp (mt UInt16.lt_iff_toNat_lt.mpr h)
    omega

theorem value_torPayload_of_reads (h : payload ≠ 0 → m.Reads payload (torCopyLen len)) :
    (torPayload payload (torCopyLen len) m).value =
      some ((m.cellPayload payload len.toNat).take 498) := by
  unfold torPayload Machine.cellPayload
  by_cases hnull : payload = 0
  · simp [hnull]
  · have hcut : (m.userBytes payload len.toNat).take 498 =
        m.userBytes payload (torCopyLen len) := by
      rw [torCopyLen_eq, ← Machine.take_userBytes payload (Nat.min_le_right 498 len.toNat),
        List.take_eq_take_iff, Machine.length_userBytes]
      omega
    rw [if_neg hnull, hcut]
    split
    · exact value_copyIn_of_reads (h hnull)
    · next hzero =>
      obtain hlen : torCopyLen len = 0 := by
        by_contra hpos
        exact hzero ⟨hnull, Nat.pos_of_ne_zero hpos⟩
      rw [hlen]
      rfl

/-! ### The cell -/

/-- A payload as a cell holds it, cut or filled with zeros. -/
def inCell (payload : List UInt8) : List UInt8 :=
  fillTo 498 (payload.take 498) (List.replicate 498 0)

def sealedCell (circuit : TorCircuit) (cellsSent : UInt32) (payload : List UInt8) : List UInt8 :=
  torOnion circuit (cellsSent + 1) (torCell circuit (payload.take 498))

/-- What a receiver finds under the three layers. -/
def torPeel (circuit : TorCircuit) (count : UInt32) (cell : List UInt8) : List UInt8 :=
  let nonce := be32 circuit.circuitId ++ be32 count ++ List.replicate 4 0
  let body := chacha20Encrypt circuit.entryKey nonce 1 (cell.drop 5)
  let body := chacha20Encrypt circuit.middleKey nonce 1 body
  chacha20Encrypt circuit.exitKey nonce 1 body

theorem torPeel_torOnion (circuit : TorCircuit) (count : UInt32) {cell : List UInt8}
    (h : cell.length = torCellSize) : torPeel circuit count (torOnion circuit count cell) =
      cell.drop 5 := by
  have hsize : torCellSize = 512 := rfl
  have hhead : (cell.take 5).length = 5 := by simp [h, hsize]
  simp only [torPeel, torOnion, List.drop_left' hhead, chacha20Encrypt_chacha20Encrypt]

theorem drop_torCell (circuit : TorCircuit) (payload : List UInt8) :
    (torCell circuit (payload.take 498)).drop 5 = List.replicate 9 0 ++ inCell payload := by
  have hhead : (be32 circuit.circuitId ++ [0x03]).length = 5 := by simp
  have hcut : (payload.take 498).length ≤ 498 := List.length_take_le 498 payload
  have hsize : torCellSize - 5 = 507 := rfl
  rw [torCell, List.drop_take, hsize, List.append_assoc, List.append_assoc,
    List.drop_left' hhead, inCell, fillTo]
  simp only [List.take_append, List.length_replicate, List.take_replicate]
  generalize payload.take 498 = bs at *
  rw [List.take_of_length_le (by omega)]
  congr 3
  simp only [torCellSize]
  omega

theorem torPeel_sealedCell (circuit : TorCircuit) (cellsSent : UInt32) (payload : List UInt8) :
    torPeel circuit (cellsSent + 1) (sealedCell circuit cellsSent payload) =
      List.replicate 9 0 ++ inCell payload := by
  rw [sealedCell, torPeel_torOnion circuit (cellsSent + 1) (length_torCell circuit _), drop_torCell]

theorem take_torCell (circuit : TorCircuit) (payload : List UInt8) :
    (torCell circuit payload).take 5 = be32 circuit.circuitId ++ [0x03] := by
  have hhead : (be32 circuit.circuitId ++ [0x03]).length = 5 := by simp
  rw [torCell, List.take_take, List.append_assoc, List.append_assoc]
  exact List.take_left' hhead

theorem sealedCell_eq_iff {circuit : TorCircuit} {cellsSent : UInt32} {bs bs' : List UInt8} :
    sealedCell circuit cellsSent bs = sealedCell circuit cellsSent bs' ↔
      inCell bs = inCell bs' := by
  constructor
  · intro h
    have hpeel := congrArg (torPeel circuit (cellsSent + 1)) h
    rw [torPeel_sealedCell, torPeel_sealedCell] at hpeel
    exact List.append_cancel_left hpeel
  · intro h
    simp only [sealedCell, torOnion, take_torCell, drop_torCell, h]

/-! ### Sending it -/

theorem torSendCell_of_reads (hmac : m.anonymizedMac.length = 6)
    (hup : m.torCircuit.established = true)
    (hr : payload ≠ 0 → m.Reads payload (torCopyLen len)) :
    ∃ frame, netBuildUdp (torFlow m.anonymizedMac)
        (sealedCell m.torCircuit m.torCellsSent (m.cellPayload payload len.toNat)) = some frame ∧
      (torSendCell payload len torCapabilityToken m).value = some true ∧
      (torSendCell payload len torCapabilityToken m).state.nic =
        (sendIfActive frame m).state.nic := by
  have hv := value_torPayload_of_reads hr
  have hs := (torPayload_of_reads hr).2
  have honion := length_torOnion m.torCircuit (m.torCellsSent + 1)
    (length_torCell m.torCircuit ((m.cellPayload payload len.toNat).take 498))
  obtain ⟨frame, hframe, -⟩ := length_udpFrame (f := torFlow m.anonymizedMac) hmac rfl
    (by rw [honion]; decide) (by rw [honion]; decide)
  obtain ⟨⟨ok, hok⟩, -⟩ := sendIfActive_torCellsSent (m := m) frame
  refine ⟨frame, hframe, ?_⟩
  rw [torSendCell, get_bind_apply, if_neg (not_not_intro rfl), if_neg (by simp [hup]),
    value_bind_of_some hv, state_bind_of_some hv, hs, hframe]
  dsimp only
  rw [value_bind_of_some hok, state_bind_of_some hok]
  exact ⟨rfl, rfl⟩

theorem torSendCell_of_idle {capToken : UInt32}
    (h : ¬(capToken = torCapabilityToken ∧ m.torCircuit.established = true ∧
      (payload ≠ 0 → m.Reads payload (torCopyLen len)))) :
    (torSendCell payload len capToken m).value ≠ some true ∧
      (torSendCell payload len capToken m).state.nic = m.nic := by
  rw [torSendCell, get_bind_apply]
  by_cases htoken : capToken = torCapabilityToken
  · rw [if_neg (not_not_intro htoken)]
    cases hup : m.torCircuit.established with
    | false => exact ⟨by simp, rfl⟩
    | true =>
      have hno : ¬(payload ≠ 0 → m.Reads payload (torCopyLen len)) :=
        fun hr => h ⟨htoken, hup, hr⟩
      have hnone := value_torPayload_of_not_reads hno
      rw [if_neg (by simp), value_bind_of_none hnone, state_bind_of_none hnone]
      have hkeep : (torPayload payload (torCopyLen len) m).state.network = m.network :=
        keeps_torPayload apart_network m
      exact ⟨by simp, congrArg (fun x => x.2.2) hkeep⟩
  · rw [if_pos htoken]
    exact ⟨by simp, rfl⟩

theorem sent_sendIfActive {frame : List UInt8} (h₀ : frame.length ≠ 0)
    (h₁ : frame.length ≤ e1000BufferSize) : (sendIfActive frame m).state.nic.sent =
      if m.NicAccepts then m.nic.sent ++ [frame] else m.nic.sent := by
  rw [sendIfActive, get_bind_apply]
  cases hactive : m.nic.active with
  | false => simp [Machine.NicAccepts, hactive]
  | true => exact sent_sendFrame_eq h₀ h₁

theorem udpFrame_parts {f : Flow} (hsrc : f.srcMac.length = 6) (hdst : f.dstMac.length = 6)
    {bs frame : List UInt8} (h : netBuildUdp f bs = some frame) :
    frame.length = 42 + bs.length ∧ frame.take 6 = f.dstMac ∧ frame.drop 42 = bs := by
  unfold netBuildUdp at h
  split at h
  · cases h
  · dsimp only at h
    rw [Option.some.injEq] at h
    subst h
    refine ⟨?_, ?_, ?_⟩
    · simp [ethHeader, ipHeader, hsrc, hdst]
      omega
    · simp only [ethHeader, List.append_assoc, List.take_left' hdst]
    · apply List.drop_left'
      simp [ethHeader, ipHeader, hsrc, hdst]

theorem length_sealedCell (circuit : TorCircuit) (cellsSent : UInt32) (bs : List UInt8) :
    (sealedCell circuit cellsSent bs).length = torCellSize :=
  length_torOnion circuit (cellsSent + 1) (length_torCell circuit (bs.take 498))

/-- What the card is handed by a call that is not idle. -/
theorem sent_torSendCell (hmac : m.anonymizedMac.length = 6)
    (hup : m.torCircuit.established = true)
    (hr : payload ≠ 0 → m.Reads payload (torCopyLen len)) :
    ∃ frame, netBuildUdp (torFlow m.anonymizedMac)
        (sealedCell m.torCircuit m.torCellsSent (m.cellPayload payload len.toNat)) = some frame ∧
      (torSendCell payload len torCapabilityToken m).state.nic.sent =
        if m.NicAccepts then m.nic.sent ++ [frame] else m.nic.sent := by
  obtain ⟨frame, hframe, -, hnic⟩ := torSendCell_of_reads hmac hup hr
  have hlen := (udpFrame_parts hmac rfl hframe).1
  have hsize : torCellSize = 512 := rfl
  have hbuffer : e1000BufferSize = 2048 := rfl
  rw [length_sealedCell] at hlen
  refine ⟨frame, hframe, ?_⟩
  rw [hnic, sent_sendIfActive (by omega) (by omega)]

end

/-! ### Decoding it -/

/-- A `SYS_TOR_CELL` reports success and hands the card a frame with the cell. -/
def SendsCell (table : UInt64) (m : Machine) (args : SysArgs) (cell : List UInt8) : Prop :=
  (sysTorCell table args m).value = some sysretOk ∧
    ∃ frame, (sysTorCell table args m).state.nic.sent = m.nic.sent ++ [frame] ∧
      cell = frame.drop 42

/-- The payload of the call. -/
def SysArgs.payload (args : SysArgs) (m : Machine) : List UInt8 :=
  m.cellPayload args.arg1 args.arg2.toNat

section

variable {table : UInt64} {m : Machine} {args : SysArgs} {cell : List UInt8}

theorem sysTorCell_apply (hr : Sys.torCell.refused m.kernel.caps table args.arg0 = false)
    (hp : Sys.torCell.Passes args) :
    (sysTorCell table args m).value =
        ((torSendCell args.arg1 args.arg2.toUInt16 torCapabilityToken m).value.map fun ok =>
          if ok then sysretOk else -1) ∧
      (sysTorCell table args m).state =
        (torSendCell args.arg1 args.arg2.toUInt16 torCapabilityToken m).state := by
  obtain ⟨slot, hl⟩ := Sys.lookup_of_not_refused rfl hr
  have hlen : ¬ args.arg2 > 512 := UInt64.not_lt.mpr hp.2
  rw [sysTorCell, withEndpoint_of_ok hl, if_neg (by simp [hp.1, hlen]), state_bind_pure]
  refine ⟨?_, rfl⟩
  cases hv : (torSendCell args.arg1 args.arg2.toUInt16 torCapabilityToken m).value with
  | none => rw [value_bind_of_none hv, Option.map_none]
  | some ok =>
    rw [value_bind_of_some hv]
    rfl

theorem sendsCell_iff (hmac : m.anonymizedMac.length = 6) : SendsCell table m args cell ↔
    Sys.torCell.refused m.kernel.caps table args.arg0 = false ∧ Sys.torCell.Passes args ∧
      Sys.torCell.ActsOnNetwork m args ∧ m.NicAccepts ∧
      cell = sealedCell m.torCircuit m.torCellsSent (args.payload m) := by
  cases hr : Sys.torCell.refused m.kernel.caps table args.arg0 with
  | true =>
    have hrun : Sys.torCell.run sampleLayout zeroRegs table args m = _ := Sys.run_of_refused hr
    change sysTorCell table args m = _ at hrun
    rw [SendsCell, hrun]
    simp
  | false =>
    by_cases hp : Sys.torCell.Passes args
    · obtain ⟨hvalue, hstate⟩ := sysTorCell_apply hr hp
      have hlen : args.arg2.toUInt16.toNat = args.arg2.toNat := toNat_toUInt16_cellLen hp.2
      rw [SendsCell, hvalue, hstate]
      by_cases hacts : Sys.torCell.ActsOnNetwork m args
      · obtain ⟨frame, hframe, hsent⟩ := sent_torSendCell hmac hacts.1 hacts.2
        obtain ⟨frame', hframe', htrue, -⟩ := torSendCell_of_reads hmac hacts.1 hacts.2
        have hcell := (udpFrame_parts hmac rfl hframe).2.2
        rw [hlen] at hcell
        rw [htrue, hsent]
        by_cases hnic : m.NicAccepts
        · simp [hp, hacts, hnic, hcell, SysArgs.payload]
        · simp [hnic]
      · have hidle : (torSendCell args.arg1 args.arg2.toUInt16 torCapabilityToken m).state.nic =
            m.nic := (torSendCell_of_idle fun h => hacts ⟨h.2.1, h.2.2⟩).2
        rw [hidle]
        simp [hacts]
    · have hrun : Sys.torCell.run sampleLayout zeroRegs table args m = _ :=
        Sys.run_of_not_passes hr hp
      change sysTorCell table args m = _ at hrun
      rw [SendsCell, hrun]
      simp [hp]

/-- The receiver finds the payload of a call cut to 498 bytes or filled with zeros, and two payloads
that differ give two cells exactly when that leaves a difference. -/
theorem cells_decodable_iff {table' : UInt64} {m' : Machine} {args' : SysArgs} {cell' : List UInt8}
    (hmac : m.anonymizedMac.length = 6) (hmac' : m'.anonymizedMac.length = 6)
    (hcircuit : m'.torCircuit = m.torCircuit) (hcount : m'.torCellsSent = m.torCellsSent)
    (h : SendsCell table m args cell) (h' : SendsCell table' m' args' cell') :
    torPeel m.torCircuit (m.torCellsSent + 1) cell =
        List.replicate 9 0 ++ inCell (args.payload m) ∧
      ((args.payload m ≠ args'.payload m' → cell ≠ cell') ↔
        args.payload m = args'.payload m' ∨
          inCell (args.payload m) ≠ inCell (args'.payload m')) := by
  obtain ⟨-, -, -, -, rfl⟩ := (sendsCell_iff hmac).mp h
  obtain ⟨-, -, -, -, rfl⟩ := (sendsCell_iff hmac').mp h'
  constructor
  · exact torPeel_sealedCell m.torCircuit m.torCellsSent (args.payload m)
  · rw [hcircuit, hcount, Ne, Ne, sealedCell_eq_iff, or_iff_not_imp_left]

/-- A machine with an established circuit, whose card takes every frame. -/
def cellSample : Machine :=
  { tcpSample fun _ => true with
    torCircuit :=
      { circuitId := 0x1000
        entryKey := List.replicate 32 1
        middleKey := List.replicate 32 2
        exitKey := List.replicate 32 3
        established := true } }

/-- A `SYS_TOR_CELL` of so many bytes from the page at 0x4000. -/
def cellArgs (len : UInt64) : SysArgs := ⟨0, 0x4000, len, 0⟩

theorem sendsCell_sample {len : UInt64} (h : Sys.torCell.Passes (cellArgs len)) :
    SendsCell (cellSample.kernel.sched.taskTable 1).capTable cellSample (cellArgs len)
      (sealedCell cellSample.torCircuit 0 ((cellArgs len).payload cellSample)) := by
  have hlet : Sys.torCell.refused cellSample.kernel.caps
      (cellSample.kernel.sched.taskTable 1).capTable 0 = false := by decide
  have hnic : cellSample.NicAccepts := by decide
  have hacts : Sys.torCell.ActsOnNetwork cellSample (cellArgs len) := ⟨rfl, fun _ _ _ => rfl⟩
  exact (sendsCell_iff rfl).mpr ⟨hlet, h, hacts, hnic, rfl⟩

theorem cells_decodable_iff_sample :
    ∃ cell cell', (cellArgs 0).payload cellSample ≠ (cellArgs 1).payload cellSample ∧ cell ≠ cell' ∧
      torPeel cellSample.torCircuit 1 cell =
        List.replicate 9 0 ++ inCell ((cellArgs 0).payload cellSample) := by
  have hpasses : Sys.torCell.Passes (cellArgs 0) ∧ Sys.torCell.Passes (cellArgs 1) := by
    unfold Sys.Passes
    decide
  have hdiffer : inCell ((cellArgs 0).payload cellSample) ≠
      inCell ((cellArgs 1).payload cellSample) := by decide +kernel
  have hne : (cellArgs 0).payload cellSample ≠ (cellArgs 1).payload cellSample :=
    fun h => hdiffer (congrArg inCell h)
  obtain ⟨hpeel, hiff⟩ := cells_decodable_iff rfl rfl rfl rfl (sendsCell_sample hpasses.1)
    (sendsCell_sample hpasses.2)
  exact ⟨_, _, hne, hiff.mpr (.inr hdiffer) hne, hpeel⟩

/-- Two payloads of 499 and of 500 bytes are accepted in the same state and give the same cell. -/
theorem cells_not_decodable : ∃ cell,
    SendsCell (cellSample.kernel.sched.taskTable 1).capTable cellSample (cellArgs 499) cell ∧
      SendsCell (cellSample.kernel.sched.taskTable 1).capTable cellSample (cellArgs 500) cell ∧
      (cellArgs 499).payload cellSample ≠ (cellArgs 500).payload cellSample := by
  have hpasses : Sys.torCell.Passes (cellArgs 499) ∧ Sys.torCell.Passes (cellArgs 500) := by
    unfold Sys.Passes
    decide
  have hcell : sealedCell cellSample.torCircuit 0 ((cellArgs 499).payload cellSample) =
      sealedCell cellSample.torCircuit 0 ((cellArgs 500).payload cellSample) := by
    rw [sealedCell_eq_iff]
    decide +kernel
  have h500 := sendsCell_sample hpasses.2
  rw [← hcell] at h500
  refine ⟨_, sendsCell_sample hpasses.1, h500, fun h => ?_⟩
  have hlen := congrArg List.length h
  simp [SysArgs.payload, Machine.cellPayload, cellArgs] at hlen

end

end StyxOS
