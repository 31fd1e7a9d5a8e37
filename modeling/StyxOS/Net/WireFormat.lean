import StyxOS.Library.Layout
import StyxOS.Library.OnesComplement
import StyxOS.Net.Frame

/-! # The frames on the wire

`net_build_udp` and `net_build_tcp` with the frame in memory, where a header is
first written with a checksum of zero, summed, and completed. Every frame has
its lengths and its checksums right, and carries what it was built from.
-/

namespace StyxOS

open ByteMem

/-! ## The sum of a packet -/

/-- The 16-bit words of a packet; an odd byte at the end is followed by a zero. -/
def packetWords : List UInt8 → List ℕ
  | [] => []
  | [b] => [256 * b.toNat]
  | b :: c :: bs => (256 * b.toNat + c.toNat) :: packetWords bs

/-- The one's complement sum of the words of a packet. -/
def packetSum (bs : List UInt8) : ℕ := OnesComplement.sum (2 ^ 16) (packetWords bs)

theorem packetWords_lt (bs : List UInt8) : ∀ w ∈ packetWords bs, w < 2 ^ 16 := by
  fun_induction packetWords bs with
  | case1 => simp
  | case2 b =>
    have hb := b.toNat_lt
    simp only [List.mem_singleton, forall_eq]
    omega
  | case3 b c bs ih =>
    have hb := b.toNat_lt
    have hc := c.toNat_lt
    simp only [List.mem_cons, forall_eq_or_imp]
    exact ⟨by omega, ih⟩

theorem packetWords_append {as : List UInt8} (bs : List UInt8) (h : Even as.length) :
    packetWords (as ++ bs) = packetWords as ++ packetWords bs := by
  fun_induction packetWords as with
  | case1 => rfl
  | case2 b => simp at h
  | case3 b c as ih =>
    rw [List.cons_append, List.cons_append, packetWords, List.cons_append, ih]
    simpa [Nat.even_add_one] using h

theorem sum_packetWords_append {as : List UInt8} (bs : List UInt8) (h : Even as.length) :
    (packetWords (as ++ bs)).sum = (packetWords as).sum + (packetWords bs).sum := by
  rw [packetWords_append bs h, List.sum_append]

theorem sum_packetWords_be16 (v : UInt16) : (packetWords (be16 v)).sum = v.toNat := by
  have hv := v.toNat_lt
  have hbytes : be16 v = [UInt8.ofNat (v.toNat / 256), UInt8.ofNat v.toNat] := rfl
  rw [hbytes]
  simp only [packetWords, UInt8.toNat_ofNat', List.sum_singleton]
  omega

theorem toNat_shiftLeft_8 (b : UInt8) : (b.toUInt32 <<< 8).toNat = b.toNat <<< 8 := by
  have hb := b.toNat_lt
  have height : 2 ^ ((8 : UInt32).toNat % 32) = 256 := rfl
  rw [UInt32.toNat_shiftLeft, UInt8.toNat_toUInt32, Nat.shiftLeft_eq, Nat.shiftLeft_eq, height]
  exact Nat.mod_eq_of_lt (by omega)

theorem toNat_word (b c : UInt8) :
    (b.toUInt32 <<< 8 ||| c.toUInt32).toNat = 256 * b.toNat + c.toNat := by
  have hc := c.toNat_lt
  rw [UInt32.toNat_or, toNat_shiftLeft_8, UInt8.toNat_toUInt32,
    ← Nat.shiftLeft_add_eq_or_of_lt hc, Nat.shiftLeft_eq, Nat.mul_comm]

theorem toNat_wordSum (bs : List UInt8) (h : bs.length ≤ 2 ^ 16) :
    (wordSum bs).toNat = (packetWords bs).sum ∧
      2 * (packetWords bs).sum ≤ 2 ^ 16 * (bs.length + 1) := by
  fun_induction wordSum bs with
  | case1 => exact ⟨rfl, by simp [packetWords]⟩
  | case2 b =>
    have hb := b.toNat_lt
    rw [toNat_shiftLeft_8, packetWords, List.sum_singleton, List.length_singleton, Nat.shiftLeft_eq]
    omega
  | case3 b c bs ih =>
    have hb := b.toNat_lt
    have hc := c.toNat_lt
    simp only [List.length_cons] at h ⊢
    obtain ⟨hsum, hle⟩ := ih (by omega)
    rw [UInt32.toNat_add, toNat_word, hsum, packetWords, List.sum_cons]
    omega

/-! ## Checksums -/

theorem dvd_add_finishChecksum (sum : UInt32) :
    2 ^ 16 - 1 ∣ sum.toNat + (finishChecksum sum).toNat := by
  have hlt := foldCarry_foldCarry_lt sum
  have hfold : ∀ s : UInt32, (foldCarry s).toNat = OnesComplement.fold (2 ^ 16) s.toNat :=
    toNat_foldCarry
  have hmod : (foldCarry (foldCarry sum)).toNat ≡ sum.toNat [MOD 2 ^ 16 - 1] := by
    rw [hfold, hfold]
    exact (OnesComplement.fold_modEq (by decide) _).trans (OnesComplement.fold_modEq (by decide) _)
  have hcsum : (finishChecksum sum).toNat = 2 ^ 16 - 1 - (foldCarry (foldCarry sum)).toNat := by
    rw [finishChecksum, UInt16.toNat_not, UInt32.toNat_toUInt16, Nat.mod_eq_of_lt hlt]
    rfl
  rw [hcsum]
  exact OnesComplement.dvd_add_complement hmod (by omega)

theorem packetSum_eq_ones {pre post : List UInt8} {sum : UInt32} (hpre : Even pre.length)
    (hsum : sum.toNat = (packetWords pre).sum + (packetWords post).sum) (hpos : 0 < sum.toNat) :
    packetSum (pre ++ (be16 (finishChecksum sum) ++ post)) = 0xFFFF := by
  have hwords : (packetWords (pre ++ (be16 (finishChecksum sum) ++ post))).sum =
      sum.toNat + (finishChecksum sum).toNat := by
    have htwo : Even (be16 (finishChecksum sum)).length := ⟨1, rfl⟩
    rw [sum_packetWords_append _ hpre, sum_packetWords_append _ htwo, sum_packetWords_be16, hsum]
    omega
  apply (OnesComplement.sum_eq_ones_iff (by decide) (packetWords_lt _)).mpr
  rw [hwords]
  exact ⟨dvd_add_finishChecksum sum, by omega⟩

/-! ## The functions over a memory -/

/-- The addresses that either function is called with; those of the cards have six bytes. -/
structure WireFlow where
  srcMac : Bytes 6
  dstMac : Bytes 6
  srcIp : UInt32
  dstIp : UInt32
  srcPort : UInt16
  dstPort : UInt16

def ipHeaderFields (totalLen : UInt16) (id protocol : UInt8) (srcIp dstIp : UInt32) : List UInt8 :=
  [0x45, 0x00] ++ be16 totalLen ++ [0x00, id, 0x40, 0x00, 64, protocol] ++ [0, 0] ++ be32 srcIp ++
    be32 dstIp

/-- The Ethernet header and the IPv4 header, written the same way by both functions. -/
def putHeaders (f : WireFlow) (totalLen : UInt16) (id protocol : UInt8) (frameOut : ℕ) (m : Mem) :
    Mem :=
  let m := store m frameOut (f.dstMac.1 ++ f.srcMac.1 ++ [0x08, 0x00])
  let ipStart := frameOut + netEthHdrLen
  let m := store m ipStart (ipHeaderFields totalLen id protocol f.srcIp f.dstIp)
  let ipCsum := ipChecksum (load m ipStart netIpHdrLen)
  store m (ipStart + 10) (be16 ipCsum)

/-- `net_build_udp` for pointers that are not null: the length, and the memory. -/
def netBuildUdpAt (f : WireFlow) (payload : List UInt8) (frameOut : ℕ) (m : Mem) : ℕ × Mem :=
  if payload.length = 0 ∨ netUdpPayloadMax < payload.length then (0, m)
  else
    let totalLen := UInt16.ofNat (netIpHdrLen + netUdpHdrLen + payload.length)
    let m := putHeaders f totalLen 0x01 17 frameOut m
    let p := frameOut + netEthHdrLen + netIpHdrLen
    let udpLen := UInt16.ofNat (netUdpHdrLen + payload.length)
    let m := store m p (be16 f.srcPort ++ be16 f.dstPort ++ be16 udpLen ++ [0, 0])
    let p := p + netUdpHdrLen
    let m := store m p payload
    (p + payload.length - frameOut, m)

/-- The sum of the pseudo header, as `net_build_tcp` starts its own. -/
def pseudoSum (f : WireFlow) (tcpLen : UInt16) : UInt32 :=
  (f.srcIp >>> 16 &&& (0xFFFF : UInt32)) + (f.srcIp &&& (0xFFFF : UInt32)) +
    (f.dstIp >>> 16 &&& (0xFFFF : UInt32)) + (f.dstIp &&& (0xFFFF : UInt32)) + 6 + tcpLen.toUInt32

/-- `net_build_tcp` for pointers that are not null: the length, and the memory. -/
def netBuildTcpAt (f : WireFlow) (seqNum ackNum : UInt32) (flags : UInt8) (windowSize : UInt16)
    (payload : List UInt8) (frameOut : ℕ) (m : Mem) : ℕ × Mem :=
  if netTcpPayloadMax < payload.length then (0, m)
  else
    let totalLen := UInt16.ofNat (netIpHdrLen + netTcpHdrLen + payload.length)
    let m := putHeaders f totalLen 0x02 6 frameOut m
    let tcpStart := frameOut + netEthHdrLen + netIpHdrLen
    let m := store m tcpStart (be16 f.srcPort ++ be16 f.dstPort ++ be32 seqNum ++ be32 ackNum ++
      [0x50, flags] ++ be16 windowSize ++ [0, 0] ++ [0, 0])
    let p := tcpStart + netTcpHdrLen
    let m := store m p payload
    let p := p + payload.length
    let tcpLen := UInt16.ofNat (netTcpHdrLen + payload.length)
    let sum := pseudoSum f tcpLen + wordSum (load m tcpStart (netTcpHdrLen + payload.length))
    let m := store m (tcpStart + 16) (be16 (finishChecksum sum))
    (p - frameOut, m)

/-! ## The frame in memory is the frame -/

def WireFlow.flow (f : WireFlow) : Flow where
  srcMac := f.srcMac.1
  dstMac := f.dstMac.1
  srcIp := f.srcIp
  dstIp := f.dstIp
  srcPort := f.srcPort
  dstPort := f.dstPort

def ipHead (totalLen : UInt16) (id protocol : UInt8) : List UInt8 :=
  [0x45, 0x00] ++ be16 totalLen ++ [0x00, id, 0x40, 0x00, 64, protocol]

theorem length_ipHead (totalLen : UInt16) (id protocol : UInt8) :
    (ipHead totalLen id protocol).length = 10 := by
  simp [ipHead]

theorem ipHeaderFields_eq (totalLen : UInt16) (id protocol : UInt8) (srcIp dstIp : UInt32) :
    ipHeaderFields totalLen id protocol srcIp dstIp =
      ipHead totalLen id protocol ++ ([0, 0] ++ (be32 srcIp ++ be32 dstIp)) := by
  simp [ipHeaderFields, ipHead]

theorem ipHeader_eq (f : Flow) (id protocol : UInt8) (totalLen : UInt16) :
    ipHeader f id protocol totalLen = ipHead totalLen id protocol ++
      (be16 (ipChecksum (ipHeaderFields totalLen id protocol f.srcIp f.dstIp)) ++
        (be32 f.srcIp ++ be32 f.dstIp)) := by
  have hzero : be16 0 = [0, 0] := rfl
  simp only [ipHeader, ipHeaderFields, ipHead, hzero, List.append_assoc]

theorem length_ipHeader (f : Flow) (id protocol : UInt8) (totalLen : UInt16) :
    (ipHeader f id protocol totalLen).length = netIpHdrLen := by
  simp [ipHeader_eq, length_ipHead, netIpHdrLen]

theorem length_ethHeader (f : WireFlow) : (ethHeader f.flow).length = netEthHdrLen := by
  simp [ethHeader, WireFlow.flow, f.srcMac.2, f.dstMac.2, netEthHdrLen]

section
variable (f : WireFlow) (id protocol : UInt8) (totalLen : UInt16) (frameOut : ℕ) (m : Mem)

theorem length_headers : (ethHeader f.flow ++ ipHeader f.flow id protocol totalLen).length =
    netEthHdrLen + netIpHdrLen := by
  rw [List.length_append, length_ethHeader, length_ipHeader]

theorem putHeaders_eq : putHeaders f totalLen id protocol frameOut m =
    store m frameOut (ethHeader f.flow ++ ipHeader f.flow id protocol totalLen) := by
  have hread : ∀ m : Mem, load (store m (frameOut + netEthHdrLen)
      (ipHeaderFields totalLen id protocol f.srcIp f.dstIp)) (frameOut + netEthHdrLen) netIpHdrLen =
      ipHeaderFields totalLen id protocol f.srcIp f.dstIp := by
    have hlen : (ipHeaderFields totalLen id protocol f.srcIp f.dstIp).length = netIpHdrLen := by
      simp [ipHeaderFields, netIpHdrLen]
    exact fun m => load_store_of_length hlen
  have hpatch : ∀ (m : Mem) (csum : UInt16), store (store m (frameOut + netEthHdrLen)
      (ipHeaderFields totalLen id protocol f.srcIp f.dstIp)) (frameOut + netEthHdrLen + 10)
        (be16 csum) =
      store m (frameOut + netEthHdrLen)
        (ipHead totalLen id protocol ++ (be16 csum ++ (be32 f.srcIp ++ be32 f.dstIp))) := by
    intro m csum
    rw [ipHeaderFields_eq, ← length_ipHead totalLen id protocol]
    exact store_store_middle rfl
  have hjoin : ∀ bs, store (store m frameOut (ethHeader f.flow)) (frameOut + netEthHdrLen) bs =
      store m frameOut (ethHeader f.flow ++ bs) := by
    intro bs
    rw [store_append, length_ethHeader]
  rw [putHeaders, hread, hpatch, ipHeader_eq, ← hjoin]
  rfl

end

theorem netBuildUdpAt_eq (f : WireFlow) (payload : List UInt8) (frameOut : ℕ) (m : Mem) :
    netBuildUdpAt f payload frameOut m =
      match netBuildUdp f.flow payload with
      | none => (0, m)
      | some frame => (frame.length, store m frameOut frame) := by
  rw [netBuildUdpAt, netBuildUdp]
  split
  · rfl
  · have hheaders := length_headers f 0x01 17
      (UInt16.ofNat (netIpHdrLen + netUdpHdrLen + payload.length))
    have hudp : (be16 f.srcPort ++ be16 f.dstPort ++
        be16 (UInt16.ofNat (netUdpHdrLen + payload.length)) ++ [0, 0]).length = netUdpHdrLen := by
      simp [netUdpHdrLen]
    dsimp only
    rw [putHeaders_eq, Nat.add_assoc frameOut, store_store_store hheaders hudp, Prod.mk.injEq]
    constructor
    · simp only [List.length_append, length_ethHeader, length_ipHeader, length_be16,
        List.length_cons, List.length_nil, netUdpHdrLen]
      omega
    · simp only [WireFlow.flow, List.append_assoc]

def tcpHead (f : Flow) (seqNum ackNum : UInt32) (flags : UInt8) (windowSize : UInt16) :
    List UInt8 :=
  be16 f.srcPort ++ be16 f.dstPort ++ be32 seqNum ++ be32 ackNum ++ [0x50, flags] ++
    be16 windowSize

theorem wordSum_be32 (v : UInt32) :
    wordSum (be32 v) = (v >>> 16 &&& (0xFFFF : UInt32)) + (v &&& (0xFFFF : UInt32)) := by
  have hv := v.toNat_lt
  have hbytes : be32 v = [UInt8.ofNat (v.toNat / 256 / 256 / 256),
      UInt8.ofNat (v.toNat / 256 / 256), UInt8.ofNat (v.toNat / 256), UInt8.ofNat v.toNat] := rfl
  have hhigh : 256 * (v.toNat / 256 / 256 / 256 % 2 ^ 8) + v.toNat / 256 / 256 % 2 ^ 8 =
      v.toNat / 2 ^ 16 % 2 ^ 16 := by omega
  have hlow : 256 * (v.toNat / 256 % 2 ^ 8) + v.toNat % 2 ^ 8 = v.toNat % 2 ^ 16 := by omega
  apply UInt32.toNat_inj.mp
  rw [hbytes, wordSum, wordSum, wordSum, UInt32.add_zero, UInt32.toNat_add, UInt32.toNat_add,
    toNat_word, toNat_word, toNat_lowHalf, toNat_lowHalf, toNat_highHalf]
  simp only [UInt8.toNat_ofNat', hhigh, hlow]

theorem pseudoSum_eq (f : WireFlow) (tcpLen : UInt16) :
    pseudoSum f tcpLen = wordSum (be32 f.srcIp) + wordSum (be32 f.dstIp) + 6 + tcpLen.toUInt32 := by
  rw [pseudoSum, wordSum_be32, wordSum_be32, ← UInt32.add_assoc]

theorem length_tcpHead (f : Flow) (seqNum ackNum : UInt32) (flags : UInt8) (windowSize : UInt16) :
    (tcpHead f seqNum ackNum flags windowSize).length = 16 := by
  simp [tcpHead]

def tcpChecksum (f : Flow) (head payload : List UInt8) : UInt16 :=
  finishChecksum (wordSum (be32 f.srcIp) + wordSum (be32 f.dstIp) + 6 +
    (UInt16.ofNat (netTcpHdrLen + payload.length)).toUInt32 +
    wordSum (head ++ ([0, 0] ++ ([0, 0] ++ payload))))

theorem tcpFrame_eq (f : Flow) (seqNum ackNum : UInt32) (flags : UInt8) (windowSize : UInt16)
    (payload : List UInt8) :
    tcpFrame f seqNum ackNum flags windowSize payload =
      ethHeader f ++
        ipHeader f 0x02 6 (UInt16.ofNat (netIpHdrLen + netTcpHdrLen + payload.length)) ++
        (tcpHead f seqNum ackNum flags windowSize ++
          (be16 (tcpChecksum f (tcpHead f seqNum ackNum flags windowSize) payload) ++
            ([0, 0] ++ payload))) := by
  have hzero : be16 0 = [0, 0] := rfl
  simp only [tcpFrame, tcpChecksum, tcpHead, hzero, List.append_assoc]

/-- `net_build_tcp` writes the frame, or nothing. -/
theorem netBuildTcpAt_eq (f : WireFlow) (seqNum ackNum : UInt32) (flags : UInt8)
    (windowSize : UInt16) (payload : List UInt8) (frameOut : ℕ) (m : Mem) :
    netBuildTcpAt f seqNum ackNum flags windowSize payload frameOut m =
      if netTcpPayloadMax < payload.length then (0, m)
      else
        ((tcpFrame f.flow seqNum ackNum flags windowSize payload).length,
          store m frameOut (tcpFrame f.flow seqNum ackNum flags windowSize payload)) := by
  rw [netBuildTcpAt, tcpFrame_eq]
  split
  · rfl
  · have hheaders := length_headers f 0x02 6
      (UInt16.ofNat (netIpHdrLen + netTcpHdrLen + payload.length))
    have hhead := length_tcpHead f.flow seqNum ackNum flags windowSize
    have hfields : be16 f.srcPort ++ be16 f.dstPort ++ be32 seqNum ++ be32 ackNum ++
        [0x50, flags] ++ be16 windowSize ++ [0, 0] ++ [0, 0] =
        tcpHead f.flow seqNum ackNum flags windowSize ++ ([0, 0] ++ [0, 0]) := by
      simp [tcpHead, WireFlow.flow]
    dsimp only
    rw [putHeaders_eq, hfields, Nat.add_assoc frameOut netEthHdrLen, pseudoSum_eq]
    generalize ethHeader f.flow ++ ipHeader f.flow 0x02 6
      (UInt16.ofNat (netIpHdrLen + netTcpHdrLen + payload.length)) = hdrs at hheaders ⊢
    generalize tcpHead f.flow seqNum ackNum flags windowSize = head at hhead ⊢
    have hfirst : (head ++ ([0, 0] ++ [0, 0])).length = netTcpHdrLen := by
      simp [hhead, netTcpHdrLen]
    have hsegment : (head ++ ([0, 0] ++ ([0, 0] ++ payload))).length =
        netTcpHdrLen + payload.length := by
      simp [hhead, netTcpHdrLen]
      omega
    have hbefore : (hdrs ++ head).length = netEthHdrLen + netIpHdrLen + 16 := by
      rw [List.length_append, hheaders, hhead]
    have hpatch : ∀ csum : UInt16,
        store (store m frameOut (hdrs ++ (head ++ ([0, 0] ++ ([0, 0] ++ payload)))))
          (frameOut + (netEthHdrLen + netIpHdrLen) + 16) (be16 csum) =
        store m frameOut (hdrs ++ (head ++ (be16 csum ++ ([0, 0] ++ payload)))) := by
      intro csum
      have htwo : [0, 0].length = (be16 csum).length := rfl
      rw [← List.append_assoc hdrs, Nat.add_assoc frameOut, ← hbefore, store_store_middle htwo,
        List.append_assoc]
    rw [store_store_store hheaders hfirst, List.append_assoc head, List.append_assoc [0, 0],
      load_store_behind hheaders hsegment, hpatch, Prod.mk.injEq]
    constructor
    · simp only [List.length_append, hheaders, hhead, length_be16, List.length_cons,
        List.length_nil, netTcpHdrLen]
      omega
    · rfl

/-! ## What a frame carries -/

/-- The `n` bytes at offset `i` of a frame. -/
def field (frame : List UInt8) (i n : ℕ) : List UInt8 := (frame.drop i).take n

theorem field_left {x rest : List UInt8} {n : ℕ} (h : x.length = n) : field (x ++ rest) 0 n = x :=
  List.take_left' h

theorem drop_right {x rest : List UInt8} {i : ℕ} (h : x.length ≤ i) :
    (x ++ rest).drop i = rest.drop (i - x.length) := by
  rw [List.drop_append, List.drop_eq_nil_of_le h, List.nil_append]

theorem field_right {x rest : List UInt8} {i n : ℕ} (h : x.length ≤ i) :
    field (x ++ rest) i n = field rest (i - x.length) n := by
  rw [field, field, drop_right h]

theorem beVal_be16 (v : UInt16) : beVal (be16 v) = v.toNat :=
  (beVal_beBytes 2 v.toNat).trans (Nat.mod_eq_of_lt v.toNat_lt)

theorem beVal_be32 (v : UInt32) : beVal (be32 v) = v.toNat :=
  (beVal_beBytes 4 v.toNat).trans (Nat.mod_eq_of_lt v.toNat_lt)

/-- A frame from one address to another, of an IPv4 protocol: its size, its lengths, the checksum of
its header, and the addresses where they belong. -/
structure IpFrame (f : WireFlow) (protocol : UInt8) (frame : List UInt8) : Prop where
  size : frame.length ≤ netMaxFrame
  dstMac : field frame 0 6 = f.dstMac.1
  srcMac : field frame 6 6 = f.srcMac.1
  etherType : field frame 12 2 = [0x08, 0x00]
  totalLen : beVal (field frame 16 2) = frame.length - netEthHdrLen
  protocol : field frame 23 1 = [protocol]
  checksum : packetSum (field frame 14 20) = 0xFFFF
  srcIp : beVal (field frame 26 4) = f.srcIp.toNat
  dstIp : beVal (field frame 30 4) = f.dstIp.toNat
  srcPort : beVal (field frame 34 2) = f.srcPort.toNat
  dstPort : beVal (field frame 36 2) = f.dstPort.toNat

/-- A UDP frame with its payload. -/
structure UdpFrame (f : WireFlow) (payload frame : List UInt8) : Prop
    extends IpFrame f 17 frame where
  udpLen : beVal (field frame 38 2) = frame.length - (netEthHdrLen + netIpHdrLen)
  payload : frame.drop 42 = payload

/-- A TCP frame with its fields and its payload. The segment is summed behind the addresses, the
protocol and its length. -/
structure TcpFrame (f : WireFlow) (seqNum ackNum : UInt32) (flags : UInt8) (windowSize : UInt16)
    (payload frame : List UInt8) : Prop extends IpFrame f 6 frame where
  seqNum : beVal (field frame 38 4) = seqNum.toNat
  ackNum : beVal (field frame 42 4) = ackNum.toNat
  flags : field frame 47 1 = [flags]
  windowSize : beVal (field frame 48 2) = windowSize.toNat
  payload : frame.drop 54 = payload
  segmentSum : packetSum (field frame 26 8 ++ ([0, 6] ++
    (beBytes 2 (frame.length - (netEthHdrLen + netIpHdrLen)) ++ frame.drop 34))) = 0xFFFF

theorem sum_packetWords_zero {pre : List UInt8} (post : List UInt8) (h : Even pre.length) :
    (packetWords (pre ++ ([0, 0] ++ post))).sum =
      (packetWords pre).sum + (packetWords post).sum := by
  rw [sum_packetWords_append _ h]
  exact congrArg _ (Nat.zero_add _)

theorem packetSum_ipHeader (f : Flow) (id protocol : UInt8) (totalLen : UInt16) :
    packetSum (ipHeader f id protocol totalLen) = 0xFFFF := by
  have heven : Even (ipHead totalLen id protocol).length :=
    length_ipHead totalLen id protocol ▸ ⟨5, rfl⟩
  have hsum : (wordSum (ipHeaderFields totalLen id protocol f.srcIp f.dstIp)).toNat =
      (packetWords (ipHead totalLen id protocol)).sum +
        (packetWords (be32 f.srcIp ++ be32 f.dstIp)).sum := by
    rw [(toNat_wordSum _ (by simp [ipHeaderFields])).1, ipHeaderFields_eq,
      sum_packetWords_zero _ heven]
  have hversion : 0 < (packetWords (ipHead totalLen id protocol)).sum :=
    Nat.add_pos_left (by decide) _
  rw [ipHeader_eq]
  exact packetSum_eq_ones heven hsum (by omega)

/-- Any frame with both headers in front, and the ports behind them. -/
theorem ipFrame_of_headers {f : WireFlow} {id protocol : UInt8} {totalLen : UInt16}
    {rest : List UInt8} (hlen : rest.length + 38 ≤ netMaxFrame)
    (htotal : totalLen.toNat = rest.length + 24) :
    IpFrame f protocol (ethHeader f.flow ++ ipHeader f.flow id protocol totalLen ++
      (be16 f.srcPort ++ (be16 f.dstPort ++ rest))) := by
  obtain ⟨csum, hcsum⟩ : ∃ csum : UInt16, ethHeader f.flow ++
      ipHeader f.flow id protocol totalLen ++ (be16 f.srcPort ++ (be16 f.dstPort ++ rest)) =
      f.dstMac.1 ++ (f.srcMac.1 ++ ([0x08, 0x00] ++ ([0x45, 0x00] ++ (be16 totalLen ++
        ([0x00, id, 0x40, 0x00, 64] ++ ([protocol] ++ (be16 csum ++ (be32 f.srcIp ++
          (be32 f.dstIp ++ (be16 f.srcPort ++ (be16 f.dstPort ++ rest))))))))))) := by
    use ipChecksum (ipHeaderFields totalLen id protocol f.srcIp f.dstIp)
    simp only [ethHeader, ipHeader_eq, ipHead, WireFlow.flow, List.append_assoc, List.cons_append,
      List.nil_append]
  have hdst := f.dstMac.2
  have hsrc := f.srcMac.2
  have hsize : (ethHeader f.flow ++ ipHeader f.flow id protocol totalLen ++
      (be16 f.srcPort ++ (be16 f.dstPort ++ rest))).length = rest.length + 38 := by
    simp only [List.length_append, length_ethHeader, length_ipHeader, length_be16, netEthHdrLen,
      netIpHdrLen]
    omega
  constructor
  case size => exact hsize.trans_le hlen
  case checksum =>
    have hheader : field (ethHeader f.flow ++ ipHeader f.flow id protocol totalLen ++
        (be16 f.srcPort ++ (be16 f.dstPort ++ rest))) 14 20 =
        ipHeader f.flow id protocol totalLen := by
      have hplace : (ethHeader f.flow).length = 14 := length_ethHeader f
      rw [List.append_assoc, field_right hplace.le, hplace]
      exact field_left (length_ipHeader _ _ _ _)
    rw [hheader, packetSum_ipHeader]
  case totalLen =>
    rw [hsize, hcsum]
    simp only [field_right, field_left, hdst, hsrc, length_be16, List.length_cons,
      List.length_nil, Nat.reduceAdd, Nat.reduceLeDiff, Nat.reduceSub, Nat.le_refl, beVal_be16]
    exact htotal
  all_goals
    rw [hcsum]
    simp only [field_right, field_left, hdst, hsrc, length_be16, length_be32, List.length_cons,
      List.length_nil, Nat.reduceAdd, Nat.reduceLeDiff, Nat.reduceSub, Nat.le_refl, beVal_be16,
      beVal_be32]

section
variable (f : WireFlow) (id protocol : UInt8) (totalLen : UInt16) (rest : List UInt8)

theorem drop_headers {i : ℕ} (h : 34 ≤ i) :
    (ethHeader f.flow ++ ipHeader f.flow id protocol totalLen ++ rest).drop i =
      rest.drop (i - 34) := by
  have hlen : (ethHeader f.flow ++ ipHeader f.flow id protocol totalLen).length = 34 :=
    length_headers f id protocol totalLen
  rw [drop_right (hlen.trans_le h), hlen]

theorem field_headers {i n : ℕ} (h : 34 ≤ i) :
    field (ethHeader f.flow ++ ipHeader f.flow id protocol totalLen ++ rest) i n =
      field rest (i - 34) n := by
  rw [field, drop_headers f id protocol totalLen rest h, field]

theorem field_addresses :
    field (ethHeader f.flow ++ ipHeader f.flow id protocol totalLen ++ rest) 26 8 =
      be32 f.srcIp ++ be32 f.dstIp := by
  have heth : (ethHeader f.flow).length = 14 := length_ethHeader f
  have hhead := length_ipHead totalLen id protocol
  have haddr : (be32 f.flow.srcIp ++ be32 f.flow.dstIp).length = 8 := rfl
  rw [ipHeader_eq, List.append_assoc, List.append_assoc, List.append_assoc]
  simp only [field_right, heth, hhead, length_be16, Nat.reduceLeDiff, Nat.reduceSub, Nat.le_refl]
  exact field_left haddr

theorem length_frame_of_headers :
    (ethHeader f.flow ++ ipHeader f.flow id protocol totalLen ++ rest).length =
      34 + rest.length := by
  rw [List.length_append, length_headers]
  rfl

end

theorem udpFrame_wellFormed (f : WireFlow) {payload : List UInt8} (h₁ : 1 ≤ payload.length)
    (h₂ : payload.length ≤ 1472) :
    ∃ frame, netBuildUdp f.flow payload = some frame ∧ UdpFrame f payload frame := by
  have hmax : netUdpPayloadMax = 1472 := rfl
  have hno : ¬(payload.length = 0 ∨ netUdpPayloadMax < payload.length) := by omega
  have hudp : (UInt16.ofNat (netUdpHdrLen + payload.length)).toNat = 8 + payload.length :=
    UInt16.toNat_ofNat_of_lt' (by rw [UInt16.size, netUdpHdrLen]; omega)
  have htotal : (UInt16.ofNat (netIpHdrLen + netUdpHdrLen + payload.length)).toNat =
      28 + payload.length :=
    UInt16.toNat_ofNat_of_lt' (by rw [UInt16.size, netIpHdrLen, netUdpHdrLen]; omega)
  have hframe : netBuildUdp f.flow payload = some (ethHeader f.flow ++ ipHeader f.flow 0x01 17
      (UInt16.ofNat (netIpHdrLen + netUdpHdrLen + payload.length)) ++ (be16 f.srcPort ++
        (be16 f.dstPort ++ (be16 (UInt16.ofNat (netUdpHdrLen + payload.length)) ++
          ([0, 0] ++ payload))))) := by
    rw [netBuildUdp, if_neg hno]
    simp only [WireFlow.flow, List.append_assoc]
  have hrest : (be16 (UInt16.ofNat (netUdpHdrLen + payload.length)) ++ ([0, 0] ++ payload)).length =
      4 + payload.length := by
    simp
    omega
  refine ⟨_, hframe, ?_⟩
  constructor
  case toIpFrame =>
    exact ipFrame_of_headers (by rw [hrest, netMaxFrame]; omega) (by rw [htotal, hrest]; omega)
  case udpLen =>
    rw [field_headers _ _ _ _ _ (by decide), length_frame_of_headers, List.length_append,
      List.length_append, hrest]
    simp only [field_right, field_left, length_be16, Nat.reduceLeDiff, Nat.reduceSub, Nat.le_refl,
      beVal_be16, hudp, netEthHdrLen, netIpHdrLen]
    omega
  case payload =>
    rw [drop_headers _ _ _ _ _ (by decide)]
    simp only [drop_right, length_be16, List.length_cons, List.length_nil, Nat.reduceAdd,
      Nat.reduceLeDiff, Nat.reduceSub, Nat.le_refl, List.drop_zero]

theorem packetSum_segment (f : Flow) {head payload : List UInt8} (hhead : head.length = 16)
    (hlen : payload.length ≤ 1460) :
    packetSum (be32 f.srcIp ++ be32 f.dstIp ++ ([0, 6] ++ (beBytes 2 (20 + payload.length) ++
      (head ++ (be16 (tcpChecksum f head payload) ++ ([0, 0] ++ payload)))))) = 0xFFFF := by
  have htcp : (UInt16.ofNat (netTcpHdrLen + payload.length)).toNat = 20 + payload.length :=
    UInt16.toNat_ofNat_of_lt' (by rw [UInt16.size, netTcpHdrLen]; omega)
  have hfield : beBytes 2 (20 + payload.length) =
      be16 (UInt16.ofNat (netTcpHdrLen + payload.length)) := by rw [be16, htcp]
  have heven : Even head.length := hhead ▸ ⟨8, rfl⟩
  have h16 : ∀ v : UInt16, Even (be16 v).length := fun v => ⟨1, rfl⟩
  have h32 : ∀ v : UInt32, Even (be32 v).length := fun v => ⟨2, rfl⟩
  have hpre : Even (be32 f.srcIp ++ (be32 f.dstIp ++ ([0, 6] ++
      (be16 (UInt16.ofNat (netTcpHdrLen + payload.length)) ++ head)))).length := by
    simp [hhead]
    decide
  have hwords : (packetWords (be32 f.srcIp ++ (be32 f.dstIp ++ ([0, 6] ++
      (be16 (UInt16.ofNat (netTcpHdrLen + payload.length)) ++ head))))).sum =
      (packetWords (be32 f.srcIp)).sum + ((packetWords (be32 f.dstIp)).sum +
        (6 + (20 + payload.length + (packetWords head).sum))) := by
    rw [sum_packetWords_append _ (h32 _), sum_packetWords_append _ (h32 _),
      sum_packetWords_append _ ⟨1, rfl⟩, sum_packetWords_append _ (h16 _), sum_packetWords_be16,
      htcp]
    rfl
  have hsum : (wordSum (be32 f.srcIp) + wordSum (be32 f.dstIp) + 6 +
      (UInt16.ofNat (netTcpHdrLen + payload.length)).toUInt32 +
      wordSum (head ++ ([0, 0] ++ ([0, 0] ++ payload)))).toNat =
      (packetWords (be32 f.srcIp ++ (be32 f.dstIp ++ ([0, 6] ++
        (be16 (UInt16.ofNat (netTcpHdrLen + payload.length)) ++ head))))).sum +
        (packetWords ([0, 0] ++ payload)).sum := by
    obtain ⟨hsegment, hbound⟩ := toNat_wordSum (head ++ ([0, 0] ++ ([0, 0] ++ payload)))
      (by simp [hhead]; omega)
    obtain ⟨hsrc, hsrcle⟩ := toNat_wordSum (be32 f.srcIp) (by simp)
    obtain ⟨hdst, hdstle⟩ := toNat_wordSum (be32 f.dstIp) (by simp)
    have hsix : (6 : UInt32).toNat = 6 := rfl
    rw [sum_packetWords_zero _ heven] at hsegment hbound
    rw [length_be32] at hsrcle hdstle
    simp only [List.length_append, hhead, List.length_cons, List.length_nil] at hbound
    rw [hwords, UInt32.toNat_add, UInt32.toNat_add, UInt32.toNat_add, UInt32.toNat_add, hsegment,
      hsrc, hdst, hsix, UInt16.toNat_toUInt32, htcp]
    omega
  have hones := packetSum_eq_ones hpre hsum (by rw [hsum, hwords]; omega)
  rw [hfield, tcpChecksum]
  simpa only [List.append_assoc] using hones

theorem tcpFrame_wellFormed (f : WireFlow) (seqNum ackNum : UInt32) (flags : UInt8)
    (windowSize : UInt16) {payload : List UInt8} (h : payload.length ≤ 1460) :
    TcpFrame f seqNum ackNum flags windowSize payload
      (tcpFrame f.flow seqNum ackNum flags windowSize payload) := by
  have htotal : (UInt16.ofNat (netIpHdrLen + netTcpHdrLen + payload.length)).toNat =
      40 + payload.length :=
    UInt16.toNat_ofNat_of_lt' (by rw [UInt16.size, netIpHdrLen, netTcpHdrLen]; omega)
  have hhead := length_tcpHead f.flow seqNum ackNum flags windowSize
  have hsum := packetSum_segment f.flow hhead h
  rw [tcpFrame_eq]
  generalize tcpChecksum f.flow (tcpHead f.flow seqNum ackNum flags windowSize) payload = csum at *
  have hports : tcpHead f.flow seqNum ackNum flags windowSize ++
      (be16 csum ++ ([0, 0] ++ payload)) =
      be16 f.srcPort ++ (be16 f.dstPort ++ (be32 seqNum ++ (be32 ackNum ++ ([0x50] ++ ([flags] ++
        (be16 windowSize ++ (be16 csum ++ ([0, 0] ++ payload)))))))) := by
    simp [tcpHead, WireFlow.flow]
  have hrest : (be32 seqNum ++ (be32 ackNum ++ ([0x50] ++ ([flags] ++
        (be16 windowSize ++ (be16 csum ++ ([0, 0] ++ payload))))))).length =
      16 + payload.length := by
    simp
    omega
  constructor
  case toIpFrame =>
    rw [hports]
    exact ipFrame_of_headers (by rw [hrest, netMaxFrame]; omega) (by rw [htotal, hrest]; omega)
  case segmentSum =>
    have hsegment : (tcpHead f.flow seqNum ackNum flags windowSize ++
        (be16 csum ++ ([0, 0] ++ payload))).length = 20 + payload.length := by
      simp [hhead]
      omega
    have hlen : 34 + (20 + payload.length) - (netEthHdrLen + netIpHdrLen) = 20 + payload.length :=
      Nat.add_sub_cancel_left _ _
    rw [field_addresses, length_frame_of_headers, drop_headers _ _ _ _ _ (Nat.le_refl 34), hsegment,
      hlen]
    exact hsum
  all_goals
    rw [hports]
    first | rw [field_headers _ _ _ _ _ (by decide)] | rw [drop_headers _ _ _ _ _ (by decide)]
    simp only [field_right, field_left, drop_right, length_be16, length_be32, List.length_cons,
      List.length_nil, Nat.reduceAdd, Nat.reduceLeDiff, Nat.reduceSub, Nat.le_refl, List.drop_zero,
      beVal_be16, beVal_be32]

/-- Every call with a payload of a permitted length returns the length of a well-formed frame and
writes it, and every other call returns zero and writes nothing. -/
theorem netBuild_wellFormed (f : WireFlow) (seqNum ackNum : UInt32) (flags : UInt8)
    (windowSize : UInt16) (payload : List UInt8) (frameOut : ℕ) (m : Mem) :
    (if 1 ≤ payload.length ∧ payload.length ≤ 1472 then
        ∃ frame, UdpFrame f payload frame ∧
          netBuildUdpAt f payload frameOut m = (frame.length, store m frameOut frame)
      else netBuildUdpAt f payload frameOut m = (0, m)) ∧
    if payload.length ≤ 1460 then
      ∃ frame, TcpFrame f seqNum ackNum flags windowSize payload frame ∧
        netBuildTcpAt f seqNum ackNum flags windowSize payload frameOut m =
          (frame.length, store m frameOut frame)
    else netBuildTcpAt f seqNum ackNum flags windowSize payload frameOut m = (0, m) := by
  have hudpMax : netUdpPayloadMax = 1472 := rfl
  have htcpMax : netTcpPayloadMax = 1460 := rfl
  constructor
  · split
    · rename_i h
      obtain ⟨frame, hframe, hwell⟩ := udpFrame_wellFormed f h.1 h.2
      exact ⟨frame, hwell, by rw [netBuildUdpAt_eq, hframe]⟩
    · rename_i h
      exact if_pos (by omega)
  · split
    · rename_i h
      refine ⟨_, tcpFrame_wellFormed f seqNum ackNum flags windowSize h, ?_⟩
      rw [netBuildTcpAt_eq, if_neg (by omega)]
    · rename_i h
      exact if_pos (by omega)

end StyxOS
