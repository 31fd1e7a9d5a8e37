import StyxOS.Ipc.Basic
import StyxOS.Library.Access
import StyxOS.Net.Frame

/-! # The machine behind a system call

What the system calls work on besides capabilities, scheduler and memory: the
keyboard, the sockets, the Tor circuit, the network card and the random
numbers. User memory is read and written a byte at a time, under the page
tables in force; a byte that is not mapped ends in the exception handler, which
halts the machine.
-/

namespace StyxOS

open Access

/-- `tcp_state_t`. -/
inductive TcpState
  | closed | listen | synSent | synRcvd | established | finWait1 | finWait2 | timeWait
  deriving DecidableEq, Repr

abbrev tcpRxBufSize : ℕ := 4096

instance neZero_tcpRxBufSize : NeZero tcpRxBufSize := ⟨by decide⟩

/-- `tcp_socket_t`; its identifier is its index. -/
structure TcpSocket where
  active : Bool
  state : TcpState
  localIp : UInt32
  remoteIp : UInt32
  localPort : UInt16
  remotePort : UInt16
  seqNum : UInt32
  ackNum : UInt32
  windowSize : UInt16
  rxBuf : Fin tcpRxBufSize → UInt8
  rxHead : Fin tcpRxBufSize
  rxTail : Fin tcpRxBufSize

abbrev maxTcpSockets : ℕ := 16

/-- `tor_circuit_t`. -/
structure TorCircuit where
  circuitId : UInt32
  entryKey : List UInt8
  middleKey : List UInt8
  exitKey : List UInt8
  established : Bool

structure KeyRing where
  ring : Fin 64 → UInt8
  head : Fin 64
  tail : Fin 64

/-- The state of the machine. The random numbers are those that `csprng_get_bytes` is going to
give out. -/
structure Machine where
  kernel : Kernel
  keys : KeyRing
  sockets : Fin maxTcpSockets → TcpSocket
  nextEphemeralPort : UInt16
  torCircuit : TorCircuit
  torCellsSent : UInt32
  nic : Nic
  anonymizedMac : List UInt8
  entropy : ℕ → UInt8
  freeMemory : UInt64
  serial : List UInt8
  screen : List UInt8

namespace Machine

variable (m : Machine)

def withMemory (memory : Memory) : Machine :=
  { m with kernel := { m.kernel with memory := memory } }

def withSched (sched : Sched) : Machine := { m with kernel := { m.kernel with sched := sched } }

def setSocket (i : Fin maxTcpSockets) (x : TcpSocket) : Machine :=
  { m with sockets := Function.update m.sockets i x }

def halt : Machine := { m with kernel := { m.kernel with halted := true } }

end Machine

def pageFault {α : Type} : Access Machine α := do
  modify Machine.halt
  fault

def readByte (a : UInt64) : Access Machine UInt8 := do
  touch [a.toNat]
  let m ← get
  if m.kernel.memory.readable m.kernel.sched.cr3 a.toNat then
    pure (m.kernel.memory.view m.kernel.sched.cr3 a.toNat)
  else pageFault

def writeByte (a : UInt64) (b : UInt8) : Access Machine Unit := do
  touch [a.toNat]
  let m ← get
  if m.kernel.memory.writable m.kernel.sched.cr3 a.toNat then
    modify fun m => m.withMemory (m.kernel.memory.write m.kernel.sched.cr3 a.toNat [b])
  else pageFault

/-- `memcpy` from user memory. -/
def copyIn : UInt64 → ℕ → Access Machine (List UInt8)
  | _, 0 => pure []
  | a, n + 1 => do
    let b ← readByte a
    let bs ← copyIn (a + 1) n
    pure (b :: bs)

/-- `memcpy` to user memory. -/
def copyOut : UInt64 → List UInt8 → Access Machine Unit
  | _, [] => pure ()
  | a, b :: bs => do
    writeByte a b
    copyOut (a + 1) bs

def csprngGetBytes (n : ℕ) : Access Machine (List UInt8) := do
  let m ← get
  modify fun m => { m with entropy := fun i => m.entropy (n + i) }
  pure ((List.range n).map m.entropy)

def csprngU32 : Access Machine UInt32 := do
  let bs ← csprngGetBytes 4
  pure (UInt32.ofNat (ByteMem.leVal bs))

def keyboardGetChar : Access Machine UInt8 := do
  let m ← get
  if m.keys.head = m.keys.tail then pure 0
  else do
    modify fun m => { m with keys := { m.keys with tail := m.keys.tail + 1 } }
    pure (m.keys.ring m.keys.tail)

def keyRingPush (k : KeyRing) (c : UInt8) : KeyRing :=
  if k.head + 1 ≠ k.tail then { k with ring := Function.update k.ring k.head c, head := k.head + 1 }
  else k

/-! ## What the accesses touch -/

/-- The addresses of `n` bytes from `a` on have the property. -/
def Covers (P : ℕ → Prop) (a : UInt64) (n : ℕ) : Prop := ∀ i < n, P (a + UInt64.ofNat i).toNat

/-- A property of machines that depends on the capabilities only. -/
def CapsOnly (I : Machine → Prop) : Prop :=
  ∀ m m' : Machine, m'.kernel.caps = m.kernel.caps → I m → I m'

section
variable {I : Machine → Prop} {P : ℕ → Prop} {a : UInt64} {n : ℕ}

theorem Covers.head (h : Covers P a (n + 1)) : P a.toNat := by
  have h₀ := h 0 (Nat.succ_pos n)
  simpa using h₀

theorem Covers.tail (h : Covers P a (n + 1)) : Covers P (a + 1) n := by
  intro i hi
  have hadd : a + 1 + UInt64.ofNat i = a + UInt64.ofNat (i + 1) := by
    rw [UInt64.add_assoc, UInt64.ofNat_add, UInt64.add_comm (UInt64.ofNat i)]
    rfl
  rw [hadd]
  exact h (i + 1) (by omega)

theorem Covers.cons (h : P a.toNat) (ht : Covers P (a + 1) n) : Covers P a (n + 1) := by
  intro i hi
  cases i with
  | zero => simpa using h
  | succ i =>
    have hadd : a + UInt64.ofNat (i + 1) = a + 1 + UInt64.ofNat i := by
      rw [UInt64.add_assoc, UInt64.ofNat_add, UInt64.add_comm (UInt64.ofNat i)]
      rfl
    rw [hadd]
    exact ht i (by omega)

theorem Covers.mono {k : ℕ} (h : Covers P a n) (hk : k ≤ n) : Covers P a k :=
  fun i hi => h i (by omega)

theorem Covers.add {k l : ℕ} (h : Covers P a n) (hk : k + l ≤ n) :
    Covers P (a + UInt64.ofNat k) l := by
  intro i hi
  rw [UInt64.add_assoc, ← UInt64.ofNat_add]
  exact h (k + i) (by omega)

theorem covers_of_le (h : a.toNat + n ≤ userTop) : Covers (· < userTop) a n := by
  intro i hi
  have hu : userTop < 2 ^ 64 := by decide
  have hi' : (UInt64.ofNat i).toNat = i := UInt64.toNat_ofNat_of_lt' (by change i < 2 ^ 64; omega)
  rw [UInt64.toNat_add, hi', Nat.mod_eq_of_lt (by omega)]
  omega

theorem covers_true : Covers (fun _ => True) a n := fun _ _ => trivial

variable (hI : CapsOnly I)
include hI

theorem meets_modify_of_caps {f : Machine → Machine}
    (h : ∀ m, (f m).kernel.caps = m.kernel.caps) : Meets I P (fun _ => True) (modify f) :=
  meets_modify fun m hm => hI m (f m) (h m) hm

theorem meets_pageFault {α : Type} {Q : α → Prop} : Meets I P Q (pageFault : Access Machine α) :=
  meets_bind (meets_modify_of_caps hI fun _ => rfl) fun _ _ => meets_fault

theorem meets_readByte (h : P a.toNat) : Meets I P (fun _ => True) (readByte a) := by
  apply meets_bind (meets_touch (by simpa using h))
  rintro - -
  apply meets_get_bind
  rintro m -
  apply meets_ite
  · rintro -
    exact meets_pure trivial
  · rintro -
    exact meets_pageFault hI

theorem meets_writeByte {b : UInt8} (h : P a.toNat) :
    Meets I P (fun _ => True) (writeByte a b) := by
  apply meets_bind (meets_touch (by simpa using h))
  rintro - -
  apply meets_get_bind
  rintro m -
  apply meets_ite
  · rintro -
    exact meets_modify_of_caps hI fun _ => rfl
  · rintro -
    exact meets_pageFault hI

theorem meets_copyIn (h : Covers P a n) : Meets I P (fun _ => True) (copyIn a n) := by
  induction n generalizing a with
  | zero => exact meets_pure trivial
  | succ n ih =>
    apply meets_bind (meets_readByte hI h.head)
    rintro b -
    apply meets_bind (ih h.tail)
    rintro bs -
    exact meets_pure trivial

theorem meets_copyOut {bs : List UInt8} (h : Covers P a bs.length) :
    Meets I P (fun _ => True) (copyOut a bs) := by
  induction bs generalizing a with
  | nil => exact meets_pure trivial
  | cons b bs ih =>
    apply meets_bind (meets_writeByte hI h.head)
    rintro - -
    exact ih h.tail

theorem meets_csprngGetBytes :
    Meets I P (fun bs => bs.length = n) (csprngGetBytes n) := by
  apply meets_get_bind
  rintro m -
  refine meets_bind (meets_modify_of_caps hI fun m => ?_) ?_
  · rfl
  · rintro - -
    exact meets_pure (by simp)

theorem meets_csprngU32 : Meets I P (fun _ => True) csprngU32 := by
  apply meets_bind (meets_csprngGetBytes hI)
  rintro bs -
  exact meets_pure trivial

end

end StyxOS
