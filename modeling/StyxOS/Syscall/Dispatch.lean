import StyxOS.Crypto.Sha512
import StyxOS.Syscall.Network

/-! # The system calls

`syscall_dispatch` of `syscall.c` with its fourteen calls.
-/

namespace StyxOS

open Access ByteMem

/-- The system calls of `syscall.h`. -/
inductive Sys
  | yield | write | capSend | capRecv | exit | readKey | torCell | sysinfo | socket | connect
  | send | recv | pqcKem | emergencyWipe
  deriving DecidableEq, Repr

/-- The table of the numbers from zero on. -/
def Sys.table : List Sys :=
  [.yield, .write, .capSend, .capRecv, .exit, .readKey, .torCell, .sysinfo, .socket, .connect,
    .send, .recv, .pqcKem, .emergencyWipe]

/-- The call with a number. -/
def Sys.ofNumber (num : UInt64) : Option Sys := Sys.table[num.toNat]?

/-- The arguments of a call. -/
structure SysArgs where
  arg0 : UInt64
  arg1 : UInt64
  arg2 : UInt64
  arg3 : UInt64

/-- The capability check that a case of `syscall_dispatch` begins with. -/
def withEndpoint (table arg0 : UInt64) (right : UInt32) (body : Access Machine ℤ) :
    Access Machine ℤ := do
  let m ← get
  match capLookup m.kernel.caps table arg0.toUInt32 .endpoint right with
  | .error _ => pure sysretEaccess
  | .ok _ => body

/-- A character written to the serial line and to the screen. -/
def Machine.putChar (m : Machine) (c : UInt8) : Machine :=
  { m with
    serial := m.serial ++ (if c = 10 then [13, c] else [c])
    screen := m.screen ++ [c] }

/-- The loop of `SYS_WRITE`. -/
def writeLoop : ℕ → UInt64 → Access Machine Unit
  | 0, _ => pure ()
  | n + 1, a => do
    let c ← readByte a
    if c = 0 then pure ()
    else do
      modify fun m => m.putChar c
      writeLoop n (a + 1)

/-- The `SYS_WRITE` case. -/
def sysWrite (table : UInt64) (args : SysArgs) : Access Machine ℤ :=
  withEndpoint table args.arg0 capRightSend
    (if badRange args.arg1 args.arg2 then pure sysretEfault
    else do
      writeLoop args.arg2.toNat args.arg1
      pure sysretOk)

/-- The addresses that a rendezvous touches: the source of the copy, and its destination once the
source could be read. -/
def transferTouched (d : IpcDir) (m : Memory) (c pending buf : UInt64) : List ℕ :=
  if pending = 0 then []
  else
    List.range' (IpcDir.buffers d pending buf).2.toNat ipcMsgSize ++
      if m.canRead c (IpcDir.buffers d pending buf).2.toNat ipcMsgSize then
        List.range' (IpcDir.buffers d pending buf).1.toNat ipcMsgSize
      else []

/-- The addresses that `cap_send` or `cap_recv` touches. -/
def capTransferTouched (d : IpcDir) (k : Kernel) (table : UInt64) (slotIdx : UInt32)
    (buf : UInt64) : List ℕ :=
  match capLookup k.caps table slotIdx .endpoint (IpcDir.right d) with
  | .error _ => []
  | .ok slot =>
    match slot.object with
    | .endpoint e =>
      if (k.caps.epPool e).state = IpcDir.waiting d.other then
        transferTouched d k.memory k.sched.cr3 (k.caps.epPool e).pendingMsg buf
      else []
    | _ => []

/-- The `SYS_CAP_SEND` and `SYS_CAP_RECV` cases. -/
def sysCapMsg (K : KernelLayout) (cpu : TaskRegs) (d : IpcDir) (table : UInt64) (args : SysArgs) :
    Access Machine ℤ :=
  if badRange args.arg1 (UInt64.ofNat ipcMsgSize) then pure sysretEfault
  else do
    let m ← get
    let r := capTransfer K cpu d m.kernel table args.arg0.toUInt32 args.arg1
    touch (capTransferTouched d m.kernel table args.arg0.toUInt32 args.arg1)
    modify fun m => { m with kernel := r.2 }
    match r.1 with
    | none => fault
    | some err => pure (if err = .ok then sysretOk else -(err.code : ℤ))

/-- The `SYS_READ_KEY` case. -/
def sysReadKey (table : UInt64) (args : SysArgs) : Access Machine ℤ :=
  withEndpoint table args.arg0 capRightRecv do
    let c ← keyboardGetChar
    pure (c.toNat : ℤ)

/-- The `SYS_TOR_CELL` case. -/
def sysTorCell (table : UInt64) (args : SysArgs) : Access Machine ℤ :=
  withEndpoint table args.arg0 capRightSend
    (if badRange args.arg1 args.arg2 || args.arg2 > 512 then pure sysretEfault
    else do
      let ok ← torSendCell args.arg1 args.arg2.toUInt16 torCapabilityToken
      pure (if ok then sysretOk else -1))

/-- The `SYS_SYSINFO` case, which fills in a structure of 16 bytes. -/
def sysSysinfo (args : SysArgs) : Access Machine ℤ :=
  if args.arg0 ≥ 0x800000000000 then pure sysretEfault
  else do
    let m ← get
    copyOut args.arg0 (ByteMem.leBytes 8 m.freeMemory.toNat)
    copyOut (args.arg0 + UInt64.ofNat 8) (ByteMem.leBytes 4 2)
    copyOut (args.arg0 + UInt64.ofNat 12) (ByteMem.leBytes 4 0)
    pure sysretOk

/-- The `SYS_SOCKET` case. -/
def sysSocket (table : UInt64) (args : SysArgs) : Access Machine ℤ :=
  withEndpoint table args.arg0 capRightSend tcpSocketCreate

/-- The `SYS_CONNECT` case. -/
def sysConnect (table : UInt64) (args : SysArgs) : Access Machine ℤ :=
  withEndpoint table args.arg0 capRightSend
    (tcpSocketConnect args.arg1 args.arg2.toUInt32 args.arg3.toUInt16)

/-- The `SYS_SEND` case. -/
def sysSend (table : UInt64) (args : SysArgs) : Access Machine ℤ :=
  withEndpoint table args.arg0 capRightSend
    (if badRange args.arg2 args.arg3 then pure sysretEfault
    else tcpSocketSend args.arg1 args.arg2 args.arg3)

/-- The `SYS_RECV` case. -/
def sysRecv (table : UInt64) (args : SysArgs) : Access Machine ℤ :=
  withEndpoint table args.arg0 capRightRecv
    (if badRange args.arg2 args.arg3 then pure sysretEfault
    else tcpSocketRecv args.arg1 args.arg2 args.arg3)

/-- Lengths of `pqc.h`. -/
def kyber1024PublickeyBytes : ℕ := 1568
def kyber1024CiphertextBytes : ℕ := 1568
def kyber1024SsBytes : ℕ := 32

def kyber1024Encapsulate (ct ss pk : UInt64) : Access Machine ℤ :=
  if ct = 0 ∨ ss = 0 ∨ pk = 0 then pure (-1)
  else do
    let coin ← csprngGetBytes 32
    copyOut ss ((sha512 coin).take kyber1024SsBytes)
    let noise ← csprngGetBytes kyber1024CiphertextBytes
    copyOut ct noise
    writeByte ct 0xC7
    copyOut (ct + UInt64.ofNat 1) coin
    pure 0

/-- The `SYS_PQC_KEM` case. -/
def sysPqcKem (args : SysArgs) : Access Machine ℤ :=
  if args.arg0 ≥ 0x800000000000 ∨ args.arg1 ≥ 0x800000000000 ∨ args.arg2 ≥ 0x800000000000 then
    pure sysretEfault
  else kyber1024Encapsulate args.arg0 args.arg1 args.arg2

/-- `destruct_trigger` as the machine sees it: the beacon and the halt. What it wipes is part of
the storage. -/
def destructMachine {α : Type} (reason : List UInt8) : Access Machine α := do
  let _ ← netSendBeacon reason
  modify Machine.halt
  fault

/-- The `SYS_EMERGENCY_WIPE` case. -/
def sysEmergencyWipe (table : UInt64) (args : SysArgs) : Access Machine ℤ :=
  withEndpoint table args.arg0 capRightSend
    (destructMachine (asciiBytes "Ring-3 Shell REPL Wipe Command"))

/-- The switch of `syscall_dispatch`. -/
def Sys.run (K : KernelLayout) (cpu : TaskRegs) (table : UInt64) (args : SysArgs) :
    Sys → Access Machine ℤ
  | .yield => do
    modify fun m => m.withSched (schedYield K cpu m.kernel.sched)
    pure sysretOk
  | .write => sysWrite table args
  | .capSend => sysCapMsg K cpu .send table args
  | .capRecv => sysCapMsg K cpu .recv table args
  | .exit => do
    modify fun m => m.withSched (sysExit K cpu m.kernel.sched)
    pure sysretOk
  | .readKey => sysReadKey table args
  | .torCell => sysTorCell table args
  | .sysinfo => sysSysinfo args
  | .socket => sysSocket table args
  | .connect => sysConnect table args
  | .send => sysSend table args
  | .recv => sysRecv table args
  | .pqcKem => sysPqcKem args
  | .emergencyWipe => sysEmergencyWipe table args

def syscallDispatch (K : KernelLayout) (cpu : TaskRegs) (num : UInt64) (args : SysArgs) :
    Access Machine ℤ := do
  let m ← get
  match m.kernel.sched.current with
  | none => pure sysretEaccess
  | some cur =>
    match Sys.ofNumber num with
    | none => pure sysretEbadcall
    | some call => call.run K cpu (m.kernel.sched.taskTable cur).capTable args

end StyxOS
