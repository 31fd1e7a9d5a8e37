import StyxOS.Library.Layout
import StyxOS.Library.Run
import StyxOS.Storage.UsbMsc

/-! # Commands and their status blocks

The driver over bulk pipes whose IN transfers may bring fewer bytes than were
asked for. What does not arrive leaves the buffer as it was: the caller's for
the data, the stack for the status block. A call that returns zero is compared
with what the device answered to its command.
-/

namespace StyxOS

open ByteMem StepSystem

/-- The bulk pipes of a device: whether a transfer succeeds, and what an IN transfer brings. -/
structure BulkDevice (σ : Type*) where
  bulkOut : σ → List UInt8 → Bool × σ
  bulkIn : σ → (n : ℕ) → Bool × {b : List UInt8 // b.length ≤ n} × σ

/-- A buffer after bytes have arrived at its beginning. -/
def overwrite (buf arrived : List UInt8) : List UInt8 := arrived ++ buf.drop arrived.length

theorem overwrite_of_length_eq {buf arrived : List UInt8} (h : arrived.length = buf.length) :
    overwrite buf arrived = arrived := by
  rw [overwrite, h, List.drop_length, List.append_nil]

@[simp] theorem length_overwrite {buf arrived : List UInt8} (h : arrived.length ≤ buf.length) :
    (overwrite buf arrived).length = buf.length := by
  rw [overwrite, List.length_append, List.length_drop]
  omega

/-- `dCSWTag` and `dCSWDataResidue`. -/
def cswTag (csw : List UInt8) : ℕ := leVal ((csw.drop 4).take 4)
def cswResidue (csw : List UInt8) : ℕ := leVal ((csw.drop 8).take 4)

/-- The thirteen bytes of a `csw_t` that tells of no residue. -/
def cswBytes (tag : UInt32) (status : UInt8) : List UInt8 :=
  leBytes 4 0x53425355 ++ (leBytes 4 tag.toNat ++ (leBytes 4 0 ++ [status]))

theorem eq_cswBytes_iff {csw : List UInt8} {tag : UInt32} {status : UInt8} :
    csw = cswBytes tag status ↔ csw.length = 13 ∧ cswSigned csw = true ∧
      cswTag csw = tag.toNat ∧ cswResidue csw = 0 ∧ cswStatus csw = status := by
  constructor
  · rintro rfl
    have htag : tag.toNat < 256 ^ 4 := tag.toNat_lt
    refine ⟨by simp [cswBytes], ?_, ?_, ?_, ?_⟩
    · rw [cswSigned, cswBytes, List.take_left' (length_leBytes 4 _), leVal_leBytes]
      rfl
    · rw [cswTag, cswBytes, List.drop_left' (length_leBytes 4 _),
        List.take_left' (length_leBytes 4 _), leVal_leBytes, Nat.mod_eq_of_lt htag]
    · rw [cswResidue, cswBytes, ← List.append_assoc, List.drop_left' (by simp),
        List.take_left' (length_leBytes 4 _), leVal_leBytes, Nat.zero_mod]
    · rfl
  · rintro ⟨hlen, hsigned, htag, hresidue, hstatus⟩
    have hword : ∀ bs : List UInt8, bs.length = 4 → bs = leBytes 4 (leVal bs) := fun bs hbs => by
      rw [← hbs, leBytes_leVal]
    have hsign : csw.take 4 = leBytes 4 0x53425355 := by
      rw [hword (csw.take 4) (by simp [hlen]), beq_iff_eq.mp hsigned]
    have hown : (csw.drop 4).take 4 = leBytes 4 tag.toNat := by
      rw [← htag]
      exact hword _ (by simp [hlen])
    have hnone : (csw.drop 8).take 4 = leBytes 4 0 := by
      rw [← hresidue]
      exact hword _ (by simp [hlen])
    have hlast : csw.drop 12 = [status] := by
      rw [← hstatus, cswStatus, List.getD_eq_getElem _ _ (by omega),
        List.drop_eq_getElem_cons (by omega), List.drop_eq_nil_of_le (by omega)]
    rw [cswBytes, ← hsign, ← hown, ← hnone, ← hlast]
    conv_lhs => rw [← List.take_append_drop 4 csw, ← List.take_append_drop 4 (csw.drop 4),
      ← List.take_append_drop 4 ((csw.drop 4).drop 4)]
    rw [List.drop_drop, List.drop_drop]

/-- What a device answers to a command: whether each transfer succeeds, the data of the data phase,
the bytes of the status block, and the device afterwards. -/
structure Answer (σ : Type*) where
  cbwOk : Bool
  dataOk : Bool
  data : List UInt8
  cswOk : Bool
  csw : List UInt8
  dev : σ

namespace BulkDevice

variable {σ : Type*} (D : BulkDevice σ)

/-! ### The driver -/

/-- The data phase of `bot_execute`: whether it succeeds, and the buffer and the device after it. -/
def dataPhase (dev : σ) (buf : List UInt8) (dataIn : Bool) : Bool × List UInt8 × σ :=
  if buf.length = 0 then (true, buf, dev)
  else if dataIn then
    let (ok, arrived, dev) := D.bulkIn dev buf.length
    (ok, overwrite buf arrived, dev)
  else
    let (ok, dev) := D.bulkOut dev buf
    (ok, buf, dev)

/-- `bot_execute`, with what the stack holds where its status block is. -/
def botExecute (dev : σ) (cbw : Cbw) (buf : List UInt8) (dataIn : Bool) (stack : List UInt8) :
    ℤ × List UInt8 × σ :=
  let (ok, dev) := D.bulkOut dev cbw.toBytes
  if !ok then (-1, buf, dev)
  else
    let (ok, buf, dev) := D.dataPhase dev buf dataIn
    if !ok then (-2, buf, dev)
    else
      let (ok, arrived, dev) := D.bulkIn dev 13
      let csw := overwrite stack arrived
      if !ok then (-3, buf, dev)
      else if !cswSigned csw then (-4, buf, dev)
      else if cswStatus csw ≠ 0 then (-5, buf, dev)
      else (0, buf, dev)

/-- The device to a driver that expects whole transfers. -/
def transport : Transport σ where
  bulkOut dev b := (if (D.bulkOut dev b).1 then 0 else -1, (D.bulkOut dev b).2)
  bulkIn dev n :=
    (if (D.bulkIn dev n).1 then 0 else -1, (D.bulkIn dev n).2.1, (D.bulkIn dev n).2.2)

def usbMscWriteSector (s : Storage σ) (lba : UInt32) (buf stack : List UInt8) : ℤ × Storage σ :=
  let dataPtr := if s.encryptionEnabled then aes256XtsEncryptSector s.xtsCtx lba buf else buf
  let (rc, _, dev) := D.botExecute s.dev (writeCbw s.tag lba) dataPtr false stack
  (rc, { s with dev := dev, tag := s.tag + 1 })

/-- `usb_msc_read_sector` into `buf`. The self-destruct drops the codes of its writes. -/
def usbMscReadSector (csprng : ℕ → List UInt8) (s : Storage σ) (lba : UInt32)
    (buf stack : List UInt8) : ℤ × List UInt8 × Storage σ :=
  let (rc, buf, dev) := D.botExecute s.dev (readCbw s.tag lba) buf true stack
  let s := { s with dev := dev, tag := s.tag + 1 }
  if rc = 0 ∧ s.encryptionEnabled = true then
    let buf := aes256XtsDecryptSector s.xtsCtx lba buf
    if integrityVerifySector s lba buf then (rc, buf, s)
    else (rc, buf, destructTrigger D.transport csprng s)
  else (rc, buf, s)

/-! ### Answers -/

/-- What the device answers to a command, if all phases are reached. -/
def answer (dev : σ) (cbw : Cbw) (buf : List UInt8) (dataIn : Bool) : Answer σ :=
  let (cbwOk, dev) := D.bulkOut dev cbw.toBytes
  let (dataOk, data, dev) :=
    if dataIn then
      let (ok, arrived, dev) := D.bulkIn dev buf.length
      (ok, arrived.1, dev)
    else
      let (ok, dev) := D.bulkOut dev buf
      (ok, buf, dev)
  let (cswOk, csw, dev) := D.bulkIn dev 13
  ⟨cbwOk, dataOk, data, cswOk, csw, dev⟩

end BulkDevice

namespace Answer

variable {σ : Type*} (a : Answer σ)

/-- What the driver looks at: no transfer fails, and the buffer of the status block shows the
signature and a good status. -/
structure Accepted (stack : List UInt8) : Prop where
  cbw : a.cbwOk = true
  data : a.dataOk = true
  csw : a.cswOk = true
  signed : cswSigned (overwrite stack a.csw) = true
  status : cswStatus (overwrite stack a.csw) = 0

/-- The code that the driver makes of an answer. -/
def rc (stack : List UInt8) : ℤ :=
  if !a.cbwOk then -1
  else if !a.dataOk then -2
  else if !a.cswOk then -3
  else if !cswSigned (overwrite stack a.csw) then -4
  else if cswStatus (overwrite stack a.csw) ≠ 0 then -5
  else 0

/-- The answers that do not mislead the driver: a transfer fails, or the buffer of the status block
shows another signature or a bad status, or a full sector moves and the thirteen bytes of the good
status block for the tag arrive. -/
inductive Honest (stack : List UInt8) (tag : UInt32) : Prop
  | cbwFails (h : a.cbwOk = false)
  | dataFails (h : a.dataOk = false)
  | cswFails (h : a.cswOk = false)
  | unsigned (h : cswSigned (overwrite stack a.csw) = false)
  | badStatus (h : cswStatus (overwrite stack a.csw) ≠ 0)
  | whole (data : a.data.length = 512) (csw : a.csw = cswBytes tag 0)

variable {a} {stack : List UInt8} {tag : UInt32}

end Answer

/-! ### Calls -/

/-- A call of the driver, with the buffer of the caller and what the stack holds. -/
inductive BulkCall
  | read (lba : UInt32) (buf : Sector) (stack : Bytes 13)
  | write (lba : UInt32) (buf : Sector) (stack : Bytes 13)

def BulkCall.stack : BulkCall → List UInt8
  | read _ _ stack | write _ _ stack => stack.1

namespace BulkDevice

variable {σ : Type*} (D : BulkDevice σ) (csprng : ℕ → List UInt8)

/-- What a call returns, the buffer of its caller afterwards, and the storage. -/
def exec (s : Storage σ) : BulkCall → ℤ × List UInt8 × Storage σ
  | .read lba buf stack => D.usbMscReadSector csprng s lba buf.1 stack.1
  | .write lba buf stack =>
    let (rc, s) := D.usbMscWriteSector s lba buf.1 stack.1
    (rc, buf.1, s)

/-- The bytes of a write as they are sent. -/
def outData (s : Storage σ) (lba : UInt32) (buf : Sector) : List UInt8 :=
  if s.encryptionEnabled then aes256XtsEncryptSector s.xtsCtx lba buf.1 else buf.1

def answerTo (s : Storage σ) : BulkCall → Answer σ
  | .read lba buf _ => D.answer s.dev (readCbw s.tag lba) buf.1 true
  | .write lba buf _ => D.answer s.dev (writeCbw s.tag lba) (outData s lba buf) false

/-- The buffer that a caller is to get: what has arrived for a read, deciphered, or what a write was
given. -/
def handedOut (s : Storage σ) : BulkCall → List UInt8
  | .read lba buf stack =>
    let data := (D.answerTo s (.read lba buf stack)).data
    if s.encryptionEnabled then aes256XtsDecryptSector s.xtsCtx lba data else data
  | .write _ buf _ => buf.1

/-- The command block of a call for a tag. -/
def cbwFor (tag lba : UInt32) (dataIn : Bool) : Cbw :=
  if dataIn then readCbw tag lba else writeCbw tag lba

/-- A device that answers in order, with the states in which nothing is pending in it. It takes no
command whose block fails; and where all transfers of a command succeed, a full sector moves, the
thirteen bytes of its own status block come, and nothing is pending afterwards. -/
structure InOrder (Idle : σ → Prop) : Prop where
  refused : ∀ {dev b}, Idle dev → (D.bulkOut dev b).1 = false → Idle (D.bulkOut dev b).2
  answered : ∀ {dev} (tag lba : UInt32) {buf : List UInt8} (dataIn : Bool), Idle dev →
    buf.length = 512 → let a := D.answer dev (cbwFor tag lba dataIn) buf dataIn
    a.cbwOk = true → a.dataOk = true → a.cswOk = true →
      a.data.length = 512 ∧ (∃ status, a.csw = cswBytes tag status) ∧ Idle a.dev

/-- A call whose command block is sent is not broken off. -/
def Unbroken (s : Storage σ) (c : BulkCall) : Prop :=
  s.halted = false → (D.answerTo s c).cbwOk = true →
    (D.answerTo s c).dataOk = true ∧ (D.answerTo s c).cswOk = true

/-! ### What the driver accepts -/

section

variable {D csprng} {dev : σ} {cbw : Cbw} {buf : List UInt8} {dataIn : Bool} {stack : List UInt8}

theorem transport_bulkOut (dev : σ) (b : List UInt8) :
    D.transport.bulkOut dev b = (if (D.bulkOut dev b).1 then 0 else -1, (D.bulkOut dev b).2) := rfl

theorem transport_bulkIn (dev : σ) (n : ℕ) :
    D.transport.bulkIn dev n =
      (if (D.bulkIn dev n).1 then 0 else -1, (D.bulkIn dev n).2.1.1, (D.bulkIn dev n).2.2) := rfl

section

variable (hwhole : ∀ dev n, (D.bulkIn dev n).2.1.1.length = n)
include hwhole

theorem dataPhase_transport (dev : σ) (buf : List UInt8) (dataIn : Bool) :
    StyxOS.dataPhase D.transport dev buf dataIn =
      (if (D.dataPhase dev buf dataIn).1 then 0 else -1, (D.dataPhase dev buf dataIn).2.1,
        (D.dataPhase dev buf dataIn).2.2) := by
  rw [StyxOS.dataPhase, dataPhase]
  split
  · rfl
  · cases dataIn with
    | false => rfl
    | true =>
      simp only [transport, if_true]
      rw [overwrite_of_length_eq (hwhole dev buf.length)]

/-- To such a device the driver is the one that expects whole transfers. -/
theorem botExecute_transport (hstack : stack.length = 13) :
    StyxOS.botExecute D.transport dev cbw buf dataIn = D.botExecute dev cbw buf dataIn stack := by
  have hcode : ∀ ok : Bool, (if ok then (0 : ℤ) else -1) ≠ 0 ↔ (!ok) = true := by decide
  have hcsw : ∀ dev, overwrite stack (D.bulkIn dev 13).2.1.1 = (D.bulkIn dev 13).2.1.1 := by
    intro dev
    exact overwrite_of_length_eq ((hwhole dev 13).trans hstack.symm)
  rw [StyxOS.botExecute, botExecute]
  dsimp only [transport_bulkOut]
  rw [dataPhase_transport hwhole]
  dsimp only [transport_bulkIn]
  simp only [hcode, hcsw]
  rfl

end

end

/-! ### Runs -/

section

variable {D csprng} {s : Storage σ} (lba : UInt32) (buf : Sector) (stack : Bytes 13)

end

/-! ### Devices that answer in order -/

section

variable {D csprng} {s : Storage σ} {Idle : σ → Prop}

/-- Where the device is after an exchange that is not broken off. -/
theorem dev_botExecute {dev : σ} {cbw : Cbw} {buf stack : List UInt8} {dataIn : Bool}
    (hbuf : buf.length ≠ 0) (h : (D.answer dev cbw buf dataIn).cbwOk = true →
      (D.answer dev cbw buf dataIn).dataOk = true ∧ (D.answer dev cbw buf dataIn).cswOk = true) :
    (D.botExecute dev cbw buf dataIn stack).2.2 =
      if (D.answer dev cbw buf dataIn).cbwOk then (D.answer dev cbw buf dataIn).dev
        else (D.bulkOut dev cbw.toBytes).2 := by
  cases dataIn with
  | false =>
    simp only [answer, Bool.false_eq_true, if_false] at h ⊢
    simp only [botExecute, dataPhase, hbuf, if_false, Bool.false_eq_true]
    split_ifs <;> simp_all
  | true =>
    simp only [answer, if_true] at h ⊢
    simp only [botExecute, dataPhase, hbuf, if_false, if_true]
    split_ifs <;> simp_all

theorem length_outData (s : Storage σ) (lba : UInt32) (buf : Sector) :
    (outData s lba buf).length = 512 := by
  rw [outData]
  split
  · exact length_aes256XtsEncryptSector _ _ _
  · exact buf.2

/-- What an exchange with a device that answers in order comes to. -/
theorem InOrder.answer {dev : σ} (hD : D.InOrder Idle) (hidle : Idle dev) (tag lba : UInt32)
    (dataIn : Bool) {buf stack : List UInt8} (hbuf : buf.length = 512) (hstack : stack.length = 13)
    (h : (D.answer dev (cbwFor tag lba dataIn) buf dataIn).cbwOk = true →
      (D.answer dev (cbwFor tag lba dataIn) buf dataIn).dataOk = true ∧
        (D.answer dev (cbwFor tag lba dataIn) buf dataIn).cswOk = true) :
    (D.answer dev (cbwFor tag lba dataIn) buf dataIn).Honest stack tag ∧
      Idle (D.botExecute dev (cbwFor tag lba dataIn) buf dataIn stack).2.2 := by
  rw [dev_botExecute (by omega) h]
  by_cases hcbw : (D.answer dev (cbwFor tag lba dataIn) buf dataIn).cbwOk = true
  · obtain ⟨hdata, hcsw⟩ := h hcbw
    obtain ⟨hlen, ⟨status, hstatus⟩, hnext⟩ := hD.answered tag lba dataIn hidle hbuf hcbw hdata hcsw
    rw [if_pos hcbw]
    refine ⟨?_, hnext⟩
    by_cases hgood : status = 0
    · exact .whole hlen (by rw [hstatus, hgood])
    · obtain ⟨hwhole, -, -, -, hbyte⟩ := eq_cswBytes_iff.mp hstatus
      refine .badStatus ?_
      rw [overwrite_of_length_eq (hwhole.trans hstack.symm), hbyte]
      exact hgood
  · rw [if_neg hcbw]
    have hfailed : (D.bulkOut dev (cbwFor tag lba dataIn).toBytes).1 = false :=
      Bool.eq_false_iff.mpr hcbw
    exact ⟨.cbwFails (Bool.eq_false_iff.mpr hcbw), hD.refused hidle hfailed⟩

theorem InOrder.exec (hD : D.InOrder Idle) (csprng : ℕ → List UInt8) (hidle : Idle s.dev)
    (hrun : s.halted = false) {c : BulkCall} (h : D.Unbroken s c) :
    (D.answerTo s c).Honest c.stack s.tag ∧
      ((D.exec csprng s c).2.2.halted = true ∨ Idle (D.exec csprng s c).2.2.dev) := by
  cases c with
  | write lba buf stack =>
    obtain ⟨hhonest, hnext⟩ := hD.answer hidle s.tag lba false (length_outData s lba buf) stack.2
      (h hrun)
    exact ⟨hhonest, .inr hnext⟩
  | read lba buf stack =>
    obtain ⟨hhonest, hnext⟩ := hD.answer hidle s.tag lba true buf.2 stack.2 (h hrun)
    refine ⟨hhonest, ?_⟩
    rw [BulkDevice.exec, usbMscReadSector]
    dsimp only
    split
    · split
      · exact .inr hnext
      · exact .inl rfl
    · exact .inr hnext

end

end BulkDevice

end StyxOS
