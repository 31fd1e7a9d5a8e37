import Mathlib.Tactic.IntervalCases
import StyxOS.Library.ByteWriter
import StyxOS.Library.TpmWire
import StyxOS.Tpm.Attestation

/-! # The command buffers

The three functions of `tpm_tis.c` that build a command by hand, write by write into
a buffer on the stack. What they should send is the command of TPM 2.0, with its
size; what `tpm2_pcr_read_real` should return is the digest of the response.
-/

namespace StyxOS.Tpm

open ByteMem TpmWire

/-! ### The buffers -/

section

variable (stack : ℕ → UInt8)

/-- `cmd` of `tpm2_pcr_extend_real`, with the size filled in. The size is taken from what the
digest leaves of `i`. -/
def pcrExtendBuffer (o : Overrun) (pcrIndex : UInt32) (digest : List UInt8) : ByteWriter :=
  let cmd := ByteWriter.cleared 61 stack
  let cmd := cmd.pushAll [0x80, 0x02]
  let cmd := cmd.pushAll [0x00, 0x00, 0x00, 0x00]
  let cmd := cmd.pushAll [0x00, 0x00, 0x01, 0x82]
  let cmd := cmd.pushAll [0x00, 0x00, 0x00, pcrIndex.toUInt8]
  let cmd := cmd.pushAll [0x00, 0x00, 0x00, 0x09]
  let cmd := cmd.pushAll [0x40, 0x00, 0x00, 0x09]
  let cmd := cmd.pushAll [0x00, 0x00]
  let cmd := cmd.pushAll [0x00]
  let cmd := cmd.pushAll [0x00, 0x00]
  let cmd := cmd.pushAll [0x00, 0x00, 0x00, 0x01]
  let cmd := cmd.pushAll [0x00, 0x0B]
  let cmd := cmd.pushAll (digest.take 32)
  let i := o.length (digestTail digest)
  let cmd := cmd.overrun i.toNat (o.behind (digestTail digest))
  (((cmd.put 2 0x00).put 3 0x00).put 4 (i >>> 8).toUInt8).put 5 i.toUInt8

/-- `cmd` of `tpm2_pcr_read_real`: the bit of the PCR is set, and the bitmap is skipped. -/
def pcrReadBuffer (pcrIndex : UInt32) : ByteWriter :=
  let cmd := ByteWriter.cleared 33 stack
  let cmd := cmd.pushAll [0x80, 0x01]
  let cmd := cmd.pushAll [0x00, 0x00, 0x00, 0x21]
  let cmd := cmd.pushAll [0x00, 0x00, 0x01, 0x7E]
  let cmd := cmd.pushAll [0x00, 0x00, 0x00, 0x01]
  let cmd := cmd.pushAll [0x00, 0x0B]
  let cmd := cmd.pushAll [0x03]
  let cmd :=
    if pcrIndex < 8 then cmd.put (cmd.cursor + 0) (1 <<< pcrIndex).toUInt8
    else if pcrIndex < 16 then cmd.put (cmd.cursor + 1) (1 <<< (pcrIndex - 8)).toUInt8
    else if pcrIndex < 24 then cmd.put (cmd.cursor + 2) (1 <<< (pcrIndex - 16)).toUInt8
    else cmd
  cmd.skip 3

/-- `cmd` of `tpm2_quote_real`, with the size filled in. -/
def quoteBuffer (pcrMask : UInt32) (nonce : List UInt8) : ByteWriter :=
  let cmd := ByteWriter.cleared 128 stack
  let cmd := cmd.pushAll [0x80, 0x02]
  let cmd := cmd.pushAll [0x00, 0x00, 0x00, 0x00]
  let cmd := cmd.pushAll [0x00, 0x00, 0x01, 0x58]
  let cmd := cmd.pushAll [0x40, 0x00, 0x00, 0x0C]
  let cmd := cmd.pushAll [0x00, 0x00, 0x00, 0x09]
  let cmd := cmd.pushAll [0x40, 0x00, 0x00, 0x09]
  let cmd := cmd.pushAll [0x00, 0x00]
  let cmd := cmd.pushAll [0x00]
  let cmd := cmd.pushAll [0x00, 0x00]
  let cmd := cmd.pushAll [0x00, 0x20]
  let cmd := cmd.pushAll (nonce.take 32)
  let cmd := cmd.pushAll [0x00, 0x10]
  let cmd := cmd.pushAll [0x00, 0x00, 0x00, 0x01]
  let cmd := cmd.pushAll [0x00, 0x0B]
  let cmd := cmd.pushAll [0x03]
  let cmd := cmd.pushAll [(pcrMask &&& 0xFF).toUInt8, ((pcrMask >>> 8) &&& 0xFF).toUInt8,
    ((pcrMask >>> 16) &&& 0xFF).toUInt8]
  let i := UInt64.ofNat cmd.cursor
  (((cmd.put 2 (i >>> 24).toUInt8).put 3 (i >>> 16).toUInt8).put 4 (i >>> 8).toUInt8).put 5
    i.toUInt8

end

/-! ### What the buffers hold -/

section

variable {stack : ℕ → UInt8} {o : Overrun} {i : UInt32} {bs : List UInt8}

theorem forall_pcr {p : UInt32 → Prop} (h : ∀ n < 24, p (UInt32.ofNat n)) (hi : i < 24) : p i := by
  have hp := h i.toNat (UInt32.lt_iff_toNat_lt.mp hi)
  rwa [UInt32.ofNat_toNat] at hp

theorem take_digest (bs : List UInt8) : bs.take 32 = bs.take 28 ++ digestTail bs := by
  have hsplit := (List.take_append_drop 28 (bs.take 32)).symm
  rwa [List.take_take] at hsplit

theorem pcrExtendBuffer_written (h : 32 ≤ bs.length) :
    (pcrExtendBuffer stack o i bs).written = pcrExtendCmd o i bs := by
  unfold pcrExtendBuffer pcrExtendCmd
  dsimp only
  rw [ByteWriter.put_overrun (by simp), ByteWriter.put_overrun (by simp),
    ByteWriter.put_overrun (by simp), ByteWriter.put_overrun (by simp),
    ByteWriter.written_overrun (by simp [h])]
  refine List.map_congr_left fun k _ => ?_
  have hsize : (ByteWriter.cleared 61 stack).size = 61 := rfl
  simp only [ByteWriter.size_put, ByteWriter.size_pushAll, hsize]
  by_cases hk : k < 61
  · rw [if_pos hk, if_pos hk]
    refine Eq.trans (congrArg (fun l : List UInt8 => l.getD k 0) ?_)
      (List.getD_append _ (digestTail bs) 0 k ?_)
    · simp [passwordSession, take_digest]
    · have hshort : 28 ≤ bs.length := by omega
      simp [passwordSession, hshort]
      omega
  · rw [if_neg hk, if_neg hk]

theorem pcrExtendBuffer_stray (h : 32 ≤ bs.length) :
    (pcrExtendBuffer stack o i bs).stray = [61, 62, 63, 64] := by
  simp [pcrExtendBuffer, ByteWriter.stray_put, ByteWriter.stray_pushAll, h, List.range'_succ]

theorem pcrReadBuffer_written (hi : i < 24) : (pcrReadBuffer stack i).written = pcrReadCmd i := by
  have hzero : ∀ bs : List UInt8, bs.length = 17 → ∀ m < 3,
      ((ByteWriter.cleared 33 stack).pushAll bs).mem
        (((ByteWriter.cleared 33 stack).pushAll bs).cursor + m) = 0 := by
    intro bs hbs m hm
    rw [ByteWriter.cursor_pushAll, ByteWriter.cursor_cleared, hbs,
      ByteWriter.mem_pushAll _ (by simp; omega), ByteWriter.mem_cleared (by omega)]
  unfold pcrReadBuffer pcrReadCmd
  simp only [ByteWriter.pushAll_pushAll, if_pos hi, apply_ite (ByteWriter.skip · 3),
    apply_ite ByteWriter.written]
  rw [ByteWriter.written_put_skip (hzero _ rfl), ByteWriter.written_put_skip (hzero _ rfl),
    ByteWriter.written_put_skip (hzero _ rfl), ByteWriter.written_pushAll]
  split
  · rfl
  · split <;> rfl

theorem pcrReadBuffer_stray : (pcrReadBuffer stack i).stray = [] := by
  unfold pcrReadBuffer
  simp only [ByteWriter.pushAll_pushAll, apply_ite (ByteWriter.skip · 3),
    apply_ite ByteWriter.stray, ByteWriter.stray_skip]
  rw [ByteWriter.stray_put (by simp), ByteWriter.stray_put (by simp),
    ByteWriter.stray_put (by simp), ByteWriter.stray_pushAll]
  simp only [ite_self]
  rfl

theorem quoteBuffer_written {mask : UInt32} (h : bs.length = 32) :
    (quoteBuffer stack mask bs).written = quoteCmd mask bs := by
  have hmask : ∀ b : UInt8, b &&& 255 = b := fun _ => UInt8.and_neg_one
  have hsize : ((73 : UInt64) >>> 24).toUInt8 = 0 ∧ ((73 : UInt64) >>> 16).toUInt8 = 0 ∧
      ((73 : UInt64) >>> 8).toUInt8 = 0 := ⟨rfl, rfl, rfl⟩
  simpa [quoteBuffer, quoteCmd, passwordSession, pcrSelection, h, List.take_of_length_le h.le,
    hmask] using hsize

theorem quoteBuffer_stray {mask : UInt32} (h : bs.length = 32) :
    (quoteBuffer stack mask bs).stray = [] := by
  simp [quoteBuffer, ByteWriter.stray_put, ByteWriter.stray_pushAll, h]

end

/-! ### What the TPM receives -/

section

variable {σ : Type*} (dev : TpmDevice σ)

/-- The TPM, with the bytes that are written to its FIFO on record. -/
def TpmDevice.recorded : TpmDevice (σ × List UInt8) where
  read8 off d := ((dev.read8 off d.1).1, (dev.read8 off d.1).2, d.2)
  read32 off d := ((dev.read32 off d.1).1, (dev.read32 off d.1).2, d.2)
  write8 off v d := (dev.write8 off v d.1, if off = tisDataFifo then d.2 ++ [v] else d.2)
  uninit d := dev.uninit d.1
  overrun := dev.overrun

variable {dev} {d : σ} {log cmd bs : List UInt8}

theorem tisWaitSts_recorded (mask val : UInt8) (timeoutMs : ℕ) :
    tisWaitSts dev.recorded mask val timeoutMs (d, log) =
      ((tisWaitSts dev mask val timeoutMs d).1, (tisWaitSts dev mask val timeoutMs d).2, log) := by
  unfold tisWaitSts
  induction timeoutMs * 1000 generalizing d with
  | zero => rfl
  | succ n ih =>
    rw [poll, poll]
    by_cases h : ((dev.read8 tisSts d).1 &&& mask == val) = true
    · simp only [TpmDevice.recorded, h, if_true]
    · simp only [TpmDevice.recorded, h]
      exact ih

theorem writeFifo_recorded (h : (writeFifo dev bs d).1 = true) :
    writeFifo dev.recorded bs (d, log) = (true, (writeFifo dev bs d).2, log ++ bs) := by
  induction bs generalizing d log with
  | nil => simp [writeFifo]
  | cons b bs ih =>
    rw [writeFifo] at h ⊢
    rw [writeFifo, tisWaitSts_recorded]
    cases hwait : tisWaitSts dev tisStsExpect tisStsExpect 10 d with
    | mk expected d' =>
      cases expected with
      | false => simp [hwait] at h
      | true =>
        simp only [hwait, if_true] at h ⊢
        exact (ih h).trans (by simp)

theorem submit_recorded (hcmd : cmd ≠ []) (h : (submit dev cmd d).1 = true) :
    submit dev.recorded cmd (d, log) = (true, (submit dev cmd d).2, log ++ cmd) := by
  have hwrite : ∀ {d : σ} {log : List UInt8} (off : UInt32) (v : UInt8), off ≠ tisDataFifo →
      dev.recorded.write8 off v (d, log) = (dev.write8 off v d, log) :=
    fun off v hoff => Prod.ext rfl (if_neg hoff)
  have hfifo : ∀ {d : σ} {log : List UInt8} (v : UInt8),
      dev.recorded.write8 tisDataFifo v (d, log) = (dev.write8 tisDataFifo v d, log ++ [v]) :=
    fun v => rfl
  unfold submit at h ⊢
  dsimp only at h ⊢
  rw [hwrite _ _ (by decide), tisWaitSts_recorded]
  cases hready : tisWaitSts dev tisStsCmdReady tisStsCmdReady 50
      (dev.write8 tisSts tisStsCmdReady d) with
  | mk ready d' =>
    cases ready with
    | false => simp [hready] at h
    | true =>
      simp only [hready, if_true] at h ⊢
      cases hwritten : writeFifo dev cmd.dropLast d' with
      | mk written d'' =>
        cases written with
        | false => simp [hwritten] at h
        | true =>
          rw [writeFifo_recorded (by rw [hwritten])]
          simp only [hwritten, if_true] at h ⊢
          have hlast : cmd.dropLast ++ [cmd.getLastD 0] = cmd := by
            rw [List.getLastD_eq_getLast?, List.getLast?_eq_some_getLast hcmd, Option.getD_some,
              List.dropLast_append_getLast hcmd]
          rw [hfifo, hwrite _ _ (by decide), tisWaitSts_recorded, h, List.append_assoc, hlast]

end

/-! ### What the functions should send and return -/

/-- A call of one of the three functions. -/
inductive Call
  | pcrExtend (pcrIndex : UInt32) (digest : List UInt8)
  | pcrRead (pcrIndex : UInt32)
  | quote (pcrMask : UInt32) (nonce : List UInt8)

def emptyPassword : TpmWire.Session where
  handle := 0x40000009
  nonce := []
  attributes := 0
  hmac := []

def sha256Alg : ℕ := 0x000B

namespace Call

def Valid : Call → Prop
  | pcrExtend i digest => i < 24 ∧ 32 ≤ digest.length
  | pcrRead i => i < 24
  | quote _ nonce => nonce.length = 32

def buffer (o : Overrun) (stack : ℕ → UInt8) : Call → ByteWriter
  | pcrExtend i digest => pcrExtendBuffer stack o i digest
  | pcrRead i => pcrReadBuffer stack i
  | quote mask nonce => quoteBuffer stack mask nonce

/-- The command of TPM 2.0 that the function is for. -/
def command : Call → Command
  | pcrExtend i digest =>
    { code := 0x182
      handles := [i.toNat]
      sessions := [emptyPassword]
      parameters := counted [beBytes 2 sha256Alg ++ digest.take 32] }
  | pcrRead i =>
    { code := 0x17E
      handles := []
      sessions := []
      parameters := TpmWire.pcrSelection sha256Alg fun k => k == i.toNat }
  | quote mask nonce =>
    { code := 0x158
      handles := [0x4000000C]
      sessions := [emptyPassword]
      parameters := TpmWire.buffer nonce ++ beBytes 2 0x0010 ++
        TpmWire.pcrSelection sha256Alg mask.toNat.testBit }

variable (o : Overrun) (c : Call)

/-- Nothing is written behind the buffer. -/
def Inside : Prop := ∀ stack, (c.buffer o stack).stray = []

/-- Whichever TPM takes the command has received as many bytes as the size field says. -/
def Sized : Prop :=
  ∀ (stack : ℕ → UInt8) (σ : Type) (dev : TpmDevice σ) (d : σ),
    (submit dev (c.buffer o stack).written d).1 = true →
      let received := (submit dev.recorded (c.buffer o stack).written (d, [])).2.2
      sizeField received = received.length

/-- But for the size field, what is sent is the command. -/
def Placed : Prop := ∀ stack, ∃ size, (c.buffer o stack).written = c.command.bytes size

/-- From this response a read of a PCR returns the digest. -/
def Returns (r : PcrReadResponse) : Call → Prop
  | pcrRead i => ∀ (σ : Type) (dev : TpmDevice σ) (s s' : Tis σ) (a : Answer),
    Exchange dev (pcrReadCmd i) 256 s a s' → a.sent = some r.bytes →
      tpm2PcrReadReal dev i s = some (some r.digest, s')
  | _ => True

/-- The command of the call and what comes of its response are coded correctly. -/
structure Coded : Prop where
  inside : c.Inside o
  sized : c.Sized o
  placed : c.Placed o
  returns : ∀ r, c.Returns r

variable {o c} {i : UInt32} {mask : UInt32} {bs : List UInt8}

theorem authorization_emptyPassword {c : Command} (h : c.sessions = [emptyPassword]) :
    c.tag = 0x8002 ∧ c.authorization = passwordSession := by
  unfold Command.tag Command.authorization
  rw [h]
  exact ⟨rfl, by decide⟩

theorem command_pcrExtend (hi : i < 24) (size : ℕ) : (pcrExtend i bs).command.bytes size =
    List.flatten [[0x80, 0x02], beBytes 4 size, [0x00, 0x00, 0x01, 0x82],
      [0x00, 0x00, 0x00, i.toUInt8], passwordSession, [0x00, 0x00, 0x00, 0x01, 0x00, 0x0B],
      bs.take 28] ++ digestTail bs := by
  have hhandle : beBytes 4 i.toNat = [0, 0, 0, i.toUInt8] :=
    forall_pcr (p := fun i => beBytes 4 i.toNat = [0, 0, 0, i.toUInt8]) (by decide) hi
  have hnumbers : beBytes 2 0x8002 = [0x80, 0x02] ∧ beBytes 4 0x182 = [0, 0, 1, 0x82] ∧
      beBytes 4 1 = [0, 0, 0, 1] ∧ beBytes 2 sha256Alg = [0, 0x0B] := by decide
  obtain ⟨htag, hauth⟩ := authorization_emptyPassword (c := (pcrExtend i bs).command) rfl
  rw [Command.bytes, htag, hauth]
  simp [command, counted, hnumbers, hhandle, take_digest]

theorem written_pcrRead (hi : i < 24) : pcrReadCmd i = (pcrRead i).command.bytes 33 :=
  forall_pcr (p := fun i => pcrReadCmd i = (pcrRead i).command.bytes 33) (by decide) hi

theorem written_quote (h : bs.length = 32) :
    quoteCmd mask bs = (quote mask bs).command.bytes 73 := by
  have hnumbers : beBytes 2 0x8002 = [0x80, 0x02] ∧ beBytes 4 73 = [0, 0, 0, 73] ∧
      beBytes 4 0x158 = [0, 0, 1, 0x58] ∧ beBytes 4 0x4000000C = [0x40, 0, 0, 0x0C] ∧
      beBytes 2 32 = [0, 0x20] ∧ beBytes 2 0x0010 = [0, 0x10] ∧ beBytes 4 1 = [0, 0, 0, 1] ∧
        beBytes 2 sha256Alg = [0, 0x0B] := by decide
  obtain ⟨htag, hauth⟩ := authorization_emptyPassword (c := (quote mask bs).command) rfl
  rw [Command.bytes, htag, hauth]
  simp [command, quoteCmd, TpmWire.buffer, h, TpmWire.pcrSelection, pcrBitmap_mask, pcrSelection,
    counted, hnumbers]

theorem length_pcrExtendCmd :
    (pcrExtendCmd o i bs).length = (o.length (digestTail bs)).toNat := by
  simp [pcrExtendCmd]

theorem sizeField_pcrExtendCmd :
    sizeField (pcrExtendCmd o i bs) =
      if (o.length (digestTail bs)).toNat < 6 then 0
      else (o.length (digestTail bs)).toNat % 65536 := by
  unfold pcrExtendCmd
  dsimp only
  generalize o.length (digestTail bs) = len
  generalize hf : (fun k => if k < 61 then (List.flatten
    [[0x80, 0x02, 0x00, 0x00, (len >>> 8).toUInt8, len.toUInt8, 0x00, 0x00, 0x01, 0x82],
      [0x00, 0x00, 0x00, i.toUInt8], passwordSession, [0x00, 0x00, 0x00, 0x01, 0x00, 0x0B],
      bs.take 28] : List UInt8).getD k 0 else o.behind (digestTail bs) k) = f
  have h2 : f 2 = 0 := by rw [← hf]; rfl
  have h3 : f 3 = 0 := by rw [← hf]; rfl
  have h4 : f 4 = (len >>> 8).toUInt8 := by rw [← hf]; rfl
  have h5 : f 5 = len.toUInt8 := by rw [← hf]; rfl
  have hhigh : (len >>> 8).toUInt8.toNat = len.toNat / 256 % 256 := by
    rw [UInt64.toNat_toUInt8, UInt64.toNat_shiftRight]
    exact congrArg (· % 256) (Nat.shiftRight_eq_div_pow _ 8)
  have hlow : len.toUInt8.toNat = len.toNat % 256 := UInt64.toNat_toUInt8 len
  rw [sizeField]
  by_cases hshort : len.toNat < 6
  · rw [if_pos hshort]
    have hzero : (len >>> 8).toUInt8 = 0 := UInt8.toNat_inj.mp (by rw [hhigh]; simp; omega)
    rw [hzero] at h4
    clear hf hhigh hlow hzero h5
    generalize len.toNat = n at hshort
    interval_cases n <;> simp [List.range_succ, h2, h3, h4, beVal, leVal]
  · rw [if_neg hshort]
    obtain ⟨n, hn⟩ := Nat.exists_eq_add_of_le (Nat.le_of_not_lt hshort)
    have hfield : (((List.range len.toNat).map f).drop 2).take 4 = [f 2, f 3, f 4, f 5] := by
      rw [hn, List.range_add, List.map_append]
      rfl
    rw [hfield, h2, h3, h4, h5]
    simp only [beVal, List.reverse_cons, List.reverse_nil, List.nil_append, List.cons_append, leVal,
      hhigh, hlow, UInt8.toNat_zero]
    omega

theorem map_getD_range {α : Type*} {xs : List α} {x : α} {n : ℕ} (h : xs.length = n) :
    ((List.range n).map fun k => xs.getD k x) = xs := by
  subst h
  refine List.ext_getElem (by simp) fun k _ hk => ?_
  rw [List.getElem_map, List.getElem_range, List.getD_eq_getElem _ _ hk]

theorem pcrExtendCmd_eq (h : 32 ≤ bs.length) (hlen : o.length (digestTail bs) = 65) :
    pcrExtendCmd o i bs =
      List.flatten [[0x80, 0x02], beBytes 4 65, [0x00, 0x00, 0x01, 0x82],
        [0x00, 0x00, 0x00, i.toUInt8], passwordSession, [0x00, 0x00, 0x00, 0x01, 0x00, 0x0B],
        bs.take 28] ++ (List.range 4).map fun k => o.behind (digestTail bs) (61 + k) := by
  have hsize : beBytes 4 65 = [0, 0, 0, 65] := by decide
  have hcursor : (65 : UInt64).toNat = 61 + 4 := rfl
  have hshort : 28 ≤ bs.length := by omega
  unfold pcrExtendCmd
  dsimp only
  rw [hlen, hcursor, List.range_add, List.map_append, List.map_map]
  refine congrArg₂ (· ++ ·) ?_ (List.map_congr_left fun k _ => if_neg ?_)
  · refine Eq.trans (List.map_congr_left fun k hk => if_pos (List.mem_range.mp hk)) ?_
    rw [map_getD_range (by simp [passwordSession, hshort]), hsize]
    rfl
  · exact Nat.not_lt.mpr (Nat.le_add_right 61 k)

/-- Four bytes behind the buffer hit no variable, and are sent. -/
def Spares (o : Overrun) (bs : List UInt8) : Prop :=
  o.length bs = 65 ∧ ((List.range 4).map fun k => o.behind bs (61 + k)) = bs

theorem placed_pcrExtend_iff (hi : i < 24) (h : 32 ≤ bs.length) :
    (pcrExtend i bs).Placed o ↔ Spares o (digestTail bs) := by
  have hhead : ∀ size, (List.flatten [[0x80, 0x02], beBytes 4 size, [0x00, 0x00, 0x01, 0x82],
      [0x00, 0x00, 0x00, i.toUInt8], passwordSession, [0x00, 0x00, 0x00, 0x01, 0x00, 0x0B],
      bs.take 28]).length = 61 := by
    have hshort : 28 ≤ bs.length := by omega
    simp [passwordSession, hshort]
  have htail : (digestTail bs).length = 4 := by
    rw [digestTail, List.length_drop, List.length_take_of_le h]
  constructor
  · intro hplaced
    obtain ⟨size, hsize⟩ := hplaced fun _ => 0
    rw [buffer, pcrExtendBuffer_written h, command_pcrExtend hi] at hsize
    have hcount := congrArg List.length hsize
    rw [length_pcrExtendCmd, List.length_append, htail, hhead] at hcount
    have hlen : o.length (digestTail bs) = 65 := UInt64.toNat_inj.mp hcount
    rw [pcrExtendCmd_eq h hlen] at hsize
    exact ⟨hlen, List.append_inj_right hsize ((hhead 65).trans (hhead size).symm)⟩
  · rintro ⟨hlen, hbehind⟩ stack
    refine ⟨65, ?_⟩
    rw [buffer, pcrExtendBuffer_written h, command_pcrExtend hi, pcrExtendCmd_eq h hlen, hbehind]

theorem written_pcrRead_eq (hi : i < 24) (stack : ℕ → UInt8) :
    ((pcrRead i).buffer o stack).written = (pcrRead i).command.bytes 33 ∧
      ((pcrRead i).buffer o stack).written.length = 20 := by
  have hwritten : ((pcrRead i).buffer o stack).written = pcrReadCmd i := pcrReadBuffer_written hi
  rw [hwritten]
  exact ⟨written_pcrRead hi, forall_pcr (p := fun i => (pcrReadCmd i).length = 20) (by decide) hi⟩

theorem written_quote_eq (mask : UInt32) (h : bs.length = 32) (stack : ℕ → UInt8) :
    ((quote mask bs).buffer o stack).written = (quote mask bs).command.bytes 73 ∧
      ((quote mask bs).buffer o stack).written.length = 73 := by
  have hwritten : ((quote mask bs).buffer o stack).written = quoteCmd mask bs :=
    quoteBuffer_written h
  rw [hwritten]
  exact ⟨written_quote h, by simp [quoteCmd, passwordSession, pcrSelection, h]⟩

theorem written_ne_nil (hc : c.Valid) (stack : ℕ → UInt8) : (c.buffer o stack).written ≠ [] := by
  intro hnil
  cases c with
  | pcrExtend i digest =>
    rw [buffer, pcrExtendBuffer_written hc.2] at hnil
    exact pcrExtendCmd_ne_nil o i digest hnil
  | pcrRead i =>
    have hlen := (written_pcrRead_eq (o := o) hc stack).2
    rw [hnil] at hlen
    cases hlen
  | quote mask nonce =>
    have hlen := (written_quote_eq (o := o) mask hc stack).2
    rw [hnil] at hlen
    cases hlen

theorem sized_iff_written (hc : c.Valid) :
    c.Sized o ↔ ∀ stack,
      sizeField (c.buffer o stack).written = (c.buffer o stack).written.length := by
  constructor
  · intro h stack
    have hgo : (submit scriptedTpm (c.buffer o stack).written ([[0]], [])).1 = true := by
      rw [submit_scriptedTpm]
    have hsent := h stack _ scriptedTpm _ hgo
    dsimp only at hsent
    rwa [submit_recorded (written_ne_nil hc stack) hgo] at hsent
  · intro h stack σ dev d hgo
    dsimp only
    rw [submit_recorded (written_ne_nil hc stack) hgo, List.nil_append, h]

/-- The size of a read is wrong, and that of an extend is right where two bytes are enough for it
and the command goes behind its place. -/
theorem sized_iff (hc : c.Valid) :
    c.Sized o ↔ (∀ i, c ≠ .pcrRead i) ∧ ∀ i digest, c = .pcrExtend i digest →
      6 ≤ (o.length (digestTail digest)).toNat ∧
        (o.length (digestTail digest)).toNat < 65536 := by
  rw [sized_iff_written hc]
  cases c with
  | pcrExtend i digest =>
    have hpos : (o.length (digestTail digest)).toNat ≠ 0 := fun hzero =>
      o.length_ne_zero _ (UInt64.toNat_inj.mp hzero)
    have hsize : ∀ stack, sizeField ((pcrExtend i digest).buffer o stack).written =
        ((pcrExtend i digest).buffer o stack).written.length ↔
        6 ≤ (o.length (digestTail digest)).toNat ∧
          (o.length (digestTail digest)).toNat < 65536 := by
      intro stack
      rw [buffer, pcrExtendBuffer_written hc.2, sizeField_pcrExtendCmd, length_pcrExtendCmd]
      split <;> omega
    constructor
    · refine fun h => ⟨nofun, ?_⟩
      rintro _ _ ⟨⟩
      exact (hsize fun _ => 0).mp (h _)
    · exact fun h stack => (hsize stack).mpr (h.2 _ _ rfl)
  | pcrRead i =>
    refine ⟨fun h => ?_, fun h => absurd rfl (h.1 i)⟩
    obtain ⟨hwritten, hlen⟩ := written_pcrRead_eq (o := o) hc fun _ => 0
    have hsize := h fun _ => 0
    rw [hlen, hwritten, Command.sizeField_bytes _ (by decide)] at hsize
    cases hsize
  | quote mask nonce =>
    refine ⟨fun _ => ⟨nofun, nofun⟩, fun _ stack => ?_⟩
    obtain ⟨hwritten, hlen⟩ := written_quote_eq (o := o) mask hc stack
    rw [hlen, hwritten, Command.sizeField_bytes _ (by decide)]

theorem placed_iff (hc : c.Valid) :
    c.Placed o ↔ ∀ i digest, c = .pcrExtend i digest → Spares o (digestTail digest) := by
  cases c with
  | pcrExtend i digest =>
    rw [placed_pcrExtend_iff hc.1 hc.2]
    constructor
    · rintro h _ _ ⟨⟩
      exact h
    · exact fun h => h _ _ rfl
  | pcrRead i => exact ⟨fun _ => nofun, fun _ stack => ⟨33, (written_pcrRead_eq hc stack).1⟩⟩
  | quote mask nonce =>
    exact ⟨fun _ => nofun, fun _ stack => ⟨73, (written_quote_eq mask hc stack).1⟩⟩

theorem inside_iff (hc : c.Valid) : c.Inside o ↔ ∀ i digest, c ≠ .pcrExtend i digest := by
  cases c with
  | pcrExtend i digest =>
    refine ⟨fun h => ?_, fun h => absurd rfl (h i digest)⟩
    have hstray := (h fun _ => 0).symm.trans (pcrExtendBuffer_stray hc.2)
    cases hstray
  | pcrRead i => exact ⟨fun _ => nofun, fun _ _ => pcrReadBuffer_stray⟩
  | quote mask nonce => exact ⟨fun _ => nofun, fun _ _ => quoteBuffer_stray hc⟩

end Call

/-! ### What the response is read as -/

theorem take_cons_cons_eq_iff {α : Type*} {x y : α} {n : ℕ} {xs : List α}
    (h : xs.length = 2 * n) :
    (x :: y :: xs).take (2 * n) = xs ↔ xs = (List.replicate n [x, y]).flatten := by
  induction n generalizing xs with
  | zero => simp [List.length_eq_zero_iff.mp h]
  | succ n ih =>
    obtain ⟨a, b, xs, rfl⟩ : ∃ a b ys, xs = a :: b :: ys := by
      match xs, h with
      | a :: b :: ys, _ => exact ⟨a, b, ys, rfl⟩
    have hlen : xs.length = 2 * n := by simpa [Nat.mul_succ] using h
    rw [Nat.mul_succ, List.take_succ_cons, List.take_succ_cons, List.replicate_succ,
      List.flatten_cons]
    simp only [List.cons_append, List.nil_append, List.cons.injEq]
    constructor
    · rintro ⟨rfl, rfl, hxs⟩
      exact ⟨rfl, rfl, (ih hlen).mp hxs⟩
    · rintro ⟨rfl, rfl, hxs⟩
      exact ⟨rfl, rfl, (ih hlen).mpr hxs⟩

theorem PcrReadResponse.taken (r : PcrReadResponse) :
    (r.bytes.drop 28).take 32 = ([0x00, 0x20] ++ r.digest).take 32 := by
  have hsplit : r.bytes = ([0x80, 0x01, 0x00, 0x00, 0x00, 0x3E, 0x00, 0x00, 0x00, 0x00] ++
      r.updateCounter ++ pcrSelection r.bitmap ++ [0x00, 0x00, 0x00, 0x01]) ++
        ([0x00, 0x20] ++ r.digest) := by
    simp [PcrReadResponse.bytes]
  rw [hsplit, List.drop_left' (by simp [r.length_updateCounter, pcrSelection, r.length_bitmap])]

/-- What repeats the size of a digest is the same two bytes later. -/
def skewedDigest : List UInt8 := (List.replicate 16 [0x00, 0x20]).flatten

theorem PcrReadResponse.read_of_sent {σ : Type*} {dev : TpmDevice σ} {r : PcrReadResponse}
    {i : UInt32} {s s' : Tis σ} {a : Answer} (h : Exchange dev (pcrReadCmd i) 256 s a s')
    (hsent : a.sent = some r.bytes) :
    tpm2PcrReadReal dev i s = some (some (([0x00, 0x20] ++ r.digest).take 32), s') := by
  have hlen := r.length_bytes
  have hbuffer := h.length_buffer
  have hok : a.Ok := Answer.ok_of_sent hsent (by omega) (by omega) (by omega) r.header.2
  have hgot : 60 ≤ a.reply.got := by
    rw [Answer.got_of_sent hsent, hlen]
    decide
  have hresp : (a.reply.resp.drop 28).take 32 = (r.bytes.drop 28).take 32 := by
    rw [Answer.resp_of_sent hsent (by omega), List.drop_take, List.take_take,
      List.drop_append_of_le_length (by omega), hbuffer,
      List.take_append_of_le_length (by simp [hlen])]
    rfl
  refine tpm2PcrReadReal_eq_some_iff.mpr ⟨a, h, ?_⟩
  rw [if_pos ⟨hok, hgot⟩, hresp, r.taken]

theorem Call.returns_iff {c : Call} {r : PcrReadResponse} :
    c.Returns r ↔ ((∃ i, c = .pcrRead i) → r.digest = skewedDigest) := by
  have hskew : ([0x00, 0x20] ++ r.digest).take 32 = r.digest ↔ r.digest = skewedDigest :=
    take_cons_cons_eq_iff (n := 16) r.length_digest
  cases c with
  | pcrExtend i digest => exact ⟨fun _ => nofun, fun _ => trivial⟩
  | quote mask nonce => exact ⟨fun _ => nofun, fun _ => trivial⟩
  | pcrRead i =>
    constructor
    · rintro h -
      have hbytes : r.bytes ≠ [] := by
        intro hnil
        have hlen := r.length_bytes
        rw [hnil] at hlen
        cases hlen
      have hex : Exchange scriptedTpm (pcrReadCmd i) 256 ⟨true, ([r.bytes], [])⟩ _ _ :=
        exchange_scriptedTpm (by simp [pcrReadCmd]) hbytes
      have hread := (h _ _ _ _ _ hex rfl).symm.trans (PcrReadResponse.read_of_sent hex rfl)
      simp only [Option.some.injEq, Prod.mk.injEq, and_true] at hread
      exact hskew.mp hread.symm
    · intro h σ dev s s' a hex hsent
      rw [PcrReadResponse.read_of_sent hex hsent, hskew.mpr (h ⟨i, rfl⟩)]

/-! ### The coding of the commands -/

/-- The quote is coded correctly. An extend is written past its buffer, and its size and fields are
right where that leaves the size and sends the rest of the digest. A read stays inside and has
another size than it says, and what it returns is the digest of the response only where that is the
size of a digest, repeated. -/
theorem tpm_coding_iff {c : Call} (hc : c.Valid) (o : Overrun) :
    (c.Coded o ↔ ∃ mask nonce, c = .quote mask nonce) ∧
      (c.Inside o ↔ ∀ i digest, c ≠ .pcrExtend i digest) ∧
      (c.Sized o ↔ (∀ i, c ≠ .pcrRead i) ∧ ∀ i digest, c = .pcrExtend i digest →
        6 ≤ (o.length (digestTail digest)).toNat ∧
          (o.length (digestTail digest)).toNat < 65536) ∧
      (c.Placed o ↔ ∀ i digest, c = .pcrExtend i digest → Call.Spares o (digestTail digest)) ∧
      ∀ r, c.Returns r ↔ ((∃ i, c = .pcrRead i) → r.digest = skewedDigest) := by
  refine ⟨⟨fun h => ?_, ?_⟩, Call.inside_iff hc, Call.sized_iff hc, Call.placed_iff hc,
    fun _ => Call.returns_iff⟩
  · cases c with
    | pcrExtend i digest => exact absurd rfl ((Call.inside_iff hc).mp h.inside i digest)
    | pcrRead i => exact absurd rfl (((Call.sized_iff hc).mp h.sized).1 i)
    | quote mask nonce => exact ⟨mask, nonce, rfl⟩
  · rintro ⟨mask, nonce, rfl⟩
    exact ⟨(Call.inside_iff hc).mpr nofun, (Call.sized_iff hc).mpr ⟨nofun, nofun⟩,
      (Call.placed_iff hc).mpr nofun, fun _ => Call.returns_iff.mpr nofun⟩

/-- The quote of the attestation. -/
theorem tpm_coding_iff_sample : (Call.quote 0x07 attestationNonce).Coded .spare :=
  (tpm_coding_iff (c := .quote 0x07 attestationNonce) rfl .spare).1.mpr ⟨_, _, rfl⟩

/-- As the kernel is built, `ok` and then `i` lie behind the buffer: three of the bytes are added
to, and what is sent are as many bytes of the stack. -/
def kernelOverrun (stack : ℕ → UInt8) : Overrun where
  length bs := UInt64.ofNat (leVal ((bs.drop 1).take 3) + 32)
  length_ne_zero bs := by
    have hlt := leVal_lt ((bs.drop 1).take 3)
    have hle : 256 ^ ((bs.drop 1).take 3).length ≤ 256 ^ 3 :=
      Nat.pow_le_pow_right (by decide) (List.length_take_le 3 _)
    have hsmall : leVal ((bs.drop 1).take 3) + 32 < UInt64.size :=
      lt_of_lt_of_le (Nat.add_lt_add_right (hlt.trans_le hle) 32) (by decide)
    rw [ne_eq, ← UInt64.toNat_inj, UInt64.toNat_ofNat_of_lt' hsmall, UInt64.toNat_zero]
    omega
  behind bs k :=
    if k = 61 then bs.getD 0 0
    else if k < 70 then (leBytes 8 (leVal ((bs.drop 1).take 3) + 32)).getD (k - 62) 0
    else stack k

/-- An extend of PCR 0 by zeros is written past its buffer. -/
theorem not_tpm_coding : ¬ ∀ c : Call, c.Valid → c.Coded (kernelOverrun fun _ => 0) := by
  intro h
  have hinside := (h (.pcrExtend 0 zeroDigest) ⟨by decide, by decide⟩).inside fun _ => 0
  revert hinside
  decide

/-- Of the command for zeros 32 bytes are sent, with that size. -/
example : (pcrExtendCmd (kernelOverrun fun _ => 0) 0 zeroDigest).length = 32 := by decide

end StyxOS.Tpm
