import StyxOS.Library.Bytes

/-! # The TIS driver of the TPM

`tpm_tis.c` up to the exchange of one command. The TPM is any state machine behind
its registers. An exchange is summed up by what the TPM sent: nothing, where a
timeout ended it, or the bytes that were read from the FIFO.
-/

namespace StyxOS.Tpm

/-- What comes of bytes that are stored behind the buffer of a command: the value that the variable
for its length has after them, and what lies behind the buffer when the command is sent. -/
structure Overrun where
  length : List UInt8 → UInt64
  length_ne_zero : ∀ bs, length bs ≠ 0
  behind : List UInt8 → ℕ → UInt8

/-- The TPM behind its registers, with state `σ`. `uninit` is what a buffer of the driver holds
that was never written, `overrun` what the driver makes of writes behind one. -/
structure TpmDevice (σ : Type*) where
  read8 : UInt32 → σ → UInt8 × σ
  read32 : UInt32 → σ → UInt32 × σ
  write8 : UInt32 → UInt8 → σ → σ
  uninit : σ → ℕ → UInt8
  overrun : Overrun

def tisAccess : UInt32 := 0x0000
def tisSts : UInt32 := 0x0018
def tisDataFifo : UInt32 := 0x0024
def tisVendorId : UInt32 := 0x0F00

def tisAccessValid : UInt8 := 0x80
def tisAccessActiveLocality : UInt8 := 0x20
def tisAccessRequestUse : UInt8 := 0x02

def tisStsValid : UInt8 := 0x80
def tisStsCmdReady : UInt8 := 0x40
def tisStsGo : UInt8 := 0x20
def tisStsDataAvail : UInt8 := 0x10
def tisStsExpect : UInt8 := 0x08

/-- The global state of the driver, with that of the TPM. -/
structure Tis (σ : Type*) where
  ready : Bool
  dev : σ

/-- The buffer for a response, with the number of bytes that were read. -/
structure Reply where
  got : UInt64
  resp : List UInt8
deriving DecidableEq, Repr

/-- One more byte is read, and dropped where the buffer is full. -/
def Reply.put (r : Reply) (b : UInt8) : Reply where
  got := r.got + 1
  resp := if r.got.toNat < r.resp.length then r.resp.set r.got.toNat b else r.resp

def Reply.responseCode (r : Reply) : UInt32 :=
  (r.resp.getD 6 0).toUInt32 <<< 24 ||| (r.resp.getD 7 0).toUInt32 <<< 16 |||
    (r.resp.getD 8 0).toUInt32 <<< 8 ||| (r.resp.getD 9 0).toUInt32

def tpm2RcSuccess : UInt32 := 0

variable {σ : Type*} (dev : TpmDevice σ)

/-- Read a register at most `n` times, until it satisfies the predicate. -/
def poll (off : UInt32) (p : UInt8 → Bool) : ℕ → σ → Bool × σ
  | 0, d => (false, d)
  | n + 1, d =>
    let (v, d) := dev.read8 off d
    if p v then (true, d) else poll off p n d

def tisWaitSts (mask val : UInt8) (timeoutMs : ℕ) : σ → Bool × σ :=
  poll dev tisSts (fun v => v &&& mask == val) (timeoutMs * 1000)

def tisWaitAccess (mask : UInt8) (timeoutMs : ℕ) : σ → Bool × σ :=
  poll dev tisAccess (fun v => v &&& mask != 0) (timeoutMs * 1000)

def tisRequestLocality (d : σ) : Bool × σ :=
  tisWaitAccess dev tisAccessActiveLocality 100 (dev.write8 tisAccess tisAccessRequestUse d)

/-- `tpm_tis_init`, once the registers are mapped. -/
def tpmTisInit (s : Tis σ) : Bool × Tis σ :=
  let (access, d) := dev.read8 tisAccess s.dev
  if access &&& tisAccessValid = 0 then (false, { s with dev := d })
  else
    let (granted, d) := tisRequestLocality dev d
    if granted then
      let (_, d) := dev.read32 tisVendorId d
      (true, { ready := true, dev := d })
    else (false, { s with dev := d })

/-- The bytes of a command before the last one, each written when the TPM expects it. -/
def writeFifo : List UInt8 → σ → Bool × σ
  | [], d => (true, d)
  | b :: bs, d =>
    let (expected, d) := tisWaitSts dev tisStsExpect tisStsExpect 10 d
    if expected then writeFifo bs (dev.write8 tisDataFifo b d) else (false, d)

/-- The first four steps of `tpm_tis_send_cmd`: the TPM has the command, and there is a response. -/
def submit (cmd : List UInt8) (d : σ) : Bool × σ :=
  let d := dev.write8 tisSts tisStsCmdReady d
  let (ready, d) := tisWaitSts dev tisStsCmdReady tisStsCmdReady 50 d
  if ready then
    let (written, d) := writeFifo dev cmd.dropLast d
    if written then
      let d := dev.write8 tisDataFifo (cmd.getLastD 0) d
      let d := dev.write8 tisSts tisStsGo d
      tisWaitSts dev (tisStsDataAvail ||| tisStsValid) (tisStsDataAvail ||| tisStsValid) 5000 d
    else (false, d)
  else (false, d)

/-- The loop that reads the response, for as long as the TPM has more of it: without end, `none`. -/
def readFifo (r : Reply) (d : σ) : Option (Reply × σ) :=
  let (sts, d) := dev.read8 tisSts d
  if sts &&& (tisStsDataAvail ||| tisStsValid) = tisStsDataAvail ||| tisStsValid then
    let (b, d) := dev.read8 tisDataFifo d
    by
      apply readFifo
      · exact r.put b
      · exact d
  else some (r, d)
partial_fixpoint

/-- `tpm_tis_send_cmd`, for a response buffer that the caller declares with the size `n` and does
not initialise. -/
def tpmTisSendCmd (cmd : List UInt8) (n : ℕ) (s : Tis σ) : Option ((Bool × Reply) × Tis σ) :=
  let resp := (List.range n).map (dev.uninit s.dev)
  let unread : Reply := ⟨UInt64.ofNat n, resp⟩
  if s.ready = false ∨ cmd = [] then some ((false, unread), s)
  else
    match submit dev cmd s.dev with
    | (false, d) => some ((false, unread), { s with dev := d })
    | (true, d) =>
      match readFifo dev ⟨0, resp⟩ d with
      | none => none
      | some (r, d) =>
        let s := { s with dev := dev.write8 tisSts tisStsCmdReady d }
        if 10 ≤ r.got ∧ r.responseCode ≠ tpm2RcSuccess then some ((false, r), s)
        else some ((true, r), s)

/-! ## What the TPM sent -/

/-- The outcome of an exchange: what the response buffer held before it, and what the TPM sent, if
there was a response. -/
structure Answer where
  buffer : List UInt8
  sent : Option (List UInt8)

namespace Answer

variable (a : Answer)

def reply : Reply :=
  match a.sent with
  | none => ⟨UInt64.ofNat a.buffer.length, a.buffer⟩
  | some bs => bs.foldl Reply.put ⟨0, a.buffer⟩

/-- There was a response, and no response code that reports an error. -/
def Ok : Prop :=
  a.sent.isSome = true ∧ (10 ≤ a.reply.got → a.reply.responseCode = tpm2RcSuccess)

instance : Decidable a.Ok := inferInstanceAs (Decidable (_ ∧ _))

end Answer

/-- The TPM offers these bytes in its FIFO when it is read to the end. -/
inductive Delivers : σ → List UInt8 → σ → Prop
  | done {d : σ}
      (h : (dev.read8 tisSts d).1 &&& (tisStsDataAvail ||| tisStsValid) ≠
        tisStsDataAvail ||| tisStsValid) :
      Delivers d [] (dev.read8 tisSts d).2
  | more {d d' : σ} {bs : List UInt8}
      (h : (dev.read8 tisSts d).1 &&& (tisStsDataAvail ||| tisStsValid) =
        tisStsDataAvail ||| tisStsValid)
      (hrest : Delivers (dev.read8 tisDataFifo (dev.read8 tisSts d).2).2 bs d') :
      Delivers d ((dev.read8 tisDataFifo (dev.read8 tisSts d).2).1 :: bs) d'

/-- The exchange of a command from one state to another, with its outcome. -/
inductive Exchange (cmd : List UInt8) (n : ℕ) (s : Tis σ) : Answer → Tis σ → Prop
  | absent (h : s.ready = false ∨ cmd = []) :
      Exchange cmd n s ⟨(List.range n).map (dev.uninit s.dev), none⟩ s
  | timeout (h : ¬ (s.ready = false ∨ cmd = [])) (hsubmit : (submit dev cmd s.dev).1 = false) :
      Exchange cmd n s ⟨(List.range n).map (dev.uninit s.dev), none⟩
        { s with dev := (submit dev cmd s.dev).2 }
  | response {bs : List UInt8} {d : σ} (h : ¬ (s.ready = false ∨ cmd = []))
      (hsubmit : (submit dev cmd s.dev).1 = true)
      (hsent : Delivers dev (submit dev cmd s.dev).2 bs d) :
      Exchange cmd n s ⟨(List.range n).map (dev.uninit s.dev), some bs⟩
        { s with dev := dev.write8 tisSts tisStsCmdReady d }

variable {dev} {cmd : List UInt8} {n : ℕ} {s s' : Tis σ} {a a' : Answer} {d d' : σ}
  {r r' : Reply} {bs bs' : List UInt8}

namespace Reply

@[simp] theorem length_put (b : UInt8) : (r.put b).resp.length = r.resp.length := by
  unfold put
  split <;> simp

theorem resp_put (b : UInt8) : (r.put b).resp = r.resp.set r.got.toNat b := by
  unfold put
  split
  · rfl
  · next hfull => exact (List.set_eq_of_length_le (Nat.not_lt.mp hfull)).symm

theorem got_foldl_put : (bs.foldl put r).got = r.got + UInt64.ofNat bs.length := by
  induction bs generalizing r with
  | nil => simp
  | cons b bs ih => simp [ih, put, UInt64.ofNat_add, UInt64.add_assoc, UInt64.add_comm]

theorem resp_foldl_put {k : ℕ} (hk : r.got.toNat = k) (hlt : k + bs.length < 2 ^ 64) :
    (bs.foldl put r).resp =
      (r.resp.take k ++ bs ++ r.resp.drop (k + bs.length)).take r.resp.length := by
  induction bs generalizing r k with
  | nil => simp
  | cons b bs ih =>
    have hlen : k + 1 + bs.length < 2 ^ 64 := by simp at hlt; omega
    have hgot : (r.put b).got.toNat = k + 1 := by
      simp only [put, UInt64.toNat_add, UInt64.reduceToNat, hk]
      exact Nat.mod_eq_of_lt (by omega)
    rw [List.foldl_cons, ih hgot hlen, length_put, resp_put, hk,
      List.drop_set_of_lt (by omega), List.length_cons, Nat.add_right_comm k, Nat.add_assoc k]
    rcases Nat.lt_or_ge k r.resp.length with hin | hout
    · simp [List.take_add_one, List.take_set_of_le, hin]
    · rw [List.set_eq_of_length_le hout, List.take_of_length_le (by omega : r.resp.length ≤ k + 1),
        List.take_of_length_le hout]
      simp

end Reply

namespace Delivers

theorem of_readFifo (h : readFifo dev r d = some (r', d')) :
    ∃ bs, Delivers dev d bs d' ∧ r' = bs.foldl Reply.put r := by
  refine readFifo.partial_correctness dev
    (fun r d out => ∃ bs, Delivers dev d bs out.2 ∧ out.1 = bs.foldl Reply.put r) ?_ r d _ h
  intro loop ih r d out hout
  dsimp only at hout
  split at hout
  · next havail =>
    obtain ⟨bs, hbs, hr⟩ := ih _ _ _ hout
    exact ⟨_, .more havail hbs, hr⟩
  · next hempty =>
    obtain rfl := Option.some.inj hout
    exact ⟨[], .done hempty, rfl⟩

theorem readFifo_eq (h : Delivers dev d bs d') (r : Reply) :
    readFifo dev r d = some (bs.foldl Reply.put r, d') := by
  induction h generalizing r with
  | done hempty =>
    rw [readFifo]
    simp only [hempty, if_false, List.foldl_nil]
  | more havail _ ih =>
    rw [readFifo]
    simp only [havail, if_true, List.foldl_cons]
    exact ih _

theorem unique (h : Delivers dev d bs d') {d'' : σ} (h' : Delivers dev d bs' d'') :
    bs' = bs ∧ d'' = d' := by
  induction h generalizing bs' d'' with
  | done hempty =>
    cases h' with
    | done => exact ⟨rfl, rfl⟩
    | more havail => exact absurd havail hempty
  | more havail _ ih =>
    cases h' with
    | done hempty => exact absurd havail hempty
    | more _ hrest =>
      obtain ⟨rfl, rfl⟩ := ih hrest
      exact ⟨rfl, rfl⟩

end Delivers

namespace Answer

theorem got_of_sent (h : a.sent = some bs) : a.reply.got = UInt64.ofNat bs.length := by
  simp [reply, h, Reply.got_foldl_put]

theorem resp_of_sent (h : a.sent = some bs) (hlt : bs.length < 2 ^ 64) :
    a.reply.resp = (bs ++ a.buffer.drop bs.length).take a.buffer.length := by
  simpa [reply, h] using Reply.resp_foldl_put (r := ⟨0, a.buffer⟩) (k := 0) rfl (by omega)

theorem getD_resp_of_sent (h : a.sent = some bs) (hlt : bs.length < 2 ^ 64) {i : ℕ}
    (hi : i < bs.length) (hbuffer : i < a.buffer.length) :
    a.reply.resp.getD i 0 = bs.getD i 0 := by
  simp [resp_of_sent h hlt, List.getD_eq_getElem?_getD, List.getElem?_append_left hi, hi, hbuffer]

theorem ok_of_sent (h : a.sent = some bs) (hlt : bs.length < 2 ^ 64) (hlen : 10 ≤ bs.length)
    (hbuffer : 10 ≤ a.buffer.length) (hcode : (bs.drop 6).take 4 = [0, 0, 0, 0]) : a.Ok := by
  have hbyte : ∀ i < 4, a.reply.resp.getD (6 + i) 0 = 0 := by
    intro i hi
    rw [getD_resp_of_sent h hlt (by omega) (by omega)]
    have hget : ((bs.drop 6).take 4).getD i 0 = 0 := by
      rw [hcode]
      match i, hi with
      | 0, _ | 1, _ | 2, _ | 3, _ => rfl
    simpa [List.getD_eq_getElem?_getD, List.getElem?_take_of_lt hi] using hget
  refine ⟨by simp [h], fun _ => ?_⟩
  rw [Reply.responseCode, hbyte 0 (by omega), hbyte 1 (by omega), hbyte 2 (by omega),
    hbyte 3 (by omega)]
  rfl

end Answer

namespace Exchange

@[simp] theorem ready (h : Exchange dev cmd n s a s') : s'.ready = s.ready := by
  cases h <;> rfl

@[simp] theorem length_buffer (h : Exchange dev cmd n s a s') : a.buffer.length = n := by
  cases h <;> simp

theorem unique (h : Exchange dev cmd n s a s') {s'' : Tis σ} (h' : Exchange dev cmd n s a' s'') :
    a' = a ∧ s'' = s' := by
  cases h with
  | absent habsent =>
    cases h' with
    | absent => exact ⟨rfl, rfl⟩
    | timeout hpresent | response hpresent => exact absurd habsent hpresent
  | timeout hpresent hsubmit =>
    cases h' with
    | absent habsent => exact absurd habsent hpresent
    | timeout => exact ⟨rfl, rfl⟩
    | response _ hsubmit' => rw [hsubmit] at hsubmit'; cases hsubmit'
  | response hpresent hsubmit hsent =>
    cases h' with
    | absent habsent => exact absurd habsent hpresent
    | timeout _ hsubmit' => rw [hsubmit] at hsubmit'; cases hsubmit'
    | response _ _ hsent' =>
      obtain ⟨rfl, rfl⟩ := hsent.unique hsent'
      exact ⟨rfl, rfl⟩

end Exchange

theorem Exchange.sendCmd (h : Exchange dev cmd n s a s') :
    tpmTisSendCmd dev cmd n s = some ((decide a.Ok, a.reply), s') := by
  cases h with
  | absent habsent =>
    rw [tpmTisSendCmd, if_pos habsent]
    simp [Answer.Ok, Answer.reply]
  | timeout hpresent hsubmit =>
    obtain ⟨ok, d, he⟩ : ∃ ok d, submit dev cmd s.dev = (ok, d) := ⟨_, _, (Prod.eta _).symm⟩
    rw [he] at hsubmit
    obtain rfl : ok = false := hsubmit
    simp only [tpmTisSendCmd, if_neg hpresent, he]
    simp [Answer.Ok, Answer.reply]
  | response hpresent hsubmit hsent =>
    obtain ⟨ok, d, he⟩ : ∃ ok d, submit dev cmd s.dev = (ok, d) := ⟨_, _, (Prod.eta _).symm⟩
    rw [he] at hsubmit hsent
    obtain rfl : ok = true := hsubmit
    simp only [tpmTisSendCmd, if_neg hpresent, he, hsent.readFifo_eq]
    split
    · next herror =>
      have hok : ¬ Answer.Ok ⟨(List.range n).map (dev.uninit s.dev), some _⟩ :=
        fun hok => herror.2 (hok.2 herror.1)
      rw [decide_eq_false hok]
      rfl
    · next hnone =>
      have hok : Answer.Ok ⟨(List.range n).map (dev.uninit s.dev), some _⟩ :=
        ⟨rfl, fun h10 => not_not.mp fun hne => hnone ⟨h10, hne⟩⟩
      rw [decide_eq_true hok]
      rfl

theorem tpmTisSendCmd_eq_some_iff {out : Bool × Reply} :
    tpmTisSendCmd dev cmd n s = some (out, s') ↔
      ∃ a, Exchange dev cmd n s a s' ∧ out = (decide a.Ok, a.reply) := by
  constructor
  · intro h
    have hsome : ∃ a s'', Exchange dev cmd n s a s'' := by
      by_cases habsent : s.ready = false ∨ cmd = []
      · exact ⟨_, _, .absent habsent⟩
      · cases hsubmit : (submit dev cmd s.dev).1 with
        | false => exact ⟨_, _, .timeout habsent hsubmit⟩
        | true =>
          rw [tpmTisSendCmd, if_neg habsent, ← Prod.mk.eta (p := submit dev cmd s.dev),
            hsubmit] at h
          dsimp only at h
          split at h
          · cases h
          · next hread =>
            obtain ⟨bs, hsent, -⟩ := Delivers.of_readFifo hread
            exact ⟨_, _, .response habsent hsubmit hsent⟩
    obtain ⟨a, s'', ha⟩ := hsome
    obtain ⟨rfl, rfl⟩ := Prod.mk.inj (Option.some.inj (ha.sendCmd.symm.trans h))
    exact ⟨a, ha, rfl⟩
  · rintro ⟨a, ha, rfl⟩
    exact ha.sendCmd

/-! ## A TPM that answers -/

/-- No variable lies behind the buffer of 61 bytes, and all of the 65 are sent. -/
def Overrun.spare : Overrun where
  length _ := 65
  length_ne_zero _ := by decide
  behind bs k := bs.getD (k - 61) 0

/-- A TPM that answers the commands with the responses of the list, whatever the commands are. The
second component is what is left of the response in the FIFO. -/
def scriptedTpm : TpmDevice (List (List UInt8) × List UInt8) where
  read8 off d :=
    if off = tisDataFifo then (d.2.headD 0, (d.1, d.2.tail))
    else if off = tisAccess ∨ d.2.isEmpty = false then (0xF8, d)
    else (0x48, d)
  read32 _ d := (0, d)
  write8 off v d := if off = tisSts ∧ v = tisStsGo then (d.1.tail, d.1.headD []) else d
  uninit _ _ := 0
  overrun := .spare

variable {rs : List (List UInt8)}

theorem poll_eq_true {off : UInt32} {p : UInt8 → Bool} (hn : 0 < n)
    (h : p (dev.read8 off d).1 = true) : poll dev off p n d = (true, (dev.read8 off d).2) := by
  obtain ⟨n, rfl⟩ := Nat.exists_eq_add_of_le' hn
  simp [poll, h]

theorem delivers_scriptedTpm : Delivers scriptedTpm (rs, bs) bs (rs, []) := by
  have hempty : (0x48 : UInt8) &&& (tisStsDataAvail ||| tisStsValid) ≠
      tisStsDataAvail ||| tisStsValid := by decide
  have havail : (0xF8 : UInt8) &&& (tisStsDataAvail ||| tisStsValid) =
      tisStsDataAvail ||| tisStsValid := by decide
  induction bs with
  | nil => exact .done (d := (rs, [])) hempty
  | cons b bs ih => exact .more (d := (rs, b :: bs)) havail ih

theorem tisWaitSts_scriptedTpm (mask : UInt8) {timeoutMs : ℕ} (hpos : 0 < timeoutMs)
    (hmask : 0x48 &&& mask = mask) :
    tisWaitSts scriptedTpm mask mask timeoutMs (rs, []) = (true, (rs, [])) :=
  poll_eq_true (by omega) (beq_iff_eq.mpr hmask)

theorem writeFifo_scriptedTpm : writeFifo scriptedTpm bs (rs, []) = (true, (rs, [])) := by
  induction bs with
  | nil => rfl
  | cons b bs ih =>
    rw [writeFifo, tisWaitSts_scriptedTpm _ (by decide) (by decide)]
    exact ih

theorem submit_scriptedTpm {b : UInt8} :
    submit scriptedTpm cmd ((b :: bs) :: rs, []) = (true, (rs, b :: bs)) := by
  have hready : scriptedTpm.write8 tisSts tisStsCmdReady ((b :: bs) :: rs, []) =
      ((b :: bs) :: rs, []) := rfl
  have hgo : scriptedTpm.write8 tisSts tisStsGo (scriptedTpm.write8 tisDataFifo (cmd.getLastD 0)
      ((b :: bs) :: rs, [])) = (rs, b :: bs) := rfl
  have hwait : tisWaitSts scriptedTpm (tisStsDataAvail ||| tisStsValid)
      (tisStsDataAvail ||| tisStsValid) 5000 (rs, b :: bs) = (true, (rs, b :: bs)) := by
    refine poll_eq_true (by decide) (beq_iff_eq.mpr ?_)
    change (0xF8 : UInt8) &&& _ = _
    decide
  simp only [submit, hready, tisWaitSts_scriptedTpm tisStsCmdReady (show 0 < 50 by decide)
    (by decide), writeFifo_scriptedTpm, if_true, hgo, hwait]

theorem exchange_scriptedTpm (hcmd : cmd ≠ []) (hbs : bs ≠ []) :
    Exchange scriptedTpm cmd n ⟨true, (bs :: rs, [])⟩ ⟨(List.range n).map fun _ => 0, some bs⟩
      ⟨true, (rs, [])⟩ := by
  obtain ⟨b, bs, rfl⟩ := List.exists_cons_of_ne_nil hbs
  refine .response (d := (rs, [])) (by simpa using hcmd) ?_ ?_
  · rw [submit_scriptedTpm]
  · rw [submit_scriptedTpm]
    exact delivers_scriptedTpm

theorem tpmTisInit_scriptedTpm :
    tpmTisInit scriptedTpm ⟨false, (rs, [])⟩ = (true, ⟨true, (rs, [])⟩) := by
  have hread : scriptedTpm.read8 tisAccess (rs, []) = (0xF8, (rs, [])) := rfl
  have hgrant : tisRequestLocality scriptedTpm (rs, []) = (true, (rs, [])) :=
    poll_eq_true (by decide)
      (by decide : ((0xF8 : UInt8) &&& tisAccessActiveLocality != 0) = true)
  have hvalid : ¬ ((0xF8 : UInt8) &&& tisAccessValid = 0) := by decide
  simp only [tpmTisInit, hread, if_neg hvalid, hgrant, if_true]
  rfl

end StyxOS.Tpm
