import StyxOS.Auth.Counter
import StyxOS.Library.Run
import StyxOS.Storage.UsbMsc

/-! # Lockout across power cycles

Failed attempts, successes and power cycles over a disk whose transfers may fail,
whose counter sector may be changed from outside, and which may be in encryption
mode when the counter is written. Next to the counter a run records how many
failed attempts have reached the disk since the last success.
-/

namespace StyxOS

open ByteMem StepSystem

/-- The disk as the counter sees it: its sectors, the encryption mode and context of the driver,
whether it was found at boot, and whether the next transfers succeed. -/
structure CounterDisk where
  sectors : ℕ → Bytes 512
  present : Bool
  encryption : Bool
  xtsCtx : Aes256XtsCtx
  readOk : Bool
  writeOk : Bool

namespace CounterDisk

variable (d : CounterDisk)

def coded (lba : ℕ) (b : Bytes 512) : Bytes 512 :=
  if d.encryption then Sector.encrypt d.xtsCtx (UInt32.ofNat lba) b else b

/-- The bytes that the driver makes of those on the disk. -/
def decoded (lba : ℕ) (b : Bytes 512) : Bytes 512 :=
  if d.encryption then Sector.decrypt d.xtsCtx (UInt32.ofNat lba) b else b

end CounterDisk

instance : SectorDevice CounterDisk where
  sectorCount d := if d.present then 0x100000 else 0
  readSector d lba buf := if d.readOk then (0, d.decoded lba (d.sectors lba), d) else (-1, buf, d)
  writeSector d lba buf :=
    if d.writeOk then (0, { d with sectors := Function.update d.sectors lba (d.coded lba buf) })
    else (-1, d)
  encryption d := d.encryption
  setEncryption b d := { d with encryption := b }

/-- The counter, and the failed attempts since the last success whose write reached the disk. -/
structure Lockout where
  counter : AuthCounter CounterDisk
  recorded : ℕ

inductive LockoutEvent
  | failedAttempt (writeOk : Bool)
  | success (writeOk : Bool)
  | powerCycle (present readOk writeOk : Bool) (buf : Bytes 512)
  | tamper (bytes : Bytes 512)
  | setEncryption (on : Bool) (ctx : Aes256XtsCtx)

/-- The counter before a call, with the outcome of its write. -/
def Lockout.withWrite (s : Lockout) (writeOk : Bool) : AuthCounter CounterDisk :=
  { s.counter with dev := { s.counter.dev with writeOk := writeOk } }

/-- One step of the machine or of what happens to it. Encryption is off after power is back. -/
def lockoutStep (cpuid : CpuidLeaf) (s : Lockout) : LockoutEvent → Lockout
  | .failedAttempt writeOk =>
    { counter := authCounterIncrement cpuid (s.withWrite writeOk)
      recorded := if s.counter.usbPresent && writeOk then s.recorded + 1 else s.recorded }
  | .success writeOk =>
    { counter := authCounterReset cpuid (s.withWrite writeOk)
      recorded := 0 }
  | .powerCycle present readOk writeOk buf =>
    { s with
      counter := authCounterInit cpuid buf
        { dev :=
            { s.counter.dev with
              present := present
              encryption := false
              readOk := readOk
              writeOk := writeOk }
          count := 0
          usbPresent := false } }
  | .tamper bytes =>
    { s with counter := { s.counter with dev := { s.counter.dev with
        sectors := Function.update s.counter.dev.sectors authCounterLba bytes } } }
  | .setEncryption on ctx =>
    { s with counter := { s.counter with dev := { s.counter.dev with
        encryption := on
        xtsCtx := ctx } } }

/-- A running machine right after `counter_write` of a count. -/
def lockoutStart (cpuid : CpuidLeaf) (ctx : Aes256XtsCtx) (count : ℕ) : Lockout where
  counter :=
    { dev :=
        { sectors := fun _ => counterSector cpuid count
          present := true
          encryption := false
          xtsCtx := ctx
          readOk := true
          writeOk := true }
      count := count
      usbPresent := true }
  recorded := count

/-- The count is at least what was recorded, and three recorded failures lock the machine. -/
def Enforces (s : Lockout) : Prop :=
  s.recorded ≤ s.counter.count ∧
    (authCounterMax ≤ s.recorded → authCounterLocked s.counter = true)

/-! ### What a sector tells -/

def magicOk (b : Bytes 512) : Bool := leVal (b.1.take 4) == counterMagic

def codeOk (cpuid : CpuidLeaf) (b : Bytes 512) : Bool :=
  (b.1.drop 5).take 64 == hmacSha512 (deriveDeviceKey cpuid) (b.1.take 5)

/-- The sector keeps what was recorded: with its magic number intact, either its code is wrong and
no more than three failures were recorded, or its code is right and its count no less. -/
def KeepsCount (cpuid : CpuidLeaf) (recorded : ℕ) (b : Bytes 512) : Prop :=
  magicOk b = true ∧
    recorded ≤ if codeOk cpuid b then (b.1.getD 4 0).toNat else authCounterMax

/-- The steps that keep the record: the disk is found and read at every boot once a failure is
recorded; failures are written with encryption off and are fewer than 256; and once one is recorded,
the sector is changed only to one that keeps the record. -/
def Recordable (cpuid : CpuidLeaf) (s : Lockout) : LockoutEvent → Prop
  | .failedAttempt writeOk => s.counter.usbPresent = true → writeOk = true →
      s.counter.dev.encryption = false ∧ s.counter.count + 1 < 256
  | .powerCycle present readOk _ _ => 0 < s.recorded → present = true ∧ readOk = true
  | .tamper bytes => 0 < s.recorded → KeepsCount cpuid s.recorded bytes
  | _ => True

/-- A boot after recorded failures finds and reads the disk, and the sector keeps the record. -/
def BootKeeps (cpuid : CpuidLeaf) (s : Lockout) : LockoutEvent → Prop
  | .powerCycle present readOk _ _ => 0 < s.recorded → (present = true ∧ readOk = true) ∧
      KeepsCount cpuid s.recorded (s.counter.dev.sectors authCounterLba)
  | _ => True

variable {cpuid : CpuidLeaf}

theorem length_counterHead (count : ℕ) : (counterHead count).length = 5 := by
  simp [counterHead]

theorem counterSector_val (cpuid : CpuidLeaf) (count : ℕ) :
    ∃ rest, (counterSector cpuid count).1 =
      counterHead count ++ (hmacSha512 (deriveDeviceKey cpuid) (counterHead count) ++ rest) := by
  refine ⟨(List.replicate 512 0).take 443, ?_⟩
  have hlen : (counterHead count ++ hmacSha512 (deriveDeviceKey cpuid) (counterHead count)).length =
      69 := by
    rw [List.length_append, length_counterHead, length_hmacSha512]
  rw [counterSector, Bytes.val_ofList, List.take_append, hlen,
    List.take_of_length_le (by rw [hlen]; decide), List.append_assoc]

theorem magicOk_counterSector (count : ℕ) : magicOk (counterSector cpuid count) = true := by
  obtain ⟨rest, hval⟩ := counterSector_val cpuid count
  have hmagic : (counterSector cpuid count).1.take 4 = leBytes 4 counterMagic := by
    rw [hval, counterHead, List.append_assoc]
    exact List.take_left' (length_leBytes 4 counterMagic)
  rw [magicOk, hmagic, leVal_leBytes]
  rfl

theorem codeOk_counterSector (count : ℕ) : codeOk cpuid (counterSector cpuid count) = true := by
  obtain ⟨rest, hval⟩ := counterSector_val cpuid count
  have hhead : (counterSector cpuid count).1.take 5 = counterHead count := by
    rw [hval]
    exact List.take_left' (length_counterHead count)
  rw [codeOk, hhead, hval, List.drop_left' (length_counterHead count),
    List.take_left' (length_hmacSha512 _ _)]
  exact beq_self_eq_true _

theorem toNat_counterSector {count : ℕ} (hlt : count < 256) :
    ((counterSector cpuid count).1.getD 4 0).toNat = count := by
  obtain ⟨rest, hval⟩ := counterSector_val cpuid count
  have hcount : (counterSector cpuid count).1.getD 4 0 = UInt8.ofNat count := by
    rw [hval]
    rfl
  rw [hcount, UInt8.toNat_ofNat', Nat.mod_eq_of_lt hlt]

theorem keepsCount_counterSector {recorded count : ℕ} (hle : recorded ≤ count) (hlt : count < 256) :
    KeepsCount cpuid recorded (counterSector cpuid count) := by
  refine ⟨magicOk_counterSector count, ?_⟩
  rw [codeOk_counterSector, if_pos rfl, toNat_counterSector hlt]
  exact hle

/-- What `counter_read` makes of the sector once it is read. -/
def loadedCount (cpuid : CpuidLeaf) (b : Bytes 512) : ℕ :=
  if magicOk b then if codeOk cpuid b then (b.1.getD 4 0).toNat else authCounterMax else 0

theorem loadedCount_counterSector {count : ℕ} (hlt : count < 256) :
    loadedCount cpuid (counterSector cpuid count) = count := by
  rw [loadedCount, magicOk_counterSector, codeOk_counterSector, if_pos rfl, if_pos rfl,
    toNat_counterSector hlt]

/-- The count that `counter_read` gives, over any device. -/
theorem fst_counterRead {δ : Type} [SectorDevice δ] (buf : Bytes 512) (d : δ) :
    (counterRead cpuid buf d).1 =
      if (readSector (setEncryption false d) authCounterLba buf).1 = 0 then
        loadedCount cpuid (readSector (setEncryption false d) authCounterLba buf).2.1
      else 0 := by
  unfold counterRead
  dsimp only
  generalize readSector (setEncryption false d) authCounterLba buf = x
  by_cases hrc : x.1 = 0
  · rw [if_neg (not_not.mpr hrc), if_pos hrc, loadedCount]
    by_cases hmagic : leVal (x.2.1.1.take 4) = counterMagic
    · have hm : magicOk x.2.1 = true := beq_iff_eq.mpr hmagic
      rw [if_neg (not_not.mpr hmagic), if_pos hm]
      by_cases hcode : (x.2.1.1.drop 5).take 64 =
          hmacSha512 (deriveDeviceKey cpuid) (x.2.1.1.take 5)
      · have hc : codeOk cpuid x.2.1 = true := beq_iff_eq.mpr hcode
        rw [if_neg (not_not.mpr hcode), if_pos hc]
      · have hc : ¬codeOk cpuid x.2.1 = true := fun hc => hcode (beq_iff_eq.mp hc)
        rw [if_pos hcode, if_neg hc]
    · have hm : ¬magicOk x.2.1 = true := fun hm => hmagic (beq_iff_eq.mp hm)
      rw [if_pos hmagic, if_neg hm]
  · rw [if_pos hrc, if_neg hrc]

/-- What `counter_read` does: only a sector without the magic number is written. -/
theorem counterRead_eq (buf : Bytes 512) (d : CounterDisk) :
    counterRead cpuid buf d =
      if d.readOk then
        (loadedCount cpuid (d.sectors authCounterLba),
          if magicOk (d.sectors authCounterLba) then d else counterWrite cpuid 0 d)
      else (0, d) := by
  obtain ⟨sectors, present, encryption, ctx, readOk, writeOk⟩ := d
  cases readOk with
  | false => rfl
  | true =>
    have hmagic : (leVal ((sectors authCounterLba).1.take 4) ≠ counterMagic) ↔
        ¬ magicOk (sectors authCounterLba) = true := by rw [magicOk, beq_iff_eq]
    have hcode : (((sectors authCounterLba).1.drop 5).take 64 ≠
        hmacSha512 (deriveDeviceKey cpuid) ((sectors authCounterLba).1.take 5)) ↔
        ¬ codeOk cpuid (sectors authCounterLba) = true := by rw [codeOk, beq_iff_eq]
    simp only [counterRead, SectorDevice.encryption, SectorDevice.setEncryption,
      SectorDevice.readSector, CounterDisk.decoded, if_true, Bool.false_eq_true, if_false, hmagic,
      hcode, loadedCount, ne_eq, not_true_eq_false]
    by_cases hm : magicOk (sectors authCounterLba) = true
    · by_cases hc : codeOk cpuid (sectors authCounterLba) = true
      · simp only [hm, hc, not_true_eq_false, if_false, if_true]
      · simp only [hm, hc, not_true_eq_false, if_false, if_true, not_false_eq_true,
          Bool.false_eq_true]
    · simp only [hm, not_false_eq_true, if_true, if_false, Bool.false_eq_true]

theorem count_powerCycle (s : Lockout) (present readOk writeOk : Bool) (buf : Bytes 512) :
    (lockoutStep cpuid s (.powerCycle present readOk writeOk buf)).counter.count =
      if present && readOk then loadedCount cpuid (s.counter.dev.sectors authCounterLba)
        else 0 := by
  cases present <;> cases readOk <;>
    simp [lockoutStep, authCounterInit, SectorDevice.sectorCount, counterRead_eq]

theorem sectors_powerCycle (s : Lockout) {present readOk writeOk : Bool} {buf : Bytes 512}
    (h : magicOk (s.counter.dev.sectors authCounterLba) = true) :
    (lockoutStep cpuid s (.powerCycle present readOk writeOk buf)).counter.dev.sectors =
      s.counter.dev.sectors := by
  cases present <;> cases readOk <;>
    simp [lockoutStep, authCounterInit, SectorDevice.sectorCount, counterRead_eq, h]

theorem enforces_of_le {s : Lockout} (h : s.recorded ≤ s.counter.count) : Enforces s :=
  ⟨h, fun hmax => decide_eq_true (hmax.trans h)⟩

theorem enforces_iff {s : Lockout} (h : s.recorded ≤ s.counter.count) (e : LockoutEvent) :
    Enforces (lockoutStep cpuid s e) ↔ BootKeeps cpuid s e := by
  cases e with
  | failedAttempt ok =>
    refine iff_of_true (enforces_of_le ?_) trivial
    cases hw : s.counter.usbPresent && ok <;>
      simp only [lockoutStep, authCounterIncrement, Lockout.withWrite, hw, if_true,
        Bool.false_eq_true, if_false] <;> omega
  | success ok => exact iff_of_true (enforces_of_le (Nat.zero_le _)) trivial
  | tamper bytes => exact iff_of_true (enforces_of_le h) trivial
  | setEncryption on ctx => exact iff_of_true (enforces_of_le h) trivial
  | powerCycle present readOk writeOk buf =>
    have hloaded : s.recorded ≤
        (lockoutStep cpuid s (.powerCycle present readOk writeOk buf)).counter.count ↔
        BootKeeps cpuid s (.powerCycle present readOk writeOk buf) := by
      rw [count_powerCycle, BootKeeps, KeepsCount, loadedCount]
      rcases Nat.eq_zero_or_pos s.recorded with hzero | hpos
      · simp [hzero]
      · simp only [hpos, forall_const]
        cases present <;> cases readOk <;>
          cases magicOk (s.counter.dev.sectors authCounterLba) <;> simp [Nat.ne_of_gt hpos]
    rw [← hloaded]
    constructor
    · exact And.left
    · exact enforces_of_le (s := lockoutStep cpuid s (.powerCycle present readOk writeOk buf))

/-! ### Whole runs -/

/-- What the machine keeps: the count covers the record, and so does the sector once there is
one. -/
structure LockoutInv (cpuid : CpuidLeaf) (s : Lockout) : Prop where
  le : s.recorded ≤ s.counter.count
  sector : 0 < s.recorded → KeepsCount cpuid s.recorded (s.counter.dev.sectors authCounterLba)

theorem LockoutInv.start (cpuid : CpuidLeaf) (ctx : Aes256XtsCtx) {count : ℕ} (h : count < 256) :
    LockoutInv cpuid (lockoutStart cpuid ctx count) where
  le := le_rfl
  sector _ := keepsCount_counterSector le_rfl h

theorem LockoutInv.bootKeeps {s : Lockout} {e : LockoutEvent} (h : LockoutInv cpuid s)
    (he : Recordable cpuid s e) : BootKeeps cpuid s e := by
  cases e with
  | powerCycle => exact fun hpos => ⟨he hpos, h.sector hpos⟩
  | _ => trivial

theorem LockoutInv.step {s : Lockout} {e : LockoutEvent} (h : LockoutInv cpuid s)
    (he : Recordable cpuid s e) : LockoutInv cpuid (lockoutStep cpuid s e) := by
  refine ⟨((enforces_iff h.le e).mpr (h.bootKeeps he)).1, ?_⟩
  obtain ⟨⟨⟨sectors, present, enc, ctx, readOk, writeOk⟩, count, usbPresent⟩, recorded⟩ := s
  obtain ⟨hle, hsector⟩ := h
  dsimp only at hle hsector
  cases e with
  | failedAttempt ok =>
    cases usbPresent with
    | false => exact hsector
    | true =>
      cases ok with
      | false => exact hsector
      | true =>
        obtain ⟨henc, hlt⟩ := he rfl rfl
        dsimp only at henc hlt
        subst henc
        have hwritten : (lockoutStep cpuid
            ⟨⟨⟨sectors, present, false, ctx, readOk, writeOk⟩, count, true⟩, recorded⟩
            (.failedAttempt true)).counter.dev.sectors =
            Function.update sectors authCounterLba (counterSector cpuid (count + 1)) := rfl
        intro _
        rw [hwritten, Function.update_self]
        exact keepsCount_counterSector (Nat.succ_le_succ hle) hlt
  | success ok => exact fun hpos => absurd hpos (Nat.lt_irrefl 0)
  | powerCycle found readable ok buf =>
    intro hpos
    rw [sectors_powerCycle _ (hsector hpos).1]
    exact hsector hpos
  | tamper bytes =>
    have hchanged : (lockoutStep cpuid
        ⟨⟨⟨sectors, present, enc, ctx, readOk, writeOk⟩, count, usbPresent⟩, recorded⟩
        (.tamper bytes)).counter.dev.sectors = Function.update sectors authCounterLba bytes := rfl
    intro hpos
    rw [hchanged, Function.update_self]
    exact he hpos
  | setEncryption on ctx => exact hsector

/-- In every run the count covers the failures recorded after every step, and three of them lock the
machine, if and only if no boot loses the record; and a run of recordable steps has no such boot. -/
theorem lockout_survives_iff (cpuid : CpuidLeaf) (ctx : Aes256XtsCtx) {count : ℕ}
    (hcount : count < 256) (es : List LockoutEvent) :
    (AllSteps (lockoutStep cpuid) (fun s e => Enforces (lockoutStep cpuid s e))
        (lockoutStart cpuid ctx count) es ↔
      AllSteps (lockoutStep cpuid) (BootKeeps cpuid) (lockoutStart cpuid ctx count) es) ∧
    (AllSteps (lockoutStep cpuid) (Recordable cpuid) (lockoutStart cpuid ctx count) es →
      AllSteps (lockoutStep cpuid) (BootKeeps cpuid) (lockoutStart cpuid ctx count) es) := by
  constructor
  · exact allSteps_congr (lockoutStep cpuid) (I := fun s => s.recorded ≤ s.counter.count)
      (fun _ e h => enforces_iff h e) (fun _ e h he => ((enforces_iff h e).mpr he).1) le_rfl es
  · exact allSteps_of_allSteps (lockoutStep cpuid) (I := LockoutInv cpuid)
      (fun _ _ hi he => hi.bootKeeps he) (fun _ _ hi he => hi.step he)
      (LockoutInv.start cpuid ctx hcount)

/-- Three failures and a power cycle. -/
def threeFailures : List LockoutEvent :=
  List.replicate 3 (.failedAttempt true) ++ [.powerCycle true true true (Bytes.zero 512)]

theorem lockout_survives_iff_threeFailures :
    AllSteps (lockoutStep ⟨0, 0⟩) (BootKeeps ⟨0, 0⟩)
      (lockoutStart ⟨0, 0⟩ (aes256XtsInit []) 0) threeFailures :=
  (lockout_survives_iff ⟨0, 0⟩ (aes256XtsInit []) (by decide) threeFailures).2
    ⟨fun _ _ => ⟨rfl, by decide⟩, fun _ _ => ⟨rfl, by decide⟩, fun _ _ => ⟨rfl, by decide⟩,
      fun _ => ⟨rfl, rfl⟩, trivial⟩

/-- Bytes that `counter_write` never produces. -/
def Foreign (cpuid : CpuidLeaf) : LockoutEvent → Prop
  | .tamper bytes => ∀ count, bytes ≠ counterSector cpuid count
  | _ => True

/-- A read that fails at boot unlocks the machine. -/
theorem lockout_lost :
    ¬ ∀ (cpuid : CpuidLeaf) (ctx : Aes256XtsCtx) (count : ℕ) (es : List LockoutEvent),
      count < 256 → (∀ e ∈ es, Foreign cpuid e) →
      AllSteps (lockoutStep cpuid) (fun s e => Enforces (lockoutStep cpuid s e))
        (lockoutStart cpuid ctx count) es := by
  intro h
  have hboot := h ⟨0, 0⟩ (aes256XtsInit []) 3 [.powerCycle true false true (Bytes.zero 512)]
    (by decide) (by simp [Foreign])
  exact absurd hboot.1.1 (by decide)

end StyxOS
