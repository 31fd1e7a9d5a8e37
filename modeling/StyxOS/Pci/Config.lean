import Mathlib.Tactic.GCongr
import Mathlib.Tactic.NormNum
import StyxOS.Library.ConfigSpace

/-! # PCI configuration space

`pci.c` on the two ports of the host bridge. The scans for the two controllers find the first one on
the buses and leave every register as it was, and what they read off its base address register is
where the controller is and how large its registers are. Enabling a device sets two bits of its
command register, and clears what its status register has latched.
-/

namespace StyxOS.Pci

open ConfigSpace

structure Location where
  bus : UInt8
  dev : UInt8
  fn : UInt8
  deriving DecidableEq, Repr

abbrev Registers := ℕ → Register

/-- The address port of the host bridge, and what is behind it. -/
structure Host where
  address : UInt32
  function : Location → Option Registers

def pciAddr (l : Location) (reg : UInt8) : UInt32 :=
  (0x80000000 : UInt32) ||| l.bus.toUInt32 <<< 16 ||| l.dev.toUInt32 <<< 11 |||
    l.fn.toUInt32 <<< 8 ||| (reg &&& 0xFC).toUInt32

/-- Where an address leads, and the number of the register. -/
def location (a : UInt32) : Location where
  bus := (a >>> 16).toUInt8
  dev := (a >>> 11).toUInt8 &&& 0x1F
  fn := (a >>> 8).toUInt8 &&& 7

def register (a : UInt32) : ℕ := (a >>> 2).toNat % 64

namespace Host

/-- `outl` to the address port. -/
def outAddress (a : UInt32) (h : Host) : Host := { h with address := a }

/-- `inl` from the data port: all ones if there is nothing. -/
def inData (h : Host) : UInt32 :=
  match h.function (location h.address) with
  | some f => (f (register h.address)).value
  | none => 0xFFFFFFFF

/-- `outl` to the data port. -/
def outData (v : UInt32) (h : Host) : Host :=
  let written (f : Registers) : Registers :=
    Function.update f (register h.address) ((f (register h.address)).write v)
  { h with
    function := Function.update h.function (location h.address)
      ((h.function (location h.address)).map written) }

end Host

variable (l : Location) (reg : UInt8)

def pciRead32 (h : Host) : UInt32 × Host :=
  let h := h.outAddress (pciAddr l reg)
  (h.inData, h)

def pciWrite32 (v : UInt32) (h : Host) : Host := (h.outAddress (pciAddr l reg)).outData v

def pciRead16 (h : Host) : UInt16 × Host :=
  let (v, h) := pciRead32 l reg h
  ((v >>> ((reg &&& 2).toUInt32 * 8)).toUInt16, h)

def pciWrite16 (v : UInt16) (h : Host) : Host :=
  let (dword, h) := pciRead32 l (reg &&& 0xFC) h
  let shift := (reg &&& 2).toUInt32 * 8
  pciWrite32 l (reg &&& 0xFC)
    (dword &&& ~~~((0xFFFF : UInt32) <<< shift) ||| v.toUInt32 <<< shift) h

def pciVendorId : UInt8 := 0x00
def pciCommand : UInt8 := 0x04
def pciClassRev : UInt8 := 0x08
def pciBar0 : UInt8 := 0x10

/-- `decode_bar64`: the base address and the size. -/
def decodeBar64 (barOff : UInt8) (h : Host) : (UInt64 × UInt32) × Host :=
  let (lo, h) := pciRead32 l barOff h
  let (hi, h) := pciRead32 l (barOff + 4) h
  let h := pciWrite32 l barOff 0xFFFFFFFF h
  let h := pciWrite32 l (barOff + 4) 0xFFFFFFFF h
  let (szLo, h) := pciRead32 l barOff h
  let h := pciWrite32 l barOff lo h
  let h := pciWrite32 l (barOff + 4) hi h
  ((hi.toUInt64 <<< 32 ||| (lo &&& ~~~0xF).toUInt64, ~~~(szLo &&& ~~~0xF) + 1), h)

/-- `pci_device_t`. -/
structure Device where
  location : Location
  bar0 : UInt64
  bar0Size : UInt32
  deriving DecidableEq, Repr

/-- What both scans do with the function that they have found. -/
def readDevice (h : Host) : Device × Host :=
  let (bar0Lo, h) := pciRead32 l pciBar0 h
  if bar0Lo &&& 0x6 = 0x4 then
    let ((base, sz), h) := decodeBar64 l pciBar0 h
    (⟨l, base, sz⟩, h)
  else
    let h := pciWrite32 l pciBar0 0xFFFFFFFF h
    let (szLo, h) := pciRead32 l pciBar0 h
    let h := pciWrite32 l pciBar0 bar0Lo h
    (⟨l, (bar0Lo &&& ~~~0xF).toUInt64, ~~~(szLo &&& ~~~0xF) + 1⟩, h)

def locations : List Location :=
  (List.range 256).flatMap fun bus =>
    (List.range 32).flatMap fun dev =>
      (List.range 8).map fun fn => ⟨UInt8.ofNat bus, UInt8.ofNat dev, UInt8.ofNat fn⟩

/-- What `pci_find_xhci` asks of a function. -/
def testXhci (h : Host) : Bool × Host :=
  let (vid, h) := pciRead32 l pciVendorId h
  if vid &&& 0xFFFF = 0xFFFF then (false, h)
  else
    let (cr, h) := pciRead32 l pciClassRev h
    (cr >>> 24 &&& 0xFF == 0x0C && cr >>> 16 &&& 0xFF == 0x03 && cr >>> 8 &&& 0xFF == 0x30, h)

/-- What `pci_find_e1000` asks of a function. -/
def testE1000 (h : Host) : Bool × Host :=
  let (vidDid, h) := pciRead32 l pciVendorId h
  let vid := vidDid &&& 0xFFFF
  let did := vidDid >>> 16 &&& 0xFFFF
  if vid = 0xFFFF then (false, h)
  else (vid == 0x8086 && (did == 0x100E || did == 0x100F || did == 0x1004 || did == 0x1015), h)

def pciFindXhci : Host → Option Device × Host := findM testXhci readDevice locations

def pciFindE1000 : Host → Option Device × Host := findM testE1000 readDevice locations

def pciEnableDevice (d : Device) (h : Host) : Host :=
  let (cmd, h) := pciRead16 d.location pciCommand h
  pciWrite16 d.location pciCommand (cmd ||| 0x4 ||| 0x2) h

/-! ## Addresses -/

/-- A place on a bus. -/
def Location.Valid (l : Location) : Prop := l.dev.toNat < 32 ∧ l.fn.toNat < 8

theorem toNat_or {x y : UInt32} {k : ℕ} (hx : 2 ^ k ∣ x.toNat) (hy : y.toNat < 2 ^ k) :
    (x ||| y).toNat = x.toNat + y.toNat := by
  obtain ⟨a, ha⟩ := hx
  rw [UInt32.toNat_or, ha, Nat.two_pow_add_eq_or_of_lt hy]

theorem toNat_shift (x : UInt8) {k : UInt32} {n : ℕ} (hk : k.toNat = n) (hn : n ≤ 24) :
    (x.toUInt32 <<< k).toNat = x.toNat * 2 ^ n := by
  have hx := x.toNat_lt
  have hpow : 2 ^ n ≤ 2 ^ 24 := Nat.pow_le_pow_right (by decide) hn
  have hlt : x.toNat * 2 ^ n < 2 ^ 32 := by
    calc x.toNat * 2 ^ n < 2 ^ 8 * 2 ^ n := by gcongr
      _ ≤ 2 ^ 8 * 2 ^ 24 := by gcongr
      _ = 2 ^ 32 := by norm_num
  rw [UInt32.toNat_shiftLeft, UInt8.toNat_toUInt32, Nat.shiftLeft_eq, hk,
    Nat.mod_eq_of_lt (by omega : n < 32), Nat.mod_eq_of_lt hlt]

theorem toNat_pciAddr {l : Location} (h : l.Valid) (reg : UInt8) : (pciAddr l reg).toNat =
    2 ^ 31 + l.bus.toNat * 2 ^ 16 + l.dev.toNat * 2 ^ 11 + l.fn.toNat * 2 ^ 8 +
      (reg &&& 0xFC).toNat := by
  obtain ⟨hdev, hfn⟩ := h
  have hbus := l.bus.toNat_lt
  have hreg := (reg &&& 0xFC).toNat_lt
  have hbus' := toNat_shift l.bus (k := 16) (n := 16) rfl (by decide)
  have hdev' := toNat_shift l.dev (k := 11) (n := 11) rfl (by decide)
  have hfn' := toNat_shift l.fn (k := 8) (n := 8) rfl (by decide)
  have hbase : (0x80000000 : UInt32).toNat = 2 ^ 31 := rfl
  rw [pciAddr]
  generalize (0x80000000 : UInt32) = base at hbase ⊢
  generalize l.bus.toUInt32 <<< 16 = bus at hbus' ⊢
  generalize l.dev.toUInt32 <<< 11 = dev at hdev' ⊢
  generalize l.fn.toUInt32 <<< 8 = fn at hfn' ⊢
  have hor₁ : (base ||| bus).toNat = base.toNat + bus.toNat :=
    toNat_or (k := 31) (by omega) (by omega)
  have hor₂ : (base ||| bus ||| dev).toNat = (base ||| bus).toNat + dev.toNat :=
    toNat_or (k := 16) (by omega) (by omega)
  have hor₃ : (base ||| bus ||| dev ||| fn).toNat = (base ||| bus ||| dev).toNat + fn.toNat :=
    toNat_or (k := 11) (by omega) (by omega)
  rw [toNat_or (k := 8) (by omega) (by rw [UInt8.toNat_toUInt32]; exact hreg),
    UInt8.toNat_toUInt32]
  omega

theorem toNat_mask (reg : UInt8) : (reg &&& 0xFC).toNat = reg.toNat / 4 * 4 := by
  have hall : ∀ n < 256, n &&& 0xFC = n / 4 * 4 := by decide +kernel
  rw [UInt8.toNat_and]
  exact hall reg.toNat reg.toNat_lt

theorem location_pciAddr {l : Location} (h : l.Valid) (reg : UInt8) :
    location (pciAddr l reg) = l ∧ register (pciAddr l reg) = reg.toNat / 4 := by
  have haddr := toNat_pciAddr h reg
  rw [toNat_mask] at haddr
  obtain ⟨hdev, hfn⟩ := h
  have hbus := l.bus.toNat_lt
  have hreg := reg.toNat_lt
  have hand (x : UInt8) (k : ℕ) {m : UInt8} (hm : m.toNat = 2 ^ k - 1) :
      (x &&& m).toNat = x.toNat % 2 ^ k := by
    rw [UInt8.toNat_and, hm, Nat.and_two_pow_sub_one_eq_mod]
  have hbus' : (location (pciAddr l reg)).bus = l.bus := by
    refine UInt8.toNat_inj.mp ?_
    rw [location, UInt32.toNat_toUInt8, UInt32.toNat_shiftRight, haddr, Nat.shiftRight_eq_div_pow]
    simp only [UInt32.reduceToNat, Nat.reduceMod]
    omega
  have hdev' : (location (pciAddr l reg)).dev = l.dev := by
    refine UInt8.toNat_inj.mp ?_
    rw [location, hand _ 5 (by rfl), UInt32.toNat_toUInt8, UInt32.toNat_shiftRight, haddr,
      Nat.shiftRight_eq_div_pow]
    simp only [UInt32.reduceToNat, Nat.reduceMod]
    omega
  have hfn' : (location (pciAddr l reg)).fn = l.fn := by
    refine UInt8.toNat_inj.mp ?_
    rw [location, hand _ 3 (by rfl), UInt32.toNat_toUInt8, UInt32.toNat_shiftRight, haddr,
      Nat.shiftRight_eq_div_pow]
    simp only [UInt32.reduceToNat, Nat.reduceMod]
    omega
  refine ⟨?_, ?_⟩
  · cases l
    exact (Location.mk.injEq ..).mpr ⟨hbus', hdev', hfn'⟩
  · rw [register, UInt32.toNat_shiftRight, haddr, Nat.shiftRight_eq_div_pow]
    simp only [UInt32.reduceToNat, Nat.reduceMod]
    omega

/-! ## Reading and writing -/

variable {l : Location} {F : Location → Option Registers} {f : Registers} {h : Host}

def peek (F : Location → Option Registers) (l : Location) (reg : UInt8) : UInt32 :=
  match F l with
  | some f => (f (reg.toNat / 4)).value
  | none => 0xFFFFFFFF

theorem peek_of_some (hf : F l = some f) (reg : UInt8) :
    peek F l reg = (f (reg.toNat / 4)).value := by
  rw [peek, hf]

theorem pciRead32_spec (hl : l.Valid) (reg : UInt8) (hh : h.function = F) :
    (pciRead32 l reg h).1 = peek F l reg ∧ (pciRead32 l reg h).2.function = F := by
  obtain ⟨hlocation, hregister⟩ := location_pciAddr hl reg
  refine ⟨?_, hh⟩
  change (h.outAddress (pciAddr l reg)).inData = _
  rw [Host.inData, Host.outAddress, hlocation, hregister, hh, peek]

def put (f : Registers) (reg : UInt8) (v : UInt32) : Registers :=
  Function.update f (reg.toNat / 4) ((f (reg.toNat / 4)).write v)

theorem pciWrite32_spec (hl : l.Valid) (reg : UInt8) (v : UInt32) (hh : h.function = F)
    (hf : F l = some f) :
    (pciWrite32 l reg v h).function = Function.update F l (some (put f reg v)) := by
  obtain ⟨hlocation, hregister⟩ := location_pciAddr hl reg
  rw [pciWrite32, Host.outData, Host.outAddress]
  dsimp only
  rw [hlocation, hregister, hh, hf]
  rfl

/-- No bit of the base address registers is cleared by a write. -/
def Quiet (f : Registers) : Prop := (f 4).latched = 0 ∧ (f 5).latched = 0

/-- The device that a scan reads off a function. -/
def deviceOf (l : Location) (f : Registers) : Device where
  location := l
  bar0 :=
    if (f 4).value &&& 0x6 = 0x4 then
      (f 5).value.toUInt64 <<< 32 ||| ((f 4).value &&& ~~~0xF).toUInt64
    else ((f 4).value &&& ~~~0xF).toUInt64
  bar0Size := ~~~(((f 4).value ||| (f 4).writable) &&& ~~~0xF) + 1

theorem put_apply (f : Registers) (reg : UInt8) (v : UInt32) (i : ℕ) :
    put f reg v i = if i = reg.toNat / 4 then (f i).write v else f i := by
  rw [put, Function.update_apply]
  split
  · next hi => rw [hi]
  · rfl

theorem put_restore (hq : Quiet f) (v : UInt32) :
    put (put f pciBar0 v) pciBar0 (f 4).value = f ∧
      put (put (put (put f pciBar0 v) (pciBar0 + 4) v) pciBar0 (f 4).value) (pciBar0 + 4)
        (f 5).value = f := by
  have h4 : pciBar0.toNat / 4 = 4 := rfl
  have h5 : (pciBar0 + 4).toNat / 4 = 5 := rfl
  refine ⟨funext fun i => ?_, funext fun i => ?_⟩
  · simp only [put_apply, h4]
    by_cases hi : i = 4
    · simp only [hi, if_true, Register.write_write hq.1]
    · simp only [hi, if_false]
  · simp only [put_apply, h4, h5]
    by_cases hi : i = 4
    · simp only [hi, if_true, Register.write_write hq.1, Nat.reduceEqDiff, if_false]
    · by_cases hi' : i = 5
      · simp only [hi', if_true, Register.write_write hq.2, Nat.reduceEqDiff, if_false]
      · simp only [hi, hi', if_false]

theorem index_bar0 : pciBar0.toNat / 4 = 4 ∧ (pciBar0 + 4).toNat / 4 = 5 := ⟨rfl, rfl⟩

theorem put_ones (hq : Quiet f) :
    (put f pciBar0 0xFFFFFFFF 4).value = (f 4).value ||| (f 4).writable ∧
      (put (put f pciBar0 0xFFFFFFFF) (pciBar0 + 4) 0xFFFFFFFF 4).value =
        (f 4).value ||| (f 4).writable := by
  have hprobe : (put f pciBar0 0xFFFFFFFF 4).value = (f 4).value ||| (f 4).writable := by
    rw [put_apply, if_pos index_bar0.1.symm, Register.write_ones hq.1]
  refine ⟨hprobe, ?_⟩
  rw [put_apply, index_bar0.2, if_neg (by decide), hprobe]

theorem decodeBar64_spec (hl : l.Valid) (hh : h.function = F) (hf : F l = some f) (hq : Quiet f) :
    (decodeBar64 l pciBar0 h).1 =
        ((f 5).value.toUInt64 <<< 32 ||| ((f 4).value &&& ~~~0xF).toUInt64,
          ~~~(((f 4).value ||| (f 4).writable) &&& ~~~0xF) + 1) ∧
      (decodeBar64 l pciBar0 h).2.function = F := by
  have hwrite {h' : Host} {f' : Registers} (reg : UInt8) (v : UInt32)
      (hh' : h'.function = Function.update F l (some f')) :
      (pciWrite32 l reg v h').function = Function.update F l (some (put f' reg v)) := by
    rw [pciWrite32_spec hl reg v hh' (Function.update_self ..), Function.update_idem]
  obtain ⟨hlo, hh₁⟩ := pciRead32_spec hl pciBar0 hh
  rw [peek_of_some hf] at hlo
  rw [decodeBar64]
  generalize pciRead32 l pciBar0 h = x₁ at hlo hh₁ ⊢
  obtain ⟨hhi, hh₂⟩ := pciRead32_spec hl (pciBar0 + 4) hh₁
  rw [peek_of_some hf] at hhi
  dsimp only
  generalize pciRead32 l (pciBar0 + 4) x₁.2 = x₂ at hhi hh₂ ⊢
  have hh₃ := hwrite (pciBar0 + 4) 0xFFFFFFFF (pciWrite32_spec hl pciBar0 0xFFFFFFFF hh₂ hf)
  generalize pciWrite32 l (pciBar0 + 4) 0xFFFFFFFF (pciWrite32 l pciBar0 0xFFFFFFFF x₂.2) = h₃
    at hh₃ ⊢
  obtain ⟨hsz, hh₄⟩ := pciRead32_spec hl pciBar0 hh₃
  rw [peek_of_some (Function.update_self ..)] at hsz
  generalize pciRead32 l pciBar0 h₃ = x₄ at hsz hh₄ ⊢
  rw [index_bar0.1, (put_ones hq).2] at hsz
  have hh₅ := hwrite (pciBar0 + 4) x₂.1 (hwrite pciBar0 x₁.1 hh₄)
  rw [hlo, hhi, index_bar0.1, index_bar0.2, (put_restore hq _).2, ← hf,
    Function.update_eq_self] at hh₅
  rw [hlo, hhi, index_bar0.1, index_bar0.2, hsz]
  exact ⟨rfl, hh₅⟩

theorem readDevice_spec (hl : l.Valid) (hh : h.function = F) (hf : F l = some f) (hq : Quiet f) :
    (readDevice l h).1 = deviceOf l f ∧ (readDevice l h).2.function = F := by
  obtain ⟨hlo, hh₁⟩ := pciRead32_spec hl pciBar0 hh
  rw [peek_of_some hf, index_bar0.1] at hlo
  rw [readDevice, deviceOf]
  generalize pciRead32 l pciBar0 h = x₁ at hlo hh₁ ⊢
  dsimp only
  rw [hlo]
  by_cases hwide : (f 4).value &&& 0x6 = 0x4
  · obtain ⟨hdecode, hh₂⟩ := decodeBar64_spec hl hh₁ hf hq
    rw [if_pos hwide, if_pos hwide]
    generalize decodeBar64 l pciBar0 x₁.2 = x₂ at hdecode hh₂ ⊢
    obtain ⟨⟨base, sz⟩, h₂⟩ := x₂
    obtain ⟨rfl, rfl⟩ := Prod.mk.inj hdecode
    exact ⟨rfl, hh₂⟩
  · have hh₂ := pciWrite32_spec hl pciBar0 0xFFFFFFFF hh₁ hf
    rw [if_neg hwide, if_neg hwide]
    generalize pciWrite32 l pciBar0 0xFFFFFFFF x₁.2 = h₂ at hh₂ ⊢
    obtain ⟨hsz, hh₃⟩ := pciRead32_spec hl pciBar0 hh₂
    rw [peek_of_some (Function.update_self ..), index_bar0.1, (put_ones hq).1] at hsz
    generalize pciRead32 l pciBar0 h₂ = x₃ at hsz hh₃ ⊢
    have hh₄ := pciWrite32_spec hl pciBar0 (f 4).value hh₃ (Function.update_self ..)
    rw [Function.update_idem, (put_restore hq _).1, ← hf, Function.update_eq_self] at hh₄
    rw [hsz]
    exact ⟨rfl, hh₄⟩

/-! ## The scans -/

/-- An xHCI controller: serial bus, USB, with that programming interface. -/
def isXhci (f : Registers) : Bool :=
  (f 0).value &&& 0xFFFF != 0xFFFF && (f 2).value >>> 8 == 0x0C0330

/-- One of four network controllers of a vendor. -/
def isE1000 (f : Registers) : Bool :=
  [0x100E8086, 0x100F8086, 0x10048086, 0x10158086].contains (f 0).value

theorem class_iff (cr : UInt32) :
    (cr >>> 24 &&& 0xFF == 0x0C && cr >>> 16 &&& 0xFF == 0x03 && cr >>> 8 &&& 0xFF == 0x30) =
      (cr >>> 8 == 0x0C0330) := by
  have hbyte (k : UInt32) : (cr >>> k &&& 0xFF).toNat = cr.toNat / 2 ^ (k.toNat % 32) % 2 ^ 8 := by
    have hmask : (0xFF : UInt32).toNat = 2 ^ 8 - 1 := rfl
    rw [UInt32.toNat_and, UInt32.toNat_shiftRight, Nat.shiftRight_eq_div_pow, hmask,
      Nat.and_two_pow_sub_one_eq_mod]
  have hclass : (cr >>> 8).toNat = cr.toNat / 2 ^ (8 % 32) := by
    rw [UInt32.toNat_shiftRight, Nat.shiftRight_eq_div_pow]
    rfl
  have hlt := cr.toNat_lt
  rw [Bool.eq_iff_iff]
  simp only [Bool.and_eq_true, beq_iff_eq, ← UInt32.toNat_inj, hbyte, hclass, UInt32.reduceToNat,
    Nat.reduceMod]
  omega

theorem ids_iff (v : UInt32) : (if v &&& 0xFFFF = 0xFFFF then false else
    (v &&& 0xFFFF == 0x8086 && (v >>> 16 &&& 0xFFFF == 0x100E || v >>> 16 &&& 0xFFFF == 0x100F ||
      v >>> 16 &&& 0xFFFF == 0x1004 || v >>> 16 &&& 0xFFFF == 0x1015))) =
    [0x100E8086, 0x100F8086, 0x10048086, 0x10158086].contains v := by
  have hmask (x : UInt32) : (x &&& 0xFFFF).toNat = x.toNat % 2 ^ 16 := by
    have hones : (0xFFFF : UInt32).toNat = 2 ^ 16 - 1 := rfl
    rw [UInt32.toNat_and, hones, Nat.and_two_pow_sub_one_eq_mod]
  have hhigh : (v >>> 16).toNat = v.toNat / 2 ^ (16 % 32) := by
    rw [UInt32.toNat_shiftRight, Nat.shiftRight_eq_div_pow]
    rfl
  have hlt := v.toNat_lt
  rw [Bool.eq_iff_iff, List.contains_iff_mem]
  simp only [List.mem_cons, List.not_mem_nil, or_false, ← UInt32.toNat_inj, hmask,
    UInt32.reduceToNat]
  split
  · simp only [Bool.false_eq_true, false_iff]
    omega
  · simp only [Bool.and_eq_true, Bool.or_eq_true, beq_iff_eq, ← UInt32.toNat_inj, hmask, hhigh,
      UInt32.reduceToNat, Nat.reduceMod]
    omega

theorem testXhci_spec (hl : l.Valid) (hh : h.function = F) :
    (testXhci l h).1 = (F l).any isXhci ∧ (testXhci l h).2.function = F := by
  obtain ⟨hvid, hh₁⟩ := pciRead32_spec hl pciVendorId hh
  rw [testXhci]
  generalize pciRead32 l pciVendorId h = x₁ at hvid hh₁ ⊢
  obtain ⟨hcr, hh₂⟩ := pciRead32_spec hl pciClassRev hh₁
  dsimp only
  generalize pciRead32 l pciClassRev x₁.2 = x₂ at hcr hh₂ ⊢
  rw [hvid, hcr, class_iff]
  cases hf : F l with
  | none =>
    have hones : (0xFFFFFFFF : UInt32) &&& 0xFFFF = 0xFFFF := by decide
    simp only [peek, hf, hones, if_true, Option.any_none]
    exact ⟨trivial, hh₁⟩
  | some f =>
    rw [peek_of_some hf, peek_of_some hf, Option.any_some, isXhci]
    have hid : (f (pciVendorId.toNat / 4)).value = (f 0).value := rfl
    have hclass : (f (pciClassRev.toNat / 4)).value = (f 2).value := rfl
    rw [hid, hclass]
    by_cases hnone : (f 0).value &&& 0xFFFF = 0xFFFF
    · simp only [hnone, if_true, bne_self_eq_false, Bool.false_and]
      exact ⟨trivial, hh₁⟩
    · simp only [hnone, if_false, bne_iff_ne.mpr hnone, Bool.true_and]
      exact ⟨trivial, hh₂⟩

theorem testE1000_spec (hl : l.Valid) (hh : h.function = F) :
    (testE1000 l h).1 = (F l).any isE1000 ∧ (testE1000 l h).2.function = F := by
  obtain ⟨hvid, hh₁⟩ := pciRead32_spec hl pciVendorId hh
  rw [testE1000]
  generalize pciRead32 l pciVendorId h = x₁ at hvid hh₁ ⊢
  have hview (b : Bool) : (if x₁.1 &&& 0xFFFF = 0xFFFF then (false, x₁.2) else (b, x₁.2)) =
      (if x₁.1 &&& 0xFFFF = 0xFFFF then false else b, x₁.2) := by
    split <;> rfl
  dsimp only
  rw [hview, ids_iff, hvid]
  refine ⟨?_, hh₁⟩
  cases hf : F l with
  | none =>
    have hpeek : peek F l pciVendorId = 0xFFFFFFFF := by rw [peek, hf]
    rw [hpeek]
    rfl
  | some f =>
    rw [peek_of_some hf]
    rfl

theorem mem_locations : l ∈ locations ↔ l.Valid := by
  have hbyte {x : UInt8} {n : ℕ} (hn : x.toNat < n) : ∃ a < n, UInt8.ofNat a = x :=
    ⟨x.toNat, hn, UInt8.ofNat_toNat⟩
  simp only [locations, List.mem_flatMap, List.mem_map, List.mem_range]
  constructor
  · rintro ⟨bus, hbus, dev, hdev, fn, hfn, rfl⟩
    exact ⟨by simp; omega, by simp; omega⟩
  · rintro ⟨hdev, hfn⟩
    obtain ⟨bus, hbus, hbus'⟩ := hbyte l.bus.toNat_lt
    obtain ⟨dev, hdev, hdev'⟩ := hbyte hdev
    obtain ⟨fn, hfn, hfn'⟩ := hbyte hfn
    exact ⟨bus, hbus, dev, hdev, fn, hfn, by rw [hbus', hdev', hfn']⟩

/-! ## Base addresses -/

/-- The bits of an address that are not those within a block of `2 ^ k` bytes. -/
def sizeMask (k : ℕ) : UInt32 := UInt32.ofNat (2 ^ 32 - 2 ^ k)

theorem toNat_sizeMask (k : ℕ) : (sizeMask k).toNat = 2 ^ 32 - 2 ^ k := by
  refine UInt32.toNat_ofNat_of_lt' ?_
  have hpos : 0 < 2 ^ k := Nat.two_pow_pos k
  exact Nat.sub_lt (by decide) hpos

theorem bit_sizeMask {k i : ℕ} (hk : k ≤ 32) (hi : i < 32) :
    bit (sizeMask k) i = decide (k ≤ i) := by
  have hsplit : 2 ^ 32 - 2 ^ k = 2 ^ k * (2 ^ (32 - k) - 1) := by
    rw [Nat.mul_sub, ← Nat.pow_add, Nat.add_sub_cancel' hk, Nat.mul_one]
  have hbit : bit (sizeMask k) i = (sizeMask k).toNat.testBit i := rfl
  rw [hbit, toNat_sizeMask, hsplit, Nat.testBit_two_pow_mul, Nat.testBit_two_pow_sub_one]
  by_cases hki : k ≤ i
  · simp only [hki, decide_true, Bool.true_and, decide_eq_true_eq]
    omega
  · simp [hki]

theorem not_sizeMask {k : ℕ} (hk : k ≤ 32) :
    ~~~sizeMask k + 1 = if k < 32 then UInt32.ofNat (2 ^ k) else 0 := by
  have hpos : 0 < 2 ^ k := Nat.two_pow_pos k
  have hle : 2 ^ k ≤ 2 ^ 32 := Nat.pow_le_pow_right (by decide) hk
  have hone : (1 : UInt32).toNat = 1 := rfl
  have hsum : (~~~sizeMask k + 1).toNat = 2 ^ k % 2 ^ 32 := by
    rw [UInt32.toNat_add, UInt32.toNat_not, toNat_sizeMask, UInt32.size, hone]
    congr 1
    omega
  refine UInt32.toNat_inj.mp (hsum.trans ?_)
  by_cases hlt : k < 32
  · rw [if_pos hlt]
    exact (UInt32.toNat_ofNat' ..).symm
  · have h32 : k = 32 := by omega
    rw [if_neg hlt, h32]
    rfl

/-- Registers for a block of `2 ^ k` bytes at an address, in one word or in two. -/
structure MemoryBar (f : Registers) (wide : Bool) (base : UInt64) (k : ℕ) : Prop where
  four_le : 4 ≤ k
  lt : k < if wide then 64 else 32
  wide_iff : (f 4).value &&& 0x6 = 0x4 ↔ wide = true
  base_eq : (if wide then (f 5).value.toUInt64 <<< 32 else 0) |||
    ((f 4).value &&& ~~~0xF).toUInt64 = base
  aligned : 2 ^ k ∣ base.toNat
  writable : (f 4).writable = sizeMask (min k 32)

theorem MemoryBar.bit_eq_false {wide : Bool} {base : UInt64} {k i : ℕ} (h : MemoryBar f wide base k)
    (hi : i < min k 32) : bit ((f 4).value &&& ~~~0xF) i = false := by
  obtain ⟨q, hq⟩ := h.aligned
  have hbase : base.toNat.testBit i = false := by
    rw [hq, Nat.testBit_two_pow_mul, decide_eq_false (by omega), Bool.false_and]
  have hhigh : (if wide then (f 5).value.toUInt64 <<< 32 else 0).toNat.testBit i = false := by
    split
    · have hlow : ¬ 32 ≤ i := by omega
      rw [UInt64.toNat_shiftLeft, Nat.testBit_mod_two_pow, Nat.testBit_shiftLeft]
      simp [hlow]
    · exact Nat.zero_testBit i
  rw [← h.base_eq, UInt64.toNat_or, Nat.testBit_or, hhigh, Bool.false_or,
    UInt32.toNat_toUInt64] at hbase
  exact hbase

theorem deviceOf_bar {wide : Bool} {base : UInt64} {k : ℕ} (h : MemoryBar f wide base k)
    (l : Location) : (deviceOf l f).bar0 = base ∧
      (deviceOf l f).bar0Size = if k < 32 then UInt32.ofNat (2 ^ k) else 0 := by
  have hmin : min k 32 ≤ 32 := Nat.min_le_right k 32
  have hfour := h.four_le
  -- the writable bits of the low word are all that the probe shows
  have hprobe : ((f 4).value ||| (f 4).writable) &&& ~~~0xF = sizeMask (min k 32) := by
    refine eq_of_bit fun i hi => ?_
    have hlow : bit 0xF i = decide (i < 4) := by
      have hall : ∀ i < 32, bit 0xF i = decide (i < 4) := by decide
      exact hall i hi
    have hvalue := bit_and (f 4).value (~~~0xF) i
    rw [bit_not _ hi, hlow] at hvalue
    rw [bit_and, bit_or, bit_not _ hi, h.writable, bit_sizeMask hmin hi, hlow]
    by_cases hki : min k 32 ≤ i
    · have hfour' : ¬ i < 4 := by omega
      simp [hki, hfour']
    · rw [h.bit_eq_false (Nat.lt_of_not_le hki)] at hvalue
      simpa [hki] using hvalue.symm
  have hsize : (if k < 32 then UInt32.ofNat (2 ^ k) else 0) =
      if min k 32 < 32 then UInt32.ofNat (2 ^ min k 32) else 0 := by
    by_cases hk : k < 32
    · rw [Nat.min_eq_left hk.le]
    · rw [if_neg hk, Nat.min_eq_right (by omega), if_neg (Nat.lt_irrefl 32)]
  refine ⟨?_, ?_⟩
  · rw [← h.base_eq, deviceOf]
    by_cases hwide : wide = true
    · rw [if_pos (h.wide_iff.mpr hwide), if_pos hwide]
    · rw [if_neg (mt h.wide_iff.mp hwide), if_neg hwide, UInt64.zero_or]
  · rw [hsize, ← not_sizeMask hmin, ← hprobe]
    rfl

/-! ## The first of its kind -/

/-- What a scan is to come to: the first function of a kind, with where its memory is and how much
of it there is, and nothing changed on the buses. The size of a block of 4 GiB or more is given
as 0. -/
structure FindsFirst (F : Location → Option Registers) (p : Registers → Bool)
    (r : Option Device × Host) : Prop where
  function : r.2.function = F
  none : r.1 = none → ∀ l f, l.Valid → F l = some f → p f = false
  first : ∀ d, r.1 = some d → ∃ f before after, locations = before ++ d.location :: after ∧
    (∀ l ∈ before, ∀ f', F l = some f' → p f' = false) ∧ F d.location = some f ∧ p f = true ∧
    ∀ wide base k, MemoryBar f wide base k →
      d.bar0 = base ∧ d.bar0Size = if k < 32 then UInt32.ofNat (2 ^ k) else 0

/-- The device was read off a function of that kind. -/
def ReadOff (F : Location → Option Registers) (p : Registers → Bool) (l : Location) (d : Device) :
    Prop := ∃ f, F l = some f ∧ p f = true ∧ d = deviceOf l f

theorem findsFirst {test : Location → Host → Bool × Host} {p : Registers → Bool}
    (htest : ∀ {l : Location} {h : Host}, l.Valid → h.function = F →
      (test l h).1 = (F l).any p ∧ (test l h).2.function = F)
    (hq : ∀ l f, F l = some f → Quiet f) (hh : h.function = F) :
    FindsFirst F p (findM test readDevice locations h) := by
  have hno {l : Location} (hl : (F l).any p = false) : ∀ f, F l = some f → p f = false := by
    intro f hf
    rwa [hf, Option.any_some] at hl
  have hfound (l : Location) (hl : l ∈ locations) (h : Host) (hh : h.function = F)
      (hp : (F l).any p = true) :
      ReadOff F p l (readDevice l h).1 ∧ (readDevice l h).2.function = F := by
    cases hf : F l with
    | none =>
      rw [hf] at hp
      exact absurd hp (by simp)
    | some f =>
      rw [hf, Option.any_some] at hp
      obtain ⟨hdevice, hview⟩ := readDevice_spec (mem_locations.mp hl) hh hf (hq l f hf)
      exact ⟨⟨f, hf, hp, hdevice⟩, hview⟩
  have htest' (l : Location) (hl : l ∈ locations) (h : Host) (hh : h.function = F) :
      (test l h).1 = (F l).any p ∧ (test l h).2.function = F := htest (mem_locations.mp hl) hh
  obtain ⟨hview, hresult⟩ := findM_spec htest' hfound hh
  refine ⟨hview, fun hnone l f hl => ?_, fun d hd => ?_⟩
  · rcases hresult with ⟨-, hall⟩ | ⟨_, _, _, _, _, _, _, _, hsome⟩
    · exact hno (hall l (mem_locations.mpr hl)) f
    · rw [hnone] at hsome
      exact absurd hsome (by simp)
  · rcases hresult with
      ⟨hnone, -⟩ | ⟨before, l, after, b, hlist, hbefore, -, ⟨f, hf, hp, rfl⟩, hsome⟩
    · rw [hnone] at hd
      exact absurd hd (by simp)
    · obtain rfl := Option.some.inj (hd.symm.trans hsome)
      exact ⟨f, before, after, hlist, fun l hl => hno (hbefore l hl), hf, hp,
        fun _ _ _ hbar => deviceOf_bar hbar l⟩

/-- Both scans find the first controller of their kind, on any buses. -/
theorem pci_find_first (h : Host) (hq : ∀ l f, h.function l = some f → Quiet f) :
    FindsFirst h.function isXhci (pciFindXhci h) ∧
      FindsFirst h.function isE1000 (pciFindE1000 h) :=
  ⟨findsFirst testXhci_spec hq rfl, findsFirst testE1000_spec hq rfl⟩

/-- A controller with 64 KiB of registers at `0xFE000000`, third on the first bus. -/
def sampleFunction : Registers :=
  Function.update (Function.update (Function.update (fun _ => ⟨0, 0, 0, rfl⟩) 0
    ⟨0x000D1B36, 0, 0, rfl⟩) 2 ⟨0x0C033001, 0, 0, rfl⟩) 4 ⟨0xFE000004, 0xFFFF0000, 0, rfl⟩

def sampleHost : Host := ⟨0, fun l => if l = ⟨0, 3, 0⟩ then some sampleFunction else none⟩

theorem pci_find_first_sampleHost :
    (pciFindXhci sampleHost).1 ≠ none ∧
      (pciFindXhci sampleHost).2.function = sampleHost.function := by
  have hquiet (l : Location) (f : Registers) (hf : sampleHost.function l = some f) : Quiet f := by
    change (if l = ⟨0, 3, 0⟩ then some sampleFunction else none) = some f at hf
    split at hf
    · obtain rfl := Option.some.inj hf
      exact ⟨rfl, rfl⟩
    · exact absurd hf (by simp)
  obtain ⟨hfirst, -⟩ := pci_find_first sampleHost hquiet
  refine ⟨fun hnone => ?_, hfirst.function⟩
  have hno := hfirst.none hnone ⟨0, 3, 0⟩ sampleFunction ⟨by decide, by decide⟩ rfl
  exact absurd hno (by decide)

/-! ## Enabling a device -/

/-- Bus mastering and memory accesses. -/
def enableBits : UInt32 := 0x6

theorem bit_low (x : UInt32) (i : ℕ) :
    bit x.toUInt16.toUInt32 i = (decide (i < 16) && bit x i) := by
  have hbit (y : UInt32) : bit y i = y.toNat.testBit i := rfl
  rw [hbit, hbit, UInt16.toNat_toUInt32, UInt32.toNat_toUInt16, Nat.testBit_mod_two_pow]

theorem enabled_word (v : UInt32) :
    v &&& ~~~(0xFFFF : UInt32) ||| (v.toUInt16 ||| 0x4 ||| 0x2).toUInt32 = v ||| enableBits := by
  have hor : (v.toUInt16 ||| 0x4 ||| 0x2).toUInt32 = v.toUInt16.toUInt32 ||| enableBits := by
    rw [UInt16.or_assoc, UInt16.toUInt32_or]
    rfl
  rw [hor]
  refine eq_of_bit fun i hi => ?_
  have hhalf : bit 0xFFFF i = decide (i < 16) := by
    have hall : ∀ i < 32, bit 0xFFFF i = decide (i < 16) := by decide
    exact hall i hi
  rw [bit_or, bit_or, bit_or, bit_and, bit_not _ hi, bit_low, hhalf]
  by_cases hi' : i < 16 <;> simp [hi']

theorem write_enabled {r : Register} (hbits : enableBits &&& r.writable = enableBits) :
    r.write (r.value ||| enableBits) =
      { r with value := (r.value ||| enableBits) &&& ~~~r.latched } := by
  have hvalue : (r.write (r.value ||| enableBits)).value =
      (r.value ||| enableBits) &&& ~~~r.latched := by
    refine eq_of_bit fun i hi => ?_
    have hbit := bit_and enableBits r.writable i
    rw [hbits] at hbit
    rw [Register.bit_write _ _ hi, bit_and, bit_or, bit_not _ hi]
    by_cases hw : bit r.writable i
    · simp [hw, Register.bit_latched hw]
    · have hoff : bit enableBits i = false := by simpa [hw] using hbit
      by_cases hv : bit r.value i <;> simp [hw, hoff, hv]
  rw [← hvalue]
  rfl

/-- Enabling a device that has both bits sets them, leaves the rest of its command register and all
other registers of all devices alone, and clears every bit that its status register has latched. -/
theorem pci_enable_device {d : Device} (hl : d.location.Valid) (hf : h.function d.location = some f)
    (hbits : enableBits &&& (f 1).writable = enableBits) :
    (pciEnableDevice d h).function = Function.update h.function d.location (some
      (Function.update f 1
        { f 1 with value := ((f 1).value ||| enableBits) &&& ~~~(f 1).latched })) := by
  have hreg : pciCommand &&& 0xFC = pciCommand := by decide
  have hshift : (pciCommand &&& 2).toUInt32 * 8 = 0 := by decide
  have hindex : pciCommand.toNat / 4 = 1 := rfl
  obtain ⟨hcmd, hh₁⟩ := pciRead32_spec hl pciCommand (rfl : h.function = h.function)
  obtain ⟨hdword, hh₂⟩ := pciRead32_spec hl pciCommand hh₁
  rw [peek_of_some hf, hindex] at hcmd hdword
  rw [pciEnableDevice, pciRead16]
  dsimp only
  rw [pciWrite16]
  dsimp only
  rw [hreg, hshift, hdword, hcmd, UInt32.shiftRight_zero, UInt32.shiftLeft_zero,
    UInt32.shiftLeft_zero, enabled_word, pciWrite32_spec hl pciCommand _ hh₂ hf, put, hindex,
    write_enabled hbits]

/-- The sample controller, with an error that its status register has latched. -/
def sampleFaulty : Registers :=
  Function.update sampleFunction 1 ⟨0x20000400, 0x00000546, 0xF9000000, by decide⟩

def sampleDevice : Device := ⟨⟨0, 3, 0⟩, 0xFE000000, 0x10000⟩

theorem pci_enable_device_sampleFaulty :
    (pciEnableDevice sampleDevice ⟨0, fun _ => some sampleFaulty⟩).function sampleDevice.location =
      some (Function.update sampleFaulty 1 ⟨0x00000406, 0x00000546, 0xF9000000, by decide⟩) := by
  have hvalid : sampleDevice.location.Valid := ⟨by decide, by decide⟩
  rw [pci_enable_device hvalid (f := sampleFaulty) rfl (by decide), Function.update_self]
  rfl

end StyxOS.Pci
