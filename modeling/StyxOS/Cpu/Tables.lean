import StyxOS.Library.X86

/-! # The tables of the processor

`gdt_init`, `tss_init` and `idt_init` write the descriptors of the segments and of the
gates, `syscall_init` the registers for system calls. What the processor reads out of
them later are the segments of two rings, and one gate for each of 48 vectors.
-/

namespace StyxOS.Cpu

open ByteMem X86

/-- Where the tables and the entry points lie. The two tables do not overlap. -/
structure Placement where
  gdt : UInt64
  idt : UInt64
  tss : UInt64
  stub : ℕ → UInt64
  syscallEntry : UInt64
  gdt_le : gdt.toNat + 64 ≤ 2 ^ 64
  idt_le : idt.toNat + 4096 ≤ 2 ^ 64
  tss_le : tss.toNat + 104 ≤ 2 ^ 64
  gdt_idt : gdt.toNat + 64 ≤ idt.toNat ∨ idt.toNat + 4096 ≤ gdt.toNat
  gdt_tss : gdt.toNat + 64 ≤ tss.toNat ∨ tss.toNat + 104 ≤ gdt.toNat
  idt_tss : idt.toNat + 4096 ≤ tss.toNat ∨ tss.toNat + 104 ≤ idt.toNat
  stub_ne_null : ∀ v < 48, stub v ≠ 0

def gdtSelKernelCode : UInt16 := 0x08
def gdtSelKernelData : UInt16 := 0x10
def gdtSelUserData : UInt16 := 0x20
def gdtSelUserCode64 : UInt16 := 0x28

/-- `gdt_entry_t`. -/
structure GdtEntry where
  limitLow : UInt16
  baseLow : UInt16
  baseMid : UInt8
  access : UInt8
  granularity : UInt8
  baseHigh : UInt8

def GdtEntry.bytes (e : GdtEntry) : List UInt8 :=
  leBytes 2 e.limitLow.toNat ++ leBytes 2 e.baseLow.toNat ++
    [e.baseMid, e.access, e.granularity, e.baseHigh]

def encodeEntry (access granularity : UInt8) : GdtEntry := ⟨0xFFFF, 0, 0, access, granularity, 0⟩

def nullEntry : GdtEntry := ⟨0, 0, 0, 0, 0, 0⟩

/-- The entries that `gdt_init` writes. -/
def gdtEntries : List GdtEntry :=
  [nullEntry, encodeEntry 0x9A 0xA0, encodeEntry 0x92 0xC0, encodeEntry 0xFA 0xC0,
    encodeEntry 0xF2 0xC0, encodeEntry 0xFA 0xA0, nullEntry, nullEntry]

/-- `gdt_tss_entry_t`. -/
structure GdtTssEntry where
  length : UInt16
  baseLow : UInt16
  baseMid : UInt8
  flags1 : UInt8
  flags2 : UInt8
  baseHigh : UInt8
  baseUpper : UInt32
  reserved : UInt32

def GdtTssEntry.bytes (e : GdtTssEntry) : List UInt8 :=
  leBytes 2 e.length.toNat ++ leBytes 2 e.baseLow.toNat ++
    [e.baseMid, e.flags1, e.flags2, e.baseHigh] ++ leBytes 4 e.baseUpper.toNat ++
    leBytes 4 e.reserved.toNat

/-- `struct idt_entry`. -/
structure IdtEntry where
  isrLow : UInt16
  kernelCs : UInt16
  ist : UInt8
  attributes : UInt8
  isrMid : UInt16
  isrHigh : UInt32
  reserved : UInt32

def IdtEntry.bytes (e : IdtEntry) : List UInt8 :=
  leBytes 2 e.isrLow.toNat ++ leBytes 2 e.kernelCs.toNat ++ [e.ist, e.attributes] ++
    leBytes 2 e.isrMid.toNat ++ leBytes 4 e.isrHigh.toNat ++ leBytes 4 e.reserved.toNat

section

variable (L : Placement) (m : Mem)

def gdtInit : Mem := store m L.gdt.toNat (gdtEntries.flatMap GdtEntry.bytes)

def gdtInstallTss (tssBase : UInt64) (tssLimit : UInt16) : Mem :=
  store m (L.gdt.toNat + 8 * 6)
    (GdtTssEntry.bytes {
      length := tssLimit
      baseLow := (tssBase &&& 0xFFFF).toUInt16
      baseMid := (tssBase >>> 16 &&& 0xFF).toUInt8
      flags1 := 0x89
      flags2 := 0
      baseHigh := (tssBase >>> 24 &&& 0xFF).toUInt8
      baseUpper := (tssBase >>> 32 &&& 0xFFFFFFFF).toUInt32
      reserved := 0 })

/-- `sizeof(tss_t)`, and the offsets of two of its fields. -/
def sizeofTss : ℕ := 104
def tssRsp0 : ℕ := 0x04
def tssIopbOffset : ℕ := 0x66

def tssInit : Mem :=
  let m := store m L.tss.toNat (List.replicate sizeofTss 0)
  let m := storeLE m (L.tss.toNat + tssIopbOffset) 2 sizeofTss
  let m := storeLE m (L.tss.toNat + tssRsp0) 8 0
  gdtInstallTss L m L.tss (UInt16.ofNat (sizeofTss - 1))

def tssSetKernelStack (rsp0 : UInt64) : Mem :=
  storeLE m (L.tss.toNat + tssRsp0) 8 rsp0.toNat

/-- `idt_set_gate`, with the code segment in force. -/
def idtSetGate (cs : UInt16) (m : Mem) (vector : ℕ) (isr : UInt64) (attributes : UInt8) : Mem :=
  store m (L.idt.toNat + 16 * vector)
    (IdtEntry.bytes {
      isrLow := (isr &&& 0xFFFF).toUInt16
      kernelCs := cs
      ist := 0
      attributes
      isrMid := (isr >>> 16 &&& 0xFFFF).toUInt16
      isrHigh := (isr >>> 32 &&& 0xFFFFFFFF).toUInt32
      reserved := 0 })

def idtInit (cs : UInt16) : Mem :=
  let m := store m L.idt.toNat (List.replicate (16 * 256) 0)
  let m := (List.range 32).foldl
    (fun m i => if L.stub i ≠ 0 then idtSetGate L cs m i (L.stub i) 0x8E else m) m
  (List.range 16).foldl
    (fun m i => if L.stub (32 + i) ≠ 0 then idtSetGate L cs m (32 + i) (L.stub (32 + i)) 0x8E
      else m) m

/-- The tables as `main` sets them up: CS is that of the new GDT when the gates are written. -/
def initTables : Mem := idtInit L (tssInit L (gdtInit L m)) gdtSelKernelCode

end

/-- What `lgdt`, `lidt`, `ltr` and `syscall_init` leave in the processor, from the EFER before. -/
def tables (L : Placement) (efer : UInt64) : Tables where
  gdtBase := L.gdt
  gdtLimit := 8 * 8 - 1
  idtBase := L.idt
  idtLimit := 16 * 256 - 1
  tssBase := L.tss
  efer := efer ||| 1
  star := (0x18 : UInt64) <<< 48 ||| (0x08 : UInt64) <<< 32
  lstar := L.syscallEntry
  sfmask := 0x200

/-! ## What the processor finds -/

/-- The segments and gates that the kernel means, and the task state segment. The other vectors have
no gate. -/
structure Installed (L : Placement) (t : Tables) (m : Mem) : Prop where
  gdtBase : t.gdtBase = L.gdt
  gdtLimit : t.gdtLimit = 8 * 8 - 1
  idtBase : t.idtBase = L.idt
  idtLimit : t.idtLimit = 16 * 256 - 1
  tssBase : t.tssBase = L.tss
  kernelCode : segmentAt t m gdtSelKernelCode = some ⟨0x9A, 0xA0⟩
  kernelData : segmentAt t m gdtSelKernelData = some ⟨0x92, 0xC0⟩
  userData : segmentAt t m (gdtSelUserData ||| 3) = some ⟨0xF2, 0xC0⟩
  userCode : segmentAt t m (gdtSelUserCode64 ||| 3) = some ⟨0xFA, 0xA0⟩
  tss : systemBase m (L.gdt.toNat + 8 * 6) = L.tss
  gates : ∀ v < 48, gate t m v = some ⟨L.stub v, gdtSelKernelCode, 0, 0x8E⟩
  noGate : ∀ v g, 48 ≤ v → gate t m v = some g → g.isInterrupt = false

variable {L : Placement} {t : Tables} {m m' : Mem} {v w : ℕ} {isr : UInt64} {cs : UInt16}
  {attributes : UInt8} {efer : UInt64}

theorem length_idtEntry (e : IdtEntry) : e.bytes.length = 16 := by
  simp [IdtEntry.bytes]

theorem loadLE_store_sub {a i n : ℕ} {bs : List UInt8} (h : i + n ≤ bs.length) :
    loadLE (store m a bs) (a + i) n = leVal ((bs.drop i).take n) := by
  rw [loadLE, load_store_sub h]

theorem leVal_leBytes_of_lt (n : ℕ) {x : ℕ} (h : x < 256 ^ n) : leVal (leBytes n x) = x :=
  (leVal_leBytes n x).trans (Nat.mod_eq_of_lt h)

theorem splitAddress (x : UInt64) :
    (x &&& 0xFFFF).toUInt16.toNat + 2 ^ 16 * (x >>> 16 &&& 0xFFFF).toUInt16.toNat +
      2 ^ 32 * (x >>> 32 &&& 0xFFFFFFFF).toUInt32.toNat = x.toNat := by
  have hx := x.toNat_lt
  have hmask : ∀ y : ℕ, y &&& 65535 = y % 2 ^ 16 := fun y => Nat.and_two_pow_sub_one_eq_mod y 16
  have hmask' : ∀ y : ℕ, y &&& 4294967295 = y % 2 ^ 32 :=
    fun y => Nat.and_two_pow_sub_one_eq_mod y 32
  simp only [UInt64.toNat_toUInt16, UInt64.toNat_toUInt32, UInt64.toNat_and,
    UInt64.toNat_shiftRight, UInt64.toNat_ofNat, Nat.shiftRight_eq_div_pow, Nat.reduceMod, hmask,
    hmask', Nat.reducePow]
  omega

theorem gate_idtSetGate (hv : v < 256) :
    gate (tables L efer) (idtSetGate L cs m v isr attributes) v =
      some ⟨isr, cs, 0, attributes⟩ := by
  unfold gate idtSetGate
  dsimp only
  generalize he : IdtEntry.mk (isr &&& 0xFFFF).toUInt16 cs 0 attributes
    (isr >>> 16 &&& 0xFFFF).toUInt16 (isr >>> 32 &&& 0xFFFFFFFF).toUInt32 0 = e
  have hlen := length_idtEntry e
  have hlow : loadLE (store m (L.idt.toNat + 16 * v) e.bytes) (L.idt.toNat + 16 * v) 2 =
      e.isrLow.toNat := by
    have hsub : loadLE (store m (L.idt.toNat + 16 * v) e.bytes) (L.idt.toNat + 16 * v) 2 =
        leVal (leBytes 2 e.isrLow.toNat) := loadLE_store_sub (i := 0) (by omega)
    exact hsub.trans (leVal_leBytes_of_lt 2 e.isrLow.toNat_lt)
  have hcs : loadLE (store m (L.idt.toNat + 16 * v) e.bytes) (L.idt.toNat + 16 * v + 2) 2 =
      e.kernelCs.toNat := by
    rw [loadLE_store_sub (by omega)]
    exact leVal_leBytes_of_lt 2 e.kernelCs.toNat_lt
  have hmid : loadLE (store m (L.idt.toNat + 16 * v) e.bytes) (L.idt.toNat + 16 * v + 6) 2 =
      e.isrMid.toNat := by
    rw [loadLE_store_sub (by omega)]
    exact leVal_leBytes_of_lt 2 e.isrMid.toNat_lt
  have hhigh : loadLE (store m (L.idt.toNat + 16 * v) e.bytes) (L.idt.toNat + 16 * v + 8) 4 =
      e.isrHigh.toNat := by
    rw [loadLE_store_sub (by omega)]
    exact leVal_leBytes_of_lt 4 e.isrHigh.toNat_lt
  have hist : store m (L.idt.toNat + 16 * v) e.bytes (L.idt.toNat + 16 * v + 4) = e.ist :=
    store_apply (by omega)
  have hattributes : store m (L.idt.toNat + 16 * v) e.bytes (L.idt.toNat + 16 * v + 5) =
      e.attributes := store_apply (by omega)
  have hlimit : ¬(tables L efer).idtLimit.toNat < 16 * v + 15 := by
    have hval : (tables L efer).idtLimit.toNat = 4095 := rfl
    omega
  have hbase : (tables L efer).idtBase = L.idt := rfl
  rw [hbase, if_neg hlimit, hlow, hcs, hmid, hhigh, hist, hattributes, ← he]
  dsimp only
  rw [splitAddress, UInt64.ofNat_toNat, UInt16.ofNat_toNat]

theorem gate_congr (h : ∀ x, t.idtBase.toNat + 16 * v ≤ x → x < t.idtBase.toNat + 16 * v + 16 →
    m' x = m x) : gate t m' v = gate t m v := by
  have hload : ∀ i n, i + n ≤ 16 → loadLE m' (t.idtBase.toNat + 16 * v + i) n =
      loadLE m (t.idtBase.toNat + 16 * v + i) n :=
    fun i n hi => loadLE_congr fun j hj => h _ (by omega) (by omega)
  have hzero := hload 0 2 (by omega)
  rw [Nat.add_zero] at hzero
  unfold gate
  dsimp only
  rw [hzero, hload 2 2 (by omega), hload 6 2 (by omega), hload 8 4 (by omega),
    h (t.idtBase.toNat + 16 * v + 4) (by omega) (by omega),
    h (t.idtBase.toNat + 16 * v + 5) (by omega) (by omega)]

theorem idtSetGate_apply {x : ℕ} (h : x < L.idt.toNat + 16 * v ∨ L.idt.toNat + 16 * v + 16 ≤ x) :
    idtSetGate L cs m v isr attributes x = m x := by
  rcases h with h | h
  · exact store_apply_of_lt h
  · exact store_apply_of_ge (by rwa [length_idtEntry])

theorem gate_idtSetGate_of_ne (h : v ≠ w) :
    gate (tables L efer) (idtSetGate L cs m w isr attributes) v = gate (tables L efer) m v :=
  gate_congr fun x hlow hhigh => idtSetGate_apply (by
    have hbase : (tables L efer).idtBase = L.idt := rfl
    rw [hbase] at hlow hhigh
    omega)

/-- One of the loops of `idt_init`: it writes the gates from one vector on. -/
theorem idtLoop_spec (L : Placement) (m : Mem) (cs : UInt16) (efer : UInt64) (first n : ℕ)
    (hlast : first + n ≤ 48) :
    (∀ x, x < L.idt.toNat ∨ L.idt.toNat + 4096 ≤ x →
      (List.range n).foldl (fun m i => if L.stub (first + i) ≠ 0 then
        idtSetGate L cs m (first + i) (L.stub (first + i)) 0x8E else m) m x = m x) ∧
    ∀ v, gate (tables L efer) ((List.range n).foldl (fun m i => if L.stub (first + i) ≠ 0 then
        idtSetGate L cs m (first + i) (L.stub (first + i)) 0x8E else m) m) v =
      if first ≤ v ∧ v < first + n then some ⟨L.stub v, cs, 0, 0x8E⟩
      else gate (tables L efer) m v := by
  induction n with
  | zero => exact ⟨fun _ _ => rfl, fun v => (if_neg (by omega)).symm⟩
  | succ n ih =>
    obtain ⟨hout, hgate⟩ := ih (by omega)
    have hstub := L.stub_ne_null (first + n) (by omega)
    simp only [List.range_succ, List.foldl_append, List.foldl_cons, List.foldl_nil]
    rw [if_pos hstub]
    refine ⟨fun x hx => ?_, fun v => ?_⟩
    · rw [idtSetGate_apply (by omega), hout x hx]
    · rcases eq_or_ne v (first + n) with rfl | hne
      · rw [gate_idtSetGate (by omega), if_pos (by omega)]
      · rw [gate_idtSetGate_of_ne hne, hgate]
        exact if_congr (by omega) rfl rfl

theorem tssInit_apply {x : ℕ} (htss : x < L.tss.toNat ∨ L.tss.toNat + 104 ≤ x)
    (hgdt : x < L.gdt.toNat + 8 * 6 ∨ L.gdt.toNat + 64 ≤ x) : tssInit L m x = m x := by
  have hiopb : ∀ m : Mem, storeLE m (L.tss.toNat + tssIopbOffset) 2 sizeofTss x = m x := by
    intro m
    unfold tssIopbOffset
    rcases htss with h | h
    · exact store_apply_of_lt (by omega)
    · exact store_apply_of_ge (by rw [length_leBytes]; omega)
  have hrsp0 : ∀ m : Mem, storeLE m (L.tss.toNat + tssRsp0) 8 0 x = m x := by
    intro m
    unfold tssRsp0
    rcases htss with h | h
    · exact store_apply_of_lt (by omega)
    · exact store_apply_of_ge (by rw [length_leBytes]; omega)
  have hzero : store m L.tss.toNat (List.replicate sizeofTss 0) x = m x := by
    rcases htss with h | h
    · exact store_apply_of_lt h
    · exact store_apply_of_ge (by rwa [List.length_replicate])
  have hdescriptor : ∀ m : Mem,
      gdtInstallTss L m L.tss (UInt16.ofNat (sizeofTss - 1)) x = m x := by
    intro m
    rcases hgdt with h | h
    · exact store_apply_of_lt h
    · exact store_apply_of_ge h
  unfold tssInit
  rw [hdescriptor, hrsp0, hiopb, hzero]

theorem systemBase_tssInit : systemBase (tssInit L m) (L.gdt.toNat + 8 * 6) = L.tss := by
  unfold tssInit
  dsimp only
  generalize storeLE (storeLE (store m L.tss.toNat (List.replicate sizeofTss 0))
    (L.tss.toNat + tssIopbOffset) 2 sizeofTss) (L.tss.toNat + tssRsp0) 8 0 = m'
  unfold systemBase gdtInstallTss
  generalize he : GdtTssEntry.mk (UInt16.ofNat (sizeofTss - 1)) (L.tss &&& 0xFFFF).toUInt16
    (L.tss >>> 16 &&& 0xFF).toUInt8 0x89 0 (L.tss >>> 24 &&& 0xFF).toUInt8
    (L.tss >>> 32 &&& 0xFFFFFFFF).toUInt32 0 = e
  have hlen : e.bytes.length = 16 := by simp [GdtTssEntry.bytes]
  have hlow : loadLE (store m' (L.gdt.toNat + 8 * 6) e.bytes) (L.gdt.toNat + 8 * 6 + 2) 2 =
      e.baseLow.toNat := by
    rw [loadLE_store_sub (by omega)]
    exact leVal_leBytes_of_lt 2 e.baseLow.toNat_lt
  have hupper : loadLE (store m' (L.gdt.toNat + 8 * 6) e.bytes) (L.gdt.toNat + 8 * 6 + 8) 4 =
      e.baseUpper.toNat := by
    rw [loadLE_store_sub (by omega)]
    exact leVal_leBytes_of_lt 4 e.baseUpper.toNat_lt
  have hmid : store m' (L.gdt.toNat + 8 * 6) e.bytes (L.gdt.toNat + 8 * 6 + 4) = e.baseMid :=
    store_apply (by omega)
  have hhigh : store m' (L.gdt.toNat + 8 * 6) e.bytes (L.gdt.toNat + 8 * 6 + 7) = e.baseHigh :=
    store_apply (by omega)
  rw [hlow, hupper, hmid, hhigh, ← he]
  dsimp only
  have hx := L.tss.toNat_lt
  have hmask : ∀ y : ℕ, y &&& 65535 = y % 2 ^ 16 := fun y => Nat.and_two_pow_sub_one_eq_mod y 16
  have hmask' : ∀ y : ℕ, y &&& 255 = y % 2 ^ 8 := fun y => Nat.and_two_pow_sub_one_eq_mod y 8
  have hmask'' : ∀ y : ℕ, y &&& 4294967295 = y % 2 ^ 32 :=
    fun y => Nat.and_two_pow_sub_one_eq_mod y 32
  apply UInt64.toNat_inj.mp
  simp only [UInt64.toNat_ofNat', UInt64.toNat_toUInt8, UInt64.toNat_toUInt16,
    UInt64.toNat_toUInt32, UInt64.toNat_and, UInt64.toNat_shiftRight, UInt64.toNat_ofNat,
    Nat.shiftRight_eq_div_pow, Nat.reduceMod, hmask, hmask', hmask'', Nat.reducePow]
  omega

theorem installed (L : Placement) (efer : UInt64) (m : Mem) :
    Installed L (tables L efer) (initTables L m) := by
  have hgi := L.gdt_idt
  have hgt := L.gdt_tss
  have hti := L.idt_tss
  have hout : ∀ x, x < L.idt.toNat ∨ L.idt.toNat + 4096 ≤ x →
      initTables L m x = tssInit L (gdtInit L m) x := by
    intro x hx
    unfold initTables idtInit
    rw [(idtLoop_spec L _ _ 0 32 16 (by omega)).1 x hx]
    have hfirst := (idtLoop_spec L
      (store (tssInit L (gdtInit L m)) L.idt.toNat (List.replicate (16 * 256) 0))
      gdtSelKernelCode 0 0 32 (by omega)).1 x hx
    simp only [Nat.zero_add] at hfirst
    rw [hfirst]
    rcases hx with h | h
    · exact store_apply_of_lt h
    · exact store_apply_of_ge (by rwa [List.length_replicate])
  have hgate : ∀ v, gate (tables L efer) (initTables L m) v =
      if v < 48 then some ⟨L.stub v, gdtSelKernelCode, 0, 0x8E⟩
      else gate (tables L efer)
        (store (tssInit L (gdtInit L m)) L.idt.toNat (List.replicate (16 * 256) 0)) v := by
    intro v
    have hfirst := (idtLoop_spec L
      (store (tssInit L (gdtInit L m)) L.idt.toNat (List.replicate (16 * 256) 0))
      gdtSelKernelCode efer 0 32 (by omega)).2 v
    simp only [Nat.zero_add] at hfirst
    unfold initTables idtInit
    rw [(idtLoop_spec L _ _ efer 32 16 (by omega)).2, hfirst]
    by_cases hv : v < 48
    · rw [if_pos hv]
      split
      · rfl
      · exact if_pos (by omega)
    · rw [if_neg hv, if_neg (by omega), if_neg (by omega)]
  have hentry : ∀ i (hi : i < 48), initTables L m (L.gdt.toNat + i) =
      (gdtEntries.flatMap GdtEntry.bytes).getD i 0 := by
    intro i hi
    have hlen : (gdtEntries.flatMap GdtEntry.bytes).length = 64 := rfl
    rw [hout _ (by omega), tssInit_apply (by omega) (by omega), gdtInit,
      store_apply (by omega), List.getD_eq_getElem _ _ (by omega)]
  have hsegment : ∀ selector : UInt16, selector.toNat / 8 * 8 ≠ 0 →
      selector.toNat.testBit 2 = false → selector.toNat / 8 * 8 ≤ 40 →
      segmentAt (tables L efer) (initTables L m) selector =
        some ⟨(gdtEntries.flatMap GdtEntry.bytes).getD (selector.toNat / 8 * 8 + 5) 0,
          (gdtEntries.flatMap GdtEntry.bytes).getD (selector.toNat / 8 * 8 + 6) 0⟩ := by
    intro selector hnull hti hlast
    have hlimit : (tables L efer).gdtLimit.toNat = 63 := rfl
    have hbase : (tables L efer).gdtBase = L.gdt := rfl
    have hok : ¬(selector.toNat / 8 * 8 = 0 ∨ selector.toNat.testBit 2 = true ∨
        (tables L efer).gdtLimit.toNat < selector.toNat / 8 * 8 + 7) := by
      rw [hti, hlimit]
      rintro (h | h | h)
      · exact hnull h
      · cases h
      · omega
    unfold segmentAt
    dsimp only
    rw [if_neg hok, hbase, Nat.add_assoc, Nat.add_assoc, hentry _ (by omega),
      hentry _ (by omega)]
  refine ⟨rfl, rfl, rfl, rfl, rfl, (hsegment _ (by decide) (by decide) (by decide)).trans rfl,
    (hsegment _ (by decide) (by decide) (by decide)).trans rfl,
    (hsegment _ (by decide) (by decide) (by decide)).trans rfl,
    (hsegment _ (by decide) (by decide) (by decide)).trans rfl, ?_, fun v hv => ?_,
    fun v g hv hg => ?_⟩
  · have hsame : ∀ i < 16, initTables L m (L.gdt.toNat + 8 * 6 + i) =
        tssInit L (gdtInit L m) (L.gdt.toNat + 8 * 6 + i) := fun i hi => hout _ (by omega)
    rw [← systemBase_tssInit (L := L) (m := gdtInit L m)]
    unfold systemBase
    have hload : ∀ i n, i + n ≤ 16 → loadLE (initTables L m) (L.gdt.toNat + 8 * 6 + i) n =
        loadLE (tssInit L (gdtInit L m)) (L.gdt.toNat + 8 * 6 + i) n := by
      intro i n hi
      refine loadLE_congr fun j hj => ?_
      rw [Nat.add_assoc]
      exact hsame (i + j) (by omega)
    rw [hload 2 2 (by omega), hload 8 4 (by omega), hsame 4 (by omega), hsame 7 (by omega)]
  · rw [hgate, if_pos hv]
  · rw [hgate, if_neg (by omega)] at hg
    have hlimit : (tables L efer).idtLimit.toNat = 4095 := rfl
    have hbase : (tables L efer).idtBase = L.idt := rfl
    unfold gate at hg
    dsimp only at hg
    rw [hlimit, hbase] at hg
    split at hg
    · cases hg
    · next hin =>
      have hzero : store (tssInit L (gdtInit L m)) L.idt.toNat (List.replicate (16 * 256) 0)
          (L.idt.toNat + 16 * v + 5) = 0 := by
        rw [Nat.add_assoc, store_apply (by rw [List.length_replicate]; omega),
          List.getElem_replicate]
      rw [hzero, Option.some.injEq] at hg
      rw [← hg]
      simp [Gate.isInterrupt]

namespace Installed

variable (h : Installed L t m)
include h

theorem segmentAt_eq (hgdt : ∀ x, L.gdt.toNat ≤ x → x < L.gdt.toNat + 64 → m' x = m x)
    (selector : UInt16) : segmentAt t m' selector = segmentAt t m selector := by
  refine segmentAt_congr fun x hlow hhigh => ?_
  rw [h.gdtBase] at hlow hhigh
  rw [h.gdtLimit] at hhigh
  exact hgdt x hlow (Nat.lt_succ_of_le hhigh)

theorem congr (hgdt : ∀ x, L.gdt.toNat ≤ x → x < L.gdt.toNat + 64 → m' x = m x)
    (hidt : ∀ x, L.idt.toNat ≤ x → x < L.idt.toNat + 4096 → m' x = m x) : Installed L t m' := by
  have hsegment := h.segmentAt_eq hgdt
  have hlimit : t.idtLimit.toNat = 4095 := by rw [h.idtLimit]; rfl
  have hgate : ∀ v, gate t m' v = gate t m v := by
    intro v
    by_cases hv : v < 256
    · refine gate_congr fun x hlow hhigh => ?_
      rw [h.idtBase] at hlow hhigh
      exact hidt x (by omega) (by omega)
    · unfold gate
      dsimp only
      rw [if_pos (by omega), if_pos (by omega)]
  have hbase : ∀ i n, i + n ≤ 16 → loadLE m' (L.gdt.toNat + 8 * 6 + i) n =
      loadLE m (L.gdt.toNat + 8 * 6 + i) n :=
    fun i n hi => loadLE_congr fun j hj => hgdt _ (by omega) (by omega)
  exact {
    gdtBase := h.gdtBase
    gdtLimit := h.gdtLimit
    idtBase := h.idtBase
    idtLimit := h.idtLimit
    tssBase := h.tssBase
    kernelCode := (hsegment _).trans h.kernelCode
    kernelData := (hsegment _).trans h.kernelData
    userData := (hsegment _).trans h.userData
    userCode := (hsegment _).trans h.userCode
    tss := by
      rw [← h.tss]
      unfold systemBase
      rw [hbase 2 2 (by omega), hbase 8 4 (by omega), hgdt (L.gdt.toNat + 8 * 6 + 4) (by omega)
        (by omega), hgdt (L.gdt.toNat + 8 * 6 + 7) (by omega) (by omega)]
    gates := fun v hv => (hgate v).trans (h.gates v hv)
    noGate := fun v g hv hg => h.noGate v g hv ((hgate v).symm.trans hg) }

theorem setKernelStack (rsp0 : UInt64) : Installed L t (tssSetKernelStack L m rsp0) := by
  have hgt := L.gdt_tss
  have hti := L.idt_tss
  have hout : ∀ x, x < L.tss.toNat ∨ L.tss.toNat + 104 ≤ x →
      tssSetKernelStack L m rsp0 x = m x := by
    intro x hx
    unfold tssSetKernelStack tssRsp0
    exact setWord_apply (by omega)
  exact h.congr (fun x _ _ => hout x (by omega)) fun x _ _ => hout x (by omega)

end Installed

/-- No code outside ring 0 gets into the kernel by `int`: all gates are for ring 0. -/
theorem Installed.softInt_eq_none {c : Core} (h : Installed L t c.mem) (hring : 0 < c.cpl) (v : ℕ) :
    softInt t v c = none := by
  unfold softInt
  cases hgate : gate t c.mem v with
  | none => rfl
  | some g =>
    dsimp only
    split
    · rfl
    · next hdpl =>
      have hv : 48 ≤ v := by
        by_contra hlt
        obtain rfl := Option.some.inj ((h.gates v (Nat.not_le.mp hlt)).symm.trans hgate)
        have hzero : (⟨L.stub v, gdtSelKernelCode, 0, 0x8E⟩ : Gate).dpl = 0 := by
          unfold Gate.dpl
          dsimp only
          decide
        exact hdpl (hzero ▸ hring)
      have hkind := h.noGate v g hv hgate
      rw [deliver, hgate]
      dsimp only
      cases segmentAt t c.mem g.selector with
      | none => rfl
      | some s => exact if_neg fun hgo => Bool.noConfusion (hkind.symm.trans hgo.1)

def samplePlacement : Placement where
  gdt := 0x10000
  idt := 0x20000
  tss := 0x30000
  stub _ := 0x40000
  syscallEntry := 0x50000
  gdt_le := by decide
  idt_le := by decide
  tss_le := by decide
  gdt_idt := by decide
  gdt_tss := by decide
  idt_tss := by decide
  stub_ne_null _ _ := by decide

end StyxOS.Cpu
