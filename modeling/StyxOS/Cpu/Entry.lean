import StyxOS.Cpu.Tables

/-! # Interrupts and their stubs

`isr.asm` and `irq.asm` on the processor: from any code, in ring 0 or ring 3, through
the gate into the stub, through the C handler, and back. The handler finds all
registers in a `struct registers`, and the code that was interrupted finds its own.
-/

namespace StyxOS.Cpu

open ByteMem X86

/-! ## The stubs -/

/-- The vectors for which the processor pushes an error code. -/
def pushesError (v : ℕ) : Bool := [8, 10, 11, 12, 13, 14, 17, 21, 29, 30].contains v

/-- The stubs that expect one: those that are made by `ISR_ERRCODE`. -/
def isrErrcode : List ℕ := [8, 10, 11, 12, 13, 14, 17, 21, 29, 30]

/-- What the stub of a vector pushes before it jumps to the common one. -/
def stubHead (v : ℕ) : List Instr :=
  if v ∈ isrErrcode then [.pushImm (UInt64.ofNat v)] else [.pushImm 0, .pushImm (UInt64.ofNat v)]

/-- The registers in the order in which the common stubs push them. -/
def pushed : List Gpr :=
  [.rdi, .rsi, .rdx, .rcx, .rax, .r8, .r9, .r10, .r11, .rbx, .rbp, .r12, .r13, .r14, .r15]

/-- `isr_common_stub` and `irq_common_stub` up to the call. -/
def commonStub : List Instr := pushed.map .push ++ [.load .rdi .rsp 120, .mov .rsi .rsp, .cld]

/-- `struct registers`. -/
structure Registers where
  r15 : UInt64
  r14 : UInt64
  r13 : UInt64
  r12 : UInt64
  rbp : UInt64
  rbx : UInt64
  r11 : UInt64
  r10 : UInt64
  r9 : UInt64
  r8 : UInt64
  rax : UInt64
  rcx : UInt64
  rdx : UInt64
  rsi : UInt64
  rdi : UInt64
  vectorNumber : UInt64
  errorCode : UInt64
  rip : UInt64
  cs : UInt64
  rflags : UInt64
  rsp : UInt64
  ss : UInt64
  deriving DecidableEq, Repr

/-- The record at an address. -/
def Registers.read (m : Mem) (a : ℕ) : Registers where
  r15 := word m a
  r14 := word m (a + 8)
  r13 := word m (a + 16)
  r12 := word m (a + 24)
  rbp := word m (a + 32)
  rbx := word m (a + 40)
  r11 := word m (a + 48)
  r10 := word m (a + 56)
  r9 := word m (a + 64)
  r8 := word m (a + 72)
  rax := word m (a + 80)
  rcx := word m (a + 88)
  rdx := word m (a + 96)
  rsi := word m (a + 104)
  rdi := word m (a + 112)
  vectorNumber := word m (a + 120)
  errorCode := word m (a + 128)
  rip := word m (a + 136)
  cs := word m (a + 144)
  rflags := word m (a + 152)
  rsp := word m (a + 160)
  ss := word m (a + 168)

/-- The state of the code that is interrupted. -/
def Registers.of (c : Core) (v : ℕ) (err : Option UInt64) : Registers where
  r15 := c.reg .r15
  r14 := c.reg .r14
  r13 := c.reg .r13
  r12 := c.reg .r12
  rbp := c.reg .rbp
  rbx := c.reg .rbx
  r11 := c.reg .r11
  r10 := c.reg .r10
  r9 := c.reg .r9
  r8 := c.reg .r8
  rax := c.reg .rax
  rcx := c.reg .rcx
  rdx := c.reg .rdx
  rsi := c.reg .rsi
  rdi := c.reg .rdi
  vectorNumber := UInt64.ofNat v
  errorCode := err.getD 0
  rip := c.rip
  cs := c.cs.toUInt64
  rflags := c.rflags
  rsp := c.reg .rsp
  ss := c.ss.toUInt64

/-- An interrupt up to the call of `isr_handler` or `irq_handler`. -/
def handlerEntry (t : Tables) (v : ℕ) (err : Option UInt64) (c : Core) : Option Core :=
  (deliver t v err c).map fun c => execAll c (stubHead v ++ commonStub)

/-- `sizeof(struct registers)`. -/
def sizeofRegisters : ℕ := 176

/-- The top of the stack for an interrupt: RSP0 of the TSS, or where the kernel is. -/
def entryTop (L : Placement) (c : Core) : UInt64 :=
  alignStack (if 0 < c.cpl then word c.mem (L.tss.toNat + tssRsp0) else c.reg .rsp)

/-- Code of the kernel or of a task, with the selectors that belong to its ring, and room on the
stack for an interrupt. -/
structure Interruptible (L : Placement) (t : Tables) (c : Core) : Prop where
  installed : Installed L t c.mem
  ring : c.cs = gdtSelKernelCode ∧ (c.ss = gdtSelKernelData ∨ c.ss = 0) ∨
    c.cs = gdtSelUserCode64 ||| 3 ∧ c.ss = gdtSelUserData ||| 3
  room : sizeofRegisters ≤ (entryTop L c).toNat
  apart : (entryTop L c).toNat ≤ L.gdt.toNat ∨
    L.gdt.toNat + 64 ≤ (entryTop L c).toNat - sizeofRegisters

variable {L : Placement} {t : Tables} {c : Core} {v : ℕ} {err : Option UInt64} {u : Effect}

/-- The words of the frame, in the order of their addresses. -/
def frame (c : Core) (v : ℕ) (err : Option UInt64) : List UInt64 :=
  pushed.reverse.map c.reg ++ [UInt64.ofNat v, err.getD 0, c.rip, c.cs.toUInt64, c.rflags,
    c.reg .rsp, c.ss.toUInt64]

theorem length_frame (c : Core) (v : ℕ) (err : Option UInt64) : (frame c v err).length = 22 := rfl

theorem Registers.read_of_words {m : Mem} {a : ℕ} (h : words m a 22 = frame c v err) :
    Registers.read m a = Registers.of c v err := by
  simp only [words, frame, pushed, List.reverse_cons, List.reverse_nil, List.nil_append,
    List.cons_append, List.map_cons, List.map_nil, List.cons.injEq, Nat.add_assoc,
    Nat.reduceAdd] at h
  obtain ⟨h₀, h₁, h₂, h₃, h₄, h₅, h₆, h₇, h₈, h₉, h₁₀, h₁₁, h₁₂, h₁₃, h₁₄, h₁₅, h₁₆, h₁₇, h₁₈,
    h₁₉, h₂₀, h₂₁, -⟩ := h
  simp only [Registers.read, Registers.of, *]

theorem mem_isrErrcode_iff : v ∈ isrErrcode ↔ pushesError v = true := List.contains_iff_mem.symm

theorem execAll_stubHead (d : Core) (v : ℕ) :
    execAll d (stubHead v) =
      d.pushAll (if v ∈ isrErrcode then [UInt64.ofNat v] else [0, UInt64.ofNat v]) := by
  unfold stubHead
  split <;> rfl

theorem frame_eq (herr : err.isSome = pushesError v) :
    [c.ss.toUInt64, c.reg .rsp, c.rflags, c.cs.toUInt64, c.rip] ++ err.toList ++
        (if v ∈ isrErrcode then [UInt64.ofNat v] else [0, UInt64.ofNat v]) ++ pushed.map c.reg =
      (frame c v err).reverse := by
  cases err with
  | none =>
    have hno : v ∉ isrErrcode := by
      rw [mem_isrErrcode_iff, ← herr]
      exact Bool.noConfusion
    rw [if_neg hno]
    rfl
  | some e =>
    rw [if_pos (mem_isrErrcode_iff.mpr herr.symm)]
    rfl

theorem Interruptible.cpl (h : Interruptible L t c) : c.cpl = 0 ∨ c.cpl = 3 := by
  rcases h.ring with ⟨hcs, -⟩ | ⟨hcs, -⟩
  · exact .inl (by rw [Core.cpl, hcs]; rfl)
  · exact .inr (by rw [Core.cpl, hcs]; rfl)

theorem Interruptible.deliver_eq (h : Interruptible L t c) (hv : v < 48) :
    deliver t v err c = some (((c.set .rsp (entryTop L c)).pushAll
        ([c.ss.toUInt64, c.reg .rsp, c.rflags, c.cs.toUInt64, c.rip] ++ err.toList)).goto
      (L.stub v) (c.rflags &&& ~~~gateFlags) gdtSelKernelCode (if 0 < c.cpl then 0 else c.ss)) := by
  have hstack : interruptStack t c ⟨L.stub v, gdtSelKernelCode, 0, 0x8E⟩ 0 =
      if 0 < c.cpl then word c.mem (L.tss.toNat + tssRsp0) else c.reg .rsp := by
    rw [interruptStack, h.installed.tssBase]
    rfl
  have hdpl : Segment.dpl ⟨0x9A, 0xA0⟩ = 0 := rfl
  rw [deliver, h.installed.gates v hv]
  dsimp only
  rw [h.installed.kernelCode]
  dsimp only
  have hgate : Gate.isInterrupt ⟨L.stub v, gdtSelKernelCode, 0, 0x8E⟩ = true := by
    change ((0x8E : UInt8).toNat.testBit 7 && (0x8E : UInt8).toNat % 32 == 14) = true
    decide
  rw [hdpl, if_pos ⟨hgate, rfl, Nat.zero_le _⟩, hstack]
  rfl

theorem toNat_sub_size {a : UInt64} (h : sizeofRegisters ≤ a.toNat) :
    (a - UInt64.ofNat sizeofRegisters).toNat = a.toNat - sizeofRegisters := by
  have hlen : (UInt64.ofNat sizeofRegisters).toNat = sizeofRegisters := by decide
  rw [toNat_sub_of_le (by rw [hlen]; exact h), hlen]

/-- The handler is called in ring 0, with the vector and a record of all registers. -/
theorem Interruptible.handlerEntry_eq (h : Interruptible L t c) (hv : v < 48)
    (herr : err.isSome = pushesError v) :
    ∃ c₁, handlerEntry t v err c = some c₁ ∧ c₁.cs = gdtSelKernelCode ∧
      c₁.reg .rdi = UInt64.ofNat v ∧ c₁.reg .rsi = c₁.reg .rsp ∧
      c₁.reg .rsp = entryTop L c - UInt64.ofNat sizeofRegisters ∧
      c₁.rflags = c.rflags &&& ~~~gateFlags &&& ~~~flagDf ∧
      c₁.mem =
        store c.mem ((entryTop L c).toNat - sizeofRegisters) (wordBytes (frame c v err)) := by
  have hroom := h.room
  have hpushed : ∀ d : Core, (∀ r, r ≠ .rsp → d.reg r = c.reg r) →
      pushed.map d.reg = pushed.map c.reg := by
    intro d hd
    refine List.map_congr_left fun r hr => hd r ?_
    rintro rfl
    exact absurd hr (by decide)
  have hstub : ∀ (rip rflags : UInt64) (cs ss : UInt16), execAll
      (((c.set .rsp (entryTop L c)).pushAll
        ([c.ss.toUInt64, c.reg .rsp, c.rflags, c.cs.toUInt64, c.rip] ++ err.toList)).goto
        rip rflags cs ss) (stubHead v ++ commonStub) =
      execAll (((c.set .rsp (entryTop L c)).pushAll (frame c v err).reverse).goto rip rflags cs ss)
        [.load .rdi .rsp 120, .mov .rsi .rsp, .cld] := by
    intro rip rflags cs ss
    rw [execAll_append, execAll_stubHead, commonStub, execAll_append, execAll_push (by decide),
      hpushed, Core.pushAll_goto, Core.pushAll_goto, ← Core.pushAll_append, ← Core.pushAll_append,
      ← List.append_assoc, frame_eq herr]
    intro r hr
    rw [Core.pushAll_goto, Core.reg_goto, Core.reg_pushAll _ _ hr, Core.reg_pushAll _ _ hr,
      Core.reg_set_of_ne hr]
  have htop : (c.set .rsp (entryTop L c)).reg .rsp = entryTop L c := Core.reg_set_self
  have hframe : 8 * (frame c v err).reverse.length = sizeofRegisters := rfl
  have hfits : 8 * (frame c v err).reverse.length ≤
      ((c.set .rsp (entryTop L c)).reg .rsp).toNat := by
    rw [htop, hframe]
    exact hroom
  have hrsp := Core.rsp_pushAll hfits
  have hmem := Core.mem_pushAll hfits
  rw [htop, hframe] at hrsp hmem
  rw [List.reverse_reverse, Core.mem_set] at hmem
  have hwords : words (store c.mem ((entryTop L c).toNat - sizeofRegisters)
      (wordBytes (frame c v err))) ((entryTop L c).toNat - sizeofRegisters) 22 = frame c v err :=
    words_store
  have hvector := congrArg Registers.vectorNumber (Registers.read_of_words hwords)
  dsimp only [Registers.read, Registers.of] at hvector
  have haddr : (entryTop L c - UInt64.ofNat sizeofRegisters + 120).toNat =
      (entryTop L c).toNat - sizeofRegisters + 120 := by
    have hlt := (entryTop L c).toNat_lt
    have h120 : (120 : UInt64).toNat = 120 := rfl
    rw [UInt64.toNat_add, toNat_sub_size hroom, h120]
    have hsize : sizeofRegisters = 176 := rfl
    rw [hsize] at hroom ⊢
    generalize (entryTop L c).toNat = top at hroom hlt ⊢
    exact Nat.mod_eq_of_lt (by omega)
  rw [handlerEntry, h.deliver_eq hv, Option.map_some, hstub]
  generalize (c.set .rsp (entryTop L c)).pushAll (frame c v err).reverse = d at hrsp hmem ⊢
  refine ⟨_, rfl, rfl, ?_, rfl, hrsp, rfl, hmem⟩
  change word d.mem (d.reg .rsp + 120).toNat = UInt64.ofNat v
  rw [hrsp, haddr, hmem, hvector]

/-- A task with interrupts enabled, and its kernel stack below `0x80000`. -/
def sampleTask : Core where
  reg _ := 7
  rip := 0x400000
  rflags := 0x202
  cs := gdtSelUserCode64 ||| 3
  ss := gdtSelUserData ||| 3
  mem := tssSetKernelStack samplePlacement (initTables samplePlacement fun _ => 0) 0x80000

end StyxOS.Cpu
