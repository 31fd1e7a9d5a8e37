import StyxOS.Cpu.Entry

/-! # The gate for system calls

`syscall.asm` on the processor. The gate comes in on the stack of the task, moves to the
kernel stack of `sched_current` by way of two global variables, and goes back through
one of them, whatever other calls have left there. The trap flag, which the mask of
`syscall_init` does not clear, finds the gate before it has moved.
-/

namespace StyxOS.Cpu

open ByteMem X86

/-- The addresses of `sched_current`, `global_user_rsp` and `global_scratch_rax`. -/
structure SyscallGlobals where
  schedCurrent : UInt64
  globalUserRsp : UInt64
  globalScratchRax : UInt64

/-- The registers that `syscall_entry` pushes behind RSP, RFLAGS and RIP of the task, up to RBX. -/
def entryPushed : List Gpr :=
  [.r15, .r14, .r13, .r12, .r11, .r10, .r9, .r8, .rdi, .rsi, .rdx, .rcx, .rbx]

/-- `syscall_entry` up to the kernel stack. -/
def stackSwitch (g : SyscallGlobals) : List Instr :=
  [.storeAbs g.globalScratchRax .rax, .storeAbs g.globalUserRsp .rsp,
    .loadAbs .rax g.schedCurrent, .load .rsp .rax 32]

/-- `syscall_entry` up to the call. -/
def syscallEntry (g : SyscallGlobals) : List Instr :=
  stackSwitch g ++ [.pushMem g.globalUserRsp] ++ (.r11 :: .rcx :: entryPushed).map .push ++
  [.pushMem g.globalScratchRax, .push .rbp,
    .mov .r8 .r10, .mov .rcx .rdx, .mov .rdx .rsi, .mov .rsi .rdi,
    .loadAbs .rdi g.globalScratchRax, .cld]

/-- `syscall_entry` from the call to `sysretq`. -/
def syscallExit (g : SyscallGlobals) : List Instr :=
  [.pop .rbp, .add .rsp 8] ++
  [.rbx, .rcx, .rdx, .rsi, .rdi, .r8, .r9, .r10, .r11, .r12, .r13, .r14, .r15].map .pop ++
  [.pop .rcx, .pop .r11, .popMem g.globalUserRsp, .loadAbs .rsp g.globalUserRsp]

/-- A system call up to the call of `syscall_dispatch`, which a debug exception does not come back
to: its handler halts. -/
def dispatchEntry (t : Tables) (g : SyscallGlobals) (c : Core) : Option Core :=
  (syscall t c).bind fun c => untraced c (syscallEntry g)

/-- A system call that returns. -/
def systemCall (t : Tables) (g : SyscallGlobals) (kept : ℕ → Bool) (u : Effect) (c : Core) :
    Option Core :=
  (dispatchEntry t g c).bind fun c => (untraced (c.call kept u) (syscallExit g)).bind (sysretq t)

/-- `kstack_top` of `sched_current`. -/
def kstackTop (g : SyscallGlobals) (m : Mem) : UInt64 :=
  word m (word m g.schedCurrent.toNat + 32).toNat

/-- The words on the kernel stack. -/
def sizeofCallFrame : ℕ := 144

/-- Eight bytes at one address, and some more at another. -/
def Apart (a : UInt64) (b n : ℕ) : Prop := a.toNat + 8 ≤ b ∨ b + n ≤ a.toNat

/-- Code of a task, with room on the kernel stack, and the variables of the gate at places of their
own. -/
structure Callable (g : SyscallGlobals) (c : Core) : Prop where
  cs : c.cs = gdtSelUserCode64 ||| 3
  ss : c.ss = gdtSelUserData ||| 3
  room : sizeofCallFrame ≤ (kstackTop g c.mem).toNat
  apart : Apart g.globalUserRsp g.globalScratchRax.toNat 8
  userRsp_current : Apart g.globalUserRsp g.schedCurrent.toNat 8
  userRsp_task : Apart g.globalUserRsp (word c.mem g.schedCurrent.toNat + 32).toNat 8
  userRsp_stack :
    Apart g.globalUserRsp ((kstackTop g c.mem).toNat - sizeofCallFrame) sizeofCallFrame
  scratchRax_current : Apart g.globalScratchRax g.schedCurrent.toNat 8
  scratchRax_task : Apart g.globalScratchRax (word c.mem g.schedCurrent.toNat + 32).toNat 8
  scratchRax_stack :
    Apart g.globalScratchRax ((kstackTop g c.mem).toNat - sizeofCallFrame) sizeofCallFrame

/-- The words on the kernel stack during a call, in the order of their addresses. -/
def callFrame (c : Core) : List UInt64 :=
  [c.reg .rbp, c.reg .rax, c.reg .rbx, c.rip, c.reg .rdx, c.reg .rsi, c.reg .rdi, c.reg .r8,
    c.reg .r9, c.reg .r10, c.rflags, c.reg .r12, c.reg .r13, c.reg .r14, c.reg .r15, c.rip,
    c.rflags, c.reg .rsp]

/-- The bytes of the frame of a call. -/
def callKept (top : UInt64) (a : ℕ) : Bool :=
  decide (top.toNat - sizeofCallFrame ≤ a ∧ a < top.toNat)

variable {L : Placement} {g : SyscallGlobals} {c : Core} {efer : UInt64} {u : Effect}

theorem efer_enabled : (tables L efer).efer.toNat.testBit 0 = true := by
  have hbit : ((1 : UInt64).toNat).testBit 0 = true := rfl
  have hor : (tables L efer).efer = efer ||| 1 := rfl
  rw [hor, UInt64.toNat_or, Nat.testBit_or, hbit, Bool.or_true]

theorem syscall_eq : syscall (tables L efer) c =
    some (((c.set .rcx c.rip).set .r11 c.rflags).goto L.syscallEntry (c.rflags &&& ~~~flagIf)
      gdtSelKernelCode gdtSelKernelData) := by
  have hsel : UInt16.ofNat ((tables L efer).star.toNat / 2 ^ 32) = 0x08 := by
    have hstar : (tables L efer).star = (0x18 : UInt64) <<< 48 ||| (0x08 : UInt64) <<< 32 := rfl
    rw [hstar]
    decide
  rw [syscall, if_pos efer_enabled]
  dsimp only
  rw [hsel]
  rfl

/-- The state at the call, but for the arguments: the task's registers are on the kernel stack. -/
theorem Callable.entry_eq (h : Callable g c) {d : Core} (hmem : d.mem = c.mem)
    (hrcx : d.reg .rcx = c.rip) (hr11 : d.reg .r11 = c.rflags)
    (hregs : ∀ r, r ≠ .rcx → r ≠ .r11 → d.reg r = c.reg r) :
    ∃ e : Core, execAll d (syscallEntry g) = execAll e [.mov .r8 .r10, .mov .rcx .rdx,
        .mov .rdx .rsi, .mov .rsi .rdi, .loadAbs .rdi g.globalScratchRax, .cld] ∧
      e.rflags = d.rflags ∧ e.cs = d.cs ∧ (∀ r, r ≠ .rax → r ≠ .rsp → e.reg r = d.reg r) ∧
      e.reg .rsp = kstackTop g c.mem - UInt64.ofNat sizeofCallFrame ∧
      word e.mem g.globalScratchRax.toNat = c.reg .rax ∧
      words e.mem ((kstackTop g c.mem).toNat - sizeofCallFrame) 18 = callFrame c := by
  generalize hM : setWord (setWord c.mem g.globalScratchRax.toNat (c.reg .rax))
    g.globalUserRsp.toNat (c.reg .rsp) = M
  have hM_current : word M g.schedCurrent.toNat = word c.mem g.schedCurrent.toNat := by
    rw [← hM, word_setWord_apart (Or.comm.mp h.userRsp_current),
      word_setWord_apart (Or.comm.mp h.scratchRax_current)]
  have hM_task : word M (word c.mem g.schedCurrent.toNat + 32).toNat = kstackTop g c.mem := by
    rw [← hM, word_setWord_apart (Or.comm.mp h.userRsp_task),
      word_setWord_apart (Or.comm.mp h.scratchRax_task)]
    rfl
  have hM_userRsp : word M g.globalUserRsp.toNat = c.reg .rsp := by
    rw [← hM, word_setWord_same]
  have hM_scratchRax : word M g.globalScratchRax.toNat = c.reg .rax := by
    rw [← hM, word_setWord_apart (Or.comm.mp h.apart), word_setWord_same]
  generalize hp : (({ d with mem := M } : Core).set .rax (word c.mem g.schedCurrent.toNat)).set .rsp
    (kstackTop g c.mem) = p
  have hp_mem : p.mem = M := by rw [← hp]; rfl
  have hp_rsp : p.reg .rsp = kstackTop g c.mem := by rw [← hp, Core.reg_set_self]
  have hp_reg : ∀ r, r ≠ .rax → r ≠ .rsp → p.reg r = d.reg r := by
    intro r hrax hrsp
    rw [← hp, Core.reg_set_of_ne hrsp, Core.reg_set_of_ne hrax]
  -- the first four instructions leave the stack of the task
  have hmove : execAll d (stackSwitch g) = p := by
    rw [stackSwitch, execAll_cons, execAll_cons, execAll_cons, execAll_cons, execAll_nil, exec,
      exec, exec, exec]
    dsimp only
    rw [hmem, hregs .rax (by decide) (by decide), hregs .rsp (by decide) (by decide), hM,
      Core.reg_set_self, Core.mem_set, hM_current, hM_task, hp]
  have hpushed : (.r11 :: .rcx :: entryPushed).map (p.push (c.reg .rsp)).reg =
      (.r11 :: .rcx :: entryPushed).map d.reg := by
    refine List.map_congr_left fun r hr => ?_
    have hrsp : r ≠ .rsp := by
      rintro rfl
      exact absurd hr (by decide)
    have hrax : r ≠ .rax := by
      rintro rfl
      exact absurd hr (by decide)
    exact (Core.reg_set_of_ne hrsp).trans (hp_reg r hrax hrsp)
  have hframe : c.reg .rsp :: (.r11 :: .rcx :: entryPushed).map d.reg ++ [c.reg .rax, c.reg .rbp] =
      (callFrame c).reverse := by
    simp only [entryPushed, List.map_cons, List.map_nil, hrcx, hr11, hregs, reduceCtorEq, ne_eq,
      not_false_eq_true]
    rfl
  have hroom := h.room
  have hlen : ((c.reg .rsp :: (.r11 :: .rcx :: entryPushed).map d.reg)).length = 16 := rfl
  have hapart := h.scratchRax_stack
  unfold Apart sizeofCallFrame at hapart
  unfold sizeofCallFrame at hroom
  have hfirst : execAll p (.pushMem g.globalUserRsp :: (.r11 :: .rcx :: entryPushed).map .push) =
      p.pushAll (c.reg .rsp :: (.r11 :: .rcx :: entryPushed).map d.reg) := by
    rw [execAll_cons, exec, hp_mem, hM_userRsp, execAll_push (by decide), hpushed,
      Core.pushAll_cons]
  have hscratch : word (p.pushAll (c.reg .rsp :: (.r11 :: .rcx :: entryPushed).map d.reg)).mem
      g.globalScratchRax.toNat = c.reg .rax := by
    rw [Core.word_pushAll, hp_mem, hM_scratchRax]
    · rw [hlen, hp_rsp]
      omega
    · rw [hlen, hp_rsp]
      omega
  have hrbp : ((p.pushAll (c.reg .rsp :: (.r11 :: .rcx :: entryPushed).map d.reg)).push
      (c.reg .rax)).reg .rbp = c.reg .rbp := by
    have hpush := Core.reg_pushAll (p.pushAll (c.reg .rsp ::
      (.r11 :: .rcx :: entryPushed).map d.reg)) [c.reg .rax] (r := .rbp) (by decide)
    refine hpush.trans ?_
    rw [Core.reg_pushAll _ _ (by decide), hp_reg .rbp (by decide) (by decide),
      hregs .rbp (by decide) (by decide)]
  have hlen' : 8 * (callFrame c).reverse.length = 144 := rfl
  have hfits : 8 * (callFrame c).reverse.length ≤ (p.reg .rsp).toNat := by
    rw [hp_rsp, hlen']
    exact hroom
  refine ⟨p.pushAll (callFrame c).reverse, ?_, ?_, ?_, fun r hrax hrsp => ?_, ?_, ?_, ?_⟩
  · have hsplit : syscallEntry g = stackSwitch g ++
        (.pushMem g.globalUserRsp :: (.r11 :: .rcx :: entryPushed).map .push) ++
        [.pushMem g.globalScratchRax, .push .rbp, .mov .r8 .r10, .mov .rcx .rdx, .mov .rdx .rsi,
          .mov .rsi .rdi, .loadAbs .rdi g.globalScratchRax, .cld] := rfl
    rw [hsplit, execAll_append, execAll_append, hmove, hfirst, execAll_cons, execAll_cons, exec,
      exec, hscratch, hrbp, ← hframe, Core.pushAll_append, Core.pushAll_pair]
  · rw [(Core.levels_pushAll _ _).1, ← hp]
    rfl
  · rw [(Core.levels_pushAll _ _).2, ← hp]
    rfl
  · rw [Core.reg_pushAll _ _ hrsp, hp_reg r hrax hrsp]
  · rw [Core.rsp_pushAll hfits, hp_rsp]
    rfl
  · rw [Core.word_pushAll hfits, hp_mem, hM_scratchRax]
    rw [hp_rsp, hlen']
    omega
  · rw [Core.mem_pushAll hfits, hp_rsp, hlen', List.reverse_reverse]
    exact words_store

/-- The registers that are popped one after the other behind RAX. -/
def exitPopped : List Gpr :=
  [.rbx, .rcx, .rdx, .rsi, .rdi, .r8, .r9, .r10, .r11, .r12, .r13, .r14, .r15]

/-- The last four instructions before `sysretq`. -/
theorem exit_last (p : Core) (g : SyscallGlobals) {a : ℕ} (hsp : (p.reg .rsp).toNat = a)
    (hsp' : (p.reg .rsp + 8).toNat = a + 8) (hsp'' : (p.reg .rsp + 8 + 8).toNat = a + 16) :
    execAll p [.pop .rcx, .pop .r11, .popMem g.globalUserRsp, .loadAbs .rsp g.globalUserRsp] =
      { p with
        reg := Function.update (Function.update (Function.update p.reg .rcx (word p.mem a)) .r11
          (word p.mem (a + 8))) .rsp (word p.mem (a + 16))
        mem := setWord p.mem g.globalUserRsp.toNat (word p.mem (a + 16)) } := by
  have hrcx : exec p (.pop .rcx) = (p.set .rcx (word p.mem a)).set .rsp (p.reg .rsp + 8) := by
    rw [exec_pop (by decide), Core.top, hsp]
  have hr11 : exec ((p.set .rcx (word p.mem a)).set .rsp (p.reg .rsp + 8)) (.pop .r11) =
      ((p.set .rcx (word p.mem a)).set .r11 (word p.mem (a + 8))).set .rsp
        (p.reg .rsp + 8 + 8) := by
    rw [exec_pop (by decide), Core.top, Core.reg_set_self, hsp', Core.mem_set, Core.mem_set,
      Core.set_comm (r := .rsp) (by decide), Core.set_set]
  rw [execAll_cons, hrcx, execAll_cons, hr11, execAll_cons, execAll_cons, execAll_nil, exec, exec,
    Core.drop, Core.top, Core.reg_set_self, hsp'']
  dsimp only
  rw [word_setWord_same, Core.set_set, Core.mem_set]
  simp only [Core.set, Function.update_idem]

/-- The exit restores the registers from the frame, but for RAX, whatever `global_user_rsp` holds by
then. -/
theorem Callable.exit_eq (h : Callable g c) {d : Core}
    (hrsp : d.reg .rsp = kstackTop g c.mem - UInt64.ofNat sizeofCallFrame)
    (hframe : words d.mem ((kstackTop g c.mem).toNat - sizeofCallFrame) 18 = callFrame c) :
    execAll d (syscallExit g) = { d with
      reg := Function.update (Function.update (Function.update c.reg .rax (d.reg .rax)) .rcx c.rip)
        .r11 c.rflags
      mem := setWord d.mem g.globalUserRsp.toNat (c.reg .rsp) } := by
  have hroom := h.room
  have hlt := (kstackTop g c.mem).toNat_lt
  have hsize : (UInt64.ofNat sizeofCallFrame).toNat = sizeofCallFrame := by decide
  have hsp : (d.reg .rsp).toNat = (kstackTop g c.mem).toNat - sizeofCallFrame := by
    rw [hrsp, toNat_sub_of_le (by rw [hsize]; exact hroom), hsize]
  have hfits : (kstackTop g c.mem).toNat - sizeofCallFrame + sizeofCallFrame < 2 ^ 64 := by omega
  generalize (kstackTop g c.mem).toNat - sizeofCallFrame = a at hframe hsp hfits
  have hadd : ∀ k ≤ 136, (d.reg .rsp + UInt64.ofNat k).toNat = a + k := by
    intro k hk
    unfold sizeofCallFrame at hfits
    rw [UInt64.toNat_add, hsp, UInt64.toNat_ofNat_of_lt' (lt_of_le_of_lt hk (by decide))]
    exact Nat.mod_eq_of_lt (by omega)
  simp only [words, callFrame, List.cons.injEq, Nat.add_assoc, Nat.reduceAdd, and_true] at hframe
  obtain ⟨w₀, -, w₂, w₃, w₄, w₅, w₆, w₇, w₈, w₉, w₁₀, w₁₁, w₁₂, w₁₃, w₁₄, w₁₅, w₁₆, w₁₇⟩ := hframe
  have hsplit : execAll d (syscallExit g) =
      execAll (execAll (exec (exec d (.pop .rbp)) (.add .rsp 8)) (exitPopped.map .pop))
        [.pop .rcx, .pop .r11, .popMem g.globalUserRsp, .loadAbs .rsp g.globalUserRsp] := by
    have hlist : syscallExit g = [.pop .rbp, .add .rsp 8] ++ exitPopped.map .pop ++ [.pop .rcx,
      .pop .r11, .popMem g.globalUserRsp, .loadAbs .rsp g.globalUserRsp] := rfl
    rw [hlist, execAll_append, execAll_append]
    rfl
  have hskip : exec (exec d (.pop .rbp)) (.add .rsp 8) =
      (d.set .rbp (c.reg .rbp)).set .rsp (d.reg .rsp + UInt64.ofNat 16) := by
    rw [exec_pop (by decide), exec, Core.top, hsp, w₀, Core.reg_set_self, Core.set_set,
      UInt64.add_assoc]
    rfl
  rw [hsplit, hskip]
  generalize hd₁ : (d.set .rbp (c.reg .rbp)).set .rsp (d.reg .rsp + UInt64.ofNat 16) = d₁
  have hsp₁ : d₁.reg .rsp = d.reg .rsp + UInt64.ofNat 16 := by rw [← hd₁, Core.reg_set_self]
  have hmem₁ : d₁.mem = d.mem := by rw [← hd₁, Core.mem_set, Core.mem_set]
  have hlen : exitPopped.length = 13 := rfl
  have hnodup : exitPopped.Nodup := by decide
  unfold sizeofCallFrame at hfits
  obtain ⟨hsame, hend, hwords, hrest⟩ := execAll_pop d₁ hnodup
    (by decide) (by rw [hsp₁, hadd 16 (by decide), hlen]; omega)
  rw [hsp₁, hadd 16 (by decide), hmem₁, hlen] at hwords
  rw [hsp₁, hlen, UInt64.add_assoc] at hend
  generalize execAll d₁ (exitPopped.map .pop) = d₂ at hsame hend hwords hrest ⊢
  simp only [words, exitPopped, List.map_cons, List.map_nil, List.cons.injEq, Nat.add_assoc,
    Nat.reduceAdd, and_true, w₂, w₃, w₄, w₅, w₆, w₇, w₈, w₉, w₁₀, w₁₁, w₁₂, w₁₃, w₁₄] at hwords
  have hend' : d₂.reg .rsp = d.reg .rsp + UInt64.ofNat 120 := hend
  have hmem₂ : d₂.mem = d.mem := by rw [hsame, hmem₁]
  rw [exit_last d₂ g (by rw [hend', hadd 120 (by decide)])
    (by rw [hend', UInt64.add_assoc]; exact hadd 128 (by decide))
    (by rw [hend', UInt64.add_assoc, UInt64.add_assoc]; exact hadd 136 (by decide))]
  have hrax : d₂.reg .rax = d.reg .rax := by
    rw [hrest .rax (by decide) (by decide), ← hd₁, Core.reg_set_of_ne (by decide),
      Core.reg_set_of_ne (by decide)]
  have hrbp : d₂.reg .rbp = c.reg .rbp := by
    rw [hrest .rbp (by decide) (by decide), ← hd₁, Core.reg_set_of_ne (by decide),
      Core.reg_set_self]
  obtain ⟨hrbx, -, hrdx, hrsi, hrdi, hr8, hr9, hr10, -, hr12, hr13, hr14, hr15⟩ := hwords
  have hreg : Function.update (Function.update (Function.update d₂.reg .rcx c.rip) .r11 c.rflags)
      .rsp (c.reg .rsp) = Function.update (Function.update (Function.update c.reg .rax (d.reg .rax))
        .rcx c.rip) .r11 c.rflags := by
    funext r
    cases r <;> simp only [Function.update_apply, reduceCtorEq, if_true, if_false, hrax, hrbp, hrbx,
      hrdx, hrsi, hrdi, hr8, hr9, hr10, hr12, hr13, hr14, hr15]
  simp only [hmem₂, Nat.add_assoc, Nat.reduceAdd, w₁₅, w₁₆, w₁₇, hreg]
  rw [hsame, ← hd₁]
  rfl

/-- The state in which `syscall_dispatch` is called. -/
theorem Callable.dispatchEntry_eq (h : Callable g c) (htf : c.rflags &&& flagTf = 0)
    (L : Placement) (efer : UInt64) :
    ∃ c₁, dispatchEntry (tables L efer) g c = some c₁ ∧ c₁.cs = gdtSelKernelCode ∧
      c₁.rflags = c.rflags &&& ~~~flagIf &&& ~~~flagDf ∧
      c₁.reg .rsp = kstackTop g c.mem - UInt64.ofNat sizeofCallFrame ∧
      (c₁.reg .rdi = c.reg .rax ∧ c₁.reg .rsi = c.reg .rdi ∧ c₁.reg .rdx = c.reg .rsi ∧
        c₁.reg .rcx = c.reg .rdx ∧ c₁.reg .r8 = c.reg .r10) ∧
      words c₁.mem ((kstackTop g c.mem).toNat - sizeofCallFrame) 18 = callFrame c := by
  generalize hd : ((c.set .rcx c.rip).set .r11 c.rflags).goto L.syscallEntry
    (c.rflags &&& ~~~flagIf) gdtSelKernelCode gdtSelKernelData = d
  have hregs : ∀ r, r ≠ .rcx → r ≠ .r11 → d.reg r = c.reg r := by
    intro r hrcx hr11
    rw [← hd, Core.reg_goto, Core.reg_set_of_ne hr11, Core.reg_set_of_ne hrcx]
  have hrcx : d.reg .rcx = c.rip := by
    rw [← hd, Core.reg_goto, Core.reg_set_of_ne (by decide), Core.reg_set_self]
  have hr11 : d.reg .r11 = c.rflags := by rw [← hd, Core.reg_goto, Core.reg_set_self]
  have hmem : d.mem = c.mem := by rw [← hd, Core.mem_goto, Core.mem_set, Core.mem_set]
  have hflags : d.rflags = c.rflags &&& ~~~flagIf := by rw [← hd]; rfl
  have hcs : d.cs = gdtSelKernelCode := by rw [← hd]; rfl
  obtain ⟨e, hexec, he_flags, he_cs, he_reg, he_rsp, he_rax, he_words⟩ :=
    h.entry_eq hmem hrcx hr11 hregs
  have hreg : ∀ r, r ≠ .rax → r ≠ .rsp → r ≠ .rcx → r ≠ .r11 → e.reg r = c.reg r :=
    fun r hrax hrsp hrcx hr11 => (he_reg r hrax hrsp).trans (hregs r hrcx hr11)
  have htf' : d.rflags &&& flagTf = 0 := by
    rw [hflags, UInt64.and_assoc, UInt64.and_comm _ flagTf, ← UInt64.and_assoc, htf,
      UInt64.zero_and]
  rw [dispatchEntry, syscall_eq, hd, Option.bind_some, untraced, if_pos htf', hexec]
  refine ⟨_, rfl, he_cs.trans hcs, ?_, he_rsp, ⟨he_rax, ?_, ?_, ?_, ?_⟩, he_words⟩
  · rw [← hflags, ← he_flags]
    rfl
  · exact hreg .rdi (by decide) (by decide) (by decide) (by decide)
  · exact hreg .rsi (by decide) (by decide) (by decide) (by decide)
  · exact hreg .rdx (by decide) (by decide) (by decide) (by decide)
  · exact hreg .r10 (by decide) (by decide) (by decide) (by decide)

theorem sysretq_eq {d : Core} (h : d.cs = gdtSelKernelCode) (R : Gpr → UInt64) (m : Mem) :
    sysretq (tables L efer) { d with reg := R, mem := m } =
      if Canonical (R .rcx) then some { d with
        reg := R
        rip := R .rcx
        rflags := R .r11 &&& 0x3C7FD7 ||| 2
        cs := gdtSelUserCode64 ||| 3
        ss := gdtSelUserData ||| 3
        mem := m } else none := by
  have hcpl : ({ d with reg := R, mem := m } : Core).cpl = 0 := by
    rw [Core.cpl, h]
    rfl
  have hsel : UInt16.ofNat ((tables L efer).star.toNat / 2 ^ 48) = 0x18 := by
    have hstar : (tables L efer).star = (0x18 : UInt64) <<< 48 ||| (0x08 : UInt64) <<< 32 := rfl
    rw [hstar]
    decide
  rw [sysretq, hsel]
  by_cases hcanonical : Canonical (R .rcx)
  · rw [if_pos hcanonical, if_pos ⟨efer_enabled, hcpl, hcanonical⟩]
    rfl
  · rw [if_neg hcanonical, if_neg fun hok => hcanonical hok.2.2]

/-- The return from a call whose frame is still there. -/
theorem Callable.systemCall_eq (h : Callable g c) (htf : c.rflags &&& flagTf = 0) (L : Placement)
    (efer : UInt64) (u : Effect) :
    ∃ m, systemCall (tables L efer) g (callKept (kstackTop g c.mem)) u c =
        (if u.rflags &&& flagTf = 0 ∧ Canonical c.rip then some { c with
          reg := Function.update (Function.update (Function.update c.reg .rax (u.reg .rax)) .rcx
            c.rip) .r11 c.rflags
          rflags := c.rflags &&& 0x3C7FD7 ||| 2
          mem := m } else none) ∧
      ∀ x, callKept (kstackTop g c.mem) x = false → Apart g.globalUserRsp x 1 → m x = u.mem x := by
  obtain ⟨c₁, hentry, hcs, -, hrsp, -, hwords⟩ := h.dispatchEntry_eq htf L efer
  refine ⟨setWord (c₁.call (callKept (kstackTop g c.mem)) u).mem g.globalUserRsp.toNat
    (c.reg .rsp), ?_, fun x hx hapart => ?_⟩
  · have hroom := h.room
    have hframe : words (c₁.call (callKept (kstackTop g c.mem)) u).mem
        ((kstackTop g c.mem).toNat - sizeofCallFrame) 18 = callFrame c := by
      rw [← hwords]
      refine words_congr fun x hlow hhigh => Core.mem_call_kept (decide_eq_true ⟨hlow, ?_⟩)
      unfold sizeofCallFrame at hroom hhigh
      omega
    have hrax : (c₁.call (callKept (kstackTop g c.mem)) u).reg .rax = u.reg .rax :=
      Core.reg_call (by decide)
    have hcs' : (c₁.call (callKept (kstackTop g c.mem)) u).cs = gdtSelKernelCode := hcs
    have hflags : (c₁.call (callKept (kstackTop g c.mem)) u).rflags = u.rflags := rfl
    rw [systemCall, hentry, Option.bind_some, untraced, hflags,
      h.exit_eq (Core.rsp_call.trans hrsp) hframe, hrax]
    generalize c₁.call (callKept (kstackTop g c.mem)) u = d at hcs' ⊢
    generalize hR : Function.update (Function.update (Function.update c.reg .rax (u.reg .rax)) .rcx
      c.rip) .r11 c.rflags = R
    have hrcx : R .rcx = c.rip := by
      rw [← hR, Function.update_of_ne (by decide), Function.update_self]
    have hr11 : R .r11 = c.rflags := by rw [← hR, Function.update_self]
    by_cases htf' : u.rflags &&& flagTf = 0
    · rw [if_pos htf', Option.bind_some, sysretq_eq hcs', hrcx, hr11, h.cs, h.ss]
      exact if_congr (and_iff_right htf').symm rfl rfl
    · rw [if_neg htf', if_neg fun h => htf' h.1, Option.bind_none]
  · rw [setWord_apply (by unfold Apart at hapart; omega), Core.mem_call_free hx]

/-- A system call from any code of a task that is not traced, with a `syscall_dispatch` that does
anything but write to the frame of the call: it runs in ring 0 with interrupts disabled on the
kernel stack of `sched_current`, with the arguments of the task, and behind it the task goes on with
the result in RAX and all else but RCX and R11 as it was, whatever has become of `global_user_rsp`
meanwhile. Only where the return address is not one that can be jumped to, or the trap flag has
been set meanwhile, does the return fault. -/
theorem syscall_transparent (h : Callable g c) (htf : c.rflags &&& flagTf = 0) (L : Placement)
    (efer : UInt64) (u : Effect) :
    ∃ c₁ m, dispatchEntry (tables L efer) g c = some c₁ ∧
      (c₁.cpl = 0 ∧ c₁.rflags &&& (flagIf ||| flagDf) = 0 ∧
        c₁.reg .rsp = kstackTop g c.mem - UInt64.ofNat sizeofCallFrame ∧
        c₁.reg .rdi = c.reg .rax ∧ c₁.reg .rsi = c.reg .rdi ∧ c₁.reg .rdx = c.reg .rsi ∧
        c₁.reg .rcx = c.reg .rdx ∧ c₁.reg .r8 = c.reg .r10) ∧
      systemCall (tables L efer) g (callKept (kstackTop g c.mem)) u c =
        (if u.rflags &&& flagTf = 0 ∧ Canonical c.rip then some { c with
          reg := Function.update (Function.update (Function.update c.reg .rax (u.reg .rax)) .rcx
            c.rip) .r11 c.rflags
          rflags := c.rflags &&& 0x3C7FD7 ||| 2
          mem := m } else none) ∧
      ∀ x, callKept (kstackTop g c.mem) x = false → Apart g.globalUserRsp x 1 → m x = u.mem x := by
  obtain ⟨c₁, hentry, hcs, hflags, hrsp, hargs, -⟩ := h.dispatchEntry_eq htf L efer
  obtain ⟨m, hreturn, hmem⟩ := h.systemCall_eq htf L efer u
  refine ⟨c₁, m, hentry, ⟨?_, ?_, hrsp, hargs⟩, hreturn, hmem⟩
  · rw [Core.cpl, hcs]
    rfl
  · have hnone : ~~~flagIf &&& (~~~flagDf &&& (flagIf ||| flagDf)) = 0 := by decide
    rw [hflags, UInt64.and_assoc, UInt64.and_assoc, hnone, UInt64.and_zero]

def sampleGlobals : SyscallGlobals := ⟨0x1000, 0x1010, 0x1018⟩

/-- A task whose kernel stack ends at `0x80000`. -/
def sampleCaller : Core where
  reg _ := 7
  rip := 0x400000
  rflags := 0x202
  cs := gdtSelUserCode64 ||| 3
  ss := gdtSelUserData ||| 3
  mem := setWord (setWord (fun _ => 0) 0x1000 0x2000) 0x2020 0x80000

theorem word_sampleCaller : word sampleCaller.mem 0x1000 = 0x2000 :=
  (word_setWord_apart (by decide)).trans word_setWord_same

theorem kstackTop_sampleCaller : kstackTop sampleGlobals sampleCaller.mem = 0x80000 := by
  have hcurrent : word sampleCaller.mem sampleGlobals.schedCurrent.toNat = 0x2000 :=
    word_sampleCaller
  rw [kstackTop, hcurrent]
  exact word_setWord_same

theorem callable_sampleCaller : Callable sampleGlobals sampleCaller where
  cs := rfl
  ss := rfl
  room := by rw [kstackTop_sampleCaller]; decide
  apart := .inl (by decide)
  userRsp_current := .inr (by decide)
  userRsp_task := .inl (by
    have hcurrent : word sampleCaller.mem sampleGlobals.schedCurrent.toNat = 0x2000 :=
      word_sampleCaller
    rw [hcurrent]
    decide)
  userRsp_stack := .inl (by rw [kstackTop_sampleCaller]; decide)
  scratchRax_current := .inr (by decide)
  scratchRax_task := .inl (by
    have hcurrent : word sampleCaller.mem sampleGlobals.schedCurrent.toNat = 0x2000 :=
      word_sampleCaller
    rw [hcurrent]
    decide)
  scratchRax_stack := .inl (by rw [kstackTop_sampleCaller]; decide)

/-- The task calls, and goes on with the result 3. -/
theorem syscall_transparent_sampleCaller :
    ∃ m, systemCall (tables samplePlacement 0) sampleGlobals (callKept 0x80000)
      ⟨fun _ => 3, 0, fun _ => 1⟩ sampleCaller = some { sampleCaller with
        reg := Function.update (Function.update (Function.update (fun _ => 7) .rax 3) .rcx 0x400000)
          .r11 0x202
        mem := m } ∧ m 0x70000 = 1 := by
  obtain ⟨-, m, -, -, hback, hmem⟩ := syscall_transparent callable_sampleCaller (by decide)
    samplePlacement 0 ⟨fun _ => 3, 0, fun _ => 1⟩
  rw [kstackTop_sampleCaller] at hback hmem
  rw [if_pos ⟨by decide, .inl (by decide)⟩] at hback
  exact ⟨m, hback, hmem 0x70000 (by decide) (.inl (by decide))⟩

/-! ## The trap flag -/

/-- A system call up to the kernel stack, or, with the trap flag set, up to the call of the handler
of the debug exception behind the instruction `syscall`. -/
def trappedSyscall (t : Tables) (g : SyscallGlobals) (c : Core) : Option Core :=
  (syscall t c).bind fun c =>
    if c.rflags &&& flagTf = 0 then some (execAll c (stackSwitch g)) else handlerEntry t 1 none c

/-- A task that makes a system call with the trap flag set has the kernel write all its registers to
wherever its stack pointer leads, in ring 0. With the flag clear, the gate writes two words of its
own and nothing else before it is on the kernel stack of `sched_current`. -/
theorem trap_flag_writes (hinstalled : Installed L (tables L efer) c.mem)
    (hroom : sizeofRegisters ≤ (alignStack (c.reg .rsp)).toNat)
    (hapart : (alignStack (c.reg .rsp)).toNat ≤ L.gdt.toNat ∨
      L.gdt.toNat + 64 ≤ (alignStack (c.reg .rsp)).toNat - sizeofRegisters)
    (g : SyscallGlobals) :
    ∃ c₁, trappedSyscall (tables L efer) g c = some c₁ ∧ c₁.cpl = 0 ∧
      (c.rflags &&& flagTf = 0 →
        c₁.mem = setWord (setWord c.mem g.globalScratchRax.toNat (c.reg .rax))
          g.globalUserRsp.toNat (c.reg .rsp) ∧
        c₁.reg .rsp = kstackTop g c₁.mem) ∧
      (c.rflags &&& flagTf ≠ 0 → c₁.reg .rdi = 1 ∧
        Registers.read c₁.mem ((alignStack (c.reg .rsp)).toNat - sizeofRegisters) =
          { Registers.of c 1 none with
            rcx := c.rip
            r11 := c.rflags
            rip := L.syscallEntry
            cs := gdtSelKernelCode.toUInt64
            rflags := c.rflags &&& ~~~flagIf
            ss := gdtSelKernelData.toUInt64 }) := by
  generalize hd : ((c.set .rcx c.rip).set .r11 c.rflags).goto L.syscallEntry
    (c.rflags &&& ~~~flagIf) gdtSelKernelCode gdtSelKernelData = d
  have hmem : d.mem = c.mem := by rw [← hd, Core.mem_goto, Core.mem_set, Core.mem_set]
  have hcs : d.cs = gdtSelKernelCode := by rw [← hd]; rfl
  have hss : d.ss = gdtSelKernelData := by rw [← hd]; rfl
  have hrsp : d.reg .rsp = c.reg .rsp := by
    rw [← hd, Core.reg_goto, Core.reg_set_of_ne (by decide), Core.reg_set_of_ne (by decide)]
  have hcpl : d.cpl = 0 := by
    rw [Core.cpl, hcs]
    rfl
  have htf : d.rflags &&& flagTf = c.rflags &&& flagTf := by
    have hmask : ~~~flagIf &&& flagTf = flagTf := by decide
    have hflags : d.rflags = c.rflags &&& ~~~flagIf := by rw [← hd]; rfl
    rw [hflags, UInt64.and_assoc, hmask]
  have hrax : d.reg .rax = c.reg .rax := by
    rw [← hd, Core.reg_goto, Core.reg_set_of_ne (by decide), Core.reg_set_of_ne (by decide)]
  have hbind : trappedSyscall (tables L efer) g c =
      if c.rflags &&& flagTf = 0 then some (execAll d (stackSwitch g))
      else handlerEntry (tables L efer) 1 none d := by
    rw [trappedSyscall, syscall_eq, hd, Option.bind_some, htf]
  by_cases hclear : c.rflags &&& flagTf = 0
  · rw [hbind, if_pos hclear]
    refine ⟨_, rfl, hcpl, fun _ => ⟨?_, ?_⟩, fun hset => absurd hclear hset⟩
    · rw [← hmem, ← hrax, ← hrsp]
      rfl
    · exact Core.reg_set_self
  · have htop : entryTop L d = alignStack (c.reg .rsp) := by
      rw [entryTop, hcpl, if_neg (Nat.lt_irrefl 0), hrsp]
    have hready : Interruptible L (tables L efer) d := {
      installed := hmem ▸ hinstalled
      ring := .inl ⟨hcs, .inl hss⟩
      room := htop ▸ hroom
      apart := htop ▸ hapart }
    have hvector : 1 < 48 := by decide
    have hnone : (none : Option UInt64).isSome = pushesError 1 := by decide
    obtain ⟨c₁, hentry, hcs₁, hrdi, -, -, -, hmem₁⟩ :=
      hready.handlerEntry_eq hvector hnone
    have hread : Registers.read c₁.mem ((entryTop L d).toNat - sizeofRegisters) =
        Registers.of d 1 none := by
      apply Registers.read_of_words
      rw [hmem₁]
      exact words_store
    rw [hbind, if_neg hclear]
    refine ⟨c₁, hentry, ?_, fun h => absurd h hclear, fun _ => ⟨hrdi, ?_⟩⟩
    · rw [Core.cpl, hcs₁]
      rfl
    · rw [← htop, hread, ← hd]
      rfl

/-- A task that is traced, and then makes a system call. -/
def sampleTraced : Core :=
  { sampleTask with reg := Function.update (fun _ => 7) .rsp 0x60000, rflags := 0x302 }

theorem trap_flag_writes_sampleTraced :
    ∃ c₁, trappedSyscall (tables samplePlacement 0) sampleGlobals sampleTraced = some c₁ ∧
      c₁.cpl = 0 ∧
      (Registers.read c₁.mem (0x60000 - sizeofRegisters)).rip = samplePlacement.syscallEntry := by
  have hinstalled : Installed samplePlacement (tables samplePlacement 0) sampleTraced.mem :=
    (installed samplePlacement 0 _).setKernelStack _
  obtain ⟨c₁, hcall, hcpl, -, hset⟩ :=
    trap_flag_writes hinstalled (by decide) (by decide) sampleGlobals
  have hread := (hset (by decide)).2
  have htop : (alignStack 0x60000).toNat = 0x60000 := by decide
  exact ⟨c₁, hcall, hcpl, congrArg (fun r => r.rip) (htop ▸ hread)⟩

end StyxOS.Cpu
