import StyxOS.Cpu.Syscall
import StyxOS.Syscall.Dispatch

/-! # Into ring 3, and calls out of it

`task_entry_trampoline` of `task.asm`, which starts a task, and the functions of
`syscalls.S`, by which a task calls the kernel. A task starts in the same state whatever the kernel
had in its registers; a call of a wrapper reaches the case of `syscall_dispatch` of that name with
the arguments of the C function, and returns to its caller as any function.
-/

namespace StyxOS.Cpu

open ByteMem X86

/-! ## The trampoline -/

/-- The registers that the trampoline clears, in its order. -/
def cleared : List Gpr :=
  [.rax, .rbx, .rcx, .rdx, .rsi, .rdi, .r8, .r9, .r10, .r11, .r12, .r13, .r14, .r15, .rbp]

/-- `task_entry_trampoline` behind the call of `sched_get_current`, which leaves the task in RAX. -/
def taskEntryTrampoline (t : Tables) (c : Core) : Option Core :=
  iretq t (execAll c ([.load .rbx .rax 40, .pushImm 0x23, .pushImm 0x400000, .pushImm 0x202,
    .pushImm 0x2B, .push .rbx] ++ cleared.map .zero))

/-! ## The wrappers -/

/-- The functions of `syscalls.S` up to the instruction `syscall`. -/
def wrapper : Sys → List Instr
  | .yield => [.movImm .rax 0]
  | .write => [.movImm .rax 1]
  | .capSend => [.movImm .rax 2]
  | .capRecv => [.movImm .rax 3]
  | .exit => [.movImm .rax 4]
  | .readKey => [.movImm .rax 5]
  | .torCell => [.movImm .rax 6]
  | .sysinfo => [.movImm .rax 7]
  | .socket => [.movImm .rax 8]
  | .connect => [.mov .r10 .rcx, .movImm .rax 9]
  | .send => [.mov .r10 .rcx, .movImm .rax 10]
  | .recv => [.mov .r10 .rcx, .movImm .rax 11]
  | .pqcKem => [.movImm .rax 12]
  | .emergencyWipe => [.movImm .rax 13]

/-- A wrapper up to the call of `syscall_dispatch`; `back` is behind its instruction `syscall`. -/
def wrapperEntry (t : Tables) (g : SyscallGlobals) (back : UInt64) (s : Sys) (c : Core) :
    Option Core :=
  dispatchEntry t g { execAll c (wrapper s) with rip := back }

/-- A wrapper that returns. -/
def wrapperCall (t : Tables) (g : SyscallGlobals) (back : UInt64) (kept : ℕ → Bool) (u : Effect)
    (s : Sys) (c : Core) : Option Core :=
  (systemCall t g kept u { execAll c (wrapper s) with rip := back }).map Core.ret

/-- The number of parameters of a wrapper. -/
def parameters : Sys → ℕ
  | .yield => 0
  | .exit | .readKey | .sysinfo | .socket | .emergencyWipe => 1
  | .capSend | .capRecv => 2
  | .write | .torCell | .pqcKem => 3
  | .connect | .send | .recv => 4

variable {L : Placement} {g : SyscallGlobals} {c : Core} {efer : UInt64} {u : Effect}

/-- A task starts in ring 3 at the address that its `task_t` holds for RBX, on its own stack, with
interrupts enabled and all registers clear: nothing of what the kernel had in its registers is left,
and of its memory it has only the frame of the return. It does not start, and the kernel faults,
where the address is not one that can be jumped to, which `elf_load` does not look at, or where a
task before it has left the flag for nested tasks set. -/
theorem trampoline_starts {t : Tables} (hinstalled : Installed L t c.mem)
    (hcs : c.cs = gdtSelKernelCode) (hroom : 40 ≤ (c.reg .rsp).toNat)
    (hapart : (c.reg .rsp).toNat ≤ L.gdt.toNat ∨ L.gdt.toNat + 64 ≤ (c.reg .rsp).toNat - 40) :
    taskEntryTrampoline t c =
      if c.rflags &&& flagNt = 0 ∧ Canonical (word c.mem (c.reg .rax + 40).toNat) then some {
        reg := fun r => if r = .rsp then 0x400000 else 0
        rip := word c.mem (c.reg .rax + 40).toNat
        rflags := 0x202
        cs := gdtSelUserCode64 ||| 3
        ss := gdtSelUserData ||| 3
        mem := store c.mem ((c.reg .rsp).toNat - 40)
          (wordBytes [word c.mem (c.reg .rax + 40).toNat, 0x2B, 0x202, 0x400000, 0x23]) }
      else none := by
  generalize hentry : word c.mem (c.reg .rax + 40).toNat = entry
  generalize hd : (c.set .rbx entry).pushAll [0x23, 0x400000, 0x202, 0x2B, entry] = d
  have hlen : 8 * [0x23, 0x400000, 0x202, 0x2B, entry].length = 40 := rfl
  have hrsp : (c.set .rbx entry).reg .rsp = c.reg .rsp := Core.reg_set_of_ne (by decide)
  have hfits : 8 * [0x23, 0x400000, 0x202, 0x2B, entry].length ≤
      ((c.set .rbx entry).reg .rsp).toNat := by
    rw [hrsp, hlen]
    exact hroom
  have hpushed : execAll c [.load .rbx .rax 40, .pushImm 0x23, .pushImm 0x400000, .pushImm 0x202,
      .pushImm 0x2B, .push .rbx] = d := by
    rw [← hd, execAll_cons, exec, hentry]
    rfl
  have hmem : d.mem = store c.mem ((c.reg .rsp).toNat - 40)
      (wordBytes [entry, 0x2B, 0x202, 0x400000, 0x23]) := by
    rw [← hd, Core.mem_pushAll hfits, hrsp, hlen]
    rfl
  have hsp : (d.reg .rsp).toNat = (c.reg .rsp).toNat - 40 := by
    have h40 : (UInt64.ofNat 40).toNat = 40 := rfl
    rw [← hd, Core.rsp_pushAll hfits, hrsp, hlen, toNat_sub_of_le (by rw [h40]; exact hroom), h40]
  have hframe : words d.mem (d.reg .rsp).toNat 5 = [entry, 0x2B, 0x202, 0x400000, 0x23] := by
    rw [hmem, hsp]
    exact words_store
  have hgdt : ∀ x, L.gdt.toNat ≤ x → x < L.gdt.toNat + 64 → d.mem x = c.mem x := by
    intro x hlow hhigh
    rw [hmem]
    rcases hapart with hx | hx
    · refine store_apply_of_ge ?_
      rw [length_wordBytes]
      simp only [List.length_cons, List.length_nil]
      omega
    · exact store_apply_of_lt (by omega)
  have hcode : csOk t d.mem (gdtSelUserCode64 ||| 3) = true := by
    rw [csOk, hinstalled.segmentAt_eq hgdt, hinstalled.userCode]
    rfl
  have hstack : ssOk t d.mem (gdtSelUserData ||| 3) = true := by
    rw [ssOk, hinstalled.segmentAt_eq hgdt, hinstalled.userData]
    rfl
  have hcpl : d.cpl = 0 := by
    rw [Core.cpl, ← hd, (Core.levels_pushAll _ _).2]
    change c.cs.toNat % 4 = 0
    rw [hcs]
    rfl
  have hcs' : (0x2B : UInt64).toUInt16 = gdtSelUserCode64 ||| 3 := by decide
  have hss' : (0x23 : UInt64).toUInt16 = gdtSelUserData ||| 3 := by decide
  generalize hR : (fun r => if r ∈ cleared then 0 else d.reg r) = R
  have hRsp : R .rsp = d.reg .rsp := by
    rw [← hR]
    exact if_neg (by decide)
  have hreg : Function.update R .rsp 0x400000 = fun r => if r = .rsp then 0x400000 else 0 := by
    funext r
    rw [Function.update_apply, ← hR]
    cases r <;> rfl
  have hframe' : words d.mem (R .rsp).toNat 5 = [entry, 0x2B, 0x202, 0x400000, 0x23] := by
    rw [hRsp]
    exact hframe
  have hreturn := iretq_eq (t := t) (c := { d with reg := R }) hframe' (hcs' ▸ hcode)
    (hss' ▸ hstack) (by decide) (by change d.cpl ≤ _; rw [hcpl]; exact Nat.zero_le _)
  have hflags : d.rflags = c.rflags := by
    rw [← hd, (Core.levels_pushAll _ _).1]
    rfl
  rw [taskEntryTrampoline, execAll_append, hpushed, execAll_zero, hR, hreturn, hcs', hss', ← hmem,
    ← hreg, ← hflags]
  rfl

/-- The kernel with a task in RAX that starts at `0x400100`. -/
def sampleStart : Core where
  reg := Function.update (fun _ => 7) .rsp 0x80000
  rip := 0x60000
  rflags := 0x2
  cs := gdtSelKernelCode
  ss := gdtSelKernelData
  mem := setWord (initTables samplePlacement fun _ => 0) 47 0x400100

theorem word_sampleStart : word sampleStart.mem (sampleStart.reg .rax + 40).toNat = 0x400100 :=
  word_setWord_same

theorem installed_sampleStart :
    Installed samplePlacement (tables samplePlacement 0) sampleStart.mem := by
  have hgdt : samplePlacement.gdt.toNat = 0x10000 := rfl
  have hidt : samplePlacement.idt.toNat = 0x20000 := rfl
  refine (installed samplePlacement 0 fun _ => 0).congr (fun x hlow _ => ?_) fun x hlow _ => ?_
  · exact setWord_apply (.inr (by omega))
  · exact setWord_apply (.inr (by omega))

theorem trampoline_starts_sampleStart :
    ∃ c, taskEntryTrampoline (tables samplePlacement 0) sampleStart = some c ∧ c.cpl = 3 ∧
      c.rip = 0x400100 ∧ c.reg .rsp = 0x400000 ∧ c.reg .rbx = 0 := by
  have hsp : (sampleStart.reg .rsp).toNat = 0x80000 := by
    unfold sampleStart
    dsimp only
    rw [Function.update_self]
    rfl
  have hstart := trampoline_starts installed_sampleStart rfl (by rw [hsp]; decide)
    (by rw [hsp]; decide)
  have hcanonical : Canonical 0x400100 := .inl (by decide)
  rw [word_sampleStart, if_pos ⟨by decide, hcanonical⟩] at hstart
  exact ⟨_, hstart, rfl, rfl, rfl, rfl⟩

structure Passes (s : Sys) (c d : Core) : Prop where
  same : d = { c with reg := d.reg }
  number : Sys.ofNumber (d.reg .rax) = some s
  regs : ∀ r, r ≠ .rax → r ≠ .r10 → d.reg r = c.reg r
  r10 : parameters s = 4 → d.reg .r10 = c.reg .rcx

theorem wrapper_passes (s : Sys) (c : Core) : Passes s c (execAll c (wrapper s)) := by
  have hone (v : UInt64) (hnumber : Sys.ofNumber v = some s) (hs : parameters s ≠ 4) :
      Passes s c (execAll c [.movImm .rax v]) := by
    rw [execAll_cons, execAll_nil, exec]
    exact {
      same := rfl
      number := by rw [Core.reg_set_self, hnumber]
      regs := fun r hrax _ => Core.reg_set_of_ne hrax
      r10 := fun h => absurd h hs }
  have htwo (v : UInt64) (hnumber : Sys.ofNumber v = some s) :
      Passes s c (execAll c [.mov .r10 .rcx, .movImm .rax v]) := by
    rw [execAll_cons, execAll_cons, execAll_nil, exec, exec]
    exact {
      same := rfl
      number := by rw [Core.reg_set_self, hnumber]
      regs := fun r hrax hr10 => by rw [Core.reg_set_of_ne hrax, Core.reg_set_of_ne hr10]
      r10 := fun _ => by rw [Core.reg_set_of_ne (by decide), Core.reg_set_self] }
  cases s with
  | connect | send | recv => exact htwo _ rfl
  | _ => exact hone _ rfl (by decide)

theorem Callable.congr (h : Callable g c) (R : Gpr → UInt64) (rip : UInt64) :
    Callable g { c with reg := R, rip := rip } := { h with }

/-- A wrapper, called with anything in the registers by a task that is not traced:
`syscall_dispatch` finds the number of the call and the arguments of the wrapper in its own, and the
wrapper returns to the address that the stack of the task then holds, with the result. Of the
registers that a C function has to keep, none is lost. -/
theorem wrapper_transparent (h : Callable g c) (htf : c.rflags &&& flagTf = 0) {back : UInt64}
    (hback : Canonical back) (L : Placement) (efer : UInt64) {u : Effect}
    (hu : u.rflags &&& flagTf = 0) (s : Sys) :
    ∃ c₁ c₂, wrapperEntry (tables L efer) g back s c = some c₁ ∧
      (c₁.cpl = 0 ∧ Sys.ofNumber (c₁.reg .rdi) = some s ∧
        ([.rsi, .rdx, .rcx, .r8].map c₁.reg).take (parameters s) =
          ([.rdi, .rsi, .rdx, .rcx].map c.reg).take (parameters s)) ∧
      wrapperCall (tables L efer) g back (callKept (kstackTop g c.mem)) u s c = some c₂ ∧
      (c₂.cpl = 3 ∧ c₂.rip = word c₂.mem (c.reg .rsp).toNat ∧ c₂.reg .rsp = c.reg .rsp + 8 ∧
        c₂.reg .rax = u.reg .rax ∧
        (∀ r, r ∉ [.rax, .rcx, .r10, .r11, .rsp] → c₂.reg r = c.reg r) ∧
        ∀ x, callKept (kstackTop g c.mem) x = false → Apart g.globalUserRsp x 1 →
          c₂.mem x = u.mem x) := by
  obtain ⟨hexec, hnumber, hregs, hr10⟩ := wrapper_passes s c
  have hcall := h.congr (execAll c (wrapper s)).reg back
  have hcore : { execAll c (wrapper s) with rip := back } =
      { c with reg := (execAll c (wrapper s)).reg, rip := back } := by
    rw [hexec]
  obtain ⟨c₁, hentry, hcs, -, -, ⟨hrdi, hrsi, hrdx, hrcx, hr8⟩, -⟩ :=
    hcall.dispatchEntry_eq htf L efer
  obtain ⟨m, hreturn, hmem⟩ := hcall.systemCall_eq htf L efer u
  rw [if_pos ⟨hu, hback⟩] at hreturn
  dsimp only at hreturn
  generalize hR : Function.update (Function.update (Function.update (execAll c (wrapper s)).reg .rax
    (u.reg .rax)) .rcx back) .r11 c.rflags = R at hreturn
  have hrax : R .rax = u.reg .rax := by
    rw [← hR, Function.update_of_ne (by decide), Function.update_of_ne (by decide),
      Function.update_self]
  have hkept : ∀ r, r ∉ [.rax, .rcx, .r10, .r11] → R r = c.reg r := by
    intro r hr
    simp only [List.mem_cons, List.not_mem_nil, or_false, not_or] at hr
    rw [← hR, Function.update_of_ne hr.2.2.2, Function.update_of_ne hr.2.1,
      Function.update_of_ne hr.1, hregs r hr.1 hr.2.2.1]
  have hrsp : R .rsp = c.reg .rsp := hkept .rsp (by decide)
  have hentry' : wrapperEntry (tables L efer) g back s c = some c₁ := by
    rw [wrapperEntry, hcore, hentry]
  have hcall' : wrapperCall (tables L efer) g back (callKept (kstackTop g c.mem)) u s c = some
      (Core.ret
        { c with reg := R, rip := back, rflags := c.rflags &&& 0x3C7FD7 ||| 2, mem := m }) := by
    rw [wrapperCall, hcore]
    exact congrArg (Option.map Core.ret) hreturn
  refine ⟨c₁, _, hentry', ⟨?_, ?_, ?_⟩, hcall', ?_, ?_, ?_, ?_, fun r hr => ?_, hmem⟩
  · rw [Core.cpl, hcs]
    rfl
  · rw [hrdi, hnumber]
  · have hargs : [Gpr.rsi, .rdx, .rcx, .r8].map c₁.reg =
        [c.reg .rdi, c.reg .rsi, c.reg .rdx, (execAll c (wrapper s)).reg .r10] := by
      simp only [List.map_cons, List.map_nil, hrsi, hrdx, hrcx, hr8]
      rw [hregs .rdi (by decide) (by decide), hregs .rsi (by decide) (by decide),
        hregs .rdx (by decide) (by decide)]
    rw [hargs]
    cases s with
    | connect | send | recv => rw [hr10 rfl]; rfl
    | _ => rfl
  · rw [Core.cpl]
    change c.cs.toNat % 4 = 3
    rw [h.cs]
    rfl
  · exact congrArg (fun a : UInt64 => word m a.toNat) hrsp
  · rw [Core.rsp_ret]
    exact congrArg (· + 8) hrsp
  · rw [Core.reg_ret_of_ne (by decide)]
    exact hrax
  · simp only [List.mem_cons, List.not_mem_nil, or_false, not_or] at hr
    rw [Core.reg_ret_of_ne hr.2.2.2.2]
    exact hkept r (by simp [hr])

/-- The task connects a socket. -/
theorem wrapper_transparent_sampleCaller :
    ∃ c₁ c₂, wrapperEntry (tables samplePlacement 0) sampleGlobals 0x400100 .connect sampleCaller =
        some c₁ ∧ Sys.ofNumber (c₁.reg .rdi) = some .connect ∧
      wrapperCall (tables samplePlacement 0) sampleGlobals 0x400100 (callKept 0x80000)
        ⟨fun _ => 3, 0, fun _ => 1⟩ .connect sampleCaller = some c₂ ∧ c₂.reg .rax = 3 := by
  obtain ⟨c₁, c₂, hentry, ⟨-, hnumber, -⟩, hcall, -, -, -, hrax, -⟩ :=
    wrapper_transparent callable_sampleCaller (by decide) (.inl (by decide) : Canonical 0x400100)
      samplePlacement 0 (u := ⟨fun _ => 3, 0, fun _ => 1⟩) (by decide) .connect
  rw [kstackTop_sampleCaller] at hcall
  exact ⟨c₁, c₂, hentry, hnumber, hcall, hrax⟩

end StyxOS.Cpu
