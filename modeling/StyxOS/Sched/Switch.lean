import StyxOS.Library.ByteMem
import StyxOS.Library.Run
import StyxOS.Sched.Basic

/-! # The instructions of `task_switch`

`task.asm` block by block, on registers and bytes of memory, and what a task finds
when it is switched back to after any sequence of switches.
-/

namespace StyxOS.Switch

open ByteMem StepSystem

/-! ### The processor -/

/-- The registers that `task_switch` uses. -/
inductive Reg
  | rax | rbx | rbp | rdi | rsi | r12 | r13 | r14 | r15 | rsp
  deriving DecidableEq, Repr

/-- The processor with RSP0 of the TSS and the memory of the kernel, which all page tables map
alike. -/
structure Core where
  reg : Reg → UInt64
  rip : UInt64
  cr3 : UInt64
  rsp0 : UInt64
  mem : Mem

def loadAt (mem : Mem) (a : ℕ) : UInt64 := UInt64.ofNat (loadLE mem a 8)

def storeAt (mem : Mem) (a : ℕ) (v : UInt64) : Mem := storeLE mem a 8 v.toNat

namespace Core

variable (c : Core)

def set (r : Reg) (v : UInt64) : Core := { c with reg := Function.update c.reg r v }

def load (a : UInt64) : UInt64 := loadAt c.mem a.toNat

def store (a v : UInt64) : Core := { c with mem := storeAt c.mem a.toNat v }

def push (v : UInt64) : Core := (c.set .rsp (c.reg .rsp - 8)).store (c.reg .rsp - 8) v

def pop (r : Reg) : Core := (c.set r (c.load (c.reg .rsp))).set .rsp (c.reg .rsp + 8)

def regs : TaskRegs where
  rbx := c.reg .rbx
  rbp := c.reg .rbp
  r12 := c.reg .r12
  r13 := c.reg .r13
  r14 := c.reg .r14
  r15 := c.reg .r15
  rip := c.rip
  rsp := c.reg .rsp

end Core

/-- What a C function leaves behind: bytes below the stack pointer, its return address among them,
and the registers that it need not restore. -/
structure Scratch where
  depth : ℕ
  bytes : Mem
  rax : UInt64
  rdi : UInt64
  rsi : UInt64

/-- The call of a C function, up to its result. -/
def Core.call (c : Core) (u : Scratch) : Core :=
  (({ c with
      mem := fun a =>
        if (c.reg .rsp).toNat - u.depth ≤ a ∧ a < (c.reg .rsp).toNat then u.bytes a
        else c.mem a }.set .rax u.rax).set .rdi u.rdi).set .rsi u.rsi

def vmmGetHhdmOffset (hhdmOff : UInt64) (u : Scratch) (c : Core) : Core :=
  (c.call u).set .rax hhdmOff

def tssSetKernelStack (u : Scratch) (c : Core) : Core := { c.call u with rsp0 := c.reg .rdi }

/-! ### `task_switch` -/

/-- The stores into `from->regs`. -/
def saveContext (c : Core) : Core :=
  let c := c.store (c.reg .rdi + 40) (c.reg .rbx)
  let c := c.store (c.reg .rdi + 48) (c.reg .rbp)
  let c := c.store (c.reg .rdi + 56) (c.reg .r12)
  let c := c.store (c.reg .rdi + 64) (c.reg .r13)
  let c := c.store (c.reg .rdi + 72) (c.reg .r14)
  let c := c.store (c.reg .rdi + 80) (c.reg .r15)
  let c := c.set .rax (c.load (c.reg .rsp))
  let c := c.store (c.reg .rdi + 88) (c.reg .rax)
  c.store (c.reg .rdi + 96) (c.reg .rsp)

/-- The page tables of `to`, where it has any. -/
def switchCr3 (hhdmOff : UInt64) (u : Scratch) (c : Core) : Core :=
  let c := c.set .rax (c.load (c.reg .rsi + 16))
  if c.reg .rax = 0 then c
  else
    let c := c.push (c.reg .rdi)
    let c := c.push (c.reg .rsi)
    let c := c.set .r15 (c.reg .rax)
    let c := vmmGetHhdmOffset hhdmOff u c
    let c := c.set .r15 (c.reg .r15 - c.reg .rax)
    let c := c.pop .rsi
    let c := c.pop .rdi
    { c with cr3 := c.reg .r15 }

/-- From `.skip_cr3` on: the kernel stack of `to`. -/
def switchRsp0 (u : Scratch) (c : Core) : Core :=
  let c := c.push (c.reg .rdi)
  let c := c.push (c.reg .rsi)
  let c := c.set .rdi (c.load (c.reg .rsi + 32))
  let c := tssSetKernelStack u c
  let c := c.pop .rsi
  c.pop .rdi

/-- The loads from `to->regs`, and the jump. -/
def restoreContext (c : Core) : Core :=
  let c := c.set .rbx (c.load (c.reg .rsi + 40))
  let c := c.set .rbp (c.load (c.reg .rsi + 48))
  let c := c.set .r12 (c.load (c.reg .rsi + 56))
  let c := c.set .r13 (c.load (c.reg .rsi + 64))
  let c := c.set .r14 (c.load (c.reg .rsi + 72))
  let c := c.set .r15 (c.load (c.reg .rsi + 80))
  let c := c.set .rsp (c.load (c.reg .rsi + 96))
  { c with rip := c.load (c.reg .rsi + 88) }

/-- `task_switch`, with what the two C functions leave behind. -/
def taskSwitch (hhdmOff : UInt64) (u₁ u₂ : Scratch) (c : Core) : Core :=
  restoreContext (switchRsp0 u₂ (switchCr3 hhdmOff u₁ (saveContext c)))

/-! ### Words in memory -/

section

variable {mem mem' : Mem} {a b : ℕ} {v : UInt64} {c : Core} {u : Scratch} {hhdmOff : UInt64}

@[simp] theorem loadAt_storeAt_same : loadAt (storeAt mem a v) a = v := by
  have hv : v.toNat < 256 ^ 8 := v.toNat_lt
  rw [loadAt, storeAt, loadLE_storeLE_same hv, UInt64.ofNat_toNat]

theorem loadAt_storeAt_apart (h : b + 8 ≤ a ∨ a + 8 ≤ b) :
    loadAt (storeAt mem a v) b = loadAt mem b := by
  rw [loadAt, storeAt, loadLE_storeLE_disjoint h, loadAt]

theorem storeAt_apply {x : ℕ} (h : x < a ∨ a + 8 ≤ x) : storeAt mem a v x = mem x := by
  rcases h with h | h
  · exact store_apply_of_lt h
  · exact store_apply_of_ge (by rwa [length_leBytes])

theorem loadAt_congr (h : ∀ x, a ≤ x → x < a + 8 → mem' x = mem x) :
    loadAt mem' a = loadAt mem a := by
  rw [loadAt, loadLE_congr fun i hi => h (a + i) (by omega) (by omega), loadAt]

/-- The saved registers in a `task_t`. -/
def savedRegs (mem : Mem) (a : ℕ) : TaskRegs where
  rbx := loadAt mem (a + 40)
  rbp := loadAt mem (a + 48)
  r12 := loadAt mem (a + 56)
  r13 := loadAt mem (a + 64)
  r14 := loadAt mem (a + 72)
  r15 := loadAt mem (a + 80)
  rip := loadAt mem (a + 88)
  rsp := loadAt mem (a + 96)

theorem savedRegs_congr (h : ∀ x, a + 40 ≤ x → x < a + 104 → mem' x = mem x) :
    savedRegs mem' a = savedRegs mem a := by
  have hload : ∀ k, 40 ≤ k → k ≤ 96 → loadAt mem' (a + k) = loadAt mem (a + k) :=
    fun k hlow hhigh => loadAt_congr fun x hx hx' => h x (by omega) (by omega)
  simp only [savedRegs, hload, Nat.reduceLeDiff]

/-! ### The blocks -/

theorem toNat_add_of_le {x : UInt64} {k : ℕ} (hx : x.toNat + 104 ≤ 2 ^ 64) (hk : k < 104) :
    (x + UInt64.ofNat k).toNat = x.toNat + k := by
  have hk' : k < 2 ^ 64 := by omega
  rw [UInt64.toNat_add, UInt64.toNat_ofNat_of_lt' hk', Nat.mod_eq_of_lt (by omega)]

@[simp] theorem mem_store (a : UInt64) : (c.store a v).mem = storeAt c.mem a.toNat v := rfl

@[simp] theorem reg_store (a : UInt64) : (c.store a v).reg = c.reg := rfl

@[simp] theorem cr3_store (a : UInt64) : (c.store a v).cr3 = c.cr3 := rfl

@[simp] theorem rsp0_store (a : UInt64) : (c.store a v).rsp0 = c.rsp0 := rfl

@[simp] theorem mem_set (r : Reg) : (c.set r v).mem = c.mem := rfl

@[simp] theorem reg_set (r r' : Reg) :
    (c.set r v).reg r' = if r' = r then v else c.reg r' := Function.update_apply c.reg r v r'

@[simp] theorem cr3_set (r : Reg) : (c.set r v).cr3 = c.cr3 := rfl

@[simp] theorem rsp0_set (r : Reg) : (c.set r v).rsp0 = c.rsp0 := rfl

theorem reg_saveContext {r : Reg} (h : r ≠ .rax) : (saveContext c).reg r = c.reg r := by
  simp [saveContext, h]

@[simp] theorem cr3_saveContext : (saveContext c).cr3 = c.cr3 := by simp [saveContext]

@[simp] theorem rsp0_saveContext : (saveContext c).rsp0 = c.rsp0 := by simp [saveContext]

theorem mem_saveContext (hrdi : (c.reg .rdi).toNat + 104 ≤ 2 ^ 64)
    (hret : (c.reg .rsp).toNat + 8 ≤ (c.reg .rdi).toNat + 40 ∨
      (c.reg .rdi).toNat + 104 ≤ (c.reg .rsp).toNat) :
    (saveContext c).mem = storeAt (storeAt (storeAt (storeAt (storeAt (storeAt (storeAt
      (storeAt c.mem ((c.reg .rdi).toNat + 40) (c.reg .rbx)) ((c.reg .rdi).toNat + 48)
        (c.reg .rbp)) ((c.reg .rdi).toNat + 56) (c.reg .r12)) ((c.reg .rdi).toNat + 64)
        (c.reg .r13)) ((c.reg .rdi).toNat + 72) (c.reg .r14)) ((c.reg .rdi).toNat + 80)
        (c.reg .r15)) ((c.reg .rdi).toNat + 88) (loadAt c.mem (c.reg .rsp).toNat))
        ((c.reg .rdi).toNat + 96) (c.reg .rsp) := by
  have hoff : ∀ k : ℕ, k < 104 → (c.reg .rdi + UInt64.ofNat k).toNat = (c.reg .rdi).toNat + k :=
    fun k => toNat_add_of_le hrdi
  have h40 := hoff 40 (by decide)
  have h48 := hoff 48 (by decide)
  have h56 := hoff 56 (by decide)
  have h64 := hoff 64 (by decide)
  have h72 := hoff 72 (by decide)
  have h80 := hoff 80 (by decide)
  have h88 := hoff 88 (by decide)
  have h96 := hoff 96 (by decide)
  simp only [UInt64.reduceOfNat] at h40 h48 h56 h64 h72 h80 h88 h96
  simp only [saveContext, Core.load, mem_store, reg_store, mem_set, reg_set, reduceCtorEq,
    if_false, if_true, h40, h48, h56, h64, h72, h80, h88, h96]
  simp (disch := omega) only [loadAt_storeAt_apart]

/-- The context is in `from->regs` after the first block. -/
theorem savedRegs_saveContext (hrdi : (c.reg .rdi).toNat + 104 ≤ 2 ^ 64)
    (hret : (c.reg .rsp).toNat + 8 ≤ (c.reg .rdi).toNat + 40 ∨
      (c.reg .rdi).toNat + 104 ≤ (c.reg .rsp).toNat) :
    savedRegs (saveContext c).mem (c.reg .rdi).toNat =
      { c.regs with rip := loadAt c.mem (c.reg .rsp).toNat } := by
  rw [mem_saveContext hrdi hret]
  simp (disch := omega) only [savedRegs, loadAt_storeAt_apart, loadAt_storeAt_same, Core.regs]

theorem mem_saveContext_apply (hrdi : (c.reg .rdi).toNat + 104 ≤ 2 ^ 64)
    (hret : (c.reg .rsp).toNat + 8 ≤ (c.reg .rdi).toNat + 40 ∨
      (c.reg .rdi).toNat + 104 ≤ (c.reg .rsp).toNat) {x : ℕ}
    (hx : x < (c.reg .rdi).toNat + 40 ∨ (c.reg .rdi).toNat + 104 ≤ x) :
    (saveContext c).mem x = c.mem x := by
  rw [mem_saveContext hrdi hret]
  simp (disch := omega) only [storeAt_apply]

theorem restoreContext_spec (hrsi : (c.reg .rsi).toNat + 104 ≤ 2 ^ 64) :
    (restoreContext c).regs = savedRegs c.mem (c.reg .rsi).toNat ∧
      (restoreContext c).mem = c.mem ∧ (restoreContext c).cr3 = c.cr3 ∧
      (restoreContext c).rsp0 = c.rsp0 := by
  have hload : ∀ k : ℕ, k < 104 →
      c.load (c.reg .rsi + UInt64.ofNat k) = loadAt c.mem ((c.reg .rsi).toNat + k) := by
    intro k hk
    rw [Core.load, toNat_add_of_le hrsi hk]
  refine ⟨?_, rfl, rfl, rfl⟩
  simp only [savedRegs, ← hload, Nat.reduceLT]
  rfl

@[simp] theorem cr3_restoreContext : (restoreContext c).cr3 = c.cr3 := by simp [restoreContext]

@[simp] theorem rsp0_restoreContext : (restoreContext c).rsp0 = c.rsp0 := by simp [restoreContext]

/-- What the two blocks in the middle leave as it was: the arguments, the stack pointer, and the
memory but for some bytes below it. -/
structure Keeps (depth : ℕ) (c d : Core) : Prop where
  rdi : d.reg .rdi = c.reg .rdi
  rsi : d.reg .rsi = c.reg .rsi
  rsp : d.reg .rsp = c.reg .rsp
  mem : ∀ x, x + 16 + depth < (c.reg .rsp).toNat ∨ (c.reg .rsp).toNat ≤ x → d.mem x = c.mem x

theorem Keeps.trans {depth : ℕ} {c d e : Core} (h : Keeps depth c d) (h' : Keeps depth d e) :
    Keeps depth c e where
  rdi := h'.rdi.trans h.rdi
  rsi := h'.rsi.trans h.rsi
  rsp := h'.rsp.trans h.rsp
  mem := by
    intro x hx
    rw [h'.mem x (by rwa [h.rsp]), h.mem x hx]

theorem toNat_sub_8 (hroom : 8 ≤ (c.reg .rsp).toNat) :
    (c.reg .rsp - 8).toNat = (c.reg .rsp).toNat - 8 :=
  UInt64.toNat_sub_of_le _ _ (UInt64.le_iff_toNat_le.mpr (by simpa using hroom))

theorem toNat_sub_16 (hroom : 16 ≤ (c.reg .rsp).toNat) :
    (c.reg .rsp - 8 - 8).toNat = (c.reg .rsp).toNat - 16 := by
  have h8 := toNat_sub_8 (c := c) (by omega)
  rw [UInt64.toNat_sub_of_le _ _ (UInt64.le_iff_toNat_le.mpr (by simp [h8]; omega)), h8]
  simp
  omega

/-- RDI and RSI are pushed before a call and popped after it. -/
theorem keeps_of_pushes {depth : ℕ} {c d : Core} (hroom : 16 ≤ (c.reg .rsp).toNat)
    (hrsp : d.reg .rsp = c.reg .rsp - 8 - 8)
    (hmem : ∀ x, x + 16 + depth < (c.reg .rsp).toNat ∨ (c.reg .rsp).toNat ≤ x + 16 →
      d.mem x = ((c.push (c.reg .rdi)).push (c.reg .rsi)).mem x) :
    Keeps depth c ((d.pop .rsi).pop .rdi) := by
  have h8 := toNat_sub_8 (c := c) (by omega)
  have h16 := toNat_sub_16 hroom
  have hpushed : ((c.push (c.reg .rdi)).push (c.reg .rsi)).mem =
      storeAt (storeAt c.mem ((c.reg .rsp).toNat - 8) (c.reg .rdi)) ((c.reg .rsp).toNat - 16)
        (c.reg .rsi) := by
    simp [Core.push, h8, h16]
  have hrsi : loadAt d.mem ((c.reg .rsp).toNat - 16) = c.reg .rsi := by
    rw [loadAt_congr fun x hx _ => hmem x (by omega), hpushed, loadAt_storeAt_same]
  have hrdi : loadAt d.mem ((c.reg .rsp).toNat - 8) = c.reg .rdi := by
    rw [loadAt_congr fun x hx _ => hmem x (by omega), hpushed,
      loadAt_storeAt_apart (by omega), loadAt_storeAt_same]
  have hback : c.reg .rsp - 8 - 8 + 8 = c.reg .rsp - 8 := UInt64.sub_add_cancel _ _
  constructor
  · simp [Core.pop, Core.load, hrsp, hback, h8, hrdi]
  · simp [Core.pop, Core.load, hrsp, h16, hrsi]
  · simp [Core.pop, hrsp]
  · intro x hx
    have hd : ((d.pop .rsi).pop .rdi).mem = d.mem := rfl
    rw [hd, hmem x (by omega), hpushed, storeAt_apply (by omega), storeAt_apply (by omega)]

theorem mem_call_apply {x : ℕ}
    (h : x + u.depth < (c.reg .rsp).toNat ∨ (c.reg .rsp).toNat ≤ x) :
    (c.call u).mem x = c.mem x := by
  simp only [Core.call, mem_set]
  exact if_neg (by omega)

@[simp] theorem rsp_call : (c.call u).reg .rsp = c.reg .rsp := by simp [Core.call]

/-- The two arguments are pushed, and a C function is called. -/
theorem keeps_of_call {d e : Core} (hroom : 16 ≤ (c.reg .rsp).toNat)
    (hersp : e.reg .rsp = c.reg .rsp - 8 - 8)
    (hemem : e.mem = ((c.push (c.reg .rdi)).push (c.reg .rsi)).mem)
    (hdrsp : d.reg .rsp = e.reg .rsp) (hdmem : d.mem = (e.call u).mem) :
    Keeps u.depth c ((d.pop .rsi).pop .rdi) := by
  apply keeps_of_pushes hroom (hdrsp.trans hersp)
  intro x hx
  have h16 := toNat_sub_16 hroom
  rw [hdmem, mem_call_apply (by rw [hersp, h16]; omega), hemem]

@[simp] theorem mem_tssSetKernelStack : (tssSetKernelStack u c).mem = (c.call u).mem := rfl

@[simp] theorem rsp_tssSetKernelStack : (tssSetKernelStack u c).reg .rsp = c.reg .rsp := by
  simp [tssSetKernelStack]

@[simp] theorem mem_vmmGetHhdmOffset : (vmmGetHhdmOffset hhdmOff u c).mem = (c.call u).mem := rfl

@[simp] theorem rsp_vmmGetHhdmOffset : (vmmGetHhdmOffset hhdmOff u c).reg .rsp = c.reg .rsp := by
  simp [vmmGetHhdmOffset]

theorem keeps_switchRsp0 (hroom : 16 ≤ (c.reg .rsp).toNat) :
    Keeps u.depth c (switchRsp0 u c) := by
  unfold switchRsp0
  extract_lets c₁ c₂ c₃ c₄
  have hrsp : c₃.reg .rsp = c.reg .rsp - 8 - 8 := by simp [c₃, c₂, c₁, Core.push]
  have hmem : c₃.mem = ((c.push (c.reg .rdi)).push (c.reg .rsi)).mem := by
    simp [c₃, c₂, c₁, Core.push]
  exact keeps_of_call hroom hrsp hmem rsp_tssSetKernelStack mem_tssSetKernelStack

theorem keeps_switchCr3 (hroom : 16 ≤ (c.reg .rsp).toNat) :
    Keeps u.depth c (switchCr3 hhdmOff u c) := by
  unfold switchCr3
  extract_lets b b₁ b₂ b₃ b₄ b₅ b₆ b₇
  have hb : Keeps u.depth c b := ⟨by simp [b], by simp [b], by simp [b], fun _ _ => rfl⟩
  split
  · exact hb
  · have hrsp : b₃.reg .rsp = b.reg .rsp - 8 - 8 := by simp [b₃, b₂, b₁, Core.push]
    have hmem : b₃.mem = ((b.push (b.reg .rdi)).push (b.reg .rsi)).mem := by
      simp [b₃, b₂, b₁, Core.push]
    have hdrsp : b₅.reg .rsp = b₃.reg .rsp := by simp [b₅, b₄]
    have hdmem : b₅.mem = (b₃.call u).mem := by simp [b₅, b₄]
    have hkeeps : Keeps u.depth b b₇ :=
      keeps_of_call (by rwa [hb.rsp]) hrsp hmem hdrsp hdmem
    exact hb.trans ⟨hkeeps.rdi, hkeeps.rsi, hkeeps.rsp, hkeeps.mem⟩

theorem cr3_switchCr3 : (switchCr3 hhdmOff u c).cr3 =
    if c.load (c.reg .rsi + 16) = 0 then c.cr3 else c.load (c.reg .rsi + 16) - hhdmOff := by
  unfold switchCr3
  extract_lets b b₁ b₂ b₃ b₄ b₅ b₆ b₇
  have hrax : b.reg .rax = c.load (c.reg .rsi + 16) := by simp [b]
  have hr15 : b₃.reg .r15 = b.reg .rax := by simp [b₃, b₂, b₁, Core.push]
  rw [hrax]
  split
  · rfl
  · change b₇.reg .r15 = _
    simp [b₇, b₆, b₅, b₄, hr15, hrax, Core.pop, vmmGetHhdmOffset, Core.call]

theorem cr3_switchRsp0 : (switchRsp0 u c).cr3 = c.cr3 := by
  simp [switchRsp0, tssSetKernelStack, Core.push, Core.pop, Core.call]

/-- RSP0 is `kstack_top` of `to`, where that is apart from the stack in use. -/
theorem rsp0_switchRsp0 (hroom : 16 ≤ (c.reg .rsp).toNat)
    (hrsi : (c.reg .rsi).toNat + 104 ≤ 2 ^ 64)
    (happart : (c.reg .rsp).toNat ≤ (c.reg .rsi).toNat + 32 ∨
      (c.reg .rsi).toNat + 56 ≤ (c.reg .rsp).toNat) :
    (switchRsp0 u c).rsp0 = loadAt c.mem ((c.reg .rsi).toNat + 32) := by
  have h32 := toNat_add_of_le hrsi (k := 32) (by decide)
  simp only [UInt64.reduceOfNat] at h32
  have h8 := toNat_sub_8 (c := c) (by omega)
  have h16 := toNat_sub_16 hroom
  have hload : (((c.push (c.reg .rdi)).push (c.reg .rsi)).load (c.reg .rsi + 32)) =
      loadAt c.mem ((c.reg .rsi).toNat + 32) := by
    simp only [Core.load, Core.push, mem_store, mem_set, reg_set, reg_store, if_true, h8, h16, h32]
    rw [loadAt_storeAt_apart (by omega), loadAt_storeAt_apart (by omega)]
  rw [← hload]
  unfold switchRsp0
  extract_lets c₁ c₂ c₃ c₄
  have hpushes : c₂ = (c.push (c.reg .rdi)).push (c.reg .rsi) := by simp [c₂, c₁, Core.push]
  have hrsi' : c₂.reg .rsi = c.reg .rsi := by simp [c₂, c₁, Core.push]
  have hrdi : c₃.reg .rdi = c₂.load (c₂.reg .rsi + 32) := by simp [c₃]
  change c₃.reg .rdi = _
  rw [hrdi, hrsi', hpushes]

end

/-! ### Tasks -/

/-- Where the descriptors and the kernel stacks of the tasks are. -/
structure SwitchLayout (ι : Type) where
  task : ι → UInt64
  stackLo : ι → ℕ
  stackHi : ι → ℕ
  hhdmOff : UInt64
  task_le : ∀ t, (task t).toNat + 104 ≤ 2 ^ 64
  tasks_apart : ∀ t u, t ≠ u →
    (task t).toNat + 104 ≤ (task u).toNat ∨ (task u).toNat + 104 ≤ (task t).toNat
  stacks_apart : ∀ t u, t ≠ u → stackHi t ≤ stackLo u ∨ stackHi u ≤ stackLo t
  task_stack : ∀ t u, stackHi t ≤ (task u).toNat ∨ (task u).toNat + 104 ≤ stackLo t

/-- What a task had when it called `task_switch`: its registers, with the address behind the call
and the stack pointer before it, and memory. -/
structure Context where
  regs : TaskRegs
  mem : Mem

/-- The processor, the task that runs on it, and the calls that the others are in. -/
structure SwitchState (ι : Type) where
  core : Core
  current : ι
  suspended : ι → Option Context

/-- The running task computes, or calls `task_switch`. -/
inductive SwitchOp (ι : Type)
  | compute (core : Core)
  | call (dst : ι) (ret : UInt64) (u₁ u₂ : Scratch)

section

variable {ι : Type} [DecidableEq ι] (L : SwitchLayout ι) (s : SwitchState ι)

/-- The `call` instruction, with the arguments in place. -/
def callTaskSwitch (src dst ret : UInt64) (c : Core) : Core :=
  ((c.set .rdi src).set .rsi dst).push ret

def SwitchState.context (ret : UInt64) : Context := ⟨{ s.core.regs with rip := ret }, s.core.mem⟩

/-- The calls that tasks are in after one more. -/
def SwitchState.suspendedBy (ret : UInt64) : ι → Option Context :=
  Function.update s.suspended s.current (some (s.context ret))

def switchStep (s : SwitchState ι) : SwitchOp ι → SwitchState ι
  | .compute core => { s with core := core }
  | .call dst ret u₁ u₂ =>
    { core := taskSwitch L.hhdmOff u₁ u₂
        (callTaskSwitch (L.task s.current) (L.task dst) ret s.core)
      current := dst
      suspended := Function.update (s.suspendedBy ret) dst none }

/-- The memory that belongs to a task in a call: its kernel stack and its saved registers. -/
def SwitchLayout.Owns (t : ι) (x : ℕ) : Prop :=
  (L.stackLo t ≤ x ∧ x < L.stackHi t) ∨
    ((L.task t).toNat + 40 ≤ x ∧ x < (L.task t).toNat + 104)

/-- A computation leaves alone what belongs to the tasks that are in a call; a call is made on the
task's own stack, with room for `task_switch` on it. -/
def Legal (s : SwitchState ι) : SwitchOp ι → Prop
  | .compute core => ∀ t, s.suspended t ≠ none → ∀ x, L.Owns t x → core.mem x = s.core.mem x
  | .call _ _ u₁ u₂ => ∀ u ∈ [u₁, u₂],
      L.stackLo s.current + 24 + u.depth ≤ (s.core.reg .rsp).toNat ∧
        (s.core.reg .rsp).toNat ≤ L.stackHi s.current

/-- The task continues behind its call, with the given stack pointer. -/
def Resumed (t : ι) (ctx : Context) (rsp : UInt64) (c : Core) : Prop :=
  c.regs = { ctx.regs with rsp := rsp } ∧
    ∀ x, ctx.regs.rsp.toNat ≤ x → x < L.stackHi t → c.mem x = ctx.mem x

/-- The task starts with the `rip` and the `rsp` of its descriptor. -/
def Started (t : ι) (mem : Mem) (c : Core) : Prop :=
  c.rip = loadAt mem ((L.task t).toNat + 88) ∧ c.reg .rsp = loadAt mem ((L.task t).toNat + 96)

/-- The task continues behind its call or starts, where it has not made any. The stack pointer is
what `rsp` makes of the one before the call. -/
def GoesOn (rsp : UInt64 → UInt64) (t : ι) (mem : Mem) (c : Core) : Option Context → Prop
  | some ctx => Resumed L t ctx (rsp ctx.regs.rsp) c
  | none => Started L t mem c

/-- A switch gives the task that it goes to its context. -/
def Preserves (rsp : UInt64 → UInt64) (s : SwitchState ι) : SwitchOp ι → Prop
  | .compute _ => True
  | .call dst ret u₁ u₂ => GoesOn L rsp dst s.core.mem
      (switchStep L s (.call dst ret u₁ u₂)).core (s.suspendedBy ret dst)

/-- The operation is a switch to a task that has called `task_switch` before. -/
def Resumes (s : SwitchState ι) : SwitchOp ι → Prop
  | .compute _ => False
  | .call dst _ _ _ => dst = s.current ∨ s.suspended dst ≠ none

variable {L s} {dst : ι} {ret : UInt64} {u₁ u₂ : Scratch}

/-- The processor after the first block of a call. -/
def afterSave (L : SwitchLayout ι) (s : SwitchState ι) (dst : ι) (ret : UInt64) : Core :=
  saveContext (callTaskSwitch (L.task s.current) (L.task dst) ret s.core)

/-- The processor before the last block of a call. -/
def beforeRestore (L : SwitchLayout ι) (s : SwitchState ι) (dst : ι) (ret : UInt64)
    (u₁ u₂ : Scratch) : Core :=
  switchRsp0 u₂ (switchCr3 L.hhdmOff u₁ (afterSave L s dst ret))

theorem regs_callTaskSwitch (src dst ret : UInt64) (c : Core) :
    (callTaskSwitch src dst ret c).regs = { c.regs with rsp := c.reg .rsp - 8 } := by
  simp [callTaskSwitch, Core.push, Core.regs]
  rfl

omit [DecidableEq ι] in
theorem reg_afterSave (L : SwitchLayout ι) (s : SwitchState ι) (dst : ι) (ret : UInt64) :
    (afterSave L s dst ret).reg .rdi = L.task s.current ∧
    (afterSave L s dst ret).reg .rsi = L.task dst ∧
      (afterSave L s dst ret).reg .rsp = s.core.reg .rsp - 8 := by
  simp [afterSave, reg_saveContext, callTaskSwitch, Core.push]

variable (h : Legal L s (.call dst ret u₁ u₂))

include h

omit [DecidableEq ι] in
theorem rsp_of_legal : (s.core.reg .rsp - 8).toNat = (s.core.reg .rsp).toNat - 8 ∧
    24 + L.stackLo s.current ≤ (s.core.reg .rsp).toNat ∧
      (s.core.reg .rsp).toNat ≤ L.stackHi s.current := by
  obtain ⟨hroom, htop⟩ := h u₁ (by simp)
  refine ⟨UInt64.toNat_sub_of_le _ _ (UInt64.le_iff_toNat_le.mpr ?_), by omega, htop⟩
  simp
  omega

omit [DecidableEq ι] in
theorem mem_afterSave {x : ℕ}
    (hstack : ¬(L.stackLo s.current ≤ x ∧ x < (s.core.reg .rsp).toNat))
    (htask : ¬((L.task s.current).toNat + 40 ≤ x ∧ x < (L.task s.current).toNat + 104)) :
    (afterSave L s dst ret).mem x = s.core.mem x := by
  obtain ⟨hrsp, hlow, hhigh⟩ := rsp_of_legal h
  have happart := L.task_stack s.current s.current
  have hcall : (callTaskSwitch (L.task s.current) (L.task dst) ret s.core).mem =
      storeAt s.core.mem ((s.core.reg .rsp).toNat - 8) ret := by
    simp [callTaskSwitch, Core.push, hrsp]
  have hrdi : (callTaskSwitch (L.task s.current) (L.task dst) ret s.core).reg .rdi =
      L.task s.current := by simp [callTaskSwitch, Core.push]
  have hrsp' : (callTaskSwitch (L.task s.current) (L.task dst) ret s.core).reg .rsp =
      s.core.reg .rsp - 8 := by simp [callTaskSwitch, Core.push]
  rw [afterSave, mem_saveContext_apply (by rw [hrdi]; exact L.task_le _)
    (by rw [hrdi, hrsp', hrsp]; omega) (by rw [hrdi]; omega), hcall, storeAt_apply (by omega)]

omit [DecidableEq ι] in
/-- After the first block of a call the context of the caller is saved, with the stack pointer at
the return address. -/
theorem savedRegs_afterSave : savedRegs (afterSave L s dst ret).mem (L.task s.current).toNat =
    { (s.context ret).regs with rsp := s.core.reg .rsp - 8 } := by
  obtain ⟨hrsp, hlow, hhigh⟩ := rsp_of_legal h
  have happart := L.task_stack s.current s.current
  have hrdi : (callTaskSwitch (L.task s.current) (L.task dst) ret s.core).reg .rdi =
      L.task s.current := by simp [callTaskSwitch, Core.push]
  have hrsp' : (callTaskSwitch (L.task s.current) (L.task dst) ret s.core).reg .rsp =
      s.core.reg .rsp - 8 := by simp [callTaskSwitch, Core.push]
  have hret : loadAt (callTaskSwitch (L.task s.current) (L.task dst) ret s.core).mem
      (s.core.reg .rsp - 8).toNat = ret := by simp [callTaskSwitch, Core.push]
  have hsaved := savedRegs_saveContext (c := callTaskSwitch (L.task s.current) (L.task dst) ret
    s.core) (by rw [hrdi]; exact L.task_le _) (by rw [hrdi, hrsp', hrsp]; omega)
  rw [hrdi, hrsp', hret, regs_callTaskSwitch] at hsaved
  exact hsaved

omit [DecidableEq ι] in
theorem keeps_beforeRestore : (beforeRestore L s dst ret u₁ u₂).reg .rsi = L.task dst ∧
    ∀ x, ¬(L.stackLo s.current ≤ x ∧ x < (s.core.reg .rsp).toNat) →
      (beforeRestore L s dst ret u₁ u₂).mem x = (afterSave L s dst ret).mem x := by
  obtain ⟨hrsp, hlow, -⟩ := rsp_of_legal h
  obtain ⟨hroom₁, -⟩ := h u₁ (by simp)
  obtain ⟨hroom₂, -⟩ := h u₂ (by simp)
  obtain ⟨-, hrsi, hrsp'⟩ := reg_afterSave L s dst ret
  have h₁ : Keeps u₁.depth (afterSave L s dst ret)
      (switchCr3 L.hhdmOff u₁ (afterSave L s dst ret)) :=
    keeps_switchCr3 (by rw [hrsp', hrsp]; omega)
  have h₂ : Keeps u₂.depth (switchCr3 L.hhdmOff u₁ (afterSave L s dst ret))
      (beforeRestore L s dst ret u₁ u₂) :=
    keeps_switchRsp0 (by rw [h₁.rsp, hrsp', hrsp]; omega)
  refine ⟨h₂.rsi.trans (h₁.rsi.trans hrsi), fun x hx => ?_⟩
  rw [h₂.mem x (by rw [h₁.rsp, hrsp', hrsp]; omega), h₁.mem x (by rw [hrsp', hrsp]; omega)]

omit [DecidableEq ι] in
/-- Up to its last block a call changes the stack below the stack pointer, and the saved registers
of the caller. -/
theorem mem_beforeRestore {x : ℕ}
    (hstack : ¬(L.stackLo s.current ≤ x ∧ x < (s.core.reg .rsp).toNat))
    (htask : ¬((L.task s.current).toNat + 40 ≤ x ∧ x < (L.task s.current).toNat + 104)) :
    (beforeRestore L s dst ret u₁ u₂).mem x = s.core.mem x := by
  rw [(keeps_beforeRestore h).2 x hstack, mem_afterSave h hstack htask]

omit h in
theorem core_switchStep : (switchStep L s (.call dst ret u₁ u₂)).core =
    restoreContext (beforeRestore L s dst ret u₁ u₂) := by
  rw [switchStep, taskSwitch, beforeRestore, afterSave]

/-- The call as a whole: the registers are those that the descriptor of `dst` holds before the last
block. -/
theorem call_spec : (switchStep L s (.call dst ret u₁ u₂)).core.regs =
      savedRegs (beforeRestore L s dst ret u₁ u₂).mem (L.task dst).toNat ∧
    (switchStep L s (.call dst ret u₁ u₂)).core.mem = (beforeRestore L s dst ret u₁ u₂).mem := by
  have hrsi := (keeps_beforeRestore h).1
  have hle : ((beforeRestore L s dst ret u₁ u₂).reg .rsi).toNat + 104 ≤ 2 ^ 64 := by
    rw [hrsi]
    exact L.task_le dst
  obtain ⟨hregs, hmem, -, -⟩ := restoreContext_spec hle
  rw [hrsi] at hregs
  rw [core_switchStep, hregs, hmem]
  exact ⟨rfl, rfl⟩

omit [DecidableEq ι] in
theorem mem_of_owns {t : ι} (ht : t ≠ s.current) {x : ℕ} (hx : L.Owns t x) :
    (beforeRestore L s dst ret u₁ u₂).mem x = s.core.mem x := by
  obtain ⟨-, -, hhigh⟩ := rsp_of_legal h
  have hstacks := L.stacks_apart t s.current ht
  have htasks := L.tasks_apart t s.current ht
  have hcross := L.task_stack t s.current
  have hcross' := L.task_stack s.current t
  unfold SwitchLayout.Owns at hx
  exact mem_beforeRestore h (by omega) (by omega)

omit h

/-! ### Runs -/

/-- The calls that tasks are in: their contexts are saved, and their stacks are as they were. -/
structure SwitchInv (L : SwitchLayout ι) (mem : Mem) (suspended : ι → Option Context) : Prop where
  saved : ∀ t ctx, suspended t = some ctx →
    savedRegs mem (L.task t).toNat = { ctx.regs with rsp := ctx.regs.rsp - 8 }
  low : ∀ t ctx, suspended t = some ctx → L.stackLo t ≤ ctx.regs.rsp.toNat
  stack : ∀ t ctx, suspended t = some ctx →
    ∀ x, ctx.regs.rsp.toNat ≤ x → x < L.stackHi t → mem x = ctx.mem x

omit [DecidableEq ι] in
/-- Memory may change but for what belongs to the tasks in a call. -/
theorem SwitchInv.of_mem {mem mem' : Mem} {suspended suspended' : ι → Option Context}
    (hi : SwitchInv L mem suspended)
    (hsub : ∀ t ctx, suspended' t = some ctx → suspended t = some ctx)
    (hmem : ∀ t, suspended' t ≠ none → ∀ x, L.Owns t x → mem' x = mem x) :
    SwitchInv L mem' suspended' where
  saved t ctx ht := by
    have hsome : suspended' t ≠ none := by simp [ht]
    rw [savedRegs_congr fun x hlow hhigh => hmem t hsome x (.inr ⟨hlow, hhigh⟩)]
    exact hi.saved t ctx (hsub t ctx ht)
  low t ctx ht := hi.low t ctx (hsub t ctx ht)
  stack t ctx ht x hlow hhigh := by
    have hsome : suspended' t ≠ none := by simp [ht]
    have hstart := hi.low t ctx (hsub t ctx ht)
    rw [hmem t hsome x (.inl ⟨hstart.trans hlow, hhigh⟩)]
    exact hi.stack t ctx (hsub t ctx ht) x hlow hhigh

theorem SwitchInv.before (hi : SwitchInv L s.core.mem s.suspended)
    (h : Legal L s (.call dst ret u₁ u₂)) :
    SwitchInv L (beforeRestore L s dst ret u₁ u₂).mem (s.suspendedBy ret) := by
  obtain ⟨hrsp, hlow, hhigh⟩ := rsp_of_legal h
  have happart := L.task_stack s.current s.current
  have hself : ∀ t ctx, t = s.current → s.suspendedBy ret t = some ctx → ctx = s.context ret := by
    rintro t ctx rfl ht
    rw [SwitchState.suspendedBy, Function.update_self] at ht
    exact (Option.some.inj ht).symm
  have hother : ∀ t, t ≠ s.current → s.suspendedBy ret t = s.suspended t :=
    fun t ht => Function.update_of_ne ht _ _
  constructor
  · intro t ctx ht
    by_cases htc : t = s.current
    · obtain rfl := hself t ctx htc ht
      subst htc
      rw [savedRegs_congr fun x hx hx' => (keeps_beforeRestore h).2 x (by omega),
        savedRegs_afterSave h]
      rfl
    · rw [savedRegs_congr fun x hx hx' => mem_of_owns h htc (.inr ⟨hx, hx'⟩)]
      exact hi.saved t ctx (hother t htc ▸ ht)
  · intro t ctx ht
    by_cases htc : t = s.current
    · obtain rfl := hself t ctx htc ht
      subst htc
      exact (Nat.le_add_left _ _).trans hlow
    · exact hi.low t ctx (hother t htc ▸ ht)
  · intro t ctx ht x hx hx'
    by_cases htc : t = s.current
    · obtain rfl := hself t ctx htc ht
      subst htc
      have hge : (s.core.reg .rsp).toNat ≤ x := hx
      exact mem_beforeRestore h (by omega) (by omega)
    · have ht' := hother t htc ▸ ht
      rw [mem_of_owns h htc (.inl ⟨(hi.low t ctx ht').trans hx, hx'⟩)]
      exact hi.stack t ctx ht' x hx hx'

theorem SwitchInv.step (hi : SwitchInv L s.core.mem s.suspended) {op : SwitchOp ι}
    (h : Legal L s op) :
    SwitchInv L (switchStep L s op).core.mem (switchStep L s op).suspended := by
  cases op with
  | compute core => exact hi.of_mem (fun _ _ ht => ht) h
  | call dst ret u₁ u₂ =>
    have hbefore := hi.before h
    rw [(call_spec h).2]
    refine hbefore.of_mem (fun t ctx ht => ?_) fun _ _ _ _ => rfl
    have hdst : t ≠ dst := by
      rintro rfl
      simp [switchStep] at ht
    change Function.update (s.suspendedBy ret) dst none t = some ctx at ht
    rwa [Function.update_of_ne hdst] at ht

theorem sub_8_ne (x : UInt64) : x ≠ x - 8 := by
  intro h
  have hx := x.toNat_lt
  have hnat := congrArg UInt64.toNat h
  have h8 : (8 : UInt64).toNat = 8 := rfl
  rw [UInt64.toNat_sub, h8] at hnat
  omega

omit [DecidableEq ι] in
theorem started_of_regs {t : ι} {mem : Mem} {c : Core}
    (h : c.regs = savedRegs mem (L.task t).toNat) : Started L t mem c :=
  ⟨congrArg TaskRegs.rip h, congrArg TaskRegs.rsp h⟩

theorem preserves_call {rsp : UInt64 → UInt64} : Preserves L rsp s (.call dst ret u₁ u₂) ↔
    GoesOn L rsp dst s.core.mem (switchStep L s (.call dst ret u₁ u₂)).core
      (s.suspendedBy ret dst) := Iff.rfl

/-- In a switch everything is as it should be but the stack pointer, which is where the return
address is. -/
theorem SwitchInv.preserves (hi : SwitchInv L s.core.mem s.suspended) {op : SwitchOp ι}
    (h : Legal L s op) : Preserves L (fun rsp => rsp - 8) s op := by
  cases op with
  | compute core => trivial
  | call dst ret u₁ u₂ =>
    have hbefore := hi.before h
    obtain ⟨hregs, hmem⟩ := call_spec h
    rw [preserves_call]
    cases hdst : s.suspendedBy ret dst with
    | some ctx =>
      constructor
      · rw [hregs, hbefore.saved dst ctx hdst]
      · intro x hx hx'
        rw [hmem, hbefore.stack dst ctx hdst x hx hx']
    | none =>
      have hne : dst ≠ s.current := by
        rintro rfl
        simp [SwitchState.suspendedBy] at hdst
      have hload : savedRegs (beforeRestore L s dst ret u₁ u₂).mem (L.task dst).toNat =
          savedRegs s.core.mem (L.task dst).toNat :=
        savedRegs_congr fun x hx hx' => mem_of_owns h hne (.inr ⟨hx, hx'⟩)
      exact started_of_regs (hregs.trans hload)

theorem SwitchInv.preserves_iff (hi : SwitchInv L s.core.mem s.suspended) {op : SwitchOp ι}
    (h : Legal L s op) : Preserves L id s op ↔ ¬ Resumes s op := by
  have hshift := hi.preserves h
  cases op with
  | compute core => exact iff_of_true trivial id
  | call dst ret u₁ u₂ =>
    have hresumes : Resumes s (.call dst ret u₁ u₂) ↔ s.suspendedBy ret dst ≠ none := by
      unfold Resumes SwitchState.suspendedBy
      by_cases hdst : dst = s.current
      · simp [hdst]
      · simp [hdst]
    rw [preserves_call] at hshift
    rw [hresumes, not_not, preserves_call]
    cases hdst : s.suspendedBy ret dst with
    | none =>
      rw [hdst] at hshift
      exact iff_of_true hshift rfl
    | some ctx =>
      rw [hdst] at hshift
      refine iff_of_false ?_ (by simp)
      rintro ⟨hregs, -⟩
      have hrsp := congrArg TaskRegs.rsp (hregs.symm.trans hshift.1)
      exact sub_8_ne ctx.regs.rsp hrsp

/-- The processor when the first task runs. -/
def SwitchState.start (core : Core) (t : ι) : SwitchState ι := ⟨core, t, fun _ => none⟩

omit [DecidableEq ι] in
theorem switchInv_start (core : Core) (t : ι) :
    SwitchInv L (SwitchState.start core t).core.mem (SwitchState.start core t).suspended where
  saved _ _ ht := by cases ht
  low _ _ ht := by cases ht
  stack _ _ ht := by cases ht

/-- In every run each task that is switched back to finds its registers, its stack and the address
behind its call, with the stack pointer eight bytes too low; the context is preserved throughout
exactly when no task is switched back to. -/
theorem switches_preserve_iff (L : SwitchLayout ι) (core : Core) (t : ι) (ops : List (SwitchOp ι))
    (h : AllSteps (switchStep L) (Legal L) (SwitchState.start core t) ops) :
    AllSteps (switchStep L) (Preserves L fun rsp => rsp - 8) (SwitchState.start core t) ops ∧
      (AllSteps (switchStep L) (Preserves L id) (SwitchState.start core t) ops ↔
        AllSteps (switchStep L) (fun s op => ¬ Resumes s op) (SwitchState.start core t) ops) := by
  constructor
  · exact allSteps_of_allSteps (switchStep L) (I := fun s => SwitchInv L s.core.mem s.suspended)
      (fun _ _ hi hl => hi.preserves hl) (fun _ _ hi hl => hi.step hl) (switchInv_start core t) h
  · exact allSteps_congr_of_allSteps (switchStep L)
      (I := fun s => SwitchInv L s.core.mem s.suspended) (fun _ _ hi hl => hi.preserves_iff hl)
      (fun _ _ hi hl _ => hi.step hl) (switchInv_start core t) h

/-- Two tasks with a stack of 16 KiB each. -/
def twoTasks : SwitchLayout (Fin 2) where
  task t := if t = 0 then 0x1000 else 0x1100
  stackLo t := if t = 0 then 0x10000 else 0x20000
  stackHi t := if t = 0 then 0x14000 else 0x24000
  hhdmOff := 0xffff800000000000
  task_le := by decide
  tasks_apart := by decide
  stacks_apart := by decide
  task_stack := by decide

/-- The first task runs on its stack, and the second one's descriptor has the top of its own. -/
def twoTasksCore : Core where
  reg r := if r = .rsp then 0x13f00 else 0
  rip := 0
  cr3 := 0
  rsp0 := 0
  mem := storeAt (storeAt (fun _ => 0) 0x1158 0x5000) 0x1160 0x24000

/-- A switch where the C functions only push their return address. -/
def plainCall (dst : Fin 2) : SwitchOp (Fin 2) :=
  .call dst 0x7000 ⟨8, fun _ => 0, 0, 0, 0⟩ ⟨8, fun _ => 0, 0, 0, 0⟩

theorem legal_twoTasks : AllSteps (switchStep twoTasks) (Legal twoTasks)
    (SwitchState.start twoTasksCore 0) [plainCall 1, plainCall 0] := by
  have hplain : ∀ s dst, twoTasks.stackLo s.current + 32 ≤ (s.core.reg .rsp).toNat →
      (s.core.reg .rsp).toNat ≤ twoTasks.stackHi s.current →
      Legal twoTasks s (plainCall dst) := by
    intro s dst hlow hhigh u hu
    obtain rfl : u = ⟨8, fun _ => 0, 0, 0, 0⟩ := by simpa using hu
    exact ⟨by omega, hhigh⟩
  refine ⟨hplain _ 1 ?_ ?_, hplain _ 0 ?_ ?_, trivial⟩ <;> decide +kernel

theorem switches_preserve_iff_start : AllSteps (switchStep twoTasks) (Preserves twoTasks id)
    (SwitchState.start twoTasksCore 0) [plainCall 1] := by
  have hlegal : AllSteps (switchStep twoTasks) (Legal twoTasks) (SwitchState.start twoTasksCore 0)
      [plainCall 1] := ⟨legal_twoTasks.1, trivial⟩
  apply (switches_preserve_iff twoTasks twoTasksCore 0 _ hlegal).2.mpr
  refine ⟨?_, trivial⟩
  rintro (hself | hbefore)
  · cases hself
  · exact hbefore rfl

/-- The second task switches back to the first, which does not get its stack pointer back. -/
theorem switches_not_preserved : AllSteps (switchStep twoTasks) (Legal twoTasks)
      (SwitchState.start twoTasksCore 0) [plainCall 1, plainCall 0] ∧
    ¬ AllSteps (switchStep twoTasks) (Preserves twoTasks id) (SwitchState.start twoTasksCore 0)
      [plainCall 1, plainCall 0] := by
  refine ⟨legal_twoTasks, ?_⟩
  rintro ⟨-, hback, -⟩
  have hi := (switchInv_start twoTasksCore 0).step legal_twoTasks.1
  have hcalled : Resumes (switchStep twoTasks (SwitchState.start twoTasksCore 0) (plainCall 1))
      (plainCall 0) := by
    right
    simp [switchStep, plainCall, SwitchState.start, SwitchState.suspendedBy]
  exact (hi.preserves_iff legal_twoTasks.2.1).mp hback hcalled

/-! ### The switch of records -/

def Describes (L : SwitchLayout TaskPtr) (mem : Mem) (tbl : TaskTable) : Prop :=
  ∀ t, loadAt mem ((L.task t).toNat + 16) = (tbl t).pml4 ∧
    loadAt mem ((L.task t).toNat + 32) = (tbl t).kstackTop ∧
      savedRegs mem (L.task t).toNat = (tbl t).regs

omit [DecidableEq ι] in
/-- The fields before the saved registers stay. -/
theorem loadAt_beforeRestore (h : Legal L s (.call dst ret u₁ u₂)) (t : ι) {k : ℕ} (hk : k ≤ 32) :
    loadAt (beforeRestore L s dst ret u₁ u₂).mem ((L.task t).toNat + k) =
        loadAt s.core.mem ((L.task t).toNat + k) ∧
      loadAt (afterSave L s dst ret).mem ((L.task t).toNat + k) =
        loadAt s.core.mem ((L.task t).toNat + k) := by
  obtain ⟨-, -, hhigh⟩ := rsp_of_legal h
  have hstack := L.task_stack s.current t
  have htask : t = s.current ∨ _ := (em _).imp_right (L.tasks_apart t s.current)
  have happart : (L.task t).toNat = (L.task s.current).toNat ∨
      (L.task t).toNat + 104 ≤ (L.task s.current).toNat ∨
        (L.task s.current).toNat + 104 ≤ (L.task t).toNat :=
    htask.imp_left fun ht => by rw [ht]
  constructor
  · exact loadAt_congr fun x hx hx' => mem_beforeRestore h (by omega) (by omega)
  · exact loadAt_congr fun x hx hx' => mem_afterSave h (by omega) (by omega)

omit [DecidableEq ι] in
/-- The page tables and the kernel stack before the last block are those of `dst`. -/
theorem space_beforeRestore (h : Legal L s (.call dst ret u₁ u₂)) :
    (beforeRestore L s dst ret u₁ u₂).cr3 =
        (if loadAt s.core.mem ((L.task dst).toNat + 16) = 0 then s.core.cr3
          else loadAt s.core.mem ((L.task dst).toNat + 16) - L.hhdmOff) ∧
      (beforeRestore L s dst ret u₁ u₂).rsp0 = loadAt s.core.mem ((L.task dst).toNat + 32) := by
  obtain ⟨hrsp, hlow, hhigh⟩ := rsp_of_legal h
  obtain ⟨-, hrsi, hrsp'⟩ := reg_afterSave L s dst ret
  have hcall : (callTaskSwitch (L.task s.current) (L.task dst) ret s.core).cr3 = s.core.cr3 := rfl
  have h16 := toNat_add_of_le (L.task_le dst) (k := 16) (by decide)
  have hkeeps : Keeps u₁.depth (afterSave L s dst ret)
      (switchCr3 L.hhdmOff u₁ (afterSave L s dst ret)) :=
    keeps_switchCr3 (by rw [hrsp', hrsp]; omega)
  have hstack := L.task_stack s.current dst
  obtain ⟨hroom, -⟩ := h u₁ (by simp)
  have hload := (loadAt_beforeRestore h dst (k := 16) (by decide)).2
  have hload' := (loadAt_beforeRestore h dst (k := 32) (by decide)).2
  constructor
  · rw [beforeRestore, cr3_switchRsp0, cr3_switchCr3, hrsi, afterSave, cr3_saveContext, hcall,
      ← hload, ← h16]
    rfl
  · rw [beforeRestore, rsp0_switchRsp0 (by rw [hkeeps.rsp, hrsp', hrsp]; omega)
      (by rw [hkeeps.rsi, hrsi]; exact L.task_le dst)
      (by rw [hkeeps.rsi, hrsi, hkeeps.rsp, hrsp', hrsp]; omega), hkeeps.rsi, hrsi, ← hload']
    exact loadAt_congr fun x hx hx' => hkeeps.mem x (by rw [hrsp', hrsp]; omega)

/-- The instructions do to memory and to the processor what the scheduler's switch does to its
records. -/
theorem taskSwitch_refines {L : SwitchLayout TaskPtr} {s : SwitchState TaskPtr} {dst : TaskPtr}
    {K : KernelLayout} {sched sched' : Sched} (h : Legal L s (.call dst ret u₁ u₂))
    (hhhdm : K.hhdmOff = L.hhdmOff) (htbl : Describes L s.core.mem sched.taskTable)
    (hcr3 : s.core.cr3 = sched.cr3)
    (hsched : sched' = loadSpace K (sched.saveRegs s.current
      { s.core.regs with rip := ret, rsp := s.core.reg .rsp - 8 }) dst) :
    Describes L (switchStep L s (.call dst ret u₁ u₂)).core.mem sched'.taskTable ∧
      (switchStep L s (.call dst ret u₁ u₂)).core.cr3 = sched'.cr3 ∧
      (switchStep L s (.call dst ret u₁ u₂)).core.rsp0 = sched'.rsp0 ∧
      (switchStep L s (.call dst ret u₁ u₂)).core.regs = (sched'.taskTable dst).regs := by
  obtain ⟨hregs, hmem⟩ := call_spec h
  obtain ⟨hspace, htop⟩ := space_beforeRestore h
  have hrecord : ∀ t, sched'.taskTable t = if t = s.current then
      { sched.taskTable t with regs :=
        { s.core.regs with rip := ret, rsp := s.core.reg .rsp - 8 } }
      else sched.taskTable t := by
    intro t
    rw [hsched]
    by_cases ht : t = s.current
    · subst ht
      simp [loadSpace, Sched.saveRegs, Sched.modify]
    · simp [loadSpace, Sched.saveRegs, Sched.modify, ht]
  have hdescribes : Describes L (beforeRestore L s dst ret u₁ u₂).mem sched'.taskTable := by
    intro t
    obtain ⟨hpml4, htop, hsaved⟩ := htbl t
    rw [(loadAt_beforeRestore h t (by decide)).1, (loadAt_beforeRestore h t (by decide)).1, hrecord]
    by_cases ht : t = s.current
    · subst ht
      obtain ⟨hrsp, hlow, hhigh⟩ := rsp_of_legal h
      have happart := L.task_stack s.current s.current
      rw [if_pos rfl, savedRegs_congr fun x hx hx' => (keeps_beforeRestore h).2 x (by omega),
        savedRegs_afterSave h]
      exact ⟨hpml4, htop, rfl⟩
    · rw [if_neg ht, savedRegs_congr fun x hx hx' => mem_of_owns h ht (.inr ⟨hx, hx'⟩)]
      exact ⟨hpml4, htop, hsaved⟩
  have hfields : sched'.cr3 = (if (sched.taskTable dst).pml4 = 0 then sched.cr3
      else (sched.taskTable dst).pml4 - K.hhdmOff) ∧
      sched'.rsp0 = (sched.taskTable dst).kstackTop := by
    rw [hsched]
    by_cases hdst : dst = s.current
    · subst hdst
      simp [loadSpace, spaceOf, Sched.saveRegs, Sched.modify]
    · simp [loadSpace, spaceOf, Sched.saveRegs, Sched.modify, hdst]
  obtain ⟨hpml4, hktop, -⟩ := htbl dst
  rw [hmem, hregs, core_switchStep, cr3_restoreContext, rsp0_restoreContext, hspace, htop,
    hfields.1, hfields.2, hpml4, hktop, hcr3, hhhdm]
  exact ⟨hdescribes, rfl, rfl, (hdescribes dst).2.2⟩

end

end StyxOS.Switch
