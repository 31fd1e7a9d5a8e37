import StyxOS.Library.ByteMem

/-! # A 64-bit processor with rings

Registers and a stack of words in byte-addressed memory, a few instructions on them,
and the ways between rings: interrupts through gates, system calls, and the two
returns. The tables of gates and of segments are bytes in memory.
-/

namespace X86

open ByteMem

/-! ## Words -/

/-- The word at an address. -/
def word (m : Mem) (a : ℕ) : UInt64 := UInt64.ofNat (loadLE m a 8)

def setWord (m : Mem) (a : ℕ) (w : UInt64) : Mem := storeLE m a 8 w.toNat

def words (m : Mem) (a : ℕ) : ℕ → List UInt64
  | 0 => []
  | n + 1 => word m a :: words m (a + 8) n

def wordBytes (ws : List UInt64) : List UInt8 := ws.flatMap fun w => leBytes 8 w.toNat

variable {m m' : Mem} {a b n : ℕ} {w : UInt64} {ws : List UInt64}

theorem wordBytes_cons : wordBytes (w :: ws) = leBytes 8 w.toNat ++ wordBytes ws := rfl

@[simp] theorem length_wordBytes (ws : List UInt64) : (wordBytes ws).length = 8 * ws.length := by
  induction ws with
  | nil => rfl
  | cons w ws ih =>
    rw [wordBytes_cons, List.length_append, ih, length_leBytes, List.length_cons]
    omega

theorem word_congr (h : ∀ x, a ≤ x → x < a + 8 → m' x = m x) : word m' a = word m a := by
  rw [word, loadLE_congr fun i hi => h (a + i) (by omega) (by omega), word]

@[simp] theorem word_setWord_same : word (setWord m a w) a = w := by
  have hw : w.toNat < 256 ^ 8 := w.toNat_lt
  rw [word, setWord, loadLE_storeLE_same hw, UInt64.ofNat_toNat]

theorem setWord_apply {x : ℕ} (h : x < a ∨ a + 8 ≤ x) : setWord m a w x = m x := by
  rcases h with h | h
  · exact store_apply_of_lt h
  · exact store_apply_of_ge (by rwa [length_leBytes])

theorem word_setWord_apart (h : b + 8 ≤ a ∨ a + 8 ≤ b) : word (setWord m a w) b = word m b :=
  word_congr fun x hlow hhigh => setWord_apply (by omega)

theorem words_congr (h : ∀ x, a ≤ x → x < a + 8 * n → m' x = m x) : words m' a n = words m a n := by
  induction n generalizing a with
  | zero => rfl
  | succ n ih =>
    rw [words, words, word_congr fun x hlow hhigh => h x hlow (by omega),
      ih fun x hlow hhigh => h x (by omega) (by omega)]

theorem words_store : words (store m a (wordBytes ws)) a ws.length = ws := by
  induction ws generalizing m a with
  | nil => rfl
  | cons w ws ih =>
    have hhead : word (store (store m a (leBytes 8 w.toNat)) (a + 8) (wordBytes ws)) a = w := by
      rw [word_congr fun x _ hx => store_apply_of_lt hx]
      exact word_setWord_same
    rw [wordBytes_cons, store_append, length_leBytes, List.length_cons, words, hhead, ih]

theorem store_below {bs cs : List UInt8} (h : a + bs.length = b) :
    store (store m b cs) a bs = store m a (bs ++ cs) := by
  subst h
  rw [store_append]
  funext x
  rcases Nat.lt_or_ge x a with hx | hx
  · rw [store_apply_of_lt hx, store_apply_of_lt (by omega), store_apply_of_lt (by omega),
      store_apply_of_lt hx]
  obtain ⟨i, rfl⟩ := Nat.exists_eq_add_of_le hx
  rcases Nat.lt_or_ge i bs.length with hi | hi
  · rw [store_apply hi, store_apply_of_lt (by omega), store_apply hi]
  · rw [store_apply_of_ge (by omega)]
    obtain ⟨j, rfl⟩ := Nat.exists_eq_add_of_le hi
    rw [← Nat.add_assoc]
    rcases Nat.lt_or_ge j cs.length with hj | hj
    · rw [store_apply hj, store_apply hj]
    · rw [store_apply_of_ge (by omega), store_apply_of_ge (by omega), store_apply_of_ge (by omega)]

/-! ## Registers and instructions -/

inductive Gpr
  | rax | rbx | rcx | rdx | rsi | rdi | rbp | rsp | r8 | r9 | r10 | r11 | r12 | r13 | r14 | r15
  deriving DecidableEq, Repr

/-- The part of the processor that programs see, and the memory. -/
structure Core where
  reg : Gpr → UInt64
  rip : UInt64
  rflags : UInt64
  cs : UInt16
  ss : UInt16
  mem : Mem

namespace Core

def set (c : Core) (r : Gpr) (v : UInt64) : Core := { c with reg := Function.update c.reg r v }

def push (c : Core) (v : UInt64) : Core :=
  { c.set .rsp (c.reg .rsp - 8) with mem := setWord c.mem (c.reg .rsp - 8).toNat v }

def pushAll (c : Core) (vs : List UInt64) : Core := vs.foldl push c

/-- The word on top of the stack, and the stack without it. -/
def top (c : Core) : UInt64 := word c.mem (c.reg .rsp).toNat

def drop (c : Core) (n : UInt64) : Core := c.set .rsp (c.reg .rsp + n)

/-- The instruction `ret`. -/
def ret (c : Core) : Core := { c.drop 8 with rip := c.top }

def goto (c : Core) (rip rflags : UInt64) (cs ss : UInt16) : Core := { c with rip, rflags, cs, ss }

/-- The current privilege level. -/
def cpl (c : Core) : ℕ := c.cs.toNat % 4

end Core

/-- Straight-line instructions; `zero` is the exclusive or of a register with itself. What it and
`add` do to the flags is left out. -/
inductive Instr
  | push (r : Gpr)
  | pushImm (v : UInt64)
  | pushMem (a : UInt64)
  | pop (r : Gpr)
  | popMem (a : UInt64)
  | mov (dst src : Gpr)
  | movImm (dst : Gpr) (v : UInt64)
  | zero (dst : Gpr)
  | load (dst base : Gpr) (offset : UInt64)
  | loadAbs (dst : Gpr) (a : UInt64)
  | storeAbs (a : UInt64) (src : Gpr)
  | add (dst : Gpr) (v : UInt64)
  | cld
  deriving DecidableEq, Repr

/-- The flags for nested tasks, for the direction of string instructions, for interrupts and for
single steps. -/
def flagNt : UInt64 := 0x4000
def flagDf : UInt64 := 0x400
def flagIf : UInt64 := 0x200
def flagTf : UInt64 := 0x100

def exec (c : Core) : Instr → Core
  | .push r => c.push (c.reg r)
  | .pushImm v => c.push v
  | .pushMem a => c.push (word c.mem a.toNat)
  | .pop r => (c.drop 8).set r c.top
  | .popMem a => { c.drop 8 with mem := setWord c.mem a.toNat c.top }
  | .mov dst src => c.set dst (c.reg src)
  | .movImm dst v => c.set dst v
  | .zero dst => c.set dst 0
  | .load dst base offset => c.set dst (word c.mem (c.reg base + offset).toNat)
  | .loadAbs dst a => c.set dst (word c.mem a.toNat)
  | .storeAbs a src => { c with mem := setWord c.mem a.toNat (c.reg src) }
  | .add dst v => c.set dst (c.reg dst + v)
  | .cld => { c with rflags := c.rflags &&& ~~~flagDf }

def execAll (c : Core) (is : List Instr) : Core := is.foldl exec c

/-- Instructions up to their end. With the trap flag set there is a debug exception behind the first
one. -/
def untraced (c : Core) (is : List Instr) : Option Core :=
  if c.rflags &&& flagTf = 0 then some (execAll c is) else none

theorem execAll_append (c : Core) (is js : List Instr) :
    execAll c (is ++ js) = execAll (execAll c is) js := List.foldl_append

theorem execAll_cons (c : Core) (i : Instr) (is : List Instr) :
    execAll c (i :: is) = execAll (exec c i) is := rfl

theorem execAll_nil (c : Core) : execAll c [] = c := rfl

/-! ### Saving registers on the stack -/

variable {c d : Core} {r : Gpr} {rs : List Gpr} {v : UInt64} {vs : List UInt64}

@[simp] theorem Core.reg_set_self : (c.set r v).reg r = v := Function.update_self ..

theorem Core.reg_set_of_ne {r' : Gpr} (h : r' ≠ r) : (c.set r v).reg r' = c.reg r' :=
  Function.update_of_ne h ..

@[simp] theorem Core.mem_set : (c.set r v).mem = c.mem := rfl

theorem Core.set_self (c : Core) (r : Gpr) : c.set r (c.reg r) = c := by
  rw [Core.set, Function.update_eq_self]

theorem Core.set_set (c : Core) (r : Gpr) (v w : UInt64) : (c.set r v).set r w = c.set r w := by
  rw [Core.set, Core.set, Core.set, Function.update_idem]

theorem Core.set_comm {r' : Gpr} (h : r ≠ r') (v w : UInt64) :
    (c.set r v).set r' w = (c.set r' w).set r v := by
  rw [Core.set, Core.set, Core.set, Core.set]
  dsimp only
  rw [Function.update_comm h]

theorem Core.reg_ret (c : Core) : c.ret.reg = (c.set .rsp (c.reg .rsp + 8)).reg := rfl

theorem Core.rsp_ret (c : Core) : c.ret.reg .rsp = c.reg .rsp + 8 := by
  rw [Core.reg_ret, Core.reg_set_self]

theorem Core.reg_ret_of_ne (h : r ≠ .rsp) : c.ret.reg r = c.reg r := by
  rw [Core.reg_ret, Core.reg_set_of_ne h]

theorem exec_pop (h : r ≠ .rsp) :
    exec c (.pop r) = (c.set r c.top).set .rsp (c.reg .rsp + 8) := by
  rw [exec, Core.drop, Core.set_comm (Ne.symm h)]

theorem toNat_sub_of_le {x y : UInt64} (h : y.toNat ≤ x.toNat) :
    (x - y).toNat = x.toNat - y.toNat :=
  UInt64.toNat_sub_of_le _ _ (UInt64.le_iff_toNat_le.mpr h)

theorem Core.pushAll_eq (hroom : 8 * vs.length ≤ (c.reg .rsp).toNat) :
    c.pushAll vs =
      { c.set .rsp (c.reg .rsp - UInt64.ofNat (8 * vs.length)) with
        mem := store c.mem ((c.reg .rsp).toNat - 8 * vs.length) (wordBytes vs.reverse) } := by
  induction vs using List.reverseRecOn with
  | nil =>
    rw [pushAll, List.foldl_nil, List.reverse_nil]
    have hzero : c.reg .rsp - UInt64.ofNat (8 * ([] : List UInt64).length) = c.reg .rsp :=
      UInt64.sub_zero _
    rw [hzero, Core.set_self]
    exact congrArg (fun m => { c with mem := m }) store_nil.symm
  | append_singleton vs v ih =>
    rw [List.length_append, List.length_singleton] at hroom
    have hnext : c.reg .rsp - UInt64.ofNat (8 * vs.length) - 8 =
        c.reg .rsp - UInt64.ofNat (8 * (vs.length + 1)) := by
      rw [sub_sub, Nat.mul_succ, UInt64.ofNat_add]
      rfl
    have hlen' : (UInt64.ofNat (8 * (vs.length + 1))).toNat = 8 * (vs.length + 1) :=
      UInt64.toNat_ofNat_of_lt' (lt_of_le_of_lt (by omega) (c.reg .rsp).toNat_lt)
    have haddr : (c.reg .rsp - UInt64.ofNat (8 * (vs.length + 1))).toNat =
        (c.reg .rsp).toNat - 8 * (vs.length + 1) := by
      rw [toNat_sub_of_le (by omega), hlen']
    have hblock : store (store c.mem ((c.reg .rsp).toNat - 8 * vs.length) (wordBytes vs.reverse))
        ((c.reg .rsp).toNat - 8 * (vs.length + 1)) (leBytes 8 v.toNat) =
        store c.mem ((c.reg .rsp).toNat - 8 * (vs.length + 1))
          (leBytes 8 v.toNat ++ wordBytes vs.reverse) :=
      store_below (by rw [length_leBytes]; omega)
    have hstep : c.pushAll (vs ++ [v]) = (c.pushAll vs).push v := List.foldl_append
    rw [hstep, ih (by omega), Core.push]
    dsimp only
    rw [Core.reg_set_self, hnext, haddr, List.length_append, List.length_singleton,
      List.reverse_append, List.reverse_singleton, List.singleton_append, wordBytes_cons, setWord,
      storeLE, hblock]
    exact congrArg (fun c' : Core => { c' with
      mem := store c.mem ((c.reg .rsp).toNat - 8 * (vs.length + 1))
        (leBytes 8 v.toNat ++ wordBytes vs.reverse) }) (Core.set_set ..)

theorem Core.rsp_pushAll (hroom : 8 * vs.length ≤ (c.reg .rsp).toNat) :
    (c.pushAll vs).reg .rsp = c.reg .rsp - UInt64.ofNat (8 * vs.length) := by
  rw [Core.pushAll_eq hroom]
  dsimp only
  exact Core.reg_set_self

theorem Core.mem_pushAll (hroom : 8 * vs.length ≤ (c.reg .rsp).toNat) :
    (c.pushAll vs).mem =
      store c.mem ((c.reg .rsp).toNat - 8 * vs.length) (wordBytes vs.reverse) := by
  rw [Core.pushAll_eq hroom]

theorem Core.pushAll_cons (c : Core) (v : UInt64) (vs : List UInt64) :
    c.pushAll (v :: vs) = (c.push v).pushAll vs := rfl

theorem Core.pushAll_pair (c : Core) (v w : UInt64) : c.pushAll [v, w] = (c.push v).push w := rfl

theorem Core.pushAll_append (c : Core) (vs ws : List UInt64) :
    c.pushAll (vs ++ ws) = (c.pushAll vs).pushAll ws := List.foldl_append

theorem Core.pushAll_goto (c : Core) (rip rflags : UInt64) (cs ss : UInt16) (vs : List UInt64) :
    (c.goto rip rflags cs ss).pushAll vs = (c.pushAll vs).goto rip rflags cs ss := by
  induction vs generalizing c with
  | nil => rfl
  | cons v vs ih => exact ih (c.push v)

@[simp] theorem Core.reg_goto {rip rflags : UInt64} {cs ss : UInt16} :
    (c.goto rip rflags cs ss).reg = c.reg := rfl

@[simp] theorem Core.mem_goto {rip rflags : UInt64} {cs ss : UInt16} :
    (c.goto rip rflags cs ss).mem = c.mem := rfl

theorem Core.reg_pushAll (c : Core) (vs : List UInt64) {r : Gpr} (h : r ≠ .rsp) :
    (c.pushAll vs).reg r = c.reg r := by
  induction vs generalizing c with
  | nil => rfl
  | cons v vs ih =>
    have hpush : (c.push v).reg r = c.reg r := Core.reg_set_of_ne h
    exact (ih (c.push v)).trans hpush

theorem Core.levels_pushAll (c : Core) (vs : List UInt64) :
    (c.pushAll vs).rflags = c.rflags ∧ (c.pushAll vs).cs = c.cs := by
  induction vs generalizing c with
  | nil => exact ⟨rfl, rfl⟩
  | cons v vs ih => exact ih (c.push v)

theorem Core.word_pushAll (hroom : 8 * vs.length ≤ (c.reg .rsp).toNat)
    (h : a + 8 ≤ (c.reg .rsp).toNat - 8 * vs.length ∨ (c.reg .rsp).toNat ≤ a) :
    word (c.pushAll vs).mem a = word c.mem a := by
  rw [Core.mem_pushAll hroom]
  refine word_congr fun x hlow hhigh => ?_
  rcases h with h | h
  · exact store_apply_of_lt (by omega)
  · refine store_apply_of_ge ?_
    rw [length_wordBytes, List.length_reverse]
    omega

theorem execAll_push (h : .rsp ∉ rs) : execAll c (rs.map .push) = c.pushAll (rs.map c.reg) := by
  induction rs generalizing c with
  | nil => rfl
  | cons r rs ih =>
    rw [List.mem_cons, not_or] at h
    have hregs : rs.map (c.push (c.reg r)).reg = rs.map c.reg :=
      List.map_congr_left fun r' hr' =>
        Function.update_of_ne (fun heq : r' = .rsp => h.2 (heq ▸ hr')) _ _
    rw [List.map_cons, execAll_cons, exec, ih h.2, hregs]
    rfl

theorem execAll_zero (c : Core) (rs : List Gpr) :
    execAll c (rs.map .zero) = { c with reg := fun r => if r ∈ rs then 0 else c.reg r } := by
  induction rs generalizing c with
  | nil => simp [execAll_nil]
  | cons r rs ih =>
    have hreg : (fun r' => if r' ∈ rs then 0 else (c.set r 0).reg r') =
        fun r' => if r' ∈ r :: rs then 0 else c.reg r' := by
      funext r'
      by_cases hr : r' = r
      · rw [hr, Core.reg_set_self, if_pos List.mem_cons_self, ite_self]
      · simp only [Core.reg_set_of_ne hr, List.mem_cons, hr, false_or]
    rw [List.map_cons, execAll_cons, exec, ih, hreg]
    rfl

theorem execAll_pop (c : Core) {rs : List Gpr} (hnodup : rs.Nodup) (hrsp : .rsp ∉ rs)
    (hroom : (c.reg .rsp).toNat + 8 * rs.length ≤ 2 ^ 64) :
    execAll c (rs.map .pop) = { c with reg := (execAll c (rs.map .pop)).reg } ∧
      (execAll c (rs.map .pop)).reg .rsp = c.reg .rsp + UInt64.ofNat (8 * rs.length) ∧
      rs.map (execAll c (rs.map .pop)).reg = words c.mem (c.reg .rsp).toNat rs.length ∧
      ∀ r, r ∉ rs → r ≠ .rsp → (execAll c (rs.map .pop)).reg r = c.reg r := by
  induction rs generalizing c with
  | nil => exact ⟨rfl, (UInt64.add_zero _).symm, rfl, fun _ _ _ => rfl⟩
  | cons r rs ih =>
    rw [List.nodup_cons] at hnodup
    rw [List.mem_cons, not_or] at hrsp
    rw [List.length_cons] at hroom
    have hpopped : (exec c (.pop r)).reg .rsp = c.reg .rsp + 8 := by
      rw [exec, Core.reg_set_of_ne hrsp.1, Core.drop, Core.reg_set_self]
    rw [List.map_cons, execAll_cons, List.length_cons, words]
    rcases Nat.eq_zero_or_pos rs.length with hzero | hpos
    · have hnil : rs = [] := List.length_eq_zero_iff.mp hzero
      subst hnil
      refine ⟨rfl, hpopped, ?_, fun r' hr' hne => ?_⟩
      · rw [List.map_nil, execAll_nil, List.map_singleton, exec, Core.reg_set_self]
        rfl
      · rw [List.mem_singleton] at hr'
        rw [List.map_nil, execAll_nil, exec, Core.reg_set_of_ne hr', Core.drop,
          Core.reg_set_of_ne hne]
    have hnext : (c.reg .rsp + 8).toNat = (c.reg .rsp).toNat + 8 := by
      rw [UInt64.toNat_add]
      exact Nat.mod_eq_of_lt (by simp only [UInt64.toNat_ofNat]; omega)
    obtain ⟨hsame, hend, hwords, hrest⟩ :=
      ih (c := exec c (.pop r)) hnodup.2 hrsp.2 (by rw [hpopped, hnext]; omega)
    refine ⟨hsame, ?_, ?_, fun r' hr' hne => ?_⟩
    · rw [hend, hpopped, UInt64.add_assoc, Nat.mul_succ, Nat.add_comm, UInt64.ofNat_add]
      rfl
    · have hhead :
          (execAll (exec c (.pop r)) (rs.map .pop)).reg r = word c.mem (c.reg .rsp).toNat := by
        rw [hrest r hnodup.1 (Ne.symm hrsp.1), exec, Core.reg_set_self]
        rfl
      rw [List.map_cons, hhead, hwords, hpopped, hnext]
      rfl
    · rw [List.mem_cons, not_or] at hr'
      rw [hrest r' hr'.2 hne, exec, Core.reg_set_of_ne hr'.1, Core.drop, Core.reg_set_of_ne hne]

/-! ## Tables -/

/-- Where the tables are, and the registers for system calls. -/
structure Tables where
  gdtBase : UInt64
  gdtLimit : UInt16
  idtBase : UInt64
  idtLimit : UInt16
  tssBase : UInt64
  efer : UInt64
  star : UInt64
  lstar : UInt64
  sfmask : UInt64

/-- The two bytes of a segment descriptor that matter in 64-bit mode. -/
structure Segment where
  access : UInt8
  granularity : UInt8
  deriving DecidableEq, Repr

namespace Segment

variable (s : Segment)

def dpl : ℕ := s.access.toNat / 32 % 4

def isUsual : Bool := s.access.toNat.testBit 7 && s.access.toNat.testBit 4

def isCode : Bool :=
  s.isUsual && s.access.toNat.testBit 3 && !s.access.toNat.testBit 2 &&
    s.granularity.toNat.testBit 5 && !s.granularity.toNat.testBit 6

def isStack : Bool := s.isUsual && !s.access.toNat.testBit 3 && s.access.toNat.testBit 1

end Segment

def segmentAt (t : Tables) (m : Mem) (selector : UInt16) : Option Segment :=
  let i := selector.toNat / 8 * 8
  if i = 0 ∨ selector.toNat.testBit 2 = true ∨ t.gdtLimit.toNat < i + 7 then none
  else some ⟨m (t.gdtBase.toNat + i + 5), m (t.gdtBase.toNat + i + 6)⟩

/-- The base in the descriptor of a task state segment, which takes two entries. -/
def systemBase (m : Mem) (a : ℕ) : UInt64 :=
  UInt64.ofNat (loadLE m (a + 2) 2 + 2 ^ 16 * (m (a + 4)).toNat + 2 ^ 24 * (m (a + 7)).toNat +
    2 ^ 32 * loadLE m (a + 8) 4)

/-- The selector can be loaded into CS for code at the level it names. -/
def csOk (t : Tables) (m : Mem) (cs : UInt16) : Bool :=
  (segmentAt t m cs).any fun s => s.isCode && s.dpl == cs.toNat % 4

/-- The selector can be loaded into SS for code at the level it names: a null selector outside
ring 3, or a stack segment of that level. -/
def ssOk (t : Tables) (m : Mem) (ss : UInt16) : Bool :=
  decide (ss.toNat < 3) || (segmentAt t m ss).any fun s => s.isStack && s.dpl == ss.toNat % 4

structure Gate where
  offset : UInt64
  selector : UInt16
  ist : UInt8
  attributes : UInt8
  deriving DecidableEq, Repr

namespace Gate

def isInterrupt (g : Gate) : Bool := g.attributes.toNat.testBit 7 && g.attributes.toNat % 32 == 14

def dpl (g : Gate) : ℕ := g.attributes.toNat / 32 % 4

end Gate

def gate (t : Tables) (m : Mem) (v : ℕ) : Option Gate :=
  let a := t.idtBase.toNat + 16 * v
  if t.idtLimit.toNat < 16 * v + 15 then none
  else some {
    offset := UInt64.ofNat
      (loadLE m a 2 + 2 ^ 16 * loadLE m (a + 6) 2 + 2 ^ 32 * loadLE m (a + 8) 4)
    selector := UInt16.ofNat (loadLE m (a + 2) 2)
    ist := m (a + 4)
    attributes := m (a + 5) }

/-! ## Ways between rings -/

/-- The flags that an interrupt gate clears: IF, TF, NT, RF and VM. -/
def gateFlags : UInt64 := 0x34300

/-- The stack that an interrupt through the gate starts on. -/
def interruptStack (t : Tables) (c : Core) (g : Gate) (level : ℕ) : UInt64 :=
  if g.ist.toNat % 8 ≠ 0 then word c.mem (t.tssBase.toNat + 0x24 + 8 * (g.ist.toNat % 8 - 1))
  else if level < c.cpl then word c.mem (t.tssBase.toNat + 4 + 8 * level)
  else c.reg .rsp

/-- The stack pointer of the gate is aligned before the frame is pushed. -/
def alignStack (rsp : UInt64) : UInt64 := rsp &&& ~~~15

/-- An interrupt or an exception, with its error code if it has one; `none` is a further fault. -/
def deliver (t : Tables) (v : ℕ) (err : Option UInt64) (c : Core) : Option Core :=
  match gate t c.mem v with
  | none => none
  | some g =>
    match segmentAt t c.mem g.selector with
    | none => none
    | some s =>
      if g.isInterrupt = true ∧ s.isCode = true ∧ s.dpl ≤ c.cpl then
        let frame := [c.ss.toUInt64, c.reg .rsp, c.rflags, c.cs.toUInt64, c.rip] ++ err.toList
        some (((c.set .rsp (alignStack (interruptStack t c g s.dpl))).pushAll frame).goto g.offset
          (c.rflags &&& ~~~gateFlags) (UInt16.ofNat (g.selector.toNat / 4 * 4 + s.dpl))
          (if s.dpl < c.cpl then UInt16.ofNat s.dpl else c.ss))
      else none

/-- The instruction `int`, which the gate has to permit. -/
def softInt (t : Tables) (v : ℕ) (c : Core) : Option Core :=
  match gate t c.mem v with
  | none => none
  | some g => if g.dpl < c.cpl then none else deliver t v none c

/-- An address that the processor can jump to. -/
def Canonical (a : UInt64) : Prop := a.toNat < 2 ^ 47 ∨ 2 ^ 64 - 2 ^ 47 ≤ a.toNat

instance (a : UInt64) : Decidable (Canonical a) := inferInstanceAs (Decidable (_ ∨ _))

/-- The instruction `iretq` in 64-bit mode, to the same ring or an outer one. -/
def iretq (t : Tables) (c : Core) : Option Core :=
  let sp := (c.reg .rsp).toNat
  let cs := (word c.mem (sp + 8)).toUInt16
  let ss := (word c.mem (sp + 32)).toUInt16
  -- there is no return to a nested task in this mode
  if c.rflags &&& flagNt = 0 ∧ Canonical (word c.mem sp) ∧ csOk t c.mem cs = true ∧
      ssOk t c.mem ss = true ∧ cs.toNat % 4 = ss.toNat % 4 ∧ c.cpl ≤ cs.toNat % 4 then
    some ((c.set .rsp (word c.mem (sp + 24))).goto (word c.mem sp) (word c.mem (sp + 16)) cs ss)
  else none

/-- A return to the frame on the stack, if its levels are right. -/
theorem iretq_eq {t : Tables} {rip cs rflags rsp ss : UInt64}
    (hframe : words c.mem (c.reg .rsp).toNat 5 = [rip, cs, rflags, rsp, ss])
    (hcode : csOk t c.mem cs.toUInt16 = true) (hstack : ssOk t c.mem ss.toUInt16 = true)
    (hlevel : cs.toUInt16.toNat % 4 = ss.toUInt16.toNat % 4)
    (hcpl : c.cpl ≤ cs.toUInt16.toNat % 4) :
    iretq t c =
      if c.rflags &&& flagNt = 0 ∧ Canonical rip then
        some ((c.set .rsp rsp).goto rip rflags cs.toUInt16 ss.toUInt16)
      else none := by
  simp only [words, List.cons.injEq, Nat.add_assoc, Nat.reduceAdd, and_true] at hframe
  obtain ⟨hrip, hcs, hrflags, hrsp, hss⟩ := hframe
  rw [iretq, hrip, hcs, hrflags, hrsp, hss]
  by_cases hready : c.rflags &&& flagNt = 0 ∧ Canonical rip
  · rw [if_pos hready, if_pos ⟨hready.1, hready.2, hcode, hstack, hlevel, hcpl⟩]
  · rw [if_neg hready, if_neg fun h => hready ⟨h.1, h.2.1⟩]

/-- The instruction `syscall`, with RIP behind it already. -/
def syscall (t : Tables) (c : Core) : Option Core :=
  if t.efer.toNat.testBit 0 then
    let sel := UInt16.ofNat (t.star.toNat / 2 ^ 32)
    some (((c.set .rcx c.rip).set .r11 c.rflags).goto t.lstar (c.rflags &&& ~~~t.sfmask)
      (sel &&& 0xFFFC) (sel + 8))
  else none

/-- The instruction `sysretq`, which faults before it leaves ring 0 if it cannot jump there. -/
def sysretq (t : Tables) (c : Core) : Option Core :=
  if t.efer.toNat.testBit 0 ∧ c.cpl = 0 ∧ Canonical (c.reg .rcx) then
    let sel := UInt16.ofNat (t.star.toNat / 2 ^ 48)
    some (c.goto (c.reg .rcx) (c.reg .r11 &&& 0x3C7FD7 ||| 2) ((sel + 16) ||| 3) ((sel + 8) ||| 3))
  else none

/-- What a C function leaves in registers and memory. -/
structure Effect where
  reg : Gpr → UInt64
  rflags : UInt64
  mem : Mem

/-- A call of a C function. It returns to where it was called, with the stack pointer as it was, and
leaves the bytes alone that are not its own. -/
def Core.call (c : Core) (kept : ℕ → Bool) (u : Effect) : Core :=
  { c with
    reg := Function.update u.reg .rsp (c.reg .rsp)
    rflags := u.rflags
    mem := fun a => if kept a then c.mem a else u.mem a }

theorem Core.mem_call_kept {kept : ℕ → Bool} {u : Effect} {x : ℕ} (h : kept x = true) :
    (c.call kept u).mem x = c.mem x := if_pos h

theorem Core.mem_call_free {kept : ℕ → Bool} {u : Effect} {x : ℕ} (h : kept x = false) :
    (c.call kept u).mem x = u.mem x := if_neg (by rw [h]; exact Bool.noConfusion)

theorem Core.rsp_call {kept : ℕ → Bool} {u : Effect} :
    (c.call kept u).reg .rsp = c.reg .rsp := by
  simp [Core.call]

theorem Core.reg_call {kept : ℕ → Bool} {u : Effect} (h : r ≠ .rsp) :
    (c.call kept u).reg r = u.reg r := by
  simp [Core.call, h]

theorem segmentAt_congr {t : Tables} {selector : UInt16}
    (h : ∀ x, t.gdtBase.toNat ≤ x → x ≤ t.gdtBase.toNat + t.gdtLimit.toNat → m' x = m x) :
    segmentAt t m' selector = segmentAt t m selector := by
  unfold segmentAt
  dsimp only
  split
  · rfl
  · next hok =>
    rw [not_or, not_or] at hok
    rw [h _ (by omega) (by omega), h _ (by omega) (by omega)]

end X86
