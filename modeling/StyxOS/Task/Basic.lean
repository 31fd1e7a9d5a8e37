import Mathlib.Algebra.GroupWithZero.Nat
import Mathlib.Logic.Function.Basic
import Mathlib.Data.Fin.Basic

/-! # Tasks

The task table of `task.h` and `task.c`. A task pointer is an index into the
static table; addresses that other modules store in a task (its capability
table, its PML4) are 64-bit numbers, with zero for the NULL pointer.
-/

namespace StyxOS

abbrev taskMaxTasks : ℕ := 8

def taskKernelStackSize : ℕ := 16 * 1024

/-- A `task_t *`: a slot of the static task table. -/
abbrev TaskPtr := Fin taskMaxTasks

instance neZero_taskMaxTasks : NeZero taskMaxTasks := ⟨by decide⟩

/-- `task_state_t`. -/
inductive TaskState
  | unused | ready | running | blocked | dead
  deriving DecidableEq, Repr

/-- `task_regs_t`: the callee-saved registers, the resume address and the kernel stack pointer. -/
structure TaskRegs where
  rbx : UInt64
  rbp : UInt64
  r12 : UInt64
  r13 : UInt64
  r14 : UInt64
  r15 : UInt64
  rip : UInt64
  rsp : UInt64
  deriving DecidableEq, Repr

/-- `task_t`. The base of the kernel stack is left out: only `task_create_user` uses it. -/
structure Task where
  id : UInt32
  state : TaskState
  capTable : UInt64
  pml4 : UInt64
  kstackTop : UInt64
  regs : TaskRegs
  ticks : UInt32
  deriving DecidableEq, Repr

/-- The part of a task that its creation fixes: identifier, capability table, page tables and
kernel stack. -/
def Task.fixed (t : Task) : UInt32 × UInt64 × UInt64 × UInt64 :=
  (t.id, t.capTable, t.pml4, t.kstackTop)

/-- The static table `task_table`. -/
abbrev TaskTable := TaskPtr → Task

/-- `task_get`: the first slot in use that carries the identifier. -/
def taskGet (tbl : TaskTable) (id : UInt32) : Option TaskPtr :=
  (List.finRange taskMaxTasks).find? fun i => (tbl i).state ≠ .unused && (tbl i).id = id

theorem taskGet_some {tbl : TaskTable} {id : UInt32} {t : TaskPtr} (h : taskGet tbl id = some t) :
    (tbl t).state ≠ .unused ∧ (tbl t).id = id := by
  simpa using List.find?_some h

end StyxOS
