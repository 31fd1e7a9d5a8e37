import Mathlib.Data.Finset.Basic
import Mathlib.Tactic.Cases
import StyxOS.Library.Run
import StyxOS.Sched.Basic

/-! # Safety of the scheduler's task states

A history records which tasks `sched_block` has parked and which `SYS_EXIT` has
ended. The scheduler keeps one RUNNING task, the current one, and leaves parked
and ended tasks alone exactly as long as the running task is neither blocked nor
ended: `sched_yield` writes READY into the outgoing task whatever its state is.
-/

namespace StyxOS

namespace Sched

variable (s : Sched) (t u : TaskPtr)

theorem modify_taskTable (f : Task → Task) :
    (s.modify t f).taskTable u = if u = t then f (s.taskTable t) else s.taskTable u := by
  simp only [modify, Function.update_apply]

@[simp] theorem modify_current (f : Task → Task) : (s.modify t f).current = s.current := rfl
@[simp] theorem modify_runQueue (f : Task → Task) : (s.modify t f).runQueue = s.runQueue := rfl
@[simp] theorem setState_current (x : TaskState) : (s.setState t x).current = s.current := rfl
@[simp] theorem setState_runQueue (x : TaskState) : (s.setState t x).runQueue = s.runQueue := rfl
@[simp] theorem setTicks_current (n : UInt32) : (s.setTicks t n).current = s.current := rfl
@[simp] theorem setTicks_runQueue (n : UInt32) : (s.setTicks t n).runQueue = s.runQueue := rfl
@[simp] theorem setRip_current (a : UInt64) : (s.setRip t a).current = s.current := rfl
@[simp] theorem setRip_runQueue (a : UInt64) : (s.setRip t a).runQueue = s.runQueue := rfl

@[simp] theorem stateOf_setState (x : TaskState) :
    (s.setState t x).stateOf u = if u = t then x else s.stateOf u := by
  simp only [stateOf, setState, modify_taskTable]
  split <;> rfl

@[simp] theorem stateOf_setTicks (n : UInt32) : (s.setTicks t n).stateOf u = s.stateOf u := by
  simp only [stateOf, setTicks, modify_taskTable]
  split
  · next h => rw [h]
  · rfl

@[simp] theorem stateOf_setRip (a : UInt64) : (s.setRip t a).stateOf u = s.stateOf u := by
  simp only [stateOf, setRip, modify_taskTable]
  split
  · next h => rw [h]
  · rfl

@[simp] theorem fixed_setState (x : TaskState) :
    ((s.setState t x).taskTable u).fixed = (s.taskTable u).fixed := by
  simp only [setState, modify_taskTable]
  split
  · next h => rw [h]; rfl
  · rfl

@[simp] theorem fixed_setTicks (n : UInt32) :
    ((s.setTicks t n).taskTable u).fixed = (s.taskTable u).fixed := by
  simp only [setTicks, modify_taskTable]
  split
  · next h => rw [h]; rfl
  · rfl

@[simp] theorem fixed_setRip (a : UInt64) :
    ((s.setRip t a).taskTable u).fixed = (s.taskTable u).fixed := by
  simp only [setRip, modify_taskTable]
  split
  · next h => rw [h]; rfl
  · rfl

theorem pml4_of_fixed {x y : Task} (h : x.fixed = y.fixed) : x.pml4 = y.pml4 :=
  congrArg (fun f => f.2.2.1) h

theorem setTicks_setTicks (n m : UInt32) : (s.setTicks t n).setTicks t m = s.setTicks t m := by
  simp [setTicks, modify]

theorem setTicks_self : s.setTicks t (s.taskTable t).ticks = s := by
  simp [setTicks, modify]

/-- The task is suspended inside `sched_start`: its saved context is used and resumes there. -/
def AtStart (K : KernelLayout) : Prop :=
  (s.taskTable t).regs.rip = K.schedStartResume ∧
    (s.taskTable t).regs.rsp ≠ (s.taskTable t).kstackTop

@[simp] theorem atStart_setState (K : KernelLayout) (x : TaskState) :
    (s.setState t x).AtStart u K ↔ s.AtStart u K := by
  simp only [AtStart, setState, modify_taskTable]
  split
  · next h => rw [h]
  · rfl

@[simp] theorem atStart_setTicks (K : KernelLayout) (n : UInt32) :
    (s.setTicks t n).AtStart u K ↔ s.AtStart u K := by
  simp only [AtStart, setTicks, modify_taskTable]
  split
  · next h => rw [h]
  · rfl

theorem atStart_setRip (K : KernelLayout) {a : UInt64} (ha : a ≠ K.schedStartResume)
    (h : (s.setRip t a).AtStart u K) : s.AtStart u K := by
  simp only [AtStart, setRip, modify_taskTable] at h
  split at h
  · exact absurd h.1 ha
  · exact h

/-- Only the head of the run queue can be suspended inside `sched_start`. -/
def StartHead (K : KernelLayout) : Prop := ∀ t, s.AtStart t K → s.runQueue.head? = some t

end Sched

open Sched StepSystem

variable {K : KernelLayout}

/-! ## What a switch does -/

/-- The result of handing the processor from `prev` to `next`. -/
structure Switched (K : KernelLayout) (s : Sched) (prev next : TaskPtr) (s' : Sched) : Prop where
  current : s'.current = some next
  runQueue : s'.runQueue = s.runQueue
  state : ∀ t, s'.stateOf t =
    if t = next then .running else if t = prev then .ready else s.stateOf t
  startHead : s'.StartHead K
  fixed : ∀ t, (s'.taskTable t).fixed = (s.taskTable t).fixed
  cr3 : s'.cr3 = spaceOf K s next

theorem spaceOf_congr {s s' : Sched} {t : TaskPtr} (hc : s'.cr3 = s.cr3)
    (ht : (s'.taskTable t).fixed = (s.taskTable t).fixed) : spaceOf K s' t = spaceOf K s t := by
  unfold spaceOf
  rw [hc, pml4_of_fixed ht]

theorem taskSwitch_taskTable (cpu : TaskRegs) (ret : UInt64) (s : Sched) (src dst t : TaskPtr) :
    (taskSwitch K cpu ret s src dst).taskTable t =
      if t = src then { s.taskTable src with regs := { cpu with rip := ret } }
      else s.taskTable t := by
  have h : (taskSwitch K cpu ret s src dst).taskTable =
      (s.saveRegs src { cpu with rip := ret }).taskTable := by
    unfold taskSwitch resumeAt; split <;> rfl
  rw [h, saveRegs, modify_taskTable]

theorem taskSwitch_runQueue (cpu : TaskRegs) (ret : UInt64) (s : Sched) (src dst : TaskPtr) :
    (taskSwitch K cpu ret s src dst).runQueue = s.runQueue := by
  unfold taskSwitch resumeAt; split <;> rfl

@[simp] theorem taskSwitch_stateOf (cpu : TaskRegs) (ret : UInt64) (s : Sched)
    (src dst t : TaskPtr) : (taskSwitch K cpu ret s src dst).stateOf t = s.stateOf t := by
  rw [stateOf, taskSwitch_taskTable]
  split
  · next h => rw [h]
  · rfl

theorem taskSwitch_fixed (cpu : TaskRegs) (ret : UInt64) (s : Sched) (src dst t : TaskPtr) :
    ((taskSwitch K cpu ret s src dst).taskTable t).fixed = (s.taskTable t).fixed := by
  rw [taskSwitch_taskTable]
  split
  · next h => rw [h]; rfl
  · rfl

theorem taskSwitch_cr3 (cpu : TaskRegs) (ret : UInt64) (s : Sched) (src dst : TaskPtr) :
    (taskSwitch K cpu ret s src dst).cr3 = spaceOf K s dst := by
  have h : (taskSwitch K cpu ret s src dst).cr3 =
      spaceOf K (s.saveRegs src { cpu with rip := ret }) dst := by
    unfold taskSwitch resumeAt; split <;> rfl
  rw [h]
  refine spaceOf_congr rfl ?_
  rw [saveRegs, modify_taskTable]
  split
  · next h => rw [h]; rfl
  · rfl

/-- The switch leaves `dst` current, also when it resumes inside `sched_start`. -/
theorem taskSwitch_current {cpu : TaskRegs} {ret : UInt64} {s : Sched} {src dst : TaskPtr}
    (hne : dst ≠ src) (hcur : s.current = some dst) (hs : s.StartHead K)
    (hdst : (s.taskTable dst).regs.rip = K.schedStartResume →
      (s.taskTable dst).regs.rsp ≠ (s.taskTable dst).kstackTop) :
    (taskSwitch K cpu ret s src dst).current = some dst := by
  unfold taskSwitch resumeAt
  split
  · next h =>
    change ((s.saveRegs src _).taskTable dst).regs.rip = _ at h
    rw [saveRegs, modify_taskTable, if_neg hne] at h
    exact hs dst ⟨h, hdst h⟩
  · exact hcur

theorem taskSwitch_startHead {cpu : TaskRegs} {ret : UInt64} {s : Sched} {src dst : TaskPtr}
    (hs : s.StartHead K) (hret : ret = K.schedStartResume → s.runQueue.head? = some src) :
    (taskSwitch K cpu ret s src dst).StartHead K := by
  intro t ht
  rw [taskSwitch_runQueue]
  rw [AtStart, taskSwitch_taskTable] at ht
  split at ht
  · next h => rw [h]; exact hret ht.1
  · exact hs t ht

theorem switchTo_switched (cpu : TaskRegs) {ret : UInt64} {s : Sched} {prev next : TaskPtr}
    (hne : next ≠ prev) (hs : s.StartHead K) (hret : ret ≠ K.schedStartResume) :
    Switched K s prev next (switchTo K cpu ret s prev next) := by
  let s₁ : Sched := { s with currentIdx := idxOf s next, current := some next }
  let s₂ := ((s₁.setState prev .ready).setState next .running).setTicks next 10
  have h₂ : s₂.StartHead K :=
      fun t ht => hs t (by simp only [s₂, atStart_setState, atStart_setTicks] at ht; exact ht)
  have hstate : ∀ t, s₂.stateOf t =
      if t = next then .running else if t = prev then .ready else s.stateOf t := by
    intro t; simp [s₂]; rfl
  have hfix : ∀ t, (s₂.taskTable t).fixed = (s.taskTable t).fixed := by
    intro t; simp [s₂]; rfl
  have he : switchTo K cpu ret s prev next = taskSwitch K cpu ret
      (if (s₂.taskTable next).regs.rsp = (s₂.taskTable next).kstackTop then
        s₂.setRip next K.taskEntryTrampoline else s₂) prev next := rfl
  rw [he]
  split
  · have h₃ : (s₂.setRip next K.taskEntryTrampoline).StartHead K := fun t ht =>
      h₂ t (atStart_setRip _ _ _ _ K.trampoline_ne ht)
    have hfix₃ : ∀ t, ((s₂.setRip next K.taskEntryTrampoline).taskTable t).fixed =
        (s.taskTable t).fixed := fun t => (fixed_setRip ..).trans (hfix t)
    refine ⟨taskSwitch_current hne rfl h₃ fun h => ?_, taskSwitch_runQueue .., fun t => ?_,
      taskSwitch_startHead h₃ fun h => absurd h hret,
      fun t => (taskSwitch_fixed ..).trans (hfix₃ t),
      (taskSwitch_cr3 ..).trans (spaceOf_congr rfl (hfix₃ next))⟩
    · rw [setRip, modify_taskTable, if_pos rfl] at h
      exact absurd h K.trampoline_ne
    · rw [taskSwitch_stateOf, stateOf_setRip, hstate]
  · next hrsp =>
    exact ⟨taskSwitch_current hne rfl h₂ fun _ => hrsp, taskSwitch_runQueue ..,
      fun t => by rw [taskSwitch_stateOf, hstate],
      taskSwitch_startHead h₂ fun h => absurd h hret,
      fun t => (taskSwitch_fixed ..).trans (hfix t),
      (taskSwitch_cr3 ..).trans (spaceOf_congr rfl (hfix next))⟩

theorem scanReady_some {s : Sched} {t : TaskPtr} (h : scanReady s = some t) :
    t ∈ s.runQueue ∧ s.stateOf t = .ready := by
  obtain ⟨i, -, h⟩ := List.exists_of_findSome?_eq_some h
  rw [Option.filter_eq_some_iff] at h
  exact ⟨List.mem_of_getElem? h.1, by simpa using h.2⟩

theorem nextReady_cases {s : Sched} {t : TaskPtr} (h : nextReady s = some t) :
    s.stateOf t = .ready ∨ s.current = some t := by
  rw [nextReady, Option.or_eq_some_iff] at h
  rcases h with h | ⟨-, h⟩
  · exact Or.inl (scanReady_some h).2
  · exact Or.inr h

theorem firstSwitch_switched (cpu : TaskRegs) {s : Sched} {first second : TaskPtr}
    (hq : s.runQueue.head? = some first) (hs : s.StartHead K) (hne : second ≠ first) :
    Switched K s first second (firstSwitch K cpu s first second) := by
  let s₂ : Sched := { s with current := some second, currentIdx := 1 }
  let s₃ := (((s₂.setRip second K.taskEntryTrampoline).setState second .running).setTicks
    second 10).setState first .ready
  have hrip : (s₃.taskTable second).regs.rip = K.taskEntryTrampoline := by
    simp [s₃, setState, setTicks, setRip, modify_taskTable, hne]
  have hstate : ∀ t, s₃.stateOf t =
      if t = second then .running else if t = first then .ready else s.stateOf t := by
    intro t
    simp only [s₃, stateOf_setState, stateOf_setTicks, stateOf_setRip]
    by_cases ht : t = first
    · simp [ht, hne.symm]
    · simp only [if_neg ht]; rfl
  have hs₃ : s₃.StartHead K := by
    intro t ht
    simp only [s₃, atStart_setState, atStart_setTicks] at ht
    exact hs t (atStart_setRip s₂ _ _ _ K.trampoline_ne ht)
  have hfix : ∀ t, (s₃.taskTable t).fixed = (s.taskTable t).fixed := by
    intro t; simp [s₃]; rfl
  refine ⟨taskSwitch_current hne rfl hs₃ fun h => ?_, taskSwitch_runQueue .., fun t => ?_,
    taskSwitch_startHead hs₃ fun _ => hq, fun t => (taskSwitch_fixed ..).trans (hfix t),
    (taskSwitch_cr3 ..).trans (spaceOf_congr rfl (hfix second))⟩
  · exact absurd (hrip.symm.trans h) K.trampoline_ne
  · exact (taskSwitch_stateOf ..).trans (hstate t)

theorem stateOf_startFirst (s : Sched) (first t : TaskPtr) :
    (startFirst s first).stateOf t = if t = first then .running else s.stateOf t :=
  stateOf_setState ..

/-- `sched_start` makes the head of the queue run, or hands over to a READY second task. -/
theorem schedStart_cases (cpu : TaskRegs) {s : Sched} {first : TaskPtr}
    (hq : s.runQueue.head? = some first) (hs : s.StartHead K) :
    schedStart K cpu s = startFirst s first ∨
    ∃ second, s.stateOf second = .ready ∧ second ≠ first ∧
      Switched K s first second (schedStart K cpu s) := by
  unfold schedStart
  split
  · next h => simp [h] at hq
  · next x h =>
    obtain rfl : x = first := by simpa [h] using hq
    exact Or.inl rfl
  · next x second rest h =>
    obtain rfl : x = first := by simpa [h] using hq
    by_cases hr : (startFirst s x).stateOf second = .ready
    · right
      have hne : second ≠ x := by
        rintro rfl
        rw [stateOf_startFirst, if_pos rfl] at hr
        exact absurd hr (by decide)
      have hs₁ : (startFirst s x).StartHead K := fun t ht =>
        hs t ((atStart_setState _ _ _ _ _).mp ht)
      have hsw := firstSwitch_switched cpu (s := startFirst s x) hq hs₁ hne
      refine ⟨second, by rwa [stateOf_startFirst, if_neg hne] at hr, hne, ?_⟩
      dsimp only
      rw [if_pos hr]
      have hfix : ∀ t, ((startFirst s x).taskTable t).fixed = (s.taskTable t).fixed := fun t =>
        fixed_setState ..
      refine ⟨hsw.current, hsw.runQueue, fun t => ?_, hsw.startHead,
        fun t => (hsw.fixed t).trans (hfix t), hsw.cr3.trans (spaceOf_congr rfl (hfix second))⟩
      rw [hsw.state, stateOf_startFirst]
      by_cases ht : t = x
      · simp [ht, hne.symm]
      · simp [ht]
    · left
      exact if_neg hr

/-- `sched_yield` by a current task keeps the state, or switches to another task. -/
theorem schedYield_cases (cpu : TaskRegs) {s : Sched} {cur : TaskPtr}
    (hcur : s.current = some cur) (hs : s.StartHead K) :
    schedYield K cpu s = s ∨
    ∃ next, s.stateOf next = .ready ∧ next ≠ cur ∧
      Switched K s cur next (schedYield K cpu s) := by
  unfold schedYield
  rw [hcur]
  cases hn : nextReady s with
  | none => exact Or.inl rfl
  | some next =>
    by_cases hne : next = cur
    · left; exact if_pos hne
    · right
      have hr : s.stateOf next = .ready := by
        rcases nextReady_cases hn with h | h
        · exact h
        · exact absurd (Option.some.inj (h.symm.trans hcur)) hne
      refine ⟨next, hr, hne, ?_⟩
      dsimp only
      rw [if_neg hne]
      exact switchTo_switched cpu hne hs K.yield_ne

theorem countDown_eq (s : Sched) (cur : TaskPtr) : ∃ n, countDown s cur = s.setTicks cur n := by
  unfold countDown
  split
  · exact ⟨_, rfl⟩
  · exact ⟨_, (setTicks_self s cur).symm⟩

/-- `sched_tick` only sets the quantum of the current task, or switches to another task. -/
theorem schedTick_cases (cpu : TaskRegs) {s : Sched} {cur : TaskPtr}
    (hcur : s.current = some cur) (hs : s.StartHead K) :
    (∃ n, schedTick K cpu s = s.setTicks cur n) ∨
    ∃ next, s.stateOf next = .ready ∧ next ≠ cur ∧
      Switched K s cur next (schedTick K cpu s) := by
  obtain ⟨n, hn⟩ := countDown_eq s cur
  unfold schedTick
  simp only [hcur, hn]
  by_cases ht : ((s.setTicks cur n).taskTable cur).ticks > 0
  · left; exact ⟨n, if_pos ht⟩
  · rw [if_neg ht]
    cases hnext : nextReady (s.setTicks cur n) with
    | none => left; exact ⟨10, setTicks_setTicks ..⟩
    | some next =>
      by_cases hne : next = cur
      · left; exact ⟨10, (if_pos hne).trans (setTicks_setTicks ..)⟩
      · right
        have hr : s.stateOf next = .ready := by
          rcases nextReady_cases hnext with h | h
          · rwa [stateOf_setTicks] at h
          · exact absurd (Option.some.inj (h.symm.trans hcur)) hne
        have hs' : (s.setTicks cur n).StartHead K := fun t h =>
          hs t ((atStart_setTicks _ _ _ _ _).mp h)
        have hsw := switchTo_switched cpu hne hs' K.tick_ne
        refine ⟨next, hr, hne, ?_⟩
        dsimp only
        rw [if_neg hne]
        exact ⟨hsw.current, hsw.runQueue, fun t => by rw [hsw.state, stateOf_setTicks],
          hsw.startHead, fun t => (hsw.fixed t).trans (fixed_setTicks ..),
          hsw.cr3.trans (spaceOf_congr rfl (fixed_setTicks ..))⟩

/-! ## When the scheduler hands over -/

section
variable {s : Sched} {cur next : TaskPtr}

theorem nextReady_of_ready (h : scanReady s = some next) : nextReady s = some next := by
  rw [nextReady, h]
  rfl

theorem nextReady_of_none (h : scanReady s = none) : nextReady s = s.current := by
  rw [nextReady, h]
  rfl

theorem schedYield_of_none (cpu : TaskRegs) (h : scanReady s = none) : schedYield K cpu s = s := by
  unfold schedYield
  cases hc : s.current with
  | none => rfl
  | some cur =>
    dsimp only
    rw [nextReady_of_none h, hc]
    exact if_pos rfl

theorem schedYield_of_ready (cpu : TaskRegs) (hc : s.current = some cur)
    (hs : s.StartHead K) (h : scanReady s = some next) (hne : next ≠ cur) :
    Switched K s cur next (schedYield K cpu s) := by
  unfold schedYield
  rw [hc]
  dsimp only
  rw [nextReady_of_ready h]
  dsimp only
  rw [if_neg hne]
  exact switchTo_switched cpu hne hs K.yield_ne

theorem scanReady_congr {s' : Sched} (hq : s'.runQueue = s.runQueue)
    (hidx : s'.currentIdx = s.currentIdx) (hst : ∀ t, s'.stateOf t = s.stateOf t) :
    scanReady s' = scanReady s := by
  unfold scanReady
  simp only [hq, hidx, hst]

theorem ticks_countDown :
    ((countDown s cur).taskTable cur).ticks > 0 ↔ ¬ (s.taskTable cur).ticks ≤ 1 := by
  unfold countDown
  split
  · next h =>
    rw [setTicks, modify_taskTable, if_pos rfl]
    grind
  · next h => grind

theorem schedTick_eq_switchTo (cpu : TaskRegs) (hc : s.current = some cur)
    (ht : (s.taskTable cur).ticks ≤ 1) (h : scanReady s = some next) (hne : next ≠ cur) :
    ∃ n, schedTick K cpu s = switchTo K cpu K.schedTickResume (s.setTicks cur n) cur next := by
  obtain ⟨n, hn⟩ := countDown_eq s cur
  have hscan : scanReady (s.setTicks cur n) = some next := by
    rw [← h]
    exact scanReady_congr rfl rfl fun t => stateOf_setTicks ..
  have hticks : ¬ ((countDown s cur).taskTable cur).ticks > 0 := by
    rw [ticks_countDown]
    exact not_not_intro ht
  refine ⟨n, ?_⟩
  unfold schedTick
  rw [hc]
  dsimp only
  rw [if_neg hticks, hn, nextReady_of_ready hscan]
  exact if_neg hne

theorem schedTick_of_ready (cpu : TaskRegs) (hc : s.current = some cur)
    (hs : s.StartHead K) (ht : (s.taskTable cur).ticks ≤ 1) (h : scanReady s = some next)
    (hne : next ≠ cur) : Switched K s cur next (schedTick K cpu s) := by
  obtain ⟨n, he⟩ := schedTick_eq_switchTo (K := K) cpu hc ht h hne
  have hs' : (s.setTicks cur n).StartHead K := fun t h =>
    hs t ((atStart_setTicks _ _ _ _ _).mp h)
  rw [he]
  have hsw := switchTo_switched cpu hne hs' K.tick_ne
  exact ⟨hsw.current, hsw.runQueue, fun t => by rw [hsw.state, stateOf_setTicks],
    hsw.startHead, fun t => (hsw.fixed t).trans (fixed_setTicks ..),
    hsw.cr3.trans (spaceOf_congr rfl (fixed_setTicks ..))⟩

theorem schedTick_of_stay (cpu : TaskRegs) (hc : s.current = some cur)
    (h : (s.taskTable cur).ticks ≤ 1 → nextReady s = some cur) :
    ∃ n, schedTick K cpu s = s.setTicks cur n := by
  obtain ⟨n, hn⟩ := countDown_eq s cur
  unfold schedTick
  rw [hc]
  dsimp only
  by_cases ht : (s.taskTable cur).ticks ≤ 1
  · have hscan : scanReady (s.setTicks cur n) = scanReady s :=
      scanReady_congr rfl rfl fun t => stateOf_setTicks ..
    have hnext : nextReady (s.setTicks cur n) = some cur := by
      rw [← h ht, nextReady, nextReady, hscan, setTicks_current]
    rw [if_neg (by rw [ticks_countDown]; exact not_not_intro ht), hn, hnext]
    dsimp only
    rw [if_pos rfl]
    exact ⟨10, setTicks_setTicks ..⟩
  · rw [if_pos (by rw [ticks_countDown]; exact ht), hn]
    exact ⟨n, rfl⟩

end

/-! ## Histories -/

/-- The scheduler's entry points with their arguments; `exit` is the SYS_EXIT path. -/
inductive SchedOp
  | add (task : TaskPtr)
  | start
  | tick
  | yield
  | block (task : Option TaskPtr)
  | unblock (task : Option TaskPtr)
  | exit
  deriving DecidableEq, Repr

/-- A call of an entry point, with the live registers a switch would save. -/
structure SchedCall where
  op : SchedOp
  cpu : TaskRegs

def schedStep (K : KernelLayout) (s : Sched) (c : SchedCall) : Sched :=
  match c.op with
  | .add t => schedAdd s t
  | .start => schedStart K c.cpu s
  | .tick => schedTick K c.cpu s
  | .yield => schedYield K c.cpu s
  | .block t => schedBlock K c.cpu s t
  | .unblock t => schedUnblock s t
  | .exit => sysExit K c.cpu s

/-- A scheduler with the tasks that are parked (blocked and not unblocked since) and the tasks
that have exited. -/
structure SchedHistory where
  sched : Sched
  parked : Finset TaskPtr
  exited : Finset TaskPtr

def SchedHistory.step (K : KernelLayout) (h : SchedHistory) (c : SchedCall) : SchedHistory where
  sched := schedStep K h.sched c
  parked := match c.op with
    | .block (some t) => insert t h.parked
    | .unblock (some t) => h.parked.erase t
    | _ => h.parked
  exited := match c.op, h.sched.current with
    | .exit, some t => insert t h.exited
    | _, _ => h.exited

/-- The safety property of a state: at most one task is RUNNING and the current task is that one,
a parked task neither executes nor becomes READY, an exited task stays away from both. -/
structure SchedHistory.Safe (h : SchedHistory) : Prop where
  running_unique : ∀ t u, h.sched.stateOf t = .running → h.sched.stateOf u = .running → t = u
  current_running : ∀ t, h.sched.current = some t → h.sched.stateOf t = .running
  parked : ∀ t ∈ h.parked, h.sched.stateOf t ≠ .ready ∧ h.sched.stateOf t ≠ .running ∧
    h.sched.current ≠ some t
  exited : ∀ t ∈ h.exited, h.sched.stateOf t ≠ .ready ∧ h.sched.stateOf t ≠ .running

/-- The calls that keep the property: the current task is not blocked and does not exit, and
`sched_start` runs with the head of the queue neither parked nor overtaken by another task. -/
def SchedHistory.Allowed (h : SchedHistory) (c : SchedCall) : Prop :=
  match c.op with
  | .block (some t) => h.sched.current ≠ some t
  | .exit => h.sched.current = none
  | .start => ∀ t, h.sched.runQueue.head? = some t →
      t ∉ h.parked ∧ (h.sched.current = none ∨ h.sched.current = some t)
  | _ => True

structure SchedHistory.Inv (K : KernelLayout) (h : SchedHistory) : Prop where
  running_iff : ∀ t, h.sched.stateOf t = .running ↔ h.sched.current = some t
  parked_iff : ∀ t, t ∈ h.parked ↔ h.sched.stateOf t = .blocked
  exited_empty : h.exited = ∅
  startHead : h.sched.StartHead K

namespace SchedHistory

variable {h : SchedHistory}

theorem Inv.safe (hi : h.Inv K) : h.Safe where
  running_unique t u ht hu := by
    have he := ((hi.running_iff t).mp ht).symm.trans ((hi.running_iff u).mp hu)
    exact Option.some.inj he
  current_running t ht := (hi.running_iff t).mpr ht
  parked t ht := by
    have hb := (hi.parked_iff t).mp ht
    have hr : h.sched.stateOf t ≠ .running := by rw [hb]; decide
    exact ⟨by rw [hb]; decide, hr, fun hc => hr ((hi.running_iff t).mpr hc)⟩
  exited t ht := by rw [hi.exited_empty] at ht; simp at ht

theorem Inv.congr (hi : h.Inv K) {s : Sched} (hst : ∀ t, s.stateOf t = h.sched.stateOf t)
    (hcur : s.current = h.sched.current) (hs : s.StartHead K) :
    ({ h with sched := s } : SchedHistory).Inv K where
  running_iff t := by rw [hst, hcur]; exact hi.running_iff t
  parked_iff t := by rw [hst]; exact hi.parked_iff t
  exited_empty := hi.exited_empty
  startHead := hs

theorem Inv.switched (hi : h.Inv K) {prev next : TaskPtr} {s : Sched}
    (hprev : h.sched.stateOf prev ≠ .blocked) (hcur : ∀ t, h.sched.current = some t → t = prev)
    (hnext : h.sched.stateOf next = .ready) (hsw : Switched K h.sched prev next s) :
    ({ h with sched := s } : SchedHistory).Inv K where
  running_iff t := by
    dsimp only
    rw [hsw.state, hsw.current]
    by_cases htn : t = next
    · simp [htn]
    · have hne : (some next : Option TaskPtr) ≠ some t := fun h => htn (Option.some.inj h).symm
      rw [if_neg htn]
      by_cases htp : t = prev
      · rw [if_pos htp]
        exact ⟨fun h => absurd h (by decide), fun h => absurd h hne⟩
      · rw [if_neg htp]
        simp only [hne, iff_false]
        exact fun hr => htp (hcur t ((hi.running_iff t).mp hr))
  parked_iff t := by
    dsimp only
    rw [hsw.state]
    by_cases htn : t = next
    · rw [if_pos htn, hi.parked_iff, htn, hnext]; decide
    · rw [if_neg htn]
      by_cases htp : t = prev
      · rw [if_pos htp, hi.parked_iff, htp]
        exact ⟨fun hb => absurd hb hprev, fun hb => absurd hb (by decide)⟩
      · rw [if_neg htp]; exact hi.parked_iff t
  exited_empty := hi.exited_empty
  startHead := hsw.startHead

theorem Inv.prev_not_blocked (hi : h.Inv K) {t : TaskPtr} (hc : h.sched.current = some t) :
    h.sched.stateOf t ≠ .blocked := by
  rw [(hi.running_iff t).mpr hc]; decide

theorem Inv.tick (hi : h.Inv K) (cpu : TaskRegs) :
    ({ h with sched := schedTick K cpu h.sched } : SchedHistory).Inv K := by
  cases hc : h.sched.current with
  | none =>
    have he : schedTick K cpu h.sched = h.sched := by unfold schedTick; rw [hc]
    rw [he]; exact hi
  | some cur =>
    rcases schedTick_cases cpu hc hi.startHead with ⟨n, he⟩ | ⟨next, hr, -, hsw⟩
    · rw [he]
      refine hi.congr (fun t => stateOf_setTicks ..) rfl fun t ht => ?_
      exact hi.startHead t ((atStart_setTicks _ _ _ _ _).mp ht)
    · refine hi.switched (hi.prev_not_blocked hc) (fun t ht => ?_) hr hsw
      exact (Option.some.inj (hc.symm.trans ht)).symm

theorem Inv.yield (hi : h.Inv K) (cpu : TaskRegs) :
    ({ h with sched := schedYield K cpu h.sched } : SchedHistory).Inv K := by
  cases hc : h.sched.current with
  | none =>
    have he : schedYield K cpu h.sched = h.sched := by unfold schedYield; rw [hc]
    rw [he]; exact hi
  | some cur =>
    rcases schedYield_cases cpu hc hi.startHead with he | ⟨next, hr, -, hsw⟩
    · rw [he]; exact hi
    · refine hi.switched (hi.prev_not_blocked hc) (fun t ht => ?_) hr hsw
      exact (Option.some.inj (hc.symm.trans ht)).symm

theorem Inv.add (hi : h.Inv K) (t : TaskPtr) :
    ({ h with sched := schedAdd h.sched t } : SchedHistory).Inv K := by
  unfold schedAdd
  split
  · exact hi
  · refine hi.congr (fun _ => rfl) rfl fun u hu => ?_
    have hh := hi.startHead u hu
    change (h.sched.runQueue ++ [t]).head? = some u
    rw [List.head?_append, hh]; rfl

theorem Inv.start (hi : h.Inv K) (cpu : TaskRegs) {c : SchedCall} (hop : c.op = .start)
    (ha : h.Allowed c) : ({ h with sched := schedStart K cpu h.sched } : SchedHistory).Inv K := by
  cases hq : h.sched.runQueue.head? with
  | none =>
    have he : schedStart K cpu h.sched = h.sched := by
      unfold schedStart; rw [List.head?_eq_none_iff.mp hq]
    rw [he]; exact hi
  | some first =>
    obtain ⟨hp, hc⟩ : first ∉ h.parked ∧ _ := by
      have ha' := ha
      unfold Allowed at ha'
      rw [hop] at ha'
      exact ha' first hq
    have hb : h.sched.stateOf first ≠ .blocked := fun hb => hp ((hi.parked_iff first).mpr hb)
    have hcur : ∀ t, h.sched.current = some t → t = first := by
      intro t ht
      rcases hc with hc | hc
      · rw [hc] at ht; cases ht
      · exact Option.some.inj (ht.symm.trans hc)
    rcases schedStart_cases cpu hq hi.startHead with he | ⟨second, hr, -, hsw⟩
    · rw [he]
      refine ⟨fun t => ?_, fun t => ?_, hi.exited_empty, fun t ht => ?_⟩
      · dsimp only
        rw [stateOf_startFirst]
        change _ ↔ some first = some t
        by_cases ht : t = first
        · simp [ht]
        · rw [if_neg ht]
          constructor
          · intro hrun; exact absurd (hcur t ((hi.running_iff t).mp hrun)) ht
          · intro hf; exact absurd (Option.some.inj hf).symm ht
      · dsimp only
        rw [stateOf_startFirst]
        by_cases ht : t = first
        · rw [if_pos ht, ht]
          exact ⟨fun h => absurd h hp, fun h => absurd h (by decide)⟩
        · rw [if_neg ht]; exact hi.parked_iff t
      · exact hi.startHead t ((atStart_setState _ _ _ _ _).mp ht)
    · exact hi.switched hb hcur hr hsw

theorem Inv.block (hi : h.Inv K) (cpu : TaskRegs) {t : TaskPtr} (hne : h.sched.current ≠ some t) :
    ({ h with sched := schedBlock K cpu h.sched (some t), parked := insert t h.parked } :
      SchedHistory).Inv K := by
  have he : schedBlock K cpu h.sched (some t) = h.sched.setState t .blocked := by
    unfold schedBlock; exact if_neg hne
  refine ⟨fun u => ?_, fun u => ?_, hi.exited_empty, fun u hu => ?_⟩
  · dsimp only
    rw [he, stateOf_setState, setState_current]
    by_cases hu : u = t
    · simp [hu, hne]
    · rw [if_neg hu]; exact hi.running_iff u
  · dsimp only
    rw [he, stateOf_setState, Finset.mem_insert]
    by_cases hu : u = t
    · simp [hu]
    · simp only [hu, false_or, if_false]; exact hi.parked_iff u
  · dsimp only at hu ⊢
    rw [he] at hu ⊢
    exact hi.startHead u ((atStart_setState _ _ _ _ _).mp hu)

theorem Inv.unblock (hi : h.Inv K) (t : TaskPtr) :
    ({ h with sched := schedUnblock h.sched (some t), parked := h.parked.erase t } :
      SchedHistory).Inv K := by
  unfold schedUnblock
  dsimp only
  by_cases hb : h.sched.stateOf t = .blocked
  · rw [if_pos hb]
    refine ⟨fun u => ?_, fun u => ?_, hi.exited_empty, fun u hu => ?_⟩
    · dsimp only
      rw [stateOf_setState, setState_current]
      by_cases hu : u = t
      · rw [hu, if_pos rfl, ← hi.running_iff, hb]; decide
      · rw [if_neg hu]; exact hi.running_iff u
    · dsimp only
      rw [stateOf_setState, Finset.mem_erase]
      by_cases hu : u = t
      · simp [hu]
      · simp only [ne_eq, hu, not_false_eq_true, true_and, if_false]; exact hi.parked_iff u
    · exact hi.startHead u ((atStart_setState _ _ _ _ _).mp hu)
  · rw [if_neg hb]
    have ht : t ∉ h.parked := fun ht => hb ((hi.parked_iff t).mp ht)
    rw [Finset.erase_eq_of_notMem ht]
    exact hi

theorem Inv.step (hi : h.Inv K) {c : SchedCall} (ha : h.Allowed c) : (h.step K c).Inv K := by
  obtain ⟨op, cpu⟩ := c
  cases op with
  | add t => exact hi.add t
  | start => exact hi.start cpu rfl ha
  | tick => exact hi.tick cpu
  | yield => exact hi.yield cpu
  | block t =>
    cases t with
    | none => exact hi
    | some t => exact hi.block cpu ha
  | unblock t =>
    cases t with
    | none => exact hi
    | some t => exact hi.unblock t
  | exit =>
    have hc : h.sched.current = none := ha
    have he : sysExit K cpu h.sched = h.sched := by unfold sysExit; rw [hc]
    unfold SchedHistory.step schedStep
    simp only [he, hc]
    exact hi

/-! ## The calls that break the property -/

theorem not_safe_block (hi : h.Inv K) (cpu : TaskRegs) {t : TaskPtr}
    (hc : h.sched.current = some t) : ¬ (h.step K ⟨.block (some t), cpu⟩).Safe := by
  intro hsafe
  obtain ⟨hnr, -, hnc⟩ := hsafe.parked t (Finset.mem_insert_self ..)
  have he : schedBlock K cpu h.sched (some t) = schedYield K cpu (h.sched.setState t .blocked) := by
    unfold schedBlock; exact if_pos hc
  change (schedBlock K cpu h.sched (some t)).stateOf t ≠ .ready at hnr
  change (schedBlock K cpu h.sched (some t)).current ≠ some t at hnc
  have hs : (h.sched.setState t .blocked).StartHead K := fun u hu =>
    hi.startHead u ((atStart_setState _ _ _ _ _).mp hu)
  rw [he] at hnr hnc
  rcases schedYield_cases cpu (s := h.sched.setState t .blocked) hc hs with he | ⟨next, -, hne, hsw⟩
  · exact hnc (by rw [he]; exact hc)
  · exact hnr (by rw [hsw.state, if_neg hne.symm, if_pos rfl])

theorem not_safe_exit (hi : h.Inv K) (cpu : TaskRegs) {t : TaskPtr}
    (hc : h.sched.current = some t) : ¬ (h.step K ⟨.exit, cpu⟩).Safe := by
  intro hsafe
  have hex : t ∈ (h.step K ⟨.exit, cpu⟩).exited := by
    simp [SchedHistory.step, hc]
  obtain ⟨hnr, -⟩ := hsafe.exited t hex
  have he : (h.step K ⟨.exit, cpu⟩).sched = schedYield K cpu (h.sched.setState t .dead) := by
    change sysExit K cpu h.sched = _
    unfold sysExit; rw [hc]
  have hs : (h.sched.setState t .dead).StartHead K := fun u hu =>
    hi.startHead u ((atStart_setState _ _ _ _ _).mp hu)
  have hrun := hsafe.current_running t
  rw [he] at hnr hrun
  rcases schedYield_cases cpu (s := h.sched.setState t .dead) hc hs with he | ⟨next, -, hne, hsw⟩
  · rw [he, stateOf_setState, if_pos rfl] at hrun
    exact absurd (hrun hc) (by decide)
  · exact hnr (by rw [hsw.state, if_neg hne.symm, if_pos rfl])

theorem not_safe_start (hi : h.Inv K) (cpu : TaskRegs) {first : TaskPtr}
    (hq : h.sched.runQueue.head? = some first)
    (hbad : first ∈ h.parked ∨ ∃ t, h.sched.current = some t ∧ t ≠ first) :
    ¬ (h.step K ⟨.start, cpu⟩).Safe := by
  intro hsafe
  have hunique : ∀ t u, (schedStart K cpu h.sched).stateOf t = .running →
    (schedStart K cpu h.sched).stateOf u = .running → t = u := hsafe.running_unique
  have hparked : first ∈ h.parked → (schedStart K cpu h.sched).stateOf first ≠ .ready ∧
      (schedStart K cpu h.sched).stateOf first ≠ .running := fun hp =>
    ⟨(hsafe.parked first hp).1, (hsafe.parked first hp).2.1⟩
  rcases schedStart_cases cpu hq hi.startHead with he | ⟨second, hr, hne, hsw⟩
  · rw [he] at hunique hparked
    have hfirst : (startFirst h.sched first).stateOf first = .running := by
      rw [stateOf_startFirst, if_pos rfl]
    rcases hbad with hp | ⟨t, ht, hne⟩
    · exact (hparked hp).2 hfirst
    · refine hne (hunique t first ?_ hfirst)
      rw [stateOf_startFirst, if_neg hne]
      exact (hi.running_iff t).mpr ht
  · rcases hbad with hp | ⟨t, ht, htf⟩
    · exact (hparked hp).1 (by rw [hsw.state, if_neg hne.symm, if_pos rfl])
    · have hrun := (hi.running_iff t).mpr ht
      have hts : t ≠ second := by
        rintro rfl
        rw [hr] at hrun
        exact absurd hrun (by decide)
      refine hts (hunique t second ?_ ?_)
      · rw [hsw.state, if_neg hts, if_neg htf]; exact hrun
      · rw [hsw.state, if_pos rfl]

theorem Inv.safe_step_iff (hi : h.Inv K) (c : SchedCall) : (h.step K c).Safe ↔ h.Allowed c := by
  constructor
  · intro hsafe
    obtain ⟨op, cpu⟩ := c
    cases op with
    | block t =>
      cases t with
      | none => trivial
      | some t => exact fun hc => not_safe_block hi cpu hc hsafe
    | exit =>
      change h.sched.current = none
      cases hc : h.sched.current with
      | none => rfl
      | some t => exact absurd hsafe (not_safe_exit hi cpu hc)
    | start =>
      intro first hq
      constructor
      · exact fun hp => not_safe_start hi cpu hq (Or.inl hp) hsafe
      · cases hc : h.sched.current with
        | none => exact Or.inl rfl
        | some t =>
          right
          by_contra hne
          exact not_safe_start hi cpu hq (Or.inr ⟨t, hc, fun he => hne (by rw [he])⟩) hsafe
    | _ => trivial
  · exact fun ha => (hi.step ha).safe

end SchedHistory

/-- The scheduler as it is before the first call: `sched_init` has emptied the queue, and every
task in the table is unused or as its creation left it, READY and never switched to. -/
structure FreshSched where
  sched : Sched
  runQueue : sched.runQueue = []
  current : sched.current = none
  state : ∀ t, sched.stateOf t = .unused ∨ sched.stateOf t = .ready
  stack : ∀ t, (sched.taskTable t).regs.rsp = (sched.taskTable t).kstackTop

/-- The history that begins with a fresh scheduler. -/
def FreshSched.history (f : FreshSched) : SchedHistory := ⟨f.sched, ∅, ∅⟩

theorem FreshSched.inv (f : FreshSched) : f.history.Inv K where
  running_iff t := by
    change f.sched.stateOf t = .running ↔ f.sched.current = some t
    rw [f.current]
    rcases f.state t with h | h <;> simp [h]
  parked_iff t := by
    change t ∈ (∅ : Finset TaskPtr) ↔ f.sched.stateOf t = .blocked
    rcases f.state t with h | h <;> simp [h]
  exited_empty := rfl
  startHead t ht := absurd (f.stack t) ht.2

/-- In every run of the scheduler from a fresh table, all states reached are safe if and only if
every call made is an allowed one. -/
theorem sched_run_safe_iff (K : KernelLayout) (f : FreshSched) (cs : List SchedCall) :
    AllSteps (SchedHistory.step K) (fun h c => (h.step K c).Safe) f.history cs ↔
      AllSteps (SchedHistory.step K) SchedHistory.Allowed f.history cs :=
  allSteps_congr _ (fun _ c hi => hi.safe_step_iff c) (fun _ _ hi ha => hi.step ha) f.inv cs

/-- A layout with four code addresses of the kernel and the direct map at its usual place. -/
def sampleLayout : KernelLayout where
  taskEntryTrampoline := 0xffffffff80010000
  schedStartResume := 0xffffffff80020000
  schedTickResume := 0xffffffff80020100
  schedYieldResume := 0xffffffff80020200
  hhdmOff := 0xffff800000000000
  trampoline_ne := by decide
  tick_ne := by decide
  yield_ne := by decide

theorem sampleLayout_tick_ne_trampoline :
    sampleLayout.schedTickResume ≠ sampleLayout.taskEntryTrampoline := by decide

def zeroRegs : TaskRegs := ⟨0, 0, 0, 0, 0, 0, 0, 0⟩

/-- The idle task and one user task, both READY, before they are added to the queue. -/
def twoTasks : FreshSched where
  sched :=
    { taskTable := fun t => ⟨t.val.toUInt32, if t.val < 2 then .ready else .unused, 0, 0, 0,
        zeroRegs, 10⟩
      runQueue := []
      currentIdx := 0
      current := none
      cr3 := 0
      rsp0 := 0 }
  runQueue := rfl
  current := rfl
  state := by decide
  stack := by decide

/-- The idle task and a user task are added and started, and the user task exits: it is READY. -/
theorem sched_exit_not_safe :
    ¬ AllSteps (SchedHistory.step sampleLayout) (fun h c => (h.step sampleLayout c).Safe)
      twoTasks.history [⟨.add 0, zeroRegs⟩, ⟨.add 1, zeroRegs⟩, ⟨.start, zeroRegs⟩,
        ⟨.exit, zeroRegs⟩] := by
  rintro ⟨-, -, -, h, -⟩
  exact (h.exited 1 (by decide)).1 (by decide)

end StyxOS
