import StyxOS.Sched.Safety

/-! # Page tables of the running task

While a task with page tables of its own runs, CR3 holds them. The scheduler
keeps this through every switch, because `task_switch` loads the tables of the
task that becomes current.
-/

namespace StyxOS

open Sched

def taskSpace (K : KernelLayout) (s : Sched) (t : TaskPtr) : UInt64 :=
  (s.taskTable t).pml4 - K.hhdmOff

def HasSpace (s : Sched) (t : TaskPtr) : Prop := (s.taskTable t).pml4 ≠ 0

instance (s : Sched) (t : TaskPtr) : Decidable (HasSpace s t) := inferInstanceAs (Decidable (_ ≠ _))

/-- No two tasks share page tables, and the running task's are the ones in force. -/
structure SpaceInv (K : KernelLayout) (s : Sched) : Prop where
  startHead : s.StartHead K
  separate : ∀ t u, HasSpace s t → (s.taskTable t).pml4 = (s.taskTable u).pml4 → t = u
  loaded : ∀ t, s.current = some t → HasSpace s t → s.cr3 = taskSpace K s t

variable {K : KernelLayout} {s s' : Sched}

theorem startHead_setState (h : s.StartHead K) (t : TaskPtr) (x : TaskState) :
    (s.setState t x).StartHead K := fun u hu => h u ((atStart_setState ..).mp hu)

theorem taskSpace_congr {t : TaskPtr} (h : (s'.taskTable t).fixed = (s.taskTable t).fixed) :
    taskSpace K s' t = taskSpace K s t := by
  unfold taskSpace
  rw [pml4_of_fixed h]

theorem hasSpace_congr {t : TaskPtr} (h : (s'.taskTable t).fixed = (s.taskTable t).fixed) :
    HasSpace s' t ↔ HasSpace s t := by
  unfold HasSpace
  rw [pml4_of_fixed h]

namespace SpaceInv

theorem taskSpace_inj (h : SpaceInv K s) {t u : TaskPtr} (ht : HasSpace s t)
    (he : taskSpace K s t = taskSpace K s u) : t = u := by
  refine h.separate t u ht ?_
  unfold taskSpace at he
  have := congrArg (· + K.hhdmOff) he
  simpa using this

theorem congr (h : SpaceInv K s) (hfix : ∀ t, (s'.taskTable t).fixed = (s.taskTable t).fixed)
    (hstart : s'.StartHead K)
    (hload : ∀ t, s'.current = some t → HasSpace s t → s'.cr3 = taskSpace K s t) :
    SpaceInv K s' where
  startHead := hstart
  separate t u ht he := by
    rw [hasSpace_congr (hfix t)] at ht
    rw [pml4_of_fixed (hfix t), pml4_of_fixed (hfix u)] at he
    exact h.separate t u ht he
  loaded t hc ht := by
    rw [taskSpace_congr (hfix t)]
    exact hload t hc ((hasSpace_congr (hfix t)).mp ht)

theorem setState (h : SpaceInv K s) (t : TaskPtr) (x : TaskState) : SpaceInv K (s.setState t x) :=
  h.congr (fun _ => fixed_setState ..) (startHead_setState h.startHead t x) h.loaded

theorem setTicks (h : SpaceInv K s) (t : TaskPtr) (n : UInt32) : SpaceInv K (s.setTicks t n) :=
  h.congr (fun _ => fixed_setTicks ..) (fun u hu => h.startHead u ((atStart_setTicks ..).mp hu))
    h.loaded

theorem switched (h : SpaceInv K s) {prev next : TaskPtr} (hsw : Switched K s prev next s') :
    SpaceInv K s' := by
  refine h.congr hsw.fixed hsw.startHead fun t hc ht => ?_
  obtain rfl : next = t := Option.some.inj (hsw.current.symm.trans hc)
  rw [hsw.cr3, spaceOf, if_neg ht, taskSpace]

theorem yield (h : SpaceInv K s) (cpu : TaskRegs) : SpaceInv K (schedYield K cpu s) := by
  cases hc : s.current with
  | none => unfold schedYield; rwa [hc]
  | some cur =>
    rcases schedYield_cases cpu hc h.startHead with he | ⟨next, -, -, hsw⟩
    · rwa [he]
    · exact h.switched hsw

theorem tick (h : SpaceInv K s) (cpu : TaskRegs) : SpaceInv K (schedTick K cpu s) := by
  cases hc : s.current with
  | none => unfold schedTick; rwa [hc]
  | some cur =>
    rcases schedTick_cases cpu hc h.startHead with ⟨n, he⟩ | ⟨next, -, -, hsw⟩
    · rw [he]; exact h.setTicks cur n
    · exact h.switched hsw

theorem block (h : SpaceInv K s) (cpu : TaskRegs) (t : TaskPtr) :
    SpaceInv K (schedBlock K cpu s (some t)) := by
  unfold schedBlock
  dsimp only
  split
  · exact (h.setState t .blocked).yield cpu
  · exact h.setState t .blocked

theorem unblock (h : SpaceInv K s) (t : Option TaskPtr) : SpaceInv K (schedUnblock s t) := by
  unfold schedUnblock
  split
  · exact h
  · split
    · exact h.setState _ .ready
    · exact h

theorem exit (h : SpaceInv K s) (cpu : TaskRegs) : SpaceInv K (sysExit K cpu s) := by
  unfold sysExit
  split
  · exact h
  · exact (h.setState _ .dead).yield cpu

end SpaceInv

/-! ## The fixed parts of the tasks over a call -/

theorem schedYield_fixed (h : s.StartHead K) (cpu : TaskRegs) (t : TaskPtr) :
    ((schedYield K cpu s).taskTable t).fixed = (s.taskTable t).fixed := by
  cases hc : s.current with
  | none => unfold schedYield; rw [hc]
  | some cur =>
    rcases schedYield_cases cpu hc h with he | ⟨next, -, -, hsw⟩
    · rw [he]
    · exact hsw.fixed t

theorem schedTick_fixed (h : s.StartHead K) (cpu : TaskRegs) (t : TaskPtr) :
    ((schedTick K cpu s).taskTable t).fixed = (s.taskTable t).fixed := by
  cases hc : s.current with
  | none => unfold schedTick; rw [hc]
  | some cur =>
    rcases schedTick_cases cpu hc h with ⟨n, he⟩ | ⟨next, -, -, hsw⟩
    · rw [he]; exact fixed_setTicks ..
    · exact hsw.fixed t

theorem schedBlock_fixed (h : s.StartHead K) (cpu : TaskRegs) (u t : TaskPtr) :
    ((schedBlock K cpu s (some u)).taskTable t).fixed = (s.taskTable t).fixed := by
  unfold schedBlock
  dsimp only
  split
  · exact (schedYield_fixed (startHead_setState h _ _) cpu t).trans
      (fixed_setState ..)
  · exact fixed_setState ..

theorem schedUnblock_fixed (u : Option TaskPtr) (t : TaskPtr) :
    ((schedUnblock s u).taskTable t).fixed = (s.taskTable t).fixed := by
  unfold schedUnblock
  split
  · rfl
  · split
    · exact fixed_setState ..
    · rfl

theorem sysExit_fixed (h : s.StartHead K) (cpu : TaskRegs) (t : TaskPtr) :
    ((sysExit K cpu s).taskTable t).fixed = (s.taskTable t).fixed := by
  unfold sysExit
  split
  · rfl
  · exact (schedYield_fixed (startHead_setState h _ _) cpu t).trans
      (fixed_setState ..)

/-! ## What every entry point keeps -/

/-- What a step leaves as it is in the scheduler: the fixed parts of the tasks, and that only the
head of the queue can be suspended inside `sched_start`. -/
structure SchedKept (K : KernelLayout) (s s' : Sched) : Prop where
  fixed : ∀ t, (s'.taskTable t).fixed = (s.taskTable t).fixed
  startHead : s'.StartHead K

namespace SchedKept

variable {s s' : Sched} (hs : s.StartHead K)
include hs

theorem refl : SchedKept K s s := ⟨fun _ => rfl, hs⟩

theorem setState (t : TaskPtr) (x : TaskState) : SchedKept K s (s.setState t x) :=
  ⟨fun _ => fixed_setState .., startHead_setState hs t x⟩

theorem yield (cpu : TaskRegs) : SchedKept K s (schedYield K cpu s) := by
  refine ⟨schedYield_fixed hs cpu, ?_⟩
  cases hc : s.current with
  | none =>
    unfold schedYield
    rwa [hc]
  | some cur =>
    rcases schedYield_cases cpu hc hs with he | ⟨next, -, -, hsw⟩
    · rwa [he]
    · exact hsw.startHead

theorem tick (cpu : TaskRegs) : SchedKept K s (schedTick K cpu s) := by
  refine ⟨schedTick_fixed hs cpu, ?_⟩
  cases hc : s.current with
  | none =>
    unfold schedTick
    rwa [hc]
  | some cur =>
    rcases schedTick_cases cpu hc hs with ⟨n, he⟩ | ⟨next, -, -, hsw⟩
    · rw [he]
      exact fun t ht => hs t ((atStart_setTicks ..).mp ht)
    · exact hsw.startHead

theorem exit (cpu : TaskRegs) : SchedKept K s (sysExit K cpu s) := by
  refine ⟨sysExit_fixed hs cpu, ?_⟩
  unfold sysExit
  split
  · exact hs
  · exact (yield (startHead_setState hs _ .dead) cpu).startHead

theorem add (t : TaskPtr) : SchedKept K s (schedAdd s t) := by
  unfold schedAdd
  split
  · exact refl hs
  · refine ⟨fun _ => rfl, fun u hu => ?_⟩
    have hhead := hs u hu
    change (s.runQueue ++ [t]).head? = some u
    rw [List.head?_append, hhead]
    rfl

theorem start (cpu : TaskRegs) : SchedKept K s (schedStart K cpu s) := by
  cases hq : s.runQueue.head? with
  | none =>
    have he : schedStart K cpu s = s := by
      unfold schedStart
      rw [List.head?_eq_none_iff.mp hq]
    rw [he]
    exact refl hs
  | some first =>
    rcases schedStart_cases cpu hq hs with he | ⟨second, -, -, hsw⟩
    · rw [he]
      exact ⟨fun _ => fixed_setState .., fun t ht => hs t ((atStart_setState ..).mp ht)⟩
    · exact ⟨hsw.fixed, hsw.startHead⟩

theorem unblock (t : Option TaskPtr) : SchedKept K s (schedUnblock s t) := by
  refine ⟨schedUnblock_fixed t, ?_⟩
  unfold schedUnblock
  split
  · exact hs
  · split
    · exact startHead_setState hs _ _
    · exact hs

theorem block (cpu : TaskRegs) (t : TaskPtr) : SchedKept K s (schedBlock K cpu s (some t)) := by
  refine ⟨schedBlock_fixed hs cpu t, ?_⟩
  unfold schedBlock
  dsimp only
  split
  · exact (yield (startHead_setState hs _ _) cpu).startHead
  · exact startHead_setState hs _ _

end SchedKept

end StyxOS
