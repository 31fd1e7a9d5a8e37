import StyxOS.Snapshot.Create
import StyxOS.Snapshot.Restore

/-! # Resuming on another task table

`snapshot_restore` for whatever tasks and spaces there are when it is called. A
task that is not there is created, under an identifier of its own and with its
stack page alone, or its word in the run queue is left as the stack held it; a
page whose task or mapping is not there is skipped. None of this shows in the
code returned: a session is resumed exactly when the tasks and the pages were
there before, or come to be there by the way tasks are created.
-/

namespace StyxOS

open ByteMem

/-! ## The restore -/

/-- What a restore depends on besides the state: whether its buffer is allocated, the stack bytes
that follow `header_buf`, what the words of its array of tasks point to, and the allocations made
for each record. -/
structure ResumeEnv where
  allocated : Bool
  tail : Bytes 88
  stackTasks : ℕ → Option TaskPtr
  allocs : ℕ → CreateAllocs

namespace ResumeState

def findTask (m : ResumeState) (a : CreateAllocs) (st : SnapshotTask) :
    Option (Option TaskPtr × ResumeState) :=
  match taskGet m.taskTable st.id with
  | some t => some (some t, m)
  | none => if st.hasPml4 ≠ 0 then m.taskCreateUser a st.regs.rip else some m.taskCreateKernel

/-- Writing a record back to the task, where there is one. -/
def writeBack (m : ResumeState) (st : SnapshotTask) : Option TaskPtr → ResumeState
  | some t => { m with toRamSession := restoreTask m.toRamSession t st }
  | none => m

/-- The loop over the task records, with what it leaves in the array of tasks. -/
def resumeTasks (env : ResumeEnv) :
    ℕ → List SnapshotTask → ResumeState → Option (List (Option TaskPtr) × ResumeState)
  | _, [], m => some ([], m)
  | i, st :: sts, m => do
    let (t, m) ← m.findTask (env.allocs i) st
    let (ts, m) ← resumeTasks env (i + 1) sts (m.writeBack st t)
    some (t.or (env.stackTasks i) :: ts, m)

/-- The part of `snapshot_restore` after verification. -/
def resumeImage (env : ResumeEnv) (img : SnapshotImage) (m : ResumeState) : Option ResumeState := do
  let header := Layout.header.decode (img.header.1 ++ env.tail.1)
  let m := { m with epPool := header.capPool, epPoolUsed := header.capPoolUsed }
  let buf := img.blocks.flatMap (·.1)
  let (tasks, m) ← resumeTasks env 0 (Layout.task.decodeList header.taskCount.toNat buf) m
  let m := { m with runQueue := tasks.reduceOption, queueWords := tasks }
  let pages := Layout.page.decodeList header.pageCount.toNat
    (buf.drop (header.taskCount.toNat * Layout.task.size))
  some { m with toRamSession := pages.foldl restorePage m.toRamSession }

/-- `snapshot_restore`. -/
def snapshotResume (env : ResumeEnv) (m : ResumeState) : Option (ℤ × ResumeState) :=
  match readImage m.gcmCtx m.oram with
  | none => some (-1, m)
  | some img => if !env.allocated then some (-1, m) else (m.resumeImage env img).map (0, ·)

end ResumeState

/-! ## Slots in use -/

/-- `task_get` by the slots in use. -/
def spaceGet (spaces : TaskPtr → Option (UInt32 × UInt64)) (id : UInt32) : Option TaskPtr :=
  (List.finRange taskMaxTasks).find? fun t => (spaces t).any fun x => x.1 = id

section

variable {spaces : TaskPtr → Option (UInt32 × UInt64)} {id n : UInt32} {pml4 : UInt64} {t : TaskPtr}

theorem taskGet_eq_spaceGet (m : ResumeState) (id : UInt32) :
    taskGet m.taskTable id = spaceGet m.spaces id := by
  unfold taskGet spaceGet ResumeState.spaces Task.space
  congr 1
  funext t
  by_cases h : (m.taskTable t).state = .unused <;> simp [h]

theorem any_id_iff {x : Option (UInt32 × UInt64)} :
    (x.any fun y => y.1 = id) = true ↔ ∃ pml4, x = some (id, pml4) := by
  cases x with
  | none => simp
  | some y => simp [Prod.ext_iff]

theorem spaceGet_eq_none : spaceGet spaces id = none ↔ ∀ t pml4, spaces t ≠ some (id, pml4) := by
  rw [spaceGet, List.find?_eq_none]
  simp only [List.mem_finRange, forall_const, any_id_iff, not_exists, ne_eq]

theorem spaceGet_some (h : spaceGet spaces id = some t) : ∃ pml4, spaces t = some (id, pml4) := by
  have ht := List.find?_some h
  exact any_id_iff.mp ht

theorem spaceGet_update_of_ne (hfree : spaces t = none) (hne : n ≠ id) :
    spaceGet (Function.update spaces t (some (n, pml4))) id = spaceGet spaces id := by
  unfold spaceGet
  congr 1
  funext u
  by_cases hu : u = t
  · subst hu
    simp [hfree, hne]
  · rw [Function.update_of_ne hu]

theorem spaceGet_update_self (hnone : spaceGet spaces n = none) :
    spaceGet (Function.update spaces t (some (n, pml4))) n = some t := by
  cases hget : spaceGet (Function.update spaces t (some (n, pml4))) n with
  | none => exact absurd (Function.update_self ..) (spaceGet_eq_none.mp hget t pml4)
  | some u =>
    obtain ⟨p, hp⟩ := spaceGet_some hget
    by_cases hu : u = t
    · rw [hu]
    · rw [Function.update_of_ne hu] at hp
      exact absurd hp (spaceGet_eq_none.mp hnone u p)

end

/-! ## One record -/

/-- The record of a task in use. -/
def SnapshotTask.InUse (st : SnapshotTask) : Prop := TaskState.ofCode st.state ≠ .unused

/-- A task is created for the record if there is a slot for it. -/
def CanCreate (a : CreateAllocs) (st : SnapshotTask) : Prop := st.hasPml4 ≠ 0 → a.Succeeds

/-- The PML4 and the page tables after a task has been created for the record. -/
def Builds (a : CreateAllocs) (st : SnapshotTask) (m : ResumeState) (pml4 : UInt64)
    (pt : PageTables) : Prop :=
  if st.hasPml4 ≠ 0 then
    pml4 = a.newPml4 m.pageTables.hhdmOff ∧
      m.pageTables.createSpace pml4.toNat m.currentPml4.toNat a.ustack a.tables = some pt
  else pml4 = m.currentPml4 ∧ pt = m.pageTables

inductive ResumeStep (a : CreateAllocs) (st : SnapshotTask) (m : ResumeState) :
    Option TaskPtr → ResumeState → Prop

  | found {t : TaskPtr} {m' : ResumeState} (get : spaceGet m.spaces st.id = some t)
      (spaces : m'.spaces = m.spaces) (nextTaskId : m'.nextTaskId = m.nextTaskId)
      (current : m'.currentPml4 = m.currentPml4) (tables : m'.pageTables = m.pageTables) :
      ResumeStep a st m (some t) m'

  | created {t : TaskPtr} {m' : ResumeState} {pml4 : UInt64}
      (get : spaceGet m.spaces st.id = none) (can : CanCreate a st) (free : m.spaces t = none)
      (spaces : m'.spaces = Function.update m.spaces t (some (m.nextTaskId, pml4)))
      (nextTaskId : m'.nextTaskId = m.nextTaskId + 1)
      (current : m'.currentPml4 = m.currentPml4) (tables : Builds a st m pml4 m'.pageTables) :
      ResumeStep a st m (some t) m'

  | failed {m' : ResumeState} (get : spaceGet m.spaces st.id = none)
      (why : m.freeSlots = 0 ∨ ¬ CanCreate a st) (spaces : m'.spaces = m.spaces)
      (current : m'.currentPml4 = m.currentPml4)
      (tables : m.pageTables.SameOff (a.newTables m.pageTables.hhdmOff) m'.pageTables) :
      ResumeStep a st m none m'

section

variable {env : ResumeEnv} {a : CreateAllocs} {st : SnapshotTask} {sts : List SnapshotTask}
  {m m₁ m' : ResumeState} {t : TaskPtr} {o : Option TaskPtr} {i : ℕ} {ws : List (Option TaskPtr)}

theorem spaces_writeBack (hst : st.InUse) (ht : m.spaces t ≠ none) :
    (m.writeBack st (some t)).spaces = m.spaces := by
  have hused : (m.taskTable t).state ≠ .unused := fun h => ht (Task.space_eq_none.mpr h)
  have hslot : (m.writeBack st (some t)).spaces = Function.update m.spaces t (m.spaces t) := by
    refine spaces_of_slot ?_ ?_
    · intro u hu
      exact Function.update_of_ne hu _ _
    · have hback : (m.writeBack st (some t)).taskTable t =
          { m.taskTable t with
            state := .ofCode st.state
            ticks := st.ticks
            kstackTop := st.kstackTop
            regs := st.regs } := Function.update_self _ _ _
      rw [hback, Task.space, if_neg hst, ResumeState.spaces, Task.space_of_ne hused]
  rw [hslot, Function.update_eq_self]

theorem resumeStep_of_findTask (hst : st.InUse) (h : m.findTask a st = some (o, m₁)) :
    ResumeStep a st m o (m₁.writeBack st o) := by
  unfold ResumeState.findTask at h
  rw [taskGet_eq_spaceGet] at h
  cases hget : spaceGet m.spaces st.id with
  | some t =>
    rw [hget] at h
    obtain ⟨rfl, rfl⟩ := Prod.mk.inj (Option.some.inj h)
    obtain ⟨pml4, ht⟩ := spaceGet_some hget
    exact .found hget (spaces_writeBack hst (by rw [ht]; simp)) rfl rfl rfl
  | none =>
    rw [hget] at h
    dsimp only at h
    by_cases hpml4 : st.hasPml4 ≠ 0
    · rw [if_pos hpml4] at h
      cases taskCreateUser_effect h with
      | failed why spaces current tables =>
        exact .failed hget (why.imp_right fun hn hc => hn (hc hpml4)) spaces current tables
      | created ok free spaces nextTaskId current tables =>
        have hback := spaces_writeBack hst (by rw [spaces, Function.update_self]; simp)
        refine .created hget (fun _ => ok) free (hback.trans spaces) nextTaskId current ?_
        rw [Builds, if_pos hpml4]
        exact ⟨rfl, tables⟩
    · rw [if_neg hpml4] at h
      have heffect := taskCreateKernel_effect (m := m)
      rw [Option.some.inj h] at heffect
      cases heffect with
      | failed why spaces current tables =>
        have hfull := why.resolve_right (not_not.mpr trivial)
        exact .failed hget (.inl hfull) spaces current ⟨tables.1, fun x _ => tables.2 x (by simp)⟩
      | created ok free spaces nextTaskId current tables =>
        have hback := spaces_writeBack hst (by rw [spaces, Function.update_self]; simp)
        refine .created hget (fun hc => absurd hc hpml4) free (hback.trans spaces) nextTaskId
          current ?_
        rw [Builds, if_neg hpml4]
        exact ⟨rfl, tables⟩

/-- A run of the loop over a record and those after it. -/
theorem resumeTasks_cons (hst : st.InUse)
    (h : ResumeState.resumeTasks env i (st :: sts) m = some (ws, m')) :
    ∃ o m₁ ws', ResumeStep (env.allocs i) st m o m₁ ∧
      ResumeState.resumeTasks env (i + 1) sts m₁ = some (ws', m') ∧
      ws = o.or (env.stackTasks i) :: ws' := by
  rw [ResumeState.resumeTasks, Option.bind_eq_bind] at h
  obtain ⟨⟨o, m₁⟩, hfind, h⟩ := Option.bind_eq_some_iff.mp h
  obtain ⟨⟨ws', m₂⟩, htail, h⟩ := Option.bind_eq_some_iff.mp h
  obtain ⟨rfl, rfl⟩ := Prod.mk.inj (Option.some.inj h)
  exact ⟨o, m₁.writeBack st o, ws', resumeStep_of_findTask hst hfind, htail, rfl⟩

theorem ResumeStep.mono {u : TaskPtr} {x : UInt32 × UInt64} (h : ResumeStep a st m o m₁)
    (hu : m.spaces u = some x) : m₁.spaces u = some x := by
  cases h with
  | found get spaces => rw [spaces, hu]
  | failed get why spaces => rw [spaces, hu]
  | @created t _ _ get can free spaces =>
    have hne : u ≠ t := by
      rintro rfl
      rw [free] at hu
      cases hu
    rw [spaces, Function.update_of_ne hne, hu]

theorem ResumeStep.new {u : TaskPtr} {x : UInt32 × UInt64} (h : ResumeStep a st m o m₁)
    (hu : m₁.spaces u = some x) : m.spaces u = some x ∨ o = some u := by
  cases h with
  | found get spaces => exact .inl (spaces ▸ hu)
  | failed get why spaces => exact .inl (spaces ▸ hu)
  | @created t _ _ get can free spaces =>
    by_cases hut : u = t
    · exact .inr (by rw [hut])
    · rw [spaces, Function.update_of_ne hut] at hu
      exact .inl hu

theorem resumeTasks_mono (hin : ∀ st ∈ sts, st.InUse) {u : TaskPtr} {x : UInt32 × UInt64}
    (h : ResumeState.resumeTasks env i sts m = some (ws, m')) (hu : m.spaces u = some x) :
    m'.spaces u = some x := by
  induction sts generalizing i m ws with
  | nil =>
    obtain ⟨-, rfl⟩ := Prod.mk.inj (Option.some.inj h)
    exact hu
  | cons st sts ih =>
    obtain ⟨hst, hsts⟩ := List.forall_mem_cons.mp hin
    obtain ⟨o, m₁, ws', hstep, htail, rfl⟩ := resumeTasks_cons hst h
    exact ih hsts htail (hstep.mono hu)

theorem resumeTasks_new (hin : ∀ st ∈ sts, st.InUse) {u : TaskPtr} {x : UInt32 × UInt64}
    (h : ResumeState.resumeTasks env i sts m = some (ws, m')) (hu : m'.spaces u = some x) :
    m.spaces u = some x ∨ some u ∈ ws := by
  induction sts generalizing i m ws with
  | nil =>
    obtain ⟨-, rfl⟩ := Prod.mk.inj (Option.some.inj h)
    exact .inl hu
  | cons st sts ih =>
    obtain ⟨hst, hsts⟩ := List.forall_mem_cons.mp hin
    obtain ⟨o, m₁, ws', hstep, htail, rfl⟩ := resumeTasks_cons hst h
    rcases ih hsts htail with hu | hu
    · rcases hstep.new hu with hu | rfl
      · exact .inl hu
      · right
        simp
    · exact .inr (List.mem_cons_of_mem _ hu)

end

/-! ## The tasks -/

/-- The word points to a task in use that carries the identifier of the record. -/
def Carries (m : ResumeState) (w : Option TaskPtr) (st : SnapshotTask) : Prop :=
  ∃ t pml4, w = some t ∧ m.spaces t = some (st.id, pml4)

/-- The tasks of the records are there, or are created under their own identifiers: from record `i`
on, with the next identifier and the number of free slots. -/
def ResumeState.TasksResume (m : ResumeState) (env : ResumeEnv) :
    ℕ → UInt32 → ℕ → List SnapshotTask → Prop
  | _, _, _, [] => True
  | i, next, free, st :: sts =>
    if (taskGet m.taskTable st.id).isSome then TasksResume m env (i + 1) next free sts
    else (st.id = next ∧ 0 < free ∧ CanCreate (env.allocs i) st) ∧
      TasksResume m env (i + 1) (next + 1) (free - 1) sts

section

variable {env : ResumeEnv} {a : CreateAllocs} {st : SnapshotTask} {sts : List SnapshotTask}
  {m m₁ m' : ResumeState} {t : TaskPtr} {o : Option TaskPtr} {i : ℕ} {ws : List (Option TaskPtr)}

theorem tasksResume_congr {next : UInt32} {free : ℕ}
    (h : ∀ st ∈ sts, spaceGet m₁.spaces st.id = spaceGet m.spaces st.id) :
    m₁.TasksResume env i next free sts ↔ m.TasksResume env i next free sts := by
  induction sts generalizing i next free with
  | nil => exact Iff.rfl
  | cons st sts ih =>
    obtain ⟨hst, hsts⟩ := List.forall_mem_cons.mp h
    rw [ResumeState.TasksResume, ResumeState.TasksResume, taskGet_eq_spaceGet, taskGet_eq_spaceGet,
      hst, ih hsts, ih hsts]

theorem freeSlots_congr (h : m₁.spaces = m.spaces) : m₁.freeSlots = m.freeSlots := by
  rw [ResumeState.freeSlots, h, ResumeState.freeSlots]

theorem freeSlots_created {x : UInt32 × UInt64} (hfree : m.spaces t = none)
    (h : m₁.spaces = Function.update m.spaces t (some x)) :
    0 < m.freeSlots ∧ m₁.freeSlots = m.freeSlots - 1 := by
  have ht : t ∈ Finset.univ.filter fun u => m.spaces u = none := by simpa using hfree
  have herase : (Finset.univ.filter fun u => m₁.spaces u = none) =
      (Finset.univ.filter fun u => m.spaces u = none).erase t := by
    ext u
    rw [h]
    by_cases hu : u = t <;> simp [hu]
  constructor
  · exact Finset.card_pos.mpr ⟨t, ht⟩
  · rw [ResumeState.freeSlots, herase, Finset.card_erase_of_mem ht, ResumeState.freeSlots]

theorem not_carries_of_get {w : Option TaskPtr} (hin : ∀ st ∈ sts, st.InUse)
    (hfresh : st.id ∉ sts.map (·.id)) (h : ResumeState.resumeTasks env i sts m = some (ws, m'))
    (hws : List.Forall₂ (Carries m') ws sts) (hget : spaceGet m.spaces st.id = none) :
    ¬ Carries m' w st := by
  rintro ⟨t, pml4, -, ht⟩
  rcases resumeTasks_new hin h ht with ht' | hmem
  · exact spaceGet_eq_none.mp hget t pml4 ht'
  · -- the task is in the array for a later record, whose identifier is another one
    obtain ⟨k, hk, hword⟩ := List.mem_iff_getElem.mp hmem
    obtain ⟨hlen, hcarries⟩ := List.forall₂_iff_get.mp hws
    obtain ⟨u, p, hu, hid⟩ := hcarries k hk (hlen ▸ hk)
    obtain rfl : t = u := Option.some.inj (hword.symm.trans hu)
    have hsame := (Prod.mk.inj (Option.some.inj (ht.symm.trans hid))).1
    exact hfresh (List.mem_map.mpr ⟨_, List.get_mem sts _, hsame.symm⟩)

/-- The run queue has the saved tasks exactly when they were there or are created under their own
identifiers. -/
theorem resumeTasks_carries_iff (hin : ∀ st ∈ sts, st.InUse) (hnodup : (sts.map (·.id)).Nodup)
    (h : ResumeState.resumeTasks env i sts m = some (ws, m')) :
    List.Forall₂ (Carries m') ws sts ↔ m.TasksResume env i m.nextTaskId m.freeSlots sts := by
  induction sts generalizing i m ws with
  | nil =>
    obtain ⟨rfl, rfl⟩ := Prod.mk.inj (Option.some.inj h)
    simp [ResumeState.TasksResume]
  | cons st sts ih =>
    obtain ⟨hst, hsts⟩ := List.forall_mem_cons.mp hin
    obtain ⟨hfresh, hnodup⟩ := List.nodup_cons.mp hnodup
    obtain ⟨o, m₁, ws', hstep, htail, rfl⟩ := resumeTasks_cons hst h
    have hrest := ih hsts hnodup htail
    rw [List.forall₂_cons, ResumeState.TasksResume, taskGet_eq_spaceGet]
    cases hstep with
    | @found t _ get spaces nextTaskId current tables =>
      obtain ⟨pml4, ht⟩ := spaceGet_some get
      have hcarry : Carries m' ((some t).or (env.stackTasks i)) st :=
        ⟨t, pml4, rfl, resumeTasks_mono hsts htail (spaces ▸ ht)⟩
      rw [get, Option.isSome_some, if_pos rfl, and_iff_right hcarry, hrest, nextTaskId,
        freeSlots_congr spaces]
      exact tasksResume_congr fun st' _ => by rw [spaces]
    | @created t _ pml4 get can free spaces nextTaskId current tables =>
      obtain ⟨hpos, hless⟩ := freeSlots_created free spaces
      have ht : m'.spaces t = some (m.nextTaskId, pml4) :=
        resumeTasks_mono hsts htail (by rw [spaces, Function.update_self])
      have hcarry : Carries m' ((some t).or (env.stackTasks i)) st ↔ st.id = m.nextTaskId := by
        constructor
        · rintro ⟨u, p, hu, hid⟩
          cases hu
          rw [ht] at hid
          exact (Prod.mk.inj (Option.some.inj hid)).1.symm
        · intro hid
          exact ⟨t, pml4, rfl, by rw [ht, hid]⟩
      rw [get, if_neg (by simp), hcarry, hrest, nextTaskId, hless]
      have hlook : st.id = m.nextTaskId → (m₁.TasksResume env (i + 1) (m.nextTaskId + 1)
          (m.freeSlots - 1) sts ↔ m.TasksResume env (i + 1) (m.nextTaskId + 1)
          (m.freeSlots - 1) sts) := by
        intro hid
        refine tasksResume_congr fun st' hst' => ?_
        rw [spaces, spaceGet_update_of_ne free]
        intro heq
        exact hfresh (List.mem_map.mpr ⟨st', hst', (hid.trans heq).symm⟩)
      constructor
      · rintro ⟨hid, htasks⟩
        exact ⟨⟨hid, hpos, can⟩, (hlook hid).mp htasks⟩
      · rintro ⟨⟨hid, -, -⟩, htasks⟩
        exact ⟨hid, (hlook hid).mpr htasks⟩
    | failed get why spaces current tables =>
      rw [get, if_neg (by simp)]
      refine iff_of_false ?_ ?_
      · rintro ⟨hcarry, hws⟩
        exact not_carries_of_get hsts hfresh htail hws (spaces ▸ get) hcarry
      · rintro ⟨⟨-, hpos, hcan⟩, -⟩
        rcases why with hfull | hcant
        · omega
        · exact hcant hcan

end

end StyxOS
