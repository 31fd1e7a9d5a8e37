import StyxOS.Snapshot.Resume

/-! # The frames of a resumed session

A page is copied to the frame that its address has in the space of its task.
Where the tasks can resume, that is the frame from before the restore if the
task was there, and one of the new space if the task is created: the loop over
the records writes no table that a walk from another task reads.
-/

namespace StyxOS

open ByteMem

/-! ## The frame of a page -/

/-- What a restore finds for an address under a PML4, with zero for nothing. -/
def spaceFrame (pt : PageTables) (pml4 virtAddr : UInt64) : ℕ :=
  if pml4 = 0 then 0 else pt.virtToPhys pml4.toNat virtAddr.toNat

def RamSession.pageFrame (s : RamSession) (p : SnapshotPage) : ℕ :=
  match taskGet s.taskTable p.taskId with
  | none => 0
  | some t => spaceFrame s.pageTables (s.taskTable t).pml4 p.virtAddr

namespace ResumeState

/-- The frame of an address in the space that a task gets when it is created for a record. -/
def newFrame (m : ResumeState) (a : CreateAllocs) (st : SnapshotTask) (virtAddr : UInt64) : ℕ :=
  if st.hasPml4 ≠ 0 then
    m.pageTables.newSpaceFrame m.currentPml4.toNat a.ustack virtAddr.toNat
  else spaceFrame m.pageTables m.currentPml4 virtAddr

/-- The frame of a page by the record of its task: where the task is there, or in a new space. -/
def resumeFrame (m : ResumeState) (env : ResumeEnv) : ℕ → List SnapshotTask → SnapshotPage → ℕ
  | _, [], _ => 0
  | i, st :: sts, p =>
    if st.id = p.taskId then
      if (taskGet m.taskTable st.id).isSome then m.pageFrame p
      else m.newFrame (env.allocs i) st p.virtAddr
    else resumeFrame m env (i + 1) sts p

/-- The current PML4, or that of a task in use. -/
def IsRoot (m : ResumeState) (root : UInt64) : Prop :=
  root = m.currentPml4 ∨ root ≠ 0 ∧ ∃ t id, m.spaces t = some (id, root)

/-- The frames that the allocators give for the records from `i` on are frames, those of a task that
is created are not given again, none is a table of the current space or of a task, and none of a
PML4 has the address NULL. -/
structure Fresh (env : ResumeEnv) (i : ℕ) (m : ResumeState) : Prop where
  nonnull : ∀ j, i ≤ j → (env.allocs j).pml4 ≠ 0 →
    (env.allocs j).newPml4 m.pageTables.hhdmOff ≠ 0
  frames : ∀ j, i ≤ j → ∀ f ∈ (env.allocs j).tables, f % 4096 = 0 ∧ f < 2 ^ 52
  nodup : ∀ j, i ≤ j → ((env.allocs j).newTables m.pageTables.hhdmOff).Nodup
  apart : ∀ j k, i ≤ j → j < k → (env.allocs j).Succeeds →
    ∀ x ∈ (env.allocs j).newTables m.pageTables.hhdmOff,
      x ∉ (env.allocs k).newTables m.pageTables.hhdmOff
  unread : ∀ j, i ≤ j → ∀ x ∈ (env.allocs j).newTables m.pageTables.hhdmOff,
    ∀ root, m.IsRoot root → ¬ m.pageTables.Reads 3 root.toNat x

end ResumeState

section

open ResumeState

variable {env : ResumeEnv} {a : CreateAllocs} {st : SnapshotTask} {sts : List SnapshotTask}
  {m m₁ m' : ResumeState} {t : TaskPtr} {o : Option TaskPtr} {i j : ℕ} {ws : List (Option TaskPtr)}
  {p : SnapshotPage} {pt pt' : PageTables} {root virtAddr : UInt64}

theorem pageFrame_eq {pml4 : UInt64} (hget : spaceGet m.spaces p.taskId = some t)
    (ht : m.spaces t = some (p.taskId, pml4)) :
    m.pageFrame p = spaceFrame m.pageTables pml4 p.virtAddr := by
  have hpml4 : (m.taskTable t).pml4 = pml4 := by
    unfold ResumeState.spaces Task.space at ht
    split at ht
    · cases ht
    · exact (Prod.mk.inj (Option.some.inj ht)).2
  rw [RamSession.pageFrame, taskGet_eq_spaceGet, hget]
  dsimp only
  rw [hpml4]

theorem spaceFrame_congr (hoff : pt'.hhdmOff = pt.hhdmOff)
    (h : ∀ y, pt.Reads 3 root.toNat y → pt'.word y = pt.word y) :
    spaceFrame pt' root virtAddr = spaceFrame pt root virtAddr := by
  rw [spaceFrame, spaceFrame, PageTables.virtToPhys_congr hoff h]

theorem newTables_of_succeeds {h : ℕ} (hs : a.Succeeds) :
    a.newTables h = (a.newPml4 h).toNat :: a.tables.map (· + h) := if_neg hs.2.2.1

namespace ResumeState

/-- What the space of a new user task comes to. -/
theorem Fresh.createSpace (hf : Fresh env i m) (hs : (env.allocs i).Succeeds)
    (h : m.pageTables.createSpace ((env.allocs i).newPml4 m.pageTables.hhdmOff).toNat
      m.currentPml4.toNat (env.allocs i).ustack (env.allocs i).tables = some pt') :
    ∃ f₃ f₂ f₁, (∀ f ∈ [f₃, f₂, f₁], f % 4096 = 0 ∧ f < 2 ^ 52) ∧
      [((env.allocs i).newPml4 m.pageTables.hhdmOff).toNat, f₃ + m.pageTables.hhdmOff,
        f₂ + m.pageTables.hhdmOff, f₁ + m.pageTables.hhdmOff].Nodup ∧
      (∀ x ∈ [((env.allocs i).newPml4 m.pageTables.hhdmOff).toNat, f₃ + m.pageTables.hhdmOff,
        f₂ + m.pageTables.hhdmOff, f₁ + m.pageTables.hhdmOff],
        x ∈ (env.allocs i).newTables m.pageTables.hhdmOff) ∧
      pt' = m.pageTables.newSpace ((env.allocs i).newPml4 m.pageTables.hhdmOff).toNat
        m.currentPml4.toNat (env.allocs i).ustack f₃ f₂ f₁ := by
  have hnodup := hf.nodup i le_rfl
  have hframes := hf.frames i le_rfl
  rw [newTables_of_succeeds hs] at hnodup ⊢
  obtain ⟨f₃, f₂, f₁, fs, htables, hspace⟩ := PageTables.createSpace_eq_some hframes hnodup h
  rw [htables] at hnodup hframes ⊢
  have hsub : [((env.allocs i).newPml4 m.pageTables.hhdmOff).toNat, f₃ + m.pageTables.hhdmOff,
      f₂ + m.pageTables.hhdmOff, f₁ + m.pageTables.hhdmOff].Sublist
      (((env.allocs i).newPml4 m.pageTables.hhdmOff).toNat ::
        (f₃ :: f₂ :: f₁ :: fs).map (· + m.pageTables.hhdmOff)) := by simp
  have hthree : ∀ f ∈ [f₃, f₂, f₁], f % 4096 = 0 ∧ f < 2 ^ 52 :=
    fun f hmem => hframes f (List.mem_append_left fs hmem)
  exact ⟨f₃, f₂, f₁, hthree, hnodup.sublist hsub, fun x hx => hsub.subset hx, hspace⟩

theorem Fresh.current_unread (hf : Fresh env i m) (hij : i ≤ j) {y : ℕ}
    (hy : m.pageTables.Reads 3 m.currentPml4.toNat y) :
    y ∉ (env.allocs j).newTables m.pageTables.hhdmOff :=
  fun hmem => hf.unread j hij y hmem _ (.inl rfl) hy

theorem Fresh.sameOff (hf : Fresh env i m) (h : ResumeStep (env.allocs i) st m o m₁) :
    m.pageTables.SameOff ((env.allocs i).newTables m.pageTables.hhdmOff) m₁.pageTables := by
  cases h with
  | found get spaces nextTaskId current tables =>
    rw [tables]
    exact ⟨rfl, fun _ _ => rfl⟩
  | failed get why spaces current tables => exact tables
  | created get can free spaces nextTaskId current tables =>
    unfold Builds at tables
    split at tables
    · rename_i hpml4
      obtain ⟨rfl, hbuilt⟩ := tables
      obtain ⟨f₃, f₂, f₁, -, -, hmem, hspace⟩ := hf.createSpace (can hpml4) hbuilt
      rw [hspace]
      refine ⟨rfl, fun x hx => ?_⟩
      exact PageTables.word_newSpace_of_notMem fun hfour => hx (hmem x hfour)
    · rw [tables.2]
      exact ⟨rfl, fun _ _ => rfl⟩

theorem Fresh.reads_iff (hf : Fresh env i m) (h : ResumeStep (env.allocs i) st m o m₁)
    (hroot : m.IsRoot root) {x : ℕ} :
    m₁.pageTables.Reads 3 root.toNat x ↔ m.pageTables.Reads 3 root.toNat x := by
  obtain ⟨hoff, hsame⟩ := hf.sameOff h
  exact PageTables.reads_congr hoff fun y hy =>
    hsame y fun hmem => hf.unread i le_rfl y hmem root hroot hy

theorem isRoot_step (h : ResumeStep a st m o m₁) (hroot : m₁.IsRoot root) :
    m.IsRoot root ∨ a.Succeeds ∧ root = a.newPml4 m.pageTables.hhdmOff ∧
      m.pageTables.createSpace root.toNat m.currentPml4.toNat a.ustack a.tables =
        some m₁.pageTables := by
  cases h with
  | found get spaces nextTaskId current tables =>
    left
    rwa [IsRoot, spaces, current] at hroot
  | failed get why spaces current tables =>
    left
    rwa [IsRoot, spaces, current] at hroot
  | @created t _ pml4 get can free spaces nextTaskId current tables =>
    rw [IsRoot, current] at hroot
    rcases hroot with hcur | ⟨hnull, u, id, hu⟩
    · exact .inl (.inl hcur)
    by_cases hut : u = t
    · rw [hut, spaces, Function.update_self] at hu
      obtain rfl := (Prod.mk.inj (Option.some.inj hu)).2
      unfold Builds at tables
      split at tables
      · rename_i hpml4
        exact .inr ⟨can hpml4, tables⟩
      · exact .inl (.inl tables.1)
    · rw [spaces, Function.update_of_ne hut] at hu
      exact .inl (.inr ⟨hnull, u, id, hu⟩)

theorem Fresh.step (hf : Fresh env i m) (h : ResumeStep (env.allocs i) st m o m₁) :
    Fresh env (i + 1) m₁ := by
  obtain ⟨hoff, hsame⟩ := hf.sameOff h
  constructor
  · intro j hj
    rw [hoff]
    exact hf.nonnull j (by omega)
  · intro j hj
    exact hf.frames j (by omega)
  · intro j hj
    rw [hoff]
    exact hf.nodup j (by omega)
  · intro j k hj hk hs
    rw [hoff]
    exact hf.apart j k (by omega) hk hs
  · intro j hj x hx root hroot hread
    rw [hoff] at hx
    rcases isRoot_step h hroot with hroot | ⟨hs, rfl, hbuilt⟩
    · exact hf.unread j (by omega) x hx root hroot ((hf.reads_iff h hroot).mp hread)
    · obtain ⟨f₃, f₂, f₁, hframes, hnodup, hmem, hspace⟩ := hf.createSpace hs hbuilt
      rw [hspace] at hread
      rcases PageTables.reads_newSpace hframes hnodup
        (fun y hy hfour => hf.current_unread le_rfl hy (hmem y hfour)) hread with hfour | hcur
      · exact hf.apart i j le_rfl hj hs x (hmem x hfour) hx
      · exact hf.current_unread (by omega) hcur hx

theorem Fresh.pageFrame_step (hf : Fresh env i m) (h : ResumeStep (env.allocs i) st m o m₁)
    (hid : spaceGet m.spaces st.id = none → st.id = m.nextTaskId)
    (hget : spaceGet m.spaces p.taskId = some t) :
    spaceGet m₁.spaces p.taskId = some t ∧ m₁.pageFrame p = m.pageFrame p := by
  obtain ⟨pml4, ht⟩ := spaceGet_some hget
  obtain ⟨hoff, hsame⟩ := hf.sameOff h
  have hget₁ : spaceGet m₁.spaces p.taskId = some t := by
    cases h with
    | found get spaces => rw [spaces, hget]
    | failed get why spaces => rw [spaces, hget]
    | created get can free spaces =>
      rw [spaces, spaceGet_update_of_ne free, hget]
      intro hnext
      rw [hid get, hnext, hget] at get
      cases get
  refine ⟨hget₁, ?_⟩
  rw [pageFrame_eq hget₁ (h.mono ht), pageFrame_eq hget ht]
  by_cases hnull : pml4 = 0
  · rw [spaceFrame, if_pos hnull, spaceFrame, if_pos hnull]
  · refine spaceFrame_congr hoff fun y hy => hsame y fun hmem => ?_
    exact hf.unread i le_rfl y hmem pml4 (.inr ⟨hnull, t, p.taskId, ht⟩) hy

theorem Fresh.newFrame_step (hf : Fresh env i m) (h : ResumeStep (env.allocs i) st m o m₁)
    {st' : SnapshotTask} : m₁.newFrame a st' virtAddr = m.newFrame a st' virtAddr := by
  obtain ⟨hoff, hsame⟩ := hf.sameOff h
  have hcurrent : m₁.currentPml4 = m.currentPml4 := by
    cases h with
    | found get spaces nextTaskId current => exact current
    | failed get why spaces current => exact current
    | created get can free spaces nextTaskId current => exact current
  have hkept : ∀ y, m.pageTables.Reads 3 m.currentPml4.toNat y →
      m₁.pageTables.word y = m.pageTables.word y :=
    fun y hy => hsame y (hf.current_unread le_rfl hy)
  unfold newFrame PageTables.newSpaceFrame
  rw [hcurrent, hoff, PageTables.virtToPhys_congr hoff hkept, spaceFrame_congr hoff hkept]

theorem Fresh.resumeFrame_step (hf : Fresh env i m) (h : ResumeStep (env.allocs i) st m o m₁)
    (hid : spaceGet m.spaces st.id = none → st.id = m.nextTaskId)
    (hlook : ∀ st' ∈ sts, spaceGet m₁.spaces st'.id = spaceGet m.spaces st'.id) :
    m₁.resumeFrame env j sts p = m.resumeFrame env j sts p := by
  induction sts generalizing j with
  | nil => rfl
  | cons st' sts ih =>
    obtain ⟨hst', hsts⟩ := List.forall_mem_cons.mp hlook
    rw [resumeFrame, resumeFrame, taskGet_eq_spaceGet, taskGet_eq_spaceGet, hst', ih hsts,
      hf.newFrame_step h]
    cases hget : spaceGet m.spaces st'.id with
    | none => rfl
    | some t =>
      by_cases hp : st'.id = p.taskId
      · rw [if_pos hp, if_pos hp, (hf.pageFrame_step h hid (hp ▸ hget)).2]
      · rw [if_neg hp, if_neg hp]

/-- Where the tasks can resume, a record finds its task or creates it, the records after it find
what they found before, and their tasks can resume. -/
theorem TasksResume.step (h : ResumeStep (env.allocs i) st m o m₁) (hst : st.id ∉ sts.map (·.id))
    (hres : m.TasksResume env i m.nextTaskId m.freeSlots (st :: sts)) :
    (∃ t, o = some t ∧ spaceGet m₁.spaces st.id = some t) ∧
      (spaceGet m.spaces st.id = none → st.id = m.nextTaskId) ∧
      (∀ st' ∈ sts, spaceGet m₁.spaces st'.id = spaceGet m.spaces st'.id) ∧
      m₁.TasksResume env (i + 1) m₁.nextTaskId m₁.freeSlots sts := by
  rw [TasksResume, taskGet_eq_spaceGet] at hres
  cases h with
  | @found t _ get spaces nextTaskId current tables =>
    rw [get, Option.isSome_some, if_pos rfl] at hres
    refine ⟨⟨t, rfl, by rw [spaces, get]⟩, by simp [get], fun st' _ => by rw [spaces], ?_⟩
    rw [nextTaskId, freeSlots_congr spaces]
    exact (tasksResume_congr fun st' _ => by rw [spaces]).mpr hres
  | @created t _ pml4 get can free spaces nextTaskId current tables =>
    rw [get, if_neg (by simp)] at hres
    obtain ⟨⟨hid, -, -⟩, hres⟩ := hres
    have hlook : ∀ st' ∈ sts, spaceGet m₁.spaces st'.id = spaceGet m.spaces st'.id := by
      intro st' hst'
      rw [spaces, spaceGet_update_of_ne free]
      intro heq
      exact hst (List.mem_map.mpr ⟨st', hst', (hid.trans heq).symm⟩)
    refine ⟨⟨t, rfl, ?_⟩, fun _ => hid, hlook, ?_⟩
    · rw [spaces, hid]
      exact spaceGet_update_self (hid ▸ get)
    · rw [nextTaskId, (freeSlots_created free spaces).2]
      exact (tasksResume_congr hlook).mpr hres
  | failed get why spaces current tables =>
    rw [get, if_neg (by simp)] at hres
    obtain ⟨⟨-, hpos, hcan⟩, -⟩ := hres
    rcases why with hfull | hcant
    · omega
    · exact absurd hcan hcant

/-- The loop leaves a task that is there, and the frames of its pages. -/
theorem Fresh.pageFrame_run (hf : Fresh env i m) (hin : ∀ st ∈ sts, st.InUse)
    (hnodup : (sts.map (·.id)).Nodup) (hrun : resumeTasks env i sts m = some (ws, m'))
    (hres : m.TasksResume env i m.nextTaskId m.freeSlots sts)
    (hget : spaceGet m.spaces p.taskId = some t) :
    spaceGet m'.spaces p.taskId = some t ∧ m'.pageFrame p = m.pageFrame p := by
  induction sts generalizing i m ws with
  | nil =>
    obtain ⟨-, rfl⟩ := Prod.mk.inj (Option.some.inj hrun)
    exact ⟨hget, rfl⟩
  | cons st sts ih =>
    obtain ⟨hst, hsts⟩ := List.forall_mem_cons.mp hin
    obtain ⟨hfresh, hnodup⟩ := List.nodup_cons.mp hnodup
    obtain ⟨o, m₁, ws', hstep, htail, -⟩ := resumeTasks_cons hst hrun
    obtain ⟨-, hid, -, hres⟩ := TasksResume.step hstep hfresh hres
    obtain ⟨hget, hframe⟩ := hf.pageFrame_step hstep hid hget
    rw [← hframe]
    exact ih (hf.step hstep) hsts hnodup htail hres hget

theorem Fresh.tasks_run (hf : Fresh env i m) (hin : ∀ st ∈ sts, st.InUse)
    (hnodup : (sts.map (·.id)).Nodup) (hrun : resumeTasks env i sts m = some (ws, m'))
    (hres : m.TasksResume env i m.nextTaskId m.freeSlots sts) :
    ws = sts.map fun st => spaceGet m'.spaces st.id := by
  induction sts generalizing i m ws with
  | nil =>
    obtain ⟨rfl, -⟩ := Prod.mk.inj (Option.some.inj hrun)
    rfl
  | cons st sts ih =>
    obtain ⟨hst, hsts⟩ := List.forall_mem_cons.mp hin
    obtain ⟨hfresh, hnodup⟩ := List.nodup_cons.mp hnodup
    obtain ⟨o, m₁, ws', hstep, htail, rfl⟩ := resumeTasks_cons hst hrun
    obtain ⟨⟨t, rfl, hget⟩, -, -, hres⟩ := TasksResume.step hstep hfresh hres
    have hkept := (hf.step hstep).pageFrame_run (p := ⟨st.id, 0, Bytes.zero 4096⟩) hsts hnodup
      htail hres hget
    rw [List.map_cons, ih (hf.step hstep) hsts hnodup htail hres, hkept.1]
    rfl

theorem Fresh.resumeFrame_run (hf : Fresh env i m) (hin : ∀ st ∈ sts, st.InUse)
    (hnodup : (sts.map (·.id)).Nodup) (hrun : resumeTasks env i sts m = some (ws, m'))
    (hres : m.TasksResume env i m.nextTaskId m.freeSlots sts) (hp : p.taskId ∈ sts.map (·.id)) :
    m'.pageFrame p = m.resumeFrame env i sts p := by
  induction sts generalizing i m ws with
  | nil => cases hp
  | cons st sts ih =>
    have hkept : ∀ u, spaceGet m.spaces p.taskId = some u → m'.pageFrame p = m.pageFrame p :=
      fun u hu => (hf.pageFrame_run hin hnodup hrun hres hu).2
    obtain ⟨hst, hsts⟩ := List.forall_mem_cons.mp hin
    obtain ⟨hfresh, hnodup⟩ := List.nodup_cons.mp hnodup
    obtain ⟨o, m₁, ws', hstep, htail, -⟩ := resumeTasks_cons hst hrun
    obtain ⟨⟨t, rfl, hget⟩, hid, hlook, hres₁⟩ := TasksResume.step hstep hfresh hres
    have hf₁ := hf.step hstep
    rw [resumeFrame]
    by_cases hpid : st.id = p.taskId
    · rw [if_pos hpid, taskGet_eq_spaceGet]
      cases hstep with
      | found get =>
        rw [get, Option.isSome_some, if_pos rfl]
        exact hkept _ (hpid ▸ get)
      | @created t _ pml4 get can free spaces nextTaskId current tables =>
        rw [get, if_neg (by simp)]
        have hslot : m₁.spaces t = some (p.taskId, pml4) := by
          rw [spaces, Function.update_self, ← hid get, hpid]
        rw [(hf₁.pageFrame_run hsts hnodup htail hres₁ (hpid ▸ hget)).2,
          pageFrame_eq (hpid ▸ hget) hslot]
        unfold Builds at tables
        unfold newFrame
        by_cases hpml4 : st.hasPml4 ≠ 0
        · rw [if_pos hpml4] at tables ⊢
          obtain ⟨rfl, hbuilt⟩ := tables
          have hs := can hpml4
          obtain ⟨f₃, f₂, f₁, hframes, hnodup, hmem, hspace⟩ := hf.createSpace hs hbuilt
          rw [hspace, spaceFrame, if_neg (hf.nonnull i le_rfl hs.2.2.1),
            PageTables.virtToPhys_newSpace hframes hnodup]
          exact fun y hy hfour => hf.current_unread le_rfl hy (hmem y hfour)
        · rw [if_neg hpml4] at tables ⊢
          rw [tables.1, tables.2]
    · have htail' : p.taskId ∈ sts.map (·.id) :=
        (List.mem_cons.mp hp).resolve_left fun heq => hpid heq.symm
      rw [if_neg hpid, ih hf₁ hsts hnodup htail hres₁ htail', hf.resumeFrame_step hstep hid hlook]

end ResumeState

end

end StyxOS
