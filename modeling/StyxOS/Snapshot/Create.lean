import StyxOS.Elf.Basic
import StyxOS.Snapshot.Session
import StyxOS.Vmm.Tables

/-! # Creating a task in a restore

`task_create_kernel` and `task_create_user` of `task.c` as `snapshot_restore`
calls them, over the tables of the session. A task gets the next identifier
whatever the identifier of its record is, and a user task a space in which only
the stack page is mapped.
-/

namespace StyxOS

open ByteMem

/-! ## Building a space -/

namespace PageTables

variable (pt : PageTables)

/-- A table, all of whose entries are written. -/
def write (table : ℕ) (entries : ℕ → ℕ) : PageTables :=
  { pt with word := Function.update pt.word table entries }

def setEntry (table i e : ℕ) : PageTables :=
  pt.write table (Function.update (pt.word table) i e)

/-- One level of `vmm_map_page`, for the frames that `pmm_alloc_frame` gives. Without one the
machine halts. -/
def nextTable (table i flags : ℕ) (frames : List ℕ) : Option (ℕ × List ℕ × PageTables) :=
  if ptePresent (pt.word table i) = false then
    match frames with
    | [] => none
    | phys :: frames =>
      let pt := (pt.write (phys + pt.hhdmOff) fun _ => 0).setEntry table i
        (phys ||| parentFlags flags)
      some (pt.next (pt.word table i), frames, pt)
  else
    let pt := pt.setEntry table i (pt.word table i ||| flags &&& 4)
    some (pt.next (pt.word table i), frames, pt)

/-- `vmm_map_page` under a PML4 that is there. -/
def mapPage (pml4 virt phys flags : ℕ) (frames : List ℕ) : Option PageTables := do
  let (pdpt, frames, pt) ← pt.nextTable pml4 ((virt >>> 39) &&& 0x1FF) flags frames
  let (pd, frames, pt) ← pt.nextTable pdpt ((virt >>> 30) &&& 0x1FF) flags frames
  let (table, _, pt) ← pt.nextTable pd ((virt >>> 21) &&& 0x1FF) flags frames
  some (pt.setEntry table ((virt >>> 12) &&& 0x1FF) (pteAddr phys ||| flags))

@[simp] theorem hhdmOff_write (table : ℕ) (entries : ℕ → ℕ) :
    (pt.write table entries).hhdmOff = pt.hhdmOff := rfl

@[simp] theorem word_write (table : ℕ) (entries : ℕ → ℕ) :
    (pt.write table entries).word = Function.update pt.word table entries := rfl

/-- A PML4 with an empty lower half and the upper half of another one. -/
def copyUpperHalf (new cur : ℕ) : PageTables :=
  pt.write new fun i => if i < 256 then 0 else pt.word cur i

/-- The tables that a walk of so many levels more can read. Below the root it ends at a large
page. -/
def Reads : ℕ → ℕ → ℕ → Prop
  | 0, table, x => x = table
  | d + 1, table, x => x = table ∨
      ∃ i, ptePresent (pt.word table i) = true ∧ (d = 2 ∨ pteLarge (pt.word table i) = false) ∧
        Reads d (pt.next (pt.word table i)) x

variable {pt} {pt' : PageTables} {table pml4 virt x d : ℕ}

theorem reads_self : ∀ d, pt.Reads d table table
  | 0 => rfl
  | _ + 1 => Or.inl rfl

theorem reads_next {i : ℕ} (h : ptePresent (pt.word table i) = true)
    (hl : d = 2 ∨ pteLarge (pt.word table i) = false)
    (hx : pt.Reads d (pt.next (pt.word table i)) x) : pt.Reads (d + 1) table x :=
  Or.inr ⟨i, h, hl, hx⟩

theorem reads_congr (hoff : pt'.hhdmOff = pt.hhdmOff)
    (h : ∀ y, pt.Reads d table y → pt'.word y = pt.word y) :
    pt'.Reads d table x ↔ pt.Reads d table x := by
  induction d generalizing table with
  | zero => exact Iff.rfl
  | succ d ih =>
    have hself := h table (reads_self _)
    have hnext : ∀ e, pt'.next e = pt.next e := fun e => by rw [next, next, hoff]
    rw [Reads, Reads, hself]
    refine or_congr Iff.rfl (exists_congr fun i => and_congr_right fun hi =>
      and_congr_right fun hl => ?_)
    rw [hnext]
    exact ih fun y hy => h y (reads_next hi hl hy)

/-- A translation is the same under two tables that have the entry in common, with what is below. -/
theorem virtToPhys_congr_root {table' : ℕ} (hoff : pt'.hhdmOff = pt.hhdmOff)
    (hroot : pt'.word table' ((virt >>> 39) &&& 0x1FF) = pt.word table ((virt >>> 39) &&& 0x1FF))
    (h : ptePresent (pt.word table ((virt >>> 39) &&& 0x1FF)) = true → ∀ y,
      pt.Reads 2 (pt.next (pt.word table ((virt >>> 39) &&& 0x1FF))) y → pt'.word y = pt.word y) :
    pt'.virtToPhys table' virt = pt.virtToPhys table virt := by
  have hnext : ∀ e, pt'.next e = pt.next e := fun e => by rw [next, next, hoff]
  unfold virtToPhys
  rw [hoff, hroot]
  simp only [hnext]
  generalize pt.word table ((virt >>> 39) &&& 0x1FF) = e₄ at h ⊢
  by_cases h₄ : ptePresent e₄ = true
  · have h := h h₄
    have hpdpt := h _ (reads_self 2)
    rw [hpdpt]
    generalize h₃ : pt.word (pt.next e₄) ((virt >>> 30) &&& 0x1FF) = e₃
    by_cases hp₃ : ptePresent e₃ = true ∧ pteLarge e₃ = false
    · have hnext₃ : ∀ y, pt.Reads 1 (pt.next e₃) y → pt.Reads 2 (pt.next e₄) y :=
        fun y hy => reads_next (h₃ ▸ hp₃.1) (.inr (h₃ ▸ hp₃.2)) (h₃ ▸ hy)
      rw [h _ (hnext₃ _ (reads_self 1))]
      generalize h₂ : pt.word (pt.next e₃) ((virt >>> 21) &&& 0x1FF) = e₂
      by_cases hp₂ : ptePresent e₂ = true ∧ pteLarge e₂ = false
      · have hnext₂ : pt.Reads 1 (pt.next e₃) (pt.next e₂) :=
          h₂ ▸ reads_next (h₂ ▸ hp₂.1) (.inr (h₂ ▸ hp₂.2)) (reads_self 0)
        rw [h _ (hnext₃ _ hnext₂)]
      · by_cases hp : ptePresent e₂ = true
        · have hl : pteLarge e₂ = true := by simpa [hp] using hp₂
          simp [hp, hl]
        · simp [hp]
    · by_cases hp : ptePresent e₃ = true
      · have hl : pteLarge e₃ = true := by simpa [hp] using hp₃
        simp [hp, hl]
      · simp [hp]
  · simp only [h₄, Bool.not_false, if_true]

theorem virtToPhys_congr (hoff : pt'.hhdmOff = pt.hhdmOff)
    (h : ∀ y, pt.Reads 3 pml4 y → pt'.word y = pt.word y) :
    pt'.virtToPhys pml4 virt = pt.virtToPhys pml4 virt := by
  have hself := h pml4 (reads_self 3)
  exact virtToPhys_congr_root hoff (by rw [hself]) fun hp y hy => h y (reads_next hp (.inl rfl) hy)

/-! ## The space of a new task -/

variable (pt) in
/-- The tables of a new user task: the upper half of the current PML4, and the stack page. -/
def createSpace (new cur ustack : ℕ) (frames : List ℕ) : Option PageTables :=
  (pt.copyUpperHalf new cur).mapPage new taskUserStackPage ustack userFlags frames

def oneEntry (i e : ℕ) : ℕ → ℕ := Function.update (fun _ => 0) i e

variable (pt) in
/-- What `createSpace` comes to, with the frames that it takes for the three lower levels. -/
def newSpace (new cur ustack f₃ f₂ f₁ : ℕ) : PageTables :=
  { pt with
    word := Function.update (Function.update (Function.update (Function.update pt.word
      new (Function.update (fun i => if i < 256 then 0 else pt.word cur i) 0 (f₃ ||| 7)))
      (f₃ + pt.hhdmOff) (oneEntry 0 (f₂ ||| 7)))
      (f₂ + pt.hhdmOff) (oneEntry 1 (f₁ ||| 7)))
      (f₁ + pt.hhdmOff) (oneEntry 511 (pteAddr ustack ||| 7)) }

variable (pt) in
/-- The frame of an address in the space of a new user task: the lower half has the stack page
alone. -/
def newSpaceFrame (cur ustack virt : ℕ) : ℕ :=
  if (pt.hhdmOff ≤ virt ∧ virt < (pt.hhdmOff + 0x1000000000) % 2 ^ 64) ∨
      256 ≤ (virt >>> 39) &&& 0x1FF then
    pt.virtToPhys cur virt
  else if virt % 2 ^ 48 / 4096 = taskUserStackPage / 4096 then pteAddr ustack + (virt &&& 0xFFF)
  else 0

theorem nextTable_of_absent {i f : ℕ} {fs : List ℕ} (habs : ptePresent (pt.word table i) = false)
    (hf : f % 4096 = 0 ∧ f < 2 ^ 52) :
    pt.nextTable table i userFlags (f :: fs) =
      some (f + pt.hhdmOff, fs,
        (pt.write (f + pt.hhdmOff) fun _ => 0).setEntry table i (f ||| 7)) := by
  have hflags : parentFlags userFlags = 7 := by decide
  have haddr : pteAddr (f ||| 7) = f := by
    rw [pteAddr_or (by decide), pteAddr_of_frame hf.1 hf.2]
  unfold nextTable
  rw [if_pos habs, hflags]
  simp only [setEntry, write, next, Function.update_self, haddr]

theorem nextTable_nil {i flags : ℕ} (habs : ptePresent (pt.word table i) = false) :
    pt.nextTable table i flags [] = none := if_pos habs

theorem createSpace_eq {new cur ustack f₃ f₂ f₁ : ℕ} {fs : List ℕ}
    (hframes : ∀ f ∈ [f₃, f₂, f₁], f % 4096 = 0 ∧ f < 2 ^ 52)
    (hnodup : [new, f₃ + pt.hhdmOff, f₂ + pt.hhdmOff, f₁ + pt.hhdmOff].Nodup) :
    pt.createSpace new cur ustack (f₃ :: f₂ :: f₁ :: fs) =
      some (pt.newSpace new cur ustack f₃ f₂ f₁) := by
  obtain ⟨h₃, h₂, h₁⟩ : (f₃ % 4096 = 0 ∧ f₃ < 2 ^ 52) ∧ (f₂ % 4096 = 0 ∧ f₂ < 2 ^ 52) ∧
      (f₁ % 4096 = 0 ∧ f₁ < 2 ^ 52) := by simpa using hframes
  obtain ⟨⟨hn₃, hn₂, hn₁⟩, ⟨h₃₂, h₃₁⟩, h₂₁⟩ : (new ≠ f₃ + pt.hhdmOff ∧ new ≠ f₂ + pt.hhdmOff ∧
      new ≠ f₁ + pt.hhdmOff) ∧ (f₃ ≠ f₂ ∧ f₃ ≠ f₁) ∧ f₂ ≠ f₁ := by simpa using hnodup
  have i₄ : (taskUserStackPage >>> 39) &&& 0x1FF = 0 := by decide
  have i₃ : (taskUserStackPage >>> 30) &&& 0x1FF = 0 := by decide
  have i₂ : (taskUserStackPage >>> 21) &&& 0x1FF = 1 := by decide
  have i₁ : (taskUserStackPage >>> 12) &&& 0x1FF = 511 := by decide
  have hzero : ptePresent 0 = false := by decide
  unfold createSpace mapPage copyUpperHalf
  -- each level is absent and takes the next frame
  rw [i₄, nextTable_of_absent (by simp [hzero]) h₃, Option.bind_eq_bind, Option.bind_some]
  dsimp only
  rw [i₃, nextTable_of_absent (by simp [setEntry, hzero, hn₃.symm]) h₂, Option.bind_some]
  dsimp only
  rw [i₂, nextTable_of_absent (by simp [setEntry, hzero, h₃₂.symm]) h₁, Option.bind_some]
  dsimp only
  rw [i₁]
  have huser : userFlags = 7 := rfl
  simp only [newSpace, oneEntry, setEntry, write, huser, Option.some.injEq, PageTables.mk.injEq,
    and_true]
  funext x
  simp only [Function.update_apply]
  by_cases hx₁ : x = f₁ + pt.hhdmOff
  · subst hx₁
    simp [h₂₁.symm]
  by_cases hx₂ : x = f₂ + pt.hhdmOff
  · subst hx₂
    simp [h₃₂.symm, h₂₁]
  by_cases hx₃ : x = f₃ + pt.hhdmOff
  · subst hx₃
    simp [hn₃.symm, h₃₂, h₃₁]
  by_cases hx : x = new
  · subst hx
    simp [hn₃, hn₂, hn₁]
  · simp [hx₁, hx₂, hx₃, hx]

/-- It takes three frames, or the machine halts. -/
theorem createSpace_eq_some {new cur ustack : ℕ} {frames : List ℕ}
    (hframes : ∀ f ∈ frames, f % 4096 = 0 ∧ f < 2 ^ 52)
    (hnodup : (new :: frames.map (· + pt.hhdmOff)).Nodup)
    (h : pt.createSpace new cur ustack frames = some pt') :
    ∃ f₃ f₂ f₁ fs, frames = f₃ :: f₂ :: f₁ :: fs ∧ pt' = pt.newSpace new cur ustack f₃ f₂ f₁ := by
  have i₄ : (taskUserStackPage >>> 39) &&& 0x1FF = 0 := by decide
  have i₃ : (taskUserStackPage >>> 30) &&& 0x1FF = 0 := by decide
  have i₂ : (taskUserStackPage >>> 21) &&& 0x1FF = 1 := by decide
  have hzero : ptePresent 0 = false := by decide
  match frames with
  | [] =>
    unfold createSpace mapPage copyUpperHalf at h
    rw [i₄, nextTable_nil (by simp [hzero])] at h
    cases h
  | [f₃] =>
    have hne : new ≠ f₃ + pt.hhdmOff := by simpa using hnodup
    unfold createSpace mapPage copyUpperHalf at h
    rw [i₄, nextTable_of_absent (by simp [hzero]) (hframes f₃ (by simp)), Option.bind_eq_bind,
      Option.bind_some] at h
    dsimp only at h
    rw [i₃, nextTable_nil (by simp [setEntry, hzero, hne.symm])] at h
    cases h
  | [f₃, f₂] =>
    obtain ⟨⟨hn₃, -⟩, h₃₂⟩ : (new ≠ f₃ + pt.hhdmOff ∧ new ≠ f₂ + pt.hhdmOff) ∧ f₃ ≠ f₂ := by
      simpa using hnodup
    unfold createSpace mapPage copyUpperHalf at h
    rw [i₄, nextTable_of_absent (by simp [hzero]) (hframes f₃ (by simp)), Option.bind_eq_bind,
      Option.bind_some] at h
    dsimp only at h
    rw [i₃, nextTable_of_absent (by simp [setEntry, hzero, hn₃.symm]) (hframes f₂ (by simp)),
      Option.bind_some] at h
    dsimp only at h
    rw [i₂, nextTable_nil (by simp [setEntry, hzero, h₃₂.symm])] at h
    cases h
  | f₃ :: f₂ :: f₁ :: fs =>
    rw [createSpace_eq (fun f hf => hframes f (List.mem_append_left fs hf))] at h
    · exact ⟨f₃, f₂, f₁, fs, rfl, (Option.some.inj h).symm⟩
    · have hsub : [new, f₃ + pt.hhdmOff, f₂ + pt.hhdmOff, f₁ + pt.hhdmOff].Sublist
          (new :: (f₃ :: f₂ :: f₁ :: fs).map (· + pt.hhdmOff)) := by simp
      exact hnodup.sublist hsub

section

variable {new cur ustack f₃ f₂ f₁ : ℕ}

theorem word_newSpace_of_notMem
    (hx : x ∉ [new, f₃ + pt.hhdmOff, f₂ + pt.hhdmOff, f₁ + pt.hhdmOff]) :
    (pt.newSpace new cur ustack f₃ f₂ f₁).word x = pt.word x := by
  simp only [List.mem_cons, List.not_mem_nil, or_false, not_or] at hx
  simp [newSpace, hx]

theorem word_newSpace_root
    (hnodup : [new, f₃ + pt.hhdmOff, f₂ + pt.hhdmOff, f₁ + pt.hhdmOff].Nodup) (i : ℕ) :
    (pt.newSpace new cur ustack f₃ f₂ f₁).word new i =
      if i = 0 then f₃ ||| 7 else if i < 256 then 0 else pt.word cur i := by
  obtain ⟨⟨hn₃, hn₂, hn₁⟩, -⟩ : (new ≠ f₃ + pt.hhdmOff ∧ new ≠ f₂ + pt.hhdmOff ∧
      new ≠ f₁ + pt.hhdmOff) ∧ (f₃ ≠ f₂ ∧ f₃ ≠ f₁) ∧ f₂ ≠ f₁ := by simpa using hnodup
  simp [newSpace, hn₃, hn₂, hn₁, Function.update_apply]

theorem word_newSpace_pdpt
    (hnodup : [new, f₃ + pt.hhdmOff, f₂ + pt.hhdmOff, f₁ + pt.hhdmOff].Nodup) :
    (pt.newSpace new cur ustack f₃ f₂ f₁).word (f₃ + pt.hhdmOff) = oneEntry 0 (f₂ ||| 7) := by
  obtain ⟨-, ⟨h₃₂, h₃₁⟩, -⟩ : (new ≠ f₃ + pt.hhdmOff ∧ new ≠ f₂ + pt.hhdmOff ∧
      new ≠ f₁ + pt.hhdmOff) ∧ (f₃ ≠ f₂ ∧ f₃ ≠ f₁) ∧ f₂ ≠ f₁ := by simpa using hnodup
  simp [newSpace, h₃₂, h₃₁]

theorem word_newSpace_pd (h₂₁ : f₂ ≠ f₁) :
    (pt.newSpace new cur ustack f₃ f₂ f₁).word (f₂ + pt.hhdmOff) = oneEntry 1 (f₁ ||| 7) := by
  simp [newSpace, h₂₁]

theorem word_newSpace_table : (pt.newSpace new cur ustack f₃ f₂ f₁).word (f₁ + pt.hhdmOff) =
    oneEntry 511 (pteAddr ustack ||| 7) := by simp [newSpace]

theorem ptePresent_or {f : ℕ} : ptePresent (f ||| 7) = true := by
  simp [ptePresent]

theorem pteLarge_or {f : ℕ} (hf : f % 4096 = 0) : pteLarge (f ||| 7) = false := by
  rw [pteLarge, testBit_frame_or hf (by decide)]
  decide

theorem next_or {f : ℕ} (hf : f % 4096 = 0 ∧ f < 2 ^ 52) : pt.next (f ||| 7) = f + pt.hhdmOff := by
  rw [next, pteAddr_or (by decide), pteAddr_of_frame hf.1 hf.2]

theorem reads_oneEntry {k f : ℕ} (hf : f % 4096 = 0 ∧ f < 2 ^ 52)
    (hword : pt.word table = oneEntry k (f ||| 7)) (h : pt.Reads (d + 1) table x) :
    x = table ∨ pt.Reads d (f + pt.hhdmOff) x := by
  refine h.imp_right ?_
  rintro ⟨i, hi, -, hx⟩
  rw [hword, oneEntry, Function.update_apply] at hi hx
  split_ifs at hi hx with hk
  · rwa [next_or hf] at hx
  · cases hi

/-- A walk in the new space reads its own tables, or goes on in the upper half of the old one. -/
theorem reads_newSpace (hframes : ∀ f ∈ [f₃, f₂, f₁], f % 4096 = 0 ∧ f < 2 ^ 52)
    (hnodup : [new, f₃ + pt.hhdmOff, f₂ + pt.hhdmOff, f₁ + pt.hhdmOff].Nodup)
    (hcur : ∀ y, pt.Reads 3 cur y → y ∉ [new, f₃ + pt.hhdmOff, f₂ + pt.hhdmOff, f₁ + pt.hhdmOff])
    (h : (pt.newSpace new cur ustack f₃ f₂ f₁).Reads 3 new x) :
    x ∈ [new, f₃ + pt.hhdmOff, f₂ + pt.hhdmOff, f₁ + pt.hhdmOff] ∨ pt.Reads 3 cur x := by
  obtain ⟨h₃, h₂, h₁⟩ : (f₃ % 4096 = 0 ∧ f₃ < 2 ^ 52) ∧ (f₂ % 4096 = 0 ∧ f₂ < 2 ^ 52) ∧
      (f₁ % 4096 = 0 ∧ f₁ < 2 ^ 52) := by simpa using hframes
  have h₂₁ : f₂ ≠ f₁ := by
    rintro rfl
    simp at hnodup
  rcases h with rfl | ⟨i, hi, -, hx⟩
  · left
    simp
  rw [word_newSpace_root hnodup] at hi hx
  split_ifs at hi hx with hi₀ hlow
  · -- down the three new tables
    left
    rw [next_or h₃] at hx
    rcases reads_oneEntry h₂ (word_newSpace_pdpt hnodup) hx with rfl | hx
    · simp
    rcases reads_oneEntry h₁ (word_newSpace_pd h₂₁) hx with rfl | hx
    · simp
    · obtain rfl : x = f₁ + pt.hhdmOff := hx
      simp
  · cases hi
  · -- the upper half leads to tables of the old space
    right
    refine reads_next hi (.inl rfl) ?_
    refine (reads_congr ?_ ?_).mp hx
    · rfl
    · intro y hy
      exact word_newSpace_of_notMem (hcur y (reads_next hi (.inl rfl) hy))

/-- What a walk in the new space comes to. -/
theorem virtToPhys_newSpace (hframes : ∀ f ∈ [f₃, f₂, f₁], f % 4096 = 0 ∧ f < 2 ^ 52)
    (hnodup : [new, f₃ + pt.hhdmOff, f₂ + pt.hhdmOff, f₁ + pt.hhdmOff].Nodup)
    (hcur : ∀ y, pt.Reads 3 cur y →
      y ∉ [new, f₃ + pt.hhdmOff, f₂ + pt.hhdmOff, f₁ + pt.hhdmOff]) :
    (pt.newSpace new cur ustack f₃ f₂ f₁).virtToPhys new virt =
      pt.newSpaceFrame cur ustack virt := by
  obtain ⟨h₃, h₂, h₁⟩ : (f₃ % 4096 = 0 ∧ f₃ < 2 ^ 52) ∧ (f₂ % 4096 = 0 ∧ f₂ < 2 ^ 52) ∧
      (f₁ % 4096 = 0 ∧ f₁ < 2 ^ 52) := by simpa using hframes
  have h₂₁ : f₂ ≠ f₁ := by
    rintro rfl
    simp at hnodup
  unfold newSpaceFrame
  by_cases hdirect : pt.hhdmOff ≤ virt ∧ virt < (pt.hhdmOff + 0x1000000000) % 2 ^ 64
  · rw [if_pos (.inl hdirect), virtToPhys, virtToPhys, if_pos hdirect]
    exact if_pos hdirect
  by_cases hupper : 256 ≤ (virt >>> 39) &&& 0x1FF
  · rw [if_pos (.inr hupper)]
    have hentry : (pt.newSpace new cur ustack f₃ f₂ f₁).word new ((virt >>> 39) &&& 0x1FF) =
        pt.word cur ((virt >>> 39) &&& 0x1FF) := by
      rw [word_newSpace_root hnodup, if_neg (by omega), if_neg (by omega)]
    refine virtToPhys_congr_root rfl hentry fun hp y hy => ?_
    exact word_newSpace_of_notMem (hcur y (reads_next hp (.inl rfl) hy))
  rw [if_neg (not_or.mpr ⟨hdirect, hupper⟩)]
  have hnext : ∀ {f}, f % 4096 = 0 ∧ f < 2 ^ 52 →
      (pt.newSpace new cur ustack f₃ f₂ f₁).next (f ||| 7) = f + pt.hhdmOff := fun hf => next_or hf
  have hleaf : pteAddr (pteAddr ustack ||| 7) = pteAddr ustack := by
    rw [pteAddr_or (by decide), pteAddr_of_frame (pteAddr_mod _) (pteAddr_lt _)]
  have hpage : virt % 2 ^ 48 / 4096 = taskUserStackPage / 4096 ↔
      (virt >>> 39) &&& 0x1FF = 0 ∧ (virt >>> 30) &&& 0x1FF = 0 ∧ (virt >>> 21) &&& 0x1FF = 1 ∧
        (virt >>> 12) &&& 0x1FF = 511 := by
    simp only [mod_index, Nat.shiftRight_eq_div_pow, taskUserStackPage]
    omega
  have hzero : ptePresent 0 = false := by decide
  have hoff : (pt.newSpace new cur ustack f₃ f₂ f₁).hhdmOff = pt.hhdmOff := rfl
  rw [virtToPhys, hoff, if_neg hdirect]
  dsimp only
  rw [word_newSpace_root hnodup, if_congr hpage rfl rfl]
  by_cases i₄ : (virt >>> 39) &&& 0x1FF = 0
  · rw [if_pos i₄, ptePresent_or, hnext h₃, word_newSpace_pdpt hnodup, oneEntry,
      Function.update_apply]
    by_cases i₃ : (virt >>> 30) &&& 0x1FF = 0
    · rw [if_pos i₃, ptePresent_or, pteLarge_or h₂.1, hnext h₂, word_newSpace_pd h₂₁,
        oneEntry, Function.update_apply]
      by_cases i₂ : (virt >>> 21) &&& 0x1FF = 1
      · rw [if_pos i₂, ptePresent_or, pteLarge_or h₁.1, hnext h₁, word_newSpace_table,
          oneEntry, Function.update_apply]
        by_cases i₁ : (virt >>> 12) &&& 0x1FF = 511
        · simp [i₄, i₃, i₂, i₁, ptePresent_or, hleaf]
        · simp [i₁, hzero]
      · simp [i₂, hzero]
    · simp [i₃, hzero]
  · have hlow : (virt >>> 39) &&& 0x1FF < 256 := by omega
    rw [if_neg i₄, if_pos hlow]
    simp [i₄, hzero]

end

variable (pt) in
/-- The tables but the given ones are the same. -/
def SameOff (new : List ℕ) (pt' : PageTables) : Prop :=
  pt'.hhdmOff = pt.hhdmOff ∧ ∀ x ∉ new, pt'.word x = pt.word x

end PageTables

/-! ## Creating the task -/

/-- The session as a restore works on it. A word of the run queue is the task that it points to, if
it points to one; `runQueue` has those that do. -/
structure ResumeState extends RamSession where
  nextTaskId : UInt32
  currentPml4 : UInt64
  queueWords : List (Option TaskPtr)

/-- What `task_create_user` gets from `kmalloc` and from `pmm_alloc_frame`, with zero for NULL: the
capability table and the kernel stack, the frames of the PML4 and of the stack page, and the frames
that `vmm_map_page` finds. -/
structure CreateAllocs where
  capTable : UInt64
  kstackBase : UInt64
  pml4 : ℕ
  ustack : ℕ
  tables : List ℕ

/-- The identifier and the PML4 of a slot in use. -/
def Task.space (t : Task) : Option (UInt32 × UInt64) :=
  if t.state = .unused then none else some (t.id, t.pml4)

namespace ResumeState

variable (m : ResumeState)

def setTask (t : TaskPtr) (f : Task → Task) : ResumeState :=
  { m with taskTable := Function.update m.taskTable t (f (m.taskTable t)) }

def allocTaskSlot : Option (TaskPtr × ResumeState) :=
  match (List.finRange taskMaxTasks).find? fun t => (m.taskTable t).state = .unused with
  | none => none
  | some t => some (t, { m.setTask t fun task =>
      { task with id := m.nextTaskId, state := .ready, ticks := 10 } with
      nextTaskId := m.nextTaskId + 1 })

def taskCreateKernel : Option TaskPtr × ResumeState :=
  match m.allocTaskSlot with
  | none => (none, m)
  | some (t, m) => (some t, m.setTask t fun task =>
      { task with
        pml4 := m.currentPml4
        kstackTop := 0
        capTable := 0
        regs := { task.regs with rsp := 0, rip := 0 } })

/-- The slot of a task that could not be created. -/
def giveUp (t : TaskPtr) : ResumeState := m.setTask t fun task => { task with state := .unused }

/-- `task_create_user`. Without memory for the tables of the stack page the machine halts. -/
def taskCreateUser (a : CreateAllocs) (entryPoint : UInt64) :
    Option (Option TaskPtr × ResumeState) :=
  match m.allocTaskSlot with
  | none => some (none, m)
  | some (t, m) =>
    let m := m.setTask t fun task => { task with capTable := a.capTable }
    if a.capTable = 0 then some (none, m.giveUp t)
    else
      let m := { m with capTables := Function.update m.capTables a.capTable (Bytes.zero 1536) }
      if a.kstackBase = 0 then some (none, m.giveUp t)
      else
        let m := m.setTask t fun task =>
          { task with kstackTop := a.kstackBase + UInt64.ofNat taskKernelStackSize }
        if a.pml4 = 0 then some (none, m.giveUp t)
        else
          let newPml4 := UInt64.ofNat (a.pml4 + m.pageTables.hhdmOff)
          let m := { m.setTask t fun task => { task with pml4 := newPml4 } with
            pageTables := m.pageTables.copyUpperHalf newPml4.toNat m.currentPml4.toNat }
          if a.ustack = 0 then some (none, m.giveUp t)
          else do
            let pt ← m.pageTables.mapPage newPml4.toNat taskUserStackPage a.ustack userFlags
              a.tables
            let m := { m with pageTables := pt }
            some (some t, m.setTask t fun task =>
              { task with
                regs :=
                  { task.regs with rip := entryPoint, rbx := entryPoint, rsp := task.kstackTop } })

/-- The slots in use, with their identifiers and PML4s. -/
def spaces (t : TaskPtr) : Option (UInt32 × UInt64) := (m.taskTable t).space

def freeSlots : ℕ := (Finset.univ.filter fun t => m.spaces t = none).card

end ResumeState

namespace CreateAllocs

variable (a : CreateAllocs)

/-- All allocations but those of `vmm_map_page` succeed. -/
def Succeeds : Prop := a.capTable ≠ 0 ∧ a.kstackBase ≠ 0 ∧ a.pml4 ≠ 0 ∧ a.ustack ≠ 0

def newPml4 (hhdmOff : ℕ) : UInt64 := UInt64.ofNat (a.pml4 + hhdmOff)

def newTables (hhdmOff : ℕ) : List ℕ :=
  if a.pml4 = 0 then [] else (a.newPml4 hhdmOff).toNat :: a.tables.map (· + hhdmOff)

end CreateAllocs

/-- What an attempt to create a task comes to: nothing that is in use, or a task under the next
identifier. -/
inductive CreateEffect (m : ResumeState) (succeeds : Prop) (new : List ℕ) (pml4 : UInt64)
    (built : PageTables → Prop) : Option TaskPtr → ResumeState → Prop

  | failed {m' : ResumeState} (why : m.freeSlots = 0 ∨ ¬ succeeds) (spaces : m'.spaces = m.spaces)
      (current : m'.currentPml4 = m.currentPml4)
      (tables : m.pageTables.SameOff new m'.pageTables) :
      CreateEffect m succeeds new pml4 built none m'

  | created {t : TaskPtr} {m' : ResumeState} (ok : succeeds) (free : m.spaces t = none)
      (spaces : m'.spaces = Function.update m.spaces t (some (m.nextTaskId, pml4)))
      (nextTaskId : m'.nextTaskId = m.nextTaskId + 1)
      (current : m'.currentPml4 = m.currentPml4) (tables : built m'.pageTables) :
      CreateEffect m succeeds new pml4 built (some t) m'

section

variable {m m₀ m' : ResumeState} {t : TaskPtr} {x : Task} {a : CreateAllocs} {entryPoint : UInt64}
  {o : Option TaskPtr}

theorem Task.space_eq_none {x : Task} : x.space = none ↔ x.state = .unused := by
  unfold Task.space
  split <;> simp_all

theorem Task.space_of_ne (h : x.state ≠ .unused) : x.space = some (x.id, x.pml4) := if_neg h

@[simp] theorem taskTable_setTask_self (f : Task → Task) :
    (m.setTask t f).taskTable t = f (m.taskTable t) := Function.update_self ..

@[simp] theorem taskTable_setTask_of_ne {u : TaskPtr} (hu : u ≠ t) (f : Task → Task) :
    (m.setTask t f).taskTable u = m.taskTable u := Function.update_of_ne hu ..

@[simp] theorem currentPml4_setTask (f : Task → Task) :
    (m.setTask t f).currentPml4 = m.currentPml4 := rfl

theorem spaces_of_slot {space : Option (UInt32 × UInt64)}
    (h : ∀ u ≠ t, m'.taskTable u = m.taskTable u) (ht : (m'.taskTable t).space = space) :
    m'.spaces = Function.update m.spaces t space := by
  funext u
  by_cases hu : u = t
  · rw [hu, Function.update_self, ResumeState.spaces, ht]
  · rw [Function.update_of_ne hu, ResumeState.spaces, h u hu, ResumeState.spaces]

theorem spaces_giveUp (hfree : m.spaces t = none)
    (h : ∀ u ≠ t, m'.taskTable u = m.taskTable u) : (m'.giveUp t).spaces = m.spaces := by
  have hunused : (m'.giveUp t).spaces = Function.update m.spaces t none := by
    refine spaces_of_slot ?_ ?_
    · intro u hu
      rw [ResumeState.giveUp, taskTable_setTask_of_ne hu, h u hu]
    · rw [ResumeState.giveUp, taskTable_setTask_self]
      rfl
  rw [hunused, ← hfree, Function.update_eq_self]

theorem allocTaskSlot_eq_none (h : m.allocTaskSlot = none) : m.freeSlots = 0 := by
  unfold ResumeState.allocTaskSlot at h
  cases hfind : (List.finRange taskMaxTasks).find? fun t => (m.taskTable t).state = .unused with
  | none =>
    rw [ResumeState.freeSlots, Finset.card_eq_zero, Finset.filter_eq_empty_iff]
    intro t _ ht
    have hused := List.find?_eq_none.mp hfind t (List.mem_finRange t)
    exact hused (decide_eq_true (Task.space_eq_none.mp ht))
  | some t =>
    rw [hfind] at h
    cases h

theorem allocTaskSlot_eq_some (h : m.allocTaskSlot = some (t, m₀)) :
    m.spaces t = none ∧ m₀ = { m.setTask t fun task =>
      { task with id := m.nextTaskId, state := .ready, ticks := 10 } with
      nextTaskId := m.nextTaskId + 1 } := by
  unfold ResumeState.allocTaskSlot at h
  cases hfind : (List.finRange taskMaxTasks).find? fun t => (m.taskTable t).state = .unused with
  | none =>
    rw [hfind] at h
    cases h
  | some u =>
    rw [hfind] at h
    obtain ⟨rfl, rfl⟩ := Prod.mk.inj (Option.some.inj h)
    have hunused := List.find?_some hfind
    rw [decide_eq_true_eq] at hunused
    exact ⟨Task.space_eq_none.mpr hunused, rfl⟩

theorem taskCreateKernel_effect :
    CreateEffect m True [] m.currentPml4 (· = m.pageTables) m.taskCreateKernel.1
      m.taskCreateKernel.2 := by
  unfold ResumeState.taskCreateKernel
  cases halloc : m.allocTaskSlot with
  | none => exact .failed (.inl (allocTaskSlot_eq_none halloc)) rfl rfl ⟨rfl, fun _ _ => rfl⟩
  | some r =>
    obtain ⟨t, m₀⟩ := r
    obtain ⟨hfree, rfl⟩ := allocTaskSlot_eq_some halloc
    refine .created trivial hfree (spaces_of_slot ?_ ?_) rfl rfl rfl
    · intro u hu
      simp [hu]
    · simp [Task.space]

theorem taskCreateUser_effect (h : m.taskCreateUser a entryPoint = some (o, m')) :
    CreateEffect m a.Succeeds (a.newTables m.pageTables.hhdmOff) (a.newPml4 m.pageTables.hhdmOff)
      (fun pt => m.pageTables.createSpace (a.newPml4 m.pageTables.hhdmOff).toNat
        m.currentPml4.toNat a.ustack a.tables = some pt) o m' := by
  unfold ResumeState.taskCreateUser at h
  cases halloc : m.allocTaskSlot with
  | none =>
    rw [halloc] at h
    obtain ⟨rfl, rfl⟩ := Prod.mk.inj (Option.some.inj h)
    exact .failed (.inl (allocTaskSlot_eq_none halloc)) rfl rfl ⟨rfl, fun _ _ => rfl⟩
  | some r =>
    obtain ⟨t, m₀⟩ := r
    obtain ⟨hfree, rfl⟩ := allocTaskSlot_eq_some halloc
    rw [halloc] at h
    dsimp only at h
    by_cases hcap : a.capTable = 0
    · rw [if_pos hcap] at h
      obtain ⟨rfl, rfl⟩ := Prod.mk.inj (Option.some.inj h)
      refine .failed (.inr fun hs => hs.1 hcap) ?_ rfl ⟨rfl, fun _ _ => rfl⟩
      exact spaces_giveUp hfree fun u hu => by simp [hu]
    rw [if_neg hcap] at h
    by_cases hstack : a.kstackBase = 0
    · rw [if_pos hstack] at h
      obtain ⟨rfl, rfl⟩ := Prod.mk.inj (Option.some.inj h)
      refine .failed (.inr fun hs => hs.2.1 hstack) ?_ rfl ⟨rfl, fun _ _ => rfl⟩
      exact spaces_giveUp hfree fun u hu => by simp [hu]
    rw [if_neg hstack] at h
    by_cases hpml4 : a.pml4 = 0
    · rw [if_pos hpml4] at h
      obtain ⟨rfl, rfl⟩ := Prod.mk.inj (Option.some.inj h)
      refine .failed (.inr fun hs => hs.2.2.1 hpml4) ?_ rfl ⟨rfl, fun _ _ => rfl⟩
      exact spaces_giveUp hfree fun u hu => by simp [hu]
    rw [if_neg hpml4] at h
    by_cases hustack : a.ustack = 0
    · rw [if_pos hustack] at h
      obtain ⟨rfl, rfl⟩ := Prod.mk.inj (Option.some.inj h)
      refine .failed (.inr fun hs => hs.2.2.2 hustack) ?_ rfl ⟨rfl, ?_⟩
      · exact spaces_giveUp hfree fun u hu => by simp [hu]
      · -- the PML4 is written before the frame for the stack page is missed
        intro x hx
        rw [CreateAllocs.newTables, if_neg hpml4] at hx
        refine Function.update_of_ne ?_ _ _
        rintro rfl
        exact hx List.mem_cons_self
    rw [if_neg hustack, Option.bind_eq_bind] at h
    obtain ⟨pt, hpt, h⟩ := Option.bind_eq_some_iff.mp h
    obtain ⟨rfl, rfl⟩ := Prod.mk.inj (Option.some.inj h)
    refine .created ⟨hcap, hstack, hpml4, hustack⟩ hfree (spaces_of_slot ?_ ?_) rfl rfl hpt
    · intro u hu
      simp [hu]
    · simp [Task.space, CreateAllocs.newPml4, ResumeState.setTask]

end

end StyxOS
