import StyxOS.Elf.Isolation
import StyxOS.Library.Run

/-! # The kernel's half of every address space

`task_create_user` copies the upper entries of the kernel's PML4 once. The tables
behind them are shared from then on, so what is mapped under an entry that was
there is seen by every task; an entry that `vmm_map_page` makes later, or opens
to user code later, is the kernel's alone.
-/

namespace StyxOS

open ByteMem FrameAllocator StepSystem

/-! ## Copied entries -/

/-- The kernel's entry `b` against a copy `a` of it: nothing was there when it was copied, or it has
at most been opened to user code since. -/
def Copied (a b : ℕ) : Prop := ptePresent a = false ∨ b = a ∨ b = a ||| 4

theorem Copied.refl (a : ℕ) : Copied a a := Or.inr (Or.inl rfl)

theorem and_four_cases (flags : ℕ) : flags &&& 4 = 0 ∨ flags &&& 4 = 4 := by
  have h4 : (4 : ℕ) = 2 ^ 2 := rfl
  rw [h4, Nat.and_two_pow]
  cases flags.testBit 2 <;> simp

variable {a b flags : ℕ}

theorem Copied.opened (h : Copied a b) (flags : ℕ) : Copied a (b ||| flags &&& 4) := by
  have h4 : ∀ x : ℕ, (x ||| 4) ||| 4 = x ||| 4 := fun x => by rw [Nat.or_assoc, Nat.or_self]
  rcases h with ha | rfl | rfl
  · exact Or.inl ha
  · rcases and_four_cases flags with hf | hf
    · exact Or.inr (Or.inl (by rw [hf, Nat.or_zero]))
    · exact Or.inr (Or.inr (by rw [hf]))
  · rcases and_four_cases flags with hf | hf
    · exact Or.inr (Or.inr (by rw [hf, Nat.or_zero]))
    · exact Or.inr (Or.inr (by rw [hf, h4]))

/-- The walk through a copy: what the kernel's finds, as far as the copy lets user code pass. -/
theorem hwWalk_of_copied {mem : Mem} {task kernel virt : ℕ}
    (h : Copied (entryAt mem task (pml4Index virt)) (entryAt mem kernel (pml4Index virt))) :
    hwWalk mem task virt =
      if ptePresent (entryAt mem task (pml4Index virt)) then
        (hwWalk mem kernel virt).map fun t =>
          { t with user := t.user && pteUser (entryAt mem task (pml4Index virt)) }
      else none := by
  unfold hwWalk
  generalize entryAt mem task (pml4Index virt) = a at h ⊢
  generalize entryAt mem kernel (pml4Index virt) = b at h ⊢
  cases ha : ptePresent a with
  | false => simp [ha]
  | true =>
    obtain ⟨hpres, haddr, hwrit, hlarge, huser⟩ : ptePresent b = true ∧ pteAddr b = pteAddr a ∧
        pteWritable b = pteWritable a ∧ pteLarge b = pteLarge a ∧
        (pteUser b && pteUser a) = pteUser a := by
      rcases h.resolve_left (by simp [ha]) with rfl | rfl
      · exact ⟨ha, rfl, rfl, rfl, Bool.and_self _⟩
      · obtain ⟨h₁, h₂, h₃, h₄, h₅⟩ := openedEntry_bits a 4
        rw [Nat.and_self] at h₁ h₂ h₃ h₄ h₅
        refine ⟨h₁.trans ha, h₂, h₃, h₄, ?_⟩
        rw [h₅]
        cases pteUser a <;> rfl
    have htranslate : ∀ bits es, (translate virt bits (es ++ [b])).map
        (fun t => { t with user := t.user && pteUser a }) = translate virt bits (es ++ [a]) := by
      intro bits es
      cases es with
      | nil => simp [translate, haddr, hwrit, huser]
      | cons e es => simp [translate, hwrit, huser, Bool.and_assoc]
    have h₃ := fun e₃ => htranslate 30 [e₃]
    have h₂ := fun e₂ e₃ => htranslate 21 [e₂, e₃]
    have h₁ := fun e₁ e₂ e₃ => htranslate 12 [e₁, e₂, e₃]
    simp only [List.cons_append, List.nil_append] at h₃ h₂ h₁
    simp only [ha, hpres, haddr, hlarge, if_true]
    split_ifs <;> simp [h₁, h₂, h₃]

/-- The PML4 lets a walk to the address pass, and one of user code if that is asked for. -/
def Lets (mem : Mem) (pml4 virt : ℕ) (user : Bool) : Prop :=
  ptePresent (entryAt mem pml4 (pml4Index virt)) = true ∧
    (user = true → pteUser (entryAt mem pml4 (pml4Index virt)) = true)

theorem hwWalk_eq_iff {mem : Mem} {task kernel virt : ℕ}
    (h : Copied (entryAt mem task (pml4Index virt)) (entryAt mem kernel (pml4Index virt))) :
    hwWalk mem task virt = hwWalk mem kernel virt ↔
      ∀ t, hwWalk mem kernel virt = some t → Lets mem task virt t.user := by
  rw [hwWalk_of_copied h]
  unfold Lets
  cases hwWalk mem kernel virt with
  | none => simp
  | some t =>
    obtain ⟨phys, writable, user⟩ := t
    cases ptePresent (entryAt mem task (pml4Index virt)) with
    | false => simp
    | true => cases user <;> simp

/-! ## The tables of the kernel and the copies -/

section

variable {σ : Type} [FrameAllocator σ] {k : ℕ} {tasks : List ℕ} {place : ℕ → Option Position}
  {s s' : Vmm σ} {virt phys : ℕ}

/-- The PML4 in frame `k` is the kernel's, and each task has a PML4 of its own with a copy of the
upper entries. -/
structure Copies (k : ℕ) (tasks : List ℕ) (place : ℕ → Option Position) (s : Vmm σ) : Prop where
  currentPml4 : s.currentPml4 = some (4096 * k)
  tables : TablesOk {k} place s.mem s.pmm
  task : ∀ t ∈ tasks, ∃ r, t = 4096 * r ∧ r ≠ k ∧ place r = some (.space r, [])
  copied : ∀ t ∈ tasks, ∀ i : Fin 512, 256 ≤ i.val →
    Copied (entryAt s.mem t i) (entryAt s.mem (4096 * k) i)

/-- The addresses of the upper half mean the same in every task as in the kernel's space. -/
def SharedUpper (k : ℕ) (tasks : List ℕ) (mem : Mem) : Prop :=
  ∀ t ∈ tasks, ∀ virt, InUpperHalf virt → hwWalk mem t virt = hwWalk mem (4096 * k) virt

/-- Entries of the upper half that are there stay there. -/
def EntriesKept (pml4s : List ℕ) (mem mem' : Mem) : Prop :=
  ∀ p ∈ pml4s, ∀ i : Fin 512, 256 ≤ i.val → ptePresent (entryAt mem p i) = true →
    ptePresent (entryAt mem' p i) = true

theorem Copies.sharedUpper_iff (h : Copies k tasks place s) : SharedUpper k tasks s.mem ↔
    ∀ t ∈ tasks, ∀ virt, InUpperHalf virt → ∀ x, hwWalk s.mem (4096 * k) virt = some x →
      Lets s.mem t virt x.user := by
  refine forall₂_congr fun t ht => forall₂_congr fun virt hup => ?_
  exact hwWalk_eq_iff (h.copied t ht _ (upper_pathOf hup _ rfl))

theorem Copies.of_avail {pmm : σ} (h : Copies k tasks place s)
    (hav : ∀ f, Avail pmm f → Avail s.pmm f) : Copies k tasks place { s with pmm := pmm } where
  currentPml4 := h.currentPml4
  tables := h.tables.of_avail hav
  task := h.task
  copied := h.copied

theorem Copies.entries (h : Copies k tasks place s) (hk : KeepsRoots place k virt flags s s') :
    (∀ t ∈ tasks, ∀ i, entryAt s'.mem t i = entryAt s.mem t i) ∧
      ∀ i, i ≠ pml4Index virt → entryAt s'.mem (4096 * k) i = entryAt s.mem (4096 * k) i := by
  constructor
  · intro t ht i
    obtain ⟨r, rfl, hr, hplace⟩ := h.task t ht
    exact hk.other r _ i hplace rfl (.inl hr)
  · intro i hi
    exact hk.other k _ i (h.tables.root k rfl) rfl (.inr hi)

theorem Copies.vmmMapPage (h : Copies k tasks place s) (hflags : flags < 2 ^ 64)
    (hs : vmmMapPage s virt phys flags = some s') :
    ∃ place', Copies k tasks place' s' ∧ Maps place place' k virt phys flags s s' ∧
      KeepsRoots place k virt flags s s' := by
  obtain ⟨place', hok, hmaps⟩ := h.tables.vmmMapPage rfl h.currentPml4 hflags
    (fun _ => .inr subset_rfl) hs
  have hroots := h.tables.keepsRoots rfl h.currentPml4 hflags hs
  obtain ⟨htask, hkernel⟩ := h.entries hroots
  refine ⟨place', ⟨hmaps.currentPml4.trans h.currentPml4, hok, ?_, ?_⟩, hmaps, hroots⟩
  · intro t ht
    obtain ⟨r, rfl, hr, hplace⟩ := h.task t ht
    exact ⟨r, rfl, hr, hmaps.le r _ hplace⟩
  · intro t ht i hi
    rw [htask t ht i]
    by_cases hv : i = pml4Index virt
    · subst hv
      rcases h.copied t ht _ hi with hno | hsame
      · exact Or.inl hno
      · cases hpres : ptePresent (entryAt s.mem t (pml4Index virt)) with
        | false => exact Or.inl hpres
        | true =>
          have hthere : ptePresent (StyxOS.tables s.mem k (pml4Index virt)) = true := by
            rcases hsame with he | he
            · rw [StyxOS.tables, he, hpres]
            · have hbits := (openedEntry_bits (entryAt s.mem t (pml4Index virt)) 4).1
              rw [Nat.and_self] at hbits
              rw [StyxOS.tables, he, hbits, hpres]
          have hopened := hroots.opened hthere
          rw [← StyxOS.tables, hopened]
          exact Copied.opened (Or.inr hsame) flags
    · rw [hkernel i hv]
      exact h.copied t ht i hi

theorem KeepsRoots.entriesKept (h : Copies k tasks place s)
    (hk : KeepsRoots place k virt flags s s') : EntriesKept (4096 * k :: tasks) s.mem s'.mem := by
  obtain ⟨htask, hkernel⟩ := h.entries hk
  intro p hp i hi hpres
  rcases List.mem_cons.mp hp with rfl | hp
  · by_cases hv : i = pml4Index virt
    · subst hv
      exact hk.present
    · rw [hkernel i hv, hpres]
  · rw [htask p hp i, hpres]

/-- What the walk of the kernel finds after a map: the new entry on its page, and elsewhere what it
found before. -/
theorem Copies.walk_map (h : Copies k tasks place s) {place' : ℕ → Option Position}
    (h' : Copies k tasks place' s') (hm : Maps place place' k virt phys flags s s') (w : ℕ) :
    (pathOf w ≠ pathOf virt → hwWalk s'.mem (4096 * k) w = hwWalk s.mem (4096 * k) w) ∧
      (pathOf w = pathOf virt →
        (flags.testBit 0 = false → hwWalk s'.mem (4096 * k) w = none) ∧
        (flags.testBit 0 = true → ∃ x, hwWalk s'.mem (4096 * k) w = some x ∧
          x.user = flags.testBit 2)) := by
  have hpres : ptePresent (leafEntry phys flags) = flags.testBit 0 :=
    testBit_pteAddr_or (by norm_num)
  have huser : pteUser (leafEntry phys flags) = flags.testBit 2 :=
    testBit_pteAddr_or (by norm_num)
  constructor
  · intro hne
    refine h.tables.hwWalk_congr h'.tables rfl rfl ?_
    refine hm.other k _ _ (h.tables.root k rfl) (full_of_length (.space k) rfl) fun hc => hne ?_
    exact (slot_root_inj rfl rfl hc).1
  · intro heq
    have hwalk : hwWalk s'.mem (4096 * k) w = _ := h'.tables.hwWalk_eq rfl
    rw [heq, hm.here, hpres] at hwalk
    constructor
    · intro hno
      rw [hwalk, hno]
      rfl
    · intro hyes
      rw [if_pos hyes] at hwalk
      exact ⟨_, hwalk, huser⟩

/-- A map through the kernel's PML4 stays shared just when every task has the entry of the PML4 that
the page needs. -/
theorem Copies.sharedUpper_map_iff (h : Copies k tasks place s) (hup : InUpperHalf virt)
    (hshared : SharedUpper k tasks s.mem) {place' : ℕ → Option Position}
    (h' : Copies k tasks place' s') (hm : Maps place place' k virt phys flags s s')
    (hroots : KeepsRoots place k virt flags s s') :
    SharedUpper k tasks s'.mem ↔
      (flags.testBit 0 = true → ∀ t ∈ tasks, Lets s.mem t virt (flags.testBit 2)) := by
  obtain ⟨htask, -⟩ := h.entries hroots
  have hlets : ∀ t ∈ tasks, ∀ w u, Lets s'.mem t w u ↔ Lets s.mem t w u := fun t ht w u => by
    unfold Lets
    rw [htask t ht]
  rw [h'.sharedUpper_iff]
  rw [h.sharedUpper_iff] at hshared
  constructor
  · intro hall hpres t ht
    obtain ⟨x, hx, hu⟩ := ((h.walk_map h' hm virt).2 rfl).2 hpres
    rw [← hu, ← hlets t ht]
    exact hall t ht virt hup x hx
  · intro hcond t ht w hw x hx
    rw [hlets t ht]
    obtain ⟨hother, hhere⟩ := h.walk_map h' hm w
    by_cases hpath : pathOf w = pathOf virt
    · cases hpres : flags.testBit 0 with
      | false =>
        rw [(hhere hpath).1 hpres] at hx
        cases hx
      | true =>
        obtain ⟨y, hy, hu⟩ := (hhere hpath).2 hpres
        obtain rfl : x = y := Option.some.inj (hx.symm.trans hy)
        have hindex : pml4Index w = pml4Index virt := (List.cons.inj hpath).1
        have hlet := hcond hpres t ht
        rw [hu]
        unfold Lets at hlet ⊢
        rwa [hindex]
    · rw [hother hpath] at hx
      exact hshared t ht w hw x hx

theorem Copies.vmmUnmapPage (h : Copies k tasks place s) (virt : ℕ) :
    Copies k tasks place (vmmUnmapPage s virt) ∧
      EntriesKept (4096 * k :: tasks) s.mem (vmmUnmapPage s virt).mem ∧
      (SharedUpper k tasks s.mem → SharedUpper k tasks (vmmUnmapPage s virt).mem) := by
  obtain ⟨hok, hcur, -, hhere, hother⟩ := h.tables.vmmUnmapPage virt rfl h.currentPml4
  have hkernel : ∀ i, entryAt (StyxOS.vmmUnmapPage s virt).mem (4096 * k) i =
      entryAt s.mem (4096 * k) i := fun i =>
    h.tables.vmmUnmapPage_root virt rfl h.currentPml4 (h.tables.root k rfl) rfl i
  have htask : ∀ t ∈ tasks, ∀ i, entryAt (StyxOS.vmmUnmapPage s virt).mem t i =
      entryAt s.mem t i := by
    intro t ht i
    obtain ⟨r, rfl, -, hplace⟩ := h.task t ht
    exact h.tables.vmmUnmapPage_root virt rfl h.currentPml4 hplace rfl i
  have h' : Copies k tasks place (StyxOS.vmmUnmapPage s virt) := by
    refine ⟨hcur.trans h.currentPml4, hok, h.task, fun t ht i hi => ?_⟩
    rw [htask t ht, hkernel]
    exact h.copied t ht i hi
  refine ⟨h', ?_, fun hshared => ?_⟩
  · intro p hp i _ hpres
    rcases List.mem_cons.mp hp with rfl | hp
    · rw [hkernel, hpres]
    · rw [htask p hp, hpres]
  · rw [h'.sharedUpper_iff]
    rw [h.sharedUpper_iff] at hshared
    intro t ht w hw x hx
    have hold : hwWalk s.mem (4096 * k) w = some x := by
      by_cases hpath : pathOf w = pathOf virt
      · rw [hok.hwWalk_eq rfl, hpath, hhere] at hx
        cases hx
      · rw [← hx]
        exact (h.tables.hwWalk_congr hok rfl rfl (hother _ rfl hpath)).symm
    have hlet := hshared t ht w hw x hold
    unfold Lets at hlet ⊢
    rwa [htask t ht]

/-! ## Growing the heap -/

/-- Every PML4 has the entry that the heap lies under. -/
def HeapEntry (k : ℕ) (tasks : List ℕ) (mem : Mem) : Prop :=
  ∀ p ∈ 4096 * k :: tasks, ptePresent (entryAt mem p (pml4Index heapBaseAddr)) = true

theorem HeapEntry.kept {mem mem' : Mem} (h : HeapEntry k tasks mem)
    (hk : EntriesKept (4096 * k :: tasks) mem mem') : HeapEntry k tasks mem' :=
  fun p hp => hk p hp _ (by decide) (h p hp)

/-- A state in which all is shared, and the heap can grow. -/
structure Sharing (k : ℕ) (tasks : List ℕ) (s : Vmm σ) : Prop where
  copies : ∃ place, Copies k tasks place s
  heapEntry : HeapEntry k tasks s.mem
  shared : SharedUpper k tasks s.mem

def InHeap (virt : ℕ) : Prop := heapBaseAddr ≤ virt ∧ virt < heapBaseAddr + heapMaxSize

theorem InHeap.upper (h : InHeap virt) :
    InUpperHalf virt ∧ pml4Index virt = pml4Index heapBaseAddr := by
  unfold InHeap heapBaseAddr heapMaxSize at h
  unfold InUpperHalf
  refine ⟨by omega, ?_⟩
  simp only [pml4Index, Fin.ext_iff, Fin.val_ofNat, Nat.shiftRight_eq_div_pow, heapBaseAddr]
  omega

theorem Sharing.mapHeapPages (h : Sharing k tasks s) {pages : List ℕ} {b : Bool}
    (hpages : ∀ page ∈ pages, InHeap page) (hs : mapHeapPages s pages = some (b, s')) :
    Sharing k tasks s' := by
  induction pages generalizing s with
  | nil =>
    obtain ⟨-, rfl⟩ := Prod.mk.inj (Option.some.inj hs)
    exact h
  | cons page pages ih =>
    unfold StyxOS.mapHeapPages at hs
    cases halloc : allocFrame s.pmm with
    | none =>
      rw [halloc] at hs
      obtain ⟨-, rfl⟩ := Prod.mk.inj (Option.some.inj hs)
      exact h
    | some x =>
      obtain ⟨phys, pmm⟩ := x
      simp only [halloc, Option.bind_eq_bind, Option.bind_eq_some_iff] at hs
      obtain ⟨t, ht, hs⟩ := hs
      obtain ⟨hpage, hrest⟩ := List.forall_mem_cons.mp hpages
      obtain ⟨hup, hindex⟩ := hpage.upper
      obtain ⟨place, hcopies⟩ := h.copies
      have hcopies₁ := hcopies.of_avail fun f hf => ((allocFrame_avail halloc).2 f hf).1
      obtain ⟨place', hcopies', hmaps, hroots⟩ :=
        hcopies₁.vmmMapPage (by norm_num [kernelFlags]) ht
      have hkept := hroots.entriesKept hcopies₁
      refine ih ⟨⟨place', hcopies'⟩, h.heapEntry.kept hkept, ?_⟩ hrest hs
      refine (hcopies₁.sharedUpper_map_iff hup h.shared hcopies' hmaps hroots).mpr
        fun _ task htask => ⟨?_, fun hu => by cases hu⟩
      rw [hindex]
      exact h.heapEntry task (List.mem_cons_of_mem _ htask)

/-! ## Creating a task -/

theorem Copies.copyUpperHalf (h : Copies k tasks place s) {m : ℕ} (hm : place m = none) :
    Copies k tasks place { s with mem := copyUpperHalf s.mem (4096 * m) (4096 * k) } ∧
      (∀ p ∈ 4096 * k :: tasks, ∀ i,
        entryAt (copyUpperHalf s.mem (4096 * m) (4096 * k)) p i = entryAt s.mem p i) ∧
      ∀ w, hwWalk (copyUpperHalf s.mem (4096 * m) (4096 * k)) (4096 * k) w =
        hwWalk s.mem (4096 * k) w := by
  obtain ⟨hok, hfind⟩ := h.tables.copyUpperHalf (k := k) hm
  have hentry : ∀ r q, place r = some q → ∀ i,
      entryAt (StyxOS.copyUpperHalf s.mem (4096 * m) (4096 * k)) (4096 * r) i =
        entryAt s.mem (4096 * r) i := by
    intro r q hr i
    refine tables_store (length_upperHalf s.mem _) ?_
    rintro rfl
    rw [hm] at hr
    cases hr
  have hkroot := h.tables.root k rfl
  have hentries : ∀ p ∈ 4096 * k :: tasks, ∀ i,
      entryAt (StyxOS.copyUpperHalf s.mem (4096 * m) (4096 * k)) p i = entryAt s.mem p i := by
    intro p hp i
    rcases List.mem_cons.mp hp with rfl | hp
    · exact hentry k _ hkroot i
    · obtain ⟨r, rfl, -, hr⟩ := h.task p hp
      exact hentry r _ hr i
  refine ⟨⟨h.currentPml4, hok, h.task, fun t ht i hi => ?_⟩, hentries, fun w => ?_⟩
  · dsimp only
    rw [hentries t (List.mem_cons_of_mem _ ht), hentries _ List.mem_cons_self]
    exact h.copied t ht i hi
  · exact h.tables.hwWalk_congr hok rfl rfl
      (hfind k _ _ hkroot (full_of_length (.space k) rfl))

/-- The kernel's walks and the entries decide what is shared. -/
theorem SharedUpper.congr {s s' : Vmm σ} {place' : ℕ → Option Position}
    (hshared : SharedUpper k tasks s.mem) (h : Copies k tasks place s)
    (h' : Copies k tasks place' s')
    (hentries : ∀ t ∈ tasks, ∀ i : Fin 512, 256 ≤ i.val →
      entryAt s'.mem t i = entryAt s.mem t i)
    (hwalk : ∀ w, InUpperHalf w → hwWalk s'.mem (4096 * k) w = hwWalk s.mem (4096 * k) w) :
    SharedUpper k tasks s'.mem := by
  rw [h'.sharedUpper_iff]
  rw [h.sharedUpper_iff] at hshared
  intro t ht w hw x hx
  rw [hwalk w hw] at hx
  have hlet := hshared t ht w hw x hx
  unfold Lets at hlet ⊢
  rwa [hentries t ht _ (upper_pathOf hw _ rfl)]

theorem TablesOk.subset {roots roots' : Set ℕ} {mem : Mem} {pmm : σ}
    (h : TablesOk roots place mem pmm) (hsub : roots' ⊆ roots) : TablesOk roots' place mem pmm :=
  ⟨h.placed, fun r hr => h.root r (hsub hr), h.taken, h.inner, fun r hr => h.user r (hsub hr)⟩

theorem lets_of_hwWalk {mem : Mem} {pml4 : ℕ} {x : Translation}
    (hx : hwWalk mem pml4 virt = some x) : Lets mem pml4 virt x.user :=
  (hwWalk_eq_iff (Copied.refl _)).mp rfl x hx

/-- A new PML4 with the kernel's upper entries, and a page for the stack in the other half. -/
theorem Sharing.addTask (h : Sharing k tasks s) {m ustack : ℕ} {pmm pmm' : σ} {t : Vmm σ}
    (halloc : allocFrame s.pmm = some (4096 * m, pmm))
    (halloc' : allocFrame pmm = some (ustack, pmm'))
    (ht : StyxOS.vmmMapPage { s with
        mem := copyUpperHalf s.mem (4096 * m) (4096 * k)
        pmm := pmm'
        currentPml4 := some (4096 * m) } taskUserStackPage ustack userFlags = some t) :
    Sharing k (4096 * m :: tasks) { t with currentPml4 := s.currentPml4 } := by
  obtain ⟨place, hcopies⟩ := h.copies
  have hm := hcopies.tables.unplaced (allocFrame_avail halloc).1
  have hkroot := hcopies.tables.root k rfl
  obtain ⟨hcopies₁, hentries₁, hwalk₁⟩ := hcopies.copyUpperHalf hm
  have hok := (hcopies.tables.addRoot rfl halloc).of_avail
    fun f hf => ((allocFrame_avail halloc').2 f hf).1
  have hflags : userFlags < 2 ^ 64 := by norm_num [userFlags]
  generalize hv : ({ s with
      mem := copyUpperHalf s.mem (4096 * m) (4096 * k)
      pmm := pmm'
      currentPml4 := some (4096 * m) } : Vmm σ) = v at ht
  have hmem : v.mem = copyUpperHalf s.mem (4096 * m) (4096 * k) := by rw [← hv]
  have hpmm : v.pmm = pmm' := by rw [← hv]
  have hcur : v.currentPml4 = some (4096 * m) := by rw [← hv]
  rw [← hmem, ← hpmm] at hok
  obtain ⟨place', hok', hmaps⟩ := hok.vmmMapPage (Set.mem_insert m _) hcur hflags
    (fun _ => .inl inLowerHalf_stackPage) ht
  have hroots := hok.keepsRoots (Set.mem_insert m _) hcur hflags ht
  have hmk : m ≠ k := by
    rintro rfl
    rw [hm] at hkroot
    cases hkroot
  -- the entries of the PML4s there were, and those of the new one
  have hold : ∀ r, place r = some (.space r, []) → ∀ i,
      entryAt t.mem (4096 * r) i = entryAt v.mem (4096 * r) i := by
    intro r hr i
    refine hroots.other r _ i (placed_of_insert hm hr) rfl (.inl ?_)
    rintro rfl
    rw [hm] at hr
    cases hr
  have hentries : ∀ p ∈ 4096 * k :: tasks, ∀ i, entryAt t.mem p i = entryAt s.mem p i := by
    intro p hp i
    rw [← hentries₁ p hp i, ← hmem]
    rcases List.mem_cons.mp hp with rfl | hp
    · exact hold k hkroot i
    · obtain ⟨r, rfl, -, hr⟩ := hcopies.task p hp
      exact hold r hr i
  have hnew : ∀ i : Fin 512, 256 ≤ i.val →
      entryAt t.mem (4096 * m) i = entryAt s.mem (4096 * k) i := by
    intro i hi
    have hcopy : tables v.mem m i = if 256 ≤ i.val then tables s.mem k i else 0 := by
      rw [hmem, tables_copyUpperHalf]
    rw [if_pos hi] at hcopy
    refine (hroots.other m _ i (Function.update_self _ _ _) rfl (.inr ?_)).trans hcopy
    rintro rfl
    exact absurd inLowerHalf_stackPage (Nat.not_lt.mpr hi)
  have hwalk : ∀ w, InUpperHalf w → hwWalk t.mem (4096 * k) w = hwWalk s.mem (4096 * k) w := by
    intro w hw
    rw [← hwalk₁ w, ← hmem]
    refine hok.hwWalk_congr hok' (Set.mem_insert_of_mem m rfl) (Set.mem_insert_of_mem m rfl) ?_
    refine hmaps.other k _ _ (placed_of_insert hm hkroot) (full_of_length (.space k) rfl) ?_
    intro hslot
    have hpath := (slot_root_inj rfl rfl hslot).1
    have hindex : pml4Index w = pml4Index taskUserStackPage := (List.cons.inj hpath).1
    have hup := upper_pathOf hw _ rfl
    rw [hindex] at hup
    exact absurd inLowerHalf_stackPage (Nat.not_lt.mpr hup)
  have hcopies' : Copies k (4096 * m :: tasks) place'
      { t with currentPml4 := s.currentPml4 } := by
    refine ⟨hcopies.currentPml4, hok'.subset (Set.subset_insert m _), ?_, ?_⟩
    · refine List.forall_mem_cons.mpr ⟨⟨m, rfl, hmk, ?_⟩, fun p hp => ?_⟩
      · exact hmaps.le m _ (Function.update_self _ _ _)
      · obtain ⟨r, rfl, hr, hplace⟩ := hcopies.task p hp
        exact ⟨r, rfl, hr, hmaps.le r _ (placed_of_insert hm hplace)⟩
    · refine List.forall_mem_cons.mpr ⟨fun i hi => ?_, fun p hp i hi => ?_⟩
      · dsimp only
        rw [hnew i hi, hentries _ List.mem_cons_self]
        exact Copied.refl _
      · dsimp only
        rw [hentries p (List.mem_cons_of_mem _ hp), hentries _ List.mem_cons_self]
        exact hcopies.copied p hp i hi
  refine ⟨⟨place', hcopies'⟩, ?_, ?_⟩
  · have hkernel := h.heapEntry _ List.mem_cons_self
    intro p hp
    rcases List.mem_cons.mp hp with rfl | hp
    · rw [hentries _ List.mem_cons_self, hkernel]
    · rcases List.mem_cons.mp hp with rfl | hp
      · rw [hnew _ (by decide), hkernel]
      · rw [hentries p (List.mem_cons_of_mem _ hp)]
        exact h.heapEntry p (List.mem_cons_of_mem _ hp)
  · rw [hcopies'.sharedUpper_iff]
    have hshared := hcopies.sharedUpper_iff.mp h.shared
    intro p hp w hw x hx
    have hx : hwWalk s.mem (4096 * k) w = some x := (hwalk w hw).symm.trans hx
    have hindex := upper_pathOf hw _ rfl
    unfold Lets
    rcases List.mem_cons.mp hp with rfl | hp
    · rw [hnew _ hindex]
      exact lets_of_hwWalk hx
    · rw [hentries p (List.mem_cons_of_mem _ hp)]
      exact hshared p hp w hw x hx

/-- The part of `task_create_user` that makes the space shares it: the new PML4 has the kernel's
entries, and its stack page lies in the other half. -/
theorem Sharing.createSpace {S S' : Spaces σ} {o : Option ℕ} (h : Sharing k S.tasks S.vmm)
    (hs : createSpace S (4096 * k) = some (o, S')) :
    Sharing k S'.tasks S'.vmm ∧ S'.heapEnd = S.heapEnd := by
  obtain ⟨place, hcopies⟩ := h.copies
  unfold StyxOS.createSpace at hs
  cases halloc : allocFrame S.vmm.pmm with
  | none =>
    rw [halloc] at hs
    obtain ⟨-, rfl⟩ := Prod.mk.inj (Option.some.inj hs)
    exact ⟨h, rfl⟩
  | some x =>
    obtain ⟨pml4, pmm⟩ := x
    obtain ⟨hav, hnew⟩ := allocFrame_avail halloc
    obtain ⟨hal, hz, hlt⟩ := avail_frame hav
    obtain ⟨m, rfl⟩ := Nat.dvd_of_mod_eq_zero hal
    have hm := hcopies.tables.unplaced hav
    obtain ⟨hcopies₁, hentries₁, hwalk₁⟩ := hcopies.copyUpperHalf hm
    rw [halloc] at hs
    dsimp only at hs
    cases halloc' : allocFrame pmm with
    | none =>
      rw [halloc'] at hs
      obtain ⟨-, rfl⟩ := Prod.mk.inj (Option.some.inj hs)
      have hback : ∀ f, Avail (freeFrame (4096 * m) pmm) f → Avail S.vmm.pmm f := by
        intro f hf
        rcases freeFrame_avail hal hz hlt hf with hf | rfl
        · exact (hnew f hf).1
        · exact hav
      have hcopies₂ := hcopies₁.of_avail hback
      refine ⟨⟨⟨place, hcopies₂⟩, ?_, ?_⟩, rfl⟩
      · exact fun p hp => by
          dsimp only
          rw [hentries₁ p hp]
          exact h.heapEntry p hp
      · exact h.shared.congr hcopies hcopies₂
          (fun t ht i _ => hentries₁ t (List.mem_cons_of_mem _ ht) i) fun w _ => hwalk₁ w
    | some x =>
      obtain ⟨ustack, pmm'⟩ := x
      simp only [halloc', Option.bind_eq_bind, Option.bind_eq_some_iff, Option.some.injEq,
        Prod.mk.injEq] at hs
      obtain ⟨t, ht, -, rfl⟩ := hs
      exact ⟨h.addTask halloc halloc' ht, rfl⟩

theorem Sharing.kmallocPages {S S' : Spaces σ} {fits b : Bool} {size : ℕ}
    (h : Sharing k S.tasks S.vmm) (hheap : heapBaseAddr ≤ S.heapEnd)
    (hs : kmallocPages S fits size = some (b, S')) :
    Sharing k S'.tasks S'.vmm ∧ heapBaseAddr ≤ S'.heapEnd := by
  unfold StyxOS.kmallocPages at hs
  cases fits with
  | true =>
    obtain ⟨-, rfl⟩ := Prod.mk.inj (Option.some.inj hs)
    exact ⟨h, hheap⟩
  | false =>
    rw [if_neg Bool.false_ne_true] at hs
    dsimp only at hs
    by_cases hfull : S.heapEnd + 4096 * (grownPages S.heapEnd size).length >
        heapBaseAddr + heapMaxSize
    · rw [if_pos hfull] at hs
      obtain ⟨-, rfl⟩ := Prod.mk.inj (Option.some.inj hs)
      exact ⟨h, hheap⟩
    · rw [if_neg hfull, Option.bind_eq_bind] at hs
      obtain ⟨⟨grown, vmm⟩, hmap, hs⟩ := Option.bind_eq_some_iff.mp hs
      obtain ⟨-, rfl⟩ := Prod.mk.inj (Option.some.inj hs)
      refine ⟨h.mapHeapPages (fun page hp => ?_) hmap, ?_⟩
      · obtain ⟨hge, hle, -⟩ := pastHeap_of_mem_grownPages (Nat.not_lt.mp hfull) hp
        unfold InHeap
        omega
      · dsimp only
        split_ifs <;> omega

theorem Sharing.taskCreateUser {S S' : Spaces σ} {env : CreateEnv} {o : Option ℕ}
    (h : Sharing k S.tasks S.vmm) (hheap : heapBaseAddr ≤ S.heapEnd)
    (hs : taskCreateUser S env = some (o, S')) :
    Sharing k S'.tasks S'.vmm ∧ heapBaseAddr ≤ S'.heapEnd := by
  unfold StyxOS.taskCreateUser at hs
  by_cases hslot : env.slotFree = false
  · rw [if_pos hslot] at hs
    obtain ⟨-, rfl⟩ := Prod.mk.inj (Option.some.inj hs)
    exact ⟨h, hheap⟩
  rw [if_neg hslot, Option.bind_eq_bind] at hs
  obtain ⟨⟨capTable, S₁⟩, hcap, hs⟩ := Option.bind_eq_some_iff.mp hs
  obtain ⟨h₁, hheap₁⟩ := h.kmallocPages hheap hcap
  dsimp only at hs
  by_cases hnocap : capTable = false
  · rw [if_pos hnocap] at hs
    obtain ⟨-, rfl⟩ := Prod.mk.inj (Option.some.inj hs)
    exact ⟨h₁, hheap₁⟩
  rw [if_neg hnocap] at hs
  obtain ⟨⟨stack, S₂⟩, hstack, hs⟩ := Option.bind_eq_some_iff.mp hs
  obtain ⟨h₂, hheap₂⟩ := h₁.kmallocPages hheap₁ hstack
  dsimp only at hs
  by_cases hnostack : stack = false
  · rw [if_pos hnostack] at hs
    obtain ⟨-, rfl⟩ := Prod.mk.inj (Option.some.inj hs)
    exact ⟨h₂, hheap₂⟩
  rw [if_neg hnostack] at hs
  obtain ⟨place, hcopies⟩ := h₂.copies
  rw [hcopies.currentPml4] at hs
  obtain ⟨h₃, hend⟩ := h₂.createSpace hs
  exact ⟨h₃, by rwa [hend]⟩

end

/-! ## Runs -/

/-- Every address of the kernel's half means in every task what it means in the kernel's space. -/
def Spaces.SharesKernel {σ : Type} (s : Spaces σ) : Prop :=
  ∀ kernel ∈ s.vmm.currentPml4, ∀ task ∈ s.tasks, ∀ virt, InUpperHalf virt →
    hwWalk s.vmm.mem task virt = hwWalk s.vmm.mem kernel virt

/-- A call that makes a task, allocates from the heap, or maps or unmaps a page with the kernel's
PML4. -/
inductive KernelCall
  | create (env : CreateEnv)
  | kmalloc (fits : Bool) (size : ℕ)
  | map (virt phys flags : ℕ)
  | unmap (virt : ℕ)

namespace KernelCall

section

variable {σ : Type} [FrameAllocator σ]

/-- The call as the kernel performs it; without memory for tables it halts. -/
def apply (s : Spaces σ) : KernelCall → Option (Spaces σ)
  | create env => (taskCreateUser s env).map Prod.snd
  | kmalloc fits size => (kmallocPages s fits size).map Prod.snd
  | map virt phys flags => (vmmMapPage s.vmm virt phys flags).map fun vmm => { s with vmm := vmm }
  | unmap virt => some { s with vmm := vmmUnmapPage s.vmm virt }

/-- A step of a run, which ends where the machine halts. -/
def step (o : Option (Spaces σ)) (c : KernelCall) : Option (Spaces σ) := o.bind fun s => c.apply s

end

/-- What is mapped and unmapped lies in the kernel's half. -/
def InUpper : KernelCall → Prop
  | map virt _ flags => InUpperHalf virt ∧ flags < 2 ^ 64
  | unmap virt => InUpperHalf virt
  | _ => True

/-- A page that is mapped finds its entry of the PML4 in every task, open to user code if the page
is to be. -/
def FindsEntry {σ : Type} (s : Spaces σ) : KernelCall → Prop
  | map virt _ flags => flags.testBit 0 = true →
    ∀ task ∈ s.tasks, Lets s.vmm.mem task virt (flags.testBit 2)
  | _ => True

end KernelCall

/-- The kernel has booted: pages have been mapped into a zeroed PML4, among them the first page of
the heap, and there is no task. -/
structure KernelBooted {σ : Type} [FrameAllocator σ] (s : Spaces σ) : Prop where
  space : ∃ (s₀ : Vmm σ) (r : ℕ) (ops : List PageOp), s₀.currentPml4 = some (4096 * r) ∧
    ¬Avail s₀.pmm (4096 * r) ∧ (∀ a, 4096 * r ≤ a → a < 4096 * r + 4096 → s₀.mem a = 0) ∧
    (∀ virt phys flags, .map virt phys flags ∈ ops → flags < 2 ^ 64) ∧
    (∃ phys flags, .map heapBaseAddr phys flags ∈ ops) ∧ runPageOps s₀ ops = some s.vmm
  tasks : s.tasks = []
  heap : heapBaseAddr ≤ s.heapEnd

section

variable {σ : Type} [FrameAllocator σ] {k : ℕ} {s s' : Spaces σ} {c : KernelCall}

theorem Sharing.sharesKernel (h : Sharing k s.tasks s.vmm) : s.SharesKernel := by
  obtain ⟨place, hcopies⟩ := h.copies
  intro kernel hkernel task htask virt hup
  obtain rfl : 4096 * k = kernel := Option.some.inj (hcopies.currentPml4.symm.trans hkernel)
  exact h.shared task htask virt hup

/-- The step lemma: a call that goes through keeps everything shared just when it finds the entry
that it needs. -/
theorem Sharing.apply_iff (h : Sharing k s.tasks s.vmm) (hheap : heapBaseAddr ≤ s.heapEnd)
    (hup : c.InUpper) (hs : c.apply s = some s') :
    (s'.SharesKernel ↔ c.FindsEntry s) ∧
      (c.FindsEntry s → Sharing k s'.tasks s'.vmm ∧ heapBaseAddr ≤ s'.heapEnd) := by
  have hkeeps : Sharing k s'.tasks s'.vmm ∧ heapBaseAddr ≤ s'.heapEnd → c.FindsEntry s →
      (s'.SharesKernel ↔ c.FindsEntry s) ∧
        (c.FindsEntry s → Sharing k s'.tasks s'.vmm ∧ heapBaseAddr ≤ s'.heapEnd) :=
    fun hk hf => ⟨iff_of_true hk.1.sharesKernel hf, fun _ => hk⟩
  cases c with
  | create env =>
    obtain ⟨⟨o, t⟩, ht, rfl⟩ := Option.map_eq_some_iff.mp hs
    exact hkeeps (h.taskCreateUser hheap ht) trivial
  | kmalloc fits size =>
    obtain ⟨⟨b, t⟩, ht, rfl⟩ := Option.map_eq_some_iff.mp hs
    exact hkeeps (h.kmallocPages hheap ht) trivial
  | map virt phys flags =>
    obtain ⟨v, hv, rfl⟩ := Option.map_eq_some_iff.mp hs
    obtain ⟨place, hcopies⟩ := h.copies
    obtain ⟨place', hcopies', hmaps, hroots⟩ := hcopies.vmmMapPage hup.2 hv
    have hiff := hcopies.sharedUpper_map_iff hup.1 h.shared hcopies' hmaps hroots
    constructor
    · refine Iff.trans ?_ hiff
      constructor
      · exact fun hall task htask => hall _ hcopies'.currentPml4 task htask
      · intro hall kernel hkernel task htask
        obtain rfl : 4096 * k = kernel :=
          Option.some.inj (hcopies'.currentPml4.symm.trans hkernel)
        exact hall task htask
    · intro hf
      exact ⟨⟨⟨place', hcopies'⟩, h.heapEntry.kept (hroots.entriesKept hcopies), hiff.mpr hf⟩,
        hheap⟩
  | unmap virt =>
    obtain rfl := Option.some.inj hs
    obtain ⟨place, hcopies⟩ := h.copies
    obtain ⟨hcopies', hkept, hshared⟩ := hcopies.vmmUnmapPage virt
    exact hkeeps ⟨⟨⟨place, hcopies'⟩, h.heapEntry.kept hkept, hshared h.shared⟩, hheap⟩ trivial

/-- A run of maps and unmaps before there are tasks leaves the entries that it has made. -/
theorem Copies.runPageOps {place : ℕ → Option Position} {v v' : Vmm σ} {ops : List PageOp}
    (h : Copies k [] place v)
    (hops : ∀ virt phys flags, .map virt phys flags ∈ ops → flags < 2 ^ 64)
    (hrun : runPageOps v ops = some v') :
    (∃ place', Copies k [] place' v') ∧ EntriesKept [4096 * k] v.mem v'.mem ∧
      ∀ virt phys flags, 256 ≤ (pml4Index virt).val → .map virt phys flags ∈ ops →
        ptePresent (entryAt v'.mem (4096 * k) (pml4Index virt)) = true := by
  induction ops generalizing v place with
  | nil =>
    obtain rfl := Option.some.inj hrun
    exact ⟨⟨place, h⟩, fun _ _ _ _ hpres => hpres, fun _ _ _ _ hmem => absurd hmem List.not_mem_nil⟩
  | cons op ops ih =>
    rw [StyxOS.runPageOps, List.foldlM_cons] at hrun
    obtain ⟨v₁, hv₁, hrest⟩ := Option.bind_eq_some_iff.mp hrun
    have hstep : ∃ place₁, Copies k [] place₁ v₁ ∧ EntriesKept [4096 * k] v.mem v₁.mem ∧
        ∀ virt phys flags, op = .map virt phys flags →
          ptePresent (entryAt v₁.mem (4096 * k) (pml4Index virt)) = true := by
      cases op with
      | map virt phys flags =>
        obtain ⟨place₁, h₁, -, hroots⟩ := h.vmmMapPage (hops _ _ _ List.mem_cons_self) hv₁
        refine ⟨place₁, h₁, hroots.entriesKept h, ?_⟩
        rintro _ _ _ ⟨⟩
        exact hroots.present
      | unmap virt =>
        obtain rfl := Option.some.inj hv₁
        obtain ⟨h₁, hkept, -⟩ := h.vmmUnmapPage virt
        exact ⟨place, h₁, hkept, fun _ _ _ hop => PageOp.noConfusion hop⟩
    obtain ⟨place₁, h₁, hkept₁, hmade⟩ := hstep
    obtain ⟨hcopies, hkept, hall⟩ :=
      ih h₁ (fun virt phys flags hmem => hops virt phys flags (List.mem_cons_of_mem _ hmem)) hrest
    refine ⟨hcopies, fun p hp i hi hpres => hkept p hp i hi (hkept₁ p hp i hi hpres), ?_⟩
    intro virt phys flags hi hmem
    rcases List.mem_cons.mp hmem with rfl | hmem
    · exact hkept _ List.mem_cons_self _ hi (hmade virt phys flags rfl)
    · exact hall virt phys flags hi hmem

theorem KernelBooted.sharing (h : KernelBooted s) : ∃ k, Sharing k s.tasks s.vmm := by
  obtain ⟨⟨s₀, r, ops, hpml4, hfree, hzero, hops, ⟨phys, flags, hheap⟩, hrun⟩, htasks, -⟩ := h
  obtain ⟨place, hok⟩ := (flatRep_empty hpml4 hfree hzero).tables
  have hempty : Copies r [] place s₀ :=
    ⟨hpml4, hok, fun _ ht => absurd ht List.not_mem_nil, fun _ ht => absurd ht List.not_mem_nil⟩
  obtain ⟨hcopies, -, hmade⟩ := hempty.runPageOps hops hrun
  rw [htasks]
  refine ⟨r, hcopies, ?_, fun _ ht => absurd ht List.not_mem_nil⟩
  intro p hp
  obtain rfl := List.mem_singleton.mp hp
  exact hmade _ phys flags (by decide) hheap

/-- After boot, in every state that a run of task creations, allocations and maps and unmaps of
kernel pages reaches, every task translates the kernel's half as the kernel does, just when every
page that is mapped finds its entry of the PML4 in the tasks there are. -/
theorem kernel_shared_iff (hs : KernelBooted s) {calls : List KernelCall}
    (hcalls : ∀ c ∈ calls, c.InUpper) :
    (∀ pre, pre <+: calls → ∀ s' ∈ run KernelCall.step (some s) pre, s'.SharesKernel) ↔
      AllSteps KernelCall.step
        (fun o c => ∀ s' ∈ o, (c.apply s').isSome = true → c.FindsEntry s') (some s) calls := by
  obtain ⟨k, hsharing⟩ := hs.sharing
  let P : Option (Spaces σ) → Prop := fun o => ∀ s' ∈ o, s'.SharesKernel
  let I : Option (Spaces σ) → Prop :=
    fun o => ∀ s' ∈ o, Sharing k s'.tasks s'.vmm ∧ heapBaseAddr ≤ s'.heapEnd
  have hstart : P (some s) := by
    rintro _ ⟨⟩
    exact hsharing.sharesKernel
  rw [forall_prefix_iff (I := P) KernelCall.step hstart]
  refine allSteps_congr_of_mem (I := I) KernelCall.step ?_ ?_ ?_
  · intro o c hc hi
    cases o with
    | none => exact iff_of_true (fun _ hbad => nomatch hbad) fun _ hbad => nomatch hbad
    | some t =>
      obtain ⟨ht, hheap⟩ := hi t rfl
      cases hstep : c.apply t with
      | none =>
        refine iff_of_true (fun s' hs' => ?_) ?_
        · rw [KernelCall.step, Option.bind_some, hstep] at hs'
          cases hs'
        · rintro _ ⟨⟩ hgoes
          rw [hstep] at hgoes
          cases hgoes
      | some t' =>
        have hiff := (ht.apply_iff hheap (hcalls c hc) hstep).1
        constructor
        · rintro hp _ ⟨⟩ -
          exact hiff.mp (hp t' hstep)
        · intro hq s' hs'
          obtain rfl : t' = s' := Option.some.inj (hstep.symm.trans hs')
          exact hiff.mpr (hq t rfl (by rw [hstep]; rfl))
  · intro o c hc hi hq s' hs'
    obtain ⟨t, rfl, hstep⟩ := Option.bind_eq_some_iff.mp hs'
    obtain ⟨ht, hheap⟩ := hi t rfl
    exact (ht.apply_iff hheap (hcalls c hc) hstep).2 (hq t rfl (by rw [hstep]; rfl))
  · rintro _ ⟨⟩
    exact ⟨hsharing, hs.heap⟩

end

/-- A kernel that has mapped the first page of its heap. -/
def sampleKernel : Spaces FrameList where
  vmm := (runPageOps sampleEmpty [.map heapBaseAddr 0x20000 kernelFlags]).getD sampleEmpty
  heapEnd := heapBaseAddr + 0x1000
  tasks := []

theorem sampleKernel_booted : KernelBooted sampleKernel := by
  have hrun : (runPageOps sampleEmpty [.map heapBaseAddr 0x20000 kernelFlags]).isSome := by
    decide +kernel
  obtain ⟨vmm, hvmm⟩ := Option.isSome_iff_exists.mp hrun
  have hfree : 4096 * 1 ∉ (List.range 24).map fun i => 0x2000 + 0x1000 * i := by decide
  refine ⟨⟨sampleEmpty, 1, [.map heapBaseAddr 0x20000 kernelFlags], rfl, hfree,
    fun _ _ _ => rfl, ?_, ⟨0x20000, kernelFlags, List.mem_singleton_self _⟩, ?_⟩, rfl, by decide⟩
  · rintro virt phys flags hmem
    obtain ⟨-, -, rfl⟩ := PageOp.map.inj (List.mem_singleton.mp hmem)
    decide
  · rw [sampleKernel, hvmm, Option.getD_some]

/-- The heap grows while there is a task, and a page of it is unmapped. -/
theorem kernel_shared_iff_sample :
    ∃ s', run KernelCall.step (some sampleKernel)
        [.create ⟨true, true, true⟩, .kmalloc false 100, .unmap heapBaseAddr] = some s' ∧
      s'.SharesKernel := by
  let calls : List KernelCall :=
    [.create ⟨true, true, true⟩, .kmalloc false 100, .unmap heapBaseAddr]
  have hup : InUpperHalf heapBaseAddr := by
    unfold InUpperHalf heapBaseAddr
    norm_num
  have hcalls : ∀ c ∈ calls, c.InUpper := by
    intro c hc
    simp only [calls, List.mem_cons, List.not_mem_nil, or_false] at hc
    rcases hc with rfl | rfl | rfl
    · trivial
    · trivial
    · exact hup
  have hrun : (run KernelCall.step (some sampleKernel) calls).isSome := by decide +kernel
  obtain ⟨s', hs'⟩ := Option.isSome_iff_exists.mp hrun
  exact ⟨s', hs', (kernel_shared_iff sampleKernel_booted hcalls).mpr
    ⟨fun _ _ _ => trivial, fun _ _ _ => trivial, fun _ _ _ => trivial, trivial⟩ _
      (List.prefix_refl _) s' hs'⟩

/-- A page that the kernel maps under a new entry of its PML4 is not there for a task that was made
before. -/
theorem not_kernel_shared :
    ¬∀ (s : Spaces FrameList) (calls : List KernelCall), KernelBooted s →
      (∀ c ∈ calls, c.InUpper) → ∀ pre, pre <+: calls →
        ∀ s' ∈ run KernelCall.step (some s) pre, s'.SharesKernel := by
  intro hall
  let calls : List KernelCall :=
    [.create ⟨true, true, true⟩, .map 0xffffc00000000000 0x21000 kernelFlags]
  have hup : InUpperHalf 0xffffc00000000000 := by
    unfold InUpperHalf
    norm_num
  have hcalls : ∀ c ∈ calls, c.InUpper := by
    intro c hc
    simp only [calls, List.mem_cons, List.not_mem_nil, or_false] at hc
    rcases hc with rfl | rfl
    · trivial
    · exact ⟨hup, by decide⟩
  have hrun : (run KernelCall.step (some sampleKernel) calls).map (fun s =>
      ((s.tasks, s.vmm.currentPml4), hwWalk s.vmm.mem 0x1000 0xffffc00000000000,
        hwWalk s.vmm.mem 0x5000 0xffffc00000000000)) =
      some (([0x5000], some 0x1000), some ⟨0x21000, true, false⟩, none) := by
    decide +kernel
  obtain ⟨s', hs', hview⟩ := Option.map_eq_some_iff.mp hrun
  simp only [Prod.mk.injEq] at hview
  obtain ⟨⟨htasks, hcur⟩, hkernel, htask⟩ := hview
  have hsame := hall sampleKernel calls sampleKernel_booted hcalls calls (List.prefix_refl _) s' hs'
    0x1000 hcur 0x5000 (by rw [htasks]; exact List.mem_singleton_self _) _ hup
  rw [hkernel, htask] at hsame
  cases hsame

end StyxOS
