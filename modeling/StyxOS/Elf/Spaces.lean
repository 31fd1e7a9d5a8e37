import StyxOS.Elf.Basic

/-! # Address spaces

Every address space has its own lower half and the kernel's upper half. What
maps a fresh frame in one lower half, grows the kernel's part or adds a space
keeps user code of every space to frames that no other space has.
-/

namespace StyxOS

open ByteMem FrameAllocator

section

variable {σ : Type} [FrameAllocator σ]

/-- The address has bit 47 clear, which is the bit that selects the half. -/
def InLowerHalf (virt : ℕ) : Prop := (pml4Index virt).val < 256

/-- What holds of a set of address spaces, of which the kernel's is in frame `k`: user code reaches
lower-half pages of other spaces than the kernel's, in frames that are in use, are no tables and
belong to one space. -/
structure SpacesOk (k : ℕ) (roots : Set ℕ) (place : ℕ → Option Position) (mem : Mem) (pmm : σ) :
    Prop where
  tables : TablesOk roots place mem pmm
  closed : ∀ r ∈ roots, ∀ path e, path.length = 4 → findPage mem r path = some e →
    pteUser e = true → r ≠ k ∧ ∃ i ∈ path.head?, i.val < 256
  owned : ∀ r ∈ roots, ∀ path e, path.length = 4 → findPage mem r path = some e →
    pteUser e = true → ¬Avail pmm (pteAddr e) ∧ place (pteAddr e / 4096) = none
  apart : ∀ r ∈ roots, ∀ r' ∈ roots, r ≠ r' → ∀ path path' e e', path.length = 4 →
    path'.length = 4 → findPage mem r path = some e → findPage mem r' path' = some e' →
      pteUser e = true → pteUser e' = true → pteAddr e ≠ pteAddr e'

/-- No walk through the upper half finds anything else than before. -/
def UpperKept (roots : Set ℕ) (mem mem' : Mem) : Prop :=
  ∀ r ∈ roots, ∀ path : List (Fin 512), path.length = 4 → (∀ i ∈ path.head?, 256 ≤ i.val) →
    findPage mem' r path = findPage mem r path

theorem UpperKept.trans {roots : Set ℕ} {m m' m'' : Mem} (h : UpperKept roots m m')
    (h' : UpperKept roots m' m'') : UpperKept roots m m'' :=
  fun r hr path hlen hup => (h' r hr path hlen hup).trans (h r hr path hlen hup)

variable {k r : ℕ} {roots : Set ℕ} {place : ℕ → Option Position} {mem : Mem} {pmm : σ}
  {s s' : Vmm σ} {virt phys : ℕ} {bs : List UInt8}

/-- A store into a frame that is no table changes no walk. -/
theorem TablesOk.store_data (h : TablesOk roots place mem pmm) {m : ℕ} (hm : place m = none)
    (hlen : bs.length ≤ 4096) :
    TablesOk roots place (store mem (4096 * m) bs) pmm ∧
      ∀ n p path, place n = some p → tableShape.Full p path →
        findPage (store mem (4096 * m) bs) n path = findPage mem n path := by
  have hsame : ∀ n p i, place n = some p →
      StyxOS.tables (store mem (4096 * m) bs) n i = StyxOS.tables mem n i := by
    intro n p i hn
    refine tables_store hlen ?_
    rintro rfl
    rw [hm] at hn
    cases hn
  have hw : Radix.Widens tableShape tableReading place (StyxOS.tables mem)
      (StyxOS.tables (store mem (4096 * m) bs)) :=
    ⟨fun n p i hn _ => .inl (by rw [hsame n p i hn]), fun n p i hn _ => hsame n p i hn⟩
  refine ⟨⟨?_, h.root, h.taken, ?_, ?_⟩, fun n p path hn hf => hw.find h.placed hn hf⟩
  · intro n p i m' hn hp hnext
    rw [hsame n p i hn] at hnext
    exact h.placed n p i m' hn hp hnext
  · intro n p i hn hp hpres
    rw [hsame n p i hn] at hpres ⊢
    exact h.inner n p i hn hp hpres
  · exact h.user_of_widens hw fun n p i hn _ _ hu => by rwa [hsame n p i hn]

theorem userEntry_bits {f : ℕ} (hf : f % 4096 = 0 ∧ f ≠ 0 ∧ f < 2 ^ 52) :
    ptePresent (leafEntry f userFlags) = true ∧ pteUser (leafEntry f userFlags) = true ∧
      pteAddr (leafEntry f userFlags) = f := by
  refine ⟨testBit_pteAddr_or (by norm_num), testBit_pteAddr_or (by norm_num), ?_⟩
  rw [leafEntry, pteAddr_or (by norm_num [userFlags]),
    pteAddr_of_frame (pteAddr_mod _) (pteAddr_lt _), pteAddr_of_frame hf.1 hf.2.2]

theorem kernelEntry_bits (f : ℕ) : pteUser (leafEntry f kernelFlags) = false :=
  testBit_pteAddr_or (by norm_num)

theorem lower_of_slot {path : List (Fin 512)} {r' : ℕ} (hlen : path.length = 4)
    (hlow : InLowerHalf virt)
    (heq : tableShape.slot (.space r', []) path = tableShape.slot (.space r, []) (pathOf virt)) :
    path = pathOf virt ∧ r' = r := by
  obtain ⟨hpath, hroot⟩ := slot_root_inj hlen rfl heq
  exact ⟨hpath, hroot ⟨pml4Index virt, by rw [hpath]; rfl, hlow⟩⟩

theorem eq_of_mapFresh_eq_false (hs : mapFresh s virt bs = some (false, s')) : s' = s := by
  unfold StyxOS.mapFresh at hs
  cases halloc : allocFrame s.pmm with
  | none =>
    rw [halloc] at hs
    exact (Prod.mk.inj (Option.some.inj hs)).2.symm
  | some x =>
    simp [halloc, Option.bind_eq_some_iff] at hs

/-- What mapping the fresh frame `f` with the bytes `bs` does. -/
structure MapsFresh (place place' : ℕ → Option Position) (r virt f : ℕ) (bs : List UInt8)
    (s s' : Vmm σ) : Prop where
  frame : Avail s.pmm f
  gone : ∀ g, Avail s'.pmm g → Avail s.pmm g ∧ g ≠ f
  placed : ∀ n p, place' n = some p → place n = some p ∨ Avail s.pmm (4096 * n) ∧ 4096 * n ≠ f
  here : findPage s'.mem r (pathOf virt) = some (leafEntry f userFlags)
  other : ∀ n p path, place n = some p → tableShape.Full p path →
    tableShape.slot p path ≠ tableShape.slot (.space r, []) (pathOf virt) →
      findPage s'.mem n path = findPage s.mem n path
  content : load s'.mem f bs.length = bs
  kept : ∀ a, place (a / 4096) = none → ¬Avail s.pmm (4096 * (a / 4096)) → s'.mem a = s.mem a
  currentPml4 : s'.currentPml4 = s.currentPml4

theorem MapsFresh.unplaced {place' : ℕ → Option Position} {f n : ℕ}
    (h : MapsFresh place place' r virt f bs s s') (hn : place n = none)
    (hused : ¬(Avail s.pmm (4096 * n) ∧ 4096 * n ≠ f)) : place' n = none := by
  cases hp : place' n with
  | none => rfl
  | some q =>
    rcases h.placed n q hp with hold | hfresh
    · rw [hn] at hold
      cases hold
    · exact absurd hfresh hused

/-- A fresh frame mapped in the lower half of one space. -/
theorem TablesOk.mapFresh (h : TablesOk roots place s.mem s.pmm) (hr : r ∈ roots)
    (hpml4 : s.currentPml4 = some (4096 * r)) (hlow : InLowerHalf virt) (hlen : bs.length ≤ 4096)
    (hs : mapFresh s virt bs = some (true, s')) :
    ∃ place' f, TablesOk roots place' s'.mem s'.pmm ∧
      MapsFresh place place' r virt f bs s s' := by
  unfold StyxOS.mapFresh at hs
  cases halloc : allocFrame s.pmm with
  | none =>
    rw [halloc] at hs
    cases hs
  | some x =>
    obtain ⟨f, pmm⟩ := x
    simp only [halloc, Option.bind_eq_bind, Option.bind_eq_some_iff, Option.some.injEq,
      Prod.mk.injEq] at hs
    obtain ⟨t, ht, -, rfl⟩ := hs
    obtain ⟨hav, hnew⟩ := allocFrame_avail halloc
    have hframe := avail_frame hav
    obtain ⟨m, rfl⟩ := Nat.dvd_of_mod_eq_zero hframe.1
    have hunplaced := h.unplaced hav
    obtain ⟨hok₁, hfind₁⟩ := h.store_data hunplaced hlen
    have hok₂ : TablesOk roots place (store s.mem (4096 * m) bs) pmm :=
      hok₁.of_avail fun f hf => (hnew f hf).1
    obtain ⟨place', hok', hmaps⟩ :=
      TablesOk.vmmMapPage (s := { s with mem := store s.mem (4096 * m) bs, pmm }) hok₂ hr hpml4
        (by norm_num [userFlags]) (fun _ => .inl hlow) ht
    have hhere := hmaps.here
    rw [if_pos (userEntry_bits hframe).1] at hhere
    have hplaced : ∀ n p, place' n = some p →
        place n = some p ∨ Avail s.pmm (4096 * n) ∧ 4096 * n ≠ 4096 * m := fun n p hn =>
      (hmaps.fresh n p hn).imp_right (hnew _)
    have hdata : ∀ a, place (a / 4096) = none →
        ¬(Avail s.pmm (4096 * (a / 4096)) ∧ 4096 * (a / 4096) ≠ 4096 * m) →
          t.mem a = store s.mem (4096 * m) bs a := by
      intro a hn hused
      refine hmaps.data a ?_
      cases hp : place' (a / 4096) with
      | none => rfl
      | some q =>
        rcases hplaced _ q hp with hold | hfresh
        · rw [hn] at hold
          cases hold
        · exact absurd hfresh hused
    refine ⟨place', 4096 * m, hok', hav, fun g hg => hnew g (hmaps.avail g hg), hplaced, hhere, ?_,
      ?_, ?_, hmaps.currentPml4⟩
    · intro n p path hn hfull hslot
      rw [hmaps.other n p path hn hfull hslot]
      exact hfind₁ n p path hn hfull
    · have hstored : load (store s.mem (4096 * m) bs) (4096 * m) bs.length = bs := load_store_same
      refine (load_congr fun i hi => ?_).trans hstored
      have hpage : (4096 * m + i) / 4096 = m := by omega
      exact hdata _ (by rw [hpage]; exact hunplaced) fun hc => hc.2 (by rw [hpage])
    · intro a hn hused
      rw [hdata a hn fun hc => hused hc.1]
      refine store_page_apply_of_ne hlen fun hc => ?_
      rw [hc] at hused
      exact hused hav

/-- A fresh frame mapped in the lower half of one of the spaces. -/
theorem SpacesOk.mapFresh (h : SpacesOk k roots place s.mem s.pmm) (hr : r ∈ roots) (hk : r ≠ k)
    (hpml4 : s.currentPml4 = some (4096 * r)) (hlow : InLowerHalf virt) (hlen : bs.length ≤ 4096)
    {b : Bool} (hs : mapFresh s virt bs = some (b, s')) :
    ∃ place', SpacesOk k roots place' s'.mem s'.pmm ∧ UpperKept roots s.mem s'.mem ∧
      s'.currentPml4 = s.currentPml4 := by
  cases b with
  | false =>
    obtain rfl := eq_of_mapFresh_eq_false hs
    exact ⟨place, h, fun _ _ _ _ _ => rfl, rfl⟩
  | true =>
    obtain ⟨place', f, hok', hmaps⟩ := h.tables.mapFresh hr hpml4 hlow hlen hs
    have haddr := (userEntry_bits (avail_frame hmaps.frame)).2.2
    -- A walk finds what it found, unless it is the walk of the new page.
    have hwalk : ∀ r' ∈ roots, ∀ path, path.length = 4 →
        findPage s'.mem r' path = findPage s.mem r' path ∨
          r' = r ∧ path = pathOf virt ∧ findPage s'.mem r' path = some (leafEntry f userFlags) := by
      intro r' hr' path hpath
      have hfull := full_of_length (.space r') hpath
      by_cases hslot : tableShape.slot (.space r', []) path =
          tableShape.slot (.space r, []) (pathOf virt)
      · obtain ⟨rfl, rfl⟩ := lower_of_slot hpath hlow hslot
        exact .inr ⟨rfl, rfl, hmaps.here⟩
      · exact .inl (hmaps.other r' _ path (h.tables.root r' hr') hfull hslot)
    have hused : ∀ r' ∈ roots, ∀ path e, path.length = 4 → findPage s.mem r' path = some e →
        pteUser e = true → pteAddr e ≠ f := by
      intro r' hr' path e hpath hfind hu hc
      exact (h.owned r' hr' path e hpath hfind hu).1 (hc ▸ hmaps.frame)
    refine ⟨place', ⟨hok', ?_, ?_, ?_⟩, ?_, hmaps.currentPml4⟩
    · intro r' hr' path e hpath hfind hu
      rcases hwalk r' hr' path hpath with hsame | ⟨rfl, rfl, -⟩
      · rw [hsame] at hfind
        exact h.closed r' hr' path e hpath hfind hu
      · exact ⟨hk, pml4Index virt, rfl, hlow⟩
    · intro r' hr' path e hpath hfind hu
      rcases hwalk r' hr' path hpath with hsame | ⟨-, -, hnewfind⟩
      · rw [hsame] at hfind
        obtain ⟨hno, hunplaced⟩ := h.owned r' hr' path e hpath hfind hu
        refine ⟨fun hf => hno (hmaps.gone _ hf).1, hmaps.unplaced hunplaced fun hc => hno ?_⟩
        rw [← mul_pteAddr_div]
        exact hc.1
      · rw [hnewfind] at hfind
        obtain rfl := Option.some.inj hfind
        obtain ⟨m, rfl⟩ := Nat.dvd_of_mod_eq_zero (avail_frame hmaps.frame).1
        rw [haddr, Nat.mul_div_cancel_left _ (by norm_num)]
        exact ⟨fun hf => (hmaps.gone _ hf).2 rfl,
          hmaps.unplaced (h.tables.unplaced hmaps.frame) fun hc => hc.2 rfl⟩
    · intro r₁ hr₁ r₂ hr₂ hne path₁ path₂ e₁ e₂ hp₁ hp₂ hf₁ hf₂ hu₁ hu₂
      rcases hwalk r₁ hr₁ path₁ hp₁ with hs₁ | ⟨rfl, -, hs₁⟩ <;>
        rcases hwalk r₂ hr₂ path₂ hp₂ with hs₂ | ⟨rfl, -, hs₂⟩
      · rw [hs₁] at hf₁
        rw [hs₂] at hf₂
        exact h.apart r₁ hr₁ r₂ hr₂ hne path₁ path₂ e₁ e₂ hp₁ hp₂ hf₁ hf₂ hu₁ hu₂
      · rw [hs₁] at hf₁
        rw [hs₂] at hf₂
        obtain rfl := Option.some.inj hf₂
        rw [haddr]
        exact hused r₁ hr₁ path₁ e₁ hp₁ hf₁ hu₁
      · rw [hs₁] at hf₁
        rw [hs₂] at hf₂
        obtain rfl := Option.some.inj hf₁
        rw [haddr]
        exact (hused r₂ hr₂ path₂ e₂ hp₂ hf₂ hu₂).symm
      · exact absurd rfl hne
    · intro r' hr' path hpath hup
      rcases hwalk r' hr' path hpath with hsame | ⟨rfl, rfl, -⟩
      · exact hsame
      · exact absurd hlow (Nat.not_lt.mpr (hup _ rfl))

/-- A frame for the heap, mapped in the upper half of the kernel's space. -/
theorem SpacesOk.mapKernel (h : SpacesOk k roots place s.mem s.pmm) (hk : k ∈ roots)
    (hpml4 : s.currentPml4 = some (4096 * k)) {pmm : σ}
    (halloc : allocFrame s.pmm = some (phys, pmm))
    (hs : vmmMapPage { s with pmm } virt phys kernelFlags = some s') :
    ∃ place', SpacesOk k roots place' s'.mem s'.pmm ∧ s'.currentPml4 = s.currentPml4 ∧
      (∀ f, Avail s'.pmm f → Avail s.pmm f) ∧
      ∀ r ∈ roots, ∀ path, path.length = 4 → path ≠ pathOf virt →
        findPage s'.mem r path = findPage s.mem r path := by
  obtain ⟨hav, hnew⟩ := allocFrame_avail halloc
  have hok : TablesOk roots place s.mem pmm := h.tables.of_avail fun f hf => (hnew f hf).1
  obtain ⟨place', hok', hmaps⟩ :=
    TablesOk.vmmMapPage (s := { s with pmm }) hok hk hpml4 (by norm_num [kernelFlags])
      (fun hu => by cases hu) hs
  have hgone : ∀ f, Avail s'.pmm f → Avail s.pmm f := fun f hf => (hnew f (hmaps.avail f hf)).1
  -- What user code reaches was there before.
  have huser : ∀ r ∈ roots, ∀ path e, path.length = 4 → findPage s'.mem r path = some e →
      pteUser e = true → findPage s.mem r path = some e := by
    intro r hr path e hpath hfind hu
    have hfull := full_of_length (.space r) hpath
    rcases hmaps.any r _ path (h.tables.root r hr) hfull with hsame | hnewfind
    · rw [hsame] at hfind
      exact hfind
    · rw [hnewfind] at hfind
      obtain ⟨-, heq⟩ := Option.ite_none_right_eq_some.mp hfind
      rw [← Option.some.inj heq, kernelEntry_bits] at hu
      cases hu
  refine ⟨place', ⟨hok', ?_, ?_, ?_⟩, hmaps.currentPml4, hgone, ?_⟩
  · intro r hr path e hpath hfind hu
    exact h.closed r hr path e hpath (huser r hr path e hpath hfind hu) hu
  · intro r hr path e hpath hfind hu
    obtain ⟨hused, hno⟩ := h.owned r hr path e hpath (huser r hr path e hpath hfind hu) hu
    refine ⟨fun hf => hused (hgone _ hf), ?_⟩
    cases hp' : place' (pteAddr e / 4096) with
    | none => rfl
    | some q =>
      rcases hmaps.fresh _ _ hp' with hold | hfresh
      · rw [hno] at hold; cases hold
      · rw [mul_pteAddr_div] at hfresh
        exact absurd (hnew _ hfresh).1 hused
  · intro r₁ hr₁ r₂ hr₂ hne path₁ path₂ e₁ e₂ hp₁ hp₂ hf₁ hf₂ hu₁ hu₂
    exact h.apart r₁ hr₁ r₂ hr₂ hne path₁ path₂ e₁ e₂ hp₁ hp₂
      (huser r₁ hr₁ path₁ e₁ hp₁ hf₁ hu₁) (huser r₂ hr₂ path₂ e₂ hp₂ hf₂ hu₂) hu₁ hu₂
  · intro r hr path hpath hne
    refine hmaps.other r _ path (h.tables.root r hr) (full_of_length (.space r) hpath) ?_
    exact fun hc => hne (slot_root_inj hpath rfl hc).1

/-! ## A new space -/

theorem SpacesOk.of_avail {pmm pmm' : σ} (h : SpacesOk k roots place mem pmm)
    (hav : ∀ f, Avail pmm' f → Avail pmm f) : SpacesOk k roots place mem pmm' where
  tables := h.tables.of_avail hav
  closed := h.closed
  owned r hr path e hpath hfind hu := by
    obtain ⟨hused, hno⟩ := h.owned r hr path e hpath hfind hu
    exact ⟨fun hf => hused (hav _ hf), hno⟩
  apart := h.apart

theorem SpacesOk.store_data (h : SpacesOk k roots place mem pmm) {m : ℕ} (hm : place m = none)
    (hlen : bs.length ≤ 4096) :
    SpacesOk k roots place (store mem (4096 * m) bs) pmm ∧
      ∀ n p path, place n = some p → tableShape.Full p path →
        findPage (store mem (4096 * m) bs) n path = findPage mem n path := by
  obtain ⟨hok, hfind⟩ := h.tables.store_data hm hlen
  have hsame : ∀ r ∈ roots, ∀ path : List (Fin 512), path.length = 4 →
      findPage (store mem (4096 * m) bs) r path = findPage mem r path :=
    fun r hr path hpath => hfind r _ path (h.tables.root r hr) (full_of_length (.space r) hpath)
  refine ⟨⟨hok, ?_, ?_, ?_⟩, hfind⟩
  · intro r hr path e hpath hf hu
    rw [hsame r hr path hpath] at hf
    exact h.closed r hr path e hpath hf hu
  · intro r hr path e hpath hf hu
    rw [hsame r hr path hpath] at hf
    exact h.owned r hr path e hpath hf hu
  · intro r hr r' hr' hne path path' e e' hp hp' hf hf' hu hu'
    rw [hsame r hr path hp] at hf
    rw [hsame r' hr' path' hp'] at hf'
    exact h.apart r hr r' hr' hne path path' e e' hp hp' hf hf' hu hu'

/-- A page of zeros followed by a copy, read in either half. -/
theorem load_store_halves (mem : Mem) (a c h x n : ℕ) :
    (x + n ≤ h → load (store mem a (List.replicate h 0 ++ load mem c h)) (a + x) n =
      List.replicate n 0) ∧
    (x + n ≤ h → load (store mem a (List.replicate h 0 ++ load mem c h)) (a + (h + x)) n =
      load mem (c + x) n) := by
  have hlen : (List.replicate h (0 : UInt8) ++ load mem c h).length = h + h := by
    rw [List.length_append, List.length_replicate, length_load]
  constructor
  · intro hx
    rw [load_store_sub (by omega), List.drop_append_of_le_length (by simp; omega),
      List.drop_replicate, List.take_append_of_le_length (by simp; omega), List.take_replicate]
    congr 1
    omega
  · intro hx
    rw [load_store_sub (by omega), List.drop_append]
    have hd : List.drop (h + x) (List.replicate h (0 : UInt8)) = [] :=
      List.drop_eq_nil_of_le (by simp)
    rw [hd, List.nil_append, List.length_replicate, Nat.add_sub_cancel_left]
    refine List.ext_getElem (by simp; omega) fun j hj hj' => ?_
    rw [List.getElem_take, List.getElem_drop, getElem_load, getElem_load, Nat.add_assoc]

theorem tables_copyUpperHalf {m : ℕ} (i : Fin 512) :
    tables (copyUpperHalf mem (4096 * m) (4096 * k)) m i =
      if 256 ≤ i.val then tables mem k i else 0 := by
  have hi := i.isLt
  obtain ⟨hzero, hcopy⟩ :=
    load_store_halves mem (4096 * m) (4096 * k + 2048) 2048
      (if 256 ≤ i.val then 8 * i.val - 2048 else 8 * i.val) 8
  rw [tables, entryAt, loadLE, copyUpperHalf]
  split_ifs at hzero hcopy ⊢ with hup
  · have hx : 2048 + (8 * i.val - 2048) = 8 * i.val := by omega
    have hc : 4096 * k + 2048 + (8 * i.val - 2048) = 4096 * k + 8 * i.val := by omega
    rw [hx, hc] at hcopy
    rw [hcopy (by omega), tables, entryAt, loadLE]
  · rw [hzero (by omega)]
    rfl

theorem child_root_upper (r r' : ℕ) {i : Fin 512} (hi : 256 ≤ i.val) :
    tableShape.child (.space r, []) i = tableShape.child (.space r', []) i := by
  simp [tableShape, Position.child, hi]

theorem length_upperHalf (mem : Mem) (src : ℕ) :
    (List.replicate 2048 (0 : UInt8) ++ load mem src 2048).length ≤ 4096 := by
  rw [List.length_append, List.length_replicate, length_load]

theorem TablesOk.copyUpperHalf (h : TablesOk roots place mem pmm) {m : ℕ} (hm : place m = none) :
    TablesOk roots place (copyUpperHalf mem (4096 * m) (4096 * k)) pmm ∧
      ∀ n p path, place n = some p → tableShape.Full p path →
        findPage (copyUpperHalf mem (4096 * m) (4096 * k)) n path = findPage mem n path :=
  h.store_data hm (length_upperHalf mem _)

/-- A walk of a copied PML4 is one of the kernel's, or stops at once. -/
theorem TablesOk.findPage_copyUpperHalf (h : TablesOk roots place mem pmm) (hk : k ∈ roots)
    {m : ℕ} (hm : place m = none) {path : List (Fin 512)} (hpath : path.length = 4) :
    ((∀ i ∈ path.head?, 256 ≤ i.val) →
        findPage (StyxOS.copyUpperHalf mem (4096 * m) (4096 * k)) m path =
          findPage mem k path) ∧
      (¬(∀ i ∈ path.head?, 256 ≤ i.val) →
        findPage (StyxOS.copyUpperHalf mem (4096 * m) (4096 * k)) m path = none) := by
  have hkroot := h.root k hk
  have hmk : k ≠ m := by
    rintro rfl
    rw [hm] at hkroot
    cases hkroot
  obtain ⟨-, hfind⟩ := h.copyUpperHalf (k := k) hm
  obtain ⟨i₄, i₃, i₂, i₁, rfl⟩ := List.length_eq_four.mp hpath
  constructor
  · intro hup
    have hi : 256 ≤ i₄.val := hup i₄ rfl
    have hkentry : StyxOS.tables (StyxOS.copyUpperHalf mem (4096 * m) (4096 * k)) k i₄ =
        StyxOS.tables mem k i₄ := tables_store (length_upperHalf mem _) hmk
    rw [← hfind k _ _ hkroot (full_of_length (.space k) hpath), findPage, findPage,
      Radix.find_cons, Radix.find_cons, tables_copyUpperHalf, if_pos hi, hkentry]
  · intro hlow
    have hi : ¬256 ≤ i₄.val := fun hi => hlow fun i hh => by
      rw [← Option.some.inj hh]; exact hi
    rw [findPage, Radix.find_cons, tables_copyUpperHalf, if_neg hi]
    rfl

theorem TablesOk.addRoot {pmm pmm' : σ} {m : ℕ} (h : TablesOk roots place mem pmm)
    (hk : k ∈ roots) (halloc : allocFrame pmm = some (4096 * m, pmm')) :
    TablesOk (insert m roots) (Function.update place m (some (.space m, [])))
      (StyxOS.copyUpperHalf mem (4096 * m) (4096 * k)) pmm' := by
  obtain ⟨hav, hnew⟩ := allocFrame_avail halloc
  have hm := h.unplaced hav
  have hkroot := h.root k hk
  have hin : ∀ r, tableShape.Inner (.space r, []) := fun r => by
    simp [Radix.Shape.Inner, tableShape]
  obtain ⟨hok, -⟩ := h.copyUpperHalf (k := k) hm
  constructor
  case placed =>
    intro n p i q hn hp hq
    rcases placed_insert hn with ⟨rfl, rfl⟩ | ⟨-, hn⟩
    · rw [tables_copyUpperHalf] at hq
      by_cases hi : 256 ≤ i.val
      · rw [if_pos hi] at hq
        rw [child_root_upper n k hi]
        exact placed_of_insert hm (h.placed k _ i q hkroot (hin k) hq)
      · rw [if_neg hi] at hq
        cases hq
    · exact placed_of_insert hm (hok.placed n p i q hn hp hq)
  case root =>
    intro r hr
    rcases Set.mem_insert_iff.mp hr with rfl | hr
    · exact Function.update_self _ _ _
    · exact placed_of_insert hm (h.root r hr)
  case taken =>
    intro n p hn hf
    rcases placed_insert hn with ⟨rfl, -⟩ | ⟨-, hn⟩
    · exact (hnew _ hf).2 rfl
    · exact h.taken n p hn (hnew _ hf).1
  case inner =>
    intro n p i hn hp hpres
    rcases placed_insert hn with ⟨rfl, rfl⟩ | ⟨-, hn⟩
    · rw [tables_copyUpperHalf] at hpres ⊢
      by_cases hi : 256 ≤ i.val
      · rw [if_pos hi] at hpres ⊢
        exact h.inner k _ i hkroot (hin k) hpres
      · rw [if_neg hi] at hpres
        cases hpres
    · exact hok.inner n p i hn hp hpres
  case user =>
    intro r hr path e hpath he hu
    rcases Set.mem_insert_iff.mp hr with rfl | hr
    · obtain ⟨i₄, i₃, i₂, i₁, rfl⟩ := List.length_eq_four.mp hpath
      have hkr : k ≠ r := by
        rintro rfl
        rw [hm] at hkroot
        cases hkroot
      have hentry : tables (StyxOS.copyUpperHalf mem (4096 * r) (4096 * k)) k i₄ =
          tables mem k i₄ := tables_store (length_upperHalf mem _) hkr
      have hcopy : tables (StyxOS.copyUpperHalf mem (4096 * r) (4096 * k)) r i₄ =
          if 256 ≤ i₄.val then tables mem k i₄ else 0 := tables_copyUpperHalf i₄
      by_cases hi : 256 ≤ i₄.val
      -- the walk goes on where the kernel's does
      · rw [if_pos hi, ← hentry] at hcopy
        rw [findPage, Radix.find_cons, hcopy, ← Radix.find_cons, ← findPage] at he
        have hparents := hok.user k hk _ e hpath he hu
        rw [Radix.parents] at hparents ⊢
        rw [hcopy]
        exact hparents
      · rw [if_neg hi] at hcopy
        rw [findPage, Radix.find_cons, hcopy] at he
        cases he
    · exact hok.user r hr path e hpath he hu

/-- A new PML4 with the upper half of the kernel's is another address space. -/
theorem SpacesOk.addRoot {pmm pmm' : σ} {m : ℕ} (h : SpacesOk k roots place mem pmm)
    (hk : k ∈ roots) (halloc : allocFrame pmm = some (4096 * m, pmm')) :
    SpacesOk k (insert m roots) (Function.update place m (some (.space m, [])))
        (copyUpperHalf mem (4096 * m) (4096 * k)) pmm' ∧ m ∉ roots ∧
      UpperKept roots mem (copyUpperHalf mem (4096 * m) (4096 * k)) ∧
      ∀ path : List (Fin 512), path.length = 4 → (∀ i ∈ path.head?, 256 ≤ i.val) →
        findPage (copyUpperHalf mem (4096 * m) (4096 * k)) m path = findPage mem k path := by
  obtain ⟨hav, hnew⟩ := allocFrame_avail halloc
  have hm := h.tables.unplaced hav
  have hroots : m ∉ roots := by
    intro hmr
    rw [h.tables.root m hmr] at hm
    cases hm
  obtain ⟨hok, hfind⟩ := h.store_data hm (length_upperHalf mem (4096 * k + 2048))
  rw [← copyUpperHalf] at hok hfind
  have hwalk := fun (path : List (Fin 512)) (hpath : path.length = 4) =>
    h.tables.findPage_copyUpperHalf hk hm hpath
  have hnone : ∀ path e, path.length = 4 →
      findPage (copyUpperHalf mem (4096 * m) (4096 * k)) m path = some e → pteUser e = false := by
    intro path e hpath he
    by_cases hup : ∀ i ∈ path.head?, 256 ≤ i.val
    · rw [(hwalk path hpath).1 hup] at he
      cases hu : pteUser e with
      | false => rfl
      | true => exact absurd rfl (h.closed k hk path e hpath he hu).1
    · rw [(hwalk path hpath).2 hup] at he
      cases he
  -- The user pages of the larger set are those of the smaller one.
  have hold : ∀ r path e, r ∈ insert m roots → path.length = 4 →
      findPage (copyUpperHalf mem (4096 * m) (4096 * k)) r path = some e → pteUser e = true →
        r ∈ roots := by
    intro r path e hr hpath he hu
    rcases Set.mem_insert_iff.mp hr with rfl | hr
    · rw [hnone path e hpath he] at hu
      cases hu
    · exact hr
  refine ⟨⟨h.tables.addRoot hk halloc, ?_, ?_, ?_⟩, hroots, ?_,
    fun path hpath => (hwalk path hpath).1⟩
  · intro r hr path e hpath he hu
    exact hok.closed r (hold r path e hr hpath he hu) path e hpath he hu
  · intro r hr path e hpath he hu
    obtain ⟨hused, hno⟩ := hok.owned r (hold r path e hr hpath he hu) path e hpath he hu
    refine ⟨fun hf => hused (hnew _ hf).1, ?_⟩
    rw [Function.update_of_ne]
    · exact hno
    · intro hc
      rw [← hc, mul_pteAddr_div] at hav
      exact hused hav
  · intro r hr r' hr' hne path path' e e' hp hp' hf hf' hu hu'
    exact hok.apart r (hold r path e hr hp hf hu) r' (hold r' path' e' hr' hp' hf' hu') hne
      path path' e e' hp hp' hf hf' hu hu'
  · intro r hr path hpath _
    exact hfind r _ path (h.tables.root r hr) (full_of_length (.space r) hpath)

end

end StyxOS
