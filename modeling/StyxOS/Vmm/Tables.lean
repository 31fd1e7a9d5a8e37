import StyxOS.Vmm.Basic

/-! # What the page tables hold

Frames in use as tables carry positions: a root for each address space, the
tables of its lower half under it, and one set of tables under the upper half
of every root. One step of `vmm_map_page` down the levels changes no
translation; the last store changes the translation of one page.
-/

namespace StyxOS

open ByteMem FrameAllocator

/-! ## Bits of entries -/

theorem pteAddr_eq (e : ℕ) : pteAddr e = e % 2 ^ 52 / 2 ^ 12 * 2 ^ 12 := by
  have hmask : (0x000ffffffffff000 : ℕ) = (2 ^ 40 - 1) * 2 ^ 12 := by norm_num
  apply Nat.eq_of_testBit_eq
  intro i
  rw [pteAddr, hmask, Nat.testBit_and, Nat.testBit_mul_two_pow, Nat.testBit_mul_two_pow,
    Nat.testBit_two_pow_sub_one, Nat.testBit_div_two_pow, Nat.testBit_mod_two_pow]
  by_cases hi : 12 ≤ i
  · have hs : i - 12 + 12 = i := by omega
    have hd : (i - 12 < 40) = (i < 52) := by rw [eq_iff_iff]; omega
    simp only [hi, decide_true, Bool.true_and, hs, hd]
    rw [Bool.and_comm]
  · simp [hi]

theorem pteAddr_lt (e : ℕ) : pteAddr e < 2 ^ 52 := by
  rw [pteAddr_eq]
  omega

theorem pteAddr_mod (e : ℕ) : pteAddr e % 4096 = 0 := by
  rw [pteAddr_eq]
  omega

theorem pteAddr_of_frame {a : ℕ} (ha : a % 4096 = 0) (hlt : a < 2 ^ 52) : pteAddr a = a := by
  rw [pteAddr_eq]
  omega

theorem pteAddr_or {a f : ℕ} (hf : f < 4096) : pteAddr (a ||| f) = pteAddr a := by
  have hz : pteAddr f = 0 := by
    rw [pteAddr_eq]
    omega
  rw [pteAddr, Nat.and_or_distrib_right, ← pteAddr, ← pteAddr, hz, Nat.or_zero]

theorem mul_pteAddr_div (e : ℕ) : 4096 * (pteAddr e / 4096) = pteAddr e := by
  rw [pteAddr_eq]
  omega

theorem testBit_of_frame {a k : ℕ} (ha : a % 4096 = 0) (hk : k < 12) : a.testBit k = false := by
  obtain ⟨q, rfl⟩ := Nat.dvd_of_mod_eq_zero ha
  have hpow : 4096 * q = q * 2 ^ 12 := by omega
  rw [hpow, Nat.testBit_mul_two_pow]
  simp [Nat.not_le.mpr hk]

theorem testBit_frame_or {a f k : ℕ} (ha : a % 4096 = 0) (hk : k < 12) :
    (a ||| f).testBit k = f.testBit k := by
  rw [Nat.testBit_or, testBit_of_frame ha hk, Bool.false_or]

theorem testBit_pteAddr_or {p f k : ℕ} (hk : k < 12) :
    (pteAddr p ||| f).testBit k = f.testBit k := by
  refine testBit_frame_or ?_ hk
  rw [pteAddr_eq]
  omega

theorem and_four_le (flags : ℕ) : flags &&& 4 ≤ 4 := Nat.and_le_right

theorem testBit_and_four (flags k : ℕ) :
    (flags &&& 4).testBit k = (flags.testBit k && decide (2 = k)) := by
  have h4 : (4 : ℕ) = 2 ^ 2 := rfl
  rw [Nat.testBit_and, h4, Nat.testBit_two_pow]

theorem parentFlags_lt (flags : ℕ) : parentFlags flags < 8 := by
  have h : flags &&& 4 < 2 ^ 3 := lt_of_le_of_lt (and_four_le flags) (by norm_num)
  exact Nat.or_lt_two_pow (by norm_num) h

theorem testBit_parentFlags (flags k : ℕ) :
    (parentFlags flags).testBit k = (decide (k < 2) || flags.testBit k && decide (2 = k)) := by
  have h3 : (3 : ℕ) = 2 ^ 2 - 1 := rfl
  rw [parentFlags, Nat.testBit_or, testBit_and_four, h3, Nat.testBit_two_pow_sub_one]

/-! ## Tables as a forest -/

/-- The entries of the frame with a given number, as a table. -/
def tables (mem : Mem) (n : ℕ) (i : Fin 512) : ℕ := entryAt mem (4096 * n) i

theorem entryAt_lt (mem : Mem) (table : ℕ) (i : Fin 512) : entryAt mem table i < 2 ^ 64 := by
  have h := leVal_lt (load mem (table + 8 * i) 8)
  rw [length_load] at h
  exact h

theorem tables_setEntry (mem : Mem) (n : ℕ) (i : Fin 512) {e : ℕ} (he : e < 2 ^ 64) :
    tables (setEntry mem (4096 * n) i e) = Radix.put (tables mem) n i e := by
  funext m j
  by_cases h : m = n ∧ j = i
  · obtain ⟨rfl, rfl⟩ := h
    rw [Radix.put_self, tables, entryAt, setEntry]
    exact loadLE_storeLE_same he
  · have hne : m ≠ n ∨ j ≠ i := by
      rw [not_and_or] at h
      exact h
    rw [Radix.put_of_ne hne, tables, entryAt, setEntry, loadLE_storeLE_disjoint, tables, entryAt]
    have hj := j.isLt
    have hi := i.isLt
    have hval : m ≠ n ∨ j.val ≠ i.val := hne.imp_right fun hv hc => hv (Fin.ext hc)
    omega

theorem tables_store {mem : Mem} {n m : ℕ} {i : Fin 512} {bs : List UInt8}
    (hlen : bs.length ≤ 4096) (hne : m ≠ n) :
    tables (store mem (4096 * n) bs) m i = tables mem m i := by
  have hi := i.isLt
  rw [tables, entryAt, loadLE_store_disjoint (by omega), tables, entryAt]

theorem tables_zeroPage_self {mem : Mem} {n : ℕ} {i : Fin 512} :
    tables (zeroPage mem (4096 * n)) n i = 0 := by
  have hi := i.isLt
  have hload : load (zeroPage mem (4096 * n)) (4096 * n + 8 * i) 8 = List.replicate 8 0 := by
    rw [zeroPage, load_store_sub (by rw [List.length_replicate]; omega), List.drop_replicate,
      List.take_replicate]
    congr 1
    omega
  rw [tables, entryAt, loadLE, hload]
  rfl

theorem tables_zeroPage_of_ne {mem : Mem} {n m : ℕ} {i : Fin 512} (hne : m ≠ n) :
    tables (zeroPage mem (4096 * n)) m i = tables mem m i :=
  tables_store (by rw [List.length_replicate]) hne

/-- The part of an address space that a table belongs to. -/
inductive Region
  | kernel
  | space (root : ℕ)
  deriving DecidableEq

/-- A region, and the indices that lead to a table in it. -/
abbrev Position := Region × List (Fin 512)

/-- The position under an index: the upper half of every root is the kernel's. -/
def Position.child : Position → Fin 512 → Position
  | (.space r, []), i => if 256 ≤ i.val then (.kernel, [i]) else (.space r, [i])
  | (reg, is), i => (reg, is ++ [i])

theorem Position.length_child (p : Position) (i : Fin 512) :
    (p.child i).2.length = p.2.length + 1 := by
  obtain ⟨_ | r, _ | ⟨j, is⟩⟩ := p
  · rfl
  · simp [Position.child]
  · by_cases hi : 256 ≤ i.val
    · simp [Position.child, hi]
    · simp [Position.child, hi]
  · simp [Position.child]

def tableShape : Radix.Shape Position (Fin 512) where
  child := Position.child
  depth p := p.2.length
  height := 4
  depth_child := Position.length_child

/-- Present entries are followed, and are what is found. -/
def tableReading : Radix.Reading ℕ ℕ where
  next e := if ptePresent e then some (pteAddr e / 4096) else none
  present := ptePresent

theorem tableReading_next {e : ℕ} (h : ptePresent e = true) :
    tableReading.next e = some (pteAddr e / 4096) := if_pos h

theorem tableReading_next_eq_none {e : ℕ} : tableReading.next e = none ↔ ptePresent e = false := by
  cases h : ptePresent e <;> simp [tableReading, h]

def pathOf (virt : ℕ) : List (Fin 512) :=
  [pml4Index virt, pdptIndex virt, pdIndex virt, ptIndex virt]

/-- The entry at the end of the walk of an address. -/
def findPage (mem : Mem) (root : ℕ) (path : List (Fin 512)) : Option ℕ :=
  Radix.find tableReading (tables mem) root path

theorem full_of_length (reg : Region) {path : List (Fin 512)} (h : path.length = 4) :
    tableShape.Full (reg, []) path :=
  ⟨List.ne_nil_of_length_pos (by omega), by simpa [tableShape] using h⟩

theorem slot_of_four (p : Position) (i₄ i₃ i₂ i₁ : Fin 512) :
    tableShape.slot p [i₄, i₃, i₂, i₁] = some (((p.child i₄).child i₃).child i₂, i₁) := rfl

/-- The slot of a page: different pages of a space have different slots, and different spaces share
those of the upper half only. -/
theorem slot_root {r : ℕ} {i₄ i₃ i₂ i₁ : Fin 512} :
    tableShape.slot (.space r, []) [i₄, i₃, i₂, i₁] =
      some ((if 256 ≤ i₄.val then .kernel else .space r, [i₄, i₃, i₂]), i₁) := by
  by_cases hi : 256 ≤ i₄.val
  · simp [Radix.Shape.slot, tableShape, Position.child, hi]
  · simp [Radix.Shape.slot, tableShape, Position.child, hi]

theorem slot_root_inj {r r' : ℕ} {path path' : List (Fin 512)} (h : path.length = 4)
    (h' : path'.length = 4)
    (heq : tableShape.slot (.space r, []) path = tableShape.slot (.space r', []) path') :
    path = path' ∧ ((∃ i ∈ path.head?, i.val < 256) → r = r') := by
  obtain ⟨i₄, i₃, i₂, i₁, rfl⟩ := List.length_eq_four.mp h
  obtain ⟨j₄, j₃, j₂, j₁, rfl⟩ := List.length_eq_four.mp h'
  rw [slot_root, slot_root] at heq
  obtain ⟨⟨hreg, h₄, h₃, h₂⟩, h₁⟩ := by simpa using heq
  subst h₄ h₃ h₂ h₁
  refine ⟨rfl, ?_⟩
  rintro ⟨i, hi, hlt⟩
  obtain rfl : i₄ = i := by simpa using hi
  rw [if_neg (by omega), if_neg (by omega)] at hreg
  exact Region.space.inj hreg

/-! ## The invariant -/

theorem placed_insert {place : ℕ → Option Position} {m n : ℕ} {p q : Position}
    (hn : Function.update place m (some q) n = some p) :
    n = m ∧ p = q ∨ n ≠ m ∧ place n = some p := by
  by_cases hnm : n = m
  · subst hnm
    rw [Function.update_self] at hn
    exact .inl ⟨rfl, (Option.some.inj hn).symm⟩
  · rw [Function.update_of_ne hnm] at hn
    exact .inr ⟨hnm, hn⟩

theorem placed_of_insert {place : ℕ → Option Position} {m n : ℕ} {p : Position}
    {q : Option Position} (hm : place m = none) (hn : place n = some p) :
    Function.update place m q n = some p := by
  rw [Function.update_of_ne]
  · exact hn
  · rintro rfl
    rw [hm] at hn
    cases hn

section

variable {σ : Type} [FrameAllocator σ]

/-- What holds of the tables between calls: frames in use are placed and no longer available,
entries on the way to a page are writable and map no large page, and they are open to user code
on the way to each page that is. -/
structure TablesOk (roots : Set ℕ) (place : ℕ → Option Position) (mem : Mem) (pmm : σ) : Prop where
  placed : Radix.Placed tableShape tableReading place (tables mem)
  root : ∀ r ∈ roots, place r = some (.space r, [])
  taken : ∀ n p, place n = some p → ¬Avail pmm (4096 * n)
  inner : ∀ n p i, place n = some p → tableShape.Inner p → ptePresent (tables mem n i) = true →
    pteWritable (tables mem n i) = true ∧ pteLarge (tables mem n i) = false
  user : ∀ r ∈ roots, ∀ path e, path.length = 4 → findPage mem r path = some e →
    pteUser e = true → ∀ x ∈ Radix.parents tableReading (tables mem) r path, pteUser x = true

theorem TablesOk.of_avail {roots : Set ℕ} {place : ℕ → Option Position} {mem : Mem} {pmm pmm' : σ}
    (h : TablesOk roots place mem pmm) (hav : ∀ f, Avail pmm' f → Avail pmm f) :
    TablesOk roots place mem pmm' :=
  ⟨h.placed, h.root, fun n p hn hf => h.taken n p hn (hav _ hf), h.inner, h.user⟩

/-- A change that adds tables and opens entries, and is confined to the tables and to frames that
were available. -/
structure Extends (place place' : ℕ → Option Position) (s s' : Vmm σ) : Prop where
  le : ∀ n p, place n = some p → place' n = some p
  fresh : ∀ n p, place' n = some p → place n = some p ∨ Avail s.pmm (4096 * n)
  find : ∀ n p path, place n = some p → tableShape.Full p path →
    findPage s'.mem n path = findPage s.mem n path
  avail : ∀ f, Avail s'.pmm f → Avail s.pmm f
  data : ∀ a, place' (a / 4096) = none → s'.mem a = s.mem a
  currentPml4 : s'.currentPml4 = s.currentPml4
  hhdmOff : s'.hhdmOff = s.hhdmOff

theorem Extends.trans {place place' place'' : ℕ → Option Position} {s s' s'' : Vmm σ}
    (h : Extends place place' s s') (h' : Extends place' place'' s' s'') :
    Extends place place'' s s'' where
  le n p hn := h'.le n p (h.le n p hn)
  fresh n p hn := by
    rcases h'.fresh n p hn with hn | hn
    · exact h.fresh n p hn
    · exact .inr (h.avail _ hn)
  find n p path hn hf := by rw [h'.find n p path (h.le n p hn) hf, h.find n p path hn hf]
  avail f hf := h.avail f (h'.avail f hf)
  data a ha := by
    rw [h'.data a ha, h.data a]
    cases hp : place' (a / 4096) with
    | none => rfl
    | some p => rw [h'.le _ _ hp] at ha; cases ha
  currentPml4 := h'.currentPml4.trans h.currentPml4
  hhdmOff := h'.hhdmOff.trans h.hhdmOff

/-- One level down: the table under an entry is there afterwards, and nothing that was placed has
changed but the entry. -/
structure Descends (place : ℕ → Option Position) (s : Vmm σ) (n : ℕ) (i : Fin 512) (p : Position)
    (flags t : ℕ) (s' : Vmm σ) (place' : ℕ → Option Position) (m : ℕ) : Prop
    extends Extends place place' s s' where
  address : t = 4096 * m
  below : place' m = some (p.child i)
  next : tableReading.next (tables s'.mem n i) = some m
  opened : flags.testBit 2 = true → pteUser (tables s'.mem n i) = true
  other : ∀ k q j, place k = some q → k ≠ n ∨ j ≠ i → tables s'.mem k j = tables s.mem k j

theorem setEntry_apply_of_ne {mem : Mem} {n e a : ℕ} {i : Fin 512} (h : a / 4096 ≠ n) :
    setEntry mem (4096 * n) i e a = mem a := by
  have hi := i.isLt
  rcases Nat.lt_or_ge a (4096 * n) with hlt | hge
  · exact store_apply_of_lt (by omega)
  · exact store_apply_of_ge (by rw [length_leBytes]; omega)

theorem store_page_apply_of_ne {mem : Mem} {n a : ℕ} {bs : List UInt8} (hlen : bs.length ≤ 4096)
    (h : a / 4096 ≠ n) : store mem (4096 * n) bs a = mem a := by
  rcases Nat.lt_or_ge a (4096 * n) with hlt | hge
  · exact store_apply_of_lt hlt
  · exact store_apply_of_ge (by omega)

variable {roots : Set ℕ} {place : ℕ → Option Position} {s s' : Vmm σ} {n flags t : ℕ}
  {i : Fin 512} {p : Position}

/-- The user bits on the way to a page survive a change that leaves them set. -/
theorem TablesOk.user_of_widens {mem mem' : Mem} {pmm : σ} (h : TablesOk roots place mem pmm)
    (hw : Radix.Widens tableShape tableReading place (tables mem) (tables mem'))
    (hu : ∀ k q j, place k = some q → tableShape.Inner q →
      tableReading.next (tables mem' k j) = tableReading.next (tables mem k j) →
        pteUser (tables mem k j) = true → pteUser (tables mem' k j) = true) :
    ∀ r ∈ roots, ∀ path e, path.length = 4 → findPage mem' r path = some e →
      pteUser e = true → ∀ x ∈ Radix.parents tableReading (tables mem') r path,
        pteUser x = true := by
  intro r hr path e hlen he heu
  have hf := full_of_length (.space r) hlen
  have hfind : findPage mem' r path = findPage mem r path := hw.find h.placed (h.root r hr) hf
  refine hw.parents h.placed hu (h.root r hr) hf he ?_
  exact h.user r hr path e hlen (by rwa [← hfind]) heu

/-- An inner entry of a table may come to point to a blank table. -/
theorem widens_entry {mem mem' : Mem} {m : ℕ} (hn : place n = some p) (hp : tableShape.Inner p)
    (hother : ∀ k q j, place k = some q → k ≠ n ∨ j ≠ i → tables mem' k j = tables mem k j)
    (hnext : tableReading.next (tables mem' n i) = some m)
    (hwas : tableReading.next (tables mem n i) = some m ∨
      tableReading.next (tables mem n i) = none ∧ ∀ j, tables mem' m j = 0) :
    Radix.Widens tableShape tableReading place (tables mem) (tables mem') := by
  have hblank : (∀ j, tables mem' m j = 0) → Radix.Blank tableReading (tables mem') m :=
    fun hz j => by rw [hz j]; exact ⟨rfl, rfl⟩
  constructor
  · intro k q j hk hq
    by_cases hkj : k ≠ n ∨ j ≠ i
    · exact .inl (by rw [hother k q j hk hkj])
    · obtain ⟨rfl, rfl⟩ : k = n ∧ j = i := by simpa [not_or] using hkj
      rcases hwas with hsame | ⟨hnone, hz⟩
      · exact .inl (by rw [hnext, hsame])
      · exact .inr ⟨hnone, m, hnext, hblank hz⟩
  · intro k q j hk hq
    refine hother k q j hk (.inl ?_)
    rintro rfl
    rw [hn] at hk
    obtain rfl := Option.some.inj hk
    exact hq hp

/-- An inner entry may come to point to a blank table, and may gain bits. -/
theorem TablesOk.widen {mem mem' : Mem} {pmm : σ} {m : ℕ} (pmm' : σ)
    (h : TablesOk roots place mem pmm)
    (hn : place n = some p) (hp : tableShape.Inner p)
    (hother : ∀ k q j, place k = some q → k ≠ n ∨ j ≠ i → tables mem' k j = tables mem k j)
    (hnext : tableReading.next (tables mem' n i) = some m)
    (hbits : pteWritable (tables mem' n i) = true ∧ pteLarge (tables mem' n i) = false)
    (hwas : tableReading.next (tables mem n i) = some m ∧
        (pteUser (tables mem n i) = true → pteUser (tables mem' n i) = true) ∨
      tableReading.next (tables mem n i) = none ∧ place m = none ∧ ∀ j, tables mem' m j = 0)
    (hfree : ¬Avail pmm' (4096 * m)) (havail : ∀ f, Avail pmm' f → Avail pmm f) :
    TablesOk roots (Function.update place m (some (p.child i))) mem' pmm' ∧
      Radix.Widens tableShape tableReading place (tables mem) (tables mem') := by
  have hw : Radix.Widens tableShape tableReading place (tables mem) (tables mem') := by
    apply widens_entry hn hp hother hnext
    rcases hwas with ⟨hsame, -⟩ | ⟨hnone, -, hz⟩
    · exact .inl hsame
    · exact .inr ⟨hnone, hz⟩
  -- A table placed now was placed before, or is the one below the entry.
  have hcases : ∀ k q, Function.update place m (some (p.child i)) k = some q →
      place k = some q ∨ k = m ∧ place m = none ∧ ∀ j, tables mem' m j = 0 := by
    intro k q hk
    rcases placed_insert hk with ⟨rfl, rfl⟩ | ⟨-, hold⟩
    · rcases hwas with ⟨hsame, -⟩ | ⟨-, hnone, hz⟩
      · exact .inl (h.placed n p i k hn hp hsame)
      · exact .inr ⟨rfl, hnone, hz⟩
    · exact .inl hold
  have hle : ∀ k q, place k = some q →
      Function.update place m (some (p.child i)) k = some q := by
    intro k q hk
    rcases hwas with ⟨hsame, -⟩ | ⟨-, hnone, -⟩
    · have hplaced : place m = some (p.child i) := h.placed n p i m hn hp hsame
      rw [← hplaced, Function.update_eq_self]
      exact hk
    · exact placed_of_insert hnone hk
  refine ⟨⟨?_, fun r hr => hle _ _ (h.root r hr), ?_, ?_, ?_⟩, hw⟩
  · intro k q j m' hk hq hm'
    rcases hcases k q hk with hold | ⟨rfl, -, hz⟩
    · by_cases hkj : k ≠ n ∨ j ≠ i
      · rw [hother k q j hold hkj] at hm'
        exact hle _ _ (h.placed k q j m' hold hq hm')
      · obtain ⟨rfl, rfl⟩ : k = n ∧ j = i := by simpa [not_or] using hkj
        rw [hnext] at hm'
        rw [hn] at hold
        obtain rfl := Option.some.inj hm'
        obtain rfl := Option.some.inj hold
        exact Function.update_self _ _ _
    · rw [hz j] at hm'; cases hm'
  · intro k q hk hav
    rcases hcases k q hk with hk | ⟨rfl, -⟩
    · exact h.taken k q hk (havail _ hav)
    · exact hfree hav
  · intro k q j hk hq hpres
    rcases hcases k q hk with hk | ⟨rfl, -, hz⟩
    · by_cases hkj : k ≠ n ∨ j ≠ i
      · rw [hother k q j hk hkj] at hpres ⊢
        exact h.inner k q j hk hq hpres
      · obtain ⟨rfl, rfl⟩ : k = n ∧ j = i := by simpa [not_or] using hkj
        exact hbits
    · rw [hz j] at hpres; cases hpres
  · refine h.user_of_widens hw fun k q j hk hq hsame hu => ?_
    by_cases hkj : k ≠ n ∨ j ≠ i
    · rwa [hother k q j hk hkj]
    · obtain ⟨rfl, rfl⟩ : k = n ∧ j = i := by simpa [not_or] using hkj
      rcases hwas with ⟨-, hkeep⟩ | ⟨hnone, -⟩
      · exact hkeep hu
      · rw [hnext, hnone] at hsame; cases hsame

/-- The entry that `vmm_map_page` makes for a new table. -/
theorem newEntry_bits {m : ℕ} (flags : ℕ) (hm : 4096 * m < 2 ^ 52) :
    tableReading.next (4096 * m ||| parentFlags flags) = some m ∧
      pteAddr (4096 * m ||| parentFlags flags) = 4096 * m ∧
      (pteWritable (4096 * m ||| parentFlags flags) = true ∧
        pteLarge (4096 * m ||| parentFlags flags) = false) ∧
      pteUser (4096 * m ||| parentFlags flags) = flags.testBit 2 := by
  have hal : 4096 * m % 4096 = 0 := Nat.mul_mod_right 4096 m
  have hlt := parentFlags_lt flags
  have haddr : pteAddr (4096 * m ||| parentFlags flags) = 4096 * m := by
    rw [pteAddr_or (by omega), pteAddr_of_frame hal hm]
  have hbit : ∀ k < 12, (4096 * m ||| parentFlags flags).testBit k =
      (decide (k < 2) || flags.testBit k && decide (2 = k)) := by
    intro k hk
    rw [testBit_frame_or hal hk, testBit_parentFlags]
  refine ⟨?_, haddr, ⟨?_, ?_⟩, ?_⟩
  · have hpres : ptePresent (4096 * m ||| parentFlags flags) = true := by
      rw [ptePresent, hbit 0 (by norm_num)]
      simp
    rw [tableReading_next hpres, haddr, Nat.mul_div_cancel_left _ (by norm_num)]
  · rw [pteWritable, hbit 1 (by norm_num)]
    simp
  · rw [pteLarge, hbit 7 (by norm_num)]
    simp
  · rw [pteUser, hbit 2 (by norm_num)]
    simp

/-- The entry that `vmm_map_page` makes of one that is there. -/
theorem openedEntry_bits (e flags : ℕ) :
    ptePresent (e ||| flags &&& 4) = ptePresent e ∧
      pteAddr (e ||| flags &&& 4) = pteAddr e ∧
      pteWritable (e ||| flags &&& 4) = pteWritable e ∧
      pteLarge (e ||| flags &&& 4) = pteLarge e ∧
      pteUser (e ||| flags &&& 4) = (pteUser e || flags.testBit 2) := by
  have hle := and_four_le flags
  have hbit : ∀ k, (e ||| flags &&& 4).testBit k =
      (e.testBit k || flags.testBit k && decide (2 = k)) := by
    intro k
    rw [Nat.testBit_or, testBit_and_four]
  refine ⟨?_, pteAddr_or (by omega), ?_, ?_, ?_⟩
  · rw [ptePresent, hbit 0]; simp [ptePresent]
  · rw [pteWritable, hbit 1]; simp [pteWritable]
  · rw [pteLarge, hbit 7]; simp [pteLarge]
  · rw [pteUser, hbit 2]; simp [pteUser]

theorem TablesOk.unplaced {mem : Mem} {pmm : σ} (h : TablesOk roots place mem pmm) {m : ℕ}
    (hav : Avail pmm (4096 * m)) : place m = none := by
  cases hpm : place m with
  | none => rfl
  | some q => exact absurd hav (h.taken m q hpm)

/-- A missing table is a fresh frame, zeroed before the entry leads to it. -/
theorem TablesOk.nextTable_of_absent (h : TablesOk roots place s.mem s.pmm)
    (hn : place n = some p) (hp : tableShape.Inner p)
    (he : ptePresent (entryAt s.mem (4096 * n) i) = false)
    (hs : nextTable s (4096 * n) i flags = some (t, s')) :
    ∃ place' m, TablesOk roots place' s'.mem s'.pmm ∧
      Descends place s n i p flags t s' place' m := by
  rw [StyxOS.nextTable, if_pos he] at hs
  cases halloc : allocFrame s.pmm with
  | none => rw [halloc] at hs; cases hs
  | some x =>
    obtain ⟨phys, pmm⟩ := x
    rw [halloc] at hs
    obtain ⟨rfl, rfl⟩ := Prod.mk.inj (Option.some.inj hs)
    obtain ⟨hav, hnew⟩ := allocFrame_avail halloc
    obtain ⟨hal, hz, hsmall⟩ := avail_frame hav
    obtain ⟨m, rfl⟩ := Nat.dvd_of_mod_eq_zero hal
    obtain ⟨hnext, haddr, hbits, huser⟩ := newEntry_bits flags hsmall
    have hlt : 4096 * m ||| parentFlags flags < 2 ^ 64 :=
      Nat.or_lt_two_pow (by omega) (by have := parentFlags_lt flags; omega)
    have hput := tables_setEntry (zeroPage s.mem (4096 * m)) n i hlt
    have hunplaced := h.unplaced hav
    have hmn : m ≠ n := by
      rintro rfl
      rw [hunplaced] at hn
      cases hn
    set mem' := setEntry (zeroPage s.mem (4096 * m)) (4096 * n) i
      (4096 * m ||| parentFlags flags) with hmem'
    have hself : tables mem' n i = 4096 * m ||| parentFlags flags := by
      rw [hput, Radix.put_self]
    have hother : ∀ k q j, place k = some q → k ≠ n ∨ j ≠ i →
        tables mem' k j = tables s.mem k j := by
      intro k q j hk hkj
      have hkm : k ≠ m := by
        rintro rfl
        rw [hunplaced] at hk
        cases hk
      rw [hput, Radix.put_of_ne hkj, tables_zeroPage_of_ne hkm]
    have hzero : ∀ j, tables mem' m j = 0 := by
      intro j
      rw [hput, Radix.put_of_ne (.inl hmn), tables_zeroPage_self]
    have hwas : tableReading.next (tables s.mem n i) = none := tableReading_next_eq_none.mpr he
    obtain ⟨hok, hw⟩ := TablesOk.widen pmm h hn hp hother (by rw [hself]; exact hnext)
      (by rw [hself]; exact hbits) (.inr ⟨hwas, hunplaced, hzero⟩)
      (fun hf => (hnew _ hf).2 rfl) (fun f hf => (hnew f hf).1)
    refine ⟨_, m, hok, ⟨?_, ?_, ?_, ?_, ?_, rfl, rfl⟩, ?_, Function.update_self _ _ _, ?_, ?_,
      hother⟩
    · intro k q hk
      rw [Function.update_of_ne]
      · exact hk
      · rintro rfl
        rw [hunplaced] at hk
        cases hk
    · intro k q hk
      by_cases hkm : k = m
      · exact .inr (by rw [hkm]; exact hav)
      · exact .inl (by rwa [Function.update_of_ne hkm] at hk)
    · exact fun k q path hk hf => hw.find h.placed hk hf
    · exact fun f hf => (hnew f hf).1
    · intro a ha
      have ham : a / 4096 ≠ m := by
        intro hc
        rw [hc, Function.update_self] at ha
        cases ha
      have han : a / 4096 ≠ n := by
        intro hc
        rw [hc, Function.update_of_ne hmn.symm, hn] at ha
        cases ha
      calc mem' a = zeroPage s.mem (4096 * m) a := setEntry_apply_of_ne han
        _ = s.mem a := store_page_apply_of_ne (by rw [List.length_replicate]) ham
    · have hentry : entryAt mem' (4096 * n) i = 4096 * m ||| parentFlags flags := hself
      rw [hentry, haddr]
    · rw [hself]; exact hnext
    · intro hu
      rw [hself, huser, hu]

/-- A table that is there stays, and its entry at most opens. -/
theorem TablesOk.nextTable_of_present (h : TablesOk roots place s.mem s.pmm)
    (hn : place n = some p) (hp : tableShape.Inner p)
    (hpres : ptePresent (tables s.mem n i) = true)
    (hs : nextTable s (4096 * n) i flags = some (t, s')) :
    ∃ place' m, TablesOk roots place' s'.mem s'.pmm ∧
      Descends place s n i p flags t s' place' m := by
  have he : ¬ptePresent (entryAt s.mem (4096 * n) i) = false := ne_false_of_eq_true hpres
  rw [StyxOS.nextTable, if_neg he] at hs
  obtain ⟨rfl, rfl⟩ := Prod.mk.inj (Option.some.inj hs)
  obtain ⟨hbp, hba, hbw, hbl, hbu⟩ := openedEntry_bits (tables s.mem n i) flags
  obtain ⟨hwrit, hlarge⟩ := h.inner n p i hn hp hpres
  have hlt : tables s.mem n i ||| flags &&& 4 < 2 ^ 64 :=
    Nat.or_lt_two_pow (entryAt_lt _ _ _) (lt_of_le_of_lt (and_four_le flags) (by norm_num))
  have hput := tables_setEntry s.mem n i hlt
  set mem' := setEntry s.mem (4096 * n) i (tables s.mem n i ||| flags &&& 4) with hmem'
  have hself : tables mem' n i = tables s.mem n i ||| flags &&& 4 := by
    rw [hput, Radix.put_self]
  have hnext : tableReading.next (tables s.mem n i) = some (pteAddr (tables s.mem n i) / 4096) :=
    tableReading_next hpres
  have hnext' : tableReading.next (tables mem' n i) = some (pteAddr (tables s.mem n i) / 4096) := by
    rw [hself, tableReading_next (by rw [hbp, hpres]), hba]
  have hbelow : place (pteAddr (tables s.mem n i) / 4096) = some (p.child i) :=
    h.placed n p i _ hn hp hnext
  have hother : ∀ k q j, place k = some q → k ≠ n ∨ j ≠ i →
      tables mem' k j = tables s.mem k j := by
    intro k q j _ hkj
    rw [hput, Radix.put_of_ne hkj]
  obtain ⟨hok, hw⟩ := TablesOk.widen s.pmm h hn hp hother hnext'
    (by rw [hself, hbw, hbl]; exact ⟨hwrit, hlarge⟩)
    (.inl ⟨hnext, fun hu => by rw [hself, hbu, hu, Bool.true_or]⟩)
    (h.taken _ _ hbelow) (fun f hf => hf)
  rw [← hbelow, Function.update_eq_self] at hok
  refine ⟨place, _, hok, ⟨fun k q hk => hk, fun k q hk => .inl hk, ?_, fun f hf => hf, ?_, rfl,
    rfl⟩, ?_, hbelow, hnext', ?_, hother⟩
  · exact fun k q path hk hf => hw.find h.placed hk hf
  · intro a ha
    refine setEntry_apply_of_ne ?_
    intro hc
    rw [hc, hn] at ha
    cases ha
  · have hentry : entryAt mem' (4096 * n) i = tables s.mem n i ||| flags &&& 4 := hself
    have haddr : pteAddr (entryAt mem' (4096 * n) i) = pteAddr (tables s.mem n i) := by
      rw [hentry, hba]
    rw [mul_pteAddr_div]
    exact haddr
  · intro hu
    have hopen : pteUser (tables mem' n i) = true := by rw [hself, hbu, hu, Bool.or_true]
    exact hopen

/-- One level of `vmm_map_page` leads to the table below, and adds it when it is missing. -/
theorem TablesOk.nextTable (h : TablesOk roots place s.mem s.pmm)
    (hn : place n = some p) (hp : tableShape.Inner p)
    (hs : nextTable s (4096 * n) i flags = some (t, s')) :
    ∃ place' m, TablesOk roots place' s'.mem s'.pmm ∧
      Descends place s n i p flags t s' place' m := by
  cases he : ptePresent (entryAt s.mem (4096 * n) i) with
  | false => exact h.nextTable_of_absent hn hp he hs
  | true => exact h.nextTable_of_present hn hp he hs

/-- The store of a last entry, which is open to user code only if the way to it is. -/
theorem TablesOk.setLeaf {mem : Mem} {pmm : σ} {e : ℕ} (h : TablesOk roots place mem pmm)
    (hn : place n = some p) (hp : ¬tableShape.Inner p) (he : e < 2 ^ 64)
    (hopen : ∀ r ∈ roots, ∀ path, path.length = 4 →
      Radix.reach tableReading (tables mem) r path = some (n, i) → pteUser e = true →
        ∀ x ∈ Radix.parents tableReading (tables mem) r path, pteUser x = true) :
    TablesOk roots place (setEntry mem (4096 * n) i e) pmm := by
  have hput := tables_setEntry mem n i he
  refine ⟨?_, h.root, h.taken, ?_, ?_⟩
  · rw [hput]
    exact h.placed.put hn hp
  · intro k q j hk hq
    rw [hput, Radix.put_of_inner hn hp hk hq]
    exact h.inner k q j hk hq
  · intro r hr path e' hlen hfind hu
    have hf := full_of_length (.space r) hlen
    rw [findPage, hput] at hfind
    rw [hput, Radix.parents_put hn hp h.placed (h.root r hr) hf]
    by_cases hreach : Radix.reach tableReading (tables mem) r path = some (n, i)
    · rw [Radix.find_put_of_reach hn hp h.placed (h.root r hr) hf hreach] at hfind
      obtain ⟨-, heq⟩ := Option.ite_none_right_eq_some.mp hfind
      obtain rfl := Option.some.inj heq
      exact hopen r hr path hlen hreach hu
    · rw [Radix.find_put_of_reach_ne hn hp h.placed (h.root r hr) hf hreach] at hfind
      exact h.user r hr path e' hlen hfind hu

/-- The three steps of `vmm_map_page` down to the last table. -/
theorem TablesOk.descend {r : ℕ} {s₁ s₂ s₃ : Vmm σ} {t₃ t₂ t₁ : ℕ} {i₄ i₃ i₂ : Fin 512}
    (h : TablesOk roots place s.mem s.pmm) (i₁ : Fin 512) (hr : r ∈ roots)
    (h₄ : StyxOS.nextTable s (4096 * r) i₄ flags = some (t₃, s₁))
    (h₃ : StyxOS.nextTable s₁ t₃ i₃ flags = some (t₂, s₂))
    (h₂ : StyxOS.nextTable s₂ t₂ i₂ flags = some (t₁, s₃)) :
    ∃ place' n₁ q, TablesOk roots place' s₃.mem s₃.pmm ∧ Extends place place' s s₃ ∧
      t₁ = 4096 * n₁ ∧ place' n₁ = some q ∧ ¬tableShape.Inner q ∧
      tableShape.slot (.space r, []) [i₄, i₃, i₂, i₁] = some (q, i₁) ∧
      Radix.reach tableReading (tables s₃.mem) r [i₄, i₃, i₂, i₁] = some (n₁, i₁) ∧
      (flags.testBit 2 = true → ∀ x ∈ Radix.parents tableReading (tables s₃.mem) r
        [i₄, i₃, i₂, i₁], pteUser x = true) ∧
      ∀ k p j, place k = some p → p.2 = [] → tables s₃.mem k j = tables s₁.mem k j := by
  have hroot := h.root r hr
  have hlen₃ := Position.length_child (.space r, []) i₄
  have hlen₂ := Position.length_child (Position.child (.space r, []) i₄) i₃
  have hlen₁ := Position.length_child (Position.child (Position.child (.space r, []) i₄) i₃) i₂
  rw [List.length_nil] at hlen₃
  obtain ⟨p₁, n₃, ok₁, d₄⟩ := h.nextTable hroot (by simp [Radix.Shape.Inner, tableShape]) h₄
  rw [d₄.address] at h₃
  obtain ⟨p₂, n₂, ok₂, d₃⟩ := ok₁.nextTable d₄.below
    (by unfold Radix.Shape.Inner; simp only [tableShape]; omega) h₃
  rw [d₃.address] at h₂
  obtain ⟨p₃, n₁, ok₃, d₂⟩ := ok₂.nextTable d₃.below
    (by unfold Radix.Shape.Inner; simp only [tableShape]; omega) h₂
  -- The tables of the three levels are at positions of different depths.
  have hne : ∀ {pl : ℕ → Option Position} {k k' : ℕ} {q q' : Position}, pl k = some q →
      pl k' = some q' → q.2.length ≠ q'.2.length → k ≠ k' := by
    rintro pl k k' q q' hk hk' hl rfl
    rw [hk] at hk'
    exact hl (by rw [Option.some.inj hk'])
  have hroot₁ := d₄.le r _ hroot
  have hroot₂ := d₃.le r _ hroot₁
  have hr₃ : r ≠ n₃ := hne hroot₁ d₄.below (by rw [hlen₃]; exact Nat.zero_ne_one)
  have hr₂ : r ≠ n₂ := hne hroot₂ d₃.below (by rw [hlen₂, hlen₃]; exact Nat.zero_ne_add_one _)
  have h₃₂ : n₃ ≠ n₂ := hne (d₃.le _ _ d₄.below) d₃.below (by rw [hlen₂]; omega)
  have e₄ : tables s₃.mem r i₄ = tables s₁.mem r i₄ := by
    rw [d₂.other r _ i₄ hroot₂ (.inl hr₂), d₃.other r _ i₄ hroot₁ (.inl hr₃)]
  have e₃ : tables s₃.mem n₃ i₃ = tables s₂.mem n₃ i₃ :=
    d₂.other n₃ _ i₃ (d₃.le _ _ d₄.below) (.inl h₃₂)
  have x₄ : tableReading.next (tables s₃.mem r i₄) = some n₃ := by rw [e₄, d₄.next]
  have x₃ : tableReading.next (tables s₃.mem n₃ i₃) = some n₂ := by rw [e₃, d₃.next]
  refine ⟨p₃, n₁, _, ok₃, (d₄.toExtends.trans d₃.toExtends).trans d₂.toExtends, d₂.address,
    d₂.below, ?_, slot_of_four _ i₄ i₃ i₂ i₁, ?_, ?_, ?_⟩
  · unfold Radix.Shape.Inner
    simp only [tableShape]
    omega
  · simp only [Radix.reach, x₄, x₃, d₂.next, Option.bind_some]
  · intro hu x hx
    simp only [Radix.parents, x₄, x₃, d₂.next, Option.elim_some, List.mem_cons, List.not_mem_nil,
      or_false] at hx
    rcases hx with hx | hx | hx
    · rw [hx, e₄]; exact d₄.opened hu
    · rw [hx, e₃]; exact d₃.opened hu
    · rw [hx]; exact d₂.opened hu
  · intro k p j hk hp
    have hk₁ := d₄.le k p hk
    have hk₂ := d₃.le k p hk₁
    have hlen : p.2.length = 0 := by rw [hp]; rfl
    rw [d₂.other k p j hk₂ (.inl (hne hk₂ d₃.below (by omega))),
      d₃.other k p j hk₁ (.inl (hne hk₁ d₄.below (by omega)))]

/-- The entry that `vmm_map_page` stores last. -/
def leafEntry (phys flags : ℕ) : ℕ := pteAddr phys ||| flags

/-- What `vmm_map_page` on the PML4 in frame `r` does: its page is mapped, and no walk finds
anything else that is new; it writes to no frame but tables and frames that were available. -/
structure Maps (place place' : ℕ → Option Position) (r virt phys flags : ℕ) (s s' : Vmm σ) :
    Prop where
  le : ∀ n p, place n = some p → place' n = some p
  fresh : ∀ n p, place' n = some p → place n = some p ∨ Avail s.pmm (4096 * n)
  avail : ∀ f, Avail s'.pmm f → Avail s.pmm f
  data : ∀ a, place' (a / 4096) = none → s'.mem a = s.mem a
  currentPml4 : s'.currentPml4 = s.currentPml4
  hhdmOff : s'.hhdmOff = s.hhdmOff
  here : findPage s'.mem r (pathOf virt) =
    if ptePresent (leafEntry phys flags) then some (leafEntry phys flags) else none
  other : ∀ k p path, place k = some p → tableShape.Full p path →
    tableShape.slot p path ≠ tableShape.slot (.space r, []) (pathOf virt) →
      findPage s'.mem k path = findPage s.mem k path
  any : ∀ k p path, place k = some p → tableShape.Full p path →
    findPage s'.mem k path = findPage s.mem k path ∨
      findPage s'.mem k path =
        if ptePresent (leafEntry phys flags) then some (leafEntry phys flags) else none

theorem TablesOk.vmmMapPage {r virt phys : ℕ} (h : TablesOk roots place s.mem s.pmm)
    (hr : r ∈ roots) (hpml4 : s.currentPml4 = some (4096 * r)) (hflags : flags < 2 ^ 64)
    (huser : flags.testBit 2 = true → (pml4Index virt).val < 256 ∨ roots ⊆ {r})
    (hs : vmmMapPage s virt phys flags = some s') :
    ∃ place', TablesOk roots place' s'.mem s'.pmm ∧ Maps place place' r virt phys flags s s' := by
  simp only [StyxOS.vmmMapPage, hpml4, Option.bind_eq_bind, Option.bind_eq_some_iff,
    Prod.exists, Option.some.injEq] at hs
  obtain ⟨t₃, s₁, h₄, t₂, s₂, h₃, t₁, s₃, h₂, rfl⟩ := hs
  obtain ⟨place', n₁, q, hok, hext, rfl, hn₁, hq, hslot, hreach, hopen, -⟩ :=
    h.descend (ptIndex virt) hr h₄ h₃ h₂
  have hleaf : leafEntry phys flags < 2 ^ 64 :=
    Nat.or_lt_two_pow (lt_trans (pteAddr_lt phys) (by norm_num)) hflags
  have hput := tables_setEntry s₃.mem n₁ (ptIndex virt) hleaf
  have hplaced := hok.placed
  have hroot := hext.le r _ (h.root r hr)
  have hfull : tableShape.Full (.space r, []) (pathOf virt) := full_of_length (.space r) rfl
  refine ⟨place', ?_, hext.le, hext.fresh, hext.avail, ?_, hext.currentPml4, hext.hhdmOff, ?_, ?_,
    ?_⟩
  · refine hok.setLeaf hn₁ hq hleaf fun r' hr' path hlen hreach' hu => ?_
    have hu2 : flags.testBit 2 = true := by
      have hbit : (leafEntry phys flags).testBit 2 = flags.testBit 2 :=
        testBit_pteAddr_or (by norm_num)
      rw [← hbit]
      exact hu
    obtain ⟨q', hq', hslot'⟩ :=
      hplaced.slot_of_reach (hok.root r' hr') (full_of_length (.space r') hlen) hreach'
    rw [hn₁] at hq'
    obtain rfl := Option.some.inj hq'
    obtain ⟨rfl, hroots⟩ := slot_root_inj rfl hlen (hslot.trans hslot'.symm)
    have hrr : r = r' := by
      rcases huser hu2 with hlow | hsub
      · exact hroots ⟨_, rfl, hlow⟩
      · exact (hsub hr').symm
    rw [← hrr]
    exact hopen hu2
  · intro a ha
    have hne : a / 4096 ≠ n₁ := by
      intro hc
      rw [hc, hn₁] at ha
      cases ha
    calc setEntry s₃.mem (4096 * n₁) (ptIndex virt) (leafEntry phys flags) a
        = s₃.mem a := setEntry_apply_of_ne hne
      _ = s.mem a := hext.data a ha
  · rw [findPage]
    dsimp only
    rw [← leafEntry, hput]
    exact Radix.find_put_of_reach hn₁ hq hplaced hroot hfull hreach
  · intro k p path hk hf hne
    rw [findPage]
    dsimp only
    rw [← leafEntry, hput,
      Radix.find_put_of_slot_ne hn₁ hq hplaced (hext.le k p hk) hf (by rw [← hslot]; exact hne)]
    exact hext.find k p path hk hf
  · intro k p path hk hf
    rw [findPage]
    dsimp only
    rw [← leafEntry, hput]
    by_cases hto : Radix.reach tableReading (tables s₃.mem) k path = some (n₁, ptIndex virt)
    · exact .inr (Radix.find_put_of_reach hn₁ hq hplaced (hext.le k p hk) hf hto)
    · rw [Radix.find_put_of_reach_ne hn₁ hq hplaced (hext.le k p hk) hf hto]
      exact .inl (hext.find k p path hk hf)

theorem nextTable_entry (hpres : ptePresent (tables s.mem n i) = true)
    (hs : nextTable s (4096 * n) i flags = some (t, s')) :
    tables s'.mem n i = tables s.mem n i ||| flags &&& 4 := by
  have he : ¬ptePresent (entryAt s.mem (4096 * n) i) = false := ne_false_of_eq_true hpres
  have hlt : tables s.mem n i ||| flags &&& 4 < 2 ^ 64 :=
    Nat.or_lt_two_pow (entryAt_lt _ _ _) (lt_of_le_of_lt (and_four_le flags) (by norm_num))
  rw [StyxOS.nextTable, if_neg he] at hs
  obtain ⟨-, rfl⟩ := Prod.mk.inj (Option.some.inj hs)
  have hput := tables_setEntry s.mem n i hlt
  dsimp only
  rw [← tables, hput, Radix.put_self]

/-- What `vmm_map_page` on the PML4 in frame `r` does to the PML4s: the entry of the address is
there afterwards, one that was there is at most opened to user code, and no other entry changes. -/
structure KeepsRoots (place : ℕ → Option Position) (r virt flags : ℕ) (s s' : Vmm σ) : Prop where
  present : ptePresent (tables s'.mem r (pml4Index virt)) = true
  opened : ptePresent (tables s.mem r (pml4Index virt)) = true →
    tables s'.mem r (pml4Index virt) = tables s.mem r (pml4Index virt) ||| flags &&& 4
  other : ∀ k p j, place k = some p → p.2 = [] → k ≠ r ∨ j ≠ pml4Index virt →
    tables s'.mem k j = tables s.mem k j

theorem TablesOk.keepsRoots {r virt phys : ℕ} (h : TablesOk roots place s.mem s.pmm)
    (hr : r ∈ roots) (hpml4 : s.currentPml4 = some (4096 * r)) (hflags : flags < 2 ^ 64)
    (hs : StyxOS.vmmMapPage s virt phys flags = some s') : KeepsRoots place r virt flags s s' := by
  simp only [StyxOS.vmmMapPage, hpml4, Option.bind_eq_bind, Option.bind_eq_some_iff,
    Prod.exists, Option.some.injEq] at hs
  obtain ⟨t₃, s₁, h₄, t₂, s₂, h₃, t₁, s₃, h₂, rfl⟩ := hs
  obtain ⟨place', n₁, q, hok, hext, rfl, hn₁, hq, -, hreach, -, hroots⟩ :=
    h.descend (ptIndex virt) hr h₄ h₃ h₂
  have hroot := h.root r hr
  obtain ⟨_, _, -, d₄⟩ := h.nextTable hroot (by simp [Radix.Shape.Inner, tableShape]) h₄
  have hleaf : leafEntry phys flags < 2 ^ 64 :=
    Nat.or_lt_two_pow (lt_trans (pteAddr_lt phys) (by norm_num)) hflags
  -- the last store is not in a PML4
  have hlast : ∀ k p j, place k = some p → p.2 = [] →
      tables (setEntry s₃.mem (4096 * n₁) (ptIndex virt) (leafEntry phys flags)) k j =
        tables s₁.mem k j := by
    intro k p j hk hp
    have hkn : k ≠ n₁ := by
      rintro rfl
      rw [hext.le k p hk] at hn₁
      obtain rfl := Option.some.inj hn₁
      exact hq (by simp [Radix.Shape.Inner, tableShape, hp])
    rw [tables_setEntry _ _ _ hleaf, Radix.put_of_ne (.inl hkn), hroots k p j hk hp]
  constructor
  · have hnext : tableReading.next (tables s₁.mem r (pml4Index virt)) ≠ none := by
      rw [d₄.next]
      exact Option.some_ne_none _
    rw [ne_eq, tableReading_next_eq_none, Bool.not_eq_false] at hnext
    rw [← hnext]
    exact congrArg ptePresent (hlast r _ _ hroot rfl)
  · intro hpres
    rw [← nextTable_entry hpres h₄]
    exact hlast r _ _ hroot rfl
  · intro k p j hk hp hne
    rw [← d₄.other k p j hk hne]
    exact hlast k p j hk hp

end

end StyxOS
