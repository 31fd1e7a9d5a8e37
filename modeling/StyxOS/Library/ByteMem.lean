import Mathlib.Tactic.Ring
import Mathlib.Data.List.GetD
import Mathlib.Data.UInt

/-! # Byte-addressed memory

Memory is a function from addresses to bytes, written and read in blocks.
A load sees the last store over its range and nothing of a store elsewhere.
Little-endian numbers of any width are stored as blocks.
-/

namespace ByteMem

/-- The contents of a memory: one byte at each address. -/
abbrev Mem := ℕ → UInt8

/-- The `n` bytes from address `a`. -/
def load (m : Mem) (a n : ℕ) : List UInt8 := (List.range n).map fun i => m (a + i)

/-- Write the bytes `bs` from address `a`. -/
def store (m : Mem) (a : ℕ) (bs : List UInt8) : Mem :=
  fun x => if a ≤ x then bs.getD (x - a) (m x) else m x

variable {m : Mem} {a b n k : ℕ} {bs cs : List UInt8}

@[simp] theorem length_load : (load m a n).length = n := by simp [load]

theorem getElem_load {i : ℕ} (h : i < (load m a n).length) : (load m a n)[i] = m (a + i) := by
  simp [load]

theorem load_eq_load_iff {m' : Mem} :
    load m' a n = load m a n ↔ ∀ i < n, m' (a + i) = m (a + i) := by
  simp [load]

theorem load_congr {m' : Mem} (h : ∀ i < n, m' (a + i) = m (a + i)) : load m' a n = load m a n :=
  load_eq_load_iff.mpr h

theorem store_apply_of_lt {x : ℕ} (h : x < a) : store m a bs x = m x := by
  simp [store, Nat.not_le.mpr h]

theorem store_apply_of_ge {x : ℕ} (h : a + bs.length ≤ x) : store m a bs x = m x := by
  unfold store
  split
  · exact List.getD_eq_default _ _ (by omega)
  · rfl

theorem store_apply {i : ℕ} (h : i < bs.length) : store m a bs (a + i) = bs[i] := by
  simp [store, h]

@[simp] theorem store_nil : store m a [] = m := by
  funext x; simp [store]

theorem store_append : store m a (bs ++ cs) = store (store m a bs) (a + bs.length) cs := by
  funext x
  by_cases hlow : x < a
  · rw [store_apply_of_lt hlow, store_apply_of_lt (by omega), store_apply_of_lt hlow]
  · obtain ⟨i, rfl⟩ := Nat.exists_eq_add_of_le (Nat.le_of_not_lt hlow)
    by_cases hfirst : i < bs.length
    · rw [store_apply (by simp; omega), store_apply_of_lt (by omega), store_apply hfirst]
      exact List.getElem_append_left hfirst
    · obtain ⟨j, rfl⟩ := Nat.exists_eq_add_of_le (Nat.le_of_not_lt hfirst)
      rw [← Nat.add_assoc]
      by_cases hsecond : j < cs.length
      · rw [store_apply hsecond, Nat.add_assoc, store_apply (by simp; omega)]
        simp
      · rw [store_apply_of_ge (by simp; omega), store_apply_of_ge (by omega),
          store_apply_of_ge (by omega)]

theorem load_store_same : load (store m a bs) a bs.length = bs := by
  refine List.ext_getElem (by simp) fun i hi _ => ?_
  rw [getElem_load]
  exact store_apply (by simpa using hi)

theorem load_store_of_length (h : bs.length = n) : load (store m a bs) a n = bs :=
  h ▸ load_store_same

theorem load_store_disjoint (h : b + n ≤ a ∨ a + bs.length ≤ b) :
    load (store m a bs) b n = load m b n := by
  refine load_congr fun i hi => ?_
  rcases h with h | h
  · exact store_apply_of_lt (by omega)
  · exact store_apply_of_ge (by omega)

theorem load_store_sub {i : ℕ} (h : i + n ≤ bs.length) :
    load (store m a bs) (a + i) n = (bs.drop i).take n := by
  refine List.ext_getElem (by simp; omega) fun j hj _ => ?_
  rw [getElem_load, Nat.add_assoc, store_apply (by simp at hj; omega)]
  simp

theorem take_drop_load {i : ℕ} (h : i + n ≤ k) :
    ((load m a k).drop i).take n = load m (a + i) n := by
  refine List.ext_getElem (by simp; omega) fun j hj _ => ?_
  rw [List.getElem_take, List.getElem_drop, getElem_load, getElem_load, Nat.add_assoc]

theorem store_load_self : store m a (load m a n) = m := by
  funext x
  by_cases h : a ≤ x ∧ x < a + n
  · obtain ⟨i, rfl⟩ := Nat.exists_eq_add_of_le h.1
    rw [store_apply (by simp; omega), getElem_load]
  · rcases Nat.lt_or_ge x a with hx | hx
    · exact store_apply_of_lt hx
    · exact store_apply_of_ge (by simp; omega)

theorem store_eq_self_iff : store m a bs = m ↔ load m a bs.length = bs := by
  constructor
  · intro h
    have hl : load (store m a bs) a bs.length = bs := load_store_same
    rwa [h] at hl
  · intro h
    have hs : store m a (load m a bs.length) = m := store_load_self
    rwa [h] at hs

theorem load_eq_iff : load m a bs.length = bs ↔ ∀ i, (h : i < bs.length) → m (a + i) = bs[i] := by
  constructor
  · intro h i hi
    have hget := getElem_load (m := m) (a := a) (n := bs.length) (i := i) (by simpa using hi)
    rw [← hget]
    simp only [h]
  · intro h
    refine List.ext_getElem length_load ?_
    intro i hi hi'
    rw [getElem_load, h i hi']

/-! ## Runs of stores -/

/-- Some blocks written one after the other, each with its address. -/
def storeAll (m : Mem) (ws : List (ℕ × List UInt8)) : Mem := ws.foldl (fun m w => store m w.1 w.2) m

/-- Two blocks that have the same bytes where they overlap. -/
def Agree (v w : ℕ × List UInt8) : Prop :=
  ∀ i j, (hi : i < v.2.length) → (hj : j < w.2.length) → v.1 + i = w.1 + j → v.2[i] = w.2[j]

theorem storeAll_apply (m : Mem) (ws : List (ℕ × List UInt8)) (x : ℕ) :
    (storeAll m ws x = m x ∧ ∀ w ∈ ws, x < w.1 ∨ w.1 + w.2.length ≤ x) ∨
      ∃ w ∈ ws, ∃ i, ∃ h : i < w.2.length, w.1 + i = x ∧ storeAll m ws x = w.2[i] := by
  induction ws generalizing m with
  | nil => left; simp [storeAll]
  | cons v ws ih =>
    rcases ih (store m v.1 v.2) with ⟨hkeep, hout⟩ | ⟨w, hw, hin⟩
    · have hstep : storeAll m (v :: ws) x = store m v.1 v.2 x := hkeep
      by_cases hx : v.1 ≤ x ∧ x < v.1 + v.2.length
      · right
        obtain ⟨i, rfl⟩ := Nat.exists_eq_add_of_le hx.1
        have hi : i < v.2.length := by omega
        exact ⟨v, List.mem_cons_self, i, hi, rfl, hstep.trans (store_apply hi)⟩
      · left
        refine ⟨?_, List.forall_mem_cons.mpr ⟨by omega, hout⟩⟩
        rw [hstep]
        rcases Nat.lt_or_ge x v.1 with hlt | hge
        · exact store_apply_of_lt hlt
        · exact store_apply_of_ge (by omega)
    · exact Or.inr ⟨w, List.mem_cons_of_mem v hw, hin⟩

theorem load_storeAll_iff (m : Mem) (ws : List (ℕ × List UInt8)) :
    (∀ w ∈ ws, load (storeAll m ws) w.1 w.2.length = w.2) ↔ ∀ v ∈ ws, ∀ w ∈ ws, Agree v w := by
  simp only [load_eq_iff]
  constructor
  · intro h v hv w hw i j hi hj heq
    rw [← h v hv i hi, heq, h w hw j hj]
  · intro h w hw i hi
    rcases storeAll_apply m ws (w.1 + i) with ⟨-, hout⟩ | ⟨v, hv, j, hj, heq, hval⟩
    · have hmiss := hout w hw
      omega
    · rw [hval]
      exact h v hv w hw j i hj hi heq

/-! ## Little-endian numbers -/

/-- The `n` low bytes of `v`, least significant first. -/
def leBytes : ℕ → ℕ → List UInt8
  | 0, _ => []
  | n + 1, v => UInt8.ofNat v :: leBytes n (v / 256)

/-- The number that a list of bytes, least significant first, spells. -/
def leVal : List UInt8 → ℕ
  | [] => 0
  | b :: bs => b.toNat + 256 * leVal bs

@[simp] theorem length_leBytes (n v : ℕ) : (leBytes n v).length = n := by
  induction n generalizing v with
  | zero => rfl
  | succ n ih => simp [leBytes, ih]

theorem leVal_leBytes (n v : ℕ) : leVal (leBytes n v) = v % 256 ^ n := by
  induction n generalizing v with
  | zero => simp [leBytes, leVal, Nat.mod_one]
  | succ n ih =>
    rw [leBytes, leVal, ih, pow_succ', Nat.mod_mul, UInt8.toNat_ofNat']

theorem leVal_lt (bs : List UInt8) : leVal bs < 256 ^ bs.length := by
  induction bs with
  | nil => simp [leVal]
  | cons b bs ih =>
    have hb : b.toNat < 256 := b.toNat_lt
    rw [leVal, List.length_cons, pow_succ']
    omega

theorem leBytes_leVal (bs : List UInt8) : leBytes bs.length (leVal bs) = bs := by
  induction bs with
  | nil => rfl
  | cons b bs ih =>
    have hb : b.toNat < 256 := b.toNat_lt
    have hd : (b.toNat + 256 * leVal bs) / 256 = leVal bs := by omega
    have hm : UInt8.ofNat (b.toNat + 256 * leVal bs) = b := by
      apply UInt8.toNat_inj.mp
      rw [UInt8.toNat_ofNat']
      omega
    rw [List.length_cons, leBytes, leVal, hd, hm, ih]

/-- Read an `n`-byte little-endian number. -/
def loadLE (m : Mem) (a n : ℕ) : ℕ := leVal (load m a n)

/-- Write an `n`-byte little-endian number. -/
def storeLE (m : Mem) (a n v : ℕ) : Mem := store m a (leBytes n v)

theorem loadLE_storeLE_same {v : ℕ} (h : v < 256 ^ n) : loadLE (storeLE m a n v) a n = v := by
  have hl : load (store m a (leBytes n v)) a (leBytes n v).length = leBytes n v := load_store_same
  rw [length_leBytes] at hl
  rw [loadLE, storeLE, hl, leVal_leBytes, Nat.mod_eq_of_lt h]

theorem loadLE_storeLE_disjoint {v : ℕ} (h : b + k ≤ a ∨ a + n ≤ b) :
    loadLE (storeLE m a n v) b k = loadLE m b k := by
  rw [loadLE, storeLE, load_store_disjoint (by simpa using h), loadLE]

theorem loadLE_store_disjoint (h : b + k ≤ a ∨ a + bs.length ≤ b) :
    loadLE (store m a bs) b k = loadLE m b k := by
  rw [loadLE, load_store_disjoint h, loadLE]

theorem loadLE_congr {m' : Mem} (h : ∀ i < n, m' (a + i) = m (a + i)) :
    loadLE m' a n = loadLE m a n := by
  rw [loadLE, load_congr h, loadLE]

/-! ## Fields of records -/

/-- A number at a fixed offset of a record. -/
structure RecField where
  off : ℕ
  width : ℕ

def RecField.get (f : RecField) (m : Mem) (a : ℕ) : ℕ := loadLE m (a + f.off) f.width

def RecField.set (f : RecField) (m : Mem) (a v : ℕ) : Mem := storeLE m (a + f.off) f.width v

namespace RecField

variable {f g : RecField} {v : ℕ}

theorem get_set_same (h : v < 256 ^ f.width) : f.get (f.set m a v) a = v :=
  loadLE_storeLE_same h

/-- Two fields that share no byte, of one record or of two. -/
def Apart (f : RecField) (a : ℕ) (g : RecField) (b : ℕ) : Prop :=
  b + g.off + g.width ≤ a + f.off ∨ a + f.off + f.width ≤ b + g.off

instance (f : RecField) (a : ℕ) (g : RecField) (b : ℕ) : Decidable (Apart f a g b) :=
  inferInstanceAs (Decidable (_ ∨ _))

theorem get_set_apart (h : Apart f a g b) : g.get (f.set m a v) b = g.get m b :=
  loadLE_storeLE_disjoint h

theorem get_set_other (h : g.off + g.width ≤ f.off ∨ f.off + f.width ≤ g.off) :
    g.get (f.set m a v) a = g.get m a :=
  get_set_apart (by unfold Apart; omega)

theorem get_congr {m' : Mem} (h : ∀ i < f.width, m' (a + f.off + i) = m (a + f.off + i)) :
    f.get m' a = f.get m a := loadLE_congr h

theorem set_apply_of_lt {x : ℕ} (h : x < a + f.off) : f.set m a v x = m x :=
  store_apply_of_lt h

theorem set_apply_of_ge {x : ℕ} (h : a + f.off + f.width ≤ x) : f.set m a v x = m x :=
  store_apply_of_ge (by rwa [length_leBytes])

end RecField

end ByteMem
