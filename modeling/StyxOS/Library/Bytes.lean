import StyxOS.Library.ByteMem

/-! # Byte strings

Byte strings are combined by exclusive or and spelled from numbers in
big-endian order. Masking twice by one string gives back what was masked.
-/

namespace ByteMem

theorem forall_byte {p : UInt8 → Prop} (h : ∀ n < 256, p (UInt8.ofNat n)) (b : UInt8) : p b := by
  have hb : p (UInt8.ofNat b.toNat) := h b.toNat b.toNat_lt
  rwa [UInt8.ofNat_toNat] at hb

/-- The exclusive or of two byte strings, as long as the shorter one. -/
def xorBytes (as bs : List UInt8) : List UInt8 := List.zipWith (· ^^^ ·) as bs

@[simp] theorem length_xorBytes (as bs : List UInt8) :
    (xorBytes as bs).length = min as.length bs.length := by simp [xorBytes]

@[simp] theorem xorBytes_nil (as : List UInt8) : xorBytes as [] = [] := by simp [xorBytes]

theorem xorBytes_xorBytes {as ks : List UInt8} (h : as.length ≤ ks.length) :
    xorBytes (xorBytes as ks) ks = as := by
  induction as generalizing ks with
  | nil => simp [xorBytes]
  | cons a as ih =>
    cases ks with
    | nil => simp at h
    | cons k ks =>
      have hr : xorBytes (xorBytes as ks) ks = as := ih (by simpa using h)
      have ha : a ^^^ k ^^^ k = a := by
        rw [UInt8.xor_assoc, UInt8.xor_self, UInt8.xor_zero]
      change (a ^^^ k ^^^ k) :: xorBytes (xorBytes as ks) ks = a :: as
      rw [ha, hr]

theorem xorBytes_append_right (as ks ks' : List UInt8) :
    xorBytes as (ks ++ ks') =
      xorBytes (as.take ks.length) ks ++ xorBytes (as.drop ks.length) ks' := by
  induction ks generalizing as with
  | nil => simp
  | cons k ks ih =>
    cases as with
    | nil => simp [xorBytes]
    | cons a as => simpa [xorBytes] using ih as

theorem store_store_same {m : Mem} {a : ℕ} {bs cs : List UInt8} (h : bs.length = cs.length) :
    store (store m a bs) a cs = store m a cs := by
  funext x
  by_cases hlow : x < a
  · rw [store_apply_of_lt hlow, store_apply_of_lt hlow, store_apply_of_lt hlow]
  · obtain ⟨i, rfl⟩ := Nat.exists_eq_add_of_le (Nat.le_of_not_lt hlow)
    by_cases hin : i < cs.length
    · rw [store_apply hin, store_apply hin]
    · rw [store_apply_of_ge (by omega), store_apply_of_ge (by omega), store_apply_of_ge (by omega)]

theorem store_store_comm {m : Mem} {a b : ℕ} {bs cs : List UInt8} (h : a + bs.length ≤ b) :
    store (store m a bs) b cs = store (store m b cs) a bs := by
  funext x
  by_cases hx : x < b
  · rw [store_apply_of_lt hx]
    simp [store, Nat.not_le.mpr hx]
  · have hbehind : ∀ m : Mem, store m a bs x = m x := fun m => store_apply_of_ge (by omega)
    rw [hbehind]
    change (if b ≤ x then cs.getD (x - b) (store m a bs x) else store m a bs x) = store m b cs x
    rw [hbehind]
    rfl

theorem store_store_store {m : Mem} {a j k : ℕ} {as bs cs : List UInt8} (ha : as.length = j)
    (hb : bs.length = k) :
    store (store (store m a as) (a + j) bs) (a + j + k) cs = store m a (as ++ (bs ++ cs)) := by
  rw [store_append, store_append, ha, hb]

theorem load_store_behind {m : Mem} {a j k : ℕ} {as bs : List UInt8} (ha : as.length = j)
    (hb : bs.length = k) : load (store m a (as ++ bs)) (a + j) k = bs := by
  rw [store_append, ha, ← hb, load_store_same]

theorem store_store_middle {m : Mem} {a : ℕ} {xs bs cs ys : List UInt8}
    (h : bs.length = cs.length) :
    store (store m a (xs ++ (bs ++ ys))) (a + xs.length) cs = store m a (xs ++ (cs ++ ys)) := by
  rw [store_append, store_append, store_append, store_append, h,
    ← store_store_comm (Nat.le_refl (a + xs.length + cs.length)), store_store_same h]

theorem leVal_append (as bs : List UInt8) :
    leVal (as ++ bs) = leVal as + 256 ^ as.length * leVal bs := by
  induction as with
  | nil => simp [leVal]
  | cons a as ih =>
    simp only [List.cons_append, leVal, ih, List.length_cons, pow_succ]
    ring

theorem leBytes_append (m n v : ℕ) :
    leBytes (m + n) v = leBytes m v ++ leBytes n (v / 256 ^ m) := by
  induction m generalizing v with
  | zero => simp [leBytes]
  | succ m ih =>
    rw [Nat.succ_add, leBytes, leBytes, ih, Nat.div_div_eq_div_mul, ← pow_succ', List.cons_append]

theorem leBytes_xor (n v w : ℕ) : leBytes n (v ^^^ w) = xorBytes (leBytes n v) (leBytes n w) := by
  induction n generalizing v w with
  | zero => rfl
  | succ n ih =>
    have hbyte : UInt8.ofNat (v ^^^ w) = UInt8.ofNat v ^^^ UInt8.ofNat w := by
      apply UInt8.toNat_inj.mp
      rw [UInt8.toNat_xor, UInt8.toNat_ofNat', UInt8.toNat_ofNat', UInt8.toNat_ofNat']
      exact Nat.xor_mod_two_pow
    have hrest : (v ^^^ w) / 256 = v / 256 ^^^ w / 256 := Nat.xor_div_two_pow (n := 8)
    rw [leBytes, leBytes, leBytes, hbyte, hrest, ih]
    rfl

theorem xorBytes_append {as bs as' bs' : List UInt8} (h : as.length = bs.length) :
    xorBytes (as ++ as') (bs ++ bs') = xorBytes as bs ++ xorBytes as' bs' :=
  List.zipWith_append h

def asciiBytes (s : String) : List UInt8 := s.toList.map fun c => UInt8.ofNat c.toNat

/-- The `n` low bytes of `v`, most significant first. -/
def beBytes (n v : ℕ) : List UInt8 := (leBytes n v).reverse

@[simp] theorem length_beBytes (n v : ℕ) : (beBytes n v).length = n := by simp [beBytes]

/-- The number that a list of bytes, most significant first, spells. -/
def beVal (bs : List UInt8) : ℕ := leVal bs.reverse

theorem beVal_beBytes (n v : ℕ) : beVal (beBytes n v) = v % 256 ^ n := by
  rw [beVal, beBytes, List.reverse_reverse, leVal_leBytes]

theorem beBytes_inj {n v w : ℕ} (hv : v < 256 ^ n) (hw : w < 256 ^ n)
    (h : beBytes n v = beBytes n w) : v = w := by
  have hb : beVal (beBytes n v) = beVal (beBytes n w) := congrArg beVal h
  rwa [beVal_beBytes, beVal_beBytes, Nat.mod_eq_of_lt hv, Nat.mod_eq_of_lt hw] at hb

/-! ## Chunks of one length -/

section
variable {α : Type*} {w n : ℕ}

theorem length_flatMap_range {f : ℕ → List α} (h : ∀ i < n, (f i).length = w) :
    ((List.range n).flatMap f).length = n * w := by
  induction n with
  | zero => simp
  | succ n ih =>
    have hrest := ih fun i hi => h i (by omega)
    rw [List.range_succ, List.flatMap_append, List.length_append, hrest, List.flatMap_singleton,
      h n (by omega), Nat.succ_mul]

theorem take_drop_flatMap_range {f : ℕ → List α} (h : ∀ i < n, (f i).length = w) {i : ℕ}
    (hi : i < n) : (((List.range n).flatMap f).drop (i * w)).take w = f i := by
  induction n generalizing f i with
  | zero => exact absurd hi (Nat.not_lt_zero i)
  | succ n ih =>
    rw [List.range_succ_eq_map, List.flatMap_cons, List.flatMap_map]
    cases i with
    | zero =>
      rw [Nat.zero_mul, List.drop_zero]
      exact List.take_left' (h 0 (by omega))
    | succ i =>
      rw [Nat.succ_mul, Nat.add_comm, ← List.drop_drop, List.drop_left' (h 0 (by omega))]
      exact ih (fun j hj => h (j + 1) (by omega)) (by omega)

theorem flatMap_range_take_drop {bs : List α} (h : bs.length = n * w) :
    (List.range n).flatMap (fun i => (bs.drop (i * w)).take w) = bs := by
  induction n generalizing bs with
  | zero =>
    rw [Nat.zero_mul] at h
    simp [List.length_eq_zero_iff.mp h]
  | succ n ih =>
    have hrest : (bs.drop w).length = n * w := by
      rw [List.length_drop, h, Nat.succ_mul]
      omega
    have htail := ih hrest
    rw [List.range_succ_eq_map, List.flatMap_cons, List.flatMap_map, Nat.zero_mul, List.drop_zero]
    conv_rhs => rw [← List.take_append_drop w bs, ← htail]
    congr 2
    funext i
    rw [List.drop_drop, Nat.succ_mul, Nat.add_comm]

theorem flatMap_range_load (m : Mem) (a n w : ℕ) :
    ((List.range n).flatMap fun i => load m (a + i * w) w) = load m a (n * w) := by
  rw [← flatMap_range_take_drop (length_load (m := m) (a := a) (n := n * w))]
  apply List.flatMap_congr
  intro i hi
  rw [take_drop_load]
  exact (Nat.succ_mul i w).symm.le.trans (Nat.mul_le_mul_right w (List.mem_range.mp hi))

theorem eq_of_chunks {as bs : List α} (ha : as.length = n * w) (hb : bs.length = n * w)
    (h : ∀ i < n, (as.drop (i * w)).take w = (bs.drop (i * w)).take w) : as = bs := by
  rw [← flatMap_range_take_drop ha, ← flatMap_range_take_drop hb]
  apply List.flatMap_congr
  intro i hi
  exact h i (List.mem_range.mp hi)

end

/-! ## Filling up to a length -/

section
variable {α : Type*} {as bs cs : List α} {len : ℕ}

/-- A string with as much of another behind it as fits into a length. -/
def fillTo (len : ℕ) (as bs : List α) : List α := as ++ bs.take (len - as.length)

@[simp] theorem fillTo_nil : fillTo len as [] = as := by simp [fillTo]

@[simp] theorem nil_fillTo : fillTo len [] bs = bs.take len := by simp [fillTo]

theorem fillTo_of_le (h : len ≤ as.length) : fillTo len as bs = as := by
  simp [fillTo, Nat.sub_eq_zero_of_le h]

theorem fillTo_fillTo : fillTo len (fillTo len as bs) cs = fillTo len as (bs ++ cs) := by
  have hroom : len - (as ++ bs.take (len - as.length)).length = len - as.length - bs.length := by
    rw [List.length_append, List.length_take]
    omega
  rw [fillTo, fillTo, fillTo, hroom, List.take_append, List.append_assoc]

end

end ByteMem
