import StyxOS.Library.Bytes

/-! # Layouts of fixed size

A layout writes the values of a type as byte strings of one size and reads
them back from the front of any byte string. Layouts of structures are put
together from those of their fields, with the padding between them.
-/

namespace ByteMem

/-- A byte string of a given length. -/
abbrev Bytes (n : ℕ) := {b : List UInt8 // b.length = n}

namespace Bytes

variable {n : ℕ}

def zero (n : ℕ) : Bytes n := ⟨List.replicate n 0, List.length_replicate⟩

/-- The first `n` bytes of a string, padded with zeros. -/
def ofList (n : ℕ) (bs : List UInt8) : Bytes n :=
  ⟨(bs ++ List.replicate n 0).take n, by simp⟩

theorem val_ofList (bs : List UInt8) : (ofList n bs).1 = (bs ++ List.replicate n 0).take n := rfl

theorem ofList_append (b : Bytes n) (rest : List UInt8) : ofList n (b.1 ++ rest) = b := by
  apply Subtype.ext
  simp [ofList, List.append_assoc, b.2]

theorem ofList_of_length {bs : List UInt8} (h : bs.length = n) : ofList n bs = ⟨bs, h⟩ := by
  have ha := ofList_append (⟨bs, h⟩ : Bytes n) []
  rwa [List.append_nil] at ha

end Bytes

/-- A byte representation of constant size with a reader that ignores what follows. -/
structure Layout (α : Type*) where
  size : ℕ
  encode : α → List UInt8
  decode : List UInt8 → α
  length_encode : ∀ a, (encode a).length = size
  decode_encode : ∀ a rest, decode (encode a ++ rest) = a
  decode_append : ∀ bs rest, size ≤ bs.length → decode (bs ++ rest) = decode bs

namespace Layout

variable {α β γ : Type*}

def le32 : Layout UInt32 where
  size := 4
  encode w := leBytes 4 w.toNat
  decode bs := UInt32.ofNat (leVal (bs.take 4))
  length_encode w := length_leBytes 4 w.toNat
  decode_encode w rest := by
    have hw : w.toNat < 256 ^ 4 := w.toNat_lt
    rw [List.take_left' (length_leBytes 4 w.toNat), leVal_leBytes, Nat.mod_eq_of_lt hw,
      UInt32.ofNat_toNat]
  decode_append bs rest h := by rw [List.take_append_of_le_length h]

def le64 : Layout UInt64 where
  size := 8
  encode w := leBytes 8 w.toNat
  decode bs := UInt64.ofNat (leVal (bs.take 8))
  length_encode w := length_leBytes 8 w.toNat
  decode_encode w rest := by
    have hw : w.toNat < 256 ^ 8 := w.toNat_lt
    rw [List.take_left' (length_leBytes 8 w.toNat), leVal_leBytes, Nat.mod_eq_of_lt hw,
      UInt64.ofNat_toNat]
  decode_append bs rest h := by rw [List.take_append_of_le_length h]

def bytes (n : ℕ) : Layout (Bytes n) where
  size := n
  encode b := b.1
  decode := Bytes.ofList n
  length_encode b := b.2
  decode_encode b rest := Bytes.ofList_append b rest
  decode_append bs rest h := by
    apply Subtype.ext
    rw [Bytes.val_ofList, Bytes.val_ofList, List.append_assoc, List.take_append_of_le_length h,
      List.take_append_of_le_length h]

/-- A value followed by `n` bytes of padding. -/
def padded (L : Layout α) (n : ℕ) : Layout α where
  size := L.size + n
  encode a := L.encode a ++ List.replicate n 0
  decode := L.decode
  length_encode a := by simp [L.length_encode]
  decode_encode a rest := by rw [List.append_assoc, L.decode_encode]
  decode_append bs rest h := L.decode_append bs rest (by omega)

def pair (L : Layout α) (M : Layout β) : Layout (α × β) where
  size := L.size + M.size
  encode x := L.encode x.1 ++ M.encode x.2
  decode bs := (L.decode bs, M.decode (bs.drop L.size))
  length_encode x := by simp [L.length_encode, M.length_encode]
  decode_encode x rest := by
    rw [List.append_assoc, L.decode_encode, List.drop_left' (L.length_encode x.1), M.decode_encode]
  decode_append bs rest h := by
    rw [L.decode_append bs rest (by omega), List.drop_append_of_le_length (by omega),
      M.decode_append _ rest (by simp; omega)]

/-- A structure laid out as a tuple of its fields. -/
def iso (L : Layout α) (ofTuple : α → β) (toTuple : β → α)
    (h : ∀ b, ofTuple (toTuple b) = b) : Layout β where
  size := L.size
  encode b := L.encode (toTuple b)
  decode bs := ofTuple (L.decode bs)
  length_encode b := L.length_encode (toTuple b)
  decode_encode b rest := by rw [L.decode_encode, h]
  decode_append bs rest hl := by rw [L.decode_append bs rest hl]

/-! ## Arrays of records -/

variable (L : Layout α)

def encodeList (as : List α) : List UInt8 := as.flatMap L.encode

/-- The `n` records at the front of a byte string. -/
def decodeList (n : ℕ) (bs : List UInt8) : List α :=
  (List.range n).map fun i => L.decode (bs.drop (i * L.size))

@[simp] theorem length_decodeList (n : ℕ) (bs : List UInt8) : (L.decodeList n bs).length = n := by
  simp [decodeList]

@[simp] theorem length_encodeList (as : List α) :
    (L.encodeList as).length = as.length * L.size := by
  induction as with
  | nil => simp [encodeList]
  | cons a as ih =>
    rw [encodeList, List.flatMap_cons, List.length_append, L.length_encode, ← encodeList, ih,
      List.length_cons, Nat.add_mul, Nat.one_mul, Nat.add_comm]

theorem decodeList_encodeList (as : List α) (rest : List UInt8) :
    L.decodeList as.length (L.encodeList as ++ rest) = as := by
  induction as with
  | nil => rfl
  | cons a as ih =>
    have hdrop : ∀ i, (L.encodeList (a :: as) ++ rest).drop ((i + 1) * L.size) =
        (L.encodeList as ++ rest).drop (i * L.size) := by
      intro i
      rw [encodeList, List.flatMap_cons, List.append_assoc, Nat.add_mul, Nat.one_mul, Nat.add_comm,
        ← List.drop_drop, List.drop_left' (L.length_encode a), encodeList]
    have hhead : L.decode (L.encodeList (a :: as) ++ rest) = a := by
      rw [encodeList, List.flatMap_cons, List.append_assoc, L.decode_encode]
    rw [decodeList, List.length_cons, List.range_succ_eq_map, List.map_cons, List.map_map,
      Nat.zero_mul, List.drop_zero, hhead]
    congr 1
    simp only [Function.comp_def, Nat.succ_eq_add_one, hdrop]
    exact ih

end Layout

end ByteMem
