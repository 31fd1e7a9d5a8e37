import Mathlib.Tactic

/-! # Iterated hashes

A message is hashed by compressing its blocks in order, from an initial state.
Symbols taken in one at a time are gathered until they make up a block. What
has been compressed and what is still gathered depend on the message alone.
-/

namespace BlockHash

variable {σ α : Type*} (compress : σ → List α → σ) (w : ℕ)

/-- Block `i` of a message. -/
def block (m : List α) (i : ℕ) : List α := (m.drop (i * w)).take w

/-- The state after the whole blocks of a message. -/
def fold (s : σ) (m : List α) : σ :=
  (List.range (m.length / w)).foldl (fun s i => compress s (block w m i)) s

/-- The symbols of a message behind its whole blocks. -/
def rest (m : List α) : List α := m.drop (m.length / w * w)

/-- A symbol joins those gathered, and a whole block is compressed. -/
def absorb (p : σ × List α) (x : α) : σ × List α :=
  if (p.2 ++ [x]).length = w then (compress p.1 (p.2 ++ [x]), []) else (p.1, p.2 ++ [x])

variable {compress w} {s : σ} {m b : List α}

theorem block_append_left {i : ℕ} (h : (i + 1) * w ≤ m.length) :
    block w (m ++ b) i = block w m i := by
  rw [Nat.succ_mul] at h
  rw [block, block, List.drop_append_of_le_length (by omega),
    List.take_append_of_le_length (by rw [List.length_drop]; omega)]

theorem block_append_right {n i : ℕ} (h : m.length = n * w) :
    block w (m ++ b) (n + i) = block w b i := by
  have hdrop : (n + i) * w = m.length + i * w := by rw [h, Nat.add_mul]
  rw [block, block, hdrop, ← List.drop_drop, List.drop_left]

theorem fold_append (h : w ∣ m.length) :
    fold compress w s (m ++ b) = fold compress w (fold compress w s m) b := by
  obtain rfl | hw := Nat.eq_zero_or_pos w
  · simp [fold]
  have hn : m.length = m.length / w * w := (Nat.div_mul_cancel h).symm
  have hcount : (m ++ b).length / w = m.length / w + b.length / w := by
    rw [List.length_append, Nat.add_div_of_dvd_right h]
  have hleft : (List.range (m.length / w)).foldl (fun s i => compress s (block w (m ++ b) i)) s =
      fold compress w s m := by
    apply List.foldl_ext
    intro s i hi
    have hle : (i + 1) * w ≤ m.length / w * w := Nat.mul_le_mul_right w (List.mem_range.mp hi)
    rw [block_append_left (hle.trans hn.symm.le)]
  rw [fold, hcount, List.range_add, List.foldl_append, List.foldl_map, hleft]
  apply List.foldl_ext
  intro s i _
  rw [block_append_right hn]

theorem fold_of_lt (h : m.length < w) : fold compress w s m = s := by
  simp [fold, Nat.div_eq_of_lt h]

theorem fold_of_length_eq (hw : 0 < w) (h : m.length = w) :
    fold compress w s m = compress s m := by
  simp [fold, block, h, Nat.div_self hw, List.take_of_length_le h.le]

theorem whole_append_rest (m : List α) : m.take (m.length / w * w) ++ rest w m = m :=
  List.take_append_drop _ m

theorem length_whole (m : List α) : (m.take (m.length / w * w)).length = m.length / w * w :=
  List.length_take_of_le (Nat.div_mul_le_self m.length w)

theorem length_rest (m : List α) : (rest w m).length = m.length % w := by
  have hdiv := Nat.div_add_mod' m.length w
  rw [rest, List.length_drop]
  omega

theorem fold_append_rest (hw : 0 < w) (m b : List α) :
    fold compress w s (m ++ b) = fold compress w (fold compress w s m) (rest w m ++ b) := by
  have hdvd : w ∣ (m.take (m.length / w * w)).length := by
    rw [length_whole]
    exact Nat.dvd_mul_left w _
  have hlt : (rest w m).length < w := length_rest m ▸ Nat.mod_lt m.length hw
  have hwhole : fold compress w s m = fold compress w s (m.take (m.length / w * w)) := by
    conv_lhs => rw [← whole_append_rest (w := w) m, fold_append hdvd, fold_of_lt hlt]
  conv_lhs => rw [← whole_append_rest (w := w) m, List.append_assoc, fold_append hdvd]
  rw [hwhole]

theorem rest_concat (m : List α) (x : α) :
    rest w (m ++ [x]) = if (m.length + 1) % w = 0 then [] else rest w m ++ [x] := by
  have hdiv := Nat.div_add_mod' m.length w
  by_cases h : (m.length + 1) % w = 0
  · have hall : (m.length + 1) / w * w = m.length + 1 :=
      Nat.div_mul_cancel (Nat.dvd_of_mod_eq_zero h)
    rw [if_pos h, rest, List.length_append, List.length_singleton, hall]
    simp
  · have hsame : (m.length + 1) / w = m.length / w :=
      Nat.succ_div_of_not_dvd fun hd => h (Nat.mod_eq_zero_of_dvd hd)
    rw [if_neg h, rest, List.length_append, List.length_singleton, hsame,
      List.drop_append_of_le_length (Nat.div_mul_le_self m.length w), rest]

theorem absorb_fold (hw : 0 < w) (m : List α) (x : α) :
    absorb compress w (fold compress w s m, rest w m) x =
      (fold compress w s (m ++ [x]), rest w (m ++ [x])) := by
  have hlen : (rest w m ++ [x]).length = m.length % w + 1 := by
    rw [List.length_append, length_rest, List.length_singleton]
  have hlt := Nat.mod_lt m.length hw
  have hmod : (m.length + 1) % w = 0 ↔ m.length % w + 1 = w := by
    rw [Nat.add_mod]
    constructor
    · intro h
      by_contra hne
      have h1 : m.length % w + 1 < w := by omega
      rw [← Nat.add_mod, ← Nat.mod_add_mod, Nat.mod_eq_of_lt h1] at h
      omega
    · intro h
      rw [← Nat.add_mod, ← Nat.mod_add_mod, h, Nat.mod_self]
  rw [absorb, hlen, rest_concat, fold_append_rest hw m [x]]
  by_cases h : m.length % w + 1 = w
  · rw [if_pos h, if_pos (hmod.mpr h), fold_of_length_eq hw (hlen.trans h)]
  · have hshort : (rest w m ++ [x]).length < w := by omega
    rw [if_neg h, if_neg (mt hmod.mp h), fold_of_lt hshort]

theorem foldl_absorb (hw : 0 < w) (m : List α) :
    m.foldl (absorb compress w) (s, []) = (fold compress w s m, rest w m) := by
  induction m using List.reverseRecOn with
  | nil => simp [fold, rest]
  | append_singleton m x ih =>
    rw [List.foldl_append, ih, List.foldl_cons, List.foldl_nil, absorb_fold hw]

end BlockHash
