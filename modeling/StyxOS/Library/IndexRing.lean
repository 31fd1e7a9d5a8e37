import Mathlib.Data.List.Basic

/-! # A ring between two indices

`cap` slots, a head where the consumer takes and a tail where the producer puts.
The ring is empty where head and tail are equal, so it can hold one item less
than it has slots.
-/

namespace IndexRing

variable {β : Type*} (cap : ℕ) (slot : ℕ → β) (head tail : ℕ)

def next (i : ℕ) : ℕ := (i + 1) % cap

/-- The number of slots from head up to tail. -/
def count : ℕ := if head ≤ tail then tail - head else tail + cap - head

def window : List β := (List.range (count cap head tail)).map fun i => slot ((head + i) % cap)

variable {cap slot head tail}

theorem next_cases {i : ℕ} (hi : i < cap) :
    next cap i = i + 1 ∧ i + 1 < cap ∨ next cap i = 0 ∧ i + 1 = cap := by
  rcases Nat.lt_or_eq_of_le (Nat.succ_le_of_lt hi) with h | h
  · exact Or.inl ⟨Nat.mod_eq_of_lt h, h⟩
  · right
    constructor
    · exact (congrArg (· % cap) h).trans (Nat.mod_self cap)
    · exact h

theorem next_lt {i : ℕ} (hi : i < cap) : next cap i < cap :=
  Nat.mod_lt _ (Nat.lt_of_le_of_lt (Nat.zero_le i) hi)

theorem mod_cases {i : ℕ} (hi : i < 2 * cap) :
    i % cap = i ∧ i < cap ∨ i % cap = i - cap ∧ cap ≤ i := by
  rcases Nat.lt_or_ge i cap with h | h
  · exact Or.inl ⟨Nat.mod_eq_of_lt h, h⟩
  · right
    constructor
    · rw [Nat.mod_eq_sub_mod h, Nat.mod_eq_of_lt (by omega)]
    · exact h

theorem count_cases (cap head tail : ℕ) :
    head ≤ tail ∧ count cap head tail = tail - head ∨
      tail < head ∧ count cap head tail = tail + cap - head := by
  rcases Nat.lt_or_ge tail head with h | h
  · exact Or.inr ⟨h, if_neg (Nat.not_le_of_gt h)⟩
  · exact Or.inl ⟨h, if_pos h⟩

theorem count_lt (hh : head < cap) (ht : tail < cap) : count cap head tail < cap := by
  rcases count_cases cap head tail with h | h <;> omega

theorem slot_ne_tail {i : ℕ} (hh : head < cap) (ht : tail < cap) (hi : i < count cap head tail) :
    (head + i) % cap ≠ tail := by
  have hlt := count_lt hh ht
  rcases mod_cases (show head + i < 2 * cap by omega) with h | h <;>
    rcases count_cases cap head tail with hc | hc <;> omega

theorem window_congr {slot' : ℕ → β} (hh : head < cap) (ht : tail < cap)
    (h : ∀ i, i ≠ tail → slot' i = slot i) :
    window cap slot' head tail = window cap slot head tail :=
  List.map_congr_left fun _ hi => h _ (slot_ne_tail hh ht (List.mem_range.mp hi))

@[simp] theorem window_self : window cap slot head head = [] := by
  simp [window, count]

@[simp] theorem length_window : (window cap slot head tail).length = count cap head tail := by
  simp [window]

theorem next_tail_eq_head_iff (hh : head < cap) (ht : tail < cap) :
    next cap tail = head ↔ ¬ count cap head tail < cap - 1 := by
  rcases next_cases ht with hn | hn <;> rcases count_cases cap head tail with hc | hc <;> omega

theorem window_next_tail (hh : head < cap) (ht : tail < cap) (hne : next cap tail ≠ head) :
    window cap slot head (next cap tail) = window cap slot head tail ++ [slot tail] := by
  have hcount : count cap head (next cap tail) = count cap head tail + 1 := by
    rcases next_cases ht with hn | hn <;> rcases count_cases cap head tail with hc | hc <;>
      rcases count_cases cap head (next cap tail) with hc' | hc' <;> omega
  have hend : (head + count cap head tail) % cap = tail := by
    have hlt := count_lt hh ht
    rcases mod_cases (show head + count cap head tail < 2 * cap by omega) with h | h <;>
      rcases count_cases cap head tail with hc | hc <;> omega
  simp only [window, hcount, List.range_succ, List.map_append, List.map_cons, List.map_nil, hend]

theorem window_next_head (hh : head < cap) (ht : tail < cap) (hne : head ≠ tail) :
    window cap slot head tail = slot head :: window cap slot (next cap head) tail := by
  have hcount : count cap head tail = count cap (next cap head) tail + 1 := by
    rcases next_cases hh with hn | hn <;> rcases count_cases cap head tail with hc | hc <;>
      rcases count_cases cap (next cap head) tail with hc' | hc' <;> omega
  have hmod : ∀ i, (head + (i + 1)) % cap = (next cap head + i) % cap := by
    intro i
    rw [next, Nat.mod_add_mod]
    congr 1
    omega
  simp only [window, hcount, List.range_succ_eq_map, List.map_cons, List.map_map, Nat.add_zero,
    Nat.mod_eq_of_lt hh, Function.comp_def, Nat.succ_eq_add_one, hmod]

end IndexRing
