import Mathlib.Data.List.GetD
import Mathlib.Data.List.Range
import Mathlib.Logic.Function.Basic

/-! # Writing into a buffer on the stack

A buffer and the memory behind it, written through a cursor or at an offset. Nothing
checks the size of the buffer: a write behind its end is done, and recorded.
-/

structure ByteWriter where
  size : ℕ
  mem : ℕ → UInt8
  cursor : ℕ
  /-- The offsets of the writes behind the end, in their order. -/
  stray : List ℕ

namespace ByteWriter

/-- A buffer that is cleared, with the stack behind it. -/
def cleared (size : ℕ) (stack : ℕ → UInt8) : ByteWriter where
  size := size
  mem k := if k < size then 0 else stack k
  cursor := 0
  stray := []

variable (w : ByteWriter)

def put (k : ℕ) (v : UInt8) : ByteWriter :=
  { w with
    mem := Function.update w.mem k v
    stray := if k < w.size then w.stray else w.stray ++ [k] }

def skip (n : ℕ) : ByteWriter := { w with cursor := w.cursor + n }

def push (v : UInt8) : ByteWriter := (w.put w.cursor v).skip 1

def pushAll (vs : List UInt8) : ByteWriter := vs.foldl push w

/-- What was written behind the end has changed the cursor, and the memory there is another. -/
def overrun (cursor : ℕ) (behind : ℕ → UInt8) : ByteWriter :=
  { w with cursor := cursor, mem := fun k => if k < w.size then w.mem k else behind k }

/-- The bytes up to the cursor. -/
def written : List UInt8 := (List.range w.cursor).map w.mem

variable {w} {k : ℕ} {v : UInt8}

@[simp] theorem length_written : w.written.length = w.cursor := by simp [written]

section

variable {size : ℕ} {stack : ℕ → UInt8}

@[simp] theorem size_cleared : (cleared size stack).size = size := rfl

@[simp] theorem cursor_cleared : (cleared size stack).cursor = 0 := rfl

@[simp] theorem stray_cleared : (cleared size stack).stray = [] := rfl

@[simp] theorem written_cleared : (cleared size stack).written = [] := rfl

theorem mem_cleared (hk : k < size) : (cleared size stack).mem k = 0 := if_pos hk

end

@[simp] theorem size_put : (w.put k v).size = w.size := rfl

@[simp] theorem cursor_put : (w.put k v).cursor = w.cursor := rfl

@[simp] theorem written_put : (w.put k v).written = w.written.set k v := by
  refine List.ext_getElem (by simp) fun j hj _ => ?_
  have hj' : j < w.cursor := by simpa using hj
  rw [List.getElem_set]
  split
  · next h => simp [written, put, h]
  · next h => simp [written, put, Function.update_of_ne (Ne.symm h)]

theorem stray_put (hk : k < w.size) : (w.put k v).stray = w.stray := if_pos hk

theorem getD_written (hk : k < w.cursor) : w.written.getD k 0 = w.mem k := by
  rw [List.getD_eq_getElem _ _ (by simpa using hk)]
  simp [written]

section

variable {n : ℕ} {behind : ℕ → UInt8}

@[simp] theorem stray_overrun : (w.overrun n behind).stray = w.stray := rfl

@[simp] theorem size_overrun : (w.overrun n behind).size = w.size := rfl

theorem written_overrun (hsize : w.size ≤ w.cursor) :
    (w.overrun n behind).written =
      (List.range n).map fun k => if k < w.size then w.written.getD k 0 else behind k := by
  refine List.map_congr_left fun k _ => ?_
  by_cases hk : k < w.size
  · rw [if_pos hk, getD_written (hk.trans_le hsize)]
    exact if_pos hk
  · rw [if_neg hk]
    exact if_neg hk

theorem put_overrun (hk : k < w.size) :
    (w.overrun n behind).put k v = (w.put k v).overrun n behind := by
  have hmem : Function.update (w.overrun n behind).mem k v =
      fun j => if j < w.size then Function.update w.mem k v j else behind j := by
    funext j
    rcases eq_or_ne j k with rfl | hj
    · rw [Function.update_self, Function.update_self, if_pos hk]
    · rw [Function.update_of_ne hj, Function.update_of_ne hj]
      rfl
  rw [put, hmem]
  rfl

end

@[simp] theorem stray_skip {n : ℕ} : (w.skip n).stray = w.stray := rfl

@[simp] theorem written_skip {n : ℕ} :
    (w.skip n).written = w.written ++ (List.range n).map fun j => w.mem (w.cursor + j) := by
  simp [written, skip, List.range_add]

@[simp] theorem written_push : (w.push v).written = w.written ++ [v] := by
  refine (written_skip (w := w.put w.cursor v)).trans ?_
  rw [written_put, List.set_eq_of_length_le (by simp)]
  simp [put]

section

variable (vs : List UInt8)

@[simp] theorem pushAll_pushAll (us : List UInt8) :
    (w.pushAll vs).pushAll us = w.pushAll (vs ++ us) := (List.foldl_append ..).symm

@[simp] theorem size_pushAll : (w.pushAll vs).size = w.size := by
  induction vs generalizing w with
  | nil => rfl
  | cons v vs ih => exact ih (w := w.push v)

@[simp] theorem cursor_pushAll : (w.pushAll vs).cursor = w.cursor + vs.length := by
  induction vs generalizing w with
  | nil => rfl
  | cons v vs ih =>
    refine (ih (w := w.push v)).trans ?_
    simp only [push, skip, cursor_put, List.length_cons]
    omega

@[simp] theorem written_pushAll : (w.pushAll vs).written = w.written ++ vs := by
  induction vs generalizing w with
  | nil => exact (List.append_nil _).symm
  | cons v vs ih => exact (ih (w := w.push v)).trans (by simp)

theorem mem_pushAll (hk : w.cursor + vs.length ≤ k) : (w.pushAll vs).mem k = w.mem k := by
  induction vs generalizing w with
  | nil => rfl
  | cons v vs ih =>
    rw [List.length_cons] at hk
    refine (ih (w := w.push v) (by simp only [push, skip, cursor_put]; omega)).trans ?_
    exact Function.update_of_ne (by omega) _ _

theorem written_put_skip {j n : ℕ} (hzero : ∀ m < n, w.mem (w.cursor + m) = 0) :
    ((w.put (w.cursor + j) v).skip n).written = w.written ++ (List.replicate n 0).set j v := by
  rw [written_skip, written_put, List.set_eq_of_length_le (by simp), cursor_put]
  refine congrArg _ (List.ext_getElem (by simp) fun m hm _ => ?_)
  have hm' : m < n := by simpa using hm
  rw [List.getElem_map, List.getElem_range, List.getElem_set, List.getElem_replicate]
  split
  · next h => exact h ▸ Function.update_self ..
  · next h => exact (Function.update_of_ne (by omega) ..).trans (hzero m hm')

theorem stray_pushAll :
    (w.pushAll vs).stray = w.stray ++
      List.range' (max w.size w.cursor) (w.cursor + vs.length - max w.size w.cursor) := by
  induction vs generalizing w with
  | nil => simp [pushAll, Nat.sub_eq_zero_of_le (Nat.le_max_right w.size w.cursor)]
  | cons v vs ih =>
    refine (ih (w := w.push v)).trans ?_
    simp only [push, skip, size_put, cursor_put, List.length_cons]
    by_cases hk : w.cursor < w.size
    · rw [put, if_pos hk, Nat.max_eq_left (by omega), Nat.max_eq_left (by omega),
        Nat.add_right_comm, Nat.add_assoc]
    · rw [put, if_neg hk, Nat.max_eq_right (by omega), Nat.max_eq_right (by omega),
        List.append_assoc, Nat.add_sub_cancel_left, Nat.add_sub_cancel_left, List.range'_succ]
      rfl

end

end ByteWriter
