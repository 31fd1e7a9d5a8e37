import Mathlib.Logic.Function.Basic
import Mathlib.Data.List.Basic

/-! # Configuration registers

A register of 32 bits some of which can be written, and some of which are cleared by writing ones.
The size of what a base address register describes is read off by writing ones to it; writing back
what was there restores it if it has no bits of the second kind.
-/

namespace ConfigSpace

def bit (x : UInt32) (i : ℕ) : Bool := x.toBitVec.getLsbD i

theorem bit_and (x y : UInt32) (i : ℕ) : bit (x &&& y) i = (bit x i && bit y i) :=
  BitVec.getLsbD_and

theorem bit_or (x y : UInt32) (i : ℕ) : bit (x ||| y) i = (bit x i || bit y i) :=
  BitVec.getLsbD_or

theorem bit_not (x : UInt32) {i : ℕ} (hi : i < 32) : bit (~~~x) i = !bit x i := by
  have hnot := BitVec.getLsbD_not (x := x.toBitVec) (i := i)
  rwa [decide_eq_true hi, Bool.true_and] at hnot

theorem bit_zero (i : ℕ) : bit 0 i = false := BitVec.getLsbD_zero

theorem bit_ones {i : ℕ} (hi : i < 32) : bit 0xFFFFFFFF i = true := by
  have hones : (0xFFFFFFFF : UInt32) = ~~~0 := by decide
  rw [hones, bit_not 0 hi, bit_zero, Bool.not_false]

theorem eq_of_bit {x y : UInt32} (h : ∀ i < 32, bit x i = bit y i) : x = y :=
  UInt32.toBitVec_inj.mp (BitVec.eq_of_getLsbD_eq fun i hi => h i hi)

/-- The bits in `latched` are set by the device and cleared by writing ones to them. -/
structure Register where
  value : UInt32
  writable : UInt32
  latched : UInt32
  disjoint : writable &&& latched = 0

namespace Register

/-- What a write makes of the value. -/
def write (r : Register) (v : UInt32) : Register :=
  { r with value := (r.value &&& ~~~r.writable ||| v &&& r.writable) &&& ~~~(v &&& r.latched) }

variable {r : Register}

theorem bit_latched {i : ℕ} (h : bit r.writable i = true) : bit r.latched i = false := by
  have hboth := bit_and r.writable r.latched i
  rw [r.disjoint, bit_zero, h, Bool.true_and] at hboth
  exact hboth.symm

theorem bit_write (r : Register) (v : UInt32) {i : ℕ} (hi : i < 32) :
    bit (r.write v).value i = if bit r.writable i then bit v i
      else bit r.value i && !(bit v i && bit r.latched i) := by
  have hvalue : (r.write v).value =
    (r.value &&& ~~~r.writable ||| v &&& r.writable) &&& ~~~(v &&& r.latched) := rfl
  rw [hvalue, bit_and, bit_or, bit_and, bit_and, bit_not _ hi, bit_not _ hi, bit_and]
  by_cases hw : bit r.writable i
  · simp [hw, bit_latched hw]
  · simp [hw]

theorem write_write (h : r.latched = 0) (v : UInt32) : (r.write v).write r.value = r := by
  have hvalue : ((r.write v).write r.value).value = r.value := by
    refine eq_of_bit fun i hi => ?_
    have hlatched : bit (r.write v).latched i = false := by
      change bit r.latched i = false
      rw [h, bit_zero]
    have hsame : bit (r.write v).writable i = bit r.writable i := rfl
    rw [bit_write _ _ hi, bit_write _ _ hi, hlatched, hsame, h, bit_zero]
    by_cases hw : bit r.writable i <;> simp [hw]
  cases r
  exact congrArg (fun x => Register.mk x _ _ _) hvalue

theorem write_ones (h : r.latched = 0) : (r.write 0xFFFFFFFF).value = r.value ||| r.writable := by
  refine eq_of_bit fun i hi => ?_
  rw [bit_write _ _ hi, bit_ones hi, h, bit_zero, bit_or]
  by_cases hw : bit r.writable i <;> simp [hw]

end Register

/-- The first element that passes a test which also changes a state, and what is made of it. -/
def findM {α β σ : Type*} (test : α → σ → Bool × σ) (found : α → σ → β × σ) :
    List α → σ → Option β × σ
  | [], s => (none, s)
  | a :: as, s =>
    let (ok, s) := test a s
    if ok then
      let (b, s) := found a s
      (some b, s)
    else findM test found as s

/-- A search whose tests and whose reading of the result leave a view of the state alone comes to
the first element that passes. -/
theorem findM_spec {α β σ τ : Type*} {test : α → σ → Bool × σ} {found : α → σ → β × σ}
    {view : σ → τ} {v : τ} {p : α → Bool} {R : α → β → Prop} {as : List α}
    (htest : ∀ a ∈ as, ∀ s, view s = v → (test a s).1 = p a ∧ view (test a s).2 = v)
    (hfound : ∀ a ∈ as, ∀ s, view s = v → p a = true → R a (found a s).1 ∧ view (found a s).2 = v)
    {s : σ} (hs : view s = v) :
    view (findM test found as s).2 = v ∧
      ((findM test found as s).1 = none ∧ (∀ a ∈ as, p a = false) ∨
        ∃ before a after b, as = before ++ a :: after ∧ (∀ x ∈ before, p x = false) ∧ p a = true ∧
          R a b ∧ (findM test found as s).1 = some b) := by
  induction as generalizing s with
  | nil => exact ⟨hs, .inl ⟨rfl, fun a ha => absurd ha List.not_mem_nil⟩⟩
  | cons a as ih =>
    obtain ⟨hok, hview⟩ := htest a List.mem_cons_self s hs
    rw [findM]
    dsimp only
    rw [hok]
    by_cases hp : p a = true
    · obtain ⟨hb, hview'⟩ := hfound a List.mem_cons_self _ hview hp
      rw [if_pos hp]
      exact ⟨hview', .inr ⟨[], a, as, _, rfl, fun x hx => absurd hx List.not_mem_nil, hp, hb, rfl⟩⟩
    · rw [if_neg hp]
      have hfalse : p a = false := Bool.eq_false_iff.mpr hp
      obtain ⟨hview', hnone | ⟨before, a', after, b, has, hbefore, hp', hb, hresult⟩⟩ :=
        ih (fun x hx => htest x (List.mem_cons_of_mem a hx))
          (fun x hx => hfound x (List.mem_cons_of_mem a hx)) hview
      · exact ⟨hview', .inl ⟨hnone.1, List.forall_mem_cons.mpr ⟨hfalse, hnone.2⟩⟩⟩
      · exact ⟨hview', .inr ⟨a :: before, a', after, b, congrArg (a :: ·) has,
          List.forall_mem_cons.mpr ⟨hfalse, hbefore⟩, hp', hb, hresult⟩⟩

end ConfigSpace
