import StyxOS.Crypto.Gcm
import StyxOS.Library.BitProduct

/-! # GHASH as evaluation of a polynomial

The 16 bytes of a block are read as a polynomial over two elements, the highest
bit of the first byte as the constant term. `ghash_multiply` is the product of
two such polynomials modulo the polynomial of GCM, and `ghash` evaluates the
padded blocks at `H` by Horner's rule.
-/

namespace StyxOS

open ByteMem Polynomial

/-- Bit `i` of a string of bytes, counted from the highest bit of the first byte. -/
def stringBit (bs : List UInt8) (i : ℕ) : Bool := (bs.getD (i / 8) 0).toNat.testBit (7 - i % 8)

/-- The polynomial that a block stands for. -/
noncomputable def blockPoly (bs : List UInt8) : (ZMod 2)[X] :=
  ∑ i ∈ Finset.range 128, if stringBit bs i then X ^ i else 0

/-- The polynomial that products are taken modulo. -/
noncomputable def ghashModulus : (ZMod 2)[X] := X ^ 128 + X ^ 7 + X ^ 2 + X + 1

/-- The number that has the bits of a block in their order. -/
def blockNat (bs : List UInt8) : ℕ := Nat.ofBits fun i : Fin 128 => stringBit bs i

section Bits

variable {as bs v : List UInt8} {b carry : UInt8} {i : ℕ}

theorem stringBit_nil : stringBit [] i = false := by
  rw [stringBit, List.getD_nil]
  exact Nat.zero_testBit _

theorem stringBit_cons :
    stringBit (b :: bs) i = if i < 8 then b.toNat.testBit (7 - i) else stringBit bs (i - 8) := by
  rw [stringBit]
  split
  · rw [Nat.div_eq_of_lt ‹i < 8›, Nat.mod_eq_of_lt ‹i < 8›]
    rfl
  · have hdiv : i / 8 = (i - 8) / 8 + 1 := by omega
    have hmod : i % 8 = (i - 8) % 8 := by omega
    rw [hdiv, hmod]
    rfl

theorem stringBit_xorBytes (h : as.length = bs.length) :
    stringBit (xorBytes as bs) i = (stringBit as i ^^ stringBit bs i) := by
  induction as generalizing bs i with
  | nil =>
    rw [List.length_eq_zero_iff.mp h.symm]
    simp [xorBytes, stringBit_nil]
  | cons a as ih =>
    cases bs with
    | nil => simp at h
    | cons b bs =>
      have hcons : xorBytes (a :: as) (b :: bs) = (a ^^^ b) :: xorBytes as bs := rfl
      rw [hcons, stringBit_cons, stringBit_cons, stringBit_cons]
      split
      · rw [UInt8.toNat_xor, Nat.testBit_xor]
      · exact ih (by simpa using h)

theorem testBit_shifted (hc : carry = 0 ∨ carry = 1) (hi : i < 8) :
    ((b >>> 1) ||| (carry <<< 7)).toNat.testBit (7 - i) =
      if i = 0 then decide (carry ≠ 0) else b.toNat.testBit (7 - (i - 1)) := by
  revert hi i
  refine forall_byte (p := fun b => ∀ {i : ℕ}, i < 8 →
    ((b >>> 1) ||| (carry <<< 7)).toNat.testBit (7 - i) =
      if i = 0 then decide (carry ≠ 0) else b.toNat.testBit (7 - (i - 1))) ?_ b
  rcases hc with rfl | rfl
  · decide +kernel
  · decide +kernel

theorem lowBit_cases (b : UInt8) : b &&& 1 = 0 ∨ b &&& 1 = 1 :=
  forall_byte (p := fun b => b &&& 1 = 0 ∨ b &&& 1 = 1) (by decide +kernel) b

theorem testBit_zero_eq (b : UInt8) : b.toNat.testBit 0 = decide (b &&& 1 ≠ 0) :=
  forall_byte (p := fun b => b.toNat.testBit 0 = decide (b &&& 1 ≠ 0)) (by decide +kernel) b

theorem stringBit_shiftRightCarry (hc : carry = 0 ∨ carry = 1) (hi : i < 8 * v.length) :
    stringBit (shiftRightCarry v carry).1 i =
      if i = 0 then decide (carry ≠ 0) else stringBit v (i - 1) := by
  induction v generalizing carry i with
  | nil => exact absurd hi (Nat.not_lt_zero i)
  | cons b v ih =>
    rw [List.length_cons] at hi
    rw [shiftRightCarry, stringBit_cons, stringBit_cons]
    by_cases h8 : i < 8
    · have h8' : i - 1 < 8 := by omega
      rw [if_pos h8, if_pos h8', testBit_shifted hc h8]
    · have hne : i ≠ 0 := by omega
      rw [if_neg h8, ih (lowBit_cases b) (by omega), if_neg hne]
      by_cases heq : i = 8
      · -- the bit that the byte before hands on
        subst heq
        exact (testBit_zero_eq b).symm
      · have h8' : ¬ i - 1 < 8 := by omega
        have hsub : i - 8 - 1 = i - 1 - 8 := by omega
        have hsub0 : i - 8 ≠ 0 := by omega
        rw [if_neg h8', if_neg hsub0, hsub]

theorem shiftRightCarry_snd (hc : carry = 0 ∨ carry = 1) (hv : v ≠ []) :
    decide ((shiftRightCarry v carry).2 ≠ 0) = stringBit v (8 * v.length - 1) := by
  induction v generalizing carry with
  | nil => exact absurd rfl hv
  | cons b v ih =>
    rw [shiftRightCarry, List.length_cons, stringBit_cons]
    cases v with
    | nil => exact (testBit_zero_eq b).symm
    | cons b' v =>
      have h8 : ¬ 8 * ((b' :: v).length + 1) - 1 < 8 := by rw [List.length_cons]; omega
      have hsub : 8 * ((b' :: v).length + 1) - 1 - 8 = 8 * (b' :: v).length - 1 := by omega
      rw [if_neg h8, hsub]
      exact ih (lowBit_cases b) (List.cons_ne_nil b' v)

theorem stringBit_fold (hv : v ≠ []) :
    stringBit (v.modify 0 (· ^^^ 0xE1)) i = (stringBit v i ^^ (0x87 : ℕ).testBit i) := by
  cases v with
  | nil => exact absurd rfl hv
  | cons b v =>
    rw [List.modify_zero_cons, stringBit_cons, stringBit_cons]
    by_cases h8 : i < 8
    · have hbyte : ∀ j < 8, (0xE1 : UInt8).toNat.testBit (7 - j) = (0x87 : ℕ).testBit j := by decide
      rw [if_pos h8, if_pos h8, UInt8.toNat_xor, Nat.testBit_xor, hbyte i h8]
    · have hsmall : (0x87 : ℕ) < 2 ^ i :=
        (by decide : (0x87 : ℕ) < 2 ^ 8).trans_le (Nat.pow_le_pow_right (by decide) (by omega))
      rw [if_neg h8, if_neg h8, Nat.testBit_lt_two_pow hsmall, Bool.xor_false]

end Bits

/-! ## The product -/

section Product

variable {x y z v w : List UInt8} {i : ℕ}

theorem testBit_blockNat (bs : List UInt8) (i : ℕ) :
    (blockNat bs).testBit i = (decide (i < 128) && stringBit bs i) := by
  rw [blockNat, Nat.testBit_ofBits]
  split <;> simp [*]

theorem blockNat_lt (bs : List UInt8) : blockNat bs < 2 ^ 128 := Nat.ofBits_lt_two_pow _

theorem blockPoly_eq (bs : List UInt8) : blockPoly bs = bitPoly 128 (blockNat bs) := by
  apply Finset.sum_congr rfl
  intro i hi
  rw [testBit_blockNat, decide_eq_true (Finset.mem_range.mp hi), Bool.true_and]

theorem ghashModulus_eq : X ^ 128 + bitPoly 128 0x87 = ghashModulus := by
  delta ghashModulus
  exact add_fold (X ^ 128)

theorem blockNat_xorBytes (h : x.length = y.length) :
    blockNat (xorBytes x y) = blockNat x ^^^ blockNat y := by
  apply Nat.eq_of_testBit_eq
  intro i
  rw [Nat.testBit_xor, testBit_blockNat, testBit_blockNat, testBit_blockNat, stringBit_xorBytes h]
  cases decide (i < 128) <;> rfl

theorem ghash_bit (x : List UInt8) (i : ℕ) :
    x.getD (i / 8) 0 &&& (1 <<< UInt8.ofNat (7 - i % 8)) ≠ 0 ↔ stringBit x i = true := by
  have hbyte : ∀ b : UInt8, ∀ j < 8,
      b &&& (1 <<< UInt8.ofNat (7 - j)) ≠ 0 ↔ b.toNat.testBit (7 - j) = true :=
    forall_byte (by decide +kernel)
  exact hbyte _ _ (Nat.mod_lt i (by decide))

theorem blockNat_shifted (hv : v.length = 16) :
    blockNat (if (shiftRightCarry v 0).2 ≠ 0 then (shiftRightCarry v 0).1.modify 0 (· ^^^ 0xE1)
        else (shiftRightCarry v 0).1) =
      shiftReduce 128 0x87 (blockNat v) := by
  have hne : v ≠ [] := List.ne_nil_of_length_eq_add_one hv
  have hne' : (shiftRightCarry v 0).1 ≠ [] :=
    List.ne_nil_of_length_eq_add_one (by rw [length_shiftRightCarry, hv])
  have hlast := shiftRightCarry_snd (Or.inl rfl) hne
  rw [hv] at hlast
  have hlost : ((shiftRightCarry v 0).2 ≠ 0) = ((blockNat v).testBit (128 - 1) = true) := by
    rw [testBit_blockNat, decide_eq_true (by omega), Bool.true_and, ← hlast, decide_eq_true_eq]
  apply Nat.eq_of_testBit_eq
  intro i
  rw [shiftReduce, Nat.testBit_xor, Nat.testBit_mod_two_pow, testBit_blockNat]
  by_cases hi : i < 128
  · have hshift : stringBit (shiftRightCarry v 0).1 i = (2 * blockNat v).testBit i := by
      rw [stringBit_shiftRightCarry (Or.inl rfl) (by omega)]
      cases i with
      | zero =>
        rw [Nat.testBit_zero, Nat.mul_mod_right]
        rfl
      | succ i =>
        rw [if_neg (Nat.succ_ne_zero i), Nat.testBit_succ, Nat.mul_div_cancel_left _ (by decide),
          testBit_blockNat, decide_eq_true (by omega), Bool.true_and, Nat.add_sub_cancel]
    simp only [hi, decide_true, Bool.true_and, hlost]
    split
    · rw [stringBit_fold hne', hshift]
    · rw [hshift, Nat.zero_testBit, Bool.xor_false]
  · have hbig : (2 : ℕ) ^ 128 ≤ 2 ^ i := Nat.pow_le_pow_right (by decide) (by omega)
    have hfold : (if (blockNat v).testBit (128 - 1) = true then 0x87 else 0).testBit i = false := by
      apply Nat.testBit_lt_two_pow
      split
      · exact (by decide : 0x87 < 2 ^ 128).trans_le hbig
      · exact Nat.two_pow_pos i
    rw [hfold, decide_eq_false hi]
    rfl

theorem blockNat_ghashStep (hz : z.length = 16) (hv : v.length = 16) (hi : i < 128) :
    (blockNat (ghashStep x (z, v) i).1, blockNat (ghashStep x (z, v) i).2) =
      productStep 128 0x87 (blockNat x) (blockNat z, blockNat v) i := by
  have hbit : (x.getD (i / 8) 0 &&& (1 <<< UInt8.ofNat (7 - i % 8)) ≠ 0) =
      ((blockNat x).testBit i = true) := by
    rw [testBit_blockNat, decide_eq_true hi, Bool.true_and]
    exact propext (ghash_bit x i)
  rw [ghashStep, productStep, ← blockNat_shifted hv, ← blockNat_xorBytes (hz.trans hv.symm)]
  simp only [hbit, apply_ite blockNat]

theorem ghash_turns (hy : y.length = 16) {n : ℕ} (hn : n ≤ 128) :
    ((List.range n).foldl (ghashStep x) (List.replicate 16 0, y)).1.length = 16 ∧
      ((List.range n).foldl (ghashStep x) (List.replicate 16 0, y)).2.length = 16 ∧
      (blockNat ((List.range n).foldl (ghashStep x) (List.replicate 16 0, y)).1,
          blockNat ((List.range n).foldl (ghashStep x) (List.replicate 16 0, y)).2) =
        (List.range n).foldl (productStep 128 0x87 (blockNat x)) (0, blockNat y) := by
  induction n with
  | zero =>
    refine ⟨List.length_replicate, hy, ?_⟩
    have hzero : blockNat (List.replicate 16 0) = 0 := by decide +kernel
    rw [List.range_zero, List.foldl_nil, List.foldl_nil, hzero]
  | succ n ih =>
    obtain ⟨hz, hv, hturn⟩ := ih (by omega)
    obtain ⟨hz', hv'⟩ := length_ghashStep (x := x) (i := n) hz hv
    rw [List.range_succ, List.foldl_append, List.foldl_append, ← hturn]
    exact ⟨hz', hv', blockNat_ghashStep hz hv (by omega)⟩

theorem blockNat_ghashMultiply (hy : y.length = 16) :
    blockNat (ghashMultiply x y) = bitProduct 128 0x87 (blockNat x) (blockNat y) := by
  rw [ghashMultiply, bitProduct, ← (ghash_turns hy le_rfl).2.2]

theorem blockPoly_ghashMultiply (hy : y.length = 16) :
    blockPoly (ghashMultiply x y) = (blockPoly x * blockPoly y) %ₘ ghashModulus := by
  rw [blockPoly_eq, blockNat_ghashMultiply hy, bitPoly_bitProduct (by decide), ghashModulus_eq,
    blockPoly_eq, blockPoly_eq]

theorem blockPoly_xorBytes (h : x.length = y.length) :
    blockPoly (xorBytes x y) = blockPoly x + blockPoly y := by
  rw [blockPoly_eq, blockNat_xorBytes h, bitPoly_xor, blockPoly_eq, blockPoly_eq]

theorem blockPoly_inj (hx : x.length = 16) (hy : y.length = 16) (h : blockPoly x = blockPoly y) :
    x = y := by
  rw [blockPoly_eq, blockPoly_eq] at h
  have hnat := bitPoly_inj (blockNat_lt x) (blockNat_lt y) h
  apply List.ext_getElem (hx.trans hy.symm)
  intro k hk _
  rw [← UInt8.toNat_inj]
  apply Nat.eq_of_testBit_eq
  intro j
  by_cases hj : j < 8
  · have hbit := congrArg (fun n => n.testBit (8 * k + (7 - j))) hnat
    have hdiv : (8 * k + (7 - j)) / 8 = k := by omega
    have hmod : 7 - (8 * k + (7 - j)) % 8 = j := by omega
    have hlt : 8 * k + (7 - j) < 128 := by omega
    simp only [testBit_blockNat, hlt, decide_true, Bool.true_and, stringBit, hdiv, hmod] at hbit
    rwa [List.getD_eq_getElem _ _ hk, List.getD_eq_getElem] at hbit
  · have hbig : 2 ^ 8 ≤ 2 ^ j := Nat.pow_le_pow_right (by decide) (by omega)
    rw [Nat.testBit_lt_two_pow ((UInt8.toNat_lt _).trans_le hbig),
      Nat.testBit_lt_two_pow ((UInt8.toNat_lt _).trans_le hbig)]

end Product

/-! ## The hash -/

section Hash

variable {h data x : List UInt8}

/-- The blocks of `data`, the last one padded with zeros. -/
def paddedBlocks (data : List UInt8) : List (List UInt8) :=
  (List.range ((data.length + 15) / 16)).map fun i => paddedBlock data (16 * i)

/-- The blocks that `ghash` takes in: those of the two texts and the block of their lengths. -/
def ghashInput (aad ct : List UInt8) : List (List UInt8) :=
  paddedBlocks aad ++ paddedBlocks ct ++
    [beBytes 8 (aad.length * 8) ++ beBytes 8 (ct.length * 8)]

theorem length_paddedBlock (data : List UInt8) (i : ℕ) : (paddedBlock data i).length = 16 := by
  rw [paddedBlock, List.length_append, List.length_replicate, List.length_take]
  omega

theorem flatten_paddedBlocks (data : List UInt8) :
    (paddedBlocks data).flatten =
      data ++ List.replicate ((data.length + 15) / 16 * 16 - data.length) 0 := by
  have hlen : (data ++ List.replicate ((data.length + 15) / 16 * 16 - data.length)
      (0 : UInt8)).length = (data.length + 15) / 16 * 16 := by
    rw [List.length_append, List.length_replicate]
    omega
  rw [← flatMap_range_take_drop hlen, List.flatMap_def, paddedBlocks]
  congr 1
  apply List.map_congr_left
  intro i hi
  have hi := List.mem_range.mp hi
  rw [paddedBlock, List.drop_append, List.take_append, Nat.mul_comm 16 i, List.length_take,
    List.length_drop, List.drop_replicate, List.take_replicate]
  congr 2
  omega

theorem length_of_mem_ghashInput {aad ct b : List UInt8} (hb : b ∈ ghashInput aad ct) :
    b.length = 16 := by
  rw [ghashInput, List.mem_append, List.mem_append, List.mem_singleton] at hb
  rcases hb with (hb | hb) | rfl
  · obtain ⟨i, -, rfl⟩ := List.mem_map.mp hb
    exact length_paddedBlock aad _
  · obtain ⟨i, -, rfl⟩ := List.mem_map.mp hb
    exact length_paddedBlock ct _
  · simp

theorem ghash_eq_foldl (h aad ct : List UInt8) :
    ghash h aad ct =
      (ghashInput aad ct).foldl (fun x b => ghashMultiply (xorBytes x b) h)
        (List.replicate 16 0) := by
  rw [ghash, ghashBlocks, ghashBlocks, ghashInput, paddedBlocks, paddedBlocks, List.foldl_append,
    List.foldl_append, List.foldl_map, List.foldl_map]
  rfl

/-- Each block is added and the sum multiplied by `H`. -/
theorem blockPoly_foldl (hh : h.length = 16) (bs : List (List UInt8))
    (hbs : ∀ b ∈ bs, b.length = 16) (hx : x.length = 16) :
    blockPoly (bs.foldl (fun x b => ghashMultiply (xorBytes x b) h) x) =
      (bs.map blockPoly).foldl (fun x b => ((x + b) * blockPoly h) %ₘ ghashModulus)
        (blockPoly x) := by
  induction bs generalizing x with
  | nil => rw [List.foldl_nil, List.map_nil, List.foldl_nil]
  | cons b bs ih =>
    have hb : b.length = 16 := hbs b List.mem_cons_self
    rw [List.foldl_cons, List.map_cons, List.foldl_cons,
      ih (fun b' hb' => hbs b' (List.mem_cons_of_mem b hb')) (length_ghashMultiply _ hh),
      blockPoly_ghashMultiply hh, blockPoly_xorBytes (hx.trans hb.symm)]

theorem blockPoly_modByMonic (bs : List UInt8) : blockPoly bs %ₘ ghashModulus = blockPoly bs := by
  rw [blockPoly_eq, ← ghashModulus_eq, bitPoly_modByMonic]

theorem blockPoly_ghash (hh : h.length = 16) (aad ct : List UInt8) :
    blockPoly (ghash h aad ct) =
      (∑ i ∈ Finset.range (ghashInput aad ct).length,
        blockPoly ((ghashInput aad ct).getD i []) *
          blockPoly h ^ ((ghashInput aad ct).length - i)) %ₘ ghashModulus := by
  have hzero : blockPoly (List.replicate 16 0) = 0 := by
    have hnat : blockNat (List.replicate 16 0) = 0 := by decide +kernel
    rw [blockPoly_eq, hnat, bitPoly_zero]
  have hnil : blockPoly [] = 0 := by
    apply Finset.sum_eq_zero
    intro i _
    rw [stringBit_nil]
    rfl
  have hfold := blockPoly_foldl hh (ghashInput aad ct) (fun b => length_of_mem_ghashInput)
    (x := List.replicate 16 0) List.length_replicate
  have hterm : ∀ i, ((ghashInput aad ct).map blockPoly).getD i 0 =
      blockPoly ((ghashInput aad ct).getD i []) := by
    intro i
    rw [← hnil, List.getD_map]
  rw [← blockPoly_modByMonic, ghash_eq_foldl, hfold, foldl_horner, hzero, zero_mul, zero_add,
    List.length_map]
  simp only [hterm]

end Hash

/-- `ghash_multiply` is the product of polynomials modulo that of GCM, so it is commutative,
associative and distributes over exclusive or. `ghash` is the polynomial of its padded blocks
evaluated at `H`. -/
theorem ghash_product :
    (∀ x y : List UInt8, x.length = 16 → y.length = 16 →
      (ghashMultiply x y).length = 16 ∧
        blockPoly (ghashMultiply x y) = (blockPoly x * blockPoly y) %ₘ ghashModulus) ∧
    (∀ x y : List UInt8, x.length = 16 → y.length = 16 →
      ghashMultiply x y = ghashMultiply y x) ∧
    (∀ x y z : List UInt8, x.length = 16 → y.length = 16 → z.length = 16 →
      ghashMultiply (ghashMultiply x y) z = ghashMultiply x (ghashMultiply y z) ∧
      ghashMultiply x (xorBytes y z) = xorBytes (ghashMultiply x y) (ghashMultiply x z) ∧
      ghashMultiply (xorBytes x y) z = xorBytes (ghashMultiply x z) (ghashMultiply y z)) ∧
    ∀ h aad ct : List UInt8, h.length = 16 →
      (paddedBlocks aad).flatten =
        aad ++ List.replicate ((aad.length + 15) / 16 * 16 - aad.length) 0 ∧
      blockPoly (ghash h aad ct) =
        (∑ i ∈ Finset.range (ghashInput aad ct).length,
          blockPoly ((ghashInput aad ct).getD i []) *
            blockPoly h ^ ((ghashInput aad ct).length - i)) %ₘ ghashModulus := by
  refine ⟨?_, ?_, ?_, ?_⟩
  · intro x y _ hy
    exact ⟨length_ghashMultiply x hy, blockPoly_ghashMultiply hy⟩
  · intro x y hx hy
    apply blockPoly_inj (length_ghashMultiply x hy) (length_ghashMultiply y hx)
    rw [blockPoly_ghashMultiply hy, blockPoly_ghashMultiply hx, mul_comm]
  · intro x y z hx hy hz
    have hxy := length_ghashMultiply x hy
    have hxz := length_ghashMultiply x hz
    have hyz := length_ghashMultiply y hz
    have hxor : (xorBytes y z).length = 16 := by rw [length_xorBytes, hy, hz, Nat.min_self]
    refine ⟨?_, ?_, ?_⟩
    · apply blockPoly_inj (length_ghashMultiply _ hz) (length_ghashMultiply _ hyz)
      rw [blockPoly_ghashMultiply hz, blockPoly_ghashMultiply hy, blockPoly_ghashMultiply hyz,
        blockPoly_ghashMultiply hz, modByMonic_mul, mul_modByMonic_right, mul_assoc]
    · apply blockPoly_inj (length_ghashMultiply _ hxor)
        (by rw [length_xorBytes, hxy, hxz, Nat.min_self])
      rw [blockPoly_ghashMultiply hxor, blockPoly_xorBytes (hy.trans hz.symm),
        blockPoly_xorBytes (hxy.trans hxz.symm), blockPoly_ghashMultiply hy,
        blockPoly_ghashMultiply hz, mul_add, add_modByMonic]
    · apply blockPoly_inj (length_ghashMultiply _ hz)
        (by rw [length_xorBytes, hxz, hyz, Nat.min_self])
      rw [blockPoly_ghashMultiply hz, blockPoly_xorBytes (hx.trans hy.symm),
        blockPoly_xorBytes (hxz.trans hyz.symm), blockPoly_ghashMultiply hz,
        blockPoly_ghashMultiply hz, add_mul, add_modByMonic]
  · intro h aad ct hh
    exact ⟨flatten_paddedBlocks aad, blockPoly_ghash hh aad ct⟩

theorem ghash_product_sample :
    blockPoly (ghashMultiply (List.replicate 16 0x66) (List.replicate 16 0xE9)) =
        (blockPoly (List.replicate 16 0x66) * blockPoly (List.replicate 16 0xE9)) %ₘ ghashModulus ∧
      ghashMultiply (List.replicate 16 0x66) (List.replicate 16 0xE9) =
        ghashMultiply (List.replicate 16 0xE9) (List.replicate 16 0x66) ∧
      ghashMultiply (List.replicate 16 0x66)
          (xorBytes (List.replicate 16 0xE9) (List.replicate 16 0x4B)) =
        xorBytes (ghashMultiply (List.replicate 16 0x66) (List.replicate 16 0xE9))
          (ghashMultiply (List.replicate 16 0x66) (List.replicate 16 0x4B)) ∧
      (paddedBlocks [1, 2, 3]).flatten = [1, 2, 3] ++ List.replicate 13 0 :=
  have hlen : ∀ b : UInt8, (List.replicate 16 b).length = 16 := fun _ => List.length_replicate
  ⟨(ghash_product.1 _ _ (hlen _) (hlen _)).2, ghash_product.2.1 _ _ (hlen _) (hlen _),
    (ghash_product.2.2.1 _ _ _ (hlen _) (hlen _) (hlen _)).2.1,
    (ghash_product.2.2.2 (List.replicate 16 0x66) [1, 2, 3] [] (hlen _)).1⟩

end StyxOS
