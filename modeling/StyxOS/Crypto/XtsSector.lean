import StyxOS.Crypto.Xts
import StyxOS.Library.BitPoly

/-! # Sectors under XTS

The tweaks of a sector are the powers of `X` times the first, as polynomials
over two elements, and every block is the cipher between two masks by its tweak.
Encryption and decryption of a sector undo each other, also where a sector is
replaced in its place.
-/

namespace StyxOS

open ByteMem

/-! ## The chain of tweaks -/

namespace BlockWords

/-- The number that the two words make up. -/
def toNat (b : BlockWords) : ℕ := b.w0.toNat + 2 ^ 64 * b.w1.toNat

theorem leVal_toBytes (b : BlockWords) : leVal b.toBytes = b.toNat := by
  have h0 : b.w0.toNat < 256 ^ 8 := b.w0.toNat_lt
  have h1 : b.w1.toNat < 256 ^ 8 := b.w1.toNat_lt
  rw [toBytes, leVal_append, length_leBytes, leVal_leBytes, leVal_leBytes, Nat.mod_eq_of_lt h0,
    Nat.mod_eq_of_lt h1]
  rfl

theorem toBytes_xor (b t : BlockWords) : (b.xor t).toBytes = xorBytes b.toBytes t.toBytes := by
  simp only [toBytes, xor, UInt64.toNat_xor, leBytes_xor]
  exact (xorBytes_append (by simp)).symm

end BlockWords

theorem add_xor_low {x k y : ℕ} (hx : x < 2 ^ 64) (hk : k < 2 ^ 64) :
    (x + 2 ^ 64 * y) ^^^ k = (x ^^^ k) + 2 ^ 64 * y := by
  have hmod : ((x + 2 ^ 64 * y) ^^^ k) % 2 ^ 64 = x ^^^ k := by
    rw [Nat.xor_mod_two_pow, Nat.mod_eq_of_lt hk, Nat.add_mul_mod_self_left, Nat.mod_eq_of_lt hx]
  have hdiv : ((x + 2 ^ 64 * y) ^^^ k) / 2 ^ 64 = y := by
    rw [Nat.xor_div_two_pow, Nat.div_eq_of_lt hk, Nat.xor_zero,
      Nat.add_mul_div_left x y (by decide), Nat.div_eq_of_lt hx, Nat.zero_add]
  have hsplit := Nat.mod_add_div ((x + 2 ^ 64 * y) ^^^ k) (2 ^ 64)
  rwa [hmod, hdiv, eq_comm] at hsplit

theorem toNat_gfMulAlpha (t : BlockWords) :
    (gfMulAlpha t).toNat = shiftReduce 128 0x87 t.toNat := by
  obtain ⟨a, c⟩ := t
  have ha := a.toNat_lt
  have hc := c.toNat_lt
  have hlow : (a <<< 1).toNat = 2 * a.toNat % 2 ^ 64 := by
    rw [UInt64.toNat_shiftLeft]
    change a.toNat <<< 1 % 2 ^ 64 = _
    rw [Nat.shiftLeft_eq, Nat.mul_comm]
  have hhigh : ((c <<< 1) ||| (a >>> 63)).toNat = 2 * c.toNat % 2 ^ 64 + a.toNat / 2 ^ 63 := by
    have hbit : a.toNat / 2 ^ 63 < 2 ^ 1 := by omega
    have heven : 2 * c.toNat % 2 ^ 64 = 2 ^ 1 * (c.toNat % 2 ^ 63) := by omega
    rw [UInt64.toNat_or, UInt64.toNat_shiftLeft, UInt64.toNat_shiftRight]
    change c.toNat <<< 1 % 2 ^ 64 ||| a.toNat >>> 63 = _
    rw [Nat.shiftLeft_eq, Nat.shiftRight_eq_div_pow, pow_one, Nat.mul_comm c.toNat, heven,
      ← Nat.two_pow_add_eq_or_of_lt hbit]
  have hcarry : c >>> 63 ≠ 0 ↔ (a.toNat + 2 ^ 64 * c.toNat).testBit (128 - 1) = true := by
    rw [Ne, ← UInt64.toNat_inj, UInt64.toNat_shiftRight, Nat.testBit_eq_decide_div_mod_eq,
      decide_eq_true_iff]
    change ¬ c.toNat >>> 63 = 0 ↔ _
    rw [Nat.shiftRight_eq_div_pow]
    omega
  have hsum : 2 * (a.toNat + 2 ^ 64 * c.toNat) % 2 ^ 128 =
      2 * a.toNat % 2 ^ 64 + 2 ^ 64 * (2 * c.toNat % 2 ^ 64 + a.toNat / 2 ^ 63) := by omega
  have hmask : (if c >>> 63 ≠ 0 then (0x87 : UInt64) else 0).toNat =
      if (a.toNat + 2 ^ 64 * c.toNat).testBit (128 - 1) = true then 0x87 else 0 := by
    rw [apply_ite UInt64.toNat]
    exact if_congr hcarry rfl rfl
  have hsmall : (if (a.toNat + 2 ^ 64 * c.toNat).testBit (128 - 1) = true then 0x87 else 0) <
      2 ^ 64 := by
    split <;> decide
  simp only [BlockWords.toNat, gfMulAlpha, shiftReduce]
  rw [UInt64.toNat_xor, hlow, hhigh, hmask, hsum]
  exact (add_xor_low (Nat.mod_lt _ (by decide)) hsmall).symm

/-- The tweak of the block with number `k` in a sector. -/
def xtsTweak (ctx : Aes256XtsCtx) (sectorLba : UInt32) (k : ℕ) : BlockWords :=
  gfMulAlpha^[k] (initialTweak ctx sectorLba)

theorem toBytes_initialTweak (ctx : Aes256XtsCtx) (lba : UInt32) :
    (initialTweak ctx lba).toBytes = aes256EncryptBlock ctx.aesKey2 (leBytes 16 lba.toNat) := by
  have hlba : (BlockWords.mk lba.toUInt64 0).toBytes = leBytes 16 lba.toNat := by
    have hsmall : lba.toNat / 256 ^ 8 = 0 := Nat.div_eq_of_lt (lba.toNat_lt.trans (by decide))
    have hsplit := leBytes_append 8 8 lba.toNat
    rw [hsmall] at hsplit
    rw [hsplit, BlockWords.toBytes, UInt32.toNat_toUInt64]
    rfl
  rw [initialTweak, BlockWords.toBytes_ofBytes (length_aes256EncryptBlock _ _), hlba]

section

open Polynomial

/-- The polynomial that the tweaks are taken modulo. -/
noncomputable def xtsModulus : (ZMod 2)[X] := X ^ 128 + X ^ 7 + X ^ 2 + X + 1

theorem xtsModulus_eq : X ^ 128 + bitPoly 128 0x87 = xtsModulus := by
  delta xtsModulus
  exact add_fold (X ^ 128)

theorem bitPoly_xtsTweak (ctx : Aes256XtsCtx) (lba : UInt32) (k : ℕ) :
    bitPoly 128 (leVal (xtsTweak ctx lba (k + 1)).toBytes) =
      (X * bitPoly 128 (leVal (xtsTweak ctx lba k).toBytes)) %ₘ xtsModulus := by
  have hnext : (xtsTweak ctx lba (k + 1)).toNat =
      shiftReduce 128 0x87 (xtsTweak ctx lba k).toNat := by
    rw [xtsTweak, Function.iterate_succ_apply']
    exact toNat_gfMulAlpha _
  rw [BlockWords.leVal_toBytes, BlockWords.leVal_toBytes, hnext,
    bitPoly_shiftReduce (by decide), xtsModulus_eq]

end

/-! ## The blocks -/

section

variable {enc : List UInt8 → List UInt8}

theorem xtsBlock_eq (hlen : ∀ b, (enc b).length = 16) (t : BlockWords) {block : List UInt8}
    (h : block.length = 16) :
    xtsBlock enc t block = xorBytes (enc (xorBytes block t.toBytes)) t.toBytes := by
  rw [xtsBlock, BlockWords.toBytes_xor, BlockWords.toBytes_xor, BlockWords.toBytes_ofBytes h,
    BlockWords.toBytes_ofBytes (hlen _)]

theorem take_drop_xtsBlocks {n k : ℕ} (hk : k < n) (t : BlockWords) (input : List UInt8) :
    ((xtsBlocks enc n t input).drop (k * 16)).take 16 =
      xtsBlock enc (gfMulAlpha^[k] t) ((input.drop (k * 16)).take 16) := by
  induction n generalizing k t input with
  | zero => exact absurd hk (Nat.not_lt_zero k)
  | succ n ih =>
    have hb : (xtsBlock enc t (input.take 16)).length = 16 := length_xtsBlock _ _
    rw [xtsBlocks]
    cases k with
    | zero => rw [Nat.zero_mul, List.drop_zero, List.drop_zero, List.take_left' hb]; rfl
    | succ k =>
      rw [Nat.succ_mul, Nat.add_comm, ← List.drop_drop, List.drop_left' hb,
        ih (Nat.lt_of_succ_lt_succ hk), List.drop_drop, Function.iterate_succ_apply]

end

/-! ## Sectors in memory -/

/-- The loop over the blocks of a sector in memory, `n` of them left from the one with number
`block` on. -/
def xtsBlocksAt (cipher : List UInt8 → List UInt8) (inp out : ℕ) : ℕ → ℕ → BlockWords → Mem → Mem
  | 0, _, _, m => m
  | n + 1, block, tweak, m =>
    xtsBlocksAt cipher inp out n (block + 1) (gfMulAlpha tweak)
      (store m (out + block * 16) (xtsBlock cipher tweak (load m (inp + block * 16) 16)))

/-- `aes256_xts_encrypt_sector` on memory. -/
def aes256XtsEncryptSectorAt (ctx : Aes256XtsCtx) (sectorLba : UInt32) (inp out : ℕ) (m : Mem) :
    Mem :=
  xtsBlocksAt (aes256EncryptBlock ctx.aesKey1) inp out 32 0 (initialTweak ctx sectorLba) m

/-- `aes256_xts_decrypt_sector` on memory. -/
def aes256XtsDecryptSectorAt (ctx : Aes256XtsCtx) (sectorLba : UInt32) (inp out : ℕ) (m : Mem) :
    Mem :=
  xtsBlocksAt (aes256DecryptBlock ctx.aesKey1) inp out 32 0 (initialTweak ctx sectorLba) m

/-- Two buffers of this size are the same, or apart. -/
def SameOrApart (size a b : ℕ) : Prop := a = b ∨ a + size ≤ b ∨ b + size ≤ a

/-- The loop reads each block before it is written over. -/
theorem xtsBlocksAt_eq (cipher : List UInt8 → List UInt8) {inp out size : ℕ}
    (h : SameOrApart size inp out) {n block : ℕ} (hn : (block + n) * 16 ≤ size) (t : BlockWords)
    (m : Mem) :
    xtsBlocksAt cipher inp out n block t m =
      store m (out + block * 16) (xtsBlocks cipher n t (load m (inp + block * 16) (n * 16))) := by
  induction n generalizing block t m with
  | zero => rw [xtsBlocksAt, xtsBlocks, store_nil]
  | succ n ih =>
    have hlen : (xtsBlock cipher t (load m (inp + block * 16) 16)).length = 16 :=
      length_xtsBlock _ _
    have hrest :
        load (store m (out + block * 16) (xtsBlock cipher t (load m (inp + block * 16) 16)))
        (inp + (block + 1) * 16) (n * 16) = load m (inp + (block + 1) * 16) (n * 16) := by
      apply load_store_disjoint
      rw [hlen]
      unfold SameOrApart at h
      omega
    have hfirst : (load m (inp + block * 16) ((n + 1) * 16)).take 16 =
        load m (inp + block * 16) 16 := by
      have htake := take_drop_load (m := m) (a := inp + block * 16) (i := 0) (n := 16)
        (k := (n + 1) * 16) (by omega)
      rwa [List.drop_zero, Nat.add_zero] at htake
    have hlater : (load m (inp + block * 16) ((n + 1) * 16)).drop 16 =
        load m (inp + (block + 1) * 16) (n * 16) := by
      have hdrop := take_drop_load (m := m) (a := inp + block * 16) (i := 16) (n := n * 16)
        (k := (n + 1) * 16) (by omega)
      rw [List.take_of_length_le (by rw [List.length_drop, length_load]; omega)] at hdrop
      rw [hdrop, Nat.succ_mul, Nat.add_assoc]
    rw [xtsBlocksAt, ih (by omega), hrest, xtsBlocks, hfirst, hlater, store_append, hlen,
      Nat.succ_mul, ← Nat.add_assoc]

section

variable {inp out : ℕ}

theorem aes256XtsEncryptSectorAt_eq (ctx : Aes256XtsCtx) (lba : UInt32)
    (h : SameOrApart 512 inp out) (m : Mem) :
    aes256XtsEncryptSectorAt ctx lba inp out m =
      store m out (aes256XtsEncryptSector ctx lba (load m inp 512)) := by
  rw [aes256XtsEncryptSectorAt, xtsBlocksAt_eq _ h (by decide)]
  rfl

theorem aes256XtsDecryptSectorAt_eq (ctx : Aes256XtsCtx) (lba : UInt32)
    (h : SameOrApart 512 inp out) (m : Mem) :
    aes256XtsDecryptSectorAt ctx lba inp out m =
      store m out (aes256XtsDecryptSector ctx lba (load m inp 512)) := by
  rw [aes256XtsDecryptSectorAt, xtsBlocksAt_eq _ h (by decide)]
  rfl

theorem decryptSectorAt_encryptSectorAt (ctx : Aes256XtsCtx) (lba : UInt32) (m : Mem) (a : ℕ) :
    aes256XtsDecryptSectorAt ctx lba a a (aes256XtsEncryptSectorAt ctx lba a a m) = m := by
  rw [aes256XtsDecryptSectorAt_eq ctx lba (.inl rfl),
    aes256XtsEncryptSectorAt_eq ctx lba (.inl rfl),
    load_store_of_length (length_aes256XtsEncryptSector ..),
    aes256XtsDecryptSector_encryptSector ctx lba length_load,
    store_store_same (by rw [length_aes256XtsEncryptSector, length_load]), store_load_self]

theorem encryptSectorAt_decryptSectorAt (ctx : Aes256XtsCtx) (lba : UInt32) (m : Mem) (a : ℕ) :
    aes256XtsEncryptSectorAt ctx lba a a (aes256XtsDecryptSectorAt ctx lba a a m) = m := by
  rw [aes256XtsEncryptSectorAt_eq ctx lba (.inl rfl),
    aes256XtsDecryptSectorAt_eq ctx lba (.inl rfl),
    load_store_of_length (length_aes256XtsDecryptSector ..),
    aes256XtsEncryptSector_decryptSector ctx lba length_load,
    store_store_same (by rw [length_aes256XtsDecryptSector, length_load]), store_load_self]

end

/-- A block of an encrypted sector. -/
theorem take_drop_encryptSector (key : List UInt8) (lba : UInt32) {s : List UInt8}
    (hs : s.length = 512) {k : ℕ} (hk : k < 32) :
    ((aes256XtsEncryptSector (aes256XtsInit key) lba s).drop (k * 16)).take 16 =
      xorBytes (aes256EncryptBlock (aes256InitEncrypt (key.take 32))
        (xorBytes ((s.drop (k * 16)).take 16) (xtsTweak (aes256XtsInit key) lba k).toBytes))
        (xtsTweak (aes256XtsInit key) lba k).toBytes := by
  have hblock : ((s.drop (k * 16)).take 16).length = 16 := by
    rw [List.length_take, List.length_drop, hs]
    omega
  rw [aes256XtsEncryptSector, take_drop_xtsBlocks hk,
    xtsBlock_eq (length_aes256EncryptBlock _) _ hblock, aes256InitEncrypt_take]
  rfl

section

open Polynomial

/-- A sector under XTS: encryption and decryption undo each other, for a sector and in its place,
and a block is the cipher under the first half of the key between two masks by its tweak. The first
tweak is the address under the second half of the key, and each is `X` times the one before it. -/
theorem aes256Xts_sector (key : List UInt8) (lba : UInt32) :
    (∀ s : List UInt8, s.length = 512 →
      aes256XtsDecryptSector (aes256XtsInit key) lba
        (aes256XtsEncryptSector (aes256XtsInit key) lba s) = s ∧
      aes256XtsEncryptSector (aes256XtsInit key) lba
        (aes256XtsDecryptSector (aes256XtsInit key) lba s) = s) ∧
    (∀ (m : Mem) (inp out : ℕ), SameOrApart 512 inp out →
      aes256XtsEncryptSectorAt (aes256XtsInit key) lba inp out m =
        store m out (aes256XtsEncryptSector (aes256XtsInit key) lba (load m inp 512)) ∧
      aes256XtsDecryptSectorAt (aes256XtsInit key) lba inp out m =
        store m out (aes256XtsDecryptSector (aes256XtsInit key) lba (load m inp 512))) ∧
    (∀ (m : Mem) (a : ℕ),
      aes256XtsDecryptSectorAt (aes256XtsInit key) lba a a
        (aes256XtsEncryptSectorAt (aes256XtsInit key) lba a a m) = m ∧
      aes256XtsEncryptSectorAt (aes256XtsInit key) lba a a
        (aes256XtsDecryptSectorAt (aes256XtsInit key) lba a a m) = m) ∧
    ∃ T : ℕ → List UInt8,
      T 0 = aes256EncryptBlock (aes256InitEncrypt (key.drop 32)) (leBytes 16 lba.toNat) ∧
      (∀ k, (T k).length = 16 ∧ bitPoly 128 (leVal (T (k + 1))) =
        (X * bitPoly 128 (leVal (T k))) %ₘ xtsModulus) ∧
      ∀ s : List UInt8, s.length = 512 → ∀ k < 32,
        ((aes256XtsEncryptSector (aes256XtsInit key) lba s).drop (k * 16)).take 16 =
          xorBytes (aes256EncryptBlock (aes256InitEncrypt (key.take 32))
            (xorBytes ((s.drop (k * 16)).take 16) (T k))) (T k) := by
  refine ⟨?_, ?_, ?_, fun k => (xtsTweak (aes256XtsInit key) lba k).toBytes, ?_, ?_, ?_⟩
  · intro s hs
    constructor
    · exact aes256XtsDecryptSector_encryptSector _ lba hs
    · exact aes256XtsEncryptSector_decryptSector _ lba hs
  · intro m inp out h
    constructor
    · exact aes256XtsEncryptSectorAt_eq _ lba h m
    · exact aes256XtsDecryptSectorAt_eq _ lba h m
  · intro m a
    constructor
    · exact decryptSectorAt_encryptSectorAt _ lba m a
    · exact encryptSectorAt_decryptSectorAt _ lba m a
  · exact toBytes_initialTweak (aes256XtsInit key) lba
  · intro k
    dsimp only
    constructor
    · exact BlockWords.length_toBytes _
    · exact bitPoly_xtsTweak (aes256XtsInit key) lba k
  · intro s hs k hk
    exact take_drop_encryptSector key lba hs hk

end

end StyxOS
