import Mathlib.Data.List.Induction
import StyxOS.Library.Bytes

/-! # AES-256

The block cipher of `aes.c`. The state is kept by columns. Undoing each
transformation of a round undoes the round, and undoing the rounds in
reverse order undoes the cipher, whatever the round keys are.
-/

namespace StyxOS

open ByteMem

/-- The S-box of `aes.c`. -/
def sbox : List UInt8 :=
  [0x63, 0x7c, 0x77, 0x7b, 0xf2, 0x6b, 0x6f, 0xc5, 0x30, 0x01, 0x67, 0x2b, 0xfe, 0xd7, 0xab, 0x76,
    0xca, 0x82, 0xc9, 0x7d, 0xfa, 0x59, 0x47, 0xf0, 0xad, 0xd4, 0xa2, 0xaf, 0x9c, 0xa4, 0x72, 0xc0,
    0xb7, 0xfd, 0x93, 0x26, 0x36, 0x3f, 0xf7, 0xcc, 0x34, 0xa5, 0xe5, 0xf1, 0x71, 0xd8, 0x31, 0x15,
    0x04, 0xc7, 0x23, 0xc3, 0x18, 0x96, 0x05, 0x9a, 0x07, 0x12, 0x80, 0xe2, 0xeb, 0x27, 0xb2, 0x75,
    0x09, 0x83, 0x2c, 0x1a, 0x1b, 0x6e, 0x5a, 0xa0, 0x52, 0x3b, 0xd6, 0xb3, 0x29, 0xe3, 0x2f, 0x84,
    0x53, 0xd1, 0x00, 0xed, 0x20, 0xfc, 0xb1, 0x5b, 0x6a, 0xcb, 0xbe, 0x39, 0x4a, 0x4c, 0x58, 0xcf,
    0xd0, 0xef, 0xaa, 0xfb, 0x43, 0x4d, 0x33, 0x85, 0x45, 0xf9, 0x02, 0x7f, 0x50, 0x3c, 0x9f, 0xa8,
    0x51, 0xa3, 0x40, 0x8f, 0x92, 0x9d, 0x38, 0xf5, 0xbc, 0xb6, 0xda, 0x21, 0x10, 0xff, 0xf3, 0xd2,
    0xcd, 0x0c, 0x13, 0xec, 0x5f, 0x97, 0x44, 0x17, 0xc4, 0xa7, 0x7e, 0x3d, 0x64, 0x5d, 0x19, 0x73,
    0x60, 0x81, 0x4f, 0xdc, 0x22, 0x2a, 0x90, 0x88, 0x46, 0xee, 0xb8, 0x14, 0xde, 0x5e, 0x0b, 0xdb,
    0xe0, 0x32, 0x3a, 0x0a, 0x49, 0x06, 0x24, 0x5c, 0xc2, 0xd3, 0xac, 0x62, 0x91, 0x95, 0xe4, 0x79,
    0xe7, 0xc8, 0x37, 0x6d, 0x8d, 0xd5, 0x4e, 0xa9, 0x6c, 0x56, 0xf4, 0xea, 0x65, 0x7a, 0xae, 0x08,
    0xba, 0x78, 0x25, 0x2e, 0x1c, 0xa6, 0xb4, 0xc6, 0xe8, 0xdd, 0x74, 0x1f, 0x4b, 0xbd, 0x8b, 0x8a,
    0x70, 0x3e, 0xb5, 0x66, 0x48, 0x03, 0xf6, 0x0e, 0x61, 0x35, 0x57, 0xb9, 0x86, 0xc1, 0x1d, 0x9e,
    0xe1, 0xf8, 0x98, 0x11, 0x69, 0xd9, 0x8e, 0x94, 0x9b, 0x1e, 0x87, 0xe9, 0xce, 0x55, 0x28, 0xdf,
    0x8c, 0xa1, 0x89, 0x0d, 0xbf, 0xe6, 0x42, 0x68, 0x41, 0x99, 0x2d, 0x0f, 0xb0, 0x54, 0xbb, 0x16]

/-- The inverse S-box of `aes.c`. -/
def rsbox : List UInt8 :=
  [0x52, 0x09, 0x6a, 0xd5, 0x30, 0x36, 0xa5, 0x38, 0xbf, 0x40, 0xa3, 0x9e, 0x81, 0xf3, 0xd7, 0xfb,
    0x7c, 0xe3, 0x39, 0x82, 0x9b, 0x2f, 0xff, 0x87, 0x34, 0x8e, 0x43, 0x44, 0xc4, 0xde, 0xe9, 0xcb,
    0x54, 0x7b, 0x94, 0x32, 0xa6, 0xc2, 0x23, 0x3d, 0xee, 0x4c, 0x95, 0x0b, 0x42, 0xfa, 0xc3, 0x4e,
    0x08, 0x2e, 0xa1, 0x66, 0x28, 0xd9, 0x24, 0xb2, 0x76, 0x5b, 0xa2, 0x49, 0x6d, 0x8b, 0xd1, 0x25,
    0x72, 0xf8, 0xf6, 0x64, 0x86, 0x68, 0x98, 0x16, 0xd4, 0xa4, 0x5c, 0xcc, 0x5d, 0x65, 0xb6, 0x92,
    0x6c, 0x70, 0x48, 0x50, 0xfd, 0xed, 0xb9, 0xda, 0x5e, 0x15, 0x46, 0x57, 0xa7, 0x8d, 0x9d, 0x84,
    0x90, 0xd8, 0xab, 0x00, 0x8c, 0xbc, 0xd3, 0x0a, 0xf7, 0xe4, 0x58, 0x05, 0xb8, 0xb3, 0x45, 0x06,
    0xd0, 0x2c, 0x1e, 0x8f, 0xca, 0x3f, 0x0f, 0x02, 0xc1, 0xaf, 0xbd, 0x03, 0x01, 0x13, 0x8a, 0x6b,
    0x3a, 0x91, 0x11, 0x41, 0x4f, 0x67, 0xdc, 0xea, 0x97, 0xf2, 0xcf, 0xce, 0xf0, 0xb4, 0xe6, 0x73,
    0x96, 0xac, 0x74, 0x22, 0xe7, 0xad, 0x35, 0x85, 0xe2, 0xf9, 0x37, 0xe8, 0x1c, 0x75, 0xdf, 0x6e,
    0x47, 0xf1, 0x1a, 0x71, 0x1d, 0x29, 0xc5, 0x89, 0x6f, 0xb7, 0x62, 0x0e, 0xaa, 0x18, 0xbe, 0x1b,
    0xfc, 0x56, 0x3e, 0x4b, 0xc6, 0xd2, 0x79, 0x20, 0x9a, 0xdb, 0xc0, 0xfe, 0x78, 0xcd, 0x5a, 0xf4,
    0x1f, 0xdd, 0xa8, 0x33, 0x88, 0x07, 0xc7, 0x31, 0xb1, 0x12, 0x10, 0x59, 0x27, 0x80, 0xec, 0x5f,
    0x60, 0x51, 0x7f, 0xa9, 0x19, 0xb5, 0x4a, 0x0d, 0x2d, 0xe5, 0x7a, 0x9f, 0x93, 0xc9, 0x9c, 0xef,
    0xa0, 0xe0, 0x3b, 0x4d, 0xae, 0x2a, 0xf5, 0xb0, 0xc8, 0xeb, 0xbb, 0x3c, 0x83, 0x53, 0x99, 0x61,
    0x17, 0x2b, 0x04, 0x7e, 0xba, 0x77, 0xd6, 0x26, 0xe1, 0x69, 0x14, 0x63, 0x55, 0x21, 0x0c, 0x7d]

def rcon : List UInt32 :=
  [0x01000000, 0x02000000, 0x04000000, 0x08000000, 0x10000000,
    0x20000000, 0x40000000, 0x80000000, 0x1B000000, 0x36000000]

def subByte (b : UInt8) : UInt8 :=
  sbox.getD b.toNat 0

/-- The entry of the inverse S-box for a byte. -/
def invSubByte (b : UInt8) : UInt8 :=
  rsbox.getD b.toNat 0

def subWord (word : UInt32) : UInt32 :=
  ((subByte (word >>> 24).toUInt8).toUInt32 <<< 24) |||
    ((subByte (word >>> 16).toUInt8).toUInt32 <<< 16) |||
    ((subByte (word >>> 8).toUInt8).toUInt32 <<< 8) |||
    (subByte word.toUInt8).toUInt32

def rotWord (word : UInt32) : UInt32 := (word <<< 8) ||| (word >>> 24)

/-- Twice a byte in the field of the cipher. -/
def xtime (a : UInt8) : UInt8 := if a &&& 0x80 ≠ 0 then (a <<< 1) ^^^ 0x1B else a <<< 1

/-- One turn of the loop of `galois_mul`, on the product `p` and the factors. -/
def galoisStep : UInt8 × UInt8 × UInt8 → UInt8 × UInt8 × UInt8
  | (p, a, b) => (if b &&& 1 ≠ 0 then p ^^^ a else p, xtime a, b >>> 1)

def galoisMul (a b : UInt8) : UInt8 := (galoisStep^[8] (0, a, b)).1

/-! ## Key expansion -/

/-- `aes256_ctx_t`. -/
structure Aes256Ctx where
  roundKeys : List UInt32

/-- The word that the key expansion appends to the words before it. -/
def expandWord (ws : List UInt32) (i : ℕ) : UInt32 :=
  let temp := ws.getD (i - 1) 0
  let temp :=
    if i % 8 = 0 then subWord (rotWord temp) ^^^ rcon.getD (i / 8 - 1) 0
    else if i % 8 = 4 then subWord temp
    else temp
  ws.getD (i - 8) 0 ^^^ temp

def aes256InitEncrypt (key : List UInt8) : Aes256Ctx where
  roundKeys := (List.range' 8 52).foldl (fun ws i => ws ++ [expandWord ws i])
    ((List.range 8).map fun i => UInt32.ofNat (beVal ((key.drop (i * 4)).take 4)))

theorem aes256InitEncrypt_take (key : List UInt8) :
    aes256InitEncrypt (key.take 32) = aes256InitEncrypt key := by
  have hword : ∀ i ∈ List.range 8, UInt32.ofNat (beVal (((key.take 32).drop (i * 4)).take 4)) =
      UInt32.ofNat (beVal ((key.drop (i * 4)).take 4)) := by
    intro i hi
    have hlt := List.mem_range.mp hi
    rw [List.drop_take, List.take_take, Nat.min_eq_left (by omega)]
  rw [aes256InitEncrypt, aes256InitEncrypt, List.map_congr_left hword]

/-! ## The state -/

/-- One column of the state, `state[0][c]` to `state[3][c]`. -/
@[ext]
structure Column where
  s0 : UInt8
  s1 : UInt8
  s2 : UInt8
  s3 : UInt8
deriving DecidableEq, Repr

@[ext]
structure AesState where
  c0 : Column
  c1 : Column
  c2 : Column
  c3 : Column
deriving DecidableEq, Repr

/-- The state that a block of 16 bytes fills column by column. -/
def AesState.ofBytes (bs : List UInt8) : AesState where
  c0 := ⟨bs.getD 0 0, bs.getD 1 0, bs.getD 2 0, bs.getD 3 0⟩
  c1 := ⟨bs.getD 4 0, bs.getD 5 0, bs.getD 6 0, bs.getD 7 0⟩
  c2 := ⟨bs.getD 8 0, bs.getD 9 0, bs.getD 10 0, bs.getD 11 0⟩
  c3 := ⟨bs.getD 12 0, bs.getD 13 0, bs.getD 14 0, bs.getD 15 0⟩

def Column.toBytes (c : Column) : List UInt8 := [c.s0, c.s1, c.s2, c.s3]

def AesState.toBytes (s : AesState) : List UInt8 :=
  s.c0.toBytes ++ s.c1.toBytes ++ s.c2.toBytes ++ s.c3.toBytes

def AesState.map (f : Column → Column) (s : AesState) : AesState :=
  ⟨f s.c0, f s.c1, f s.c2, f s.c3⟩

@[simp] theorem AesState.length_toBytes (s : AesState) : s.toBytes.length = 16 := rfl

@[simp] theorem AesState.ofBytes_toBytes (s : AesState) : ofBytes s.toBytes = s := rfl

theorem AesState.toBytes_ofBytes {bs : List UInt8} (h : bs.length = 16) :
    (ofBytes bs).toBytes = bs := by
  match bs, h with
  | [_, _, _, _, _, _, _, _, _, _, _, _, _, _, _, _], _ => rfl

theorem AesState.map_map {f g : Column → Column} (h : ∀ c, f (g c) = c) (s : AesState) :
    (s.map g).map f = s := by
  simp [AesState.map, h]

/-! ## The transformations of a round -/

/-- Exclusive or of a column with a word of the key schedule. -/
def Column.addWord (c : Column) (w : UInt32) : Column :=
  ⟨c.s0 ^^^ (w >>> 24).toUInt8, c.s1 ^^^ (w >>> 16).toUInt8,
    c.s2 ^^^ (w >>> 8).toUInt8, c.s3 ^^^ w.toUInt8⟩

def addRoundKey (ctx : Aes256Ctx) (round : ℕ) (s : AesState) : AesState where
  c0 := s.c0.addWord (ctx.roundKeys.getD (round * 4) 0)
  c1 := s.c1.addWord (ctx.roundKeys.getD (round * 4 + 1) 0)
  c2 := s.c2.addWord (ctx.roundKeys.getD (round * 4 + 2) 0)
  c3 := s.c3.addWord (ctx.roundKeys.getD (round * 4 + 3) 0)

def subBytes (s : AesState) : AesState :=
  s.map fun c => ⟨subByte c.s0, subByte c.s1, subByte c.s2, subByte c.s3⟩

def invSubBytes (s : AesState) : AesState :=
  s.map fun c => ⟨invSubByte c.s0, invSubByte c.s1, invSubByte c.s2, invSubByte c.s3⟩

/-- `shift_rows`: row `r` moves `r` places to the left. -/
def shiftRows (s : AesState) : AesState where
  c0 := ⟨s.c0.s0, s.c1.s1, s.c2.s2, s.c3.s3⟩
  c1 := ⟨s.c1.s0, s.c2.s1, s.c3.s2, s.c0.s3⟩
  c2 := ⟨s.c2.s0, s.c3.s1, s.c0.s2, s.c1.s3⟩
  c3 := ⟨s.c3.s0, s.c0.s1, s.c1.s2, s.c2.s3⟩

/-- `inv_shift_rows`: row `r` moves `r` places to the right. -/
def invShiftRows (s : AesState) : AesState where
  c0 := ⟨s.c0.s0, s.c3.s1, s.c2.s2, s.c1.s3⟩
  c1 := ⟨s.c1.s0, s.c0.s1, s.c3.s2, s.c2.s3⟩
  c2 := ⟨s.c2.s0, s.c1.s1, s.c0.s2, s.c3.s3⟩
  c3 := ⟨s.c3.s0, s.c2.s1, s.c1.s2, s.c0.s3⟩

def mixColumn (c : Column) : Column where
  s0 := galoisMul c.s0 2 ^^^ galoisMul c.s1 3 ^^^ c.s2 ^^^ c.s3
  s1 := c.s0 ^^^ galoisMul c.s1 2 ^^^ galoisMul c.s2 3 ^^^ c.s3
  s2 := c.s0 ^^^ c.s1 ^^^ galoisMul c.s2 2 ^^^ galoisMul c.s3 3
  s3 := galoisMul c.s0 3 ^^^ c.s1 ^^^ c.s2 ^^^ galoisMul c.s3 2

def invMixColumn (c : Column) : Column where
  s0 := galoisMul c.s0 0x0E ^^^ galoisMul c.s1 0x0B ^^^ galoisMul c.s2 0x0D ^^^ galoisMul c.s3 0x09
  s1 := galoisMul c.s0 0x09 ^^^ galoisMul c.s1 0x0E ^^^ galoisMul c.s2 0x0B ^^^ galoisMul c.s3 0x0D
  s2 := galoisMul c.s0 0x0D ^^^ galoisMul c.s1 0x09 ^^^ galoisMul c.s2 0x0E ^^^ galoisMul c.s3 0x0B
  s3 := galoisMul c.s0 0x0B ^^^ galoisMul c.s1 0x0D ^^^ galoisMul c.s2 0x09 ^^^ galoisMul c.s3 0x0E

def mixColumns (s : AesState) : AesState := s.map mixColumn

def invMixColumns (s : AesState) : AesState := s.map invMixColumn

/-! ## The cipher -/

/-- A round of `aes256_encrypt_block` other than the last. -/
def encryptRound (ctx : Aes256Ctx) (s : AesState) (round : ℕ) : AesState :=
  addRoundKey ctx round (mixColumns (shiftRows (subBytes s)))

/-- A round of `aes256_decrypt_block` other than the last. -/
def decryptRound (ctx : Aes256Ctx) (s : AesState) (round : ℕ) : AesState :=
  invMixColumns (addRoundKey ctx round (invSubBytes (invShiftRows s)))

def encryptState (ctx : Aes256Ctx) (s : AesState) : AesState :=
  addRoundKey ctx 14
    (shiftRows (subBytes ((List.range' 1 13).foldl (encryptRound ctx) (addRoundKey ctx 0 s))))

def decryptState (ctx : Aes256Ctx) (s : AesState) : AesState :=
  addRoundKey ctx 0 (invSubBytes (invShiftRows
    ((List.range' 1 13).reverse.foldl (decryptRound ctx) (addRoundKey ctx 14 s))))

def aes256EncryptBlock (ctx : Aes256Ctx) (input : List UInt8) : List UInt8 :=
  (encryptState ctx (AesState.ofBytes input)).toBytes

def aes256DecryptBlock (ctx : Aes256Ctx) (input : List UInt8) : List UInt8 :=
  (decryptState ctx (AesState.ofBytes input)).toBytes

@[simp] theorem length_aes256EncryptBlock (ctx : Aes256Ctx) (input : List UInt8) :
    (aes256EncryptBlock ctx input).length = 16 := rfl

@[simp] theorem length_aes256DecryptBlock (ctx : Aes256Ctx) (input : List UInt8) :
    (aes256DecryptBlock ctx input).length = 16 := rfl

/-! ## Undoing a round -/

theorem invSubByte_subByte (b : UInt8) : invSubByte (subByte b) = b := by
  revert b
  apply forall_byte
  decide +kernel

theorem top_bit (a : UInt8) : a &&& 0x80 = 0 ∨ a &&& 0x80 = 0x80 := by
  revert a
  apply forall_byte
  decide +kernel

theorem xor_left_comm (a b c : UInt8) : a ^^^ (b ^^^ c) = b ^^^ (a ^^^ c) := by
  rw [← UInt8.xor_assoc, UInt8.xor_comm a, UInt8.xor_assoc]

theorem xor_and (a b c : UInt8) : (a ^^^ b) &&& c = (a &&& c) ^^^ (b &&& c) := by
  apply UInt8.toBitVec_inj.mp
  ext i
  simp [Bool.and_xor_distrib_right]

theorem xtime_xor (a b : UInt8) : xtime (a ^^^ b) = xtime a ^^^ xtime b := by
  have hs : (a ^^^ b) <<< 1 = (a <<< 1) ^^^ (b <<< 1) := UInt8.shiftLeft_xor
  unfold xtime
  rw [hs, xor_and]
  rcases top_bit a with ha | ha <;> rcases top_bit b with hb | hb <;>
    simp [ha, hb, UInt8.xor_assoc, UInt8.xor_comm, xor_left_comm]

theorem galoisStep_xor (p q a b k : UInt8) :
    galoisStep (p ^^^ q, a ^^^ b, k) =
      ((galoisStep (p, a, k)).1 ^^^ (galoisStep (q, b, k)).1,
        (galoisStep (p, a, k)).2.1 ^^^ (galoisStep (q, b, k)).2.1, k >>> 1) := by
  unfold galoisStep
  by_cases h : k &&& 1 ≠ 0
  · simp [h, xtime_xor, UInt8.xor_assoc, xor_left_comm]
  · simp [h, xtime_xor]

theorem galoisStep_iterate_xor (n : ℕ) (p q a b k : UInt8) :
    (galoisStep^[n] (p ^^^ q, a ^^^ b, k)).1 =
      (galoisStep^[n] (p, a, k)).1 ^^^ (galoisStep^[n] (q, b, k)).1 := by
  induction n generalizing p q a b k with
  | zero => rfl
  | succ n ih =>
    rw [Function.iterate_succ_apply, galoisStep_xor, ih]
    rfl

theorem galoisMul_xor (a b k : UInt8) :
    galoisMul (a ^^^ b) k = galoisMul a k ^^^ galoisMul b k := by
  have h := galoisStep_iterate_xor 8 0 0 a b k
  rwa [UInt8.xor_self] at h

def Column.xor (c d : Column) : Column :=
  ⟨c.s0 ^^^ d.s0, c.s1 ^^^ d.s1, c.s2 ^^^ d.s2, c.s3 ^^^ d.s3⟩

theorem mixColumn_xor (c d : Column) :
    mixColumn (c.xor d) = (mixColumn c).xor (mixColumn d) := by
  apply Column.ext <;>
    simp only [mixColumn, Column.xor, galoisMul_xor, UInt8.xor_assoc, xor_left_comm]

theorem invMixColumn_xor (c d : Column) :
    invMixColumn (c.xor d) = (invMixColumn c).xor (invMixColumn d) := by
  apply Column.ext <;>
    simp only [invMixColumn, Column.xor, galoisMul_xor, UInt8.xor_assoc, xor_left_comm]

/-- The byte with bit `i` alone set. -/
def bitByte (i : ℕ) : UInt8 := UInt8.ofNat (2 ^ i)

theorem byte_eq_bits : ∀ n < 256, UInt8.ofNat n =
    ((List.range 8).filter n.testBit).foldl (fun a i => a ^^^ bitByte i) 0 := by
  decide +kernel

theorem byte_induction {p : UInt8 → Prop} (zero : p 0) (bit : ∀ i < 8, p (bitByte i))
    (xor : ∀ a b, p a → p b → p (a ^^^ b)) (b : UInt8) : p b := by
  revert b
  apply forall_byte
  intro n hn
  rw [byte_eq_bits n hn]
  apply List.foldlRecOn
  · exact zero
  · intro a ha i hi
    apply xor a (bitByte i) ha
    apply bit
    exact List.mem_range.mp (List.mem_of_mem_filter hi)

instance neZero_four : NeZero 4 := ⟨by decide⟩

/-- The columns with one byte set, as a function of its place. -/
def Column.single (i : Fin 4) (a : UInt8) : Column :=
  ⟨if i = 0 then a else 0, if i = 1 then a else 0, if i = 2 then a else 0, if i = 3 then a else 0⟩

theorem Column.single_xor (i : Fin 4) (a b : UInt8) :
    single i (a ^^^ b) = (single i a).xor (single i b) := by
  apply Column.ext <;> simp only [single, xor] <;> split <;> simp

theorem Column.eq_xor_singles (c : Column) :
    c = (single 0 c.s0).xor ((single 1 c.s1).xor ((single 2 c.s2).xor (single 3 c.s3))) := by
  simp [Column.xor, single]

/-- Additive maps undo each other when they do so on columns with a single bit set. -/
theorem comp_eq_of_bits {f g : Column → Column} (hf : ∀ c d, f (c.xor d) = (f c).xor (f d))
    (hg : ∀ c d, g (c.xor d) = (g c).xor (g d))
    (hzero : ∀ i, f (g (.single i 0)) = .single i 0)
    (hbit : ∀ i, ∀ j < 8, f (g (.single i (bitByte j))) = .single i (bitByte j)) (c : Column) :
    f (g c) = c := by
  have hsingle : ∀ i a, f (g (.single i a)) = .single i a := by
    intro i a
    induction a using byte_induction with
    | zero => exact hzero i
    | bit j hj => exact hbit i j hj
    | xor a b ha hb => rw [Column.single_xor, hg, hf, ha, hb]
  conv_lhs => rw [c.eq_xor_singles]
  simp only [hf, hg, hsingle]
  exact c.eq_xor_singles.symm

theorem invMixColumn_mixColumn (c : Column) : invMixColumn (mixColumn c) = c :=
  comp_eq_of_bits invMixColumn_xor mixColumn_xor (by decide +kernel) (by decide +kernel) c

theorem mixColumn_invMixColumn (c : Column) : mixColumn (invMixColumn c) = c :=
  comp_eq_of_bits mixColumn_xor invMixColumn_xor (by decide +kernel) (by decide +kernel) c

theorem invMixColumns_mixColumns (s : AesState) : invMixColumns (mixColumns s) = s :=
  AesState.map_map invMixColumn_mixColumn s

theorem mixColumns_invMixColumns (s : AesState) : mixColumns (invMixColumns s) = s :=
  AesState.map_map mixColumn_invMixColumn s

theorem invSubBytes_subBytes (s : AesState) : invSubBytes (subBytes s) = s :=
  AesState.map_map (fun c => by simp [invSubByte_subByte]) s

theorem subByte_invSubByte (b : UInt8) : subByte (invSubByte b) = b := by
  revert b
  apply forall_byte
  decide +kernel

theorem subBytes_invSubBytes (s : AesState) : subBytes (invSubBytes s) = s :=
  AesState.map_map (fun c => by simp [subByte_invSubByte]) s

theorem shiftRows_invShiftRows (s : AesState) : shiftRows (invShiftRows s) = s := rfl

theorem invShiftRows_shiftRows (s : AesState) : invShiftRows (shiftRows s) = s := rfl

theorem Column.addWord_addWord (c : Column) (w : UInt32) : (c.addWord w).addWord w = c := by
  simp [Column.addWord, UInt8.xor_assoc]

theorem addRoundKey_addRoundKey (ctx : Aes256Ctx) (round : ℕ) (s : AesState) :
    addRoundKey ctx round (addRoundKey ctx round s) = s := by
  simp [addRoundKey, Column.addWord_addWord]

/-- The rounds of decryption, in reverse, undo the rounds of encryption; the substitution and the
shift that open a round of one stand where those that close a round of the other do. -/
theorem foldl_decryptRound (ctx : Aes256Ctx) (rounds : List ℕ) (s : AesState) :
    rounds.reverse.foldl (decryptRound ctx)
        (shiftRows (subBytes (rounds.foldl (encryptRound ctx) s))) =
      shiftRows (subBytes s) := by
  induction rounds using List.reverseRecOn generalizing s with
  | nil => rfl
  | append_singleton rounds r ih =>
    have hr : ∀ t, decryptRound ctx (shiftRows (subBytes (encryptRound ctx t r))) r =
        shiftRows (subBytes t) := by
      intro t
      rw [decryptRound, invShiftRows_shiftRows, invSubBytes_subBytes, encryptRound,
        addRoundKey_addRoundKey, invMixColumns_mixColumns]
    rw [List.reverse_append, List.reverse_singleton, List.singleton_append, List.foldl_cons,
      List.foldl_append, List.foldl_cons, List.foldl_nil, hr, ih]

theorem decryptState_encryptState (ctx : Aes256Ctx) (s : AesState) :
    decryptState ctx (encryptState ctx s) = s := by
  unfold decryptState encryptState
  rw [addRoundKey_addRoundKey, foldl_decryptRound, invShiftRows_shiftRows, invSubBytes_subBytes,
    addRoundKey_addRoundKey]

theorem foldl_encryptRound (ctx : Aes256Ctx) (rounds : List ℕ) (s : AesState) :
    rounds.foldl (encryptRound ctx)
        (invSubBytes (invShiftRows (rounds.reverse.foldl (decryptRound ctx) s))) =
      invSubBytes (invShiftRows s) := by
  induction rounds generalizing s with
  | nil => rfl
  | cons r rounds ih =>
    have hr : ∀ t, encryptRound ctx (invSubBytes (invShiftRows (decryptRound ctx t r))) r =
        invSubBytes (invShiftRows t) := by
      intro t
      rw [encryptRound, subBytes_invSubBytes, shiftRows_invShiftRows, decryptRound,
        mixColumns_invMixColumns, addRoundKey_addRoundKey]
    rw [List.reverse_cons, List.foldl_append, List.foldl_cons]
    change rounds.foldl (encryptRound ctx) (encryptRound ctx (invSubBytes (invShiftRows
      (decryptRound ctx (rounds.reverse.foldl (decryptRound ctx) s) r))) r) = _
    rw [hr, ih]

theorem encryptState_decryptState (ctx : Aes256Ctx) (s : AesState) :
    encryptState ctx (decryptState ctx s) = s := by
  unfold encryptState decryptState
  rw [addRoundKey_addRoundKey, foldl_encryptRound, subBytes_invSubBytes, shiftRows_invShiftRows,
    addRoundKey_addRoundKey]

theorem aes256EncryptBlock_decryptBlock (ctx : Aes256Ctx) {input : List UInt8}
    (h : input.length = 16) : aes256EncryptBlock ctx (aes256DecryptBlock ctx input) = input := by
  rw [aes256EncryptBlock, aes256DecryptBlock, AesState.ofBytes_toBytes, encryptState_decryptState,
    AesState.toBytes_ofBytes h]

theorem aes256DecryptBlock_encryptBlock (ctx : Aes256Ctx) {input : List UInt8}
    (h : input.length = 16) : aes256DecryptBlock ctx (aes256EncryptBlock ctx input) = input := by
  rw [aes256DecryptBlock, aes256EncryptBlock, AesState.ofBytes_toBytes, decryptState_encryptState,
    AesState.toBytes_ofBytes h]

end StyxOS
