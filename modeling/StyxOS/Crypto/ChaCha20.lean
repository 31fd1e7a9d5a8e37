import StyxOS.Library.Bytes

/-! # ChaCha20

The stream cipher of `chacha20.c`: sixteen words of state, twenty rounds a
block, and a counter that advances with each block of 64 bytes.
-/

namespace StyxOS

open ByteMem

def rotl32 (v : UInt32) (n : UInt32) : UInt32 := (v <<< n) ||| (v >>> (32 - n))

/-- `QR` on the words at four places of the state. -/
def quarterRound (x : List UInt32) (ia ib ic id : ℕ) : List UInt32 :=
  let a := x.getD ia 0 + x.getD ib 0
  let d := rotl32 (x.getD id 0 ^^^ a) 16
  let c := x.getD ic 0 + d
  let b := rotl32 (x.getD ib 0 ^^^ c) 12
  let a := a + b
  let d := rotl32 (d ^^^ a) 8
  let c := c + d
  let b := rotl32 (b ^^^ c) 7
  (((x.set ia a).set ib b).set ic c).set id d

/-- The column round and the diagonal round of the loop of `chacha20_block`. -/
def doubleRound (x : List UInt32) : List UInt32 :=
  [(0, 4, 8, 12), (1, 5, 9, 13), (2, 6, 10, 14), (3, 7, 11, 15),
    (0, 5, 10, 15), (1, 6, 11, 12), (2, 7, 8, 13), (3, 4, 9, 14)].foldl
    (fun x i => quarterRound x i.1 i.2.1 i.2.2.1 i.2.2.2) x

def chacha20Block (input : List UInt32) : List UInt8 :=
  (List.zipWith (· + ·) (doubleRound^[10] input) input).flatMap fun v => leBytes 4 v.toNat

/-- The word that `load32_le` reads at a position. -/
def load32Le (bs : List UInt8) (i : ℕ) : UInt32 := UInt32.ofNat (leVal ((bs.drop i).take 4))

def chacha20Init (key nonce : List UInt8) (counter : UInt32) : List UInt32 :=
  [0x61707865, 0x3320646e, 0x79622d32, 0x6b206574] ++
    ((List.range 8).map fun i => load32Le key (i * 4)) ++ [counter] ++
    ((List.range 3).map fun i => load32Le nonce (i * 4))

/-- The loop of `chacha20_xor` over a number of blocks. -/
def chacha20XorBlocks : ℕ → List UInt32 → List UInt8 → List UInt8
  | 0, _, _ => []
  | n + 1, state, buf =>
    xorBytes (buf.take 64) (chacha20Block state) ++
      chacha20XorBlocks n (state.set 12 (state.getD 12 0 + 1)) (buf.drop 64)

def chacha20Xor (state : List UInt32) (buf : List UInt8) : List UInt8 :=
  chacha20XorBlocks ((buf.length + 63) / 64) state buf

def chacha20Encrypt (key nonce : List UInt8) (counter : UInt32) (src : List UInt8) : List UInt8 :=
  chacha20Xor (chacha20Init key nonce counter) src

/-! ## The keystream -/

@[simp] theorem length_quarterRound (x : List UInt32) (ia ib ic id : ℕ) :
    (quarterRound x ia ib ic id).length = x.length := by
  simp [quarterRound]

@[simp] theorem length_doubleRound (x : List UInt32) : (doubleRound x).length = x.length := by
  simp [doubleRound]

theorem length_doubleRounds (n : ℕ) (x : List UInt32) : (doubleRound^[n] x).length = x.length := by
  induction n generalizing x with
  | zero => rfl
  | succ n ih => rw [Function.iterate_succ_apply, ih, length_doubleRound]

theorem length_chacha20Block (input : List UInt32) :
    (chacha20Block input).length = 4 * input.length := by
  simp only [chacha20Block, List.length_flatMap, length_leBytes, List.map_const',
    List.sum_replicate_nat, List.length_zipWith, length_doubleRounds, Nat.min_self, Nat.mul_comm]

@[simp] theorem length_chacha20Init (key nonce : List UInt8) (counter : UInt32) :
    (chacha20Init key nonce counter).length = 16 := by
  simp [chacha20Init]

def chacha20Keystream : ℕ → List UInt32 → List UInt8
  | 0, _ => []
  | n + 1, state =>
    chacha20Block state ++ chacha20Keystream n (state.set 12 (state.getD 12 0 + 1))

theorem length_chacha20Keystream {n : ℕ} {state : List UInt32} (h : state.length = 16) :
    (chacha20Keystream n state).length = 64 * n := by
  induction n generalizing state with
  | zero => rfl
  | succ n ih =>
    simp only [chacha20Keystream, List.length_append, length_chacha20Block, h]
    rw [ih (by simpa using h)]
    omega

theorem chacha20XorBlocks_eq {n : ℕ} {state : List UInt32} {buf : List UInt8}
    (h : state.length = 16) :
    chacha20XorBlocks n state buf = xorBytes buf (chacha20Keystream n state) := by
  induction n generalizing state buf with
  | zero => simp [chacha20XorBlocks, chacha20Keystream]
  | succ n ih =>
    rw [chacha20XorBlocks, chacha20Keystream, xorBytes_append_right, length_chacha20Block, h,
      ih (by simpa using h)]

/-- The keystream for a text of `n` bytes. -/
def chacha20Mask (key nonce : List UInt8) (counter : UInt32) (n : ℕ) : List UInt8 :=
  chacha20Keystream ((n + 63) / 64) (chacha20Init key nonce counter)

theorem le_length_chacha20Mask (key nonce : List UInt8) (counter : UInt32) (n : ℕ) :
    n ≤ (chacha20Mask key nonce counter n).length := by
  rw [chacha20Mask, length_chacha20Keystream (length_chacha20Init _ _ _)]
  omega

variable (key nonce : List UInt8) (counter : UInt32) (src : List UInt8)

theorem chacha20Encrypt_eq :
    chacha20Encrypt key nonce counter src =
      xorBytes src (chacha20Mask key nonce counter src.length) :=
  chacha20XorBlocks_eq (length_chacha20Init _ _ _)

@[simp] theorem length_chacha20Encrypt :
    (chacha20Encrypt key nonce counter src).length = src.length := by
  rw [chacha20Encrypt_eq, length_xorBytes]
  exact Nat.min_eq_left (le_length_chacha20Mask key nonce counter src.length)

theorem chacha20Encrypt_chacha20Encrypt :
    chacha20Encrypt key nonce counter (chacha20Encrypt key nonce counter src) = src := by
  rw [chacha20Encrypt_eq key nonce counter (chacha20Encrypt key nonce counter src),
    length_chacha20Encrypt, chacha20Encrypt_eq]
  exact xorBytes_xorBytes (le_length_chacha20Mask key nonce counter src.length)

end StyxOS
