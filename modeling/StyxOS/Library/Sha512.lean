import StyxOS.Library.BlockHash
import StyxOS.Library.Bytes
import Mathlib.Analysis.SpecialFunctions.Pow.NthRootLemmas
import Mathlib.Data.Nat.Prime.Basic

/-! # SHA-512

The hash of the standard as an iterated hash: blocks of 128 bytes, 80 rounds to a
block, and a padding that ends with the length in bits. The constants are what the
standard says they are, digits of the roots of the first primes.
-/

namespace Sha512

open ByteMem BlockHash

/-! ## Constants -/

/-- The first 64 bits of the fractional part of the root of a number. -/
def rootBits (degree n : ℕ) : UInt64 := UInt64.ofNat (Nat.nthRoot degree (n * 2 ^ (64 * degree)))

def primes : List ℕ := (List.range 410).filter Nat.Prime

def roundConstants : List UInt64 := primes.map (rootBits 3)

theorem prime_iff_of_lt {n : ℕ} (h : n < 21 * 21) :
    n.Prime ↔ 2 ≤ n ∧ ∀ m ∈ List.range' 2 19, m < n → n % m ≠ 0 := by
  constructor
  · intro hn
    refine ⟨hn.two_le, fun m hm hlt hmod => ?_⟩
    rw [List.mem_range'_1] at hm
    exact (Nat.prime_def_lt'.mp hn).2 m hm.1 hlt (Nat.dvd_of_mod_eq_zero hmod)
  · rintro ⟨htwo, hnone⟩
    refine Nat.prime_def_le_sqrt.mpr ⟨htwo, fun m hm hle hdvd => ?_⟩
    have hsqrt : n.sqrt < 21 := Nat.sqrt_lt.mpr h
    exact hnone m (List.mem_range'_1.mpr ⟨hm, by omega⟩) (hle.trans_lt (Nat.sqrt_lt_self htwo))
      (Nat.mod_eq_zero_of_dvd hdvd)

theorem primes_eq : primes =
    [2, 3, 5, 7, 11, 13, 17, 19, 23, 29, 31, 37, 41, 43, 47, 53, 59, 61, 67, 71, 73, 79, 83, 89, 97,
      101, 103, 107, 109, 113, 127, 131, 137, 139, 149, 151, 157, 163, 167, 173, 179, 181, 191, 193,
      197, 199, 211, 223, 227, 229, 233, 239, 241, 251, 257, 263, 269, 271, 277, 281, 283, 293, 307,
      311, 313, 317, 331, 337, 347, 349, 353, 359, 367, 373, 379, 383, 389, 397, 401, 409] := by
  have htrial : primes = (List.range 410).filter
      fun n => decide (2 ≤ n ∧ ∀ m ∈ List.range' 2 19, m < n → n % m ≠ 0) :=
    List.filter_congr fun n hn =>
      decide_eq_decide.mpr (prime_iff_of_lt ((List.mem_range.mp hn).trans (by decide)))
  rw [htrial]
  decide +kernel

/-! ## Functions -/

/-- The words of a hash state, or the working variables of a block. -/
structure State where
  a : UInt64
  b : UInt64
  c : UInt64
  d : UInt64
  e : UInt64
  f : UInt64
  g : UInt64
  h : UInt64

/-- The initial state, from the square roots of the first eight primes. -/
def start : State where
  a := rootBits 2 2
  b := rootBits 2 3
  c := rootBits 2 5
  d := rootBits 2 7
  e := rootBits 2 11
  f := rootBits 2 13
  g := rootBits 2 17
  h := rootBits 2 19

def rotateRight (x : UInt64) (n : ℕ) : UInt64 := UInt64.ofBitVec (x.toBitVec.rotateRight n)

def choose (x y z : UInt64) : UInt64 := (x &&& y) ^^^ (~~~x &&& z)

def majority (x y z : UInt64) : UInt64 := (x &&& y) ^^^ (x &&& z) ^^^ (y &&& z)

def upperSigma0 (x : UInt64) : UInt64 := rotateRight x 28 ^^^ rotateRight x 34 ^^^ rotateRight x 39

def upperSigma1 (x : UInt64) : UInt64 := rotateRight x 14 ^^^ rotateRight x 18 ^^^ rotateRight x 41

def lowerSigma0 (x : UInt64) : UInt64 := rotateRight x 1 ^^^ rotateRight x 8 ^^^ (x >>> 7)

def lowerSigma1 (x : UInt64) : UInt64 := rotateRight x 19 ^^^ rotateRight x 61 ^^^ (x >>> 6)

/-- Word `t` of the schedule of a block. -/
def schedule (block : List UInt8) (t : ℕ) : UInt64 :=
  if t < 16 then UInt64.ofNat (beVal ((block.drop (8 * t)).take 8))
  else
    lowerSigma1 (schedule block (t - 2)) + schedule block (t - 7) +
      lowerSigma0 (schedule block (t - 15)) + schedule block (t - 16)

/-- One round, with the constant and the schedule word of its index. -/
def round (v : State) (k w : UInt64) : State :=
  let t1 := v.h + upperSigma1 v.e + choose v.e v.f v.g + k + w
  let t2 := upperSigma0 v.a + majority v.a v.b v.c
  { a := t1 + t2, b := v.a, c := v.b, d := v.c, e := v.d + t1, f := v.e, g := v.f, h := v.g }

/-- Eighty rounds, added to the state they start from. -/
def compress (s : State) (block : List UInt8) : State :=
  let v := (List.range 80).foldl
    (fun v t => round v (roundConstants.getD t 0) (schedule block t)) s
  { a := s.a + v.a, b := s.b + v.b, c := s.c + v.c, d := s.d + v.d,
    e := s.e + v.e, f := s.f + v.f, g := s.g + v.g, h := s.h + v.h }

theorem exists_zeros (len : ℕ) : ∃ k, 128 ∣ len + 1 + k + 16 := ⟨111 + 127 * len, by omega⟩

/-- The least number of zero bytes that makes a padded message one of whole blocks. -/
def zeros (len : ℕ) : ℕ := Nat.find (exists_zeros len)

/-- A message with its padding: the byte `0x80`, zeros, and its length in bits. -/
def padded (m : List UInt8) : List UInt8 :=
  m ++ 0x80 :: (List.replicate (zeros m.length) 0 ++ beBytes 16 (8 * m.length))

def State.toBytes (s : State) : List UInt8 :=
  [s.a, s.b, s.c, s.d, s.e, s.f, s.g, s.h].flatMap fun w => beBytes 8 w.toNat

def hash (m : List UInt8) : List UInt8 := (fold compress 128 start (padded m)).toBytes

/-! ## Laws -/

theorem rotateRight_eq (x : UInt64) {n : ℕ} (h : n < 64) :
    rotateRight x n = UInt64.ofBitVec (x.toBitVec >>> n ||| x.toBitVec <<< (64 - n)) := by
  rw [rotateRight, BitVec.rotateRight_eq_rotateRightAux_of_lt h, BitVec.rotateRightAux]

theorem schedule_of_ge {block : List UInt8} {t : ℕ} (h : 16 ≤ t) :
    schedule block t =
      lowerSigma1 (schedule block (t - 2)) + schedule block (t - 7) +
        lowerSigma0 (schedule block (t - 15)) + schedule block (t - 16) := by
  rw [schedule, if_neg (Nat.not_lt.mpr h)]

theorem zeros_eq (len : ℕ) : zeros len = (239 - len % 128) % 128 := by
  rw [zeros, Nat.find_eq_iff]
  constructor
  · omega
  · intro k hk
    omega

end Sha512
