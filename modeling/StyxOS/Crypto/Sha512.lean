import StyxOS.Library.Bytes

/-! # SHA-512

The hash of `crypto.c`, with HMAC and HKDF over it. The buffer of a hash context
is kept as the bytes gathered since the last block.
-/

namespace StyxOS

open ByteMem

/-- The round constants `k` of SHA-512. -/
def sha512K : List UInt64 :=
  [0x428a2f98d728ae22, 0x7137449123ef65cd, 0xb5c0fbcfec4d3b2f, 0xe9b5dba58189dbbc,
    0x3956c25bf348b538, 0x59f111f1b605d019, 0x923f82a4af194f9b, 0xab1c5ed5da6d8118,
    0xd807aa98a3030242, 0x12835b0145706fbe, 0x243185be4ee4b28c, 0x550c7dc3d5ffb4e2,
    0x72be5d74f27b896f, 0x80deb1fe3b1696b1, 0x9bdc06a725c71235, 0xc19bf174cf692694,
    0xe49b69c19ef14ad2, 0xefbe4786384f25e3, 0x0fc19dc68b8cd5b5, 0x240ca1cc77ac9c65,
    0x2de92c6f592b0275, 0x4a7484aa6ea6e483, 0x5cb0a9dcbd41fbd4, 0x76f988da831153b5,
    0x983e5152ee66dfab, 0xa831c66d2db43210, 0xb00327c898fb213f, 0xbf597fc7beef0ee4,
    0xc6e00bf33da88fc2, 0xd5a79147930aa725, 0x06ca6351e003826f, 0x142929670a0e6e70,
    0x27b70a8546d22ffc, 0x2e1b21385c26c926, 0x4d2c6dfc5ac42aed, 0x53380d139d95b3df,
    0x650a73548baf63de, 0x766a0abb3c77b2a8, 0x81c2c92e47edaee6, 0x92722c851482353b,
    0xa2bfe8a14cf10364, 0xa81a664bbc423001, 0xc24b8b70d0f89791, 0xc76c51a30654be30,
    0xd192e819d6ef5218, 0xd69906245565a910, 0xf40e35855771202a, 0x106aa07032bbd1b8,
    0x19a4c116b8d2d0c8, 0x1e376c085141ab53, 0x2748774cdf8eeb99, 0x34b0bcb5e19b48a8,
    0x391c0cb3c5c95a63, 0x4ed8aa4ae3418acb, 0x5b9cca4f7763e373, 0x682e6ff3d6b2b8a3,
    0x748f82ee5defb2fc, 0x78a5636f43172f60, 0x84c87814a1f0ab72, 0x8cc702081a6439ec,
    0x90befffa23631e28, 0xa4506cebde82bde9, 0xbef9a3f7b2c67915, 0xc67178f2e372532b,
    0xca273eceea26619c, 0xd186b8c721c0c207, 0xeada7dd6cde0eb1e, 0xf57d4f7fee6ed178,
    0x06f067aa72176fba, 0x0a637dc5a2c898a6, 0x113f9804bef90dae, 0x1b710b35131c471b,
    0x28db77f523047d84, 0x32caab7b40c72493, 0x3c9ebe0a15c9bebc, 0x431d67c49c100d4c,
    0x4cc5d4becb3e42b6, 0x597f299cfc657e2a, 0x5fcb6fab3ad6faec, 0x6c44198c4a475817]

def rotr (x n : UInt64) : UInt64 := (x >>> n) ||| (x <<< (64 - n))

def ch (x y z : UInt64) : UInt64 := (x &&& y) ^^^ (~~~x &&& z)

def maj (x y z : UInt64) : UInt64 := (x &&& y) ^^^ (x &&& z) ^^^ (y &&& z)

/-- `Sigma0` and `Sigma1`. -/
def bigSigma0 (x : UInt64) : UInt64 := rotr x 28 ^^^ rotr x 34 ^^^ rotr x 39

def bigSigma1 (x : UInt64) : UInt64 := rotr x 14 ^^^ rotr x 18 ^^^ rotr x 41

/-- `sigma0` and `sigma1`. -/
def smallSigma0 (x : UInt64) : UInt64 := rotr x 1 ^^^ rotr x 8 ^^^ (x >>> 7)

def smallSigma1 (x : UInt64) : UInt64 := rotr x 19 ^^^ rotr x 61 ^^^ (x >>> 6)

/-- The eight words of a hash state, or of the working variables of a block. -/
structure Sha512State where
  a : UInt64
  b : UInt64
  c : UInt64
  d : UInt64
  e : UInt64
  f : UInt64
  g : UInt64
  h : UInt64
deriving DecidableEq, Repr

/-- `sha512_ctx_t`. -/
structure Sha512Ctx where
  state : Sha512State
  bitlen : UInt64
  buffer : List UInt8

/-- The schedule of a block, latest word first, extended to `n` words beyond the first sixteen. -/
def extendSchedule : ℕ → List UInt64 → List UInt64
  | 0, m => m
  | n + 1, m =>
    extendSchedule n
      ((smallSigma1 (m.getD 1 0) + m.getD 6 0 + smallSigma0 (m.getD 14 0) + m.getD 15 0) :: m)

/-- The eighty words of the schedule of a block. -/
def messageSchedule (data : List UInt8) : List UInt64 :=
  let words := (List.range 16).map fun i => UInt64.ofNat (beVal ((data.drop (8 * i)).take 8))
  (extendSchedule 64 words.reverse).reverse

/-- One round, with the constant and the schedule word of its index. -/
def sha512Round (v : Sha512State) (km : UInt64 × UInt64) : Sha512State :=
  let t1 := v.h + bigSigma1 v.e + ch v.e v.f v.g + km.1 + km.2
  let t2 := bigSigma0 v.a + maj v.a v.b v.c
  { a := t1 + t2, b := v.a, c := v.b, d := v.c, e := v.d + t1, f := v.e, g := v.f, h := v.g }

def sha512Transform (s : Sha512State) (data : List UInt8) : Sha512State :=
  let v := (sha512K.zip (messageSchedule data)).foldl sha512Round s
  { a := s.a + v.a, b := s.b + v.b, c := s.c + v.c, d := s.d + v.d,
    e := s.e + v.e, f := s.f + v.f, g := s.g + v.g, h := s.h + v.h }

def sha512Init : Sha512Ctx where
  state :=
    { a := 0x6a09e667f3bcc908, b := 0xbb67ae8584caa73b, c := 0x3c6ef372fe94f82b,
      d := 0xa54ff53a5f1d36f1, e := 0x510e527fade682d1, f := 0x9b05688c2b3e6c1f,
      g := 0x1f83d9abfb41bd6b, h := 0x5be0cd19137e2179 }
  bitlen := 0
  buffer := []

/-- The loop body of `sha512_update`. -/
def sha512Byte (ctx : Sha512Ctx) (b : UInt8) : Sha512Ctx :=
  let buffer := ctx.buffer ++ [b]
  if buffer.length = 128 then
    { state := sha512Transform ctx.state buffer, bitlen := ctx.bitlen + 8, buffer := [] }
  else { ctx with bitlen := ctx.bitlen + 8, buffer := buffer }

def sha512Update (ctx : Sha512Ctx) (data : List UInt8) : Sha512Ctx := data.foldl sha512Byte ctx

def Sha512State.toBytes (s : Sha512State) : List UInt8 :=
  [s.a, s.b, s.c, s.d, s.e, s.f, s.g, s.h].flatMap fun w => beBytes 8 w.toNat

def sha512Final (ctx : Sha512Ctx) : List UInt8 :=
  let buffer := ctx.buffer ++ [0x80]
  let (state, buffer) :=
    if buffer.length > 112 then
      (sha512Transform ctx.state (buffer ++ List.replicate (128 - buffer.length) 0), [])
    else (ctx.state, buffer)
  let block := buffer ++ List.replicate (112 - buffer.length) 0 ++ List.replicate 8 0 ++
    beBytes 8 ctx.bitlen.toNat
  (sha512Transform state block).toBytes

def sha512 (data : List UInt8) : List UInt8 := sha512Final (sha512Update sha512Init data)

def hmacSha512 (key data : List UInt8) : List UInt8 :=
  let key := if key.length > 128 then sha512 key else key
  let kPad := key ++ List.replicate (128 - key.length) 0
  let digest :=
    sha512Final (sha512Update (sha512Update sha512Init (kPad.map (· ^^^ 0x36))) data)
  sha512Final (sha512Update (sha512Update sha512Init (kPad.map (· ^^^ 0x5C))) digest)

def hkdfSha512Extract (salt ikm : List UInt8) : List UInt8 :=
  hmacSha512 (if salt.length = 0 then List.replicate 64 0 else salt) ikm

/-- The loop of `hkdf_sha512_expand`: `n` blocks from index `i` on, after the block `t`. -/
def hkdfBlocks (prk info : List UInt8) : ℕ → ℕ → List UInt8 → List UInt8
  | 0, _, _ => []
  | n + 1, i, t =>
    let t := hmacSha512 prk ((if i > 1 then t else []) ++ info.take 128 ++ [UInt8.ofNat i])
    t ++ hkdfBlocks prk info n (i + 1) t

def hkdfSha512Expand (prk info : List UInt8) (okmLen : ℕ) : List UInt8 :=
  (hkdfBlocks prk info ((okmLen + 63) / 64) 1 []).take okmLen

@[simp] theorem Sha512State.length_toBytes (s : Sha512State) : s.toBytes.length = 64 := by
  simp [toBytes]

@[simp] theorem length_sha512Final (ctx : Sha512Ctx) : (sha512Final ctx).length = 64 := by
  unfold sha512Final
  dsimp only
  exact Sha512State.length_toBytes _

@[simp] theorem length_sha512 (data : List UInt8) : (sha512 data).length = 64 := by
  rw [sha512, length_sha512Final]

@[simp] theorem length_hmacSha512 (key data : List UInt8) : (hmacSha512 key data).length = 64 := by
  rw [hmacSha512, length_sha512Final]

theorem length_hkdfBlocks (prk info : List UInt8) (n i : ℕ) (t : List UInt8) :
    (hkdfBlocks prk info n i t).length = 64 * n := by
  induction n generalizing i t with
  | zero => rfl
  | succ n ih =>
    simp only [hkdfBlocks, List.length_append, length_hmacSha512, ih]
    omega

@[simp] theorem length_hkdfSha512Expand (prk info : List UInt8) (okmLen : ℕ) :
    (hkdfSha512Expand prk info okmLen).length = okmLen := by
  rw [hkdfSha512Expand, List.length_take, length_hkdfBlocks]
  omega

/-! ## Collisions -/

theorem sha512Update_append (ctx : Sha512Ctx) (as bs : List UInt8) :
    sha512Update ctx (as ++ bs) = sha512Update (sha512Update ctx as) bs := List.foldl_append

/-- The first block of either hash of `hmac_sha512`, for a key that is no longer than a block. -/
def keyBlock (key : List UInt8) (pad : UInt8) : List UInt8 :=
  (key ++ List.replicate (128 - key.length) 0).map (· ^^^ pad)

def hmacInner (key data : List UInt8) : List UInt8 := keyBlock key 0x36 ++ data

def hmacOuter (key data : List UInt8) : List UInt8 :=
  keyBlock key 0x5C ++ sha512 (hmacInner key data)

def Sha512Collide (as bs : List UInt8) : Prop := as ≠ bs ∧ sha512 as = sha512 bs

/-- Two codes are equal because one of their hashes collides. -/
def HmacCollide (k₁ m₁ k₂ m₂ : List UInt8) : Prop :=
  Sha512Collide (hmacOuter k₁ m₁) (hmacOuter k₂ m₂) ∨
    Sha512Collide (hmacInner k₁ m₁) (hmacInner k₂ m₂) ∧ k₁ = k₂

theorem hmacSha512_eq {key : List UInt8} (h : key.length ≤ 128) (data : List UInt8) :
    hmacSha512 key data = sha512 (hmacOuter key data) := by
  rw [hmacSha512, if_neg (Nat.not_lt.mpr h)]
  simp only [← sha512Update_append]
  rfl

theorem keyBlock_inj {k₁ k₂ : List UInt8} {pad : UInt8} (hlen : k₁.length = k₂.length)
    (h : keyBlock k₁ pad = keyBlock k₂ pad) : k₁ = k₂ := by
  have hxor : Function.Injective fun b : UInt8 => b ^^^ pad := fun a b hab =>
    (UInt8.xor_left_inj pad).mp hab
  exact List.append_inj_left (List.map_injective_iff.mpr hxor h) hlen

theorem hmacSha512_eq_iff {k₁ k₂ m₁ m₂ : List UInt8} (hlen : k₁.length = k₂.length)
    (hle : k₁.length ≤ 128) :
    hmacSha512 k₁ m₁ = hmacSha512 k₂ m₂ ↔ (k₁ = k₂ ∧ m₁ = m₂) ∨ HmacCollide k₁ m₁ k₂ m₂ := by
  have hblock : (keyBlock k₁ 0x5C).length = (keyBlock k₂ 0x5C).length := by
    simp only [keyBlock, List.length_map, List.length_append, List.length_replicate, hlen]
  rw [hmacSha512_eq hle, hmacSha512_eq (hlen ▸ hle)]
  constructor
  · intro h
    by_cases houter : hmacOuter k₁ m₁ = hmacOuter k₂ m₂
    · obtain ⟨hkey, hdigest⟩ := List.append_inj houter hblock
      obtain rfl := keyBlock_inj hlen hkey
      by_cases hm : m₁ = m₂
      · exact .inl ⟨rfl, hm⟩
      · exact .inr (.inr ⟨⟨fun he => hm (List.append_cancel_left he), hdigest⟩, rfl⟩)
    · exact .inr (.inl ⟨houter, h⟩)
  · rintro (⟨rfl, rfl⟩ | hcollide | ⟨hcollide, rfl⟩)
    · rfl
    · exact hcollide.2
    · rw [hmacOuter, hmacOuter, hcollide.2]

theorem hkdfSha512Expand_64 (prk info : List UInt8) :
    hkdfSha512Expand prk info 64 = hmacSha512 prk (info.take 128 ++ [1]) := by
  simp [hkdfSha512Expand, hkdfBlocks]

end StyxOS
