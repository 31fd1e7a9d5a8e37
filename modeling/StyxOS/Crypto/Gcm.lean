import StyxOS.Crypto.Aes

/-! # AES-256-GCM

The authenticated cipher of `gcm.c`. The keystream depends on the key and
the IV only and the tag is recomputed from the ciphertext, so decryption
accepts what encryption produced and recovers the plaintext.
-/

namespace StyxOS

open ByteMem

/-- The shift of `v` one bit to the right across its bytes, with the bit shifted out. -/
def shiftRightCarry : List UInt8 → UInt8 → List UInt8 × UInt8
  | [], carry => ([], carry)
  | b :: bs, carry =>
    let rest := shiftRightCarry bs (b &&& 1)
    (((b >>> 1) ||| (carry <<< 7)) :: rest.1, rest.2)

/-- One turn of the loop of `ghash_multiply`, on `z` and `v`, for bit `i` of `x`. -/
def ghashStep (x : List UInt8) (zv : List UInt8 × List UInt8) (i : ℕ) : List UInt8 × List UInt8 :=
  let bit := x.getD (i / 8) 0 &&& (1 <<< UInt8.ofNat (7 - i % 8))
  let z := if bit ≠ 0 then xorBytes zv.1 zv.2 else zv.1
  let (v, carry) := shiftRightCarry zv.2 0
  (z, if carry ≠ 0 then v.modify 0 (· ^^^ 0xE1) else v)

/-- `ghash_multiply`: the product that replaces `x`. -/
def ghashMultiply (x y : List UInt8) : List UInt8 :=
  ((List.range 128).foldl (ghashStep x) (List.replicate 16 0, y)).1

/-- The part of `data` from byte `i`, cut or padded with zeros to 16 bytes. -/
def paddedBlock (data : List UInt8) (i : ℕ) : List UInt8 :=
  let chunk := (data.drop i).take 16
  chunk ++ List.replicate (16 - chunk.length) 0

/-- The hash `x` after the blocks of `data`. -/
def ghashBlocks (h data x : List UInt8) : List UInt8 :=
  (List.range ((data.length + 15) / 16)).foldl
    (fun x i => ghashMultiply (xorBytes x (paddedBlock data (16 * i))) h) x

def ghash (h aad ct : List UInt8) : List UInt8 :=
  let x := ghashBlocks h aad (List.replicate 16 0)
  let x := ghashBlocks h ct x
  let lenBlock := beBytes 8 (aad.length * 8) ++ beBytes 8 (ct.length * 8)
  ghashMultiply (xorBytes x lenBlock) h

/-- The loop of `inc_counter` over the bytes `i` down to 12. -/
def incFrom : List ℕ → List UInt8 → List UInt8
  | [], y => y
  | i :: is, y =>
    let y := y.modify i (· + 1)
    if y.getD i 0 ≠ 0 then y else incFrom is y

def incCounter (y : List UInt8) : List UInt8 := incFrom [15, 14, 13, 12] y

/-- `aes_gcm_ctx_t`. -/
structure AesGcmCtx where
  aesCtx : Aes256Ctx
  h : List UInt8
  length_h : h.length = 16

def aesGcmInit (key : List UInt8) : AesGcmCtx :=
  let ctx := aes256InitEncrypt key
  { aesCtx := ctx
    h := aes256EncryptBlock ctx (List.replicate 16 0)
    length_h := length_aes256EncryptBlock _ _ }

/-- The first counter block, `J0`. -/
def counterBlock (iv : List UInt8) : List UInt8 := iv.take 12 ++ [0, 0, 0, 1]

/-- The loop over the blocks of a text, `n` of them left, from the counter `y`. -/
def ctrBlocks (ctx : Aes256Ctx) : ℕ → List UInt8 → List UInt8 → List UInt8
  | 0, _, _ => []
  | n + 1, y, text =>
    let y := incCounter y
    xorBytes (text.take 16) (aes256EncryptBlock ctx y) ++ ctrBlocks ctx n y (text.drop 16)

def gcmCtr (ctx : AesGcmCtx) (iv text : List UInt8) : List UInt8 :=
  ctrBlocks ctx.aesCtx ((text.length + 15) / 16) (counterBlock iv) text

def gcmTag (ctx : AesGcmCtx) (iv aad ct : List UInt8) : List UInt8 :=
  xorBytes (ghash ctx.h aad ct) (aes256EncryptBlock ctx.aesCtx (counterBlock iv))

/-- `aes_gcm_encrypt`: the ciphertext and the tag. -/
def aesGcmEncrypt (ctx : AesGcmCtx) (iv aad pt : List UInt8) : List UInt8 × List UInt8 :=
  let ct := gcmCtr ctx iv pt
  (ct, gcmTag ctx iv aad ct)

/-- `aes_gcm_decrypt`: the return code, and the plaintext, which is written in either case. -/
def aesGcmDecrypt (ctx : AesGcmCtx) (iv aad ct tag : List UInt8) : ℤ × List UInt8 :=
  (if gcmTag ctx iv aad ct = tag then 0 else -1, gcmCtr ctx iv ct)

theorem length_shiftRightCarry (v : List UInt8) (carry : UInt8) :
    (shiftRightCarry v carry).1.length = v.length := by
  induction v generalizing carry with
  | nil => rfl
  | cons b bs ih => simp [shiftRightCarry, ih]

theorem length_ghashStep {x : List UInt8} {zv : List UInt8 × List UInt8} {i : ℕ}
    (hz : zv.1.length = 16) (hv : zv.2.length = 16) :
    (ghashStep x zv i).1.length = 16 ∧ (ghashStep x zv i).2.length = 16 := by
  unfold ghashStep
  dsimp only
  constructor
  · split <;> simp [hz, hv]
  · split <;> simp [length_shiftRightCarry, hv]

theorem length_ghashMultiply (x : List UInt8) {y : List UInt8} (h : y.length = 16) :
    (ghashMultiply x y).length = 16 := by
  have hfold : ∀ is : List ℕ, ∀ zv : List UInt8 × List UInt8, zv.1.length = 16 →
      zv.2.length = 16 → (is.foldl (ghashStep x) zv).1.length = 16 := by
    intro is
    induction is with
    | nil => exact fun zv hz _ => hz
    | cons i is ih =>
      intro zv hz hv
      obtain ⟨hz', hv'⟩ := length_ghashStep (x := x) (i := i) hz hv
      exact ih _ hz' hv'
  exact hfold _ _ List.length_replicate h

@[simp] theorem length_gcmTag (ctx : AesGcmCtx) (iv aad ct : List UInt8) :
    (gcmTag ctx iv aad ct).length = 16 := by
  simp [gcmTag, ghash, length_ghashMultiply _ ctx.length_h]

theorem length_ctrBlocks {ctx : Aes256Ctx} {n : ℕ} {y text : List UInt8}
    (h : text.length ≤ 16 * n) : (ctrBlocks ctx n y text).length = text.length := by
  induction n generalizing y text with
  | zero =>
    have ht : text = [] := List.length_eq_zero_iff.mp (by omega)
    rw [ht, ctrBlocks]
  | succ n ih =>
    rw [ctrBlocks, List.length_append, ih (by simp; omega)]
    simp
    omega

theorem ctrBlocks_ctrBlocks {ctx : Aes256Ctx} {n : ℕ} {y text : List UInt8}
    (h : text.length ≤ 16 * n) : ctrBlocks ctx n y (ctrBlocks ctx n y text) = text := by
  induction n generalizing y text with
  | zero => simpa [ctrBlocks] using h
  | succ n ih =>
    have hx : (xorBytes (text.take 16) (aes256EncryptBlock ctx (incCounter y))).length =
        (text.take 16).length := by simp
    have hm : xorBytes (xorBytes (text.take 16) (aes256EncryptBlock ctx (incCounter y)))
        (aes256EncryptBlock ctx (incCounter y)) = text.take 16 := xorBytes_xorBytes (by simp)
    rcases Nat.lt_or_ge text.length 16 with hs | hs
    · -- the last, short block
      have hd : text.drop 16 = [] := List.drop_eq_nil_of_le (by omega)
      have hr : ctrBlocks ctx n (incCounter y) [] = [] := by
        apply List.length_eq_zero_iff.mp
        rw [length_ctrBlocks (by simp)]
        rfl
      have ht : (xorBytes (text.take 16) (aes256EncryptBlock ctx (incCounter y))).take 16 =
          xorBytes (text.take 16) (aes256EncryptBlock ctx (incCounter y)) :=
        List.take_of_length_le (by simp)
      have hn : (xorBytes (text.take 16) (aes256EncryptBlock ctx (incCounter y))).drop 16 = [] :=
        List.drop_eq_nil_of_le (by simp)
      rw [ctrBlocks, ctrBlocks, hd, hr, List.append_nil, ht, hn, hr, hm, List.append_nil,
        List.take_of_length_le (by omega)]
    · have h16 : (xorBytes (text.take 16) (aes256EncryptBlock ctx (incCounter y))).length = 16 := by
        rw [hx]; simp; omega
      rw [ctrBlocks, ctrBlocks, List.take_left' h16, List.drop_left' h16, hm,
        ih (by simp; omega), List.take_append_drop]

theorem length_gcmCtr (ctx : AesGcmCtx) (iv text : List UInt8) :
    (gcmCtr ctx iv text).length = text.length :=
  length_ctrBlocks (by omega)

theorem gcmCtr_gcmCtr (ctx : AesGcmCtx) (iv text : List UInt8) :
    gcmCtr ctx iv (gcmCtr ctx iv text) = text := by
  rw [gcmCtr, length_gcmCtr, gcmCtr]
  exact ctrBlocks_ctrBlocks (by omega)

@[simp] theorem length_aesGcmEncrypt_fst (ctx : AesGcmCtx) (iv aad pt : List UInt8) :
    (aesGcmEncrypt ctx iv aad pt).1.length = pt.length := by
  simp only [aesGcmEncrypt, length_gcmCtr]

@[simp] theorem length_aesGcmEncrypt_snd (ctx : AesGcmCtx) (iv aad pt : List UInt8) :
    (aesGcmEncrypt ctx iv aad pt).2.length = 16 := by
  simp only [aesGcmEncrypt, length_gcmTag]

theorem aesGcmDecrypt_encrypt (ctx : AesGcmCtx) (iv aad pt : List UInt8) :
    aesGcmDecrypt ctx iv aad (aesGcmEncrypt ctx iv aad pt).1 (aesGcmEncrypt ctx iv aad pt).2 =
      (0, pt) := by
  simp [aesGcmDecrypt, aesGcmEncrypt, gcmCtr_gcmCtr]

end StyxOS
