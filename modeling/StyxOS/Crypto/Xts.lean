import StyxOS.Crypto.Aes

/-! # AES-256-XTS

The sector cipher of `xts.c`. A sector is masked block by block with tweaks
that depend on the block address and the place of the block only, so
decryption meets the same tweaks and undoes each block.
-/

namespace StyxOS

open ByteMem

/-- `aes256_xts_ctx_t`. -/
structure Aes256XtsCtx where
  aesKey1 : Aes256Ctx
  aesKey2 : Aes256Ctx

def aes256XtsInit (key512 : List UInt8) : Aes256XtsCtx where
  aesKey1 := aes256InitEncrypt key512
  aesKey2 := aes256InitEncrypt (key512.drop 32)

/-- A block of 16 bytes read as two little-endian words, as `uint64_t[2]`. -/
@[ext]
structure BlockWords where
  w0 : UInt64
  w1 : UInt64
deriving DecidableEq, Repr

namespace BlockWords

def ofBytes (bs : List UInt8) : BlockWords :=
  ⟨UInt64.ofNat (leVal (bs.take 8)), UInt64.ofNat (leVal (bs.drop 8))⟩

def toBytes (b : BlockWords) : List UInt8 := leBytes 8 b.w0.toNat ++ leBytes 8 b.w1.toNat

def xor (b t : BlockWords) : BlockWords := ⟨b.w0 ^^^ t.w0, b.w1 ^^^ t.w1⟩

@[simp] theorem length_toBytes (b : BlockWords) : b.toBytes.length = 16 := by simp [toBytes]

theorem xor_xor (b t : BlockWords) : (b.xor t).xor t = b := by
  simp [xor, UInt64.xor_assoc]

theorem ofNat_leVal_leBytes (w : UInt64) : UInt64.ofNat (leVal (leBytes 8 w.toNat)) = w := by
  have hw : w.toNat < 256 ^ 8 := w.toNat_lt
  rw [leVal_leBytes, Nat.mod_eq_of_lt hw, UInt64.ofNat_toNat]

theorem leBytes_ofNat_leVal {bs : List UInt8} (h : bs.length = 8) :
    leBytes 8 (UInt64.ofNat (leVal bs)).toNat = bs := by
  have hlt : leVal bs < 2 ^ 64 := by
    have hb := leVal_lt bs
    rwa [h] at hb
  have hle : leBytes bs.length (leVal bs) = bs := leBytes_leVal bs
  rw [UInt64.toNat_ofNat_of_lt' hlt]
  rwa [h] at hle

theorem ofBytes_toBytes (b : BlockWords) : ofBytes b.toBytes = b := by
  apply BlockWords.ext
  · simp [ofBytes, toBytes, ofNat_leVal_leBytes]
  · simp [ofBytes, toBytes, ofNat_leVal_leBytes]

theorem toBytes_ofBytes {bs : List UInt8} (h : bs.length = 16) : (ofBytes bs).toBytes = bs := by
  have ht : leBytes 8 (ofBytes bs).w0.toNat = bs.take 8 := leBytes_ofNat_leVal (by simp [h])
  have hd : leBytes 8 (ofBytes bs).w1.toNat = bs.drop 8 := leBytes_ofNat_leVal (by simp [h])
  rw [toBytes, ht, hd, List.take_append_drop]

end BlockWords

def gfMulAlpha (tweak : BlockWords) : BlockWords :=
  let carry := tweak.w1 >>> 63
  { w0 := (tweak.w0 <<< 1) ^^^ (if carry ≠ 0 then 0x87 else 0)
    w1 := (tweak.w1 <<< 1) ||| (tweak.w0 >>> 63) }

/-- The tweak of the first block of a sector. -/
def initialTweak (ctx : Aes256XtsCtx) (sectorLba : UInt32) : BlockWords :=
  .ofBytes (aes256EncryptBlock ctx.aesKey2 (BlockWords.mk sectorLba.toUInt64 0).toBytes)

/-- One block through `cipher` between two masks by the tweak. -/
def xtsBlock (cipher : List UInt8 → List UInt8) (tweak : BlockWords) (block : List UInt8) :
    List UInt8 :=
  let blockIn := (BlockWords.ofBytes block).xor tweak
  let blockOut := (BlockWords.ofBytes (cipher blockIn.toBytes)).xor tweak
  blockOut.toBytes

/-- The loop over the blocks of a sector, `n` of them left. -/
def xtsBlocks (cipher : List UInt8 → List UInt8) : ℕ → BlockWords → List UInt8 → List UInt8
  | 0, _, _ => []
  | n + 1, tweak, input =>
    xtsBlock cipher tweak (input.take 16) ++ xtsBlocks cipher n (gfMulAlpha tweak) (input.drop 16)

def aes256XtsEncryptSector (ctx : Aes256XtsCtx) (sectorLba : UInt32) (input : List UInt8) :
    List UInt8 :=
  xtsBlocks (aes256EncryptBlock ctx.aesKey1) 32 (initialTweak ctx sectorLba) input

def aes256XtsDecryptSector (ctx : Aes256XtsCtx) (sectorLba : UInt32) (input : List UInt8) :
    List UInt8 :=
  xtsBlocks (aes256DecryptBlock ctx.aesKey1) 32 (initialTweak ctx sectorLba) input

section
variable {enc dec : List UInt8 → List UInt8}

@[simp] theorem length_xtsBlock (tweak : BlockWords) (block : List UInt8) :
    (xtsBlock enc tweak block).length = 16 := by simp [xtsBlock]

@[simp] theorem length_xtsBlocks (n : ℕ) (tweak : BlockWords) (input : List UInt8) :
    (xtsBlocks enc n tweak input).length = 16 * n := by
  induction n generalizing tweak input with
  | zero => rfl
  | succ n ih => simp [xtsBlocks, ih]; omega

theorem xtsBlock_xtsBlock (hlen : ∀ b, (enc b).length = 16)
    (hinv : ∀ b, b.length = 16 → dec (enc b) = b) (tweak : BlockWords) {block : List UInt8}
    (h : block.length = 16) : xtsBlock dec tweak (xtsBlock enc tweak block) = block := by
  unfold xtsBlock
  dsimp only
  rw [BlockWords.ofBytes_toBytes, BlockWords.xor_xor, BlockWords.toBytes_ofBytes (hlen _),
    hinv _ (BlockWords.length_toBytes _), BlockWords.ofBytes_toBytes, BlockWords.xor_xor,
    BlockWords.toBytes_ofBytes h]

theorem xtsBlocks_xtsBlocks (hlen : ∀ b, (enc b).length = 16)
    (hinv : ∀ b, b.length = 16 → dec (enc b) = b) (n : ℕ) (tweak : BlockWords)
    {input : List UInt8} (h : input.length = 16 * n) :
    xtsBlocks dec n tweak (xtsBlocks enc n tweak input) = input := by
  induction n generalizing tweak input with
  | zero => exact (List.length_eq_zero_iff.mp h).symm
  | succ n ih =>
    have hb : (xtsBlock enc tweak (input.take 16)).length = 16 := length_xtsBlock _ _
    rw [xtsBlocks, xtsBlocks, List.take_left' hb, List.drop_left' hb,
      xtsBlock_xtsBlock hlen hinv tweak (by simp; omega), ih _ (by simp; omega),
      List.take_append_drop]

end

@[simp] theorem length_aes256XtsEncryptSector (ctx : Aes256XtsCtx) (lba : UInt32)
    (input : List UInt8) : (aes256XtsEncryptSector ctx lba input).length = 512 :=
  length_xtsBlocks _ _ _

@[simp] theorem length_aes256XtsDecryptSector (ctx : Aes256XtsCtx) (lba : UInt32)
    (input : List UInt8) : (aes256XtsDecryptSector ctx lba input).length = 512 :=
  length_xtsBlocks _ _ _

theorem aes256XtsDecryptSector_encryptSector (ctx : Aes256XtsCtx) (lba : UInt32)
    {input : List UInt8} (h : input.length = 512) :
    aes256XtsDecryptSector ctx lba (aes256XtsEncryptSector ctx lba input) = input := by
  apply xtsBlocks_xtsBlocks
  · exact length_aes256EncryptBlock ctx.aesKey1
  · intro b hb
    exact aes256DecryptBlock_encryptBlock ctx.aesKey1 hb
  · exact h

theorem aes256XtsEncryptSector_decryptSector (ctx : Aes256XtsCtx) (lba : UInt32)
    {input : List UInt8} (h : input.length = 512) :
    aes256XtsEncryptSector ctx lba (aes256XtsDecryptSector ctx lba input) = input := by
  apply xtsBlocks_xtsBlocks
  · exact length_aes256DecryptBlock ctx.aesKey1
  · intro b hb
    exact aes256EncryptBlock_decryptBlock ctx.aesKey1 hb
  · exact h

end StyxOS
