import Mathlib.Logic.Function.Basic
import Mathlib.Tactic.FinCases
import StyxOS.Crypto.Aes

/-! # AES-256 on its array and in memory

`aes256_encrypt_block` and `aes256_decrypt_block` keep their state in an array
of rows and columns, change it entry by entry, and read and write it at two
addresses. The array follows the state by columns through every transformation,
so the two functions undo each other, also on one buffer.
-/

namespace StyxOS

open ByteMem Function

def aes256InitDecrypt (key : List UInt8) : Aes256Ctx := aes256InitEncrypt key

/-- `state[4][4]`, by row and column. -/
abbrev StateArray := Fin 4 × Fin 4 → UInt8

/-- The values that the counters `r` and `c` run through. -/
def indices : List (Fin 4) := [0, 1, 2, 3]

/-- The entries in the order of the two loops. -/
def cells : List (Fin 4 × Fin 4) := indices.flatMap fun r => indices.map fun c => (r, c)

namespace StateArray

variable (a : StateArray)

def column (c : Fin 4) : Column := ⟨a (0, c), a (1, c), a (2, c), a (3, c)⟩

def toState : AesState := ⟨a.column 0, a.column 1, a.column 2, a.column 3⟩

def setColumn (c : Fin 4) (v : Column) : StateArray :=
  let a := update a (0, c) v.s0
  let a := update a (1, c) v.s1
  let a := update a (2, c) v.s2
  update a (3, c) v.s3

def addRoundKey (ctx : Aes256Ctx) (round : ℕ) : StateArray :=
  indices.foldl
    (fun a c => a.setColumn c ((a.column c).addWord (ctx.roundKeys.getD (round * 4 + c) 0))) a

def subBytes : StateArray := cells.foldl (fun a i => update a i (subByte (a i))) a

def invSubBytes : StateArray := cells.foldl (fun a i => update a i (invSubByte (a i))) a

def shiftRows : StateArray :=
  let temp := a (1, 0)
  let a := update a (1, 0) (a (1, 1))
  let a := update a (1, 1) (a (1, 2))
  let a := update a (1, 2) (a (1, 3))
  let a := update a (1, 3) temp
  let temp := a (2, 0)
  let a := update a (2, 0) (a (2, 2))
  let a := update a (2, 2) temp
  let temp := a (2, 1)
  let a := update a (2, 1) (a (2, 3))
  let a := update a (2, 3) temp
  let temp := a (3, 3)
  let a := update a (3, 3) (a (3, 2))
  let a := update a (3, 2) (a (3, 1))
  let a := update a (3, 1) (a (3, 0))
  update a (3, 0) temp

def invShiftRows : StateArray :=
  let temp := a (1, 3)
  let a := update a (1, 3) (a (1, 2))
  let a := update a (1, 2) (a (1, 1))
  let a := update a (1, 1) (a (1, 0))
  let a := update a (1, 0) temp
  let temp := a (2, 0)
  let a := update a (2, 0) (a (2, 2))
  let a := update a (2, 2) temp
  let temp := a (2, 1)
  let a := update a (2, 1) (a (2, 3))
  let a := update a (2, 3) temp
  let temp := a (3, 0)
  let a := update a (3, 0) (a (3, 1))
  let a := update a (3, 1) (a (3, 2))
  let a := update a (3, 2) (a (3, 3))
  update a (3, 3) temp

def mixColumns : StateArray := indices.foldl (fun a c => a.setColumn c (mixColumn (a.column c))) a

def invMixColumns : StateArray :=
  indices.foldl (fun a c => a.setColumn c (invMixColumn (a.column c))) a

/-- The array between the two loops of `aes256_encrypt_block` over a block. -/
def encrypt (ctx : Aes256Ctx) : StateArray :=
  let a := a.addRoundKey ctx 0
  let a := (List.range' 1 13).foldl
    (fun a round => a.subBytes.shiftRows.mixColumns.addRoundKey ctx round) a
  a.subBytes.shiftRows.addRoundKey ctx 14

/-- The array between the two loops of `aes256_decrypt_block` over a block. -/
def decrypt (ctx : Aes256Ctx) : StateArray :=
  let a := a.addRoundKey ctx 14
  let a := (List.range' 1 13).reverse.foldl
    (fun a round => (a.invShiftRows.invSubBytes.addRoundKey ctx round).invMixColumns) a
  a.invShiftRows.invSubBytes.addRoundKey ctx 0

/-! ## The array follows the state -/

@[simp] theorem toState_addRoundKey (ctx : Aes256Ctx) (round : ℕ) :
    (a.addRoundKey ctx round).toState = StyxOS.addRoundKey ctx round a.toState := rfl

@[simp] theorem toState_subBytes : a.subBytes.toState = StyxOS.subBytes a.toState := rfl

@[simp] theorem toState_invSubBytes : a.invSubBytes.toState = StyxOS.invSubBytes a.toState := rfl

@[simp] theorem toState_shiftRows : a.shiftRows.toState = StyxOS.shiftRows a.toState := rfl

@[simp] theorem toState_invShiftRows : a.invShiftRows.toState = StyxOS.invShiftRows a.toState := rfl

@[simp] theorem toState_mixColumns : a.mixColumns.toState = StyxOS.mixColumns a.toState := rfl

@[simp] theorem toState_invMixColumns :
    a.invMixColumns.toState = StyxOS.invMixColumns a.toState := rfl

theorem toState_encrypt (ctx : Aes256Ctx) :
    (a.encrypt ctx).toState = encryptState ctx a.toState := by
  have hround : ∀ (b : StateArray) (round : ℕ), encryptRound ctx b.toState round =
      (b.subBytes.shiftRows.mixColumns.addRoundKey ctx round).toState := by
    intro b round
    rw [toState_addRoundKey, toState_mixColumns, toState_shiftRows, toState_subBytes, encryptRound]
  rw [encrypt, toState_addRoundKey, toState_shiftRows, toState_subBytes, encryptState,
    ← toState_addRoundKey, List.foldl_hom toState hround]

theorem toState_decrypt (ctx : Aes256Ctx) :
    (a.decrypt ctx).toState = decryptState ctx a.toState := by
  have hround : ∀ (b : StateArray) (round : ℕ), decryptRound ctx b.toState round =
      ((b.invShiftRows.invSubBytes.addRoundKey ctx round).invMixColumns).toState := by
    intro b round
    rw [toState_invMixColumns, toState_addRoundKey, toState_invSubBytes, toState_invShiftRows,
      decryptRound]
  rw [decrypt, toState_addRoundKey, toState_invSubBytes, toState_invShiftRows, decryptState,
    ← toState_addRoundKey, List.foldl_hom toState hround]

/-! ## The two loops over a block -/

/-- The loop that reads the block at `inp` into the array, whatever the array held. -/
def read (m : Mem) (inp : ℕ) : StateArray :=
  cells.foldl (fun a i => update a i (m (inp + (i.1 + i.2 * 4)))) a

/-- The loop that writes the array to the block at `out`. -/
def write (m : Mem) (out : ℕ) : Mem :=
  cells.foldl (fun m i => update m (out + (i.1 + i.2 * 4)) (a i)) m

theorem toState_read (m : Mem) (inp : ℕ) :
    (a.read m inp).toState = AesState.ofBytes (load m inp 16) :=
  rfl

theorem foldl_update_of_mem {ι β : Type*} {k : ι → ℕ} (hk : Injective k) (v : ι → β) {is : List ι}
    (m : ℕ → β) {i : ι} (hi : i ∈ is) :
    is.foldl (fun m i => update m (k i) (v i)) m (k i) = v i := by
  induction is using List.reverseRecOn with
  | nil => exact absurd hi List.not_mem_nil
  | append_singleton is j ih =>
    rw [List.foldl_append, List.foldl_cons, List.foldl_nil]
    by_cases hij : i = j
    · rw [hij, update_self]
    · rw [update_of_ne (hk.ne hij)]
      exact ih ((List.mem_append.mp hi).resolve_right fun h => hij (List.mem_singleton.mp h))

theorem foldl_update_of_ne {ι β : Type*} {k : ι → ℕ} (v : ι → β) {is : List ι} (m : ℕ → β) {x : ℕ}
    (hx : ∀ i ∈ is, k i ≠ x) : is.foldl (fun m i => update m (k i) (v i)) m x = m x := by
  induction is using List.reverseRecOn with
  | nil => rfl
  | append_singleton is j ih =>
    rw [List.foldl_append, List.foldl_cons, List.foldl_nil,
      update_of_ne (hx j (List.mem_append_right is (List.mem_singleton_self j))).symm]
    exact ih fun i hi => hx i (List.mem_append_left [j] hi)

theorem mem_cells : ∀ i : Fin 4 × Fin 4, i ∈ cells := by
  rintro ⟨r, c⟩
  revert r c
  decide

theorem write_eq (m : Mem) (out : ℕ) : a.write m out = store m out a.toState.toBytes := by
  have hinj : Injective fun i : Fin 4 × Fin 4 => out + (i.1 + i.2 * 4 : ℕ) := by
    intro i j hij
    have hij : out + (i.1 + i.2 * 4 : ℕ) = out + (j.1 + j.2 * 4) := hij
    have hrow : i.1 = j.1 := by omega
    have hcolumn : i.2 = j.2 := by omega
    exact Prod.ext hrow hcolumn
  have hbyte : ∀ i : Fin 4 × Fin 4, a.toState.toBytes.getD (i.1 + i.2 * 4) 0 = a i := by
    rintro ⟨r, c⟩
    fin_cases r <;> fin_cases c <;> rfl
  funext x
  by_cases hx : out ≤ x ∧ x < out + 16
  · obtain ⟨hlow, hhigh⟩ := hx
    -- the entry that is written at `x`
    obtain ⟨i, rfl⟩ : ∃ i : Fin 4 × Fin 4, x = out + (i.1 + i.2 * 4) :=
      ⟨(⟨(x - out) % 4, by omega⟩, ⟨(x - out) / 4, by omega⟩), by dsimp only; omega⟩
    have hlen : (i.1 + i.2 * 4 : ℕ) < a.toState.toBytes.length := by
      rw [AesState.length_toBytes]
      omega
    rw [store_apply hlen, ← List.getD_eq_getElem _ 0 hlen, hbyte]
    exact foldl_update_of_mem hinj a m (mem_cells i)
  · have hout : store m out a.toState.toBytes x = m x := by
      rcases Nat.lt_or_ge x out with hlt | hge
      · exact store_apply_of_lt hlt
      · exact store_apply_of_ge (by rw [AesState.length_toBytes]; omega)
    rw [hout]
    apply foldl_update_of_ne
    intro i _ hix
    omega

end StateArray

/-! ## The functions -/

/-- `aes256_encrypt_block` from `in` to `out`, on a stack that holds `a`. -/
def aes256EncryptBlockAt (ctx : Aes256Ctx) (inp out : ℕ) (a : StateArray) (m : Mem) : Mem :=
  ((a.read m inp).encrypt ctx).write m out

/-- `aes256_decrypt_block` from `in` to `out`, on a stack that holds `a`. -/
def aes256DecryptBlockAt (ctx : Aes256Ctx) (inp out : ℕ) (a : StateArray) (m : Mem) : Mem :=
  ((a.read m inp).decrypt ctx).write m out

section

variable (ctx : Aes256Ctx) (a : StateArray) (m : Mem) (inp out : ℕ)

theorem aes256EncryptBlockAt_eq :
    aes256EncryptBlockAt ctx inp out a m =
      store m out (aes256EncryptBlock ctx (load m inp 16)) := by
  rw [aes256EncryptBlockAt, StateArray.write_eq, StateArray.toState_encrypt,
    StateArray.toState_read, aes256EncryptBlock]

theorem aes256DecryptBlockAt_eq :
    aes256DecryptBlockAt ctx inp out a m =
      store m out (aes256DecryptBlock ctx (load m inp 16)) := by
  rw [aes256DecryptBlockAt, StateArray.write_eq, StateArray.toState_decrypt,
    StateArray.toState_read, aes256DecryptBlock]

theorem aes256DecryptBlockAt_encryptBlockAt (back : ℕ) (b : StateArray) :
    aes256DecryptBlockAt ctx out back b (aes256EncryptBlockAt ctx inp out a m) =
      store (aes256EncryptBlockAt ctx inp out a m) back (load m inp 16) := by
  rw [aes256DecryptBlockAt_eq, aes256EncryptBlockAt_eq,
    load_store_of_length (length_aes256EncryptBlock ctx _),
    aes256DecryptBlock_encryptBlock ctx length_load]

theorem aes256EncryptBlockAt_decryptBlockAt (back : ℕ) (b : StateArray) :
    aes256EncryptBlockAt ctx out back b (aes256DecryptBlockAt ctx inp out a m) =
      store (aes256DecryptBlockAt ctx inp out a m) back (load m inp 16) := by
  rw [aes256EncryptBlockAt_eq, aes256DecryptBlockAt_eq,
    load_store_of_length (length_aes256DecryptBlock ctx _),
    aes256EncryptBlock_decryptBlock ctx length_load]

theorem store_store_load (bs : List UInt8) (h : bs.length = 16) :
    store (store m inp bs) inp (load m inp 16) = m := by
  rw [store_store_same (h.trans length_load.symm), store_load_self]

end

/-- Encryption and decryption of a block undo each other under every key, between any two
buffers and on one. -/
theorem aes256_inverse (key : List UInt8) :
    aes256InitDecrypt key = aes256InitEncrypt key ∧
    ∀ ctx ∈ [aes256InitEncrypt key, aes256InitDecrypt key],
      (∀ b : List UInt8, b.length = 16 →
        aes256DecryptBlock ctx (aes256EncryptBlock ctx b) = b ∧
          aes256EncryptBlock ctx (aes256DecryptBlock ctx b) = b) ∧
      ∀ (a a' : StateArray) (m : Mem) (inp out back : ℕ),
        aes256EncryptBlockAt ctx inp out a m =
          store m out (aes256EncryptBlock ctx (load m inp 16)) ∧
        aes256DecryptBlockAt ctx inp out a m =
          store m out (aes256DecryptBlock ctx (load m inp 16)) ∧
        load (aes256DecryptBlockAt ctx out back a' (aes256EncryptBlockAt ctx inp out a m)) back 16 =
          load m inp 16 ∧
        load (aes256EncryptBlockAt ctx out back a' (aes256DecryptBlockAt ctx inp out a m)) back 16 =
          load m inp 16 ∧
        aes256DecryptBlockAt ctx inp inp a' (aes256EncryptBlockAt ctx inp inp a m) = m ∧
        aes256EncryptBlockAt ctx inp inp a' (aes256DecryptBlockAt ctx inp inp a m) = m := by
  refine ⟨rfl, fun ctx _ => ⟨?_, ?_⟩⟩
  · intro b hb
    exact ⟨aes256DecryptBlock_encryptBlock ctx hb, aes256EncryptBlock_decryptBlock ctx hb⟩
  · intro a a' m inp out back
    refine ⟨aes256EncryptBlockAt_eq ctx a m inp out, aes256DecryptBlockAt_eq ctx a m inp out,
      ?_, ?_, ?_, ?_⟩
    · rw [aes256DecryptBlockAt_encryptBlockAt]
      exact load_store_of_length length_load
    · rw [aes256EncryptBlockAt_decryptBlockAt]
      exact load_store_of_length length_load
    · rw [aes256DecryptBlockAt_encryptBlockAt, aes256EncryptBlockAt_eq]
      exact store_store_load m inp _ rfl
    · rw [aes256EncryptBlockAt_decryptBlockAt, aes256DecryptBlockAt_eq]
      exact store_store_load m inp _ rfl

theorem aes256_inverse_sample :
    aes256DecryptBlock (aes256InitEncrypt (List.replicate 32 7))
        (aes256EncryptBlock (aes256InitEncrypt (List.replicate 32 7)) (List.replicate 16 9)) =
      List.replicate 16 9 :=
  (((aes256_inverse (List.replicate 32 7)).2 _ List.mem_cons_self).1 _ List.length_replicate).1

end StyxOS
