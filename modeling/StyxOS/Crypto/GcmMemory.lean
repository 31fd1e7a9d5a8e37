import StyxOS.Crypto.Gcm
import StyxOS.Library.Layout

/-! # AES-GCM in memory

`aes_gcm_encrypt` and `aes_gcm_decrypt` over a memory that holds the output
buffer, with a record of the blocks that they give to the block cipher. The
32-bit counter of a message comes to no value twice within the length limit.
Decryption fills its buffer before it compares the tags.
-/

namespace StyxOS

open ByteMem

/-! ## The counter -/

theorem modify_append_cons {as bs : List UInt8} {i : ℕ} {b : UInt8} (f : UInt8 → UInt8)
    (h : as.length = i) : (as ++ b :: bs).modify i f = as ++ f b :: bs := by
  subst h
  rw [List.modify_eq_take_cons_drop (by simp)]
  simp [List.drop_append]

theorem incFrom_beBytes (n v : ℕ) (pre post : List UInt8) :
    incFrom ((List.range n).reverse.map (pre.length + ·)) (pre ++ (beBytes n v ++ post)) =
      pre ++ (beBytes n (v + 1) ++ post) := by
  induction n generalizing v post with
  | zero => rfl
  | succ n ih =>
    have hlow : ∀ v, pre ++ (beBytes (n + 1) v ++ post) =
        pre ++ beBytes n (v / 256) ++ UInt8.ofNat v :: post := fun v => by
      rw [beBytes, leBytes, List.reverse_cons, beBytes]
      simp
    have hlen : (pre ++ beBytes n (v / 256)).length = pre.length + n := by simp
    have hread : (pre ++ beBytes n (v / 256) ++ UInt8.ofNat (v + 1) :: post).getD
        (pre.length + n) 0 = UInt8.ofNat (v + 1) := by
      rw [← hlen]
      simp
    have hadd : UInt8.ofNat v + 1 = UInt8.ofNat (v + 1) := (UInt8.ofNat_add v 1).symm
    rw [List.range_succ, List.reverse_append, List.reverse_singleton, List.singleton_append,
      List.map_cons, incFrom, hlow v, hlow (v + 1), modify_append_cons _ hlen, hadd, hread]
    have hzero : UInt8.ofNat (v + 1) = 0 ↔ (v + 1) % 256 = 0 := by
      rw [← UInt8.toNat_inj, UInt8.toNat_ofNat']
      rfl
    by_cases h : (v + 1) % 256 = 0
    · -- the byte wraps, and the carry goes to the bytes before it
      have hcarry : (v + 1) / 256 = v / 256 + 1 := by omega
      have hrest := ih (v / 256) (UInt8.ofNat (v + 1) :: post)
      rw [if_neg (not_not.mpr (hzero.mpr h)), hcarry, List.append_assoc, hrest, List.append_assoc]
    · have hsame : (v + 1) / 256 = v / 256 := by omega
      rw [if_pos (mt hzero.mp h), hsame]

theorem incCounter_append (iv : Bytes 12) (v : ℕ) :
    incCounter (iv.1 ++ beBytes 4 v) = iv.1 ++ beBytes 4 (v + 1) := by
  have h := incFrom_beBytes 4 v iv.1 []
  rw [List.append_nil, List.append_nil, iv.2] at h
  exact h

/-- The block of an IV that carries a count. -/
def ivBlock (iv : Bytes 12) (v : ℕ) : List UInt8 := iv.1 ++ beBytes 4 v

theorem ivBlock_inj {iv : Bytes 12} {v w : ℕ} (hv : v < 2 ^ 32) (hw : w < 2 ^ 32)
    (h : ivBlock iv v = ivBlock iv w) : v = w :=
  beBytes_inj hv hw (List.append_cancel_left h)

theorem counterBlock_eq (iv : Bytes 12) : counterBlock iv.1 = ivBlock iv 1 := by
  rw [counterBlock, List.take_of_length_le iv.2.le]
  rfl

/-! ## The functions over a memory -/

/-- What a call has come to: the counter block, the blocks given to the block cipher, and the
memory with the output buffer. -/
structure GcmRun where
  y : List UInt8
  asked : List (List UInt8)
  mem : Mem

/-- The counter block after the mask of the tag has been made of it. -/
def GcmRun.start (iv : Bytes 12) (m : Mem) : GcmRun where
  y := counterBlock iv.1
  asked := [counterBlock iv.1]
  mem := m

/-- The loop body, at byte `i` of the input. -/
def GcmRun.turn (ctx : Aes256Ctx) (input : List UInt8) (output : ℕ) (r : GcmRun) (i : ℕ) :
    GcmRun :=
  let y := incCounter r.y
  let keystream := aes256EncryptBlock ctx y
  { y := y
    asked := r.asked ++ [y]
    mem := store r.mem (output + i) (xorBytes ((input.drop i).take 16) keystream) }

def GcmRun.loop (ctx : Aes256Ctx) (input : List UInt8) (output : ℕ) (r : GcmRun) : GcmRun :=
  (List.range ((input.length + 15) / 16)).foldl (fun r k => r.turn ctx input output (16 * k)) r

section
variable (ctx : AesGcmCtx) (iv : Bytes 12)

/-- `aes_gcm_encrypt` of a text that lies apart from the buffer `ct`: the tag, and what the call has
come to. -/
def aesGcmEncryptAt (aad pt : List UInt8) (ct : ℕ) (m : Mem) : List UInt8 × GcmRun :=
  let tagMask := aes256EncryptBlock ctx.aesCtx (counterBlock iv.1)
  let r := (GcmRun.start iv m).loop ctx.aesCtx pt ct
  (xorBytes (ghash ctx.h aad (load r.mem ct pt.length)) tagMask, r)

/-- `aes_gcm_decrypt` of a ciphertext that lies apart from the buffer `pt`, as does its tag: the
return code, and what the call has come to. -/
def aesGcmDecryptAt (aad ct tag : List UInt8) (pt : ℕ) (m : Mem) : ℤ × GcmRun :=
  let tagMask := aes256EncryptBlock ctx.aesCtx (counterBlock iv.1)
  let r := (GcmRun.start iv m).loop ctx.aesCtx ct pt
  (if xorBytes (ghash ctx.h aad ct) tagMask = tag then 0 else -1, r)

end

/-! ## The key stream -/

/-- The first `n` blocks of the key stream. -/
def gcmKeystream (ctx : Aes256Ctx) (iv : Bytes 12) (n : ℕ) : List UInt8 :=
  (List.range n).flatMap fun k => aes256EncryptBlock ctx (ivBlock iv (k + 2))

theorem length_gcmKeystream (ctx : Aes256Ctx) (iv : Bytes 12) (n : ℕ) :
    (gcmKeystream ctx iv n).length = n * 16 :=
  length_flatMap_range fun _ _ => length_aes256EncryptBlock _ _

theorem gcmKeystream_succ (ctx : Aes256Ctx) (iv : Bytes 12) (n : ℕ) :
    gcmKeystream ctx iv (n + 1) =
      gcmKeystream ctx iv n ++ aes256EncryptBlock ctx (ivBlock iv (n + 2)) := by
  simp [gcmKeystream, List.range_succ]

theorem ctrBlocks_eq (ctx : Aes256Ctx) (iv : Bytes 12) (n v : ℕ) (text : List UInt8) :
    ctrBlocks ctx n (ivBlock iv v) text =
      xorBytes text
        ((List.range n).flatMap fun k => aes256EncryptBlock ctx (ivBlock iv (k + (v + 1)))) := by
  induction n generalizing v text with
  | zero => simp [ctrBlocks]
  | succ n ih =>
    have hnext : incCounter (ivBlock iv v) = ivBlock iv (v + 1) := incCounter_append iv v
    have hshift : ∀ k, k + 1 + (v + 1) = k + (v + 1 + 1) := fun k => by omega
    rw [List.range_succ_eq_map, List.flatMap_cons, List.flatMap_map, xorBytes_append_right,
      length_aes256EncryptBlock, ctrBlocks, hnext, ih]
    simp only [Nat.succ_eq_add_one, hshift, Nat.zero_add]

theorem gcmCtr_eq (ctx : AesGcmCtx) (iv : Bytes 12) (text : List UInt8) :
    gcmCtr ctx iv.1 text =
      xorBytes text (gcmKeystream ctx.aesCtx iv ((text.length + 15) / 16)) := by
  rw [gcmCtr, counterBlock_eq, ctrBlocks_eq, gcmKeystream]

theorem turns_eq {ctx : Aes256Ctx} {iv : Bytes 12} {input : List UInt8} {output n : ℕ} {m : Mem}
    (h : 16 * n < input.length + 16) :
    (List.range n).foldl (fun r k => r.turn ctx input output (16 * k)) (GcmRun.start iv m) =
      { y := ivBlock iv (n + 1)
        asked := (List.range (n + 1)).map fun k => ivBlock iv (k + 1)
        mem := store m output (xorBytes (input.take (16 * n)) (gcmKeystream ctx iv n)) } := by
  induction n with
  | zero => simp [GcmRun.start, counterBlock_eq, gcmKeystream]
  | succ n ih =>
    have hnext : incCounter (ivBlock iv (n + 1)) = ivBlock iv (n + 2) :=
      incCounter_append iv (n + 1)
    have hlen : (input.take (16 * n)).length = (gcmKeystream ctx iv n).length := by
      rw [length_gcmKeystream, List.length_take]
      omega
    have hplace : (xorBytes (input.take (16 * n)) (gcmKeystream ctx iv n)).length = 16 * n := by
      rw [length_xorBytes, hlen, Nat.min_self, length_gcmKeystream, Nat.mul_comm]
    have hmem : store (store m output (xorBytes (input.take (16 * n)) (gcmKeystream ctx iv n)))
        (output + 16 * n)
        (xorBytes ((input.drop (16 * n)).take 16) (aes256EncryptBlock ctx (ivBlock iv (n + 2)))) =
        store m output (xorBytes (input.take (16 * (n + 1))) (gcmKeystream ctx iv (n + 1))) := by
      rw [gcmKeystream_succ, Nat.mul_succ, List.take_add, xorBytes_append hlen, store_append,
        hplace]
    rw [List.range_succ, List.foldl_append, ih (by omega), List.foldl_cons, List.foldl_nil,
      GcmRun.turn, hnext, hmem, List.range_succ (n := n + 1), List.map_append]
    rfl

section
variable {ctx : AesGcmCtx} {iv : Bytes 12} {aad tag : List UInt8} {m : Mem}

/-- The loop writes the input under the key stream, and gives the blocks of the counts from one on
to the block cipher. -/
theorem loop_start (input : List UInt8) (output : ℕ) :
    ((GcmRun.start iv m).loop ctx.aesCtx input output).mem =
        store m output (gcmCtr ctx iv.1 input) ∧
      ((GcmRun.start iv m).loop ctx.aesCtx input output).asked =
        (List.range ((input.length + 15) / 16 + 1)).map fun k => ivBlock iv (k + 1) := by
  have hall : input.take (16 * ((input.length + 15) / 16)) = input :=
    List.take_of_length_le (by omega)
  rw [GcmRun.loop, turns_eq (by omega), hall, gcmCtr_eq]
  exact ⟨rfl, rfl⟩

theorem aesGcmEncryptAt_eq (pt : List UInt8) (ct : ℕ) :
    (aesGcmEncryptAt ctx iv aad pt ct m).1 = (aesGcmEncrypt ctx iv.1 aad pt).2 ∧
      (aesGcmEncryptAt ctx iv aad pt ct m).2.mem =
        store m ct (aesGcmEncrypt ctx iv.1 aad pt).1 := by
  have hmem : ((GcmRun.start iv m).loop ctx.aesCtx pt ct).mem = store m ct (gcmCtr ctx iv.1 pt) :=
    (loop_start pt ct).1
  have hread : load (store m ct (gcmCtr ctx iv.1 pt)) ct pt.length = gcmCtr ctx iv.1 pt :=
    load_store_of_length (length_gcmCtr ..)
  constructor
  · rw [aesGcmEncryptAt, hmem, hread]
    rfl
  · exact hmem

theorem aesGcmDecryptAt_eq (ct : List UInt8) (pt : ℕ) :
    (aesGcmDecryptAt ctx iv aad ct tag pt m).1 = (aesGcmDecrypt ctx iv.1 aad ct tag).1 ∧
      (aesGcmDecryptAt ctx iv aad ct tag pt m).2.mem =
        store m pt (aesGcmDecrypt ctx iv.1 aad ct tag).2 :=
  ⟨rfl, (loop_start ct pt).1⟩

theorem load_decryptAt (ct : List UInt8) (pt : ℕ) :
    load (aesGcmDecryptAt ctx iv aad ct tag pt m).2.mem pt ct.length = gcmCtr ctx iv.1 ct := by
  have hmem : (aesGcmDecryptAt ctx iv aad ct tag pt m).2.mem = store m pt (gcmCtr ctx iv.1 ct) :=
    (loop_start ct pt).1
  rw [hmem, load_store_of_length (length_gcmCtr ..)]

theorem decryptAt_eq_zero_iff (ct tag : List UInt8) (out a : ℕ) :
    (aesGcmDecryptAt ctx iv aad ct tag out m).1 = 0 ↔
      tag = (aesGcmEncryptAt ctx iv aad
        (load (aesGcmDecryptAt ctx iv aad ct tag out m).2.mem out ct.length) a m).1 := by
  have hback : (aesGcmEncrypt ctx iv.1 aad (gcmCtr ctx iv.1 ct)).2 = gcmTag ctx iv.1 aad ct := by
    rw [aesGcmEncrypt, gcmCtr_gcmCtr]
  rw [load_decryptAt, (aesGcmEncryptAt_eq _ _).1, hback, (aesGcmDecryptAt_eq _ _).1, aesGcmDecrypt]
  split <;> simp_all [eq_comm]

/-- The blocks given to the block cipher, that which masks the tag first, are pairwise different. -/
def CountersApart (iv : Bytes 12) (r : GcmRun) : Prop :=
  r.asked.head? = some (counterBlock iv.1) ∧ r.asked.Nodup

theorem countersApart {input : List UInt8} {output : ℕ} (h : input.length ≤ 2 ^ 36 - 32) :
    CountersApart iv ((GcmRun.start iv m).loop ctx.aesCtx input output) := by
  rw [CountersApart, (loop_start input output).2]
  constructor
  · rw [List.range_succ_eq_map, counterBlock_eq]
    rfl
  · apply List.Nodup.map_on _ List.nodup_range
    intro i hi j hj hij
    have hi := List.mem_range.mp hi
    have hj := List.mem_range.mp hj
    have hcount : i + 1 = j + 1 := ivBlock_inj (by omega) (by omega) hij
    exact Nat.succ_injective hcount

end

/-! ## What a call leaves in the buffer -/

/-- Byte `i` of the key stream. -/
def keystreamByte (ctx : AesGcmCtx) (iv : Bytes 12) (i : ℕ) : UInt8 :=
  (aes256EncryptBlock ctx.aesCtx (ivBlock iv (i / 16 + 2))).getD (i % 16) 0

theorem getD_gcmKeystream {ctx : AesGcmCtx} {iv : Bytes 12} {n i : ℕ} (h : i < n * 16) :
    (gcmKeystream ctx.aesCtx iv n).getD i 0 = keystreamByte ctx iv i := by
  have hblock : ((gcmKeystream ctx.aesCtx iv n).drop (i / 16 * 16)).take 16 =
      aes256EncryptBlock ctx.aesCtx (ivBlock iv (i / 16 + 2)) :=
    take_drop_flatMap_range (fun _ _ => length_aes256EncryptBlock _ _) (by omega)
  have hindex : i / 16 * 16 + i % 16 = i := Nat.div_add_mod' i 16
  have hlt : i % 16 < 16 := Nat.mod_lt i (by decide)
  rw [keystreamByte, ← hblock]
  simp only [List.getD_eq_getElem?_getD, List.getElem?_take_of_lt hlt, List.getElem?_drop, hindex]

theorem getElem_gcmCtr {ctx : AesGcmCtx} {iv : Bytes 12} {text : List UInt8} {i : ℕ}
    (h : i < (gcmCtr ctx iv.1 text).length) (hi : i < text.length) :
    (gcmCtr ctx iv.1 text)[i] = text[i] ^^^ keystreamByte ctx iv i := by
  have hks : i < (gcmKeystream ctx.aesCtx iv ((text.length + 15) / 16)).length := by
    rw [length_gcmKeystream]
    omega
  rw [← getD_gcmKeystream (n := (text.length + 15) / 16) (by omega),
    List.getD_eq_getElem _ _ hks]
  simp only [gcmCtr_eq, xorBytes, List.getElem_zipWith]

section
variable {ctx : AesGcmCtx} {iv : Bytes 12} {aad ct tag : List UInt8} {pt : ℕ} {m : Mem}

theorem aesGcmDecryptAt_mem_apply {i : ℕ} (hi : i < ct.length) :
    (aesGcmDecryptAt ctx iv aad ct tag pt m).2.mem (pt + i) = ct[i] ^^^ keystreamByte ctx iv i := by
  have hlen : i < (gcmCtr ctx iv.1 ct).length := (length_gcmCtr ctx iv.1 ct).symm ▸ hi
  rw [(aesGcmDecryptAt_eq ct pt).2, ← getElem_gcmCtr hlen hi]
  exact store_apply hlen

theorem aesGcmDecryptAt_mem_outside {x : ℕ} (h : x < pt ∨ pt + ct.length ≤ x) :
    (aesGcmDecryptAt ctx iv aad ct tag pt m).2.mem x = m x := by
  rw [(aesGcmDecryptAt_eq ct pt).2]
  obtain h | h := h
  · exact store_apply_of_lt h
  · exact store_apply_of_ge ((length_gcmCtr ctx iv.1 ct).symm ▸ h)

end

/-- What a call leaves of the buffer that it decrypts into: the bytes outside are kept, those inside
become the ciphertext under the key stream. So the buffer is kept if it held just these bytes, and
whatever it held only for the empty ciphertext. -/
theorem aesGcmDecryptAt_buffer (key aad ct tag : List UInt8) (iv : Bytes 12) (pt : ℕ) (m : Mem) :
    let ctx := aesGcmInit key
    (∀ x, x < pt ∨ pt + ct.length ≤ x → (aesGcmDecryptAt ctx iv aad ct tag pt m).2.mem x = m x) ∧
      (∀ i, (hi : i < ct.length) → (aesGcmDecryptAt ctx iv aad ct tag pt m).2.mem (pt + i) =
        ct[i] ^^^ keystreamByte ctx iv i) ∧
      (load (aesGcmDecryptAt ctx iv aad ct tag pt m).2.mem pt ct.length = load m pt ct.length ↔
        ∀ i, (hi : i < ct.length) → m (pt + i) = ct[i] ^^^ keystreamByte ctx iv i) ∧
      ((∀ held, load (aesGcmDecryptAt ctx iv aad ct tag pt held).2.mem pt ct.length =
        load held pt ct.length) ↔ ct = []) := by
  have hkept : ∀ held : Mem,
      load (aesGcmDecryptAt (aesGcmInit key) iv aad ct tag pt held).2.mem pt ct.length =
        load held pt ct.length ↔
      ∀ i, (hi : i < ct.length) →
        held (pt + i) = ct[i] ^^^ keystreamByte (aesGcmInit key) iv i := by
    intro held
    rw [load_eq_load_iff]
    constructor
    · intro h i hi
      rw [← h i hi, aesGcmDecryptAt_mem_apply hi]
    · intro h i hi
      rw [h i hi, aesGcmDecryptAt_mem_apply hi]
  constructor
  · exact fun x hx => aesGcmDecryptAt_mem_outside hx
  constructor
  · exact fun i hi => aesGcmDecryptAt_mem_apply hi
  constructor
  · exact hkept m
  constructor
  · intro h
    by_contra hne
    have hpos : 0 < ct.length := List.length_pos_iff.mpr hne
    -- a buffer that differs in its first byte
    have hfirst := (hkept fun _ => (ct[0] ^^^ keystreamByte (aesGcmInit key) iv 0) + 1).mp (h _)
    have hsucc : ∀ b : UInt8, b + 1 ≠ b := fun b => by simp
    exact hsucc _ (hfirst 0 hpos)
  · rintro rfl held
    rfl

/-- A rejected ciphertext of one byte changes the buffer. -/
theorem not_aesGcmDecryptAt_kept :
    ¬ ∀ (key aad ct tag : List UInt8) (iv : Bytes 12) (pt : ℕ) (m : Mem),
      (aesGcmDecryptAt (aesGcmInit key) iv aad ct tag pt m).1 = -1 →
        load (aesGcmDecryptAt (aesGcmInit key) iv aad ct tag pt m).2.mem pt ct.length =
          load m pt ct.length := by
  intro h
  have hkept := h (List.replicate 32 0) [] [0] (List.replicate 16 0) (Bytes.zero 12) 0 (fun _ => 0)
  revert hkept
  decide +kernel

end StyxOS
