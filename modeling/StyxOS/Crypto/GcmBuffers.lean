import StyxOS.Crypto.GcmMemory

/-! # AES-GCM between buffers

`aes_gcm_encrypt` and `aes_gcm_decrypt` as they read and write memory: the text is read
byte by byte while the output is written, and what the tag is taken of, and the tag
itself, are read behind the loop. Where the output lies apart from the rest, the calls
are those on values. Where a ciphertext is decrypted in place, the tag is taken of the
plaintext.
-/

namespace StyxOS

open ByteMem

/-! ## The functions -/

/-- Bytes under a key stream, from one address to another one by one. -/
def xorInto (m : Mem) (dst src : ℕ) : List UInt8 → Mem
  | [] => m
  | k :: ks => xorInto (store m dst [m src ^^^ k]) (dst + 1) (src + 1) ks

/-- The loop body, at byte `i` of a text of `len` bytes. -/
def GcmRun.pass (ctx : Aes256Ctx) (src len dst : ℕ) (r : GcmRun) (i : ℕ) : GcmRun :=
  let y := incCounter r.y
  let keystream := aes256EncryptBlock ctx y
  { y := y
    asked := r.asked ++ [y]
    mem := xorInto r.mem (dst + i) (src + i) (keystream.take (len - i)) }

def GcmRun.passes (ctx : Aes256Ctx) (src len dst : ℕ) (r : GcmRun) : GcmRun :=
  (List.range ((len + 15) / 16)).foldl (fun r k => r.pass ctx src len dst (16 * k)) r

/-- The buffers of a call, by their addresses and lengths. -/
structure GcmBuffers where
  aad : ℕ
  aadLen : ℕ
  input : ℕ
  len : ℕ
  output : ℕ
  tag : ℕ

section
variable (ctx : AesGcmCtx) (iv : Bytes 12) (b : GcmBuffers) (m : Mem)

/-- `aes_gcm_encrypt`. -/
def aesGcmEncryptBuffers : GcmRun :=
  let tagMask := aes256EncryptBlock ctx.aesCtx (counterBlock iv.1)
  let r := (GcmRun.start iv m).passes ctx.aesCtx b.input b.len b.output
  let ghashOut := ghash ctx.h (load r.mem b.aad b.aadLen) (load r.mem b.output b.len)
  { r with mem := store r.mem b.tag (xorBytes ghashOut tagMask) }

/-- `aes_gcm_decrypt`: the return code, and what the call has come to. -/
def aesGcmDecryptBuffers : ℤ × GcmRun :=
  let tagMask := aes256EncryptBlock ctx.aesCtx (counterBlock iv.1)
  let r := (GcmRun.start iv m).passes ctx.aesCtx b.input b.len b.output
  let ghashOut := ghash ctx.h (load r.mem b.aad b.aadLen) (load r.mem b.input b.len)
  (if xorBytes ghashOut tagMask = load r.mem b.tag 16 then 0 else -1, r)

end

/-! ## The loop -/

def Separate (a n b k : ℕ) : Prop := a + n ≤ b ∨ b + k ≤ a

instance (a n b k : ℕ) : Decidable (Separate a n b k) := inferInstanceAs (Decidable (_ ∨ _))

variable {m : Mem} {src dst len n : ℕ}

theorem xorInto_eq {ks : List UInt8} (h : Separate src ks.length dst ks.length ∨ src = dst) :
    xorInto m dst src ks = store m dst (xorBytes (load m src ks.length) ks) := by
  induction ks generalizing m src dst with
  | nil => rw [xorInto, xorBytes_nil, store_nil]
  | cons k ks ih =>
    rw [List.length_cons, Separate] at h
    have hrest : Separate (src + 1) ks.length (dst + 1) ks.length ∨ src + 1 = dst + 1 := by
      unfold Separate
      omega
    have hkept : load (store m dst [m src ^^^ k]) (src + 1) ks.length =
        load m (src + 1) ks.length :=
      load_store_disjoint (by rw [List.length_singleton]; omega)
    have hhead : load m src (ks.length + 1) = m src :: load m (src + 1) ks.length := by
      rw [load, List.range_succ_eq_map, List.map_cons, List.map_map, Nat.add_zero, load]
      refine congrArg (m src :: ·) (List.map_congr_left fun i _ => ?_)
      rw [Function.comp_apply, Nat.succ_eq_add_one, Nat.add_assoc, Nat.add_comm 1 i]
    rw [xorInto, ih hrest, hkept, List.length_cons, hhead]
    exact store_append.symm

/-- The bytes of the text that are still to be read are what they were. -/
theorem passes_turns (ctx : Aes256Ctx) (iv : Bytes 12) (h : Separate src len dst len ∨ src = dst)
    (hn : 16 * n < len + 16) :
    (List.range n).foldl (fun r k => r.pass ctx src len dst (16 * k)) (GcmRun.start iv m) =
      (List.range n).foldl (fun r k => r.turn ctx (load m src len) dst (16 * k))
        (GcmRun.start iv m) := by
  induction n with
  | zero => rfl
  | succ n ih =>
    have hlt : 16 * n < len := by omega
    have hturns : (List.range n).foldl (fun r k => r.turn ctx (load m src len) dst (16 * k))
        (GcmRun.start iv m) = _ := turns_eq (by rw [length_load]; omega)
    rw [List.range_succ, List.foldl_append, List.foldl_append, ih (by omega), hturns]
    simp only [List.foldl_cons, List.foldl_nil]
    generalize hks : aes256EncryptBlock ctx (incCounter (ivBlock iv (n + 1))) = ks
    have hks16 : ks.length = 16 := by rw [← hks, length_aes256EncryptBlock]
    have hwritten : (xorBytes ((load m src len).take (16 * n)) (gcmKeystream ctx iv n)).length =
        16 * n := by
      rw [length_xorBytes, length_gcmKeystream, List.length_take, length_load]
      omega
    have hread : load (store m dst
        (xorBytes ((load m src len).take (16 * n)) (gcmKeystream ctx iv n))) (src + 16 * n)
          (ks.take (len - 16 * n)).length =
        ((load m src len).drop (16 * n)).take (ks.take (len - 16 * n)).length := by
      rw [take_drop_load (by rw [List.length_take, hks16]; omega), load_store_disjoint]
      rw [hwritten, List.length_take, hks16]
      unfold Separate at h
      omega
    have hshort : xorBytes (((load m src len).drop (16 * n)).take
        (ks.take (len - 16 * n)).length) (ks.take (len - 16 * n)) =
        xorBytes (((load m src len).drop (16 * n)).take 16) ks := by
      refine List.ext_getElem ?_ fun i _ _ => ?_
      · simp only [length_xorBytes, List.length_take, List.length_drop, length_load, hks16]
        omega
      · simp only [xorBytes, List.getElem_zipWith, List.getElem_take]
    have hplace : Separate (src + 16 * n) (ks.take (len - 16 * n)).length (dst + 16 * n)
        (ks.take (len - 16 * n)).length ∨ src + 16 * n = dst + 16 * n := by
      rw [List.length_take, hks16]
      unfold Separate at h ⊢
      omega
    rw [GcmRun.pass, GcmRun.turn, hks, xorInto_eq hplace, hread, hshort]

theorem passes_start (ctx : Aes256Ctx) (iv : Bytes 12)
    (h : Separate src len dst len ∨ src = dst) :
    (GcmRun.start iv m).passes ctx src len dst =
      (GcmRun.start iv m).loop ctx (load m src len) dst := by
  rw [GcmRun.passes, passes_turns ctx iv h (by omega), GcmRun.loop, length_load]

theorem asked_passes (ctx : Aes256Ctx) (iv : Bytes 12) (m : Mem) (src len dst : ℕ) :
    ((GcmRun.start iv m).passes ctx src len dst).asked =
      (List.range ((len + 15) / 16 + 1)).map fun k => ivBlock iv (k + 1) := by
  have hturns : ∀ n, ((List.range n).foldl (fun r k => r.pass ctx src len dst (16 * k))
      (GcmRun.start iv m)).y = ivBlock iv (n + 1) ∧
      ((List.range n).foldl (fun r k => r.pass ctx src len dst (16 * k))
        (GcmRun.start iv m)).asked = (List.range (n + 1)).map fun k => ivBlock iv (k + 1) := by
    intro n
    induction n with
    | zero => exact ⟨counterBlock_eq iv, congrArg (fun y => [y]) (counterBlock_eq iv)⟩
    | succ n ih =>
      have hnext : incCounter (ivBlock iv (n + 1)) = ivBlock iv (n + 2) :=
        incCounter_append iv (n + 1)
      rw [List.range_succ, List.foldl_append, List.foldl_cons, List.foldl_nil, GcmRun.pass]
      dsimp only
      rw [ih.1, ih.2, hnext, List.range_succ (n := n + 1), List.map_append]
      exact ⟨rfl, rfl⟩
  exact (hturns _).2

/-! ## The calls -/

namespace GcmBuffers

/-- What a call reads shares no byte with its output. -/
structure Apart (b : GcmBuffers) : Prop where
  input : Separate b.input b.len b.output b.len
  aad : Separate b.aad b.aadLen b.output b.len
  tag : Separate b.tag 16 b.output b.len

instance (b : GcmBuffers) : Decidable b.Apart :=
  decidable_of_iff (Separate b.input b.len b.output b.len ∧ Separate b.aad b.aadLen b.output b.len ∧
    Separate b.tag 16 b.output b.len) ⟨fun ⟨h, h', h''⟩ => ⟨h, h', h''⟩, fun h => ⟨h.1, h.2, h.3⟩⟩

/-- A later call, which takes the output of this one. -/
def next (b : GcmBuffers) (output tag : ℕ) : GcmBuffers :=
  { b with input := b.output, output := output, tag := tag }

end GcmBuffers

section
variable {ctx : AesGcmCtx} {iv : Bytes 12} {b : GcmBuffers} {a : ℕ}

theorem load_loop (h : Separate a n b.output b.len) (input : List UInt8)
    (hlen : input.length = b.len) :
    load ((GcmRun.start iv m).loop ctx.aesCtx input b.output).mem a n = load m a n := by
  rw [(loop_start input b.output).1]
  exact load_store_disjoint (by rw [length_gcmCtr, hlen]; exact h)

/-- Encryption of a text that lies apart from its ciphertext. -/
theorem aesGcmEncryptBuffers_mem (h : b.Apart) :
    (aesGcmEncryptBuffers ctx iv b m).mem =
      store (aesGcmEncryptAt ctx iv (load m b.aad b.aadLen) (load m b.input b.len) b.output m).2.mem
        b.tag
        (aesGcmEncryptAt ctx iv (load m b.aad b.aadLen) (load m b.input b.len) b.output m).1 := by
  rw [aesGcmEncryptBuffers, passes_start _ _ (.inl h.input), aesGcmEncryptAt]
  dsimp only
  rw [load_loop h.aad _ length_load, length_load]

theorem aesGcmDecryptBuffers_eq (h : b.Apart) :
    aesGcmDecryptBuffers ctx iv b m =
      aesGcmDecryptAt ctx iv (load m b.aad b.aadLen) (load m b.input b.len) (load m b.tag 16)
        b.output m := by
  rw [aesGcmDecryptBuffers, passes_start _ _ (.inl h.input), aesGcmDecryptAt]
  rw [load_loop h.aad _ length_load, load_loop h.input _ length_load, load_loop h.tag _ length_load]

/-- Decryption in place takes the tag of the plaintext that it has just written. -/
theorem aesGcmDecryptBuffers_inPlace (hplace : b.input = b.output)
    (haad : Separate b.aad b.aadLen b.output b.len) (htag : Separate b.tag 16 b.output b.len) :
    (aesGcmDecryptBuffers ctx iv b m).1 =
      if gcmTag ctx iv.1 (load m b.aad b.aadLen) (gcmCtr ctx iv.1 (load m b.input b.len)) =
        load m b.tag 16 then 0 else -1 := by
  have hread : load ((GcmRun.start iv m).loop ctx.aesCtx (load m b.input b.len) b.output).mem
      b.input b.len = gcmCtr ctx iv.1 (load m b.input b.len) := by
    rw [(loop_start _ b.output).1, ← hplace]
    exact load_store_of_length (by rw [length_gcmCtr, length_load])
  rw [aesGcmDecryptBuffers, passes_start _ _ (.inr hplace)]
  dsimp only
  rw [hread, load_loop haad _ length_load, load_loop htag _ length_load, gcmTag]

/-- What encryption leaves of the rest, and in its two buffers. -/
theorem load_encryptBuffers (h : b.Apart) :
    load (aesGcmEncryptBuffers ctx iv b m).mem b.tag 16 =
        (aesGcmEncrypt ctx iv.1 (load m b.aad b.aadLen) (load m b.input b.len)).2 ∧
      load (aesGcmEncryptBuffers ctx iv b m).mem b.output b.len =
        (aesGcmEncrypt ctx iv.1 (load m b.aad b.aadLen) (load m b.input b.len)).1 ∧
      (Separate b.aad b.aadLen b.tag 16 →
        load (aesGcmEncryptBuffers ctx iv b m).mem b.aad b.aadLen = load m b.aad b.aadLen) := by
  have hcall :
      (aesGcmEncryptAt ctx iv (load m b.aad b.aadLen) (load m b.input b.len) b.output m).1 = _ ∧
      (aesGcmEncryptAt ctx iv (load m b.aad b.aadLen) (load m b.input b.len) b.output
        m).2.mem = _ :=
    aesGcmEncryptAt_eq _ _
  have hct : (aesGcmEncrypt ctx iv.1 (load m b.aad b.aadLen) (load m b.input b.len)).1.length =
      b.len := by
    rw [length_aesGcmEncrypt_fst, length_load]
  have htag16 := length_aesGcmEncrypt_snd ctx iv.1 (load m b.aad b.aadLen) (load m b.input b.len)
  rw [aesGcmEncryptBuffers_mem h, hcall.1, hcall.2]
  refine ⟨load_store_of_length htag16, ?_, fun haad => ?_⟩
  · rw [load_store_disjoint (by rw [htag16]; exact Or.comm.mp h.tag)]
    exact load_store_of_length hct
  · rw [load_store_disjoint (by rw [htag16]; exact haad),
      load_store_disjoint (by rw [hct]; exact h.aad)]

/-- Decryption from one buffer to another undoes encryption. -/
theorem decryptBuffers_encryptBuffers (h : b.Apart) (haad : Separate b.aad b.aadLen b.tag 16)
    {out : ℕ} (hnext : (b.next out b.tag).Apart) :
    (aesGcmDecryptBuffers ctx iv (b.next out b.tag) (aesGcmEncryptBuffers ctx iv b m).mem).1 = 0 ∧
      load (aesGcmDecryptBuffers ctx iv (b.next out b.tag)
        (aesGcmEncryptBuffers ctx iv b m).mem).2.mem out b.len = load m b.input b.len := by
  have hwritten : load (aesGcmEncryptBuffers ctx iv b m).mem b.tag 16 = _ ∧
      load (aesGcmEncryptBuffers ctx iv b m).mem b.output b.len = _ ∧ _ := load_encryptBuffers h
  obtain ⟨htag, hct, hkept⟩ := hwritten
  have hlen : (aesGcmEncrypt ctx iv.1 (load m b.aad b.aadLen) (load m b.input b.len)).1.length =
      b.len := by
    rw [length_aesGcmEncrypt_fst, length_load]
  have hboth := aesGcmDecrypt_encrypt ctx iv.1 (load m b.aad b.aadLen) (load m b.input b.len)
  rw [aesGcmDecryptBuffers_eq hnext]
  simp only [GcmBuffers.next, htag, hct, hkept haad]
  constructor
  · rw [(aesGcmDecryptAt_eq _ _).1, hboth]
  · generalize aesGcmEncrypt ctx iv.1 (load m b.aad b.aadLen) (load m b.input b.len) = r at *
    have hread : load (aesGcmDecryptAt ctx iv (load m b.aad b.aadLen) r.1 r.2 out
        (aesGcmEncryptBuffers ctx iv b m).mem).2.mem out r.1.length = gcmCtr ctx iv.1 r.1 :=
      load_decryptAt r.1 out
    rw [hlen] at hread
    rw [hread]
    exact congrArg Prod.snd hboth

theorem decryptBuffers_eq_zero_iff (h : b.Apart) {out tag : ℕ} (hnext : (b.next out tag).Apart) :
    (aesGcmDecryptBuffers ctx iv b m).1 = 0 ↔
      load m b.tag 16 = load (aesGcmEncryptBuffers ctx iv (b.next out tag)
        (aesGcmDecryptBuffers ctx iv b m).2.mem).mem tag 16 := by
  have hwritten : load (aesGcmEncryptBuffers ctx iv (b.next out tag)
      (aesGcmDecryptBuffers ctx iv b m).2.mem).mem tag 16 = _ := (load_encryptBuffers hnext).1
  simp only [GcmBuffers.next] at hwritten
  have haad : load (aesGcmDecryptBuffers ctx iv b m).2.mem b.aad b.aadLen =
      load m b.aad b.aadLen := by
    rw [aesGcmDecryptBuffers_eq h]
    exact load_loop h.aad _ length_load
  have hvalue : (aesGcmDecryptAt ctx iv (load m b.aad b.aadLen) (load m b.input b.len)
      (load m b.tag 16) b.output m).1 = 0 ↔ _ := decryptAt_eq_zero_iff _ _ _ b.output
  rw [(aesGcmEncryptAt_eq _ _).1, length_load, ← aesGcmDecryptBuffers_eq h] at hvalue
  rw [hvalue]
  simp only [GcmBuffers.next]
  rw [hwritten, haad]

theorem countersApart_passes {r : GcmRun} {input len output : ℕ} (hlen : len ≤ 2 ^ 36 - 32)
    (hr : r.asked = ((GcmRun.start iv m).passes ctx.aesCtx input len output).asked) :
    CountersApart iv r := by
  have hloop : CountersApart iv
      ((GcmRun.start iv m).loop ctx.aesCtx (List.replicate len 0) output) :=
    countersApart (by rwa [List.length_replicate])
  rw [CountersApart, (loop_start _ _).2, List.length_replicate] at hloop
  rw [CountersApart, hr, asked_passes]
  exact hloop

end

/-- AES-GCM between buffers, none of which a call both reads and writes: decryption undoes
encryption, it accepts exactly the tag that encryption writes for what it has recovered, and no
counter block of a message comes twice. -/
theorem aesGcm_correct (key : List UInt8) (iv : Bytes 12) (m : Mem) (b : GcmBuffers)
    (h : b.Apart) :
    let ctx := aesGcmInit key
    (∀ out, (b.next out b.tag).Apart → Separate b.aad b.aadLen b.tag 16 →
      let d := aesGcmDecryptBuffers ctx iv (b.next out b.tag) (aesGcmEncryptBuffers ctx iv b m).mem
      d.1 = 0 ∧ load d.2.mem out b.len = load m b.input b.len) ∧
      (∀ out tag, (b.next out tag).Apart →
        let d := aesGcmDecryptBuffers ctx iv b m
        (d.1 = 0 ↔ load m b.tag 16 =
          load (aesGcmEncryptBuffers ctx iv (b.next out tag) d.2.mem).mem tag 16)) ∧
      (b.len ≤ 2 ^ 36 - 32 →
        CountersApart iv (aesGcmEncryptBuffers ctx iv b m) ∧
          CountersApart iv (aesGcmDecryptBuffers ctx iv b m).2) :=
  ⟨fun _ hnext haad => decryptBuffers_encryptBuffers h haad hnext,
    fun _ _ hnext => decryptBuffers_eq_zero_iff h hnext,
    fun hlen => ⟨countersApart_passes hlen rfl, countersApart_passes hlen rfl⟩⟩

/-- A message of 20 bytes with 3 bytes of associated data, encrypted from one buffer to another. -/
def sampleBuffers : GcmBuffers where
  aad := 0x100
  aadLen := 3
  input := 0x200
  len := 20
  output := 0x300
  tag := 0x400

theorem aesGcm_correct_sample :
    let ctx := aesGcmInit (List.replicate 32 0)
    let m := store (fun _ => 0) 0x200 (asciiBytes "twenty bytes of text")
    let d := aesGcmDecryptBuffers ctx (Bytes.zero 12) (sampleBuffers.next 0x500 0x400)
      (aesGcmEncryptBuffers ctx (Bytes.zero 12) sampleBuffers m).mem
    d.1 = 0 ∧ load d.2.mem 0x500 20 = asciiBytes "twenty bytes of text" := by
  have hback := (aesGcm_correct (List.replicate 32 0) (Bytes.zero 12)
    (store (fun _ => 0) 0x200 (asciiBytes "twenty bytes of text")) sampleBuffers (by decide)).1
    0x500 (by decide) (by decide)
  have htext : load (store (fun _ => 0) 0x200 (asciiBytes "twenty bytes of text"))
      sampleBuffers.input sampleBuffers.len = asciiBytes "twenty bytes of text" :=
    load_store_of_length (by decide)
  rw [htext] at hback
  exact hback

end StyxOS
