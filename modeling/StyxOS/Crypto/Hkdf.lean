import StyxOS.Crypto.Sha512
import StyxOS.Library.Layout

/-! # HMAC and HKDF

The two constructions as their standards define them, and `hkdf_sha512_expand`
over a memory that holds the output, with a record of the messages that it
gives to `hmac_sha512`. Its scratch buffer has room for 128 bytes of the info
string; what is longer does not enter the blocks.
-/

namespace StyxOS

open ByteMem

/-! ## The standards -/

/-- The key of a code, as long as a block of the hash. -/
def hmacKeyBlock (key : List UInt8) : List UInt8 :=
  let key := if key.length > 128 then sha512 key else key
  key ++ List.replicate (128 - key.length) 0

/-- The code of a message: the hash of the outer pad and the hash of the inner pad and the text. -/
def hmac (key text : List UInt8) : List UInt8 :=
  sha512 (xorBytes (hmacKeyBlock key) (List.replicate 128 0x5C) ++
    sha512 (xorBytes (hmacKeyBlock key) (List.replicate 128 0x36) ++ text))

/-- The extracted key; the salt is a string of zeros where none is given. -/
def hkdfExtract (salt ikm : List UInt8) : List UInt8 :=
  hmac (if salt = [] then List.replicate 64 0 else salt) ikm

/-- The block `T(i)`; `T(0)` is empty. -/
def hkdfT (prk info : List UInt8) : ℕ → List UInt8
  | 0 => []
  | i + 1 => hmac prk (hkdfT prk info i ++ info ++ [UInt8.ofNat (i + 1)])

/-- What the block `T(i)` is the code of. -/
def hkdfMessage (prk info : List UInt8) (i : ℕ) : List UInt8 :=
  hkdfT prk info (i - 1) ++ info ++ [UInt8.ofNat i]

/-- The blocks `T(1)` to `T(n)`. -/
def hkdfStream (prk info : List UInt8) (n : ℕ) : List UInt8 :=
  (List.range n).flatMap fun i => hkdfT prk info (i + 1)

/-- The first `okmLen` bytes of the blocks. -/
def hkdfOkm (prk info : List UInt8) (okmLen : ℕ) : List UInt8 :=
  (hkdfStream prk info ((okmLen + 63) / 64)).take okmLen

/-! ## The code -/

/-- What `hkdf_sha512_expand` has come to: the block `t`, the place in the output, the messages
given to `hmac_sha512`, and the memory with the output. -/
structure HkdfRun where
  t : List UInt8
  okmOffset : ℕ
  asked : List (List UInt8)
  mem : Mem

/-- The loop body of `hkdf_sha512_expand`. -/
def HkdfRun.turn (prk info : List UInt8) (okm okmLen : ℕ) (r : HkdfRun) (i : ℕ) : HkdfRun :=
  let temp := (if i > 1 then r.t else []) ++ info.take 128 ++ [UInt8.ofNat i]
  let t := hmacSha512 prk temp
  let copyBytes := if r.okmOffset + 64 > okmLen then okmLen - r.okmOffset else 64
  { t := t
    okmOffset := r.okmOffset + copyBytes
    asked := r.asked ++ [temp]
    mem := store r.mem (okm + r.okmOffset) (t.take copyBytes) }

/-- `hkdf_sha512_expand`, with what `t` held on the stack before. -/
def hkdfSha512ExpandAt (prk info : List UInt8) (okm okmLen : ℕ) (t : List UInt8) (m : Mem) :
    HkdfRun :=
  (List.range ((okmLen + 63) / 64)).foldl (fun r i => r.turn prk info okm okmLen (i + 1))
    { t := t, okmOffset := 0, asked := [], mem := m }

/-! ## HMAC -/

theorem length_hmacKeyBlock (key : List UInt8) : (hmacKeyBlock key).length = 128 := by
  rw [hmacKeyBlock, List.length_append, List.length_replicate]
  split
  · rw [length_sha512]
  · omega

theorem xorBytes_replicate {as : List UInt8} {n : ℕ} (h : as.length = n) (b : UInt8) :
    xorBytes as (List.replicate n b) = as.map (· ^^^ b) := by
  subst h
  induction as with
  | nil => rfl
  | cons a as ih => exact congrArg _ ih

theorem hmacSha512_eq_hmac (key text : List UInt8) : hmacSha512 key text = hmac key text := by
  rw [hmac, xorBytes_replicate (length_hmacKeyBlock key),
    xorBytes_replicate (length_hmacKeyBlock key),
    hmacSha512]
  simp only [← sha512Update_append]
  rfl

theorem hkdfSha512Extract_eq (salt ikm : List UInt8) :
    hkdfSha512Extract salt ikm = hkdfExtract salt ikm := by
  simp only [hkdfSha512Extract, hkdfExtract, hmacSha512_eq_hmac, List.length_eq_zero_iff]

/-! ## The blocks -/

theorem length_hkdfT (prk info : List UInt8) (i : ℕ) : (hkdfT prk info (i + 1)).length = 64 :=
  length_sha512 _

theorem length_hkdfStream (prk info : List UInt8) (n : ℕ) :
    (hkdfStream prk info n).length = n * 64 :=
  length_flatMap_range fun i _ => length_hkdfT prk info i

theorem hkdfStream_succ (prk info : List UInt8) (n : ℕ) :
    hkdfStream prk info (n + 1) = hkdfStream prk info n ++ hkdfT prk info (n + 1) := by
  simp [hkdfStream, List.range_succ]

/-- The model that the callers use gives the blocks for the part of the info string that fits. -/
theorem hkdfSha512Expand_eq (prk info : List UInt8) (okmLen : ℕ) :
    hkdfSha512Expand prk info okmLen = hkdfOkm prk (info.take 128) okmLen := by
  have hblocks : ∀ n i, hkdfBlocks prk info n (i + 1) (hkdfT prk (info.take 128) i) =
      (List.range n).flatMap fun k => hkdfT prk (info.take 128) (i + k + 1) := by
    intro n
    induction n with
    | zero => exact fun i => rfl
    | succ n ih =>
      intro i
      have hprev : (if i + 1 > 1 then hkdfT prk (info.take 128) i else []) =
          hkdfT prk (info.take 128) i := by
        cases i with
        | zero => rfl
        | succ i => exact if_pos (by omega)
      have hnext := ih (i + 1)
      simp only [Nat.add_right_comm i 1] at hnext
      rw [hkdfBlocks, hprev, hmacSha512_eq_hmac, List.range_succ_eq_map, List.flatMap_cons,
        List.flatMap_map]
      exact congrArg _ hnext
  have hall := hblocks ((okmLen + 63) / 64) 0
  simp only [Nat.zero_add] at hall
  rw [hkdfSha512Expand, hkdfOkm, hkdfStream, ← hall]
  rfl

section
variable {prk info t : List UInt8} {okm okmLen : ℕ} {m : Mem}

theorem hkdfTurns_eq {n : ℕ} (h : 64 * n < okmLen + 64) :
    (List.range n).foldl (fun r i => HkdfRun.turn prk info okm okmLen r (i + 1))
        { t := t, okmOffset := 0, asked := [], mem := m } =
      { t := if n = 0 then t else hkdfT prk (info.take 128) n
        okmOffset := min (64 * n) okmLen
        asked := (List.range n).map fun i => hkdfMessage prk (info.take 128) (i + 1)
        mem := store m okm ((hkdfStream prk (info.take 128) n).take okmLen) } := by
  induction n with
  | zero => simp [hkdfStream]
  | succ n ih =>
    have hprev : (if n + 1 > 1 then if n = 0 then t else hkdfT prk (info.take 128) n else []) =
        hkdfT prk (info.take 128) n := by
      cases n with
      | zero => rfl
      | succ n => simp
    have hoffset : min (64 * n) okmLen = 64 * n := by omega
    have hcopy : 64 * n + (if 64 * n + 64 > okmLen then okmLen - 64 * n else 64) =
        min (64 * (n + 1)) okmLen := by
      split <;> omega
    have hlen : (hkdfT prk (info.take 128) (n + 1)).length = 64 := length_hkdfT prk _ n
    have htake : (hkdfT prk (info.take 128) (n + 1)).take
        (if 64 * n + 64 > okmLen then okmLen - 64 * n else 64) =
        (hkdfT prk (info.take 128) (n + 1)).take (okmLen - 64 * n) := by
      split
      · rfl
      · rw [List.take_of_length_le hlen.le, List.take_of_length_le (hlen.trans_le (by omega))]
    have hdone : (hkdfStream prk (info.take 128) n).length = 64 * n := by
      rw [length_hkdfStream, Nat.mul_comm]
    have hmem : store (store m okm ((hkdfStream prk (info.take 128) n).take okmLen)) (okm + 64 * n)
        ((hkdfT prk (info.take 128) (n + 1)).take (okmLen - 64 * n)) =
        store m okm ((hkdfStream prk (info.take 128) (n + 1)).take okmLen) := by
      rw [hkdfStream_succ, List.take_append, hdone, store_append, List.length_take, hdone,
        Nat.min_comm, hoffset]
    have hmessage : hkdfT prk (info.take 128) n ++ info.take 128 ++ [UInt8.ofNat (n + 1)] =
        hkdfMessage prk (info.take 128) (n + 1) := rfl
    have hblock : hmacSha512 prk (hkdfMessage prk (info.take 128) (n + 1)) =
        hkdfT prk (info.take 128) (n + 1) := hmacSha512_eq_hmac prk _
    rw [List.range_succ, List.foldl_append, ih (by omega), hoffset, List.foldl_cons, List.foldl_nil,
      HkdfRun.turn, List.map_append]
    simp only [hprev, hmessage, hblock, htake, hcopy, hmem]
    rfl

theorem hkdfSha512ExpandAt_mem :
    (hkdfSha512ExpandAt prk info okm okmLen t m).mem =
      store m okm (hkdfOkm prk (info.take 128) okmLen) := by
  rw [hkdfSha512ExpandAt, hkdfTurns_eq (by omega), hkdfOkm]

theorem hkdfSha512ExpandAt_asked :
    (hkdfSha512ExpandAt prk info okm okmLen t m).asked =
      (List.range ((okmLen + 63) / 64)).map fun i => hkdfMessage prk (info.take 128) (i + 1) := by
  rw [hkdfSha512ExpandAt, hkdfTurns_eq (by omega)]

end

/-- The functions do as the standards have it: the codes, the extracted key, the output with
nothing written beside it, and the message of every block. -/
structure HkdfFollows (prk : Bytes 64) (info salt ikm : List UInt8) (okm okmLen : ℕ)
    (t : List UInt8) (m : Mem) : Prop where
  code : ∀ key text, hmacSha512 key text = hmac key text
  extract : hkdfSha512Extract salt ikm = hkdfExtract salt ikm
  output : (hkdfSha512ExpandAt prk.1 info okm okmLen t m).mem =
    store m okm (hkdfOkm prk.1 info okmLen)
  messages : (hkdfSha512ExpandAt prk.1 info okm okmLen t m).asked =
    (List.range ((okmLen + 63) / 64)).map fun i => hkdfMessage prk.1 info (i + 1)

/-- The functions follow the standards exactly when the info string fits into the scratch buffer, or
no output is asked for. -/
theorem hkdfFollows_iff (prk : Bytes 64) (info salt ikm : List UInt8) (okm okmLen : ℕ)
    (t : List UInt8) (m : Mem) :
    HkdfFollows prk info salt ikm okm okmLen t m ↔ info.length ≤ 128 ∨ okmLen = 0 := by
  constructor
  · intro h
    obtain rfl | hpos := Nat.eq_zero_or_pos okmLen
    · exact .inr rfl
    · -- the message of the first block is the info string and the count
      obtain ⟨n, hn⟩ : ∃ n, (okmLen + 63) / 64 = n + 1 := ⟨(okmLen + 63) / 64 - 1, by omega⟩
      have hmessages := h.messages
      rw [hkdfSha512ExpandAt_asked, hn, List.range_succ_eq_map, List.map_cons, List.map_cons]
        at hmessages
      have hfirst : info.take 128 ++ [UInt8.ofNat 1] = info ++ [UInt8.ofNat 1] :=
        (List.cons.inj hmessages).1
      have hall : info.take 128 = info := List.append_cancel_right hfirst
      exact .inl (hall ▸ List.length_take_le 128 info)
  · intro h
    have hstream : hkdfOkm prk.1 (info.take 128) okmLen = hkdfOkm prk.1 info okmLen ∧
        ((List.range ((okmLen + 63) / 64)).map fun i => hkdfMessage prk.1 (info.take 128) (i + 1)) =
          (List.range ((okmLen + 63) / 64)).map fun i => hkdfMessage prk.1 info (i + 1) := by
      obtain hfits | rfl := h
      · rw [List.take_of_length_le hfits]
        exact ⟨rfl, rfl⟩
      · simp [hkdfOkm]
    exact {
      code := hmacSha512_eq_hmac
      extract := hkdfSha512Extract_eq salt ikm
      output := hkdfSha512ExpandAt_mem.trans (congrArg _ hstream.1)
      messages := hkdfSha512ExpandAt_asked.trans hstream.2 }

/-- With an info string of 129 bytes the output is another one. -/
theorem not_hkdfSha512ExpandAt_follows :
    ¬ ∀ (prk : Bytes 64) (info : List UInt8) (okm okmLen : ℕ) (t : List UInt8) (m : Mem),
      okmLen ≤ 255 * 64 → (hkdfSha512ExpandAt prk.1 info okm okmLen t m).mem =
        store m okm (hkdfOkm prk.1 info okmLen) := by
  intro h
  have hmem := h (Bytes.zero 64) (List.replicate 129 0) 0 64 [] (fun _ => 0) (by decide)
  have hout :
      load (hkdfSha512ExpandAt (Bytes.zero 64).1 (List.replicate 129 0) 0 64 [] fun _ => 0).mem
        0 64 ≠
      load (store (fun _ => 0) 0 (hkdfOkm (Bytes.zero 64).1 (List.replicate 129 0) 64)) 0 64 := by
    decide +kernel
  exact hout (congrArg (load · 0 64) hmem)

end StyxOS
