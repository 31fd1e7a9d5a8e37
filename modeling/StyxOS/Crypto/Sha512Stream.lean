import StyxOS.Crypto.Sha512
import StyxOS.Library.Sha512

/-! # SHA-512 of a stream

`sha512_update` gathers bytes in a buffer of 128 and finds its place there from
the bit count. Its table and functions are those of the standard; and however a message
is cut into chunks, the digest is the one that the standard defines over the blocks of
the padded message.
-/

namespace StyxOS

open ByteMem BlockHash

/-! ## The compression function -/

def Sha512State.standard (s : Sha512State) : Sha512.State :=
  ⟨s.a, s.b, s.c, s.d, s.e, s.f, s.g, s.h⟩

theorem toBytes_standard (s : Sha512State) : s.standard.toBytes = s.toBytes := rfl

theorem sha512K_eq : sha512K = Sha512.roundConstants := by
  rw [Sha512.roundConstants, Sha512.primes_eq]
  decide +kernel

theorem standard_init : sha512Init.state.standard = Sha512.start := by
  rw [Sha512.State.mk.injEq]
  decide +kernel

theorem rotr_eq {x : UInt64} {n : ℕ} (hpos : 0 < n) (h : n < 64) :
    rotr x (UInt64.ofNat n) = Sha512.rotateRight x n := by
  have h64 : (64 : UInt64).toNat = 64 := rfl
  have hn : (UInt64.ofNat n).toNat = n := UInt64.toNat_ofNat_of_lt' (lt_trans h (by decide))
  have hle : UInt64.ofNat n ≤ 64 := by
    rw [UInt64.le_iff_toNat_le, hn]
    exact h.le
  have hright : ((UInt64.ofNat n).toBitVec % 64).toNat = n := by
    rw [BitVec.toNat_umod, UInt64.toNat_toBitVec, hn]
    exact Nat.mod_eq_of_lt h
  have hleft : ((64 - UInt64.ofNat n).toBitVec % 64).toNat = 64 - n := by
    rw [BitVec.toNat_umod, UInt64.toNat_toBitVec, UInt64.toNat_sub_of_le _ _ hle, hn, h64]
    have hlt : 64 - n < 64 := by omega
    exact Nat.mod_eq_of_lt hlt
  rw [rotr, Sha512.rotateRight_eq x h]
  apply UInt64.toBitVec_inj.mp
  rw [UInt64.toBitVec_or, UInt64.toBitVec_shiftRight, UInt64.toBitVec_shiftLeft,
    BitVec.ushiftRight_eq', BitVec.shiftLeft_eq', hright, hleft]

theorem bigSigma0_eq (x : UInt64) : bigSigma0 x = Sha512.upperSigma0 x := by
  rw [bigSigma0, Sha512.upperSigma0, ← rotr_eq (by decide) (by decide),
    ← rotr_eq (by decide) (by decide), ← rotr_eq (by decide) (by decide)]
  rfl

theorem bigSigma1_eq (x : UInt64) : bigSigma1 x = Sha512.upperSigma1 x := by
  rw [bigSigma1, Sha512.upperSigma1, ← rotr_eq (by decide) (by decide),
    ← rotr_eq (by decide) (by decide), ← rotr_eq (by decide) (by decide)]
  rfl

theorem smallSigma0_eq (x : UInt64) : smallSigma0 x = Sha512.lowerSigma0 x := by
  rw [smallSigma0, Sha512.lowerSigma0, ← rotr_eq (by decide) (by decide),
    ← rotr_eq (by decide) (by decide)]
  rfl

theorem smallSigma1_eq (x : UInt64) : smallSigma1 x = Sha512.lowerSigma1 x := by
  rw [smallSigma1, Sha512.lowerSigma1, ← rotr_eq (by decide) (by decide),
    ← rotr_eq (by decide) (by decide)]
  rfl

theorem standard_sha512Round (v : Sha512State) (k w : UInt64) :
    (sha512Round v (k, w)).standard = Sha512.round v.standard k w := by
  rw [sha512Round, bigSigma0_eq, bigSigma1_eq]
  rfl

theorem getD_reverse_words {block : List UInt8} {t i : ℕ} (h : i < t) :
    ((List.range t).map (Sha512.schedule block)).reverse.getD i 0 =
      Sha512.schedule block (t - 1 - i) := by
  rw [List.getD_eq_getElem _ _ (by simpa using h)]
  simp

theorem extendSchedule_words (block : List UInt8) (n t : ℕ) (h : 16 ≤ t) :
    extendSchedule n ((List.range t).map (Sha512.schedule block)).reverse =
      ((List.range (t + n)).map (Sha512.schedule block)).reverse := by
  induction n generalizing t with
  | zero => rfl
  | succ n ih =>
    have hword : Sha512.lowerSigma1 (Sha512.schedule block (t - 1 - 1)) +
        Sha512.schedule block (t - 1 - 6) +
        Sha512.lowerSigma0 (Sha512.schedule block (t - 1 - 14)) +
        Sha512.schedule block (t - 1 - 15) =
        Sha512.schedule block t := (Sha512.schedule_of_ge h).symm
    have hnext : Sha512.schedule block t :: ((List.range t).map (Sha512.schedule block)).reverse =
        ((List.range (t + 1)).map (Sha512.schedule block)).reverse := by
      simp [List.range_succ]
    have hcount : t + (n + 1) = t + 1 + n := by omega
    rw [extendSchedule, getD_reverse_words (by omega), getD_reverse_words (by omega),
      getD_reverse_words (by omega), getD_reverse_words (by omega), smallSigma0_eq,
      smallSigma1_eq, hword, hnext, hcount]
    exact ih (t + 1) (by omega)

theorem messageSchedule_eq (block : List UInt8) :
    messageSchedule block = (List.range 80).map (Sha512.schedule block) := by
  have hfirst : (List.range 16).map (fun i => UInt64.ofNat (beVal ((block.drop (8 * i)).take 8))) =
      (List.range 16).map (Sha512.schedule block) := by
    apply List.map_congr_left
    intro t ht
    rw [Sha512.schedule, if_pos (List.mem_range.mp ht)]
  rw [messageSchedule, hfirst, extendSchedule_words block 64 16 (Nat.le_refl 16),
    List.reverse_reverse]

theorem standard_sha512Transform (s : Sha512State) (block : List UInt8) :
    (sha512Transform s block).standard = Sha512.compress s.standard block := by
  have hK : sha512K = (List.range 80).map fun t => sha512K.getD t 0 := by decide
  have hzip : sha512K.zip (messageSchedule block) =
      (List.range 80).map fun t => (Sha512.roundConstants.getD t 0, Sha512.schedule block t) := by
    rw [messageSchedule_eq, hK, List.zip_map', ← sha512K_eq]
  have hround : ∀ (v : Sha512State) (t : ℕ),
      Sha512.round v.standard (Sha512.roundConstants.getD t 0) (Sha512.schedule block t) =
        (sha512Round v (Sha512.roundConstants.getD t 0, Sha512.schedule block t)).standard :=
    fun v t => (standard_sha512Round v _ _).symm
  rw [sha512Transform, hzip, List.foldl_map, Sha512.compress,
    List.foldl_hom Sha512State.standard hround]
  rfl

theorem standard_fold (s : Sha512State) (m : List UInt8) :
    (fold sha512Transform 128 s m).standard = fold Sha512.compress 128 s.standard m := by
  have hblock : ∀ (s : Sha512State) (i : ℕ), Sha512.compress s.standard (block 128 m i) =
      (sha512Transform s (block 128 m i)).standard :=
    fun s i => (standard_sha512Transform s _).symm
  rw [fold, fold, List.foldl_hom Sha512State.standard hblock]

/-! ## The code -/

/-- `sha512_ctx_t`, with all of its buffer. -/
structure Sha512Stream where
  state : Sha512State
  bitlen : UInt64
  buffer : List UInt8
  length_buffer : buffer.length = 128

namespace Sha512Stream

/-- `ctx->buffer[i] = b`. -/
def put (c : Sha512Stream) (i : ℕ) (b : UInt8) : Sha512Stream :=
  { c with buffer := c.buffer.set i b, length_buffer := by rw [List.length_set, c.length_buffer] }

/-- `sha512_transform` of the buffer. -/
def transform (c : Sha512Stream) : Sha512Stream :=
  { c with state := sha512Transform c.state c.buffer }

/-- The place in the buffer, as both functions compute it. -/
def active (c : Sha512Stream) : ℕ := ((c.bitlen >>> 3) &&& 127).toNat

/-- `sha512_init`, which leaves the buffer as it was. -/
def init (c : Sha512Stream) : Sha512Stream :=
  { c with state := sha512Init.state, bitlen := 0 }

@[simp] theorem transform_state (c : Sha512Stream) :
    c.transform.state = sha512Transform c.state c.buffer := rfl

/-- `ctx->bitlen += 8`. -/
def count (c : Sha512Stream) : Sha512Stream := { c with bitlen := c.bitlen + 8 }

/-- The loop body of `sha512_update`, with the place in the buffer. -/
def byte (p : Sha512Stream × ℕ) (b : UInt8) : Sha512Stream × ℕ :=
  let c := (p.1.put p.2 b).count
  if p.2 + 1 = 128 then (c.transform, 0) else (c, p.2 + 1)

/-- `sha512_update`. -/
def update (c : Sha512Stream) (data : List UInt8) : Sha512Stream :=
  (data.foldl byte (c, c.active)).1

/-- Bytes written one after the other from a place of the buffer on. -/
def putBytes (c : Sha512Stream) (i : ℕ) : List UInt8 → Sha512Stream
  | [] => c
  | b :: bs => (c.put i b).putBytes (i + 1) bs

/-- The loop `while (active < bound) ctx->buffer[active++] = 0x00`. -/
def zeros (c : Sha512Stream) (active bound : ℕ) : Sha512Stream :=
  c.putBytes active (List.replicate (bound - active) 0)

/-- `sha512_final`. -/
def final (c : Sha512Stream) : List UInt8 :=
  let active := c.active
  let c := c.put active 0x80
  let active := active + 1
  let (c, active) :=
    if active > 112 then ((c.zeros active 128).transform, 0) else (c, active)
  let c := ((c.zeros active 112).zeros 112 120).putBytes 120 (beBytes 8 c.bitlen.toNat)
  c.transform.state.toBytes

/-- `sha512`, with what its context on the stack held before. -/
def digest (c : Sha512Stream) (data : List UInt8) : List UInt8 := (c.init.update data).final

variable (c : Sha512Stream)

/-- The context without what its buffer holds behind the place. -/
def ctx : Sha512Ctx where
  state := c.state
  bitlen := c.bitlen
  buffer := c.buffer.take c.active

/-! ### The place in the buffer -/

theorem active_eq : c.active = c.bitlen.toNat / 8 % 128 := by
  rw [active, UInt64.toNat_and, UInt64.toNat_shiftRight]
  exact (Nat.and_two_pow_sub_one_eq_mod _ 7).trans (by rw [Nat.shiftRight_eq_div_pow]; rfl)

theorem active_lt : c.active < 128 := by
  rw [active_eq]
  exact Nat.mod_lt _ (by decide)

theorem length_take_active : (c.buffer.take c.active).length = c.active :=
  List.length_take_of_le (c.length_buffer ▸ c.active_lt.le)

variable {c}

theorem active_of_bitlen_add {c' : Sha512Stream} (h : c'.bitlen = c.bitlen + 8) :
    c'.active = if c.active + 1 = 128 then 0 else c.active + 1 := by
  have hlt := c.bitlen.toNat_lt
  rw [active_eq, active_eq, h, UInt64.toNat_add, UInt64.toNat_ofNat]
  split <;> omega

/-! ### Writing into the buffer -/

theorem take_put {i : ℕ} (h : i < 128) (b : UInt8) :
    (c.put i b).buffer.take (i + 1) = c.buffer.take i ++ [b] := by
  have hi : i < c.buffer.length := c.length_buffer.symm ▸ h
  have hset : (c.put i b).buffer = c.buffer.take i ++ b :: c.buffer.drop (i + 1) :=
    List.set_eq_take_append_cons_drop.trans (if_pos hi)
  simp [hset, List.take_append, hi.le]

@[simp] theorem putBytes_state (i : ℕ) (bs : List UInt8) : (c.putBytes i bs).state = c.state := by
  induction bs generalizing c i with
  | nil => rfl
  | cons b bs ih => exact ih (i + 1)

@[simp] theorem putBytes_bitlen (i : ℕ) (bs : List UInt8) :
    (c.putBytes i bs).bitlen = c.bitlen := by
  induction bs generalizing c i with
  | nil => rfl
  | cons b bs ih => exact ih (i + 1)

theorem take_putBytes {i : ℕ} {bs : List UInt8} (h : i + bs.length ≤ 128) :
    (c.putBytes i bs).buffer.take (i + bs.length) = c.buffer.take i ++ bs := by
  induction bs generalizing c i with
  | nil => simp [putBytes]
  | cons b bs ih =>
    rw [List.length_cons] at h ⊢
    have hrest := ih (c := c.put i b) (i := i + 1) (by omega)
    rw [take_put (by omega)] at hrest
    rw [putBytes, Nat.add_comm bs.length 1, ← Nat.add_assoc, hrest, List.append_assoc]
    rfl

@[simp] theorem zeros_state (i bound : ℕ) : (c.zeros i bound).state = c.state := putBytes_state i _

@[simp] theorem zeros_bitlen (i bound : ℕ) : (c.zeros i bound).bitlen = c.bitlen :=
  putBytes_bitlen i _

theorem take_zeros {i bound : ℕ} (h : i ≤ bound) (hb : bound ≤ 128) :
    (c.zeros i bound).buffer.take bound = c.buffer.take i ++ List.replicate (bound - i) 0 := by
  have hend : i + (List.replicate (bound - i) (0 : UInt8)).length = bound := by
    rw [List.length_replicate]
    omega
  have htake := take_putBytes (c := c) (hend.trans_le hb)
  rwa [hend] at htake

theorem take_buffer : c.buffer.take 128 = c.buffer := List.take_of_length_le c.length_buffer.le

/-! ### The code and the gathered bytes -/

theorem byte_active (b : UInt8) : (byte (c, c.active) b).2 = (byte (c, c.active) b).1.active := by
  rw [byte]
  split
  · rename_i h
    exact (active_of_bitlen_add rfl |>.trans (if_pos h)).symm
  · rename_i h
    exact (active_of_bitlen_add rfl |>.trans (if_neg h)).symm

theorem ctx_byte (b : UInt8) : (byte (c, c.active) b).1.ctx = sha512Byte c.ctx b := by
  have htake := take_put (c := c) c.active_lt b
  have hlen : (c.ctx.buffer ++ [b]).length = c.active + 1 := by
    rw [List.length_append, List.length_singleton]
    exact congrArg (· + 1) c.length_take_active
  rw [sha512Byte, ctx, ← byte_active, hlen]
  by_cases h : c.active + 1 = 128
  · rw [h, take_buffer] at htake
    have hstate : (c.put c.active b).count.transform.state =
        sha512Transform c.state (c.ctx.buffer ++ [b]) := congrArg (sha512Transform c.state) htake
    rw [if_pos h, byte, if_pos h, hstate]
    rfl
  · rw [if_neg h, byte, if_neg h]
    exact congrArg _ htake

theorem ctx_update (data : List UInt8) : (c.update data).ctx = sha512Update c.ctx data := by
  have hloop : ∀ c : Sha512Stream, (data.foldl byte (c, c.active)).1.ctx =
      sha512Update c.ctx data := by
    induction data with
    | nil => exact fun c => rfl
    | cons b bs ih =>
      intro c
      have hnext : byte (c, c.active) b =
          ((byte (c, c.active) b).1, (byte (c, c.active) b).1.active) :=
            Prod.ext rfl (byte_active b)
      rw [List.foldl_cons, hnext, ih, ctx_byte]
      rfl
  exact hloop c

theorem ctx_init : c.init.ctx = sha512Init := by
  have hstart : c.init.active = 0 := by simp [active, init]
  rw [ctx, hstart]
  rfl

theorem transform_last {active : ℕ} (h : active ≤ 112) :
    (((c.zeros active 112).zeros 112 120).putBytes 120 (beBytes 8 c.bitlen.toNat)).transform.state =
      sha512Transform c.state (c.buffer.take active ++ List.replicate (112 - active) 0 ++
        List.replicate 8 0 ++ beBytes 8 c.bitlen.toNat) := by
  have hend : 120 + (beBytes 8 c.bitlen.toNat).length = 128 := by simp
  have hlast := take_putBytes (c := (c.zeros active 112).zeros 112 120) hend.le
  have hzeros : ((c.zeros active 112).zeros 112 120).buffer.take 120 =
      (c.zeros active 112).buffer.take 112 ++ List.replicate 8 0 := take_zeros (by omega) (by omega)
  rw [hend, take_buffer, hzeros, take_zeros h (by omega)] at hlast
  rw [transform_state, putBytes_state, zeros_state, zeros_state, hlast]

theorem final_eq : c.final = sha512Final c.ctx := by
  have hput : (c.put c.active 0x80).buffer.take (c.active + 1) = c.ctx.buffer ++ [0x80] :=
    take_put c.active_lt 0x80
  have hlen : (c.ctx.buffer ++ [0x80]).length = c.active + 1 := by
    rw [List.length_append, List.length_singleton]
    exact congrArg (· + 1) c.length_take_active
  have hlt := c.active_lt
  rw [final, sha512Final, hlen]
  by_cases h : c.active + 1 > 112
  · have hfull := take_zeros (c := c.put c.active 0x80) (show c.active + 1 ≤ 128 by omega) le_rfl
    rw [take_buffer, hput] at hfull
    have hlast := transform_last (c := ((c.put c.active 0x80).zeros (c.active + 1) 128).transform)
      (Nat.zero_le 112)
    simp only [if_pos h, hlast]
    simp only [transform, zeros_state, zeros_bitlen, hfull]
    rfl
  · simp only [if_neg h, transform_last (Nat.le_of_not_lt h), hput, hlen]
    rfl

theorem ctx_foldl_update (chunks : List (List UInt8)) :
    (chunks.foldl update c).ctx = sha512Update c.ctx chunks.flatten := by
  induction chunks generalizing c with
  | nil => rfl
  | cons data chunks ih =>
    rw [List.foldl_cons, ih, ctx_update, List.flatten_cons, sha512Update_append]

theorem digest_eq (data : List UInt8) : c.digest data = sha512 data := by
  rw [digest, final_eq, ctx_update, ctx_init, sha512]

end Sha512Stream

/-! ## The digest -/

theorem beBytes_16 {v : ℕ} (h : v < 2 ^ 64) : beBytes 16 v = List.replicate 8 0 ++ beBytes 8 v := by
  have hhigh : v / 256 ^ 8 = 0 := Nat.div_eq_of_lt h
  rw [beBytes, leBytes_append 8 8, hhigh, List.reverse_append]
  rfl

/-- The state of a context, with the bytes gathered. -/
def Sha512Ctx.gathered (ctx : Sha512Ctx) : Sha512State × List UInt8 := (ctx.state, ctx.buffer)

theorem gathered_sha512Byte (ctx : Sha512Ctx) (b : UInt8) :
    (sha512Byte ctx b).gathered = absorb sha512Transform 128 ctx.gathered b :=
  apply_ite Sha512Ctx.gathered _ _ _

theorem bitlen_sha512Byte (ctx : Sha512Ctx) (b : UInt8) :
    (sha512Byte ctx b).bitlen = ctx.bitlen + 8 :=
  (apply_ite Sha512Ctx.bitlen _ _ _).trans (ite_self _)

theorem gathered_sha512Update (m : List UInt8) :
    (sha512Update sha512Init m).gathered =
      (fold sha512Transform 128 sha512Init.state m, rest 128 m) := by
  rw [← foldl_absorb (by decide)]
  exact (List.foldl_hom Sha512Ctx.gathered fun ctx b => (gathered_sha512Byte ctx b).symm).symm

theorem bitlen_sha512Update (ctx : Sha512Ctx) (m : List UInt8) :
    (sha512Update ctx m).bitlen = ctx.bitlen + UInt64.ofNat (8 * m.length) := by
  induction m generalizing ctx with
  | nil => simp [sha512Update]
  | cons b m ih =>
    change (sha512Update (sha512Byte ctx b) m).bitlen = _
    rw [ih, bitlen_sha512Byte, List.length_cons, Nat.mul_add, Nat.mul_one, UInt64.ofNat_add,
      UInt64.add_assoc, UInt64.add_comm (UInt64.ofNat _)]
    rfl

theorem sha512Final_eq_fold {ctx : Sha512Ctx} (h : ctx.buffer.length < 128) :
    sha512Final ctx = (fold sha512Transform 128 ctx.state
      (ctx.buffer ++ [0x80] ++ List.replicate (Sha512.zeros ctx.buffer.length) 0 ++
        List.replicate 8 0 ++ beBytes 8 ctx.bitlen.toNat)).toBytes := by
  have hlen : (ctx.buffer ++ [0x80]).length = ctx.buffer.length + 1 := by simp
  rw [sha512Final, Sha512.zeros_eq]
  by_cases hfull : ctx.buffer.length + 1 > 112
  · -- the zeros fill the first block up, and 112 of them begin the second one
    have hzeros : (239 - ctx.buffer.length % 128) % 128 = 128 - (ctx.buffer.length + 1) + 112 := by
      omega
    have hfirst : (ctx.buffer ++ [0x80] ++
        List.replicate (128 - (ctx.buffer.length + 1)) 0).length = 128 := by
      rw [List.length_append, hlen, List.length_replicate]
      omega
    simp only [hlen, if_pos hfull]
    rw [hzeros, List.replicate_add, ← List.append_assoc, List.append_assoc _ (List.replicate 112 0),
      List.append_assoc _ (List.replicate 112 0 ++ _), fold_append (by rw [hfirst]),
      fold_of_length_eq (by decide) hfirst, fold_of_length_eq (by decide) (by simp)]
    rfl
  · have hzeros : (239 - ctx.buffer.length % 128) % 128 = 112 - (ctx.buffer.length + 1) := by
      omega
    simp only [hlen, if_neg hfull]
    rw [hzeros, fold_of_length_eq (by decide)]
    simp only [List.length_append, List.length_replicate, length_beBytes, List.length_singleton]
    omega

theorem sha512_eq_hash {m : List UInt8} (h : m.length < 2 ^ 61) : sha512 m = Sha512.hash m := by
  obtain ⟨hstate, hbuffer⟩ := Prod.mk.inj (gathered_sha512Update m)
  have hbits : (sha512Update sha512Init m).bitlen.toNat = 8 * m.length := by
    have hlt : 8 * m.length < UInt64.size := by
      rw [UInt64.size]
      omega
    rw [bitlen_sha512Update, show sha512Init.bitlen = 0 from rfl, UInt64.zero_add,
      UInt64.toNat_ofNat_of_lt' hlt]
  have hshort : (rest 128 m).length < 128 := length_rest m ▸ Nat.mod_lt _ (by decide)
  have hzeros : Sha512.zeros (rest 128 m).length = Sha512.zeros m.length := by
    rw [Sha512.zeros_eq, Sha512.zeros_eq, length_rest, Nat.mod_mod]
  have hfield := beBytes_16 (v := 8 * m.length) (by omega)
  rw [sha512, sha512Final_eq_fold (hbuffer ▸ hshort), hstate, hbuffer, hbits, hzeros,
    Sha512.hash, Sha512.padded, hfield, ← standard_init, ← standard_fold, toBytes_standard,
    fold_append_rest (by decide) m]
  simp only [List.append_assoc, List.cons_append, List.nil_append]

/-- However a message is cut into chunks, taking them in one after the other gives the digest of
the standard, as `sha512` of the whole message does. -/
theorem sha512_streaming (c c' : Sha512Stream) (chunks : List (List UInt8))
    (h : chunks.flatten.length < 2 ^ 61) :
    (chunks.foldl Sha512Stream.update c.init).final = Sha512.hash chunks.flatten ∧
      c'.digest chunks.flatten = Sha512.hash chunks.flatten := by
  have hwhole := sha512_eq_hash h
  constructor
  · rw [Sha512Stream.final_eq, Sha512Stream.ctx_foldl_update, Sha512Stream.ctx_init, ← hwhole,
      sha512]
  · rw [Sha512Stream.digest_eq, hwhole]

def Sha512Stream.cleared : Sha512Stream where
  state := { a := 0, b := 0, c := 0, d := 0, e := 0, f := 0, g := 0, h := 0 }
  bitlen := 0
  buffer := List.replicate 128 0
  length_buffer := List.length_replicate

theorem sha512_streaming_abc :
    ([[0x61], [], [0x62, 0x63]].foldl Sha512Stream.update Sha512Stream.cleared.init).final =
      Sha512.hash [0x61, 0x62, 0x63] ∧
    Sha512Stream.cleared.digest [0x61, 0x62, 0x63] = Sha512.hash [0x61, 0x62, 0x63] :=
  sha512_streaming .cleared .cleared [[0x61], [], [0x62, 0x63]] (by decide)

end StyxOS
