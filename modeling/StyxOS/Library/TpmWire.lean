import StyxOS.Library.Bytes

/-! # Commands of TPM 2.0 on the wire

A command is its header, with the size of all of it, and then its handles, the
authorization area if there are sessions, and its parameters. Every number is
big-endian, every list counted, every buffer preceded by its size.
-/

namespace TpmWire

open ByteMem

/-- A list: four bytes for the count, and the elements. -/
def counted (xs : List (List UInt8)) : List UInt8 := beBytes 4 xs.length ++ xs.flatten

/-- A buffer: two bytes for the size, and the contents. -/
def buffer (bs : List UInt8) : List UInt8 := beBytes 2 bs.length ++ bs

structure Session where
  handle : ℕ
  nonce : List UInt8
  attributes : UInt8
  hmac : List UInt8

def Session.bytes (s : Session) : List UInt8 :=
  beBytes 4 s.handle ++ buffer s.nonce ++ [s.attributes] ++ buffer s.hmac

structure Command where
  code : ℕ
  handles : List ℕ
  sessions : List Session
  parameters : List UInt8

namespace Command

variable (c : Command)

/-- Whether there are sessions. -/
def tag : ℕ := if c.sessions = [] then 0x8001 else 0x8002

def authorization : List UInt8 :=
  if c.sessions = [] then []
  else
    let area := c.sessions.flatMap Session.bytes
    beBytes 4 area.length ++ area

def bytes (size : ℕ) : List UInt8 :=
  beBytes 2 c.tag ++ beBytes 4 size ++ beBytes 4 c.code ++ c.handles.flatMap (beBytes 4) ++
    c.authorization ++ c.parameters

end Command

def sizeField (bs : List UInt8) : ℕ := beVal ((bs.drop 2).take 4)

theorem Command.sizeField_bytes (c : Command) {size : ℕ} (h : size < 2 ^ 32) :
    sizeField (c.bytes size) = size := by
  have hdrop : (c.bytes size).drop 2 = beBytes 4 size ++ (beBytes 4 c.code ++
      (c.handles.flatMap (beBytes 4) ++ (c.authorization ++ c.parameters))) := by
    simp only [bytes, List.append_assoc]
    exact List.drop_left' (length_beBytes 2 _)
  rw [sizeField, hdrop, List.take_left' (length_beBytes 4 _), beVal_beBytes]
  exact Nat.mod_eq_of_lt h

/-! ### Selections of PCRs -/

/-- The bitmap of the PCRs 0 to 23 that are selected, eight to a byte, from the lowest bit. -/
def pcrBitmap (selected : ℕ → Bool) : List UInt8 :=
  (List.range 3).map fun k => UInt8.ofNat (Nat.ofBits fun b : Fin 8 => selected (8 * k + b))

/-- The selection in one bank, by its hash algorithm. -/
def pcrSelection (hashAlg : ℕ) (selected : ℕ → Bool) : List UInt8 :=
  counted [beBytes 2 hashAlg ++ [3] ++ pcrBitmap selected]

theorem pcrBitmap_mask (mask : UInt32) :
    pcrBitmap mask.toNat.testBit =
      [mask.toUInt8, (mask >>> 8).toUInt8, (mask >>> 16).toUInt8] := by
  have hbyte : ∀ k, Nat.ofBits (fun b : Fin 8 => mask.toNat.testBit (8 * k + b)) =
      mask.toNat >>> (8 * k) % 2 ^ 8 := by
    intro k
    refine Nat.eq_of_testBit_eq fun j => ?_
    rw [Nat.testBit_ofBits, Nat.testBit_mod_two_pow, Nat.testBit_shiftRight]
    by_cases hj : j < 8 <;> simp [hj]
  simp only [pcrBitmap, hbyte, List.range_succ, List.range_zero, List.nil_append,
    List.map_cons, List.map_nil, List.cons_append, List.cons.injEq, and_true]
  refine ⟨?_, ?_, ?_⟩ <;> refine UInt8.toNat.inj ?_ <;> simp

end TpmWire
