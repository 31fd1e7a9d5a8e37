import StyxOS.Library.Xoshiro
import StyxOS.Syscall.Pqc

/-! # The random numbers of the kernel

The generator of `csprng.c`, with what it reads from the clocks as inputs. A call mixes
two readings into the state and then hands out the stream of that state, so that any 32 aligned
bytes of a call tell all the others, and what the next call hands out but for its two readings.
-/

namespace StyxOS

open ByteMem OutputStream Xoshiro

/-- `xoshiro256ss_next`, with the assignments of the source in their order. -/
def xoshiro256ssNext (g : State) : UInt64 × State :=
  let result := rotl (g.s₁ * 5) 7 * 9
  let t := g.s₁ <<< 17
  let s₂ := g.s₂ ^^^ g.s₀
  let s₃ := g.s₃ ^^^ g.s₁
  let s₁ := g.s₁ ^^^ s₂
  let s₀ := g.s₀ ^^^ s₃
  (result, { s₀, s₁, s₂ := s₂ ^^^ t, s₃ := rotl s₃ 45 })

/-- The two bytes of a latched count, as they are read. -/
structure PitCount where
  lo : UInt8
  hi : UInt8

def readPitCounter (p : PitCount) : UInt64 := p.hi.toUInt64 <<< 8 ||| p.lo.toUInt64

/-- Two time stamps around `cpuid`, and its answer. -/
structure CpuidReading where
  t1 : UInt64
  eax : UInt32
  ebx : UInt32
  ecx : UInt32
  edx : UInt32
  t2 : UInt64

def cpuidJitter (c : CpuidReading) : UInt64 :=
  (c.t2 - c.t1) ^^^ c.eax.toUInt64 <<< 32 ^^^ c.ebx.toUInt64 ^^^ c.ecx.toUInt64 <<< 16 ^^^
    c.edx.toUInt64

/-- What `csprng_init` reads, word by word of the state. -/
structure InitReadings where
  tsc0 : UInt64
  tsc1 : UInt64
  pit1 : PitCount
  cpuid2 : CpuidReading
  tsc2 : UInt64
  tsc3 : UInt64
  pit3 : PitCount

/-- The globals of `csprng.c`. -/
structure Csprng where
  s : State
  callCounter : UInt64
  initialized : Bool

def csprngInit (r : InitReadings) : Csprng :=
  let s : State := {
    s₀ := r.tsc0
    s₁ := r.tsc1 ^^^ readPitCounter r.pit1
    s₂ := cpuidJitter r.cpuid2 ^^^ r.tsc2 <<< 7
    s₃ := r.tsc3 ^^^ readPitCounter r.pit3 <<< 13 }
  { s := (fun s => (xoshiro256ssNext s).2)^[64] s, callCounter := 0, initialized := true }

/-- What `csprng_get_bytes` reads, with what it reads when it comes first. -/
structure Readings where
  init : InitReadings
  tsc : UInt64
  pit : PitCount

/-- The loop of `csprng_get_bytes`, with the number of bytes that are still to come. -/
def fillBytes (rest : ℕ) (s : State) : List UInt8 × State :=
  if rest = 0 then ([], s)
  else
    let (r, s) := xoshiro256ssNext s
    let chunk := min rest 8
    let (bs, s) := fillBytes (rest - chunk) s
    (leBytes chunk r.toNat ++ bs, s)
termination_by rest

/-- Where `csprng_get_bytes` has found or brought the generator. -/
def ensureInit (r : Readings) (g : Csprng) : Csprng :=
  if g.initialized then g else csprngInit r.init

/-- What a call mixes into the state. -/
def remix (tsc : UInt64) (pit : PitCount) (callCounter : UInt64) (s : State) : State :=
  { s with s₀ := s.s₀ ^^^ (tsc + callCounter), s₂ := s.s₂ ^^^ readPitCounter pit }

/-- `csprng_get_bytes`: the bytes that are written. -/
def Csprng.getBytes (r : Readings) (len : ℕ) (g : Csprng) : List UInt8 × Csprng :=
  if len = 0 then ([], g)
  else
    let g := ensureInit r g
    let callCounter := g.callCounter + 1
    let (bs, s) := fillBytes len (remix r.tsc r.pit callCounter g.s)
    (bs, { g with s, callCounter })

/-! ## The stream of a call -/

theorem xoshiro256ssNext_eq (s : State) : xoshiro256ssNext s = (s.out, s.step) := by
  simp only [xoshiro256ssNext, State.out, State.step, scramble, UInt64.xor_assoc]

def wordCount (len : ℕ) : ℕ := (len + 7) / 8

def wordsBytes (ws : List UInt64) : List UInt8 := ws.flatMap fun w => leBytes 8 w.toNat

theorem length_wordsBytes (ws : List UInt64) : (wordsBytes ws).length = 8 * ws.length := by
  induction ws with
  | nil => rfl
  | cons w ws ih =>
    rw [wordsBytes, List.flatMap_cons, List.length_append, length_leBytes, ← wordsBytes, ih,
      List.length_cons]
    omega

theorem take_wordsBytes_cons {n : ℕ} (w : UInt64) (ws : List UInt64) :
    (wordsBytes (w :: ws)).take n = leBytes (min n 8) w.toNat ++ (wordsBytes ws).take (n - 8) := by
  have hword : (leBytes 8 w.toNat).take n = leBytes (min n 8) w.toNat := by
    have hsplit : min n 8 + (8 - min n 8) = 8 := by omega
    by_cases hn : n ≤ 8
    · rw [← hsplit, leBytes_append, hsplit, Nat.min_eq_left hn,
        List.take_left' (length_leBytes n _)]
    · rw [Nat.min_eq_right (by omega), List.take_of_length_le (by simp; omega)]
  rw [wordsBytes, List.flatMap_cons, List.take_append, hword, length_leBytes]
  rfl

theorem fillBytes_eq (len : ℕ) (s : State) : fillBytes len s =
    ((wordsBytes (outputs State.step State.out (wordCount len) s)).take len,
      State.step^[wordCount len] s) := by
  induction len using Nat.strong_induction_on generalizing s with
  | _ len ih =>
    rw [fillBytes]
    by_cases hzero : len = 0
    · rw [if_pos hzero, hzero]
      rfl
    · have hcount : wordCount len = wordCount (len - min len 8) + 1 := by unfold wordCount; omega
      have hrest : len - min len 8 = len - 8 := by omega
      rw [if_neg hzero, xoshiro256ssNext_eq, hcount, outputs, take_wordsBytes_cons,
        Function.iterate_succ_apply]
      dsimp only
      rw [ih (len - min len 8) (by omega), hrest]

def wordsOfBytes : ℕ → List UInt8 → List UInt64
  | 0, _ => []
  | n + 1, bs => UInt64.ofNat (leVal (bs.take 8)) :: wordsOfBytes n (bs.drop 8)

theorem wordsOfBytes_wordsBytes (ws : List UInt64) (bs : List UInt8) :
    wordsOfBytes ws.length (wordsBytes ws ++ bs) = ws := by
  induction ws with
  | nil => rfl
  | cons w ws ih =>
    have hsplit : wordsBytes (w :: ws) ++ bs = leBytes 8 w.toNat ++ (wordsBytes ws ++ bs) := by
      rw [wordsBytes, List.flatMap_cons, List.append_assoc]
      rfl
    have hlt : w.toNat < 256 ^ 8 := w.toNat_lt
    have hword : UInt64.ofNat (leVal (leBytes 8 w.toNat)) = w := by
      rw [leVal_leBytes, Nat.mod_eq_of_lt hlt, UInt64.ofNat_toNat]
    rw [hsplit, List.length_cons, wordsOfBytes, List.take_left' (length_leBytes 8 _),
      List.drop_left' (length_leBytes 8 _), ih, hword]

theorem wordsBytes_wordsOfBytes {n : ℕ} {bs : List UInt8} (h : bs.length = 8 * n) :
    wordsBytes (wordsOfBytes n bs) = bs ∧ (wordsOfBytes n bs).length = n := by
  induction n generalizing bs with
  | zero => exact ⟨(List.eq_nil_of_length_eq_zero h).symm, rfl⟩
  | succ n ih =>
    have hdrop : (bs.drop 8).length = 8 * n := by
      rw [List.length_drop, h]
      omega
    obtain ⟨hbytes, hlen⟩ := ih hdrop
    have htake : (bs.take 8).length = 8 := by rw [List.length_take, h]; omega
    have hlt : leVal (bs.take 8) < 2 ^ 64 := by
      have hval := leVal_lt (bs.take 8)
      rwa [htake] at hval
    have hword : leBytes 8 (UInt64.ofNat (leVal (bs.take 8))).toNat = bs.take 8 := by
      rw [UInt64.toNat_ofNat_of_lt' hlt]
      have hback := leBytes_leVal (bs.take 8)
      rwa [htake] at hback
    refine ⟨?_, congrArg (· + 1) hlen⟩
    rw [wordsOfBytes, wordsBytes, List.flatMap_cons, ← wordsBytes, hbytes, hword,
      List.take_append_drop]

theorem wordsBytes_append (ws vs : List UInt64) :
    wordsBytes (ws ++ vs) = wordsBytes ws ++ wordsBytes vs := List.flatMap_append

variable {i len : ℕ} {r : Readings} {g : Csprng}

theorem window_wordsBytes {os : List UInt64} (h : 8 * i + 32 ≤ len) (hos : i + 4 ≤ os.length) :
    (((wordsBytes os).take len).drop (8 * i)).take 32 = wordsBytes (window i 4 os) := by
  have hos' : os = os.take i ++ (window i 4 os ++ os.drop (i + 4)) := by
    rw [window, ← List.drop_drop, List.take_append_drop, List.take_append_drop]
  have hskip : (wordsBytes (os.take i)).length = 8 * i := by
    rw [length_wordsBytes, List.length_take, Nat.min_eq_left (by omega)]
  have hwindow : (wordsBytes (window i 4 os)).length = 32 := by
    rw [length_wordsBytes, window, List.length_take, List.length_drop, Nat.min_eq_left (by omega)]
  generalize window i 4 os = w at hos' hwindow ⊢
  rw [List.drop_take, List.take_take, Nat.min_eq_left (by omega), hos', wordsBytes_append,
    List.drop_left' hskip, wordsBytes_append, List.take_left' hwindow]

/-- The stream of `len` bytes that has these 32 bytes behind its first `i` words, with the state at
its end. -/
def streamFrom (i len : ℕ) (w : List UInt8) : List UInt8 × State :=
  fillBytes len (State.undo^[i] (State.ofOutputs (wordsOfBytes 4 w)))

theorem streamFrom_fillBytes (h : 8 * i + 32 ≤ len) (s : State) :
    streamFrom i len (((fillBytes len s).1.drop (8 * i)).take 32) = fillBytes len s := by
  have hcount : i + 4 ≤ wordCount len := by unfold wordCount; omega
  have hlen := length_outputs State.step State.out (wordCount len) s
  have hwindow : (window i 4 (outputs State.step State.out (wordCount len) s)).length = 4 := by
    rw [window_outputs State.step State.out hcount, length_outputs]
  have hwords := wordsOfBytes_wordsBytes
    (window i 4 (outputs State.step State.out (wordCount len) s)) []
  rw [hwindow, List.append_nil] at hwords
  have hstart := start_of_window State.undo_step State.ofOutputs_outputs hcount s
  have hbytes := window_wordsBytes h (hlen.symm ▸ hcount)
  have hfill := congrArg Prod.fst (fillBytes_eq len s)
  dsimp only at hfill
  rw [streamFrom, hfill, hbytes, hwords, hstart]

/-! ## A call -/

theorem remix_remix (tsc : UInt64) (pit : PitCount) (callCounter : UInt64) (s : State) :
    remix tsc pit callCounter (remix tsc pit callCounter s) = s := by
  simp only [remix, UInt64.xor_assoc, UInt64.xor_self, UInt64.xor_zero]

def callState (r : Readings) (g : Csprng) : State :=
  remix r.tsc r.pit ((ensureInit r g).callCounter + 1) (ensureInit r g).s

theorem getBytes_eq (h : len ≠ 0) (r : Readings) (g : Csprng) : g.getBytes r len =
    ((fillBytes len (callState r g)).1,
      { s := (fillBytes len (callState r g)).2
        callCounter := (ensureInit r g).callCounter + 1
        initialized := true }) := by
  have hready : (ensureInit r g).initialized = true := by
    unfold ensureInit
    by_cases hinit : g.initialized
    · rw [if_pos hinit, hinit]
    · rw [if_neg hinit]
      rfl
  rw [Csprng.getBytes, if_neg h]
  dsimp only
  rw [hready]
  rfl

theorem getBytes_fst (r : Readings) (len : ℕ) (s : State) (callCounter : UInt64) :
    (Csprng.getBytes r len ⟨s, callCounter, true⟩).1 =
      (fillBytes len (remix r.tsc r.pit (callCounter + 1) s)).1 := by
  by_cases hlen : len = 0
  · rw [Csprng.getBytes, if_pos hlen, fillBytes, if_pos hlen]
  · rw [getBytes_eq hlen]
    rfl

/-- Any 32 aligned bytes of a call tell all its bytes, and the state behind it: what the next call
hands out is a function of them, the number of the call and the two readings of that call. -/
theorem stream_of_window (h : 8 * i + 32 ≤ len) (r : Readings) (g : Csprng) :
    (streamFrom i len (((g.getBytes r len).1.drop (8 * i)).take 32)).1 = (g.getBytes r len).1 ∧
      ∀ r' len', ((g.getBytes r len).2.getBytes r' len').1 =
        (fillBytes len' (remix r'.tsc r'.pit ((ensureInit r g).callCounter + 1 + 1)
          (streamFrom i len (((g.getBytes r len).1.drop (8 * i)).take 32)).2)).1 := by
  rw [getBytes_eq (by omega)]
  dsimp only
  rw [streamFrom_fillBytes h]
  exact ⟨rfl, fun r' len' => getBytes_fst ..⟩

/-- Counters that stand still. -/
def sampleReadings : Readings :=
  ⟨⟨0, 0, ⟨0, 0⟩, ⟨0, 0, 0, 0, 0, 0⟩, 0, 0, ⟨0, 0⟩⟩, 0, ⟨0, 0⟩⟩

def sampleCall : List UInt8 × Csprng :=
  (csprngInit sampleReadings.init).getBytes sampleReadings 61

/-- This call and the one after it, from 32 bytes in its middle. -/
theorem stream_of_window_sample :
    (streamFrom 2 61 ((sampleCall.1.drop 16).take 32)).1 = sampleCall.1 ∧
      (sampleCall.2.getBytes sampleReadings 40).1 =
        (fillBytes 40 (remix 0 ⟨0, 0⟩ 2
          (streamFrom 2 61 ((sampleCall.1.drop 16).take 32)).2)).1 := by
  have hwindow : 8 * 2 + 32 ≤ 61 := by decide
  obtain ⟨hfirst, hnext⟩ :=
    stream_of_window hwindow sampleReadings (csprngInit sampleReadings.init)
  exact ⟨hfirst, hnext sampleReadings 40⟩

/-- Every 32 bytes are handed out, anywhere in a call, from exactly one state. -/
theorem window_existsUnique (h : 8 * i + 32 ≤ len) (r : Readings) (callCounter : UInt64)
    {w : List UInt8} (hw : w.length = 32) :
    ∃! s, ((Csprng.getBytes r len ⟨s, callCounter, true⟩).1.drop (8 * i)).take 32 = w := by
  have hcount : i + 4 ≤ wordCount len := by unfold wordCount; omega
  obtain ⟨hbytes, hlen⟩ := wordsBytes_wordsOfBytes (n := 4) hw
  obtain ⟨s, hs, hunique⟩ := existsUnique_window State.undo_step State.step_undo
    State.ofOutputs_outputs (fun _ => State.outputs_ofOutputs) hcount hlen
  have hcall (s' : State) :
      ((Csprng.getBytes r len ⟨s', callCounter, true⟩).1.drop (8 * i)).take 32 =
        wordsBytes (window i 4 (outputs State.step State.out (wordCount len)
          (remix r.tsc r.pit (callCounter + 1) s'))) := by
    rw [getBytes_fst, fillBytes_eq]
    exact window_wordsBytes h (by rw [length_outputs]; exact hcount)
  refine ⟨remix r.tsc r.pit (callCounter + 1) s, ?_, fun s' hs' => ?_⟩
  · dsimp only
    rw [hcall, remix_remix, hs, hbytes]
  · rw [← remix_remix r.tsc r.pit (callCounter + 1) s']
    refine congrArg _ (hunique _ ?_)
    dsimp only at hs' ⊢
    rw [hcall] at hs'
    have hback := wordsOfBytes_wordsBytes (window i 4 (outputs State.step State.out (wordCount len)
      (remix r.tsc r.pit (callCounter + 1) s'))) []
    rw [window_outputs State.step State.out hcount] at hs' hback ⊢
    rwa [length_outputs, List.append_nil, hs', eq_comm] at hback

theorem window_existsUnique_sample :
    ∃! s, ((Csprng.getBytes sampleReadings 64 ⟨s, 0, true⟩).1.drop 8).take 32 =
      List.replicate 32 0 :=
  window_existsUnique (i := 1) (by decide) sampleReadings 0 List.length_replicate

/-! ## Key pairs -/

/-- The machine, with the random numbers of two calls before it. -/
def drawing (pkBytes skBytes : ℕ) (r₁ r₂ : Readings) (g : Csprng) (m : Machine) : Machine :=
  { m with entropy := fun i =>
      ((g.getBytes r₁ pkBytes).1 ++ ((g.getBytes r₁ pkBytes).2.getBytes r₂ skBytes).1).getD i 0 }

/-- The secret key that goes with a public key, if the second one of the two calls has this number
and these readings. -/
def secretOf (pkBytes skBytes : ℕ) (tag : UInt8) (callCounter tsc : UInt64) (pit : PitCount)
    (pk : List UInt8) : List UInt8 :=
  (fillBytes skBytes (remix tsc pit callCounter
    (streamFrom 1 pkBytes ((pk.drop 8).take 32)).2)).1.set 0 tag

theorem length_getBytes (r : Readings) (len : ℕ) (g : Csprng) :
    (g.getBytes r len).1.length = len := by
  by_cases hlen : len = 0
  · rw [Csprng.getBytes, if_pos hlen, hlen]
    rfl
  · rw [getBytes_eq hlen, fillBytes_eq, List.length_take, length_wordsBytes, length_outputs]
    unfold wordCount
    omega

theorem map_getD_append {as bs : List UInt8} {m n : ℕ} (has : as.length = m) (hbs : bs.length = n) :
    ((List.range m).map fun i => (as ++ bs).getD i 0) = as ∧
      ((List.range n).map fun i => (as ++ bs).getD (m + i) 0) = bs := by
  refine ⟨List.ext_getElem (by simp [has]) fun i hi hi' => ?_,
    List.ext_getElem (by simp [hbs]) fun i hi hi' => ?_⟩
  · rw [List.getElem_map, List.getElem_range, List.getD_append _ _ _ _ hi',
      List.getD_eq_getElem _ _ hi']
  · rw [List.getElem_map, List.getElem_range, List.getD_append_right _ _ _ _ (by omega), has,
      Nat.add_sub_cancel_left, List.getD_eq_getElem _ _ hi']

theorem drawKeypair_secretOf {pkBytes : ℕ} (hpk : 40 ≤ pkBytes) (skBytes : ℕ) (tag : UInt8)
    (r₁ r₂ : Readings) (g : Csprng) (m : Machine) :
    ∃ pk, (drawKeypair pkBytes skBytes tag (drawing pkBytes skBytes r₁ r₂ g m)).value =
      some ⟨pk, secretOf pkBytes skBytes tag ((ensureInit r₁ g).callCounter + 1 + 1) r₂.tsc r₂.pit
        pk⟩ := by
  have hlen₁ := length_getBytes r₁ pkBytes g
  have hlen₂ := length_getBytes r₂ skBytes (g.getBytes r₁ pkBytes).2
  obtain ⟨hpublic, hsecret⟩ := map_getD_append hlen₁ hlen₂
  obtain ⟨-, hnext⟩ := stream_of_window (i := 1) hpk r₁ g
  have hwindow : (((g.getBytes r₁ pkBytes).1.set 0 tag).drop 8).take 32 =
      ((g.getBytes r₁ pkBytes).1.drop (8 * 1)).take 32 := by
    rw [List.drop_set_of_lt (by decide)]
  have hdraw : (drawKeypair pkBytes skBytes tag (drawing pkBytes skBytes r₁ r₂ g m)).value =
      some ⟨((List.range pkBytes).map (drawing pkBytes skBytes r₁ r₂ g m).entropy).set 0 tag,
        ((List.range skBytes).map fun i =>
          (drawing pkBytes skBytes r₁ r₂ g m).entropy (pkBytes + i)).set 0 tag⟩ := rfl
  refine ⟨(g.getBytes r₁ pkBytes).1.set 0 tag, ?_⟩
  rw [hdraw, drawing]
  dsimp only
  rw [hpublic, hsecret, secretOf, hwindow, hnext]

/-- The secret keys of both algorithms are functions of their public keys, of how many calls there
were, and of the two readings between the calls. -/
theorem secret_keys_of_public (r₁ r₂ : Readings) (g : Csprng) (m : Machine) :
    (∃ pk, (kyber1024Keypair (drawing kyber1024PublickeyBytes kyber1024SecretkeyBytes r₁ r₂ g
        m)).value = some ⟨pk, secretOf kyber1024PublickeyBytes kyber1024SecretkeyBytes 0x04
          ((ensureInit r₁ g).callCounter + 1 + 1) r₂.tsc r₂.pit pk⟩) ∧
      ∃ pk, (dilithium5Keypair (drawing dilithium5PublickeyBytes dilithium5SecretkeyBytes r₁ r₂ g
        m)).value = some ⟨pk, secretOf dilithium5PublickeyBytes dilithium5SecretkeyBytes 0x05
          ((ensureInit r₁ g).callCounter + 1 + 1) r₂.tsc r₂.pit pk⟩ :=
  ⟨drawKeypair_secretOf (by decide) _ _ r₁ r₂ g m, drawKeypair_secretOf (by decide) _ _ r₁ r₂ g m⟩

end StyxOS
