import StyxOS.Syscall.Confinement

/-! # The post-quantum primitives

Key pairs, signatures and encapsulated secrets of `pqc.c`, on the bytes of their
buffers, and what of them depends on the keys.
-/

namespace StyxOS

open Access ByteMem

/-- Lengths of `pqc.h`. -/
def kyber1024SecretkeyBytes : ℕ := 3168
def dilithium5PublickeyBytes : ℕ := 2592
def dilithium5SecretkeyBytes : ℕ := 4896
def dilithium5SigBytes : ℕ := 4595

/-- `kyber1024_keypair_t` and `dilithium5_keypair_t`. -/
structure Keypair where
  pk : List UInt8
  sk : List UInt8
  deriving DecidableEq, Repr

/-- Two keys out of the random numbers, each with the tag in its first byte. -/
def drawKeypair (pkBytes skBytes : ℕ) (tag : UInt8) : Access Machine Keypair := do
  let pk ← csprngGetBytes pkBytes
  let sk ← csprngGetBytes skBytes
  pure { pk := pk.set 0 tag, sk := sk.set 0 tag }

def kyber1024Keypair : Access Machine Keypair :=
  drawKeypair kyber1024PublickeyBytes kyber1024SecretkeyBytes 0x04

/-- `kyber1024_encapsulate`: the ciphertext and the shared secret. -/
def kyber1024EncapsulateBytes (_pk : List UInt8) : Access Machine (List UInt8 × List UInt8) := do
  let coin ← csprngGetBytes 32
  let ct ← csprngGetBytes kyber1024CiphertextBytes
  pure (0xC7 :: coin ++ ct.drop 33, (sha512 coin).take kyber1024SsBytes)

/-- `kyber1024_decapsulate`; `none` is its -1. -/
def kyber1024Decapsulate (ct _sk : List UInt8) : Option (List UInt8) :=
  if ct.getD 0 0 ≠ 0xC7 then none
  else some ((sha512 ((ct.drop 1).take 32)).take kyber1024SsBytes)

def dilithium5Keypair : Access Machine Keypair :=
  drawKeypair dilithium5PublickeyBytes dilithium5SecretkeyBytes 0x05

def dilithium5Sign (msg _sk : List UInt8) : Access Machine (List UInt8) := do
  let sig ← csprngGetBytes dilithium5SigBytes
  pure (0xD5 :: (sha512 msg).take 32 ++ sig.drop 33)

def dilithium5Verify (sig msg _pk : List UInt8) : ℤ :=
  if sig.length ≠ dilithium5SigBytes then -1
  else if sig.getD 0 0 ≠ 0xD5 then -1
  else if (sig.drop 1).take 32 ≠ (sha512 msg).take 32 then -1
  else 0

def pqcSelftest : Access Machine Bool := do
  let kyber ← kyber1024Keypair
  let (ct, ss) ← kyber1024EncapsulateBytes kyber.pk
  if kyber1024Decapsulate ct kyber.sk ≠ some ss then pure false
  else do
    let dilithium ← dilithium5Keypair
    let msg := asciiBytes "StyxOS Post-Quantum Verified Kernel Payload 2026"
    let sig ← dilithium5Sign msg dilithium.sk
    pure (dilithium5Verify sig msg dilithium.pk = 0)

/-! ### What the keys are for -/

/-- A signature with the matching key is accepted, and one with the key of another pair is not. -/
def SignatureBinds (kp kp' : Keypair) (msg : List UInt8) (m : Machine) : Prop :=
  (∀ sig, (dilithium5Sign msg kp.sk m).value = some sig → dilithium5Verify sig msg kp.pk = 0) ∧
    (kp' ≠ kp → ∀ sig, (dilithium5Sign msg kp'.sk m).value = some sig →
      dilithium5Verify sig msg kp.pk ≠ 0)

/-- The function makes signatures out of messages and public keys that are always accepted. -/
def Forges (f : List UInt8 → List UInt8 → List UInt8) : Prop :=
  ∀ msg pk, dilithium5Verify (f msg pk) msg pk = 0

/-- The matching key gets the secret out of a ciphertext. -/
def Decapsulates (kp : Keypair) (m : Machine) : Prop :=
  ∀ ct ss, (kyber1024EncapsulateBytes kp.pk m).value = some (ct, ss) →
    kyber1024Decapsulate ct kp.sk = some ss

/-- Two secret keys get different results out of a ciphertext. -/
def NeedsKey (ct : List UInt8) : Prop :=
  ∃ sk sk', kyber1024Decapsulate ct sk ≠ kyber1024Decapsulate ct sk'

/-- The primitives bind to the keys. -/
structure BindsToKeys : Prop where
  signature : ∀ kp kp' m₁ m₂, (dilithium5Keypair m₁).value = some kp →
    (dilithium5Keypair m₂).value = some kp' → ∀ msg m, SignatureBinds kp kp' msg m
  unforged : ¬ ∃ f, Forges f
  secret : ∀ kp m₁, (kyber1024Keypair m₁).value = some kp → ∀ m, Decapsulates kp m ∧
    ∀ ct ss, (kyber1024EncapsulateBytes kp.pk m).value = some (ct, ss) → NeedsKey ct

section

variable {msg sk pk : List UInt8} {m : Machine}

theorem dilithium5Verify_of_append {rest : List UInt8}
    (h : rest.length = dilithium5SigBytes - 33) :
    dilithium5Verify (0xD5 :: (sha512 msg).take 32 ++ rest) msg pk = 0 := by
  have hdigest : ((sha512 msg).take 32).length = 32 := by simp
  have hlen : (0xD5 :: (sha512 msg).take 32 ++ rest).length = dilithium5SigBytes := by
    simp [h, dilithium5SigBytes]
  have hbody : ((0xD5 :: (sha512 msg).take 32 ++ rest).drop 1).take 32 = (sha512 msg).take 32 :=
    List.take_left' hdigest
  rw [dilithium5Verify, if_neg (not_not_intro hlen), if_neg (by simp),
    if_neg (not_not_intro hbody)]

theorem dilithium5Verify_sign {sig : List UInt8}
    (h : (dilithium5Sign msg sk m).value = some sig) : dilithium5Verify sig msg pk = 0 := by
  obtain rfl := Option.some.inj h
  apply dilithium5Verify_of_append
  simp [dilithium5SigBytes]

theorem kyber1024Decapsulate_of_append {coin rest : List UInt8} (h : coin.length = 32) :
    kyber1024Decapsulate (0xC7 :: coin ++ rest) sk =
      some ((sha512 coin).take kyber1024SsBytes) := by
  have hcoin : ((0xC7 :: coin ++ rest).drop 1).take 32 = coin := List.take_left' h
  rw [kyber1024Decapsulate, if_neg (by simp), hcoin]

theorem decapsulates (kp : Keypair) (m : Machine) : Decapsulates kp m := by
  intro ct ss h
  obtain ⟨rfl, rfl⟩ := Prod.mk.inj (Option.some.inj h)
  exact kyber1024Decapsulate_of_append (by simp)

theorem drawKeypair_apply (pkBytes skBytes : ℕ) (tag : UInt8) (m : Machine) :
    ∃ kp entropy, drawKeypair pkBytes skBytes tag m =
      ⟨[], some kp, { m with entropy := entropy }⟩ := ⟨_, _, rfl⟩

theorem kyber1024EncapsulateBytes_apply (pk : List UInt8) (m : Machine) :
    ∃ ct ss entropy, kyber1024EncapsulateBytes pk m =
      ⟨[], some (ct, ss), { m with entropy := entropy }⟩ := ⟨_, _, _, rfl⟩

/-- The self-test passes, whatever the random numbers are. -/
theorem pqcSelftest_eq_true (m : Machine) : (pqcSelftest m).value = some true := by
  obtain ⟨kyber, e₁, h₁⟩ := drawKeypair_apply kyber1024PublickeyBytes kyber1024SecretkeyBytes 0x04 m
  obtain ⟨ct, ss, e₂, h₂⟩ := kyber1024EncapsulateBytes_apply kyber.pk { m with entropy := e₁ }
  obtain ⟨dilithium, e₃, h₃⟩ := drawKeypair_apply dilithium5PublickeyBytes dilithium5SecretkeyBytes
    0x05 { m with entropy := e₂ }
  have hopen : kyber1024Decapsulate ct kyber.sk = some ss :=
    decapsulates kyber _ ct ss (congrArg Outcome.value h₂)
  rw [pqcSelftest, kyber1024Keypair, value_bind_of_some (congrArg Outcome.value h₁), h₁,
    value_bind_of_some (congrArg Outcome.value h₂), h₂]
  dsimp only
  rw [if_neg (not_not_intro hopen), dilithium5Keypair,
    value_bind_of_some (congrArg Outcome.value h₃), h₃]
  have hsign : ∀ msg sig, (dilithium5Sign msg dilithium.sk { m with entropy := e₃ }).value =
      some sig → dilithium5Verify sig msg dilithium.pk = 0 := fun _ _ => dilithium5Verify_sign
  exact congrArg some (decide_eq_true (hsign _ _ rfl))

/-- A signature made with the matching key is accepted and a ciphertext opened with it gives the
secret; a signature is rejected for its key only where the two key pairs are the same, signatures
can be made without a key, and no ciphertext needs a key to be opened. -/
theorem bindsToKeys_iff (kp kp' kyber : Keypair) (msg ct : List UInt8) (m : Machine) :
    (SignatureBinds kp kp' msg m ↔ kp' = kp) ∧ (∃ f, Forges f) ∧ Decapsulates kyber m ∧
      ¬ NeedsKey ct := by
  refine ⟨?_, ?_, decapsulates kyber m, ?_⟩
  · constructor
    · rintro ⟨-, hreject⟩
      by_contra hne
      have haccept : ∀ sig, (dilithium5Sign msg kp'.sk m).value = some sig →
          dilithium5Verify sig msg kp.pk = 0 := fun sig => dilithium5Verify_sign
      exact hreject hne _ rfl (haccept _ rfl)
    · intro hsame
      exact ⟨fun sig => dilithium5Verify_sign, fun hne => absurd hsame hne⟩
  · refine ⟨fun msg _ => 0xD5 :: (sha512 msg).take 32 ++
      List.replicate (dilithium5SigBytes - 33) 0, fun msg pk => ?_⟩
    apply dilithium5Verify_of_append
    simp
  · rintro ⟨sk, sk', hne⟩
    exact hne rfl

/-- Of two key pairs, one out of zeros and one out of ones, each accepts what the other signs. -/
theorem not_bindsToKeys : ¬ BindsToKeys := by
  intro h
  have hne : (drawKeypair dilithium5PublickeyBytes dilithium5SecretkeyBytes 0x05
      { sampleMachine with entropy := fun _ => 1 }).value ≠
      (drawKeypair dilithium5PublickeyBytes dilithium5SecretkeyBytes 0x05 sampleMachine).value := by
    decide +kernel
  obtain ⟨kp, e₁, h₁⟩ := drawKeypair_apply dilithium5PublickeyBytes dilithium5SecretkeyBytes 0x05
    sampleMachine
  obtain ⟨kp', e₂, h₂⟩ := drawKeypair_apply dilithium5PublickeyBytes dilithium5SecretkeyBytes 0x05
    { sampleMachine with entropy := fun _ => 1 }
  rw [h₁, h₂] at hne
  have hbinds := h.signature kp kp' _ _ (congrArg Outcome.value h₁) (congrArg Outcome.value h₂) []
    sampleMachine
  have haccept : ∀ sig, (dilithium5Sign [] kp'.sk sampleMachine).value = some sig →
      dilithium5Verify sig [] kp.pk = 0 := fun sig => dilithium5Verify_sign
  exact hbinds.2 (fun hsame => hne (congrArg some hsame)) _ rfl (haccept _ rfl)

end

end StyxOS
