import StyxOS.Auth.Counter
import StyxOS.Oram.Invariant
import StyxOS.Oram.Transcript
import StyxOS.Storage.Reads

/-! # The mode of each sector

A device with a record of what was last written to each sector and in which
mode of encryption, and of whether every read so far was made in that mode and
gave these bytes. The parts of `oram.c` and `auth_counter.c` that run with
encryption off keep the record clear of sectors written under encryption, but
for some that are so already.
-/

namespace StyxOS

open ByteMem

/-- A device with the bytes last written to each sector, the sectors that were last written under
encryption, whether each read was made in the mode of the last write, and whether each read
succeeded with the bytes of the last write. -/
structure Moded (δ : Type) where
  dev : δ
  written : ℕ → Bytes 512
  encrypted : ℕ → Bool
  consistent : Bool
  intact : Bool

instance {δ : Type} [SectorDevice δ] : SectorDevice (Moded δ) where
  sectorCount d := sectorCount d.dev
  readSector d lba buf :=
    let (rc, buf, dev) := readSector d.dev lba buf
    (rc, buf, { d with
      dev := dev
      consistent := d.consistent && d.encrypted lba == encryption d.dev
      intact := d.intact && rc == 0 && buf == d.written lba })
  writeSector d lba buf :=
    let (rc, dev) := writeSector d.dev lba buf
    (rc, { d with
      dev := dev
      written := Function.update d.written lba buf
      encrypted := Function.update d.encrypted lba (encryption d.dev) })
  encryption d := encryption d.dev
  setEncryption b d := { d with dev := setEncryption b d.dev }

namespace Moded

variable {δ : Type} [SectorDevice δ]

instance [LawfulMode δ] : LawfulMode (Moded δ) where
  read_mode d := LawfulMode.read_mode d.dev
  write_mode d := LawfulMode.write_mode d.dev
  set_mode b d := LawfulMode.set_mode b d.dev

/-- What writes and changes of the mode keep, and reads with encryption off of sectors that were
last written so. -/
structure Kept (I : Moded δ → Prop) : Prop where
  set : ∀ {d} (b : Bool), I d → I (setEncryption b d)
  write : ∀ {d lba} (buf : Bytes 512), lba < 2 ^ 32 → I d → I (writeSector d lba buf).2
  read : ∀ {d lba} (buf : Bytes 512), lba < 2 ^ 32 → encryption d = false →
    d.encrypted lba = false → I d → I (readSector d lba buf).2.2

/-- Every read so far was made in the mode of the last write. -/
def Consistent (d : Moded δ) : Prop := d.consistent = true

theorem kept_consistent : Kept (@Consistent δ) where
  set _ := id
  write _ _ := id
  read {d lba} _ _ hoff hplain h := by
    change (d.consistent && d.encrypted lba == encryption d) = true
    rw [h, hplain, hoff]
    rfl

/-- The device is in this mode with these sectors encrypted, and has what is kept. -/
structure In (I : Moded δ → Prop) (mode : Bool) (encrypted : ℕ → Bool) (d : Moded δ) : Prop where
  mode : encryption d = mode
  encrypted : d.encrypted = encrypted
  kept : I d

/-- The device is in this mode and has what is kept; of all sectors, only these may be encrypted. -/
structure Clear (I : Moded δ → Prop) (mode : Bool) (S : ℕ → Prop) (d : Moded δ) : Prop where
  mode : encryption d = mode
  encrypted : ∀ lba, d.encrypted lba = true → S lba
  kept : I d

variable {I : Moded δ → Prop} {mode : Bool} {E : ℕ → Bool} {S : ℕ → Prop} {d : Moded δ} {lba : ℕ}

theorem In.clear (h : d.In I mode E) (hE : ∀ lba, E lba = true → S lba) : d.Clear I mode S :=
  ⟨h.mode, fun lba hlba => hE lba (by rw [← h.encrypted]; exact hlba), h.kept⟩

theorem Clear.toIn (h : d.Clear I mode S) : d.In I mode d.encrypted := ⟨h.mode, rfl, h.kept⟩

theorem Clear.mono {S' : ℕ → Prop} (h : d.Clear I mode S) (hS : ∀ lba, S lba → S' lba) :
    d.Clear I mode S' := ⟨h.mode, fun lba hlba => hS lba (h.encrypted lba hlba), h.kept⟩

theorem Clear.plain (h : d.Clear I mode S) (hS : ¬S lba) : d.encrypted lba = false :=
  Bool.eq_false_iff.mpr fun hl => hS (h.encrypted lba hl)

variable [LawfulMode δ] (hI : Kept I)
include hI

theorem In.setEncryption (h : d.In I mode E) (b : Bool) : (setEncryption b d).In I b E :=
  ⟨LawfulMode.set_mode b d, h.encrypted, hI.set b h.kept⟩

theorem In.writeSector (h : d.In I mode E) (hlba : lba < 2 ^ 32) (buf : Bytes 512) :
    (writeSector d lba buf).2.In I mode (Function.update E lba mode) where
  mode := (LawfulMode.write_mode d lba buf).trans h.mode
  encrypted := by
    rw [← h.encrypted, ← h.mode]
    rfl
  kept := hI.write buf hlba h.kept

theorem In.readSector (h : d.In I false E) (hplain : E lba = false) (hlba : lba < 2 ^ 32)
    (buf : Bytes 512) : (readSector d lba buf).2.2.In I false E where
  mode := (LawfulMode.read_mode d lba buf).trans h.mode
  encrypted := h.encrypted
  kept := hI.read buf hlba h.mode (by rw [h.encrypted, hplain]) h.kept

theorem keptByReads (E : ℕ → Bool) :
    KeptByReads (fun lba => E lba = false ∧ lba < 2 ^ 32)
      fun d d' : Moded δ => d.In I false E → d'.In I false E where
  refl _ := id
  trans h h' := h' ∘ h
  read _ _ buf hlba h := h.readSector hI hlba.1 hlba.2 buf

/-! ## With encryption off -/

theorem Clear.setEncryption (h : d.Clear I mode S) (b : Bool) : (setEncryption b d).Clear I b S :=
  (h.toIn.setEncryption hI b).clear h.encrypted

theorem Clear.writeSector (h : d.Clear I mode S) (hlba : lba < 2 ^ 32) (hS : mode = true → S lba)
    (buf : Bytes 512) :
    (writeSector d lba buf).2.Clear I mode S := by
  apply (h.toIn.writeSector hI hlba buf).clear
  intro l hl
  by_cases heq : l = lba
  · rw [heq, Function.update_self] at hl
    rw [heq]
    exact hS hl
  · rw [Function.update_of_ne heq] at hl
    exact h.encrypted l hl

theorem Clear.readSector (h : d.Clear I false S) (hS : ¬S lba) (hlba : lba < 2 ^ 32)
    (buf : Bytes 512) : (readSector d lba buf).2.2.Clear I false S :=
  (h.toIn.readSector hI (h.plain hS) hlba buf).clear h.encrypted

theorem Clear.fat32Init {f : Fat32 (Moded δ)} (h : f.dev.Clear I false S) (hS : ¬S 0) :
    (fat32Init f).2.dev.Clear I false S :=
  ((keptByReads hI f.dev.encrypted).fat32Init f ⟨h.plain hS, by decide⟩ h.toIn).clear h.encrypted

theorem Clear.counterWrite (h : d.Clear I mode S) (hS : mode = true → S authCounterLba)
    (cpuid : CpuidLeaf) (count : ℕ) : (counterWrite cpuid count d).Clear I mode S :=
  h.writeSector hI (by decide) hS _

theorem Clear.counterRead (h : d.Clear I false S) (hS : ¬S authCounterLba) (cpuid : CpuidLeaf)
    (buf : Bytes 512) : (counterRead cpuid buf d).2.Clear I false S := by
  have hread := ((h.setEncryption hI false).readSector hI hS (by decide) buf).setEncryption hI false
  unfold StyxOS.counterRead
  dsimp only
  rw [h.mode]
  split
  · exact hread
  · split
    · exact hread.counterWrite hI Bool.false_ne_true.elim cpuid 0
    · split
      · exact hread
      · exact hread

theorem Clear.posmapSave (h : d.Clear I mode S) (posMap : ℕ → ℕ) :
    (posmapSave posMap d).Clear I mode S := by
  have hwritten := (h.setEncryption hI false).writeSector hI (show oramPosmapLba < 2 ^ 32 by decide)
    Bool.false_ne_true.elim (posmapSector posMap)
  have hback := hwritten.setEncryption hI (encryption d)
  rw [h.mode] at hback
  rw [StyxOS.posmapSave, h.mode]
  exact hback

theorem Clear.writeBucket (h : d.Clear I false S) (stray : StrayStore) (node : ℕ)
    (bucket : List OramBlock) : (writeBucket stray d node bucket).Clear I false S := by
  unfold StyxOS.writeBucket
  generalize List.range oramZ = js
  induction js generalizing d with
  | nil => exact h
  | cons j js ih =>
    exact ih (h.writeSector hI (stray.lt _ _ (sectorOf_lt node j)) Bool.false_ne_true.elim _)

theorem Clear.evict {m m' : PathOram (Moded δ)} (h : m.dev.Clear I false S) {nodes : List ℕ}
    (he : nodes.foldlM evictNode m = some m') : m'.dev.Clear I false S := by
  induction nodes generalizing m with
  | nil =>
    cases he
    exact h
  | cons node nodes ih =>
    rw [List.foldlM_cons] at he
    obtain ⟨m₁, hnode, hrest⟩ := Option.bind_eq_some_iff.mp he
    rw [evictNode] at hnode
    obtain ⟨⟨bucket, rest⟩, -, hm₁⟩ := Option.bind_eq_some_iff.mp hnode
    cases hm₁
    exact ih (h.writeBucket hI m.stray node bucket) hrest

theorem Clear.oramFormat {m : PathOram (Moded δ)} (h : m.dev.Clear I mode S) (random : ℕ → ℕ) :
    (oramFormat random m).dev.Clear I mode S := by
  have hbuckets : ∀ ns : List ℕ, ∀ d : Moded δ, d.Clear I false S →
      (ns.foldl (fun dev n => StyxOS.writeBucket m.stray dev n []) d).Clear I false S := by
    intro ns
    induction ns with
    | nil => exact fun _ hd => hd
    | cons n ns ih => exact fun d hd => ih _ (hd.writeBucket hI m.stray n [])
  have hmap := (hbuckets (List.range oramNumNodes) _ (h.setEncryption hI false)).posmapSave hI
    fun i => oramRandLeaf (random i)
  have hmeta := hmap.writeSector hI (show oramMetaLba < 2 ^ 32 by decide)
    Bool.false_ne_true.elim metaSector
  have hback := hmeta.setEncryption hI (encryption m.dev)
  rw [h.mode] at hback
  unfold StyxOS.oramFormat
  rw [h.mode]
  exact hback

theorem Clear.oramInit {m : PathOram (Moded δ)} (h : m.dev.Clear I mode S)
    (hmeta : ¬S oramMetaLba) (hmap : ¬S oramPosmapLba) (random : ℕ → ℕ)
    (metaBuf posmapBuf : Bytes 512) :
    (oramInit random metaBuf posmapBuf m).dev.Clear I mode S := by
  have hread := ((h.setEncryption hI false).readSector hI hmeta (by decide) metaBuf).setEncryption
    hI (encryption m.dev)
  rw [h.mode] at hread
  unfold StyxOS.oramInit
  dsimp only
  split
  · exact h
  · rw [h.mode]
    split
    · exact Clear.oramFormat hI (m := { m with dev := _, stash := [] }) hread random
    · have hload := ((hread.setEncryption hI false).readSector hI hmap (by decide)
        posmapBuf).setEncryption hI mode
      unfold posmapLoad
      dsimp only
      rw [hread.mode]
      exact hload

/-- With encryption off, an access is consistent if the slots of its path are not among the
encrypted sectors. -/
theorem Clear.oramAccess {m : PathOram (Moded δ)} (h : m.dev.Clear I false S) {env : AccessEnv}
    {lba : ℕ} {write : Bool} {data : Bytes 512}
    (hslots : lba < oramNumLeaves → ∀ x ∈ pathSlots (getPath (m.posMap lba)),
      m.dev.encrypted (sectorOf x.2.1 x.2.2) = false)
    {r : ℤ × Bytes 512 × PathOram (Moded δ)}
    (hr : oramAccess env m lba write data = some r) : r.2.2.dev.Clear I false S := by
  rw [StyxOS.oramAccess] at hr
  by_cases hlba : lba ≥ oramNumLeaves
  · rw [if_pos hlba] at hr
    cases hr
    exact h
  · have hfetch : (fetchPath env m (pathSlots (getPath (m.posMap lba)))).2.dev.Clear I false S :=
      ((keptByReads hI m.dev.encrypted).fetchPath env m
        (fun x hx => ⟨hslots (Nat.lt_of_not_ge hlba) x hx, sectorOf_lt _ _⟩) h.toIn).clear
          h.encrypted
    rw [if_neg hlba] at hr
    dsimp only at hr
    split at hr
    · cases hr
      exact hfetch
    · split at hr
      · cases hr
        exact hfetch
      · obtain ⟨m', hevict, hout⟩ := Option.bind_eq_some_iff.mp hr
        cases hout
        have hkept : m'.dev.Clear I false S := by
          apply Clear.evict hI _ hevict
          exact hfetch
        exact hkept.posmapSave hI _

end Moded

end StyxOS
