import StyxOS.Auth.Lockout
import StyxOS.Boot.Flow

/-! # What is read back over a boot

Over a device that returns with encryption off what was last written to a sector
so, the law of the mode gives back what the boot has written: every read of a
permitted run succeeds with the bytes last written to its sector, the attempt
counter among them, and the first access after a formatting finds only dummies.
-/

namespace StyxOS

open ByteMem StepSystem

/-- A device that returns with encryption off what is in a sector, and stores with encryption off
what is written. What it stores under encryption is left open. -/
structure PlainDevice (δ : Type) [SectorDevice δ] where
  Ready : δ → Prop
  view : δ → ℕ → Bytes 512
  set : ∀ {d} (b : Bool), Ready d → Ready (setEncryption b d) ∧ view (setEncryption b d) = view d
  read : ∀ {d lba} (buf : Bytes 512), Ready d → lba < 2 ^ 32 → encryption d = false →
    (readSector d lba buf).1 = 0 ∧ (readSector d lba buf).2.1 = view d lba ∧
      Ready (readSector d lba buf).2.2 ∧ view (readSector d lba buf).2.2 = view d
  write : ∀ {d lba} (buf : Bytes 512), Ready d → lba < 2 ^ 32 →
    Ready (writeSector d lba buf).2 ∧ ∃ stored, (encryption d = false → stored = buf) ∧
      view (writeSector d lba buf).2 = Function.update (view d) lba stored

/-- The driver of `usb_msc.c` over a faithful transport. -/
def usbPlain {σ : Type} {T : Transport σ} {csprng : ℕ → List UInt8} (F : FaithfulTransport T) :
    PlainDevice (UsbDisk T csprng) where
  Ready d := F.Ready d.storage.dev
  view d := diskView (F.disk d.storage.dev)
  set _ hready := ⟨hready, rfl⟩
  read := by
    rintro ⟨s⟩ lba buf hready hlba hoff
    obtain ⟨dev, heq, hready', hdisk⟩ := F.read_raw csprng hready hoff (UInt32.ofNat lba) buf
    refine ⟨?_, ?_, ?_, ?_⟩
    · simp only [readSector, heq]
    · simp only [readSector, heq, diskView, if_pos hlba]
      exact Bytes.ofList_of_length _
    · simp only [readSector, heq]
      exact hready'
    · simp only [readSector, heq, hdisk]
  write := by
    rintro ⟨s⟩ lba buf hready hlba
    obtain ⟨dev, heq, hready', hdisk⟩ := F.write_spec hready (UInt32.ofNat lba) buf
    refine ⟨?_, s.stored (UInt32.ofNat lba) buf, fun hoff => ?_, ?_⟩
    · simp only [writeSector, heq]
      exact hready'
    · rw [Storage.stored, show s.encryptionEnabled = false from hoff]
      rfl
    · simp only [writeSector, heq, hdisk]
      exact diskView_update hlba _

namespace PlainDevice

variable {δ : Type} [SectorDevice δ] {F : PlainDevice δ} {d : Moded δ} {S : ℕ → Prop} {lba : ℕ}

/-- The sectors hold the bytes last written, but for those written under encryption, and all reads
have given these bytes. -/
structure Recorded (F : PlainDevice δ) (d : Moded δ) : Prop where
  ready : F.Ready d.dev
  view : ∀ lba < 2 ^ 32, d.encrypted lba = false → F.view d.dev lba = d.written lba
  intact : d.intact = true

theorem Recorded.read (h : F.Recorded d) (hlba : lba < 2 ^ 32) (hoff : encryption d = false)
    (hplain : d.encrypted lba = false) (buf : Bytes 512) :
    (readSector d lba buf).1 = 0 ∧ (readSector d lba buf).2.1 = d.written lba := by
  obtain ⟨hrc, hbuf, -, -⟩ := F.read buf h.ready hlba hoff
  exact ⟨hrc, hbuf.trans (h.view lba hlba hplain)⟩

theorem kept_recorded (F : PlainDevice δ) : Moded.Kept F.Recorded where
  set b h := by
    obtain ⟨hready, hview⟩ := F.set b h.ready
    refine ⟨hready, fun lba hlba hplain => ?_, h.intact⟩
    exact (congrFun hview lba).trans (h.view lba hlba hplain)
  write {d lba} buf hlba h := by
    obtain ⟨hready, stored, hstored, hview⟩ := F.write buf h.ready hlba
    refine ⟨hready, fun l hl hplain => ?_, h.intact⟩
    change Function.update d.encrypted lba (encryption d.dev) l = false at hplain
    change F.view (writeSector d.dev lba buf).2 l = Function.update d.written lba buf l
    rw [hview]
    by_cases heq : l = lba
    · rw [heq, Function.update_self] at hplain
      rw [heq, Function.update_self, Function.update_self]
      exact hstored hplain
    · rw [Function.update_of_ne heq] at hplain
      rw [Function.update_of_ne heq, Function.update_of_ne heq]
      exact h.view l hl hplain
  read {d lba} buf hlba hoff hplain h := by
    obtain ⟨hrc, hbuf⟩ := h.read hlba hoff hplain buf
    obtain ⟨-, -, hready, hview⟩ := F.read buf h.ready hlba hoff
    refine ⟨hready, fun l hl hp => (congrFun hview l).trans (h.view l hl hp), ?_⟩
    change (d.intact && (readSector d lba buf).1 == 0 &&
      (readSector d lba buf).2.1 == d.written lba) = true
    rw [h.intact, hrc, hbuf, beq_self_eq_true, beq_self_eq_true]
    rfl

theorem read_of_clear (h : d.Clear F.Recorded false S) (hS : ¬S lba) (hlba : lba < 2 ^ 32)
    (buf : Bytes 512) :
    (readSector d lba buf).1 = 0 ∧ (readSector d lba buf).2.1 = d.written lba :=
  h.kept.read hlba h.mode (h.plain hS) buf

theorem count_counterRead [LawfulMode δ] (h : d.Clear F.Recorded false S)
    (hS : ¬S authCounterLba) {cpuid : CpuidLeaf} {n : ℕ} (hn : n < 256)
    (hwritten : d.written authCounterLba = counterSector cpuid n) (buf : Bytes 512) :
    (counterRead cpuid buf d).1 = n := by
  have hoff := h.setEncryption (kept_recorded F) false
  obtain ⟨hrc, hbuf⟩ := read_of_clear hoff hS (by decide) buf
  have hsector : (setEncryption false d).written authCounterLba = counterSector cpuid n := hwritten
  rw [fst_counterRead, if_pos hrc, hbuf, hsector, loadedCount_counterSector hn]

end PlainDevice

/-! ## Formatting -/

/-- The tree is as `oram_format` has written it, and the map leads to leaves, on the device as well
as in memory. -/
structure PathOram.Formatted {δ : Type} (m : PathOram (Moded δ)) : Prop where
  tree : ∀ n < oramNumNodes, ∀ j < oramZ, m.dev.written (sectorOf n j) = dummyBlock.toSector
  map : ∃ p : ℕ → ℕ, (∀ i < oramNumLeaves, p i < oramNumLeaves) ∧
    m.dev.written oramPosmapLba = posmapSector p
  leaf : ∀ i < oramNumLeaves, m.posMap i < oramNumLeaves

theorem PathOram.Formatted.congr {δ : Type} {m m' : PathOram (Moded δ)} (h : m.Formatted)
    (hwritten : ∀ lba, lba ≠ authCounterLba → m'.dev.written lba = m.dev.written lba)
    (hposMap : ∀ i < oramNumLeaves, m'.posMap i < oramNumLeaves) : m'.Formatted := by
  obtain ⟨htree, ⟨p, hp, hmap⟩, -⟩ := h
  refine ⟨fun n hn j hj => ?_, ⟨p, hp, ?_⟩, hposMap⟩
  · rw [hwritten _ ?_, htree n hn j hj]
    rw [sectorOf_eq hn hj]
    unfold authCounterLba
    omega
  · rw [hwritten _ (by decide), hmap]

section

variable {δ : Type} [SectorDevice δ]

theorem written_writeBucket {stray : StrayStore} (hspares : stray.Spares) (d : Moded δ) (node : ℕ)
    (bucket : List OramBlock) :
    (writeBucket stray d node bucket).written = bucketView d.written node bucket := by
  unfold writeBucket bucketView
  generalize List.range oramZ = js
  induction js generalizing d with
  | nil => rfl
  | cons j js ih =>
    rw [List.foldl_cons, List.foldl_cons, ih, oramWriteBlock, hspares _ _ (sectorOf_lt node j)]
    rfl

theorem written_oramFormat {m : PathOram (Moded δ)} (hspares : m.stray.Spares) (random : ℕ → ℕ) :
    (oramFormat random m).dev.written =
      formatView m.dev.written (oramFormat random m).posMap := by
  have hbuckets : ∀ (ns : List ℕ) (d : Moded δ),
      (ns.foldl (fun d n => writeBucket m.stray d n []) d).written =
        placedView d.written (ns.map fun n => (n, [])) := by
    intro ns
    induction ns with
    | nil => exact fun _ => rfl
    | cons n ns ih =>
      intro d
      rw [List.foldl_cons, ih, written_writeBucket hspares]
      rfl
  have htree := hbuckets (List.range oramNumNodes) (setEncryption false m.dev)
  unfold formatView
  exact congrArg (fun V : ℕ → Bytes 512 => Function.update (Function.update V oramPosmapLba
    (posmapSector (oramFormat random m).posMap)) oramMetaLba metaSector) htree

theorem formatted_oramFormat {m : PathOram (Moded δ)} (hspares : m.stray.Spares)
    (random : ℕ → ℕ) : (oramFormat random m).Formatted := by
  have hleaf : ∀ i < oramNumLeaves, (oramFormat random m).posMap i < oramNumLeaves :=
    fun i _ => oramRandLeaf_lt (random i)
  refine ⟨fun n hn j hj => ?_, ⟨_, hleaf, ?_⟩, hleaf⟩
  · rw [written_oramFormat hspares, formatView_sectorOf hn hj]
  · rw [written_oramFormat hspares, formatView, Function.update_of_ne (by decide),
      Function.update_self]

variable [LawfulMode δ] {F : PlainDevice δ} {m : PathOram (Moded δ)} {mode : Bool} {S : ℕ → Prop}

/-- `oram_init` formats a store without its magic number, and finds the one that it has formatted as
it was. -/
theorem formatted_oramInit (h : m.dev.Clear F.Recorded mode S) (hmeta : ¬S oramMetaLba)
    (hmap : ¬S oramPosmapLba) (hspares : m.stray.Spares)
    (hm : m.Formatted ∨ sectorCount m.dev ≠ 0 ∧
      leVal ((m.dev.written oramMetaLba).1.take 4) ≠ oramMagic)
    (random : ℕ → ℕ) (metaBuf posmapBuf : Bytes 512) :
    (oramInit random metaBuf posmapBuf m).Formatted := by
  have hoff := h.setEncryption F.kept_recorded false
  obtain ⟨-, hbuf⟩ := PlainDevice.read_of_clear hoff hmeta (by decide) metaBuf
  have hread : (readSector (setEncryption false m.dev) oramMetaLba metaBuf).2.1 =
      m.dev.written oramMetaLba := hbuf
  unfold oramInit
  dsimp only
  rw [hread]
  split
  · next hnone =>
    obtain ⟨htree, hposmap, hleaf⟩ := hm.resolve_right fun hc => hc.1 hnone
    exact ⟨htree, hposmap, hleaf⟩
  · split
    · refine formatted_oramFormat (m := { m with dev := _, stash := [] }) ?_ random
      exact hspares
    · next hmagic =>
      obtain ⟨htree, ⟨p, hp, hposmap⟩, -⟩ := hm.resolve_right fun hc => hmagic hc.2
      have hback := (hoff.readSector F.kept_recorded hmeta (by decide) metaBuf).setEncryption
        F.kept_recorded (encryption m.dev)
      obtain ⟨-, hload⟩ := PlainDevice.read_of_clear (hback.setEncryption F.kept_recorded false)
        hmap (by decide) posmapBuf
      have hsector : (readSector (setEncryption false (setEncryption (encryption m.dev)
          (readSector (setEncryption false m.dev) oramMetaLba metaBuf).2.2)) oramPosmapLba
          posmapBuf).2.1 = posmapSector p := hload.trans hposmap
      refine ⟨htree, ⟨p, hp, hposmap⟩, fun i hi => ?_⟩
      unfold posmapLoad
      dsimp only
      rw [hsector, leVal_posmapSector hi (lt_pow_of_lt_numLeaves (hp i hi))]
      exact hp i hi

theorem fetchPath_of_dummies (h : m.dev.Clear F.Recorded false S) (env : AccessEnv)
    {slots : List (ℕ × ℕ × ℕ)} (hslots : ∀ x ∈ slots, ¬S (sectorOf x.2.1 x.2.2) ∧
      m.dev.written (sectorOf x.2.1 x.2.2) = dummyBlock.toSector) :
    (fetchPath env m slots).1 = true ∧ (fetchPath env m slots).2.stash = m.stash := by
  induction slots generalizing m with
  | nil => exact ⟨rfl, rfl⟩
  | cons x slots ih =>
    obtain ⟨i, node, j⟩ := x
    obtain ⟨⟨hS, hdummy⟩, hrest⟩ := List.forall_mem_cons.mp hslots
    obtain ⟨-, hbuf⟩ := PlainDevice.read_of_clear h hS (sectorOf_lt node j) (env.buf i j)
    have hblock : (oramReadBlock m.dev node j (env.buf i j) (env.tail i j)).1.lba = dummyLba := by
      change leVal ((readSector m.dev (sectorOf node j) (env.buf i j)).2.1.1.take 4) = dummyLba
      rw [hbuf, hdummy]
      exact leVal_toSector (by decide)
    have hnext := ih (m := { m with
      dev := (readSector m.dev (sectorOf node j) (env.buf i j)).2.2 })
      (h.readSector F.kept_recorded hS (sectorOf_lt node j) (env.buf i j)) hrest
    unfold fetchPath
    dsimp only
    rw [if_pos hblock]
    exact hnext

end

/-! ## Over a run -/

namespace Boot

variable {δ : Type} [SectorDevice δ]

/-- The step runs `oram_format`. -/
def Formats (s : Boot δ) : BootOp → Prop
  | .snapshotTests _ _ _ => (s.phase = .granted ∨ s.phase = .menu) ∧ sectorCount s.dev ≠ 0 ∧
      leVal ((s.dev.written oramMetaLba).1.take 4) ≠ oramMagic
  | _ => False

/-- What a step finds of what was written. -/
structure ReadsBack (cpuid : CpuidLeaf) (s : Boot δ) (op : BootOp) : Prop where
  /-- Every read up to the end of the step gave the bytes last written to its sector. -/
  intact : (s.step cpuid op).dev.intact = true
  /-- No file is opened after authentication, so that none is read with other bytes. -/
  file : ∀ fuel node allocated, op = .loadInit fuel node allocated → s.phase = .granted →
    vfsOpen fuel (s.vfs.on s.dev) UsbImage.initElfPath node =
      some (false, { node with valid := false }, s.vfs.on s.dev)
  /-- The attempts are written with `counter_write`. -/
  counterWritten : op = .refuse ∨ op = .grant → s.phase = .waiting → s.usbPresent = true →
    (s.step cpuid op).dev.written authCounterLba = counterSector cpuid (s.step cpuid op).count
  /-- What `counter_write` has written last is the count that a start reads. -/
  counterRead : ∀ counterBuf, op = .powerOn counterBuf → s.phase ≠ .destroyed →
    (s.powerOn cpuid counterBuf).usbPresent = true → ∀ n < 256,
      s.dev.written authCounterLba = counterSector cpuid n → (s.powerOn cpuid counterBuf).count = n
  /-- From the formatting on, up to an access, the tree holds only dummies. -/
  formatted : s.stray.Spares → s.oram.Formatted ∨ s.Formats op →
    (∀ env lba write data, op ≠ .oramAccess env lba write data) → (s.step cpuid op).oram.Formatted
  /-- The access that comes then finds only dummies. -/
  firstAccess : ∀ env lba write data, op = .oramAccess env lba write data → s.phase = .running →
    lba < oramNumLeaves → s.oram.Formatted →
    (fetchPath env s.oram (pathSlots (getPath (s.posMap lba)))).1 = true ∧
      (fetchPath env s.oram (pathSlots (getPath (s.posMap lba)))).2.stash = s.stash

variable {s : Boot δ}

theorem written_keptByReads : KeptByReads (fun _ => True)
    fun d d' : Moded δ => d'.written = d.written where
  refl _ := rfl
  trans h h' := h'.trans h
  read _ _ _ _ := rfl

theorem written_mounted (s : Boot δ) : s.mounted.written = s.dev.written :=
  written_keptByReads.fat32Init (Vfs.unmounted.on (setEncryption false s.dev)).fs trivial

theorem written_counterWrite (cpuid : CpuidLeaf) (count : ℕ) (d : Moded δ) :
    (counterWrite cpuid count d).written authCounterLba = counterSector cpuid count :=
  Function.update_self authCounterLba _ d.written

theorem written_counterRead {lba : ℕ} (hlba : lba ≠ authCounterLba) (cpuid : CpuidLeaf)
    (buf : Bytes 512) (d : Moded δ) :
    (StyxOS.counterRead cpuid buf d).2.written lba = d.written lba := by
  unfold StyxOS.counterRead
  dsimp only
  split
  · rfl
  · split
    · exact Function.update_of_ne hlba _ _
    · split
      · rfl
      · rfl

theorem written_powerOn {lba : ℕ} (hlba : lba ≠ authCounterLba) (cpuid : CpuidLeaf)
    (counterBuf : Bytes 512) :
    (s.powerOn cpuid counterBuf).dev.written lba = s.dev.written lba := by
  have hmount := congrFun s.written_mounted lba
  unfold Boot.powerOn authCounterInit
  dsimp only
  split
  · exact (written_counterRead hlba cpuid counterBuf s.mounted).trans hmount
  · exact hmount

theorem written_refuse {lba : ℕ} (hlba : lba ≠ authCounterLba) (cpuid : CpuidLeaf) :
    (s.refuse cpuid).dev.written lba = s.dev.written lba := by
  unfold Boot.refuse authCounterIncrement
  dsimp only
  split
  · exact Function.update_of_ne hlba _ _
  · rfl

theorem written_grant {lba : ℕ} (hlba : lba ≠ authCounterLba) (cpuid : CpuidLeaf) :
    (s.grant cpuid).dev.written lba = s.dev.written lba := by
  unfold Boot.grant authCounterReset
  dsimp only
  split
  · exact Function.update_of_ne hlba _ _
  · rfl

variable [LawfulMode δ] {F : PlainDevice δ} {cpuid : CpuidLeaf} {op : BootOp}

theorem Sound.count_powerOn (h : s.Sound F.Recorded) (hcounter : ¬s.CounterEncrypted)
    {counterBuf : Bytes 512} (husb : (s.powerOn cpuid counterBuf).usbPresent = true) {n : ℕ}
    (hn : n < 256) (hwritten : s.dev.written authCounterLba = counterSector cpuid n) :
    (s.powerOn cpuid counterBuf).count = n := by
  have hcount := PlainDevice.count_counterRead (h.mounted F.kept_recorded hcounter) id hn
    ((congrFun s.written_mounted _).trans hwritten) counterBuf
  revert husb
  unfold Boot.powerOn authCounterInit
  dsimp only
  split
  · exact fun _ => hcount
  · intro husb
    cases husb

theorem Sound.formatted_step (h : s.Sound F.Recorded) (hop : s.Permits op)
    (hspares : s.stray.Spares) (hs : s.oram.Formatted ∨ s.Formats op)
    (hno : ∀ env lba write data, op ≠ .oramAccess env lba write data) :
    (s.step cpuid op).oram.Formatted := by
  cases op with
  | oramAccess env lba write data => exact absurd rfl (hno env lba write data)
  | powerOn counterBuf =>
    have hformatted := hs.resolve_right id
    rw [Boot.step]
    split
    · exact hformatted.congr (fun _ hlba => written_powerOn hlba cpuid counterBuf)
        fun _ _ => show 0 < oramNumLeaves by decide
    · exact hformatted
  | refuse =>
    have hformatted := hs.resolve_right id
    rw [Boot.step]
    split
    · exact hformatted.congr (fun _ hlba => written_refuse hlba cpuid) hformatted.leaf
    · exact hformatted
  | grant =>
    have hformatted := hs.resolve_right id
    rw [Boot.step]
    split
    · exact hformatted.congr (fun _ hlba => written_grant hlba cpuid) hformatted.leaf
    · exact hformatted
  | loadInit fuel node allocated =>
    have hformatted := hs.resolve_right id
    rw [Boot.step]
    split
    · next hphase =>
      rw [loadInit_of_not_ready (hop hphase)]
      exact hformatted.congr (fun _ _ => rfl) hformatted.leaf
    · exact hformatted
  | standardBoot =>
    have hformatted := hs.resolve_right id
    rw [Boot.step]
    split
    · exact hformatted.congr (fun _ _ => rfl) hformatted.leaf
    · exact hformatted
  | snapshotTests random metaBuf posmapBuf =>
    obtain ⟨mode, hclear⟩ := h
    rw [Boot.step]
    split
    · have hformatted := formatted_oramInit (m := s.oram) hclear not_isCounter_meta
        not_isCounter_posmap hspares (hs.imp_right fun hformats => hformats.2) random metaBuf
        posmapBuf
      exact hformatted.congr (fun _ _ => rfl) hformatted.leaf
    · next hphase => exact hs.resolve_right fun hformats => hphase hformats.1

theorem Sound.fetchPath_of_formatted (h : s.Sound F.Recorded) (env : AccessEnv) {lba : ℕ}
    (hlba : lba < oramNumLeaves) (hoff : encryption s.dev = false) (hs : s.oram.Formatted) :
    (fetchPath env s.oram (pathSlots (getPath (s.posMap lba)))).1 = true ∧
      (fetchPath env s.oram (pathSlots (getPath (s.posMap lba)))).2.stash = s.stash := by
  obtain ⟨mode, hclear⟩ := h
  have hplain : s.oram.dev.Clear F.Recorded false IsCounter := ⟨hoff, hclear.encrypted, hclear.kept⟩
  have hleaf := hs.leaf lba hlba
  refine fetchPath_of_dummies hplain env fun x hx => ⟨sectorOf_not_isCounter hleaf hx, ?_⟩
  obtain ⟨hnode, hslot⟩ := mem_pathSlots hx
  exact hs.tree _ ((getPath_spec _ hleaf).2 _ hnode) _ hslot

theorem Sound.readsBack (h : s.Sound F.Recorded) (hop : s.Permits op) :
    s.ReadsBack cpuid op where
  intact := by
    obtain ⟨mode, hclear⟩ := h.step F.kept_recorded cpuid hop
    exact hclear.kept.intact
  file := by
    rintro fuel node allocated rfl hphase
    exact vfsOpen_of_not_ready (hop hphase) fuel node
  counterWritten := by
    rintro (rfl | rfl) hphase husb
    · rw [Boot.step, if_pos hphase]
      unfold Boot.refuse authCounterIncrement counter
      dsimp only
      rw [if_pos husb]
      exact written_counterWrite cpuid _ _
    · rw [Boot.step, if_pos hphase]
      unfold Boot.grant authCounterReset counter
      dsimp only
      rw [if_pos husb]
      exact written_counterWrite cpuid 0 _
  counterRead := by
    rintro counterBuf rfl hphase husb n hn hwritten
    exact h.count_powerOn (hop hphase) husb hn hwritten
  formatted hspares hs hno := h.formatted_step hop hspares hs hno
  firstAccess := by
    rintro env lba write data rfl hphase hlba hs
    exact h.fetchPath_of_formatted env hlba (hop hphase hlba).1 hs

/-- In a permitted run from a fresh stick, every sector is read in the mode in which it was last
written; and over a device that stores what is written with encryption off, every read gives the
bytes last written, the counter is read back, and the first access after a formatting finds
dummies. -/
theorem consistent_run (cpuid : CpuidLeaf) (hs : s.Fresh) {ops : List BootOp}
    (h : AllSteps (step cpuid) Permits s ops) :
    (run (step cpuid) s ops).Consistent ∧
      ∀ F : PlainDevice δ, F.Ready s.dev.dev → F.view s.dev.dev = s.dev.written →
        AllSteps (step cpuid) (ReadsBack cpuid) s ops := by
  constructor
  · obtain ⟨mode, hclear⟩ := run_invariant (step cpuid)
      (fun _ _ hs h => Sound.step Moded.kept_consistent cpuid hs h)
      (hs.sound (I := Moded.Consistent) hs.unread.1) h
    exact hclear.kept
  · intro F hready hview
    have hrecorded : F.Recorded s.dev := ⟨hready, fun lba _ _ => congrFun hview lba, hs.unread.2⟩
    exact allSteps_of_allSteps (step cpuid) (I := Sound F.Recorded)
      (fun _ _ hs h => Sound.readsBack hs h)
      (fun _ _ hs h => Sound.step F.kept_recorded cpuid hs h) (hs.sound hrecorded) h

theorem blankBoot_view :
    (usbPlain MemDisk.faithful).view blankBoot.dev.dev = blankBoot.dev.written := by
  funext lba
  exact ite_self _

theorem blankBoot_refuse :
    let s₁ := step ⟨0, 0⟩ blankBoot (.powerOn (Bytes.zero 512))
    let s₂ := step ⟨0, 0⟩ s₁ .refuse
    (s₁.phase = .waiting ∧ s₁.usbPresent = true) ∧ s₂.phase ≠ .destroyed ∧ s₂.count = 1 ∧
      ¬s₂.CounterEncrypted ∧ (s₂.powerOn ⟨0, 0⟩ (Bytes.zero 512)).usbPresent = true := by
  unfold CounterEncrypted
  decide +kernel

/-- The failed attempt is read back. -/
theorem consistent_run_sample :
    let s₂ := step ⟨0, 0⟩ (step ⟨0, 0⟩ blankBoot (.powerOn (Bytes.zero 512))) .refuse
    (step ⟨0, 0⟩ s₂ (.powerOn (Bytes.zero 512))).Consistent ∧
      (s₂.powerOn ⟨0, 0⟩ (Bytes.zero 512)).count = 1 := by
  obtain ⟨⟨hwaiting, hpresent⟩, hphase, hcount, hplain, husb⟩ := blankBoot_refuse
  have hpermits : AllSteps (step ⟨0, 0⟩) Permits blankBoot
      [.powerOn (Bytes.zero 512), .refuse, .powerOn (Bytes.zero 512)] :=
    ⟨fun _ => Bool.false_ne_true, trivial, fun _ => hplain, trivial⟩
  obtain ⟨hconsistent, hback⟩ := consistent_run ⟨0, 0⟩ blankBoot_fresh hpermits
  rw [run_cons, run_cons, run_cons, run_nil] at hconsistent
  obtain ⟨-, hrefuse, hread, -⟩ := hback (usbPlain MemDisk.faithful) rfl blankBoot_view
  have hwritten := hrefuse.counterWritten (.inl rfl) hwaiting hpresent
  rw [hcount] at hwritten
  exact ⟨hconsistent, hread.counterRead _ rfl hphase husb 1 (by decide) hwritten⟩

end Boot

end StyxOS
