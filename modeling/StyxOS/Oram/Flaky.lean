import StyxOS.Oram.Device

/-! # A disk whose transfers may fail

A transfer that fails may leave anything at all in the buffer or in the sector,
or may have moved the bytes all the same. While the transfers to come move the
bytes the disk is a faithful device.
-/

namespace StyxOS

open ByteMem

/-- The outcome of a transfer of a sector: one that fails may leave other bytes than those it was to
move. -/
inductive Transfer
  | done
  | failed (left : Option (Bytes 512))

namespace Transfer

def code : Transfer → ℤ
  | done => 0
  | failed _ => -1

/-- What is at the far end after a transfer. -/
def moved (bytes : Bytes 512) : Transfer → Bytes 512
  | failed (some left) => left
  | _ => bytes

/-- The bytes are moved, whatever the code says. -/
def Moves : Transfer → Prop
  | failed (some _) => False
  | _ => True

theorem Moves.moved_eq {t : Transfer} (h : t.Moves) (bytes : Bytes 512) :
    t.moved bytes = bytes := by
  cases t with
  | done => rfl
  | failed left =>
    cases left with
    | none => rfl
    | some left => exact h.elim

end Transfer

/-- A disk with the outcomes of the transfers to come, which succeed when the list ends. -/
structure FlakyDisk where
  sectors : ℕ → Bytes 512
  encryption : Bool
  transfers : List Transfer

def FlakyDisk.next (d : FlakyDisk) : Transfer := d.transfers.headD .done

instance : SectorDevice FlakyDisk where
  sectorCount _ := 0x100000
  readSector d lba _ :=
    (d.next.code, d.next.moved (d.sectors lba), { d with transfers := d.transfers.tail })
  writeSector d lba buf :=
    (d.next.code, { d with
      sectors := Function.update d.sectors lba (d.next.moved buf), transfers := d.transfers.tail })
  encryption d := d.encryption
  setEncryption b d := { d with encryption := b }

/-- The transfers to come move the bytes. -/
def FlakyDisk.AllMove (d : FlakyDisk) : Prop := ∀ t ∈ d.transfers, t.Moves

theorem FlakyDisk.AllMove.next {d : FlakyDisk} (h : d.AllMove) : d.next.Moves := by
  obtain ⟨sectors, enc, ts⟩ := d
  cases ts with
  | nil => trivial
  | cons t ts => exact h t List.mem_cons_self

theorem FlakyDisk.AllMove.tail {d : FlakyDisk} (h : d.AllMove) :
    ∀ t ∈ d.transfers.tail, t.Moves := fun t ht => h t (List.mem_of_mem_tail ht)

/-- While the transfers move the bytes, the disk returns what was last written. -/
def flakyFaithful : FaithfulDevice FlakyDisk where
  Ready := FlakyDisk.AllMove
  view d := d.sectors
  read _ h _ := ⟨h.next.moved_eq _, h.tail, rfl⟩
  write := by
    intro d lba buf h _
    refine ⟨h.tail, ?_⟩
    show Function.update d.sectors lba (d.next.moved buf) = Function.update d.sectors lba buf
    rw [h.next.moved_eq]
  off h := ⟨h, rfl⟩
  back _ h := ⟨h, rfl⟩

end StyxOS
