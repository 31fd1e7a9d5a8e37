import StyxOS.Auth.Preboot
import StyxOS.Console.Framebuffer
import StyxOS.Library.BoundedQueue
import StyxOS.Library.IndexRing
import StyxOS.Syscall.Machine

/-! # The keyboard driver

`keyboard_callback` decodes scan codes, puts the characters into a ring of 64 slots
and echoes them at a cursor of its own. The ring is a queue of at most 63
characters, and the echo stays on the screen.
-/

namespace StyxOS.Console

open Framebuffer IndexRing

def keypad : List UInt8 := List.replicate 16 0 ++ [45, 0, 0, 0, 43] ++ List.replicate 10 0

/-- `scancode_to_ascii_nomod` and `scancode_to_ascii_shift` of the driver. -/
def driverAsciiNomod : List UInt8 := scancodeToAsciiNomod ++ keypad
def driverAsciiShift : List UInt8 := scancodeToAsciiShift ++ keypad

def marginX : ℤ := 8
def marginY : ℤ := 8
def lineH : ℤ := 10

structure Keyboard where
  shiftPressed : Bool
  lastScancode : UInt8
  keys : KeyRing
  cursorX : ℤ
  cursorY : ℤ

/-- The initial values, with the ring as `keyboard_init` leaves it. -/
def keyboardInit (ring : Fin 64 → UInt8) : Keyboard :=
  ⟨false, 0, ⟨ring, 0, 0⟩, marginX, marginY + 4 * lineH⟩

/-- The character of a scan code, `0` for none. -/
def asciiOf (shiftPressed : Bool) (scancode : UInt8) : UInt8 :=
  if scancode.toNat < driverAsciiNomod.length then
    if shiftPressed then driverAsciiShift.getD scancode.toNat 0
    else driverAsciiNomod.getD scancode.toNat 0
  else 0

/-- The character is drawn at the cursor, which moves on. -/
def echoChar (k : Keyboard) (fb : Framebuffer) (ascii : UInt8) : Keyboard × Framebuffer :=
  if ascii = 10 then ({ k with cursorY := k.cursorY + lineH, cursorX := marginX }, fb)
  else if ascii = 8 then
    if marginX < k.cursorX then
      let k := { k with cursorX := k.cursorX - fontWidth }
      (k, fbDrawRect fb k.cursorX k.cursorY fontWidth fontHeight 0)
    else (k, fb)
  else
    let fb := fbDrawChar fb k.cursorX k.cursorY ascii 0x00FFFFFF
    let k := { k with cursorX := k.cursorX + fontWidth }
    if toInt fb.width ≤ k.cursorX + fontWidth then
      ({ k with cursorX := marginX, cursorY := k.cursorY + lineH }, fb)
    else (k, fb)

/-- At the bottom of the screen the cursor goes back up, and the lines from there on are cleared. -/
def echoWrap (k : Keyboard) (fb : Framebuffer) : Keyboard × Framebuffer :=
  if toInt fb.height ≤ k.cursorY + lineH then
    let k := { k with cursorY := marginY + 4 * lineH }
    (k, fbDrawRect fb 0 k.cursorY (toInt fb.width) (toInt (fb.height - UInt32.ofInt k.cursorY)) 0)
  else (k, fb)

/-- The part of `keyboard_callback` that draws. -/
def echo (k : Keyboard) (fb : Framebuffer) (ascii : UInt8) : Keyboard × Framebuffer :=
  let (k, fb) := echoChar k fb ascii
  echoWrap k fb

/-- `keyboard_callback`, with the byte from the data port. -/
def keyboardCallback (k : Keyboard) (fb : Framebuffer) (scancode : UInt8) :
    Keyboard × Framebuffer :=
  let k := { k with lastScancode := scancode }
  if scancode = 0x2A ∨ scancode = 0x36 then ({ k with shiftPressed := true }, fb)
  else if scancode = 0xAA ∨ scancode = 0xB6 then ({ k with shiftPressed := false }, fb)
  else if scancode &&& 0x80 ≠ 0 then (k, fb)
  else
    let ascii := asciiOf k.shiftPressed scancode
    if ascii ≠ 0 then echo { k with keys := keyRingPush k.keys ascii } fb ascii else (k, fb)

variable {k : Keyboard} {fb : Framebuffer} {ascii scancode : UInt8}

/-! ## The echo stays on the screen -/

/-- The cursor is on a character of the screen, below the first lines. -/
structure CursorOk (fb : Framebuffer) (k : Keyboard) : Prop where
  column : ∃ n : ℕ, k.cursorX = (8 + 8 * n : ℕ)
  right : k.cursorX + fontWidth < fb.width.toNat
  top : marginY + 4 * lineH ≤ k.cursorY
  bottom : k.cursorY + lineH < fb.height.toNat

theorem CursorOk.of_sameSize {fb' : Framebuffer} (h : CursorOk fb k) (hsize : SameSize fb fb') :
    CursorOk fb' k := by
  obtain ⟨-, hheight, -⟩ := id hsize
  obtain ⟨hwidth, -, -⟩ := id hsize
  exact ⟨h.column, hwidth ▸ h.right, h.top, hheight ▸ h.bottom⟩

theorem CursorOk.init (hroom : Roomy fb) (ring : Fin 64 → UInt8) :
    CursorOk fb (keyboardInit ring) := by
  have hwidth := hroom.width
  have hheight := hroom.height
  refine ⟨⟨0, rfl⟩, ?_, le_rfl, ?_⟩ <;>
    simp only [keyboardInit, marginX, marginY, lineH, fontWidth] <;> omega

theorem inside_fbDrawChar {x y : ℕ} {colour : UInt32} (hx : x + fontWidth ≤ fb.width.toNat)
    (hy : y + fontHeight ≤ fb.height.toNat) : Inside fb (fbDrawChar fb x y ascii colour) := by
  simp only [fontWidth, fontHeight] at hx hy
  refine (paints_fbDrawChar (by omega) (by omega)).inside ?_
  rintro p ⟨⟨⟨-, hpx⟩, -, hpy⟩, -⟩
  simp only [fontWidth, fontHeight] at hpx hpy
  exact ⟨by omega, by omega⟩

/-- The echo of a character leaves all but the cursor, which may have come to the bottom. -/
structure Echoed (fb : Framebuffer) (r : Keyboard × Framebuffer) : Prop where
  inside : Inside fb r.2
  column : ∃ n : ℕ, r.1.cursorX = (8 + 8 * n : ℕ)
  right : r.1.cursorX + fontWidth < fb.width.toNat
  top : marginY + 4 * lineH ≤ r.1.cursorY

theorem echoChar_echoed (hroom : Roomy fb) (h : CursorOk fb k) (ascii : UInt8) :
    Echoed fb (echoChar k fb ascii) := by
  obtain ⟨⟨n, hn⟩, hright, htop, hbottom⟩ := h
  have hwidth := hroom.width
  obtain ⟨m, hm⟩ : ∃ m : ℕ, k.cursorY = m :=
    ⟨k.cursorY.toNat, by simp only [marginY, lineH] at htop; omega⟩
  have hlt := hroom.lt
  simp only [lineH, fontWidth, marginY] at hright hbottom htop
  unfold echoChar
  split
  · exact ⟨Inside.refl fb, ⟨0, rfl⟩, by simp only [marginX, fontWidth]; omega,
      by simp only [marginY, lineH]; omega⟩
  split
  · split
    · next hpos =>
      have hback : k.cursorX - fontWidth = ((8 + 8 * (n - 1) : ℕ) : ℤ) := by
        simp only [marginX, fontWidth] at hpos ⊢
        omega
      dsimp only
      refine ⟨?_, ⟨n - 1, hback⟩, ?_, htop⟩
      · have hx : 8 + 8 * (n - 1) + fontWidth ≤ 2 ^ 32 := by
          simp only [fontWidth]
          omega
        have hy : m + fontHeight ≤ 2 ^ 32 := by
          simp only [fontHeight]
          omega
        dsimp only
        rw [hback, hm]
        exact inside_fbDrawRect fb 0 hx hy
      · rw [hback]
        simp only [fontWidth]
        omega
    · exact ⟨Inside.refl fb, ⟨n, hn⟩, hright, htop⟩
  · have hin : Inside fb (fbDrawChar fb k.cursorX k.cursorY ascii 0x00FFFFFF) := by
      rw [hn, hm]
      refine inside_fbDrawChar ?_ ?_ <;> simp only [fontWidth, fontHeight] <;> omega
    dsimp only
    rw [hin.1.1, toInt_of_lt hlt.1]
    split
    · exact ⟨hin, ⟨0, rfl⟩, by simp only [marginX, fontWidth]; omega,
        by simp only [marginY, lineH]; omega⟩
    · next hmore =>
      refine ⟨hin, ⟨n + 1, ?_⟩, not_le.mp hmore, htop⟩
      simp only [fontWidth]
      omega

theorem echo_spec (hroom : Roomy fb) (h : CursorOk fb k) (ascii : UInt8) :
    Inside fb (echo k fb ascii).2 ∧ CursorOk fb (echo k fb ascii).1 := by
  have hechoed := echoChar_echoed hroom h ascii
  unfold echo
  generalize echoChar k fb ascii = r at hechoed ⊢
  obtain ⟨k', fb'⟩ := r
  obtain ⟨hin, hcolumn, hright, htop⟩ := hechoed
  have hroom' := hroom.of_sameSize hin.1
  obtain ⟨hw, hh⟩ := hroom'.lt
  have hheight := hroom'.height
  have hsame : fb'.height.toNat = fb.height.toNat := by rw [hin.1.2.1]
  dsimp only at hin hcolumn hright htop hw hh hheight hsame ⊢
  unfold echoWrap
  rw [toInt_of_lt hh]
  split
  · dsimp only
    have hrest :
        (fb'.height - UInt32.ofInt (marginY + 4 * lineH)).toNat = fb'.height.toNat - 48 := by
      rw [UInt32.toNat_sub_of_le]
      · rfl
      · rw [UInt32.le_iff_toNat_le]
        exact (by decide : (UInt32.ofInt (marginY + 4 * lineH)).toNat ≤ 430).trans hheight
    have hx : 0 + fb'.width.toNat ≤ 2 ^ 32 := by omega
    have hy : 48 + (fb'.height.toNat - 48) ≤ 2 ^ 32 := by omega
    have hdraw := inside_fbDrawRect fb' 0 hx hy
    refine ⟨hin.trans ?_, ⟨hcolumn, hright, le_rfl, ?_⟩⟩
    · rw [toInt_of_lt hw, toInt_of_lt (by omega), hrest]
      exact hdraw
    · simp only [marginY, lineH]
      omega
  · next hmore =>
    exact ⟨hin, ⟨hcolumn, hright, htop, by rw [← hsame]; exact not_le.mp hmore⟩⟩

/-! ## The ring is a queue -/

def typedChar (shiftPressed : Bool) (scancode : UInt8) : Option UInt8 :=
  if scancode = 0x2A ∨ scancode = 0x36 then none
  else if scancode = 0xAA ∨ scancode = 0xB6 then none
  else if scancode &&& 0x80 ≠ 0 then none
  else if asciiOf shiftPressed scancode ≠ 0 then some (asciiOf shiftPressed scancode)
  else none

/-- The state of the shift keys after a scan code. -/
def shiftAfter (shiftPressed : Bool) (scancode : UInt8) : Bool :=
  if scancode = 0x2A ∨ scancode = 0x36 then true
  else if scancode = 0xAA ∨ scancode = 0xB6 then false
  else shiftPressed

/-- What a sequence of scan codes types. -/
def typed : Bool → List UInt8 → List UInt8
  | _, [] => []
  | shiftPressed, code :: codes =>
    (typedChar shiftPressed code).toList ++ typed (shiftAfter shiftPressed code) codes

theorem echo_keys (k : Keyboard) (fb : Framebuffer) (ascii : UInt8) :
    (echo k fb ascii).1.keys = k.keys ∧ (echo k fb ascii).1.shiftPressed = k.shiftPressed := by
  unfold echo echoWrap echoChar
  dsimp only
  repeat' split
  all_goals exact ⟨rfl, rfl⟩

theorem keyboardCallback_keys (k : Keyboard) (fb : Framebuffer) (scancode : UInt8) :
    (keyboardCallback k fb scancode).1.keys =
        (typedChar k.shiftPressed scancode).elim k.keys (keyRingPush k.keys) ∧
      (keyboardCallback k fb scancode).1.shiftPressed = shiftAfter k.shiftPressed scancode := by
  unfold keyboardCallback typedChar shiftAfter
  dsimp only
  by_cases hdown : scancode = 0x2A ∨ scancode = 0x36
  · rw [if_pos hdown, if_pos hdown, if_pos hdown]
    exact ⟨rfl, rfl⟩
  rw [if_neg hdown, if_neg hdown, if_neg hdown]
  by_cases hup : scancode = 0xAA ∨ scancode = 0xB6
  · rw [if_pos hup, if_pos hup, if_pos hup]
    exact ⟨rfl, rfl⟩
  rw [if_neg hup, if_neg hup, if_neg hup]
  by_cases hrelease : scancode &&& 0x80 ≠ 0
  · rw [if_pos hrelease, if_pos hrelease]
    exact ⟨rfl, rfl⟩
  rw [if_neg hrelease, if_neg hrelease]
  by_cases hascii : asciiOf k.shiftPressed scancode ≠ 0
  · rw [if_pos hascii, if_pos hascii, Option.elim_some]
    exact echo_keys ..
  · rw [if_neg hascii, if_neg hascii]
    exact ⟨rfl, rfl⟩

theorem keyboardCallback_inside (hroom : Roomy fb) (h : CursorOk fb k) (scancode : UInt8) :
    Inside fb (keyboardCallback k fb scancode).2 ∧
      CursorOk fb (keyboardCallback k fb scancode).1 := by
  obtain ⟨hcolumn, hright, htop, hbottom⟩ := h
  have hstay : ∀ k' : Keyboard, k'.cursorX = k.cursorX → k'.cursorY = k.cursorY →
      CursorOk fb k' := by
    intro k' hx hy
    exact ⟨hx ▸ hcolumn, hx ▸ hright, hy ▸ htop, hy ▸ hbottom⟩
  unfold keyboardCallback
  dsimp only
  split
  · exact ⟨Inside.refl fb, hstay _ rfl rfl⟩
  split
  · exact ⟨Inside.refl fb, hstay _ rfl rfl⟩
  split
  · exact ⟨Inside.refl fb, hstay _ rfl rfl⟩
  generalize asciiOf k.shiftPressed scancode = ascii
  split
  · exact echo_spec hroom
      (hstay { k with lastScancode := scancode, keys := keyRingPush k.keys ascii } rfl rfl) ascii
  · exact ⟨Inside.refl fb, hstay _ rfl rfl⟩

def keySlot (k : KeyRing) (i : ℕ) : UInt8 := if i < 64 then k.ring (Fin.ofNat 64 i) else 0

/-- The characters in the ring, in the order in which they are given out. -/
def waiting (k : KeyRing) : List UInt8 := window 64 (keySlot k) k.tail k.head

variable {ring : KeyRing} {c : UInt8}

theorem val_succ (i : Fin 64) : (i + 1).val = next 64 i.val := Fin.val_add i 1

theorem keySlot_val (ring : KeyRing) (i : Fin 64) : keySlot ring i = ring.ring i := by
  rw [keySlot, if_pos i.isLt, Fin.ofNat_val_eq_self]

theorem keyRing_full_iff (ring : KeyRing) :
    ring.head + 1 = ring.tail ↔ ¬(waiting ring).length < 63 := by
  rw [waiting, length_window, Fin.ext_iff, val_succ,
    next_tail_eq_head_iff ring.tail.isLt ring.head.isLt]

theorem waiting_keyRingPush (ring : KeyRing) (c : UInt8) :
    waiting (keyRingPush ring c) =
      if (waiting ring).length < 63 then waiting ring ++ [c] else waiting ring := by
  have hiff := keyRing_full_iff ring
  unfold keyRingPush
  by_cases hfull : ring.head + 1 = ring.tail
  · rw [if_neg (not_not.mpr hfull), if_neg (hiff.mp hfull)]
  · rw [if_pos hfull, if_pos (not_not.mp (mt hiff.mpr hfull))]
    have hne : next 64 ring.head ≠ ring.tail := by
      rw [← val_succ]
      exact fun heq => hfull (Fin.ext heq)
    have hslot : ∀ i, i ≠ ring.head.val →
        keySlot
            { ring with ring := Function.update ring.ring ring.head c, head := ring.head + 1 } i =
          keySlot ring i := by
      intro i hi
      unfold keySlot
      split
      · next hlt =>
        refine Function.update_of_ne (fun heq => hi ?_) ..
        rw [← heq, Fin.val_ofNat, Nat.mod_eq_of_lt hlt]
      · rfl
    rw [waiting, val_succ, window_next_tail ring.tail.isLt ring.head.isLt hne, keySlot_val,
      window_congr ring.tail.isLt ring.head.isLt hslot]
    dsimp only
    rw [Function.update_self]
    rfl

theorem waiting_take (hne : ring.head ≠ ring.tail) :
    waiting ring = ring.ring ring.tail :: waiting { ring with tail := ring.tail + 1 } := by
  have htail : ring.tail.val ≠ ring.head.val := fun heq => hne (Fin.ext heq.symm)
  rw [waiting, window_next_head ring.tail.isLt ring.head.isLt htail, keySlot_val, ← val_succ]
  rfl

theorem waiting_eq_nil_iff : waiting ring = [] ↔ ring.head = ring.tail := by
  constructor
  · intro hnil
    by_contra hne
    rw [waiting_take hne] at hnil
    cases hnil
  · intro heq
    rw [waiting, heq, window_self]

end StyxOS.Console
