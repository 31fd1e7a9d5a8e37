import Mathlib.Data.Set.Lattice
import Mathlib.Tactic.NormNum

/-! # The framebuffer

The drawing functions over the words behind `fb_addr`. A pixel is a word by its
row and column; where the rows do not run into each other and all of them can be
indexed, a function that stays on the screen paints its own pixels and no other.
-/

namespace StyxOS.Console

/-! ## The font -/

def fontData : List (List UInt8) := [
  [0x00, 0x00, 0x00, 0x00, 0x00, 0x00, 0x00, 0x00],
  [0x18, 0x18, 0x18, 0x18, 0x18, 0x00, 0x18, 0x00],
  [0x66, 0x66, 0x66, 0x00, 0x00, 0x00, 0x00, 0x00],
  [0x36, 0x36, 0x7F, 0x36, 0x7F, 0x36, 0x36, 0x00],
  [0x0C, 0x3F, 0x68, 0x3E, 0x0B, 0x7E, 0x18, 0x00],
  [0x60, 0x66, 0x0C, 0x18, 0x30, 0x66, 0x06, 0x00],
  [0x38, 0x6C, 0x6C, 0x38, 0x6D, 0x66, 0x3B, 0x00],
  [0x0C, 0x0C, 0x18, 0x00, 0x00, 0x00, 0x00, 0x00],
  [0x0C, 0x18, 0x30, 0x30, 0x30, 0x18, 0x0C, 0x00],
  [0x30, 0x18, 0x0C, 0x0C, 0x0C, 0x18, 0x30, 0x00],
  [0x00, 0x36, 0x1C, 0x7F, 0x1C, 0x36, 0x00, 0x00],
  [0x00, 0x18, 0x18, 0x7E, 0x18, 0x18, 0x00, 0x00],
  [0x00, 0x00, 0x00, 0x00, 0x00, 0x18, 0x18, 0x30],
  [0x00, 0x00, 0x00, 0x7E, 0x00, 0x00, 0x00, 0x00],
  [0x00, 0x00, 0x00, 0x00, 0x00, 0x18, 0x18, 0x00],
  [0x06, 0x06, 0x0C, 0x18, 0x30, 0x60, 0x60, 0x00],
  [0x3C, 0x66, 0x6E, 0x76, 0x66, 0x66, 0x3C, 0x00],
  [0x18, 0x38, 0x18, 0x18, 0x18, 0x18, 0x7E, 0x00],
  [0x3C, 0x66, 0x06, 0x0C, 0x18, 0x30, 0x7E, 0x00],
  [0x3C, 0x66, 0x06, 0x1C, 0x06, 0x66, 0x3C, 0x00],
  [0x0C, 0x1C, 0x3C, 0x6C, 0x7E, 0x0C, 0x0C, 0x00],
  [0x7E, 0x60, 0x7C, 0x06, 0x06, 0x66, 0x3C, 0x00],
  [0x1C, 0x30, 0x60, 0x7C, 0x66, 0x66, 0x3C, 0x00],
  [0x7E, 0x66, 0x0C, 0x18, 0x18, 0x18, 0x18, 0x00],
  [0x3C, 0x66, 0x66, 0x3C, 0x66, 0x66, 0x3C, 0x00],
  [0x3C, 0x66, 0x66, 0x3E, 0x06, 0x0C, 0x38, 0x00],
  [0x00, 0x00, 0x18, 0x00, 0x00, 0x18, 0x00, 0x00],
  [0x00, 0x00, 0x18, 0x00, 0x00, 0x18, 0x18, 0x30],
  [0x0C, 0x18, 0x30, 0x60, 0x30, 0x18, 0x0C, 0x00],
  [0x00, 0x00, 0x7E, 0x00, 0x7E, 0x00, 0x00, 0x00],
  [0x60, 0x30, 0x18, 0x0C, 0x18, 0x30, 0x60, 0x00],
  [0x3C, 0x66, 0x06, 0x0C, 0x18, 0x00, 0x18, 0x00],
  [0x3C, 0x66, 0x6E, 0x6E, 0x60, 0x62, 0x3C, 0x00],
  [0x18, 0x3C, 0x66, 0x7E, 0x66, 0x66, 0x66, 0x00],
  [0x7C, 0x66, 0x66, 0x7C, 0x66, 0x66, 0x7C, 0x00],
  [0x3C, 0x66, 0x60, 0x60, 0x60, 0x66, 0x3C, 0x00],
  [0x78, 0x6C, 0x66, 0x66, 0x66, 0x6C, 0x78, 0x00],
  [0x7E, 0x60, 0x60, 0x78, 0x60, 0x60, 0x7E, 0x00],
  [0x7E, 0x60, 0x60, 0x78, 0x60, 0x60, 0x60, 0x00],
  [0x3C, 0x66, 0x60, 0x6E, 0x66, 0x66, 0x3C, 0x00],
  [0x66, 0x66, 0x66, 0x7E, 0x66, 0x66, 0x66, 0x00],
  [0x3C, 0x18, 0x18, 0x18, 0x18, 0x18, 0x3C, 0x00],
  [0x1E, 0x0C, 0x0C, 0x0C, 0x0C, 0x6C, 0x38, 0x00],
  [0x66, 0x6C, 0x78, 0x70, 0x78, 0x6C, 0x66, 0x00],
  [0x60, 0x60, 0x60, 0x60, 0x60, 0x60, 0x7E, 0x00],
  [0x63, 0x77, 0x7F, 0x6B, 0x63, 0x63, 0x63, 0x00],
  [0x66, 0x76, 0x7E, 0x7E, 0x6E, 0x66, 0x66, 0x00],
  [0x3C, 0x66, 0x66, 0x66, 0x66, 0x66, 0x3C, 0x00],
  [0x7C, 0x66, 0x66, 0x7C, 0x60, 0x60, 0x60, 0x00],
  [0x3C, 0x66, 0x66, 0x66, 0x66, 0x3C, 0x0E, 0x00],
  [0x7C, 0x66, 0x66, 0x7C, 0x78, 0x6C, 0x66, 0x00],
  [0x3C, 0x66, 0x60, 0x3C, 0x06, 0x66, 0x3C, 0x00],
  [0x7E, 0x18, 0x18, 0x18, 0x18, 0x18, 0x18, 0x00],
  [0x66, 0x66, 0x66, 0x66, 0x66, 0x66, 0x3C, 0x00],
  [0x66, 0x66, 0x66, 0x66, 0x66, 0x3C, 0x18, 0x00],
  [0x63, 0x63, 0x63, 0x6B, 0x7F, 0x77, 0x63, 0x00],
  [0x66, 0x66, 0x3C, 0x18, 0x3C, 0x66, 0x66, 0x00],
  [0x66, 0x66, 0x66, 0x3C, 0x18, 0x18, 0x18, 0x00],
  [0x7E, 0x06, 0x0C, 0x18, 0x30, 0x60, 0x7E, 0x00],
  [0x3C, 0x30, 0x30, 0x30, 0x30, 0x30, 0x3C, 0x00],
  [0x60, 0x60, 0x30, 0x18, 0x0C, 0x06, 0x06, 0x00],
  [0x3C, 0x0C, 0x0C, 0x0C, 0x0C, 0x0C, 0x3C, 0x00],
  [0x08, 0x1C, 0x36, 0x63, 0x00, 0x00, 0x00, 0x00],
  [0x00, 0x00, 0x00, 0x00, 0x00, 0x00, 0x00, 0xFF],
  [0x18, 0x18, 0x0C, 0x00, 0x00, 0x00, 0x00, 0x00],
  [0x00, 0x00, 0x3C, 0x06, 0x3E, 0x66, 0x3E, 0x00],
  [0x60, 0x60, 0x7C, 0x66, 0x66, 0x66, 0x7C, 0x00],
  [0x00, 0x00, 0x3C, 0x66, 0x60, 0x66, 0x3C, 0x00],
  [0x06, 0x06, 0x3E, 0x66, 0x66, 0x66, 0x3E, 0x00],
  [0x00, 0x00, 0x3C, 0x66, 0x7E, 0x60, 0x3C, 0x00],
  [0x1C, 0x30, 0x30, 0x7C, 0x30, 0x30, 0x30, 0x00],
  [0x00, 0x00, 0x3E, 0x66, 0x66, 0x3E, 0x06, 0x3C],
  [0x60, 0x60, 0x7C, 0x66, 0x66, 0x66, 0x66, 0x00],
  [0x18, 0x00, 0x38, 0x18, 0x18, 0x18, 0x3C, 0x00],
  [0x06, 0x00, 0x06, 0x06, 0x06, 0x06, 0x66, 0x3C],
  [0x60, 0x60, 0x66, 0x6C, 0x78, 0x6C, 0x66, 0x00],
  [0x38, 0x18, 0x18, 0x18, 0x18, 0x18, 0x3C, 0x00],
  [0x00, 0x00, 0x66, 0x7F, 0x7F, 0x6B, 0x63, 0x00],
  [0x00, 0x00, 0x7C, 0x66, 0x66, 0x66, 0x66, 0x00],
  [0x00, 0x00, 0x3C, 0x66, 0x66, 0x66, 0x3C, 0x00],
  [0x00, 0x00, 0x7C, 0x66, 0x66, 0x7C, 0x60, 0x60],
  [0x00, 0x00, 0x3E, 0x66, 0x66, 0x3E, 0x06, 0x06],
  [0x00, 0x00, 0x7C, 0x66, 0x60, 0x60, 0x60, 0x00],
  [0x00, 0x00, 0x3E, 0x60, 0x3C, 0x06, 0x7C, 0x00],
  [0x30, 0x30, 0x7C, 0x30, 0x30, 0x30, 0x1C, 0x00],
  [0x00, 0x00, 0x66, 0x66, 0x66, 0x66, 0x3E, 0x00],
  [0x00, 0x00, 0x66, 0x66, 0x66, 0x3C, 0x18, 0x00],
  [0x00, 0x00, 0x63, 0x6B, 0x7F, 0x7F, 0x36, 0x00],
  [0x00, 0x00, 0x66, 0x3C, 0x18, 0x3C, 0x66, 0x00],
  [0x00, 0x00, 0x66, 0x66, 0x66, 0x3E, 0x06, 0x3C],
  [0x00, 0x00, 0x7E, 0x0C, 0x18, 0x30, 0x7E, 0x00],
  [0x0E, 0x18, 0x18, 0x70, 0x18, 0x18, 0x0E, 0x00],
  [0x18, 0x18, 0x18, 0x00, 0x18, 0x18, 0x18, 0x00],
  [0x70, 0x18, 0x18, 0x0E, 0x18, 0x18, 0x70, 0x00],
  [0x00, 0x00, 0x76, 0xDC, 0x00, 0x00, 0x00, 0x00]]

def glyphUnknown : List UInt8 := [0x00, 0x7E, 0x5A, 0x7E, 0x5A, 0x7E, 0x00, 0x00]

def fontGlyph (c : UInt8) : List UInt8 :=
  if 0x20 ≤ c ∧ c ≤ 0x7E then fontData.getD (c - 0x20).toNat [] else glyphUnknown

/-- Whether the glyph has a pixel, `bits & (0x80 >> col)`. -/
def glyphBit (c : UInt8) (row col : ℕ) : Bool := ((fontGlyph c).getD row 0).toNat.testBit (7 - col)

def fontWidth : ℕ := 8
def fontHeight : ℕ := 8

/-! ## Drawing -/

/-- The static variables; `addr` is the words from `fb_addr` on. -/
structure Framebuffer where
  addr : UInt32 → UInt32
  width : UInt32
  height : UInt32
  pitchPx : UInt32

/-- A word as an `int`. -/
def toInt (w : UInt32) : ℤ := w.toInt32.toInt

def fbPutPixel (fb : Framebuffer) (x y colour : UInt32) : Framebuffer :=
  { fb with addr := Function.update fb.addr (y * fb.pitchPx + x) colour }

def fbClear (fb : Framebuffer) (colour : UInt32) : Framebuffer :=
  (List.range fb.height.toNat).foldl (fun fb y =>
    (List.range fb.width.toNat).foldl (fun fb x =>
      fbPutPixel fb (UInt32.ofNat x) (UInt32.ofNat y) colour) fb) fb

/-- `draw_char`, on the framebuffer. -/
def drawChar (fb : Framebuffer) (x y : ℤ) (c : UInt8) (colour : UInt32) : Framebuffer :=
  (List.range fontHeight).foldl (fun fb (row : ℕ) =>
    (List.range fontWidth).foldl (fun fb (col : ℕ) =>
      if glyphBit c row col then
        fbPutPixel fb (UInt32.ofInt (x + col)) (UInt32.ofInt (y + row)) colour
      else fb) fb) fb

def fbDrawString (fb : Framebuffer) (x y : ℤ) (s : List UInt8) (colour : UInt32) : Framebuffer :=
  (s.foldl (fun p c => (drawChar p.1 p.2 y c colour, p.2 + fontWidth)) (fb, x)).1

def fbDrawChar (fb : Framebuffer) (x y : ℤ) (c : UInt8) (colour : UInt32) : Framebuffer :=
  if UInt32.ofInt x < fb.width ∧ UInt32.ofInt y < fb.height then drawChar fb x y c colour else fb

def fbDrawRect (fb : Framebuffer) (x y w h : ℤ) (colour : UInt32) : Framebuffer :=
  (List.range h.toNat).foldl (fun fb (dy : ℕ) =>
    (List.range w.toNat).foldl (fun fb (dx : ℕ) =>
      let px := UInt32.ofInt (x + dx)
      let py := UInt32.ofInt (y + dy)
      if px < fb.width ∧ py < fb.height then fbPutPixel fb px py colour else fb) fb) fb

/-! ## What the functions paint -/

variable {fb fb' fb'' : Framebuffer} {colour : UInt32} {S T : Set (ℕ × ℕ)} {c : UInt8} {x y : ℕ}

namespace Framebuffer

/-- The rows do not run into each other, and every pixel can be indexed. -/
structure Ok (fb : Framebuffer) : Prop where
  pitch : fb.width.toNat ≤ fb.pitchPx.toNat
  size : fb.pitchPx.toNat * fb.height.toNat ≤ 2 ^ 32

/-- The pixels of the screen. -/
def screen (fb : Framebuffer) : Set (ℕ × ℕ) :=
  {p | p.1 < fb.width.toNat ∧ p.2 < fb.height.toNat}

def index (fb : Framebuffer) (p : ℕ × ℕ) : UInt32 :=
  UInt32.ofNat p.2 * fb.pitchPx + UInt32.ofNat p.1

def pixel (fb : Framebuffer) (p : ℕ × ℕ) : UInt32 := fb.addr (fb.index p)

theorem Ok.index_toNat (h : fb.Ok) {p : ℕ × ℕ} (hp : p ∈ fb.screen) :
    (fb.index p).toNat = p.2 * fb.pitchPx.toNat + p.1 := by
  have hx : p.1 < fb.width.toNat := hp.1
  have hy : p.2 < fb.height.toNat := hp.2
  have hpitch := h.pitch
  have hpixels := h.size
  have hrow : (p.2 + 1) * fb.pitchPx.toNat ≤ fb.pitchPx.toNat * fb.height.toNat := by
    rw [Nat.mul_comm fb.pitchPx.toNat]
    exact Nat.mul_le_mul_right _ hy
  have hlt : p.2 * fb.pitchPx.toNat + p.1 < 2 ^ 32 := by
    rw [Nat.add_mul, Nat.one_mul] at hrow
    omega
  have hw := fb.width.toNat_lt
  have hh := fb.height.toNat_lt
  rw [index, UInt32.toNat_add, UInt32.toNat_mul, UInt32.toNat_ofNat', UInt32.toNat_ofNat',
    Nat.mod_eq_of_lt (by omega : p.2 < 2 ^ 32), Nat.mod_eq_of_lt (by omega : p.1 < 2 ^ 32),
    Nat.mod_eq_of_lt (by omega : p.2 * fb.pitchPx.toNat < 2 ^ 32), Nat.mod_eq_of_lt hlt]

theorem Ok.index_inj (h : fb.Ok) {p q : ℕ × ℕ} (hp : p ∈ fb.screen) (hq : q ∈ fb.screen)
    (heq : fb.index p = fb.index q) : p = q := by
  have hnat := congrArg UInt32.toNat heq
  rw [h.index_toNat hp, h.index_toNat hq] at hnat
  have hpx : p.1 < fb.pitchPx.toNat := lt_of_lt_of_le hp.1 h.pitch
  have hqx : q.1 < fb.pitchPx.toNat := lt_of_lt_of_le hq.1 h.pitch
  have hpos : 0 < fb.pitchPx.toNat := by omega
  have hmod := congrArg (· % fb.pitchPx.toNat) hnat
  have hdiv := congrArg (· / fb.pitchPx.toNat) hnat
  simp only [Nat.mul_comm _ fb.pitchPx.toNat, Nat.mul_add_mod, Nat.mod_eq_of_lt hpx,
    Nat.mod_eq_of_lt hqx, Nat.mul_add_div hpos, Nat.div_eq_of_lt hpx, Nat.div_eq_of_lt hqx,
    Nat.add_zero] at hmod hdiv
  exact Prod.ext hmod hdiv

def SameSize (fb fb' : Framebuffer) : Prop :=
  fb'.width = fb.width ∧ fb'.height = fb.height ∧ fb'.pitchPx = fb.pitchPx

theorem SameSize.refl (fb : Framebuffer) : SameSize fb fb := ⟨rfl, rfl, rfl⟩

theorem SameSize.symm (h : SameSize fb fb') : SameSize fb' fb := ⟨h.1.symm, h.2.1.symm, h.2.2.symm⟩

theorem SameSize.trans (h : SameSize fb fb') (h' : SameSize fb' fb'') : SameSize fb fb'' :=
  ⟨h'.1.trans h.1, h'.2.1.trans h.2.1, h'.2.2.trans h.2.2⟩

theorem SameSize.ok (h : SameSize fb fb') (hok : fb.Ok) : fb'.Ok := by
  obtain ⟨hw, hh, hp⟩ := h
  exact ⟨by rw [hw, hp]; exact hok.pitch, by rw [hh, hp]; exact hok.size⟩

theorem SameSize.index (h : SameSize fb fb') (p : ℕ × ℕ) : fb'.index p = fb.index p := by
  rw [Framebuffer.index, Framebuffer.index, h.2.2]

theorem SameSize.screen (h : SameSize fb fb') : fb'.screen = fb.screen := by
  rw [Framebuffer.screen, Framebuffer.screen, h.1, h.2.1]

/-- The words of these pixels have got the colour, and no other word has changed. -/
structure Paints (colour : UInt32) (S : Set (ℕ × ℕ)) (fb fb' : Framebuffer) : Prop where
  size : SameSize fb fb'
  painted : ∀ p ∈ S, fb'.addr (fb.index p) = colour
  kept : ∀ i, (∀ p ∈ S, fb.index p ≠ i) → fb'.addr i = fb.addr i

theorem Paints.refl (colour : UInt32) (fb : Framebuffer) : Paints colour ∅ fb fb :=
  ⟨SameSize.refl fb, fun _ hp => hp.elim, fun _ _ => rfl⟩

theorem Paints.trans (h : Paints colour S fb fb') (h' : Paints colour T fb' fb'') :
    Paints colour (S ∪ T) fb fb'' := by
  have hindex := h.size.index
  refine ⟨h.size.trans h'.size, ?_, ?_⟩
  · rintro p (hp | hp)
    · by_cases hagain : ∀ q ∈ T, fb'.index q ≠ fb.index p
      · rw [h'.kept _ hagain, h.painted p hp]
      · push Not at hagain
        obtain ⟨q, hq, heq⟩ := hagain
        rw [← heq, h'.painted q hq]
    · rw [← hindex, h'.painted p hp]
  · intro i hi
    rw [h'.kept i fun p hp => by rw [hindex]; exact hi p (.inr hp),
      h.kept i fun p hp => hi p (.inl hp)]

theorem Paints.foldl {α : Type*} {f : Framebuffer → α → Framebuffer} {R : α → Set (ℕ × ℕ)}
    {l : List α}
    (h : ∀ fb', SameSize fb fb' → ∀ a ∈ l, Paints colour (R a) fb' (f fb' a)) :
    Paints colour {p | ∃ a ∈ l, p ∈ R a} fb (l.foldl f fb) := by
  induction l generalizing fb with
  | nil => simpa using Paints.refl colour fb
  | cons a l ih =>
    have hhead := h fb (SameSize.refl fb) a (.head _)
    have htail := ih fun fb' hsize b hb => h fb' (hhead.size.trans hsize) b (.tail _ hb)
    rw [List.foldl_cons]
    convert hhead.trans htail using 1
    ext p
    simp

theorem Paints.pixel_eq (h : Paints colour S fb fb') (hok : fb.Ok) (hS : S ⊆ fb.screen)
    {p : ℕ × ℕ} (hp : p ∈ fb.screen) :
    (p ∈ S → fb'.pixel p = colour) ∧ (p ∉ S → fb'.pixel p = fb.pixel p) := by
  rw [pixel, pixel, h.size.index]
  refine ⟨h.painted p, fun hout => h.kept _ fun q hq heq => hout ?_⟩
  rwa [← hok.index_inj (hS hq) hp heq]

/-- Nothing beyond the screen is written. -/
def Inside (fb fb' : Framebuffer) : Prop :=
  SameSize fb fb' ∧ ∀ i, (∀ p ∈ fb.screen, fb.index p ≠ i) → fb'.addr i = fb.addr i

theorem Paints.inside (h : Paints colour S fb fb') (hS : S ⊆ fb.screen) : Inside fb fb' :=
  ⟨h.size, fun i hi => h.kept i fun p hp => hi p (hS hp)⟩

theorem Inside.refl (fb : Framebuffer) : Inside fb fb := ⟨SameSize.refl fb, fun _ _ => rfl⟩

theorem Inside.trans (h : Inside fb fb') (h' : Inside fb' fb'') : Inside fb fb'' := by
  refine ⟨h.1.trans h'.1, fun i hi => ?_⟩
  rw [h'.2 i fun p hp => ?_, h.2 i hi]
  rw [h.1.index]
  exact hi p (h.1.screen ▸ hp)

end Framebuffer

open Framebuffer

theorem paints_fbPutPixel (x y : ℕ) :
    Paints colour {(x, y)} fb (fbPutPixel fb (UInt32.ofNat x) (UInt32.ofNat y) colour) := by
  refine ⟨SameSize.refl fb, ?_, fun i hi => ?_⟩
  · rintro p rfl
    exact Function.update_self ..
  · exact Function.update_of_ne (hi (x, y) rfl).symm ..

def rect (x y w h : ℕ) : Set (ℕ × ℕ) := {p | (x ≤ p.1 ∧ p.1 < x + w) ∧ y ≤ p.2 ∧ p.2 < y + h}

def glyph (x y : ℕ) (c : UInt8) : Set (ℕ × ℕ) :=
  {p | p ∈ rect x y fontWidth fontHeight ∧ glyphBit c (p.2 - y) (p.1 - x) = true}

theorem ofInt_natCast (n : ℕ) : UInt32.ofInt n = UInt32.ofNat n := by
  apply UInt32.toNat_inj.mp
  rw [UInt32.ofInt, UInt32.toNat_ofNat', UInt32.toNat_ofNat']
  omega

theorem ofInt_add (a b : ℕ) : UInt32.ofInt ((a : ℤ) + (b : ℤ)) = UInt32.ofNat (a + b) := by
  rw [← Nat.cast_add, ofInt_natCast]

theorem ofNat_lt_iff {n : ℕ} {w : UInt32} (h : n < 2 ^ 32) : UInt32.ofNat n < w ↔ n < w.toNat := by
  rw [UInt32.lt_iff_toNat_lt, UInt32.toNat_ofNat', Nat.mod_eq_of_lt h]

theorem mem_rect_iff {w h : ℕ} {p : ℕ × ℕ} :
    p ∈ rect x y w h ↔ ∃ dy < h, ∃ dx < w, p = (x + dx, y + dy) := by
  constructor
  · rintro ⟨⟨hx, hx'⟩, hy, hy'⟩
    exact ⟨p.2 - y, by omega, p.1 - x, by omega,
      Prod.ext (by dsimp only; omega) (by dsimp only; omega)⟩
  · rintro ⟨dy, hdy, dx, hdx, rfl⟩
    exact ⟨⟨Nat.le_add_right .., by dsimp only; omega⟩, Nat.le_add_right .., by dsimp only; omega⟩

theorem paints_drawChar : Paints colour (glyph x y c) fb (drawChar fb x y c colour) := by
  have hset : glyph x y c = {p | ∃ row ∈ List.range fontHeight,
      p ∈ {p | ∃ col ∈ List.range fontWidth,
        p ∈ {p | glyphBit c row col = true ∧ p = (x + col, y + row)}}} := by
    ext p
    rw [glyph, Set.mem_ofPred_eq, mem_rect_iff]
    constructor
    · rintro ⟨⟨row, hrow, col, hcol, rfl⟩, hbit⟩
      rw [Nat.add_sub_cancel_left, Nat.add_sub_cancel_left] at hbit
      exact ⟨row, List.mem_range.mpr hrow, col, List.mem_range.mpr hcol, hbit, rfl⟩
    · rintro ⟨row, hrow, col, hcol, hbit, rfl⟩
      refine ⟨⟨row, List.mem_range.mp hrow, col, List.mem_range.mp hcol, rfl⟩, ?_⟩
      rw [Nat.add_sub_cancel_left, Nat.add_sub_cancel_left]
      exact hbit
  rw [hset, drawChar]
  refine Paints.foldl fun fb₁ _ row _ => Paints.foldl fun fb₂ _ col _ => ?_
  rw [ofInt_add, ofInt_add]
  split
  · next hbit =>
    convert paints_fbPutPixel (x + col) (y + row) using 1
    simp [hbit]
  · next hbit =>
    convert Paints.refl colour fb₂ using 1
    simp [hbit]

theorem paints_fbDrawRect (fb : Framebuffer) (colour : UInt32) {w h : ℕ} (hx : x + w ≤ 2 ^ 32)
    (hy : y + h ≤ 2 ^ 32) :
    Paints colour (rect x y w h ∩ fb.screen) fb (fbDrawRect fb x y w h colour) := by
  have hset : rect x y w h ∩ fb.screen = {p | ∃ dy ∈ List.range h,
      p ∈ {p | ∃ dx ∈ List.range w, p ∈ {p | p ∈ fb.screen ∧ p = (x + dx, y + dy)}}} := by
    ext p
    rw [Set.mem_inter_iff, mem_rect_iff]
    constructor
    · rintro ⟨⟨dy, hdy, dx, hdx, rfl⟩, hp⟩
      exact ⟨dy, List.mem_range.mpr hdy, dx, List.mem_range.mpr hdx, hp, rfl⟩
    · rintro ⟨dy, hdy, dx, hdx, hp, rfl⟩
      exact ⟨⟨dy, List.mem_range.mp hdy, dx, List.mem_range.mp hdx, rfl⟩, hp⟩
  rw [hset, fbDrawRect, Int.toNat_natCast, Int.toNat_natCast]
  refine Paints.foldl fun fb₁ h₁ dy hdy => Paints.foldl fun fb₂ h₂ dx hdx => ?_
  have hlt := List.mem_range.mp hdy
  have hlt' := List.mem_range.mp hdx
  dsimp only
  rw [ofInt_add, ofInt_add]
  have hin : UInt32.ofNat (x + dx) < fb₂.width ∧ UInt32.ofNat (y + dy) < fb₂.height ↔
      (x + dx, y + dy) ∈ fb.screen := by
    rw [← (h₁.trans h₂).screen, ofNat_lt_iff (by omega), ofNat_lt_iff (by omega)]
    exact Iff.rfl
  split
  · next hvisible =>
    convert paints_fbPutPixel (x + dx) (y + dy) using 1
    ext p
    exact and_iff_right_of_imp fun heq => heq ▸ hin.mp hvisible
  · next hhidden =>
    convert Paints.refl colour fb₂ using 1
    ext p
    simp only [Set.mem_ofPred_eq, Set.mem_empty_iff_false, iff_false]
    rintro ⟨hp, rfl⟩
    exact hhidden (hin.mpr hp)

theorem paints_fbDrawChar (hx : x < fb.width.toNat) (hy : y < fb.height.toNat) :
    Paints colour (glyph x y c) fb (fbDrawChar fb x y c colour) := by
  have hw := fb.width.toNat_lt
  have hh := fb.height.toNat_lt
  rw [fbDrawChar, ofInt_natCast, ofInt_natCast,
    if_pos ⟨(ofNat_lt_iff (by omega)).mpr hx, (ofNat_lt_iff (by omega)).mpr hy⟩]
  exact paints_drawChar

theorem toInt_of_lt {w : UInt32} (h : w.toNat < 2 ^ 31) : toInt w = w.toNat := by
  have hbits : 2 * w.toBitVec.toNat < 2 ^ 32 := by
    rw [UInt32.toNat_toBitVec]
    omega
  calc w.toInt32.toInt = w.toBitVec.toInt := rfl
    _ = w.toNat := by rw [BitVec.toInt_eq_toNat_of_lt hbits, UInt32.toNat_toBitVec]

/-- The screen has room for the lines of the terminal. -/
structure Roomy (fb : Framebuffer) : Prop where
  ok : fb.Ok
  width : 648 ≤ fb.width.toNat
  height : 430 ≤ fb.height.toNat

theorem Roomy.of_sameSize (h : Roomy fb) (hsize : SameSize fb fb') : Roomy fb' :=
  ⟨hsize.ok h.ok, by rw [hsize.1]; exact h.width, by rw [hsize.2.1]; exact h.height⟩

theorem Roomy.lt (h : Roomy fb) : fb.width.toNat < 2 ^ 31 ∧ fb.height.toNat < 2 ^ 31 := by
  have hwidth := h.width
  have hpitch := h.ok.pitch
  have hsize := h.ok.size
  have hrows := Nat.mul_le_mul_left fb.pitchPx.toNat h.height
  have hcols := Nat.mul_le_mul_right fb.height.toNat (hwidth.trans hpitch)
  omega

theorem inside_fbDrawRect (fb : Framebuffer) (colour : UInt32) {w h : ℕ} (hx : x + w ≤ 2 ^ 32)
    (hy : y + h ≤ 2 ^ 32) :
    Inside fb (fbDrawRect fb x y w h colour) :=
  (paints_fbDrawRect fb colour hx hy).inside Set.inter_subset_right

end StyxOS.Console
