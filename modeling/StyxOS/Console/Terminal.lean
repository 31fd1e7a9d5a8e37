import Mathlib.Data.List.GetD
import Mathlib.Data.List.TakeWhile
import StyxOS.Console.Framebuffer
import StyxOS.Library.Simulation

/-! # The terminal on the framebuffer

The functions of `fb_shell.c`: a grid of 24 lines of 80 characters that scrolls, and
its picture on the screen. What is written is a transcript without end, cut into
lines; the grid holds the last 24 of them, and the screen shows the grid.
-/

namespace StyxOS.Console

open StepSystem Framebuffer

def fbShellCols : ℕ := 80
def fbShellRows : ℕ := 24
def fbShellMarginX : ℕ := 8
def fbShellMarginY : ℕ := 8
def fbShellLineH : ℕ := 18
def fbShellBg : UInt32 := 0x000F172A
def fbShellFg : UInt32 := 0x0034D399
def fbShellPrompt : UInt32 := 0x0038BDF8

/-- The static variables, and the framebuffer. -/
structure FbShell where
  col : ℕ
  row : ℕ
  cursorVisible : Bool
  cursorTicks : UInt32
  lines : ℕ → ℕ → UInt8
  fb : Framebuffer

def rowToY (row : ℕ) : ℕ := fbShellMarginY + row * fbShellLineH
def colToX (col : ℕ) : ℕ := fbShellMarginX + col * fontWidth

def redrawRow (lines : ℕ → ℕ → UInt8) (fb : Framebuffer) (row : ℕ) : Framebuffer :=
  ((List.range fbShellCols).takeWhile fun c => lines row c ≠ 0).foldl
    (fun fb c => fbDrawChar fb (colToX c) (rowToY row) (lines row c) fbShellFg)
    (fbDrawRect fb fbShellMarginX (rowToY row) (fbShellCols * fontWidth : ℕ) fbShellLineH fbShellBg)

def drawGrid (fb : Framebuffer) : Framebuffer :=
  fbDrawRect fb fbShellMarginX fbShellMarginY (fbShellCols * fontWidth : ℕ)
    (fbShellRows * fbShellLineH : ℕ) fbShellBg

def scrollUp (s : FbShell) : FbShell :=
  let lines := fun r =>
    if r < fbShellRows - 1 then s.lines (r + 1)
    else if r = fbShellRows - 1 then fun _ => 0 else s.lines r
  { s with
    lines
    row := fbShellRows - 1
    fb := (List.range fbShellRows).foldl (redrawRow lines) (drawGrid s.fb) }

/-- `fb_shell_newline`, without its mirror on the serial port. -/
def fbShellNewline (s : FbShell) : FbShell :=
  let s := { s with col := 0, row := s.row + 1 }
  if fbShellRows ≤ s.row then scrollUp s
  else { s with lines := Function.update s.lines s.row fun _ => 0 }

/-- A store to `g_lines[g_row][col]`. -/
def FbShell.setChar (s : FbShell) (col : ℕ) (c : UInt8) : FbShell :=
  { s with lines := Function.update s.lines s.row (Function.update (s.lines s.row) col c) }

/-- The character is stored and drawn at the cursor. -/
def FbShell.putHere (s : FbShell) (c : UInt8) : FbShell :=
  { s.setChar s.col c with
    fb := fbDrawChar s.fb (colToX s.col) (rowToY s.row) c fbShellFg
    col := s.col + 1 }

def FbShell.eraseBack (s : FbShell) : FbShell :=
  { s.setChar (s.col - 1) 0 with
    fb := fbDrawRect s.fb (colToX (s.col - 1)) (rowToY s.row) fontWidth fbShellLineH fbShellBg
    col := s.col - 1 }

/-- `fb_shell_putchar`. Its argument is signed, so the upper half of the bytes is below 32. -/
def fbShellPutchar (s : FbShell) (c : UInt8) : FbShell :=
  if c = 10 ∨ c = 13 then fbShellNewline s
  else if c = 8 then if 0 < s.col then s.eraseBack else s
  else if c < 32 ∨ 128 ≤ c then s
  else (if fbShellCols ≤ s.col then fbShellNewline s else s).putHere c

def fbShellPuts (s : FbShell) (str : List UInt8) : FbShell := str.foldl fbShellPutchar s

def fbShellClear (s : FbShell) : FbShell :=
  { s with lines := fun _ _ => 0, col := 0, row := 0, fb := drawGrid s.fb }

def fbShellCursorTick (s : FbShell) : FbShell :=
  let s := { s with cursorTicks := s.cursorTicks + 1 }
  if s.cursorTicks % 50 = 0 then
    let s := { s with cursorVisible := !s.cursorVisible }
    let colour := if s.cursorVisible then fbShellFg else fbShellBg
    { s with
      fb := fbDrawRect s.fb (colToX s.col) (rowToY s.row + fbShellLineH - 3 : ℕ) fontWidth (2 : ℕ)
        colour }
  else s

def headerText : List UInt8 :=
  "StyxOS Security Shell v2.0  |  where data goes to die".toList.map fun c => UInt8.ofNat c.toNat

def fbShellInit (fb : Framebuffer) : FbShell where
  col := 0
  row := 0
  cursorVisible := true
  cursorTicks := 0
  lines _ _ := 0
  fb :=
    let fb := fbClear fb fbShellBg
    let fb := fbDrawRect fb 0 0 (toInt fb.width) (fbShellLineH - 2 : ℕ) 0x001E293B
    fbDrawString fb fbShellMarginX 2 headerText fbShellPrompt

/-- A call of the terminal. -/
inductive ShellCall
  | putchar (c : UInt8)
  | clear
  | cursorTick

def shellStep (s : FbShell) : ShellCall → FbShell
  | .putchar c => fbShellPutchar s c
  | .clear => fbShellClear s
  | .cursorTick => fbShellCursorTick s

/-! ## The transcript -/

/-- The lines that are complete, and the one being written. The header lies over the first row
until the grid has been drawn anew. -/
structure Transcript where
  above : List (List UInt8)
  line : List UInt8
  header : Bool

namespace Transcript

/-- Of an empty screen with its header. -/
def start : Transcript := ⟨[], [], true⟩

/-- The line ends. The header scrolls away with the first line that does. -/
def newline (t : Transcript) : Transcript :=
  ⟨t.above ++ [t.line], [], t.header && decide (t.above.length + 1 < fbShellRows)⟩

/-- A character joins the line, which is full at 80. -/
def put (t : Transcript) (c : UInt8) : Transcript :=
  let t := if t.line.length = fbShellCols then t.newline else t
  { t with line := t.line ++ [c] }

def step (t : Transcript) : ShellCall → Transcript
  | .putchar c =>
    if c = 10 ∨ c = 13 then t.newline
    else if c = 8 then { t with line := t.line.dropLast }
    else if c < 32 ∨ 128 ≤ c then t
    else t.put c
  | .clear => ⟨[], [], false⟩
  | .cursorTick => t

/-- The rows of the grid: the last 24 lines. -/
def rows (t : Transcript) : List (List UInt8) :=
  (t.above ++ [t.line]).drop (t.above.length - (fbShellRows - 1))

/-- The character in a cell, or `0`. -/
def charAt (t : Transcript) (r col : ℕ) : UInt8 := ((t.rows.getD r []).getD col 0)

end Transcript

/-- The colour of a pixel in the cell of a character. -/
def ink (c : UInt8) (dx dy : ℕ) : UInt32 :=
  if c ≠ 0 ∧ glyphBit c dy dx = true then fbShellFg else fbShellBg

/-! ### The grid holds the last lines -/

variable {s : FbShell} {t : Transcript} {r col : ℕ} {c : UInt8}

namespace Transcript

def row (t : Transcript) : ℕ := min t.above.length (fbShellRows - 1)

theorem rows_eq (t : Transcript) :
    t.rows = t.above.drop (t.above.length - (fbShellRows - 1)) ++ [t.line] := by
  rw [rows, List.drop_append_of_le_length (Nat.sub_le _ _)]

theorem length_drop_above (t : Transcript) :
    (t.above.drop (t.above.length - (fbShellRows - 1))).length = t.row := by
  rw [List.length_drop, row]
  omega

theorem charAt_row (t : Transcript) (col : ℕ) : t.charAt t.row col = t.line.getD col 0 := by
  rw [charAt, rows_eq, List.getD_append_right _ _ _ _ t.length_drop_above.le, length_drop_above,
    Nat.sub_self, List.getD_cons_zero]

theorem charAt_above (h : r < t.row) :
    t.charAt r col =
      (t.above.getD (t.above.length - (fbShellRows - 1) + r) []).getD col 0 := by
  have hdrop : (t.above.drop (t.above.length - (fbShellRows - 1))).getD r [] =
      t.above.getD (t.above.length - (fbShellRows - 1) + r) [] := by
    simp only [List.getD_eq_getElem?_getD, List.getElem?_drop]
  rw [charAt, rows_eq, List.getD_append _ _ _ _ (by rw [length_drop_above]; exact h), hdrop]

theorem charAt_below (h : t.row < r) : t.charAt r col = 0 := by
  have hrow : t.rows.getD r [] = [] := by
    apply List.getD_eq_default
    rw [rows_eq, List.length_append, length_drop_above, List.length_singleton]
    exact h
  rw [charAt, hrow, List.getD_nil]

theorem charAt_line (t : Transcript) (line : List UInt8) (h : r ≠ t.row) :
    ({ t with line := line } : Transcript).charAt r col = t.charAt r col := by
  rcases Nat.lt_or_gt_of_ne h with hlt | hgt
  · rw [charAt_above hlt, charAt_above (t := { t with line := line }) hlt]
  · rw [charAt_below hgt, charAt_below (t := { t with line := line }) hgt]

theorem row_newline (t : Transcript) :
    t.newline.row = if t.row + 1 < fbShellRows then t.row + 1 else fbShellRows - 1 := by
  have hlen : t.newline.above.length = t.above.length + 1 := List.length_append
  by_cases h : t.row + 1 < fbShellRows
  · rw [if_pos h]
    unfold row fbShellRows at *
    omega
  · rw [if_neg h]
    unfold row fbShellRows at *
    omega

theorem charAt_newline_of_lt (h : t.row + 1 < fbShellRows) :
    t.newline.charAt r col = t.charAt r col := by
  have hrow := t.row_newline
  rw [if_pos h] at hrow
  have habove : t.above.length = t.row := by
    unfold row fbShellRows at h ⊢
    omega
  rcases Nat.lt_trichotomy r t.newline.row with hlt | heq | hgt
  · rw [charAt_above hlt]
    rw [hrow] at hlt
    simp only [newline, List.length_append, List.length_singleton]
    rcases Nat.lt_or_eq_of_le (Nat.le_of_lt_succ hlt) with hr | rfl
    · rw [charAt_above hr, List.getD_append _ _ _ _ (by omega)]
      congr 2
      unfold fbShellRows at h ⊢
      omega
    · rw [charAt_row, List.getD_append_right _ _ _ _ (by omega)]
      have hzero : t.above.length + 1 - (fbShellRows - 1) + t.row - t.above.length = 0 := by
        unfold fbShellRows at h ⊢
        omega
      rw [hzero, List.getD_cons_zero]
  · rw [heq, charAt_row, hrow, charAt_below (Nat.lt_succ_self _)]
    rfl
  · rw [charAt_below hgt, charAt_below (by omega)]

theorem charAt_newline_of_le (h : fbShellRows ≤ t.row + 1) (hr : r < fbShellRows) :
    t.newline.charAt r col = if r < fbShellRows - 1 then t.charAt (r + 1) col else 0 := by
  have hrow := t.row_newline
  rw [if_neg (by omega)] at hrow
  have hlast : t.row = fbShellRows - 1 := by
    unfold row at h ⊢
    omega
  have habove : fbShellRows - 1 ≤ t.above.length := by
    unfold row at hlast
    omega
  split
  · next hlt =>
    rw [charAt_above (hrow ▸ hlt)]
    simp only [newline, List.length_append, List.length_singleton]
    rcases Nat.lt_or_eq_of_le (Nat.succ_le_of_lt hlt) with hr' | hr'
    · rw [charAt_above (hlast ▸ hr'), List.getD_append _ _ _ _ (by omega)]
      congr 2
      omega
    · rw [← Nat.succ_eq_add_one r, hr', ← hlast, charAt_row,
        List.getD_append_right _ _ _ _ (by omega)]
      have hzero : t.above.length + 1 - (fbShellRows - 1) + r - t.above.length = 0 := by omega
      rw [hlast, hzero, List.getD_cons_zero]
  · have hr' : r = t.newline.row := by omega
    rw [hr', charAt_row]
    rfl

end Transcript

/-- The grid holds the transcript: its lines fit and have no `0` in them. -/
structure Grid (s : FbShell) (t : Transcript) : Prop where
  row : s.row = t.row
  col : s.col = t.line.length
  fits : ∀ l ∈ t.above ++ [t.line], l.length ≤ fbShellCols
  text : ∀ l ∈ t.above ++ [t.line], ∀ c ∈ l, c ≠ 0
  lines : ∀ r < fbShellRows, ∀ col, s.lines r col = t.charAt r col

theorem Grid.line_le (h : Grid s t) : t.line.length ≤ fbShellCols :=
  h.fits _ (List.mem_append_right _ (.head _))

theorem Grid.row_lt (h : Grid s t) : s.row < fbShellRows := by
  rw [h.row, Transcript.row, fbShellRows]
  omega

theorem Grid.start (fb : Framebuffer) : Grid (fbShellInit fb) Transcript.start where
  row := rfl
  col := rfl
  fits := by simp [Transcript.start]
  text := by simp [Transcript.start]
  lines r _ col := by
    cases r with
    | zero => rfl
    | succ r => exact (Transcript.charAt_below (Nat.succ_pos r)).symm

theorem Grid.newline (h : Grid s t) : Grid (fbShellNewline s) t.newline := by
  have hrow := t.row_newline
  have hnew : ∀ (P : List UInt8 → Prop), (∀ l ∈ t.above ++ [t.line], P l) → P [] →
      ∀ l ∈ t.newline.above ++ [t.newline.line], P l := by
    intro P hP hnil l hl
    rcases List.mem_append.mp hl with hl | hl
    · exact hP l hl
    · rwa [List.mem_singleton.mp hl]
  have hfits := hnew (·.length ≤ fbShellCols) h.fits (Nat.zero_le _)
  have htext := hnew (fun l => ∀ c ∈ l, c ≠ 0) h.text (by simp)
  unfold fbShellNewline
  dsimp only
  rw [h.row]
  split
  · next hlast =>
    refine ⟨?_, rfl, hfits, htext, fun r hr col => ?_⟩
    · rw [hrow, if_neg (by omega)]
      rfl
    · rw [Transcript.charAt_newline_of_le hlast hr, scrollUp]
      dsimp only
      split
      · next hlt => exact h.lines (r + 1) (by omega) col
      · rw [if_pos (by omega)]
  · next hmore =>
    refine ⟨?_, rfl, hfits, htext, fun r hr col => ?_⟩
    · rw [hrow, if_pos (by omega)]
    · rw [Transcript.charAt_newline_of_lt (by omega)]
      dsimp only
      by_cases hnext : r = t.row + 1
      · rw [hnext, Function.update_self, Transcript.charAt_below (Nat.lt_succ_self _)]
      · rw [Function.update_of_ne hnext, h.lines r hr]

theorem Grid.setChar (h : Grid s t) (line : List UInt8) (hlen : line.length ≤ fbShellCols)
    (htext : ∀ c ∈ line, c ≠ 0) {i : ℕ}
    (hline : ∀ j, line.getD j 0 = if j = i then c else t.line.getD j 0) (fb : Framebuffer) :
    Grid { s.setChar i c with col := line.length, fb := fb } { t with line := line } where
  row := h.row
  col := rfl
  fits l hl := by
    rcases List.mem_append.mp hl with hl | hl
    · exact h.fits l (List.mem_append_left _ hl)
    · rwa [List.mem_singleton.mp hl]
  text l hl := by
    rcases List.mem_append.mp hl with hl | hl
    · exact h.text l (List.mem_append_left _ hl)
    · rwa [List.mem_singleton.mp hl]
  lines r hr j := by
    rw [FbShell.setChar]
    dsimp only
    by_cases hrow : r = s.row
    · rw [hrow, Function.update_self, h.row]
      have hhere := Transcript.charAt_row { t with line := line } j
      rw [show ({ t with line := line } : Transcript).row = t.row from rfl] at hhere
      rw [hhere, hline]
      split
      · next hj => rw [hj, Function.update_self]
      · next hj =>
        rw [Function.update_of_ne hj, h.lines _ (h.row ▸ h.row_lt), Transcript.charAt_row]
    · rw [Function.update_of_ne hrow, h.lines r hr, Transcript.charAt_line t line (h.row ▸ hrow)]

theorem Grid.putHere (h : Grid s t) (hc : c ≠ 0) (hline : t.line.length < fbShellCols) :
    Grid (s.putHere c) { t with line := t.line ++ [c] } := by
  have hlen : (t.line ++ [c]).length = t.line.length + 1 := List.length_append
  have hgrid := h.setChar (c := c) (i := t.line.length) (t.line ++ [c]) (by omega) ?_ (fun j => ?_)
    (fbDrawChar s.fb (colToX t.line.length) (rowToY s.row) c fbShellFg)
  · rw [hlen] at hgrid
    rw [FbShell.putHere, h.col]
    exact hgrid
  · intro b hb
    rcases List.mem_append.mp hb with hb | hb
    · exact h.text _ (List.mem_append_right _ (.head _)) b hb
    · rwa [List.mem_singleton.mp hb]
  · rcases Nat.lt_trichotomy j t.line.length with hj | rfl | hj
    · rw [if_neg (by omega), List.getD_append _ _ _ _ hj]
    · rw [if_pos rfl, List.getD_append_right _ _ _ _ le_rfl, Nat.sub_self, List.getD_cons_zero]
    · rw [if_neg (by omega), List.getD_eq_default _ _ (by omega),
        List.getD_eq_default _ _ (by omega)]

theorem Grid.eraseBack (h : Grid s t) : Grid s.eraseBack { t with line := t.line.dropLast } := by
  have hgrid := h.setChar (c := 0) (i := t.line.length - 1) t.line.dropLast
    (by rw [List.length_dropLast]; exact (Nat.sub_le _ _).trans h.line_le)
    (fun c hc => h.text _ (List.mem_append_right _ (.head _)) c (List.dropLast_subset _ hc))
    (fun j => ?_) (fbDrawRect s.fb (colToX (t.line.length - 1)) (rowToY s.row) fontWidth
      fbShellLineH fbShellBg)
  · rw [List.length_dropLast] at hgrid
    rw [FbShell.eraseBack, h.col]
    exact hgrid
  · rw [List.getD_eq_getElem?_getD, List.getD_eq_getElem?_getD, List.getElem?_dropLast]
    by_cases hj : j < t.line.length - 1
    · rw [if_pos hj, if_neg (by omega)]
    · rw [if_neg hj]
      split
      · rfl
      · rw [List.getElem?_eq_none (by omega)]

/-- What `fb_shell_putchar` does to the terminal and to the transcript. -/
inductive PutCase (s : FbShell) (t : Transcript) (c : UInt8) : FbShell → Transcript → Prop
  | newline : PutCase s t c (fbShellNewline s) t.newline
  | eraseBack : PutCase s t c s.eraseBack { t with line := t.line.dropLast }
  | nothing : PutCase s t c s t
  | putHere : c ≠ 0 → t.line.length < fbShellCols →
      PutCase s t c (s.putHere c) { t with line := t.line ++ [c] }
  | wrap : c ≠ 0 →
      PutCase s t c ((fbShellNewline s).putHere c) { t.newline with line := t.newline.line ++ [c] }

theorem Grid.putCase (h : Grid s t) (c : UInt8) :
    PutCase s t c (fbShellPutchar s c) (t.step (.putchar c)) := by
  unfold fbShellPutchar Transcript.step
  dsimp only
  by_cases hnewline : c = 10 ∨ c = 13
  · rw [if_pos hnewline, if_pos hnewline]
    exact .newline
  rw [if_neg hnewline, if_neg hnewline]
  by_cases hback : c = 8
  · rw [if_pos hback, if_pos hback]
    by_cases hcol : 0 < s.col
    · rw [if_pos hcol]
      exact .eraseBack
    · have hline : t.line = [] := by
        rw [h.col, Nat.pos_iff_ne_zero, not_not] at hcol
        exact List.length_eq_zero_iff.mp hcol
      rw [if_neg hcol, hline, List.dropLast_nil, ← hline]
      exact .nothing
  rw [if_neg hback, if_neg hback]
  by_cases hcontrol : c < 32 ∨ 128 ≤ c
  · rw [if_pos hcontrol, if_pos hcontrol]
    exact .nothing
  have hc : c ≠ 0 := by
    rintro rfl
    exact hcontrol (.inl (by decide))
  rw [if_neg hcontrol, if_neg hcontrol, Transcript.put, h.col]
  by_cases hfull : t.line.length = fbShellCols
  · rw [if_pos hfull.ge, if_pos hfull]
    exact .wrap hc
  · have hline := lt_of_le_of_ne h.line_le hfull
    rw [if_neg (Nat.not_le_of_lt hline), if_neg hfull]
    exact .putHere hc hline

theorem Grid.step (h : Grid s t) (call : ShellCall) : Grid (shellStep s call) (t.step call) := by
  cases call with
  | clear =>
    exact ⟨rfl, rfl, by simp [Transcript.step], by simp [Transcript.step],
      (Grid.start s.fb).lines⟩
  | cursorTick =>
    unfold shellStep fbShellCursorTick
    dsimp only
    split <;> exact ⟨h.row, h.col, h.fits, h.text, h.lines⟩
  | putchar c =>
    have hcase := h.putCase c
    rw [shellStep]
    generalize fbShellPutchar s c = s', t.step (.putchar c) = t' at hcase ⊢
    cases hcase with
    | newline => exact h.newline
    | eraseBack => exact h.eraseBack
    | nothing => exact h
    | putHere hc hline => exact h.putHere hc hline
    | wrap hc => exact h.newline.putHere hc (by decide : 0 < fbShellCols)

/-! ### The screen shows the grid -/

variable {fb fb' : Framebuffer} {colour : UInt32} {dx dy w h x y : ℕ} {lines : ℕ → ℕ → UInt8}
  {S : Set (ℕ × ℕ)}

/-- A cell, and a pixel of its glyph. -/
structure InCell (r col dx dy : ℕ) : Prop where
  row : r < fbShellRows
  col : col < fbShellCols
  dx : dx < fontWidth
  dy : dy < fontHeight

def cellPixel (r col dx dy : ℕ) : ℕ × ℕ := (colToX col + dx, rowToY r + dy)

theorem InCell.mem_screen (hin : InCell r col dx dy) (hroom : Roomy fb) :
    cellPixel r col dx dy ∈ fb.screen := by
  obtain ⟨hr, hcol, hdx, hdy⟩ := hin
  have hwidth := hroom.width
  have hheight := hroom.height
  simp only [fbShellRows, fbShellCols, fontWidth, fontHeight] at hr hcol hdx hdy
  simp only [Framebuffer.screen, cellPixel, colToX, rowToY, fbShellMarginX, fbShellMarginY,
    fbShellLineH, fontWidth, Set.mem_ofPred_eq]
  omega

theorem InCell.mem_cell_iff (hin : InCell r col dx dy) {r' col' : ℕ} :
    cellPixel r col dx dy ∈ rect (colToX col') (rowToY r') fontWidth fbShellLineH ↔
      r = r' ∧ col = col' := by
  obtain ⟨hr, hcol, hdx, hdy⟩ := hin
  simp only [fbShellRows, fbShellCols, fontWidth, fontHeight] at hr hcol hdx hdy
  simp only [rect, cellPixel, colToX, rowToY, fbShellMarginX, fbShellMarginY, fbShellLineH,
    fontWidth, Set.mem_ofPred_eq]
  omega

theorem InCell.mem_row_iff (hin : InCell r col dx dy) {r' : ℕ} :
    cellPixel r col dx dy ∈ rect fbShellMarginX (rowToY r') (fbShellCols * fontWidth) fbShellLineH ↔
      r = r' := by
  obtain ⟨hr, hcol, hdx, hdy⟩ := hin
  simp only [fbShellRows, fbShellCols, fontWidth, fontHeight] at hr hcol hdx hdy
  simp only [rect, cellPixel, colToX, rowToY, fbShellMarginX, fbShellMarginY, fbShellLineH,
    fbShellCols, fontWidth, Set.mem_ofPred_eq]
  omega

theorem InCell.mem_grid (hin : InCell r col dx dy) :
    cellPixel r col dx dy ∈ rect fbShellMarginX fbShellMarginY (fbShellCols * fontWidth)
      (fbShellRows * fbShellLineH) := by
  obtain ⟨hr, hcol, hdx, hdy⟩ := hin
  simp only [fbShellRows, fbShellCols, fontWidth, fontHeight] at hr hcol hdx hdy
  simp only [rect, cellPixel, colToX, rowToY, fbShellMarginX, fbShellMarginY, fbShellLineH,
    fbShellRows, fbShellCols, fontWidth, Set.mem_ofPred_eq]
  omega

theorem InCell.not_mem_cursor (hin : InCell r col dx dy) {r' col' : ℕ} :
    cellPixel r col dx dy ∉ rect (colToX col') (rowToY r' + fbShellLineH - 3) fontWidth 2 := by
  obtain ⟨hr, hcol, hdx, hdy⟩ := hin
  simp only [fbShellRows, fbShellCols, fontWidth, fontHeight] at hr hcol hdx hdy
  simp only [rect, cellPixel, colToX, rowToY, fbShellMarginX, fbShellMarginY, fbShellLineH,
    fontWidth, Set.mem_ofPred_eq]
  omega

theorem InCell.mem_glyph_iff (hin : InCell r col dx dy) {r' col' : ℕ} :
    cellPixel r col dx dy ∈ glyph (colToX col') (rowToY r') c ↔
      (r = r' ∧ col = col') ∧ glyphBit c dy dx = true := by
  have hcell : cellPixel r col dx dy ∈ rect (colToX col') (rowToY r') fontWidth fontHeight ↔
      r = r' ∧ col = col' := by
    obtain ⟨hr, hcol, hdx, hdy⟩ := hin
    simp only [fbShellRows, fbShellCols, fontWidth, fontHeight] at hr hcol hdx hdy
    simp only [rect, cellPixel, colToX, rowToY, fbShellMarginX, fbShellMarginY, fbShellLineH,
      fontWidth, fontHeight, Set.mem_ofPred_eq]
    omega
  rw [glyph, Set.mem_ofPred_eq, hcell]
  refine and_congr_right ?_
  rintro ⟨rfl, rfl⟩
  rw [cellPixel, Nat.add_sub_cancel_left, Nat.add_sub_cancel_left]

theorem glyph_subset (hroom : Roomy fb) (hr : r < fbShellRows) (hcol : col < fbShellCols) :
    glyph (colToX col) (rowToY r) c ⊆ fb.screen := by
  rintro p ⟨⟨⟨-, hx⟩, -, hy⟩, -⟩
  have hwidth := hroom.width
  have hheight := hroom.height
  simp only [fbShellRows, fbShellCols] at hr hcol
  simp only [colToX, rowToY, fbShellMarginX, fbShellMarginY, fbShellLineH, fontWidth,
    fontHeight] at hx hy
  exact ⟨by omega, by omega⟩

/-- A cell after a rectangle has been drawn. -/
theorem pixel_fbDrawRect (colour : UInt32) (hroom : Roomy fb) (hin : InCell r col dx dy)
    (hx : x + w ≤ 2 ^ 32) (hy : y + h ≤ 2 ^ 32) :
    (cellPixel r col dx dy ∈ rect x y w h →
      (fbDrawRect fb x y w h colour).pixel (cellPixel r col dx dy) = colour) ∧
    (cellPixel r col dx dy ∉ rect x y w h →
      (fbDrawRect fb x y w h colour).pixel (cellPixel r col dx dy) =
        fb.pixel (cellPixel r col dx dy)) := by
  have hpaints := paints_fbDrawRect fb colour hx hy
  obtain ⟨hyes, hno⟩ := hpaints.pixel_eq hroom.ok Set.inter_subset_right (hin.mem_screen hroom)
  exact ⟨fun hp => hyes ⟨hp, hin.mem_screen hroom⟩, fun hp => hno fun hp' => hp hp'.1⟩

theorem paints_cellChar (colour : UInt32) (c : UInt8) (hroom : Roomy fb) (hr : r < fbShellRows)
    (hcol : col < fbShellCols) :
    Paints colour (glyph (colToX col) (rowToY r) c) fb
      (fbDrawChar fb (colToX col) (rowToY r) c colour) := by
  have hwidth := hroom.width
  have hheight := hroom.height
  simp only [fbShellRows, fbShellCols] at hr hcol
  apply paints_fbDrawChar <;>
    simp only [colToX, rowToY, fbShellMarginX, fbShellMarginY, fbShellLineH, fontWidth] <;> omega

/-- Behind the end of a line there is no character. -/
def Contiguous (lines : ℕ → ℕ → UInt8) : Prop :=
  ∀ r < fbShellRows, ∀ i j, i ≤ j → lines r i = 0 → lines r j = 0

theorem mem_takeWhile_range {p : ℕ → Bool} {n i : ℕ} (hi : i < n) (h : ∀ j ≤ i, p j = true) :
    i ∈ (List.range n).takeWhile p := by
  obtain ⟨k, rfl⟩ := Nat.exists_eq_add_of_le (Nat.succ_le_of_lt hi)
  rw [List.range_add, List.takeWhile_append_of_pos]
  · exact List.mem_append_left _ (List.mem_range.mpr (Nat.lt_succ_self i))
  · intro j hj
    exact h j (Nat.le_of_lt_succ (List.mem_range.mp hj))

/-- A row after it has been drawn anew, and the others. -/
theorem redrawRow_spec (hroom : Roomy fb) (hlines : Contiguous lines) {row : ℕ}
    (hrow : row < fbShellRows) :
    Inside fb (redrawRow lines fb row) ∧
      ∀ r col dx dy, InCell r col dx dy →
        (redrawRow lines fb row).pixel (cellPixel r col dx dy) =
          if r = row then ink (lines r col) dx dy else fb.pixel (cellPixel r col dx dy) := by
  have hy : rowToY row + fbShellLineH ≤ 2 ^ 32 := by
    simp only [fbShellRows, rowToY, fbShellMarginY, fbShellLineH] at hrow ⊢
    omega
  have hx : fbShellMarginX + fbShellCols * fontWidth ≤ 2 ^ 32 := by decide
  unfold redrawRow
  generalize hcols : (List.range fbShellCols).takeWhile (fun c => decide (lines row c ≠ 0)) = cols
  have hmem : ∀ col < fbShellCols, col ∈ cols ↔ lines row col ≠ 0 := by
    intro col hcol
    rw [← hcols]
    constructor
    · intro hc
      simpa using List.mem_takeWhile_imp hc
    · intro hc
      refine mem_takeWhile_range hcol fun j hj => ?_
      rw [decide_eq_true_eq]
      exact fun hj0 => hc (hlines row hrow j col hj hj0)
  have hlt : ∀ col ∈ cols, col < fbShellCols := by
    intro col hc
    rw [← hcols] at hc
    exact List.mem_range.mp ((List.takeWhile_subset _) hc)
  have hin₁ := inside_fbDrawRect fb fbShellBg hx hy
  have hroom₁ := hroom.of_sameSize hin₁.1
  have hpaints := Paints.foldl (l := cols)
    (f := fun fb c => fbDrawChar fb (colToX c) (rowToY row) (lines row c) fbShellFg)
    fun fb' hsize c hc =>
      paints_cellChar fbShellFg (lines row c) (hroom₁.of_sameSize hsize) hrow (hlt c hc)
  have hsub : {p | ∃ c ∈ cols, p ∈ glyph (colToX c) (rowToY row) (lines row c)} ⊆
      (fbDrawRect fb fbShellMarginX (rowToY row) (fbShellCols * fontWidth : ℕ) fbShellLineH
        fbShellBg).screen := by
    rintro p ⟨c, hc, hp⟩
    exact glyph_subset hroom₁ hrow (hlt c hc) hp
  refine ⟨hin₁.trans (hpaints.inside hsub), fun r col dx dy hin => ?_⟩
  obtain ⟨hyes, hno⟩ := hpaints.pixel_eq hroom₁.ok hsub (hin.mem_screen hroom₁)
  obtain ⟨hbg, hold⟩ := pixel_fbDrawRect fbShellBg hroom hin hx hy
  have hchar : cellPixel r col dx dy ∈
      {p | ∃ c ∈ cols, p ∈ glyph (colToX c) (rowToY row) (lines row c)} ↔
        r = row ∧ lines row col ≠ 0 ∧ glyphBit (lines row col) dy dx = true := by
    constructor
    · rintro ⟨c, hc, hp⟩
      obtain ⟨⟨rfl, rfl⟩, hbit⟩ := hin.mem_glyph_iff.mp hp
      exact ⟨rfl, (hmem _ hin.col).mp hc, hbit⟩
    · rintro ⟨rfl, hne, hbit⟩
      exact ⟨col, (hmem _ hin.col).mpr hne, hin.mem_glyph_iff.mpr ⟨⟨rfl, rfl⟩, hbit⟩⟩
  rw [hchar] at hyes hno
  by_cases hr : r = row
  · subst hr
    rw [if_pos rfl, ink]
    split
    · next hink => exact hyes ⟨rfl, hink⟩
    · next hink => rw [hno fun hc => hink hc.2, hbg (hin.mem_row_iff.mpr rfl)]
  · rw [if_neg hr, hno fun hc => hr hc.1, hold (mt hin.mem_row_iff.mp hr)]

/-- Where the header does not lie, the cells show their characters. -/
def Rendered (header : Bool) (lines : ℕ → ℕ → UInt8) (fb : Framebuffer) : Prop :=
  ∀ r col dx dy, InCell r col dx dy → (header = true → 0 < r) →
    fb.pixel (cellPixel r col dx dy) = ink (lines r col) dx dy

theorem ink_zero : ink 0 dx dy = fbShellBg := if_neg fun hc => hc.1 rfl

theorem drawGrid_spec (hroom : Roomy fb) :
    Inside fb (drawGrid fb) ∧ ∀ r col dx dy, InCell r col dx dy →
      (drawGrid fb).pixel (cellPixel r col dx dy) = fbShellBg := by
  have hx : fbShellMarginX + fbShellCols * fontWidth ≤ 2 ^ 32 := by decide
  have hy : fbShellMarginY + fbShellRows * fbShellLineH ≤ 2 ^ 32 := by decide
  unfold drawGrid
  exact ⟨inside_fbDrawRect _ _ hx hy, fun r col dx dy hin =>
    (pixel_fbDrawRect _ hroom hin hx hy).1 hin.mem_grid⟩

/-- The rows after the first `n` of them have been drawn anew. -/
theorem redrawRows_spec (hroom : Roomy fb) (hlines : Contiguous lines) {n : ℕ}
    (hn : n ≤ fbShellRows) :
    Inside fb ((List.range n).foldl (redrawRow lines) fb) ∧
      ∀ r col dx dy, InCell r col dx dy →
        ((List.range n).foldl (redrawRow lines) fb).pixel (cellPixel r col dx dy) =
          if r < n then ink (lines r col) dx dy else fb.pixel (cellPixel r col dx dy) := by
  induction n with
  | zero => exact ⟨Inside.refl fb, fun r col dx dy _ => (if_neg (Nat.not_lt_zero r)).symm⟩
  | succ n ih =>
    obtain ⟨hin, hpixel⟩ := ih (Nat.le_of_succ_le hn)
    obtain ⟨hin', hpixel'⟩ := redrawRow_spec (hroom.of_sameSize hin.1) hlines (Nat.lt_of_succ_le hn)
    rw [List.range_succ, List.foldl_append, List.foldl_cons, List.foldl_nil]
    refine ⟨hin.trans hin', fun r col dx dy hcell => ?_⟩
    rw [hpixel' r col dx dy hcell]
    by_cases hr : r = n
    · rw [if_pos hr, if_pos (by omega)]
    · rw [if_neg hr, hpixel r col dx dy hcell]
      by_cases hlt : r < n
      · rw [if_pos hlt, if_pos (by omega)]
      · rw [if_neg hlt, if_neg (by omega)]

theorem Grid.contiguous (h : Grid s t) : Contiguous s.lines := by
  intro r hr i j hij hzero
  rw [h.lines r hr] at hzero ⊢
  unfold Transcript.charAt at hzero ⊢
  have hrows : ∀ c ∈ t.rows.getD r [], c ≠ 0 := by
    intro c hc
    rcases Nat.lt_or_ge r t.rows.length with hlt | hge
    · rw [List.getD_eq_getElem _ _ hlt] at hc
      exact h.text _ (List.mem_of_mem_drop (List.getElem_mem hlt)) c hc
    · rw [List.getD_eq_default _ _ hge] at hc
      cases hc
  rcases Nat.lt_or_ge i (t.rows.getD r []).length with hlt | hge
  · rw [List.getD_eq_getElem _ _ hlt] at hzero
    exact absurd hzero (hrows _ (List.getElem_mem hlt))
  · exact List.getD_eq_default _ _ (hge.trans hij)

theorem Grid.blank (h : Grid s t) (hr : r < fbShellRows)
    (hcell : t.row < r ∨ r = t.row ∧ t.line.length ≤ col) : s.lines r col = 0 := by
  rw [h.lines r hr]
  rcases hcell with hlt | ⟨rfl, hle⟩
  · exact Transcript.charAt_below hlt
  · rw [Transcript.charAt_row, List.getD_eq_default _ _ hle]

theorem Grid.col_le (h : Grid s t) : s.col ≤ fbShellCols := h.col ▸ h.line_le

theorem colToX_add_le (h : col ≤ fbShellCols) : colToX col + fontWidth ≤ 2 ^ 32 := by
  simp only [fbShellCols, colToX, fbShellMarginX, fontWidth] at h ⊢
  omega

theorem rowToY_add_le (h : r < fbShellRows) : rowToY r + fbShellLineH ≤ 2 ^ 32 := by
  simp only [fbShellRows, rowToY, fbShellMarginY, fbShellLineH] at h ⊢
  omega

theorem rowToY_cursor_le (h : r < fbShellRows) : rowToY r + fbShellLineH - 3 + 2 ≤ 2 ^ 32 := by
  have hle := rowToY_add_le h
  unfold fbShellLineH at hle ⊢
  omega

/-! #### No call writes beyond the screen -/

theorem Grid.inside_newline (h : Grid s t) (hroom : Roomy s.fb) :
    Inside s.fb (fbShellNewline s).fb := by
  have hcontig := h.newline.contiguous
  unfold fbShellNewline at hcontig ⊢
  dsimp only at hcontig ⊢
  split
  · next hlast =>
    rw [if_pos hlast] at hcontig
    unfold scrollUp at hcontig ⊢
    dsimp only at hcontig ⊢
    obtain ⟨hin, -⟩ := drawGrid_spec hroom
    exact hin.trans (redrawRows_spec (hroom.of_sameSize hin.1) hcontig le_rfl).1
  · exact Inside.refl _

theorem Grid.inside_putHere (h : Grid s t) (hroom : Roomy s.fb)
    (hline : t.line.length < fbShellCols) : Inside s.fb (s.putHere c).fb := by
  have hcol : s.col < fbShellCols := h.col ▸ hline
  rw [FbShell.putHere]
  exact (paints_cellChar _ _ hroom h.row_lt hcol).inside (glyph_subset hroom h.row_lt hcol)

theorem Grid.inside_eraseBack (h : Grid s t) : Inside s.fb s.eraseBack.fb := by
  unfold FbShell.eraseBack
  dsimp only
  exact inside_fbDrawRect _ _ (colToX_add_le ((Nat.sub_le _ _).trans h.col_le))
    (rowToY_add_le h.row_lt)

theorem Grid.inside (h : Grid s t) (hroom : Roomy s.fb) (call : ShellCall) :
    Inside s.fb (shellStep s call).fb := by
  cases call with
  | clear =>
    rw [shellStep, fbShellClear]
    dsimp only
    exact (drawGrid_spec hroom).1
  | cursorTick =>
    unfold shellStep fbShellCursorTick
    dsimp only
    split
    · dsimp only
      exact inside_fbDrawRect _ _ (colToX_add_le h.col_le) (rowToY_cursor_le h.row_lt)
    · exact Inside.refl _
  | putchar c =>
    have hcase := h.putCase c
    rw [shellStep]
    generalize fbShellPutchar s c = s', t.step (.putchar c) = t' at hcase ⊢
    cases hcase with
    | newline => exact h.inside_newline hroom
    | eraseBack => exact h.inside_eraseBack
    | nothing => exact Inside.refl _
    | putHere hc hline => exact h.inside_putHere hroom hline
    | wrap hc =>
      have hin := h.inside_newline hroom
      exact hin.trans (h.newline.inside_putHere (hroom.of_sameSize hin.1)
        (by decide : 0 < fbShellCols))

/-! #### Each call shows the transcript after it -/

theorem Grid.rendered_newline (h : Grid s t) (hroom : Roomy s.fb)
    (hshown : Rendered t.header s.lines s.fb) :
    Rendered t.newline.header (fbShellNewline s).lines (fbShellNewline s).fb := by
  have hcontig := h.newline.contiguous
  unfold fbShellNewline at hcontig ⊢
  dsimp only at hcontig ⊢
  split
  · next hlast =>
    rw [if_pos hlast] at hcontig
    unfold scrollUp at hcontig ⊢
    dsimp only at hcontig ⊢
    obtain ⟨hin, -⟩ := drawGrid_spec hroom
    obtain ⟨-, hpixel⟩ := redrawRows_spec (hroom.of_sameSize hin.1) hcontig le_rfl
    intro r col dx dy hcell _
    exact (hpixel r col dx dy hcell).trans (if_pos hcell.row)
  · next hmore =>
    intro r col dx dy hcell hheader
    have hheader' : t.header = true → 0 < r := by
      intro ht
      apply hheader
      rw [h.row, Transcript.row] at hmore
      rw [Transcript.newline, ht, Bool.true_and, decide_eq_true_eq]
      unfold fbShellRows at hmore ⊢
      omega
    rw [hshown r col dx dy hcell hheader']
    dsimp only
    by_cases hr : r = s.row + 1
    · rw [hr, Function.update_self, h.blank (by omega) (.inl (by rw [h.row]; omega))]
    · rw [Function.update_of_ne hr]

theorem Grid.rendered_eraseBack (h : Grid s t) (hroom : Roomy s.fb)
    (hshown : Rendered t.header s.lines s.fb) :
    Rendered t.header s.eraseBack.lines s.eraseBack.fb := by
  unfold FbShell.eraseBack FbShell.setChar
  dsimp only
  intro r col dx dy hcell hheader
  obtain ⟨hyes, hno⟩ := pixel_fbDrawRect fbShellBg hroom hcell
    (colToX_add_le ((Nat.sub_le s.col 1).trans h.col_le)) (rowToY_add_le h.row_lt)
  by_cases hhere : r = s.row ∧ col = s.col - 1
  · obtain ⟨rfl, rfl⟩ := hhere
    rw [hyes (hcell.mem_cell_iff.mpr ⟨rfl, rfl⟩), Function.update_self, Function.update_self,
      ink_zero]
  · rw [hno (mt hcell.mem_cell_iff.mp hhere), hshown r col dx dy hcell hheader]
    by_cases hr : r = s.row
    · rw [hr, Function.update_self, Function.update_of_ne fun hc => hhere ⟨hr, hc⟩]
    · rw [Function.update_of_ne hr]

theorem Grid.rendered_putHere (h : Grid s t) (hroom : Roomy s.fb)
    (hshown : Rendered t.header s.lines s.fb) (hc : c ≠ 0) (hline : t.line.length < fbShellCols) :
    Rendered t.header (s.putHere c).lines (s.putHere c).fb := by
  have hcol : s.col < fbShellCols := h.col ▸ hline
  have hpaints := paints_cellChar fbShellFg c hroom h.row_lt hcol
  have hsub := glyph_subset (c := c) hroom h.row_lt hcol
  unfold FbShell.putHere FbShell.setChar
  dsimp only
  intro r col dx dy hcell hheader
  obtain ⟨hyes, hno⟩ := hpaints.pixel_eq hroom.ok hsub (hcell.mem_screen hroom)
  rw [hcell.mem_glyph_iff] at hyes hno
  have hold := hshown r col dx dy hcell hheader
  by_cases hhere : r = s.row ∧ col = s.col
  · obtain ⟨rfl, rfl⟩ := hhere
    rw [h.blank h.row_lt (.inr ⟨h.row, h.col.ge⟩), ink_zero] at hold
    rw [Function.update_self, Function.update_self, ink]
    split
    · next hink => exact hyes ⟨⟨rfl, rfl⟩, hink.2⟩
    · next hink => rw [hno fun hbit => hink ⟨hc, hbit.2⟩, hold]
  · rw [hno fun hbit => hhere hbit.1, hold]
    by_cases hr : r = s.row
    · rw [hr, Function.update_self, Function.update_of_ne fun hcol => hhere ⟨hr, hcol⟩]
    · rw [Function.update_of_ne hr]

theorem Grid.rendered (h : Grid s t) (hroom : Roomy s.fb)
    (hshown : Rendered t.header s.lines s.fb) (call : ShellCall) :
    Rendered (t.step call).header (shellStep s call).lines (shellStep s call).fb := by
  cases call with
  | clear =>
    rw [shellStep, fbShellClear]
    intro r col dx dy hcell _
    rw [(drawGrid_spec hroom).2 r col dx dy hcell]
    exact ink_zero.symm
  | cursorTick =>
    unfold shellStep fbShellCursorTick
    dsimp only
    split
    · intro r col dx dy hcell hheader
      dsimp only
      rw [(pixel_fbDrawRect _ hroom hcell (colToX_add_le h.col_le) (rowToY_cursor_le h.row_lt)).2
        hcell.not_mem_cursor]
      exact hshown r col dx dy hcell hheader
    · exact hshown
  | putchar c =>
    have hcase := h.putCase c
    rw [shellStep]
    generalize fbShellPutchar s c = s', t.step (.putchar c) = t' at hcase ⊢
    cases hcase with
    | newline => exact h.rendered_newline hroom hshown
    | eraseBack => exact h.rendered_eraseBack hroom hshown
    | nothing => exact hshown
    | putHere hc hline => exact h.rendered_putHere hroom hshown hc hline
    | wrap hc =>
      exact h.newline.rendered_putHere (hroom.of_sameSize (h.inside_newline hroom).1)
        (h.rendered_newline hroom hshown) hc (by decide : 0 < fbShellCols)

/-! ### From the start -/

theorem paints_fbClear (fb : Framebuffer) (colour : UInt32) :
    Paints colour fb.screen fb (fbClear fb colour) := by
  have hset : fb.screen = {p | ∃ y ∈ List.range fb.height.toNat,
      p ∈ {p | ∃ x ∈ List.range fb.width.toNat, p ∈ ({(x, y)} : Set (ℕ × ℕ))}} := by
    ext p
    simp only [Framebuffer.screen, Set.mem_ofPred_eq, List.mem_range, Set.mem_singleton_iff]
    constructor
    · rintro ⟨hx, hy⟩
      exact ⟨p.2, hy, p.1, hx, rfl⟩
    · rintro ⟨y, hy, x, hx, rfl⟩
      exact ⟨hx, hy⟩
  rw [fbClear, hset]
  refine Paints.foldl fun fb₁ h₁ y _ => ?_
  rw [h₁.1]
  exact Paints.foldl fun fb₂ _ x _ => paints_fbPutPixel x y

theorem paints_fbDrawString (fb : Framebuffer) (colour : UInt32) (x y : ℕ) (str : List UInt8) :
    ∃ S ⊆ rect x y (str.length * fontWidth) fontHeight,
      Paints colour S fb (fbDrawString fb x y str colour) := by
  unfold fbDrawString
  induction str generalizing fb x with
  | nil => exact ⟨∅, Set.empty_subset _, Paints.refl colour fb⟩
  | cons c str ih =>
    obtain ⟨S, hS, hpaints⟩ := ih (drawChar fb x y c colour) (x + fontWidth)
    refine ⟨glyph x y c ∪ S, Set.union_subset ?_ (hS.trans ?_), ?_⟩
    · rintro p ⟨⟨⟨hx, hx'⟩, hy⟩, -⟩
      refine ⟨⟨hx, hx'.trans_le ?_⟩, hy⟩
      rw [List.length_cons, Nat.add_mul]
      omega
    · rintro p ⟨⟨hx, hx'⟩, hy⟩
      refine ⟨⟨by omega, ?_⟩, hy⟩
      rw [List.length_cons, Nat.add_mul]
      omega
    · rw [List.foldl_cons]
      have hnext := paints_drawChar.trans hpaints
      rw [Nat.cast_add] at hnext
      exact hnext

theorem rendered_start (hroom : Roomy fb) :
    Inside fb (fbShellInit fb).fb ∧ Rendered true (fbShellInit fb).lines (fbShellInit fb).fb := by
  have hclear := paints_fbClear fb fbShellBg
  have hin₁ := hclear.inside subset_rfl
  have hroom₁ := hroom.of_sameSize hin₁.1
  unfold fbShellInit
  dsimp only
  generalize fbClear fb fbShellBg = fb₁ at *
  rw [toInt_of_lt hroom₁.lt.1]
  have hx : 0 + fb₁.width.toNat ≤ 2 ^ 32 := by
    have hlt := fb₁.width.toNat_lt
    omega
  have hy : 0 + (fbShellLineH - 2) ≤ 2 ^ 32 := by decide
  have hin₂ := inside_fbDrawRect fb₁ 0x001E293B hx hy
  have hbar := fun {r col dx dy : ℕ} (hin : InCell r col dx dy) =>
    pixel_fbDrawRect 0x001E293B hroom₁ hin hx hy
  rw [Nat.cast_zero] at hin₂ hbar
  generalize fbDrawRect fb₁ 0 0 fb₁.width.toNat (fbShellLineH - 2 : ℕ) 0x001E293B = fb₂ at *
  have hroom₂ := hroom₁.of_sameSize hin₂.1
  obtain ⟨S, hS, hpaints⟩ :=
    paints_fbDrawString fb₂ fbShellPrompt fbShellMarginX 2 headerText
  have hlen : headerText.length = 53 := by decide
  rw [hlen] at hS
  rw [Nat.cast_ofNat] at hpaints
  have hsub : S ⊆ fb₂.screen := by
    intro p hp
    obtain ⟨⟨-, hx⟩, -, hy⟩ := hS hp
    have hwidth := hroom₂.width
    have hheight := hroom₂.height
    simp only [fbShellMarginX, fontWidth, fontHeight] at hx hy
    exact ⟨by omega, by omega⟩
  refine ⟨hin₁.trans (hin₂.trans (hpaints.inside hsub)), fun r col dx dy hcell hheader => ?_⟩
  have hpos := hheader rfl
  have hlow : cellPixel r col dx dy ∉ rect 0 0 fb₁.width.toNat (fbShellLineH - 2) := by
    rintro ⟨-, -, hy⟩
    simp only [cellPixel, rowToY, fbShellMarginY, fbShellLineH] at hy
    omega
  have hout : cellPixel r col dx dy ∉ S := by
    intro hp
    obtain ⟨-, -, hy⟩ := hS hp
    simp only [cellPixel, rowToY, fbShellMarginY, fbShellLineH, fontHeight] at hy
    omega
  rw [(hpaints.pixel_eq hroom₂.ok hsub (hcell.mem_screen hroom₂)).2 hout, (hbar hcell).2 hlow,
    ink_zero]
  exact (hclear.pixel_eq hroom.ok subset_rfl (hcell.mem_screen hroom)).1 (hcell.mem_screen hroom)

theorem Grid.run (h : Grid s t) (hroom : Roomy s.fb) (hshown : Rendered t.header s.lines s.fb)
    (calls : List ShellCall) :
    Inside s.fb (StepSystem.run shellStep s calls).fb ∧
      Grid (StepSystem.run shellStep s calls) (StepSystem.run Transcript.step t calls) ∧
      Rendered (StepSystem.run Transcript.step t calls).header
        (StepSystem.run shellStep s calls).lines (StepSystem.run shellStep s calls).fb := by
  induction calls generalizing s t with
  | nil => exact ⟨Inside.refl _, h, hshown⟩
  | cons call calls ih =>
    have hin := h.inside hroom call
    obtain ⟨hin', hend⟩ := ih (h.step call) (hroom.of_sameSize hin.1) (h.rendered hroom hshown call)
    rw [run_cons, run_cons]
    exact ⟨hin.trans hin', hend⟩

/-- Whatever is written to the terminal, cleared and ticked after `fb_shell_init`, on a screen with
room for the grid: each cell of the screen shows the character that the last 24 lines of the
transcript have there (in the first row, once the header is gone), and no word beyond the screen is
written. -/
theorem terminal_shows_transcript (hroom : Roomy fb) (calls : List ShellCall) :
    (∀ r col dx dy, InCell r col dx dy →
      ((run Transcript.step Transcript.start calls).header = true → 0 < r) →
        (run shellStep (fbShellInit fb) calls).fb.pixel (cellPixel r col dx dy) =
          ink ((run Transcript.step Transcript.start calls).charAt r col) dx dy) ∧
      Inside fb (run shellStep (fbShellInit fb) calls).fb := by
  obtain ⟨hin, hstart⟩ := rendered_start hroom
  obtain ⟨hin', hgrid, hshown⟩ := (Grid.start fb).run (hroom.of_sameSize hin.1) hstart calls
  refine ⟨fun r col dx dy hcell hheader => ?_, hin.trans hin'⟩
  rw [hshown r col dx dy hcell hheader, hgrid.lines r hcell.row]

/-- A screen of 1280 by 800 pixels, as it is found. -/
def sampleFramebuffer : Framebuffer := ⟨fun _ => 0, 1280, 800, 1280⟩

theorem terminal_shows_transcript_sample :
    (run shellStep (fbShellInit sampleFramebuffer)
        [.clear, .putchar 65, .putchar 10, .putchar 66, .putchar 8]).fb.pixel (cellPixel 0 0 3 0) =
      ink 65 3 0 := by
  have hroom : Roomy sampleFramebuffer := ⟨⟨by decide, by decide⟩, by decide, by decide⟩
  have hshown := (terminal_shows_transcript hroom
    [.clear, .putchar 65, .putchar 10, .putchar 66, .putchar 8]).1 0 0 3 0
      ⟨by decide, by decide, by decide, by decide⟩ fun h => Bool.noConfusion h
  rw [hshown]
  decide

end StyxOS.Console
