import StyxOS.Console.Keyboard
import StyxOS.Console.Terminal

/-! # From the keys to the commands

The loop of `shell_run` takes characters out of the ring of the keyboard driver,
edits a line of at most 127 of them in a buffer, and executes the line at its end.
Scan codes arrive between any two of its steps.
-/

namespace StyxOS.Console

open StepSystem Framebuffer ByteMem

/-! ## The line buffer -/

/-- `sizeof(line_buf)`. -/
def lineBufSize : ℕ := 128

def cString (buf : ℕ → UInt8) : List UInt8 := ((List.range lineBufSize).map buf).takeWhile (· ≠ 0)

/-- The locals of `shell_run`, the arguments of `shell_execute_cmd` so far, and the terminal. -/
structure Repl where
  lineBuf : ℕ → UInt8
  linePos : ℕ
  commands : List (List UInt8)
  screen : FbShell

def prompt : List UInt8 := asciiBytes "styx# "

/-- The rest of the loop of `shell_run` for a character that is not `0`; `out` is what the command
writes to the terminal, if there is one. -/
def shellKey (s : Repl) (c : UInt8) (out : List UInt8) : Repl :=
  if c = 10 ∨ c = 13 then
    let s := { s with
      screen := fbShellPutchar s.screen 10
      lineBuf := Function.update s.lineBuf s.linePos 0 }
    let s :=
      if 0 < s.linePos then
        { commands := s.commands ++ [cString s.lineBuf]
          screen := fbShellPuts s.screen out
          linePos := 0
          lineBuf := fun _ => 0 }
      else s
    { s with screen := fbShellPuts s.screen prompt }
  else if c = 8 then
    if 0 < s.linePos then
      { s with
        linePos := s.linePos - 1
        lineBuf := Function.update s.lineBuf (s.linePos - 1) 0
        screen := fbShellPutchar s.screen 8 }
    else s
  else if 32 ≤ c ∧ c ≤ 126 ∧ s.linePos < lineBufSize - 1 then
    { s with
      lineBuf := Function.update s.lineBuf s.linePos c
      linePos := s.linePos + 1
      screen := fbShellPutchar s.screen c }
  else s

/-- What `shellKey` writes to the terminal. -/
def shellOutput (s : Repl) (c : UInt8) (out : List UInt8) : List UInt8 :=
  if c = 10 ∨ c = 13 then 10 :: (if 0 < s.linePos then out ++ prompt else prompt)
  else if c = 8 then if 0 < s.linePos then [8] else []
  else if 32 ≤ c ∧ c ≤ 126 ∧ s.linePos < lineBufSize - 1 then [c]
  else []

theorem fbShellPuts_append (screen : FbShell) (str str' : List UInt8) :
    fbShellPuts screen (str ++ str') = fbShellPuts (fbShellPuts screen str) str' :=
  List.foldl_append

theorem screen_shellKey (s : Repl) (c : UInt8) (out : List UInt8) :
    (shellKey s c out).screen = fbShellPuts s.screen (shellOutput s c out) := by
  unfold shellKey shellOutput
  dsimp only
  split
  · split
    · rw [← List.cons_append, fbShellPuts_append]
      rfl
    · rfl
  split
  · split
    · rfl
    · rfl
  split
  · rfl
  · rfl

/-- The shell of user space: its line, how much of it is typed, and the lines it has acted on. -/
structure UserShell where
  line : ℕ → UInt8
  lineIdx : ℕ
  commands : List (List UInt8)

def userCommands : List (List UInt8) :=
  ["help", "sysinfo", "ls", "caps", "pqc", "tor", "auth", "wipe", "clear"].map asciiBytes

/-- The loop of the user shell for a character. Its buffer is not cleared behind a line. -/
def userKey (s : UserShell) (c : UInt8) : UserShell :=
  if c = 13 ∨ c = 10 then
    let s := { s with line := Function.update s.line s.lineIdx 0 }
    let s :=
      if cString s.line ∈ userCommands ∨ 0 < s.lineIdx then
        { s with commands := s.commands ++ [cString s.line] }
      else s
    { s with lineIdx := 0 }
  else if c = 8 then
    if 0 < s.lineIdx then { s with lineIdx := s.lineIdx - 1 } else s
  else if 32 ≤ c ∧ c ≤ 126 ∧ s.lineIdx < 127 then
    { s with line := Function.update s.line s.lineIdx c, lineIdx := s.lineIdx + 1 }
  else s

/-! ## Editing a line -/

/-- A line being edited, and the lines that were ended. -/
structure Editor where
  line : List UInt8
  commands : List (List UInt8)

namespace Editor

def start : Editor := ⟨[], []⟩

/-- A line is ended by a new line, unless it is empty. It takes printable characters, as long as
there is room for them, and gives the last one back. -/
def key (e : Editor) (c : UInt8) : Editor :=
  if c = 10 ∨ c = 13 then if e.line = [] then e else ⟨[], e.commands ++ [e.line]⟩
  else if c = 8 then { e with line := e.line.dropLast }
  else if 32 ≤ c ∧ c ≤ 126 ∧ e.line.length < lineBufSize - 1 then { e with line := e.line ++ [c] }
  else e

def Line (l : List UInt8) : Prop := l.length < lineBufSize ∧ ∀ c ∈ l, 32 ≤ c ∧ c ≤ 126

/-- All lines can be typed, and those that were ended are not empty. -/
structure Ok (e : Editor) : Prop where
  line : Line e.line
  commands : ∀ l ∈ e.commands, l ≠ [] ∧ Line l

variable {e : Editor} {c : UInt8}

theorem Ok.start : Ok start :=
  ⟨⟨by decide, fun _ hc => (List.not_mem_nil hc).elim⟩, fun _ hl => (List.not_mem_nil hl).elim⟩

theorem Ok.key (h : Ok e) (c : UInt8) : Ok (e.key c) := by
  unfold Editor.key
  split
  · split
    · exact h
    · next hne =>
      refine ⟨Ok.start.line, fun l hl => ?_⟩
      rcases List.mem_append.mp hl with hl | hl
      · exact h.commands l hl
      · rw [List.mem_singleton.mp hl]
        exact ⟨hne, h.line⟩
  split
  · refine ⟨⟨?_, fun b hb => h.line.2 b (List.dropLast_subset _ hb)⟩, h.commands⟩
    rw [List.length_dropLast]
    exact (Nat.sub_le _ _).trans_lt h.line.1
  split
  · next hc =>
    refine ⟨⟨?_, fun b hb => ?_⟩, h.commands⟩
    · have hroom := hc.2.2
      rw [List.length_append, List.length_singleton]
      omega
    · rcases List.mem_append.mp hb with hb | hb
      · exact h.line.2 b hb
      · rw [List.mem_singleton.mp hb]
        exact ⟨hc.1, hc.2.1⟩
  · exact h

theorem ok_foldl (keys : List UInt8) : Ok (keys.foldl Editor.key start) :=
  List.foldlRecOn keys _ Ok.start fun _ h c _ => h.key c

theorem key_zero (e : Editor) : e.key 0 = e := rfl

end Editor

/-! ### The two shells edit lines -/

variable {s : Repl} {u : UserShell} {e : Editor} {c : UInt8} {buf : ℕ → UInt8} {l out : List UInt8}

theorem cString_eq (hl : Editor.Line l) (hbuf : ∀ i ≤ l.length, buf i = l.getD i 0) :
    cString buf = l := by
  obtain ⟨hlen, htext⟩ := hl
  have hprefix : (List.range l.length).map buf = l := by
    apply List.ext_getElem (by simp)
    intro i hi hi'
    rw [List.getElem_map, List.getElem_range, hbuf i (Nat.le_of_lt hi'),
      List.getD_eq_getElem _ _ hi']
  obtain ⟨k, hk⟩ := Nat.exists_eq_add_of_lt hlen
  rw [cString, hk, Nat.add_assoc, List.range_add, List.map_append, hprefix,
    List.takeWhile_append_of_pos]
  · rw [Nat.add_comm k 1, List.range_add, List.map_append, List.map_append, List.takeWhile_append]
    simp [hbuf l.length le_rfl]
  · intro b hb
    have hlow := (htext b hb).1
    rw [decide_eq_true_eq]
    rintro rfl
    exact absurd hlow (by decide)

/-- The buffer of the kernel's shell holds the line, and nothing behind it. -/
structure Edits (s : Repl) (e : Editor) : Prop where
  pos : s.linePos = e.line.length
  buf : ∀ i, s.lineBuf i = e.line.getD i 0
  commands : s.commands = e.commands

theorem Edits.key (h : Edits s e) (hok : e.Ok) (c : UInt8) (out : List UInt8) :
    Edits (shellKey s c out) (e.key c) := by
  have hend : Function.update s.lineBuf s.linePos 0 = s.lineBuf := by
    rw [Function.update_eq_self_iff, h.buf, h.pos, List.getD_eq_default _ _ le_rfl]
  unfold shellKey Editor.key
  dsimp only
  rw [hend, h.pos]
  by_cases hnewline : c = 10 ∨ c = 13
  · rw [if_pos hnewline, if_pos hnewline]
    by_cases hempty : e.line = []
    · rw [if_pos hempty, if_neg (by simp [hempty])]
      exact ⟨rfl, h.buf, h.commands⟩
    · rw [if_neg hempty, if_pos (List.length_pos_iff.mpr hempty)]
      refine ⟨rfl, fun i => rfl, ?_⟩
      dsimp only
      rw [h.commands, cString_eq hok.line fun i _ => h.buf i]
  rw [if_neg hnewline, if_neg hnewline]
  by_cases hback : c = 8
  · rw [if_pos hback, if_pos hback]
    split
    · next hpos =>
      refine ⟨List.length_dropLast.symm, fun i => ?_, h.commands⟩
      rw [List.getD_eq_getElem?_getD, List.getElem?_dropLast]
      dsimp only
      rcases Nat.lt_trichotomy i (e.line.length - 1) with hi | rfl | hi
      · rw [Function.update_of_ne (by omega), h.buf, if_pos hi, List.getD_eq_getElem?_getD]
      · rw [Function.update_self, if_neg (Nat.lt_irrefl _), Option.getD_none]
      · rw [Function.update_of_ne (by omega), h.buf, if_neg (by omega), Option.getD_none,
          List.getD_eq_default _ _ (by omega)]
    · next hzero =>
      have hnil : e.line = [] := List.length_eq_zero_iff.mp (by omega)
      rw [hnil, List.dropLast_nil, ← hnil]
      exact h
  rw [if_neg hback, if_neg hback]
  split
  · next hc =>
    refine ⟨by rw [List.length_append, List.length_singleton], fun i => ?_, h.commands⟩
    dsimp only
    rcases Nat.lt_trichotomy i e.line.length with hi | rfl | hi
    · rw [Function.update_of_ne (by omega), h.buf, List.getD_append _ _ _ _ hi]
    · rw [Function.update_self, List.getD_append_right _ _ _ _ le_rfl, Nat.sub_self,
        List.getD_cons_zero]
    · rw [Function.update_of_ne (by omega), h.buf, List.getD_eq_default _ _ (by omega),
        List.getD_eq_default _ _ (by rw [List.length_append, List.length_singleton]; omega)]
  · exact h

/-- The buffer of the user shell holds the line, with the rest of earlier lines behind it. -/
structure UserEdits (u : UserShell) (e : Editor) : Prop where
  idx : u.lineIdx = e.line.length
  line : ∀ i < e.line.length, u.line i = e.line.getD i 0
  commands : u.commands = e.commands

theorem not_mem_userCommands_nil : [] ∉ userCommands := by decide

theorem UserEdits.key (h : UserEdits u e) (hok : e.Ok) (c : UInt8) :
    UserEdits (userKey u c) (e.key c) := by
  have hend : cString (Function.update u.line e.line.length 0) = e.line := by
    apply cString_eq hok.line
    intro i hi
    rcases Nat.lt_or_eq_of_le hi with hi | rfl
    · rw [Function.update_of_ne (by omega), h.line i hi]
    · rw [Function.update_self, List.getD_eq_default _ _ le_rfl]
  unfold userKey Editor.key
  dsimp only
  have hsize : lineBufSize - 1 = 127 := rfl
  rw [h.idx, hend, hsize]
  by_cases hnewline : c = 10 ∨ c = 13
  · rw [if_pos hnewline.symm, if_pos hnewline]
    by_cases hempty : e.line = []
    · have hnone : ¬(e.line ∈ userCommands ∨ 0 < e.line.length) := by
        rw [hempty]
        exact not_or.mpr ⟨not_mem_userCommands_nil, Nat.lt_irrefl 0⟩
      rw [if_pos hempty, if_neg hnone]
      refine ⟨by rw [hempty]; rfl, fun i hi => ?_, h.commands⟩
      rw [hempty] at hi
      exact absurd hi (Nat.not_lt_zero i)
    · rw [if_neg hempty, if_pos (.inr (List.length_pos_iff.mpr hempty))]
      refine ⟨rfl, fun i hi => absurd hi (Nat.not_lt_zero i), ?_⟩
      dsimp only
      rw [h.commands]
  rw [if_neg (mt Or.symm hnewline), if_neg hnewline]
  by_cases hback : c = 8
  · rw [if_pos hback, if_pos hback]
    split
    · refine ⟨List.length_dropLast.symm, fun i hi => ?_, h.commands⟩
      rw [List.length_dropLast] at hi
      rw [h.line i (by omega), List.getD_eq_getElem?_getD, List.getD_eq_getElem?_getD,
        List.getElem?_dropLast, if_pos hi]
    · next hzero =>
      have hnil : e.line = [] := List.length_eq_zero_iff.mp (by omega)
      rw [hnil, List.dropLast_nil, ← hnil]
      exact h
  rw [if_neg hback, if_neg hback]
  split
  · refine ⟨by rw [List.length_append, List.length_singleton], fun i hi => ?_, h.commands⟩
    rw [List.length_append, List.length_singleton] at hi
    dsimp only
    rcases Nat.lt_or_eq_of_le (Nat.le_of_lt_succ hi) with hi | rfl
    · rw [Function.update_of_ne (by omega), h.line i hi, List.getD_append _ _ _ _ hi]
    · rw [Function.update_self, List.getD_append_right _ _ _ _ le_rfl, Nat.sub_self,
        List.getD_cons_zero]
  · exact h

/-- On every sequence of characters, the shell of the kernel and the one of user space edit the same
line, which fits their buffers, and act on the same lines, whatever the buffer of the latter held
and whatever the commands of the former write. -/
theorem shells_agree (screen : FbShell) (line : ℕ → UInt8) (keys : List (UInt8 × List UInt8)) :
    ∃ e : Editor, e.Ok ∧
      Edits (run (fun s key => shellKey s key.1 key.2) ⟨fun _ => 0, 0, [], screen⟩ keys) e ∧
      UserEdits (run userKey ⟨line, 0, []⟩ (keys.map Prod.fst)) e := by
  refine ⟨(keys.map Prod.fst).foldl Editor.key Editor.start, Editor.ok_foldl _, ?_, ?_⟩
  · induction keys using List.reverseRecOn with
    | nil => exact ⟨rfl, fun _ => rfl, rfl⟩
    | append_singleton keys key ih =>
      rw [List.map_append, List.foldl_append, run_append]
      exact ih.key (Editor.ok_foldl _) key.1 key.2
  · generalize keys.map Prod.fst = cs
    induction cs using List.reverseRecOn with
    | nil => exact ⟨rfl, fun i hi => absurd hi (Nat.not_lt_zero i), rfl⟩
    | append_singleton cs c ih =>
      rw [List.foldl_append, run_append]
      exact ih.key (Editor.ok_foldl _) c

/-! ## Keys, the ring and the loop -/

/-- Where the loop of `shell_run` is: before the test of the ring, before the read, before the
store of the new tail, with a character in hand, or with characters to write to the terminal. -/
inductive Stage
  | check
  | read
  | advance (c : UInt8)
  | handle (c : UInt8)
  | write (str : List UInt8)

/-- The driver, the shell, and what `keyboard_get_char` has returned so far, with `none` for `0`. -/
structure Loop where
  keyboard : Keyboard
  repl : Repl
  stage : Stage
  answers : List (Option UInt8)

/-- An interrupt of the keyboard or of the timer, or the next step of the shell, with what a
command is going to write if one starts here. Each character of its output is a step. -/
inductive Event
  | scancode (code : UInt8)
  | tick
  | shell (out : List UInt8)

namespace Loop

/-- `shell_run` before its greeting. -/
def start (ring : Fin 64 → UInt8) (fb : Framebuffer) (greeting : List UInt8) : Loop where
  keyboard := keyboardInit ring
  repl := ⟨fun _ => 0, 0, [], fbShellInit fb⟩
  stage := .write (greeting ++ prompt)
  answers := []

def setFb (s : Loop) (fb : Framebuffer) : Loop :=
  { s with repl := { s.repl with screen := { s.repl.screen with fb } } }

/-- A character in hand is handled, up to what it writes. -/
def handleKey (s : Loop) (c : UInt8) (out : List UInt8) : Loop :=
  if c = 0 then { s with stage := .check }
  else
    { s with
      repl := { shellKey s.repl c out with screen := s.repl.screen }
      stage := .write (shellOutput s.repl c out) }

def writeNext (s : Loop) : List UInt8 → Loop
  | [] => { s with stage := .check }
  | c :: str =>
    { s with
      repl := { s.repl with screen := fbShellPutchar s.repl.screen c }
      stage := .write str }

/-- The loop of `shell_run`, with `keyboard_get_char` and the output cut where an interrupt can
come. -/
def shell (s : Loop) (out : List UInt8) : Loop :=
  let keys := s.keyboard.keys
  match s.stage with
  | .check =>
    if keys.head = keys.tail then { s with answers := s.answers ++ [none] }
    else { s with stage := .read }
  | .read => { s with stage := .advance (keys.ring keys.tail) }
  | .advance c =>
    { s with
      keyboard := { s.keyboard with keys := { keys with tail := keys.tail + 1 } }
      answers := s.answers ++ [some c]
      stage := .handle c }
  | .handle c => s.handleKey c out
  | .write str => s.writeNext str

def step (s : Loop) : Event → Loop
  | .scancode code =>
    let r := keyboardCallback s.keyboard s.repl.screen.fb code
    { s.setFb r.2 with keyboard := r.1 }
  | .tick => { s with repl := { s.repl with screen := fbShellCursorTick s.repl.screen } }
  | .shell out => s.shell out

/-- What the loop does to the ring, seen as a queue. -/
def queueOps (s : Loop) : Event → List (BoundedQueue.Op UInt8)
  | .scancode code => ((typedChar s.keyboard.shiftPressed code).map .offer).toList
  | .tick => []
  | .shell _ =>
    match s.stage with
    | .check => if s.keyboard.keys.head = s.keyboard.keys.tail then [.take] else []
    | .advance _ => [.take]
    | _ => []

/-- The ring as a queue, with the answers so far. -/
def queue (s : Loop) : BoundedQueue UInt8 := ⟨waiting s.keyboard.keys, s.answers⟩

/-- The character in hand. -/
def inHand (s : Loop) : List UInt8 :=
  match s.stage with
  | .handle c => [c]
  | _ => []

/-- The key is not dropped. -/
def Kept (s : Loop) : Event → Prop
  | .scancode code =>
    (typedChar s.keyboard.shiftPressed code).isSome → (waiting s.keyboard.keys).length < 63
  | _ => True

/-- The scan codes of a run. -/
def scancodes : List Event → List UInt8
  | [] => []
  | .scancode code :: es => code :: scancodes es
  | .tick :: es => scancodes es
  | .shell _ :: es => scancodes es

variable {s : Loop}

/-- A character that was seen to be there stays there. -/
def Ready (s : Loop) : Prop :=
  match s.stage with
  | .read => s.keyboard.keys.head ≠ s.keyboard.keys.tail
  | .advance c =>
    s.keyboard.keys.head ≠ s.keyboard.keys.tail ∧ s.keyboard.keys.ring s.keyboard.keys.tail = c
  | _ => True

theorem keyRingPush_keeps {ring : KeyRing} (hne : ring.head ≠ ring.tail) (c : UInt8) :
    (keyRingPush ring c).tail = ring.tail ∧
      (keyRingPush ring c).head ≠ (keyRingPush ring c).tail ∧
      (keyRingPush ring c).ring ring.tail = ring.ring ring.tail := by
  unfold keyRingPush
  split
  · next hroom => exact ⟨rfl, hroom, Function.update_of_ne hne.symm _ _⟩
  · exact ⟨rfl, hne, rfl⟩

theorem Ready.step (h : Ready s) (e : Event) : Ready (s.step e) := by
  obtain ⟨keyboard, repl, stage, answers⟩ := s
  cases e with
  | scancode code =>
    have hkeys := (keyboardCallback_keys keyboard repl.screen.fb code).1
    dsimp only [Ready, Loop.step, setFb] at h ⊢
    rw [hkeys]
    cases typedChar keyboard.shiftPressed code with
    | none => exact h
    | some c =>
      rw [Option.elim_some]
      cases stage with
      | check => trivial
      | read => exact (keyRingPush_keeps h c).2.1
      | advance c' =>
        obtain ⟨htail, hne, hslot⟩ := keyRingPush_keeps h.1 c
        dsimp only
        rw [htail] at hne ⊢
        exact ⟨hne, hslot.trans h.2⟩
      | handle c' => trivial
      | write str => trivial
  | tick => exact h
  | shell out =>
    dsimp only [Ready, Loop.step, Loop.shell] at h ⊢
    cases stage with
    | check =>
      by_cases heq : keyboard.keys.head = keyboard.keys.tail
      · rw [if_pos heq]
        trivial
      · rw [if_neg heq]
        exact heq
    | read => exact ⟨h, rfl⟩
    | advance c => trivial
    | handle c =>
      change Ready (handleKey ⟨keyboard, repl, .handle c, answers⟩ c out)
      unfold handleKey
      split
      · trivial
      · trivial
    | write str =>
      cases str with
      | nil => trivial
      | cons c str => trivial

theorem queue_step (h : Ready s) (e : Event) :
    (s.step e).queue = run (BoundedQueue.step 63) s.queue (s.queueOps e) := by
  obtain ⟨keyboard, repl, stage, answers⟩ := s
  cases e with
  | scancode code =>
    have hkeys := (keyboardCallback_keys keyboard repl.screen.fb code).1
    dsimp only [queue, queueOps, Loop.step, setFb]
    rw [hkeys]
    cases typedChar keyboard.shiftPressed code with
    | none => rfl
    | some c =>
      rw [Option.elim_some, waiting_keyRingPush, Option.map_some, Option.toList_some, run_cons,
        run_nil, BoundedQueue.step]
      split <;> rfl
  | tick => rfl
  | shell out =>
    dsimp only [Ready, queue, queueOps, Loop.step, Loop.shell] at h ⊢
    cases stage with
    | check =>
      dsimp only
      split
      · next heq =>
        dsimp only
        rw [run_cons, run_nil, BoundedQueue.step, waiting_eq_nil_iff.mpr heq]
        rfl
      · rfl
    | read => rfl
    | advance c =>
      dsimp only at h ⊢
      rw [run_cons, run_nil, BoundedQueue.step, waiting_take h.1, h.2]
      rfl
    | handle c =>
      dsimp only
      unfold handleKey
      split
      · rfl
      · rfl
    | write str =>
      cases str with
      | nil => rfl
      | cons c str => rfl

theorem fits_iff (s : Loop) (e : Event) :
    AllSteps (BoundedQueue.step 63) (BoundedQueue.Fits 63) s.queue (s.queueOps e) ↔ s.Kept e := by
  cases e with
  | scancode code =>
    dsimp only [queueOps, Kept]
    cases typedChar s.keyboard.shiftPressed code with
    | none => exact iff_of_true trivial fun h => by cases h
    | some c => exact ⟨fun h _ => h.1, fun h => ⟨h rfl, trivial⟩⟩
  | tick => exact Iff.rfl
  | shell out =>
    dsimp only [queueOps, Kept]
    split
    · split
      · exact iff_of_true ⟨trivial, trivial⟩ trivial
      · exact Iff.rfl
    · exact iff_of_true ⟨trivial, trivial⟩ trivial
    · exact Iff.rfl

theorem shiftPressed_shell (s : Loop) (out : List UInt8) :
    (s.shell out).keyboard.shiftPressed = s.keyboard.shiftPressed := by
  obtain ⟨keyboard, repl, stage, answers⟩ := s
  unfold Loop.shell
  dsimp only
  cases stage with
  | check =>
    dsimp only
    split
    · rfl
    · rfl
  | read => rfl
  | advance c => rfl
  | handle c =>
    dsimp only
    unfold handleKey
    split
    · rfl
    · rfl
  | write str =>
    cases str with
    | nil => rfl
    | cons c str => rfl

theorem offered_trace (s : Loop) (es : List Event) :
    BoundedQueue.offered (trace Loop.step queueOps s es) =
      typed s.keyboard.shiftPressed (scancodes es) := by
  induction es generalizing s with
  | nil => rfl
  | cons e es ih =>
    rw [trace, BoundedQueue.offered_append, ih]
    cases e with
    | scancode code =>
      have hshift := (keyboardCallback_keys s.keyboard s.repl.screen.fb code).2
      dsimp only [queueOps, Loop.step]
      rw [hshift, scancodes, typed]
      cases typedChar s.keyboard.shiftPressed code <;> rfl
    | tick => rfl
    | shell out =>
      dsimp only [Loop.step]
      rw [shiftPressed_shell, scancodes]
      dsimp only [queueOps]
      split
      · split <;> rfl
      all_goals rfl

/-- The shell has handled all characters it has taken, but for the one in hand. -/
def Follows (s : Loop) : Prop :=
  ∃ handled : List UInt8, s.queue.taken = handled ++ s.inHand ∧
    Edits s.repl (handled.foldl Editor.key Editor.start)

theorem Follows.step (h : Follows s) (e : Event) : Follows (s.step e) := by
  obtain ⟨keyboard, repl, stage, answers⟩ := s
  obtain ⟨handled, htaken, hpos, hbuf, hcommands⟩ := h
  cases e with
  | scancode code => exact ⟨handled, htaken, hpos, hbuf, hcommands⟩
  | tick =>
    refine ⟨handled, htaken, ?_, ?_, ?_⟩
    · exact hpos
    · exact hbuf
    · exact hcommands
  | shell out =>
    dsimp only [Loop.step, Loop.shell]
    dsimp only [queue, BoundedQueue.taken, inHand] at htaken
    cases stage with
    | check =>
      dsimp only
      split
      · refine ⟨handled, ?_, hpos, hbuf, hcommands⟩
        dsimp only [queue, BoundedQueue.taken, inHand]
        rw [List.reduceOption_append, htaken, List.append_assoc]
        rfl
      · exact ⟨handled, htaken, hpos, hbuf, hcommands⟩
    | read => exact ⟨handled, htaken, hpos, hbuf, hcommands⟩
    | advance c =>
      refine ⟨handled, ?_, hpos, hbuf, hcommands⟩
      dsimp only [queue, BoundedQueue.taken, inHand] at htaken ⊢
      rw [List.reduceOption_append, htaken, List.append_nil]
      rfl
    | handle c =>
      have hedits : Edits repl (handled.foldl Editor.key Editor.start) := ⟨hpos, hbuf, hcommands⟩
      refine ⟨handled ++ [c], ?_, ?_⟩
      · dsimp only
        unfold handleKey
        split
        · dsimp only [queue, BoundedQueue.taken, inHand] at htaken ⊢
          rw [htaken, List.append_nil]
        · dsimp only [queue, BoundedQueue.taken, inHand] at htaken ⊢
          rw [htaken, List.append_nil]
      · rw [List.foldl_append, List.foldl_cons, List.foldl_nil]
        dsimp only
        unfold handleKey
        split
        · next hc =>
          rw [hc, Editor.key_zero]
          exact hedits
        · obtain ⟨hpos', hbuf', hcommands'⟩ := hedits.key (Editor.ok_foldl handled) c out
          exact ⟨hpos', hbuf', hcommands'⟩
    | write str =>
      cases str with
      | nil => exact ⟨handled, htaken, hpos, hbuf, hcommands⟩
      | cons c str => exact ⟨handled, htaken, hpos, hbuf, hcommands⟩

theorem queue_start (ring : Fin 64 → UInt8) (fb : Framebuffer) (greeting : List UInt8) :
    (start ring fb greeting).queue = BoundedQueue.empty := by
  dsimp only [queue, start, keyboardInit]
  rw [waiting_eq_nil_iff.mpr rfl]
  rfl

theorem Follows.start (ring : Fin 64 → UInt8) (fb : Framebuffer) (greeting : List UInt8) :
    Follows (start ring fb greeting) :=
  ⟨[], rfl, rfl, fun _ => rfl, rfl⟩

/-- In every interleaving, the kernel's shell has acted on the lines that the characters it has
taken spell, and holds the rest in its buffer, which does not overflow. These characters, and then
those in the ring, are what was typed, in order, and all of it exactly if no key comes while 63
characters wait. -/
theorem commands_of_keys (ring : Fin 64 → UInt8) (fb : Framebuffer) (greeting : List UInt8)
    (es : List Event) :
    ∃ handled : List UInt8,
      Edits (run step (start ring fb greeting) es).repl (handled.foldl Editor.key Editor.start) ∧
      (handled.foldl Editor.key Editor.start).Ok ∧
      (handled ++ (run step (start ring fb greeting) es).inHand ++
          waiting (run step (start ring fb greeting) es).keyboard.keys).Sublist
        (typed false (scancodes es)) ∧
      (handled ++ (run step (start ring fb greeting) es).inHand ++
          waiting (run step (start ring fb greeting) es).keyboard.keys =
          typed false (scancodes es) ↔
        AllSteps step Kept (start ring fb greeting) es) := by
  have hready : Ready (start ring fb greeting) := trivial
  have hview : (run step (start ring fb greeting) es).queue =
      run (BoundedQueue.step 63) (start ring fb greeting).queue
        (trace step queueOps (start ring fb greeting) es) :=
    run_view (fun _ e h => Ready.step h e) (fun _ e h => queue_step h e) hready es
  have hsteps : AllSteps (BoundedQueue.step 63) (BoundedQueue.Fits 63)
      (start ring fb greeting).queue (trace step queueOps (start ring fb greeting) es) ↔ _ :=
    allSteps_trace (fun _ e h => Ready.step h e) (fun _ e h => queue_step h e) hready es
  simp only [fits_iff] at hsteps
  rw [queue_start] at hview hsteps
  have hsub := BoundedQueue.taken_append_waiting_sublist 63 BoundedQueue.empty
    (trace step queueOps (start ring fb greeting) es)
  have hiff := BoundedQueue.taken_append_waiting_eq_iff 63 BoundedQueue.empty
    (trace step queueOps (start ring fb greeting) es)
  rw [← hview, offered_trace] at hsub hiff
  obtain ⟨handled, htaken, hedits⟩ :=
    run_invariant_of_forall step (I := Follows) (fun _ e h => Follows.step h e)
      (Follows.start ring fb greeting) es
  rw [htaken] at hsub hiff
  exact ⟨handled, hedits, Editor.ok_foldl handled, hsub, hiff.trans hsteps⟩

/-- Without an interrupt the output of a character is that of `shellKey`. -/
theorem run_handle {c : UInt8} (hc : c ≠ 0) (hs : s.stage = .handle c) (out : List UInt8) :
    run step s (.shell out :: List.replicate ((shellOutput s.repl c out).length + 1) (.shell [])) =
      { s with repl := shellKey s.repl c out, stage := .check } := by
  have hwrite : ∀ (str : List UInt8) (s : Loop), s.stage = .write str →
      run step s (List.replicate (str.length + 1) (.shell [])) =
        { s with
          repl := { s.repl with screen := fbShellPuts s.repl.screen str }
          stage := .check } := by
    intro str
    induction str with
    | nil =>
      rintro ⟨keyboard, repl, stage, answers⟩ rfl
      rfl
    | cons b str ih =>
      rintro ⟨keyboard, repl, stage, answers⟩ rfl
      rw [List.length_cons, List.replicate_succ, run_cons]
      exact ih _ rfl
  obtain ⟨keyboard, repl, stage, answers⟩ := s
  obtain rfl : stage = .handle c := hs
  rw [run_cons]
  dsimp only [Loop.step, Loop.shell]
  rw [handleKey, if_neg hc, hwrite _ _ rfl]
  dsimp only
  rw [← screen_shellKey]

/-! ## The screen -/

/-- The terminal holds a transcript, its cursor and that of the driver are on the screen, and only
the screen was drawn on. -/
structure Shown (fb : Framebuffer) (s : Loop) : Prop where
  grid : ∃ t, Grid s.repl.screen t
  cursor : CursorOk fb s.keyboard
  inside : Inside fb s.repl.screen.fb

variable {fb : Framebuffer} {screen : FbShell}

theorem Shown.start (hroom : Roomy fb) (ring : Fin 64 → UInt8) (greeting : List UInt8) :
    Shown fb (start ring fb greeting) :=
  ⟨⟨_, Grid.start fb⟩, CursorOk.init hroom ring, (rendered_start hroom).1⟩

theorem Shown.step (hroom : Roomy fb) (h : Shown fb s) (e : Event) : Shown fb (s.step e) := by
  obtain ⟨⟨t, ht⟩, hcursor, hin⟩ := h
  have hroom' := hroom.of_sameSize hin.1
  cases e with
  | scancode code =>
    obtain ⟨hecho, hcursor'⟩ := keyboardCallback_inside hroom' (hcursor.of_sameSize hin.1) code
    exact ⟨⟨t, ht.row, ht.col, ht.fits, ht.text, ht.lines⟩,
      hcursor'.of_sameSize hin.1.symm, hin.trans hecho⟩
  | tick =>
    exact ⟨⟨_, ht.step .cursorTick⟩, hcursor, hin.trans (ht.inside hroom' .cursorTick)⟩
  | shell out =>
    obtain ⟨keyboard, repl, stage, answers⟩ := s
    dsimp only [Loop.step, Loop.shell]
    cases stage with
    | check =>
      dsimp only
      split
      · exact ⟨⟨t, ht⟩, hcursor, hin⟩
      · exact ⟨⟨t, ht⟩, hcursor, hin⟩
    | read => exact ⟨⟨t, ht⟩, hcursor, hin⟩
    | advance c =>
      exact ⟨⟨t, ht⟩, ⟨hcursor.column, hcursor.right, hcursor.top, hcursor.bottom⟩, hin⟩
    | handle c =>
      dsimp only
      unfold handleKey
      split
      · exact ⟨⟨t, ht⟩, hcursor, hin⟩
      · exact ⟨⟨t, ht⟩, hcursor, hin⟩
    | write str =>
      cases str with
      | nil => exact ⟨⟨t, ht⟩, hcursor, hin⟩
      | cons c str =>
        exact ⟨⟨_, ht.step (.putchar c)⟩, hcursor, hin.trans (ht.inside hroom' (.putchar c))⟩

/-- In every interleaving of keys, ticks and the shell, no word outside the screen is written, and
the terminal holds a transcript. -/
theorem console_stays_on_screen (hroom : Roomy fb) (ring : Fin 64 → UInt8)
    (greeting : List UInt8) (es : List Event) :
    Inside fb (run step (start ring fb greeting) es).repl.screen.fb ∧
      CursorOk fb (run step (start ring fb greeting) es).keyboard ∧
      ∃ t, Grid (run step (start ring fb greeting) es).repl.screen t := by
  have hshown := run_invariant_of_forall step (I := Shown fb) (fun _ e h => Shown.step hroom h e)
    (Shown.start hroom ring greeting) es
  exact ⟨hshown.inside, hshown.cursor, hshown.grid⟩

/-- The key `a` in the middle of the first prompt, with a tick behind it. -/
theorem console_stays_on_screen_sample :
    Inside sampleFramebuffer
      (run step (start (fun _ => 0) sampleFramebuffer [])
        [.shell [], .shell [], .scancode 30, .tick, .shell []]).repl.screen.fb :=
  (console_stays_on_screen ⟨⟨by decide, by decide⟩, by decide, by decide⟩ _ _ _).1

end Loop

end StyxOS.Console
