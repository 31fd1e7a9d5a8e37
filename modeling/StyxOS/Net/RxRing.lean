import StyxOS.Library.BoundedQueue
import StyxOS.Library.IndexRing
import StyxOS.Net.TxRing

/-! # The receive ring of the e1000 driver

`e1000_poll_packet` statement by statement and `e1000_disable`, beside a network
card that fills the descriptors from head up to tail. One descriptor always lies
between what the card may fill and what the driver has not read.
-/

namespace StyxOS.RxRing

open StepSystem IndexRing

def e1000NumRxDesc : ℕ := 64

/-- The fields of `e1000_rx_desc_t` that the card writes and the driver reads. -/
structure RxDesc where
  length : UInt16
  status : UInt8
  deriving DecidableEq, Repr

/-- The done bit. -/
def RxDesc.done (d : RxDesc) : Bool := d.status &&& 0x01 != 0

/-- The next statement of a call in progress; `out` is what the caller's buffer holds. -/
inductive RxStage
  | check
  | length
  | copy (pktLen : UInt16)
  | status (out : List UInt8)
  | tail (out : List UInt8)
  deriving DecidableEq, Repr

/-- The ring in memory, the driver's globals, the registers of the card (receiving is `RCTL.EN`) and
the call in progress. `answers` lists what the calls of `e1000_poll_packet` handed out, `none` where
the done bit was clear. -/
structure RxState where
  descs : ℕ → RxDesc
  buffers : ℕ → List UInt8
  rxCur : ℕ
  active : Bool
  rxCount : UInt32
  rdh : ℕ
  rdt : ℕ
  receiving : Bool
  call : Option RxStage
  answers : List (Option (List UInt8))

/-- The ring as `e1000_init` sets it up, whatever the pages of the buffers hold. -/
def rxStart (buffers : ℕ → List UInt8) : RxState where
  descs _ := { length := 0, status := 0 }
  buffers := buffers
  rxCur := 0
  active := true
  rxCount := 0
  rdh := 0
  rdt := e1000NumRxDesc - 1
  receiving := true
  call := none
  answers := []

/-- The next statement of `e1000_poll_packet` after its checks of the arguments. -/
def pollStep (s : RxState) : RxStage → RxState
  | .check =>
    if (s.descs s.rxCur).done then { s with call := some .length }
    else { s with call := none, answers := s.answers ++ [none] }
  | .length => { s with call := some (.copy (s.descs s.rxCur).length) }
  | .copy pktLen => { s with call := some (.status ((s.buffers s.rxCur).take pktLen.toNat)) }
  | .status out =>
    { s with
      descs := Function.update s.descs s.rxCur { s.descs s.rxCur with status := 0 }
      call := some (.tail out) }
  | .tail out =>
    { s with
      rxCur := next e1000NumRxDesc s.rxCur
      rdt := s.rxCur
      rxCount := s.rxCount + 1
      call := none
      answers := s.answers ++ [some out] }

def nicFill (s : RxState) (frame : List UInt8) : RxState :=
  { s with
    buffers := Function.update s.buffers s.rdh (frame ++ (s.buffers s.rdh).drop frame.length)
    descs := Function.update s.descs s.rdh
      { length := UInt16.ofNat frame.length, status := (s.descs s.rdh).status ||| 0x01 }
    rdh := next e1000NumRxDesc s.rdh }

/-- A frame arrives. The card drops it while it may not receive, where it is longer than a buffer,
and where head equals tail. -/
def nicReceive (s : RxState) (frame : List UInt8) : RxState :=
  if !s.receiving || e1000BufferSize < frame.length || s.rdh = s.rdt then s else nicFill s frame

def e1000Disable (s : RxState) : RxState := { s with receiving := false, active := false }

inductive RxEvent
  | poll
  | driver
  | arrive (frame : List UInt8)
  | disable
  deriving DecidableEq, Repr

/-- One step of the driver or the card. The driver makes one call after the other. -/
def rxStep (s : RxState) : RxEvent → RxState
  | .poll => if s.call = none ∧ s.active then { s with call := some .check } else s
  | .driver =>
    match s.call with
    | none => s
    | some stage => pollStep s stage
  | .arrive frame => nicReceive s frame
  | .disable => e1000Disable s

/-! ### The queue of frames -/

def frameAt (s : RxState) (i : ℕ) : List UInt8 := (s.buffers i).take (s.descs i).length.toNat

/-- The frames that the card has filled in and the driver has not handed out. -/
def pending (s : RxState) : List (List UInt8) := window e1000NumRxDesc (frameAt s) s.rxCur s.rdh

/-- The ring as a queue of frames. -/
def view (s : RxState) : BoundedQueue (List UInt8) := ⟨pending s, s.answers⟩

/-- What a step is for the queue: a frame that arrives is offered to it, and a poll takes from it
when it hands its frame out or finds the done bit clear. -/
def queueOps (s : RxState) : RxEvent → List (BoundedQueue.Op (List UInt8))
  | .arrive frame =>
    if s.receiving ∧ frame.length ≤ e1000BufferSize then [.offer frame] else []
  | .driver =>
    match s.call with
    | some .check => if (s.descs s.rxCur).done then [] else [.take]
    | some (.tail _) => [.take]
    | _ => []
  | _ => []

/-- What the call in progress relies on. -/
def Reads (s : RxState) : RxStage → Prop
  | .check => True
  | .length => s.rxCur ≠ s.rdh
  | .copy pktLen => s.rxCur ≠ s.rdh ∧ pktLen = (s.descs s.rxCur).length
  | .status out | .tail out => s.rxCur ≠ s.rdh ∧ out = frameAt s s.rxCur

/-- The slot lies from the driver's index up to the head. -/
def InWindow (s : RxState) (i : ℕ) : Prop :=
  count e1000NumRxDesc s.rxCur i < count e1000NumRxDesc s.rxCur s.rdh

/-- The call in progress has cleared the mark of its slot. -/
def Cleared (s : RxState) : Prop := ∃ out, s.call = some (.tail out)

/-- The ring between two steps: the tail is one slot behind the driver, and the slots marked done
are those from the driver's index up to the head. -/
structure RxInv (s : RxState) : Prop where
  cur_lt : s.rxCur < e1000NumRxDesc
  head_lt : s.rdh < e1000NumRxDesc
  tail_lt : s.rdt < e1000NumRxDesc
  gap : next e1000NumRxDesc s.rdt = s.rxCur
  marked : ∀ i < e1000NumRxDesc,
    (s.descs i).done = true ↔ InWindow s i ∧ ¬ (Cleared s ∧ i = s.rxCur)
  call : ∀ stage, s.call = some stage → Reads s stage

variable {s s' : RxState} {out : List UInt8} {i j : ℕ}

theorem next_inj (hi : i < e1000NumRxDesc) (hj : j < e1000NumRxDesc)
    (h : next e1000NumRxDesc i = next e1000NumRxDesc j) : i = j := by
  rcases next_cases hi with h₁ | h₁ <;> rcases next_cases hj with h₂ | h₂ <;> omega

theorem inWindow_cur (h : RxInv s) : InWindow s s.rxCur ↔ s.rxCur ≠ s.rdh := by
  have hcur := h.cur_lt
  have hhead := h.head_lt
  unfold InWindow
  rcases count_cases e1000NumRxDesc s.rxCur s.rxCur with h₁ | h₁ <;>
    rcases count_cases e1000NumRxDesc s.rxCur s.rdh with h₂ | h₂ <;> omega

/-- Taking the slot at the driver's index out of the window. -/
theorem count_next_lt_iff (hcur : s.rxCur < e1000NumRxDesc) (hhead : s.rdh < e1000NumRxDesc)
    (hne : s.rxCur ≠ s.rdh) (hi : i < e1000NumRxDesc) :
    count e1000NumRxDesc (next e1000NumRxDesc s.rxCur) i <
        count e1000NumRxDesc (next e1000NumRxDesc s.rxCur) s.rdh ↔
      InWindow s i ∧ i ≠ s.rxCur := by
  unfold InWindow
  rcases next_cases hcur with hn | hn <;>
    rcases count_cases e1000NumRxDesc s.rxCur i with h₁ | h₁ <;>
      rcases count_cases e1000NumRxDesc s.rxCur s.rdh with h₂ | h₂ <;>
        rcases count_cases e1000NumRxDesc (next e1000NumRxDesc s.rxCur) i with h₃ | h₃ <;>
          rcases count_cases e1000NumRxDesc (next e1000NumRxDesc s.rxCur) s.rdh with h₄ | h₄ <;>
            omega

theorem count_lt_next_iff (hcur : s.rxCur < e1000NumRxDesc) (hhead : s.rdh < e1000NumRxDesc)
    (hne : next e1000NumRxDesc s.rdh ≠ s.rxCur) (hi : i < e1000NumRxDesc) :
    count e1000NumRxDesc s.rxCur i < count e1000NumRxDesc s.rxCur (next e1000NumRxDesc s.rdh) ↔
      InWindow s i ∨ i = s.rdh := by
  unfold InWindow
  rcases next_cases hhead with hn | hn <;>
    rcases count_cases e1000NumRxDesc s.rxCur i with h₁ | h₁ <;>
      rcases count_cases e1000NumRxDesc s.rxCur s.rdh with h₂ | h₂ <;>
        rcases count_cases e1000NumRxDesc s.rxCur (next e1000NumRxDesc s.rdh) with h₃ | h₃ <;> omega

theorem RxInv.start (buffers : ℕ → List UInt8) : RxInv (rxStart buffers) where
  cur_lt := (by decide : 0 < e1000NumRxDesc)
  head_lt := (by decide : 0 < e1000NumRxDesc)
  tail_lt := (by decide : e1000NumRxDesc - 1 < e1000NumRxDesc)
  gap := (by decide : next e1000NumRxDesc (e1000NumRxDesc - 1) = 0)
  marked i _ := by
    refine iff_of_false (by decide : ¬ RxDesc.done ⟨0, 0⟩ = true) fun hin => ?_
    exact absurd hin.1 (by simp [InWindow, rxStart, count])
  call _ h := nomatch h

theorem RxInv.congr (h : RxInv s) (hdescs : s'.descs = s.descs) (hcur : s'.rxCur = s.rxCur)
    (hrdh : s'.rdh = s.rdh) (hrdt : s'.rdt = s.rdt) (hclear : ¬ Cleared s) (hclear' : ¬ Cleared s')
    (hcall : ∀ stage, s'.call = some stage → Reads s' stage) : RxInv s' where
  cur_lt := hcur ▸ h.cur_lt
  head_lt := hrdh ▸ h.head_lt
  tail_lt := hrdt ▸ h.tail_lt
  gap := by rw [hrdt, hcur, h.gap]
  marked i hi := by
    have hm := h.marked i hi
    simp only [hclear, false_and, not_false_eq_true, and_true] at hm
    simp only [hclear', false_and, not_false_eq_true, and_true, InWindow, hcur, hrdh, hdescs]
    exact hm
  call := hcall

theorem RxInv.poll (h : RxInv s) : RxInv (rxStep s .poll) := by
  rw [rxStep]
  split
  next hidle =>
    refine h.congr rfl rfl rfl rfl ?_ ?_ ?_
    · rintro ⟨out, hcall⟩
      rw [hidle.1] at hcall
      cases hcall
    · rintro ⟨out, hcall⟩
      cases hcall
    · rintro stage ⟨⟩
      trivial
  next => exact h

theorem RxInv.disable (h : RxInv s) : RxInv (rxStep s .disable) :=
  ⟨h.cur_lt, h.head_lt, h.tail_lt, h.gap, h.marked, h.call⟩

theorem RxInv.done_iff (h : RxInv s) (hclear : ¬ Cleared s) :
    (s.descs s.rxCur).done = true ↔ s.rxCur ≠ s.rdh := by
  rw [h.marked _ h.cur_lt, inWindow_cur h]
  simp only [hclear, not_false_eq_true, and_true]

theorem done_clear (d : RxDesc) : ({ d with status := 0 } : RxDesc).done = false :=
  (by decide : ((0 : UInt8) &&& 0x01 != 0) = false)

theorem done_mark (n : UInt16) (st : UInt8) :
    (RxDesc.mk n (st ||| 0x01)).done = true := by
  unfold RxDesc.done
  rw [bne_iff_ne]
  intro heq
  have hbit := congrArg (fun b : UInt8 => b.toBitVec.getLsbD 0) heq
  simp at hbit

theorem frameAt_clear (s : RxState) (stage : Option RxStage) (i : ℕ) :
    frameAt { s with
      descs := Function.update s.descs s.rxCur { s.descs s.rxCur with status := 0 }
      call := stage } i = frameAt s i := by
  unfold frameAt
  dsimp only
  by_cases hi : i = s.rxCur
  · rw [hi, Function.update_self]
  · rw [Function.update_of_ne hi]

theorem notCleared {stage : RxStage} (hcall : s.call = some stage)
    (hstage : ∀ out, stage ≠ .tail out) : ¬ Cleared s := by
  rintro ⟨out, htail⟩
  exact hstage out (Option.some.inj (hcall.symm.trans htail))

theorem RxInv.driver (h : RxInv s) {stage : RxStage} (hcall : s.call = some stage) :
    RxInv (pollStep s stage) := by
  have hreads := h.call stage hcall
  cases stage with
  | check =>
    have hclear := notCleared hcall (by simp)
    rw [pollStep]
    split
    · next hdone =>
      refine h.congr rfl rfl rfl rfl hclear (notCleared rfl (by simp)) ?_
      rintro stage ⟨⟩
      exact (h.done_iff hclear).mp hdone
    · refine h.congr rfl rfl rfl rfl hclear ?_ fun _ hnone => nomatch hnone
      rintro ⟨out, hnone⟩
      cases hnone
  | length =>
    have hclear := notCleared hcall (by simp)
    refine h.congr rfl rfl rfl rfl hclear (notCleared rfl (by simp)) ?_
    rintro stage ⟨⟩
    exact ⟨hreads, rfl⟩
  | copy pktLen =>
    have hclear := notCleared hcall (by simp)
    refine h.congr rfl rfl rfl rfl hclear (notCleared rfl (by simp)) ?_
    rintro stage ⟨⟩
    exact ⟨hreads.1, by rw [hreads.2]; rfl⟩
  | status out =>
    have hclear := notCleared hcall (by simp)
    refine ⟨h.cur_lt, h.head_lt, h.tail_lt, h.gap, fun i hi => ?_, ?_⟩
    · by_cases hcur : i = s.rxCur
      · rw [hcur]
        dsimp only [pollStep]
        rw [Function.update_self]
        exact iff_of_false (by rw [done_clear]; decide) fun hin => hin.2 ⟨⟨out, rfl⟩, rfl⟩
      · have hm := h.marked i hi
        dsimp only [pollStep]
        rw [Function.update_of_ne hcur, hm]
        exact and_congr_right fun _ => iff_of_true (fun hin => hcur hin.2) fun hin => hcur hin.2
    · rintro stage ⟨⟩
      exact ⟨hreads.1, hreads.2.trans (frameAt_clear ..).symm⟩
  | tail out =>
    refine ⟨next_lt h.cur_lt, h.head_lt, h.cur_lt, rfl, fun i hi => ?_,
      fun _ hnone => nomatch hnone⟩
    have hm := h.marked i hi
    dsimp only [pollStep]
    rw [hm]
    unfold InWindow
    dsimp only
    rw [count_next_lt_iff h.cur_lt h.head_lt hreads.1 hi]
    constructor
    · rintro ⟨hin, hcur⟩
      refine ⟨⟨hin, fun heq => hcur ⟨⟨out, hcall⟩, heq⟩⟩, ?_⟩
      rintro ⟨⟨out, hnone⟩, -⟩
      cases hnone
    · rintro ⟨⟨hin, hne⟩, -⟩
      exact ⟨hin, fun hcur => hne hcur.2⟩

/-- A call that runs to its end takes the oldest frame from the queue, and one that finds nothing
answers for an empty queue. -/
theorem view_driver (h : RxInv s) :
    view (rxStep s .driver) =
      run (BoundedQueue.step (e1000NumRxDesc - 1)) (view s) (queueOps s .driver) := by
  rw [rxStep, queueOps]
  cases hcall : s.call with
  | none => rfl
  | some stage =>
    have hreads := h.call stage hcall
    cases stage with
    | check =>
      have hdone := h.done_iff (notCleared hcall (by simp))
      dsimp only
      rw [pollStep]
      split
      · rfl
      · next hempty =>
        rw [hdone, not_not] at hempty
        simp only [view, pending, hempty, window_self, run_cons, run_nil, BoundedQueue.step,
          List.tail_nil, List.head?_nil]
    | length => rfl
    | copy pktLen => rfl
    | status out =>
      dsimp only
      rw [run_nil, view, view, pending, pending, pollStep]
      congr 1
      exact List.map_congr_left fun i _ => frameAt_clear ..
    | tail out =>
      have hsplit : window e1000NumRxDesc (frameAt s) s.rxCur s.rdh =
          frameAt s s.rxCur ::
            window e1000NumRxDesc (frameAt s) (next e1000NumRxDesc s.rxCur) s.rdh :=
        window_next_head h.cur_lt h.head_lt hreads.1
      dsimp only
      rw [run_cons, run_nil, BoundedQueue.step, view, view, pending, pending, hsplit, hreads.2]
      rfl

theorem frameAt_nicFill_self {frame : List UInt8} (hlen : frame.length ≤ e1000BufferSize) :
    frameAt (nicFill s frame) s.rdh = frame := by
  have hlength : (UInt16.ofNat frame.length).toNat = frame.length := by
    rw [UInt16.toNat_ofNat', Nat.mod_eq_of_lt (lt_of_le_of_lt hlen (by decide))]
  unfold frameAt nicFill
  dsimp only
  rw [Function.update_self, Function.update_self, hlength, List.take_left']
  rfl

theorem frameAt_nicFill_of_ne {frame : List UInt8} (hi : i ≠ s.rdh) :
    frameAt (nicFill s frame) i = frameAt s i := by
  unfold frameAt nicFill
  dsimp only
  rw [Function.update_of_ne hi, Function.update_of_ne hi]

theorem RxInv.nicFill (h : RxInv s) (frame : List UInt8)
    (hroom : next e1000NumRxDesc s.rdh ≠ s.rxCur) : RxInv (nicFill s frame) where
  cur_lt := h.cur_lt
  head_lt := next_lt h.head_lt
  tail_lt := h.tail_lt
  gap := h.gap
  marked i hi := by
    have hwindow := count_lt_next_iff h.cur_lt h.head_lt hroom hi
    have hiff : InWindow (RxRing.nicFill s frame) i ↔ InWindow s i ∨ i = s.rdh := hwindow
    by_cases hhead : i = s.rdh
    · have hdone : ((RxRing.nicFill s frame).descs i).done = true := by
        rw [hhead, RxRing.nicFill]
        dsimp only
        rw [Function.update_self]
        exact done_mark ..
      refine iff_of_true hdone ⟨hiff.mpr (Or.inr hhead), ?_⟩
      rintro ⟨⟨out, hcall⟩, hcur⟩
      exact (h.call _ hcall).1 (hcur.symm.trans hhead)
    · have hsame : (RxRing.nicFill s frame).descs i = s.descs i := Function.update_of_ne hhead ..
      rw [hsame, h.marked i hi, hiff]
      exact and_congr_left fun _ => (or_iff_left hhead).symm
  call stage hcall := by
    have hreads := h.call stage hcall
    have hnext : s.rxCur ≠ next e1000NumRxDesc s.rdh := hroom.symm
    cases stage with
    | check => trivial
    | length => exact hnext
    | copy pktLen =>
      refine ⟨hnext, hreads.2.trans ?_⟩
      exact congrArg RxDesc.length (Function.update_of_ne hreads.1 ..).symm
    | status out | tail out =>
      exact ⟨hnext, hreads.2.trans (frameAt_nicFill_of_ne hreads.1).symm⟩

theorem arrive_step (h : RxInv s) (frame : List UInt8) :
    RxInv (rxStep s (.arrive frame)) ∧ view (rxStep s (.arrive frame)) =
      run (BoundedQueue.step (e1000NumRxDesc - 1)) (view s) (queueOps s (.arrive frame)) := by
  have hgap : next e1000NumRxDesc s.rdh = s.rxCur ↔ s.rdh = s.rdt :=
    ⟨fun heq => next_inj h.head_lt h.tail_lt (heq.trans h.gap.symm),
      fun heq => by rw [heq, h.gap]⟩
  have hfull := next_tail_eq_head_iff h.cur_lt h.head_lt
  rw [hgap] at hfull
  rw [rxStep, queueOps, nicReceive]
  by_cases haccept : s.receiving ∧ frame.length ≤ e1000BufferSize
  · rw [if_pos haccept, run_cons, run_nil, BoundedQueue.step]
    by_cases htail : s.rdh = s.rdt
    · rw [if_pos (by simp [htail]),
        if_neg (by rw [view, pending, length_window]; exact hfull.mp htail)]
      exact ⟨h, rfl⟩
    · have hroom : (view s).waiting.length < e1000NumRxDesc - 1 := by
        rw [view, pending, length_window]
        exact not_not.mp (mt hfull.mpr htail)
      have hne : next e1000NumRxDesc s.rdh ≠ s.rxCur := mt hgap.mp htail
      rw [if_neg (by simp [htail, haccept.1, haccept.2]), if_pos hroom]
      refine ⟨h.nicFill frame hne, ?_⟩
      have hkept : window e1000NumRxDesc (frameAt (RxRing.nicFill s frame)) s.rxCur s.rdh =
          window e1000NumRxDesc (frameAt s) s.rxCur s.rdh :=
        window_congr h.cur_lt h.head_lt fun i hi => frameAt_nicFill_of_ne hi
      have hgrown : window e1000NumRxDesc (frameAt (RxRing.nicFill s frame)) s.rxCur
          (next e1000NumRxDesc s.rdh) =
            window e1000NumRxDesc (frameAt (RxRing.nicFill s frame)) s.rxCur s.rdh ++
              [frameAt (RxRing.nicFill s frame) s.rdh] :=
        window_next_tail h.cur_lt h.head_lt hne
      rw [hkept, frameAt_nicFill_self haccept.2] at hgrown
      exact congrArg (BoundedQueue.mk · s.answers) hgrown
  · rw [if_pos, if_neg haccept]
    · exact ⟨h, rfl⟩
    · by_cases hrecv : s.receiving
      · have hlong : e1000BufferSize < frame.length := by
          by_contra hle
          exact haccept ⟨hrecv, Nat.le_of_not_lt hle⟩
        simp [hlong]
      · simp [hrecv]

theorem RxInv.step (h : RxInv s) (e : RxEvent) : RxInv (rxStep s e) := by
  cases e with
  | poll => exact h.poll
  | driver =>
    rw [rxStep]
    cases hcall : s.call with
    | none => exact h
    | some stage => exact h.driver hcall
  | arrive frame => exact (arrive_step h frame).1
  | disable => exact h.disable

theorem view_step (h : RxInv s) (e : RxEvent) :
    view (rxStep s e) = run (BoundedQueue.step (e1000NumRxDesc - 1)) (view s) (queueOps s e) := by
  cases e with
  | poll =>
    rw [rxStep]
    split <;> rfl
  | driver => exact view_driver h
  | arrive frame => exact (arrive_step h frame).2
  | disable => rfl

/-- The frames of the run that reach a receiving card and fit a buffer. -/
def arrivals : RxState → List RxEvent → List (List UInt8)
  | _, [] => []
  | s, e :: es => BoundedQueue.offered (queueOps s e) ++ arrivals (rxStep s e) es

/-- What the calls of `e1000_poll_packet` have handed out. -/
def handedOut (s : RxState) : List (List UInt8) := s.answers.reduceOption

/-- No frame arrives while 63 frames wait. -/
def HasRoom (s : RxState) : RxEvent → Prop
  | .arrive frame =>
    s.receiving ∧ frame.length ≤ e1000BufferSize → (pending s).length < e1000NumRxDesc - 1
  | _ => True

theorem offered_trace (s : RxState) (es : List RxEvent) :
    BoundedQueue.offered (trace rxStep queueOps s es) = arrivals s es := by
  induction es generalizing s with
  | nil => rfl
  | cons e es ih => rw [trace, BoundedQueue.offered_append, arrivals, ih]

theorem fits_iff (s : RxState) (e : RxEvent) :
    AllSteps (BoundedQueue.step (e1000NumRxDesc - 1)) (BoundedQueue.Fits (e1000NumRxDesc - 1))
      (view s) (queueOps s e) ↔ HasRoom s e := by
  cases e with
  | poll => exact Iff.rfl
  | driver =>
    refine iff_of_true ?_ trivial
    rw [queueOps]
    split
    · split
      · trivial
      · exact ⟨trivial, trivial⟩
    · exact ⟨trivial, trivial⟩
    · trivial
  | arrive frame =>
    rw [queueOps, HasRoom]
    split
    · next h =>
      rw [allSteps_cons, forall_prop_of_true h]
      exact and_iff_left trivial
    · next h => exact iff_of_true trivial fun haccept => absurd haccept h
  | disable => exact Iff.rfl

/-- In every interleaving of polls, their statements, arrivals and `e1000_disable`, the ring is a
queue of at most 63 frames: the polls hand out the frames that arrived, whole, once and in order,
and none is missing exactly as long as none arrives while 63 wait. -/
theorem rx_ring_queue (buffers : ℕ → List UInt8) (es : List RxEvent) :
    view (run rxStep (rxStart buffers) es) =
        run (BoundedQueue.step (e1000NumRxDesc - 1)) BoundedQueue.empty
          (trace rxStep queueOps (rxStart buffers) es) ∧
      (handedOut (run rxStep (rxStart buffers) es) ++
          pending (run rxStep (rxStart buffers) es)).Sublist (arrivals (rxStart buffers) es) ∧
      (handedOut (run rxStep (rxStart buffers) es) ++ pending (run rxStep (rxStart buffers) es) =
          arrivals (rxStart buffers) es ↔
        AllSteps rxStep HasRoom (rxStart buffers) es) := by
  have hempty : view (rxStart buffers) = BoundedQueue.empty := by
    rw [view, pending, rxStart, window_self]
    rfl
  have hview : view (run rxStep (rxStart buffers) es) =
      run (BoundedQueue.step (e1000NumRxDesc - 1)) (view (rxStart buffers))
        (trace rxStep queueOps (rxStart buffers) es) :=
    run_view (fun _ e h => RxInv.step h e) (fun _ e h => view_step h e) (RxInv.start buffers) es
  have hsteps : AllSteps (BoundedQueue.step (e1000NumRxDesc - 1))
      (BoundedQueue.Fits (e1000NumRxDesc - 1)) (view (rxStart buffers))
        (trace rxStep queueOps (rxStart buffers) es) ↔ _ :=
    allSteps_trace (fun _ e h => RxInv.step h e) (fun _ e h => view_step h e)
      (RxInv.start buffers) es
  simp only [fits_iff] at hsteps
  rw [hempty] at hview hsteps
  have hsub := BoundedQueue.taken_append_waiting_sublist (e1000NumRxDesc - 1) BoundedQueue.empty
    (trace rxStep queueOps (rxStart buffers) es)
  have hiff := BoundedQueue.taken_append_waiting_eq_iff (e1000NumRxDesc - 1) BoundedQueue.empty
    (trace rxStep queueOps (rxStart buffers) es)
  rw [← hview, offered_trace] at hsub hiff
  exact ⟨hview, hsub, hiff.trans hsteps⟩

end StyxOS.RxRing
