import Mathlib.Data.List.Infix
import StyxOS.Xhci.Ring

/-! # Transfers and their completions

`xhci_control` and the bulk transfers over a controller that posts one transfer
event for each TRB with the IOC flag, in order and whenever it likes. The driver
takes the events in their order and does not look which TRB they are for.
-/

namespace StyxOS.Xhci

open StepSystem

/-! ### TRBs -/

def trbTypeNormal : UInt32 := 1
def trbTypeSetupStage : UInt32 := 2
def trbTypeDataStage : UInt32 := 3
def trbTypeStatusStage : UInt32 := 4

def trbFlagIoc : UInt32 := (1 : UInt32) <<< 5
def trbFlagIsp : UInt32 := (1 : UInt32) <<< 2

def trbSetupTrtNoData : UInt32 := 0
def trbSetupTrtOut : UInt32 := 2
def trbSetupTrtIn : UInt32 := 3

def trbCcSuccess : UInt8 := 1
def trbCcShortPacket : UInt8 := 13

def XhciTrb.ioc (t : XhciTrb) : Bool := t.dword3 &&& trbFlagIoc != 0

/-- The arguments of `xhci_control`; the buffer is its physical address, if there is one. -/
structure ControlRequest where
  bmReqType : UInt8
  bReq : UInt8
  wValue : UInt16
  wIndex : UInt16
  wLength : UInt16
  buf : Option UInt64
  len : UInt64

namespace ControlRequest

variable (q : ControlRequest)

def isIn : Bool := q.bmReqType &&& 0x80 != 0

def setupTrb : XhciTrb :=
  let trt :=
    if q.len ≠ 0 then if q.isIn then trbSetupTrtIn else trbSetupTrtOut else trbSetupTrtNoData
  { dword0 := q.bmReqType.toUInt32 ||| q.bReq.toUInt32 <<< 8 ||| q.wValue.toUInt32 <<< 16
    dword1 := q.wIndex.toUInt32 ||| q.wLength.toUInt32 <<< 16
    dword2 := 8
    dword3 := trbDword3 trbTypeSetupStage 0 ||| trt <<< 16 ||| trbFlagIoc ||| (1 : UInt32) <<< 6 }

def dataTrb (phys : UInt64) : XhciTrb where
  dword0 := (phys &&& 0xFFFFFFFF).toUInt32
  dword1 := (phys >>> 32).toUInt32
  dword2 := q.len.toUInt32
  dword3 := trbDword3 trbTypeDataStage 0 ||| (if q.isIn then (1 : UInt32) <<< 16 else 0) |||
    trbFlagIoc

def statusTrb : XhciTrb where
  dword0 := 0
  dword1 := 0
  dword2 := 0
  dword3 := trbDword3 trbTypeStatusStage 0 |||
    (if q.len ≠ 0 ∧ q.isIn = false then (1 : UInt32) <<< 16 else 0) ||| trbFlagIoc

/-- The TRBs that `xhci_control` queues. -/
def trbs : List XhciTrb :=
  match q.buf with
  | some phys => if q.len ≠ 0 then [q.setupTrb, q.dataTrb phys, q.statusTrb]
    else [q.setupTrb, q.statusTrb]
  | none => [q.setupTrb, q.statusTrb]

end ControlRequest

/-- The TRB that `bulk_xfer` queues. -/
def bulkTrb (phys len : UInt64) : XhciTrb where
  dword0 := (phys &&& 0xFFFFFFFF).toUInt32
  dword1 := (phys >>> 32).toUInt32
  dword2 := len.toUInt32
  dword3 := trbDword3 trbTypeNormal 0 ||| trbFlagIoc ||| trbFlagIsp

/-! ### Events -/

/-- An entry of the event ring: a transfer event with its completion code, or another type. -/
inductive Event
  | transfer (cc : UInt8)
  | other (type : UInt8)
  deriving DecidableEq, Repr

def transferCodes (ring : List Event) : List UInt8 :=
  ring.filterMap fun
    | .transfer cc => some cc
    | .other _ => none

/-- The driver with its controller: whether the bulk rings are set up, how many TRBs with the IOC
flag have been queued, the codes of those the controller has completed, and the events that were not
taken yet. -/
structure Completions where
  bulkOutRing : Bool
  bulkInRing : Bool
  queued : ℕ
  completed : List UInt8
  events : List Event

namespace Completions

/-- The controller posts an event. A transfer event is for the first TRB that is not completed. -/
def post (s : Completions) : Event → Completions
  | .transfer cc =>
    if s.completed.length < s.queued then
      { s with completed := s.completed ++ [cc], events := s.events ++ [.transfer cc] }
    else s
  | .other type => { s with events := s.events ++ [.other type] }

def posts (s : Completions) (es : List Event) : Completions := es.foldl post s

/-- `ring_enqueue` of TRBs. -/
def queue (s : Completions) (ts : List XhciTrb) : Completions :=
  { s with queued := s.queued + ts.countP XhciTrb.ioc }

end Completions

/-- The code at a place is there, and is that of success or of a short packet. -/
def GoodAt (codes : List UInt8) (n : ℕ) : Prop :=
  ∃ cc, codes[n]? = some cc ∧ (cc = trbCcSuccess ∨ cc = trbCcShortPacket)

/-- The TRB with a number, counted from zero, has completed with success or a short packet. -/
def Completions.Succeeded (s : Completions) (n : ℕ) : Prop := GoodAt s.completed n

/-- What the controller posts before each of the polls of a call. -/
abbrev Posting := ℕ → List Event

/-- The polls of `wait_transfer_complete`. -/
def maxPolls : ℕ := 2000000

/-- `wait_transfer_complete` with as many polls left. -/
def waitTransferComplete : ℕ → Posting → Completions → Bool × Completions
  | 0, _, s => (false, s)
  | n + 1, ctrl, s =>
    let s := s.posts (ctrl 0)
    match s.events with
    | [] => waitTransferComplete n (fun i => ctrl (i + 1)) s
    | .other _ :: rest =>
      waitTransferComplete n (fun i => ctrl (i + 1)) { s with events := rest }
    | .transfer cc :: rest =>
      (cc == trbCcSuccess || cc == trbCcShortPacket, { s with events := rest })

/-- Queueing TRBs, ringing the doorbell and waiting for an event. -/
def submit (s : Completions) (ts : List XhciTrb) (ctrl : Posting) : ℤ × Completions :=
  let (ok, s) := waitTransferComplete maxPolls ctrl (s.queue ts)
  (if ok then 0 else -1, s)

def xhciControl (q : ControlRequest) (ctrl : Posting) (s : Completions) : ℤ × Completions :=
  submit s q.trbs ctrl

def bulkXfer (ring : Bool) (phys len : UInt64) (ctrl : Posting) (s : Completions) :
    ℤ × Completions :=
  if !ring then (-1, s) else submit s [bulkTrb phys len] ctrl

def xhciBulkOut (phys len : UInt64) (ctrl : Posting) (s : Completions) : ℤ × Completions :=
  bulkXfer s.bulkOutRing phys len ctrl s

def xhciBulkIn (phys len : UInt64) (ctrl : Posting) (s : Completions) : ℤ × Completions :=
  bulkXfer s.bulkInRing phys len ctrl s

/-! ### Calls -/

inductive XferCall
  | control (q : ControlRequest)
  | bulkOut (phys len : UInt64)
  | bulkIn (phys len : UInt64)

namespace XferCall

def exec (s : Completions) (ctrl : Posting) : XferCall → ℤ × Completions
  | control q => xhciControl q ctrl s
  | bulkOut phys len => xhciBulkOut phys len ctrl s
  | bulkIn phys len => xhciBulkIn phys len ctrl s

def trbs (s : Completions) : XferCall → List XhciTrb
  | control q => q.trbs
  | bulkOut phys len => if s.bulkOutRing then [bulkTrb phys len] else []
  | bulkIn phys len => if s.bulkInRing then [bulkTrb phys len] else []

end XferCall

/-- One call, with what the controller posts in it. -/
def xferStep (s : Completions) (c : XferCall × Posting) : Completions := (c.1.exec s c.2).2

/-- A call returns zero only if the last TRB that it queued has completed with success or a short
packet. -/
def Matched (s : Completions) (c : XferCall × Posting) : Prop :=
  (c.1.exec s c.2).1 = 0 → (c.1.exec s c.2).2.Succeeded ((c.1.exec s c.2).2.queued - 1)

/-! ### Every TRB asks for an event -/

section

variable (q : ControlRequest)

theorem ioc_setupTrb : q.setupTrb.ioc = true := by
  unfold ControlRequest.setupTrb XhciTrb.ioc
  dsimp only
  split
  · split
    · decide
    · decide
  · decide

theorem ioc_dataTrb (phys : UInt64) : (q.dataTrb phys).ioc = true := by
  unfold ControlRequest.dataTrb XhciTrb.ioc
  dsimp only
  split
  · decide
  · decide

theorem ioc_statusTrb : q.statusTrb.ioc = true := by
  unfold ControlRequest.statusTrb XhciTrb.ioc
  dsimp only
  split
  · decide
  · decide

theorem countP_ioc_control : q.trbs.countP XhciTrb.ioc =
    if q.buf.isSome ∧ q.len ≠ 0 then 3 else 2 := by
  rw [ControlRequest.trbs]
  cases q.buf with
  | none => simp [ioc_setupTrb, ioc_statusTrb]
  | some phys =>
    by_cases hlen : q.len = 0
    · simp [hlen, ioc_setupTrb, ioc_statusTrb]
    · simp [hlen, ioc_setupTrb, ioc_dataTrb, ioc_statusTrb]

theorem countP_ioc_bulk (phys len : UInt64) : [bulkTrb phys len].countP XhciTrb.ioc = 1 := by
  have hioc : (bulkTrb phys len).ioc = true := by
    unfold bulkTrb XhciTrb.ioc
    dsimp only
    decide
  simp [hioc]

end

/-! ### Events that were not taken -/

theorem transferCodes_append (ring ring' : List Event) :
    transferCodes (ring ++ ring') = transferCodes ring ++ transferCodes ring' :=
  List.filterMap_append

namespace Completions

variable {s : Completions}

/-- The events in the ring are for the TRBs that completed last. -/
structure Consistent (s : Completions) : Prop where
  le : s.completed.length ≤ s.queued
  suffix : transferCodes s.events <:+ s.completed

/-- The TRBs whose event the driver has not taken. -/
def outstanding (s : Completions) : ℕ :=
  s.queued - s.completed.length + (transferCodes s.events).length

theorem Consistent.post (h : s.Consistent) (e : Event) :
    (s.post e).Consistent ∧ (s.post e).outstanding = s.outstanding ∧
      (s.post e).queued = s.queued := by
  cases e with
  | other type =>
    have hcodes : transferCodes (s.events ++ [.other type]) = transferCodes s.events := by
      rw [transferCodes_append]
      exact List.append_nil _
    refine ⟨⟨h.le, ?_⟩, ?_, rfl⟩
    · change transferCodes (s.events ++ [.other type]) <:+ _
      rw [hcodes]
      exact h.suffix
    · change _ + (transferCodes (s.events ++ [.other type])).length = _
      rw [hcodes]
      rfl
  | transfer cc =>
    rw [Completions.post]
    split
    · next hlt =>
      have hcodes : transferCodes (s.events ++ [.transfer cc]) =
          transferCodes s.events ++ [cc] := by
        rw [transferCodes_append]
        rfl
      refine ⟨⟨?_, ?_⟩, ?_, rfl⟩
      · simpa using Nat.succ_le_of_lt hlt
      · obtain ⟨pre, hpre⟩ := h.suffix
        exact ⟨pre, by rw [hcodes, ← List.append_assoc, hpre]⟩
      · simp only [outstanding, hcodes, List.length_append, List.length_singleton]
        omega
    · exact ⟨h, rfl, rfl⟩

theorem Consistent.posts (h : s.Consistent) (es : List Event) :
    (s.posts es).Consistent ∧ (s.posts es).outstanding = s.outstanding ∧
      (s.posts es).queued = s.queued := by
  induction es generalizing s with
  | nil => exact ⟨h, rfl, rfl⟩
  | cons e es ih =>
    obtain ⟨hpost, hout, hqueued⟩ := h.post e
    obtain ⟨hposts, hout', hqueued'⟩ := ih hpost
    exact ⟨hposts, hout'.trans hout, hqueued'.trans hqueued⟩

theorem Consistent.queue (h : s.Consistent) (ts : List XhciTrb) :
    (s.queue ts).Consistent ∧
      (s.queue ts).outstanding = s.outstanding + ts.countP XhciTrb.ioc := by
  refine ⟨⟨h.le.trans (Nat.le_add_right _ _), h.suffix⟩, ?_⟩
  have hle := h.le
  simp only [outstanding, Completions.queue]
  omega

/-- Taking the first event. -/
def take (s : Completions) : Completions := { s with events := s.events.tail }

theorem Consistent.take (h : s.Consistent) :
    s.take.Consistent ∧ s.outstanding ≤ s.take.outstanding + 1 ∧
      s.take.outstanding ≤ s.outstanding := by
  cases hs : s.events with
  | nil =>
    have htake : s.take = s := by
      rw [Completions.take, hs, List.tail_nil, ← hs]
    rw [htake]
    exact ⟨h, Nat.le_succ _, le_rfl⟩
  | cons e rest =>
    have hsuffix := h.suffix
    rw [hs] at hsuffix
    cases e with
    | other type =>
      have hcodes : transferCodes (.other type :: rest) = transferCodes rest := rfl
      refine ⟨⟨h.le, ?_⟩, ?_⟩
      · rw [Completions.take, hs]
        exact hsuffix
      · simp only [outstanding, Completions.take, hs, hcodes, List.tail_cons]
        omega
    | transfer cc =>
      have hcodes : transferCodes (.transfer cc :: rest) = cc :: transferCodes rest := rfl
      refine ⟨⟨h.le, ?_⟩, ?_⟩
      · rw [Completions.take, hs]
        exact (List.suffix_cons cc _).trans hsuffix
      · simp only [outstanding, Completions.take, hs, hcodes, List.tail_cons, List.length_cons]
        omega

theorem Consistent.outstanding_take (_ : s.Consistent)
    (hs : ∀ cc rest, s.events ≠ .transfer cc :: rest) : s.take.outstanding = s.outstanding := by
  cases he : s.events with
  | nil => rw [outstanding, outstanding, Completions.take, he, List.tail_nil]
  | cons e rest =>
    cases e with
    | other type =>
      rw [outstanding, outstanding, Completions.take, he, List.tail_cons]
      rfl
    | transfer cc => exact absurd he (hs cc rest)

theorem Consistent.succeeded_iff (h : s.Consistent) (hout : 0 < s.outstanding) :
    s.Succeeded (s.queued - 1) ↔ GoodAt (transferCodes s.events) (s.outstanding - 1) := by
  obtain ⟨pre, hpre⟩ := h.suffix
  have hle := h.le
  rw [← hpre, List.length_append] at hle
  rw [outstanding, ← hpre, List.length_append] at hout ⊢
  have hlast : s.queued - 1 = pre.length +
      (s.queued - (pre.length + (transferCodes s.events).length) +
        (transferCodes s.events).length - 1) := by omega
  rw [Succeeded, GoodAt, GoodAt, ← hpre, hlast, List.getElem?_append_right (Nat.le_add_right _ _),
    Nat.add_sub_cancel_left]

theorem Consistent.succeeded_of_outstanding (h : s.Consistent) (hout : s.outstanding ≤ 1)
    {cc : UInt8} {rest : List Event} (hs : s.events = .transfer cc :: rest)
    (hcc : cc = trbCcSuccess ∨ cc = trbCcShortPacket) : s.Succeeded (s.queued - 1) := by
  have hcodes : transferCodes s.events = cc :: transferCodes rest := by rw [hs]; rfl
  have hone : s.outstanding = 1 := by
    rw [outstanding, hcodes, List.length_cons] at hout ⊢
    omega
  refine (h.succeeded_iff (by omega)).mpr ⟨cc, ?_, hcc⟩
  rw [hcodes, hone]
  rfl

end Completions

/-! ### Waiting -/

/-- The driver before a poll, where the polls before it found no transfer event. -/
def pollAt : Posting → Completions → ℕ → Completions
  | ctrl, s, 0 => s.posts (ctrl 0)
  | ctrl, s, n + 1 => pollAt (fun i => ctrl (i + 1)) (s.posts (ctrl 0)).take n

/-- The poll takes a transfer event with the code, the first that the wait finds. -/
structure TakenAt (ctrl : Posting) (s : Completions) (n : ℕ) (cc : UInt8) : Prop where
  first : ∀ j < n, ∀ cc' rest, (pollAt ctrl s j).events ≠ .transfer cc' :: rest
  taken : ∃ rest, (pollAt ctrl s n).events = .transfer cc :: rest

section

variable {ctrl : Posting} {s : Completions} {n N : ℕ} {cc : UInt8}

theorem waitTransferComplete_succ
    (h : ∀ cc rest, (s.posts (ctrl 0)).events ≠ .transfer cc :: rest) :
    waitTransferComplete (N + 1) ctrl s =
      waitTransferComplete N (fun i => ctrl (i + 1)) (s.posts (ctrl 0)).take := by
  rw [waitTransferComplete]
  cases hs : (s.posts (ctrl 0)).events with
  | nil =>
    have htake : (s.posts (ctrl 0)).take = s.posts (ctrl 0) := by
      rw [Completions.take, hs, List.tail_nil, ← hs]
    rw [htake]
  | cons e rest =>
    cases e with
    | other type => rw [Completions.take, hs, List.tail_cons]
    | transfer cc => exact absurd hs (h cc rest)

theorem waitTransferComplete_of_takenAt (h : TakenAt ctrl s n cc) (hn : n < N) :
    waitTransferComplete N ctrl s =
      (cc == trbCcSuccess || cc == trbCcShortPacket, (pollAt ctrl s n).take) := by
  induction n generalizing N ctrl s with
  | zero =>
    obtain ⟨N, rfl⟩ := Nat.exists_eq_succ_of_ne_zero (by omega : N ≠ 0)
    obtain ⟨rest, hrest⟩ := h.taken
    rw [pollAt] at hrest
    rw [waitTransferComplete, hrest, pollAt, Completions.take, hrest]
    rfl
  | succ n ih =>
    obtain ⟨N, rfl⟩ := Nat.exists_eq_succ_of_ne_zero (by omega : N ≠ 0)
    have hrest : TakenAt (fun i => ctrl (i + 1)) (s.posts (ctrl 0)).take n cc :=
      ⟨fun j hj => h.first (j + 1) (by omega), h.taken⟩
    have hwait := ih hrest (by omega : n < N)
    have hnext : waitTransferComplete (N + 1) ctrl s =
        waitTransferComplete N (fun i => ctrl (i + 1)) (s.posts (ctrl 0)).take := by
      have hfirst := h.first 0 (Nat.succ_pos n)
      rw [pollAt] at hfirst
      exact waitTransferComplete_succ hfirst
    exact hnext.trans hwait

theorem TakenAt.succ (hfirst : ∀ cc rest, (s.posts (ctrl 0)).events ≠ .transfer cc :: rest)
    (h : TakenAt (fun i => ctrl (i + 1)) (s.posts (ctrl 0)).take n cc) :
    TakenAt ctrl s (n + 1) cc := by
  refine ⟨fun j hj => ?_, h.taken⟩
  cases j with
  | zero => exact hfirst
  | succ j => exact h.first j (by omega)

theorem exists_takenAt (h : (waitTransferComplete N ctrl s).1 = true) :
    ∃ n < N, ∃ cc, TakenAt ctrl s n cc ∧ (cc = trbCcSuccess ∨ cc = trbCcShortPacket) := by
  induction N generalizing ctrl s with
  | zero => cases h
  | succ N ih =>
    by_cases hfirst : ∀ cc rest, (s.posts (ctrl 0)).events ≠ .transfer cc :: rest
    · rw [waitTransferComplete_succ hfirst] at h
      obtain ⟨n, hn, cc, htaken, hcc⟩ := ih h
      exact ⟨n + 1, by omega, cc, htaken.succ hfirst, hcc⟩
    · push Not at hfirst
      obtain ⟨cc, rest, hs⟩ := hfirst
      have htaken : TakenAt ctrl s 0 cc := ⟨fun j hj => absurd hj (Nat.not_lt_zero j), rest, hs⟩
      rw [waitTransferComplete_of_takenAt htaken (Nat.succ_pos N)] at h
      exact ⟨0, Nat.succ_pos N, cc, htaken, by simpa using h⟩

namespace Completions

theorem Consistent.pollAt (h : s.Consistent) (ctrl : Posting) (n : ℕ) :
    (Xhci.pollAt ctrl s n).Consistent ∧ (Xhci.pollAt ctrl s n).outstanding ≤ s.outstanding ∧
      (Xhci.pollAt ctrl s n).queued = s.queued := by
  induction n generalizing ctrl s with
  | zero =>
    obtain ⟨hposts, hout, hqueued⟩ := h.posts (ctrl 0)
    exact ⟨hposts, hout.le, hqueued⟩
  | succ n ih =>
    obtain ⟨hposts, hout, hqueued⟩ := h.posts (ctrl 0)
    obtain ⟨htake, -, hle⟩ := hposts.take
    obtain ⟨hpoll, hout', hqueued'⟩ := ih htake fun i => ctrl (i + 1)
    exact ⟨hpoll, hout'.trans (hle.trans hout.le), hqueued'.trans hqueued⟩

theorem Consistent.waitTransferComplete (h : s.Consistent) (ctrl : Posting) (N : ℕ) :
    (Xhci.waitTransferComplete N ctrl s).2.Consistent ∧
      s.outstanding ≤ (Xhci.waitTransferComplete N ctrl s).2.outstanding + 1 ∧
      (Xhci.waitTransferComplete N ctrl s).2.queued = s.queued := by
  induction N generalizing ctrl s with
  | zero => exact ⟨h, Nat.le_succ _, rfl⟩
  | succ N ih =>
    obtain ⟨hposts, hout, hqueued⟩ := h.posts (ctrl 0)
    obtain ⟨htake, hle, -⟩ := hposts.take
    by_cases hfirst : ∀ cc rest, (s.posts (ctrl 0)).events ≠ .transfer cc :: rest
    · obtain ⟨hwait, hout', hqueued'⟩ := ih htake fun i => ctrl (i + 1)
      rw [waitTransferComplete_succ hfirst]
      refine ⟨hwait, ?_, hqueued'.trans hqueued⟩
      rw [hposts.outstanding_take hfirst] at hout'
      exact hout ▸ hout'
    · push Not at hfirst
      obtain ⟨cc, rest, hs⟩ := hfirst
      have htaken : TakenAt ctrl s 0 cc := ⟨fun j hj => absurd hj (Nat.not_lt_zero j), rest, hs⟩
      rw [waitTransferComplete_of_takenAt htaken (Nat.succ_pos N)]
      exact ⟨htake, hout ▸ hle, hqueued⟩

end Completions

end

/-! ### The posting schedule -/

namespace Completions

/-- What the controller has put into the ring by a poll, if nothing is taken out. -/
def posted (s : Completions) (ctrl : Posting) (n : ℕ) : List Event :=
  (s.posts ((List.range (n + 1)).flatMap ctrl)).events

/-- By a poll there was time to come to the first transfer event, taking out one event a poll: it
stands at place `k`, and what stands at a place `j` up to it was posted `k - j` polls before. -/
def ComesTo (s : Completions) (ctrl : Posting) (n : ℕ) (cc : UInt8) : Prop :=
  ∃ k, (s.posted ctrl n)[k]? = some (.transfer cc) ∧
    (∀ j < k, ∃ type, (s.posted ctrl n)[j]? = some (.other type)) ∧
    ∀ j ≤ k, ∃ i, i + (k - j) ≤ n ∧ j < (s.posted ctrl i).length

end Completions

section

variable {ctrl : Posting} {s : Completions} {n : ℕ} {cc : UInt8}

namespace Completions

theorem posted_zero : s.posted ctrl 0 = (s.posts (ctrl 0)).events := by simp [posted]

theorem range_flatMap_succ (ctrl : Posting) (n : ℕ) : (List.range (n + 1 + 1)).flatMap ctrl =
    ctrl 0 ++ (List.range (n + 1)).flatMap fun i => ctrl (i + 1) := by
  rw [List.range_succ_eq_map, List.flatMap_cons, List.flatMap_map]

theorem posts_append (s : Completions) (es es' : List Event) :
    s.posts (es ++ es') = (s.posts es).posts es' := List.foldl_append

theorem posted_succ (s : Completions) (ctrl : Posting) (n : ℕ) :
    s.posted ctrl (n + 1) = (s.posts (ctrl 0)).posted (fun i => ctrl (i + 1)) n := by
  rw [posted, posted, range_flatMap_succ, posts_append]

theorem exists_events_posts (s : Completions) (es : List Event) :
    ∃ new, ∀ ring, ({ s with events := ring }.posts es).events = ring ++ new := by
  induction es generalizing s with
  | nil => exact ⟨[], fun ring => (List.append_nil ring).symm⟩
  | cons e es ih =>
    cases e with
    | other type =>
      obtain ⟨new, hnew⟩ := ih s
      refine ⟨.other type :: new, fun ring => ?_⟩
      rw [List.append_cons]
      exact hnew _
    | transfer cc =>
      by_cases hlt : s.completed.length < s.queued
      · obtain ⟨new, hnew⟩ := ih { s with completed := s.completed ++ [cc] }
        refine ⟨.transfer cc :: new, fun ring => ?_⟩
        rw [List.append_cons, ← hnew, posts, posts, List.foldl_cons, post, if_pos hlt]
      · obtain ⟨new, hnew⟩ := ih s
        refine ⟨new, fun ring => ?_⟩
        rw [← hnew, posts, posts, List.foldl_cons, post, if_neg hlt]

theorem posted_isPrefix (s : Completions) (ctrl : Posting) {m n : ℕ} (h : m ≤ n) :
    s.posted ctrl m <+: s.posted ctrl n := by
  obtain ⟨d, rfl⟩ := Nat.exists_eq_add_of_le h
  have hsplit : (List.range (m + d + 1)).flatMap ctrl = (List.range (m + 1)).flatMap ctrl ++
      (List.range d).flatMap fun i => ctrl (m + 1 + i) := by
    rw [Nat.add_right_comm, List.range_add, List.flatMap_append, List.flatMap_map]
  obtain ⟨new, hnew⟩ := exists_events_posts (s.posts ((List.range (m + 1)).flatMap ctrl))
    ((List.range d).flatMap fun i => ctrl (m + 1 + i))
  refine ⟨new, ?_⟩
  rw [posted, posted, hsplit, posts_append]
  exact (hnew _).symm

theorem completed_pollAt (s : Completions) (ctrl : Posting) (n : ℕ) :
    (Xhci.pollAt ctrl s n).completed =
      (s.posts ((List.range (n + 1)).flatMap ctrl)).completed := by
  have hring : ∀ (es : List Event) (s : Completions) (ring : List Event),
      ({ s with events := ring }.posts es).completed = (s.posts es).completed := by
    intro es
    induction es with
    | nil => exact fun _ _ => rfl
    | cons e es ih =>
      intro s ring
      cases e with
      | other type =>
        exact (ih s _).trans (ih s (s.events ++ [.other type])).symm
      | transfer cc =>
        by_cases hlt : s.completed.length < s.queued
        · rw [posts, posts, List.foldl_cons, List.foldl_cons, post, post, if_pos hlt, if_pos hlt]
          exact (ih { s with completed := s.completed ++ [cc] } _).trans
            (ih { s with completed := s.completed ++ [cc] } _).symm
        · rw [posts, posts, List.foldl_cons, List.foldl_cons, post, post, if_neg hlt, if_neg hlt]
          exact ih s ring
  induction n generalizing ctrl s with
  | zero => simp [Xhci.pollAt]
  | succ n ih =>
    rw [Xhci.pollAt, ih, range_flatMap_succ, posts_append]
    exact hring _ (s.posts (ctrl 0)) (s.posts (ctrl 0)).events.tail

/-- By the poll the last TRB has succeeded if the last of the outstanding events is posted and tells
so. -/
theorem Consistent.succeeded_pollAt_iff (h : s.Consistent) (hout : 0 < s.outstanding)
    (ctrl : Posting) (n : ℕ) :
    (Xhci.pollAt ctrl s n).Succeeded (s.queued - 1) ↔
      GoodAt (transferCodes (s.posted ctrl n)) (s.outstanding - 1) := by
  obtain ⟨hposts, hposted, hqueued⟩ := h.posts ((List.range (n + 1)).flatMap ctrl)
  have hlast := hposts.succeeded_iff (by rwa [hposted])
  rw [hposted, hqueued, Succeeded, ← completed_pollAt] at hlast
  exact hlast

/-! The first poll -/

theorem comesTo_of_transfer {cc' : UInt8} {rest : List Event}
    (hs : (s.posts (ctrl 0)).events = .transfer cc' :: rest) : s.ComesTo ctrl n cc ↔ cc' = cc := by
  have hfirst : (s.posted ctrl n)[0]? = some (.transfer cc') := by
    obtain ⟨new, hnew⟩ := s.posted_isPrefix ctrl (Nat.zero_le n)
    rw [← hnew, posted_zero, hs]
    rfl
  constructor
  · rintro ⟨k, hk, hbefore, -⟩
    cases k with
    | zero => exact Event.transfer.inj (Option.some.inj (hfirst.symm.trans hk))
    | succ k =>
      obtain ⟨type, htype⟩ := hbefore 0 (Nat.succ_pos k)
      cases hfirst.symm.trans htype
  · rintro rfl
    refine ⟨0, hfirst, fun j hj => absurd hj (Nat.not_lt_zero j), fun j hj => ⟨0, by omega, ?_⟩⟩
    rw [posted_zero, hs, Nat.le_zero.mp hj]
    exact Nat.succ_pos _

theorem not_comesTo_zero (h : ∀ cc rest, (s.posts (ctrl 0)).events ≠ .transfer cc :: rest) :
    ¬s.ComesTo ctrl 0 cc := by
  rintro ⟨k, hk, -, htime⟩
  obtain ⟨i, hi, -⟩ := htime 0 (Nat.zero_le k)
  obtain rfl : k = 0 := by omega
  rw [posted_zero] at hk
  cases hs : (s.posts (ctrl 0)).events with
  | nil =>
    rw [hs] at hk
    cases hk
  | cons e rest =>
    rw [hs] at hk
    obtain rfl : e = .transfer cc := Option.some.inj hk
    exact h cc rest hs

/-- A poll of an empty ring takes nothing. -/
theorem comesTo_succ_iff_of_nil (hs : (s.posts (ctrl 0)).events = []) :
    s.ComesTo ctrl (n + 1) cc ↔
      (s.posts (ctrl 0)).take.ComesTo (fun i => ctrl (i + 1)) n cc := by
  have htake : (s.posts (ctrl 0)).take = s.posts (ctrl 0) := by
    rw [take, hs, List.tail_nil, ← hs]
  have hzero : s.posted ctrl 0 = [] := by rw [posted_zero, hs]
  rw [htake, ComesTo, ComesTo]
  simp only [posted_succ]
  refine exists_congr fun k => and_congr_right fun _ => and_congr_right fun _ =>
    forall_congr' fun j => forall_congr' fun _ => ⟨?_, ?_⟩
  · rintro ⟨i, hi, hj⟩
    cases i with
    | zero =>
      rw [hzero] at hj
      exact absurd hj (Nat.not_lt_zero j)
    | succ i => exact ⟨i, by omega, by rwa [← posted_succ]⟩
  · rintro ⟨i, hi, hj⟩
    exact ⟨i + 1, by omega, by rwa [posted_succ]⟩

/-- What is posted is the event that the first poll takes, and what is posted without it. -/
theorem posted_succ_of_other {type : UInt8} {rest : List Event}
    (hs : (s.posts (ctrl 0)).events = .other type :: rest) (i : ℕ) :
    s.posted ctrl (i + 1) =
      .other type :: (s.posts (ctrl 0)).take.posted (fun i => ctrl (i + 1)) i := by
  obtain ⟨new, hnew⟩ := exists_events_posts (s.posts (ctrl 0))
    ((List.range (i + 1)).flatMap fun i => ctrl (i + 1))
  have hall : s.posted ctrl (i + 1) = (s.posts (ctrl 0)).events ++ new :=
    (posted_succ s ctrl i).trans (hnew _)
  have htake : (s.posts (ctrl 0)).take.posted (fun i => ctrl (i + 1)) i =
      (s.posts (ctrl 0)).events.tail ++ new := hnew _
  rw [hall, htake, hs]
  rfl

theorem comesTo_succ_iff_of_other {type : UInt8} {rest : List Event}
    (hs : (s.posts (ctrl 0)).events = .other type :: rest) :
    s.ComesTo ctrl (n + 1) cc ↔
      (s.posts (ctrl 0)).take.ComesTo (fun i => ctrl (i + 1)) n cc := by
  have hposted := posted_succ_of_other hs
  have hzero : s.posted ctrl 0 = .other type :: rest := by rw [posted_zero, hs]
  have hrest : rest <+: (s.posts (ctrl 0)).take.posted (fun i => ctrl (i + 1)) 0 := by
    have hle := s.posted_isPrefix ctrl (Nat.zero_le 1)
    rw [hzero, hposted, List.cons_prefix_cons] at hle
    exact hle.2
  constructor
  · rintro ⟨k, hk, hbefore, htime⟩
    cases k with
    | zero =>
      rw [hposted] at hk
      cases hk
    | succ k =>
      rw [hposted] at hk hbefore
      obtain ⟨i₀, hi₀, -⟩ := htime 0 (Nat.zero_le _)
      refine ⟨k, hk, fun j hj => hbefore (j + 1) (Nat.succ_lt_succ hj), fun j hj => ?_⟩
      obtain ⟨i, hi, hlt⟩ := htime (j + 1) (Nat.succ_le_succ hj)
      cases i with
      | zero =>
        rw [hzero] at hlt
        exact ⟨0, by omega, (Nat.lt_of_succ_lt_succ hlt).trans_le hrest.length_le⟩
      | succ i =>
        rw [hposted] at hlt
        exact ⟨i, by omega, Nat.lt_of_succ_lt_succ hlt⟩
  · rintro ⟨k, hk, hbefore, htime⟩
    obtain ⟨i₀, hi₀, -⟩ := htime 0 (Nat.zero_le _)
    refine ⟨k + 1, by rw [hposted]; exact hk, fun j hj => ?_, fun j hj => ?_⟩
    · rw [hposted]
      cases j with
      | zero => exact ⟨type, rfl⟩
      | succ j => exact hbefore j (Nat.lt_of_succ_lt_succ hj)
    · cases j with
      | zero =>
        refine ⟨0, by omega, ?_⟩
        rw [hzero]
        exact Nat.succ_pos _
      | succ j =>
        obtain ⟨i, hi, hlt⟩ := htime j (Nat.le_of_succ_le_succ hj)
        refine ⟨i + 1, by omega, ?_⟩
        rw [hposted]
        exact Nat.succ_lt_succ hlt

/-- A first poll that takes no transfer event leaves the call to the others. -/
theorem comesTo_succ_iff (h : ∀ cc rest, (s.posts (ctrl 0)).events ≠ .transfer cc :: rest) :
    s.ComesTo ctrl (n + 1) cc ↔
      (s.posts (ctrl 0)).take.ComesTo (fun i => ctrl (i + 1)) n cc := by
  cases hs : (s.posts (ctrl 0)).events with
  | nil => exact comesTo_succ_iff_of_nil hs
  | cons e rest =>
    cases e with
    | transfer cc' => exact absurd hs (h cc' rest)
    | other type => exact comesTo_succ_iff_of_other hs

end Completions

theorem comesTo_iff_of_not
    (h : ¬∀ cc rest, (s.posts (ctrl 0)).events ≠ .transfer cc :: rest) :
    s.ComesTo ctrl n cc ↔ ∃ m ≤ n, TakenAt ctrl s m cc := by
  push Not at h
  obtain ⟨cc', rest, hs⟩ := h
  rw [Completions.comesTo_of_transfer hs]
  constructor
  · rintro rfl
    exact ⟨0, Nat.zero_le n, fun j hj => absurd hj (Nat.not_lt_zero j), rest, hs⟩
  · rintro ⟨m, -, htaken⟩
    cases m with
    | zero =>
      obtain ⟨rest', hrest⟩ := htaken.taken
      exact Event.transfer.inj (List.cons.inj (hs.symm.trans hrest)).1
    | succ m => exact absurd hs (htaken.first 0 (Nat.succ_pos m) cc' rest)

theorem comesTo_iff : s.ComesTo ctrl n cc ↔ ∃ m ≤ n, TakenAt ctrl s m cc := by
  induction n generalizing ctrl s with
  | zero =>
    by_cases hfirst : ∀ cc rest, (s.posts (ctrl 0)).events ≠ .transfer cc :: rest
    · refine iff_of_false (Completions.not_comesTo_zero hfirst) ?_
      rintro ⟨m, hm, htaken⟩
      obtain rfl := Nat.le_zero.mp hm
      obtain ⟨rest, hrest⟩ := htaken.taken
      exact hfirst cc rest hrest
    · exact comesTo_iff_of_not hfirst
  | succ n ih =>
    by_cases hfirst : ∀ cc rest, (s.posts (ctrl 0)).events ≠ .transfer cc :: rest
    · rw [Completions.comesTo_succ_iff hfirst, ih]
      constructor
      · rintro ⟨m, hm, htaken⟩
        exact ⟨m + 1, Nat.succ_le_succ hm, htaken.succ hfirst⟩
      · rintro ⟨m, hm, htaken⟩
        cases m with
        | zero =>
          obtain ⟨rest, hrest⟩ := htaken.taken
          exact absurd hrest (hfirst cc rest)
        | succ m =>
          exact ⟨m, Nat.le_of_succ_le_succ hm, fun j hj => htaken.first (j + 1) (by omega),
            htaken.taken⟩
    · exact comesTo_iff_of_not hfirst

end

/-! ### Calls and runs -/

section

variable {s : Completions}

theorem XferCall.exec_eq (c : XferCall) (ctrl : Posting) :
    c.exec s ctrl = if c.trbs s = [] then (-1, s) else submit s (c.trbs s) ctrl := by
  cases c with
  | control q =>
    have hne : q.trbs ≠ [] := by
      rw [ControlRequest.trbs]
      split
      · split
        · exact List.cons_ne_nil _ _
        · exact List.cons_ne_nil _ _
      · exact List.cons_ne_nil _ _
    rw [XferCall.exec, xhciControl, XferCall.trbs, if_neg hne]
  | bulkOut phys len =>
    rw [XferCall.exec, xhciBulkOut, bulkXfer, XferCall.trbs]
    cases s.bulkOutRing with
    | false => simp
    | true => simp
  | bulkIn phys len =>
    rw [XferCall.exec, xhciBulkIn, bulkXfer, XferCall.trbs]
    cases s.bulkInRing with
    | false => simp
    | true => simp

theorem countP_ioc_trbs (c : XferCall) (hc : c.trbs s ≠ []) :
    0 < (c.trbs s).countP XhciTrb.ioc := by
  cases c with
  | control q =>
    rw [XferCall.trbs, countP_ioc_control]
    split
    · decide
    · decide
  | bulkOut phys len =>
    rw [XferCall.trbs] at hc ⊢
    split at hc
    · next hring => rw [if_pos hring, countP_ioc_bulk]; decide
    · exact absurd rfl hc
  | bulkIn phys len =>
    rw [XferCall.trbs] at hc ⊢
    split at hc
    · next hring => rw [if_pos hring, countP_ioc_bulk]; decide
    · exact absurd rfl hc

/-- By a poll with time to come to the first transfer event, where that is one of success, the last
of the outstanding events has been posted too, and is one of success. -/
def InTime (ctrl : Posting) (s : Completions) : Prop :=
  ∀ n < maxPolls, ∀ cc, s.ComesTo ctrl n cc → (cc = trbCcSuccess ∨ cc = trbCcShortPacket) →
    GoodAt (transferCodes (s.posted ctrl n)) (s.outstanding - 1)

/-- No event is outstanding once the call waits but that of the one TRB it has queued; or the call
queues nothing; or the controller is in time. -/
def Undisturbed (s : Completions) (c : XferCall × Posting) : Prop :=
  c.1.trbs s = [] ∨ (s.queue (c.1.trbs s)).outstanding ≤ 1 ∨ InTime c.2 (s.queue (c.1.trbs s))

theorem matched_iff (h : s.Consistent) (c : XferCall × Posting) :
    Matched s c ↔ Undisturbed s c := by
  obtain ⟨c, ctrl⟩ := c
  rw [Matched, Undisturbed]
  dsimp only
  rw [XferCall.exec_eq]
  by_cases hnone : c.trbs s = []
  · rw [if_pos hnone]
    exact iff_of_true (fun hz => by cases hz) (Or.inl hnone)
  · rw [if_neg hnone, submit]
    dsimp only
    obtain ⟨hqueue, hnew⟩ := h.queue (c.trbs s)
    have hpos : 0 < (s.queue (c.trbs s)).outstanding := by
      have hioc := countP_ioc_trbs c hnone
      omega
    clear hnew
    generalize s.queue (c.trbs s) = t at *
    have hqueued := (hqueue.waitTransferComplete ctrl maxPolls).2.2
    rw [hqueued]
    constructor
    · intro hmatched
      refine Or.inr (Or.inr ?_)
      intro n hn cc hcomes hcc
      obtain ⟨m, hm, htaken⟩ := comesTo_iff.mp hcomes
      have hwait := waitTransferComplete_of_takenAt htaken (hm.trans_lt hn)
      rw [hwait] at hmatched
      have hlast := (hqueue.succeeded_pollAt_iff hpos ctrl m).mp
        (hmatched (if_pos (by simpa using hcc)))
      obtain ⟨cc', hcc', hgood⟩ := hlast
      obtain ⟨new, hnew⟩ := t.posted_isPrefix ctrl hm
      refine ⟨cc', ?_, hgood⟩
      rw [← hnew, transferCodes_append,
        List.getElem?_append_left (List.getElem?_eq_some_iff.mp hcc').1]
      exact hcc'
    · intro hundisturbed hz
      have hreturned : (waitTransferComplete maxPolls ctrl t).1 = true := by
        by_contra hfailed
        rw [if_neg hfailed] at hz
        cases hz
      obtain ⟨n, hn, cc, htaken, hcc⟩ := exists_takenAt hreturned
      rw [waitTransferComplete_of_takenAt htaken hn]
      rcases hundisturbed with hno | hone | hintime
      · exact absurd hno hnone
      · obtain ⟨hpoll, hout, hpollQueued⟩ := hqueue.pollAt ctrl n
        obtain ⟨rest, hrest⟩ := htaken.taken
        rw [← hpollQueued]
        exact hpoll.succeeded_of_outstanding (hout.trans hone) hrest hcc
      · exact (hqueue.succeeded_pollAt_iff hpos ctrl n).mpr
          (hintime n hn cc (comesTo_iff.mpr ⟨n, le_rfl, htaken⟩) hcc)

/-- A call leaves at least as many events outstanding as it found, with those of the TRBs that it
queued beyond one. -/
theorem Completions.Consistent.xferStep (h : s.Consistent) (c : XferCall × Posting) :
    (xferStep s c).Consistent ∧
      s.outstanding + (c.1.trbs s).countP XhciTrb.ioc ≤ (Xhci.xferStep s c).outstanding + 1 := by
  rw [Xhci.xferStep, XferCall.exec_eq]
  by_cases hnone : c.1.trbs s = []
  · rw [if_pos hnone, hnone]
    exact ⟨h, Nat.le_succ _⟩
  · rw [if_neg hnone, submit]
    obtain ⟨hqueue, hout⟩ := h.queue (c.1.trbs s)
    obtain ⟨hwait, hle, -⟩ := hqueue.waitTransferComplete c.2 maxPolls
    exact ⟨hwait, hout ▸ hle⟩

/-- The driver before the first transfer. -/
def Completions.start (bulkOutRing bulkInRing : Bool) : Completions where
  bulkOutRing := bulkOutRing
  bulkInRing := bulkInRing
  queued := 0
  completed := []
  events := []

theorem Completions.consistent_start (bulkOutRing bulkInRing : Bool) :
    (Completions.start bulkOutRing bulkInRing).Consistent := ⟨le_rfl, List.suffix_refl _⟩

theorem outstanding_le_run (h : s.Consistent) (calls : List (XferCall × Posting)) :
    (run xferStep s calls).Consistent ∧ s.outstanding ≤ (run xferStep s calls).outstanding := by
  induction calls generalizing s with
  | nil => exact ⟨h, le_rfl⟩
  | cons c calls ih =>
    obtain ⟨hnext, hle⟩ := h.xferStep c
    obtain ⟨hrun, hrest⟩ := ih hnext
    refine ⟨hrun, le_trans ?_ hrest⟩
    by_cases hc : c.1.trbs s = []
    · rw [xferStep, XferCall.exec_eq, if_pos hc]
    · have hpos := countP_ioc_trbs c.1 hc
      omega

/-- After a control transfer every call that queues a TRB has more than one event outstanding. -/
theorem outstanding_after_control (h : s.Consistent) (q : ControlRequest) (ctrl : Posting)
    (calls : List (XferCall × Posting)) (c : XferCall)
    (hc : c.trbs (run xferStep (xferStep s (.control q, ctrl)) calls) ≠ []) :
    1 < ((run xferStep (xferStep s (.control q, ctrl)) calls).queue
      (c.trbs (run xferStep (xferStep s (.control q, ctrl)) calls))).outstanding := by
  obtain ⟨hcontrol, hle⟩ := h.xferStep (.control q, ctrl)
  change _ + (XferCall.trbs s (.control q)).countP XhciTrb.ioc ≤ _ at hle
  obtain ⟨hrun, hbehind⟩ := outstanding_le_run hcontrol calls
  have hpos := countP_ioc_trbs c hc
  have htwo : 2 ≤ (XferCall.trbs s (.control q)).countP XhciTrb.ioc := by
    rw [XferCall.trbs, countP_ioc_control]
    split
    · decide
    · decide
  rw [(hrun.queue _).2]
  omega

end

/-- In every run the completions are matched to the transfers exactly when no call is disturbed; and
once there was a control transfer, no call that queues a TRB has only its own event outstanding. -/
theorem matched_run_iff (bulkOutRing bulkInRing : Bool) :
    (∀ calls : List (XferCall × Posting),
      AllSteps xferStep Matched (Completions.start bulkOutRing bulkInRing) calls ↔
        AllSteps xferStep Undisturbed (Completions.start bulkOutRing bulkInRing) calls) ∧
    ∀ (before after : List (XferCall × Posting)) (q : ControlRequest) (ctrl : Posting)
      (c : XferCall),
      let s := run xferStep (Completions.start bulkOutRing bulkInRing)
        (before ++ (.control q, ctrl) :: after)
      c.trbs s ≠ [] → 1 < (s.queue (c.trbs s)).outstanding := by
  have hstart := Completions.consistent_start bulkOutRing bulkInRing
  constructor
  · exact allSteps_congr xferStep (I := Completions.Consistent) (fun _ c h => matched_iff h c)
      (fun _ c h _ => (h.xferStep c).1) hstart
  · intro before after q ctrl c
    rw [run_append, run_cons]
    intro s hc
    exact outstanding_after_control (outstanding_le_run hstart before).1 q ctrl after c hc

/-- A request for the device descriptor into a buffer at `0x1000`. -/
def getDescriptor : ControlRequest := ⟨0x80, 6, 0x0100, 0, 18, some 0x1000, 18⟩

/-- Only the setup stage completes, at once. -/
def setupAtOnce : Posting := fun i => if i = 0 then [.transfer 1] else []

theorem exec_getDescriptor :
    (XferCall.control getDescriptor).exec (Completions.start true true) setupAtOnce =
      (0, { Completions.start true true with queued := 3, completed := [1] }) := by
  have htaken : TakenAt setupAtOnce ((Completions.start true true).queue getDescriptor.trbs) 0 1 :=
    ⟨fun j hj => absurd hj (Nat.not_lt_zero j), [], by decide⟩
  rw [XferCall.exec_eq, if_neg (by decide), submit]
  dsimp only [XferCall.trbs]
  rw [waitTransferComplete_of_takenAt htaken (by decide)]
  rfl

/-- A bulk transfer whose event comes at the third poll is matched. After a control transfer more
than one event is outstanding for the next bulk transfer. -/
theorem matched_run_iff_sample :
    AllSteps xferStep Matched (Completions.start true true)
        [(.bulkIn 0x1000 512, fun i => if i = 2 then [.transfer 13] else [])] ∧
      1 < ((run xferStep (Completions.start true true)
        [(.control getDescriptor, setupAtOnce)]).queue [bulkTrb 0x1000 512]).outstanding := by
  refine ⟨((matched_run_iff true true).1 _).mpr ⟨.inr (.inl (by decide)), trivial⟩, ?_⟩
  have hring : (run xferStep (Completions.start true true)
      [(.control getDescriptor, setupAtOnce)]).bulkInRing = true := by
    rw [run_cons, run_nil, xferStep, exec_getDescriptor]
    rfl
  have hbulk : (XferCall.bulkIn 0x1000 512).trbs (run xferStep (Completions.start true true)
      [(.control getDescriptor, setupAtOnce)]) = [bulkTrb 0x1000 512] := by
    rw [XferCall.trbs, if_pos hring]
  have hbehind := (matched_run_iff true true).2 [] [] getDescriptor setupAtOnce
    (.bulkIn 0x1000 512)
  dsimp only at hbehind
  rw [List.nil_append, hbulk] at hbehind
  exact hbehind (List.cons_ne_nil _ _)

/-- The transfer returns zero on the event of its setup stage, with the data stage still to come. -/
theorem not_matched :
    ¬AllSteps xferStep Matched (Completions.start true true)
      [(.control getDescriptor, setupAtOnce)] := by
  rintro ⟨hmatched, -⟩
  rw [Matched, exec_getDescriptor] at hmatched
  obtain ⟨cc, hcc, -⟩ := hmatched rfl
  cases hcc

end StyxOS.Xhci
