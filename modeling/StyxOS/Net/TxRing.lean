import StyxOS.Library.IndexRing
import StyxOS.Library.Run
import StyxOS.Net.Frame

/-! # The transmit ring of the e1000 driver

`e1000_send_packet` store by store, beside a network card that transmits from head
to tail. The driver takes a descriptor for free when its done bit is set; the card
takes the ring for empty when head and tail are equal.
-/

namespace StyxOS.TxRing

open StepSystem IndexRing

def e1000NumTxDesc : ℕ := 64

/-- The fields of `e1000_tx_desc_t` that the driver writes after `e1000_init`. -/
structure TxDesc where
  length : UInt16
  cmd : UInt8
  status : UInt8
  deriving DecidableEq, Repr

/-- The done bit. -/
def TxDesc.done (d : TxDesc) : Bool := d.status &&& 0x01 != 0

inductive TxStage
  | wait (retries : ℕ)
  | check
  | copy
  | length
  | status
  | cmd
  | tail
  deriving DecidableEq, Repr

/-- The ring in memory, the driver's globals, the two registers of the card, and the call in
progress. `accepted` lists the frames for which `e1000_send_packet` returned true, `wire` those that
were transmitted. -/
structure TxState where
  descs : ℕ → TxDesc
  buffers : ℕ → List UInt8
  txCur : ℕ
  active : Bool
  txCount : UInt32
  tdh : ℕ
  tdt : ℕ
  call : Option (TxStage × List UInt8)
  accepted : List (List UInt8)
  wire : List (List UInt8)

/-- The ring as `e1000_init` sets it up, every page of the buffers zero or not. -/
def txStart (buffers : ℕ → List UInt8) : TxState where
  descs _ := { length := 0, cmd := 0, status := 1 }
  buffers := buffers
  txCur := 0
  active := true
  txCount := 0
  tdh := 0
  tdt := 0
  call := none
  accepted := []
  wire := []

/-- The checks of `e1000_send_packet`; `none` is the null pointer. -/
def sendChecks (s : TxState) : Option (List UInt8) → Option (List UInt8)
  | none => none
  | some data =>
    if !s.active || data.length = 0 || e1000BufferSize < data.length then none else some data

/-- One field of the descriptor at `g_tx_cur` is stored. -/
def TxState.store (s : TxState) (f : TxDesc → TxDesc) : TxState :=
  { s with descs := Function.update s.descs s.txCur (f (s.descs s.txCur)) }

/-- The next statement of `e1000_send_packet` after its checks. -/
def sendStep (s : TxState) (data : List UInt8) : TxStage → TxState
  | .wait retries =>
    if (s.descs s.txCur).done then { s with call := some (.check, data) }
    else if retries - 1 = 0 then { s with call := some (.check, data) }
    else { s with call := some (.wait (retries - 1), data) }
  | .check =>
    if (s.descs s.txCur).done then { s with call := some (.copy, data) }
    else { s with call := none }
  | .copy =>
    { s with
      buffers := Function.update s.buffers s.txCur
        (data ++ (s.buffers s.txCur).drop data.length)
      call := some (.length, data) }
  | .length =>
    { s.store fun d => { d with length := UInt16.ofNat data.length } with
      call := some (.status, data) }
  | .status => { s.store fun d => { d with status := 0 } with call := some (.cmd, data) }
  | .cmd =>
    { s.store fun d => { d with cmd := (1 : UInt8) <<< 0 ||| (1 : UInt8) <<< 1 |||
        (1 : UInt8) <<< 3 } with
      call := some (.tail, data) }
  | .tail =>
    { s with
      txCur := next e1000NumTxDesc s.txCur
      tdt := next e1000NumTxDesc s.txCur
      txCount := s.txCount + 1
      accepted := s.accepted ++ [data]
      call := none }

def frameAt (s : TxState) (i : ℕ) : List UInt8 := (s.buffers i).take (s.descs i).length.toNat

/-- A step of the card: idle when head equals tail. -/
def nicStep (s : TxState) : TxState :=
  if s.tdh = s.tdt then s
  else
    { s with
      wire := s.wire ++ [frameAt s s.tdh]
      descs := Function.update s.descs s.tdh
        { s.descs s.tdh with status := (s.descs s.tdh).status ||| 0x01 }
      tdh := next e1000NumTxDesc s.tdh }

inductive TxEvent
  | send (data : Option (List UInt8))
  | driver
  | nic
  deriving DecidableEq, Repr

/-- One step of the driver or the card. The driver makes one call after the other. -/
def txStep (s : TxState) : TxEvent → TxState
  | .send data =>
    match s.call, sendChecks s data with
    | none, some data => { s with call := some (.wait 100000, data) }
    | _, _ => s
  | .driver =>
    match s.call with
    | none => s
    | some (stage, data) => sendStep s data stage
  | .nic => nicStep s

/-! ### What the ring holds -/

/-- The frames from head up to tail. -/
def queued (s : TxState) : List (List UInt8) := window e1000NumTxDesc (frameAt s) s.tdh s.tdt

/-- Nothing is lost and nothing repeated: the frames transmitted and then those from head up to tail
are the frames accepted. -/
def Conserves (s : TxState) : Prop := s.wire ++ queued s = s.accepted

instance (s : TxState) : Decidable (Conserves s) := inferInstanceAs (Decidable (_ = _))

/-- No frame is accepted while 63 frames wait. -/
def KeepsGap (s : TxState) (e : TxEvent) : Prop :=
  e = .driver → (∃ data, s.call = some (.tail, data)) → (queued s).length < e1000NumTxDesc - 1

def Filled (s : TxState) (data : List UInt8) : TxStage → Prop
  | .length => (s.buffers s.txCur).take data.length = data
  | .status | .cmd | .tail => frameAt s s.txCur = data
  | _ => True

structure TxInv (s : TxState) : Prop where
  conserves : Conserves s
  tail : s.tdt = s.txCur
  tail_lt : s.txCur < e1000NumTxDesc
  head_lt : s.tdh < e1000NumTxDesc
  call : ∀ stage data, s.call = some (stage, data) →
    data.length ≤ e1000BufferSize ∧ data ≠ [] ∧ Filled s data stage

variable {s : TxState} {data : List UInt8}

theorem TxInv.start (buffers : ℕ → List UInt8) : TxInv (txStart buffers) where
  conserves := by simp [Conserves, queued, txStart]
  tail := rfl
  tail_lt := (by decide : 0 < e1000NumTxDesc)
  head_lt := (by decide : 0 < e1000NumTxDesc)
  call _ _ h := nomatch h

/-- A step that leaves the frames from head up to tail alone. -/
theorem TxInv.congr (h : TxInv s) {s' : TxState} (hcur : s'.txCur = s.txCur)
    (htdh : s'.tdh = s.tdh) (htdt : s'.tdt = s.tdt) (hwire : s'.wire = s.wire)
    (haccepted : s'.accepted = s.accepted)
    (hframe : ∀ i, i ≠ s.txCur → frameAt s' i = frameAt s i)
    (hcall : ∀ stage data, s'.call = some (stage, data) →
      data.length ≤ e1000BufferSize ∧ data ≠ [] ∧ Filled s' data stage) : TxInv s' where
  conserves := by
    have hqueued : queued s' = queued s := by
      rw [queued, queued, htdh, htdt]
      exact window_congr h.head_lt (h.tail ▸ h.tail_lt) fun i hi => hframe i (h.tail ▸ hi)
    rw [Conserves, hwire, hqueued, haccepted]
    exact h.conserves
  tail := by rw [htdt, hcur, h.tail]
  tail_lt := by rw [hcur]; exact h.tail_lt
  head_lt := by rw [htdh]; exact h.head_lt
  call := hcall

theorem TxInv.send (h : TxInv s) (arg : Option (List UInt8)) : TxInv (txStep s (.send arg)) := by
  rw [txStep]
  split
  next hcall hchecks =>
    refine h.congr rfl rfl rfl rfl rfl (fun _ _ => rfl) ?_
    rintro stage data ⟨rfl, rfl⟩
    cases arg with
    | none => cases hchecks
    | some arg =>
      rw [sendChecks] at hchecks
      split_ifs at hchecks with hbad
      cases hchecks
      simp only [Bool.or_eq_true, decide_eq_true_eq, not_or, not_lt] at hbad
      exact ⟨hbad.2, fun hnil => hbad.1.2 (congrArg List.length hnil), trivial⟩
  next => exact h

theorem conserves_tail (h : TxInv s) (hcall : s.call = some (.tail, data)) :
    Conserves (sendStep s data .tail) ↔ (queued s).length < e1000NumTxDesc - 1 := by
  obtain ⟨-, -, hfilled⟩ := h.call _ _ hcall
  have hcons := h.conserves
  rw [Conserves, queued, h.tail] at hcons
  have hgap := next_tail_eq_head_iff h.head_lt h.tail_lt
  have hdef : Conserves (sendStep s data .tail) ↔
      s.wire ++ window e1000NumTxDesc (frameAt s) s.tdh (next e1000NumTxDesc s.txCur) =
        s.accepted ++ [data] := Iff.rfl
  rw [hdef, ← hcons, queued, h.tail, length_window]
  constructor
  · intro hlost
    by_contra hfull
    rw [hgap.mpr hfull, window_self] at hlost
    simp at hlost
  · intro hlt
    have hne : next e1000NumTxDesc s.txCur ≠ s.tdh := fun heq => hgap.mp heq hlt
    rw [window_next_tail h.head_lt h.tail_lt hne, show frameAt s s.txCur = data from hfilled,
      List.append_assoc]

theorem TxInv.driver (h : TxInv s) {stage : TxStage} (hcall : s.call = some (stage, data))
    (hgap : stage = .tail → (queued s).length < e1000NumTxDesc - 1) :
    TxInv (sendStep s data stage) := by
  obtain ⟨hlen, hne, hfilled⟩ := h.call _ _ hcall
  have hlength : (UInt16.ofNat data.length).toNat = data.length := by
    rw [UInt16.toNat_ofNat', Nat.mod_eq_of_lt (lt_of_le_of_lt hlen (by decide))]
  cases stage with
  | wait retries =>
    rw [sendStep]
    split_ifs <;>
    · refine h.congr rfl rfl rfl rfl rfl (fun _ _ => rfl) ?_
      rintro stage data ⟨rfl, rfl⟩
      exact ⟨hlen, hne, trivial⟩
  | check =>
    rw [sendStep]
    split_ifs
    · refine h.congr rfl rfl rfl rfl rfl (fun _ _ => rfl) ?_
      rintro stage data ⟨rfl, rfl⟩
      exact ⟨hlen, hne, trivial⟩
    · exact h.congr rfl rfl rfl rfl rfl (fun _ _ => rfl) fun _ _ hnone => nomatch hnone
  | copy =>
    refine h.congr rfl rfl rfl rfl rfl (fun i hi => ?_) ?_
    · simp only [sendStep, frameAt, Function.update_of_ne hi]
    · rintro stage data ⟨rfl, rfl⟩
      refine ⟨hlen, hne, ?_⟩
      simp only [Filled, sendStep, Function.update_self, List.take_left']
  | length =>
    refine h.congr rfl rfl rfl rfl rfl (fun i hi => ?_) ?_
    · simp only [sendStep, frameAt, TxState.store, Function.update_of_ne hi]
    · rintro stage data ⟨rfl, rfl⟩
      refine ⟨hlen, hne, ?_⟩
      simp only [Filled, sendStep, frameAt, TxState.store, Function.update_self, hlength]
      exact hfilled
  | status =>
    refine h.congr rfl rfl rfl rfl rfl (fun i hi => ?_) ?_
    · simp only [sendStep, frameAt, TxState.store, Function.update_of_ne hi]
    · rintro stage data ⟨rfl, rfl⟩
      refine ⟨hlen, hne, ?_⟩
      simp only [Filled, sendStep, frameAt, TxState.store, Function.update_self]
      exact hfilled
  | cmd =>
    refine h.congr rfl rfl rfl rfl rfl (fun i hi => ?_) ?_
    · simp only [sendStep, frameAt, TxState.store, Function.update_of_ne hi]
    · rintro stage data ⟨rfl, rfl⟩
      refine ⟨hlen, hne, ?_⟩
      simp only [Filled, sendStep, frameAt, TxState.store, Function.update_self]
      exact hfilled
  | tail =>
    exact { conserves := (conserves_tail h hcall).mpr (hgap rfl)
            tail := rfl
            tail_lt := next_lt h.tail_lt
            head_lt := h.head_lt
            call := fun _ _ hnone => nomatch hnone }

theorem TxInv.nic (h : TxInv s) : TxInv (nicStep s) := by
  rw [nicStep]
  split_ifs with hempty
  · exact h
  · have hframe : ∀ i, frameAt (nicStep s) i = frameAt s i := by
      intro i
      rw [nicStep, if_neg hempty]
      by_cases hi : i = s.tdh
      · subst hi
        simp only [frameAt, Function.update_self]
      · simp only [frameAt, Function.update_of_ne hi]
    rw [nicStep, if_neg hempty] at hframe
    have htail := h.tail ▸ h.tail_lt
    refine { conserves := ?_, tail := h.tail, tail_lt := h.tail_lt, head_lt := next_lt h.head_lt,
             call := ?_ }
    · have hcons := h.conserves
      rw [Conserves, queued, window_next_head h.head_lt htail hempty] at hcons
      rw [Conserves, queued, funext hframe]
      dsimp only
      rw [List.append_assoc]
      exact hcons
    · intro stage data hcall
      obtain ⟨hlen, hne, hfilled⟩ := h.call stage data hcall
      refine ⟨hlen, hne, ?_⟩
      cases stage with
      | wait | check | copy => trivial
      | length => exact hfilled
      | status | cmd | tail => exact (hframe _).trans hfilled

theorem TxInv.step (h : TxInv s) {e : TxEvent} (he : KeepsGap s e) : TxInv (txStep s e) := by
  cases e with
  | send arg => exact h.send arg
  | driver =>
    rw [txStep]
    cases hcall : s.call with
    | none => exact h
    | some c => exact h.driver hcall fun hstage => he rfl ⟨c.2, by rw [hcall, ← hstage]⟩
  | nic => exact h.nic

theorem conserves_iff (h : TxInv s) (e : TxEvent) : Conserves (txStep s e) ↔ KeepsGap s e := by
  constructor
  · rintro hcons rfl ⟨data, hcall⟩
    rw [txStep, hcall] at hcons
    exact (conserves_tail h hcall).mp hcons
  · exact fun he => (h.step he).conserves

/-- In every run the frames are conserved after every step if and only if no frame is accepted while
63 frames wait. -/
theorem tx_ring_iff (buffers : ℕ → List UInt8) (es : List TxEvent) :
    AllSteps txStep (fun s e => Conserves (txStep s e)) (txStart buffers) es ↔
      AllSteps txStep KeepsGap (txStart buffers) es :=
  allSteps_congr txStep (I := TxInv) (fun _ e h => conserves_iff h e) (fun _ _ h he => h.step he)
    (TxInv.start buffers) es

/-! ### The sixty-fourth frame -/

/-- Head and tail are equal and the next descriptor is not free. -/
structure Stuck (s : TxState) : Prop where
  empty : s.tdh = s.tdt
  busy : (s.descs s.txCur).done = false
  waiting : ∀ stage data, s.call = some (stage, data) → stage = .check ∨ ∃ n, stage = .wait n

theorem Stuck.step (h : Stuck s) (e : TxEvent) :
    Stuck (txStep s e) ∧ (txStep s e).accepted = s.accepted ∧ (txStep s e).wire = s.wire := by
  cases e with
  | send arg =>
    rw [txStep]
    split
    · refine ⟨⟨h.empty, h.busy, ?_⟩, rfl, rfl⟩
      rintro stage data ⟨rfl, rfl⟩
      exact Or.inr ⟨_, rfl⟩
    · exact ⟨h, rfl, rfl⟩
  | driver =>
    rw [txStep]
    cases hcall : s.call with
    | none => exact ⟨h, rfl, rfl⟩
    | some c =>
      have hbusy : ¬ (s.descs s.txCur).done := Bool.eq_false_iff.mp h.busy
      rcases h.waiting c.1 c.2 hcall with hstage | ⟨n, hstage⟩
      · simp only [hstage, sendStep, if_neg hbusy, and_true]
        exact ⟨h.empty, h.busy, fun _ _ hnone => nomatch hnone⟩
      · simp only [hstage, sendStep, if_neg hbusy]
        split_ifs
        · refine ⟨⟨h.empty, h.busy, ?_⟩, rfl, rfl⟩
          rintro stage data ⟨rfl, rfl⟩
          exact Or.inl rfl
        · refine ⟨⟨h.empty, h.busy, ?_⟩, rfl, rfl⟩
          rintro stage data ⟨rfl, rfl⟩
          exact Or.inr ⟨_, rfl⟩
  | nic =>
    rw [txStep, nicStep, if_pos h.empty]
    exact ⟨h, rfl, rfl⟩

theorem Stuck.run (es : List TxEvent) :
    ∀ {s : TxState}, Stuck s → (run txStep s es).accepted = s.accepted ∧
      (run txStep s es).wire = s.wire := by
  induction es with
  | nil => exact fun _ => ⟨rfl, rfl⟩
  | cons e es ih =>
    intro s h
    obtain ⟨hstuck, haccepted, hwire⟩ := h.step e
    obtain ⟨haccepted', hwire'⟩ := ih hstuck
    exact ⟨haccepted'.trans haccepted, hwire'.trans hwire⟩

/-- A call of `e1000_send_packet` that finds its descriptor free. -/
def wholeSend (data : List UInt8) : List TxEvent := .send (some data) :: List.replicate 7 .driver

def oneLap : List TxEvent := (List.replicate 64 (wholeSend [0])).flatten

theorem oneLap_lost (es : List TxEvent) :
    (run txStep (txStart fun _ => []) (oneLap ++ es)).accepted.length = 64 ∧
      (run txStep (txStart fun _ => []) (oneLap ++ es)).wire = [] := by
  have hlap : Stuck (run txStep (txStart fun _ => []) oneLap) := by
    have hcall : (StepSystem.run txStep (txStart fun _ => []) oneLap).call = none := by
      decide +kernel
    refine ⟨by decide +kernel, by decide +kernel, fun stage data hsome => ?_⟩
    rw [hcall] at hsome
    cases hsome
  obtain ⟨haccepted, hwire⟩ := hlap.run es
  rw [run_append, haccepted, hwire]
  constructor <;> decide +kernel

/-- The frames are not conserved in every run. -/
theorem tx_ring_overrun :
    ¬ ∀ (buffers : ℕ → List UInt8) (es : List TxEvent),
      Conserves (run txStep (txStart buffers) es) := by
  intro h
  have hconserves := h (fun _ => []) oneLap
  obtain ⟨haccepted, hwire⟩ := oneLap_lost []
  rw [List.append_nil] at haccepted hwire
  rw [Conserves, hwire, List.nil_append] at hconserves
  rw [← hconserves, queued, length_window] at haccepted
  revert haccepted
  decide +kernel

end StyxOS.TxRing
