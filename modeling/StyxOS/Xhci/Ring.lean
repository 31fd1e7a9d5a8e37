import Mathlib.Data.List.Infix
import StyxOS.Library.CycleRing
import StyxOS.Library.Run

/-! # Producer rings of the xHCI driver

`xhci_ring_init` and `ring_enqueue`, the latter down to its single stores, with a
controller that consumes the ring beside it.
-/

namespace StyxOS.Xhci

open StepSystem

/-! ### The ring of `xhci_trb.h` -/

def xhciRingSize : ℕ := 64

theorem slots_pos : 0 < xhciRingSize - 1 := by decide

def trbTypeLink : UInt32 := 6

def trbLinkFlagTc : UInt32 := (1 : UInt32) <<< 1

def trbDword3 (type cycle : UInt32) : UInt32 := type <<< 10 ||| (cycle &&& 1)

structure XhciTrb where
  dword0 : UInt32
  dword1 : UInt32
  dword2 : UInt32
  dword3 : UInt32
  deriving DecidableEq, Repr

structure XhciRing where
  trbs : ℕ → XhciTrb
  enqueue : ℕ
  pcs : UInt8

/-- The Link TRB as `xhci_ring_init` writes it. -/
def linkTrb (physBase : UInt64) : XhciTrb where
  dword0 := (physBase &&& 0xFFFFFFFF).toUInt32
  dword1 := (physBase >>> 32).toUInt32
  dword2 := 0
  dword3 := trbDword3 trbTypeLink 1 ||| trbLinkFlagTc

def xhciRingInit (physBase : UInt64) : XhciRing where
  trbs := Function.update (fun _ => ⟨0, 0, 0, 0⟩) (xhciRingSize - 1) (linkTrb physBase)
  enqueue := 0
  pcs := 1

/-- One field of a TRB in memory is stored. -/
def XhciRing.store (r : XhciRing) (i : ℕ) (f : XhciTrb → XhciTrb) : XhciRing :=
  { r with trbs := Function.update r.trbs i (f (r.trbs i)) }

def ringEnqueue (r : XhciRing) (d0 d1 d2 d3NoCy : UInt32) : XhciRing :=
  let idx := r.enqueue
  let r := r.store idx fun t => { t with dword0 := d0 }
  let r := r.store idx fun t => { t with dword1 := d1 }
  let r := r.store idx fun t => { t with dword2 := d2 }
  let r := r.store idx fun t => { t with dword3 := d3NoCy ||| r.pcs.toUInt32 }
  let r := { r with enqueue := r.enqueue + 1 }
  if xhciRingSize - 1 ≤ r.enqueue then
    let link := xhciRingSize - 1
    let r := r.store link fun t =>
      { t with dword3 := trbDword3 trbTypeLink r.pcs.toUInt32 ||| trbLinkFlagTc }
    { r with pcs := r.pcs ^^^ 1, enqueue := 0 }
  else r

/-! ### One store at a time -/

inductive Stage
  | dword0 | dword1 | dword2 | dword3 | count | link | toggle | reset
  deriving DecidableEq, Repr

/-- One store of `ring_enqueue` with the arguments `t`, and the store after it. -/
def storeStep (r : XhciRing) (t : XhciTrb) : Stage → XhciRing × Option Stage
  | .dword0 => (r.store r.enqueue fun u => { u with dword0 := t.dword0 }, some .dword1)
  | .dword1 => (r.store r.enqueue fun u => { u with dword1 := t.dword1 }, some .dword2)
  | .dword2 => (r.store r.enqueue fun u => { u with dword2 := t.dword2 }, some .dword3)
  | .dword3 =>
    (r.store r.enqueue fun u => { u with dword3 := t.dword3 ||| r.pcs.toUInt32 }, some .count)
  | .count =>
    ({ r with enqueue := r.enqueue + 1 },
      if xhciRingSize - 1 ≤ r.enqueue + 1 then some .link else none)
  | .link =>
    (r.store (xhciRingSize - 1) fun u =>
      { u with dword3 := trbDword3 trbTypeLink r.pcs.toUInt32 ||| trbLinkFlagTc }, some .toggle)
  | .toggle => ({ r with pcs := r.pcs ^^^ 1 }, some .reset)
  | .reset => ({ r with enqueue := 0 }, none)

def linkPointer (t : XhciTrb) : ℕ := t.dword0.toNat + t.dword1.toNat * 2 ^ 32

/-- The ring, the call in progress, and the controller: its slot, its cycle state and the TRBs it
has read. `queued` lists the arguments of all calls. -/
structure RingState where
  ring : XhciRing
  call : Option (Stage × XhciTrb)
  pos : ℕ
  ccs : UInt32
  taken : List XhciTrb
  queued : List XhciTrb

/-- The controller looks at the TRB at its slot. -/
def consume (physBase : UInt64) (s : RingState) : RingState :=
  let t := s.ring.trbs s.pos
  if t.dword3 &&& 1 != s.ccs then s
  else if s.pos = xhciRingSize - 1 then
    { s with
      pos := (linkPointer t - physBase.toNat) / 16
      ccs := if t.dword3 &&& trbLinkFlagTc != 0 then s.ccs ^^^ 1 else s.ccs }
  else { s with pos := s.pos + 1, taken := s.taken ++ [t] }

inductive RingEvent
  | call (t : XhciTrb)
  | store
  | consume
  deriving DecidableEq, Repr

/-- One step of driver or controller. The driver makes one call after the other. -/
def ringStep (physBase : UInt64) (s : RingState) : RingEvent → RingState
  | .call t =>
    match s.call with
    | none => { s with call := some (.dword0, t), queued := s.queued ++ [t] }
    | some _ => s
  | .store =>
    match s.call with
    | none => s
    | some (stage, t) =>
      let (ring, next) := storeStep s.ring t stage
      { s with ring := ring, call := next.map fun stage => (stage, t) }
  | .consume => consume physBase s

def ringStart (physBase : UInt64) : RingState where
  ring := xhciRingInit physBase
  call := none
  pos := 0
  ccs := 1
  taken := []
  queued := []

/-- A call of `ring_enqueue` with all its stores. -/
def wholeCall (t : XhciTrb) : List RingEvent := .call t :: List.replicate 8 .store

/-- The stores of a call make up `ring_enqueue`. -/
theorem run_wholeCall {physBase : UInt64} {s : RingState} (hcall : s.call = none) (t : XhciTrb) :
    run (ringStep physBase) s (wholeCall t) =
      { s with
        ring := ringEnqueue s.ring t.dword0 t.dword1 t.dword2 t.dword3
        queued := s.queued ++ [t] } := by
  by_cases hlast : xhciRingSize - 1 ≤ s.ring.enqueue + 1 <;>
    simp [wholeCall, List.replicate, ringStep, storeStep, hcall, ringEnqueue, hlast,
      XhciRing.store]

/-! ### Payload and cycle bit -/

def XhciTrb.cycle (t : XhciTrb) : Bool := t.dword3 &&& 1 == 1

/-- A TRB without its cycle bit. -/
def XhciTrb.payload (t : XhciTrb) : XhciTrb := { t with dword3 := t.dword3 &&& 0xFFFFFFFE }

def bitWord (b : Bool) : UInt32 := if b then 1 else 0

theorem word_and_one (w : UInt32) : w &&& 1 = bitWord (w &&& 1 == 1) := by
  have h : (w &&& 1).toNat = w.toNat % 2 := by
    rw [UInt32.toNat_and]
    exact Nat.and_two_pow_sub_one_eq_mod _ 1
  rcases Nat.mod_two_eq_zero_or_one w.toNat with hb | hb
  · have hw : w &&& 1 = 0 := UInt32.toNat_inj.mp (h.trans hb)
    rw [hw]
    rfl
  · have hw : w &&& 1 = 1 := UInt32.toNat_inj.mp (h.trans hb)
    rw [hw]
    rfl

theorem bitWord_inj {a b : Bool} : bitWord a = bitWord b ↔ a = b := by
  cases a <;> cases b <;> decide

theorem uint32_or_and (a b c : UInt32) : (a ||| b) &&& c = a &&& c ||| b &&& c :=
  UInt32.toBitVec_inj.mp BitVec.and_or_distrib_right

theorem uint32_and_or (a b c : UInt32) : a &&& (b ||| c) = a &&& b ||| a &&& c :=
  UInt32.toBitVec_inj.mp BitVec.and_or_distrib_left

theorem cycle_or {d : UInt32} (h : d &&& 1 = 0) (b : Bool) :
    (d ||| bitWord b) &&& 1 = bitWord b := by
  rw [uint32_or_and, h]
  cases b <;> decide

theorem payload_or {d : UInt32} (h : d &&& 1 = 0) (b : Bool) :
    (d ||| bitWord b) &&& 0xFFFFFFFE = d := by
  have hb : bitWord b &&& 0xFFFFFFFE = 0 := by cases b <;> decide
  have hsplit : d &&& (0xFFFFFFFE ||| 1) = d &&& 0xFFFFFFFE ||| d &&& 1 := uint32_and_or ..
  have hall : d &&& (0xFFFFFFFE ||| 1) = d := UInt32.and_neg_one
  rw [hall, h] at hsplit
  rw [uint32_or_and, hb]
  exact hsplit.symm

theorem payload_of_cycle_clear {t : XhciTrb} (h : t.dword3 &&& 1 = 0) (b : Bool) :
    ({ t with dword3 := t.dword3 ||| bitWord b } : XhciTrb).payload = t := by
  rw [XhciTrb.payload, payload_or h]

theorem cycle_of_cycle_clear {t : XhciTrb} (h : t.dword3 &&& 1 = 0) (b : Bool) :
    ({ t with dword3 := t.dword3 ||| bitWord b } : XhciTrb).cycle = b := by
  rw [XhciTrb.cycle, cycle_or h]
  cases b <;> rfl

/-! ### The ring with an ownership bit behind it -/

/-- Where the producer stands: the index is stored after the slot is complete, and set back after
the link is. -/
def viewTail (enqueue : ℕ) : Option Stage → ℕ
  | some .count => enqueue + 1
  | some .toggle | some .reset => 0
  | _ => enqueue

/-- The bit of the lap the producer is in. -/
def viewPcs (pcs : UInt8) : Option Stage → Bool
  | some .toggle => !(pcs == 1)
  | _ => pcs == 1

def ringView (r : XhciRing) (stage : Option Stage) (pos : ℕ) (ccs : UInt32) :
    CycleRing XhciTrb where
  slot i := ((r.trbs i).payload, (r.trbs i).cycle)
  link := (r.trbs (xhciRingSize - 1)).cycle
  tail := viewTail r.enqueue stage
  pcs := viewPcs r.pcs stage
  head := pos
  ccs := ccs == 1

def RingState.view (s : RingState) : CycleRing XhciTrb :=
  ringView s.ring (s.call.map Prod.fst) s.pos s.ccs

def linkTrbWith (physBase : UInt64) (b : Bool) : XhciTrb :=
  { linkTrb physBase with dword3 := trbDword3 trbTypeLink (bitWord b) ||| trbLinkFlagTc }

theorem cycle_linkTrbWith (physBase : UInt64) (b : Bool) :
    (linkTrbWith physBase b).cycle = b := by
  have h : ∀ b, ((trbDword3 trbTypeLink (bitWord b) ||| trbLinkFlagTc) &&& 1 == 1) = b := by
    decide
  exact h b

theorem linkPointer_linkTrbWith (physBase : UInt64) (b : Bool) :
    linkPointer (linkTrbWith physBase b) = physBase.toNat := by
  have hlow : (physBase &&& 0xFFFFFFFF).toUInt32.toNat = physBase.toNat % 2 ^ 32 := by
    have hand : (physBase &&& 0xFFFFFFFF).toNat = physBase.toNat % 2 ^ 32 := by
      rw [UInt64.toNat_and]
      exact Nat.and_two_pow_sub_one_eq_mod _ 32
    rw [UInt64.toNat_toUInt32, hand, Nat.mod_mod]
  have hhigh : (physBase >>> 32).toUInt32.toNat = physBase.toNat / 2 ^ 32 := by
    have hshift : (physBase >>> 32).toNat = physBase.toNat / 2 ^ 32 := by
      rw [UInt64.toNat_shiftRight]
      exact Nat.shiftRight_eq_div_pow _ _
    have hlt := physBase.toNat_lt
    rw [UInt64.toNat_toUInt32, hshift]
    omega
  have hdef : linkPointer (linkTrbWith physBase b) = (physBase &&& 0xFFFFFFFF).toUInt32.toNat +
      (physBase >>> 32).toUInt32.toNat * 2 ^ 32 := rfl
  rw [hdef, hlow, hhigh]
  omega

/-! ### What holds between any two stores -/

/-- The fields of the slot that are stored before the next one. -/
def StoredBefore (u t : XhciTrb) : Stage → Prop
  | .dword1 => u.dword0 = t.dword0
  | .dword2 => u.dword0 = t.dword0 ∧ u.dword1 = t.dword1
  | .dword3 => u.dword0 = t.dword0 ∧ u.dword1 = t.dword1 ∧ u.dword2 = t.dword2
  | _ => True

/-- The slot of the call is not complete yet. -/
def Stage.Filling : Stage → Prop
  | .dword0 | .dword1 | .dword2 | .dword3 => True
  | _ => False

def Stage.Wrapping : Stage → Prop
  | .link | .toggle | .reset => True
  | _ => False

/-- The call in progress, its arguments and what it has stored. -/
structure CallInv (r : XhciRing) (items queued : List XhciTrb) (stage : Stage) (t : XhciTrb) :
    Prop where
  arg : t.dword3 &&& 1 = 0
  stored : StoredBefore (r.trbs r.enqueue) t stage
  filling : stage.Filling → queued = items ++ [t]
  filled : ¬ stage.Filling → queued = items
  slot : ¬ stage.Wrapping → r.enqueue < xhciRingSize - 1
  wrapping : stage.Wrapping → r.enqueue = xhciRingSize - 1

/-- The ring between two stores, `items` the TRBs that are complete. -/
structure RingInv (physBase : UInt64) (s : RingState) (items : List XhciTrb) : Prop where
  delivers : CycleRing.Delivers (xhciRingSize - 1) items (s.view, s.taken.map XhciTrb.payload)
  pcs : s.ring.pcs.toUInt32 = bitWord (s.ring.pcs == 1)
  ccs : s.ccs = bitWord (s.ccs == 1)
  link : ∃ b, s.ring.trbs (xhciRingSize - 1) = linkTrbWith physBase b
  room : s.queued.length ≤ s.taken.length + (xhciRingSize - 1)
  idle : s.call = none → s.queued = items ∧ s.ring.enqueue < xhciRingSize - 1
  call : ∀ stage t, s.call = some (stage, t) → CallInv s.ring items s.queued stage t

/-- A store to the slot that leaves the cycle bit alone. -/
theorem ringView_scribble {r : XhciRing} {f : XhciTrb → XhciTrb} {st st' : Stage} (pos : ℕ)
    (ccs : UInt32) (hf : (f (r.trbs r.enqueue)).cycle = (r.trbs r.enqueue).cycle)
    (henq : r.enqueue < xhciRingSize - 1) (hst : st.Filling) (hst' : st'.Filling) :
    ringView (r.store r.enqueue f) (some st') pos ccs =
      (ringView r (some st) pos ccs).scribble (f (r.trbs r.enqueue)).payload := by
  have htail : ∀ st : Stage, st.Filling → viewTail r.enqueue (some st) = r.enqueue := by
    intro st h
    cases st <;> first | rfl | exact h.elim
  have hpcs : ∀ st : Stage, st.Filling → viewPcs r.pcs (some st) = (r.pcs == 1) := by
    intro st h
    cases st <;> first | rfl | exact h.elim
  simp only [ringView, CycleRing.scribble, XhciRing.store, htail st hst, htail st' hst',
    hpcs st hst, hpcs st' hst', CycleRing.mk.injEq, and_true]
  constructor
  · funext i
    by_cases hi : i = r.enqueue
    · subst hi
      simp only [Function.update_self, hf]
    · simp only [Function.update_of_ne hi]
  · rw [Function.update_of_ne henq.ne']

theorem ringView_publish {r : XhciRing} {t : XhciTrb} (pos : ℕ) (ccs : UInt32)
    (hpcs : r.pcs.toUInt32 = bitWord (r.pcs == 1)) (harg : t.dword3 &&& 1 = 0)
    (henq : r.enqueue < xhciRingSize - 1) (hstored : StoredBefore (r.trbs r.enqueue) t .dword3) :
    ringView (r.store r.enqueue fun u => { u with dword3 := t.dword3 ||| r.pcs.toUInt32 })
        (some .count) pos ccs =
      (ringView r (some .dword3) pos ccs).publish t := by
  obtain ⟨h0, h1, h2⟩ := hstored
  have hslot : ({ r.trbs r.enqueue with dword3 := t.dword3 ||| r.pcs.toUInt32 } : XhciTrb) =
      { t with dword3 := t.dword3 ||| bitWord (r.pcs == 1) } := by
    dsimp only
    rw [h0, h1, h2, hpcs]
  simp only [ringView, CycleRing.publish, XhciRing.store, viewTail, viewPcs, CycleRing.mk.injEq,
    and_true]
  constructor
  · funext i
    by_cases hi : i = r.enqueue
    · subst hi
      simp only [Function.update_self, hslot, payload_of_cycle_clear harg,
        cycle_of_cycle_clear harg]
    · simp only [Function.update_of_ne hi]
  · rw [Function.update_of_ne henq.ne']

/-- The store to the link ends the lap. -/
theorem ringView_wrap {r : XhciRing} (f : XhciTrb → XhciTrb) (pos : ℕ) (ccs : UInt32)
    (hf : (f (r.trbs (xhciRingSize - 1))).cycle = (r.pcs == 1)) :
    ringView (r.store (xhciRingSize - 1) f) (some .toggle) pos ccs =
      { (ringView r (some .link) pos ccs).wrap with
        slot := (ringView (r.store (xhciRingSize - 1) f) (some .toggle) pos ccs).slot } := by
  simp only [ringView, CycleRing.wrap, XhciRing.store, viewTail, viewPcs, Function.update_self, hf]

/-- The arguments of every call leave the cycle bit clear, and at most 63 TRBs are unconsumed, the
one being enqueued among them. -/
def Permitted (s : RingState) : RingEvent → Prop
  | .call t => t.dword3 &&& 1 = 0 ∧ s.queued.length < s.taken.length + (xhciRingSize - 1)
  | _ => True

instance (s : RingState) : ∀ e : RingEvent, Decidable (Permitted s e)
  | .call _ => inferInstanceAs (Decidable (_ ∧ _))
  | .store => .isTrue trivial
  | .consume => .isTrue trivial

section Store

variable {physBase : UInt64} {s : RingState} {items : List XhciTrb} {t : XhciTrb} {st : Stage}

/-- A store before the last one to the slot. -/
theorem RingInv.fill (h : RingInv physBase s items) {f : XhciTrb → XhciTrb} {st' : Stage}
    (hcall : s.call = some (st, t)) (hst : st.Filling) (hst' : st'.Filling)
    (hf : ∀ u, (f u).dword3 = u.dword3)
    (hstored : StoredBefore (f (s.ring.trbs s.ring.enqueue)) t st') :
    RingInv physBase
      { s with ring := s.ring.store s.ring.enqueue f, call := some (st', t) } items := by
  have hwrap : ∀ {st : Stage}, st.Filling → ¬ st.Wrapping := by
    intro st hfill hw
    cases st <;> first | exact hfill | exact hw
  have hc := h.call st t hcall
  have henq : s.ring.enqueue < xhciRingSize - 1 := hc.slot (hwrap hst)
  have hqueued := hc.filling hst
  have hcycle : (f (s.ring.trbs s.ring.enqueue)).cycle = (s.ring.trbs s.ring.enqueue).cycle := by
    rw [XhciTrb.cycle, hf, XhciTrb.cycle]
  have hview := ringView_scribble s.pos s.ccs hcycle henq hst hst'
  have hdel := h.delivers
  have hroom := h.room
  rw [RingState.view, hcall] at hdel
  rw [hqueued, List.length_append, List.length_singleton] at hroom
  refine { delivers := ⟨?_, hdel.2⟩, pcs := h.pcs, ccs := h.ccs, link := ?_, room := h.room,
           idle := fun hnone => (nomatch hnone), call := ?_ }
  · rw [RingState.view]
    dsimp only [Option.map_some]
    rw [hview]
    have htail : (ringView s.ring (some st) s.pos s.ccs).tail = s.ring.enqueue := by
      cases st <;> first | rfl | exact hst.elim
    refine hdel.1.scribble _ (htail.trans_lt henq) ?_
    rw [List.length_map]
    exact hroom
  · obtain ⟨b, hb⟩ := h.link
    exact ⟨b, (Function.update_of_ne henq.ne' ..).trans hb⟩
  · rintro stage u ⟨rfl, rfl⟩
    exact { arg := hc.arg
            stored := by
              simp only [XhciRing.store, Function.update_self]
              exact hstored
            filling := fun _ => hqueued
            filled := fun hn => absurd hst' hn
            slot := fun _ => henq
            wrapping := fun hw => absurd hw (hwrap hst') }

theorem RingInv.complete (h : RingInv physBase s items) (hcall : s.call = some (.dword3, t)) :
    RingInv physBase
      { s with
        ring := s.ring.store s.ring.enqueue fun u =>
          { u with dword3 := t.dword3 ||| s.ring.pcs.toUInt32 }
        call := some (.count, t) } (items ++ [t]) := by
  have hc := h.call _ t hcall
  have henq : s.ring.enqueue < xhciRingSize - 1 := hc.slot id
  have hqueued := hc.filling trivial
  have hview := ringView_publish s.pos s.ccs h.pcs hc.arg henq hc.stored
  have hdel := h.delivers
  have hroom := h.room
  rw [RingState.view, hcall] at hdel
  rw [hqueued, List.length_append, List.length_singleton] at hroom
  refine { delivers := ⟨?_, ?_⟩, pcs := h.pcs, ccs := h.ccs, link := ?_, room := h.room,
           idle := fun hnone => (nomatch hnone), call := ?_ }
  · rw [RingState.view]
    dsimp only [Option.map_some]
    rw [hview]
    refine hdel.1.publish t henq ?_
    rw [List.length_map]
    exact hroom
  · exact hdel.2.trans (List.prefix_append items [t])
  · obtain ⟨b, hb⟩ := h.link
    exact ⟨b, (Function.update_of_ne henq.ne' ..).trans hb⟩
  · rintro stage u ⟨rfl, rfl⟩
    exact { arg := hc.arg
            stored := trivial
            filling := fun hf => hf.elim
            filled := fun _ => hqueued
            slot := fun _ => henq
            wrapping := fun hw => hw.elim }

theorem RingInv.count (h : RingInv physBase s items) (hcall : s.call = some (.count, t)) :
    RingInv physBase
      { s with
        ring := { s.ring with enqueue := s.ring.enqueue + 1 }
        call := (if xhciRingSize - 1 ≤ s.ring.enqueue + 1 then some Stage.link else none).map
          fun stage => (stage, t) } items := by
  have hc := h.call _ t hcall
  have henq : s.ring.enqueue < xhciRingSize - 1 := hc.slot id
  have hqueued := hc.filled id
  have hdel := h.delivers
  rw [RingState.view, hcall] at hdel
  split_ifs with hlast
  · refine { delivers := hdel, pcs := h.pcs, ccs := h.ccs, link := h.link, room := h.room,
             idle := fun hnone => (nomatch hnone), call := ?_ }
    rintro stage u ⟨rfl, rfl⟩
    exact { arg := hc.arg
            stored := trivial
            filling := fun hf => hf.elim
            filled := fun _ => hqueued
            slot := fun hn => absurd trivial hn
            wrapping := fun _ => le_antisymm henq hlast }
  · exact { delivers := hdel, pcs := h.pcs, ccs := h.ccs, link := h.link, room := h.room
            idle := fun _ => ⟨hqueued, Nat.lt_of_not_le hlast⟩
            call := fun stage u hu => (nomatch hu) }

theorem RingInv.linkStore (h : RingInv physBase s items) (hcall : s.call = some (.link, t)) :
    RingInv physBase
      { s with
        ring := s.ring.store (xhciRingSize - 1) fun u =>
          { u with dword3 := trbDword3 trbTypeLink s.ring.pcs.toUInt32 ||| trbLinkFlagTc }
        call := some (.toggle, t) } items := by
  have hc := h.call _ t hcall
  have hdel := h.delivers
  rw [RingState.view, hcall] at hdel
  obtain ⟨b, hb⟩ := h.link
  have hlink : ({ s.ring.trbs (xhciRingSize - 1) with
      dword3 := trbDword3 trbTypeLink s.ring.pcs.toUInt32 ||| trbLinkFlagTc } : XhciTrb) =
      linkTrbWith physBase (s.ring.pcs == 1) := by
    rw [hb, h.pcs]
    rfl
  have hview := ringView_wrap
    (fun u => { u with dword3 := trbDword3 trbTypeLink s.ring.pcs.toUInt32 ||| trbLinkFlagTc })
    s.pos s.ccs ((congrArg XhciTrb.cycle hlink).trans (cycle_linkTrbWith physBase _))
  refine { delivers := ⟨?_, hdel.2⟩, pcs := h.pcs, ccs := h.ccs, link := ?_, room := h.room,
           idle := fun hnone => (nomatch hnone), call := ?_ }
  · rw [RingState.view]
    dsimp only [Option.map_some]
    rw [hview]
    refine (hdel.1.wrap (hc.wrapping trivial)).of_slot_eq (by decide) fun i hi => ?_
    simp only [ringView, XhciRing.store, CycleRing.wrap, Function.update_of_ne hi.ne]
  · refine ⟨s.ring.pcs == 1, ?_⟩
    simp only [XhciRing.store, Function.update_self]
    exact hlink
  · rintro stage u ⟨rfl, rfl⟩
    exact { arg := hc.arg
            stored := trivial
            filling := fun hf => hf.elim
            filled := fun _ => hc.filled id
            slot := fun hn => absurd trivial hn
            wrapping := fun _ => hc.wrapping trivial }

theorem RingInv.toggle (h : RingInv physBase s items) (hcall : s.call = some (.toggle, t)) :
    RingInv physBase
      { s with ring := { s.ring with pcs := s.ring.pcs ^^^ 1 }, call := some (.reset, t) }
      items := by
  have hc := h.call _ t hcall
  have hflip : ∀ p : UInt8, p.toUInt32 = bitWord (p == 1) →
      (p ^^^ 1).toUInt32 = bitWord (p ^^^ 1 == 1) ∧ (p ^^^ 1 == 1) = !(p == 1) := by
    intro p hp
    cases hb : p == 1 with
    | true =>
      rw [beq_iff_eq] at hb
      subst hb
      decide
    | false =>
      rw [hb] at hp
      have hzero : p = 0 := UInt8.toNat_inj.mp (congrArg UInt32.toNat hp)
      subst hzero
      decide
  obtain ⟨hpcs, hnot⟩ := hflip s.ring.pcs h.pcs
  have hdel := h.delivers
  rw [RingState.view, hcall] at hdel
  refine { delivers := ⟨?_, hdel.2⟩, pcs := hpcs, ccs := h.ccs, link := h.link, room := h.room,
           idle := fun hnone => (nomatch hnone), call := ?_ }
  · rw [RingState.view]
    simp only [ringView, viewPcs, viewTail, Option.map_some, hnot] at hdel ⊢
    exact hdel.1
  · rintro stage u ⟨rfl, rfl⟩
    exact { arg := hc.arg
            stored := trivial
            filling := fun hf => hf.elim
            filled := fun _ => hc.filled id
            slot := fun hn => absurd trivial hn
            wrapping := fun _ => hc.wrapping trivial }

theorem RingInv.reset (h : RingInv physBase s items) (hcall : s.call = some (.reset, t)) :
    RingInv physBase { s with ring := { s.ring with enqueue := 0 }, call := none } items := by
  have hc := h.call _ t hcall
  have hdel := h.delivers
  rw [RingState.view, hcall] at hdel
  exact { delivers := hdel, pcs := h.pcs, ccs := h.ccs, link := h.link, room := h.room
          idle := fun _ => ⟨hc.filled id, slots_pos⟩
          call := fun stage u hu => (nomatch hu) }

theorem RingInv.begin (h : RingInv physBase s items) (hcall : s.call = none)
    (harg : t.dword3 &&& 1 = 0) (hroom : s.queued.length < s.taken.length + (xhciRingSize - 1)) :
    RingInv physBase { s with call := some (.dword0, t), queued := s.queued ++ [t] } items := by
  obtain ⟨hqueued, henq⟩ := h.idle hcall
  have hdel := h.delivers
  rw [RingState.view, hcall] at hdel
  refine { delivers := hdel, pcs := h.pcs, ccs := h.ccs, link := h.link, room := ?_,
           idle := fun hnone => (nomatch hnone), call := ?_ }
  · rw [List.length_append]
    exact hroom
  · rintro stage u ⟨rfl, rfl⟩
    exact { arg := harg
            stored := trivial
            filling := fun _ => by rw [hqueued]
            filled := fun hn => absurd trivial hn
            slot := fun _ => henq
            wrapping := fun hw => hw.elim }

theorem RingInv.bit_ne_iff (h : RingInv physBase s items) (t : XhciTrb) :
    (t.dword3 &&& 1 != s.ccs) = true ↔ t.cycle ≠ (s.ccs == 1) := by
  rw [bne_iff_ne, word_and_one, h.ccs, ne_eq, bitWord_inj, XhciTrb.cycle, ← h.ccs]

theorem RingInv.poll (h : RingInv physBase s items) :
    CycleRing.poll (xhciRingSize - 1) (s.view, s.taken.map XhciTrb.payload) =
      ((consume physBase s).view, (consume physBase s).taken.map XhciTrb.payload) := by
  obtain ⟨-, -, hle, -⟩ := h.delivers.1.consumer
  have hbit := h.bit_ne_iff (s.ring.trbs s.pos)
  rw [CycleRing.poll, consume]
  by_cases hmark : (s.ring.trbs s.pos).cycle = (s.ccs == 1)
  · rw [if_neg fun hne => hbit.mp hne hmark]
    by_cases hpos : s.pos = xhciRingSize - 1
    · obtain ⟨b, hb⟩ := h.link
      have hmark' : s.view.link = s.view.ccs := by
        rw [hpos] at hmark
        exact hmark
      have htc : (linkTrbWith physBase b).dword3 &&& trbLinkFlagTc != 0 := by
        have h : ∀ b, (trbDword3 trbTypeLink (bitWord b) ||| trbLinkFlagTc) &&&
            trbLinkFlagTc != 0 := by
          decide
        exact h b
      have hccs : ∀ c : UInt32, c = bitWord (c == 1) → (c ^^^ 1 == 1) = !(c == 1) := by
        intro c hc
        cases hb : c == 1 <;> rw [hc, hb] <;> decide
      have hhead : ¬ s.view.head < xhciRingSize - 1 := not_lt_of_ge hpos.ge
      rw [if_neg hhead, if_pos hmark', if_pos hpos, hpos, hb, if_pos htc,
        linkPointer_linkTrbWith, Nat.sub_self, Nat.zero_div]
      simp only [RingState.view, ringView, CycleRing.follow, hccs s.ccs h.ccs]
    · have hhead : s.view.head < xhciRingSize - 1 := lt_of_le_of_ne hle hpos
      have hmark' : (s.view.slot s.view.head).2 = s.view.ccs := hmark
      rw [if_pos hhead, if_pos hmark', if_neg hpos, List.map_append]
      rfl
  · rw [if_pos (hbit.mpr hmark)]
    split_ifs with hhead hready hlink
    · exact absurd hready hmark
    · rfl
    · have hpos : s.pos = xhciRingSize - 1 := le_antisymm hle (Nat.le_of_not_lt hhead)
      rw [hpos] at hmark
      exact absurd hlink hmark
    · rfl

theorem ring_consume (physBase : UInt64) (s : RingState) :
    (consume physBase s).ring = s.ring ∧ (consume physBase s).call = s.call ∧
      (consume physBase s).queued = s.queued ∧
      s.taken.length ≤ (consume physBase s).taken.length := by
  rw [consume]
  split_ifs <;> simp

theorem RingInv.consume (h : RingInv physBase s items) :
    RingInv physBase (consume physBase s) items := by
  obtain ⟨hring, hcall, hqueued, htaken⟩ := ring_consume physBase s
  have hdel := h.delivers.poll
  rw [h.poll] at hdel
  have hccs : (Xhci.consume physBase s).ccs = bitWord ((Xhci.consume physBase s).ccs == 1) := by
    have hflip : s.ccs ^^^ 1 = bitWord (s.ccs ^^^ 1 == 1) := by
      rw [h.ccs]
      cases s.ccs == 1 <;> decide
    rw [Xhci.consume]
    split_ifs
    · exact h.ccs
    · exact hflip
    · exact h.ccs
    · exact h.ccs
  refine { delivers := hdel, pcs := ?_, ccs := hccs, link := ?_, room := ?_, idle := ?_,
             call := ?_ }
  · rw [hring]
    exact h.pcs
  · rw [hring]
    exact h.link
  · rw [hqueued]
    exact h.room.trans (Nat.add_le_add_right htaken _)
  · rw [hring, hcall, hqueued]
    exact h.idle
  · rw [hring, hcall, hqueued]
    exact h.call

end Store

/-! ### Whole runs -/

theorem RingInv.step {physBase : UInt64} {s : RingState} (e : RingEvent)
    (h : ∃ items, RingInv physBase s items) (he : Permitted s e) :
    ∃ items, RingInv physBase (ringStep physBase s e) items := by
  obtain ⟨items, h⟩ := h
  cases e with
  | call t =>
    rw [ringStep]
    cases hcall : s.call with
    | none => exact ⟨items, h.begin hcall he.1 he.2⟩
    | some c => exact ⟨items, h⟩
  | store =>
    rw [ringStep]
    cases hcall : s.call with
    | none => exact ⟨items, h⟩
    | some c =>
      obtain ⟨stage, t⟩ := c
      have hc := h.call stage t hcall
      cases stage with
      | dword0 => exact ⟨items, h.fill hcall trivial trivial (fun _ => rfl) rfl⟩
      | dword1 => exact ⟨items, h.fill hcall trivial trivial (fun _ => rfl) ⟨hc.stored, rfl⟩⟩
      | dword2 =>
        obtain ⟨h0, h1⟩ := hc.stored
        exact ⟨items, h.fill hcall trivial trivial (fun _ => rfl) ⟨h0, h1, rfl⟩⟩
      | dword3 => exact ⟨items ++ [t], h.complete hcall⟩
      | count => exact ⟨items, h.count hcall⟩
      | link => exact ⟨items, h.linkStore hcall⟩
      | toggle => exact ⟨items, h.toggle hcall⟩
      | reset => exact ⟨items, h.reset hcall⟩
  | consume => exact ⟨items, h.consume⟩

theorem RingInv.start (physBase : UInt64) : RingInv physBase (ringStart physBase) [] where
  delivers := by
    refine ⟨CycleRing.Tracks.empty ?_ ?_ rfl rfl rfl rfl, List.nil_prefix⟩
    · intro i hi
      have hne : i ≠ xhciRingSize - 1 := hi.ne
      simp only [RingState.view, ringView, ringStart, xhciRingInit, Function.update_of_ne hne]
      rfl
    · exact cycle_linkTrbWith physBase true
  pcs := rfl
  ccs := rfl
  link := by
    refine ⟨true, ?_⟩
    simp only [ringStart, xhciRingInit, Function.update_self]
    rfl
  room := Nat.zero_le _
  idle _ := ⟨rfl, slots_pos⟩
  call _ _ h := nomatch h

theorem exists_ringInv {physBase : UInt64} {es : List RingEvent}
    (h : AllSteps (ringStep physBase) Permitted (ringStart physBase) es) :
    ∃ items, RingInv physBase (run (ringStep physBase) (ringStart physBase) es) items :=
  run_invariant (ringStep physBase) (I := fun s => ∃ items, RingInv physBase s items)
    (fun _ e => RingInv.step e) ⟨[], .start physBase⟩ h

theorem RingInv.replicate_consume {physBase : UInt64} {items : List XhciTrb} (k : ℕ) :
    ∀ {s : RingState}, RingInv physBase s items →
      (run (ringStep physBase) s (List.replicate k .consume)).taken.map XhciTrb.payload =
        ((CycleRing.poll (xhciRingSize - 1))^[k] (s.view, s.taken.map XhciTrb.payload)).2 := by
  induction k with
  | zero => exact fun _ => rfl
  | succ k ih =>
    intro s h
    rw [List.replicate_succ, run_cons, Function.iterate_succ_apply, h.poll]
    exact ih h.consume

/-- Between two calls, the controller gets every TRB that was enqueued if and only if it does not
stand at a Link TRB that has been marked for the lap after the next. -/
theorem RingInv.exists_drain_iff {physBase : UInt64} {s : RingState} {items : List XhciTrb}
    (h : RingInv physBase s items) (hcall : s.call = none) :
    (∃ k, (run (ringStep physBase) s (List.replicate k .consume)).taken.map XhciTrb.payload =
        s.queued) ↔
      ¬ (s.pos = xhciRingSize - 1 ∧ s.queued.length = s.taken.length + (xhciRingSize - 1)) := by
  obtain ⟨hqueued, henq⟩ := h.idle hcall
  have htail : s.view.tail < xhciRingSize - 1 := by
    rw [RingState.view, hcall]
    exact henq
  have hdrain := CycleRing.exists_poll_drain_iff slots_pos h.delivers htail
  rw [CycleRing.Overtaken, List.length_map] at hdrain
  rw [hqueued]
  simp only [h.replicate_consume]
  exact hdrain

/-- The ring is a queue: what the controller has read is what the driver has enqueued, complete and
in order, and between two calls it gets the rest, unless it still stands at the Link TRB when all 63
slots of the next lap are filled. -/
theorem ring_refines_fifo (physBase : UInt64) (es : List RingEvent)
    (h : AllSteps (ringStep physBase) Permitted (ringStart physBase) es) :
    (run (ringStep physBase) (ringStart physBase) es).taken.map XhciTrb.payload <+:
        (run (ringStep physBase) (ringStart physBase) es).queued ∧
      ((run (ringStep physBase) (ringStart physBase) es).call = none →
        ((∃ k, (run (ringStep physBase) (ringStart physBase)
              (es ++ List.replicate k .consume)).taken.map XhciTrb.payload =
            (run (ringStep physBase) (ringStart physBase) es).queued) ↔
          ¬ ((run (ringStep physBase) (ringStart physBase) es).pos = xhciRingSize - 1 ∧
            (run (ringStep physBase) (ringStart physBase) es).queued.length =
              (run (ringStep physBase) (ringStart physBase) es).taken.length +
                (xhciRingSize - 1)))) := by
  obtain ⟨items, hinv⟩ := exists_ringInv h
  simp only [run_append]
  generalize run (ringStep physBase) (ringStart physBase) es = s at hinv ⊢
  constructor
  · refine hinv.delivers.2.trans ?_
    cases hcall : s.call with
    | none => rw [(hinv.idle hcall).1]
    | some c =>
      have hc := hinv.call c.1 c.2 hcall
      by_cases hfill : c.1.Filling
      · rw [hc.filling hfill]
        exact List.prefix_append items [c.2]
      · rw [hc.filled hfill]
  · exact hinv.exists_drain_iff

/-- A lap of the producer, the controller going to the Link TRB, and `n` more calls. -/
def lapThen (n : ℕ) : List RingEvent :=
  let calls (n : ℕ) := (List.replicate n (wholeCall ⟨0, 0, 0, 0⟩)).flatten
  calls 63 ++ List.replicate 63 .consume ++ calls n

/-- With 62 TRBs more the controller gets them all. -/
theorem ring_refines_fifo_lap :
    ∃ k, (run (ringStep 0) (ringStart 0)
        (lapThen 62 ++ List.replicate k .consume)).taken.map XhciTrb.payload =
      (run (ringStep 0) (ringStart 0) (lapThen 62)).queued :=
  ((ring_refines_fifo 0 (lapThen 62) (by decide +kernel)).2 (by decide +kernel)).mpr
    (by decide +kernel)

theorem permitted_lapThen : AllSteps (ringStep 0) Permitted (ringStart 0) (lapThen 63) := by
  decide +kernel

theorem run_lapThen :
    let s := run (ringStep 0) (ringStart 0) (lapThen 63)
    s.call = none ∧ s.pos = xhciRingSize - 1 ∧
      s.queued.length = s.taken.length + (xhciRingSize - 1) := by
  decide +kernel

/-- The bound of 63 TRBs alone is not enough: the Link TRB can be marked for the next lap before the
controller has followed it, which then never gets the 63 TRBs of that lap. -/
theorem ring_not_drained_at_link :
    ¬ ∀ (physBase : UInt64) (es : List RingEvent),
      AllSteps (ringStep physBase) Permitted (ringStart physBase) es →
      (run (ringStep physBase) (ringStart physBase) es).call = none →
      ∃ k, (run (ringStep physBase) (ringStart physBase)
          (es ++ List.replicate k .consume)).taken.map XhciTrb.payload =
        (run (ringStep physBase) (ringStart physBase) es).queued := by
  intro hall
  obtain ⟨hcall, hover⟩ := run_lapThen
  obtain ⟨items, hinv⟩ := exists_ringInv permitted_lapThen
  obtain ⟨k, hk⟩ := hall 0 (lapThen 63) permitted_lapThen hcall
  rw [run_append] at hk
  exact (hinv.exists_drain_iff hcall).mp ⟨k, hk⟩ hover

end StyxOS.Xhci
