import StyxOS.Net.Cell
import StyxOS.Net.FailClosed

/-! # Cells among the noise

The frames of `tor_send_cell` beside those of `padding_tick` and
`padding_inject_noise`, for an observer who sees their headers and lengths.
-/

namespace StyxOS

open Access ByteMem

/-- What an observer can compare: the length, and the Ethernet, IPv4 and UDP headers. -/
def SameOutside (frame frame' : List UInt8) : Prop :=
  frame.length = frame'.length ∧ frame.take 42 = frame'.take 42

def HandsOver (m m' : Machine) (frame : List UInt8) : Prop := m'.nic.sent = m.nic.sent ++ [frame]

namespace NetKernel

variable (s : NetKernel)

def paddingInjectNoise : Bool × NetKernel :=
  let out := sendNoise s.machine
  let ok := out.value.getD false
  (ok,
    { s with
      machine := out.state
      paddingPacketsSent := s.paddingPacketsSent + if ok then 1 else 0 })

def withEntropy (entropy : ℕ → UInt8) : NetKernel :=
  { s with machine := { s.machine with entropy := entropy } }

/-- For the frame of a cell there are random numbers and a tick at which the timer sends one like
it, and random numbers with which `padding_inject_noise` does. -/
def CellHidden (payload : UInt64) (len : UInt16) (capToken : UInt32) : Prop :=
  ∀ frame, HandsOver s.machine (torSendCell payload len capToken s.machine).state frame →
    (∃ entropy ticks frame',
      HandsOver s.machine ((s.withEntropy entropy).paddingTick ticks).machine frame' ∧
        SameOutside frame frame') ∧
    ∃ entropy frame',
      HandsOver s.machine (s.withEntropy entropy).paddingInjectNoise.2.machine frame' ∧
        SameOutside frame frame'

/-- For the frame of a noise packet there are a circuit and a payload whose cell goes out in one
like it from the same address. -/
def NoiseHidden : Prop :=
  ∀ s', (∃ ticks, s' = s.paddingTick ticks) ∨ s' = s.paddingInjectNoise.2 →
    ∀ frame, HandsOver s.machine s'.machine frame →
      ∃ m payload len capToken frame', m.anonymizedMac = s.machine.anonymizedMac ∧
        HandsOver m (torSendCell payload len capToken m).state frame' ∧ SameOutside frame frame'

end NetKernel

/-! ### The two kinds of frame -/

section

variable {m : Machine} {s : NetKernel} {frame frame' : List UInt8} {payload : UInt64}
  {len : UInt16} {capToken : UInt32}

def IsCell (m : Machine) (frame : List UInt8) : Prop :=
  ∃ cell, netBuildUdp (torFlow m.anonymizedMac) cell = some frame ∧ cell.length = torCellSize

theorem IsCell.ne_noise (hmac : m.anonymizedMac.length = 6) (h : IsCell m frame)
    (h' : IsNoise m frame') :
    frame.length ≠ frame'.length ∧ frame.take 42 ≠ frame'.take 42 := by
  obtain ⟨cell, hframe, hcell⟩ := h
  obtain ⟨srcPort, dstPort, noise, hframe', -, hhigh⟩ := h'
  obtain ⟨hlen, hdst, -⟩ := udpFrame_parts hmac rfl hframe
  obtain ⟨hlen', hdst', -⟩ := udpFrame_parts hmac rfl hframe'
  have hsize : torCellSize = 512 := rfl
  constructor
  · omega
  · intro heq
    have hsix := congrArg (List.take 6) heq
    simp only [List.take_take, Nat.min_eq_left (show 6 ≤ 42 by decide)] at hsix
    rw [hdst, hdst'] at hsix
    revert hsix
    simp [torFlow, gwMac, noiseFlow]

theorem IsCell.not_sameOutside (hmac : m.anonymizedMac.length = 6) (h : IsCell m frame)
    (h' : IsNoise m frame') : ¬ SameOutside frame frame' ∧ ¬ SameOutside frame' frame :=
  ⟨fun ha => (h.ne_noise hmac h').1 ha.1, fun ha => (h.ne_noise hmac h').1 ha.1.symm⟩

theorem not_handsOver_self : ¬ HandsOver m m frame := by
  simp [HandsOver]

theorem handsOver_torSendCell (hmac : m.anonymizedMac.length = 6)
    (h : HandsOver m (torSendCell payload len capToken m).state frame) : IsCell m frame := by
  by_cases hgo : capToken = torCapabilityToken ∧ m.torCircuit.established = true ∧
      (payload ≠ 0 → m.Reads payload (torCopyLen len))
  · obtain ⟨rfl, hup, hr⟩ := hgo
    obtain ⟨frame', hframe', hsent⟩ := sent_torSendCell hmac hup hr
    rw [HandsOver, hsent] at h
    split at h
    · obtain rfl : frame' = frame := by simpa using h
      exact ⟨_, hframe', length_sealedCell _ _ _⟩
    · simp at h
  · have hnic := (torSendCell_of_idle hgo).2
    simp [HandsOver, hnic] at h

theorem handsOver_sendNoise (hmac : m.anonymizedMac.length = 6)
    (h : HandsOver m (sendNoise m).state frame) : IsNoise m frame := by
  obtain ⟨frame', entropy, hnoise, happly⟩ := sendNoise_apply hmac
  obtain ⟨hlow, hhigh⟩ := hnoise.length hmac
  have hbuffer : e1000BufferSize = 2048 := rfl
  rw [HandsOver, happly, sent_sendFrame_eq (by omega) (by omega)] at h
  split at h
  · obtain rfl : frame' = frame := by simpa using h
    exact hnoise
  · simp at h

theorem NetKernel.isNoise_of_paddingTick {ticks : UInt64}
    (hmac : s.machine.anonymizedMac.length = 6)
    (h : HandsOver s.machine (s.paddingTick ticks).machine frame) : IsNoise s.machine frame := by
  unfold NetKernel.paddingTick at h
  split at h
  · exact absurd h not_handsOver_self
  · split at h
    · rw [NetKernel.machine_injectNoise] at h
      exact handsOver_sendNoise hmac h
    · exact absurd h not_handsOver_self

@[simp] theorem NetKernel.machine_paddingInjectNoise :
    s.paddingInjectNoise.2.machine = (sendNoise s.machine).state := by
  rw [NetKernel.paddingInjectNoise]

/-! ### What an observer can tell -/

theorem NetKernel.cellHidden_iff (hmac : s.machine.anonymizedMac.length = 6) :
    s.CellHidden payload len capToken ↔
      ¬(capToken = torCapabilityToken ∧ s.machine.torCircuit.established = true ∧
        (payload ≠ 0 → s.machine.Reads payload (torCopyLen len)) ∧ s.machine.NicAccepts) := by
  constructor
  · rintro h ⟨rfl, hup, hr, hnic⟩
    obtain ⟨frame, -, hsent⟩ := sent_torSendCell hmac hup hr
    rw [if_pos hnic] at hsent
    obtain ⟨⟨entropy, ticks, frame', hnoise, halike⟩, -⟩ := h frame hsent
    have hcell := handsOver_torSendCell hmac hsent
    have hnoise' : IsNoise s.machine frame' :=
      NetKernel.isNoise_of_paddingTick (s := s.withEntropy entropy) hmac hnoise
    exact (hcell.not_sameOutside hmac hnoise').1 halike
  · intro hidle frame hsends
    exfalso
    by_cases hgo : capToken = torCapabilityToken ∧ s.machine.torCircuit.established = true ∧
        (payload ≠ 0 → s.machine.Reads payload (torCopyLen len))
    · obtain ⟨rfl, hup, hr⟩ := hgo
      obtain ⟨frame', -, hsent⟩ := sent_torSendCell hmac hup hr
      rw [if_neg fun hnic => hidle ⟨rfl, hup, hr, hnic⟩] at hsent
      simp [HandsOver, hsent] at hsends
    · simp [HandsOver, (torSendCell_of_idle hgo).2] at hsends

theorem NetKernel.noiseHidden_iff (hmac : s.machine.anonymizedMac.length = 6) :
    s.NoiseHidden ↔ ¬ s.machine.NicAccepts := by
  have hinject : s.paddingInjectNoise.2.machine = (sendNoise s.machine).state :=
    NetKernel.machine_paddingInjectNoise
  constructor
  · intro h hnic
    obtain ⟨frame, entropy, hnoise, happly⟩ := sendNoise_apply hmac
    obtain ⟨hlow, hhigh⟩ := hnoise.length hmac
    have hbuffer : e1000BufferSize = 2048 := rfl
    have hsent : HandsOver s.machine s.paddingInjectNoise.2.machine frame := by
      rw [hinject, happly, HandsOver, sent_sendFrame_eq (by omega) (by omega)]
      exact if_pos hnic
    obtain ⟨m, payload, len, capToken, frame', hsame, hcell, halike⟩ :=
      h _ (.inr rfl) frame hsent
    have hcell' := handsOver_torSendCell (hsame ▸ hmac) hcell
    have hnoise' : IsNoise m frame := by
      unfold IsNoise
      rw [hsame]
      exact hnoise
    exact (hcell'.not_sameOutside (hsame ▸ hmac) hnoise').2 halike
  · rintro hnic s' hs' frame hsends
    have hsame := (sent_sendNoise hmac).mpr hnic
    have hnone : ¬ HandsOver s.machine (sendNoise s.machine).state frame := by
      simp [HandsOver, hsame]
    exfalso
    obtain ⟨ticks, rfl⟩ | rfl := hs'
    · unfold NetKernel.paddingTick at hsends
      split at hsends
      · exact not_handsOver_self hsends
      · split at hsends
        · rw [NetKernel.machine_injectNoise] at hsends
          exact hnone hsends
        · exact not_handsOver_self hsends
    · exact hnone (hinject ▸ hsends)

/-- Cells and noise are hidden among each other exactly when the card is handed no cell and takes no
frame. -/
theorem padding_indistinguishable_iff (s : NetKernel) (hmac : s.machine.anonymizedMac.length = 6)
    (payload : UInt64) (len : UInt16) (capToken : UInt32) :
    (s.CellHidden payload len capToken ↔
      ¬(capToken = torCapabilityToken ∧ s.machine.torCircuit.established = true ∧
        (payload ≠ 0 → s.machine.Reads payload (torCopyLen len)) ∧ s.machine.NicAccepts)) ∧
      (s.NoiseHidden ↔ ¬ s.machine.NicAccepts) :=
  ⟨NetKernel.cellHidden_iff hmac, NetKernel.noiseHidden_iff hmac⟩

theorem padding_indistinguishable_iff_sample :
    (netSample 0).CellHidden 0 0 0 := by
  apply (padding_indistinguishable_iff (netSample 0) rfl 0 0 0).1.mpr
  rintro ⟨htoken, -⟩
  revert htoken
  decide

/-- On a machine with a circuit and a card that takes every frame, cells and noise are apart. -/
theorem padding_distinguishable :
    ¬ (netSample 0).CellHidden 0 0 torCapabilityToken ∧ ¬ (netSample 0).NoiseHidden := by
  have hnic : (netSample 0).machine.NicAccepts := by decide
  constructor
  · rw [NetKernel.cellHidden_iff rfl, not_not]
    exact ⟨rfl, rfl, fun h => absurd rfl h, hnic⟩
  · rw [NetKernel.noiseHidden_iff rfl, not_not]
    exact hnic

end

end StyxOS
