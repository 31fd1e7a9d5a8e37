import StyxOS.Net.FailClosed

/-! # The schedule of circuit rotations

`tor_tick` keeps the tick of the last rotation in 32 bits, with 0 for none, and
compares it with a count of 64 bits. From the first stored tick on, rotations
are 6000 ticks apart up to the first one that does not fit into 32 bits; the
next one follows after one tick, or after two.
-/

namespace StyxOS

open StepSystem

/-! ## The stored tick -/

/-- What `tor_tick` makes of the stored tick, and whether it rotates. -/
def rotationStep (last ticks : ℕ) : ℕ × Bool :=
  if last = 0 then (ticks % 2 ^ 32, false)
  else if 6000 ≤ ticks - last then (ticks % 2 ^ 32, true)
  else (last, false)

/-- The stored tick before the call number `i`, for calls at the ticks from `s` on. -/
def stored (s : ℕ) : ℕ → ℕ
  | 0 => 0
  | i + 1 => (rotationStep (stored s i) (s + i)).1

/-- The call number `i` rotates. -/
def Rotates (s i : ℕ) : Prop := (rotationStep (stored s i) (s + i)).2 = true
deriving Decidable

/-- The first tick that is stored as something else than 0. -/
def firstTick (s : ℕ) : ℕ := if s % 2 ^ 32 = 0 then s + 1 else s

/-- The first rotation from tick `2 ^ 32` on. -/
def wideTick (s : ℕ) : ℕ :=
  if firstTick s < 2 ^ 32 then firstTick s + (2 ^ 32 - firstTick s + 5999) / 6000 * 6000
  else firstTick s + 1

/-- The rotation after that, which comes too early. -/
def earlyTick (s : ℕ) : ℕ := if wideTick s % 2 ^ 32 = 0 then wideTick s + 2 else wideTick s + 1

/-- Consecutive rotations among the first `n` calls are 6000 ticks apart. -/
def EvenlySpaced (rotates : ℕ → Prop) (n : ℕ) : Prop :=
  ∀ i j, i < j → j < n → rotates i → rotates j → (∀ k, i < k → k < j → ¬ rotates k) → j = i + 6000

variable {s i : ℕ}

theorem rotates_iff : Rotates s i ↔ stored s i ≠ 0 ∧ 6000 ≤ s + i - stored s i := by
  rw [Rotates, rotationStep]
  split
  · simp [*]
  · split <;> simp [*]

theorem stored_of_rotates (h : Rotates s i) : stored s (i + 1) = (s + i) % 2 ^ 32 := by
  obtain ⟨hne, hdue⟩ := rotates_iff.mp h
  rw [stored, rotationStep, if_neg hne, if_pos hdue]

theorem stored_of_zero (h : stored s i = 0) : stored s (i + 1) = (s + i) % 2 ^ 32 := by
  rw [stored, rotationStep, if_pos h]

theorem stored_of_idle (hne : stored s i ≠ 0) (h : ¬ Rotates s i) :
    stored s (i + 1) = stored s i := by
  have hdue : ¬ 6000 ≤ s + i - stored s i := fun hdue => h (rotates_iff.mpr ⟨hne, hdue⟩)
  rw [stored, rotationStep, if_neg hne, if_neg hdue]

theorem stored_first (s : ℕ) :
    s ≤ firstTick s ∧ (∀ i, s + i ≤ firstTick s → ¬ Rotates s i) ∧
      stored s (firstTick s - s + 1) = firstTick s % 2 ^ 32 ∧ firstTick s % 2 ^ 32 ≠ 0 := by
  have hzero : ¬ Rotates s 0 := fun h => (rotates_iff.mp h).1 rfl
  have hfirst : stored s 1 = s % 2 ^ 32 := stored_of_zero rfl
  rw [firstTick]
  split
  · next hs =>
    rw [hs] at hfirst
    refine ⟨Nat.le_succ s, ?_, ?_, by omega⟩
    · intro i hi
      obtain rfl | rfl : i = 0 ∨ i = 1 := by omega
      · exact hzero
      · exact fun h => (rotates_iff.mp h).1 hfirst
    · have hidx : s + 1 - s + 1 = 2 := by omega
      rw [hidx, stored_of_zero hfirst]
  · next hs =>
    refine ⟨le_rfl, ?_, ?_, hs⟩
    · intro i hi
      obtain rfl : i = 0 := by omega
      exact hzero
    · rw [Nat.sub_self]
      exact hfirst

/-- Up to the first rotation from tick `2 ^ 32` on, the stored tick is the last one on the grid of
6000 ticks. -/
theorem stored_grid (hsmall : firstTick s < 2 ^ 32) (hlow : firstTick s < s + i)
    (hhigh : s + i ≤ wideTick s) :
    stored s i = firstTick s + (s + i - 1 - firstTick s) / 6000 * 6000 := by
  obtain ⟨hle, -, hstored, hne⟩ := stored_first s
  rw [wideTick, if_pos hsmall] at hhigh
  induction i with
  | zero => omega
  | succ i ih =>
    by_cases hbase : firstTick s = s + i
    · have hidx : i + 1 = firstTick s - s + 1 := by omega
      rw [hidx, hstored, Nat.mod_eq_of_lt hsmall]
      omega
    · have hprev := ih (by omega) (by omega)
      have hpos : stored s i ≠ 0 := by
        rw [hprev]
        omega
      by_cases hrot : Rotates s i
      · have hdue := (rotates_iff.mp hrot).2
        rw [hprev] at hdue
        rw [stored_of_rotates hrot, Nat.mod_eq_of_lt (by omega)]
        omega
      · have hdue : ¬ 6000 ≤ s + i - stored s i := fun hdue => hrot (rotates_iff.mpr ⟨hpos, hdue⟩)
        rw [hprev] at hdue
        rw [stored_of_idle hpos hrot, hprev]
        omega

theorem rotates_wide (s : ℕ) :
    firstTick s < wideTick s ∧ 2 ^ 32 ≤ wideTick s ∧ Rotates s (wideTick s - s) ∧
      stored s (wideTick s - s + 1) = wideTick s % 2 ^ 32 := by
  obtain ⟨hle, -, hstored, hne⟩ := stored_first s
  have hwide : firstTick s < wideTick s ∧ 2 ^ 32 ≤ wideTick s := by
    rw [wideTick]
    split <;> omega
  have hidx : s + (wideTick s - s) = wideTick s := by omega
  have hrot : Rotates s (wideTick s - s) := by
    rw [rotates_iff, hidx]
    by_cases hsmall : firstTick s < 2 ^ 32
    · rw [stored_grid hsmall (by omega) (by omega), hidx, wideTick, if_pos hsmall]
      omega
    · have hnext : wideTick s - s = firstTick s - s + 1 := by
        rw [wideTick, if_neg hsmall]
        omega
      have hmod : firstTick s % 2 ^ 32 < 2 ^ 32 := Nat.mod_lt _ (by decide)
      have hdiv := Nat.div_add_mod (firstTick s) (2 ^ 32)
      rw [hnext, hstored, wideTick, if_neg hsmall]
      omega
  refine ⟨hwide.1, hwide.2, hrot, ?_⟩
  rw [stored_of_rotates hrot, hidx]

theorem rotates_before_early (h : s + i < earlyTick s) :
    Rotates s i ↔ firstTick s < s + i ∧ s + i ≤ wideTick s ∧
      (firstTick s < 2 ^ 32 → (s + i - firstTick s) % 6000 = 0) := by
  obtain ⟨hle, hidle, -, hne⟩ := stored_first s
  obtain ⟨hfirst, -, hwide, hnext⟩ := rotates_wide s
  by_cases hlow : s + i ≤ firstTick s
  · exact iff_of_false (hidle i hlow) fun hr => by omega
  · by_cases hhigh : s + i ≤ wideTick s
    · by_cases hsmall : firstTick s < 2 ^ 32
      · rw [rotates_iff, stored_grid hsmall (by omega) hhigh]
        omega
      · have hlast : i = wideTick s - s := by
          rw [wideTick, if_neg hsmall] at hhigh ⊢
          omega
        rw [hlast]
        exact iff_of_true hwide ⟨by omega, by omega, fun hs => absurd hs hsmall⟩
    · -- the tick after a rotation that was stored as 0
      rw [earlyTick] at h
      split at h
      · next hzero =>
        have hlast : i = wideTick s - s + 1 := by omega
        have hnone : stored s i = 0 := by rw [hlast, hnext, hzero]
        exact iff_of_false (fun hr => (rotates_iff.mp hr).1 hnone) fun hr => by omega
      · omega

theorem rotates_early (s : ℕ) : wideTick s < earlyTick s ∧ earlyTick s ≤ wideTick s + 2 ∧
    Rotates s (earlyTick s - s) := by
  obtain ⟨hle, -, -, -⟩ := stored_first s
  obtain ⟨hfirst, hbig, -, hnext⟩ := rotates_wide s
  rw [earlyTick]
  split
  · next hzero =>
    refine ⟨by omega, le_rfl, ?_⟩
    have hnone : stored s (wideTick s - s + 1) = 0 := by rw [hnext, hzero]
    have hidx : wideTick s + 2 - s = wideTick s - s + 1 + 1 := by omega
    rw [rotates_iff, hidx, stored_of_zero hnone]
    omega
  · next hne =>
    refine ⟨by omega, by omega, ?_⟩
    have hidx : wideTick s + 1 - s = wideTick s - s + 1 := by omega
    have hmod : wideTick s % 2 ^ 32 < 2 ^ 32 := Nat.mod_lt _ (by decide)
    have hdiv := Nat.div_add_mod (wideTick s) (2 ^ 32)
    rw [rotates_iff, hidx, hnext]
    omega

theorem evenlySpaced_iff (s n : ℕ) : EvenlySpaced (Rotates s) n ↔ s + n ≤ earlyTick s := by
  obtain ⟨hfirst, hbig, hwide, -⟩ := rotates_wide s
  obtain ⟨hlater, hsoon, hearly⟩ := rotates_early s
  obtain ⟨hle, -, -, -⟩ := stored_first s
  constructor
  · intro heven
    by_contra hlong
    have hnone : ∀ k, wideTick s - s < k → k < earlyTick s - s → ¬ Rotates s k := by
      intro k hlow hhigh hr
      have hk := (rotates_before_early (s := s) (i := k) (by omega)).mp hr
      omega
    have hgap := heven (wideTick s - s) (earlyTick s - s) (by omega) (by omega) hwide hearly hnone
    omega
  · intro hshort i j hij hj hi hrot hnone
    have hi' := (rotates_before_early (by omega)).mp hi
    have hj' := (rotates_before_early (by omega)).mp hrot
    by_cases hsmall : firstTick s < 2 ^ 32
    · have hgi := hi'.2.2 hsmall
      have hgj := hj'.2.2 hsmall
      by_contra hne
      -- the next tick of the grid has a rotation
      obtain ⟨k, hk⟩ : ∃ k, k = i + 6000 := ⟨_, rfl⟩
      refine hnone k (by omega) (by omega) ((rotates_before_early (by omega)).mpr ?_)
      omega
    · -- the only rotation is the one after the first tick
      have hwide' : wideTick s = firstTick s + 1 := by rw [wideTick, if_neg hsmall]
      omega

theorem stored_le (s i : ℕ) : stored s i ≤ s + i := by
  induction i with
  | zero => exact Nat.zero_le _
  | succ i ih =>
    have hmod : (s + i) % 2 ^ 32 ≤ s + i := Nat.mod_le _ _
    rw [stored, rotationStep]
    split
    · dsimp only
      omega
    · split
      · dsimp only
        omega
      · dsimp only
        omega

/-! ## The calls of `tor_tick` -/

namespace NetKernel

variable (s : NetKernel) {ticks : UInt64}

/-- `tor_tick` calls `tor_rotate_circuit`. -/
def TickRotates (ticks : UInt64) : Prop :=
  s.machine.torCircuit.established = true ∧ s.lastRotationTicks ≠ 0 ∧
    6000 ≤ ticks - s.lastRotationTicks.toUInt64

instance (ticks : UInt64) : Decidable (s.TickRotates ticks) :=
  inferInstanceAs (Decidable (_ ∧ _ ∧ _))

variable {s}

/-- With the circuit established, `tor_tick` rotates it, or stores its first tick, or does
nothing. -/
theorem torTick_eq (hest : s.machine.torCircuit.established = true) (ticks : UInt64) :
    s.torTick ticks =
      if s.TickRotates ticks then { s with lastRotationTicks := ticks.toUInt32 }.torRotateCircuit
      else if s.lastRotationTicks = 0 then { s with lastRotationTicks := ticks.toUInt32 }
      else s := by
  rw [torTick, if_neg (by simp [hest])]
  by_cases hnone : s.lastRotationTicks = 0
  · have hno : ¬ s.TickRotates ticks := fun h => h.2.1 hnone
    rw [if_neg hno, if_pos hnone, if_pos hnone]
  · have hiff : s.TickRotates ticks ↔ 6000 ≤ ticks - s.lastRotationTicks.toUInt64 :=
      ⟨fun h => h.2.2, fun h => ⟨hest, hnone, h⟩⟩
    simp only [hiff, if_neg hnone]

/-- A call with the circuit established, on the numbers of its ticks. -/
theorem torTick_step (hest : s.machine.torCircuit.established = true) {t : ℕ} (ht : t < 2 ^ 64)
    (hle : s.lastRotationTicks.toNat ≤ t) :
    (s.torTick (UInt64.ofNat t)).lastRotationTicks.toNat =
        (rotationStep s.lastRotationTicks.toNat t).1 ∧
      (s.TickRotates (UInt64.ofNat t) ↔ (rotationStep s.lastRotationTicks.toNat t).2 = true) := by
  have hzero : s.lastRotationTicks = 0 ↔ s.lastRotationTicks.toNat = 0 := UInt32.toNat_inj.symm
  have htick : (UInt64.ofNat t).toNat = t := UInt64.toNat_ofNat_of_lt' ht
  have hdue : 6000 ≤ UInt64.ofNat t - s.lastRotationTicks.toUInt64 ↔
      6000 ≤ t - s.lastRotationTicks.toNat := by
    have hsub : s.lastRotationTicks.toUInt64 ≤ UInt64.ofNat t := by
      rw [UInt64.le_iff_toNat_le, htick, UInt32.toNat_toUInt64]
      exact hle
    rw [UInt64.le_iff_toNat_le, UInt64.toNat_sub_of_le _ _ hsub, htick, UInt32.toNat_toUInt64]
    rfl
  rw [torTick_eq hest]
  simp only [TickRotates, rotationStep, hest, true_and, hdue, ne_eq, hzero]
  by_cases hnone : s.lastRotationTicks.toNat = 0
  · simp [hnone]
  · by_cases hlate : 6000 ≤ t - s.lastRotationTicks.toNat
    · simp [hnone, hlate, torRotateCircuit]
    · simp [hnone, hlate]

end NetKernel

/-- Calls of `tor_tick` at the `n` ticks from `s` on, in the states `st`, with the circuit
established and no rotation stored before. What runs between two calls leaves the stored tick. -/
structure TorRun (st : ℕ → NetKernel) (s n : ℕ) : Prop where
  bound : s + n ≤ 2 ^ 64
  start : (st 0).lastRotationTicks = 0
  established : ∀ i < n, (st i).machine.torCircuit.established = true
  next : ∀ i, i + 1 < n →
    (st (i + 1)).lastRotationTicks = ((st i).torTick (UInt64.ofNat (s + i))).lastRotationTicks

namespace TorRun

variable {st : ℕ → NetKernel} {n : ℕ}

theorem stored (h : TorRun st s n) (hi : i < n) : (st i).lastRotationTicks.toNat = stored s i := by
  induction i with
  | zero =>
    rw [h.start]
    rfl
  | succ i ih =>
    have hprev := ih (by omega)
    have hle : (st i).lastRotationTicks.toNat ≤ s + i := hprev ▸ stored_le s i
    have hbound := h.bound
    have hstep := (NetKernel.torTick_step (h.established i (by omega)) (by omega) hle).1
    rw [h.next i hi, hstep, hprev]
    rfl

theorem tickRotates_iff (h : TorRun st s n) (hi : i < n) :
    (st i).TickRotates (UInt64.ofNat (s + i)) ↔ Rotates s i := by
  have hstored := h.stored hi
  have hle : (st i).lastRotationTicks.toNat ≤ s + i := hstored ▸ stored_le s i
  have hbound := h.bound
  rw [(NetKernel.torTick_step (h.established i hi) (by omega) hle).2, hstored]
  rfl

end TorRun

theorem EvenlySpaced.congr {p q : ℕ → Prop} {n : ℕ} (h : ∀ i < n, (p i ↔ q i)) :
    EvenlySpaced p n ↔ EvenlySpaced q n := by
  have himp : ∀ {p q : ℕ → Prop}, (∀ i < n, (p i ↔ q i)) → EvenlySpaced p n → EvenlySpaced q n := by
    intro p q h heven i j hij hj hi hrot hnone
    exact heven i j hij hj ((h i (by omega)).mpr hi) ((h j hj).mpr hrot)
      fun k hlow hhigh hk => hnone k hlow hhigh ((h k (by omega)).mp hk)
  exact ⟨himp h, himp fun i hi => (h i hi).symm⟩

/-- Consecutive rotations are 6000 ticks apart exactly in the runs that end before the rotation
after the first one from tick `2 ^ 32` on. -/
theorem tor_rotation_iff {st : ℕ → NetKernel} {s n : ℕ} (h : TorRun st s n) :
    EvenlySpaced (fun i => (st i).TickRotates (UInt64.ofNat (s + i))) n ↔ s + n ≤ earlyTick s := by
  rw [EvenlySpaced.congr fun i => h.tickRotates_iff, evenlySpaced_iff]

/-! ### The interrupts of the timer -/

section

variable {K : KernelLayout} {k : NetKernel}

theorem netStep_counters {op : NetOp} (hop : ∀ cpu, op ≠ .tick cpu) :
    (netStep K k op).pitTicks = k.pitTicks ∧
      (netStep K k op).lastRotationTicks = k.lastRotationTicks := by
  unfold netStep
  split
  · exact ⟨rfl, rfl⟩
  · cases op with
    | tick cpu => exact absurd rfl (hop cpu)
    | shell cmdLine mismatch drawn =>
      simp only [NetKernel.shellExecuteCmd]
      split_ifs <;> simp only [NetKernel.torRotateCircuit, NetKernel.drawLeaves,
        NetKernel.destruct, and_self]
    | _ => simp only [and_self]

theorem run_counters {ops : List NetOp} (hops : ∀ op ∈ ops, ∀ cpu, op ≠ .tick cpu) :
    (run (netStep K) k ops).pitTicks = k.pitTicks ∧
      (run (netStep K) k ops).lastRotationTicks = k.lastRotationTicks ∧
      (run (netStep K) k ops).machine.standing = k.machine.standing := by
  induction ops generalizing k with
  | nil => exact ⟨rfl, rfl, rfl⟩
  | cons op ops ih =>
    obtain ⟨hpit, hlast⟩ := netStep_counters (K := K) (k := k) (hops op List.mem_cons_self)
    obtain ⟨hpits, hlasts, hstanding⟩ := ih (k := netStep K k op)
      fun op' hop' => hops op' (List.mem_cons_of_mem op hop')
    exact ⟨hpits.trans hpit, hlasts.trans hlast, hstanding.trans (standing_netStep k op)⟩

/-- The state in which an interrupt of the timer calls `tor_tick`. -/
def NetKernel.atTorTick (k : NetKernel) : NetKernel :=
  { k with pitTicks := k.pitTicks + 1 }.paddingTick (k.pitTicks + 1)

/-- The state before the interrupt number `i`, with the steps `between` the interrupts. -/
def beforeInterrupt (K : KernelLayout) (cpu : ℕ → TaskRegs) (between : ℕ → List NetOp)
    (k : NetKernel) : ℕ → NetKernel
  | 0 => k
  | i + 1 => run (netStep K) ((beforeInterrupt K cpu between k i).pitCallback K (cpu i)) (between i)

/-- The interrupts of the timer call `tor_tick` at consecutive ticks, whatever the system calls and
commands between them are. -/
theorem torRun_interrupts (cpu : ℕ → TaskRegs) {between : ℕ → List NetOp}
    (hbetween : ∀ i, ∀ op ∈ between i, ∀ cpu, op ≠ .tick cpu) (hlast : k.lastRotationTicks = 0)
    (hest : k.machine.torCircuit.established = true) {n : ℕ}
    (hbound : k.pitTicks.toNat + 1 + n ≤ 2 ^ 64) :
    TorRun (fun i => (beforeInterrupt K cpu between k i).atTorTick) (k.pitTicks.toNat + 1) n := by
  have hpadding : ∀ (k : NetKernel) ticks, (k.paddingTick ticks).pitTicks = k.pitTicks ∧
      (k.paddingTick ticks).lastRotationTicks = k.lastRotationTicks := by
    intro k ticks
    rw [NetKernel.paddingTick]
    split_ifs <;> simp only [NetKernel.injectNoise, and_self]
  have htor : ∀ (k : NetKernel) ticks, (k.torTick ticks).pitTicks = k.pitTicks := by
    intro k ticks
    rw [NetKernel.torTick]
    split_ifs <;> simp only [NetKernel.torRotateCircuit]
  have hbefore : ∀ i, (beforeInterrupt K cpu between k i).pitTicks = k.pitTicks + UInt64.ofNat i ∧
      (beforeInterrupt K cpu between k i).machine.standing = k.machine.standing := by
    intro i
    induction i with
    | zero => exact ⟨(UInt64.add_zero _).symm, rfl⟩
    | succ i ih =>
      obtain ⟨hpit, -, hstanding⟩ := run_counters (K := K)
        (k := (beforeInterrupt K cpu between k i).pitCallback K (cpu i)) (hbetween i)
      rw [beforeInterrupt]
      constructor
      · rw [hpit]
        change (NetKernel.torTick _ _).pitTicks = _
        rw [htor, (hpadding _ _).1]
        change (beforeInterrupt K cpu between k i).pitTicks + 1 = _
        rw [ih.1, UInt64.ofNat_add, UInt64.add_assoc]
        rfl
      · rw [hstanding]
        change (NetKernel.torTick _ _).machine.standing = _
        rw [NetKernel.standing_torTick, NetKernel.standing_paddingTick]
        exact ih.2
  refine ⟨hbound, ?_, ?_, ?_⟩
  · exact ((hpadding _ _).2).trans hlast
  · intro i _
    have hstanding : (beforeInterrupt K cpu between k i).atTorTick.machine.standing =
        k.machine.standing := by
      rw [NetKernel.atTorTick, NetKernel.standing_paddingTick]
      exact (hbefore i).2
    exact (congrArg (fun x => x.2.1) hstanding).trans hest
  · intro i _
    have htick : (beforeInterrupt K cpu between k i).pitTicks + 1 =
        UInt64.ofNat (k.pitTicks.toNat + 1 + i) := by
      rw [(hbefore i).1, UInt64.ofNat_add, UInt64.ofNat_add, UInt64.ofNat_toNat, UInt64.add_assoc,
        UInt64.add_assoc, UInt64.add_comm (UInt64.ofNat i)]
      rfl
    obtain ⟨-, hkept, -⟩ := run_counters (K := K)
      (k := (beforeInterrupt K cpu between k i).pitCallback K (cpu i)) (hbetween i)
    rw [← htick]
    exact ((hpadding _ _).2).trans hkept

end

/-- The states in which `tor_tick` is called when nothing runs between the calls. -/
def torTicks (k : NetKernel) (s : ℕ) : ℕ → NetKernel
  | 0 => k
  | i + 1 => (torTicks k s i).torTick (UInt64.ofNat (s + i))

theorem torRun_torTicks {k : NetKernel} (hlast : k.lastRotationTicks = 0)
    (hest : k.machine.torCircuit.established = true) {s n : ℕ} (hbound : s + n ≤ 2 ^ 64) :
    TorRun (torTicks k s) s n where
  bound := hbound
  start := hlast
  established := by
    have hstanding : ∀ i, (torTicks k s i).machine.standing = k.machine.standing := by
      intro i
      induction i with
      | zero => rfl
      | succ i ih => rw [torTicks, NetKernel.standing_torTick, ih]
    intro i _
    exact (congrArg (fun x => x.2.1) (hstanding i)).trans hest
  next := fun _ _ => rfl

theorem tor_rotation_iff_sample :
    EvenlySpaced (fun i => (torTicks (netSample 0) 1 i).TickRotates (UInt64.ofNat (1 + i)))
      4294968001 :=
  (tor_rotation_iff (torRun_torTicks rfl rfl (by decide))).mpr (by decide)

/-- From a tick above `2 ^ 32` on, the second and the third call both rotate. -/
theorem not_tor_rotation :
    TorRun (torTicks (netSample 0) (2 ^ 32 + 1)) (2 ^ 32 + 1) 3 ∧
      ¬ EvenlySpaced (fun i => (torTicks (netSample 0) (2 ^ 32 + 1) i).TickRotates
        (UInt64.ofNat (2 ^ 32 + 1 + i))) 3 := by
  have hrun : TorRun (torTicks (netSample 0) (2 ^ 32 + 1)) (2 ^ 32 + 1) 3 :=
    torRun_torTicks rfl rfl (by decide)
  refine ⟨hrun, fun heven => ?_⟩
  have hgap := heven 1 2 (by decide) (by decide)
    ((hrun.tickRotates_iff (by decide)).mpr (by decide))
    ((hrun.tickRotates_iff (by decide)).mpr (by decide)) fun k _ _ => by omega
  omega

end StyxOS
