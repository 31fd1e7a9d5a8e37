import Mathlib.Logic.Relation
import StyxOS.Cap.Provenance

/-! # Lines of descent

Every capability that a call mints is recorded with its rights and, when it was
derived, with the slot it was derived from. `cap_derive` never asks the source
for `CAP_RIGHT_DERIVE`, so the derived capabilities come from sources with that
right, and those without it have no descendants, in exactly the runs whose calls
ask for no other derivation.
-/

namespace StyxOS

open StepSystem

/-- The rights include `CAP_RIGHT_DERIVE`. -/
def MayDerive (rights : UInt32) : Prop := rights &&& capRightDerive = capRightDerive

instance (rights : UInt32) : Decidable (MayDerive rights) :=
  inferInstanceAs (Decidable (_ = _))

/-- The slot a capability was derived from: its rights, and the capability in it, unless that was
there before any call minted one. -/
structure MintSource where
  rights : UInt32
  mint : Option ℕ
  deriving DecidableEq

structure Mint where
  rights : UInt32
  source : Option MintSource
  deriving DecidableEq

def Mint.DerivedFrom (mints : List Mint) (a b : ℕ) : Prop :=
  ∃ m src, mints[b]? = some m ∧ m.source = some src ∧ src.mint = some a

/-- A capability was made from another one by a sequence of derivations. -/
def Mint.Descends (mints : List Mint) : ℕ → ℕ → Prop := Relation.TransGen (DerivedFrom mints)

/-- The event of a step, if it has one. -/
def CapHistory.event (K : KernelLayout) (h : CapHistory) (op : CapOp) : Option CapEvent :=
  if h.kernel.halted then none
  else if (capCall K h.kernel op).1 = some .ok then eventOf h.kernel.caps op else none

/-- A history with the capabilities it minted, oldest first, and the one that each slot got last. -/
structure CapLines where
  hist : CapHistory
  mints : List Mint
  mintOf : UInt64 → Fin capTableSize → Option ℕ

namespace CapLines

def start (k : Kernel) : CapLines := ⟨⟨k, []⟩, [], fun _ _ => none⟩

variable (l : CapLines)

/-- The capability that an event mints, with its slot; `c` are the tables after it. -/
def minted (c : Caps) : CapEvent → Option (UInt64 × Fin capTableSize × Mint)
  | .created t i _ r => some (t, i, ⟨r, none⟩)
  | .derived t s d =>
    some (t, d, ⟨(c.tables t d).rights,
      some ⟨(l.hist.kernel.caps.tables t s).rights, l.mintOf t s⟩⟩)
  | _ => none

def step (K : KernelLayout) (l : CapLines) (op : CapOp) : CapLines :=
  let hist := l.hist.step K op
  match (l.hist.event K op).bind (l.minted hist.kernel.caps) with
  | none => { l with hist := hist }
  | some (t, i, m) =>
    { hist := hist
      mints := l.mints ++ [m]
      mintOf := Function.update l.mintOf t (Function.update (l.mintOf t) i (some l.mints.length)) }

/-- Every derived capability comes from a slot with `CAP_RIGHT_DERIVE`, and a capability without
that right has no descendants. -/
structure DerivesByRight : Prop where
  source : ∀ m ∈ l.mints, ∀ src, m.source = some src → MayDerive src.rights
  alone : ∀ n m, l.mints[n]? = some m → ¬ MayDerive m.rights → ∀ k, ¬ Mint.Descends l.mints n k

end CapLines

/-- A derivation that passes the checks of `cap_derive` has a source with `CAP_RIGHT_DERIVE`. -/
def CapHistory.SourceMayDerive (h : CapHistory) : CapOp → Prop
  | .derive t src dst r => h.kernel.halted = false →
    ∀ s d, slotIndex src = some s → slotIndex dst = some d →
      (h.kernel.caps.tables t s).object ≠ .null →
      isStale h.kernel.caps (h.kernel.caps.tables t s) = false →
      r &&& ~~~(h.kernel.caps.tables t s).rights = 0 →
      (h.kernel.caps.tables t d).object = .null → MayDerive (h.kernel.caps.tables t s).rights
  | _ => True

/-! ## The steps -/

section

variable {K : KernelLayout} {h : CapHistory} {op : CapOp}

theorem CapHistory.event_effect (K : KernelLayout) (h : CapHistory) (op : CapOp) :
    CapEffect op.table h.kernel.caps (h.event K op) (h.step K op).kernel.caps := by
  unfold CapHistory.event CapHistory.step
  split
  · exact .refl ..
  · exact (capCall_effect K h.kernel op).1

theorem capDerive_of_checks {c : Caps} {t : UInt64} {src dst r : UInt32} {s d : Fin capTableSize}
    (hs : slotIndex src = some s) (hd : slotIndex dst = some d)
    (hlive : (c.tables t s).object ≠ .null) (hfresh : isStale c (c.tables t s) = false)
    (hr : r &&& ~~~(c.tables t s).rights = 0) (hfree : (c.tables t d).object = .null) :
    (capDerive c t src dst r).1 = .ok := by
  unfold capDerive
  simp only [hs, hd, capObject_type_eq_null, hlive, hfresh, hr, hfree, if_false, ne_eq,
    not_true_eq_false, Bool.false_eq_true]

theorem eventOf_derived {c : Caps} {t : UInt64} {s d : Fin capTableSize}
    (hev : eventOf c op = some (.derived t s d)) :
    ∃ src dst r, op = .derive t src dst r ∧ slotIndex src = some s ∧ slotIndex dst = some d := by
  cases op with
  | derive t' src dst r =>
    obtain ⟨s', hs, hev⟩ := Option.bind_eq_some_iff.mp hev
    obtain ⟨d', hd, hev⟩ := Option.map_eq_some_iff.mp hev
    obtain ⟨rfl, rfl, rfl⟩ := CapEvent.derived.inj hev
    exact ⟨src, dst, r, rfl, hs, hd⟩
  | endpointCreate t' i r o =>
    obtain ⟨i', -, hev⟩ := Option.bind_eq_some_iff.mp hev
    obtain ⟨e, -, hev⟩ := Option.map_eq_some_iff.mp hev
    cases hev
  | revokeEndpoint t' i =>
    obtain ⟨i', -, hev⟩ := Option.bind_eq_some_iff.mp hev
    split at hev <;> cases hev
  | freeSlot t' i =>
    obtain ⟨i', -, hev⟩ := Option.map_eq_some_iff.mp hev
    cases hev
  | _ => cases hev

theorem CapHistory.sourceMayDerive_iff :
    h.SourceMayDerive op ↔ ∀ t s d, h.event K op = some (.derived t s d) →
      MayDerive (h.kernel.caps.tables t s).rights := by
  constructor
  · intro hmay t s d hev
    unfold CapHistory.event at hev
    split_ifs at hev with hhalt hok
    obtain ⟨src, dst, r, rfl, hs, hd⟩ := eventOf_derived hev
    rcases capDerive_cases h.kernel.caps t src dst r with
      ⟨err, hne, he⟩ | ⟨s', d', hs', hd', hlive, hfresh, hr, hfree, -⟩
    · exact absurd (Option.some.inj (by rw [← hok, capCall, he])) hne
    · obtain rfl : s = s' := Option.some.inj (hs.symm.trans hs')
      obtain rfl : d = d' := Option.some.inj (hd.symm.trans hd')
      exact hmay (by simpa using hhalt) s d hs hd hlive hfresh hr hfree
  · intro hmay
    cases op with
    | derive t src dst r =>
      intro hgo s d hs hd hlive hfresh hr hfree
      apply hmay t s d
      have hok := capDerive_of_checks hs hd hlive hfresh hr hfree
      simp [CapHistory.event, hgo, capCall, hok, eventOf, hs, hd]
    | _ => trivial

end

namespace CapLines

variable {K : KernelLayout} {l : CapLines} {op : CapOp}

/-- A slot in use that got a capability has its rights, and a capability that was derived from
another one has a source with the rights of that one. -/
structure Inv (l : CapLines) : Prop where
  slots : ∀ t i n, l.mintOf t i = some n → (l.hist.kernel.caps.tables t i).object ≠ .null →
    ∃ m, l.mints[n]? = some m ∧ m.rights = (l.hist.kernel.caps.tables t i).rights
  sources : ∀ m ∈ l.mints, ∀ src n, m.source = some src → src.mint = some n →
    ∃ m', l.mints[n]? = some m' ∧ m'.rights = src.rights

theorem inv_start (k : Kernel) : (start k).Inv where
  slots := by
    intro t i n hn
    cases hn
  sources := by
    intro m hm
    exact absurd hm List.not_mem_nil

theorem Inv.derivesByRight_iff (hi : l.Inv) :
    l.DerivesByRight ↔
      ∀ m ∈ l.mints, ∀ src, m.source = some src → MayDerive src.rights := by
  refine ⟨DerivesByRight.source, fun hsource => ⟨hsource, ?_⟩⟩
  intro n m hm hno k hdescends
  obtain ⟨b, ⟨m', src, hm', hsrc, hmint⟩, -⟩ := Relation.TransGen.head'_iff.mp hdescends
  have hmem : m' ∈ l.mints := List.mem_of_getElem? hm'
  obtain ⟨m'', hm'', hrights⟩ := hi.sources m' hmem src n hsrc hmint
  obtain rfl : m = m'' := Option.some.inj (hm.symm.trans hm'')
  exact hno (hrights ▸ hsource m' hmem src hsrc)

theorem step_of_none
    (h : (l.hist.event K op).bind (l.minted (l.hist.step K op).kernel.caps) = none) :
    l.step K op = { l with hist := l.hist.step K op } := by
  unfold step
  dsimp only
  rw [h]

theorem step_of_some {t : UInt64} {i : Fin capTableSize} {m : Mint}
    (h : (l.hist.event K op).bind (l.minted (l.hist.step K op).kernel.caps) = some (t, i, m)) :
    l.step K op =
      { hist := l.hist.step K op
        mints := l.mints ++ [m]
        mintOf :=
          Function.update l.mintOf t (Function.update (l.mintOf t) i (some l.mints.length)) } := by
  unfold step
  dsimp only
  rw [h]

/-- What a step does to the tables and what is recorded of it: slots are emptied at most, or one
capability is minted into a slot, by a creation or by a derivation. -/
inductive Records (l : CapLines) (c' : Caps) :
    Option CapEvent → Option (UInt64 × Fin capTableSize × Mint) → Prop
  | nothing {ev : Option CapEvent} (hev : ∀ t s d, ev ≠ some (.derived t s d))
      (hkept : ∀ t i, (c'.tables t i).object = .null ∨
        c'.tables t i = l.hist.kernel.caps.tables t i) : Records l c' ev none
  | created {t : UInt64} {i : Fin capTableSize} {e : EpPtr} {r : UInt32}
      (hnew : (c'.tables t i).rights = r)
      (hkept : ∀ t' i', ¬ (t' = t ∧ i' = i) →
        c'.tables t' i' = l.hist.kernel.caps.tables t' i') :
      Records l c' (some (.created t i e r)) (some (t, i, ⟨r, none⟩))
  | derived {t : UInt64} {s d : Fin capTableSize}
      (hlive : (l.hist.kernel.caps.tables t s).object ≠ .null)
      (hkept : ∀ t' i', ¬ (t' = t ∧ i' = d) →
        c'.tables t' i' = l.hist.kernel.caps.tables t' i') :
      Records l c' (some (.derived t s d))
        (some (t, d, ⟨(c'.tables t d).rights,
          some ⟨(l.hist.kernel.caps.tables t s).rights, l.mintOf t s⟩⟩))

theorem records_of_effect {table : UInt64} {ev : Option CapEvent} {c' : Caps}
    (he : CapEffect table l.hist.kernel.caps ev c') : Records l c' ev (ev.bind (l.minted c')) := by
  cases he with
  | quiet htables _ _ =>
    refine .nothing (fun _ _ _ h => by cases h) fun t i => Or.inr ?_
    rw [htables]
  | inited =>
    refine .nothing (fun _ _ _ h => by cases h) fun t i => ?_
    by_cases ht : t = table
    · subst ht
      exact Or.inl (by simp [capTableInit, CapSlot.empty])
    · exact Or.inr (by simp [capTableInit, Function.update_of_ne ht])
  | created _ =>
    refine .created ?_ fun t' i' hne => ?_
    · rw [setSlot_tables, if_pos ⟨rfl, rfl⟩]
    · rw [setSlot_tables, if_neg hne]
      rfl
  | derived hsrc _ =>
    refine .derived hsrc fun t' i' hne => ?_
    rw [setSlot_tables, if_neg hne]
  | @freed i =>
    refine .nothing (fun _ _ _ h => by cases h) fun t' i' => ?_
    rw [setSlot_tables]
    split
    · exact Or.inl rfl
    · exact Or.inr rfl
  | revoked _ => exact .nothing (fun _ _ _ h => by cases h) fun t i => Or.inr rfl

/-- A capability that is minted takes the next number. -/
theorem Inv.mint (hi : l.Inv) {hist : CapHistory} {t : UInt64} {i : Fin capTableSize} {m : Mint}
    (hrights : m.rights = (hist.kernel.caps.tables t i).rights)
    (hkept : ∀ t' i', ¬ (t' = t ∧ i' = i) →
      hist.kernel.caps.tables t' i' = l.hist.kernel.caps.tables t' i')
    (hsource : ∀ src n, m.source = some src → src.mint = some n →
      ∃ m', l.mints[n]? = some m' ∧ m'.rights = src.rights) :
    Inv { hist := hist, mints := l.mints ++ [m],
          mintOf :=
            Function.update l.mintOf t
              (Function.update (l.mintOf t) i (some l.mints.length)) } := by
  have hold : ∀ {n : ℕ} {m' : Mint}, l.mints[n]? = some m' →
      (l.mints ++ [m])[n]? = some m' := by
    intro n m' hn
    rw [List.getElem?_append_left (List.getElem?_eq_some_iff.mp hn).1, hn]
  constructor
  · intro t' i' n hn hlive
    by_cases heq : t' = t ∧ i' = i
    · obtain ⟨rfl, rfl⟩ := heq
      simp only [Function.update_self] at hn
      obtain rfl := Option.some.inj hn
      exact ⟨m, by simp, hrights⟩
    · have hsame : l.mintOf t' i' = some n := by
        by_cases ht : t' = t
        · subst ht
          have hne : i' ≠ i := fun h => heq ⟨rfl, h⟩
          simpa [Function.update_of_ne hne] using hn
        · simpa [Function.update_of_ne ht] using hn
      dsimp only at hlive ⊢
      rw [hkept t' i' heq] at hlive ⊢
      obtain ⟨m', hm', hr⟩ := hi.slots t' i' n hsame hlive
      exact ⟨m', hold hm', hr⟩
  · intro m' hm' src n hsrc hmint
    have hfound : ∃ m'', l.mints[n]? = some m'' ∧ m''.rights = src.rights := by
      rcases List.mem_append.mp hm' with hmem | hmem
      · exact hi.sources m' hmem src n hsrc hmint
      · obtain rfl := List.mem_singleton.mp hmem
        exact hsource src n hsrc hmint
    obtain ⟨m'', hm'', hr⟩ := hfound
    exact ⟨m'', hold hm'', hr⟩

theorem Inv.step (hi : l.Inv) : (l.step K op).Inv := by
  have hrec := records_of_effect (l := l) (CapHistory.event_effect K l.hist op)
  generalize hmint : (l.hist.event K op).bind (l.minted (l.hist.step K op).kernel.caps) = r at hrec
  generalize l.hist.event K op = ev at hrec
  cases hrec with
  | nothing _ hkept =>
    rw [step_of_none hmint]
    refine ⟨fun t i n hn hlive => ?_, hi.sources⟩
    rcases hkept t i with hnull | hsame
    · exact absurd hnull hlive
    · dsimp only at hlive ⊢
      rw [hsame] at hlive ⊢
      exact hi.slots t i n hn hlive
  | created hnew hkept =>
    rw [step_of_some hmint]
    exact hi.mint hnew.symm hkept fun src n hsrc => by cases hsrc
  | derived hlive hkept =>
    rw [step_of_some hmint]
    refine hi.mint rfl hkept fun src n hsrc hn => ?_
    obtain rfl := Option.some.inj hsrc
    exact hi.slots _ _ n hn hlive

theorem sources_step_iff
    (hsource : ∀ m ∈ l.mints, ∀ src, m.source = some src → MayDerive src.rights) :
    (∀ m ∈ (l.step K op).mints, ∀ src, m.source = some src → MayDerive src.rights) ↔
      l.hist.SourceMayDerive op := by
  rw [CapHistory.sourceMayDerive_iff (K := K)]
  have hrec := records_of_effect (l := l) (CapHistory.event_effect K l.hist op)
  generalize hmint : (l.hist.event K op).bind (l.minted (l.hist.step K op).kernel.caps) = r at hrec
  generalize hev : l.hist.event K op = ev at hrec
  cases hrec with
  | nothing hno _ =>
    rw [step_of_none hmint]
    exact iff_of_true hsource fun t s d h => absurd h (hno t s d)
  | created _ _ =>
    rw [step_of_some hmint]
    refine iff_of_true ?_ fun t s d h => by cases h
    intro m hm src hsrc
    rcases List.mem_append.mp hm with hmem | hmem
    · exact hsource m hmem src hsrc
    · obtain rfl := List.mem_singleton.mp hmem
      cases hsrc
  | @derived t s d _ _ =>
    rw [step_of_some hmint]
    constructor
    · intro hall t' s' d' h
      obtain ⟨rfl, rfl, rfl⟩ := CapEvent.derived.inj (Option.some.inj h)
      exact hall _ (List.mem_append_right _ (List.mem_singleton_self _)) _ rfl
    · intro hmay m hm src hsrc
      rcases List.mem_append.mp hm with hmem | hmem
      · exact hsource m hmem src hsrc
      · obtain rfl := List.mem_singleton.mp hmem
        obtain rfl := Option.some.inj hsrc
        exact hmay t s d rfl

end CapLines

/-- In every state of a run the derived capabilities come from sources with `CAP_RIGHT_DERIVE` and
those without it have no descendants, exactly when every derivation of the run that passes the
checks has such a source. -/
theorem derive_right_iff (K : KernelLayout) (k : Kernel) (ops : List CapOp) :
    (∀ pre, pre <+: ops → (run (CapLines.step K) (.start k) pre).DerivesByRight) ↔
      AllSteps (CapLines.step K) (fun l op => l.hist.SourceMayDerive op) (.start k) ops := by
  have hstart : (CapLines.start k).DerivesByRight := by
    rw [(CapLines.inv_start k).derivesByRight_iff]
    intro m hm
    exact absurd hm List.not_mem_nil
  rw [forall_prefix_iff _ hstart]
  have hiff : ∀ l op, (CapLines.Inv l ∧ CapLines.DerivesByRight l) →
      ((CapLines.step K l op).DerivesByRight ↔ l.hist.SourceMayDerive op) := by
    rintro l op ⟨hi, hright⟩
    rw [(CapLines.Inv.step hi).derivesByRight_iff]
    exact CapLines.sources_step_iff hright.source
  exact allSteps_congr (CapLines.step K) hiff
    (fun l op hl h => ⟨hl.1.step, (hiff l op hl).mpr h⟩) ⟨CapLines.inv_start k, hstart⟩ ops

/-- A capability without `CAP_RIGHT_DERIVE` is derived from all the same. -/
theorem not_derive_right :
    (run (CapLines.step sampleLayout) (.start emptyPool.kernel)
        [.tableInit 1, .endpointCreate 1 0 3 0, .derive 1 0 1 1]).mints =
      [⟨3, none⟩, ⟨1, some ⟨3, some 0⟩⟩] ∧
    ¬ ∀ pre, pre <+: [CapOp.tableInit 1, .endpointCreate 1 0 3 0, .derive 1 0 1 1] →
      (run (CapLines.step sampleLayout) (.start emptyPool.kernel) pre).DerivesByRight := by
  have hmints : (run (CapLines.step sampleLayout) (.start emptyPool.kernel)
      [.tableInit 1, .endpointCreate 1 0 3 0, .derive 1 0 1 1]).mints =
        [⟨3, none⟩, ⟨1, some ⟨3, some 0⟩⟩] := by decide +kernel
  refine ⟨hmints, fun hall => ?_⟩
  have hsource := (hall _ List.prefix_rfl).source ⟨1, some ⟨3, some 0⟩⟩
    (by rw [hmints]; exact List.mem_cons_of_mem _ List.mem_cons_self) _ rfl
  exact absurd hsource (by decide)

end StyxOS
