import Mathlib.Data.List.Nodup
import Mathlib.Data.List.Pairwise
import Mathlib.Data.List.Perm.Basic

/-! # Buckets along a path

A store of items in the buckets of a tree, with a stash for those that are in
no bucket. An access moves the buckets of a path into the stash and greedily
places what fits back on the path. Items are told apart by keys: what is held
once before the access is held once after it.
-/

namespace PathTree

variable {ν α κ : Type*}

/-! ## Greedy placement -/

/-- The first items, up to a number, that satisfy `p`, and the others in order. -/
def takeUpTo (p : α → Bool) : ℕ → List α → List α × List α
  | _, [] => ([], [])
  | 0, x :: xs => ([], x :: xs)
  | n + 1, x :: xs =>
    if p x then (x :: (takeUpTo p n xs).1, (takeUpTo p n xs).2)
    else ((takeUpTo p (n + 1) xs).1, x :: (takeUpTo p (n + 1) xs).2)

/-- A bucket for each node in turn, of items that may be there, and what is left. -/
def place (p : ν → α → Bool) (z : ℕ) : List ν → List α → List (ν × List α) × List α
  | [], xs => ([], xs)
  | v :: vs, xs =>
    ((v, (takeUpTo (p v) z xs).1) :: (place p z vs (takeUpTo (p v) z xs).2).1,
      (place p z vs (takeUpTo (p v) z xs).2).2)

section

variable {p : α → Bool} {n : ℕ} {xs : List α}

theorem takeUpTo_perm (p : α → Bool) (n : ℕ) (xs : List α) :
    ((takeUpTo p n xs).1 ++ (takeUpTo p n xs).2).Perm xs := by
  induction xs generalizing n with
  | nil => cases n <;> exact .refl _
  | cons x xs ih =>
    cases n with
    | zero => exact .refl _
    | succ n =>
      rw [takeUpTo]
      split
      · exact (ih n).cons x
      · exact List.perm_middle.trans ((ih (n + 1)).cons x)

theorem length_takeUpTo_le (p : α → Bool) (n : ℕ) (xs : List α) :
    (takeUpTo p n xs).1.length ≤ n := by
  induction xs generalizing n with
  | nil => cases n <;> exact Nat.zero_le _
  | cons x xs ih =>
    cases n with
    | zero => exact Nat.le_refl 0
    | succ n =>
      rw [takeUpTo]
      split
      · exact Nat.succ_le_succ (ih n)
      · exact ih (n + 1)

theorem of_mem_takeUpTo {x : α} (h : x ∈ (takeUpTo p n xs).1) : p x = true := by
  induction xs generalizing n with
  | nil => cases n <;> cases h
  | cons y xs ih =>
    cases n with
    | zero => cases h
    | succ n =>
      rw [takeUpTo] at h
      split at h
      · rename_i hy
        rcases List.mem_cons.mp h with rfl | h
        · exact hy
        · exact ih h
      · exact ih h

end

section

variable {p : ν → α → Bool} {z : ℕ} {vs : List ν} {xs : List α}

theorem place_perm (p : ν → α → Bool) (z : ℕ) (vs : List ν) (xs : List α) :
    ((place p z vs xs).1.flatMap Prod.snd ++ (place p z vs xs).2).Perm xs := by
  induction vs generalizing xs with
  | nil => exact .refl _
  | cons v vs ih =>
    rw [place, List.flatMap_cons, List.append_assoc]
    exact ((ih _).append_left _).trans (takeUpTo_perm (p v) z xs)

theorem map_fst_place (p : ν → α → Bool) (z : ℕ) (vs : List ν) (xs : List α) :
    (place p z vs xs).1.map Prod.fst = vs := by
  induction vs generalizing xs with
  | nil => rfl
  | cons v vs ih => rw [place, List.map_cons, ih]

theorem of_mem_place {b : ν × List α} (h : b ∈ (place p z vs xs).1) :
    b.2.length ≤ z ∧ ∀ x ∈ b.2, p b.1 x = true := by
  induction vs generalizing xs with
  | nil => cases h
  | cons v vs ih =>
    rw [place] at h
    rcases List.mem_cons.mp h with rfl | h
    · exact ⟨length_takeUpTo_le _ _ _, fun x hx => of_mem_takeUpTo hx⟩
    · exact ih h

end

/-! ## Room on the path -/

section

variable {p : ν → α → Bool} {z n : ℕ} {v : ν} {vs : List ν} {xs ys : List α} {x y : α} {f : α → κ}

theorem takeUpTo_concat (p : α → Bool) (n : ℕ) (xs : List α) (x : α) :
    takeUpTo p n (xs ++ [x]) =
      if p x = true ∧ (takeUpTo p n xs).1.length < n then
        ((takeUpTo p n xs).1 ++ [x], (takeUpTo p n xs).2)
      else ((takeUpTo p n xs).1, (takeUpTo p n xs).2 ++ [x]) := by
  induction xs generalizing n with
  | nil => cases n <;> cases hx : p x <;> simp [takeUpTo, hx]
  | cons y xs ih =>
    cases n with
    | zero => simp [takeUpTo]
    | succ n =>
      cases hy : p y with
      | true =>
        simp only [List.cons_append, takeUpTo, hy, if_true, ih n, List.length_cons,
          Nat.add_lt_add_iff_right]
        split <;> rfl
      | false =>
        simp only [List.cons_append, takeUpTo, hy, Bool.false_eq_true, if_false, ih (n + 1)]
        split <;> rfl

/-- The nodes that may take the one item are those that may take the other. -/
def SameNodes (p : ν → α → Bool) (x y : α) : Prop := ∀ v, p v x = p v y

theorem takeUpTo_forall₂ (h : List.Forall₂ (SameNodes p) xs ys) (v : ν) (n : ℕ) :
    List.Forall₂ (SameNodes p) (takeUpTo (p v) n xs).1 (takeUpTo (p v) n ys).1 ∧
      List.Forall₂ (SameNodes p) (takeUpTo (p v) n xs).2 (takeUpTo (p v) n ys).2 := by
  induction h generalizing n with
  | nil => cases n <;> exact ⟨.nil, .nil⟩
  | @cons x y xs ys hxy hrest ih =>
    cases n with
    | zero => exact ⟨.nil, .cons hxy hrest⟩
    | succ n =>
      rw [takeUpTo, takeUpTo, hxy v]
      split
      · exact ⟨.cons hxy (ih n).1, (ih n).2⟩
      · exact ⟨(ih (n + 1)).1, .cons hxy (ih (n + 1)).2⟩

/-- Every bucket that may take the item is full of items that come before it. -/
def Crowded (p : ν → α → Bool) (z : ℕ) (vs : List ν) (before : List α) (x : α) : Prop :=
  ∀ b ∈ (place p z vs before).1, p b.1 x = true → b.2.length = z

theorem crowded_cons : Crowded p z (v :: vs) xs x ↔
    (p v x = true → (takeUpTo (p v) z xs).1.length = z) ∧
      Crowded p z vs (takeUpTo (p v) z xs).2 x := List.forall_mem_cons

theorem crowded_congr (h : List.Forall₂ (SameNodes p) xs ys) (hxy : SameNodes p x y) :
    Crowded p z vs xs x ↔ Crowded p z vs ys y := by
  induction vs generalizing xs ys with
  | nil =>
    have hnone : ∀ (zs : List α) (w : α), Crowded p z [] zs w :=
      fun _ _ _ hb => absurd hb List.not_mem_nil
    exact iff_of_true (hnone xs x) (hnone ys y)
  | cons v vs ih =>
    obtain ⟨htaken, hrest⟩ := takeUpTo_forall₂ h v z
    rw [crowded_cons, crowded_cons, hxy v, htaken.length_eq, ih hrest]

/-- The buckets with the items shown by their images. -/
def shown (f : α → κ) (placed : List (ν × List α)) : List (ν × List κ) :=
  placed.map fun b => (b.1, b.2.map f)

theorem shown_place_cons (xs : List α) : shown f (place p z (v :: vs) xs).1 =
    (v, (takeUpTo (p v) z xs).1.map f) :: shown f (place p z vs (takeUpTo (p v) z xs).2).1 := rfl

/-- One more item shows in the buckets if there is room for it. -/
theorem shown_concat_iff (h : List.Forall₂ (SameNodes p) xs ys) (o : Option α)
    (ho : ∀ y ∈ o, SameNodes p x y) :
    shown f (place p z vs (xs ++ [x])).1 = shown f (place p z vs (ys ++ o.toList)).1 ↔
      shown f (place p z vs xs).1 = shown f (place p z vs ys).1 ∧
        (o.map f = some (f x) ∨ Crowded p z vs xs x) := by
  induction vs generalizing xs ys with
  | nil => exact iff_of_true rfl ⟨rfl, .inr fun _ hb => absurd hb List.not_mem_nil⟩
  | cons v vs ih =>
    obtain ⟨htaken, hrest⟩ := takeUpTo_forall₂ h v z
    have hlen := htaken.length_eq
    have hle := length_takeUpTo_le (p v) z xs
    have hnext := ih hrest
    simp only [shown_place_cons, crowded_cons, List.cons.injEq, Prod.mk.injEq, true_and]
    by_cases hroom : p v x = true ∧ (takeUpTo (p v) z xs).1.length < z
    · have hno : ¬(p v x = true → (takeUpTo (p v) z xs).1.length = z) :=
        fun hfull => Nat.ne_of_lt hroom.2 (hfull hroom.1)
      rw [takeUpTo_concat, if_pos hroom]
      simp only [hno, false_and, or_false]
      cases o with
      | none =>
        refine iff_of_false (fun hc => ?_) fun hc => absurd hc.2 (by simp)
        have hsame := congrArg List.length hc.1
        simp [hlen] at hsame
      | some y =>
        have hroom' : p v y = true ∧ (takeUpTo (p v) z ys).1.length < z := by
          rwa [← ho y rfl v, ← hlen]
        rw [Option.toList_some, takeUpTo_concat, if_pos hroom']
        simp only [List.map_append, List.map_cons, List.map_nil, Option.map_some,
          Option.some.injEq]
        constructor
        · rintro ⟨hfirst, hothers⟩
          obtain ⟨htake, hitem⟩ := List.append_inj' hfirst rfl
          exact ⟨⟨htake, hothers⟩, (List.singleton_inj.mp hitem).symm⟩
        · rintro ⟨⟨htake, hothers⟩, hitem⟩
          exact ⟨by rw [htake, hitem], hothers⟩
    · have hfull : p v x = true → (takeUpTo (p v) z xs).1.length = z := fun hx =>
        Nat.le_antisymm hle (Nat.le_of_not_lt fun hlt => hroom ⟨hx, hlt⟩)
      have hskip : takeUpTo (p v) z (ys ++ o.toList) =
          ((takeUpTo (p v) z ys).1, (takeUpTo (p v) z ys).2 ++ o.toList) := by
        cases o with
        | none => simp
        | some y =>
          have hroom' : ¬(p v y = true ∧ (takeUpTo (p v) z ys).1.length < z) := by
            rwa [← ho y rfl v, ← hlen]
          rw [Option.toList_some, takeUpTo_concat, if_neg hroom']
      rw [takeUpTo_concat, if_neg hroom, hskip, hnext, and_iff_right hfull, and_assoc]

theorem sameNodes_refl (x : α) : SameNodes p x x := fun _ => rfl

theorem forall₂_flip (h : List.Forall₂ (SameNodes p) xs ys) :
    List.Forall₂ (SameNodes p) ys xs := h.flip.imp fun _ _ hxy v => (hxy v).symm

/-- Two lists with one more item each at most. -/
theorem shown_append_iff (h : List.Forall₂ (SameNodes p) xs ys) (o o' : Option α)
    (ho : ∀ x y, o = some x → o' = some y → SameNodes p x y) :
    shown f (place p z vs (xs ++ o.toList)).1 = shown f (place p z vs (ys ++ o'.toList)).1 ↔
      shown f (place p z vs xs).1 = shown f (place p z vs ys).1 ∧
        (o.map f = o'.map f ∨ ∀ b, o = some b ∨ o' = some b → Crowded p z vs xs b) := by
  cases o with
  | some x =>
    rw [Option.toList_some, shown_concat_iff h o' fun y hy => ho x y rfl hy, Option.map_some,
      eq_comm (a := Option.map f o')]
    refine and_congr_right fun _ => or_congr_right ⟨?_, fun hall => hall x (.inl rfl)⟩
    rintro hx b (hb | hb)
    · rwa [← Option.some.inj hb]
    · exact (crowded_congr (List.forall₂_same.mpr fun a _ => sameNodes_refl a)
        (ho x b rfl hb)).mp hx
  | none =>
    cases o' with
    | none => simp
    | some y =>
      have hflip : shown f (place p z vs (ys ++ [y])).1 =
          shown f (place p z vs (xs ++ (none : Option α).toList)).1 ↔
            shown f (place p z vs ys).1 = shown f (place p z vs xs).1 ∧
              (none = some (f y) ∨ Crowded p z vs ys y) :=
        shown_concat_iff (forall₂_flip h) none fun _ hy => by cases hy
      rw [Option.toList_none, List.append_nil] at hflip
      rw [Option.toList_none, Option.toList_some, List.append_nil, eq_comm, hflip, eq_comm]
      refine and_congr_right fun _ => or_congr (by simp) ⟨?_, fun hall => ?_⟩
      · rintro hy b (hb | hb)
        · cases hb
        · rw [← Option.some.inj hb]
          exact (crowded_congr h (sameNodes_refl y)).mpr hy
      · exact (crowded_congr h (sameNodes_refl y)).mp (hall y (.inr rfl))

/-- The buckets show the same exactly when the items that find room do. -/
theorem shown_place_iff (hxs : n ≤ xs.length ∧ xs.length ≤ n + 1)
    (hys : n ≤ ys.length ∧ ys.length ≤ n + 1)
    (h : ∀ (i : ℕ) (x y : α), xs[i]? = some x → ys[i]? = some y → SameNodes p x y) :
    shown f (place p z vs xs).1 = shown f (place p z vs ys).1 ↔
      ∀ i : ℕ, xs[i]?.map f = ys[i]?.map f ∨
        ∀ b, xs[i]? = some b ∨ ys[i]? = some b → Crowded p z vs (xs.take i) b := by
  have htakes : ∀ k ≤ n, List.Forall₂ (SameNodes p) (xs.take k) (ys.take k) := by
    intro k hk
    refine List.forall₂_iff_get.mpr ⟨?_, fun i hi hi' => ?_⟩
    · rw [List.length_take, List.length_take]
      omega
    · refine h i _ _ ?_ ?_
      · rw [List.get_eq_getElem, List.getElem_take]
        exact List.getElem?_eq_getElem _
      · rw [List.get_eq_getElem, List.getElem_take]
        exact List.getElem?_eq_getElem _
  -- The induction is on how many items of each list are placed.
  have hplaced : ∀ k ≤ n + 1, shown f (place p z vs (xs.take k)).1 =
      shown f (place p z vs (ys.take k)).1 ↔ ∀ i < k, xs[i]?.map f = ys[i]?.map f ∨
        ∀ b, xs[i]? = some b ∨ ys[i]? = some b → Crowded p z vs (xs.take i) b := by
    intro k
    induction k with
    | zero => exact fun _ => iff_of_true rfl fun i hi => absurd hi (Nat.not_lt_zero i)
    | succ k ih =>
      intro hk
      rw [List.take_add_one, List.take_add_one,
        shown_append_iff (htakes k (Nat.le_of_succ_le_succ hk)) _ _ (h k),
        ih (Nat.le_of_succ_le hk)]
      constructor
      · rintro ⟨hbefore, hat⟩ i hi
        rcases Nat.lt_succ_iff_lt_or_eq.mp hi with hlt | rfl
        · exact hbefore i hlt
        · exact hat
      · exact fun hall => ⟨fun i hi => hall i (Nat.lt_succ_of_lt hi), hall k (Nat.lt_succ_self k)⟩
  have hall := hplaced (n + 1) (Nat.le_refl _)
  rw [List.take_of_length_le hxs.2, List.take_of_length_le hys.2] at hall
  rw [hall]
  refine ⟨fun hbelow i => ?_, fun hevery i _ => hevery i⟩
  by_cases hi : i < n + 1
  · exact hbelow i hi
  · rw [List.getElem?_eq_none (by omega), List.getElem?_eq_none (by omega)]
    exact .inl rfl

end

/-! ## Keys held once -/

variable {bucket bucket' : ν → List κ} {nodes path : List ν} {stash rest : List κ}

/-- Each key is held at most once, in a bucket or in the stash. -/
def Unique (nodes : List ν) (bucket : ν → List κ) (stash : List κ) : Prop :=
  (stash ++ nodes.flatMap bucket).Nodup

instance symm_disjoint (bucket : ν → List κ) : Std.Symm (Function.onFun List.Disjoint bucket) :=
  ⟨fun _ _ h _ hx hx' => h hx' hx⟩

theorem Unique.disjoint (h : Unique nodes bucket stash) {v w : ν} (hv : v ∈ nodes)
    (hw : w ∈ nodes) (hne : v ≠ w) : List.Disjoint (bucket v) (bucket w) := by
  have hpair := (List.nodup_flatMap.mp (List.nodup_append'.mp h).2.1).2
  exact hpair.forall hv hw hne

theorem Unique.gather (h : Unique nodes bucket stash) (hpath : path.Nodup) (hsub : path ⊆ nodes) :
    (stash ++ path.flatMap bucket).Nodup ∧
      ∀ v ∈ nodes, v ∉ path → List.Disjoint (stash ++ path.flatMap bucket) (bucket v) := by
  obtain ⟨hstash, hbuckets, hdisj⟩ := List.nodup_append'.mp h
  have hout : ∀ v ∈ nodes, List.Disjoint stash (bucket v) := fun v hv x hx hx' =>
    hdisj hx (List.mem_flatMap.mpr ⟨v, hv, hx'⟩)
  refine ⟨List.nodup_append'.mpr ⟨hstash, List.nodup_flatMap.mpr ⟨?_, ?_⟩, ?_⟩, ?_⟩
  · exact fun v hv => (List.nodup_flatMap.mp hbuckets).1 v (hsub hv)
  · exact hpath.pairwise_of_forall_ne fun v hv w hw hne => h.disjoint (hsub hv) (hsub hw) hne
  · intro x hx hx'
    obtain ⟨v, hv, hxv⟩ := List.mem_flatMap.mp hx'
    exact hout v (hsub hv) hx hxv
  · intro v hv hvp x hx hxv
    rcases List.mem_append.mp hx with hx | hx
    · exact hout v hv hx hxv
    · obtain ⟨w, hw, hxw⟩ := List.mem_flatMap.mp hx
      exact h.disjoint (hsub hw) hv (fun hc => hvp (hc ▸ hw)) hxw hxv

/-- Keys placed on a path, besides those of the other buckets. -/
theorem Unique.putBack (h : Unique nodes bucket stash) (path : List ν) (items : List κ)
    (hnodes : nodes.Nodup)
    (hsame : ∀ v ∈ nodes, v ∉ path → bucket' v = bucket v) (hitems : items.Nodup)
    (hout : ∀ v ∈ nodes, v ∉ path → List.Disjoint items (bucket v))
    (hperm : (path.flatMap bucket' ++ rest).Perm items) : Unique nodes bucket' rest := by
  have hall := hperm.nodup_iff.mpr hitems
  obtain ⟨hplaced, hrest, hdisj⟩ := List.nodup_append'.mp hall
  have hmem : ∀ v ∈ path, ∀ x ∈ bucket' v, x ∈ items := fun v hv x hx =>
    hperm.mem_iff.mp (List.mem_append_left _ (List.mem_flatMap.mpr ⟨v, hv, hx⟩))
  have hmem' : ∀ x ∈ rest, x ∈ items := fun x hx =>
    hperm.mem_iff.mp (List.mem_append_right _ hx)
  obtain ⟨hin, hpair⟩ := List.nodup_flatMap.mp hplaced
  refine List.nodup_append'.mpr ⟨hrest, List.nodup_flatMap.mpr ⟨?_, ?_⟩, ?_⟩
  · intro v hv
    by_cases hvp : v ∈ path
    · exact hin v hvp
    · rw [hsame v hv hvp]
      exact (List.nodup_flatMap.mp (List.nodup_append'.mp h).2.1).1 v hv
  · refine hnodes.pairwise_of_forall_ne fun v hv w hw hne => ?_
    by_cases hvp : v ∈ path <;> by_cases hwp : w ∈ path
    · exact hpair.forall hvp hwp hne
    · intro x hx hx'
      rw [hsame w hw hwp] at hx'
      exact hout w hw hwp (hmem v hvp x hx) hx'
    · intro x hx hx'
      rw [hsame v hv hvp] at hx
      exact hout v hv hvp (hmem w hwp x hx') hx
    · intro x hx hx'
      rw [hsame v hv hvp] at hx
      rw [hsame w hw hwp] at hx'
      exact h.disjoint hv hw hne hx hx'
  · intro x hx hx'
    obtain ⟨v, hv, hxv⟩ := List.mem_flatMap.mp hx'
    by_cases hvp : v ∈ path
    · exact hdisj (List.mem_flatMap.mpr ⟨v, hvp, hxv⟩) hx
    · rw [hsame v hv hvp] at hxv
      exact hout v hv hvp (hmem' x hx) hxv

theorem length_le_of_nodup_of_lt {l : List ℕ} {n : ℕ} (h : l.Nodup) (hlt : ∀ x ∈ l, x < n) :
    l.length ≤ n := by
  have hsub : l ⊆ List.range n := fun x hx => List.mem_range.mpr (hlt x hx)
  have hle := (List.subperm_of_subset h hsub).length_le
  rwa [List.length_range] at hle

end PathTree
