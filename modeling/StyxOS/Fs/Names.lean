import StyxOS.Fs.Fat32
import StyxOS.Library.Bytes
import Mathlib.Data.List.DropRight

/-! # Names of eight and three characters

An entry has its name in eleven bytes, filled up with blanks. It is written with
a dot before the extension. The key that `path_to_83` makes of a path is written
as the path when the path fits, and is the name of every entry that is written
as the path, in capitals and without a dot in the first eight bytes.
-/

namespace StyxOS

open ByteMem

/-! ## Names as they are written -/

def foldCase (bs : List UInt8) : List UInt8 := bs.map upper

def unpad (bs : List UInt8) : List UInt8 := bs.rdropWhile (· == 0x20)

/-- A name of eleven bytes as it is written: `NAME.EXT`, or `NAME` where there is no extension. -/
def written (name : List UInt8) : List UInt8 :=
  if unpad (name.drop 8) = [] then unpad (name.take 8)
  else unpad (name.take 8) ++ 0x2E :: unpad (name.drop 8)

def relative (path : List UInt8) : List UInt8 :=
  if path.head? = some 0x2F then path.tail else path

/-- The name is written as the path, up to the case of letters. -/
def IsNamed (name path : List UInt8) : Prop := foldCase (written name) = foldCase (relative path)

instance (name path : List UInt8) : Decidable (IsNamed name path) :=
  inferInstanceAs (Decidable (_ = _))

/-- A string has up to eight characters before its first dot, and behind it one to three, or there
is no dot. Neither part ends in a blank. -/
structure Fits83 (q : List UInt8) : Prop where
  base : (q.takeWhile (· != 0x2E)).length ≤ 8
  baseEnd : unpad (q.takeWhile (· != 0x2E)) = q.takeWhile (· != 0x2E)
  ext : q.dropWhile (· != 0x2E) = [] ∨
    (q.dropWhile (· != 0x2E)).tail ≠ [] ∧ (q.dropWhile (· != 0x2E)).tail.length ≤ 3 ∧
      unpad (q.dropWhile (· != 0x2E)).tail = (q.dropWhile (· != 0x2E)).tail

/-- A name in capitals, without a dot in the first eight bytes. -/
structure Plain (name : List UInt8) : Prop where
  capitals : foldCase name = name
  noDot : 0x2E ∉ name.take 8

/-! ## Capitals and blanks -/

theorem upper_upper (c : UInt8) : upper (upper c) = upper c := by
  revert c
  apply forall_byte
  decide +kernel

theorem upper_eq_dot_iff (c : UInt8) : upper c = 0x2E ↔ c = 0x2E := by
  revert c
  apply forall_byte
  decide +kernel

@[simp] theorem foldCase_foldCase (bs : List UInt8) : foldCase (foldCase bs) = foldCase bs := by
  simp [foldCase, upper_upper]

@[simp] theorem foldCase_append (as bs : List UInt8) :
    foldCase (as ++ bs) = foldCase as ++ foldCase bs := List.map_append

theorem foldCase_of_sub {as bs : List UInt8} (hsub : as ⊆ bs) (h : foldCase bs = bs) :
    foldCase as = as := by
  have hfix : ∀ c ∈ bs, upper c = c := List.map_inj_left.mp (h.trans bs.map_id.symm)
  exact (List.map_congr_left fun c hc => hfix c (hsub hc)).trans as.map_id

theorem unpad_isPrefix (bs : List UInt8) : unpad bs <+: bs := List.rdropWhile_prefix _ _

theorem length_unpad_le (bs : List UInt8) : (unpad bs).length ≤ bs.length :=
  (unpad_isPrefix bs).length_le

theorem unpad_eq_of_length {bs : List UInt8} (h : (unpad bs).length = bs.length) :
    unpad bs = bs := (unpad_isPrefix bs).eq_of_length h

theorem unpad_blankPad (n : ℕ) (bs : List UInt8) : unpad (blankPad n bs) = unpad bs := by
  rw [blankPad]
  generalize n - bs.length = k
  induction k with
  | zero => simp
  | succ k ih =>
    rw [List.replicate_succ', ← List.append_assoc, unpad,
      List.rdropWhile_concat_pos _ _ _ (by decide)]
    exact ih

theorem blankPad_unpad (bs : List UInt8) : blankPad bs.length (unpad bs) = bs := by
  have hsplit : unpad bs ++ bs.rtakeWhile (· == 0x20) = bs := List.rdropWhile_append_rtakeWhile
  have hblank : bs.rtakeWhile (· == 0x20) =
      List.replicate (bs.length - (unpad bs).length) 0x20 := by
    rw [List.eq_replicate_iff]
    constructor
    · have hlen := congrArg List.length hsplit
      rw [List.length_append] at hlen
      omega
    · intro c hc
      have hc := List.mem_rtakeWhile_imp (p := fun c => c == 0x20) hc
      exact eq_of_beq hc
  rw [blankPad, ← hblank, hsplit]

theorem length_blankPad {n : ℕ} {bs : List UInt8} (h : bs.length ≤ n) :
    (blankPad n bs).length = n := by
  rw [blankPad, List.length_append, List.length_replicate]
  omega

/-! ## The key of a path -/

/-- What `path_to_83` makes of a path in capitals. -/
def keyOf (q : List UInt8) : List UInt8 :=
  let base := q.takeWhile (· != 0x2E)
  let ext := (q.dropWhile (· != 0x2E)).tail
  blankPad 8 (base.take 8) ++ blankPad 3 (if base.length ≤ 8 then ext.take 3 else [])

theorem copyName_eq (stop : UInt8 → Bool) (room : ℕ) (name : List UInt8) :
    copyName stop room name =
      (foldCase ((name.takeWhile (!stop ·)).take room),
        name.drop ((name.takeWhile (!stop ·)).take room).length) := by
  induction room generalizing name with
  | zero => simp [copyName, foldCase]
  | succ room ih =>
    cases name with
    | nil => simp [copyName, foldCase]
    | cons c name =>
      by_cases hstop : stop c = true
      · simp [copyName, hstop, foldCase]
      · simp [copyName, hstop, foldCase, ih]

theorem takeWhile_foldCase (p : List UInt8) :
    (foldCase p).takeWhile (· != 0x2E) = foldCase (p.takeWhile (· != 0x2E)) := by
  induction p with
  | nil => rfl
  | cons c p ih =>
    by_cases hdot : c = 0x2E
    · subst hdot
      rfl
    · have hup : upper c ≠ 0x2E := fun h => hdot ((upper_eq_dot_iff c).mp h)
      simp only [foldCase, List.map_cons] at ih ⊢
      rw [List.takeWhile_cons_of_pos (by simpa using hup), ih,
        List.takeWhile_cons_of_pos (by simpa using hdot), List.map_cons]

theorem dropWhile_foldCase (p : List UInt8) :
    (foldCase p).dropWhile (· != 0x2E) = foldCase (p.dropWhile (· != 0x2E)) := by
  have hsplit : foldCase (p.takeWhile (· != 0x2E)) ++ foldCase (p.dropWhile (· != 0x2E)) =
      foldCase (p.takeWhile (· != 0x2E)) ++ (foldCase p).dropWhile (· != 0x2E) := by
    rw [← foldCase_append, List.takeWhile_append_dropWhile, ← takeWhile_foldCase,
      List.takeWhile_append_dropWhile]
  exact (List.append_cancel_left hsplit).symm

theorem eq_dot_of_dropWhile {q t : List UInt8} {c : UInt8}
    (h : q.dropWhile (· != 0x2E) = c :: t) : c = 0x2E := by
  have hne : q.dropWhile (· != 0x2E) ≠ [] := by
    rw [h]
    exact List.cons_ne_nil _ _
  have hhead := List.head_dropWhile_not (· != 0x2E) hne
  simp only [h, List.head_cons] at hhead
  simpa using hhead

theorem ext_eq (p : List UInt8) :
    (if (p.drop ((p.takeWhile (· != 0x2E)).take 8).length).head? = some 0x2E then
        (p.drop ((p.takeWhile (· != 0x2E)).take 8).length).tail else []) =
      if (p.takeWhile (· != 0x2E)).length ≤ 8 then (p.dropWhile (· != 0x2E)).tail else [] := by
  have hsplit : p.takeWhile (· != 0x2E) ++ p.dropWhile (· != 0x2E) = p :=
    List.takeWhile_append_dropWhile
  set base := p.takeWhile (· != 0x2E) with hbase
  set rest := p.dropWhile (· != 0x2E) with hrest
  by_cases hlen : base.length ≤ 8
  · have hdrop : p.drop (base.take 8).length = rest := by
      rw [List.take_of_length_le hlen, ← hsplit, List.drop_left]
    rw [if_pos hlen, hdrop]
    cases hcase : rest with
    | nil => rfl
    | cons c cs =>
      have hc : c = 0x2E := eq_dot_of_dropWhile (hrest.symm.trans hcase)
      rw [hc]
      rfl
  · rw [if_neg hlen]
    have hlt : 8 < base.length := Nat.lt_of_not_le hlen
    have hdrop : (p.drop (base.take 8).length).head? = some base[8] := by
      rw [List.length_take, Nat.min_eq_left hlt.le, ← hsplit, List.head?_drop,
        List.getElem?_append_left hlt, List.getElem?_eq_getElem hlt]
    have hne : base[8] ≠ 0x2E := by
      have hmem : base[8] ∈ p.takeWhile (· != 0x2E) := List.getElem_mem hlt
      simpa using List.mem_takeWhile_imp hmem
    rw [hdrop, if_neg]
    exact fun h => hne (Option.some.inj h)

theorem pathTo83_eq (path : List UInt8) : pathTo83 path = keyOf (foldCase (relative path)) := by
  have hall : ∀ bs : List UInt8, bs.takeWhile (fun _ => !false) = bs := by
    intro bs
    exact List.takeWhile_eq_self_iff.mpr fun _ _ => rfl
  have hext := ext_eq (relative path)
  rw [keyOf, takeWhile_foldCase, dropWhile_foldCase]
  simp only [pathTo83, copyName_eq, hall]
  change blankPad 8 (foldCase _) ++ blankPad 3 (if _ then foldCase (List.take 3 _) else []) = _
  congr 2
  · exact List.map_take
  · have hpush : ∀ (c : Prop) [Decidable c] (bs : List UInt8),
        (if c then foldCase (bs.take 3) else []) = foldCase ((if c then bs else []).take 3) := by
      intro c _ bs
      split <;> rfl
    refine (hpush _ _).trans ((congrArg (fun bs => foldCase (bs.take 3)) hext).trans ?_)
    rw [foldCase, foldCase, foldCase, List.length_map]
    split
    · rw [List.map_take, List.map_tail]
    · rfl

/-! ## Names and keys -/

theorem plain_keyOf {q : List UInt8} (hq : foldCase q = q) : Plain (keyOf q) := by
  have hbase : foldCase ((q.takeWhile (· != 0x2E)).take 8) = (q.takeWhile (· != 0x2E)).take 8 :=
    foldCase_of_sub (fun c hc => (List.takeWhile_sublist _).subset (List.mem_of_mem_take hc)) hq
  have hext : foldCase (if (q.takeWhile (· != 0x2E)).length ≤ 8 then
      (q.dropWhile (· != 0x2E)).tail.take 3 else []) =
      if (q.takeWhile (· != 0x2E)).length ≤ 8 then (q.dropWhile (· != 0x2E)).tail.take 3
        else [] := by
    split
    · exact foldCase_of_sub (fun c hc => (List.dropWhile_sublist _).subset
        (List.mem_of_mem_tail (List.mem_of_mem_take hc))) hq
    · rfl
  have hpad : ∀ (n : ℕ) (bs : List UInt8), foldCase bs = bs →
      foldCase (blankPad n bs) = blankPad n bs := by
    intro n bs hbs
    rw [blankPad, foldCase_append, hbs, foldCase, List.map_replicate]
    rfl
  constructor
  · rw [keyOf, foldCase_append, hpad _ _ hbase, hpad _ _ hext]
  · have hlen : ((q.takeWhile (· != 0x2E)).take 8).length ≤ 8 := List.length_take_le _ _
    rw [keyOf, List.take_left' (length_blankPad hlen), blankPad, List.mem_append, not_or]
    constructor
    · intro hmem
      have hc := List.mem_takeWhile_imp (List.mem_of_mem_take hmem)
      exact absurd hc (by decide)
    · intro hmem
      exact absurd (List.eq_of_mem_replicate hmem) (by decide)

theorem takeWhile_dot {b r : List UInt8} (hbase : 0x2E ∉ b)
    (hrest : r.head?.getD 0x2E = 0x2E) :
    (b ++ r).takeWhile (· != 0x2E) = b ∧ (b ++ r).dropWhile (· != 0x2E) = r := by
  have hall : ∀ c ∈ b, (c != 0x2E) = true := by
    intro c hc
    rw [bne_iff_ne]
    exact fun h => hbase (h ▸ hc)
  rw [List.takeWhile_append_of_pos hall, List.dropWhile_append_of_pos hall]
  cases r with
  | nil => exact ⟨List.append_nil b, rfl⟩
  | cons c r =>
    have hc : c = 0x2E := hrest
    subst hc
    exact ⟨List.append_nil b, rfl⟩

theorem keyOf_written {name : List UInt8} (hlen : name.length = 11) (hplain : Plain name) :
    keyOf (written name) = name := by
  have hbase : (name.take 8).length = 8 := by rw [List.length_take, hlen]; rfl
  have hext : (name.drop 8).length = 3 := by rw [List.length_drop, hlen]
  have hpad8 := blankPad_unpad (name.take 8)
  have hpad3 := blankPad_unpad (name.drop 8)
  have hle8 := length_unpad_le (name.take 8)
  have hle3 := length_unpad_le (name.drop 8)
  have hdot : 0x2E ∉ unpad (name.take 8) := fun h =>
    hplain.noDot ((unpad_isPrefix _).subset h)
  rw [hbase] at hpad8 hle8
  rw [hext] at hpad3 hle3
  have hjoin : blankPad 8 (unpad (name.take 8)) ++ blankPad 3 (unpad (name.drop 8)) = name := by
    rw [hpad8, hpad3, List.take_append_drop]
  rw [written]
  split
  · rename_i hnone
    obtain ⟨htake, hdrop⟩ := takeWhile_dot (r := []) hdot rfl
    rw [List.append_nil] at htake hdrop
    rw [hnone] at hjoin
    rw [keyOf, htake, hdrop, if_pos hle8, List.take_of_length_le hle8]
    exact hjoin
  · obtain ⟨htake, hdrop⟩ := takeWhile_dot (r := 0x2E :: unpad (name.drop 8)) hdot rfl
    rw [keyOf, htake, hdrop, if_pos hle8, List.take_of_length_le hle8, List.tail_cons,
      List.take_of_length_le hle3]
    exact hjoin

theorem written_keyOf (q : List UInt8) :
    written (keyOf q) =
      let base := (q.takeWhile (· != 0x2E)).take 8
      let ext := if (q.takeWhile (· != 0x2E)).length ≤ 8
        then (q.dropWhile (· != 0x2E)).tail.take 3 else []
      if unpad ext = [] then unpad base else unpad base ++ 0x2E :: unpad ext := by
  have hlen : (blankPad 8 ((q.takeWhile (· != 0x2E)).take 8)).length = 8 :=
    length_blankPad (List.length_take_le _ _)
  rw [written, keyOf]
  dsimp only
  rw [List.take_left' hlen, List.drop_left' hlen, unpad_blankPad, unpad_blankPad]

theorem written_keyOf_iff {q : List UInt8} : written (keyOf q) = q ↔ Fits83 q := by
  rw [written_keyOf]
  dsimp only
  have hsplit : q.takeWhile (· != 0x2E) ++ q.dropWhile (· != 0x2E) = q :=
    List.takeWhile_append_dropWhile
  have hdot : ∀ c t, q.dropWhile (· != 0x2E) = c :: t → c = 0x2E := fun _ _ => eq_dot_of_dropWhile
  constructor
  · intro h
    have hlen := congrArg List.length (h.trans hsplit.symm)
    generalize hbase : q.takeWhile (· != 0x2E) = base at *
    generalize hrest : q.dropWhile (· != 0x2E) = rest at *
    set ext := if base.length ≤ 8 then rest.tail.take 3 else [] with hext
    have hextlen : ext.length ≤ 3 ∧ ext.length ≤ rest.length - 1 := by
      rw [hext]
      split <;> simp
    have hbaselen := length_unpad_le (base.take 8)
    have hunext := length_unpad_le ext
    rw [List.length_take] at hbaselen
    rw [apply_ite List.length, List.length_append, List.length_append, List.length_cons] at hlen
    cases rest with
    | nil =>
      have hnil : ext = [] := List.length_eq_zero_iff.mp (by simpa using hextlen.2)
      rw [hnil, if_pos (by rfl), List.length_nil] at hlen
      have hle : base.length ≤ 8 := by omega
      rw [List.take_of_length_le hle] at hlen
      exact ⟨hbase ▸ hle, by rw [hbase]; exact unpad_eq_of_length hlen, .inl hrest⟩
    | cons c t =>
      rw [List.length_cons] at hlen hextlen
      by_cases hnone : unpad ext = []
      · rw [if_pos hnone] at hlen
        omega
      · rw [if_neg hnone] at hlen
        have hle : base.length ≤ 8 := by omega
        rw [if_pos hle, List.tail_cons] at hext
        have ht : t.length ≤ 3 := by omega
        rw [List.take_of_length_le ht] at hext
        rw [List.take_of_length_le hle] at hlen hbaselen
        rw [hext] at hlen hunext hnone
        refine ⟨hbase ▸ hle, ?_, .inr ?_⟩
        · rw [hbase]
          exact unpad_eq_of_length (by omega)
        · rw [hrest, List.tail_cons]
          have hfull : unpad t = t := unpad_eq_of_length (by omega)
          exact ⟨hfull ▸ hnone, ht, hfull⟩
  · rintro ⟨hle, hbaseEnd, hext⟩
    rw [if_pos hle, List.take_of_length_le hle, hbaseEnd]
    rcases hext with hnil | ⟨hne, hlen, hextEnd⟩
    · rw [hnil] at hsplit ⊢
      rw [List.append_nil] at hsplit
      exact hsplit
    · rw [List.take_of_length_le hlen, hextEnd, if_neg hne]
      cases hrest : q.dropWhile (· != 0x2E) with
      | nil => exact absurd (by rw [hrest]; rfl) hne
      | cons c t =>
        have hc := hdot c t hrest
        subst hc
        rw [List.tail_cons, ← hrest, hsplit]

/-! ## Names and paths -/

theorem foldCase_written {name : List UInt8} (h : foldCase name = name) :
    foldCase (written name) = written name := by
  have hbase : foldCase (unpad (name.take 8)) = unpad (name.take 8) :=
    foldCase_of_sub (fun c hc => List.mem_of_mem_take ((unpad_isPrefix _).subset hc)) h
  have hext : foldCase (unpad (name.drop 8)) = unpad (name.drop 8) :=
    foldCase_of_sub (fun c hc => List.mem_of_mem_drop ((unpad_isPrefix _).subset hc)) h
  rw [written]
  split
  · exact hbase
  · rw [foldCase_append, hbase, foldCase, List.map_cons]
    rw [foldCase] at hext
    rw [hext]
    rfl

theorem plain_pathTo83 (path : List UInt8) : Plain (pathTo83 path) := by
  rw [pathTo83_eq]
  exact plain_keyOf (foldCase_foldCase _)

theorem isNamed_pathTo83_iff {path : List UInt8} :
    IsNamed (pathTo83 path) path ↔ Fits83 (foldCase (relative path)) := by
  rw [IsNamed, foldCase_written (plain_pathTo83 path).capitals, pathTo83_eq, written_keyOf_iff]

/-- The name of an entry that is named as a path is the key of the path when it is plain, and only
then. -/
theorem eq_pathTo83_iff {name path : List UInt8} (hlen : name.length = 11)
    (h : IsNamed name path) : name = pathTo83 path ↔ Plain name := by
  constructor
  · rintro rfl
    exact plain_pathTo83 path
  · intro hplain
    rw [pathTo83_eq, ← h, foldCase_written hplain.capitals, keyOf_written hlen hplain]

end StyxOS
