import Mathlib.Data.List.Sort
import Mathlib.Data.List.Pairwise

/-!
# Splicing lists

A list is brought up to date by edits: elements are taken out, and others are put in at the places
that they have in the list to be reached.  Every element has a rank, its place in that list.

Principal results: `ranked_insertAt_iff`, `ranked_run_iff`, `insertsRight_of_complete`.
-/

namespace Splicing

open List

variable {α : Type}

/-- Put an element in at a place, or at the end. -/
def insertAt (l : List α) (i : ℕ) (x : α) : List α := l.take i ++ x :: l.drop i

theorem mem_insertAt {l : List α} {i : ℕ} {x y : α} : y ∈ insertAt l i x ↔ y = x ∨ y ∈ l := by
  unfold insertAt
  rw [mem_append, mem_cons, or_left_comm, ← mem_append, take_append_drop]

theorem sublist_insertAt (l : List α) (i : ℕ) (x : α) : l.Sublist (insertAt l i x) := by
  have h : (l.take i ++ l.drop i).Sublist (l.take i ++ x :: l.drop i) :=
    (sublist_cons_self x (l.drop i)).append_left (l.take i)
  rwa [take_append_drop] at h

/-- What is taken out, and what is put in where its rank says. -/
structure Edit (α : Type) where
  removed : List α
  added : List α

section Ranks

variable (rank : α → ℕ)

def insertAll (l : List α) (added : List α) : List α :=
  added.foldl (fun l x => insertAt l (rank x) x) l

theorem mem_insertAll {l added : List α} {y : α} :
    y ∈ insertAll rank l added ↔ y ∈ added ∨ y ∈ l := by
  induction added generalizing l with
  | nil => simp [insertAll]
  | cons x added ih =>
    change y ∈ insertAll rank (insertAt l (rank x) x) added ↔ _
    rw [ih, mem_insertAt, mem_cons]
    tauto

theorem sublist_insertAll (l added : List α) : l.Sublist (insertAll rank l added) := by
  induction added generalizing l with
  | nil => exact .refl l
  | cons x added ih => exact (sublist_insertAt l (rank x) x).trans (ih _)

/-! ## One element -/

/-- The elements that count stand in the order of their ranks. -/
def Ranked (p : α → Bool) (l : List α) : Prop :=
  (l.filter p).Pairwise fun x y => rank x < rank y

/-- As many elements that count stand before the place of the element as have a lower rank. -/
def RightPlace (p : α → Bool) (l : List α) (x : α) : Prop :=
  (l.take (rank x)).countP p = l.countP fun y => p y && rank y < rank x

/-- **An element is put in the right place** exactly when as many elements stand before it as
should. -/
theorem ranked_insertAt_iff {p : α → Bool} {l : List α} {x : α} (hx : p x)
    (hranked : Ranked rank p l) (hne : ∀ y ∈ l, p y → rank y ≠ rank x) :
    Ranked rank p (insertAt l (rank x) x) ↔ RightPlace rank p l x := by
  have hsplit : l.filter p = (l.take (rank x)).filter p ++ (l.drop (rank x)).filter p := by
    rw [← filter_append, take_append_drop]
  have hcount : (l.countP fun y => p y && rank y < rank x) =
      ((l.take (rank x)).filter p).countP (fun y => rank y < rank x) +
        ((l.drop (rank x)).filter p).countP (fun y => rank y < rank x) := by
    rw [← countP_append, ← hsplit, countP_filter]
    exact countP_congr fun y _ => by rw [Bool.and_comm]
  have hdrop : ∀ y ∈ (l.drop (rank x)).filter p, rank y ≠ rank x := fun y hy =>
    hne y (mem_of_mem_drop (mem_filter.1 hy).1) (mem_filter.1 hy).2
  unfold Ranked at hranked ⊢
  unfold RightPlace
  rw [countP_eq_length_filter (p := p)]
  unfold insertAt
  rw [filter_append, filter_cons_of_pos hx]
  rw [hsplit] at hranked
  generalize (l.take (rank x)).filter p = before at *
  generalize (l.drop (rank x)).filter p = after at *
  obtain ⟨hbefore, hafter, hcross⟩ := pairwise_append.1 hranked
  rw [pairwise_append, pairwise_cons]
  constructor
  · rintro ⟨-, ⟨hlt, -⟩, hall⟩
    have hone : before.countP (fun y => rank y < rank x) = before.length :=
      countP_eq_length.2 fun y hy => decide_eq_true (hall y hy x (by simp))
    have hzero : after.countP (fun y => rank y < rank x) = 0 :=
      countP_eq_zero.2 fun y hy => by
        have h := hlt y hy
        simp only [decide_eq_true_eq]
        omega
    omega
  · intro hlength
    -- an element before the place with a higher rank would leave too few of lower rank
    have hall : ∀ y ∈ before, rank y < rank x := by
      intro y hy
      by_contra hge
      have hzero : after.countP (fun y => rank y < rank x) = 0 :=
        countP_eq_zero.2 fun z hz => by
          have h := hcross y hy z hz
          simp only [decide_eq_true_eq]
          omega
      have hless : before.countP (fun y => rank y < rank x) < before.length := by
        refine Nat.lt_of_le_of_ne countP_le_length fun heq => hge ?_
        exact of_decide_eq_true (countP_eq_length.1 heq y hy)
      omega
    have hone : before.countP (fun y => rank y < rank x) = before.length :=
      countP_eq_length.2 fun y hy => decide_eq_true (hall y hy)
    have hzero : after.countP (fun y => rank y < rank x) = 0 := by omega
    have hlt : ∀ y ∈ after, rank x < rank y := by
      intro y hy
      have hnot := countP_eq_zero.1 hzero y hy
      have hneq := hdrop y hy
      simp only [decide_eq_true_eq] at hnot
      omega
    refine ⟨hbefore, ⟨hlt, hafter⟩, fun y hy z hz => ?_⟩
    rcases mem_cons.1 hz with rfl | hz
    · exact hall y hy
    · exact hcross y hy z hz

/-! ## One edit -/

/-- Every element is put in the right place, one after another. -/
def InsertsRight (p : α → Bool) : List α → List α → Prop
  | _, [] => True
  | l, x :: added => RightPlace rank p l x ∧ InsertsRight p (insertAt l (rank x) x) added

theorem Ranked.of_sublist {p : α → Bool} {l l' : List α} (hsub : l.Sublist l')
    (h : Ranked rank p l') : Ranked rank p l :=
  h.sublist (hsub.filter p)

/-- **The elements of an edit** are put in order exactly when each is put in the right place. -/
theorem ranked_insertAll_iff {p : α → Bool} (target : List α)
    (hinj : ∀ x ∈ target, ∀ y, rank y = rank x → y = x) {added : List α} :
    ∀ {l : List α}, Ranked rank p l → added.Nodup →
      (∀ x ∈ added, p x ∧ x ∈ target ∧ x ∉ l) →
      (Ranked rank p (insertAll rank l added) ↔ InsertsRight rank p l added) := by
  induction added with
  | nil => exact fun hranked _ _ => ⟨fun _ => trivial, fun _ => hranked⟩
  | cons x added ih =>
    intro l hranked hnodup hadded
    obtain ⟨hnew, hrest⟩ := nodup_cons.1 hnodup
    obtain ⟨hp, htarget, hmem⟩ := hadded x (by simp)
    have hone := ranked_insertAt_iff rank hp hranked fun y hy _ heq => by
      rw [hinj x htarget y heq] at hy
      exact hmem hy
    have hadded' : ∀ y ∈ added, p y ∧ y ∈ target ∧ y ∉ insertAt l (rank x) x := by
      intro y hy
      obtain ⟨hp', htarget', hmem'⟩ := hadded y (mem_cons_of_mem x hy)
      refine ⟨hp', htarget', fun h => ?_⟩
      rcases mem_insertAt.1 h with rfl | h
      · exact hnew hy
      · exact hmem' h
    change Ranked rank p (insertAll rank (insertAt l (rank x) x) added) ↔ _
    constructor
    · intro h
      have hinsert := h.of_sublist rank (sublist_insertAll rank _ added)
      exact ⟨hone.1 hinsert, (ih hinsert hrest hadded').1 h⟩
    · rintro ⟨hplace, hright⟩
      exact (ih (hone.2 hplace) hrest hadded').2 hright

theorem ne_of_pairwise {l : List α} (h : l.Pairwise fun x y => rank x < rank y) {x y : α}
    (hx : x ∈ l) (hy : y ∈ l) (hne : x ≠ y) : rank x ≠ rank y := by
  have hpair : l.Pairwise fun x y => rank x ≠ rank y := h.imp Nat.ne_of_lt
  have hsymm : Std.Symm fun x y => rank x ≠ rank y := ⟨fun _ _ h => h.symm⟩
  exact hpair.forall hx hy hne

theorem eq_of_ranked {l target : List α} (hl : l.Pairwise fun x y => rank x < rank y)
    (htarget : target.Pairwise fun x y => rank x < rank y) (hmem : ∀ x, x ∈ l ↔ x ∈ target) :
    l = target := by
  have hnodup : ∀ {l : List α}, l.Pairwise (fun x y => rank x < rank y) → l.Nodup := fun h =>
    h.imp fun hlt heq => by
      rw [heq] at hlt
      exact Nat.lt_irrefl _ hlt
  have hperm : l.Perm target := (perm_ext_iff_of_nodup (hnodup hl) (hnodup htarget)).2 hmem
  refine hperm.eq_of_pairwise (fun x y _ _ hxy hyx => ?_) hl htarget
  cases Nat.lt_asymm hxy hyx

/-- **An edit after which nothing is missing** puts every element in the right place. -/
theorem insertsRight_of_complete {target : List α}
    (htarget : target.Pairwise fun x y => rank x < rank y)
    (hrank : ∀ x ∈ target, (target.countP fun y => rank y < rank x) = rank x)
    {added : List α} :
    ∀ {l : List α}, l.Pairwise (fun x y => rank x < rank y) → (∀ x ∈ l, x ∈ target) →
      added.Pairwise (fun x y => rank x < rank y) → (∀ x ∈ added, x ∈ target ∧ x ∉ l) →
      (∀ x ∈ target, x ∈ l ∨ x ∈ added) → InsertsRight rank (fun _ => true) l added := by
  induction added with
  | nil => exact fun _ _ _ _ _ => trivial
  | cons x added ih =>
    intro l hl hltarget hadded hnew hcomplete
    obtain ⟨hfirst, hrest⟩ := pairwise_cons.1 hadded
    obtain ⟨hx, hxl⟩ := hnew x (by simp)
    -- what is of lower rank is there
    have hlower : ∀ y ∈ target, rank y < rank x → y ∈ l := by
      intro y hy hlt
      rcases hcomplete y hy with hmem | hmem
      · exact hmem
      rcases mem_cons.1 hmem with rfl | hmem
      · cases Nat.lt_irrefl _ hlt
      · cases Nat.lt_asymm (hfirst y hmem) hlt
    have hfilter : (l.filter fun y => rank y < rank x) =
        target.filter fun y => rank y < rank x := by
      refine eq_of_ranked rank (hl.filter _) (htarget.filter _) fun y => ?_
      rw [mem_filter, mem_filter, decide_eq_true_eq]
      exact ⟨fun h => ⟨hltarget y h.1, h.2⟩, fun h => ⟨hlower y h.1 h.2, h.2⟩⟩
    have hcount : (l.countP fun y => rank y < rank x) = rank x := by
      rw [countP_eq_length_filter, hfilter, ← countP_eq_length_filter]
      exact hrank x hx
    have hplace : RightPlace rank (fun _ => true) l x := by
      have hlength : rank x ≤ l.length := by
        rw [← hcount]
        exact countP_le_length
      unfold RightPlace
      simp only [Bool.true_and]
      rw [hcount, countP_true, length_take, Nat.min_eq_left hlength]
    refine ⟨hplace, ih ?_ ?_ hrest ?_ ?_⟩
    · have hranked : Ranked rank (fun _ => true) l := by
        unfold Ranked
        rwa [filter_true]
      have hinsert := (ranked_insertAt_iff rank (x := x) rfl hranked fun y hy _ heq => by
        have hne : y ≠ x := fun h => hxl (h ▸ hy)
        have hmem := hltarget y hy
        exact absurd heq (ne_of_pairwise rank htarget hmem hx hne)).2 hplace
      unfold Ranked at hinsert
      rwa [filter_true] at hinsert
    · intro y hy
      rcases mem_insertAt.1 hy with rfl | hy
      · exact hx
      · exact hltarget y hy
    · intro y hy
      obtain ⟨hytarget, hyl⟩ := hnew y (mem_cons_of_mem x hy)
      refine ⟨hytarget, fun hmem => ?_⟩
      rcases mem_insertAt.1 hmem with rfl | hmem
      · exact Nat.lt_irrefl _ (hfirst y hy)
      · exact hyl hmem
    · intro y hy
      rcases hcomplete y hy with hmem | hmem
      · exact .inl (mem_insertAt.2 (.inr hmem))
      rcases mem_cons.1 hmem with rfl | hmem
      · exact .inl (mem_insertAt.2 (.inl rfl))
      · exact .inr hmem

end Ranks

/-! ## A run of edits -/

variable {edits : List (Edit α)}

section Runs

variable [DecidableEq α] (rank : α → ℕ)

def Edit.apply (l : List α) (e : Edit α) : List α :=
  insertAll rank (l.filter fun x => x ∉ e.removed) e.added

theorem Edit.mem_apply {l : List α} {e : Edit α} {y : α} :
    y ∈ e.apply rank l ↔ y ∈ e.added ∨ (y ∈ l ∧ y ∉ e.removed) := by
  unfold Edit.apply
  rw [mem_insertAll, mem_filter, decide_eq_true_eq]

def run (l : List α) (edits : List (Edit α)) : List α := edits.foldl (Edit.apply rank) l

/-- No later edit takes the element out. -/
def settled (later : List (Edit α)) (x : α) : Bool := later.all fun e => decide (x ∉ e.removed)

/-- Every edit puts every element in the right place with regard to the settled ones. -/
def RunsRight : List α → List (Edit α) → Prop
  | _, [] => True
  | l, e :: later =>
    InsertsRight rank (settled later) (l.filter fun x => x ∉ e.removed) e.added ∧
      RunsRight (e.apply rank l) later

/-- The edits put in what is not there, and no edit takes it out again. -/
def Fresh (target : List α) : List α → List (Edit α) → Prop
  | _, [] => True
  | l, e :: later =>
    e.added.Nodup ∧ (∀ x ∈ e.added, x ∈ target ∧ settled later x ∧
      (x ∈ l → x ∈ e.removed)) ∧ Fresh target (e.apply rank l) later

theorem filter_settled_cons (l : List α) (e : Edit α) (later : List (Edit α)) :
    l.filter (settled (e :: later)) =
      (l.filter fun x => x ∉ e.removed).filter (settled later) := by
  rw [filter_filter]
  refine filter_congr fun x _ => ?_
  unfold settled
  rw [all_cons, Bool.and_comm]

theorem sublist_run (edits : List (Edit α)) :
    ∀ l : List α, (l.filter (settled edits)).Sublist (run rank l edits) := by
  induction edits with
  | nil => exact fun l => filter_sublist
  | cons e later ih =>
    intro l
    rw [filter_settled_cons]
    exact ((sublist_insertAll rank _ e.added).filter _).trans (ih (e.apply rank l))

theorem settled_iff {later} {x : α} :
    settled later x ↔ ∀ e ∈ later, x ∉ e.removed := by
  unfold settled
  rw [all_eq_true]
  exact forall₂_congr fun e _ => decide_eq_true_iff

theorem fresh_of_once {target : List α} :
    ∀ {l : List α}, (∀ e ∈ edits, e.added.Nodup ∧ ∀ x ∈ e.added, x ∈ target) →
      (edits.Pairwise fun e e' => ∀ x ∈ e.added, x ∉ e'.removed ∧ x ∉ e'.added) →
      (∀ e ∈ edits, ∀ x ∈ e.added, x ∈ l → x ∈ e.removed) → Fresh rank target l edits := by
  induction edits with
  | nil => exact fun _ _ _ => trivial
  | cons e later ih =>
    intro l hadded honce hold
    obtain ⟨hfirst, hrest⟩ := pairwise_cons.1 honce
    obtain ⟨hnodup, htarget⟩ := hadded e (by simp)
    refine ⟨hnodup, fun x hx => ⟨htarget x hx, settled_iff.2 fun e' he' => (hfirst e' he' x hx).1,
      hold e (by simp) x hx⟩, ih (fun e' he' => hadded e' (by simp [he'])) hrest ?_⟩
    intro e' he' x hx hmem
    rcases (Edit.mem_apply rank).1 hmem with hnew | ⟨hmem, -⟩
    · cases (hfirst e' he' x hnew).2 hx
    · exact hold e' (by simp [he']) x hx hmem

/-- **After a run** the list has what was put in, and what it had and was not taken out. -/
theorem mem_run {x : α} :
    ∀ {l : List α}, (edits.Pairwise fun e e' => ∀ x ∈ e.added, x ∉ e'.removed) →
      (x ∈ run rank l edits ↔ (∃ e ∈ edits, x ∈ e.added) ∨ (x ∈ l ∧ settled edits x)) := by
  induction edits with
  | nil =>
    intro l _
    change x ∈ l ↔ _
    simp [settled]
  | cons e later ih =>
    intro l honce
    obtain ⟨hfirst, hrest⟩ := pairwise_cons.1 honce
    change x ∈ run rank (e.apply rank l) later ↔ _
    rw [ih hrest, Edit.mem_apply, settled_iff, settled_iff]
    constructor
    · rintro (⟨e', he', hx⟩ | ⟨hx | ⟨hx, hkept⟩, hlater⟩)
      · exact .inl ⟨e', by simp [he'], hx⟩
      · exact .inl ⟨e, by simp, hx⟩
      · refine .inr ⟨hx, fun e' he' => ?_⟩
        rcases mem_cons.1 he' with rfl | he'
        · exact hkept
        · exact hlater e' he'
    · rintro (⟨e', he', hx⟩ | ⟨hx, hall⟩)
      · rcases mem_cons.1 he' with rfl | he'
        · exact .inr ⟨.inl hx, fun e'' he'' => hfirst e'' he'' x hx⟩
        · exact .inl ⟨e', he', hx⟩
      · exact .inr ⟨.inr ⟨hx, hall e (by simp)⟩, fun e' he' => hall e' (by simp [he'])⟩

/-- **After a run** the list is in order exactly when every edit was right. -/
theorem ranked_run_iff (target : List α) (hinj : ∀ x ∈ target, ∀ y, rank y = rank x → y = x) :
    ∀ {l : List α}, Ranked rank (settled edits) l → Fresh rank target l edits →
      ((run rank l edits).Pairwise (fun x y => rank x < rank y) ↔ RunsRight rank l edits) := by
  induction edits with
  | nil =>
    intro l hranked _
    refine ⟨fun _ => trivial, fun _ => ?_⟩
    have hall : l.filter (settled []) = l := filter_eq_self.2 fun _ _ => rfl
    unfold Ranked at hranked
    rwa [hall] at hranked
  | cons e later ih =>
    intro l hranked hfresh
    obtain ⟨hnodup, hadded, hrest⟩ := hfresh
    have hremoved : Ranked rank (settled later) (l.filter fun x => x ∉ e.removed) := by
      unfold Ranked at hranked ⊢
      rwa [← filter_settled_cons]
    have hinsert : Ranked rank (settled later) (e.apply rank l) ↔
        InsertsRight rank (settled later) (l.filter fun x => x ∉ e.removed) e.added := by
      refine ranked_insertAll_iff rank target hinj hremoved hnodup fun x hx => ?_
      obtain ⟨htarget, hsettled, hold⟩ := hadded x hx
      refine ⟨hsettled, htarget, fun hmem => ?_⟩
      obtain ⟨hmem, hkept⟩ := mem_filter.1 hmem
      exact of_decide_eq_true hkept (hold hmem)
    change (run rank (e.apply rank l) later).Pairwise _ ↔ _
    constructor
    · intro h
      have hranked' : Ranked rank (settled later) (e.apply rank l) :=
        h.sublist (sublist_run rank later (e.apply rank l))
      exact ⟨hinsert.1 hranked', (ih hranked' hrest).1 h⟩
    · rintro ⟨hright, hlater⟩
      exact (ih (hinsert.2 hright) hrest).2 hlater

end Runs

/-! ## Places as ranks -/

section Places

variable [DecidableEq α] {l : List α}

theorem map_idxOf (h : l.Nodup) : l.map (fun x => l.idxOf x) = range l.length := by
  refine ext_getElem (by simp) fun i hi _ => ?_
  rw [getElem_map, getElem_range, h.idxOf_getElem]

theorem pairwise_idxOf (h : l.Nodup) : l.Pairwise fun x y => l.idxOf x < l.idxOf y := by
  have hrange : (l.map fun x => l.idxOf x).Pairwise (· < ·) := by
    rw [map_idxOf h]
    exact pairwise_lt_range
  exact pairwise_map.1 hrange

theorem countP_idxOf_lt (h : l.Nodup) {x : α} (hx : x ∈ l) :
    (l.countP fun y => l.idxOf y < l.idxOf x) = l.idxOf x := by
  have hmap : (l.countP fun y => l.idxOf y < l.idxOf x) =
      (range l.length).countP fun i => i < l.idxOf x := by
    rw [← map_idxOf h, countP_map]
    rfl
  have hlt := idxOf_lt_length_of_mem hx
  have hsplit : range l.length = range (l.idxOf x) ++
      (range (l.length - l.idxOf x)).map (l.idxOf x + ·) := by
    rw [← range_add, Nat.add_sub_cancel' (Nat.le_of_lt hlt)]
  rw [hmap, hsplit, countP_append]
  have hbefore : (range (l.idxOf x)).countP (fun i => i < l.idxOf x) = l.idxOf x := by
    rw [countP_eq_length.2 fun i hi => decide_eq_true (mem_range.1 hi),
      length_range]
  have hafter : ((range (l.length - l.idxOf x)).map (l.idxOf x + ·)).countP
      (fun i => i < l.idxOf x) = 0 := by
    refine countP_eq_zero.2 fun i hi => ?_
    obtain ⟨k, -, rfl⟩ := mem_map.1 hi
    simp
  rw [hbefore, hafter, Nat.add_zero]

theorem eq_of_idxOf_eq {x y : α} (hx : x ∈ l) (h : l.idxOf y = l.idxOf x) : y = x :=
  ((idxOf_inj hx).1 h.symm).symm

end Places

end Splicing
