import Mathlib

/-!
# Sets as sorted lists

A list is sorted and equal neighbours are merged; two such lists are intersected in one walk.

Principal results: `sortDedup_eq_iff`, `meets_iff`.
-/

namespace SortedSet

open List

variable {α : Type*} [LinearOrder α]

/-- `sort_unstable` and then `dedup`. -/
def sortDedup (l : List α) : List α := (l.insertionSort (· ≤ ·)).destutter (· ≠ ·)

omit [LinearOrder α] in
theorem mem_destutter' [DecidableEq α] {l : List α} {a b : α} :
    b ∈ l.destutter' (· ≠ ·) a ↔ b = a ∨ b ∈ l := by
  induction l generalizing a with
  | nil => simp
  | cons c rest ih =>
    by_cases h : a = c
    · subst h
      rw [destutter'_cons_neg _ (fun hne => hne rfl), ih, mem_cons, ← or_assoc, or_self]
    · rw [destutter'_cons_pos _ h, mem_cons, ih, mem_cons]

theorem mem_sortDedup {l : List α} {a : α} : a ∈ sortDedup l ↔ a ∈ l := by
  have hsort : a ∈ l.insertionSort (· ≤ ·) ↔ a ∈ l := mem_insertionSort _
  rw [← hsort, sortDedup]
  cases l.insertionSort (· ≤ ·) with
  | nil => rfl
  | cons b rest => rw [destutter_cons', mem_destutter', mem_cons]

theorem pairwise_sortDedup (l : List α) : (sortDedup l).Pairwise (· < ·) := by
  have hle : (sortDedup l).Pairwise (· ≤ ·) :=
    (pairwise_insertionSort (· ≤ ·) l).sublist (destutter_sublist _ _)
  have hne : (sortDedup l).IsChain (· ≠ ·) := isChain_destutter _ _
  have hlt : (sortDedup l).IsChain (· < ·) := by
    refine isChain_iff_getElem.2 fun i hi => lt_of_le_of_ne ?_ ?_
    · exact isChain_iff_getElem.1 hle.isChain i hi
    · exact isChain_iff_getElem.1 hne i hi
  exact hlt.pairwise

/-- **A sorted list is determined by its members.** -/
theorem sortDedup_eq_iff {l l' : List α} :
    sortDedup l = sortDedup l' ↔ ∀ a, a ∈ l ↔ a ∈ l' := by
  constructor
  · intro h a
    rw [← mem_sortDedup, h, mem_sortDedup]
  · intro h
    have hperm : (sortDedup l).Perm (sortDedup l') :=
      (perm_ext_iff_of_nodup (pairwise_sortDedup l).nodup (pairwise_sortDedup l').nodup).2
        fun a => by rw [mem_sortDedup, mem_sortDedup, h a]
    exact hperm.eq_of_pairwise' (pairwise_sortDedup l) (pairwise_sortDedup l')

theorem sortDedup_eq_nil {l : List α} : sortDedup l = [] ↔ l = [] := by
  constructor
  · intro h
    refine eq_nil_iff_forall_not_mem.2 fun a ha => ?_
    have hmem := mem_sortDedup.2 ha
    rw [h] at hmem
    cases hmem
  · rintro rfl
    rfl

theorem length_sortDedup_eq_one {l : List α} :
    (sortDedup l).length = 1 ↔ ∃ a ∈ l, ∀ b ∈ l, b = a := by
  constructor
  · intro h
    obtain ⟨a, ha⟩ := length_eq_one_iff.1 h
    refine ⟨a, mem_sortDedup.1 (ha ▸ mem_singleton.2 rfl), fun b hb => ?_⟩
    have hmem := mem_sortDedup.2 hb
    rw [ha] at hmem
    exact mem_singleton.1 hmem
  · rintro ⟨a, ha, hall⟩
    have heq : sortDedup l = sortDedup [a] := sortDedup_eq_iff.2 fun b =>
      ⟨fun hb => mem_singleton.2 (hall b hb), fun hb => mem_singleton.1 hb ▸ ha⟩
    rw [heq]
    rfl

/-- Walks two sorted lists at once until they meet. -/
def meets : List α → List α → Bool
  | [], _ => false
  | _ :: _, [] => false
  | a :: as, b :: bs =>
    match cmp a b with
    | .eq => true
    | .lt => meets as (b :: bs)
    | .gt => meets (a :: as) bs
termination_by as bs => as.length + bs.length

/-- **The walk finds a common member** of two sorted lists if there is one. -/
theorem meets_iff {as bs : List α} (has : as.Pairwise (· < ·)) (hbs : bs.Pairwise (· < ·)) :
    meets as bs ↔ ∃ a ∈ as, a ∈ bs := by
  induction as, bs using meets.induct with
  | case1 | case2 => simp [meets]
  | case3 a as b bs heq =>
    obtain rfl : a = b := (cmp_eq_eq_iff ..).1 heq
    unfold meets
    rw [heq]
    exact ⟨fun _ => ⟨a, (.head _) .., (.head _) ..⟩, fun _ => rfl⟩
  | case4 a as b bs hlt ih =>
    obtain ⟨-, has⟩ := pairwise_cons.1 has
    unfold meets
    rw [hlt]
    change meets as (b :: bs) ↔ _
    rw [ih has hbs]
    -- the smaller head is in neither the other head nor what follows it
    have hhead : a ∉ b :: bs := by
      intro hmem
      have hab : a < b := (cmp_eq_lt_iff ..).1 hlt
      rcases mem_cons.1 hmem with rfl | hmem
      · exact lt_irrefl _ hab
      · exact lt_asymm hab ((pairwise_cons.1 hbs).1 a hmem)
    constructor
    · rintro ⟨c, hc, hc'⟩
      exact ⟨c, .tail _ hc, hc'⟩
    · rintro ⟨c, hc, hc'⟩
      rcases mem_cons.1 hc with rfl | hc
      · cases hhead hc'
      · exact ⟨c, hc, hc'⟩
  | case5 a as b bs hgt ih =>
    obtain ⟨-, hbs⟩ := pairwise_cons.1 hbs
    unfold meets
    rw [hgt]
    change meets (a :: as) bs ↔ _
    rw [ih has hbs]
    have hhead : b ∉ a :: as := by
      intro hmem
      have hba : b < a := (cmp_eq_gt_iff ..).1 hgt
      rcases mem_cons.1 hmem with rfl | hmem
      · exact lt_irrefl _ hba
      · exact lt_asymm hba ((pairwise_cons.1 has).1 b hmem)
    constructor
    · rintro ⟨c, hc, hc'⟩
      exact ⟨c, hc, .tail _ hc'⟩
    · rintro ⟨c, hc, hc'⟩
      rcases mem_cons.1 hc' with rfl | hc'
      · cases hhead hc
      · exact ⟨c, hc, hc'⟩

end SortedSet
