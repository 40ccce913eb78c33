import Mathlib.Data.List.Sort

/-!
# Sorting the two components of pairs apart

A list of pairs is split into its first and its second components, and each of the two lists is
sorted by itself.

Principal result: `sortedApart_iff`.
-/

namespace SortedPairs

open List

variable {α β : Type*} [LinearOrder α] [LinearOrder β]

/-- Equal positions of the two sorted lists hold a pair. -/
def KeepsPairs (pairs : List (α × β)) : Prop :=
  ∀ (i : ℕ) (a : α) (b : β), ((pairs.map Prod.fst).insertionSort (· ≤ ·))[i]? = some a →
    ((pairs.map Prod.snd).insertionSort (· ≤ ·))[i]? = some b → (a, b) ∈ pairs

/-- The second components ascend with the first. -/
def Ascending (pairs : List (α × β)) : Prop :=
  ∀ p ∈ pairs, ∀ q ∈ pairs, p.1 < q.1 → p.2 ≤ q.2

variable {pairs : List (α × β)}

omit [LinearOrder α] [LinearOrder β] in
theorem snd_eq_of_fst_eq (h : (pairs.map Prod.fst).Nodup) {p q : α × β} (hp : p ∈ pairs)
    (hq : q ∈ pairs) (heq : p.1 = q.1) : p.2 = q.2 :=
  congrArg Prod.snd (inj_on_of_nodup_map h hp hq heq)

theorem ascending_of_keepsPairs (h : (pairs.map Prod.fst).Nodup) (hkeeps : KeepsPairs pairs) :
    Ascending pairs := by
  -- a position that holds the first component of a pair holds the second one as well
  have hposition : ∀ p ∈ pairs, ∃ i : ℕ,
      ((pairs.map Prod.fst).insertionSort (· ≤ ·))[i]? = some p.1 ∧
      ((pairs.map Prod.snd).insertionSort (· ≤ ·))[i]? = some p.2 := by
    intro p hp
    have hmem : p.1 ∈ (pairs.map Prod.fst).insertionSort (· ≤ ·) :=
      (mem_insertionSort _).2 (mem_map.2 ⟨p, hp, rfl⟩)
    obtain ⟨i, hi⟩ := mem_iff_getElem?.1 hmem
    have hlt : i < ((pairs.map Prod.snd).insertionSort (· ≤ ·)).length := by
      have hlt := (List.getElem?_eq_some_iff.1 hi).1
      rw [length_insertionSort, length_map] at hlt ⊢
      exact hlt
    have hpair := hkeeps i p.1 _ hi (getElem?_eq_getElem hlt)
    refine ⟨i, hi, ?_⟩
    rw [getElem?_eq_getElem hlt, snd_eq_of_fst_eq h hp hpair rfl]
  intro p hp q hq hlt
  obtain ⟨i, hpi, hpi'⟩ := hposition p hp
  obtain ⟨j, hqj, hqj'⟩ := hposition q hq
  obtain ⟨hi, hpi⟩ := List.getElem?_eq_some_iff.1 hpi
  obtain ⟨hj, hqj⟩ := List.getElem?_eq_some_iff.1 hqj
  obtain ⟨hi', hpi'⟩ := List.getElem?_eq_some_iff.1 hpi'
  obtain ⟨hj', hqj'⟩ := List.getElem?_eq_some_iff.1 hqj'
  have hij : i < j := by
    refine lt_of_not_ge fun hji => absurd hlt (not_lt_of_ge ?_)
    rcases Nat.lt_or_eq_of_le hji with hji | rfl
    · have hle := pairwise_iff_getElem.1
        (pairwise_insertionSort (· ≤ ·) (pairs.map Prod.fst)) j i hj hi hji
      rwa [hpi, hqj] at hle
    · exact le_of_eq (hqj.symm.trans hpi)
  have hle := pairwise_iff_getElem.1
    (pairwise_insertionSort (· ≤ ·) (pairs.map Prod.snd)) i j hi' hj' hij
  rwa [hpi', hqj'] at hle

theorem keepsPairs_of_ascending (h : (pairs.map Prod.fst).Nodup) (hasc : Ascending pairs) :
    KeepsPairs pairs := by
  have hperm := perm_insertionSort (fun p q : α × β => p.1 ≤ q.1) pairs
  have hsorted := pairwise_insertionSort (fun p q : α × β => p.1 ≤ q.1) pairs
  generalize pairs.insertionSort (fun p q => p.1 ≤ q.1) = sorted at hperm hsorted
  have hdistinct : sorted.Pairwise fun p q => p.1 ≠ q.1 :=
    pairwise_map.1 ((hperm.map Prod.fst).nodup_iff.2 h)
  have hfst : sorted.map Prod.fst = (pairs.map Prod.fst).insertionSort (· ≤ ·) :=
    List.Perm.eq_of_pairwise' (r := (· ≤ ·)) (pairwise_map.2 hsorted)
      (pairwise_insertionSort _ _)
      ((hperm.map Prod.fst).trans (perm_insertionSort _ _).symm)
  have hsnd : sorted.map Prod.snd = (pairs.map Prod.snd).insertionSort (· ≤ ·) := by
    refine List.Perm.eq_of_pairwise' (r := (· ≤ ·)) (pairwise_map.2 ?_)
      (pairwise_insertionSort _ _)
      ((hperm.map Prod.snd).trans (perm_insertionSort _ _).symm)
    refine (hsorted.and hdistinct).imp_of_mem fun hp hq hpq => ?_
    exact hasc _ (hperm.mem_iff.1 hp) _ (hperm.mem_iff.1 hq) (lt_of_le_of_ne hpq.1 hpq.2)
  intro i a b ha hb
  rw [← hfst, getElem?_map] at ha
  rw [← hsnd, getElem?_map] at hb
  obtain ⟨p, hp, rfl⟩ := Option.map_eq_some_iff.1 ha
  obtain ⟨q, hq, rfl⟩ := Option.map_eq_some_iff.1 hb
  obtain rfl : p = q := Option.some_inj.1 (hp.symm.trans hq)
  exact hperm.mem_iff.1 (mem_of_getElem? hp)

/-- **Sorting apart** keeps the pairs exactly when the second components ascend with the first. -/
theorem sortedApart_iff (h : (pairs.map Prod.fst).Nodup) : KeepsPairs pairs ↔ Ascending pairs :=
  ⟨ascending_of_keepsPairs h, keepsPairs_of_ascending h⟩

theorem ascending_cons {p : α × β} :
    Ascending (p :: pairs) ↔
      (∀ q ∈ pairs, (p.1 < q.1 → p.2 ≤ q.2) ∧ (q.1 < p.1 → q.2 ≤ p.2)) ∧ Ascending pairs := by
  constructor
  · intro h
    refine ⟨fun q hq => ⟨h p ((.head _) ..) q (.tail _ hq),
      h q (.tail _ hq) p ((.head _) ..)⟩, fun a ha b hb => ?_⟩
    exact h a (.tail _ ha) b (.tail _ hb)
  · rintro ⟨hhead, hrest⟩ a ha b hb hlt
    rcases mem_cons.1 ha with rfl | ha'
    · rcases mem_cons.1 hb with rfl | hb'
      · cases lt_irrefl _ hlt
      · exact (hhead b hb').1 hlt
    · rcases mem_cons.1 hb with rfl | hb'
      · exact (hhead a ha').2 hlt
      · exact hrest a ha' b hb' hlt

end SortedPairs
