import Mathlib.Data.List.Sort
import Mathlib.Tactic.Linarith

/-!
# Busy intervals

`merge_intervals` (`dav/src/calendar/freebusy.rs`): the times of the events in a range, joined
before they are reported.

Principal result: `mergeIntervals_merges`.
-/

namespace MailServer.Dav

open List

/-- The loop over the intervals behind the one that is open, in the order of their starts. -/
def mergeLoop (startTime endTime : ℤ) : List (ℤ × ℤ) → List (ℤ × ℤ)
  | [] => [(startTime, endTime)]
  | (currStart, currEnd) :: rest =>
    if currStart ≤ endTime then mergeLoop startTime (max endTime currEnd) rest
    else (startTime, endTime) :: mergeLoop currStart currEnd rest

/-- `sort` is `sort_unstable_by`, which leaves open how intervals with one start are ordered. -/
def mergeIntervals (sort : List (ℤ × ℤ) → List (ℤ × ℤ)) (intervals : List (ℤ × ℤ)) :
    List (ℤ × ℤ) :=
  if 1 < intervals.length then
    match sort intervals with
    | [] => []
    | (startTime, endTime) :: rest => mergeLoop startTime endTime rest
  else intervals

def Busy (intervals : List (ℤ × ℤ)) (t : ℤ) : Prop := ∃ i ∈ intervals, i.1 ≤ t ∧ t < i.2

/-- The same instants, in intervals that are ordered and have a gap between them. -/
structure Merges (intervals merged : List (ℤ × ℤ)) : Prop where
  busy : ∀ t, Busy merged t ↔ Busy intervals t
  apart : merged.Pairwise fun a b => a.1 ≤ b.1 ∧ a.2 < b.1
  ends : (∀ i ∈ intervals, i.1 ≤ i.2) → ∀ i ∈ merged, i.1 ≤ i.2

variable {intervals rest : List (ℤ × ℤ)} {startTime endTime t : ℤ}

theorem busy_cons {i : ℤ × ℤ} : Busy (i :: rest) t ↔ i.1 ≤ t ∧ t < i.2 ∨ Busy rest t := by
  simp [Busy]

theorem forall_mem_mergeLoop {P : ℤ → Prop} (hstart : P startTime) (hrest : ∀ i ∈ rest, P i.1) :
    ∀ i ∈ mergeLoop startTime endTime rest, P i.1 := by
  induction rest generalizing startTime endTime with
  | nil => simpa [mergeLoop] using hstart
  | cons curr rest ih =>
    obtain ⟨hcurr, hrest⟩ := forall_mem_cons.1 hrest
    unfold mergeLoop
    split
    · exact ih hstart hrest
    · exact forall_mem_cons.2 ⟨hstart, ih hcurr hrest⟩

theorem mergeLoop_merges (hsorted : ((startTime, endTime) :: rest).Pairwise (·.1 ≤ ·.1)) :
    Merges ((startTime, endTime) :: rest) (mergeLoop startTime endTime rest) := by
  induction rest generalizing startTime endTime with
  | nil => exact ⟨fun _ => .rfl, pairwise_singleton _ _, id⟩
  | cons curr rest ih =>
    obtain ⟨hstart, hsorted⟩ := pairwise_cons.1 hsorted
    obtain ⟨hcurr, hrest⟩ := pairwise_cons.1 hsorted
    have hle : startTime ≤ curr.1 := hstart curr (.head _)
    unfold mergeLoop
    split_ifs with hjoin
    · -- the two have one union, as one starts where the other has not ended
      obtain ⟨hbusy, hapart, hends⟩ := @ih startTime (max endTime curr.2)
        (pairwise_cons.2 ⟨fun i hi => hstart i (.tail _ hi), hrest⟩)
      refine ⟨fun t => ?_, hapart, fun hall => hends ?_⟩
      · rw [hbusy, busy_cons, busy_cons, busy_cons, ← or_assoc]
        refine or_congr_left ?_
        dsimp only
        omega
      · simp only [forall_mem_cons] at hall ⊢
        exact ⟨hall.1.trans (le_max_left _ _), hall.2.2⟩
    · obtain ⟨hbusy, hapart, hends⟩ := ih hsorted
      refine ⟨fun t => ?_, pairwise_cons.2 ⟨fun i hi => ?_, hapart⟩, fun hall => ?_⟩
      · rw [busy_cons, hbusy, ← busy_cons]
      · have hfirst : curr.1 ≤ i.1 := forall_mem_mergeLoop (P := (curr.1 ≤ ·)) le_rfl hcurr i hi
        exact ⟨hle.trans hfirst, (not_le.1 hjoin).trans_le hfirst⟩
      · rw [forall_mem_cons] at hall
        exact forall_mem_cons.2 ⟨hall.1, hends hall.2⟩

/-- **The merged intervals are busy at the same times**, in order and with gaps between them. -/
theorem mergeIntervals_merges {sort : List (ℤ × ℤ) → List (ℤ × ℤ)}
    (hsort : ∀ l, (sort l).Perm l ∧ (sort l).Pairwise (·.1 ≤ ·.1)) (intervals : List (ℤ × ℤ)) :
    Merges intervals (mergeIntervals sort intervals) := by
  obtain ⟨hperm, hsorted⟩ := hsort intervals
  unfold mergeIntervals
  split_ifs with hmany
  · cases heq : sort intervals with
    | nil =>
      rw [heq] at hperm
      rw [← hperm.length_eq] at hmany
      cases hmany
    | cons first rest =>
      rw [heq] at hperm hsorted
      obtain ⟨hbusy, hapart, hends⟩ := mergeLoop_merges hsorted
      refine ⟨fun t => (hbusy t).trans ?_, hapart, fun hall => hends fun i hi => ?_⟩
      · exact exists_congr fun i => and_congr_left' hperm.mem_iff
      · exact hall i (hperm.mem_iff.1 hi)
  · refine ⟨fun _ => .rfl, ?_, id⟩
    match intervals with
    | [] => exact .nil
    | [_] => exact pairwise_singleton _ _
    | _ :: _ :: _ => simp at hmany

theorem mergeIntervals_merges_nested :
    Merges [(5, 7), (1, 4), (2, 3), (4, 5), (9, 9)]
      (mergeIntervals (insertionSort (·.1 ≤ ·.1)) [(5, 7), (1, 4), (2, 3), (4, 5), (9, 9)]) := by
  refine mergeIntervals_merges (fun l => ⟨perm_insertionSort _ l, ?_⟩) _
  have : Std.Total fun a b : ℤ × ℤ => a.1 ≤ b.1 := ⟨fun a b => le_total a.1 b.1⟩
  have : IsTrans (ℤ × ℤ) fun a b => a.1 ≤ b.1 := ⟨fun _ _ _ => le_trans⟩
  exact pairwise_insertionSort _ l

end MailServer.Dav
