import Mathlib.Data.List.Basic

/-!
# Removing positions announced one after another

A list is edited by messages that name positions, counted from one; each message shifts what
stands behind it, so the `k`-th of an ascending list of positions is announced as that position
less `k`.

Principal result: `foldl_eraseNumber_failing`.
-/

namespace Positions

open List

variable {α : Type*}

/-- Removes the element with the number; no element has number zero. -/
def eraseNumber (l : List α) (n : ℕ) : List α := if n = 0 then l else l.eraseIdx (n - 1)

/-- Every number less the count of the numbers before it, `k` of which were announced earlier. -/
def renumber (k : ℕ) (numbers : List ℕ) : List ℕ :=
  (numbers.zipIdx k).map fun numbered => numbered.1 - numbered.2

/-- The numbers of the elements that fail `p`; the first element of the list has number
`offset + 1`. -/
def failing (p : α → Bool) : ℕ → List α → List ℕ
  | _, [] => []
  | offset, a :: l =>
    if p a then failing p (offset + 1) l else (offset + 1) :: failing p (offset + 1) l

theorem eraseNumber_at_split (kept l : List α) (a : α) :
    eraseNumber (kept ++ a :: l) (kept.length + 1) = kept ++ l := by
  unfold eraseNumber
  rw [Nat.add_sub_cancel,
    eraseIdx_append_of_length_le (Nat.le_refl _)]
  simp

theorem renumber_cons (k n : ℕ) (numbers : List ℕ) :
    renumber k (n :: numbers) = (n - k) :: renumber (k + 1) numbers := rfl

/-- **Announced removals**: `kept` is what passed the test so far, `k` elements failed it. -/
theorem foldl_eraseNumber_failing (p : α → Bool) (l kept : List α) (k : ℕ) :
    (renumber k (failing p (kept.length + k) l)).foldl eraseNumber (kept ++ l) =
      kept ++ l.filter p := by
  induction l generalizing kept k with
  | nil => rfl
  | cons a l ih =>
    unfold failing
    cases h : p a with
    | true =>
      have hlen : kept.length + k + 1 = (kept ++ [a]).length + k := by
        rw [length_append, length_singleton]
        omega
      rw [if_pos rfl, hlen, append_cons, ih (kept ++ [a]) k, filter_cons_of_pos h,
        append_assoc, singleton_append]
    | false =>
      have hnumber : kept.length + k + 1 - k = kept.length + 1 := by omega
      rw [if_neg (by simp), renumber_cons, foldl_cons, hnumber, eraseNumber_at_split,
        Nat.add_assoc, ih kept (k + 1), filter_cons_of_neg (by simp [h])]

theorem lt_of_mem_failing {p : α → Bool} {l : List α} {offset n : ℕ}
    (h : n ∈ failing p offset l) : offset < n := by
  induction l generalizing offset with
  | nil => cases h
  | cons a l ih =>
    unfold failing at h
    split at h
    · exact Nat.lt_of_succ_lt (ih h)
    · rcases mem_cons.1 h with rfl | h
      · exact Nat.lt_succ_self offset
      · exact Nat.lt_of_succ_lt (ih h)

theorem pairwise_failing (p : α → Bool) (l : List α) (offset : ℕ) :
    (failing p offset l).Pairwise (· < ·) := by
  induction l generalizing offset with
  | nil => exact List.Pairwise.nil
  | cons a l ih =>
    unfold failing
    split
    · exact ih (offset + 1)
    · exact List.Pairwise.cons (fun n hn => lt_of_mem_failing hn) (ih (offset + 1))

end Positions
