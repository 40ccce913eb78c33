import Mathlib.Data.List.Basic

/-!
# The heads of a separated list

A list is split at its last separator, and again what is left: for a path these are the paths above
it.

Principal result: `mem_heads` — a head is what stands before some separator.
-/

namespace PathHeads

open List

variable {α : Type*} [DecidableEq α] {sep : α}

/-- What stands before and after the last separator. -/
def rsplitOnce (sep : α) : List α → Option (List α × List α)
  | [] => none
  | a :: l =>
    match rsplitOnce sep l with
    | some (before, after) => some (a :: before, after)
    | none => if a = sep then some ([], l) else none

/-- What stands before each separator, the longest first. -/
def heads (sep : α) : List α → List (List α)
  | [] => []
  | a :: l => (heads sep l).map (a :: ·) ++ if a = sep then [[]] else []

theorem mem_heads {l p : List α} : p ∈ heads sep l ↔ ∃ rest, l = p ++ sep :: rest := by
  induction l generalizing p with
  | nil =>
    refine ⟨fun h => absurd h not_mem_nil, ?_⟩
    rintro ⟨rest, h⟩
    cases append_ne_nil_of_right_ne_nil p (cons_ne_nil sep rest) h.symm
  | cons a l ih =>
    unfold heads
    rw [mem_append, mem_map]
    constructor
    · rintro (⟨q, hq, rfl⟩ | h)
      · obtain ⟨rest, rfl⟩ := ih.1 hq
        exact ⟨rest, rfl⟩
      · by_cases ha : a = sep
        · rw [if_pos ha, mem_singleton] at h
          exact ⟨l, by rw [h, ha, nil_append]⟩
        · rw [if_neg ha] at h
          cases h
    · rintro ⟨rest, h⟩
      cases p with
      | nil =>
        rw [nil_append, cons.injEq] at h
        exact .inr (by rw [if_pos h.1]; exact mem_singleton.2 rfl)
      | cons b q =>
        rw [cons_append, cons.injEq] at h
        exact .inl ⟨q, ih.2 ⟨rest, h.2⟩, by rw [h.1]⟩

end PathHeads
