import Mathlib.Data.List.Basic

/-!
# Cutting a list at offsets

`slices offsets xs` cuts a list at ascending offsets.

Principal result: `slices_offsets`.
-/

namespace Slices

open List

variable {α : Type*}

/-- The part of a list between two offsets. -/
def slice (xs : List α) (first last : ℕ) : List α := (xs.take last).drop first

/-- The parts between consecutive offsets, from `first` to the end of the list. -/
def slices (xs : List α) (first : ℕ) : List ℕ → List (List α)
  | [] => [slice xs first xs.length]
  | offset :: offsets => slice xs first offset :: slices xs offset offsets

/-- The offsets at which the parts of a concatenation end, when it starts at `first`. -/
def offsets (first : ℕ) : List (List α) → List ℕ
  | [] => []
  | part :: parts => (first + part.length) :: offsets (first + part.length) parts

theorem offsets_append (first : ℕ) (parts : List (List α)) (part : List α) :
    offsets first (parts ++ [part]) =
      offsets first parts ++ [first + parts.flatten.length + part.length] := by
  induction parts generalizing first with
  | nil => simp [offsets]
  | cons p ps ih =>
    have := ih (first + p.length)
    simp only [offsets, cons_append, flatten_cons, length_append] at this ⊢
    rw [this, Nat.add_assoc first]

theorem slices_offsets_append (done : List α) (parts : List (List α)) (last : List α) :
    slices (done ++ (parts.flatten ++ last)) done.length (offsets done.length parts) =
      parts ++ [last] := by
  induction parts generalizing done with
  | nil =>
    have hslice : slice (done ++ last) done.length (done ++ last).length = last := by
      unfold slice
      rw [take_length, drop_left]
    rw [flatten_nil, nil_append, offsets, slices, hslice]
    rfl
  | cons p ps ih =>
    have hassoc : done ++ ((p :: ps).flatten ++ last) = (done ++ p) ++ (ps.flatten ++ last) := by
      simp only [flatten_cons, append_assoc]
    have hlen : done.length + p.length = (done ++ p).length := length_append.symm
    have hslice : slice ((done ++ p) ++ (ps.flatten ++ last)) done.length
        (done ++ p).length = p := by
      unfold slice
      rw [take_left, drop_left]
    rw [hassoc, offsets, hlen, slices, hslice, ih (done ++ p)]
    rfl

/-- **Cutting at the offsets of the parts gives the parts.** -/
theorem slices_offsets (parts : List (List α)) (last : List α) :
    slices (parts.flatten ++ last) 0 (offsets 0 parts) = parts ++ [last] :=
  slices_offsets_append [] parts last

end Slices
