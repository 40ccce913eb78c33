import Mathlib.Order.Basic

/-!
# Ranges of keys with a prefix

Lists in lexicographic order.

* `mem_iff` — the range from `xs` to `xs` with `t` appended holds `xs` and its continuations by an
  element below `t`;
* `append_lt_append_iff` — blocks of one length decide before what follows them;
* `lt_cases`, `prefix_of_within` — how the order of two lists carries over to their continuations;
* `not_lt_replicate`, `not_replicate_lt` — the least and the greatest continuations.
-/

namespace PrefixRange

open List

variable {α : Type*} [LT α]

/-- `first ≤ p < last`. -/
def Mem (first last p : List α) : Prop := ¬ p < first ∧ p < last

theorem mem_iff (hirrefl : ∀ a : α, ¬ a < a) {xs p : List α} {t : α} :
    Mem xs (xs ++ [t]) p ↔ ∃ s, p = xs ++ s ∧ ∀ b ∈ s.head?, b < t := by
  induction xs generalizing p with
  | nil =>
    cases p with
    | nil => simp [Mem]
    | cons b s =>
      simp only [Mem, not_lt_nil, not_false_eq_true, true_and, nil_append,
        cons_lt_cons_iff, and_false, or_false]
      constructor
      · exact fun hb => ⟨b :: s, rfl, fun c hc => by cases hc; exact hb⟩
      · rintro ⟨s', heq, hb⟩
        subst heq
        exact hb b rfl
  | cons x xs ih =>
    cases p with
    | nil =>
      constructor
      · exact fun h => absurd (nil_lt_cons x xs) h.1
      · rintro ⟨s, heq, -⟩
        cases heq
    | cons b s =>
      have hcons : Mem (x :: xs) (x :: xs ++ [t]) (b :: s) ↔ b = x ∧ Mem xs (xs ++ [t]) s := by
        simp only [Mem, cons_append, cons_lt_cons_iff]
        constructor
        · rintro ⟨hge, hlt | ⟨heq, hlt⟩⟩
          · cases hge (.inl hlt)
          · exact ⟨heq, fun hs => hge (.inr ⟨heq, hs⟩), hlt⟩
        · rintro ⟨rfl, hge, hlt⟩
          refine ⟨?_, .inr ⟨rfl, hlt⟩⟩
          rintro (hb | ⟨-, hs⟩)
          · exact hirrefl b hb
          · exact hge hs
      rw [hcons, ih]
      constructor
      · rintro ⟨rfl, s', rfl, hb⟩
        exact ⟨s', rfl, hb⟩
      · rintro ⟨s', heq, hb⟩
        cases heq
        exact ⟨rfl, s', rfl, hb⟩

/-! ## Blocks of one length -/

/-- `first ≤ p ≤ last`. -/
def Within (first last p : List α) : Prop := ¬ p < first ∧ ¬ last < p

theorem append_lt_append_iff {xs ys s t : List α} (hlength : xs.length = ys.length) :
    xs ++ s < ys ++ t ↔ xs < ys ∨ xs = ys ∧ s < t := by
  induction xs generalizing ys with
  | nil =>
    obtain rfl : ys = [] := length_eq_zero_iff.1 hlength.symm
    simp
  | cons x xs ih =>
    cases ys with
    | nil => cases hlength
    | cons y ys =>
      have htail := @ih ys (by simpa using hlength)
      simp only [cons_append, cons_lt_cons_iff, htail, cons.injEq]
      constructor
      · rintro (h | ⟨rfl, h | ⟨rfl, h⟩⟩)
        · exact .inl (.inl h)
        · exact .inl (.inr ⟨rfl, h⟩)
        · exact .inr ⟨⟨rfl, rfl⟩, h⟩
      · rintro ((h | ⟨rfl, h⟩) | ⟨⟨rfl, rfl⟩, h⟩)
        · exact .inl h
        · exact .inr ⟨rfl, .inl h⟩
        · exact .inr ⟨rfl, .inr ⟨rfl, h⟩⟩

theorem not_lt_replicate {bot : α} (hbot : ∀ a, ¬ a < bot) {n : ℕ} {u : List α}
    (hn : n ≤ u.length) : ¬ u < replicate n bot := by
  induction n generalizing u with
  | zero => exact not_lt_nil u
  | succ n ih =>
    cases u with
    | nil => cases Nat.not_succ_le_zero n hn
    | cons a u =>
      rw [replicate_succ, cons_lt_cons_iff]
      rintro (h | ⟨-, h⟩)
      · exact hbot a h
      · exact ih (Nat.le_of_succ_le_succ hn) h

theorem not_replicate_lt {top : α} (htop : ∀ a, ¬ top < a) {n : ℕ} {u : List α}
    (hn : u.length ≤ n) : ¬ replicate n top < u := by
  induction n generalizing u with
  | zero =>
    obtain rfl : u = [] := length_eq_zero_iff.1 (Nat.le_zero.1 hn)
    exact not_lt_nil _
  | succ n ih =>
    cases u with
    | nil => exact not_lt_nil _
    | cons a u =>
      rw [replicate_succ, cons_lt_cons_iff]
      rintro (h | ⟨-, h⟩)
      · exact htop a h
      · exact ih (Nat.le_of_succ_le_succ hn) h

/-! ## Continuations -/

/-- Of two lists in order the first is continued by the second, or their continuations are in that
order. -/
theorem lt_cases {xs ys : List α} (h : xs < ys) :
    (∃ w, w ≠ [] ∧ ys = xs ++ w) ∨ ∀ s t, xs ++ s < ys ++ t := by
  induction xs generalizing ys with
  | nil =>
    cases ys with
    | nil => cases not_lt_nil [] h
    | cons y ys => exact .inl ⟨y :: ys, by simp, rfl⟩
  | cons x xs ih =>
    cases ys with
    | nil => cases not_lt_nil _ h
    | cons y ys =>
      rcases cons_lt_cons_iff.1 h with hxy | ⟨rfl, hlt⟩
      · exact .inr fun s t => cons_lt_cons_iff.2 (.inl hxy)
      · rcases ih hlt with ⟨w, hw, rfl⟩ | hall
        · exact .inl ⟨w, hw, rfl⟩
        · exact .inr fun s t => cons_lt_cons_iff.2 (.inr ⟨rfl, hall s t⟩)

theorem append_lt_append_left (hirrefl : ∀ a : α, ¬ a < a) (xs : List α) {s t : List α} :
    xs ++ s < xs ++ t ↔ s < t := by
  have : Std.Irrefl (fun a b : α => a < b) := ⟨hirrefl⟩
  rw [append_lt_append_iff rfl]
  exact ⟨fun h => h.elim (fun hlt => absurd hlt (List.lt_irrefl xs)) And.right,
    fun h => .inr ⟨rfl, h⟩⟩

theorem prefix_of_within (hantisymm : ∀ a b : α, ¬ a < b → ¬ b < a → a = b) {xs s t p : List α}
    (h : Within (xs ++ s) (xs ++ t) p) : xs <+: p := by
  induction xs generalizing p with
  | nil => exact nil_prefix
  | cons x xs ih =>
    cases p with
    | nil => cases h.1 (nil_lt_cons x (xs ++ s))
    | cons b p =>
      simp only [Within, cons_append, cons_lt_cons_iff] at h
      obtain rfl : b = x := hantisymm b x (fun hlt => h.1 (.inl hlt)) fun hlt => h.2 (.inl hlt)
      have hrest : Within (xs ++ s) (xs ++ t) p :=
        ⟨fun hlt => h.1 (.inr ⟨rfl, hlt⟩), fun hlt => h.2 (.inr ⟨rfl, hlt⟩)⟩
      exact (prefix_cons_inj b).2 (ih hrest)

end PrefixRange
