import Mathlib.Data.List.Basic

/-!
# Streams cut into packets

A machine reads a stream one element after another and has an outcome now and then.  The stream
arrives in packets; after a *breaking* outcome the rest of the packet is dropped.

Principal results: `scan_append`, `scan_append_of_break` — reading a packet in two parts;
`exists_feed_of_afterBreak`, `exists_last_of_afterBreak` — the breaking outcome.
-/

namespace Packets

open List

variable {σ β ο : Type*}

/-- Reads one packet: the state it leaves and the outcomes, in order. -/
def scan (feed : σ → β → σ × Option ο) (breaks : ο → Bool) (s : σ) : List β → σ × List ο
  | [] => (s, [])
  | b :: bs =>
    match feed s b with
    | (s', none) => scan feed breaks s' bs
    | (s', some o) =>
      if breaks o then (s', [o])
      else
        let r := scan feed breaks s' bs
        (r.1, o :: r.2)

/-- The state and the rest of the packet at the first breaking outcome. -/
def afterBreak (feed : σ → β → σ × Option ο) (breaks : ο → Bool) (s : σ) :
    List β → Option (σ × List β)
  | [] => none
  | b :: bs =>
    match feed s b with
    | (s', none) => afterBreak feed breaks s' bs
    | (s', some o) => if breaks o then some (s', bs) else afterBreak feed breaks s' bs

variable {feed : σ → β → σ × Option ο} {breaks : ο → Bool} {s s' : σ} {b : β} {o : ο}
  {xs ys rest : List β}

/-! ## One element -/

theorem scan_cons_none (h : feed s b = (s', none)) :
    scan feed breaks s (b :: xs) = scan feed breaks s' xs := by
  rw [scan, h]

theorem scan_cons_break (h : feed s b = (s', some o)) (hbreaks : breaks o) :
    scan feed breaks s (b :: xs) = (s', [o]) := by
  rw [scan, h]
  simp only [hbreaks, if_true]

theorem scan_cons_some (h : feed s b = (s', some o)) (hbreaks : breaks o = false) :
    scan feed breaks s (b :: xs) =
      ((scan feed breaks s' xs).1, o :: (scan feed breaks s' xs).2) := by
  rw [scan, h]
  simp only [hbreaks, Bool.false_eq_true, if_false]

theorem afterBreak_cons_none (h : feed s b = (s', none)) :
    afterBreak feed breaks s (b :: xs) = afterBreak feed breaks s' xs := by
  rw [afterBreak, h]

theorem afterBreak_cons_break (h : feed s b = (s', some o)) (hbreaks : breaks o) :
    afterBreak feed breaks s (b :: xs) = some (s', xs) := by
  rw [afterBreak, h]
  simp only [hbreaks, if_true]

theorem afterBreak_cons_some (h : feed s b = (s', some o)) (hbreaks : breaks o = false) :
    afterBreak feed breaks s (b :: xs) = afterBreak feed breaks s' xs := by
  rw [afterBreak, h]
  simp only [hbreaks, Bool.false_eq_true, if_false]

theorem feed_cases (feed : σ → β → σ × Option ο) (breaks : ο → Bool) (s : σ) (b : β) :
    (∃ s', feed s b = (s', none)) ∨
      (∃ s' o, feed s b = (s', some o) ∧ breaks o) ∨
      ∃ s' o, feed s b = (s', some o) ∧ breaks o = false := by
  rcases hfeed : feed s b with ⟨s', _ | o⟩
  · exact .inl ⟨s', rfl⟩
  · cases hbreaks : breaks o with
    | true => exact .inr (.inl ⟨s', o, rfl, hbreaks⟩)
    | false => exact .inr (.inr ⟨s', o, rfl, hbreaks⟩)

/-! ## Two parts of a packet -/

theorem scan_append (h : afterBreak feed breaks s xs = none) (ys : List β) :
    scan feed breaks s (xs ++ ys) =
      ((scan feed breaks (scan feed breaks s xs).1 ys).1,
        (scan feed breaks s xs).2 ++ (scan feed breaks (scan feed breaks s xs).1 ys).2) := by
  induction xs generalizing s with
  | nil => rfl
  | cons b bs ih =>
    rw [cons_append]
    rcases feed_cases feed breaks s b with ⟨t, ht⟩ | ⟨t, o, ht, ho⟩ | ⟨t, o, ht, ho⟩
    · rw [afterBreak_cons_none ht] at h
      rw [scan_cons_none ht, scan_cons_none ht, ih h]
    · rw [afterBreak_cons_break ht ho] at h
      cases h
    · rw [afterBreak_cons_some ht ho] at h
      rw [scan_cons_some ht ho, scan_cons_some ht ho, ih h, cons_append]

theorem afterBreak_append (h : afterBreak feed breaks s xs = none) (ys : List β) :
    afterBreak feed breaks s (xs ++ ys) = afterBreak feed breaks (scan feed breaks s xs).1 ys := by
  induction xs generalizing s with
  | nil => rfl
  | cons b bs ih =>
    rw [cons_append]
    rcases feed_cases feed breaks s b with ⟨t, ht⟩ | ⟨t, o, ht, ho⟩ | ⟨t, o, ht, ho⟩
    · rw [afterBreak_cons_none ht] at h
      rw [afterBreak_cons_none ht, scan_cons_none ht, ih h]
    · rw [afterBreak_cons_break ht ho] at h
      cases h
    · rw [afterBreak_cons_some ht ho] at h
      rw [afterBreak_cons_some ht ho, scan_cons_some ht ho, ih h]

theorem scan_append_of_break (h : afterBreak feed breaks s xs = some (s', rest))
    (ys : List β) :
    scan feed breaks s (xs ++ ys) = scan feed breaks s xs ∧ (scan feed breaks s xs).1 = s' ∧
      afterBreak feed breaks s (xs ++ ys) = some (s', rest ++ ys) := by
  induction xs generalizing s with
  | nil => cases h
  | cons b bs ih =>
    rw [cons_append]
    rcases feed_cases feed breaks s b with ⟨t, ht⟩ | ⟨t, o, ht, ho⟩ | ⟨t, o, ht, ho⟩
    · rw [afterBreak_cons_none ht] at h ⊢
      rw [scan_cons_none ht, scan_cons_none ht]
      exact ih h
    · rw [afterBreak_cons_break ht ho] at h ⊢
      obtain ⟨rfl, rfl⟩ := h
      rw [scan_cons_break ht ho, scan_cons_break ht ho]
      exact ⟨rfl, rfl, rfl⟩
    · rw [afterBreak_cons_some ht ho] at h ⊢
      rw [scan_cons_some ht ho, scan_cons_some ht ho]
      obtain ⟨hscan, hstate, hbreak⟩ := ih h
      exact ⟨by rw [hscan], hstate, hbreak⟩

theorem exists_of_afterBreak (h : afterBreak feed breaks s xs = some (s', rest)) :
    ∃ pre, xs = pre ++ rest ∧ afterBreak feed breaks s pre = some (s', []) := by
  induction xs generalizing s with
  | nil => cases h
  | cons b bs ih =>
    rcases feed_cases feed breaks s b with ⟨t, ht⟩ | ⟨t, o, ht, ho⟩ | ⟨t, o, ht, ho⟩
    · rw [afterBreak_cons_none ht] at h
      obtain ⟨pre, rfl, hbreak⟩ := ih h
      exact ⟨b :: pre, rfl, (afterBreak_cons_none ht).trans hbreak⟩
    · rw [afterBreak_cons_break ht ho] at h
      obtain ⟨rfl, rfl⟩ := h
      exact ⟨[b], rfl, afterBreak_cons_break ht ho⟩
    · rw [afterBreak_cons_some ht ho] at h
      obtain ⟨pre, rfl, hbreak⟩ := ih h
      exact ⟨b :: pre, rfl, (afterBreak_cons_some ht ho).trans hbreak⟩

theorem afterBreak_of_quiet (h : (scan feed breaks s xs).2 = []) :
    afterBreak feed breaks s xs = none := by
  induction xs generalizing s with
  | nil => rfl
  | cons b bs ih =>
    rcases feed_cases feed breaks s b with ⟨t, ht⟩ | ⟨t, o, ht, ho⟩ | ⟨t, o, ht, ho⟩
    · rw [scan_cons_none ht] at h
      rw [afterBreak_cons_none ht, ih h]
    · rw [scan_cons_break ht ho] at h
      cases h
    · rw [scan_cons_some ht ho] at h
      cases h

theorem exists_afterBreak_of_mem (h : o ∈ (scan feed breaks s xs).2) (hbreaks : breaks o) :
    ∃ s' rest, afterBreak feed breaks s xs = some (s', rest) := by
  induction xs generalizing s with
  | nil => cases h
  | cons b bs ih =>
    rcases feed_cases feed breaks s b with ⟨t, ht⟩ | ⟨t, o', ht, ho⟩ | ⟨t, o', ht, ho⟩
    · rw [scan_cons_none ht] at h
      rw [afterBreak_cons_none ht]
      exact ih h
    · exact ⟨t, bs, afterBreak_cons_break ht ho⟩
    · rw [scan_cons_some ht ho] at h
      rw [afterBreak_cons_some ht ho]
      rcases mem_cons.1 h with rfl | h
      · rw [hbreaks] at ho
        cases ho
      · exact ih h

theorem exists_feed_of_afterBreak {I : σ → Prop} (hfeed : ∀ s b, I s → I (feed s b).1) (hI : I s)
    (h : afterBreak feed breaks s xs = some (s', rest)) :
    ∃ t b o, I t ∧ feed t b = (s', some o) ∧ breaks o ∧ o ∈ (scan feed breaks s xs).2 := by
  induction xs generalizing s with
  | nil => cases h
  | cons b bs ih =>
    have hnext := hfeed s b hI
    rcases feed_cases feed breaks s b with ⟨t, ht⟩ | ⟨t, o, ht, ho⟩ | ⟨t, o, ht, ho⟩
    · rw [ht] at hnext
      rw [afterBreak_cons_none ht] at h
      rw [scan_cons_none ht]
      exact ih hnext h
    · rw [afterBreak_cons_break ht ho] at h
      rw [scan_cons_break ht ho]
      obtain ⟨rfl, -⟩ := h
      exact ⟨s, b, o, hI, ht, ho, mem_singleton_self o⟩
    · rw [ht] at hnext
      rw [afterBreak_cons_some ht ho] at h
      rw [scan_cons_some ht ho]
      obtain ⟨t', b', o', hI', ht', ho', hmem⟩ := ih hnext h
      exact ⟨t', b', o', hI', ht', ho', .tail _ hmem⟩

theorem exists_last_of_afterBreak (h : afterBreak feed breaks s xs = some (s', rest)) :
    ∃ os o, (scan feed breaks s xs).2 = os ++ [o] ∧ breaks o := by
  induction xs generalizing s with
  | nil => cases h
  | cons b bs ih =>
    rcases feed_cases feed breaks s b with ⟨t, ht⟩ | ⟨t, o, ht, ho⟩ | ⟨t, o, ht, ho⟩
    · rw [afterBreak_cons_none ht] at h
      rw [scan_cons_none ht]
      exact ih h
    · rw [scan_cons_break ht ho]
      exact ⟨[], o, rfl, ho⟩
    · rw [afterBreak_cons_some ht ho] at h
      rw [scan_cons_some ht ho]
      obtain ⟨os, o', hos, ho'⟩ := ih h
      exact ⟨o :: os, o', by rw [hos]; rfl, ho'⟩

end Packets
