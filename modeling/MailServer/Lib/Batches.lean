import Mathlib.Algebra.Order.Ring.Int

/-!
# Batches of writes

A store of values and counters, and batches of writes that are committed as a whole or, when an
assertion on a stored value fails, not at all.

Principal results: `commit_eq_some`; `commit_of_unconditional` — a batch without assertions is
always committed; `commit_assertValue_cons` — a batch that begins with an assertion.
-/

namespace MailServer.Batches

open List

variable {K V C : Type}

/-- One operation of a batch. -/
inductive Write (K V C : Type) where
  | assertValue (key : K) (value : V)
  | set (key : K) (value : V)
  | clear (key : K)
  | add (counter : C) (amount : ℤ)

/-- The values and the counters stored. -/
structure Contents (K V C : Type) where
  value : K → Option V
  counter : C → ℤ

variable [DecidableEq K] [DecidableEq V] [DecidableEq C] (s : Contents K V C)

def Contents.write : Write K V C → Option (Contents K V C)
  | .assertValue key value => if s.value key = some value then some s else none
  | .set key value => some { s with value := Function.update s.value key (some value) }
  | .clear key => some { s with value := Function.update s.value key none }
  | .add counter amount =>
    some { s with counter := Function.update s.counter counter (s.counter counter + amount) }

/-- The operations in order; an assertion that does not hold undoes all of them. -/
def Contents.commit (batch : List (Write K V C)) : Option (Contents K V C) :=
  batch.foldlM Contents.write s

/-- What is stored after an attempt to commit a batch. -/
def Contents.attempt (batch : List (Write K V C)) : Contents K V C :=
  (s.commit batch).getD s

/-! ## What a batch writes -/

omit [DecidableEq V] [DecidableEq C] in
/-- What one write leaves under a key, `none` when it does not write to it. -/
def Write.leaves (key : K) : Write K V C → Option (Option V)
  | .set key' value => if key' = key then some (some value) else none
  | .clear key' => if key' = key then some none else none
  | _ => none

omit [DecidableEq K] [DecidableEq V] in
def Write.adds (counter : C) : Write K V C → ℤ
  | .add counter' amount => if counter' = counter then amount else 0
  | _ => 0

def lastWrite (key : K) (batch : List (Write K V C)) : Option (Option V) :=
  batch.reverse.findSome? (Write.leaves key)

def added (counter : C) (batch : List (Write K V C)) : ℤ :=
  (batch.map (Write.adds counter)).sum

omit [DecidableEq V] [DecidableEq C] in
theorem lastWrite_cons (key : K) (op : Write K V C) (batch : List (Write K V C)) :
    lastWrite key (op :: batch) = (lastWrite key batch).or (op.leaves key) := by
  unfold lastWrite
  simp

omit [DecidableEq V] [DecidableEq C] in
@[simp] theorem lastWrite_singleton (key : K) (op : Write K V C) :
    lastWrite key [op] = op.leaves key := by
  simp [lastWrite]

omit [DecidableEq V] [DecidableEq C] in
theorem lastWrite_append (key : K) (batch batch' : List (Write K V C)) :
    lastWrite key (batch ++ batch') = (lastWrite key batch').or (lastWrite key batch) := by
  unfold lastWrite
  rw [reverse_append, findSome?_append]

omit [DecidableEq K] [DecidableEq V] in
theorem added_append (counter : C) (batch batch' : List (Write K V C)) :
    added counter (batch ++ batch') = added counter batch + added counter batch' := by
  unfold added
  rw [map_append, sum_append]

theorem write_eq_some {s t : Contents K V C} {op : Write K V C} (h : s.write op = some t) :
    (∀ key, t.value key = (op.leaves key).getD (s.value key)) ∧
      ∀ counter, t.counter counter = s.counter counter + op.adds counter := by
  cases op with
  | assertValue key value =>
    simp only [Contents.write] at h
    split at h
    · cases h
      exact ⟨fun _ => rfl, fun _ => (add_zero _).symm⟩
    · cases h
  | set key value | clear key =>
    cases h
    refine ⟨fun key' => ?_, fun _ => (add_zero _).symm⟩
    by_cases hkey : key = key'
    · subst hkey
      simp [Write.leaves]
    · simp [Write.leaves, hkey, Function.update_of_ne (Ne.symm hkey)]
  | add counter amount =>
    cases h
    refine ⟨fun _ => rfl, fun counter' => ?_⟩
    by_cases hcounter : counter = counter'
    · subst hcounter
      simp [Write.adds]
    · simp [Write.adds, hcounter, Function.update_of_ne (Ne.symm hcounter)]

/-- **A batch that is committed** leaves under each key what its last write says, and has moved each
counter by what it adds. -/
theorem commit_eq_some {s t : Contents K V C} {batch}
    (h : s.commit batch = some t) :
    (∀ key, t.value key = (lastWrite key batch).getD (s.value key)) ∧
      ∀ counter, t.counter counter = s.counter counter + added counter batch := by
  induction batch generalizing s with
  | nil =>
    cases h
    exact ⟨fun _ => rfl, fun _ => (add_zero _).symm⟩
  | cons op rest ih =>
    obtain ⟨u, hwrite, hrest⟩ := Option.bind_eq_some_iff.1 h
    obtain ⟨hvalue, hcounter⟩ := write_eq_some hwrite
    obtain ⟨hvalue', hcounter'⟩ := ih hrest
    constructor
    · intro key
      rw [hvalue', hvalue, lastWrite_cons]
      cases lastWrite key rest <;> rfl
    · intro counter
      have hadded : added counter (op :: rest) = op.adds counter + added counter rest :=
        sum_cons
      rw [hcounter', hcounter, hadded, add_assoc]

/-! ## When a batch is committed -/

/-- The operation asserts nothing. -/
def Write.Unconditional : Write K V C → Prop
  | .assertValue _ _ => False
  | _ => True

theorem commit_of_unconditional {batch}
    (h : ∀ op ∈ batch, op.Unconditional) : ∃ t, s.commit batch = some t := by
  induction batch generalizing s with
  | nil => exact ⟨s, rfl⟩
  | cons op rest ih =>
    have hop := h op (.head _)
    have hrest := fun op' hmem => h op' (.tail _ hmem)
    have hwrite : ∃ u, s.write op = some u := by
      cases op with
      | assertValue key value => exact hop.elim
      | set | clear | add => exact ⟨_, rfl⟩
    obtain ⟨u, hu⟩ := hwrite
    obtain ⟨t, ht⟩ := ih u hrest
    refine ⟨t, ?_⟩
    unfold Contents.commit
    rw [foldlM_cons, hu]
    exact ht

theorem commit_assertValue_cons (key : K) (value : V) (rest : List (Write K V C)) :
    s.commit (.assertValue key value :: rest) =
      if s.value key = some value then s.commit rest else none := by
  unfold Contents.commit
  rw [foldlM_cons, Contents.write]
  by_cases h : s.value key = some value
  · rw [if_pos h, if_pos h]
    rfl
  · rw [if_neg h, if_neg h]
    rfl

theorem attempt_of_stale {s : Contents K V C} {key : K} {value : V} {rest}
    (h : s.value key ≠ some value) : s.attempt (.assertValue key value :: rest) = s := by
  unfold Contents.attempt
  rw [commit_assertValue_cons, if_neg h]
  rfl

/-- **One assertion and writes**: what is stored after the attempt. -/
theorem attempt_of_current {s : Contents K V C} {key : K} {value : V} {rest}
    (hrest : ∀ op ∈ rest, op.Unconditional) (h : s.value key = some value) :
    (∀ key', (s.attempt (.assertValue key value :: rest)).value key' =
        (lastWrite key' rest).getD (s.value key')) ∧
      ∀ counter, (s.attempt (.assertValue key value :: rest)).counter counter =
        s.counter counter + added counter rest := by
  obtain ⟨t, ht⟩ := commit_of_unconditional s hrest
  have hattempt : s.attempt (.assertValue key value :: rest) = t := by
    unfold Contents.attempt
    rw [commit_assertValue_cons, if_pos h, ht]
    rfl
  rw [hattempt]
  exact commit_eq_some ht

theorem attempt_of_unconditional (batch : List (Write K V C))
    (hbatch : ∀ op ∈ batch, op.Unconditional) :
    (∀ key, (s.attempt batch).value key = (lastWrite key batch).getD (s.value key)) ∧
      ∀ counter, (s.attempt batch).counter counter = s.counter counter + added counter batch := by
  obtain ⟨t, ht⟩ := commit_of_unconditional s hbatch
  have hattempt : s.attempt batch = t := by
    unfold Contents.attempt
    rw [ht]
    rfl
  rw [hattempt]
  exact commit_eq_some ht

end MailServer.Batches
