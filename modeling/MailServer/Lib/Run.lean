import Mathlib.Logic.Function.Basic
import Mathlib.Order.Notation

/-!
# Runs of a partial step function

A system is given by a step function `σ → α → Option σ`: the label says what happens and holds
everything the environment chooses, `none` is a step that crashes.  A run is a list of labels.
`Along` states a condition on every step of a run, evaluated in the state in which the step is
taken; `Throughout` states a property of every state of a run.

Principal results: `exec_invariant`, `exec_invariant_of_some` (crashing is not excluded),
`throughout_of_invariant`, `along_of_invariant` (for every state and step on the way),
`throughout_iff_along`, `exec_rel`.
-/

namespace Runs

variable {σ α : Type*}

/-- Executes a list of labels, one step after another. -/
def exec (step : σ → α → Option σ) (s : σ) : List α → Option σ
  | [] => some s
  | a :: as => (step s a).bind fun s' => exec step s' as

/-- Every step of the run satisfies `ok` in the state in which it is taken. -/
def Along (step : σ → α → Option σ) (ok : σ → α → Prop) (s : σ) : List α → Prop
  | [] => True
  | a :: as => ok s a ∧ ∀ s', step s a = some s' → Along step ok s' as

variable {step : σ → α → Option σ} {ok : σ → α → Prop} {s s' : σ} {a : α} {as : List α}

instance Along.decidable [∀ s a, Decidable (ok s a)] :
    (s : σ) → (as : List α) → Decidable (Along step ok s as)
  | _, [] => isTrue trivial
  | s, a :: as =>
    match h : step s a with
    | none => decidable_of_iff (ok s a)
        ⟨fun hok => ⟨hok, fun s' hs' => by rw [h] at hs'; cases hs'⟩, And.left⟩
    | some s' =>
      have := Along.decidable s' as
      decidable_of_iff (ok s a ∧ Along step ok s' as)
        ⟨fun hok => ⟨hok.1, fun t ht => by rw [h] at ht; cases ht; exact hok.2⟩,
          fun hok => ⟨hok.1, hok.2 s' h⟩⟩

theorem exec_cons_of_some (h : step s a = some s') :
    exec step s (a :: as) = exec step s' as := by
  rw [exec, h]
  rfl

theorem exec_cons_eq_some {t : σ} (h : exec step s (a :: as) = some t) :
    ∃ s', step s a = some s' ∧ exec step s' as = some t :=
  Option.bind_eq_some_iff.1 h

theorem Along.cons (hok : ok s a) (hstep : step s a = some s') (hrest : Along step ok s' as) :
    Along step ok s (a :: as) := by
  refine ⟨hok, fun t ht => ?_⟩
  obtain rfl : s' = t := Option.some_inj.1 (hstep.symm.trans ht)
  exact hrest

theorem Along.of_append {t : σ} {as' : List α} (h : Along step ok s (as ++ as'))
    (hexec : exec step s as = some t) : Along step ok t as' := by
  induction as generalizing s with
  | nil =>
    cases hexec
    exact h
  | cons a as ih =>
    obtain ⟨s', hs', hexec'⟩ := exec_cons_eq_some hexec
    exact ih (h.2 s' hs') hexec'

theorem Along.and {ok'} (h : Along step ok s as) (h' : Along step ok' s as) :
    Along step (fun s a => ok s a ∧ ok' s a) s as := by
  induction as generalizing s with
  | nil => trivial
  | cons a as ih => exact ⟨⟨h.1, h'.1⟩, fun s' hs' => ih (h.2 s' hs') (h'.2 s' hs')⟩

theorem Along.mono {ok'} (hok : ∀ s a, ok s a → ok' s a)
    (h : Along step ok s as) : Along step ok' s as := by
  induction as generalizing s with
  | nil => trivial
  | cons a as ih => exact ⟨hok s a h.1, fun s' hs' => ih (h.2 s' hs')⟩

theorem Along.of_forall (hok : ∀ s a, ok s a) (s : σ) (as : List α) : Along step ok s as := by
  induction as generalizing s with
  | nil => trivial
  | cons a as ih => exact ⟨hok s a, fun s' _ => ih s'⟩

variable {I : σ → Prop}

/-- **Invariant rule**: what every admitted step keeps, every admitted run keeps, and it does not
crash. -/
theorem exec_invariant (hstep : ∀ s a, I s → ok s a → ∃ s', step s a = some s' ∧ I s')
    (hinv : I s) (hrun : Along step ok s as) : ∃ s', exec step s as = some s' ∧ I s' := by
  induction as generalizing s with
  | nil => exact ⟨s, rfl, hinv⟩
  | cons a as ih =>
    obtain ⟨hok, hrest⟩ := hrun
    obtain ⟨s', hs', hinv'⟩ := hstep s a hinv hok
    obtain ⟨t, ht, hinvt⟩ := ih hinv' (hrest s' hs')
    exact ⟨t, (exec_cons_of_some hs').trans ht, hinvt⟩

theorem exec_invariant_of_some {t : σ} (hstep : ∀ s a s', I s → ok s a → step s a = some s' → I s')
    (hinv : I s) (hrun : Along step ok s as) (hexec : exec step s as = some t) : I t := by
  induction as generalizing s with
  | nil =>
    cases hexec
    exact hinv
  | cons a as ih =>
    obtain ⟨hok, hrest⟩ := hrun
    obtain ⟨s', hs', hexec'⟩ := exec_cons_eq_some hexec
    exact ih (hstep s a s' hinv hok hs') (hrest s' hs') hexec'

/-- Every state of the run, the first one included, has the property. -/
def Throughout (step : σ → α → Option σ) (P : σ → Prop) (s : σ) : List α → Prop
  | [] => P s
  | a :: as => P s ∧ ∀ s', step s a = some s' → Throughout step P s' as

theorem Throughout.head {P : σ → Prop} (h : Throughout step P s as) : P s := by
  cases as with
  | nil => exact h
  | cons a as => exact h.1

theorem Throughout.mono {P Q : σ → Prop} (hPQ : ∀ s, P s → Q s) (h : Throughout step P s as) :
    Throughout step Q s as := by
  induction as generalizing s with
  | nil => exact hPQ s h
  | cons a as ih => exact ⟨hPQ s h.1, fun s' hs' => ih (h.2 s' hs')⟩

theorem Throughout.last {P : σ → Prop} {t : σ} (h : Throughout step P s as)
    (hexec : exec step s as = some t) : P t := by
  induction as generalizing s with
  | nil =>
    cases hexec
    exact h
  | cons a as ih =>
    obtain ⟨s', hs', hexec'⟩ := exec_cons_eq_some hexec
    exact ih (h.2 s' hs') hexec'

theorem throughout_of_invariant (hstep : ∀ s a s', I s → ok s a → step s a = some s' → I s')
    (hinv : I s) (hrun : Along step ok s as) : Throughout step I s as := by
  induction as generalizing s with
  | nil => exact hinv
  | cons a as ih =>
    exact ⟨hinv, fun s' hs' => ih (hstep s a s' hinv hrun.1 hs') (hrun.2 s' hs')⟩

variable {P : σ → α → Prop}

theorem along_of_invariant (hstep : ∀ s a s', I s → ok s a → step s a = some s' → I s')
    (hpost : ∀ s a, I s → ok s a → P s a)
    (hinv : I s) (hrun : Along step ok s as) : Along step P s as := by
  induction as generalizing s with
  | nil => trivial
  | cons a as ih =>
    obtain ⟨hok, hrest⟩ := hrun
    exact ⟨hpost s a hinv hok, fun s' hs' => ih (hstep s a s' hinv hok hs') (hrest s' hs')⟩

/-- **Exactness rule**: when a step keeps `I` exactly under `P`, a run stays within `I` exactly when
its steps meet `P`. `J` is what else an admitted step may rely on. -/
theorem throughout_iff_along {I J : σ → Prop}
    (hJ : ∀ s a s', J s → ok s a → step s a = some s' → J s')
    (hstep : ∀ s a s', I s → J s → ok s a → step s a = some s' → (I s' ↔ P s a))
    (htotal : ∀ s a, I s → J s → ok s a → step s a = none → P s a)
    (hI : I s) (hJs : J s) (hrun : Along step ok s as) :
    Throughout step I s as ↔ Along step P s as := by
  induction as generalizing s with
  | nil => exact ⟨fun _ => trivial, fun _ => hI⟩
  | cons a as ih =>
    obtain ⟨hok, hrest⟩ := hrun
    constructor
    · rintro ⟨-, hnext⟩
      cases hs : step s a with
      | none => exact ⟨htotal s a hI hJs hok hs, fun s' hs' => by rw [hs] at hs'; cases hs'⟩
      | some s' =>
        have hI' : I s' := (hnext s' hs).head
        refine Along.cons ((hstep s a s' hI hJs hok hs).1 hI') hs ?_
        exact (ih hI' (hJ s a s' hJs hok hs) (hrest s' hs)).1 (hnext s' hs)
    · rintro ⟨hP, hnext⟩
      refine ⟨hI, fun s' hs => ?_⟩
      have hI' : I s' := (hstep s a s' hI hJs hok hs).2 hP
      exact (ih hI' (hJ s a s' hJs hok hs) (hrest s' hs)).2 (hnext s' hs)

/-- Two conditions that say the same within an invariant say the same of a run; the steps that meet
the second keep it. -/
theorem along_iff (hstep : ∀ s a s', I s → ok s a → step s a = some s' → I s')
    (hiff : ∀ s a, I s → (P s a ↔ ok s a)) (hI : I s) : Along step P s as ↔ Along step ok s as := by
  induction as generalizing s with
  | nil => exact Iff.rfl
  | cons a as ih =>
    constructor
    · rintro ⟨hP, hrest⟩
      have hok := (hiff s a hI).1 hP
      exact ⟨hok, fun s' hs' => (ih (hstep s a s' hI hok hs')).1 (hrest s' hs')⟩
    · rintro ⟨hok, hrest⟩
      exact ⟨(hiff s a hI).2 hok, fun s' hs' => (ih (hstep s a s' hI hok hs')).2 (hrest s' hs')⟩

/-- **Simulation rule**: two step functions that end alike on every admitted step, in related
states, end alike on every admitted run. -/
theorem exec_rel {τ : Type*} {R} {step'} {t : τ}
    (hstep : ∀ s t a, R s t → ok s a → Option.Rel R (step s a) (step' t a))
    (hrel : R s t) (hrun : Along step ok s as) :
    Option.Rel R (exec step s as) (exec step' t as) := by
  induction as generalizing s t with
  | nil => exact .some hrel
  | cons a as ih =>
    obtain ⟨hok, hrest⟩ := hrun
    have hnext := hstep s t a hrel hok
    unfold exec
    cases hs : step s a with
    | none =>
      rw [hs] at hnext
      cases ht : step' t a with
      | none => exact .none
      | some t' =>
        rw [ht] at hnext
        cases hnext
    | some s' =>
      rw [hs] at hnext
      cases ht : step' t a with
      | none =>
        rw [ht] at hnext
        cases hnext
      | some t' =>
        rw [ht] at hnext
        cases hnext with
        | some hrel' => exact ih hrel' (hrest s' hs)

/-! ## States that are functions -/

section Update

variable {ι β : Type*} [DecidableEq ι] {f : ι → β} {i j : ι} {b b' : β}

theorem update_cases (h : Function.update f i b j = b') :
    (j = i ∧ b = b') ∨ (j ≠ i ∧ f j = b') := by
  by_cases heq : j = i
  · rw [heq, Function.update_self] at h
    exact .inl ⟨heq, h⟩
  · rw [Function.update_of_ne heq] at h
    exact .inr ⟨heq, h⟩

theorem update_some_cases {f : ι → Option β} (h : Function.update f i (some b) j = some b') :
    (j = i ∧ b' = b) ∨ (j ≠ i ∧ f j = some b') :=
  (update_cases h).imp_left fun ⟨heq, hsome⟩ => ⟨heq, (Option.some.inj hsome).symm⟩

end Update

end Runs
