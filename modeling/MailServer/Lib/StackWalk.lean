import Mathlib.Algebra.Order.Ring.Int

/-!
# Walks with an explicit stack

A walk over a graph takes the next node of the list at hand; when it enters a node it puts the rest
of the list on a stack and goes on with the children, and when a list is used up it goes on with the
one on top of the stack.  A set of nodes that were met keeps it from meeting one twice.  What is
done with a node, and whether it is entered, is a parameter that may read and change an
accumulator.

Principal results: `run_rule`, `run_isSome`, `walk_rule`; `run_mono` — more fuel does not change how
it ends.
-/

namespace StackWalk

open List

variable {α σ ε : Type*}

/-- What is done with a node that is met for the first time. -/
inductive Visit (α σ : Type*) where
  | leave (acc : σ)
  | enter (acc : σ) (children : List α)
  | stop (acc : σ)

/-- The list at hand, the lists to go back to, the nodes met and what was gathered. -/
structure Walk (α σ : Type*) where
  current : List α
  stack : List (List α)
  seen : List α
  acc : σ

/-- All nodes that are still to be taken, in order. -/
def Walk.pending (w : Walk α σ) : List α := w.current ++ w.stack.flatten

variable [DecidableEq α]

/-- One round of the loop: the walk goes on, or it ends. -/
def step (visit : α → σ → Except ε (Visit α σ)) (w : Walk α σ) :
    Except ε (Walk α σ ⊕ Walk α σ) :=
  match w.current, w.stack with
  | a :: rest, stack =>
    if a ∈ w.seen then .ok (.inl { w with current := rest })
    else
      match visit a w.acc with
      | .error e => .error e
      | .ok (.leave acc) => .ok (.inl ⟨rest, stack, a :: w.seen, acc⟩)
      | .ok (.enter acc children) => .ok (.inl ⟨children, rest :: stack, a :: w.seen, acc⟩)
      | .ok (.stop acc) => .ok (.inr ⟨rest, stack, a :: w.seen, acc⟩)
  | [], prev :: stack => .ok (.inl { w with current := prev, stack := stack })
  | [], [] => .ok (.inr w)

/-- The loop; `none` when the fuel runs out. -/
def run (visit : α → σ → Except ε (Visit α σ)) : ℕ → Walk α σ → Option (Except ε (Walk α σ))
  | 0, _ => none
  | fuel + 1, w =>
    match step visit w with
    | .error e => some (.error e)
    | .ok (.inr w') => some (.ok w')
    | .ok (.inl w') => run visit fuel w'

variable {visit : α → σ → Except ε (Visit α σ)} {w w' : Walk α σ} {fuel : ℕ}
  {next : Except ε (Walk α σ ⊕ Walk α σ)}

/-! ## One round -/

/-- What a round does when the walk goes on. -/
inductive Moves (visit : α → σ → Except ε (Visit α σ)) :
    List α → List α → σ → List α → List α → σ → Prop
  | skip {a : α} {pending seen : List α} {acc : σ} : a ∈ seen →
      Moves visit (a :: pending) seen acc pending seen acc
  | leave {a : α} {pending seen : List α} {acc acc' : σ} : a ∉ seen →
      visit a acc = .ok (.leave acc') →
      Moves visit (a :: pending) seen acc pending (a :: seen) acc'
  | enter {a : α} {pending seen children : List α} {acc acc' : σ} : a ∉ seen →
      visit a acc = .ok (.enter acc' children) →
      Moves visit (a :: pending) seen acc (children ++ pending) (a :: seen) acc'
  | pop {pending seen : List α} {acc : σ} : Moves visit pending seen acc pending seen acc

/-- What a round does to the walk. -/
inductive Round (visit : α → σ → Except ε (Visit α σ)) :
    Walk α σ → Except ε (Walk α σ ⊕ Walk α σ) → Prop
  | skip {a rest stack seen acc} : a ∈ seen →
      Round visit ⟨a :: rest, stack, seen, acc⟩ (.ok (.inl ⟨rest, stack, seen, acc⟩))
  | failed {a rest stack seen acc e} : a ∉ seen → visit a acc = .error e →
      Round visit ⟨a :: rest, stack, seen, acc⟩ (.error e)
  | leave {a rest stack seen acc acc'} : a ∉ seen → visit a acc = .ok (.leave acc') →
      Round visit ⟨a :: rest, stack, seen, acc⟩ (.ok (.inl ⟨rest, stack, a :: seen, acc'⟩))
  | enter {a rest stack seen acc acc' children} : a ∉ seen →
      visit a acc = .ok (.enter acc' children) → Round visit ⟨a :: rest, stack, seen, acc⟩
        (.ok (.inl ⟨children, rest :: stack, a :: seen, acc'⟩))
  | stop {a rest stack seen acc acc'} : a ∉ seen → visit a acc = .ok (.stop acc') →
      Round visit ⟨a :: rest, stack, seen, acc⟩ (.ok (.inr ⟨rest, stack, a :: seen, acc'⟩))
  | pop {prev stack seen acc} : Round visit ⟨[], prev :: stack, seen, acc⟩
      (.ok (.inl ⟨prev, stack, seen, acc⟩))
  | done {seen acc} : Round visit ⟨[], [], seen, acc⟩ (.ok (.inr ⟨[], [], seen, acc⟩))

theorem step_round (h : step visit w = next) : Round visit w next := by
  obtain ⟨current, stack, seen, acc⟩ := w
  subst h
  cases current with
  | nil =>
    cases stack with
    | nil => exact .done
    | cons prev stack => exact .pop
  | cons a rest =>
    unfold step
    by_cases hseen : a ∈ seen
    · simp only [if_pos hseen]
      exact .skip hseen
    · simp only [if_neg hseen]
      cases hvisit : visit a acc with
      | error e => exact .failed hseen hvisit
      | ok v =>
        cases v with
        | leave acc' => exact .leave hseen hvisit
        | enter acc' children => exact .enter hseen hvisit
        | stop acc' => exact .stop hseen hvisit

/-! ## Whole walks -/

inductive Ends (visit : α → σ → Except ε (Visit α σ)) (I : List α → List α → σ → Prop) :
    Except ε (Walk α σ) → Prop
  | done {w : Walk α σ} : I [] w.seen w.acc → Ends visit I (.ok w)
  | stopped {a : α} {pending seen : List α} {acc : σ} {w : Walk α σ} :
      I (a :: pending) seen acc → a ∉ seen → w.seen = a :: seen →
      visit a acc = .ok (.stop w.acc) → Ends visit I (.ok w)
  | failed {a : α} {pending seen : List α} {acc : σ} {e : ε} :
      I (a :: pending) seen acc → a ∉ seen → visit a acc = .error e → Ends visit I (.error e)

variable {result : Except ε (Walk α σ)}

/-- **Invariant rule**: what every round keeps holds where the walk ends. -/
theorem run_rule {I}
    (hmoves : ∀ {pending seen acc pending' seen' acc'},
      Moves visit pending seen acc pending' seen' acc' → I pending seen acc →
        I pending' seen' acc')
    (hinv : I w.pending w.seen w.acc) (hrun : run visit fuel w = some result) :
    Ends visit I result := by
  induction fuel generalizing w with
  | zero => cases hrun
  | succ fuel ih =>
    unfold run at hrun
    generalize hstep : step visit w = next at hrun
    cases step_round hstep with
    | skip hseen =>
      refine ih ?_ hrun
      exact hmoves (.skip hseen) hinv
    | leave hnew hvisit => exact ih (hmoves (.leave hnew hvisit) hinv) hrun
    | enter hnew hvisit => exact ih (hmoves (.enter hnew hvisit) hinv) hrun
    | pop =>
      refine ih ?_ hrun
      exact hmoves .pop hinv
    | failed hnew hvisit =>
      cases hrun
      exact .failed hinv hnew hvisit
    | stop hnew hvisit =>
      cases hrun
      exact .stopped hinv hnew rfl hvisit
    | done =>
      cases hrun
      exact .done hinv

theorem run_mono {fuel' : ℕ} (hle : fuel ≤ fuel')
    (h : run visit fuel w = some result) : run visit fuel' w = some result := by
  induction fuel generalizing fuel' w with
  | zero => cases h
  | succ fuel ih =>
    obtain ⟨n, rfl⟩ := Nat.exists_eq_add_of_le' (Nat.one_le_of_lt hle)
    unfold run at h ⊢
    cases hstep : step visit w with
    | error e =>
      rw [hstep] at h
      exact h
    | ok next =>
      rw [hstep] at h
      cases next with
      | inl w' => exact ih (Nat.le_of_succ_le_succ hle) h
      | inr w' => exact h

/-! ## Enough fuel -/

/-- The rounds that nodes not yet met can take: one each to take the node and to come back, and one
for each child. -/
def weight : List (α × ℕ) → List α → ℕ
  | [], _ => 0
  | node :: nodes, seen => (if node.1 ∈ seen then 0 else node.2 + 2) + weight nodes seen

theorem weight_cons_le (nodes : List (α × ℕ)) (seen : List α) (a : α) :
    weight nodes (a :: seen) ≤ weight nodes seen := by
  induction nodes with
  | nil => exact Nat.le_refl 0
  | cons node nodes ih =>
    unfold weight
    by_cases hseen : node.1 ∈ seen
    · rw [if_pos (mem_cons_of_mem a hseen)]
      omega
    · split_ifs <;> omega

theorem weight_cons_add_le {nodes} {seen : List α} {a : α} {n : ℕ}
    (hmem : (a, n) ∈ nodes) (hnew : a ∉ seen) :
    weight nodes (a :: seen) + (n + 2) ≤ weight nodes seen := by
  induction nodes with
  | nil => cases hmem
  | cons node nodes ih =>
    unfold weight
    rcases mem_cons.1 hmem with rfl | hmem
    · have hrest := weight_cons_le nodes seen a
      rw [if_pos ((.head _) ..), if_neg hnew]
      omega
    · have hlater := ih hmem
      by_cases hseen : node.1 ∈ seen
      · rw [if_pos (mem_cons_of_mem a hseen)]
        omega
      · split_ifs <;> omega

/-- The rounds that a walk can still take. -/
def Walk.measure (nodes : List (α × ℕ)) (w : Walk α σ) : ℕ :=
  w.current.length + (w.stack.map fun l => l.length + 1).sum + weight nodes w.seen

section

variable {nodes : List (α × ℕ)}
  (hnodes : ∀ a acc acc' children, visit a acc = .ok (.enter acc' children) →
    ∃ n, (a, n) ∈ nodes ∧ children.length ≤ n)
include hnodes

theorem measure_step (h : step visit w = .ok (.inl w')) : w'.measure nodes < w.measure nodes := by
  unfold Walk.measure
  cases step_round h with
  | skip hseen =>
    simp only [length_cons]
    omega
  | @leave a rest stack seen acc acc' hnew hvisit =>
    have hle := weight_cons_le nodes seen a
    simp only [length_cons]
    omega
  | @enter a rest stack seen acc acc' children hnew hvisit =>
    obtain ⟨n, hmem, hlen⟩ := hnodes a acc acc' children hvisit
    have hle := weight_cons_add_le hmem hnew
    simp only [length_cons, map_cons, sum_cons]
    omega
  | pop =>
    simp only [map_cons, sum_cons]
    omega

/-- **Termination**: with finitely many nodes to enter, the walk ends. -/
theorem run_isSome (hfuel : w.measure nodes < fuel) : (run visit fuel w).isSome := by
  induction fuel generalizing w with
  | zero => cases Nat.not_lt_zero _ hfuel
  | succ fuel ih =>
    unfold run
    cases hstep : step visit w with
    | error e => rfl
    | ok next =>
      cases next with
      | inl w' =>
        exact ih (Nat.lt_of_lt_of_le (measure_step hnodes hstep) (Nat.le_of_lt_succ hfuel))
      | inr w' => rfl

end

/-- The walk run to its end. -/
def walk (visit : α → σ → Except ε (Visit α σ)) (nodes : List (α × ℕ))
    (hnodes : ∀ a acc acc' children, visit a acc = .ok (.enter acc' children) →
      ∃ n, (a, n) ∈ nodes ∧ children.length ≤ n) (w : Walk α σ) : Except ε (Walk α σ) :=
  (run visit (w.measure nodes + 1) w).get (run_isSome hnodes (Nat.lt_succ_self _))

variable (nodes : List (α × ℕ))
  (hnodes : ∀ a acc acc' children, visit a acc = .ok (.enter acc' children) →
    ∃ n, (a, n) ∈ nodes ∧ children.length ≤ n)

/-- **Invariant rule** for the walk run to its end. -/
theorem walk_rule {I}
    (hmoves : ∀ {pending seen acc pending' seen' acc'},
      Moves visit pending seen acc pending' seen' acc' → I pending seen acc →
        I pending' seen' acc')
    (hinv : I w.pending w.seen w.acc) : Ends visit I (walk visit nodes hnodes w) :=
  run_rule hmoves hinv (Option.some_get _).symm

theorem walk_eq_of_run (h : run visit fuel w = some result) :
    walk visit nodes hnodes w = result := by
  have hend : run visit (w.measure nodes + 1) w = some (walk visit nodes hnodes w) :=
    (Option.some_get _).symm
  have hmore := run_mono (Nat.le_max_left (w.measure nodes + 1) fuel) hend
  rw [run_mono (Nat.le_max_right (w.measure nodes + 1) fuel) h] at hmore
  exact (Option.some.inj hmore).symm

end StackWalk
