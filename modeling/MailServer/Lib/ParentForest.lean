import MailServer.Lib.Run
import Mathlib.Data.List.Infix

/-!
# Forests of parent pointers

Nodes that are found by name and point at their parent, and the paths that this gives them.

Principal results: `hasPath_relocate`, `hasPath_relocate_below`, `hasPath_remove`, `hasPath_insert`,
`hasPath_replace`; `HasPath.unique`, `HasPath.inj` — a node has at most one path, and siblings of
different labels make it the only node with it.
-/

namespace ParentForest

open List Option Function

variable {ι ν σ : Type*}

/-- How a node names its parent and what it adds to the path. -/
structure Links (ι ν σ : Type*) where
  up : ν → Option ι
  label : ν → σ

variable {L : Links ι ν σ} {node node' : ι → Option ν}

/-- The labels on the way from a root to the node. -/
inductive HasPath (L : Links ι ν σ) (node : ι → Option ν) : ι → List σ → Prop
  | top {i : ι} {n : ν} : node i = some n → L.up n = none → HasPath L node i [L.label n]
  | child {i p : ι} {n : ν} {path : List σ} : node i = some n → L.up n = some p →
      HasPath L node p path → HasPath L node i (path ++ [L.label n])

/-- The path of the place a parent pointer leads to. -/
def Hangs (L : Links ι ν σ) (node : ι → Option ν) : Option ι → List σ → Prop
  | none, path => path = []
  | some p, path => HasPath L node p path

/-- Every node has a path, and every parent is a node that may have children. -/
structure Forest (L : Links ι ν σ) (inner : ν → Prop) (node : ι → Option ν) : Prop where
  rooted : ∀ i n, node i = some n → ∃ path, HasPath L node i path
  parents : ∀ i n p, node i = some n → L.up n = some p → ∃ m, node p = some m ∧ inner m

/-- Siblings have different labels. -/
def Distinct (L : Links ι ν σ) (node : ι → Option ν) : Prop :=
  ∀ i j n m, node i = some n → node j = some m → L.up n = L.up m → L.label n = L.label m → i = j

/-! ## Paths -/

variable {i j k p : ι} {n m : ν} {path q old base : List σ}

theorem HasPath.stored (h : HasPath L node i path) : ∃ n, node i = some n := by
  cases h with
  | top hn _ | child hn _ _ => exact ⟨_, hn⟩

theorem HasPath.ne_nil (h : HasPath L node i path) : path ≠ [] := by
  cases h with
  | top _ _ => exact cons_ne_nil _ _
  | child _ _ _ => exact append_ne_nil_of_right_ne_nil _ (cons_ne_nil _ _)

theorem hasPath_of_hangs (hn : node i = some n) (h : Hangs L node (L.up n) base) :
    HasPath L node i (base ++ [L.label n]) := by
  cases hup : L.up n with
  | none =>
    rw [hup] at h
    rw [show base = [] from h]
    exact .top hn hup
  | some p =>
    rw [hup] at h
    exact .child hn hup h

theorem HasPath.hangs (h : HasPath L node i path) :
    ∃ n base, node i = some n ∧ Hangs L node (L.up n) base ∧ path = base ++ [L.label n] := by
  cases h with
  | top hn hup => exact ⟨_, [], hn, by rw [hup]; exact rfl, rfl⟩
  | child hn hup hp => exact ⟨_, _, hn, by rw [hup]; exact hp, rfl⟩

theorem HasPath.unique (h : HasPath L node i path) (h' : HasPath L node i q) : path = q := by
  induction h generalizing q with
  | top hn hup =>
    cases h' with
    | top hn' _ =>
      rw [some.inj (hn.symm.trans hn')]
    | child hn' hup' _ =>
      rw [← some.inj (hn.symm.trans hn'), hup] at hup'
      cases hup'
  | child hn hup _ ih =>
    cases h' with
    | top hn' hup' =>
      rw [← some.inj (hn.symm.trans hn'), hup] at hup'
      cases hup'
    | child hn' hup' hp' =>
      have heq := some.inj (hn.symm.trans hn')
      rw [← heq, hup] at hup'
      rw [ih (some.inj hup' ▸ hp'), heq]

/-- **With siblings of different labels a path belongs to one node.** -/
theorem HasPath.inj (hdistinct : Distinct L node) (h : HasPath L node i path)
    (h' : HasPath L node j path) : i = j := by
  induction h generalizing j with
  | @top i n hn hup =>
    obtain ⟨m, base, hm, hbase, hpath⟩ := h'.hangs
    have hsplit := append_inj' (show [] ++ [L.label n] = base ++ [L.label m] from hpath) rfl
    have hnone : L.up m = none := by
      cases hup' : L.up m with
      | none => rfl
      | some p =>
        rw [hup'] at hbase
        cases HasPath.ne_nil hbase hsplit.1.symm
    exact hdistinct i j n m hn hm (hup.trans hnone.symm) (cons.inj hsplit.2).1
  | @child i p n path hn hup hp ih =>
    obtain ⟨m, base, hm, hbase, hpath⟩ := h'.hangs
    have hsplit := append_inj' hpath rfl
    have hsome : L.up n = L.up m := by
      cases hup' : L.up m with
      | none =>
        rw [hup'] at hbase
        cases hp.ne_nil (hsplit.1.trans hbase)
      | some p' =>
        rw [hup'] at hbase
        rw [hup, ih (hsplit.1 ▸ hbase)]
    exact hdistinct i j n m hn hm hsome (cons.inj hsplit.2).1

theorem HasPath.above (h : HasPath L node i path) (hq : q <+: path) (hne : q ≠ []) :
    ∃ j, HasPath L node j q := by
  induction h generalizing q with
  | @top i n hn hup =>
    refine ⟨i, ?_⟩
    rcases prefix_cons_iff.1 hq with hnil | ⟨t, rfl, ht⟩
    · cases hne hnil
    · rw [prefix_nil.1 ht]
      exact .top hn hup
  | @child i p n path hn hup hp ih =>
    rcases prefix_concat_iff.1 hq with rfl | hq
    · exact ⟨i, .child hn hup hp⟩
    · exact ih hq hne

theorem eq_of_prefix_concat {a : σ} (h : old <+: path ++ [a]) (hnot : ¬ old <+: path) :
    old = path ++ [a] := (prefix_concat_iff.1 h).resolve_right hnot

/-! ## Changing a node -/

theorem hasPath_of_outside (hsame : ∀ k path, HasPath L node k path → ¬ old <+: path →
      node' k = node k)
    (h : HasPath L node k q) (hq : ¬ old <+: q) : HasPath L node' k q := by
  induction h with
  | @top k n hn hup => exact .top ((hsame k _ (.top hn hup) hq).trans hn) hup
  | @child k p n path hn hup hp ih =>
    have hnot : ¬ old <+: path := fun h => hq (h.trans (prefix_append path _))
    exact .child ((hsame k _ (.child hn hup hp) hq).trans hn) hup (ih hnot)

section Update

variable [DecidableEq ι]

theorem update_same_of_outside {v : Option ν} (hi : HasPath L node i old) :
    ∀ k path, HasPath L node k path → ¬ old <+: path →
      update node i v k = node k := by
  intro k path hk hnot
  have hne : k ≠ i := by
    rintro rfl
    exact hnot (hi.unique hk ▸ prefix_rfl)
  exact update_of_ne hne v node

/-- A path of the forest with the node moved is a new one of the node or of what is below it, or an
old one of the others. -/
theorem hasPath_of_relocate (hi : HasPath L node i old)
    (honly : ∀ j, HasPath L node j old → j = i) (hbase : Hangs L node (L.up n) base)
    (h : HasPath L (update node i (some n)) k q) :
    (∃ rest, HasPath L node k (old ++ rest) ∧ q = base ++ [L.label n] ++ rest ∧ ¬ old <+: base) ∨
      (HasPath L node k q ∧ ¬ old <+: q) := by
  have hself : update node i (some n) i = some n := update_self i (some n) node
  induction h with
  | @top k m hm hup =>
    rcases Runs.update_some_cases hm with ⟨rfl, rfl⟩ | ⟨hk, hm⟩
    · rw [hup] at hbase
      rw [show base = [] from hbase]
      exact .inl ⟨[], by rw [append_nil]; exact hi, rfl, fun h => hi.ne_nil (prefix_nil.1 h)⟩
    · have hpath : HasPath L node k [L.label m] := .top hm hup
      refine .inr ⟨hpath, fun hpre => hk ?_⟩
      have hold : old = [] ++ [L.label m] :=
        eq_of_prefix_concat hpre fun h => hi.ne_nil (prefix_nil.1 h)
      exact honly k (hold ▸ hpath)
  | @child k p m path hm hup hp ih =>
    rcases Runs.update_some_cases hm with ⟨rfl, rfl⟩ | ⟨hk, hm⟩
    · rw [hup] at hbase
      have hp' : HasPath L node p base := hbase
      rcases ih with ⟨rest, hrest, -, hnot⟩ | ⟨hpath, hpre⟩
      · cases hnot (hrest.unique hp' ▸ prefix_append old rest)
      · have hsame := hpath.unique hp'
        exact .inl ⟨[], by rw [append_nil]; exact hi, by rw [append_nil, hsame], hsame ▸ hpre⟩
    · rcases ih with ⟨rest, hrest, rfl, hnot⟩ | ⟨hpath, hpre⟩
      · refine .inl ⟨rest ++ [L.label m], ?_, by rw [append_assoc], hnot⟩
        rw [← append_assoc]
        exact .child hm hup hrest
      · refine .inr ⟨.child hm hup hpath, fun h => hk ?_⟩
        exact honly k (eq_of_prefix_concat h hpre ▸ .child hm hup hpath)

/-- **A node that is moved takes what is below it along.** -/
theorem hasPath_relocate (hi : HasPath L node i old)
    (honly : ∀ j, HasPath L node j old → j = i) (hbase : Hangs L node (L.up n) base)
    (hnot : ¬ old <+: base) :
    HasPath L (update node i (some n)) k q ↔
      (∃ rest, HasPath L node k (old ++ rest) ∧ q = base ++ [L.label n] ++ rest) ∨
        (HasPath L node k q ∧ ¬ old <+: q) := by
  have hself : update node i (some n) i = some n := update_self i (some n) node
  have hkeep : ∀ {k q}, HasPath L node k q → ¬ old <+: q →
      HasPath L (update node i (some n)) k q :=
    fun h hq => hasPath_of_outside (update_same_of_outside hi) h hq
  have hmoved : HasPath L (update node i (some n)) i (base ++ [L.label n]) := by
    refine hasPath_of_hangs hself ?_
    cases hup : L.up n with
    | none =>
      rw [hup] at hbase
      exact hbase
    | some p =>
      rw [hup] at hbase
      exact hkeep hbase hnot
  constructor
  · intro h
    exact (hasPath_of_relocate hi honly hbase h).imp_left
      fun ⟨rest, hrest, hq, _⟩ => ⟨rest, hrest, hq⟩
  · rintro (⟨rest, h, rfl⟩ | ⟨h, hq⟩)
    · induction rest using reverseRecOn generalizing k with
      | nil =>
        rw [append_nil] at h ⊢
        rw [honly k h]
        exact hmoved
      | append_singleton rest a ih =>
        rw [← append_assoc] at h ⊢
        obtain ⟨m, above, hm, habove, hpath⟩ := h.hangs
        obtain ⟨rfl, ha⟩ := append_inj' hpath rfl
        have hk : k ≠ i := by
          rintro rfl
          have heq := hi.unique h
          rw [append_assoc] at heq
          exact absurd (self_eq_append_right.1 heq)
            (append_ne_nil_of_right_ne_nil rest (cons_ne_nil a []))
        have hm' : update node i (some n) k = some m :=
          (update_of_ne hk (some n) node).trans hm
        rw [(cons.inj ha).1]
        cases hup : L.up m with
        | none =>
          rw [hup] at habove
          cases append_ne_nil_of_left_ne_nil hi.ne_nil rest habove
        | some p =>
          rw [hup] at habove
          exact .child hm' hup (ih habove)
    · exact hkeep h hq

/-- **A node that is moved below itself leaves the forest, with all that was below it.** -/
theorem hasPath_relocate_below (hi : HasPath L node i old)
    (honly : ∀ j, HasPath L node j old → j = i) (hbase : Hangs L node (L.up n) base)
    (hbelow : old <+: base) :
    HasPath L (update node i (some n)) k q ↔ HasPath L node k q ∧ ¬ old <+: q := by
  constructor
  · intro h
    exact (hasPath_of_relocate hi honly hbase h).resolve_left fun ⟨_, _, _, hnot⟩ => hnot hbelow
  · rintro ⟨h, hq⟩
    exact hasPath_of_outside (update_same_of_outside hi) h hq

theorem update_new {i p : ι} {n m : ν} (hnew : node i = none) (hm : node p = some m) :
    update node i (some n) p = some m := by
  have hne : p ≠ i := by
    rintro rfl
    cases hm.symm.trans hnew
  exact (update_of_ne hne (some n) node).trans hm

/-- **A new node gets the path of its parent and its own label, and no other path changes.** -/
theorem hasPath_insert (hnew : node i = none)
    (hchildless : ∀ k m, node k = some m → L.up m ≠ some i)
    (hbase : Hangs L node (L.up n) base) :
    HasPath L (update node i (some n)) k q ↔
      HasPath L node k q ∨ (k = i ∧ q = base ++ [L.label n]) := by
  have hself : update node i (some n) i = some n := update_self i (some n) node
  have hkeep : ∀ {k q}, HasPath L node k q → HasPath L (update node i (some n)) k q := by
    intro k q h
    induction h with
    | top hm hup => exact .top (update_new hnew hm) hup
    | child hm hup _ ih => exact .child (update_new hnew hm) hup ih
  constructor
  · intro h
    induction h with
    | @top k m hm hup =>
      rcases Runs.update_some_cases hm with ⟨rfl, rfl⟩ | ⟨hk, hm⟩
      · rw [hup] at hbase
        exact .inr ⟨rfl, by rw [show base = [] from hbase]; rfl⟩
      · exact .inl (.top hm hup)
    | @child k p m path hm hup hp ih =>
      have hpath : p ≠ i → HasPath L node p path := fun hp =>
        ih.resolve_right fun h => hp h.1
      rcases Runs.update_some_cases hm with ⟨rfl, rfl⟩ | ⟨-, hkept⟩
      · rw [hup] at hbase
        obtain ⟨m', hm'⟩ := HasPath.stored hbase
        have hp : p ≠ k := by
          rintro rfl
          cases hm'.symm.trans hnew
        exact .inr ⟨rfl, by rw [(hpath hp).unique hbase]⟩
      · have hp : p ≠ i := by
          rintro rfl
          exact hchildless k m hkept hup
        exact .inl (.child hkept hup (hpath hp))
  · rintro (h | ⟨rfl, rfl⟩)
    · exact hkeep h
    · refine hasPath_of_hangs hself ?_
      cases hup : L.up n with
      | none =>
        rw [hup] at hbase
        exact hbase
      | some p =>
        rw [hup] at hbase
        exact hkeep hbase

theorem hasPath_of_replace (hm : node i = some m) (hup : L.up n = L.up m)
    (hlabel : L.label n = L.label m) (h : HasPath L (update node i (some n)) k q) :
    HasPath L node k q := by
  induction h with
  | @top k m' hm' hup' =>
    rcases Runs.update_some_cases hm' with ⟨rfl, rfl⟩ | ⟨hk, hm'⟩
    · rw [hlabel]
      exact .top hm (hup ▸ hup')
    · exact .top hm' hup'
  | @child k p m' path hm' hup' _ ih =>
    rcases Runs.update_some_cases hm' with ⟨rfl, rfl⟩ | ⟨-, hm'⟩
    · rw [hlabel]
      exact .child hm (hup ▸ hup') ih
    · exact .child hm' hup' ih

/-- **What else a node holds is part of no path.** -/
theorem hasPath_replace (hm : node i = some m) (hup : L.up n = L.up m)
    (hlabel : L.label n = L.label m) :
    HasPath L (update node i (some n)) k q ↔ HasPath L node k q := by
  have hback : update (update node i (some n)) i (some m) = node := by
    rw [update_idem, ← hm, update_eq_self]
  refine ⟨hasPath_of_replace hm hup hlabel, fun h => ?_⟩
  exact hasPath_of_replace (update_self ..) hup.symm hlabel.symm (by rwa [hback])

end Update

/-- **Removing a node, and some of what is below it, takes away the paths through it.** -/
theorem hasPath_remove (honly : ∀ j, HasPath L node j old → j = i) (hi : node' i = none)
    (hgone : ∀ k, node' k = node k ∨ node' k = none)
    (hbelow : ∀ k path, HasPath L node k path → ¬ old <+: path → node' k = node k)
    (hne : old ≠ []) : HasPath L node' k q ↔ HasPath L node k q ∧ ¬ old <+: q := by
  have hkept : ∀ {k m}, node' k = some m → node k = some m := by
    intro k m hm
    rcases hgone k with h | h
    · exact h ▸ hm
    · cases hm.symm.trans h
  have hmono : ∀ {k q}, HasPath L node' k q → HasPath L node k q := by
    intro k q h
    induction h with
    | top hm hup => exact .top (hkept hm) hup
    | child hm hup _ ih => exact .child (hkept hm) hup ih
  constructor
  · intro h
    refine ⟨hmono h, fun hpre => ?_⟩
    obtain ⟨j, hj⟩ := h.above hpre hne
    obtain ⟨m, hm⟩ := hj.stored
    rw [honly j (hmono hj), hi] at hm
    cases hm
  · rintro ⟨h, hq⟩
    exact hasPath_of_outside hbelow h hq

/-! ## Forests that stay forests -/

variable {inner : ν → Prop}

/-- **Removing a node and all that is below it leaves a forest.** -/
theorem Forest.remove (h : Forest L inner node)
    (hnone : ∀ k, node k = none → node' k = none)
    (hkept : ∀ k path, HasPath L node k path → ¬ old <+: path → node' k = node k)
    (hgone : ∀ k path, HasPath L node k path → old <+: path → node' k = none) :
    Forest L inner node' := by
  have hstored : ∀ k n, node' k = some n → node k = some n ∧
      ∃ path, HasPath L node k path ∧ ¬ old <+: path := by
    intro k n hn
    cases hk : node k with
    | none => cases hn.symm.trans (hnone k hk)
    | some m =>
      obtain ⟨path, hpath⟩ := h.rooted k m hk
      have hnot : ¬ old <+: path := fun hpre =>
        absurd (hn.symm.trans (hgone k path hpath hpre)) (some_ne_none n)
      exact ⟨hk ▸ (hkept k path hpath hnot).symm.trans hn, path, hpath, hnot⟩
  refine ⟨fun k n hn => ?_, fun k n p hn hup => ?_⟩
  · obtain ⟨-, path, hpath, hnot⟩ := hstored k n hn
    exact ⟨path, hasPath_of_outside hkept hpath hnot⟩
  · obtain ⟨hk, path, hpath, hnot⟩ := hstored k n hn
    obtain ⟨m, hm, hinner⟩ := h.parents k n p hk hup
    obtain ⟨above, habove⟩ := h.rooted p m hm
    have heq := hpath.unique (.child hk hup habove)
    have hnot' : ¬ old <+: above := fun hpre => hnot (heq ▸ hpre.trans (prefix_append _ _))
    exact ⟨m, (hkept p above habove hnot').trans hm, hinner⟩

theorem Forest.childless (h : Forest L inner node) (hnew : node i = none) (k : ι) (m : ν)
    (hm : node k = some m) : L.up m ≠ some i := by
  intro hup
  obtain ⟨parent, hi, -⟩ := h.parents k m i hm hup
  cases hi.symm.trans hnew

theorem Distinct.of_kept (h : Distinct L node) (hkept : ∀ k n, node' k = some n → node k = some n) :
    Distinct L node' :=
  fun i j n m hn hm => h i j n m (hkept i n hn) (hkept j m hm)

section Update

variable [DecidableEq ι]

theorem Distinct.update (h : Distinct L node)
    (hbase : Hangs L node (L.up n) base)
    (hfree : ∀ j, HasPath L node j (base ++ [L.label n]) → j = i) :
    Distinct L (update node i (some n)) := by
  have hclash : ∀ j m, j ≠ i → node j = some m → L.up m = L.up n → L.label m ≠ L.label n := by
    intro j m hne hm hup hlabel
    refine hne (hfree j ?_)
    rw [← hlabel]
    exact hasPath_of_hangs hm (hup.symm ▸ hbase)
  intro a b na nb hna hnb hup hlabel
  rcases Runs.update_some_cases hna with ⟨rfl, rfl⟩ | ⟨ha, hna'⟩ <;>
    rcases Runs.update_some_cases hnb with ⟨rfl, rfl⟩ | ⟨hb, hnb'⟩
  · rfl
  · cases hclash b nb hb hnb' hup.symm hlabel.symm
  · cases hclash a na ha hna' hup hlabel
  · exact h a b na nb hna' hnb' hup hlabel

theorem Forest.parents_update (h : Forest L inner node)
    (hparent : ∀ p, L.up n = some p → ∃ m, node p = some m ∧ inner m)
    (hm : update node i (some n) k = some m) (hup : L.up m = some p) :
    ∃ m, node p = some m ∧ inner m := by
  rcases Runs.update_some_cases hm with ⟨-, rfl⟩ | ⟨-, hm⟩
  · exact hparent p hup
  · exact h.parents k m p hm hup

theorem inner_update (hkind : ∀ m, node i = some m → inner m → inner n)
    (h : ∃ m, node p = some m ∧ inner m) :
    ∃ m, update node i (some n) p = some m ∧ inner m := by
  obtain ⟨m, hm, hinner⟩ := h
  by_cases hp : p = i
  · subst hp
    exact ⟨n, update_self p (some n) node, hkind m hm hinner⟩
  · exact ⟨m, (update_of_ne hp (some n) node).trans hm, hinner⟩

/-- What is stored after an update of a node has had a path. -/
theorem Forest.rooted_update (h : Forest L inner node) (hi : HasPath L node i old)
    (hm : update node i (some n) k = some m) : ∃ path, HasPath L node k path := by
  rcases Runs.update_some_cases hm with ⟨rfl, -⟩ | ⟨-, hm⟩
  · exact ⟨old, hi⟩
  · exact h.rooted k m hm

/-- **Moving a node to a place that is not below it leaves a forest.** -/
theorem Forest.relocate (h : Forest L inner node) (hi : HasPath L node i old)
    (honly : ∀ j, HasPath L node j old → j = i) (hbase : Hangs L node (L.up n) base)
    (hnot : ¬ old <+: base) (hkind : ∀ m, node i = some m → inner m → inner n)
    (hparent : ∀ p, L.up n = some p → ∃ m, node p = some m ∧ inner m) :
    Forest L inner (update node i (some n)) := by
  refine ⟨fun k m hm => ?_, fun k m p hm hup => inner_update hkind ?_⟩
  · obtain ⟨path, hpath⟩ := h.rooted_update hi hm
    by_cases hpre : old <+: path
    · obtain ⟨rest, rfl⟩ := hpre
      exact ⟨_, (hasPath_relocate hi honly hbase hnot).2 (.inl ⟨rest, hpath, rfl⟩)⟩
    · exact ⟨path, (hasPath_relocate hi honly hbase hnot).2 (.inr ⟨hpath, hpre⟩)⟩
  · exact h.parents_update hparent hm hup

/-- **Adding a node below one that may have children leaves a forest.** -/
theorem Forest.insert (h : Forest L inner node) (hnew : node i = none)
    (hbase : Hangs L node (L.up n) base)
    (hparent : ∀ p, L.up n = some p → ∃ m, node p = some m ∧ inner m) :
    Forest L inner (update node i (some n)) := by
  have hpath (k : ι) (q : List σ) := hasPath_insert (k := k) (q := q) hnew (h.childless hnew) hbase
  refine ⟨fun k m hm => ?_, fun k m p hm hup => ?_⟩
  · rcases Runs.update_some_cases hm with ⟨hk, -⟩ | ⟨-, hm⟩
    · exact ⟨_, (hpath k _).2 (.inr ⟨hk, rfl⟩)⟩
    · obtain ⟨path, hold⟩ := h.rooted k m hm
      exact ⟨path, (hpath k path).2 (.inl hold)⟩
  · obtain ⟨parent, hp, hinner⟩ := h.parents_update hparent hm hup
    exact ⟨parent, update_new hnew hp, hinner⟩

/-- **Changing what else a node holds leaves a forest.** -/
theorem Forest.replace (h : Forest L inner node) (hm : node i = some m) (hup : L.up n = L.up m)
    (hlabel : L.label n = L.label m) (hkind : inner m → inner n) :
    Forest L inner (update node i (some n)) := by
  refine ⟨fun k m' hm' => ?_, fun k m' p hm' hup' => ?_⟩
  · obtain ⟨old, hi⟩ := h.rooted i m hm
    obtain ⟨path, hpath⟩ := h.rooted_update hi hm'
    exact ⟨path, (hasPath_replace hm hup hlabel).2 hpath⟩
  · refine inner_update (fun m' hm' => some.inj (hm.symm.trans hm') ▸ hkind) ?_
    exact h.parents_update (fun p hup' => h.parents i m p hm (hup ▸ hup')) hm' hup'

end Update

end ParentForest
