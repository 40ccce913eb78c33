import MailServer.Lib.InsertionMap
import Mathlib.Data.List.Nodup
import Mathlib.Data.List.Perm.Subperm

/-!
# Topological sort

Nodes taken one after another once all edges that lead to them have been followed.

Principal results: `Inv.next`, `order_spec`; `mem_order_of_mem` — they do not depend on the order of
the edges.
-/

open InsertionMap

/-- The edges by their first node, and how many lead to each node. -/
structure TopologicalSort (κ : Type*) where
  edges : InsertionMap κ (List κ)
  count : InsertionMap κ ℕ

namespace TopologicalSort

open List

variable {κ : Type*} [DecidableEq κ]

def empty : TopologicalSort κ := ⟨[], []⟩

/-- Adds an edge. -/
def insert (s : TopologicalSort κ) (src dst : κ) : TopologicalSort κ where
  edges := alter src [] (· ++ [dst]) s.edges
  count := alter dst 0 (· + 1) (alter src 0 id s.count)

/-- The nodes that can be taken next, in order, beside the edges and the counts. -/
structure Iterator (κ : Type*) where
  edges : InsertionMap κ (List κ)
  count : InsertionMap κ ℕ
  no_edges : List κ

def intoIterator (s : TopologicalSort κ) : Iterator κ where
  edges := s.edges
  count := s.count.filter fun entry => decide (entry.2 ≠ 0)
  no_edges := ((s.count.filter fun entry => decide (entry.2 = 0)).map Prod.fst).reverse

/-- Follows one edge to a neighbor. -/
def release (it : Iterator κ) (neighbor : κ) : Iterator κ :=
  match find neighbor it.count with
  | none => it
  | some count =>
    if count - 1 = 0 then
      { it with count := remove neighbor it.count, no_edges := it.no_edges ++ [neighbor] }
    else { it with count := InsertionMap.insert neighbor (count - 1) it.count }

/-- Takes a node and follows the edges that start there. -/
def next (it : Iterator κ) : Option (κ × Iterator κ) :=
  match it.no_edges with
  | [] => none
  | no_edge :: rest =>
    some (no_edge,
      ((find no_edge it.edges).getD []).foldl release { it with no_edges := rest })

/-- The nodes taken in so many steps. -/
def drain : ℕ → Iterator κ → List κ
  | 0, _ => []
  | fuel + 1, it =>
    match next it with
    | none => []
    | some (node, it) => node :: drain fuel it

/-- The nodes in the order in which they are taken. A node is taken once, so there are no more
steps than nodes. -/
def order (s : TopologicalSort κ) : List κ := drain s.count.length (intoIterator s)

/-! ## What the edges make of the sort -/

def ofEdges (es : List (κ × κ)) : TopologicalSort κ :=
  es.foldl (fun s e => s.insert e.1 e.2) empty

/-- Some edge starts at the node and none leads to it. -/
def Source (es : List (κ × κ)) (y : κ) : Prop :=
  (∃ z, (y, z) ∈ es) ∧ ∀ x, (x, y) ∉ es

variable {es : List (κ × κ)}

theorem ofEdges_concat (e : κ × κ) : ofEdges (es ++ [e]) = (ofEdges es).insert e.1 e.2 := by
  unfold ofEdges
  rw [foldl_append, foldl_cons, foldl_nil]

theorem edges_ofEdges : (ofEdges es).edges = gather es := by
  induction es using reverseRecOn with
  | nil => rfl
  | append_singleton es e ih =>
    rw [ofEdges_concat, gather, foldl_append]
    exact congrArg (alter e.1 [] (· ++ [e.2])) ih

theorem nodup_keys_count : (keys (ofEdges es).count).Nodup := by
  induction es using reverseRecOn with
  | nil => exact nodup_nil
  | append_singleton es e ih =>
    rw [ofEdges_concat]
    exact nodup_keys_alter (nodup_keys_alter ih)

theorem mem_keys_count {y : κ} :
    y ∈ keys (ofEdges es).count ↔ ∃ e ∈ es, e.1 = y ∨ e.2 = y := by
  induction es using reverseRecOn with
  | nil =>
    refine ⟨fun h => absurd h not_mem_nil, ?_⟩
    rintro ⟨e, he, -⟩
    cases he
  | append_singleton es e ih =>
    rw [ofEdges_concat]
    unfold insert
    rw [mem_keys_alter, mem_keys_alter, ih]
    constructor
    · rintro (rfl | rfl | ⟨e', he', h⟩)
      · exact ⟨e, mem_append_right _ (.head _), .inr rfl⟩
      · exact ⟨e, mem_append_right _ (.head _), .inl rfl⟩
      · exact ⟨e', mem_append_left _ he', h⟩
    · rintro ⟨e', he', h⟩
      rcases mem_append.1 he' with he' | he'
      · exact .inr (.inr ⟨e', he', h⟩)
      · rw [mem_singleton] at he'
        rw [he'] at h
        exact h.elim (fun h => .inr (.inl h.symm)) fun h => .inl h.symm

theorem getD_find_count (es : List (κ × κ)) (y : κ) :
    (find y (ofEdges es).count).getD 0 = es.countP fun e => decide (e.2 = y) := by
  induction es using List.reverseRecOn with
  | nil => rfl
  | append_singleton es e ih =>
    rw [ofEdges_concat, countP_append, ← ih]
    unfold insert
    have hsrc : (find y (alter e.1 0 id (ofEdges es).count)).getD 0 =
        (find y (ofEdges es).count).getD 0 := by
      rw [find_alter]
      split
      · rename_i h
        rw [h, Option.getD_some, id]
      · rfl
    rw [find_alter]
    by_cases hy : y = e.2
    · rw [if_pos hy, Option.getD_some, ← hy, hsrc, countP_singleton,
        if_pos (decide_eq_true hy.symm)]
    · rw [if_neg hy, hsrc, countP_singleton, if_neg (by simpa using Ne.symm hy), Nat.add_zero]

theorem countP_eq_zero {y : κ} (h : ∀ x, (x, y) ∉ es) :
    (es.countP fun e => decide (e.2 = y)) = 0 := by
  rw [List.countP_eq_zero]
  intro e he hy
  exact h e.1 (of_decide_eq_true hy ▸ he)

theorem countP_eq_one (hnodup : (es.map Prod.snd).Nodup) {x y : κ} (h : (x, y) ∈ es) :
    (es.countP fun e => decide (e.2 = y)) = 1 := by
  have hcount := count_eq_one_of_mem hnodup (mem_map_of_mem h)
  rw [List.count, countP_map] at hcount
  rw [← hcount]
  refine countP_congr fun e _ => ?_
  rw [decide_eq_true_eq, Function.comp_apply, beq_iff_eq]

omit [DecidableEq κ] in
theorem eq_of_nodup (hnodup : (es.map Prod.snd).Nodup) {x x' y : κ} (h : (x, y) ∈ es)
    (h' : (x', y) ∈ es) : x = x' :=
  congrArg Prod.fst (inj_on_of_nodup_map hnodup h h' rfl)

/-! ## The run -/

/-- What the nodes taken so far leave in the iterator. -/
structure Inv (es : List (κ × κ)) (taken : List κ) (it : Iterator κ) : Prop where
  edges : it.edges = gather es
  nodup : (taken ++ it.no_edges).Nodup
  reached : ∀ y, y ∈ taken ++ it.no_edges ↔ Source es y ∨ ∃ x ∈ taken, (x, y) ∈ es
  waiting : ∀ y, (∃ x, (x, y) ∈ es ∧ x ∉ taken) → find y it.count = some 1
  released : ∀ y, ¬ (∃ x, (x, y) ∈ es ∧ x ∉ taken) → find y it.count = none

theorem find_filter {y : κ} {m} (hnodup : (keys m).Nodup) (p : ℕ → Bool) :
    find y (m.filter fun entry => p entry.2) = (find y m).filter p := by
  have hkeys : (keys (m.filter fun entry => p entry.2)).Nodup :=
    hnodup.sublist (filter_sublist.map Prod.fst)
  ext c
  rw [find_eq_some hkeys, mem_filter, Option.filter_eq_some_iff, find_eq_some hnodup]

theorem inv_intoIterator (hnodup : (es.map Prod.snd).Nodup) :
    Inv es [] (intoIterator (ofEdges es)) where
  edges := edges_ofEdges
  nodup := by
    rw [nil_append]
    unfold intoIterator
    rw [nodup_reverse]
    exact nodup_keys_count.sublist (filter_sublist.map Prod.fst)
  reached := by
    intro y
    rw [nil_append]
    unfold intoIterator
    rw [mem_reverse, mem_map]
    constructor
    · rintro ⟨⟨y', c⟩, hentry, rfl⟩
      rw [mem_filter, decide_eq_true_eq] at hentry
      have hfind := (find_eq_some nodup_keys_count).2 hentry.1
      have hcount := getD_find_count es y'
      have hzero : c = 0 := hentry.2
      rw [hfind, hzero] at hcount
      have hnone : ∀ x, (x, y') ∉ es := fun x hx => by
        rw [countP_eq_one hnodup hx] at hcount
        exact Nat.zero_ne_one hcount
      obtain ⟨e, he, h⟩ := mem_keys_count.1 (mem_keys_of_mem hentry.1)
      refine .inl ⟨⟨e.2, ?_⟩, hnone⟩
      rcases h with h | h
      · rw [← h]
        exact he
      · cases hnone e.1 (h ▸ he)
    · rintro (⟨⟨z, hz⟩, hnone⟩ | ⟨x, hx, -⟩)
      · have hkey : y ∈ keys (ofEdges es).count := mem_keys_count.2 ⟨(y, z), hz, .inl rfl⟩
        obtain ⟨⟨y', c⟩, hentry, hy⟩ := mem_map.1 hkey
        rw [show y' = y from hy] at hentry
        have hfind := (find_eq_some nodup_keys_count).2 hentry
        have hcount := getD_find_count es y
        rw [hfind, countP_eq_zero hnone] at hcount
        exact ⟨(y, c), mem_filter.2 ⟨hentry, decide_eq_true hcount⟩, rfl⟩
      · cases hx
  waiting := by
    rintro y ⟨x, hx, -⟩
    have hkey : y ∈ keys (ofEdges es).count := mem_keys_count.2 ⟨(x, y), hx, .inr rfl⟩
    obtain ⟨⟨y', c⟩, hentry, hy⟩ := mem_map.1 hkey
    rw [show y' = y from hy] at hentry
    have hfind := (find_eq_some nodup_keys_count).2 hentry
    have hcount := getD_find_count es y
    rw [hfind, Option.getD_some, countP_eq_one hnodup hx] at hcount
    unfold intoIterator
    rw [find_filter nodup_keys_count fun c => decide (c ≠ 0), hfind, hcount]
    rfl
  released := by
    intro y hnone
    have hcount := getD_find_count es y
    rw [countP_eq_zero fun x hx => hnone ⟨x, hx, not_mem_nil⟩] at hcount
    unfold intoIterator
    rw [find_filter nodup_keys_count fun c => decide (c ≠ 0)]
    cases hfind : find y (ofEdges es).count with
    | none => rfl
    | some c =>
      rw [hfind, Option.getD_some] at hcount
      rw [hcount]
      rfl

theorem foldl_release {ys : List κ} (it : Iterator κ) (hnodup : ys.Nodup)
    (hone : ∀ y ∈ ys, find y it.count = some 1) :
    (ys.foldl release it).edges = it.edges ∧ (ys.foldl release it).no_edges = it.no_edges ++ ys ∧
      ∀ y, find y (ys.foldl release it).count = if y ∈ ys then none else find y it.count := by
  induction ys generalizing it with
  | nil => exact ⟨rfl, (append_nil _).symm, fun y => (if_neg not_mem_nil).symm⟩
  | cons y ys ih =>
    have hrelease : release it y =
        { it with count := remove y it.count, no_edges := it.no_edges ++ [y] } := by
      unfold release
      rw [hone y (.head _)]
      rfl
    obtain ⟨hnot, hrest⟩ := nodup_cons.1 hnodup
    rw [foldl_cons, hrelease]
    have hone' : ∀ y' ∈ ys, find y' (remove y it.count) = some 1 := by
      intro y' hy'
      have hne : y' ≠ y := by
        rintro rfl
        exact hnot hy'
      rw [find_remove, if_neg hne]
      exact hone y' (mem_cons_of_mem y hy')
    obtain ⟨hedges, hqueue, hcount⟩ := ih
      { it with count := remove y it.count, no_edges := it.no_edges ++ [y] } hrest hone'
    refine ⟨hedges, by rw [hqueue, append_assoc, singleton_append], fun y' => ?_⟩
    rw [hcount y', find_remove]
    by_cases hy' : y' ∈ ys
    · rw [if_pos hy', if_pos (mem_cons_of_mem y hy')]
    · rw [if_neg hy']
      by_cases heq : y' = y
      · rw [if_pos heq, if_pos (heq ▸ (.head _))]
      · rw [if_neg heq, if_neg fun h => (mem_cons.1 h).elim heq hy']

/-- **A step takes a node that every edge to it has been followed for.** -/
theorem Inv.next {taken : List κ} {it it' : Iterator κ} {node : κ}
    (hnodup : (es.map Prod.snd).Nodup) (hinv : Inv es taken it)
    (h : TopologicalSort.next it = some (node, it')) :
    node ∉ taken ∧ (∀ x, (x, node) ∈ es → x ∈ taken) ∧ Inv es (taken ++ [node]) it' := by
  unfold TopologicalSort.next at h
  cases hqueue : it.no_edges with
  | nil =>
    rw [hqueue] at h
    cases h
  | cons no_edge rest =>
    rw [hqueue, Option.some_inj, Prod.mk.injEq] at h
    obtain ⟨rfl, hit⟩ := h
    have hnodup' := hinv.nodup
    rw [hqueue] at hnodup'
    have hfresh : no_edge ∉ taken := fun hmem =>
      (disjoint_of_nodup_append hnodup') hmem (.head _)
    have hbefore : ∀ x, (x, no_edge) ∈ es → x ∈ taken := by
      intro x hx
      have hmem := (hinv.reached no_edge).1
        (mem_append_right taken (hqueue ▸ (.head _)))
      rcases hmem with hsource | ⟨x', hx', hedge⟩
      · cases hsource.2 x hx
      · exact eq_of_nodup hnodup hedge hx ▸ hx'
    refine ⟨hfresh, hbefore, ?_⟩
    have hfind : (find no_edge it.edges).getD [] =
        (es.filter fun e => decide (e.1 = no_edge)).map Prod.snd := by
      rw [hinv.edges, find_gather]
    rw [hfind] at hit
    have htargets : ∀ y, y ∈ (es.filter fun e => decide (e.1 = no_edge)).map Prod.snd ↔
        (no_edge, y) ∈ es := by
      intro y
      rw [mem_map]
      constructor
      · rintro ⟨e, he, rfl⟩
        rw [mem_filter, decide_eq_true_eq] at he
        exact he.2 ▸ he.1
      · exact fun hy => ⟨_, mem_filter.2 ⟨hy, decide_eq_true rfl⟩, rfl⟩
    have htargetsNodup : ((es.filter fun e => decide (e.1 = no_edge)).map Prod.snd).Nodup :=
      hnodup.sublist (filter_sublist.map Prod.snd)
    clear hfind
    generalize (es.filter fun e => decide (e.1 = no_edge)).map Prod.snd = targets at *
    have hone : ∀ y ∈ targets, find y it.count = some 1 := fun y hy =>
      hinv.waiting y ⟨no_edge, (htargets y).1 hy, hfresh⟩
    obtain ⟨hedges, hrest, hcount⟩ := foldl_release { it with no_edges := rest } htargetsNodup hone
    rw [hit] at hedges hrest hcount
    have hdisjoint : ∀ y ∈ targets, y ∉ taken ++ it.no_edges := by
      intro y hy hmem
      rcases (hinv.reached y).1 hmem with hsource | ⟨x, hx, hedge⟩
      · exact hsource.2 no_edge ((htargets y).1 hy)
      · exact hfresh (eq_of_nodup hnodup hedge ((htargets y).1 hy) ▸ hx)
    refine ⟨hedges.trans hinv.edges, ?_, fun y => ?_, ?_, ?_⟩
    · rw [hrest, ← append_assoc, append_assoc taken, singleton_append, ← hqueue]
      exact nodup_append.2 ⟨hinv.nodup, htargetsNodup, fun a ha b hb heq =>
        hdisjoint b hb (heq ▸ ha)⟩
    · have hold := hinv.reached y
      rw [hqueue] at hold
      rw [hrest, ← append_assoc, append_assoc taken, singleton_append,
        mem_append, hold, htargets y]
      constructor
      · rintro ((hsource | ⟨x, hx, hedge⟩) | hedge)
        · exact .inl hsource
        · exact .inr ⟨x, mem_append_left _ hx, hedge⟩
        · exact .inr ⟨no_edge, mem_append_right _ (.head _), hedge⟩
      · rintro (hsource | ⟨x, hx, hedge⟩)
        · exact .inl (.inl hsource)
        · rcases mem_append.1 hx with hx | hx
          · exact .inl (.inr ⟨x, hx, hedge⟩)
          · exact .inr (mem_singleton.1 hx ▸ hedge)
    · rintro y ⟨x, hedge, hx⟩
      have hne : x ≠ no_edge := fun h => hx (mem_append_right _ (mem_singleton.2 h))
      rw [hcount y, if_neg fun hy => hne (eq_of_nodup hnodup hedge ((htargets y).1 hy))]
      exact hinv.waiting y ⟨x, hedge, fun h => hx (mem_append_left _ h)⟩
    · intro y hnone
      rw [hcount y]
      by_cases hy : y ∈ targets
      · rw [if_pos hy]
      · rw [if_neg hy]
        refine hinv.released y ?_
        rintro ⟨x, hedge, hx⟩
        refine hnone ⟨x, hedge, fun h => ?_⟩
        rcases mem_append.1 h with h | h
        · exact hx h
        · exact hy ((htargets y).2 (mem_singleton.1 h ▸ hedge))

/-- What the run takes, continued from nodes that are taken already. -/
theorem drain_spec (hnodup : (es.map Prod.snd).Nodup) {fuel : ℕ} {taken : List κ}
    {it : Iterator κ} (hinv : Inv es taken it)
    (hfuel : (ofEdges es).count.length ≤ taken.length + fuel) :
    (taken ++ drain fuel it).Nodup ∧
      (∀ y, y ∈ taken ++ drain fuel it ↔
        Source es y ∨ ∃ x ∈ taken ++ drain fuel it, (x, y) ∈ es) ∧
      ∀ pre y post, drain fuel it = pre ++ y :: post → ∀ x, (x, y) ∈ es → x ∈ taken ++ pre := by
  have hsub : ∀ y ∈ taken ++ it.no_edges, y ∈ keys (ofEdges es).count := by
    intro y hy
    rw [mem_keys_count]
    rcases (hinv.reached y).1 hy with ⟨⟨z, hz⟩, -⟩ | ⟨x, -, hedge⟩
    · exact ⟨_, hz, .inl rfl⟩
    · exact ⟨_, hedge, .inr rfl⟩
  induction fuel generalizing taken it with
  | zero =>
    have hlength := (subperm_of_subset hinv.nodup hsub).length_le
    rw [length_append, InsertionMap.keys, length_map] at hlength
    have hqueue : it.no_edges = [] := eq_nil_of_length_eq_zero (by omega)
    have hreached := hinv.reached
    have htaken := hinv.nodup
    rw [hqueue, append_nil] at hreached htaken
    rw [drain, append_nil]
    refine ⟨htaken, hreached, fun pre y post h => ?_⟩
    cases append_ne_nil_of_right_ne_nil pre (cons_ne_nil y post) h.symm
  | succ fuel ih =>
    unfold drain
    cases hnext : TopologicalSort.next it with
    | none =>
      have hqueue : it.no_edges = [] := by
        unfold TopologicalSort.next at hnext
        cases hqueue : it.no_edges with
        | nil => rfl
        | cons no_edge rest =>
          rw [hqueue] at hnext
          cases hnext
      have hreached := hinv.reached
      have htaken := hinv.nodup
      rw [hqueue, append_nil] at hreached htaken
      simp only [append_nil]
      refine ⟨htaken, hreached, fun pre y post h => ?_⟩
      cases append_ne_nil_of_right_ne_nil pre (cons_ne_nil y post) h.symm
    | some step =>
      obtain ⟨node, it'⟩ := step
      obtain ⟨-, hbefore, hinv'⟩ := hinv.next hnodup hnext
      have hsub' : ∀ y ∈ (taken ++ [node]) ++ it'.no_edges, y ∈ keys (ofEdges es).count := by
        intro y hy
        rw [mem_keys_count]
        rcases (hinv'.reached y).1 hy with ⟨⟨z, hz⟩, -⟩ | ⟨x, -, hedge⟩
        · exact ⟨_, hz, .inl rfl⟩
        · exact ⟨_, hedge, .inr rfl⟩
      have hfuel' : (ofEdges es).count.length ≤ (taken ++ [node]).length + fuel := by
        rw [length_append, length_singleton]
        omega
      obtain ⟨hnd, hmem, horder⟩ := ih hinv' hfuel' hsub'
      rw [append_assoc] at hnd hmem
      refine ⟨hnd, hmem, fun pre y post h x hx => ?_⟩
      cases pre with
      | nil =>
        rw [nil_append, cons.injEq] at h
        rw [append_nil]
        exact hbefore x (h.1 ▸ hx)
      | cons first pre =>
        rw [cons_append, cons.injEq] at h
        have hin := horder pre y post h.2 x hx
        rw [append_assoc] at hin
        exact h.1 ▸ hin

/-- **When no node has two edges leading to it, the nodes taken are those that are reached from a
source, each once and after the node before it.** -/
theorem order_spec (hnodup : (es.map Prod.snd).Nodup) :
    (order (ofEdges es)).Nodup ∧
      (∀ y, y ∈ order (ofEdges es) ↔ Source es y ∨ ∃ x ∈ order (ofEdges es), (x, y) ∈ es) ∧
      ∀ pre y post, order (ofEdges es) = pre ++ y :: post → ∀ x, (x, y) ∈ es → x ∈ pre := by
  have hfuel : (ofEdges es).count.length ≤ ([] : List κ).length + (ofEdges es).count.length :=
    Nat.le_add_left _ _
  exact drain_spec hnodup (inv_intoIterator hnodup) hfuel

theorem mem_order_of_mem {es'} (hnodup : (es.map Prod.snd).Nodup)
    (hnodup' : (es'.map Prod.snd).Nodup) (hmem : ∀ e, e ∈ es ↔ e ∈ es') {y : κ}
    (hy : y ∈ order (ofEdges es)) : y ∈ order (ofEdges es') := by
  obtain ⟨-, htaken, hbefore⟩ := order_spec hnodup
  obtain ⟨-, htaken', -⟩ := order_spec hnodup'
  have hprefix : ∀ pre post, order (ofEdges es) = pre ++ post →
      ∀ y ∈ pre, y ∈ order (ofEdges es') := by
    intro pre
    induction pre using reverseRecOn with
    | nil => exact nofun
    | append_singleton pre z ih =>
      intro post hsplit y hy
      rw [append_assoc] at hsplit
      have hpre := ih (z :: post) hsplit
      rcases mem_append.1 hy with hy | hy
      · exact hpre y hy
      · obtain rfl := mem_singleton.1 hy
        have hin : y ∈ order (ofEdges es) := by
          rw [hsplit]
          exact mem_append_right _ (.head _)
        rcases (htaken y).1 hin with ⟨⟨z, hz⟩, hnone⟩ | ⟨x, -, hedge⟩
        · exact (htaken' y).2 (.inl ⟨⟨z, (hmem _).1 hz⟩, fun x hx => hnone x ((hmem _).2 hx)⟩)
        · exact (htaken' y).2 (.inr ⟨x, hpre x (hbefore pre y post hsplit x hedge),
            (hmem _).1 hedge⟩)
  exact hprefix _ [] (append_nil _).symm y hy

end TopologicalSort
