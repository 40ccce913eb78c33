import MailServer.Dav.FileEffects

/-!
# Copying a folder

The loop of `copy_container` (`dav/src/file/copy_move.rs`), which copies the files at and below the
source one by one, parents first, and finds the parent of a copy among the copies made before.

Principal results: `CopyInv.step`, `CopyInv.copied`, `copyContainer_spec`.
-/

namespace MailServer.Dav

open InsertionMap ParentForest List Function
open Option (some_inj)

/-- The depth goes as far as the path below the source. -/
def reaches (infinityCopy : Bool) (rest : FilePath) : Prop := infinityCopy ∨ rest.length ≤ 1

/-- The files at and below the source, as far as the depth goes, and parents first. -/
structure CopyList (m : CopyMove) (account : FileAccount) (infinityCopy : Bool) (L : List ℕ) :
    Prop where
  nodup : L.Nodup
  head : ∃ tail, L = m.fromResource.documentId :: tail
  below : ∀ d ∈ L, ∀ n, account.node d = some n →
    ∃ rest, PathOf account d (m.fromResourceName ++ rest) ∧ reaches infinityCopy rest
  complete : ∀ d rest, PathOf account d (m.fromResourceName ++ rest) →
    reaches infinityCopy rest → d ∈ L
  parents : ∀ pre d post, L = pre ++ d :: post → pre ≠ [] → ∀ n, account.node d = some n →
    ∃ p, n.parent = some p ∧ p ∈ pre

section Copy

variable {m : CopyMove} {store : FileStore} {base : FilePath} {name : String} {node : FileNode}

/-- The nodes of the destination's account, with the copies made so far. -/
def copiesIn (m : CopyMove) (store : FileStore) (s : CopyState) : ℕ → Option FileNode :=
  applyWrites (store m.toAccountId).node (s.batch.writesTo m.toAccountId)

/-- **What the copies of some files, counting down from the last document id, leave.** -/
structure CopyInv (m : CopyMove) (store : FileStore) (name : String) (deleteSource : Bool)
    (last : ℕ) (done : List ℕ) (s : CopyState) : Prop where
  only : ∀ a, m.toAccountId ≠ a → s.batch.writesTo a = []
  changes : ∀ a change k, (a, change, k) ∈ s.batch.changes ↔ a = m.toAccountId ∧
    change = .insert ∧ ∃ d, find (d + 1) s.idMap = some (k + 1)
  vanished : s.batch.vanished = []
  next : s.nextDocumentId + done.length = last
  newName : s.newName = if done = [] then some name else none
  deleteFiles : s.deleteFiles = if deleteSource then done else []
  unmapped : done = [] → s.idMap = []
  mapped : ∀ d ∈ done, ∃ k, find (d + 1) s.idMap = some (k + 1)
  unmapped_of_notMem : ∀ d, d ∉ done → find (d + 1) s.idMap = none
  fresh : ∀ d k, find (d + 1) s.idMap = some (k + 1) → s.nextDocumentId < k
  below : ∀ d ∈ done, ∃ rest, PathOf (store m.fromAccountId) d (m.fromResourceName ++ rest)
  old : ∀ k n, (store m.toAccountId).node k = some n → copiesIn m store s k = some n
  paths : ∀ k q, HasPath links (copiesIn m store s) k q ↔
    PathOf (store m.toAccountId) k q ∨ ∃ d rest, find (d + 1) s.idMap = some (k + 1) ∧
      PathOf (store m.fromAccountId) d (m.fromResourceName ++ rest) ∧
      q = m.destinationResourceName ++ rest
  kinds : ∀ d k n, find (d + 1) s.idMap = some (k + 1) →
    (store m.fromAccountId).node d = some n →
    ∃ c, copiesIn m store s k = some c ∧ c.isContainer = n.isContainer
  closed : ∀ k n p, copiesIn m store s k = some n → links.up n = some p →
    ∃ n', copiesIn m store s p = some n'
  ids : ∀ k n, copiesIn m store s k = some n →
    k ≤ (store m.toAccountId).lastId ∨ (s.nextDocumentId < k ∧ k ≤ last)
  distinct : Distinct links (copiesIn m store s)
  forest : m.destination.isContainer →
    Forest links (fun n => n.isContainer) (copiesIn m store s)

variable {deleteSource : Bool} {last : ℕ}

theorem copyInv_nil (hready : Ready m store base name node) :
    CopyInv m store name deleteSource last [] ⟨{}, [], [], last, m.destination.newName⟩ where
  only := fun _ _ => rfl
  changes := fun _ _ _ => ⟨fun h => absurd h not_mem_nil,
    fun ⟨_, _, _, h⟩ => nomatch h⟩
  vanished := rfl
  next := rfl
  newName := hready.newName
  deleteFiles := (ite_self _).symm
  unmapped := fun _ => rfl
  mapped := nofun
  unmapped_of_notMem := fun _ _ => rfl
  fresh := fun _ _ h => nomatch h
  below := nofun
  old := fun _ _ h => h
  paths := by
    intro k q
    refine ⟨.inl, ?_⟩
    rintro (h | ⟨d, rest, h, -, -⟩)
    · exact h
    · cases h
  kinds := fun _ _ _ h => nomatch h
  closed := fun k n p hk hup => by
    obtain ⟨n', hn', -⟩ := (hready.tree m.toAccountId).forest.parents k n p hk hup
    exact ⟨n', hn'⟩
  ids := fun k n hk => .inl ((hready.tree m.toAccountId).bounded k n hk)
  distinct := (hready.tree m.toAccountId).distinct
  forest := fun _ => (hready.tree m.toAccountId).forest

/-- Where a copy goes: below the copy of its parent, or to the destination. -/
theorem CopyInv.hangs {done : List ℕ} {s : CopyState} {d : ℕ} {n : FileNode} {rest : FilePath}
    (hready : Ready m store base name node)
    (hinv : CopyInv m store name deleteSource last done s)
    (hn : (store m.fromAccountId).node d = some n)
    (hpath : PathOf (store m.fromAccountId) d (m.fromResourceName ++ rest))
    (hparent : (done = [] ∧ d = m.fromResource.documentId) ∨
      (done ≠ [] ∧ ∃ p, n.parent = some p ∧ p ∈ done)) {copy : FileNode}
    (hname : copy.name = s.newName.getD n.name)
    (hup : copy.parentId = (find n.parentId s.idMap).getD m.destination.parentId) :
    ∃ above, Hangs links (copiesIn m store s) copy.parent above ∧
      m.destinationResourceName ++ rest = above ++ [copy.name] ∧
      (m.destination.isContainer → ∀ p, copy.parent = some p →
        ∃ c, copiesIn m store s p = some c ∧ c.isContainer) := by
  rcases hparent with ⟨hdone, rfl⟩ | ⟨hdone, p, hp, hmem⟩
  · have hup' : copy.parent = m.destination.documentId := by
      rw [hinv.unmapped hdone] at hup
      unfold FileNode.parent
      rw [hup]
      unfold Destination.parentId
      cases m.destination.documentId with
      | none => rfl
      | some id => exact if_pos (Nat.succ_pos id)
    have hrest : rest = [] := by
      have heq := hready.source.unique hpath
      exact self_eq_append_right.1 heq
    refine ⟨base, ?_, ?_, fun hcontainer p hp => ?_⟩
    · rw [hup']
      have hbase := hready.base
      cases hdoc : m.destination.documentId with
      | none =>
        rw [hdoc] at hbase
        exact hbase
      | some id =>
        rw [hdoc] at hbase
        exact (hinv.paths id base).2 (.inl hbase)
    · rw [hrest, append_nil, hready.dest, hname, hinv.newName, if_pos hdone]
      rfl
    · obtain ⟨parent, hparent, hkind⟩ := hready.parent p (hup'.symm.trans hp)
      exact ⟨parent, hinv.old p parent hparent, hkind ▸ hcontainer⟩
  · obtain ⟨k, hk⟩ := hinv.mapped p hmem
    obtain ⟨rest', hpathParent⟩ := hinv.below p hmem
    have hid : n.parentId = p + 1 := by
      unfold FileNode.parent at hp
      split at hp
      · have := Option.some.inj hp
        omega
      · cases hp
    rw [hid, hk, Option.getD_some] at hup
    have hup' : copy.parent = some k := parentId_succ k copy hup
    obtain ⟨n', above, hn', habove, heq⟩ := hpath.hangs
    obtain rfl := Option.some.inj (hn'.symm.trans hn)
    rw [show links.up n' = some p from hp] at habove
    have habove' : above = m.fromResourceName ++ rest' := HasPath.unique habove hpathParent
    have hrest : rest = rest' ++ [n'.name] := by
      rw [habove', append_assoc] at heq
      exact append_cancel_left heq
    refine ⟨m.destinationResourceName ++ rest', ?_, ?_, fun _ p' hp' => ?_⟩
    · rw [hup']
      exact (hinv.paths k _).2 (.inr ⟨p, rest', hk, hpathParent, rfl⟩)
    · rw [hrest, hname, hinv.newName, if_neg hdone, append_assoc]
      rfl
    · obtain ⟨parent, hparent, hinner⟩ :=
        (hready.tree m.fromAccountId).forest.parents d n' p hn hp
      obtain ⟨c, hc, hkind⟩ := hinv.kinds p k parent hk hparent
      cases hup'.symm.trans hp'
      exact ⟨c, hc, hkind.trans hinner⟩

variable {infinityCopy : Bool} {L : List ℕ} {s s' : CopyState} {done post : List ℕ} {d : ℕ}

theorem CopyInv.free (hinv : CopyInv m store name deleteSource last done s)
    (htree : IsTree (store m.fromAccountId)) {rest : FilePath}
    (hfree : ∀ k, ¬ PathOf (store m.toAccountId) k m.destinationResourceName)
    (hdest : m.destinationResourceName ≠ [])
    (hpath : PathOf (store m.fromAccountId) d (m.fromResourceName ++ rest))
    (hnew : d ∉ done) (j : ℕ) :
    ¬ HasPath links (copiesIn m store s) j (m.destinationResourceName ++ rest) := by
  intro hj
  rcases (hinv.paths j _).1 hj with hold | ⟨d', rest', hk, hpath', heq⟩
  · obtain ⟨k, hk⟩ := hold.above (prefix_append _ rest) hdest
    exact hfree k hk
  · rw [← append_cancel_left heq] at hpath'
    have hsame : d' = d := htree.only hpath d' hpath'
    rw [hsame, hinv.unmapped_of_notMem d hnew] at hk
    cases hk

section

variable (hready : Ready m store base name node)
  (hlist : CopyList m (store m.fromAccountId) infinityCopy L)
  (hfree : ∀ k, ¬ PathOf (store m.toAccountId) k m.destinationResourceName)
  (hlast : last = (store m.toAccountId).lastId + L.length)
include hready hlist hfree hlast

/-- **A copy goes below the copy of its parent.** -/
theorem CopyInv.step (hsplit : L = done ++ d :: post)
    (hinv : CopyInv m store name deleteSource last done s)
    (hcopy : copyFile (store m.fromAccountId) m.destination deleteSource s d = some s') :
    CopyInv m store name deleteSource last (done ++ [d]) s' := by
  unfold copyFile at hcopy
  cases hn : (store m.fromAccountId).node d with
  | none =>
    rw [hn] at hcopy
    cases hcopy
  | some n =>
  rw [hn] at hcopy
  cases hcopy
  have hmem : d ∈ L := hsplit ▸ mem_append_right done (.head _)
  have hnew : d ∉ done := fun h =>
    (disjoint_of_nodup_append (hsplit ▸ hlist.nodup)) h (.head _)
  have hlength : L.length = done.length + (post.length + 1) := by
    rw [hsplit, length_append, length_cons]
  have hnext := hinv.next
  obtain ⟨rest, hpath, -⟩ := hlist.below d hmem n hn
  have hparent : (done = [] ∧ d = m.fromResource.documentId) ∨
      (done ≠ [] ∧ ∃ p, n.parent = some p ∧ p ∈ done) := by
    by_cases hdone : done = []
    · obtain ⟨tail, htail⟩ := hlist.head
      rw [hsplit, hdone, nil_append] at htail
      exact .inl ⟨hdone, (cons.inj htail).1⟩
    · exact .inr ⟨hdone, hlist.parents done d post hsplit hdone n hn⟩
  -- The node that is written.
  let copy : FileNode := { n with
    name := s.newName.getD n.name
    parentId := (find n.parentId s.idMap).getD m.destination.parentId }
  have hname : copy.name = s.newName.getD n.name := rfl
  obtain ⟨above, habove, hdest, hinner⟩ := hinv.hangs hready hn hpath hparent hname rfl
  have hfresh : copiesIn m store s s.nextDocumentId = none := by
    cases hk : copiesIn m store s s.nextDocumentId with
    | none => rfl
    | some c =>
      have := hinv.ids _ c hk
      omega
  have hchildless : ∀ k c, copiesIn m store s k = some c →
      links.up c ≠ some s.nextDocumentId := by
    intro k c hk hup
    obtain ⟨parent, hparent⟩ := hinv.closed k c _ hk hup
    cases hparent.symm.trans hfresh
  have hfreePath : ∀ j, ¬ HasPath links (copiesIn m store s) j (above ++ [links.label copy]) := by
    intro j hj
    refine hinv.free (hready.tree _) hfree ?_ hpath hnew j ?_
    · rw [hready.dest]
      exact append_ne_nil_of_right_ne_nil base (cons_ne_nil _ _)
    · rw [hdest]
      exact hj
  have hwrites : ∀ a, (s.batch.insertNode m.destination.accountId s.nextDocumentId copy).writesTo
      a = s.batch.writesTo a ++
        if m.toAccountId = a then [(s.nextDocumentId, some copy)] else [] := by
    intro a
    unfold FileBatch.insertNode
    rw [writesTo_change, hready.account]
  have hnode : ∀ t,
      t.batch = s.batch.insertNode m.destination.accountId s.nextDocumentId copy →
      copiesIn m store t =
        Function.update (copiesIn m store s) s.nextDocumentId (some copy) := by
    intro t ht
    unfold copiesIn
    rw [ht, hwrites, if_pos rfl, applyWrites_append]
    rfl
  have hkeep : ∀ {k c}, copiesIn m store s k = some c → k ≠ s.nextDocumentId := by
    rintro k c hk rfl
    cases hk.symm.trans hfresh
  have hupdate : ∀ {k c}, copiesIn m store s k = some c →
      Function.update (copiesIn m store s) s.nextDocumentId (some copy) k = some c :=
    fun hk => (update_of_ne (hkeep hk) _ _).trans hk
  have hself : Function.update (copiesIn m store s) s.nextDocumentId (some copy)
      s.nextDocumentId = some copy := update_self _ _ _
  have hmapped : ∀ {d' k}, find (d' + 1)
      (InsertionMap.insert (d + 1) (s.nextDocumentId + 1) s.idMap) = some (k + 1) ↔
      d' = d ∧ k = s.nextDocumentId ∨ find (d' + 1) s.idMap = some (k + 1) := by
    intro d' k
    rw [find_insert]
    by_cases heq : d' = d
    · simp [heq, hinv.unmapped_of_notMem d hnew, eq_comm]
    · simp [heq]
  refine ⟨fun a ha => ?_, fun a change k => ?_, hinv.vanished, ?_, ?_, ?_, fun h => ?_,
    fun d' hd' => ?_, fun d' hd' => ?_, fun d' k hk => ?_, fun d' hd' => ?_, fun k c hk => ?_,
    fun k q => ?_, fun d' k n' hk hn' => ?_, fun k c p hk hup => ?_, fun k c hk => ?_, ?_,
    fun hcontainer => ?_⟩
  · rw [hwrites, if_neg ha, append_nil]
    exact hinv.only a ha
  · change (a, change, k) ∈ s.batch.changes ++
      [(m.destination.accountId, ItemChange.insert, s.nextDocumentId)] ↔ _
    rw [mem_append, hinv.changes, mem_singleton, Prod.mk.injEq, Prod.mk.injEq,
      hready.account]
    simp only [hmapped, exists_or, exists_and_right, exists_eq, true_and]
    tauto
  · rw [length_append, length_singleton]
    change s.nextDocumentId - 1 + (done.length + 1) = last
    omega
  · rw [if_neg (append_ne_nil_of_right_ne_nil done (cons_ne_nil d []))]
  · change (if deleteSource then s.deleteFiles ++ [d] else s.deleteFiles) = _
    rw [hinv.deleteFiles]
    cases deleteSource with
    | true | false => rfl
  · cases append_ne_nil_of_right_ne_nil done (cons_ne_nil d []) h
  · rcases mem_append.1 hd' with h | h
    · obtain ⟨k, hk⟩ := hinv.mapped d' h
      exact ⟨k, hmapped.2 (.inr hk)⟩
    · exact ⟨_, hmapped.2 (.inl ⟨mem_singleton.1 h, rfl⟩)⟩
  · rw [mem_append, not_or, mem_singleton] at hd'
    rw [find_insert, if_neg fun heq => hd'.2 (Nat.succ.inj heq)]
    exact hinv.unmapped_of_notMem d' hd'.1
  · change s.nextDocumentId - 1 < k
    rcases hmapped.1 hk with ⟨-, rfl⟩ | hk
    · omega
    · have := hinv.fresh d' k hk
      omega
  · rcases mem_append.1 hd' with h | h
    · exact hinv.below d' h
    · exact ⟨rest, mem_singleton.1 h ▸ hpath⟩
  · rw [hnode _ rfl]
    exact hupdate (hinv.old k c hk)
  · rw [hnode _ rfl, hasPath_insert hfresh hchildless habove, hinv.paths k q]
    constructor
    · rintro ((h | ⟨d', rest', hk, hpath', rfl⟩) | ⟨rfl, rfl⟩)
      · exact .inl h
      · exact .inr ⟨d', rest', hmapped.2 (.inr hk), hpath', rfl⟩
      · exact .inr ⟨d, rest, hmapped.2 (.inl ⟨rfl, rfl⟩), hpath, hdest.symm⟩
    · rintro (h | ⟨d', rest', hk, hpath', rfl⟩)
      · exact .inl (.inl h)
      · rcases hmapped.1 hk with ⟨rfl, rfl⟩ | hk
        · rw [append_cancel_left (hpath'.unique hpath)]
          exact .inr ⟨rfl, hdest⟩
        · exact .inl (.inr ⟨d', rest', hk, hpath', rfl⟩)
  · rw [hnode _ rfl]
    rcases hmapped.1 hk with ⟨rfl, rfl⟩ | hk
    · rw [hn, some_inj] at hn'
      exact ⟨copy, hself, hn' ▸ rfl⟩
    · obtain ⟨c, hc, hkind⟩ := hinv.kinds d' k n' hk hn'
      exact ⟨c, hupdate hc, hkind⟩
  · rw [hnode _ rfl] at hk ⊢
    rcases Runs.update_some_cases hk with ⟨-, rfl⟩ | ⟨-, hk⟩
    · have habove' : Hangs links (copiesIn m store s) (links.up copy) above := habove
      rw [hup] at habove'
      obtain ⟨c', hc'⟩ := HasPath.stored habove'
      exact ⟨c', hupdate hc'⟩
    · obtain ⟨c', hc'⟩ := hinv.closed k c p hk hup
      exact ⟨c', hupdate hc'⟩
  · rw [hnode _ rfl] at hk
    change k ≤ _ ∨ (s.nextDocumentId - 1 < k ∧ k ≤ last)
    rcases Runs.update_some_cases hk with ⟨heq, -⟩ | ⟨-, hk⟩
    · omega
    · have := hinv.ids k c hk
      omega
  · rw [hnode _ rfl]
    exact hinv.distinct.update habove fun j hj => absurd hj (hfreePath j)
  · rw [hnode _ rfl]
    exact (hinv.forest hcontainer).insert hfresh habove (hinner hcontainer)

theorem CopyInv.run (hsplit : L = done ++ post)
    (hinv : CopyInv m store name deleteSource last done s)
    (hcopy : post.foldlM (copyFile (store m.fromAccountId) m.destination deleteSource) s =
      some s') : CopyInv m store name deleteSource last L s' := by
  induction post generalizing done s with
  | nil =>
    rw [append_nil] at hsplit
    cases hcopy
    exact hsplit ▸ hinv
  | cons d post ih =>
    obtain ⟨s₁, hstep, hrest⟩ := Option.bind_eq_some_iff.1 hcopy
    refine ih ?_ (hinv.step hready hlist hfree hlast hsplit hstep) hrest
    rw [hsplit, append_assoc, singleton_append]

end

/-- **What copying the source, with what is below it, makes of the accounts.** The relation pairs a
file with its copy. -/
structure Copied (m : CopyMove) (reach : FilePath → Prop) (deleteSource : Bool)
    (before after : FileStore) (batch : FileBatch) (copyOf : ℕ → ℕ → Prop) : Prop where
  complete : ∀ d rest, PathOf (before m.fromAccountId) d (m.fromResourceName ++ rest) →
    reach rest → ∃ k, copyOf d k
  sound : ∀ d k, copyOf d k → ∃ rest,
    PathOf (before m.fromAccountId) d (m.fromResourceName ++ rest) ∧ reach rest
  fresh : ∀ d k, copyOf d k → (before m.toAccountId).node k = none
  changes : ∀ a change k, (a, change, k) ∈ batch.changes ↔
    (a = m.toAccountId ∧ change = .insert ∧ ∃ d, copyOf d k) ∨
      (deleteSource ∧ a = m.fromAccountId ∧ change = .delete ∧ ∃ k', copyOf k k')
  vanished : batch.vanished.map (fun v => (v.1, v.2.path)) =
    if deleteSource then [(m.fromAccountId, m.fromResourceName)] else []
  to_paths : ∀ k q, PathOf (after m.toAccountId) k q ↔ PathOf (before m.toAccountId) k q ∨
    ∃ d rest, copyOf d k ∧ PathOf (before m.fromAccountId) d (m.fromResourceName ++ rest) ∧
      q = m.destinationResourceName ++ rest
  to_tree : m.destination.isContainer → IsTree (after m.toAccountId)
  to_forest : Forest links (fun node => node.isContainer) (after m.toAccountId).node →
    m.destination.isContainer
  from_paths : deleteSource → ∀ k q, PathOf (after m.fromAccountId) k q ↔
    PathOf (before m.fromAccountId) k q ∧ ¬ m.fromResourceName <+: q
  from_tree : deleteSource → (∀ k rest,
    PathOf (before m.fromAccountId) k (m.fromResourceName ++ rest) → reach rest) →
      IsTree (after m.fromAccountId)
  from_forest : deleteSource →
    Forest links (fun node => node.isContainer) (after m.fromAccountId).node → ∀ k rest,
      PathOf (before m.fromAccountId) k (m.fromResourceName ++ rest) → reach rest
  other : ∀ a, a ≠ m.toAccountId → (deleteSource → a ≠ m.fromAccountId) →
    (after a).node = (before a).node ∧ (before a).lastId ≤ (after a).lastId

theorem changes_foldl_deleteNode (accountId : ℕ) (ids : List ℕ) (batch : FileBatch) :
    (ids.foldl (fun batch id => batch.deleteNode accountId id) batch).changes =
      batch.changes ++ ids.map fun id => (accountId, ItemChange.delete, id) := by
  induction ids generalizing batch with
  | nil => exact (append_nil _).symm
  | cons id ids ih =>
    rw [foldl_cons, ih, map_cons]
    exact append_assoc _ [(accountId, ItemChange.delete, id)] _

theorem vanished_foldl_deleteNode (accountId : ℕ) (ids : List ℕ) (batch : FileBatch) :
    (ids.foldl (fun batch id => batch.deleteNode accountId id) batch).vanished =
      batch.vanished := by
  induction ids generalizing batch with
  | nil => rfl
  | cons id ids ih => exact ih _

theorem writesTo_foldl_deleteNode (accountId a : ℕ) (ids : List ℕ) (batch : FileBatch) :
    (ids.foldl (fun batch id => batch.deleteNode accountId id) batch).writesTo a =
      batch.writesTo a ++ if accountId = a then ids.map (·, none) else [] := by
  have h := writes_foldl_deleteNode accountId a ids (fun _ => true) batch
  rw [filter_eq_self.2 fun _ _ => rfl] at h
  exact h

/-- What the batch with the copies, and with the deletions of the sources, holds. -/
structure Finished (m : CopyMove) (deleteSource : Bool) (L : List ℕ) (s : CopyState) : Prop where
  changes : ∀ a change k, (a, change, k) ∈ (s.finish m).changes ↔
    (a, change, k) ∈ s.batch.changes ∨
      (deleteSource ∧ a = m.fromAccountId ∧ change = .delete ∧ k ∈ L)
  vanished : (s.finish m).vanished =
    if deleteSource then [(m.fromAccountId, ⟨m.fromResourceName, true⟩)] else []
  writesTo : ∀ a, (s.finish m).writesTo a = s.batch.writesTo a ++
    if deleteSource ∧ m.fromAccountId = a then L.reverse.map (·, none) else []

theorem CopyInv.finish (hlist : CopyList m (store m.fromAccountId) infinityCopy L)
    (hinv : CopyInv m store name deleteSource last L s) : Finished m deleteSource L s := by
  have hne : L ≠ [] := by
    obtain ⟨tail, htail⟩ := hlist.head
    rw [htail]
    exact cons_ne_nil _ _
  cases deleteSource with
  | false =>
    have hfinish : s.finish m = s.batch := by
      exact if_pos hinv.deleteFiles
    refine ⟨fun a change k => ?_, ?_, fun a => ?_⟩
    · rw [hfinish]
      exact (or_iff_left fun h => Bool.false_ne_true h.1).symm
    · rw [hfinish]
      exact hinv.vanished
    · rw [hfinish, if_neg fun h => Bool.false_ne_true h.1, append_nil]
  | true =>
    have hdelete : s.deleteFiles = L := hinv.deleteFiles
    have hfinish : s.finish m = ((L.reverse.foldl (fun batch documentId =>
        batch.deleteNode m.fromAccountId documentId) s.batch).withAccountId
          m.fromAccountId).logVanishedItem ⟨m.fromResourceName, true⟩ := by
      unfold CopyState.finish
      rw [hdelete, if_neg hne]
    refine ⟨fun a change k => ?_, ?_, fun a => ?_⟩
    · rw [hfinish]
      change (a, change, k) ∈ (L.reverse.foldl (fun batch documentId =>
        batch.deleteNode m.fromAccountId documentId) s.batch).changes ↔ _
      rw [changes_foldl_deleteNode, mem_append]
      refine or_congr_right ?_
      rw [mem_map]
      constructor
      · rintro ⟨id, hid, heq⟩
        rw [Prod.mk.injEq, Prod.mk.injEq] at heq
        exact ⟨rfl, heq.1.symm, heq.2.1.symm, heq.2.2 ▸ mem_reverse.1 hid⟩
      · rintro ⟨-, rfl, rfl, hk⟩
        exact ⟨k, mem_reverse.2 hk, rfl⟩
    · rw [hfinish, if_pos rfl]
      change (L.reverse.foldl (fun batch documentId =>
        batch.deleteNode m.fromAccountId documentId) s.batch).vanished ++ _ = _
      rw [vanished_foldl_deleteNode, hinv.vanished]
      rfl
    · rw [hfinish, writesTo_logVanishedItem, writesTo_withAccountId, writesTo_foldl_deleteNode]
      by_cases ha : m.fromAccountId = a
      · rw [if_pos ha, if_pos ⟨rfl, ha⟩]
      · rw [if_neg ha, if_neg fun h => ha h.2]

theorem node_assignDocumentIds (store : FileStore) (accountId numIds a : ℕ) :
    ((assignDocumentIds store accountId numIds).2 a).node = (store a).node ∧
      ((assignDocumentIds store accountId numIds).2 a).lastId =
        (store a).lastId + if a = accountId then numIds else 0 := by
  by_cases ha : a = accountId
  · subst ha
    have hself : (assignDocumentIds store a numIds).2 a =
        { store a with lastId := (store a).lastId + numIds } := update_self _ _ _
    rw [hself, if_pos rfl]
    exact ⟨rfl, rfl⟩
  · have hother : (assignDocumentIds store accountId numIds).2 a = store a :=
      update_of_ne ha _ _
    rw [hother, if_neg ha]
    exact ⟨rfl, rfl⟩

/-- **Copying the files at and below the source, and deleting them if it is a move to another
account.** -/
theorem CopyInv.copied (hready : Ready m store base name node)
    (hlist : CopyList m (store m.fromAccountId) infinityCopy L)
    (hlast : last = (store m.toAccountId).lastId + L.length)
    (hinv : CopyInv m store name deleteSource last L s)
    (haccounts : deleteSource → m.fromAccountId ≠ m.toAccountId) :
    Copied m (reaches infinityCopy) deleteSource store
      (commitBatch (assignDocumentIds store m.destination.accountId L.length).2 (s.finish m))
      (s.finish m) fun d k => find (d + 1) s.idMap = some (k + 1) := by
  have hfinish := hinv.finish hlist
  obtain ⟨after, hafter⟩ : ∃ after, after = commitBatch
      (assignDocumentIds store m.destination.accountId L.length).2 (s.finish m) := ⟨_, rfl⟩
  rw [← hafter]
  have hnode : ∀ a, (after a).node =
      applyWrites (store a).node ((s.finish m).writesTo a) := by
    intro a
    rw [hafter, (node_commit _ _ a).1, (node_assignDocumentIds store _ _ a).1]
  have hlastId : ∀ a, (after a).lastId =
      (store a).lastId + if a = m.toAccountId then L.length else 0 := by
    intro a
    rw [hafter, (node_commit _ _ a).2, (node_assignDocumentIds store _ _ a).2, hready.account]
  have hto : (after m.toAccountId).node = copiesIn m store s := by
    rw [hnode, hfinish.writesTo, if_neg fun h => haccounts h.1 h.2, append_nil]
    rfl
  have hfrom : deleteSource → ∀ k, (after m.fromAccountId).node k =
      if k ∈ L then none else (store m.fromAccountId).node k := by
    intro hdelete k
    rw [hnode, hfinish.writesTo, if_pos ⟨hdelete, rfl⟩,
      hinv.only _ (Ne.symm (haccounts hdelete)), nil_append, applyWrites_none]
    by_cases hk : k ∈ L
    · rw [if_pos (mem_reverse.2 hk), if_pos hk]
    · rw [if_neg (mt mem_reverse.1 hk), if_neg hk]
  have hcopied : ∀ {d k}, find (d + 1) s.idMap = some (k + 1) → d ∈ L := by
    intro d k hk
    by_contra hd
    cases hk.symm.trans (hinv.unmapped_of_notMem d hd)
  have hsource : ∀ {d rest}, d ∈ L →
      PathOf (store m.fromAccountId) d (m.fromResourceName ++ rest) →
      reaches infinityCopy rest := by
    intro d rest hd hpath
    obtain ⟨n, hn⟩ := hpath.stored
    obtain ⟨rest', hpath', hreach⟩ := hlist.below d hd n hn
    rw [append_cancel_left (hpath.unique hpath')]
    exact hreach
  have hnext := hinv.next
  have hsourceTree := hready.tree m.fromAccountId
  -- In the source's account the paths below the source go.
  have hgone : deleteSource → ∀ k path, PathOf (store m.fromAccountId) k path →
      ¬ m.fromResourceName <+: path →
      (after m.fromAccountId).node k = (store m.fromAccountId).node k := by
    intro hdelete k path hpath hnot
    rw [hfrom hdelete, if_neg]
    intro hk
    obtain ⟨n, hn⟩ := hpath.stored
    obtain ⟨rest, hpath', -⟩ := hlist.below k hk n hn
    exact hnot (hpath.unique hpath' ▸ prefix_append _ rest)
  have hsourceGone : deleteSource →
      (after m.fromAccountId).node m.fromResource.documentId = none := by
    intro hdelete
    obtain ⟨tail, htail⟩ := hlist.head
    rw [hfrom hdelete, if_pos (htail ▸ (.head _))]
  have hfromPaths : deleteSource → ∀ k q, PathOf (after m.fromAccountId) k q ↔
      PathOf (store m.fromAccountId) k q ∧ ¬ m.fromResourceName <+: q := by
    intro hdelete k q
    refine hasPath_remove (hsourceTree.only hready.source) (hsourceGone hdelete) (fun k => ?_)
      (hgone hdelete) hready.source.ne_nil
    rw [hfrom hdelete]
    by_cases hk : k ∈ L
    · exact .inr (if_pos hk)
    · exact .inl (if_neg hk)
  refine ⟨fun d rest hpath hreach => ?_, fun d k hk => ?_, fun d k hk => ?_,
    fun a change k => ?_, ?_, fun k q => ?_, fun hcontainer => ?_,
    fun hforest => ?_, hfromPaths, fun hdelete hall => ?_,
    fun hdelete hforest k rest hpath => ?_, fun a hne hdelete => ?_⟩
  · exact hinv.mapped d (hlist.complete d rest hpath hreach)
  · obtain ⟨rest, hpath⟩ := hinv.below d (hcopied hk)
    exact ⟨rest, hpath, hsource (hcopied hk) hpath⟩
  · refine fresh_of_bounded (hready.tree _) ?_
    have := hinv.fresh d k hk
    omega
  · rw [hfinish.changes, hinv.changes]
    refine or_congr_right (and_congr_right fun _ => and_congr_right fun _ =>
      and_congr_right fun _ => ⟨fun hk => hinv.mapped k hk, ?_⟩)
    rintro ⟨k', hk'⟩
    exact hcopied hk'
  · rw [hfinish.vanished]
    cases deleteSource with
    | true | false => rfl
  · unfold PathOf
    rw [hto, hinv.paths k q]
  · refine ⟨hto ▸ hinv.forest hcontainer, hto ▸ hinv.distinct, fun k n hk => ?_⟩
    rw [hto] at hk
    have := hinv.ids k n hk
    rw [hlastId, if_pos rfl]
    omega
  · cases hdoc : m.destination.documentId with
    | none => exact hready.root hdoc
    | some p =>
      -- The copy of the source is a child of the destination's parent.
      have hdistinct : Distinct links (after m.toAccountId).node := hto ▸ hinv.distinct
      obtain ⟨tail, htail⟩ := hlist.head
      obtain ⟨k, hk⟩ := hinv.mapped m.fromResource.documentId (htail ▸ (.head _))
      have hcopy : PathOf (after m.toAccountId) k m.destinationResourceName := by
        unfold PathOf
        rw [hto]
        refine (hinv.paths k _).2 (.inr ⟨_, [], hk, ?_, (append_nil _).symm⟩)
        rw [append_nil]
        exact hready.source
      have hbase := hready.base
      rw [hdoc] at hbase
      have hparent : PathOf (after m.toAccountId) p base := by
        unfold PathOf
        rw [hto]
        exact (hinv.paths p base).2 (.inl hbase)
      obtain ⟨n, above, hn, habove, hconcat⟩ := hcopy.hangs
      obtain ⟨rfl, -⟩ := append_inj' (hready.dest.symm.trans hconcat) rfl
      obtain ⟨parent, hparentNode, hkind⟩ := hready.parent p hdoc
      cases hup : links.up n with
      | none =>
        rw [hup] at habove
        cases hparent.ne_nil habove
      | some p' =>
        rw [hup] at habove
        obtain ⟨parent', hparent', hinner⟩ := hforest.parents k n p' hn hup
        rw [HasPath.inj hdistinct habove hparent, hto, hinv.old p parent hparentNode,
          some_inj] at hparent'
        rw [hkind, hparent']
        exact hinner
  · have hsub : ∀ k n, (after m.fromAccountId).node k = some n →
        (store m.fromAccountId).node k = some n := by
      intro k n hk
      rw [hfrom hdelete] at hk
      split at hk
      · cases hk
      · exact hk
    refine ⟨hsourceTree.forest.remove (fun k hk => ?_) (hgone hdelete) fun k path hpath hpre => ?_,
      hsourceTree.distinct.of_kept hsub, fun k n hk => ?_⟩
    · rw [hfrom hdelete, hk, ite_self]
    · obtain ⟨rest, rfl⟩ := hpre
      rw [hfrom hdelete, if_pos (hlist.complete k rest hpath (hall k rest hpath))]
    · rw [hlastId]
      exact (hsourceTree.bounded k n (hsub k n hk)).trans (Nat.le_add_right _ _)
  · by_contra hnot
    obtain ⟨n, hn⟩ := hpath.stored
    have hk : k ∉ L := fun hk => hnot (hsource hk hpath)
    have hn' : (after m.fromAccountId).node k = some n := by
      rw [hfrom hdelete, if_neg hk]
      exact hn
    obtain ⟨q, hq⟩ := hforest.rooted k n hn'
    obtain ⟨hq, hpre⟩ := (hfromPaths hdelete k q).1 hq
    exact hpre (hpath.unique hq ▸ prefix_append _ rest)
  · refine ⟨?_, ?_⟩
    · rw [hnode, hfinish.writesTo, if_neg fun h => hdelete h.1 h.2.symm,
        hinv.only a (Ne.symm hne)]
      rfl
    · rw [hlastId]
      exact Nat.le_add_right _ _

end Copy

/-! ## The files that are copied -/

section Files

variable {account : FileAccount} {paths : List DavPath}

/-- **What is below a path is numbered after it.** -/
theorem CacheOf.seq_lt (h : CacheOf account paths) (htree : IsTree account) {above d : DavPath}
    (habove : above ∈ paths) (hd : d ∈ paths) (hpre : above.path <+: d.path)
    (hne : above.path ≠ d.path) : above.hierarchySeq < d.hierarchySeq := by
  obtain ⟨-, -, -, hpath⟩ := h.sound d hd
  obtain ⟨-, -, -, hpathAbove⟩ := h.sound above habove
  generalize hq : d.path = q at hpath hpre hne
  generalize hid : d.documentId = id at hpath
  induction hpath generalizing d with
  | @top id n hn hup =>
    have hnot : ¬ above.path <+: [] := fun h => hpathAbove.ne_nil (prefix_nil.1 h)
    have heq : above.path = [] ++ [links.label n] := eq_of_prefix_concat hpre hnot
    cases hne heq
  | @child id p n path hn hup hp ih =>
    obtain ⟨parent, hparent⟩ := hp.stored
    obtain ⟨dp, hdp, rfl⟩ := h.complete p parent hparent
    obtain ⟨-, -, -, hpathParent⟩ := h.sound dp hdp
    have hdpath : dp.path = path := hpathParent.unique hp
    obtain ⟨n', hn', hparentId, -⟩ := h.sound d hd
    rw [hid, hn, some_inj] at hn'
    have hlt := h.ordered d hd dp hdp (hparentId.trans (hn' ▸ hup))
    have hpre' := (prefix_concat_iff.1 hpre).resolve_left hne
    by_cases heq : above.path = path
    · have hsame : above.documentId = dp.documentId :=
        htree.only hp _ (heq ▸ hpathAbove)
      rw [h.inj above habove dp hdp hsame]
      exact hlt
    · exact (ih hdp hdpath hpre' heq rfl).trans hlt

variable {server : FileServer} {trees : ℕ → FileTree} {isMove : Bool} {m : CopyMove}
  {infinityCopy : Bool}

/-- What `copy_container` looks up, before it is sorted. -/
def chosenFiles (m : CopyMove) (infinityCopy : Bool) : List DavPath :=
  if infinityCopy then m.fromResources.subtree m.fromResourceName
  else m.fromResources.subtreeWithDepth m.fromResourceName 1

theorem mem_chosenFiles {d : DavPath} :
    d ∈ chosenFiles m infinityCopy ↔ d ∈ m.fromResources.paths ∧
      ∃ rest, d.path = m.fromResourceName ++ rest ∧ reaches infinityCopy rest := by
  unfold chosenFiles reaches
  cases infinityCopy with
  | true =>
    rw [if_pos rfl, DavResources.subtree, mem_filter, isPrefixOf_iff_prefix]
    refine and_congr_right fun _ => ⟨?_, ?_⟩
    · rintro ⟨rest, hrest⟩
      exact ⟨rest, hrest.symm, .inl rfl⟩
    · rintro ⟨rest, hrest, -⟩
      exact ⟨rest, hrest.symm⟩
  | false =>
    rw [if_neg Bool.false_ne_true, DavResources.subtreeWithDepth, mem_filter,
      Bool.and_eq_true, isPrefixOf_iff_prefix, decide_eq_true_eq]
    refine and_congr_right fun _ => ⟨?_, ?_⟩
    · rintro ⟨⟨rest, hrest⟩, hlength⟩
      rw [← hrest, length_append] at hlength
      exact ⟨rest, hrest.symm, .inr (by omega)⟩
    · rintro ⟨rest, hrest, hreach⟩
      have hlength := hreach.resolve_left Bool.false_ne_true
      refine ⟨⟨rest, hrest.symm⟩, ?_⟩
      rw [hrest, length_append]
      omega

/-- **The files at and below the source that are still stored, parents first.** -/
theorem copyList_filesToCopy
    (hvalid : Validated server (fun a => (trees a).toFileAccount) isMove m) :
    CopyList m (cleared trees m m.fromAccountId) infinityCopy (filesToCopy m infinityCopy) := by
  have htree := (trees m.fromAccountId).tree
  have hcache := hvalid.fromResources.cache
  obtain ⟨htree', hpaths, hkept⟩ := cleared_spec hvalid m.fromAccountId
  obtain ⟨sorted, hsorted⟩ : ∃ sorted, sorted = (chosenFiles m infinityCopy).insertionSort
      fun a b => a.hierarchySeq ≤ b.hierarchySeq := ⟨_, rfl⟩
  have hL : filesToCopy m infinityCopy = sorted.map (·.documentId) := by
    rw [hsorted]
    rfl
  have hperm : sorted.Perm (chosenFiles m infinityCopy) := hsorted ▸ perm_insertionSort _ _
  have hpairwise : sorted.Pairwise fun a b => a.hierarchySeq ≤ b.hierarchySeq := by
    rw [hsorted]
    exact pairwise_insertionSort _ _
  have hmem : ∀ {d}, d ∈ sorted ↔ d ∈ m.fromResources.paths ∧
      ∃ rest, d.path = m.fromResourceName ++ rest ∧ reaches infinityCopy rest :=
    hperm.mem_iff.trans mem_chosenFiles
  have hnodup : (sorted.map (·.documentId)).Nodup := by
    refine (hperm.map _).nodup_iff.2 (hcache.nodup.sublist (List.Sublist.map _ ?_))
    unfold chosenFiles
    split
    · exact filter_sublist
    · exact filter_sublist
  -- What is stored has its entry in the cache.
  have hentry : ∀ {k q}, PathOf (cleared trees m m.fromAccountId) k q →
      ∃ d ∈ m.fromResources.paths, d.documentId = k ∧ d.path = q := by
    intro k q hk
    obtain ⟨hpath, -⟩ := (hpaths k q).1 hk
    obtain ⟨n, hn⟩ := hpath.stored
    obtain ⟨d, hd, rfl⟩ := hcache.complete k n hn
    obtain ⟨-, -, -, hpath'⟩ := hcache.sound d hd
    exact ⟨d, hd, rfl, hpath'.unique hpath⟩
  have hstored : ∀ {d n}, d ∈ sorted →
      (cleared trees m m.fromAccountId).node d.documentId = some n →
      PathOf (cleared trees m m.fromAccountId) d.documentId d.path := by
    intro d n hd hn
    obtain ⟨q, hq⟩ := htree'.forest.rooted _ n hn
    obtain ⟨-, -, -, hpath⟩ := hcache.sound d (hmem.1 hd).1
    exact hpath.unique ((hpaths _ q).1 hq).1 ▸ hq
  -- The source comes first.
  obtain ⟨source, hsource⟩ := hvalid.source.stored
  obtain ⟨d₀, hd₀, hid₀⟩ := hcache.complete _ source hsource
  obtain ⟨-, -, -, hpath₀⟩ := hcache.sound d₀ hd₀
  have hname₀ : d₀.path = m.fromResourceName := by
    rw [hid₀] at hpath₀
    exact hpath₀.unique hvalid.source
  have hmem₀ : d₀ ∈ sorted := hmem.2 ⟨hd₀, [], by rw [hname₀, append_nil],
    .inr (Nat.zero_le 1)⟩
  have hhead : ∃ tail, sorted = d₀ :: tail := by
    cases hcases : sorted with
    | nil =>
      rw [hcases] at hmem₀
      cases hmem₀
    | cons d tail =>
      rw [hcases] at hmem₀ hpairwise
      rcases mem_cons.1 hmem₀ with rfl | htail
      · exact ⟨tail, rfl⟩
      · have hle := rel_of_pairwise_cons hpairwise htail
        obtain ⟨hd, rest, hrest, -⟩ := hmem.1 (hcases ▸ mem_cons_self)
        by_cases heq : d₀.path = d.path
        · obtain ⟨-, -, -, hpath⟩ := hcache.sound d hd
          rw [hcache.inj d₀ hd₀ d hd (htree.only hpath _ (heq ▸ hpath₀))]
          exact ⟨tail, rfl⟩
        · have hpre : d₀.path <+: d.path := ⟨rest, by rw [hrest, hname₀]⟩
          have hlt := hcache.seq_lt htree hd₀ hd hpre heq
          omega
  obtain ⟨tail, htail⟩ := hhead
  have hheadL : filesToCopy m infinityCopy =
      m.fromResource.documentId :: tail.map (·.documentId) := by
    rw [hL, htail, map_cons, hid₀]
  refine ⟨hL ▸ hnodup, ⟨_, hheadL⟩, fun k hk n hn => ?_, fun k rest hk hreach => ?_,
    fun pre k post hsplit hpre n hn => ?_⟩
  · rw [hL] at hk
    obtain ⟨d, hd, rfl⟩ := mem_map.1 hk
    obtain ⟨-, rest, hrest, hreach⟩ := hmem.1 hd
    exact ⟨rest, hrest ▸ hstored hd hn, hreach⟩
  · obtain ⟨d, hd, rfl, hpath⟩ := hentry hk
    rw [hL]
    exact mem_map_of_mem (hmem.2 ⟨hd, rest, hpath, hreach⟩)
  · obtain ⟨before, after, rfl, rfl, hafter⟩ := map_eq_append_iff.1 (hL.symm.trans hsplit)
    obtain ⟨d, after, rfl, rfl, -⟩ := map_eq_cons_iff.1 hafter
    have hd : d ∈ before ++ d :: after := mem_append_right before (.head _)
    obtain ⟨hdpaths, rest, hrest, hreach⟩ := hmem.1 hd
    have hpath := hstored hd hn
    -- It is not the source, which comes first.
    have hrestNe : rest ≠ [] := by
      rintro rfl
      rw [append_nil] at hrest
      have hsame : d.documentId = m.fromResource.documentId :=
        htree.only hvalid.source _ (hrest ▸ ((hpaths _ _).1 hpath).1)
      cases before with
      | nil => exact hpre rfl
      | cons first before =>
        rw [hL, cons_append, map_cons] at hheadL
        rw [cons_append, map_cons, (cons.inj hheadL).1, ← hsame] at hnodup
        refine (nodup_cons.1 hnodup).1 (mem_map_of_mem ?_)
        exact mem_append_right before (.head _)
    obtain ⟨n', above, hn', habove, hconcat⟩ := hpath.hangs
    obtain rfl := Option.some.inj (hn'.symm.trans hn)
    obtain ⟨init, last, rfl⟩ := (eq_nil_or_concat' rest).resolve_left hrestNe
    rw [hrest, ← append_assoc] at hconcat
    have hinit : m.fromResourceName ++ init = above := (append_inj' hconcat rfl).1
    cases hup : links.up n' with
    | none =>
      rw [hup] at habove
      exact absurd (hinit.trans habove)
        (append_ne_nil_of_left_ne_nil hvalid.source.ne_nil init)
    | some p =>
      rw [hup] at habove
      obtain ⟨dp, hdp, hidp, hpathp⟩ := hentry habove
      have hmemp : dp ∈ before ++ d :: after := by
        refine hmem.2 ⟨hdp, init, hpathp.trans hinit.symm, hreach.imp_right fun h => ?_⟩
        rw [length_append, length_singleton] at h
        omega
      obtain ⟨n'', hn'', hparentId, -⟩ := hcache.sound d hdpaths
      have hsame : n'' = n' :=
        Option.some.inj (hn''.symm.trans ((hkept _ _ hpath).symm.trans hn))
      have hlt := hcache.ordered d hdpaths dp hdp (hparentId.trans (hsame ▸ hidp ▸ hup))
      refine ⟨p, hup, mem_map.2 ⟨dp, ?_, hidp⟩⟩
      refine (mem_append.1 hmemp).resolve_right fun h => ?_
      rcases mem_cons.1 h with rfl | h
      · cases lt_irrefl _ hlt
      · have hle := rel_of_pairwise_cons (pairwise_append.1 hpairwise).2.1 h
        omega

theorem exists_missing {source : FileAccount} {destination : Destination} {deleteSource : Bool}
    {L : List ℕ} {s : CopyState}
    (h : L.foldlM (copyFile source destination deleteSource) s = none) :
    ∃ d ∈ L, source.node d = none := by
  induction L generalizing s with
  | nil => cases h
  | cons d L ih =>
    rw [foldlM_cons] at h
    cases hn : source.node d with
    | none => exact ⟨d, .head _, hn⟩
    | some n =>
      unfold copyFile at h
      rw [hn] at h
      obtain ⟨d', hd', hnone⟩ := ih h
      exact ⟨d', mem_cons_of_mem d hd', hnone⟩

/-- Clearing the destination takes away some of what is to be copied. -/
def CopyMove.ClearsSource (m : CopyMove) (reach : FilePath → Prop) : Prop :=
  m.fromAccountId = m.toAccountId ∧ m.isOverwrite ∧
    ∃ rest, m.destinationResourceName = m.fromResourceName ++ rest ∧ reach rest

theorem mem_filesToCopy {d : DavPath} (hd : d ∈ m.fromResources.paths) {rest : FilePath}
    (hpath : d.path = m.fromResourceName ++ rest) (hreach : reaches infinityCopy rest) :
    d.documentId ∈ filesToCopy m infinityCopy := by
  have hperm := (perm_insertionSort (fun a b : DavPath => a.hierarchySeq ≤ b.hierarchySeq)
    (chosenFiles m infinityCopy)).map (·.documentId)
  exact hperm.mem_iff.2 (mem_map_of_mem (mem_chosenFiles.2 ⟨hd, rest, hpath, hreach⟩))

theorem exists_of_mem_filesToCopy {k : ℕ} (hk : k ∈ filesToCopy m infinityCopy) :
    ∃ d ∈ m.fromResources.paths, d.documentId = k ∧
      ∃ rest, d.path = m.fromResourceName ++ rest ∧ reaches infinityCopy rest := by
  have hperm := (perm_insertionSort (fun a b : DavPath => a.hierarchySeq ≤ b.hierarchySeq)
    (chosenFiles m infinityCopy)).map (·.documentId)
  obtain ⟨d, hd, hid⟩ := mem_map.1 (hperm.mem_iff.1 hk)
  obtain ⟨hmem, hrest⟩ := mem_chosenFiles.1 hd
  exact ⟨d, hmem, hid, hrest⟩

theorem clearsSource_of_missing
    (hvalid : Validated server (fun a => (trees a).toFileAccount) isMove m) {k : ℕ}
    (hk : k ∈ filesToCopy m infinityCopy)
    (hnone : (cleared trees m m.fromAccountId).node k = none) :
    m.ClearsSource (reaches infinityCopy) := by
  obtain ⟨d, hd, rfl, rest, hrest, hreach⟩ := exists_of_mem_filesToCopy hk
  obtain ⟨n, hn, -, hpath⟩ := hvalid.fromResources.cache.sound d hd
  rw [node_cleared hvalid] at hnone
  split at hnone
  · rename_i hover
    obtain ⟨hover, hsame, hdelete⟩ := hover
    obtain ⟨q, hq, hpre⟩ := (mem_filesToDelete hvalid.toResources).1 hdelete
    rw [hsame] at hq
    rw [hq.unique hpath, hrest] at hpre
    -- The destination is not above the source, so it is below it.
    have hor := prefix_or_prefix_of_prefix hpre ( prefix_append m.fromResourceName rest)
    obtain ⟨r, hr⟩ := hor.resolve_left (hvalid.apart hsame.symm)
    refine ⟨hsame.symm, hover, r, hr.symm, hreach.imp_right fun h => ?_⟩
    have hlength := hpre.length_le
    rw [← hr, length_append, length_append] at hlength
    omega
  · cases hn.symm.trans hnone

/-- **What `copy_container` makes of the accounts, unless clearing the destination has taken away
some of what it copies.** -/
theorem copyContainer_spec
    (hvalid : Validated server (fun a => (trees a).toFileAccount) isMove m)
    (hclear : m.isOverwrite ∨ m.deleteDestination = none) {depth : Depth} (hdepth : depth ≠ .Zero)
    {deleteSource : Bool} (haccounts : deleteSource → m.fromAccountId ≠ m.toAccountId) :
    (¬ m.ClearsSource (reaches (decide (depth ≠ .One))) ∧ ∃ after batch copyOf,
      copyContainer m depth deleteSource (cleared trees m) = ⟨.CREATED, after, [batch]⟩ ∧
      Copied m (reaches (decide (depth ≠ .One))) deleteSource (cleared trees m) after batch
        copyOf) ∨
    (m.ClearsSource (reaches (decide (depth ≠ .One))) ∧ ∃ after,
      copyContainer m depth deleteSource (cleared trees m) = .failed .NOT_FOUND after) := by
  obtain ⟨base, name, node, hready, -, -⟩ := ready_cleared hvalid
  have hlist : CopyList m (cleared trees m m.fromAccountId) (decide (depth ≠ .One))
      (filesToCopy m (decide (depth ≠ .One))) := copyList_filesToCopy hvalid
  have hfree := free_cleared hvalid hclear
  obtain ⟨L, hL⟩ : ∃ L, L = filesToCopy m (decide (depth ≠ .One)) := ⟨_, rfl⟩
  rw [← hL] at hlist
  obtain ⟨assigned, hassigned⟩ : ∃ assigned, assigned =
      assignDocumentIds (cleared trees m) m.destination.accountId L.length := ⟨_, rfl⟩
  have hsource : copyFile (assigned.2 m.fromAccountId) m.destination deleteSource =
      copyFile (cleared trees m m.fromAccountId) m.destination deleteSource := by
    unfold copyFile
    rw [hassigned, (node_assignDocumentIds _ _ _ _).1]
  have hstart : assigned.1 = (cleared trees m m.toAccountId).lastId + L.length := by
    rw [hassigned, hready.account]
    rfl
  unfold copyContainer
  rw [if_neg hdepth]
  dsimp only
  rw [← hL, ← hassigned, hsource]
  cases hrun : L.foldlM
      (copyFile (cleared trees m m.fromAccountId) m.destination deleteSource)
      ⟨{}, [], [], assigned.1, m.destination.newName⟩ with
  | none =>
    obtain ⟨d, hd, hnone⟩ := exists_missing hrun
    exact .inr ⟨clearsSource_of_missing hvalid (hL ▸ hd) hnone, assigned.2, rfl⟩
  | some s =>
    have hinv := CopyInv.run hready hlist hfree hstart (nil_append L).symm
      (copyInv_nil hready) hrun
    have hcopied := hinv.copied hready hlist hstart haccounts
    rw [← hassigned] at hcopied
    refine .inl ⟨?_, _, s.finish m, _, rfl, hcopied⟩
    rintro ⟨hsame, hover, rest, hdest, hreach⟩
    -- What is at the destination would have been copied although it was cleared.
    obtain ⟨d, hd⟩ := existing_of_isOverwrite hover
    obtain ⟨-, -, id, n, -, hid, hn, -⟩ := hvalid.existing d hd
    rw [← hsame] at hid hn
    obtain ⟨entry, hentry, rfl⟩ := hvalid.fromResources.cache.complete id n hn
    obtain ⟨-, -, -, hpath⟩ := hvalid.fromResources.cache.sound entry hentry
    have hmem := mem_filesToCopy hentry ((hpath.unique hid).trans hdest) hreach
    obtain ⟨rest', hstored⟩ := hinv.below _ (hL ▸ hmem)
    obtain ⟨hbefore, hnot⟩ := ((cleared_spec hvalid m.fromAccountId).2.1 _ _).1 hstored
    exact hnot ⟨hover, hsame.symm, hbefore.unique hid ▸ prefix_rfl⟩

end Files

end MailServer.Dav
