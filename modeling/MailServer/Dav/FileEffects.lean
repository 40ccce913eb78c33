import MailServer.Dav.FileCopyMove

/-!
# What the file operations do to the tree

What clearing the destination and each of the operations (`dav/src/file/copy_move.rs`) make of the
paths of the file nodes, account by account.

Principal results: `cleared_spec`, `relocated_paths`, `relocated_below_paths`, `relocated_forest`,
`relocated_tree`, `inserted_paths`, `removed_file`, `overwritten_file`.
-/

namespace MailServer.Dav

open InsertionMap ParentForest List Function

variable {account account' : FileAccount} {path : FilePath}

/-! ## Writes of a batch -/

section Writes

variable {batch : FileBatch} {accountId documentId a : ℕ}

theorem writesTo_empty : (({} : FileBatch)).writesTo a = [] := rfl

theorem writesTo_change (change : ItemChange) (value : Option FileNode) :
    (batch.change accountId documentId change value).writesTo a =
      batch.writesTo a ++ if accountId = a then [(documentId, value)] else [] := by
  unfold FileBatch.writesTo FileBatch.change
  rw [filter_append, map_append]
  congr 1
  by_cases h : accountId = a
  · rw [if_pos h, filter_singleton, h, decide_eq_true rfl]
    rfl
  · rw [if_neg h, filter_singleton, decide_eq_false h]
    rfl

theorem writesTo_logVanishedItem (item : VanishedPath) :
    (batch.logVanishedItem item).writesTo a = batch.writesTo a := by
  unfold FileBatch.logVanishedItem
  split
  · rfl
  · rfl

theorem writesTo_withAccountId : (batch.withAccountId accountId).writesTo a = batch.writesTo a :=
  rfl

theorem applyWrites_append (node : ℕ → Option FileNode) (ws ws' : List (ℕ × Option FileNode)) :
    applyWrites node (ws ++ ws') = applyWrites (applyWrites node ws) ws' :=
  foldl_append

theorem applyWrites_none (node : ℕ → Option FileNode) (ids : List ℕ) (k : ℕ) :
    applyWrites node (ids.map (·, none)) k = if k ∈ ids then none else node k := by
  induction ids generalizing node with
  | nil => exact (if_neg not_mem_nil).symm
  | cons id ids ih =>
    have hstep : applyWrites node ((id :: ids).map (·, none)) =
        applyWrites (update node id none) (ids.map (·, none)) := rfl
    rw [hstep, ih]
    by_cases hk : k ∈ ids
    · rw [if_pos hk, if_pos (mem_cons_of_mem id hk)]
    · rw [if_neg hk]
      by_cases hid : k = id
      · rw [hid, update_self, if_pos (.head _)]
      · rw [update_of_ne hid, if_neg fun h => (mem_cons.1 h).elim hid hk]

theorem node_commit_change (store : FileStore) (accountId documentId a : ℕ) (change : ItemChange)
    (value : Option FileNode) (hempty : batch.writes = []) :
    (commitBatch store (batch.change accountId documentId change value) a).node =
      if accountId = a then update (store a).node documentId value
      else (store a).node := by
  have hnone : batch.writesTo a = [] := by
    unfold FileBatch.writesTo
    rw [hempty]
    rfl
  rw [(node_commit store _ a).1, writesTo_change, hnone]
  split
  · rfl
  · rfl

theorem writes_foldl_deleteNode (accountId a : ℕ) (ids : List ℕ) (stored : ℕ → Bool)
    (batch : FileBatch) :
    (ids.foldl (fun batch id => if stored id then batch.deleteNode accountId id else batch)
      batch).writesTo a =
      batch.writesTo a ++
        if accountId = a then (ids.filter stored).map (·, none) else [] := by
  induction ids generalizing batch with
  | nil =>
    rw [foldl_nil, filter_nil, map_nil, ite_self, append_nil]
  | cons id ids ih =>
    rw [foldl_cons, ih]
    by_cases hid : stored id
    · rw [if_pos hid, filter_cons_of_pos hid]
      unfold FileBatch.deleteNode
      rw [writesTo_change, append_assoc]
      by_cases ha : accountId = a
      · rw [if_pos ha, if_pos ha, if_pos ha]
        rfl
      · rw [if_neg ha, if_neg ha, if_neg ha]
        rfl
    · rw [if_neg hid, filter_cons_of_neg hid]

theorem destroyFiles_writesTo (store : FileStore) (ids : List ℕ) (path : Option VanishedPath) :
    (destroyFiles store accountId ids path).writesTo a =
      if accountId = a then
        (ids.filter fun id => ((store accountId).node id).isSome).map (·, none)
      else [] := by
  have hfold := writes_foldl_deleteNode accountId a ids
    (fun id => ((store accountId).node id).isSome) ((({} : FileBatch)).withAccountId accountId)
  unfold destroyFiles
  cases path with
  | none => exact hfold
  | some path =>
    simp only
    split
    · exact hfold
    · rw [writesTo_logVanishedItem]
      exact hfold

/-- **Destroying files clears those that are stored.** -/
theorem node_destroyFiles (store : FileStore) (ids : List ℕ) (path : Option VanishedPath) (k : ℕ) :
    (commitBatch store (destroyFiles store accountId ids path) a).node k =
      if accountId = a ∧ k ∈ ids then none else (store a).node k := by
  rw [(node_commit store _ a).1, destroyFiles_writesTo]
  by_cases ha : accountId = a
  · subst ha
    rw [if_pos rfl, applyWrites_none]
    by_cases hk : k ∈ ids
    · refine Eq.trans ?_ (if_pos ⟨rfl, hk⟩).symm
      cases hnode : (store accountId).node k with
      | none => exact ite_self none
      | some node =>
        have hstored : ((store accountId).node k).isSome := by rw [hnode]; rfl
        exact if_pos (mem_filter.2 ⟨hk, hstored⟩)
    · refine Eq.trans (if_neg fun h => hk ?_) (if_neg fun h => hk h.2).symm
      exact (mem_filter.1 h).1
  · rw [if_neg ha, if_neg fun h => ha h.1]
    rfl

end Writes

/-! ## Trees -/

theorem IsTree.congr (h : IsTree account)
    (hnode : account'.node = account.node) (hlast : account.lastId ≤ account'.lastId) :
    IsTree account' where
  forest := hnode ▸ h.forest
  distinct := hnode ▸ h.distinct
  bounded := fun id node hid => (h.bounded id node (hnode ▸ hid)).trans hlast

theorem IsTree.only {account : FileAccount} (h : IsTree account) {id : ℕ}
    (hid : PathOf account id path) (j : ℕ) (hj : PathOf account j path) : j = id :=
  hj.inj h.distinct hid

theorem parentId_succ (id : ℕ) (node : FileNode) (h : node.parentId = id + 1) :
    node.parent = some id := by
  unfold FileNode.parent
  rw [h, if_pos (Nat.succ_pos id), Nat.add_sub_cancel]

theorem parentId_place (destination : Destination) (node : FileNode) :
    (destination.place node).parent = destination.documentId := by
  unfold Destination.place Destination.parentId
  cases destination.documentId with
  | none => rfl
  | some id => exact parentId_succ id _ rfl

theorem mem_filesToDelete {resources : DavResources} {account : FileAccount}
    (h : resources.Of account) {k : ℕ} :
    k ∈ filesToDelete resources path ↔ ∃ q, PathOf account k q ∧ path <+: q := by
  rw [← mem_subtree h]
  exact ((perm_insertionSort _ _).map _).mem_iff

/-- **Deleting what is at and below a path takes away those paths, and leaves a tree.** -/
theorem removed_subtree {resources : DavResources}
    {path : FilePath} {id : ℕ} (htree : IsTree account) (hof : resources.Of account)
    (hid : PathOf account id path) (hnode : ∀ k, account'.node k =
      if k ∈ filesToDelete resources path then none else account.node k)
    (hlast : account.lastId ≤ account'.lastId) :
    IsTree account' ∧ (∀ k q, PathOf account' k q ↔ PathOf account k q ∧ ¬ path <+: q) ∧
      ∀ k q, PathOf account k q → ¬ path <+: q → account'.node k = account.node k := by
  have hkept : ∀ k q, PathOf account k q → ¬ path <+: q → account'.node k = account.node k := by
    intro k q hpath hnot
    rw [hnode, if_neg]
    intro hk
    obtain ⟨q', hq', hpre⟩ := (mem_filesToDelete hof).1 hk
    exact hnot (hpath.unique hq' ▸ hpre)
  have hgone : ∀ k q, PathOf account k q → path <+: q → account'.node k = none := by
    intro k q hpath hpre
    rw [hnode, if_pos ((mem_filesToDelete hof).2 ⟨q, hpath, hpre⟩)]
  have hnone : ∀ k, account.node k = none → account'.node k = none := by
    intro k hk
    rw [hnode, hk, ite_self]
  have hsub : ∀ k node, account'.node k = some node → account.node k = some node := by
    intro k node hk
    rw [hnode] at hk
    split at hk
    · cases hk
    · exact hk
  refine ⟨⟨htree.forest.remove hnone hkept hgone, htree.distinct.of_kept hsub,
    fun k node hk => (htree.bounded k node (hsub k node hk)).trans hlast⟩, fun k q => ?_, hkept⟩
  refine hasPath_remove (htree.only hid) (hgone id _ hid prefix_rfl) (fun k => ?_) hkept
    hid.ne_nil
  rw [hnode]
  by_cases hk : k ∈ filesToDelete resources path
  · exact .inr (if_pos hk)
  · exact .inl (if_neg hk)

/-! ## Clearing the destination -/

section Cleared

variable {server : FileServer} {trees : ℕ → FileTree} {isMove : Bool} {m : CopyMove}

/-- The store once the destination is cleared. -/
def cleared (trees : ℕ → FileTree) (m : CopyMove) : FileStore :=
  commitBatch (fun a => (trees a).toFileAccount)
    (m.overwriteBatch fun a => (trees a).toFileAccount)

theorem existing_of_isOverwrite (h : m.isOverwrite) :
    ∃ destination, m.deleteDestination = some destination := by
  unfold CopyMove.isOverwrite at h
  cases hd : m.deleteDestination with
  | none =>
    rw [hd] at h
    cases h
  | some destination => exact ⟨destination, rfl⟩

theorem node_cleared (hvalid : Validated server (fun a => (trees a).toFileAccount) isMove m)
    (a k : ℕ) :
    (cleared trees m a).node k =
      if m.isOverwrite ∧ m.toAccountId = a ∧
          k ∈ filesToDelete m.toResources m.destinationResourceName then none
      else (trees a).node k := by
  unfold cleared CopyMove.overwriteBatch
  by_cases hover : m.isOverwrite
  · rw [if_pos hover, node_destroyFiles, hvalid.account]
    by_cases h : m.toAccountId = a ∧
        k ∈ filesToDelete m.toResources m.destinationResourceName
    · rw [if_pos h, if_pos ⟨hover, h⟩]
    · rw [if_neg h, if_neg fun h' => h h'.2]
  · rw [if_neg hover, if_neg fun h => hover h.1]
    rfl

theorem last_id_cleared (a : ℕ) : (cleared trees m a).lastId = (trees a).lastId :=
  (node_commit _ _ a).2

/-- **Clearing the destination takes away the paths at and below it, and leaves trees.** -/
theorem cleared_spec (hvalid : Validated server (fun a => (trees a).toFileAccount) isMove m)
    (a : ℕ) :
    IsTree (cleared trees m a) ∧
      (∀ k q, PathOf (cleared trees m a) k q ↔ PathOf (trees a).toFileAccount k q ∧
        ¬(m.isOverwrite ∧ m.toAccountId = a ∧ m.destinationResourceName <+: q)) ∧
      (∀ k q, PathOf (cleared trees m a) k q → (cleared trees m a).node k = (trees a).node k) := by
  have htree := (trees a).tree
  by_cases hover : m.isOverwrite ∧ m.toAccountId = a
  · obtain ⟨hover, rfl⟩ := hover
    have hnode : ∀ k, (cleared trees m m.toAccountId).node k =
        if k ∈ filesToDelete m.toResources m.destinationResourceName then none
        else (trees m.toAccountId).node k := by
      intro k
      rw [node_cleared hvalid]
      by_cases hk : k ∈ filesToDelete m.toResources m.destinationResourceName
      · rw [if_pos ⟨hover, rfl, hk⟩, if_pos hk]
      · rw [if_neg fun h => hk h.2.2, if_neg hk]
    obtain ⟨d, hd⟩ := existing_of_isOverwrite hover
    obtain ⟨-, -, id, _, -, hid, -, -⟩ := hvalid.existing d hd
    obtain ⟨htree', hpaths, hkept⟩ :=
      removed_subtree htree hvalid.toResources hid hnode (last_id_cleared _).ge
    refine ⟨htree', fun k q => ?_, fun k q hk => ?_⟩
    · rw [hpaths]
      exact and_congr_right fun _ => not_congr ⟨fun h => ⟨hover, rfl, h⟩, fun h => h.2.2⟩
    · obtain ⟨hpath, hnot⟩ := (hpaths k q).1 hk
      exact hkept k q hpath hnot
  · have hnode : (cleared trees m a).node = (trees a).node := by
      funext k
      rw [node_cleared hvalid, if_neg fun h => hover ⟨h.1, h.2.1⟩]
    refine ⟨htree.congr hnode (last_id_cleared a).ge, fun k q => ?_, fun k q _ => by rw [hnode]⟩
    unfold PathOf
    rw [hnode]
    exact (and_iff_left fun h => hover ⟨h.1, h.2.1⟩).symm

/-- What an operation finds in the store. -/
structure Ready (m : CopyMove) (store : FileStore) (base : FilePath) (name : String)
    (node : FileNode) : Prop where
  tree : ∀ a, IsTree (store a)
  account : m.destination.accountId = m.toAccountId
  source : PathOf (store m.fromAccountId) m.fromResource.documentId m.fromResourceName
  sourceNode : (store m.fromAccountId).node m.fromResource.documentId = some node
  kind : m.fromResource.isContainer = node.isContainer
  newName : m.destination.newName = some name
  dest : m.destinationResourceName = base ++ [name]
  base : Hangs links (store m.toAccountId).node m.destination.documentId base
  apart : m.fromAccountId = m.toAccountId →
    ¬ m.destinationResourceName <+: m.fromResourceName
  parent : ∀ p, m.destination.documentId = some p → ∃ n,
    (store m.toAccountId).node p = some n ∧ m.destination.isContainer = n.isContainer
  root : m.destination.documentId = none → m.destination.isContainer

theorem concat_not_above (base : FilePath) (name : String) : ¬ base ++ [name] <+: base := by
  intro h
  have hlength := h.length_le
  rw [length_append, length_singleton] at hlength
  omega

/-- **Clearing the destination leaves what the operation needs.** -/
theorem ready_cleared (hvalid : Validated server (fun a => (trees a).toFileAccount) isMove m) :
    ∃ base name node, Ready m (cleared trees m) base name node ∧
      (trees m.fromAccountId).node m.fromResource.documentId = some node ∧
      m.fromResource.parentId = node.parent := by
  obtain ⟨base, name, hname, hdest, hbase⟩ := hvalid.place
  obtain ⟨node, hnode, hkind, hparent⟩ := hvalid.sourceNode
  have hbelow : ∀ {p}, PathOf (trees m.toAccountId).toFileAccount p base →
      PathOf (cleared trees m m.toAccountId) p base := fun hp =>
    ((cleared_spec hvalid m.toAccountId).2.1 _ _).2
      ⟨hp, fun h => concat_not_above base name (hdest ▸ h.2.2)⟩
  have hsource : PathOf (cleared trees m m.fromAccountId) m.fromResource.documentId
      m.fromResourceName :=
    ((cleared_spec hvalid m.fromAccountId).2.1 _ _).2
      ⟨hvalid.source, fun h => hvalid.apart h.2.1.symm h.2.2⟩
  refine ⟨base, name, node, ⟨fun a => (cleared_spec hvalid a).1, hvalid.account, hsource, ?_,
    hkind, hname, hdest, ?_, hvalid.apart, fun p hp => ?_, hvalid.root⟩, hnode, hparent⟩
  · exact ((cleared_spec hvalid m.fromAccountId).2.2 _ _ hsource).trans hnode
  · cases hdoc : m.destination.documentId with
    | none =>
      rw [hdoc] at hbase
      exact hbase
    | some p =>
      rw [hdoc] at hbase
      exact hbelow hbase
  · obtain ⟨parent, hparentNode, hparentKind⟩ := hvalid.parent p hp
    rw [hp] at hbase
    exact ⟨parent, ((cleared_spec hvalid m.toAccountId).2.2 _ _ (hbelow hbase)).trans
      hparentNode, hparentKind⟩

theorem free_cleared (hvalid : Validated server (fun a => (trees a).toFileAccount) isMove m)
    (h : m.isOverwrite ∨ m.deleteDestination = none) (k : ℕ) :
    ¬ PathOf (cleared trees m m.toAccountId) k m.destinationResourceName := by
  intro hk
  obtain ⟨hpath, hnot⟩ := ((cleared_spec hvalid m.toAccountId).2.1 _ _).1 hk
  rcases h with hover | hnone
  · exact hnot ⟨hover, rfl, prefix_rfl⟩
  · exact hvalid.free hnone k hpath

end Cleared

/-! ## Moving within an account -/

section Operations

variable {m : CopyMove} {store store' : FileStore} {base : FilePath} {name : String}
  {node placed : FileNode}

/-- One node of an account is written and the counter of document ids goes no lower. -/
def Writes (store store' : FileStore) (accountId documentId : ℕ) (node : FileNode) : Prop :=
  ∀ a, (store' a).node = (if accountId = a then
      update (store a).node documentId (some node) else (store a).node) ∧
    (store a).lastId ≤ (store' a).lastId

/-- The node has the place of the destination and is of the source's kind. -/
structure Placed (m : CopyMove) (name : String) (node placed : FileNode) : Prop where
  up : placed.parent = m.destination.documentId
  label : placed.name = name
  kind : placed.isContainer = node.isContainer

theorem placed_place (hready : Ready m store base name node) :
    Placed m name node (m.destination.place node) where
  up := parentId_place m.destination node
  label := by
    unfold Destination.place
    rw [hready.newName]
    rfl
  kind := rfl

theorem hangs_placed (hready : Ready m store base name node) (hplaced : Placed m name node placed) :
    Hangs links (store m.toAccountId).node (links.up placed) base := by
  rw [show links.up placed = placed.parent from rfl, hplaced.up]
  exact hready.base

theorem dest_placed (hready : Ready m store base name node) (hplaced : Placed m name node placed) :
    m.destinationResourceName = base ++ [links.label placed] := by
  rw [hready.dest, show links.label placed = placed.name from rfl, hplaced.label]

theorem prefix_base_iff (hready : Ready m store base name node)
    (hsame : m.fromAccountId = m.toAccountId) :
    m.fromResourceName <+: m.destinationResourceName ↔ m.fromResourceName <+: base := by
  rw [hready.dest, prefix_concat_iff]
  refine or_iff_right fun heq => hready.apart hsame ?_
  rw [hready.dest, heq]

/-- A node that is stored elsewhere than below itself leaves a forest only if it goes to a folder.
-/
theorem container_of_forest (hready : Ready m store base name node)
    (hplaced : Placed m name node placed) {id : ℕ} {node'}
    (hnode : node' = update (store m.toAccountId).node id (some placed))
    (hforest : Forest links (fun node => node.isContainer) node')
    (hself : m.destination.documentId ≠ some id) : m.destination.isContainer := by
  cases hdoc : m.destination.documentId with
  | none => exact hready.root hdoc
  | some p =>
    obtain ⟨parent, hparent, hkind⟩ := hready.parent p hdoc
    have hne : p ≠ id := by
      rintro rfl
      exact hself hdoc
    have hplace : node' id = some placed := by
      rw [hnode, update_self]
    obtain ⟨parent', hparent', hinner⟩ :=
      hforest.parents _ _ p hplace (hplaced.up.trans hdoc)
    rw [hnode, update_of_ne hne, hparent, Option.some_inj] at hparent'
    rw [hkind, hparent']
    exact hinner

section Relocate

variable (hready : Ready m store base name node) (hsame : m.fromAccountId = m.toAccountId)
  (hplaced : Placed m name node placed)
  (hwrites : Writes store store' m.fromAccountId m.fromResource.documentId placed)

include hready hsame hplaced hwrites

/-- **A move within an account takes along what is below the source.** -/
theorem relocated_paths (hnot : ¬ m.fromResourceName <+: m.destinationResourceName)
    (k : ℕ) (q : FilePath) :
    PathOf (store' m.toAccountId) k q ↔
      (∃ rest, PathOf (store m.toAccountId) k (m.fromResourceName ++ rest) ∧
        q = m.destinationResourceName ++ rest) ∨
      (PathOf (store m.toAccountId) k q ∧ ¬ m.fromResourceName <+: q) := by
  have hsource := hready.source
  rw [hsame] at hsource
  have hnode := (hwrites m.toAccountId).1
  rw [if_pos hsame] at hnode
  unfold PathOf
  rw [hnode, dest_placed hready hplaced]
  exact hasPath_relocate hsource ((hready.tree _).only hsource) (hangs_placed hready hplaced)
    (mt (prefix_base_iff hready hsame).2 hnot)

/-- **A move to below the source takes the source out of the tree, with what is below it.** -/
theorem relocated_below_paths (hbelow : m.fromResourceName <+: m.destinationResourceName)
    (k : ℕ) (q : FilePath) :
    PathOf (store' m.toAccountId) k q ↔
      PathOf (store m.toAccountId) k q ∧ ¬ m.fromResourceName <+: q := by
  have hsource := hready.source
  rw [hsame] at hsource
  have hnode := (hwrites m.toAccountId).1
  rw [if_pos hsame] at hnode
  unfold PathOf
  rw [hnode]
  exact hasPath_relocate_below hsource ((hready.tree _).only hsource)
    (hangs_placed hready hplaced) ((prefix_base_iff hready hsame).1 hbelow)

/-- **A move within an account leaves a forest only if it goes to a folder that is not the source
nor below it.** -/
theorem relocated_forest
    (hforest : Forest links (fun node => node.isContainer) (store' m.toAccountId).node) :
    m.destination.isContainer ∧ ¬ m.fromResourceName <+: m.destinationResourceName := by
  have hsource := hready.source
  rw [hsame] at hsource
  have hnode := (hwrites m.toAccountId).1
  rw [if_pos hsame] at hnode
  have hself : (store' m.toAccountId).node m.fromResource.documentId = some placed := by
    rw [hnode, update_self]
  have hnot : ¬ m.fromResourceName <+: m.destinationResourceName := by
    intro hbelow
    obtain ⟨path, hpath⟩ := hforest.rooted _ _ hself
    have hgone := (relocated_below_paths hready hsame hplaced hwrites hbelow _ _).1 hpath
    exact hgone.2 (hsource.unique hgone.1 ▸ prefix_rfl)
  refine ⟨container_of_forest hready hplaced hnode hforest fun hdoc => ?_, hnot⟩
  have hbase := hready.base
  rw [hdoc] at hbase
  exact hnot ((prefix_base_iff hready hsame).2 (hsource.unique hbase ▸ prefix_rfl))

/-- **A move within an account to a folder that is not the source nor below it leaves trees.** -/
theorem relocated_tree
    (hfree : ∀ k, ¬ PathOf (store m.toAccountId) k m.destinationResourceName)
    (hcontainer : m.destination.isContainer)
    (hnot : ¬ m.fromResourceName <+: m.destinationResourceName) (a : ℕ) :
    IsTree (store' a) := by
  have hsource := hready.source
  have hsourceNode := hready.sourceNode
  rw [hsame] at hsource hsourceNode
  by_cases ha : m.fromAccountId = a
  · have ha' : m.toAccountId = a := hsame ▸ ha
    subst ha'
    obtain ⟨hnode, hlast⟩ := hwrites m.toAccountId
    rw [if_pos hsame] at hnode
    have htree := hready.tree m.toAccountId
    have honly := htree.only hsource
    refine ⟨hnode ▸ htree.forest.relocate hsource honly (hangs_placed hready hplaced)
      (mt (prefix_base_iff hready hsame).2 hnot) (fun n hn hinner => ?_) (fun p hp => ?_),
      hnode ▸ htree.distinct.update (hangs_placed hready hplaced) fun j hj => ?_,
      fun k n hk => ?_⟩
    · rw [hplaced.kind, Option.some.inj (hsourceNode.symm.trans hn)]
      exact hinner
    · obtain ⟨parent, hparent, hkind⟩ := hready.parent p (hplaced.up.symm.trans hp)
      exact ⟨parent, hparent, hkind ▸ hcontainer⟩
    · rw [← dest_placed hready hplaced] at hj
      cases hfree j hj
    · rw [hnode] at hk
      refine le_trans ?_ hlast
      rcases Runs.update_some_cases hk with ⟨rfl, -⟩ | ⟨-, hk⟩
      · exact htree.bounded _ node hsourceNode
      · exact htree.bounded k n hk
  · obtain ⟨hnode', hlast'⟩ := hwrites a
    rw [if_neg ha] at hnode'
    exact (hready.tree a).congr hnode' hlast'

end Relocate

/-! ## Copying one file -/

theorem fresh_of_bounded {account : FileAccount} (h : IsTree account) {id : ℕ}
    (hid : account.lastId < id) : account.node id = none := by
  cases hnode : account.node id with
  | none => rfl
  | some n => cases Nat.not_le.2 hid (h.bounded id n hnode)

section Insert

variable {id : ℕ} (hready : Ready m store base name node) (hplaced : Placed m name node placed)
  (hwrites : Writes store store' m.toAccountId id placed)
  (hfresh : (store m.toAccountId).lastId < id)

include hready hplaced hwrites hfresh

/-- **A new node is found at the destination.** -/
theorem inserted_paths (k : ℕ) (q : FilePath) :
    PathOf (store' m.toAccountId) k q ↔
      PathOf (store m.toAccountId) k q ∨ (k = id ∧ q = m.destinationResourceName) := by
  have hnode := (hwrites m.toAccountId).1
  rw [if_pos rfl] at hnode
  have hnew := fresh_of_bounded (hready.tree _) hfresh
  unfold PathOf
  rw [hnode, dest_placed hready hplaced]
  exact hasPath_insert hnew ((hready.tree _).forest.childless hnew) (hangs_placed hready hplaced)

/-- **A new node leaves a forest only if it goes to a folder.** -/
theorem inserted_forest
    (hforest : Forest links (fun node => node.isContainer) (store' m.toAccountId).node) :
    m.destination.isContainer := by
  have hnode := (hwrites m.toAccountId).1
  rw [if_pos rfl] at hnode
  have hnew := fresh_of_bounded (hready.tree m.toAccountId) hfresh
  refine container_of_forest hready hplaced hnode hforest fun hdoc => ?_
  obtain ⟨parent, hparent, -⟩ := hready.parent _ hdoc
  cases hparent.symm.trans hnew

/-- **A new node in a folder leaves trees.** -/
theorem inserted_tree
    (hfree : ∀ k, ¬ PathOf (store m.toAccountId) k m.destinationResourceName)
    (hbound : id ≤ (store' m.toAccountId).lastId)
    (hcontainer : m.destination.isContainer) (a : ℕ) : IsTree (store' a) := by
  by_cases ha : m.toAccountId = a
  · subst ha
    obtain ⟨hnode, hlast⟩ := hwrites m.toAccountId
    rw [if_pos rfl] at hnode
    have htree := hready.tree m.toAccountId
    refine ⟨hnode ▸ htree.forest.insert (fresh_of_bounded htree hfresh)
      (hangs_placed hready hplaced) fun p hp => ?_,
      hnode ▸ htree.distinct.update (hangs_placed hready hplaced) fun j hj => ?_,
      fun k n hk => ?_⟩
    · obtain ⟨parent, hparent, hkind⟩ := hready.parent p (hplaced.up.symm.trans hp)
      exact ⟨parent, hparent, hkind ▸ hcontainer⟩
    · rw [← dest_placed hready hplaced] at hj
      cases hfree j hj
    · rw [hnode] at hk
      rcases Runs.update_some_cases hk with ⟨rfl, -⟩ | ⟨-, hk⟩
      · exact hbound
      · exact (htree.bounded k n hk).trans hlast
  · obtain ⟨hnode', hlast'⟩ := hwrites a
    rw [if_neg ha] at hnode'
    exact (hready.tree a).congr hnode' hlast'

end Insert

theorem alone_of_file {account : FileAccount} (htree : IsTree account) {id : ℕ} {n : FileNode}
    {path : FilePath} (hn : account.node id = some n) (hfile : n.isContainer = false)
    (hpath : PathOf account id path) (k : ℕ) (q : FilePath) (hk : PathOf account k q)
    (hpre : path <+: q) : k = id := by
  induction hk with
  | @top k m hm hup =>
    have hold : path = [] ++ [links.label m] :=
      eq_of_prefix_concat hpre fun h => hpath.ne_nil (prefix_nil.1 h)
    exact htree.only hpath k (hold ▸ .top hm hup)
  | @child k p m above hm hup hp ih =>
    rcases prefix_concat_iff.1 hpre with heq | hpre
    · exact htree.only hpath k (heq ▸ .child hm hup hp)
    · obtain ⟨parent, hparent, hinner⟩ := htree.forest.parents k m p hm hup
      rw [ih hpre, hn, Option.some_inj] at hparent
      rw [← hparent, hfile] at hinner
      cases hinner

/-- **Removing a file leaves a tree without its path.** -/
theorem removed_file (htree : IsTree account) {id : ℕ}
    {n : FileNode} (hn : account.node id = some n)
    (hfile : n.isContainer = false) (hpath : PathOf account id path)
    (hnode : account'.node = update account.node id none)
    (hlast : account.lastId ≤ account'.lastId) :
    IsTree account' ∧ ∀ k q, PathOf account' k q ↔ PathOf account k q ∧ ¬ path <+: q := by
  have halone := alone_of_file htree hn hfile hpath
  have hself : account'.node id = none := by rw [hnode, update_self]
  have hother : ∀ k, k ≠ id → account'.node k = account.node k := fun k hk => by
    rw [hnode, update_of_ne hk]
  have hkept : ∀ k q, PathOf account k q → ¬ path <+: q → account'.node k = account.node k := by
    intro k q hk hnot
    refine hother k ?_
    rintro rfl
    exact hnot (hpath.unique hk ▸ prefix_rfl)
  have hgone : ∀ k q, PathOf account k q → path <+: q → account'.node k = none :=
    fun k q hk hpre => halone k q hk hpre ▸ hself
  have hsub : ∀ k m, account'.node k = some m → account.node k = some m := by
    intro k m hk
    have hne : k ≠ id := by
      rintro rfl
      cases hk.symm.trans hself
    exact (hother k hne).symm.trans hk
  refine ⟨⟨htree.forest.remove (fun k hk => ?_) hkept hgone, htree.distinct.of_kept hsub,
    fun k m hk => (htree.bounded k m (hsub k m hk)).trans hlast⟩, fun k q => ?_⟩
  · by_cases hne : k = id
    · exact hne ▸ hself
    · rw [hother k hne, hk]
  · refine hasPath_remove (htree.only hpath) hself (fun k => ?_) hkept hpath.ne_nil
    by_cases hne : k = id
    · exact .inr (hne ▸ hself)
    · exact .inl (hother k hne)

/-- **Overwriting a file changes no path and leaves a tree.** -/
theorem overwritten_file (htree : IsTree account) {id : ℕ}
    {n n' : FileNode} (hn : account.node id = some n) (hup : n'.parentId = n.parentId)
    (hname : n'.name = n.name) (hfile : n.isContainer = false)
    (hnode : account'.node = update account.node id (some n'))
    (hlast : account.lastId ≤ account'.lastId) :
    IsTree account' ∧ ∀ k q, PathOf account' k q ↔ PathOf account k q := by
  have hup' : links.up n' = links.up n := by
    change n'.parent = n.parent
    unfold FileNode.parent
    rw [hup]
  have hpaths : ∀ k q, PathOf account' k q ↔ PathOf account k q := by
    intro k q
    unfold PathOf
    rw [hnode]
    exact hasPath_replace hn hup' hname
  refine ⟨⟨hnode ▸ htree.forest.replace hn hup' hname fun h =>
    absurd (hfile.symm.trans h) Bool.false_ne_true, ?_, fun k m hk => ?_⟩, hpaths⟩
  · obtain ⟨path, hpath⟩ := htree.forest.rooted id n hn
    obtain ⟨m, base, hm, hbase, hpath'⟩ := hpath.hangs
    obtain rfl := Option.some.inj (hm.symm.trans hn)
    refine hnode ▸ htree.distinct.update (hup' ▸ hbase) fun j hj => ?_
    rw [show links.label n' = links.label m from hname, ← hpath'] at hj
    exact htree.only hpath j hj
  · rw [hnode] at hk
    refine le_trans ?_ hlast
    rcases Runs.update_some_cases hk with ⟨rfl, -⟩ | ⟨-, hk⟩
    · exact htree.bounded k n hn
    · exact htree.bounded k m hk

end Operations

end MailServer.Dav
