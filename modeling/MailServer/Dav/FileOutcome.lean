import MailServer.Dav.FileCopy

/-!
# What a request to copy or move files does

Each of the operations that a copy or move request ends in (`dav/src/file/copy_move.rs`) relocates
the source within its account, copies it, or writes it over another file.

Principal results: `operate_effect`, `handle_cases`.
-/

namespace MailServer.Dav

open InsertionMap ParentForest List Function

/-! ## Relocating -/

/-- **The source gets the place of the destination.** Its old path is logged, or is not. -/
structure Relocated (m : CopyMove) (logged : Bool) (before after : FileStore) (batch : FileBatch) :
    Prop where
  same : m.fromAccountId = m.toAccountId
  writes : ∃ base name node placed, Ready m before base name node ∧ Placed m name node placed ∧
    Writes before after m.fromAccountId m.fromResource.documentId placed
  changes : batch.changes = [(m.fromAccountId, .update, m.fromResource.documentId)]
  vanished : batch.vanished.map (fun v => (v.1, v.2.path)) =
    if logged then [(m.fromAccountId, m.fromResourceName)] else []

section Operations

variable {m : CopyMove} {store : FileStore} {base : FilePath} {name : String} {node : FileNode}

theorem writes_commit {batch : FileBatch} {accountId documentId : ℕ}
    (h : ∀ a, batch.writesTo a = if accountId = a then [(documentId, some node)] else []) :
    Writes store (commitBatch store batch) accountId documentId node := by
  intro a
  refine ⟨?_, (node_commit store batch a).2.ge⟩
  rw [(node_commit store batch a).1, h]
  split
  · rfl
  · rfl

section

variable (hready : Ready m store base name node) (hsame : m.fromAccountId = m.toAccountId)
include hready hsame

theorem renameItem_spec (hparent : node.parent = m.destination.documentId) :
    ∃ after batch, renameItem m store = ⟨.CREATED, after, [batch]⟩ ∧
      Relocated m true store after batch := by
  unfold renameItem
  rw [hready.sourceNode]
  refine ⟨_, _, rfl, hsame, ⟨base, name, node,
    { node with name := m.destination.newName.getD node.name }, hready, ⟨hparent, ?_, rfl⟩,
    writes_commit ?_⟩, rfl, rfl⟩
  · rw [hready.newName]
    rfl
  · intro a
    rw [writesTo_logVanishedItem]
    exact writesTo_change _ _

theorem moveContainer_same (depth : Depth) :
    ∃ after batch, moveContainer m depth store = ⟨.CREATED, after, [batch]⟩ ∧
      Relocated m true store after batch := by
  unfold moveContainer
  rw [if_pos (hsame.trans hready.account.symm), hready.sourceNode]
  refine ⟨_, _, rfl, hsame, ⟨base, name, node, _, hready, placed_place hready, writes_commit ?_⟩,
    rfl, rfl⟩
  intro a
  rw [writesTo_logVanishedItem]
  exact writesTo_change _ _

theorem moveItem_same : ∃ after batch, moveItem m store = ⟨.CREATED, after, [batch]⟩ ∧
      Relocated m false store after batch := by
  unfold moveItem
  simp only [hready.sourceNode, if_pos (hsame.trans hready.account.symm)]
  refine ⟨_, _, rfl, hsame, ⟨base, name, node, _, hready, placed_place hready, writes_commit ?_⟩,
    rfl, rfl⟩
  intro a
  exact writesTo_change _ _

end

/-! ## Copying one file -/

theorem node_commit_assigned (store : FileStore) (batch : FileBatch) (accountId numIds a : ℕ) :
    (commitBatch (assignDocumentIds store accountId numIds).2 batch a).node =
        applyWrites (store a).node (batch.writesTo a) ∧
      (commitBatch (assignDocumentIds store accountId numIds).2 batch a).lastId =
        (store a).lastId + if a = accountId then numIds else 0 := by
  obtain ⟨hnode, hlast⟩ := node_assignDocumentIds store accountId numIds a
  rw [(node_commit _ batch a).1, (node_commit _ batch a).2, hnode, hlast]
  exact ⟨rfl, rfl⟩

/-- A copy of the source alone, and the deletion of the source if it is a file that is moved. -/
theorem copied_alone (hready : Ready m store base name node) {deleteSource : Bool}
    (hfree : ∀ k, ¬ PathOf (store m.toAccountId) k m.destinationResourceName)
    (haccounts : deleteSource → m.fromAccountId ≠ m.toAccountId)
    (hfile : deleteSource → node.isContainer = false) {after : FileStore}
    {batch : FileBatch} {id : ℕ} (hnext : (store m.toAccountId).lastId + 1 = id)
    (hafter : after = commitBatch (assignDocumentIds store m.destination.accountId 1).2 batch)
    (hbatch : ∀ a, batch.writesTo a =
      (if m.toAccountId = a then [(id, some (m.destination.place node))] else []) ++
      if deleteSource ∧ m.fromAccountId = a then [(m.fromResource.documentId, none)]
      else [])
    (hchanges : batch.changes = (m.toAccountId, .insert, id) ::
      if deleteSource then [(m.fromAccountId, .delete, m.fromResource.documentId)] else [])
    (hvanished : batch.vanished.map (fun v => (v.1, v.2.path)) =
      if deleteSource then [(m.fromAccountId, m.fromResourceName)] else []) :
    Copied m (· = []) deleteSource store after batch
      fun d k => d = m.fromResource.documentId ∧ k = id := by
  have hplaced := placed_place hready
  have htree := hready.tree m.fromAccountId
  have hid : (store m.toAccountId).lastId < id := hnext ▸ Nat.lt_succ_self _
  have hcommit := node_commit_assigned store batch m.destination.accountId 1
  rw [← hafter] at hcommit
  have hlast (a : ℕ) : (store a).lastId ≤ (after a).lastId :=
    (hcommit a).2 ▸ Nat.le_add_right _ _
  have hbound : id ≤ (after m.toAccountId).lastId := by
    rw [(hcommit _).2, hready.account, if_pos rfl, hnext]
  have hto : (after m.toAccountId).node =
      update (store m.toAccountId).node id (some (m.destination.place node)) := by
    rw [(hcommit _).1, hbatch, if_pos rfl, if_neg fun h => haccounts h.1 h.2]
    rfl
  have hfrom (hdelete : deleteSource) : (after m.fromAccountId).node =
      update (store m.fromAccountId).node m.fromResource.documentId none := by
    rw [(hcommit _).1, hbatch, if_neg (haccounts hdelete).symm, if_pos ⟨hdelete, rfl⟩]
    rfl
  have hother (a : ℕ) (ha : a ≠ m.toAccountId)
      (hdelete : deleteSource → a ≠ m.fromAccountId) : (after a).node = (store a).node := by
    rw [(hcommit _).1, hbatch, if_neg ha.symm, if_neg fun h => hdelete h.1 h.2.symm]
    rfl
  -- The account of the destination, with the others as they were.
  have hself : update store m.toAccountId (after m.toAccountId) m.toAccountId =
      after m.toAccountId := update_self _ _ _
  have hwrites : Writes store (update store m.toAccountId (after m.toAccountId))
      m.toAccountId id (m.destination.place node) := by
    intro a
    by_cases ha : m.toAccountId = a
    · subst ha
      rw [hself, if_pos rfl]
      exact ⟨hto, hlast _⟩
    · rw [update_of_ne (Ne.symm ha), if_neg ha]
      exact ⟨rfl, le_rfl⟩
  have hpaths := inserted_paths hready hplaced hwrites hid
  rw [hself] at hpaths
  have hremoved : deleteSource → IsTree (after m.fromAccountId) ∧
      ∀ k q, PathOf (after m.fromAccountId) k q ↔
        PathOf (store m.fromAccountId) k q ∧ ¬ m.fromResourceName <+: q := fun hdelete =>
    removed_file htree hready.sourceNode (hfile hdelete) hready.source (hfrom hdelete) (hlast _)
  refine ⟨fun d rest hpath hrest => ?_, ?_, ?_, fun a change k => ?_, hvanished, fun k q => ?_,
    fun hcontainer => ?_, fun hforest => ?_, fun hdelete => (hremoved hdelete).2,
    fun hdelete _ => (hremoved hdelete).1, fun hdelete _ k rest hpath => ?_,
    fun a hne hdelete => ⟨hother a hne hdelete, hlast a⟩⟩
  · rw [hrest, append_nil] at hpath
    exact ⟨id, htree.only hready.source d hpath, rfl⟩
  · rintro d k ⟨rfl, rfl⟩
    exact ⟨[], by rw [append_nil]; exact hready.source, rfl⟩
  · rintro d k ⟨rfl, rfl⟩
    exact fresh_of_bounded (hready.tree _) hid
  · rw [hchanges]
    cases deleteSource with
    | true =>
      simp only [if_true, mem_cons, not_mem_nil, or_false, Prod.mk.injEq, true_and,
        exists_eq_left, exists_eq_right]
    | false =>
      simp only [Bool.false_eq_true, if_false, mem_cons, not_mem_nil, or_false,
        Prod.mk.injEq, false_and, exists_eq_left]
  · rw [hpaths]
    refine or_congr_right ⟨?_, ?_⟩
    · rintro ⟨rfl, rfl⟩
      refine ⟨_, [], ⟨rfl, rfl⟩, ?_, (append_nil _).symm⟩
      rw [append_nil]
      exact hready.source
    · rintro ⟨d, rest, ⟨rfl, rfl⟩, hpath, rfl⟩
      rw [self_eq_append_right.1 (hready.source.unique hpath), append_nil]
      exact ⟨rfl, rfl⟩
  · have h := inserted_tree hready hplaced hwrites hid hfree (by rw [hself]; exact hbound)
      hcontainer m.toAccountId
    exact hself ▸ h
  · exact inserted_forest hready hplaced hwrites hid (by rw [hself]; exact hforest)
  · have hsame := alone_of_file htree hready.sourceNode (hfile hdelete) hready.source k _ hpath
      (prefix_append _ rest)
    rw [hsame] at hpath
    exact self_eq_append_right.1 (hready.source.unique hpath)

theorem copyItem_spec (hready : Ready m store base name node)
    (hfree : ∀ k, ¬ PathOf (store m.toAccountId) k m.destinationResourceName) :
    ∃ after batch copyOf, copyItem m store = ⟨.CREATED, after, [batch]⟩ ∧
      Copied m (· = []) false store after batch copyOf := by
  obtain ⟨batch, hbatch⟩ : ∃ batch, batch = ({} : FileBatch).insertNode m.destination.accountId
      ((store m.destination.accountId).lastId + 1) (m.destination.place node) := ⟨_, rfl⟩
  have hcopy : copyItem m store = .committed .CREATED
      (assignDocumentIds store m.destination.accountId 1).2 batch := by
    unfold copyItem
    rw [hready.sourceNode, hbatch]
    rfl
  rw [hcopy]
  refine ⟨_, batch, _, rfl, copied_alone hready hfree (fun h => absurd h Bool.false_ne_true)
    (fun h => absurd h Bool.false_ne_true) rfl rfl (fun a => ?_) ?_ ?_⟩
  · rw [hbatch, ← hready.account]
    simp only [Bool.false_eq_true, false_and, if_false, append_nil]
    exact writesTo_change _ _
  · rw [hbatch, hready.account]
    rfl
  · rw [hbatch]
    rfl

theorem moveItem_across (hready : Ready m store base name node)
    (hacross : m.fromAccountId ≠ m.toAccountId) (hfile : node.isContainer = false)
    (hfree : ∀ k, ¬ PathOf (store m.toAccountId) k m.destinationResourceName) :
    ∃ after batch copyOf, moveItem m store = ⟨.CREATED, after, [batch]⟩ ∧
      Copied m (· = []) true store after batch copyOf := by
  obtain ⟨batch, hbatch⟩ : ∃ batch, batch = (({} : FileBatch).insertNode m.destination.accountId
      ((store m.destination.accountId).lastId + 1) (m.destination.place node)).destroyFile
        m.fromAccountId m.fromResource.documentId ⟨m.fromResourceName, false⟩ := ⟨_, rfl⟩
  have hne : m.fromAccountId ≠ m.destination.accountId := hready.account ▸ hacross
  have hmove : moveItem m store = .committed .CREATED
      (assignDocumentIds store m.destination.accountId 1).2 batch := by
    unfold moveItem
    simp only [hready.sourceNode, if_neg hne, hbatch]
    rfl
  rw [hmove]
  refine ⟨_, batch, _, rfl, copied_alone hready hfree (fun _ => hacross) (fun _ => hfile) rfl rfl
    (fun a => ?_) ?_ ?_⟩
  · rw [hbatch, ← hready.account]
    unfold FileBatch.destroyFile FileBatch.deleteNode FileBatch.insertNode
    rw [writesTo_logVanishedItem, writesTo_change, writesTo_change, writesTo_empty, nil_append]
    simp only [true_and]
  · rw [hbatch, hready.account]
    rfl
  · rw [hbatch]
    rfl

/-! ## Overwriting a file -/

/-- **One file takes the contents of another, which is deleted if it is moved.** -/
structure Overwritten (m : CopyMove) (isMove : Bool) (overwritten : ℕ) (before after : FileStore)
    (batch : FileBatch) : Prop where
  tree : ∀ a, IsTree (after a)
  paths : ∀ a k q, PathOf (after a) k q ↔ PathOf (before a) k q ∧
    ¬(isMove ∧ a = m.fromAccountId ∧ m.fromResourceName <+: q)
  changes : ∀ a change k, (a, change, k) ∈ batch.changes ↔
    (a = m.toAccountId ∧ change = .update ∧ k = overwritten) ∨
      (isMove ∧ a = m.fromAccountId ∧ change = .delete ∧
        k = m.fromResource.documentId)
  vanished : batch.vanished.map (fun v => (v.1, v.2.path)) =
    if isMove then [(m.fromAccountId, m.fromResourceName)] else []

section Overwrite

variable {destination : Destination} {id : ℕ} {destNode : FileNode}

section

variable (hready : Ready m store base name node)
  (haccount : destination.accountId = m.toAccountId) (hname : destination.newName = none)
include hready haccount hname

theorem overwritten_only (hdest : (store m.toAccountId).node id = some destNode)
    (hfile : destNode.isContainer = false) (a : ℕ) :
    IsTree (commitBatch store (({} : FileBatch).updateNode destination.accountId id
        (overwrittenBy destination destNode node)) a) ∧
      ∀ k q, PathOf (commitBatch store (({} : FileBatch).updateNode destination.accountId id
        (overwrittenBy destination destNode node)) a) k q ↔ PathOf (store a) k q := by
  have hempty : ({} : FileBatch).writes = [] := rfl
  have hnode := node_commit_change store destination.accountId id a .update
    (some (overwrittenBy destination destNode node)) hempty
  have hlast := (node_commit store (({} : FileBatch).updateNode destination.accountId id
    (overwrittenBy destination destNode node)) a).2.ge
  by_cases ha : destination.accountId = a
  · have ha' : m.toAccountId = a := haccount.symm.trans ha
    subst ha'
    rw [if_pos ha] at hnode
    have hkept : (overwrittenBy destination destNode node).name = destNode.name := by
      unfold overwrittenBy
      rw [hname]
      rfl
    have hparent : (overwrittenBy destination destNode node).parentId = destNode.parentId := rfl
    exact overwritten_file (hready.tree _) hdest hparent hkept hfile hnode hlast
  · rw [if_neg ha] at hnode
    refine ⟨(hready.tree a).congr hnode hlast, fun k q => ?_⟩
    change HasPath links _ k q ↔ HasPath links _ k q
    rw [← hnode]
    rfl

theorem overwriteItem_spec (hid : destination.documentId = some id)
    (hdest : (store m.toAccountId).node id = some destNode)
    (hfile : destNode.isContainer = false) :
    ∃ after batch, overwriteItem m destination store = ⟨.NO_CONTENT, after, [batch]⟩ ∧
      Overwritten m false id store after batch := by
  unfold overwriteItem
  rw [hid, Option.getD_some, haccount, hdest, hready.sourceNode]
  have honly := overwritten_only hready haccount hname hdest hfile
  rw [haccount] at honly
  refine ⟨_, _, rfl, fun a => (honly a).1, fun a k q => ?_, fun a change k => ?_, rfl⟩
  · rw [(honly a).2 k q]
    exact (and_iff_left fun h => Bool.false_ne_true h.1).symm
  · change (a, change, k) ∈ [(m.toAccountId, ItemChange.update, id)] ↔ _
    rw [mem_singleton, Prod.mk.injEq, Prod.mk.injEq]
    exact (or_iff_left fun h => Bool.false_ne_true h.1).symm

theorem overwriteAndDeleteItem_spec (hid : destination.documentId = some id)
    (hpath : PathOf (store m.toAccountId) id m.destinationResourceName)
    (hdest : (store m.toAccountId).node id = some destNode)
    (hfile : destNode.isContainer = false) (hsource : node.isContainer = false) :
    ∃ after batch, overwriteAndDeleteItem m destination store = ⟨.NO_CONTENT, after, [batch]⟩ ∧
      Overwritten m true id store after batch := by
  unfold overwriteAndDeleteItem
  rw [hid, Option.getD_some, haccount, hdest, hready.sourceNode]
  have honly := overwritten_only hready haccount hname hdest hfile
  rw [haccount] at honly
  obtain ⟨mid, hmid⟩ : ∃ mid, mid = commitBatch store (({} : FileBatch).updateNode
      m.toAccountId id (overwrittenBy destination destNode node)) := ⟨_, rfl⟩
  rw [← hmid] at honly
  -- The source is not the file that is overwritten.
  have hsourceMid : (mid m.fromAccountId).node m.fromResource.documentId = some node := by
    have hempty : ({} : FileBatch).writes = [] := rfl
    have hnode := node_commit_change store m.toAccountId id m.fromAccountId .update
      (some (overwrittenBy destination destNode node)) hempty
    rw [hmid]
    refine (congrFun hnode _).trans ?_
    by_cases hsame : m.toAccountId = m.fromAccountId
    · have hne : m.fromResource.documentId ≠ id := by
        rintro rfl
        have hpath' := hready.source
        rw [← hsame] at hpath'
        exact hready.apart hsame.symm (hpath.unique hpath' ▸ prefix_rfl)
      rw [if_pos hsame, update_of_ne hne]
      exact hready.sourceNode
    · rw [if_neg hsame]
      exact hready.sourceNode
  have hafter : ∀ batch, batch.writes = [(m.toAccountId, id,
      some (overwrittenBy destination destNode node)),
        (m.fromAccountId, m.fromResource.documentId, none)] → ∀ a,
      commitBatch store batch a = writeArchive mid
        (m.fromAccountId, m.fromResource.documentId, none) a := by
    intro batch hwrites a
    unfold commitBatch
    rw [hwrites, hmid]
    rfl
  obtain ⟨removed, hremovedAccount⟩ : ∃ removed, removed =
      (mid m.fromAccountId).write m.fromResource.documentId none := ⟨_, rfl⟩
  have hnodeRemoved : removed.node =
      update (mid m.fromAccountId).node m.fromResource.documentId none := by
    rw [hremovedAccount]
    exact node_write _ _ _
  have hlastRemoved : (mid m.fromAccountId).lastId ≤ removed.lastId := by
    rw [hremovedAccount]
    rfl
  have hremoved := removed_file (honly m.fromAccountId).1 hsourceMid hsource
    (((honly m.fromAccountId).2 _ _).2 hready.source) hnodeRemoved hlastRemoved
  have hself : writeArchive mid (m.fromAccountId, m.fromResource.documentId, none)
      m.fromAccountId = removed := (update_self _ _ _).trans hremovedAccount.symm
  have hother : ∀ a, a ≠ m.fromAccountId → writeArchive mid
      (m.fromAccountId, m.fromResource.documentId, none) a = mid a :=
    fun a ha => update_of_ne ha _ _
  refine ⟨_, _, rfl, fun a => ?_, fun a k q => ?_, fun a change k => ?_, rfl⟩
  · rw [hafter _ rfl a]
    by_cases ha : a = m.fromAccountId
    · rw [ha, hself]
      exact hremoved.1
    · rw [hother a ha]
      exact (honly a).1
  · rw [hafter _ rfl a]
    by_cases ha : a = m.fromAccountId
    · rw [ha, hself, hremoved.2 k q, (honly m.fromAccountId).2 k q]
      exact and_congr_right fun _ => not_congr ⟨fun h => ⟨rfl, rfl, h⟩, fun h => h.2.2⟩
    · rw [hother a ha, (honly a).2 k q]
      exact (and_iff_left fun h => ha h.2.1).symm
  · change (a, change, k) ∈ [(m.toAccountId, ItemChange.update, id),
      (m.fromAccountId, ItemChange.delete, m.fromResource.documentId)] ↔ _
    rw [mem_cons, mem_singleton, Prod.mk.injEq, Prod.mk.injEq, Prod.mk.injEq,
      Prod.mk.injEq]
    exact or_congr_right (and_iff_right rfl).symm

end

end Overwrite

end Operations

/-! ## The operation -/

/-- How far below the source a copy goes. -/
def CopyMove.Reach (m : CopyMove) (depth : Depth) (rest : FilePath) : Prop :=
  if m.fromResource.isContainer ∧ depth ≠ .Zero then
    reaches (decide (depth ≠ .One)) rest
  else rest = []

/-- A folder that is moved alone to another account is not deleted. -/
def CopyMove.deletesSource (m : CopyMove) (depth : Depth) (isMove : Bool) : Bool :=
  isMove && !(m.fromResource.isContainer && depth == .Zero)

/-- The path of a file that is moved within its account is only logged if it keeps its parent. -/
def CopyMove.logsPath (m : CopyMove) (isMove : Bool) : Bool :=
  m.isRename isMove || m.fromResource.isContainer

/-- **What an operation does, once the destination is cleared.** -/
inductive Effect (m : CopyMove) (depth : Depth) (isMove : Bool) (before after : FileStore)
    (batch : FileBatch) : Prop
  | relocated : isMove → (m.isOverwrite ∨ m.deleteDestination = none) →
      Relocated m (m.logsPath isMove) before after batch → Effect m depth isMove before after batch
  | copied {copyOf : ℕ → ℕ → Prop} :
      (isMove → m.fromAccountId ≠ m.toAccountId) →
      (m.isOverwrite ∨ m.deleteDestination = none) → ¬ m.ClearsSource (m.Reach depth) →
      Copied m (m.Reach depth) (m.deletesSource depth isMove) before after batch copyOf →
      Effect m depth isMove before after batch
  | overwritten {destination : Destination} {id : ℕ} :
      m.deleteDestination = some destination → destination.documentId = some id →
      m.isOverwrite = false → m.fromResource.isContainer = false →
      Overwritten m isMove id before after batch → Effect m depth isMove before after batch

section Operate

variable {server : FileServer} {trees : ℕ → FileTree} {request : CopyMoveRequest} {isMove : Bool}
  {m : CopyMove} {depth : Depth}

theorem overwriteBatch_of_not (h : m.isOverwrite = false) (store : FileStore) :
    m.overwriteBatch store = {} := by
  unfold CopyMove.overwriteBatch
  rw [h]
  rfl

theorem cleared_of_not (trees : ℕ → FileTree) (h : m.isOverwrite = false) :
    cleared trees m = fun a => (trees a).toFileAccount := by
  unfold cleared
  rw [overwriteBatch_of_not h]
  rfl

theorem not_clearsSource_alone
    (hvalid : Validated server (fun a => (trees a).toFileAccount) isMove m) :
    ¬ m.ClearsSource (· = []) := by
  rintro ⟨hsame, -, rest, hdest, rfl⟩
  rw [append_nil] at hdest
  exact hvalid.apart hsame (hdest ▸ prefix_rfl)

theorem reach_alone (m : CopyMove) (depth : Depth)
    (h : ¬(m.fromResource.isContainer ∧ depth ≠ .Zero)) :
    m.Reach depth = (· = []) := by
  funext rest
  exact if_neg h

theorem copyContainer_effect
    (hvalid : Validated server (fun a => (trees a).toFileAccount) isMove m)
    (hclear : m.isOverwrite ∨ m.deleteDestination = none)
    (hcontainer : m.fromResource.isContainer)
    (hacross : isMove → m.fromAccountId ≠ m.toAccountId) :
    (∃ after batch, copyContainer m depth isMove (cleared trees m) = ⟨.CREATED, after, [batch]⟩ ∧
      Effect m depth isMove (cleared trees m) after batch) ∨
    (isMove = false ∧ m.ClearsSource (m.Reach depth) ∧ ∃ after,
      copyContainer m depth isMove (cleared trees m) = .failed .NOT_FOUND after) := by
  obtain ⟨base, name, node, hready, -, -⟩ := ready_cleared hvalid
  by_cases hdepth : depth = .Zero
  · have hreach := reach_alone m depth fun h => h.2 hdepth
    have hdelete : m.deletesSource depth isMove = false := by
      unfold CopyMove.deletesSource
      rw [hcontainer, hdepth]
      exact Bool.and_false isMove
    obtain ⟨after, batch, copyOf, hcopy, hcopied⟩ :=
      copyItem_spec hready (free_cleared hvalid hclear)
    rw [← hreach, ← hdelete] at hcopied
    refine .inl ⟨after, batch, ?_, .copied hacross hclear ?_ hcopied⟩
    · unfold copyContainer
      rw [if_pos hdepth]
      exact hcopy
    · rw [hreach]
      exact not_clearsSource_alone hvalid
  · have hreach : m.Reach depth = reaches (decide (depth ≠ .One)) := by
      funext rest
      exact if_pos ⟨hcontainer, hdepth⟩
    have hdelete : m.deletesSource depth isMove = isMove := by
      unfold CopyMove.deletesSource
      rw [hcontainer, beq_false_of_ne hdepth]
      exact Bool.and_true isMove
    rcases copyContainer_spec hvalid hclear hdepth hacross with
      ⟨hnot, after, batch, copyOf, hcopy, hcopied⟩ | ⟨hclears, after, hfailed⟩
    · rw [← hreach] at hnot
      rw [← hreach, ← hdelete] at hcopied
      exact .inl ⟨after, batch, hcopy, .copied hacross hclear hnot hcopied⟩
    · refine .inr ⟨?_, hreach ▸ hclears, after, hfailed⟩
      cases isMove with
      | false => rfl
      | true => cases hacross rfl hclears.1

theorem isOverwrite_of_container (hcontainer : m.fromResource.isContainer) :
    m.isOverwrite ∨ m.deleteDestination = none := by
  unfold CopyMove.isOverwrite
  cases m.deleteDestination with
  | none => exact .inr rfl
  | some d =>
    rw [hcontainer]
    exact .inl (Bool.or_true _)

section

variable (hvalid : Validated server (fun a => (trees a).toFileAccount) isMove m)
include hvalid

/-- The operation on a folder. -/
theorem operate_container (hcontainer : m.fromResource.isContainer) :
    (∃ after batch, m.operate depth isMove (cleared trees m) = ⟨.CREATED, after, [batch]⟩ ∧
      Effect m depth isMove (cleared trees m) after batch) ∨
    (isMove = false ∧ m.ClearsSource (m.Reach depth) ∧ ∃ after,
      m.operate depth isMove (cleared trees m) = .failed .NOT_FOUND after) := by
  obtain ⟨base, name, node, hready, -, -⟩ := ready_cleared hvalid
  have hclear := isOverwrite_of_container hcontainer
  by_cases hrelocate : isMove ∧ m.fromAccountId = m.toAccountId
  · obtain ⟨rfl, hsame⟩ := hrelocate
    have hoperate : m.operate depth true (cleared trees m) =
        moveContainer m depth (cleared trees m) := by
      unfold CopyMove.operate
      rw [hcontainer]
    have hlogs : m.logsPath true := by
      unfold CopyMove.logsPath
      rw [hcontainer]
      exact Bool.or_true _
    obtain ⟨after, batch, hmove, hrelocated⟩ := moveContainer_same hready hsame depth
    rw [← hlogs] at hrelocated
    exact .inl ⟨after, batch, hoperate.trans hmove, .relocated rfl hclear hrelocated⟩
  · have hacross : isMove → m.fromAccountId ≠ m.toAccountId :=
      fun hmove hsame => hrelocate ⟨hmove, hsame⟩
    have hoperate : m.operate depth isMove (cleared trees m) =
        copyContainer m depth isMove (cleared trees m) := by
      unfold CopyMove.operate
      rw [hcontainer]
      cases isMove with
      | false => rfl
      | true =>
        change moveContainer m depth (cleared trees m) = _
        unfold moveContainer
        rw [hready.account, if_neg (hacross rfl)]
    rw [hoperate]
    exact copyContainer_effect hvalid hclear hcontainer hacross

/-- The operation on a file with nothing at the destination. -/
theorem operate_file (hrename : m.isRename isMove = false)
    (hfile : m.fromResource.isContainer = false)
    (hclear : m.isOverwrite ∨ m.deleteDestination = none) :
    ∃ after batch, m.operate depth isMove (cleared trees m) = ⟨.CREATED, after, [batch]⟩ ∧
      Effect m depth isMove (cleared trees m) after batch := by
  obtain ⟨base, name, node, hready, -, -⟩ := ready_cleared hvalid
  have hnone : (if m.isOverwrite then none else m.deleteDestination) = none := by
    rcases hclear with hover | hnone
    · rw [if_pos hover]
    · rw [hnone, ite_self]
  have hreach := reach_alone m depth fun h =>
    Bool.false_ne_true (hfile.symm.trans h.1)
  have hdelete : m.deletesSource depth isMove = isMove := by
    unfold CopyMove.deletesSource
    rw [hfile]
    exact Bool.and_true isMove
  have hnot : ¬ m.ClearsSource (m.Reach depth) := hreach ▸ not_clearsSource_alone hvalid
  have hfree := free_cleared hvalid hclear
  cases isMove with
  | false =>
    have hoperate : m.operate depth false (cleared trees m) = copyItem m (cleared trees m) := by
      unfold CopyMove.operate
      rw [hfile, hnone]
    obtain ⟨after, batch, copyOf, hcopy, hcopied⟩ := copyItem_spec hready hfree
    rw [← hreach] at hcopied
    exact ⟨after, batch, hoperate.trans hcopy,
      .copied (nofun) hclear hnot hcopied⟩
  | true =>
    have hoperate : m.operate depth true (cleared trees m) = moveItem m (cleared trees m) := by
      unfold CopyMove.operate
      rw [hfile, hnone]
    by_cases hsame : m.fromAccountId = m.toAccountId
    · obtain ⟨after, batch, hmove, hrelocated⟩ := moveItem_same hready hsame
      have hlogs : m.logsPath true = false := by
        unfold CopyMove.logsPath
        rw [hrename, hfile]
        rfl
      rw [← hlogs] at hrelocated
      exact ⟨after, batch, hoperate.trans hmove, .relocated rfl hclear hrelocated⟩
    · obtain ⟨after, batch, copyOf, hmove, hcopied⟩ :=
        moveItem_across hready hsame (hready.kind.symm.trans hfile) hfree
      rw [← hreach, ← hdelete] at hcopied
      exact ⟨after, batch, hoperate.trans hmove, .copied (fun _ => hsame) hclear hnot hcopied⟩

/-- The operation on a file with another file at the destination. -/
theorem operate_overwrite {destination : Destination}
    (hdestination : m.deleteDestination = some destination) (hover : m.isOverwrite = false) :
    ∃ after batch, m.operate depth isMove (cleared trees m) = ⟨.NO_CONTENT, after, [batch]⟩ ∧
      Effect m depth isMove (cleared trees m) after batch := by
  obtain ⟨base, name, node, hready, -, -⟩ := ready_cleared hvalid
  obtain ⟨haccount, hname, id, destNode, hid, hpath, hdest, hkind⟩ :=
    hvalid.existing destination hdestination
  have hkinds : destination.isContainer = false ∧ m.fromResource.isContainer = false := by
    unfold CopyMove.isOverwrite at hover
    rw [hdestination] at hover
    exact Bool.or_eq_false_iff.1 hover
  have hsome : (if m.isOverwrite then none else m.deleteDestination) = some destination := by
    rw [hover, hdestination]
    rfl
  have hcleared := cleared_of_not trees hover
  have hdest' : (cleared trees m m.toAccountId).node id = some destNode := by
    rw [hcleared]
    exact hdest
  have hpath' : PathOf (cleared trees m m.toAccountId) id m.destinationResourceName := by
    rw [hcleared]
    exact hpath
  cases isMove with
  | false =>
    have hoperate : m.operate depth false (cleared trees m) =
        overwriteItem m destination (cleared trees m) := by
      unfold CopyMove.operate
      rw [hkinds.2, hsome]
    obtain ⟨after, batch, hwrite, hoverwritten⟩ :=
      overwriteItem_spec hready haccount hname hid hdest' (hkind.symm.trans hkinds.1)
    exact ⟨after, batch, hoperate.trans hwrite,
      .overwritten hdestination hid hover hkinds.2 hoverwritten⟩
  | true =>
    have hoperate : m.operate depth true (cleared trees m) =
        overwriteAndDeleteItem m destination (cleared trees m) := by
      unfold CopyMove.operate
      rw [hkinds.2, hsome]
    obtain ⟨after, batch, hwrite, hoverwritten⟩ :=
      overwriteAndDeleteItem_spec hready haccount hname hid hpath' hdest'
        (hkind.symm.trans hkinds.1) (hready.kind.symm.trans hkinds.2)
    exact ⟨after, batch, hoperate.trans hwrite,
      .overwritten hdestination hid hover hkinds.2 hoverwritten⟩

end

/-- **An operation relocates the source, copies it or writes it over another file, unless clearing
the destination has taken away some of it.** -/
theorem operate_effect (depth : Depth)
    (hvalid : Validated server (fun a => (trees a).toFileAccount) isMove m)
    (hrename : m.isRename isMove = false) :
    (∃ response after batch, m.operate depth isMove (cleared trees m) =
        ⟨response, after, [batch]⟩ ∧ response.isSuccess ∧
      Effect m depth isMove (cleared trees m) after batch) ∨
    (isMove = false ∧ m.ClearsSource (m.Reach depth) ∧ ∃ after,
      m.operate depth isMove (cleared trees m) = .failed .NOT_FOUND after) := by
  cases hcontainer : m.fromResource.isContainer with
  | true =>
    rcases operate_container hvalid hcontainer with ⟨after, batch, hoperate, heffect⟩ | h
    · exact .inl ⟨.CREATED, after, batch, hoperate, rfl, heffect⟩
    · exact .inr h
  | false =>
    cases hdestination : m.deleteDestination with
    | none =>
      obtain ⟨after, batch, hoperate, heffect⟩ :=
        operate_file hvalid hrename hcontainer (.inr hdestination)
      exact .inl ⟨.CREATED, after, batch, hoperate, rfl, heffect⟩
    | some destination =>
      cases hover : m.isOverwrite with
      | true =>
        obtain ⟨after, batch, hoperate, heffect⟩ :=
          operate_file hvalid hrename hcontainer (.inl hover)
        exact .inl ⟨.CREATED, after, batch, hoperate, rfl, heffect⟩
      | false =>
        obtain ⟨after, batch, hoperate, heffect⟩ := operate_overwrite hvalid hdestination hover
        exact .inl ⟨.NO_CONTENT, after, batch, hoperate, rfl, heffect⟩

/-! ## The request -/

theorem mapDestination_error {toAccountId : ℕ} {toResources : DavResources}
    {overwriteFail : Bool} {name : FilePath} {response : Response}
    (h : mapDestination toAccountId toResources overwriteFail name = .error response) :
    response.isSuccess = false := by
  unfold mapDestination at h
  repeat' split at h
  all_goals first
    | (cases h; done)
    | (cases h; rfl)

theorem locateCopyMove_error {store : FileStore} {response : Response}
    (h : locateCopyMove server store request isMove = .error response) :
    response.isSuccess = false := by
  unfold locateCopyMove at h
  repeat' split at h
  all_goals first
    | (cases h; done)
    | (cases h; rfl)
    | (cases h; exact mapDestination_error ‹_›)

theorem validateCopyMove_error {store : FileStore} {response : Response}
    (h : validateCopyMove server store request isMove = .error response) :
    response.isSuccess = false := by
  unfold validateCopyMove at h
  cases hlocate : locateCopyMove server store request isMove with
  | error response' =>
    rw [hlocate] at h
    cases h
    exact locateCopyMove_error hlocate
  | ok m =>
    rw [hlocate] at h
    simp only at h
    split at h
    · cases h
      rfl
    · split at h
      · cases h
        rfl
      · cases h

theorem log_foldl_deleteNode (accountId : ℕ) (stored : ℕ → Bool) (ids : List ℕ)
    (batch : FileBatch) :
    (ids.foldl (fun batch id => if stored id then batch.deleteNode accountId id else batch)
        batch).vanished = batch.vanished ∧
      ∀ change, change ∈ (ids.foldl (fun batch id =>
        if stored id then batch.deleteNode accountId id else batch) batch).changes ↔
          change ∈ batch.changes ∨
            ∃ k ∈ ids, stored k ∧ change = (accountId, ItemChange.delete, k) := by
  induction ids generalizing batch with
  | nil =>
    refine ⟨rfl, fun change => (or_iff_left ?_).symm⟩
    rintro ⟨k, hk, -⟩
    cases hk
  | cons id ids ih =>
    rw [foldl_cons]
    refine ⟨(ih _).1.trans ?_, fun change => ?_⟩
    · split
      · rfl
      · rfl
    · rw [(ih _).2 change, exists_mem_cons_iff]
      cases hid : stored id with
      | true =>
        rw [if_pos rfl]
        unfold FileBatch.deleteNode FileBatch.change
        rw [mem_append, mem_singleton, or_assoc]
        exact or_congr_right (or_congr_left (and_iff_right rfl).symm)
      | false =>
        exact or_congr_right (or_iff_right fun h => Bool.false_ne_true h.1).symm

/-- **Destroying files logs those that are stored, and the path once one of them is.** -/
theorem destroyFiles_log (store : FileStore) (accountId : ℕ) (ids : List ℕ)
    (path : Option VanishedPath) :
    (∀ a change k, (a, change, k) ∈ (destroyFiles store accountId ids path).changes ↔
      a = accountId ∧ change = .delete ∧ k ∈ ids ∧ (store accountId).node k ≠ none) ∧
    (path = none → (destroyFiles store accountId ids path).vanished = []) ∧
    ∀ p, path = some p → (∃ k ∈ ids, (store accountId).node k ≠ none) →
      (destroyFiles store accountId ids path).vanished = [(accountId, p)] := by
  obtain ⟨fold, hfold⟩ : ∃ fold, fold = ids.foldl (fun batch documentId =>
      if ((store accountId).node documentId).isSome then batch.deleteNode accountId documentId
      else batch) ((({} : FileBatch)).withAccountId accountId) := ⟨_, rfl⟩
  obtain ⟨hvanished, hchanges⟩ := log_foldl_deleteNode accountId
    (fun id => ((store accountId).node id).isSome) ids
    ((({} : FileBatch)).withAccountId accountId)
  rw [← hfold] at hvanished hchanges
  have hmem : ∀ a change k, (a, change, k) ∈ fold.changes ↔
      a = accountId ∧ change = .delete ∧ k ∈ ids ∧ (store accountId).node k ≠ none := by
    intro a change k
    rw [hchanges]
    constructor
    · rintro (h | ⟨k', hk', hstored, heq⟩)
      · cases h
      · obtain ⟨rfl, rfl, rfl⟩ := heq
        exact ⟨rfl, rfl, hk', Option.isSome_iff_ne_none.1 hstored⟩
    · rintro ⟨rfl, rfl, hk, hstored⟩
      exact .inr ⟨k, hk, Option.isSome_iff_ne_none.2 hstored, rfl⟩
  have haccount : fold.currentAccountId = some accountId := by
    rw [hfold]
    generalize hbatch : (({} : FileBatch)).withAccountId accountId = batch
    have hstart : batch.currentAccountId = some accountId := hbatch ▸ rfl
    clear hbatch hfold hvanished hchanges hmem
    induction ids generalizing batch with
    | nil => exact hstart
    | cons id ids ih =>
      rw [foldl_cons]
      refine ih _ ?_
      split
      · rfl
      · exact hstart
  cases path with
  | none =>
    have hdestroy : destroyFiles store accountId ids none = fold := hfold.symm
    rw [hdestroy]
    exact ⟨hmem, fun _ => hvanished, fun p hp => nomatch hp⟩
  | some path =>
    have hdestroy : destroyFiles store accountId ids (some path) =
        if fold.writes = [] then fold else fold.logVanishedItem path := by
      rw [hfold]
      rfl
    rw [hdestroy]
    refine ⟨fun a change k => ?_, fun h => absurd h (Option.some_ne_none path), ?_⟩
    · rw [← hmem]
      split
      · exact Iff.rfl
      · unfold FileBatch.logVanishedItem
        rw [haccount]
    · rintro p hp ⟨k, hk, hstored⟩
      obtain ⟨value, hwrite⟩ := FileBatch.exists_write fold
        ((hmem accountId .delete k).2 ⟨rfl, rfl, hk, hstored⟩)
      rw [if_neg (ne_nil_of_mem hwrite)]
      unfold FileBatch.logVanishedItem
      rw [haccount, hvanished, Option.some.inj hp]
      rfl

theorem overwriteBatch_log (hvalid : Validated server (fun a => (trees a).toFileAccount) isMove m) :
    (m.overwriteBatch fun a => (trees a).toFileAccount).vanished = [] ∧
      ∀ a change k, (a, change, k) ∈ (m.overwriteBatch fun a => (trees a).toFileAccount).changes ↔
        m.isOverwrite ∧ a = m.toAccountId ∧ change = .delete ∧
          ∃ q, PathOf (trees m.toAccountId).toFileAccount k q ∧
            m.destinationResourceName <+: q := by
  cases hover : m.isOverwrite with
  | false =>
    rw [overwriteBatch_of_not hover]
    refine ⟨rfl, fun a change k => ⟨fun h => absurd h not_mem_nil, fun h => ?_⟩⟩
    cases h.1
  | true =>
    have hbatch : (m.overwriteBatch fun a => (trees a).toFileAccount) =
        destroyFiles (fun a => (trees a).toFileAccount) m.toAccountId
          (filesToDelete m.toResources m.destinationResourceName) none := by
      unfold CopyMove.overwriteBatch
      rw [if_pos hover, hvalid.account]
    rw [hbatch]
    obtain ⟨hchanges, hvanished, -⟩ := destroyFiles_log (fun a => (trees a).toFileAccount)
      m.toAccountId (filesToDelete m.toResources m.destinationResourceName) none
    refine ⟨hvanished rfl, fun a change k => (hchanges a change k).trans ?_⟩
    rw [mem_filesToDelete hvalid.toResources]
    constructor
    · rintro ⟨ha, hchange, hq, -⟩
      exact ⟨rfl, ha, hchange, hq⟩
    · rintro ⟨-, ha, hchange, q, hpath, hpre⟩
      obtain ⟨n, hn⟩ := hpath.stored
      exact ⟨ha, hchange, ⟨q, hpath, hpre⟩, Option.ne_none_iff_exists'.2 ⟨n, hn⟩⟩

/-- **What becomes of a request.** -/
inductive Handled (server : FileServer) (trees : ℕ → FileTree) (request : CopyMoveRequest)
    (isMove : Bool) (outcome : Outcome) : Prop
  | refused : outcome.response.isSuccess = false → outcome.batches = [] →
      (∀ m, validateCopyMove server (fun a => (trees a).toFileAccount) request isMove = .ok m →
        m.hasQuota server isMove = false) → Handled server trees request isMove outcome
  | stopped {m : CopyMove} :
      validateCopyMove server (fun a => (trees a).toFileAccount) request isMove = .ok m →
      m.hasQuota server isMove → isMove = false →
      m.ClearsSource (m.Reach request.depth) → outcome.response.isSuccess = false →
      outcome.batches = [m.overwriteBatch fun a => (trees a).toFileAccount] →
      Handled server trees request isMove outcome
  | done {m : CopyMove} {batch : FileBatch} :
      validateCopyMove server (fun a => (trees a).toFileAccount) request isMove = .ok m →
      m.hasQuota server isMove → outcome.response.isSuccess →
      batch ∈ outcome.batches →
      (m.isOverwrite →
        m.overwriteBatch (fun a => (trees a).toFileAccount) ∈ outcome.batches) →
      (∀ b ∈ outcome.batches, b = batch ∨ b = m.overwriteBatch fun a => (trees a).toFileAccount) →
      Effect m request.depth isMove (cleared trees m) outcome.store batch →
      Handled server trees request isMove outcome

/-- **A request is refused, is stopped because clearing the destination has taken away some of what
it copies, or carries out its operation.** -/
theorem handle_cases (server : FileServer) (trees : ℕ → FileTree) (request : CopyMoveRequest)
    (isMove : Bool) :
    Handled server trees request isMove
      (handleFileCopyMoveRequest server (fun a => (trees a).toFileAccount) request isMove) := by
  unfold handleFileCopyMoveRequest
  cases hvalidate : validateCopyMove server (fun a => (trees a).toFileAccount) request isMove with
  | error response =>
    refine .refused (validateCopyMove_error hvalidate) rfl fun m hm => ?_
    rw [hvalidate] at hm
    cases hm
  | ok m =>
    have hvalid := validateCopyMove_spec hvalidate
    simp only
    cases hrename : m.isRename isMove with
    | true =>
      obtain ⟨base, name, node, hready, -, hparent⟩ := ready_cleared hvalid
      have hrename' := hrename
      unfold CopyMove.isRename at hrename'
      simp only [Bool.and_eq_true, beq_iff_eq, Option.isNone_iff_eq_none] at hrename'
      obtain ⟨⟨⟨⟨hnone, haccount⟩, hdest⟩, -⟩, hmove⟩ := hrename'
      have hsame := haccount.trans hvalid.account
      have hover : m.isOverwrite = false := by
        unfold CopyMove.isOverwrite
        rw [hnone]
      have hlogs : m.logsPath isMove := by
        unfold CopyMove.logsPath
        rw [hrename]
        rfl
      have hquota : m.hasQuota server isMove := by
        unfold CopyMove.hasQuota
        rw [hmove, hsame, beq_self_eq_true]
        rfl
      obtain ⟨after, batch, hoperate, hrelocated⟩ :=
        renameItem_spec hready hsame (hparent.symm.trans hdest)
      have hcleared := cleared_of_not trees hover
      rw [hcleared] at hoperate
      rw [hoperate]
      rw [← hlogs] at hrelocated
      exact .done hvalidate hquota rfl (.head _)
        (fun h => absurd (hover.symm.trans h) Bool.false_ne_true)
        (fun b hb => .inl (mem_singleton.1 hb)) (.relocated hmove (.inr hnone) hrelocated)
    | false =>
      rw [if_neg Bool.false_ne_true]
      cases hquota : m.hasQuota server isMove with
      | false =>
        refine .refused rfl rfl fun m' hm' => ?_
        rw [hvalidate] at hm'
        cases hm'
        exact hquota
      | true =>
        rw [Bool.not_true, if_neg Bool.false_ne_true]
        have hoperate := operate_effect request.depth hvalid hrename
        unfold cleared at hoperate
        rcases hoperate with ⟨response, after, batch, hoperate, hsuccess, heffect⟩ |
          ⟨hmove, hclears, after, hoperate⟩
        · rw [hoperate]
          refine .done hvalidate hquota ?_ (.tail _ (.head _))
            (fun _ => (.head _)) ?_ heffect
          · split
            · rfl
            · exact hsuccess
          · intro b hb
            exact (mem_cons.1 hb).symm.imp_left mem_singleton.1
        · rw [hoperate]
          refine .stopped hvalidate hquota hmove hclears ?_ rfl
          simp only
          split
          · rename_i h
            exact absurd (show Response.NOT_FOUND = Response.CREATED from h.2) (by decide)
          · rfl

end Operate

end MailServer.Dav
