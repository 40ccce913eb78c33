import MailServer.Lib.ParentForest
import MailServer.Lib.TopologicalSort

/-!
# The tree of file nodes and its cache

The file nodes of an account (`groupware/src/file/mod.rs`), which point at their parents, and the
paths that the resource cache gives them (`groupware/src/cache/file.rs`). Names have no slash, so a
path is kept as the list of the names between its slashes.

Principal results: `buildNestedHierarchy_spec`, `isTree_of_ascending`, `node_write`.
-/

namespace MailServer.Dav

open InsertionMap ParentForest List

/-! ## File nodes -/

inductive Acl where
  | Read | Modify | Delete | ReadItems | AddItems | ModifyItems | RemoveItems | CreateChild | Share
  | Submit | SchedulingReadFreeBusy | SchedulingInvite | SchedulingReply | ModifyItemsOwn
  | ModifyPrivateProperties | ModifyRSVP | None
deriving DecidableEq

structure AclGrant where
  accountId : ℕ
  grants : List Acl
deriving DecidableEq

/-- A file, with the size of its contents, or a folder. The parent is stored with one added, zero
being the root. -/
structure FileNode where
  parentId : ℕ
  name : String
  size : Option ℕ
  acls : List AclGrant
deriving DecidableEq

def FileNode.isContainer (node : FileNode) : Bool := node.size.isNone

/-- The parent as the cache keeps it. -/
def FileNode.parent (node : FileNode) : Option ℕ :=
  if 0 < node.parentId then some (node.parentId - 1) else none

/-- A path, split at its slashes. -/
abbrev FilePath := List String

/-- The archives of an account by document, and its counter of document ids. -/
structure FileAccount where
  files : InsertionMap ℕ FileNode
  lastId : ℕ
  nodup : (keys files).Nodup

def FileAccount.node (account : FileAccount) (documentId : ℕ) : Option FileNode :=
  find documentId account.files

/-- Stores an archive, or clears it. -/
def FileAccount.write (account : FileAccount) (documentId : ℕ) (value : Option FileNode) :
    FileAccount where
  files := match value with
    | some node => InsertionMap.insert documentId node account.files
    | none => remove documentId account.files
  lastId := account.lastId
  nodup := by
    cases value with
    | some node => exact nodup_keys_alter account.nodup
    | none => exact nodup_keys_remove account.nodup

/-- **A write changes the node it is for and no other.** -/
theorem node_write (account : FileAccount) (documentId : ℕ) (value : Option FileNode) :
    (account.write documentId value).node = Function.update account.node documentId value := by
  funext id
  cases value with
  | some node =>
    by_cases h : id = documentId
    · subst h
      rw [Function.update_self]
      exact find_insert.trans (if_pos rfl)
    · rw [Function.update_of_ne h]
      exact find_insert.trans (if_neg h)
  | none =>
    by_cases h : id = documentId
    · subst h
      rw [Function.update_self]
      exact find_remove.trans (if_pos rfl)
    · rw [Function.update_of_ne h]
      exact find_remove.trans (if_neg h)

/-- How file nodes form a tree. -/
def links : Links ℕ FileNode String where
  up := FileNode.parent
  label := FileNode.name

/-- The path of a node, from the root down. -/
abbrev PathOf (account : FileAccount) : ℕ → FilePath → Prop := HasPath links account.node

/-- **Every parent chain ends at the root and goes through folders, siblings have different names,
and the counter of document ids is past every node.** -/
structure IsTree (account : FileAccount) : Prop where
  forest : Forest links (fun node => node.isContainer) account.node
  distinct : Distinct links account.node
  bounded : ∀ id node, account.node id = some node → id ≤ account.lastId

/-- An account whose file nodes form a tree. -/
structure FileTree extends FileAccount where
  tree : IsTree toFileAccount

/-! ## The cache -/

structure DavPath where
  path : FilePath
  parentId : Option ℕ
  hierarchySeq : ℕ
  documentId : ℕ
deriving DecidableEq

/-- The edges given to the topological sort, the root being zero. -/
def hierarchyEdges (files : InsertionMap ℕ FileNode) : List (ℕ × ℕ) :=
  files.map fun entry => (entry.2.parent.elim 0 (· + 1), entry.1 + 1)

/-- The names of the nodes before they are placed. -/
def hierarchyNames (files : InsertionMap ℕ FileNode) : InsertionMap ℕ DavPath :=
  files.map fun entry => (entry.1, ⟨[entry.2.name], entry.2.parent, 0, entry.1⟩)

/-- The loop body of `build_nested_hierarchy`; a node that is not stored makes it panic. -/
def placeFolder (names : InsertionMap ℕ DavPath) (folder : ℕ × ℕ) :
    Option (InsertionMap ℕ DavPath) :=
  if folder.1 = 0 then some names
  else
    match find (folder.1 - 1) names with
    | none => none
    | some name =>
      match name.parentId.bind fun parentId => find parentId names with
      | some parent =>
        some (InsertionMap.insert (folder.1 - 1)
          { name with path := parent.path ++ name.path, hierarchySeq := folder.2 } names)
      | none =>
        some (InsertionMap.insert (folder.1 - 1) { name with hierarchySeq := folder.2 } names)

/-- `build_nested_hierarchy`, or nothing when it panics. -/
def buildNestedHierarchy (files : InsertionMap ℕ FileNode) : Option (List DavPath) :=
  ((TopologicalSort.order (TopologicalSort.ofEdges (hierarchyEdges files))).zipIdx.foldlM
    placeFolder (hierarchyNames files)).map fun names => names.map Prod.snd

/-- **The cached paths are those of the stored nodes, and parents come before their children.** -/
structure CacheOf (account : FileAccount) (paths : List DavPath) : Prop where
  complete : ∀ id node, account.node id = some node → ∃ d ∈ paths, d.documentId = id
  sound : ∀ d ∈ paths, ∃ node, account.node d.documentId = some node ∧
    d.parentId = node.parent ∧ PathOf account d.documentId d.path
  nodup : (paths.map (·.documentId)).Nodup
  inj : ∀ d ∈ paths, ∀ d' ∈ paths, d.documentId = d'.documentId → d = d'
  ordered : ∀ d ∈ paths, ∀ d' ∈ paths, d.parentId = some d'.documentId →
    d'.hierarchySeq < d.hierarchySeq
  seq_inj : ∀ d ∈ paths, ∀ d' ∈ paths, d.hierarchySeq = d'.hierarchySeq → d = d'

section Build

variable {account : FileAccount} {id : ℕ} {node : FileNode}

theorem mem_files : (id, node) ∈ account.files ↔ account.node id = some node :=
  (find_eq_some account.nodup).symm

theorem mem_hierarchyEdges {x y : ℕ} :
    (x, y) ∈ hierarchyEdges account.files ↔
      ∃ id node, account.node id = some node ∧ x = node.parent.elim 0 (· + 1) ∧ y = id + 1 := by
  unfold hierarchyEdges
  rw [mem_map]
  constructor
  · rintro ⟨⟨id, node⟩, hmem, heq⟩
    rw [Prod.mk.injEq] at heq
    exact ⟨id, node, mem_files.1 hmem, heq.1.symm, heq.2.symm⟩
  · rintro ⟨id, node, hnode, rfl, rfl⟩
    exact ⟨(id, node), mem_files.2 hnode, rfl⟩

theorem nodup_hierarchyEdges (account : FileAccount) :
    ((hierarchyEdges account.files).map Prod.snd).Nodup := by
  unfold hierarchyEdges
  rw [map_map]
  have hids : ((account.files.map Prod.fst).map (· + 1)).Nodup :=
    account.nodup.map fun _ _ h => Nat.succ.inj h
  rw [map_map] at hids
  exact hids

/-- The order in which the nodes are placed, each with one added. -/
def placed (account : FileAccount) : List ℕ :=
  TopologicalSort.order (TopologicalSort.ofEdges (hierarchyEdges account.files))

theorem mem_placed_of_pathOf {path : FilePath} (h : PathOf account id path) :
    id + 1 ∈ placed account := by
  obtain ⟨-, hmem, -⟩ := TopologicalSort.order_spec (nodup_hierarchyEdges account)
  induction h with
  | @top id node hnode hup =>
    have hedge : (0, id + 1) ∈ hierarchyEdges account.files :=
      mem_hierarchyEdges.2 ⟨id, node, hnode, by rw [show node.parent = none from hup]; rfl, rfl⟩
    refine (hmem _).2 (.inr ⟨0, (hmem 0).2 (.inl ⟨⟨_, hedge⟩, fun x hx => ?_⟩), hedge⟩)
    obtain ⟨id', -, -, -, hzero⟩ := mem_hierarchyEdges.1 hx
    exact Nat.succ_ne_zero id' hzero.symm
  | @child id p node path hnode hup hp ih =>
    have hedge : (p + 1, id + 1) ∈ hierarchyEdges account.files :=
      mem_hierarchyEdges.2 ⟨id, node, hnode, by
        rw [show node.parent = some p from hup]; rfl, rfl⟩
    exact (hmem _).2 (.inr ⟨p + 1, ih, hedge⟩)

def ParentsStored (account : FileAccount) : Prop :=
  ∀ id node p, account.node id = some node → node.parent = some p →
    ∃ parent, account.node p = some parent

theorem IsTree.parentsStored (htree : IsTree account) : ParentsStored account := by
  intro id node p hnode hup
  obtain ⟨parent, hparent, -⟩ := htree.forest.parents id node p hnode hup
  exact ⟨parent, hparent⟩

theorem stored_of_mem_placed (hstored : ParentsStored account) {y : ℕ} (h : y ∈ placed account)
    (hy : y ≠ 0) : ∃ node, account.node (y - 1) = some node := by
  obtain ⟨-, hmem, -⟩ := TopologicalSort.order_spec (nodup_hierarchyEdges account)
  rcases (hmem y).1 h with ⟨⟨z, hz⟩, hsource⟩ | ⟨x, -, hedge⟩
  · obtain ⟨id, node, hnode, rfl, -⟩ := mem_hierarchyEdges.1 hz
    cases hup : node.parent with
    | none =>
      rw [hup] at hy
      cases hy rfl
    | some p =>
      exact hstored id node p hnode hup
  · obtain ⟨id, node, hnode, -, rfl⟩ := mem_hierarchyEdges.1 hedge
    exact ⟨node, hnode⟩

/-- What the names are once some of the nodes are placed. -/
structure PlacedNames (account : FileAccount) (pre : List ℕ) (names : InsertionMap ℕ DavPath) :
    Prop where
  same_keys : keys names = keys account.files
  entries : ∀ id node, account.node id = some node → ∃ d, find id names = some d ∧
    d.documentId = id ∧ d.parentId = node.parent ∧
    (id + 1 ∈ pre → PathOf account id d.path ∧ pre[d.hierarchySeq]? = some (id + 1)) ∧
    (id + 1 ∉ pre → d.path = [node.name])

theorem placedNames_nil : PlacedNames account [] (hierarchyNames account.files) := by
  have hkeys : keys (hierarchyNames account.files) = keys account.files := by
    unfold hierarchyNames InsertionMap.keys
    rw [map_map]
    rfl
  refine ⟨hkeys, fun id node hnode => ?_⟩
  refine ⟨⟨[node.name], node.parent, 0, id⟩, ?_, rfl, rfl, fun h => absurd h not_mem_nil,
    fun _ => rfl⟩
  rw [find_eq_some (hkeys ▸ account.nodup)]
  exact mem_map.2 ⟨(id, node), mem_files.2 hnode, rfl⟩

/-- Placing the next node when its parent is placed already. -/
theorem PlacedNames.place {pre : List ℕ} {names} {y : ℕ}
    (h : PlacedNames account pre names) (hfresh : y ∉ pre)
    (hstored : y ≠ 0 → ∃ node, account.node (y - 1) = some node)
    (hbefore : ∀ x, (x, y) ∈ hierarchyEdges account.files → x ∈ pre)
    (hparents : ParentsStored account) :
    ∃ names', placeFolder names (y, pre.length) = some names' ∧
      PlacedNames account (pre ++ [y]) names' := by
  have hkeep : ∀ {s n : ℕ}, pre[s]? = some n → (pre ++ [y])[s]? = some n := by
    intro s n hs
    rw [List.getElem?_append_left (List.getElem?_eq_some_iff.1 hs).1]
    exact hs
  have hmem : ∀ {n : ℕ}, n ≠ y → (n ∈ pre ++ [y] ↔ n ∈ pre) := by
    intro n hn
    rw [mem_append, mem_singleton]
    exact or_iff_left hn
  by_cases hy : y = 0
  · refine ⟨names, by rw [placeFolder, if_pos hy], h.same_keys, fun id node hnode => ?_⟩
    obtain ⟨d, hd, hid, hparent, hin, hout⟩ := h.entries id node hnode
    have hne : id + 1 ≠ y := by omega
    refine ⟨d, hd, hid, hparent, fun hmem' => ?_, fun hmem' => hout (mt (hmem hne).2 hmem')⟩
    obtain ⟨hpath, hseq⟩ := hin ((hmem hne).1 hmem')
    exact ⟨hpath, hkeep hseq⟩
  · obtain ⟨node, hnode⟩ := hstored hy
    obtain ⟨d, hd, hid, hparent, -, hout⟩ := h.entries (y - 1) node hnode
    have hy' : y - 1 + 1 = y := Nat.succ_pred_eq_of_ne_zero hy
    rw [hy'] at hout
    have hname := hout hfresh
    -- The entry of the node gets its whole path, the others keep theirs.
    have hplaced : ∃ path, placeFolder names (y, pre.length) = some (InsertionMap.insert (y - 1)
        { d with path := path, hierarchySeq := pre.length } names) ∧
        PathOf account (y - 1) path := by
      unfold placeFolder
      rw [if_neg hy]
      simp only [hd, hparent]
      cases hup : node.parent with
      | none =>
        refine ⟨d.path, rfl, ?_⟩
        rw [hname]
        exact .top hnode hup
      | some p =>
        have hedge : (p + 1, y) ∈ hierarchyEdges account.files :=
          mem_hierarchyEdges.2 ⟨y - 1, node, hnode, by rw [hup]; rfl, hy'.symm⟩
        obtain ⟨parent, hp⟩ := hparents (y - 1) node p hnode hup
        obtain ⟨dp, hdp, -, -, hin, -⟩ := h.entries p parent hp
        refine ⟨dp.path ++ d.path, by rw [Option.bind_some, hdp], ?_⟩
        rw [hname]
        exact .child hnode hup (hin (hbefore (p + 1) hedge)).1
    obtain ⟨path, hplace, hpath⟩ := hplaced
    refine ⟨_, hplace, ?_, fun id' node' hnode' => ?_⟩
    · have hkey : y - 1 ∈ keys names := by
        rw [h.same_keys]
        exact mem_keys_of_mem (mem_files.2 hnode)
      rw [InsertionMap.insert, keys_alter, if_pos hkey]
      exact h.same_keys
    · obtain ⟨d', hd', hid', hparent', hin', hout'⟩ := h.entries id' node' hnode'
      by_cases heq : id' = y - 1
      · subst heq
        have hsame : node' = node := Option.some.inj (hnode'.symm.trans hnode)
        refine ⟨_, find_insert.trans (if_pos rfl), hid, hsame ▸ hparent, fun _ => ?_,
          fun hnot => ?_⟩
        · refine ⟨hpath, ?_⟩
          rw [hy']
          exact getElem?_concat_length
        · rw [hy'] at hnot
          cases hnot (mem_append_right pre (.head _))
      · have hne : id' + 1 ≠ y := by omega
        refine ⟨d', find_insert.trans ((if_neg heq).trans hd'), hid', hparent', fun hmem' => ?_,
          fun hmem' => hout' (mt (hmem hne).2 hmem')⟩
        obtain ⟨hpath', hseq'⟩ := hin' ((hmem hne).1 hmem')
        exact ⟨hpath', hkeep hseq'⟩

theorem placeFolders (hparents : ParentsStored account) {pre post : List ℕ}
    {names} (hsplit : placed account = pre ++ post)
    (h : PlacedNames account pre names) :
    ∃ names', (post.zipIdx pre.length).foldlM placeFolder names = some names' ∧
      PlacedNames account (placed account) names' := by
  obtain ⟨hnodup, -, horder⟩ :=
    TopologicalSort.order_spec (nodup_hierarchyEdges account)
  induction post generalizing pre names with
  | nil =>
    rw [append_nil] at hsplit
    exact ⟨names, rfl, hsplit ▸ h⟩
  | cons y post ih =>
    have hmem : y ∈ placed account := by
      rw [hsplit]
      exact mem_append_right pre (.head _)
    have hfresh : y ∉ pre := by
      have hnd : (pre ++ y :: post).Nodup := hsplit ▸ hnodup
      exact fun hy => (disjoint_of_nodup_append hnd) hy (.head _)
    obtain ⟨names', hstep, hplaced⟩ := h.place hfresh (stored_of_mem_placed hparents hmem)
      (horder pre y post hsplit) hparents
    have hsplit' : placed account = (pre ++ [y]) ++ post := by
      rw [hsplit, append_assoc, singleton_append]
    obtain ⟨names'', hrest, hall⟩ := ih hsplit' hplaced
    refine ⟨names'', ?_, hall⟩
    rw [length_append] at hrest
    rw [zipIdx_cons, foldlM_cons, hstep]
    exact hrest

/-- **What the paths are**: those of the placed nodes are complete, the others keep their name. -/
structure PlacedPaths (account : FileAccount) (paths : List DavPath) : Prop where
  complete : ∀ id node, account.node id = some node → ∃ d ∈ paths, d.documentId = id
  entry : ∀ d ∈ paths, ∃ node, account.node d.documentId = some node ∧
    d.parentId = node.parent ∧
    (d.documentId + 1 ∈ placed account → PathOf account d.documentId d.path ∧
      (placed account)[d.hierarchySeq]? = some (d.documentId + 1)) ∧
    (d.documentId + 1 ∉ placed account → d.path = [node.name])
  nodup : (paths.map (·.documentId)).Nodup

theorem exists_placedPaths (hparents : ParentsStored account) :
    ∃ paths, buildNestedHierarchy account.files = some paths ∧ PlacedPaths account paths := by
  obtain ⟨names, hnames, hplaced⟩ := placeFolders hparents (nil_append _).symm placedNames_nil
  have hkeys : (keys names).Nodup := hplaced.same_keys ▸ account.nodup
  have hentry : ∀ entry ∈ names, ∃ node, account.node entry.1 = some node ∧
      entry.2.documentId = entry.1 ∧ entry.2.parentId = node.parent ∧
      (entry.1 + 1 ∈ placed account → PathOf account entry.1 entry.2.path ∧
        (placed account)[entry.2.hierarchySeq]? = some (entry.1 + 1)) ∧
      (entry.1 + 1 ∉ placed account → entry.2.path = [node.name]) := by
    intro entry hmem
    have hkey : entry.1 ∈ keys account.files := hplaced.same_keys ▸ mem_keys_of_mem hmem
    obtain ⟨⟨id, node⟩, hfile, heq⟩ := mem_map.1 hkey
    rw [show id = entry.1 from heq] at hfile
    have hnode := mem_files.1 hfile
    obtain ⟨d, hfind, hid, hrest⟩ := hplaced.entries entry.1 node hnode
    cases hfind.symm.trans ((find_eq_some hkeys).2 hmem)
    exact ⟨node, hnode, hid, hrest⟩
  have hids : (names.map Prod.snd).map (·.documentId) = keys names := by
    rw [map_map]
    refine map_congr_left fun entry hmem => ?_
    obtain ⟨-, -, hid, -⟩ := hentry entry hmem
    exact hid
  refine ⟨names.map Prod.snd, ?_, fun id node hnode => ?_, fun d hd => ?_, hids ▸ hkeys⟩
  · exact congrArg (Option.map fun names => names.map Prod.snd) hnames
  · obtain ⟨d, hfind, hid, -⟩ := hplaced.entries id node hnode
    exact ⟨d, mem_map.2 ⟨(id, d), (find_eq_some hkeys).1 hfind, rfl⟩, hid⟩
  · obtain ⟨entry, hmem, rfl⟩ := mem_map.1 hd
    obtain ⟨node, hnode, hid, hrest⟩ := hentry entry hmem
    exact ⟨node, by rw [hid]; exact hnode, by rw [hid]; exact hrest⟩

theorem PlacedPaths.inj {paths : List DavPath} (h : PlacedPaths account paths) :
    ∀ d ∈ paths, ∀ d' ∈ paths, d.documentId = d'.documentId → d = d' :=
  fun _ hd _ hd' heq => inj_on_of_nodup_map h.nodup hd hd' heq

/-- A node is placed after its parent. -/
theorem seq_lt {x y s s' : ℕ} (hedge : (x, y) ∈ hierarchyEdges account.files)
    (hx : (placed account)[s]? = some x) (hy : (placed account)[s']? = some y) : s < s' := by
  obtain ⟨hnodup, -, horder⟩ := TopologicalSort.order_spec (nodup_hierarchyEdges account)
  obtain ⟨hlt, hget⟩ := List.getElem?_eq_some_iff.1 hy
  have hsplit : placed account =
      (placed account).take s' ++ y :: (placed account).drop (s' + 1) := by
    rw [← hget, ← drop_eq_getElem_cons hlt, take_append_drop]
  obtain ⟨n, hn, hget'⟩ := mem_iff_getElem.1 (horder _ _ _ hsplit _ hedge)
  rw [getElem_take] at hget'
  rw [length_take] at hn
  obtain ⟨hlt', hget''⟩ := List.getElem?_eq_some_iff.1 hx
  have hindex : n = s := (hnodup.getElem_inj_iff).1 (hget'.trans hget''.symm)
  omega

/-- **The cache of a tree gives every stored node its path, and numbers parents before their
children.** -/
theorem buildNestedHierarchy_spec (htree : IsTree account) :
    ∃ paths, buildNestedHierarchy account.files = some paths ∧ CacheOf account paths := by
  obtain ⟨paths, hbuild, hplaced⟩ := exists_placedPaths htree.parentsStored
  refine ⟨paths, hbuild, ?_⟩
  have hentry : ∀ d ∈ paths, ∃ node, account.node d.documentId = some node ∧
      d.parentId = node.parent ∧ PathOf account d.documentId d.path ∧
      (placed account)[d.hierarchySeq]? = some (d.documentId + 1) := by
    intro d hd
    obtain ⟨node, hnode, hparent, hin, -⟩ := hplaced.entry d hd
    obtain ⟨path, hpath⟩ := htree.forest.rooted d.documentId node hnode
    exact ⟨node, hnode, hparent, hin (mem_placed_of_pathOf hpath)⟩
  refine ⟨hplaced.complete, fun d hd => ?_, hplaced.nodup, hplaced.inj,
    fun d hd d' hd' hparent => ?_, fun d hd d' hd' hseq => ?_⟩
  · obtain ⟨node, hnode, hparent, hpath, -⟩ := hentry d hd
    exact ⟨node, hnode, hparent, hpath⟩
  · obtain ⟨node, hnode, hup, -, hplace⟩ := hentry d hd
    obtain ⟨-, -, -, -, hplace'⟩ := hentry d' hd'
    exact seq_lt (mem_hierarchyEdges.2 ⟨d.documentId, node, hnode, by rw [← hup, hparent]; rfl,
      rfl⟩) hplace' hplace
  · obtain ⟨-, -, -, -, hplace⟩ := hentry d hd
    obtain ⟨-, -, -, -, hplace'⟩ := hentry d' hd'
    rw [hseq, hplace'] at hplace
    exact hplaced.inj d hd d' hd' (Nat.succ.inj (Option.some.inj hplace)).symm

end Build

/-! ## A check -/

/-- A check that the account passes when every file was added below a folder older than it. -/
def FileAccount.ascending (account : FileAccount) : Bool :=
  account.files.all fun entry => decide (entry.1 ≤ account.lastId) &&
    (entry.2.parent.all fun parentId => decide (parentId < entry.1) &&
      account.files.any fun parent => decide (parent.1 = parentId) && parent.2.isContainer) &&
    account.files.all fun other => decide (other.2.parent = entry.2.parent →
      other.2.name = entry.2.name → other.1 = entry.1)

/-- **An account that passes the check is a tree.** -/
theorem isTree_of_ascending {account : FileAccount} (h : account.ascending) :
    IsTree account := by
  have hfiles : ∀ id node, account.node id = some node → (id, node) ∈ account.files :=
    fun id node hnode => mem_files.2 hnode
  have hentry : ∀ id node, account.node id = some node → id ≤ account.lastId ∧
      (∀ p, node.parent = some p → p < id ∧
        ∃ parent, account.node p = some parent ∧ parent.isContainer) ∧
      ∀ id' node', account.node id' = some node' → node'.parent = node.parent →
        node'.name = node.name → id' = id := by
    intro id node hnode
    have hall := all_eq_true.1 h _ (hfiles id node hnode)
    simp only [Bool.and_eq_true, decide_eq_true_eq, all_eq_true] at hall
    obtain ⟨⟨hbound, hparent⟩, hother⟩ := hall
    refine ⟨hbound, fun p hp => ?_, fun id' node' hnode' => hother _ (hfiles id' node' hnode')⟩
    rw [hp, Option.all_some, Bool.and_eq_true, decide_eq_true_eq, any_eq_true] at hparent
    obtain ⟨hlt, ⟨q, parent⟩, hmem, hkind⟩ := hparent
    rw [Bool.and_eq_true, decide_eq_true_eq] at hkind
    obtain ⟨rfl, hcontainer⟩ := hkind
    exact ⟨hlt, parent, mem_files.1 hmem, hcontainer⟩
  refine ⟨⟨fun id => ?_, fun id node p hnode hup => ?_⟩, fun id id' node node' hnode hnode' hup
    hname => ?_, fun id node hnode => (hentry id node hnode).1⟩
  · -- A parent has a smaller number than its children.
    induction id using Nat.strong_induction_on with
    | _ id ih =>
      intro node hnode
      cases hup : node.parent with
      | none => exact ⟨_, .top hnode hup⟩
      | some p =>
        obtain ⟨hlt, parent, hparent, -⟩ := (hentry id node hnode).2.1 p hup
        obtain ⟨path, hpath⟩ := ih p hlt parent hparent
        exact ⟨_, .child hnode hup hpath⟩
  · exact ((hentry id node hnode).2.1 p hup).2
  · exact (hentry id' node' hnode').2.2 id node hnode hup hname

end MailServer.Dav
