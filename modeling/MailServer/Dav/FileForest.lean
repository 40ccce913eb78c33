import MailServer.Dav.FileOutcome

/-!
# The file hierarchy as a forest

Whether the files are still found from the root once they are copied, moved or renamed.

Principal results: `handle_isTree`, `hierarchy_kept_iff`.
-/

namespace MailServer.Dav

open InsertionMap ParentForest

/-- **Every parent chain ends at the root and goes through folders, and every file has its path in
the cache.** -/
structure Connected (account : FileAccount) : Prop where
  forest : Forest links (fun node => node.isContainer) account.node
  cached : ∃ paths, buildNestedHierarchy account.files = some paths ∧
    ∀ id node, account.node id = some node →
      ∃ d ∈ paths, d.documentId = id ∧ PathOf account id d.path

theorem IsTree.connected {account : FileAccount} (h : IsTree account) : Connected account := by
  obtain ⟨paths, hbuild, hcache⟩ := buildNestedHierarchy_spec h
  refine ⟨h.forest, paths, hbuild, fun id node hnode => ?_⟩
  obtain ⟨d, hd, rfl⟩ := hcache.complete id node hnode
  obtain ⟨-, -, -, hpath⟩ := hcache.sound d hd
  exact ⟨d, hd, rfl, hpath⟩

/-- The destination is in a folder, not below a source that is moved within its account, and nothing
that is moved to another account is deeper than its depth. -/
def KeepsHierarchy (trees : ℕ → FileTree) (m : CopyMove) (depth : Depth) (isMove : Bool) : Prop :=
  m.destination.isContainer ∧
  (isMove → m.fromAccountId = m.toAccountId →
    ¬ m.fromResourceName <+: m.destinationResourceName) ∧
  (isMove → m.fromAccountId ≠ m.toAccountId → m.fromResource.isContainer →
    depth = .One → ∀ k rest,
      PathOf (trees m.fromAccountId).toFileAccount k (m.fromResourceName ++ rest) →
        rest.length ≤ 1)

section Handle

variable {server : FileServer} {trees : ℕ → FileTree} {request : CopyMoveRequest} {isMove : Bool}
  {m : CopyMove} {depth : Depth} {after : FileStore} {batch : FileBatch}

section

variable (hvalid : Validated server (fun a => (trees a).toFileAccount) isMove m)
include hvalid

theorem container_of_existing {d : Destination} (hd : m.deleteDestination = some d) :
    m.destination.isContainer := by
  obtain ⟨-, -, id, n, -, hpath, -, -⟩ := hvalid.existing d hd
  obtain ⟨base, name, -, hdest, hbase⟩ := hvalid.place
  cases hdoc : m.destination.documentId with
  | none => exact hvalid.root hdoc
  | some p =>
    have htree := (trees m.toAccountId).tree
    rw [hdoc] at hbase
    obtain ⟨n', above, hn', habove, hconcat⟩ := hpath.hangs
    obtain ⟨rfl, -⟩ := List.append_inj' (hdest.symm.trans hconcat) rfl
    obtain ⟨parent, hparent, hkind⟩ := hvalid.parent p hdoc
    cases hup : links.up n' with
    | none =>
      rw [hup] at habove
      cases hbase.ne_nil habove
    | some p' =>
      rw [hup] at habove
      obtain ⟨parent', hparent', hinner⟩ := htree.forest.parents id n' p' hn' hup
      rw [htree.only hbase p' habove] at hparent'
      rw [hkind, Option.some.inj (hparent.symm.trans hparent')]
      exact hinner

theorem not_below_of_existing {d : Destination} (hd : m.deleteDestination = some d)
    (hfile : m.fromResource.isContainer = false) (hsame : m.fromAccountId = m.toAccountId) :
    ¬ m.fromResourceName <+: m.destinationResourceName := by
  intro hbelow
  obtain ⟨-, -, id, n, -, hpath, -, -⟩ := hvalid.existing d hd
  obtain ⟨source, hsource, hkind, -⟩ := hvalid.sourceNode
  rw [← hsame] at hpath
  have halone := alone_of_file (trees m.fromAccountId).tree hsource (hkind.symm.trans hfile)
    hvalid.source id _ hpath hbelow
  rw [halone] at hpath
  exact hvalid.apart hsame (hvalid.source.unique hpath ▸ List.prefix_rfl)

theorem pathOf_cleared_across (hacross : m.fromAccountId ≠ m.toAccountId) (k : ℕ)
    (q : FilePath) :
    PathOf (cleared trees m m.fromAccountId) k q ↔
      PathOf (trees m.fromAccountId).toFileAccount k q := by
  rw [(cleared_spec hvalid m.fromAccountId).2.1]
  exact and_iff_left fun h => hacross h.2.1.symm

/-- Everything below the source is deleted with it exactly when nothing is deeper than the depth
goes. -/
theorem reach_iff (hdelete : m.deletesSource depth isMove) :
    (∀ k rest, PathOf (trees m.fromAccountId).toFileAccount k (m.fromResourceName ++ rest) →
      m.Reach depth rest) ↔
    (m.fromResource.isContainer → depth = .One → ∀ k rest,
      PathOf (trees m.fromAccountId).toFileAccount k (m.fromResourceName ++ rest) →
        rest.length ≤ 1) := by
  unfold CopyMove.deletesSource at hdelete
  rw [Bool.and_eq_true] at hdelete
  cases hcontainer : m.fromResource.isContainer with
  | false =>
    obtain ⟨source, hsource, hkind, -⟩ := hvalid.sourceNode
    have hfile : source.isContainer = false := hkind.symm.trans hcontainer
    refine ⟨nofun, fun _ k rest hpath => ?_⟩
    have halone := alone_of_file (trees m.fromAccountId).tree hsource hfile hvalid.source k _
      hpath (List.prefix_append _ rest)
    rw [reach_alone m depth fun h => Bool.false_ne_true (hcontainer.symm.trans h.1)]
    rw [halone] at hpath
    exact List.self_eq_append_right.1 (hvalid.source.unique hpath)
  | true =>
    have hdepth : depth ≠ .Zero := by
      rintro rfl
      rw [hcontainer] at hdelete
      exact Bool.false_ne_true hdelete.2
    have hreach : ∀ rest, m.Reach depth rest ↔ (depth = .One → rest.length ≤ 1) := by
      intro rest
      unfold CopyMove.Reach reaches
      rw [if_pos ⟨hcontainer, hdepth⟩, decide_eq_true_eq]
      exact ⟨fun h hone => h.resolve_left (not_not_intro hone), fun h => by
        by_cases hone : depth = .One
        · exact .inr (h hone)
        · exact .inl hone⟩
    simp only [hreach]
    exact ⟨fun h _ hone k rest hpath => h k rest hpath hone,
      fun h k rest hpath hone => h trivial hone k rest hpath⟩

end

theorem Effect.tree (hvalid : Validated server (fun a => (trees a).toFileAccount) isMove m)
    (h : Effect m depth isMove (cleared trees m) after batch)
    (hkeeps : KeepsHierarchy trees m depth isMove) (a : ℕ) : IsTree (after a) := by
  obtain ⟨hcontainer, hnot, hwhole⟩ := hkeeps
  cases h with
  | relocated hmove hclear hrelocated =>
    obtain ⟨base, name, node, placed, hready, hplaced, hwrites⟩ := hrelocated.writes
    exact relocated_tree hready hrelocated.same hplaced hwrites (free_cleared hvalid hclear)
      hcontainer (hnot hmove hrelocated.same) a
  | copied hacross _ _ hcopied =>
    by_cases hto : a = m.toAccountId
    · exact hto ▸ hcopied.to_tree hcontainer
    · by_cases hfrom : m.deletesSource depth isMove ∧ a = m.fromAccountId
      · obtain ⟨hdelete, rfl⟩ := hfrom
        have hmove : isMove := (Bool.and_eq_true_iff.1 hdelete).1
        refine hcopied.from_tree hdelete fun k rest hpath => ?_
        exact (reach_iff hvalid hdelete).2 (hwhole hmove (hacross hmove)) k rest
          ((pathOf_cleared_across hvalid (hacross hmove) k _).1 hpath)
      · obtain ⟨hnode, hlast⟩ := hcopied.other a hto fun hdelete ha => hfrom ⟨hdelete, ha⟩
        exact (cleared_spec hvalid a).1.congr hnode hlast
  | overwritten _ _ _ _ hoverwritten => exact hoverwritten.tree a

theorem Effect.keeps (hvalid : Validated server (fun a => (trees a).toFileAccount) isMove m)
    (h : Effect m depth isMove (cleared trees m) after batch)
    (hforest : ∀ a, Forest links (fun node => node.isContainer) (after a).node) :
    KeepsHierarchy trees m depth isMove := by
  cases h with
  | relocated hmove hclear hrelocated =>
    obtain ⟨base, name, node, placed, hready, hplaced, hwrites⟩ := hrelocated.writes
    obtain ⟨hcontainer, hnot⟩ :=
      relocated_forest hready hrelocated.same hplaced hwrites (hforest m.toAccountId)
    exact ⟨hcontainer, fun _ _ => hnot, fun _ hacross => absurd hrelocated.same hacross⟩
  | copied hacross _ _ hcopied =>
    refine ⟨hcopied.to_forest (hforest m.toAccountId),
      fun hmove hsame => absurd hsame (hacross hmove), fun hmove _ hcontainer hone => ?_⟩
    have hdelete : m.deletesSource depth isMove := by
      unfold CopyMove.deletesSource
      rw [hmove, hcontainer, hone]
      rfl
    refine (reach_iff hvalid hdelete).1 (fun k rest hpath => ?_) hcontainer hone
    exact hcopied.from_forest hdelete (hforest m.fromAccountId) k rest
      ((pathOf_cleared_across hvalid (hacross hmove) k _).2 hpath)
  | overwritten hd _ _ hfile _ =>
    exact ⟨container_of_existing hvalid hd, fun _ => not_below_of_existing hvalid hd hfile,
      fun _ _ hcontainer => absurd (hfile.symm.trans hcontainer) Bool.false_ne_true⟩

/-- **A request that keeps the hierarchy leaves trees.** -/
theorem handle_isTree (hkeeps : ∀ m, validateCopyMove server (fun a => (trees a).toFileAccount)
      request isMove = .ok m → m.hasQuota server isMove →
        KeepsHierarchy trees m request.depth isMove)
    (hsuccess : (handleFileCopyMoveRequest server (fun a => (trees a).toFileAccount) request
      isMove).response.isSuccess) (a : ℕ) :
    IsTree ((handleFileCopyMoveRequest server (fun a => (trees a).toFileAccount) request
      isMove).store a) := by
  cases handle_cases server trees request isMove with
  | refused hfailed _ _ | stopped _ _ _ _ hfailed _ =>
    cases hfailed.symm.trans hsuccess
  | done hvalidate hquota _ _ _ _ heffect =>
    exact heffect.tree (validateCopyMove_spec hvalidate) (hkeeps _ hvalidate hquota) a

/-- **Every file keeps a path exactly when the destination is in a folder, is not below a source
that is moved, and a folder moved to another account moves whole.** -/
theorem hierarchy_kept_iff (server : FileServer) (trees : ℕ → FileTree) (request : CopyMoveRequest)
    (isMove : Bool) :
    ((handleFileCopyMoveRequest server (fun a => (trees a).toFileAccount) request
        isMove).response.isSuccess →
      ∀ a, Connected ((handleFileCopyMoveRequest server (fun a => (trees a).toFileAccount) request
        isMove).store a)) ↔
    ∀ m, validateCopyMove server (fun a => (trees a).toFileAccount) request isMove = .ok m →
      m.hasQuota server isMove → KeepsHierarchy trees m request.depth isMove := by
  refine ⟨fun hconnected m hm hquota => ?_, fun hkeeps hsuccess a =>
    (handle_isTree hkeeps hsuccess a).connected⟩
  have hvalid := validateCopyMove_spec hm
  have hsame : ∀ {m'}, validateCopyMove server (fun a => (trees a).toFileAccount) request isMove =
      .ok m' → m' = m := fun hm' => Except.ok.inj (hm'.symm.trans hm)
  cases handle_cases server trees request isMove with
  | refused _ _ hnone => cases (hnone m hm).symm.trans hquota
  | stopped hm' _ hmove hclears _ _ =>
    obtain rfl := hsame hm'
    obtain ⟨-, hover, -⟩ := hclears
    obtain ⟨d, hd⟩ := existing_of_isOverwrite hover
    exact ⟨container_of_existing hvalid hd, fun h => absurd (hmove.symm.trans h) Bool.false_ne_true,
      fun h => absurd (hmove.symm.trans h) Bool.false_ne_true⟩
  | done hm' _ hsuccess _ _ _ heffect =>
    obtain rfl := hsame hm'
    exact heffect.keeps hvalid fun a => (hconnected hsuccess a).forest

end Handle

/-! ## A folder moved below itself -/

/-- One folder, at the root. -/
def loneFolder : FileTree where
  files := [(1, ⟨0, "a", none, []⟩)]
  lastId := 1
  nodup := by decide
  tree := isTree_of_ascending (by decide)

/-- Moves the folder to a new name below itself. -/
def moveBelowItself : CopyMoveRequest where
  uri := some ⟨0, some ["a"]⟩
  destination := some ⟨.fileNode, some 0, some ["a", "b"]⟩
  overwriteFail := false
  depth := .Infinity

/-- The user's own account, with no conditions and no quota. -/
def ownAccount : FileServer where
  primaryId := 0
  isMember := fun _ => true
  isMember_primary := rfl
  validateHeaders := fun _ _ _ => true
  validateDelete := fun _ => true
  hasAvailableQuota := fun _ _ => true

/-- **A folder that is moved below itself becomes its own parent, and the request succeeds.** -/
theorem moved_below_itself :
    ¬ ∀ (server : FileServer) (trees : ℕ → FileTree) (request : CopyMoveRequest) (isMove : Bool),
      (handleFileCopyMoveRequest server (fun a => (trees a).toFileAccount) request
          isMove).response.isSuccess →
        ∀ a, Connected ((handleFileCopyMoveRequest server (fun a => (trees a).toFileAccount) request
          isMove).store a) := by
  intro hall
  have hconnected := hall ownAccount (fun _ => loneFolder) moveBelowItself true (by decide) 0
  have hstored : ((handleFileCopyMoveRequest ownAccount (fun _ => loneFolder.toFileAccount)
      moveBelowItself true).store 0).node 1 = some ⟨2, "b", none, []⟩ := by decide
  obtain ⟨path, hpath⟩ := hconnected.forest.rooted 1 _ hstored
  -- Its path would be one name longer than itself.
  obtain ⟨n, base, hn, hbase, hconcat⟩ := hpath.hangs
  cases hn.symm.trans hstored
  have heq := hpath.unique (show HasPath links _ 1 base from hbase)
  rw [heq] at hconcat
  cases List.cons_ne_nil _ _ (List.self_eq_append_right.1 hconcat)

end MailServer.Dav
