import MailServer.Dav.FileOutcome

/-!
# Rights on the destination of a copy or move

Which rights a user who is not a member of the destination's account has on what a copy or move
request writes there. The handler looks them up among the resources of the source's account.

Principal results: `fetchDavResources_withAcls`, `writes_granted`, `rights_kept_iff`.
-/

namespace MailServer.Dav

open InsertionMap ParentForest List

/-! ## Grants -/

/-- The document grants the right to the user or to a group of theirs. -/
def Granted (server : FileServer) (account : FileAccount) (documentId : ℕ) (right : Acl) : Prop :=
  ∃ node, account.node documentId = some node ∧
    ∃ acl ∈ node.acls, server.isMember acl.accountId ∧ right ∈ acl.grants

section Grants

variable {server : FileServer} {resources : DavResources} {account : FileAccount} {k : ℕ}
  {right : Acl}

theorem granted_of_hasAccess (h : resources.Of account)
    (haccess : resources.hasAccessToContainer server.isMember k right) :
    Granted server account k right := by
  unfold DavResources.hasAccessToContainer at haccess
  rw [h.find_eq] at haccess
  cases hnode : account.node k with
  | none =>
    rw [hnode] at haccess
    cases haccess
  | some node =>
    simp only [hnode] at haccess
    cases hfind : node.acls.find? fun acl => server.isMember acl.accountId with
    | none =>
      rw [hfind] at haccess
      cases haccess
    | some acl =>
      rw [hfind] at haccess
      have hmember := find?_some hfind
      exact ⟨node, hnode, acl, mem_of_find?_eq_some hfind, hmember,
        contains_iff_mem.1 haccess⟩

theorem granted_of_shared (h : resources.Of account) {rights : List Acl}
    (hshared : (resources.sharedContainers server.isMember rights).contains k)
    (hright : right ∈ rights) : Granted server account k right := by
  unfold DavResources.sharedContainers at hshared
  rw [contains_iff_mem, mem_map] at hshared
  obtain ⟨⟨id, node⟩, hmem, rfl⟩ := hshared
  rw [mem_filter, any_eq_true, h.same] at hmem
  obtain ⟨hfile, acl, hacl, hgrants⟩ := hmem
  rw [Bool.and_eq_true, all_eq_true] at hgrants
  exact ⟨node, mem_files.1 hfile, acl, hacl, hgrants.1,
    contains_iff_mem.1 (hgrants.2 right hright)⟩

theorem source_granted {store : FileStore} {isMove : Bool} {m : CopyMove}
    (hvalid : Validated server store isMove m) (hmove : isMove)
    (hmember : server.isMember m.fromAccountId = false) :
    Granted server (store m.fromAccountId) m.fromResource.documentId .Delete := by
  have hallowed := hvalid.source_allowed
  unfold sourceAllowed at hallowed
  rw [hmember, Bool.false_or, hmove, all_eq_true] at hallowed
  obtain ⟨d, hd, hid⟩ := mem_map.1 ((mem_subtree hvalid.fromResources).2
    ⟨m.fromResourceName, hvalid.source, prefix_rfl⟩)
  have hshared := hallowed d hd
  rw [hid] at hshared
  exact granted_of_shared hvalid.fromResources hshared (.tail _ (.head _))

end Grants

/-! ## Changing the grants of an account -/

def FileAccount.withAcls (account : FileAccount) (acls : ℕ → List AclGrant) : FileAccount where
  files := account.files.map fun entry => (entry.1, { entry.2 with acls := acls entry.1 })
  lastId := account.lastId
  nodup := by
    unfold InsertionMap.keys
    rw [map_map]
    exact account.nodup

section WithAcls

variable {account : FileAccount} {acls : ℕ → List AclGrant} {resources : DavResources}

theorem node_withAcls (k : ℕ) :
    (account.withAcls acls).node k =
      (account.node k).map fun node => { node with acls := acls k } := by
  have hmem : ∀ node, (account.withAcls acls).node k = some node ↔
      ∃ old, account.node k = some old ∧ { old with acls := acls k } = node := by
    intro node
    rw [← mem_files]
    unfold FileAccount.withAcls
    rw [mem_map]
    constructor
    · rintro ⟨⟨id, old⟩, hold, heq⟩
      obtain ⟨rfl, rfl⟩ := heq
      exact ⟨old, mem_files.1 hold, rfl⟩
    · rintro ⟨old, hold, rfl⟩
      exact ⟨(k, old), mem_files.2 hold, rfl⟩
  refine Option.ext fun node => ?_
  rw [hmem, Option.map_eq_some_iff]

/-- **The ACLs of an account are part of no path.** -/
theorem fetchDavResources_withAcls (h : fetchDavResources account = some resources) :
    fetchDavResources (account.withAcls acls) =
      some { resources with resources := (account.withAcls acls).files } := by
  have hbuild : buildNestedHierarchy (account.withAcls acls).files =
      buildNestedHierarchy account.files := by
    have hedges : hierarchyEdges (account.withAcls acls).files = hierarchyEdges account.files := by
      unfold hierarchyEdges FileAccount.withAcls
      rw [map_map]
      rfl
    have hnames : hierarchyNames (account.withAcls acls).files = hierarchyNames account.files := by
      unfold hierarchyNames FileAccount.withAcls
      rw [map_map]
      rfl
    unfold buildNestedHierarchy
    rw [hedges, hnames]
  unfold fetchDavResources at h ⊢
  rw [hbuild]
  obtain ⟨paths, hpaths, rfl⟩ := Option.map_eq_some_iff.1 h
  rw [hpaths]
  rfl

end WithAcls

/-! ## What a request writes in the destination's account -/

/-- **What is written in the destination's account is granted by that account, whatever the ACLs of
another one.** -/
structure RightsKept (server : FileServer) (store : FileStore) (request : CopyMoveRequest)
    (isMove : Bool) (m : CopyMove) : Prop where
  granted : ∀ batch ∈ (handleFileCopyMoveRequest server store request isMove).batches,
    ∀ k value, (m.toAccountId, k, value) ∈ batch.writes →
      (∃ parent, m.destination.documentId = some parent ∧
        Granted server (store m.toAccountId) parent .Modify) ∧
      ((store m.toAccountId).node k ≠ none → Granted server (store m.toAccountId) k .Delete)
  independent : m.fromAccountId ≠ m.toAccountId → ∀ acls resources,
    fetchDavResources ((store m.fromAccountId).withAcls acls) = some resources →
      destinationAllowed server resources m.destination m.deleteDestination =
        destinationAllowed server m.fromResources m.destination m.deleteDestination

/-- Either the destination's own account is asked, and nothing below a folder that is overwritten
lacks the right, or the account that is asked has no document of that number. -/
structure OwnRightsDecide (server : FileServer) (store : FileStore) (request : CopyMoveRequest)
    (isMove : Bool) (m : CopyMove) : Prop where
  same : m.fromAccountId = m.toAccountId →
    validateCopyMove server store request isMove = .ok m → m.hasQuota server isMove →
      m.isOverwrite → ∀ k q, PathOf (store m.toAccountId) k q →
        m.destinationResourceName <+: q → Granted server (store m.toAccountId) k .Delete
  across : m.fromAccountId ≠ m.toAccountId → ∀ parent,
    m.destination.documentId = some parent → (store m.fromAccountId).node parent = none ∨
      ∃ d id, m.deleteDestination = some d ∧ d.documentId = some id ∧
        (store m.fromAccountId).node id = none

section Rights

variable {server : FileServer} {trees : ℕ → FileTree} {request : CopyMoveRequest} {isMove : Bool}
  {m : CopyMove}

theorem destinationAllowed_iff (haccount : m.destination.accountId = m.toAccountId)
    (hmember : server.isMember m.toAccountId = false) (resources : DavResources) :
    destinationAllowed server resources m.destination m.deleteDestination ↔
      ∃ parent, m.destination.documentId = some parent ∧
        resources.hasAccessToContainer server.isMember parent .Modify ∧
        ∀ d, m.deleteDestination = some d →
          resources.hasAccessToContainer server.isMember (d.documentId.getD 0) .Delete := by
  unfold destinationAllowed
  rw [haccount, hmember]
  cases m.destination.documentId with
  | none => simp
  | some parent =>
    cases m.deleteDestination with
    | none => simp
    | some d => simp [and_comm]

theorem located_destination
    (h : Located server (fun a => (trees a).toFileAccount) request isMove m) :
    m.destination.accountId = m.toAccountId ∧
      ∀ d, m.deleteDestination = some d → ∃ id, d.documentId = some id := by
  have htoOf := fetchDavResources_of (trees m.toAccountId).tree h.fetched_to
  obtain ⟨haccount, -, -, -, -, hexisting⟩ := mapDestination_spec htoOf h.mapped
  refine ⟨haccount, fun d hd => ?_⟩
  obtain ⟨-, -, id, -, hid, -⟩ := hexisting d hd
  exact ⟨id, hid⟩

/-- **Within one account, what a request writes is granted, but for what is below a folder that is
overwritten.** -/
theorem writes_granted (hvalidate : validateCopyMove server (fun a => (trees a).toFileAccount)
      request isMove = .ok m) (hsame : m.fromAccountId = m.toAccountId)
    (hmember : server.isMember m.toAccountId = false)
    (hbelow : m.isOverwrite → ∀ k q, PathOf (trees m.toAccountId).toFileAccount k q →
      m.destinationResourceName <+: q →
        Granted server (trees m.toAccountId).toFileAccount k .Delete)
    {depth : Depth} {after : FileStore} {batch : FileBatch}
    (heffect : Effect m depth isMove (cleared trees m) after batch) {k : ℕ} {change : ItemChange}
    (hchange : (m.toAccountId, change, k) ∈ batch.changes)
    (hstored : (trees m.toAccountId).node k ≠ none) :
    Granted server (trees m.toAccountId).toFileAccount k .Delete := by
  have hvalid := validateCopyMove_spec hvalidate
  have hsource : isMove →
      Granted server (trees m.toAccountId).toFileAccount m.fromResource.documentId .Delete := by
    intro hmove
    have h := source_granted hvalid hmove (hsame.symm ▸ hmember)
    rw [hsame] at h
    exact h
  cases heffect with
  | relocated hmove _ hrelocated =>
    rw [hrelocated.changes, mem_singleton, Prod.mk.injEq, Prod.mk.injEq] at hchange
    exact hchange.2.2 ▸ hsource hmove
  | copied hacross _ _ hcopied =>
    rcases (hcopied.changes _ _ _).1 hchange with ⟨-, -, d, hd⟩ | ⟨hdelete, -⟩
    · -- A copy gets a number that was free, unless clearing the destination freed it.
      have hnone := hcopied.fresh d k hd
      rw [node_cleared hvalid] at hnone
      split at hnone
      · rename_i hover
        obtain ⟨hover, -, hmem⟩ := hover
        obtain ⟨q, hq, hpre⟩ := (mem_filesToDelete hvalid.toResources).1 hmem
        exact hbelow hover k q hq hpre
      · cases hstored hnone
    · cases hacross (Bool.and_eq_true_iff.1 hdelete).1 hsame
  | overwritten hd hid _ _ hoverwritten =>
    rcases (hoverwritten.changes _ _ _).1 hchange with ⟨-, -, rfl⟩ | ⟨hmove, -, -, rfl⟩
    · obtain ⟨-, -, -, hexisting⟩ := (destinationAllowed_iff hvalid.account hmember _).1
        hvalid.destination_allowed
      have haccess := hexisting _ hd
      rw [hid] at haccess
      have h := granted_of_hasAccess hvalid.fromResources haccess
      rw [hsame] at h
      exact h
    · exact hsource hmove

theorem batches_of_not_allowed {store : FileStore}
    (hlocate : locateCopyMove server store request isMove = .ok m)
    (hnot : destinationAllowed server m.fromResources m.destination m.deleteDestination = false) :
    (handleFileCopyMoveRequest server store request isMove).batches = [] := by
  unfold handleFileCopyMoveRequest validateCopyMove
  rw [hlocate]
  simp only [hnot]
  rfl

theorem hasAccess_missing {account : FileAccount} {resources : DavResources} {acls}
    (h : fetchDavResources account = some resources) {resources' : DavResources}
    (h' : fetchDavResources (account.withAcls acls) = some resources') {k : ℕ}
    (hnone : account.node k = none) (right : Acl) :
    resources'.hasAccessToContainer server.isMember k right = false := by
  rw [fetchDavResources_withAcls h, Option.some_inj] at h'
  subst h'
  have hfind : find k (account.withAcls acls).files = none := by
    change (account.withAcls acls).node k = none
    rw [node_withAcls, hnone]
    rfl
  unfold DavResources.hasAccessToContainer
  rw [hfind]

/-- The same grants on every document to the user alone. -/
def grantAll (server : FileServer) (grants : List Acl) : ℕ → List AclGrant :=
  fun _ => [⟨server.primaryId, grants⟩]

theorem hasAccess_grantAll {account : FileAccount} {grants : List Acl} {k : ℕ}
    (hstored : account.node k ≠ none) {right : Acl} (paths : List DavPath) :
    (DavResources.mk (account.withAcls (grantAll server grants)).files paths).hasAccessToContainer
      server.isMember k right = grants.contains right := by
  obtain ⟨node, hnode⟩ := Option.ne_none_iff_exists'.1 hstored
  have hfind : find k (account.withAcls (grantAll server grants)).files =
      some { node with acls := grantAll server grants k } := by
    change (account.withAcls _).node k = _
    rw [node_withAcls, hnode]
    rfl
  unfold DavResources.hasAccessToContainer
  simp only [hfind, grantAll, find?_cons, server.isMember_primary]

/-- **A user outside the destination's account writes there by the rights of that account alone
exactly when the handler asks that account and nothing below an overwritten folder lacks the
right.** -/
theorem rights_kept_iff (server : FileServer) (trees : ℕ → FileTree) (request : CopyMoveRequest)
    (isMove : Bool) :
    (∀ m, locateCopyMove server (fun a => (trees a).toFileAccount) request isMove = .ok m →
      server.isMember m.toAccountId = false →
        RightsKept server (fun a => (trees a).toFileAccount) request isMove m) ↔
    ∀ m, locateCopyMove server (fun a => (trees a).toFileAccount) request isMove = .ok m →
      server.isMember m.toAccountId = false →
        OwnRightsDecide server (fun a => (trees a).toFileAccount) request isMove m := by
  refine forall_congr' fun m => forall_congr' fun hlocate => forall_congr' fun hmember => ?_
  have hlocated := locateCopyMove_eq_ok hlocate
  obtain ⟨haccount, hexisting⟩ := located_destination hlocated
  have hsameRequest : ∀ {m'}, validateCopyMove server (fun a => (trees a).toFileAccount) request
      isMove = .ok m' → m' = m := fun hm' =>
    Except.ok.inj ((validateCopyMove_eq_ok hm').1.symm.trans hlocate)
  constructor
  · intro hkept
    refine ⟨fun hsame hvalidate hquota hover k q hpath hpre => ?_, fun hacross parent hparent => ?_⟩
    · -- Clearing the destination deletes all that is below it.
      have hvalid := validateCopyMove_spec hvalidate
      have hchange := ((overwriteBatch_log hvalid).2 m.toAccountId .delete k).2
        ⟨hover, rfl, rfl, q, hpath, hpre⟩
      obtain ⟨value, hwrite⟩ := FileBatch.exists_write _ hchange
      have hmem : (m.overwriteBatch fun a => (trees a).toFileAccount) ∈
          (handleFileCopyMoveRequest server (fun a => (trees a).toFileAccount) request
            isMove).batches := by
        cases handle_cases server trees request isMove with
        | refused _ _ hnone =>
          cases (hnone m hvalidate).symm.trans hquota
        | stopped hm' _ _ _ _ hbatches =>
          obtain rfl := hsameRequest hm'
          rw [hbatches]
          exact .head _
        | done hm' _ _ _ hcleared _ _ =>
          obtain rfl := hsameRequest hm'
          exact hcleared hover
      obtain ⟨node, hnode⟩ := hpath.stored
      refine (hkept.granted _ hmem k value hwrite).2 ?_
      exact Option.ne_none_iff_exists'.2 ⟨node, hnode⟩
    · by_contra hnot
      rw [not_or] at hnot
      obtain ⟨hstored, hdestination⟩ := hnot
      -- With all rights granted there the check passes, with none it does not.
      have hcheck : ∀ grants, destinationAllowed server
          (DavResources.mk ((trees m.fromAccountId).withAcls (grantAll server grants)).files
            m.fromResources.paths) m.destination m.deleteDestination =
          destinationAllowed server m.fromResources m.destination m.deleteDestination :=
        fun grants => hkept.independent hacross _ _ (fetchDavResources_withAcls
          hlocated.fetched_from)
      have hall : destinationAllowed server m.fromResources m.destination m.deleteDestination =
          true := by
        rw [← hcheck [.Modify, .Delete], destinationAllowed_iff haccount hmember]
        refine ⟨parent, hparent, (hasAccess_grantAll hstored _).trans (by decide), fun d hd => ?_⟩
        obtain ⟨id, hid⟩ := hexisting d hd
        rw [hid]
        refine (hasAccess_grantAll (fun hnone => hdestination ⟨d, id, hd, hid, hnone⟩) _).trans ?_
        decide
      rw [← hcheck [], destinationAllowed_iff haccount hmember] at hall
      obtain ⟨parent', hparent', haccess, -⟩ := hall
      cases hparent'.symm.trans hparent
      rw [hasAccess_grantAll hstored] at haccess
      exact Bool.false_ne_true haccess
  · intro hdecide
    -- The check of another account with no such documents fails, whatever its ACLs.
    have hrefused : m.fromAccountId ≠ m.toAccountId → ∀ resources : DavResources,
        (∀ id right, (trees m.fromAccountId).toFileAccount.node id = none →
          resources.hasAccessToContainer server.isMember id right = false) →
        destinationAllowed server resources m.destination m.deleteDestination = false := by
      intro hacross resources hnoAccess
      rw [Bool.eq_false_iff]
      intro hallowed
      obtain ⟨parent, hparent, haccess, haccess'⟩ :=
        (destinationAllowed_iff haccount hmember resources).1 hallowed
      rcases hdecide.across hacross parent hparent with hnone | ⟨d, id, hd, hid, hnone⟩
      · rw [hnoAccess parent _ hnone] at haccess
        exact Bool.false_ne_true haccess
      · have h := haccess' d hd
        rw [hid, Option.getD_some, hnoAccess id _ hnone] at h
        exact Bool.false_ne_true h
    have hmissing : m.fromAccountId ≠ m.toAccountId → ∀ acls resources,
        fetchDavResources ((trees m.fromAccountId).withAcls acls) = some resources →
          destinationAllowed server resources m.destination m.deleteDestination = false :=
      fun hacross acls resources hfetch => hrefused hacross resources fun id right hnone =>
        hasAccess_missing hlocated.fetched_from hfetch hnone right
    have hown : m.fromAccountId ≠ m.toAccountId →
        destinationAllowed server m.fromResources m.destination m.deleteDestination = false := by
      refine fun hacross => hrefused hacross _ fun id right hnone => ?_
      rw [Bool.eq_false_iff]
      intro haccess
      obtain ⟨node, hnode, -⟩ := granted_of_hasAccess
        (fetchDavResources_of (trees m.fromAccountId).tree hlocated.fetched_from) haccess
      cases hnode.symm.trans hnone
    refine ⟨fun batch hbatch k value hwrite => ?_, fun hacross acls resources hfetch =>
      (hmissing hacross acls resources hfetch).trans (hown hacross).symm⟩
    by_cases hsame : m.fromAccountId = m.toAccountId
    · obtain ⟨change, hchange⟩ := FileBatch.exists_change _ hwrite
      have hrights : ∀ (hvalidate : validateCopyMove server (fun a => (trees a).toFileAccount)
          request isMove = .ok m), ∃ parent, m.destination.documentId = some parent ∧
            Granted server (trees m.toAccountId).toFileAccount parent .Modify := by
        intro hvalidate
        have hvalid := validateCopyMove_spec hvalidate
        obtain ⟨parent, hparent, haccess, -⟩ := (destinationAllowed_iff haccount hmember _).1
          hvalid.destination_allowed
        have h := granted_of_hasAccess hvalid.fromResources haccess
        rw [hsame] at h
        exact ⟨parent, hparent, h⟩
      cases handle_cases server trees request isMove with
      | refused _ hnone _ =>
        rw [hnone] at hbatch
        cases hbatch
      | stopped hm' hquota _ _ _ hbatches =>
        obtain rfl := hsameRequest hm'
        rw [hbatches, mem_singleton] at hbatch
        rw [hbatch] at hchange
        obtain ⟨hover, -, -, q, hpath, hpre⟩ :=
          ((overwriteBatch_log (validateCopyMove_spec hm')).2 _ _ _).1 hchange
        exact ⟨hrights hm', fun _ => hdecide.same hsame hm' hquota hover k q hpath hpre⟩
      | done hm' hquota _ _ _ hbatches heffect =>
        obtain rfl := hsameRequest hm'
        refine ⟨hrights hm', fun hstored => ?_⟩
        rcases hbatches batch hbatch with rfl | rfl
        · exact writes_granted hm' hsame hmember (hdecide.same hsame hm' hquota) heffect hchange
            hstored
        · obtain ⟨hover, -, -, q, hpath, hpre⟩ :=
            ((overwriteBatch_log (validateCopyMove_spec hm')).2 _ _ _).1 hchange
          exact hdecide.same hsame hm' hquota hover k q hpath hpre
    · rw [batches_of_not_allowed hlocate (hown hsame)] at hbatch
      cases hbatch

end Rights

/-! ## A folder of another account with the same number -/

/-- A file, and a folder that its owner shares with themselves. -/
def sourceTree : FileTree where
  files := [(1, ⟨0, "shared", none, [⟨0, [.Modify]⟩]⟩), (2, ⟨0, "f", some 5, []⟩)]
  lastId := 2
  nodup := by decide
  tree := isTree_of_ascending (by decide)

/-- A folder that is shared with nobody, and one that the user may read, so that addresses of the
account are not refused. -/
def privateTree : FileTree where
  files := [(1, ⟨0, "private", none, []⟩), (2, ⟨0, "public", none, [⟨0, [.Read]⟩]⟩)]
  lastId := 2
  nodup := by decide
  tree := isTree_of_ascending (by decide)

/-- The accounts, the user's own being the first. -/
def twoAccounts (accountId : ℕ) : FileTree := if accountId = 0 then sourceTree else privateTree

/-- A user with no other account than their own. -/
def loneUser : FileServer where
  primaryId := 0
  isMember := fun accountId => decide (accountId = 0)
  isMember_primary := rfl
  validateHeaders := fun _ _ _ => true
  validateDelete := fun _ => true
  hasAvailableQuota := fun _ _ => true

/-- Copies the file into the folder of the other account. -/
def copyIntoPrivate : CopyMoveRequest where
  uri := some ⟨0, some ["f"]⟩
  destination := some ⟨.fileNode, some 1, some ["private", "f"]⟩
  overwriteFail := false
  depth := .Infinity

/-- **A file is copied into a folder that grants nothing, because a folder of the user's own account
has the same number.** -/
theorem copied_into_private :
    ¬ ∀ (server : FileServer) (trees : ℕ → FileTree) (request : CopyMoveRequest) (isMove : Bool),
      ∀ m, locateCopyMove server (fun a => (trees a).toFileAccount) request isMove = .ok m →
        server.isMember m.toAccountId = false →
          RightsKept server (fun a => (trees a).toFileAccount) request isMove m := by
  intro hall
  have hto : ((locateCopyMove loneUser (fun a => (twoAccounts a).toFileAccount) copyIntoPrivate
      false).toOption.map (·.toAccountId)) = some 1 := by decide
  cases hlocate : locateCopyMove loneUser (fun a => (twoAccounts a).toFileAccount) copyIntoPrivate
      false with
  | error response =>
    rw [hlocate] at hto
    cases hto
  | ok m =>
    rw [hlocate] at hto
    have haccount : m.toAccountId = 1 := Option.some.inj hto
    have hmember : loneUser.isMember m.toAccountId = false := by
      rw [haccount]
      rfl
    have hwritten : ∃ batch ∈ (handleFileCopyMoveRequest loneUser
        (fun a => (twoAccounts a).toFileAccount) copyIntoPrivate false).batches,
        ∃ write ∈ batch.writes, write.1 = 1 := by decide
    obtain ⟨batch, hbatch, ⟨a, k, value⟩, hwrite, rfl⟩ := hwritten
    have hkept := hall loneUser twoAccounts copyIntoPrivate false m hlocate hmember
    rw [← haccount] at hwrite
    obtain ⟨⟨parent, -, node, hnode, acl, hacl, hmodify⟩, -⟩ :=
      hkept.granted batch hbatch k value hwrite
    rw [haccount] at hnode
    -- The other account lets nobody modify anything.
    have hnone : ∀ file ∈ (twoAccounts 1).files, ∀ acl ∈ file.2.acls, .Modify ∉ acl.grants := by
      decide
    exact hnone (parent, node) (mem_files.2 hnode) acl hacl hmodify.2

end MailServer.Dav
