import MailServer.Dav.FileCache
import MailServer.Store.ValueClass
import Mathlib.Data.List.Sort

/-!
# Copying, moving and deleting files

`handle_file_copy_move_request` and the operations it chooses from (`dav/src/file/copy_move.rs`),
and `handle_file_delete_request` (`dav/src/file/delete.rs`), over the file nodes of all accounts.
The times that a node keeps and its contents, but for their size, are left out.

Principal results: `validateCopyMove_spec`, `node_commit`.
-/

namespace MailServer.Dav

open InsertionMap ParentForest List
open MailServer.Store (Collection)

/-! ## Cached resources -/

structure DavResources where
  resources : InsertionMap ℕ FileNode
  paths : List DavPath

/-- `fetch_dav_resources`, or nothing when building the cache panics. -/
def fetchDavResources (account : FileAccount) : Option DavResources :=
  (buildNestedHierarchy account.files).map fun paths => ⟨account.files, paths⟩

def DavResources.byPath (resources : DavResources) (name : FilePath) : Option DavPath :=
  resources.paths.find? fun path => decide (path.path = name)

def DavResources.isContainer (resources : DavResources) (path : DavPath) : Bool :=
  match find path.documentId resources.resources with
  | some node => node.isContainer
  | none => false

/-- The path and everything below it. -/
def DavResources.subtree (resources : DavResources) (searchPath : FilePath) : List DavPath :=
  resources.paths.filter fun path => searchPath.isPrefixOf path.path

/-- The path and what is at most `depth` names below it. -/
def DavResources.subtreeWithDepth (resources : DavResources) (searchPath : FilePath)
    (depth : ℕ) : List DavPath :=
  resources.paths.filter fun path =>
    searchPath.isPrefixOf path.path && decide (path.path.length ≤ searchPath.length + depth)

/-- The parent of a path, if it is not at the root, and the last name of the path. -/
def DavResources.mapParent (resources : DavResources) (resource : FilePath) :
    Option (Option DavPath × String) :=
  match resource.getLast? with
  | none => none
  | some child =>
    if resource.dropLast = [] then some (none, child)
    else (resources.byPath resource.dropLast).map fun parent => (some parent, child)

/-- `shared_containers` with all of the rights asked for. -/
def DavResources.sharedContainers (resources : DavResources) (isMember : ℕ → Bool)
    (checkAcls : List Acl) : List ℕ :=
  (resources.resources.filter fun entry => entry.2.acls.any fun acl =>
    isMember acl.accountId && checkAcls.all fun right => acl.grants.contains right).map Prod.fst

/-- `has_access_to_container`: the first grant to the user decides. -/
def DavResources.hasAccessToContainer (resources : DavResources) (isMember : ℕ → Bool)
    (documentId : ℕ) (checkAcl : Acl) : Bool :=
  match find documentId resources.resources with
  | none => false
  | some node =>
    match node.acls.find? fun acl => isMember acl.accountId with
    | some acl => acl.grants.contains checkAcl
    | none => false

/-! ## Batches -/

abbrev FileStore := ℕ → FileAccount

inductive ItemChange where
  | insert | update | delete
deriving DecidableEq

/-- A path that is gone; that of a folder ends in a slash. -/
structure VanishedPath where
  path : FilePath
  collection : Bool

/-- The archives a batch writes, and an entry of the change log for each, in its account. -/
structure FileBatch where
  currentAccountId : Option ℕ := none
  writes : List (ℕ × ℕ × Option FileNode) := []
  changes : List (ℕ × ItemChange × ℕ) := []
  vanished : List (ℕ × VanishedPath) := []
  logged : writes.map (fun write => (write.1, write.2.1)) =
    changes.map fun change => (change.1, change.2.2) := by rfl

variable (batch : FileBatch)

theorem FileBatch.exists_change {a k : ℕ} {value}
    (h : (a, k, value) ∈ batch.writes) : ∃ change, (a, change, k) ∈ batch.changes := by
  have hmem : (a, k) ∈ batch.writes.map fun write => (write.1, write.2.1) :=
    mem_map.2 ⟨_, h, rfl⟩
  rw [batch.logged] at hmem
  obtain ⟨⟨a', change, k'⟩, hchange, heq⟩ := mem_map.1 hmem
  obtain ⟨rfl, rfl⟩ := heq
  exact ⟨change, hchange⟩

theorem FileBatch.exists_write {a k : ℕ} {change : ItemChange}
    (h : (a, change, k) ∈ batch.changes) : ∃ value, (a, k, value) ∈ batch.writes := by
  have hmem : (a, k) ∈ batch.changes.map fun change => (change.1, change.2.2) :=
    mem_map.2 ⟨_, h, rfl⟩
  rw [← batch.logged] at hmem
  obtain ⟨⟨a', k', value⟩, hwrite, heq⟩ := mem_map.1 hmem
  obtain ⟨rfl, rfl⟩ := heq
  exact ⟨value, hwrite⟩

def FileBatch.withAccountId (accountId : ℕ) : FileBatch :=
  { batch with currentAccountId := some accountId }

/-- An archive and its log entry, in the account selected for it. -/
def FileBatch.change (batch : FileBatch) (accountId documentId : ℕ) (change : ItemChange)
    (value : Option FileNode) : FileBatch where
  currentAccountId := some accountId
  writes := batch.writes ++ [(accountId, documentId, value)]
  changes := batch.changes ++ [(accountId, change, documentId)]
  vanished := batch.vanished
  logged := by
    rw [map_append, map_append, batch.logged]
    rfl

variable (accountId documentId : ℕ)

/-- `FileNode::insert`. -/
def FileBatch.insertNode (node : FileNode) :
    FileBatch := batch.change accountId documentId .insert (some node)

/-- `FileNode::update`. -/
def FileBatch.updateNode (node : FileNode) :
    FileBatch := batch.change accountId documentId .update (some node)

/-- `ObjectIndexBuilder` with a current node only. -/
def FileBatch.deleteNode : FileBatch :=
  batch.change accountId documentId .delete none

/-- `BatchBuilder::log_vanished_item`, which needs an account to be selected. -/
def FileBatch.logVanishedItem (item : VanishedPath) : FileBatch :=
  match batch.currentAccountId with
  | some accountId => { batch with vanished := batch.vanished ++ [(accountId, item)] }
  | none => batch

def writeArchive (store : FileStore) (write : ℕ × ℕ × Option FileNode) : FileStore :=
  Function.update store write.1 ((store write.1).write write.2.1 write.2.2)

def commitBatch (store : FileStore) (batch : FileBatch) : FileStore :=
  batch.writes.foldl writeArchive store

/-- `assign_document_ids`: the last of the ids, which count down from it. -/
def assignDocumentIds (store : FileStore) (accountId numIds : ℕ) : ℕ × FileStore :=
  ((store accountId).lastId + numIds,
    Function.update store accountId
      { store accountId with lastId := (store accountId).lastId + numIds })

/-! ## Requests -/

inductive Depth where
  | Zero | One | Infinity | None
deriving DecidableEq

structure OwnedUri where
  accountId : ℕ
  resource : Option FilePath

structure FileUri where
  collection : Collection
  accountId : Option ℕ
  resource : Option FilePath

/-- The addresses of the request, none where they are missing or not allowed, and its headers. -/
structure CopyMoveRequest where
  uri : Option OwnedUri
  destination : Option FileUri
  overwriteFail : Bool
  depth : Depth

/-- What the handlers ask about the user: the accounts they are a member of, whether the headers
hold of a source and a destination document, or of a document that is deleted, and the quota left.
-/
structure FileServer where
  primaryId : ℕ
  isMember : ℕ → Bool
  isMember_primary : isMember primaryId
  validateHeaders : ℕ × ℕ → ℕ × Option ℕ → Bool → Bool
  validateDelete : ℕ × ℕ → Bool
  hasAvailableQuota : ℕ → ℕ → Bool

inductive Response where
  | CREATED | NO_CONTENT | BAD_GATEWAY | PRECONDITION_FAILED | CONFLICT | FORBIDDEN | NOT_FOUND
  | refused | panicked
deriving DecidableEq

def Response.isSuccess : Response → Bool
  | .CREATED | .NO_CONTENT => true
  | _ => false

structure FileItemId where
  documentId : ℕ
  parentId : Option ℕ
  isContainer : Bool

structure Destination where
  accountId : ℕ
  newName : Option String
  documentId : Option ℕ
  isContainer : Bool

def fileItemId (resources : DavResources) (item : DavPath) : FileItemId where
  documentId := item.documentId
  parentId := item.parentId
  isContainer := resources.isContainer item

/-- `Destination::from_dav_resource`, with the account it is given later. -/
def destinationOf (resources : DavResources) (accountId : ℕ) (item : DavPath) : Destination where
  accountId := accountId
  newName := none
  documentId := some item.documentId
  isContainer := resources.isContainer item

/-- What the checks of a request leave to be carried out. -/
structure CopyMove where
  fromAccountId : ℕ
  fromResources : DavResources
  fromResource : FileItemId
  fromResourceName : FilePath
  toAccountId : ℕ
  toResources : DavResources
  destinationResourceName : FilePath
  destination : Destination
  deleteDestination : Option Destination

/-! ## Checks -/

/-- The check of the source's access rights. -/
def sourceAllowed (server : FileServer) (fromAccountId : ℕ) (fromResources : DavResources)
    (fromResourceName : FilePath) (isMove : Bool) : Bool :=
  server.isMember fromAccountId ||
    (fromResources.subtree fromResourceName).all fun resource =>
      (fromResources.sharedContainers server.isMember
        (if isMove then [.Read, .Delete] else [.Read])).contains resource.documentId

/-- The check of the destination's access rights. -/
def destinationAllowed (server : FileServer) (fromResources : DavResources)
    (destination : Destination) (deleteDestination : Option Destination) : Bool :=
  match destination.documentId with
  | some documentId =>
    (match deleteDestination with
      | some deleteDestination =>
        server.isMember destination.accountId ||
          fromResources.hasAccessToContainer server.isMember
            (deleteDestination.documentId.getD 0) .Delete
      | none => true) &&
    (server.isMember destination.accountId ||
      fromResources.hasAccessToContainer server.isMember documentId .Modify)
  | none => server.isMember destination.accountId

/-- The parent of the destination, or the root, with the name to be given. -/
def destinationAt (toResources : DavResources) (toAccountId : ℕ) (parent : Option DavPath)
    (newName : String) : Destination :=
  match parent with
  | some parent => { destinationOf toResources toAccountId parent with newName := some newName }
  | none =>
    { accountId := toAccountId, newName := some newName, documentId := none,
      isContainer := true }

/-- The destination and what is there already, which must not be when it may not be overwritten. -/
def mapDestination (toAccountId : ℕ) (toResources : DavResources) (overwriteFail : Bool)
    (destinationResourceName : FilePath) : Except Response (Destination × Option Destination) :=
  match toResources.mapParent destinationResourceName with
  | none => .error .CONFLICT
  | some (parent, newName) =>
    let destination := destinationAt toResources toAccountId parent newName
    match toResources.byPath destinationResourceName with
    | none => .ok (destination, none)
    | some existing =>
      if overwriteFail then .error .PRECONDITION_FAILED
      else .ok (destination, some (destinationOf toResources toAccountId existing))

/-- What `handle_file_copy_move_request` finds out before it checks the rights on the
destination. -/
def locateCopyMove (server : FileServer) (store : FileStore) (request : CopyMoveRequest)
    (isMove : Bool) : Except Response CopyMove :=
  match request.uri with
  | none => .error .refused
  | some uri =>
  match fetchDavResources (store uri.accountId) with
  | none => .error .panicked
  | some fromResources =>
  match uri.resource with
  | none => .error .NOT_FOUND
  | some fromResourceName =>
  match fromResources.byPath fromResourceName with
  | none => .error .NOT_FOUND
  | some item =>
  if !sourceAllowed server uri.accountId fromResources fromResourceName isMove then
    .error .FORBIDDEN
  else
  match request.destination with
  | none => .error .BAD_GATEWAY
  | some toUri =>
  if toUri.collection ≠ .fileNode then .error .BAD_GATEWAY
  else
  match toUri.accountId with
  | none => .error .BAD_GATEWAY
  | some toAccountId =>
  match fetchDavResources (store toAccountId) with
  | none => .error .panicked
  | some toResources =>
  match toUri.resource with
  | none => .error .BAD_GATEWAY
  | some destinationResourceName =>
  if uri.accountId = toAccountId ∧ destinationResourceName.isPrefixOf fromResourceName then
    .error .BAD_GATEWAY
  else
  match mapDestination toAccountId toResources request.overwriteFail
    destinationResourceName with
  | .error response => .error response
  | .ok (destination, deleteDestination) =>
    .ok {
      fromAccountId := uri.accountId
      fromResources := fromResources
      fromResource := fileItemId fromResources item
      fromResourceName := fromResourceName
      toAccountId := toAccountId
      toResources := toResources
      destinationResourceName := destinationResourceName
      destination := destination
      deleteDestination := deleteDestination }

/-- The checks that `handle_file_copy_move_request` makes before it writes anything, but for the
quota. -/
def validateCopyMove (server : FileServer) (store : FileStore) (request : CopyMoveRequest)
    (isMove : Bool) : Except Response CopyMove :=
  match locateCopyMove server store request isMove with
  | .error response => .error response
  | .ok m =>
    if !destinationAllowed server m.fromResources m.destination m.deleteDestination then
      .error .FORBIDDEN
    else if !server.validateHeaders (m.fromAccountId, m.fromResource.documentId)
        (m.toAccountId, m.deleteDestination.bind (·.documentId)) isMove then
      .error .refused
    else .ok m

/-! ## Operations -/

/-- What a request answers, what it leaves in the store and what it committed. -/
structure Outcome where
  response : Response
  store : FileStore
  batches : List FileBatch

def Outcome.failed (response : Response) (store : FileStore) : Outcome := ⟨response, store, []⟩

def Outcome.committed (response : Response) (store : FileStore) (batch : FileBatch) : Outcome :=
  ⟨response, commitBatch store batch, [batch]⟩

def Destination.parentId (destination : Destination) : ℕ := destination.documentId.elim 0 (· + 1)

/-- The node under the name and the parent of the destination. -/
def Destination.place (destination : Destination) (node : FileNode) : FileNode :=
  { node with parentId := destination.parentId, name := destination.newName.getD node.name }

def renameItem (m : CopyMove) (store : FileStore) : Outcome :=
  match (store m.fromAccountId).node m.fromResource.documentId with
  | none => .failed .NOT_FOUND store
  | some node =>
    .committed .CREATED store
      ((({} : FileBatch).updateNode m.fromAccountId m.fromResource.documentId
        { node with name := m.destination.newName.getD node.name }).logVanishedItem
          ⟨m.fromResourceName, m.fromResource.isContainer⟩)

structure CopyState where
  batch : FileBatch
  idMap : InsertionMap ℕ ℕ
  deleteFiles : List ℕ
  nextDocumentId : ℕ
  newName : Option String

/-- The loop body of `copy_container`. -/
def copyFile (source : FileAccount) (destination : Destination) (deleteSource : Bool)
    (s : CopyState) (documentId : ℕ) : Option CopyState :=
  match source.node documentId with
  | none => none
  | some node =>
    some {
      batch := s.batch.insertNode destination.accountId s.nextDocumentId
        { node with
          name := s.newName.getD node.name
          parentId := (find node.parentId s.idMap).getD destination.parentId }
      idMap := InsertionMap.insert (documentId + 1) (s.nextDocumentId + 1) s.idMap
      deleteFiles := if deleteSource then s.deleteFiles ++ [documentId] else s.deleteFiles
      nextDocumentId := s.nextDocumentId - 1
      newName := none }

def copyItem (m : CopyMove) (store : FileStore) : Outcome :=
  match (store m.fromAccountId).node m.fromResource.documentId with
  | none => .failed .NOT_FOUND store
  | some node =>
    let (toDocumentId, store) := assignDocumentIds store m.destination.accountId 1
    .committed .CREATED store
      (({} : FileBatch).insertNode m.destination.accountId toDocumentId
        (m.destination.place node))

/-- The files that `copy_container` copies, parents first. -/
def filesToCopy (m : CopyMove) (infinityCopy : Bool) : List ℕ :=
  ((if infinityCopy then m.fromResources.subtree m.fromResourceName
    else m.fromResources.subtreeWithDepth m.fromResourceName 1).insertionSort
      fun a b => a.hierarchySeq ≤ b.hierarchySeq).map (·.documentId)

/-- The copies as one batch, with the deletions and the vanished path that follow them. -/
def CopyState.finish (m : CopyMove) (s : CopyState) : FileBatch :=
  if s.deleteFiles = [] then s.batch
  else
    ((s.deleteFiles.reverse.foldl (fun batch documentId =>
        batch.deleteNode m.fromAccountId documentId) s.batch).withAccountId
      m.fromAccountId).logVanishedItem ⟨m.fromResourceName, true⟩

def copyContainer (m : CopyMove) (depth : Depth) (deleteSource : Bool) (store : FileStore) :
    Outcome :=
  if depth = .Zero then copyItem m store
  else
    let copyFiles := filesToCopy m (decide (depth ≠ .One))
    let (nextDocumentId, store) :=
      assignDocumentIds store m.destination.accountId copyFiles.length
    match copyFiles.foldlM (copyFile (store m.fromAccountId) m.destination deleteSource)
        ⟨{}, [], [], nextDocumentId, m.destination.newName⟩ with
    | none => .failed .NOT_FOUND store
    | some s => .committed .CREATED store (s.finish m)

def moveContainer (m : CopyMove) (depth : Depth) (store : FileStore) : Outcome :=
  if m.fromAccountId = m.destination.accountId then
    match (store m.fromAccountId).node m.fromResource.documentId with
    | none => .failed .NOT_FOUND store
    | some node =>
      .committed .CREATED store
        (((({} : FileBatch).updateNode m.fromAccountId m.fromResource.documentId
          (m.destination.place node)).withAccountId m.fromAccountId).logVanishedItem
            ⟨m.fromResourceName, true⟩)
  else copyContainer m depth true store

/-- The source under the name and the parent of the node it overwrites. -/
def overwrittenBy (destination : Destination) (destNode sourceNode : FileNode) : FileNode :=
  { sourceNode with
    name := destination.newName.getD destNode.name
    parentId := destNode.parentId }

/-- `DestroyArchive::delete` for one file. -/
def FileBatch.destroyFile (path : VanishedPath) :
    FileBatch := (batch.deleteNode accountId documentId).logVanishedItem path

def overwriteAndDeleteItem (m : CopyMove) (destination : Destination) (store : FileStore) :
    Outcome :=
  match (store destination.accountId).node (destination.documentId.getD 0),
      (store m.fromAccountId).node m.fromResource.documentId with
  | some destNode, some sourceNode =>
    .committed .NO_CONTENT store
      ((({} : FileBatch).updateNode destination.accountId (destination.documentId.getD 0)
        (overwrittenBy destination destNode sourceNode)).destroyFile m.fromAccountId
          m.fromResource.documentId ⟨m.fromResourceName, false⟩)
  | _, _ => .failed .NOT_FOUND store

def overwriteItem (m : CopyMove) (destination : Destination) (store : FileStore) : Outcome :=
  match (store destination.accountId).node (destination.documentId.getD 0),
      (store m.fromAccountId).node m.fromResource.documentId with
  | some destNode, some sourceNode =>
    .committed .NO_CONTENT store
      (({} : FileBatch).updateNode destination.accountId (destination.documentId.getD 0)
        (overwrittenBy destination destNode sourceNode))
  | _, _ => .failed .NOT_FOUND store

def moveItem (m : CopyMove) (store : FileStore) : Outcome :=
  match (store m.fromAccountId).node m.fromResource.documentId with
  | none => .failed .NOT_FOUND store
  | some node =>
    if m.fromAccountId = m.destination.accountId then
      -- The path is logged before an account is selected.
      .committed .CREATED store
        ((({} : FileBatch).logVanishedItem ⟨m.fromResourceName, false⟩).updateNode
          m.fromAccountId m.fromResource.documentId (m.destination.place node))
    else
      let (toDocumentId, store) := assignDocumentIds store m.destination.accountId 1
      .committed .CREATED store
        ((({} : FileBatch).insertNode m.destination.accountId toDocumentId
          (m.destination.place node)).destroyFile m.fromAccountId m.fromResource.documentId
            ⟨m.fromResourceName, false⟩)

/-- `DestroyArchive::delete_batch`: the stored ones of the documents, and the path if one is
given. -/
def destroyFiles (store : FileStore) (accountId : ℕ) (documentIds : List ℕ)
    (deletePath : Option VanishedPath) : FileBatch :=
  let batch := documentIds.foldl (fun batch documentId =>
    if ((store accountId).node documentId).isSome then batch.deleteNode accountId documentId
    else batch) ((({} : FileBatch)).withAccountId accountId)
  match deletePath with
  | some path => if batch.writes = [] then batch else batch.logVanishedItem path
  | none => batch

/-- The documents at and below a path, the deepest first. -/
def filesToDelete (resources : DavResources) (path : FilePath) : List ℕ :=
  ((resources.subtree path).insertionSort fun a b => b.hierarchySeq ≤ a.hierarchySeq).map
    (·.documentId)

/-- The request keeps the parent and only gives the node a new name. -/
def CopyMove.isRename (m : CopyMove) (isMove : Bool) : Bool :=
  m.deleteDestination.isNone && m.fromAccountId == m.destination.accountId &&
    m.fromResource.parentId == m.destination.documentId && m.destination.newName.isSome &&
    isMove

/-- What is at the destination is deleted first: one of the two is a folder. -/
def CopyMove.isOverwrite (m : CopyMove) : Bool :=
  match m.deleteDestination with
  | some destination => destination.isContainer || m.fromResource.isContainer
  | none => false

/-- The space that the files at and below the source take. -/
def CopyMove.spaceNeeded (m : CopyMove) : ℕ :=
  ((m.fromResources.subtree m.fromResourceName).map fun path =>
    match find path.documentId m.fromResources.resources with
    | some node => node.size.getD 0
    | none => 0).sum

/-- The quota check is not needed or passes. -/
def CopyMove.hasQuota (server : FileServer) (m : CopyMove) (isMove : Bool) : Bool :=
  (isMove && m.fromAccountId == m.toAccountId) ||
    server.hasAvailableQuota m.toAccountId m.spaceNeeded

/-- The batch that deletes what is at the destination, if that has to go first. -/
def CopyMove.overwriteBatch (m : CopyMove) (store : FileStore) : FileBatch :=
  if m.isOverwrite then
    destroyFiles store m.destination.accountId
      (filesToDelete m.toResources m.destinationResourceName) none
  else {}

/-- The operation, once the destination is cleared. -/
def CopyMove.operate (m : CopyMove) (depth : Depth) (isMove : Bool) (store : FileStore) :
    Outcome :=
  let deleteDestination := if m.isOverwrite then none else m.deleteDestination
  match m.fromResource.isContainer, isMove with
  | true, true => moveContainer m depth store
  | true, false => copyContainer m depth false store
  | false, true =>
    match deleteDestination with
    | some destination => overwriteAndDeleteItem m destination store
    | none => moveItem m store
  | false, false =>
    match deleteDestination with
    | some destination => overwriteItem m destination store
    | none => copyItem m store

def handleFileCopyMoveRequest (server : FileServer) (store : FileStore)
    (request : CopyMoveRequest) (isMove : Bool) : Outcome :=
  match validateCopyMove server store request isMove with
  | .error response => .failed response store
  | .ok m =>
    if m.isRename isMove then renameItem m store
    else if !m.hasQuota server isMove then .failed .refused store
    else
      let outcome := m.operate request.depth isMove (commitBatch store (m.overwriteBatch store))
      { outcome with
        response := if m.isOverwrite ∧ outcome.response = .CREATED then .NO_CONTENT
          else outcome.response
        batches := m.overwriteBatch store :: outcome.batches }

/-- The path as it is logged. -/
def DavResources.formatResource (resources : DavResources) (path : DavPath) : VanishedPath :=
  ⟨path.path, resources.isContainer path⟩

def handleFileDeleteRequest (server : FileServer) (store : FileStore) (uri : Option OwnedUri) :
    Outcome :=
  match uri with
  | none => .failed .refused store
  | some uri =>
  match uri.resource with
  | none => .failed .FORBIDDEN store
  | some deletePath =>
  if deletePath = [] then .failed .FORBIDDEN store
  else
  match fetchDavResources (store uri.accountId) with
  | none => .failed .panicked store
  | some resources =>
  let ids := (resources.subtree deletePath).insertionSort fun a b =>
    b.hierarchySeq ≤ a.hierarchySeq
  let sortedIds := ids.map (·.documentId)
  match ids.getLast? with
  | none => .failed .NOT_FOUND store
  | some last =>
  let permissions := resources.sharedContainers server.isMember [.Delete]
  if !server.isMember uri.accountId && (decide (permissions.length < sortedIds.length) ||
      !sortedIds.all fun id => permissions.contains id) then
    .failed .FORBIDDEN store
  else if !server.validateDelete (uri.accountId, last.documentId) then .failed .refused store
  else
    .committed .NO_CONTENT store
      (destroyFiles store uri.accountId sortedIds (some (resources.formatResource last)))

/-! ## What the cache finds -/

structure DavResources.Of (resources : DavResources) (account : FileAccount) : Prop where
  same : resources.resources = account.files
  cache : CacheOf account resources.paths

section Resources

variable {resources : DavResources} {account : FileAccount} {name : FilePath} {d : DavPath}

theorem fetchDavResources_of (htree : IsTree account)
    (h : fetchDavResources account = some resources) : resources.Of account := by
  obtain ⟨paths, hbuild, hcache⟩ := buildNestedHierarchy_spec htree
  unfold fetchDavResources at h
  rw [hbuild, Option.map_some, Option.some_inj] at h
  rw [← h]
  exact ⟨rfl, hcache⟩

theorem DavResources.Of.find_eq (h : resources.Of account) (id : ℕ) :
    find id resources.resources = account.node id := by
  rw [h.same]
  rfl

theorem byPath_eq_some (h : resources.Of account) (hfind : resources.byPath name = some d) :
    d ∈ resources.paths ∧ PathOf account d.documentId name := by
  have hmem := List.mem_of_find?_eq_some hfind
  have hpath := List.find?_some hfind
  obtain ⟨-, -, -, hd⟩ := h.cache.sound d hmem
  rw [decide_eq_true_eq] at hpath
  exact ⟨hmem, hpath ▸ hd⟩

theorem byPath_eq_none (h : resources.Of account) (hfind : resources.byPath name = none) (k : ℕ) :
    ¬ PathOf account k name := by
  intro hk
  obtain ⟨node, hnode⟩ := hk.stored
  obtain ⟨d, hd, rfl⟩ := h.cache.complete k node hnode
  obtain ⟨-, -, -, hpath⟩ := h.cache.sound d hd
  have hnot := List.find?_eq_none.1 hfind d hd
  exact hnot (decide_eq_true (hpath.unique hk))

theorem isContainer_of_mem (h : resources.Of account) (hd : d ∈ resources.paths) :
    ∃ node, account.node d.documentId = some node ∧ d.parentId = node.parent ∧
      resources.isContainer d = node.isContainer := by
  obtain ⟨node, hnode, hparent, -⟩ := h.cache.sound d hd
  refine ⟨node, hnode, hparent, ?_⟩
  unfold DavResources.isContainer
  rw [h.find_eq, hnode]

theorem mem_subtree (h : resources.Of account) {k : ℕ} :
    k ∈ (resources.subtree name).map (·.documentId) ↔
      ∃ q, PathOf account k q ∧ name <+: q := by
  unfold DavResources.subtree
  rw [mem_map]
  constructor
  · rintro ⟨d, hd, rfl⟩
    rw [mem_filter] at hd
    obtain ⟨-, -, -, hpath⟩ := h.cache.sound d hd.1
    exact ⟨d.path, hpath, isPrefixOf_iff_prefix.1 hd.2⟩
  · rintro ⟨q, hq, hpre⟩
    obtain ⟨node, hnode⟩ := hq.stored
    obtain ⟨d, hd, rfl⟩ := h.cache.complete k node hnode
    obtain ⟨-, -, -, hpath⟩ := h.cache.sound d hd
    refine ⟨d, mem_filter.2 ⟨hd, ?_⟩, rfl⟩
    rw [hpath.unique hq]
    exact isPrefixOf_iff_prefix.2 hpre

end Resources

/-! ## What the checks establish -/

/-- What is known of a request that the checks let through. -/
structure Validated (server : FileServer) (store : FileStore) (isMove : Bool) (m : CopyMove) :
    Prop where
  fromResources : m.fromResources.Of (store m.fromAccountId)
  toResources : m.toResources.Of (store m.toAccountId)
  source : PathOf (store m.fromAccountId) m.fromResource.documentId m.fromResourceName
  sourceNode : ∃ node, (store m.fromAccountId).node m.fromResource.documentId = some node ∧
    m.fromResource.isContainer = node.isContainer ∧ m.fromResource.parentId = node.parent
  apart : m.fromAccountId = m.toAccountId →
    ¬ m.destinationResourceName <+: m.fromResourceName
  account : m.destination.accountId = m.toAccountId
  place : ∃ base name, m.destination.newName = some name ∧
    m.destinationResourceName = base ++ [name] ∧
    Hangs links (store m.toAccountId).node m.destination.documentId base
  parent : ∀ p, m.destination.documentId = some p → ∃ node,
    (store m.toAccountId).node p = some node ∧ m.destination.isContainer = node.isContainer
  root : m.destination.documentId = none → m.destination.isContainer
  free : m.deleteDestination = none →
    ∀ k, ¬ PathOf (store m.toAccountId) k m.destinationResourceName
  existing : ∀ d, m.deleteDestination = some d → d.accountId = m.toAccountId ∧
    d.newName = none ∧ ∃ id node, d.documentId = some id ∧
      PathOf (store m.toAccountId) id m.destinationResourceName ∧
      (store m.toAccountId).node id = some node ∧ d.isContainer = node.isContainer
  source_allowed : sourceAllowed server m.fromAccountId m.fromResources m.fromResourceName
    isMove
  destination_allowed : destinationAllowed server m.fromResources m.destination
    m.deleteDestination

theorem mapParent_spec {resources : DavResources} {account : FileAccount} {name : FilePath}
    {parent} {child : String} (h : resources.Of account)
    (hmap : resources.mapParent name = some (parent, child)) :
    ∃ base, name = base ++ [child] ∧
      Hangs links account.node (parent.map (·.documentId)) base ∧
      ∀ d, parent = some d → d ∈ resources.paths := by
  unfold DavResources.mapParent at hmap
  cases hlast : name.getLast? with
  | none =>
    rw [hlast] at hmap
    cases hmap
  | some last =>
    rw [hlast] at hmap
    have hname : name = name.dropLast ++ [last] := by
      have hne : name ≠ [] := by
        rintro rfl
        cases hlast
      rw [List.getLast?_eq_getLast_of_ne_nil hne, Option.some_inj] at hlast
      rw [← hlast, dropLast_append_getLast hne]
    refine ⟨name.dropLast, ?_⟩
    by_cases hroot : name.dropLast = []
    · simp only [hroot] at hmap
      obtain ⟨rfl, rfl⟩ := hmap
      exact ⟨hname, hroot, fun d hd => nomatch hd⟩
    · simp only [if_neg hroot] at hmap
      cases hfind : resources.byPath name.dropLast with
      | none =>
        rw [hfind] at hmap
        cases hmap
      | some d =>
        rw [hfind] at hmap
        obtain ⟨rfl, rfl⟩ := hmap
        obtain ⟨hmem, hpath⟩ := byPath_eq_some h hfind
        exact ⟨hname, hpath, fun d' hd' => Option.some.inj hd' ▸ hmem⟩

/-- What a request whose source and destination are found asks for. -/
structure Located (server : FileServer) (store : FileStore) (request : CopyMoveRequest)
    (isMove : Bool) (m : CopyMove) : Prop where
  fetched_from : fetchDavResources (store m.fromAccountId) = some m.fromResources
  fetched_to : fetchDavResources (store m.toAccountId) = some m.toResources
  found : ∃ item, m.fromResources.byPath m.fromResourceName = some item ∧
    m.fromResource = fileItemId m.fromResources item
  source_allowed : sourceAllowed server m.fromAccountId m.fromResources m.fromResourceName
    isMove
  apart : ¬(m.fromAccountId = m.toAccountId ∧
    m.destinationResourceName.isPrefixOf m.fromResourceName)
  mapped : mapDestination m.toAccountId m.toResources request.overwriteFail
    m.destinationResourceName = .ok (m.destination, m.deleteDestination)

section Checks

variable {server : FileServer} {store : FileStore} {request : CopyMoveRequest} {isMove : Bool}
  {m : CopyMove}

theorem locateCopyMove_eq_ok (h : locateCopyMove server store request isMove = .ok m) :
    Located server store request isMove m := by
  unfold locateCopyMove at h
  repeat' split at h
  all_goals first | (cases h; done) | skip
  rename_i uri _ _ fromResources hfrom _ name _ _ item hitem hsource _ toUri _ _ _ toAccountId
    _ _ toResources hto _ destinationName _ hapart _ destination deleteDestination hmap
  cases h
  exact ⟨hfrom, hto, ⟨item, hitem, rfl⟩, by simpa using hsource, hapart, hmap⟩

theorem validateCopyMove_eq_ok (h : validateCopyMove server store request isMove = .ok m) :
    locateCopyMove server store request isMove = .ok m ∧
      destinationAllowed server m.fromResources m.destination m.deleteDestination := by
  unfold validateCopyMove at h
  cases hlocate : locateCopyMove server store request isMove with
  | error response =>
    rw [hlocate] at h
    cases h
  | ok m' =>
    rw [hlocate] at h
    simp only at h
    split at h
    · cases h
    · rename_i hallowed
      split at h
      · cases h
      · cases h
        exact ⟨rfl, by simpa using hallowed⟩

end Checks

/-- What is known of the destination and of what is there. -/
theorem mapDestination_spec {toAccountId : ℕ} {toResources : DavResources}
    {account : FileAccount} {overwriteFail : Bool} {name : FilePath} {destination : Destination}
    {deleteDestination} (h : toResources.Of account)
    (hmap : mapDestination toAccountId toResources overwriteFail name =
      .ok (destination, deleteDestination)) :
    destination.accountId = toAccountId ∧
    (∃ base last, destination.newName = some last ∧ name = base ++ [last] ∧
      Hangs links account.node destination.documentId base) ∧
    (∀ p, destination.documentId = some p → ∃ node, account.node p = some node ∧
      destination.isContainer = node.isContainer) ∧
    (destination.documentId = none → destination.isContainer) ∧
    (deleteDestination = none → ∀ k, ¬ PathOf account k name) ∧
    (∀ d, deleteDestination = some d → d.accountId = toAccountId ∧ d.newName = none ∧
      ∃ id node, d.documentId = some id ∧ PathOf account id name ∧
        account.node id = some node ∧ d.isContainer = node.isContainer) := by
  unfold mapDestination at hmap
  cases hparent : toResources.mapParent name with
  | none =>
    rw [hparent] at hmap
    cases hmap
  | some found =>
    obtain ⟨parent, last⟩ := found
    rw [hparent] at hmap
    obtain ⟨base, hname, hbase, hparents⟩ := mapParent_spec h hparent
    have hfound : destinationAt toResources toAccountId parent last = destination ∧
        (toResources.byPath name).map (destinationOf toResources toAccountId) =
          deleteDestination := by
      cases hfind : toResources.byPath name with
      | none => simpa [hfind] using hmap
      | some existing =>
        simp only [hfind] at hmap
        split at hmap
        · cases hmap
        · simpa using hmap
    obtain ⟨rfl, rfl⟩ := hfound
    refine ⟨?_, ⟨base, last, ?_, hname, ?_⟩, fun p hp => ?_, fun hnone => ?_, fun hnone k =>
      byPath_eq_none h (Option.map_eq_none_iff.1 hnone) k, fun d hd => ?_⟩
    · cases parent <;> rfl
    · cases parent <;> rfl
    · cases parent <;> exact hbase
    · cases parent with
      | none => cases hp
      | some d =>
        obtain ⟨node, hnode, -, hkind⟩ := isContainer_of_mem h (hparents d rfl)
        cases hp
        exact ⟨node, hnode, hkind⟩
    · cases parent with
      | none => rfl
      | some d => cases hnone
    · obtain ⟨existing, hfind, rfl⟩ := Option.map_eq_some_iff.1 hd
      obtain ⟨hmem, hpath⟩ := byPath_eq_some h hfind
      obtain ⟨node, hnode, -, hkind⟩ := isContainer_of_mem h hmem
      exact ⟨rfl, rfl, existing.documentId, node, rfl, hpath, hnode, hkind⟩

/-- **What the checks made before anything is written establish of trees.** -/
theorem validateCopyMove_spec {server : FileServer} {trees : ℕ → FileTree}
    {request : CopyMoveRequest} {isMove : Bool} {m : CopyMove}
    (h : validateCopyMove server (fun a => (trees a).toFileAccount) request isMove = .ok m) :
    Validated server (fun a => (trees a).toFileAccount) isMove m := by
  obtain ⟨hlocate, hallowed⟩ := validateCopyMove_eq_ok h
  obtain ⟨hfrom, hto, ⟨item, hitem, hid⟩, hsource, hapart, hmap⟩ := locateCopyMove_eq_ok hlocate
  have hfromOf := fetchDavResources_of (trees m.fromAccountId).tree hfrom
  have htoOf := fetchDavResources_of (trees m.toAccountId).tree hto
  obtain ⟨hmem, hpath⟩ := byPath_eq_some hfromOf hitem
  obtain ⟨node, hnode, hparent, hkind⟩ := isContainer_of_mem hfromOf hmem
  obtain ⟨ha, hb, hc, hd, he, hf⟩ := mapDestination_spec htoOf hmap
  refine ⟨hfromOf, htoOf, ?_, ⟨node, ?_⟩, fun hsame hpre => hapart ⟨hsame, ?_⟩, ha, hb, hc, hd,
    he, hf, hsource, hallowed⟩
  · rw [hid]
    exact hpath
  · rw [hid]
    exact ⟨hnode, hkind, hparent⟩
  · exact isPrefixOf_iff_prefix.2 hpre

/-! ## What a batch makes of an account -/

def FileBatch.writesTo (accountId : ℕ) : List (ℕ × Option FileNode) :=
  (batch.writes.filter fun write => decide (write.1 = accountId)).map Prod.snd

/-- The nodes after some writes. -/
def applyWrites (node : ℕ → Option FileNode) (writes : List (ℕ × Option FileNode)) :
    ℕ → Option FileNode :=
  writes.foldl (fun node write => Function.update node write.1 write.2) node

/-- **A batch makes of the nodes of an account what its writes to that account do.** -/
theorem node_commit (store : FileStore) (batch : FileBatch) (accountId : ℕ) :
    (commitBatch store batch accountId).node =
        applyWrites (store accountId).node (batch.writesTo accountId) ∧
      (commitBatch store batch accountId).lastId = (store accountId).lastId := by
  unfold commitBatch FileBatch.writesTo applyWrites
  generalize batch.writes = writes
  induction writes generalizing store with
  | nil => exact ⟨rfl, rfl⟩
  | cons write writes ih =>
    obtain ⟨account, id, value⟩ := write
    rw [foldl_cons]
    obtain ⟨hnode, hlast⟩ := ih (writeArchive store (account, id, value))
    rw [hnode, hlast]
    by_cases haccount : account = accountId
    · subst haccount
      have hfilter : ((account, id, value) :: writes).filter (fun write =>
          decide (write.1 = account)) =
          (account, id, value) :: writes.filter fun write => decide (write.1 = account) :=
        filter_cons_of_pos (decide_eq_true rfl)
      rw [hfilter, map_cons]
      have hself : writeArchive store (account, id, value) account =
          (store account).write id value := Function.update_self _ _ _
      rw [hself, node_write]
      exact ⟨rfl, rfl⟩
    · rw [filter_cons_of_neg (by simpa using haccount)]
      have hother : writeArchive store (account, id, value) accountId = store accountId :=
        Function.update_of_ne (Ne.symm haccount) _ _
      rw [hother]
      exact ⟨rfl, rfl⟩

end MailServer.Dav
