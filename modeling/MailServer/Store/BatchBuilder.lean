import MailServer.Lib.InsertionMap
import MailServer.Lib.Slices
import MailServer.Store.ChangeLog
import MailServer.Store.ValueClass

/-!
# The batch builder

`BatchBuilder` (`store/src/write/batch.rs`) collects operations.  The account, collection and
document an operation applies to are not part of it: they are operations themselves, and the
builder repeats them in its own fields.  Logged changes wait in the builder until a commit point
fires or the batch is built.

A backend (`store/src/backend/*/write.rs`) runs over the operations with a context of its own,
`execute`.

The changes of a collection are kept as the calls that log them; the sets that are written are
`Changes.build` of these.  Each logged change carries the number of the call that logged it, and
the builder counts its calls; no code reads either.
-/

namespace MailServer.Store

/-! ## Operations -/

inductive ArchiveVersion where
  | versioned (changeId : UInt64) (hash : UInt32)
  | hashed (hash : UInt32)
  | unversioned

inductive AssertValue where
  | u32 (value : UInt32)
  | u64 (value : UInt64)
  | archive (version : ArchiveVersion)
  | some
  | none

/-- `ValueOp`; `F` is the type of the functions of `SetFnc` and `MergeFnc` with their
parameters. -/
inductive ValueOp (F : Type) where
  | set (value : Bytes)
  | setFnc (fnc : F)
  | mergeFnc (fnc : F)
  | atomicAdd (value : Int64)
  | addAndGet (value : Int64)
  | clear

/-- `VanishedItem`; a name as its bytes. -/
inductive VanishedItem where
  | name (s : Bytes)
  | id (id : UInt64)
  | idPair (a b : UInt32)
  deriving DecidableEq

def VanishedItem.serializedSize : VanishedItem → ℕ
  | .name s => s.length + 1
  | .id _ | .idPair .. => U64_LEN

inductive LogCollection where
  | sync (collection : SyncCollection)
  | vanished (collection : VanishedCollection)
  deriving DecidableEq

/-- What the `log_*` calls log. -/
inductive LoggedChange where
  | change (call : LogCall)
  | vanished (item : VanishedItem)
  deriving DecidableEq

/-- A logged change with the number of its call. -/
structure Logged (α : Type) where
  call : ℕ
  change : α

inductive Operation (F : Type) where
  | accountId (accountId : UInt32)
  | collection (collection : Collection)
  | documentId (documentId : UInt32)
  | assertValue (class_ : ValueClass) (assertValue : AssertValue)
  | value (class_ : ValueClass) (op : ValueOp F)
  | index (field : UInt8) (key : Bytes) (set : Bool)
  | log (collection : LogCollection) (set : List (Logged LoggedChange))

/-! ## The builder -/

/-- `ChangeLogBuilder`: what waits to be logged for one account. -/
structure ChangeLogBuilder where
  changes : InsertionMap SyncCollection (List (Logged LogCall))
  vanished : InsertionMap VanishedCollection (List (Logged VanishedItem))

def ChangeLogBuilder.empty : ChangeLogBuilder := ⟨[], []⟩

def ChangeLogBuilder.log (collection : SyncCollection) (change : Logged LogCall)
    (log : ChangeLogBuilder) : ChangeLogBuilder :=
  { log with changes := log.changes.alter collection [] (· ++ [change]) }

def ChangeLogBuilder.logVanishedItem (collection : VanishedCollection)
    (item : Logged VanishedItem) (log : ChangeLogBuilder) : ChangeLogBuilder :=
  { log with vanished := log.vanished.alter collection [] (· ++ [item]) }

structure ChangedCollection where
  changedContainers : List SyncCollection
  changedItems : List SyncCollection
  shareNotificationId : Option UInt64

def ChangedCollection.empty : ChangedCollection := ⟨[], [], none⟩

def Changes.hasContainerChanges (c : Changes) : Bool :=
  c.containerInserts ≠ ∅ || c.containerUpdates ≠ ∅ || c.containerPropertyChanges ≠ ∅ ||
    c.containerDeletes ≠ ∅

def Changes.hasItemChanges (c : Changes) : Bool :=
  c.itemInserts ≠ ∅ || c.itemUpdates ≠ ∅ || c.itemDeletes ≠ ∅

variable (collection : SyncCollection)

/-- Notes that the changes of a collection are written. -/
def ChangedCollection.note (changes : Changes) (cc : ChangedCollection) : ChangedCollection :=
  { cc with
    changedContainers :=
      if changes.hasContainerChanges then collection :: cc.changedContainers
      else cc.changedContainers
    changedItems :=
      if changes.hasItemChanges then collection :: cc.changedItems else cc.changedItems }

structure BatchBuilder (F : Type) where
  currentAccountId : Option UInt32
  currentCollection : Option Collection
  currentDocumentId : Option UInt32
  changes : InsertionMap UInt32 ChangeLogBuilder
  changedCollections : InsertionMap UInt32 ChangedCollection
  hasAssertions : Bool
  batchSize : ℕ
  batchOps : ℕ
  commitPoints : List ℕ
  ops : List (Operation F)
  calls : ℕ

namespace BatchBuilder

variable {F : Type}

def new : BatchBuilder F where
  currentAccountId := none
  currentCollection := none
  currentDocumentId := none
  changes := []
  changedCollections := []
  hasAssertions := false
  batchSize := 0
  batchOps := 0
  commitPoints := []
  ops := []
  calls := 0

def withAccountId (accountId : UInt32) (b : BatchBuilder F) : BatchBuilder F :=
  if b.currentAccountId = some accountId then b
  else { b with currentAccountId := some accountId, ops := b.ops ++ [.accountId accountId] }

def withCollection (collection : Collection) (b : BatchBuilder F) : BatchBuilder F :=
  if b.currentCollection = some collection then b
  else { b with currentCollection := some collection, ops := b.ops ++ [.collection collection] }

def withDocument (documentId : UInt32) (b : BatchBuilder F) : BatchBuilder F :=
  { b with
    ops := b.ops ++ [.documentId documentId]
    currentDocumentId := some documentId
    hasAssertions := false }

/-- Pushes an operation and counts its size, and whether it counts as an operation. -/
def push (op : Operation F) (size count : ℕ) (b : BatchBuilder F) : BatchBuilder F :=
  { b with
    ops := b.ops ++ [op]
    batchSize := b.batchSize + size
    batchOps := b.batchOps + count }

def assertValue (class_ : ValueClass) (value : AssertValue) (b : BatchBuilder F) :
    BatchBuilder F :=
  { b.push (.assertValue class_ value) 0 1 with hasAssertions := true }

def index (field : UInt8) (value : Bytes) : BatchBuilder F → BatchBuilder F :=
  push (.index field value true) (U32_LEN * 3 + value.length) 1

def unindex (field : UInt8) (value : Bytes) : BatchBuilder F → BatchBuilder F :=
  push (.index field value false) (U32_LEN * 3 + value.length) 1

def tag (field : UInt8) : BatchBuilder F → BatchBuilder F := index field []

def untag (field : UInt8) : BatchBuilder F → BatchBuilder F := unindex field []

def add (class_ : ValueClass) (value : Int64) : BatchBuilder F → BatchBuilder F :=
  push (.value class_ (.atomicAdd value)) (class_.serializedSize + 8) 1

def addAndGet (class_ : ValueClass) (value : Int64) : BatchBuilder F → BatchBuilder F :=
  push (.value class_ (.addAndGet value)) (class_.serializedSize + 16) 1

def set (class_ : ValueClass) (value : Bytes) : BatchBuilder F → BatchBuilder F :=
  push (.value class_ (.set value)) (class_.serializedSize + value.length) 1

def setFnc (class_ : ValueClass) (fnc : F) : BatchBuilder F → BatchBuilder F :=
  push (.value class_ (.setFnc fnc)) 0 0

def mergeFnc (class_ : ValueClass) (fnc : F) : BatchBuilder F → BatchBuilder F :=
  push (.value class_ (.mergeFnc fnc)) 0 0

def clear (class_ : ValueClass) : BatchBuilder F → BatchBuilder F :=
  push (.value class_ .clear) class_.serializedSize 1

def aclGrant (grantAccountId : UInt32) (op : Bytes) : BatchBuilder F → BatchBuilder F :=
  push (.value (.acl grantAccountId) (.set op)) (U32_LEN * 3 + op.length) 1

def aclRevoke (grantAccountId : UInt32) : BatchBuilder F → BatchBuilder F :=
  push (.value (.acl grantAccountId) .clear) (U32_LEN * 3) 1

/-- `changes.get_mut_or_insert(account_id)` and a call on it. -/
def logInto (accountId : UInt32) (collection : SyncCollection) (change : LogCall)
    (b : BatchBuilder F) : BatchBuilder F :=
  { b with
    changes := b.changes.alter accountId .empty (·.log collection ⟨b.calls, change⟩) }

/-- The `log_*` calls about the current document. -/
def logDocument (change : UInt32 → LogCall) (b : BatchBuilder F) : BatchBuilder F :=
  match b.currentAccountId, b.currentDocumentId with
  | some accountId, some documentId => b.logInto accountId collection (change documentId)
  | _, _ => b

def logItemInsert (pre : Option UInt32) :
    BatchBuilder F → BatchBuilder F :=
  logDocument collection (.itemInsert pre)

def logItemUpdate (pre : Option UInt32) :
    BatchBuilder F → BatchBuilder F :=
  logDocument collection (.itemUpdate pre)

def logItemDelete (pre : Option UInt32) :
    BatchBuilder F → BatchBuilder F :=
  logDocument collection (.itemDelete pre)

def logContainerInsert : BatchBuilder F → BatchBuilder F :=
  logDocument collection .containerInsert

def logContainerUpdate : BatchBuilder F → BatchBuilder F :=
  logDocument collection .containerUpdate

def logContainerDelete : BatchBuilder F → BatchBuilder F :=
  logDocument collection .containerDelete

def logContainerPropertyChange (documentId : UInt32) (b : BatchBuilder F) : BatchBuilder F :=
  match b.currentAccountId with
  | some accountId => b.logInto accountId collection (.containerPropertyUpdate documentId)
  | none => b

def logVanishedItem (collection : VanishedCollection) (item : VanishedItem)
    (b : BatchBuilder F) : BatchBuilder F :=
  match b.currentAccountId with
  | some accountId =>
    { b with
      batchSize := b.batchSize + item.serializedSize
      changes :=
        b.changes.alter accountId .empty (·.logVanishedItem collection ⟨b.calls, item⟩) }
  | none => b

def logShareNotification (notificationId : UInt64) (notifyAccountId : UInt32) (value : Bytes)
    (b : BatchBuilder F) : BatchBuilder F :=
  let b := { b with
    changedCollections := b.changedCollections.alter notifyAccountId .empty
      ({ · with shareNotificationId := some notificationId }) }
  b.set (.shareNotification notificationId notifyAccountId) value

end BatchBuilder

/-! ## Commit points -/

variable {F : Type}

def logOperations {κ α : Type} (collection : κ → LogCollection) (change : α → LoggedChange)
    (m : InsertionMap κ (List (Logged α))) : List (Operation F) :=
  m.map fun entry =>
    .log (collection entry.1) (entry.2.map fun l => ⟨l.call, change l.change⟩)

def ChangeLogBuilder.operations (log : ChangeLogBuilder) : List (Operation F) :=
  logOperations .sync .change log.changes ++ logOperations .vanished .vanished log.vanished

/-- `changed_collections` after the changes of a collection have been written. -/
def noteChanges (accountId : UInt32) (changed : InsertionMap UInt32 ChangedCollection)
    (entry : SyncCollection × List (Logged LogCall)) : InsertionMap UInt32 ChangedCollection :=
  changed.alter accountId .empty (·.note entry.1 (.build (entry.2.map Logged.change)))

namespace BatchBuilder

variable (b : BatchBuilder F)

/-- One turn of the loop of `serialize_changes`. -/
def serializeAccount (entry : UInt32 × ChangeLogBuilder) :
    BatchBuilder F :=
  let b := b.withAccountId entry.1
  { b with
    ops := b.ops ++ entry.2.operations
    changedCollections := entry.2.changes.foldl (noteChanges entry.1) b.changedCollections }

def serializeChanges : BatchBuilder F :=
  b.changes.foldl serializeAccount { b with changes := [] }

def isLargeBatch : Bool :=
  decide (5000000 < b.batchSize) || decide (1000 < b.batchOps)

/-- The selections that `commit_point` repeats. -/
def selections : List (Operation F) :=
  (b.currentAccountId.map .accountId).toList ++ (b.currentCollection.map .collection).toList

/-- What `commit_point` does to a large batch. -/
def cut : BatchBuilder F :=
  let b := b.serializeChanges
  { b with
    commitPoints := b.commitPoints ++ [b.ops.length]
    batchOps := 0
    batchSize := 0
    ops := b.ops ++ b.selections }

def commitPoint : BatchBuilder F := if b.isLargeBatch then b.cut else b

end BatchBuilder

/-- `Batch`: the accounts with changes and the operations. -/
structure BuiltBatch (F : Type) where
  changes : InsertionMap UInt32 ChangedCollection
  ops : List (Operation F)

def BatchBuilder.buildAll (b : BatchBuilder F) : BuiltBatch F :=
  let b := b.serializeChanges
  ⟨b.changedCollections, b.ops⟩

/-- The batches that `build_one` builds for the commit points of `commit_points`. -/
def BatchBuilder.buildEach (b : BatchBuilder F) : List (BuiltBatch F) :=
  let b := b.serializeChanges
  (Slices.slices b.ops 0 b.commitPoints).map fun ops => ⟨b.changedCollections, ops⟩

/-! ## Calls -/

/-- The calls of the builder. -/
inductive Call (F : Type) where
  | withAccountId (accountId : UInt32)
  | withCollection (collection : Collection)
  | withDocument (documentId : UInt32)
  | assertValue (class_ : ValueClass) (value : AssertValue)
  | index (field : UInt8) (value : Bytes)
  | unindex (field : UInt8) (value : Bytes)
  | tag (field : UInt8)
  | untag (field : UInt8)
  | add (class_ : ValueClass) (value : Int64)
  | addAndGet (class_ : ValueClass) (value : Int64)
  | set (class_ : ValueClass) (value : Bytes)
  | setFnc (class_ : ValueClass) (fnc : F)
  | mergeFnc (class_ : ValueClass) (fnc : F)
  | clear (class_ : ValueClass)
  | aclGrant (grantAccountId : UInt32) (op : Bytes)
  | aclRevoke (grantAccountId : UInt32)
  | logItemInsert (collection : SyncCollection) (pre : Option UInt32)
  | logItemUpdate (collection : SyncCollection) (pre : Option UInt32)
  | logItemDelete (collection : SyncCollection) (pre : Option UInt32)
  | logContainerInsert (collection : SyncCollection)
  | logContainerUpdate (collection : SyncCollection)
  | logContainerDelete (collection : SyncCollection)
  | logContainerPropertyChange (collection : SyncCollection) (documentId : UInt32)
  | logVanishedItem (collection : VanishedCollection) (item : VanishedItem)
  | logShareNotification (notificationId : UInt64) (notifyAccountId : UInt32) (value : Bytes)
  | commitPoint

def BatchBuilder.perform (b : BatchBuilder F) : Call F → BatchBuilder F
  | .withAccountId accountId => b.withAccountId accountId
  | .withCollection collection => b.withCollection collection
  | .withDocument documentId => b.withDocument documentId
  | .assertValue class_ value => b.assertValue class_ value
  | .index field value => b.index field value
  | .unindex field value => b.unindex field value
  | .tag field => b.tag field
  | .untag field => b.untag field
  | .add class_ value => b.add class_ value
  | .addAndGet class_ value => b.addAndGet class_ value
  | .set class_ value => b.set class_ value
  | .setFnc class_ fnc => b.setFnc class_ fnc
  | .mergeFnc class_ fnc => b.mergeFnc class_ fnc
  | .clear class_ => b.clear class_
  | .aclGrant grantAccountId op => b.aclGrant grantAccountId op
  | .aclRevoke grantAccountId => b.aclRevoke grantAccountId
  | .logItemInsert collection pre => b.logItemInsert collection pre
  | .logItemUpdate collection pre => b.logItemUpdate collection pre
  | .logItemDelete collection pre => b.logItemDelete collection pre
  | .logContainerInsert collection => b.logContainerInsert collection
  | .logContainerUpdate collection => b.logContainerUpdate collection
  | .logContainerDelete collection => b.logContainerDelete collection
  | .logContainerPropertyChange collection documentId =>
    b.logContainerPropertyChange collection documentId
  | .logVanishedItem collection item => b.logVanishedItem collection item
  | .logShareNotification notificationId notifyAccountId value =>
    b.logShareNotification notificationId notifyAccountId value
  | .commitPoint => b.commitPoint

/-- A call, counted. -/
def BatchBuilder.step (b : BatchBuilder F) (call : Call F) : BatchBuilder F :=
  { b.perform call with calls := b.calls + 1 }

/-! ## Backends -/

/-- The context of a backend. -/
structure Context where
  accountId : UInt32
  collection : UInt8
  documentId : UInt32

/-- The context in which a backend starts. -/
def Context.initial : Context := ⟨0xFFFFFFFF, 0xFF, 0xFFFFFFFF⟩

/-- An operation as a backend executes it; of the key of a log entry the account and the
collection. -/
inductive Executed (F : Type) where
  | operation (op : Operation F) (ctx : Context)
  | log (accountId : UInt32) (collection : LogCollection) (set : List (Logged LoggedChange))

/-- The loop of `write` over the operations, as far as the context goes. `accounts` are the accounts
with changes; when there are any, selecting another one fails with "No change ids were created". -/
def execute (accounts : List UInt32) (ctx : Context) :
    List (Operation F) → Option (List (Executed F))
  | [] => some []
  | .accountId accountId :: ops =>
    if accounts ≠ [] ∧ accountId ∉ accounts then none
    else execute accounts { ctx with accountId := accountId } ops
  | .collection collection :: ops => execute accounts { ctx with collection := collection.toU8 } ops
  | .documentId documentId :: ops => execute accounts { ctx with documentId := documentId } ops
  | .log collection set :: ops =>
    (execute accounts ctx ops).map (.log ctx.accountId collection set :: ·)
  | op :: ops => (execute accounts ctx ops).map (.operation op ctx :: ·)

def BuiltBatch.write (batch : BuiltBatch F) : Option (List (Executed F)) :=
  execute batch.changes.keys .initial batch.ops

/-- `write`, batch after batch. -/
def writeEach : List (BuiltBatch F) → Option (List (Executed F))
  | [] => some []
  | batch :: batches => do
    let executed ← batch.write
    let rest ← writeEach batches
    some (executed ++ rest)

end MailServer.Store
