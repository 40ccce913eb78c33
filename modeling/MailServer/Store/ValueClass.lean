import MailServer.Codec.Leb128

/-!
# Classes of values

The kinds of values in the store (`store/src/write/mod.rs`): their estimated size
(`serialized_size`), the subspace they live in and the bytes of their key
(`store/src/write/key.rs`).  Multi-byte integers are big-endian.
-/

namespace MailServer.Store

open MailServer.Codec

abbrev Bytes := List UInt8

def U16_LEN : ℕ := 2
def U32_LEN : ℕ := 4
def U64_LEN : ℕ := 8
def BLOB_HASH_LEN : ℕ := 32

/-! ## Collections -/

inductive Collection where
  | email | mailbox | thread | identity | emailSubmission | sieveScript | pushSubscription
  | principal | calendar | calendarEvent | addressBook | contactCard | fileNode
  | calendarEventNotification | none
  deriving DecidableEq

/-- `u8::from(collection)`. -/
def Collection.toU8 : Collection → UInt8
  | .email => 0
  | .mailbox => 1
  | .thread => 2
  | .identity => 3
  | .emailSubmission => 4
  | .sieveScript => 5
  | .pushSubscription => 6
  | .principal => 7
  | .calendar => 8
  | .calendarEvent => 9
  | .addressBook => 10
  | .contactCard => 11
  | .fileNode => 12
  | .calendarEventNotification => 13
  | .none => 14

inductive SyncCollection where
  | email | thread | calendar | addressBook | fileNode | identity | emailSubmission | sieveScript
  | calendarEventNotification | shareNotification | none
  deriving DecidableEq

def SHARE_NOTIFICATION : UInt8 := 9

inductive VanishedCollection where
  | email | calendar | addressBook | fileNode
  deriving DecidableEq

/-! ## Classes -/

/-- `CheekyHash`: a short input stored literally behind its length, or a hash. -/
structure CheekyHash where
  bytes : Vector UInt8 16
  deriving DecidableEq

def CheekyHash.len (hash : CheekyHash) : ℕ := min hash.bytes[0].toNat 15 + 1

def CheekyHash.asBytes (hash : CheekyHash) : Bytes := hash.bytes.toList.take hash.len

def CheekyHash.payload (hash : CheekyHash) : Bytes := hash.asBytes.drop 1

def CheekyHash.payloadLen (hash : CheekyHash) : UInt8 := hash.bytes[0]

abbrev BlobHash := Vector UInt8 32

inductive IndexPropertyClass where
  | hash (property : UInt8) (hash : CheekyHash)
  | integer (property : UInt8) (value : UInt64)
  deriving DecidableEq

inductive SearchIndex where
  | email | calendar | contacts | file | tracing | inMemory
  deriving DecidableEq

/-- `SearchIndex::as_u8` and `SearchIndex::to_u8`; `none` is `unreachable!()`. -/
def SearchIndex.asU8 : SearchIndex → Option UInt8
  | .email => some 0
  | .calendar => some 1
  | .contacts => some 2
  | .file => some 3
  | .tracing => some 4
  | .inMemory => none

theorem SearchIndex.exists_asU8 {index : SearchIndex} (h : index ≠ .inMemory) :
    ∃ u, index.asU8 = some u := by
  cases index with
  | inMemory => cases h rfl
  | _ => exact ⟨_, rfl⟩

inductive SearchIndexId where
  | account (accountId documentId : UInt32)
  | global (id : UInt64)
  deriving DecidableEq

structure SearchIndexField where
  fieldId : UInt8
  data : Bytes
  deriving DecidableEq

def SEARCH_INDEX_MAX_FIELD_LEN : ℕ := 128

inductive SearchIndexType where
  | term (field : UInt8) (hash : CheekyHash)
  | index (field : SearchIndexField)
  | document
  deriving DecidableEq

structure SearchIndexClass where
  index : SearchIndex
  id : SearchIndexId
  typ : SearchIndexType
  deriving DecidableEq

inductive TaskQueueClass where
  | updateIndex (due : UInt64) (index : SearchIndex) (isInsert : Bool)
  | sendAlarm (due : UInt64) (eventId alarmId : UInt16) (isEmailAlert : Bool)
  | sendImip (due : UInt64) (isPayload : Bool)
  | mergeThreads (due : UInt64)
  deriving DecidableEq

inductive InMemoryClass where
  | key (key : Bytes)
  | counter (key : Bytes)
  deriving DecidableEq

inductive DirectoryClass where
  | nameToId (name : Bytes)
  | emailToId (email : Bytes)
  | index (word : Bytes) (principalId : UInt32)
  | memberOf (principalId memberOf : UInt32)
  | members (principalId hasMember : UInt32)
  | principal (uid : UInt32)
  | usedQuota (uid : UInt32)
  deriving DecidableEq

structure QueueEvent where
  due : UInt64
  queueId : UInt64
  queueName : Vector UInt8 8
  deriving DecidableEq

/-- `ReportEvent`; the domain as its bytes. -/
structure ReportEvent where
  due : UInt64
  policyHash : UInt64
  seqId : UInt64
  domain : Bytes
  deriving DecidableEq

inductive QueueClass where
  | message (queueId : UInt64)
  | messageEvent (event : QueueEvent)
  | dmarcReportHeader (event : ReportEvent)
  | dmarcReportEvent (event : ReportEvent)
  | tlsReportHeader (event : ReportEvent)
  | tlsReportEvent (event : ReportEvent)
  | quotaCount (key : Bytes)
  | quotaSize (key : Bytes)
  deriving DecidableEq

inductive ReportClass where
  | tls (id expires : UInt64)
  | dmarc (id expires : UInt64)
  | arf (id expires : UInt64)
  deriving DecidableEq

inductive TelemetryClass where
  | span (spanId : UInt64)
  | metric (timestamp metricId nodeId : UInt64)
  deriving DecidableEq

inductive BlobLink where
  | id (id : UInt64)
  | document
  | temporary (until_ : UInt64)
  deriving DecidableEq

inductive BlobOp where
  | commit (hash : BlobHash)
  | link (hash : BlobHash) (link : BlobLink)
  | quota (hash : BlobHash) (until_ : UInt64)
  | undelete (hash : BlobHash) (until_ : UInt64)
  | spamSample (hash : BlobHash) (until_ : UInt64)
  deriving DecidableEq

inductive ValueClass where
  | property (property : UInt8)
  | indexProperty (property : IndexPropertyClass)
  | acl (grantAccountId : UInt32)
  | inMemory (lookup : InMemoryClass)
  | taskQueue (task : TaskQueueClass)
  | directory (directory : DirectoryClass)
  | blob (op : BlobOp)
  | config (key : Bytes)
  | queue (queue : QueueClass)
  | report (report : ReportClass)
  | telemetry (telemetry : TelemetryClass)
  | searchIndex (index : SearchIndexClass)
  | any (subspace : UInt8) (key : Bytes)
  | shareNotification (notificationId : UInt64) (notifyAccountId : UInt32)
  | documentId
  | changeId
  deriving DecidableEq

def ValueClass.serializedSize : ValueClass → ℕ
  | .property _ => U32_LEN * 2 + 3
  | .indexProperty (.hash _ hash) => U32_LEN * 2 + 3 + hash.len
  | .indexProperty (.integer ..) => U32_LEN * 2 + 3 + U64_LEN
  | .acl _ => U32_LEN * 3 + 2
  | .inMemory (.counter key) | .inMemory (.key key) | .config key => key.length
  | .directory class_ =>
    match class_ with
    | .nameToId v | .emailToId v => v.length
    | .principal _ | .usedQuota _ => U32_LEN
    | .members .. | .memberOf .. => U32_LEN * 2
    | .index word _ => word.length + U32_LEN
  | .blob op =>
    match op with
    | .commit _ => BLOB_HASH_LEN
    | .link _ (.id _) => BLOB_HASH_LEN + U64_LEN
    | .link _ .document => BLOB_HASH_LEN + (U32_LEN * 2 + 1)
    | .link _ (.temporary _) => BLOB_HASH_LEN + (U32_LEN + U64_LEN)
    | .quota .. | .undelete .. => BLOB_HASH_LEN + U32_LEN + U64_LEN + 1
    | .spamSample .. => BLOB_HASH_LEN + U32_LEN + 2
  | .taskQueue task =>
    match task with
    | .updateIndex .. => U64_LEN * 2 + 2
    | .sendAlarm .. | .mergeThreads _ => U64_LEN + U32_LEN * 3 + 1
    | .sendImip _ isPayload =>
      if isPayload then U64_LEN * 2 + U32_LEN * 2 + 1 else U64_LEN + U32_LEN * 2 + 1
  | .queue class_ =>
    match class_ with
    | .message _ => U64_LEN
    | .messageEvent _ => U64_LEN * 3
    | .dmarcReportEvent event | .tlsReportEvent event => event.domain.length + U64_LEN * 3
    | .dmarcReportHeader event | .tlsReportHeader event =>
      event.domain.length + U64_LEN * 3 + 1
    | .quotaCount v | .quotaSize v => v.length
  | .report _ => U64_LEN * 2 + 1
  | .telemetry (.span _) => U64_LEN + 1
  | .telemetry (.metric ..) => U64_LEN * 2 + 1
  | .documentId => U32_LEN + 1
  | .changeId => U32_LEN
  | .shareNotification .. => U32_LEN + U64_LEN + 1
  | .searchIndex index =>
    match index.typ with
    | .term _ hash => U64_LEN + hash.len + 2
    | .index field => 1 + field.data.length + U64_LEN
    | .document =>
      match index.id with
      | .account .. => 1 + U32_LEN * 2
      | .global _ => 1 + U64_LEN
  | .any _ key => key.length

/-! ## Subspaces -/

def SUBSPACE_ACL : UInt8 := 'a'.toUInt8
def SUBSPACE_DIRECTORY : UInt8 := 'd'.toUInt8
def SUBSPACE_TASK_QUEUE : UInt8 := 'f'.toUInt8
def SUBSPACE_BLOB_EXTRA : UInt8 := 'j'.toUInt8
def SUBSPACE_BLOB_LINK : UInt8 := 'k'.toUInt8
def SUBSPACE_LOGS : UInt8 := 'l'.toUInt8
def SUBSPACE_COUNTER : UInt8 := 'n'.toUInt8
def SUBSPACE_IN_MEMORY_VALUE : UInt8 := 'm'.toUInt8
def SUBSPACE_IN_MEMORY_COUNTER : UInt8 := 'y'.toUInt8
def SUBSPACE_PROPERTY : UInt8 := 'p'.toUInt8
def SUBSPACE_SETTINGS : UInt8 := 's'.toUInt8
def SUBSPACE_QUEUE_MESSAGE : UInt8 := 'e'.toUInt8
def SUBSPACE_QUEUE_EVENT : UInt8 := 'q'.toUInt8
def SUBSPACE_QUOTA : UInt8 := 'u'.toUInt8
def SUBSPACE_REPORT_OUT : UInt8 := 'h'.toUInt8
def SUBSPACE_REPORT_IN : UInt8 := 'r'.toUInt8
def SUBSPACE_TELEMETRY_SPAN : UInt8 := 'o'.toUInt8
def SUBSPACE_TELEMETRY_METRIC : UInt8 := 'x'.toUInt8
def SUBSPACE_SEARCH_INDEX : UInt8 := 'z'.toUInt8

def ValueClass.subspace (collection : UInt8) : ValueClass → UInt8
  | .property field =>
    if field = 84 ∧ collection = 1 then SUBSPACE_COUNTER else SUBSPACE_PROPERTY
  | .indexProperty _ => SUBSPACE_PROPERTY
  | .acl _ => SUBSPACE_ACL
  | .taskQueue _ => SUBSPACE_TASK_QUEUE
  | .blob (.commit _) | .blob (.link ..) => SUBSPACE_BLOB_LINK
  | .blob (.quota ..) | .blob (.undelete ..) | .blob (.spamSample ..) => SUBSPACE_BLOB_EXTRA
  | .config _ => SUBSPACE_SETTINGS
  | .inMemory (.key _) => SUBSPACE_IN_MEMORY_VALUE
  | .inMemory (.counter _) => SUBSPACE_IN_MEMORY_COUNTER
  | .directory (.usedQuota _) => SUBSPACE_QUOTA
  | .directory _ => SUBSPACE_DIRECTORY
  | .queue (.message _) => SUBSPACE_QUEUE_MESSAGE
  | .queue (.messageEvent _) => SUBSPACE_QUEUE_EVENT
  | .queue (.dmarcReportHeader _) | .queue (.tlsReportHeader _)
  | .queue (.dmarcReportEvent _) | .queue (.tlsReportEvent _) => SUBSPACE_REPORT_OUT
  | .queue (.quotaCount _) | .queue (.quotaSize _) => SUBSPACE_QUOTA
  | .report _ => SUBSPACE_REPORT_IN
  | .telemetry (.span _) => SUBSPACE_TELEMETRY_SPAN
  | .telemetry (.metric ..) => SUBSPACE_TELEMETRY_METRIC
  | .documentId | .changeId => SUBSPACE_COUNTER
  | .shareNotification .. => SUBSPACE_LOGS
  | .searchIndex _ => SUBSPACE_SEARCH_INDEX
  | .any subspace _ => subspace

/-! ## Keys -/

def beU16 (n : UInt16) : Bytes := [(n >>> 8).toUInt8, n.toUInt8]

def beU32 (n : UInt32) : Bytes :=
  [(n >>> 24).toUInt8, (n >>> 16).toUInt8, (n >>> 8).toUInt8, n.toUInt8]

def beU64 (n : UInt64) : Bytes :=
  [(n >>> 56).toUInt8, (n >>> 48).toUInt8, (n >>> 40).toUInt8, (n >>> 32).toUInt8,
    (n >>> 24).toUInt8, (n >>> 16).toUInt8, (n >>> 8).toUInt8, n.toUInt8]

/-- The keys of the search index; `none` is `unreachable!()`. -/
def SearchIndexClass.key (index : SearchIndexClass) : Option Bytes := do
  let u8 ← index.index.asU8
  match index.typ, index.id with
  | .term field hash, .account accountId documentId =>
    some ([u8] ++ beU32 accountId ++ hash.payload ++ [hash.payloadLen, field] ++ beU32 documentId)
  | .term field hash, .global id =>
    some ([u8] ++ hash.payload ++ [hash.payloadLen, field] ++ beU64 id)
  | .index field, .account accountId documentId =>
    some ([u8 ||| (1 : UInt8) <<< 6] ++ beU32 accountId ++ [field.fieldId] ++ field.data ++
      beU32 documentId)
  | .index field, .global id =>
    some ([u8 ||| (1 : UInt8) <<< 6] ++ [field.fieldId] ++ field.data ++ beU64 id)
  | .document, .account accountId documentId =>
    some ([u8 ||| (2 : UInt8) <<< 6] ++ beU32 accountId ++ beU32 documentId)
  | .document, .global id => some ([u8 ||| (2 : UInt8) <<< 6] ++ beU64 id)

/-- The bytes of a report key behind its first byte. -/
def ReportEvent.key (event : ReportEvent) : Bytes :=
  beU64 event.due ++ event.domain ++ beU64 event.policyHash ++ beU64 event.seqId

/-- `ValueClass::serialize` without the subspace; `none` is `unreachable!()`. -/
def ValueClass.key (accountId : UInt32) (collection : UInt8) (documentId : UInt32) :
    ValueClass → Option Bytes
  | .property field => some (beU32 accountId ++ [collection, field] ++ beU32 documentId)
  | .indexProperty (.hash field hash) =>
    some (beU32 accountId ++ [collection, field] ++ hash.asBytes ++ beU32 documentId)
  | .indexProperty (.integer field value) =>
    some (beU32 accountId ++ [collection, field] ++ beU64 value ++ beU32 documentId)
  | .acl grantAccountId =>
    some (beU32 grantAccountId ++ beU32 accountId ++ [collection] ++ beU32 documentId)
  | .taskQueue task =>
    match task with
    | .updateIndex due index isInsert => do
      let u8 ← index.asU8
      some (beU64 due ++ beU32 accountId ++ [if isInsert then 7 else 8] ++ beU32 documentId ++ [u8])
    | .sendAlarm due eventId alarmId isEmailAlert =>
      some (beU64 due ++ beU32 accountId ++ [if isEmailAlert then 3 else 6] ++ beU32 documentId ++
        beU16 eventId ++ beU16 alarmId)
    | .sendImip due isPayload =>
      if !isPayload then some (beU64 due ++ beU32 accountId ++ [4] ++ beU32 documentId)
      else
        some (List.replicate 8 255 ++ beU32 accountId ++ [5] ++ beU32 documentId ++ beU64 due)
    | .mergeThreads due => some (beU64 due ++ beU32 accountId ++ [9] ++ beU32 documentId)
  | .blob op =>
    match op with
    | .commit hash => some hash.toList
    | .link hash (.id id) => some (hash.toList ++ beU64 id)
    | .link hash .document =>
      some (hash.toList ++ beU32 accountId ++ [collection] ++ beU32 documentId)
    | .link hash (.temporary until_) => some (hash.toList ++ beU32 accountId ++ beU64 until_)
    | .quota hash until_ => some ([0] ++ beU32 accountId ++ hash.toList ++ beU64 until_)
    | .undelete hash until_ => some ([1] ++ beU32 accountId ++ hash.toList ++ beU64 until_)
    | .spamSample hash until_ => some ([2] ++ beU64 until_ ++ beU32 accountId ++ hash.toList)
  | .config key | .inMemory (.key key) | .inMemory (.counter key) => some key
  | .directory class_ =>
    match class_ with
    | .nameToId name => some (0 :: name)
    | .emailToId email => some (1 :: email)
    | .principal uid => some (2 :: toLeb128Bytes uid.toNat)
    | .usedQuota uid => some (4 :: toLeb128Bytes uid.toNat)
    | .memberOf principalId memberOf => some (5 :: (beU32 principalId ++ beU32 memberOf))
    | .members principalId hasMember => some (6 :: (beU32 principalId ++ beU32 hasMember))
    | .index word principalId => some (7 :: (word ++ beU32 principalId))
  | .queue class_ =>
    match class_ with
    | .message queueId => some (beU64 queueId)
    | .messageEvent event =>
      some (beU64 event.due ++ beU64 event.queueId ++ event.queueName.toList)
    | .dmarcReportHeader event => some ([0] ++ event.key ++ [0])
    | .tlsReportHeader event => some ([0] ++ event.key ++ [1])
    | .dmarcReportEvent event => some ([1] ++ event.key)
    | .tlsReportEvent event => some ([2] ++ event.key)
    | .quotaCount key => some (0 :: key)
    | .quotaSize key => some (1 :: key)
  | .report (.tls id expires) => some ([0] ++ beU64 expires ++ beU64 id)
  | .report (.dmarc id expires) => some ([1] ++ beU64 expires ++ beU64 id)
  | .report (.arf id expires) => some ([2] ++ beU64 expires ++ beU64 id)
  | .telemetry (.span spanId) => some (beU64 spanId)
  | .telemetry (.metric timestamp metricId nodeId) =>
    some (beU64 timestamp ++ toLeb128Bytes metricId.toNat ++ toLeb128Bytes nodeId.toNat)
  | .documentId => some (beU32 accountId ++ [collection])
  | .changeId => some (beU32 accountId)
  | .shareNotification notificationId notifyAccountId =>
    some (beU32 notifyAccountId ++ [SHARE_NOTIFICATION] ++ beU64 notificationId)
  | .searchIndex index => index.key
  | .any _ key => some key

/-- `ValueClass::serialize` with the subspace in front. -/
def ValueClass.serialize (accountId : UInt32) (collection : UInt8) (documentId : UInt32)
    (value : ValueClass) : Option Bytes :=
  (value.key accountId collection documentId).map (value.subspace collection :: ·)

structure ValueKey where
  accountId : UInt32
  collection : UInt8
  documentId : UInt32
  class_ : ValueClass
  deriving DecidableEq

/-- `Key for ValueKey`, with the subspace; `none` is `unreachable!()`. -/
def ValueKey.serialize (key : ValueKey) : Option Bytes :=
  key.class_.serialize key.accountId key.collection key.documentId

end MailServer.Store
