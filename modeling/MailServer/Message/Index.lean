import MailServer.Lib.Batches
import MailServer.Threading.Ingest

/-!
# The records of a message

What is stored for a message: `index_message` and `unindex` (`email/src/message/index/metadata.rs`)
and the operations that `ObjectIndexBuilder` (`common/src/storage/index.rs`) emits for its
`MessageData`.  The model follows one document and the quota counters; the entries of the change log
are left out.

Principal results: `index_of_update`; `index_of_build` — what the index operations of an insertion
and of a deletion write.
-/

namespace MailServer.Message

open MailServer.Threading MailServer.Batches List

/-! ## Archived headers -/

/-- `MetadataHeaderValue`; `other` is any value that is not a text. -/
inductive MetadataHeaderValue where
  | text (text : String)
  | textList (texts : List String)
  | other
deriving DecidableEq

structure MetadataHeader where
  name : HeaderName
  value : MetadataHeaderValue
deriving DecidableEq

/-- The names of the other headers whose values `build_metadata_contents` keeps. -/
def keptNames : List String :=
  ["From", "To", "Cc", "Date", "Bcc", "Reply-To", "Sender", "Comments", "Keywords",
    "Content-Description", "Content-ID", "Content-Language", "Content-Location",
    "Content-Transfer-Encoding", "Content-Type", "Content-Disposition", "List-ID"]

def isKept : HeaderName → Bool
  | .other name => keptNames.contains name
  | _ => true

/-- `From<HeaderValue>` for `MetadataHeaderValue`. -/
def archiveValue : HeaderValue → MetadataHeaderValue
  | .text value => .text value
  | .textList values => .textList values
  | .other => .other

/-- The header as `build_metadata_contents` keeps it. -/
def archiveHeader (header : Header) : MetadataHeader where
  name := header.name
  value := if isKept header.name then archiveValue header.value else .other

/-- `as_text`, which takes the last text of a list. -/
def MetadataHeaderValue.asText : MetadataHeaderValue → Option String
  | .text value => some value
  | .textList values => values.getLast?
  | .other => none

/-! ## Records and keys -/

def TRASH_ID : ℕ := 1

structure UidMailbox where
  mailboxId : ℕ
  uid : ℕ
deriving DecidableEq

structure MessageData where
  mailboxes : List UidMailbox
  keywords : List String
  threadId : ℕ
  size : ℕ
deriving DecidableEq

/-- The blob of the message and the headers of its root part. -/
structure MessageMetadata (β : Type) where
  blobHash : β
  headers : List MetadataHeader
deriving DecidableEq

/-- The keys of one document; `updateIndex` is its task in the queue. -/
inductive Key (κ β : Type) where
  | archive
  | metadata
  | threading (hash : κ)
  | deletedAt
  | blobLink (hash : β)
  | updateIndex (isInsert : Bool)
deriving DecidableEq

inductive StoredValue (κ β : Type) where
  | data (data : MessageData)
  | metadata (metadata : MessageMetadata β)
  | threadInfo (info : ThreadInfo κ)
  | time (seconds : ℕ)
  | empty
deriving DecidableEq

/-- A write to the document, or to the quota counter of a principal. -/
abbrev MessageWrite (κ β : Type) := Write (Key κ β) (StoredValue κ β) ℕ

/-- The document and the quota counters. -/
abbrev Records (κ β : Type) := Contents (Key κ β) (StoredValue κ β) ℕ

variable {κ β : Type}

/-! ## `ObjectIndexBuilder` -/

/-- The `IndexValue`s of a message that are not entries of the change log. -/
inductive IndexValue where
  | property (value : Option ℕ)
  | quota (used : ℕ)
deriving DecidableEq

def MessageData.isInTrash (data : MessageData) : Bool :=
  data.mailboxes.any fun mailbox =>
    mailbox.mailboxId == TRASH_ID || mailbox.mailboxId == JUNK_ID

/-- `index_values`; `now` is the time read for it. -/
def MessageData.indexValues (now : ℕ) (data : MessageData) : List IndexValue :=
  [.property (if data.isInTrash then some now else none), .quota data.size]

/-- The two counters that a difference is added to. -/
def addQuota (accountId : ℕ) (tenantId : Option ℕ) (amount : ℤ) : List (MessageWrite κ β) :=
  .add accountId amount :: tenantId.toList.map fun id => .add id amount

def buildIndex (accountId : ℕ) (tenantId : Option ℕ) (set : Bool) :
    IndexValue → List (MessageWrite κ β)
  | .property none => []
  | .property (some value) =>
    if set then [.set .deletedAt (.time value)] else [.clear .deletedAt]
  | .quota used => addQuota accountId tenantId (if set then used else -used)

/-- `merge_index`, of two values that differ. -/
def mergeIndex (accountId : ℕ) (tenantId : Option ℕ) :
    IndexValue → IndexValue → List (MessageWrite κ β)
  | .property _, .property (some value) => [.set .deletedAt (.time value)]
  | .property _, .property none => [.clear .deletedAt]
  | .quota old, .quota new => addQuota accountId tenantId ((new : ℤ) - old)
  | _, _ => []

/-- `ObjectIndexBuilder::build`; the two times are those read for the current record and for the
changes. -/
def build (accountId : ℕ) (tenantId : Option ℕ) (now now' : ℕ) :
    Option MessageData → Option MessageData → List (MessageWrite κ β)
  | none, some changes =>
    (changes.indexValues now').flatMap (buildIndex accountId tenantId true) ++
      [.set .archive (.data changes)]
  | some current, some changes =>
    .assertValue .archive (.data current) ::
      ((((current.indexValues now).zip (changes.indexValues now')).flatMap fun values =>
        if values.1 ≠ values.2 then mergeIndex accountId tenantId values.1 values.2 else []) ++
        [.set .archive (.data changes)])
  | some current, none =>
    .assertValue .archive (.data current) ::
      ((current.indexValues now).flatMap (buildIndex accountId tenantId false) ++
        [.clear .archive])
  | none, none => []

/-! ## Ingestion -/

/-- What the spam filter has found. -/
structure SpamStatus where
  isSpam : Bool
  reason : Option String

def SpamStatus.text (status : SpamStatus) : String :=
  (if status.isSpam then "Yes" else "No") ++ (status.reason.map (", reason=" ++ ·)).getD ""

/-- What `email_ingest` knows when it stores a message: its length, the headers added to it, the
headers and the length of what has taken its place when it was encrypted, and the ids assigned. -/
structure IngestContext (β : Type) where
  accountId : ℕ
  tenantId : Option ℕ
  documentId : ℕ
  rawLen : ℕ
  deliveredTo : Option String
  spamStatus : Option SpamStatus
  encrypted : Option (List Header × ℕ)
  blobHash : β
  uids : List ℕ
  keywords : List String
  now : ℕ

variable (c : IngestContext β)

def IngestContext.extraHeaders : String :=
  (c.deliveredTo.map fun address => "Delivered-To: " ++ address ++ "\r\n").getD "" ++
    (c.spamStatus.map fun status => "X-Spam-Status: " ++ status.text ++ "\r\n").getD ""

def IngestContext.extraHeadersParsed : List Header :=
  (c.deliveredTo.map fun address => ⟨.other "Delivered-To", .text address⟩).toList ++
    (c.spamStatus.map fun status => ⟨.other "X-Spam-Status", .text status.text⟩).toList

/-- A message found to be spam on its way to the inbox goes to the junk mailbox. -/
def IngestContext.isRedirected (mailboxIds : List ℕ) : Bool :=
  (c.spamStatus.map SpamStatus.isSpam).getD false && mailboxIds == [INBOX_ID]

/-- The length of the message as it is stored, in 32 bits. -/
def IngestContext.storedSize : ℕ :=
  ((c.encrypted.map Prod.snd).getD c.rawLen + c.extraHeaders.utf8ByteSize) % 2 ^ 32

def IngestContext.messageData (mailboxIds : List ℕ) (threadId : ℕ) :
    MessageData where
  mailboxes :=
    ((if c.isRedirected mailboxIds then [JUNK_ID] else mailboxIds).zip c.uids).map fun pair =>
      ⟨pair.1, pair.2⟩
  keywords := c.keywords ++ if c.isRedirected mailboxIds then ["$junk"] else []
  threadId
  size := c.storedSize

/-- The headers of the root part that `index_message` archives. -/
def IngestContext.rootHeaders (headers : List Header) : List Header :=
  c.extraHeadersParsed ++ (c.encrypted.map Prod.fst).getD headers

def indexMessage (headers : List Header) (data : MessageData) :
    List (MessageWrite κ β) :=
  .set (.blobLink c.blobHash) .empty ::
    (build c.accountId c.tenantId c.now c.now none (some data) ++
      [.set .metadata
        (.metadata ⟨c.blobHash, (c.rootHeaders headers).map archiveHeader⟩)])

/-- The batch that `email_ingest` writes for the document. -/
def ingestBatch (headers : List Header) (mailboxIds : List ℕ) (messageIds : List κ)
    (threadResult : ThreadResult κ) : List (MessageWrite κ β) :=
  let threadId := threadResult.threadId.getD c.documentId
  indexMessage c headers (c.messageData mailboxIds threadId) ++
    [.set (.threading threadResult.threadHash) (.threadInfo ⟨threadId, messageIds⟩),
      .set (.updateIndex true) .empty]

/-! ## Deletion -/

/-- The batch of `emails_delete`, and that of `mailbox_destroy` for a message of the mailbox only.
-/
def deleteBatch (accountId : ℕ) (tenantId : Option ℕ) (now : ℕ) (current : MessageData) :
    List (MessageWrite κ β) :=
  build accountId tenantId now now (some current) none ++ [.set (.updateIndex false) .empty]

/-- The thread name that `unindex` finds in the archived headers. -/
def MessageMetadata.unindexThreadName (threadName : String → String) (m : MessageMetadata β) :
    String :=
  ((m.headers.reverse.findSome? fun header =>
    if header.name = .subject then header.value.asText else none).map threadName).getD ""

def MessageMetadata.unindex (hash : String → κ) (threadName : String → String)
    (m : MessageMetadata β) : List (MessageWrite κ β) :=
  [.clear .metadata, .clear (.threading (hash (threadKey (m.unindexThreadName threadName)))),
    .clear (.blobLink m.blobHash)]

def deleteEmailMetadata (hash : String → κ) (threadName : String → String)
    (s : Records κ β) : List (MessageWrite κ β) :=
  match s.value .metadata with
  | some (.metadata m) => m.unindex hash threadName
  | _ => []

/-! ## What the index operations write -/

/-- The operation writes neither the archive nor a key of `index_message`, and asserts nothing. -/
def IsIndexWrite : MessageWrite κ β → Prop
  | .set .deletedAt _ | .clear .deletedAt | .add _ _ => True
  | _ => False

section

variable {accountId : ℕ} {tenantId : Option ℕ} {op : MessageWrite κ β}

theorem isIndexWrite_addQuota {amount : ℤ} (h : op ∈ addQuota accountId tenantId amount) :
    IsIndexWrite op := by
  rcases mem_cons.1 h with rfl | h
  · trivial
  · obtain ⟨id, -, rfl⟩ := mem_map.1 h
    trivial

theorem isIndexWrite_buildIndex {set : Bool} {item : IndexValue}
    (h : op ∈ buildIndex accountId tenantId set item) : IsIndexWrite op := by
  cases item with
  | quota used => exact isIndexWrite_addQuota h
  | property value =>
    cases value with
    | none => cases h
    | some value =>
      cases set with
      | true =>
        obtain rfl := mem_singleton.1 h
        trivial
      | false =>
        obtain rfl := mem_singleton.1 h
        trivial

theorem isIndexWrite_mergeIndex {old new : IndexValue}
    (h : op ∈ mergeIndex accountId tenantId old new) : IsIndexWrite op := by
  cases old with
  | quota used =>
    cases new with
    | quota used' => exact isIndexWrite_addQuota h
    | property value => cases h
  | property value =>
    cases new with
    | quota used => cases h
    | property value' =>
      cases value' with
      | none =>
        obtain rfl := mem_singleton.1 h
        trivial
      | some value' =>
        obtain rfl := mem_singleton.1 h
        trivial

end

theorem IsIndexWrite.unconditional {op : MessageWrite κ β} (h : IsIndexWrite op) :
    op.Unconditional := by
  cases op with
  | assertValue key value => exact h.elim
  | set | clear | add => trivial

section Writes

variable [DecidableEq κ] [DecidableEq β]

/-- The index operations write to no key but `DeletedAt`. -/
theorem lastWrite_of_isIndexWrite {batch}
    (h : ∀ op ∈ batch, IsIndexWrite op) {key : Key κ β} (hkey : key ≠ .deletedAt) :
    lastWrite key batch = none := by
  unfold lastWrite
  rw [findSome?_eq_none_iff]
  intro op hop
  have hindex := h op (mem_reverse.1 hop)
  cases op with
  | assertValue key' value => rfl
  | add counter amount => rfl
  | set key' value =>
    have hdeletedAt : key' = .deletedAt := by
      cases key' <;> first | rfl | exact hindex.elim
    subst hdeletedAt
    simp [Write.leaves, Ne.symm hkey]
  | clear key' =>
    have hdeletedAt : key' = .deletedAt := by
      cases key' <;> first | rfl | exact hindex.elim
    subst hdeletedAt
    simp [Write.leaves, Ne.symm hkey]

/-- What a charge to an account and its tenant adds to the counter of a principal. -/
def charge (accountId : ℕ) (tenantId : Option ℕ) (amount : ℤ) (id : ℕ) : ℤ :=
  (if accountId = id then amount else 0) + if tenantId = some id then amount else 0

omit [DecidableEq κ] [DecidableEq β] in
theorem added_addQuota (accountId : ℕ) (tenantId : Option ℕ) (amount : ℤ) (id : ℕ) :
    added id (addQuota accountId tenantId amount : List (MessageWrite κ β)) =
      charge accountId tenantId amount id := by
  unfold added addQuota charge
  cases tenantId with
  | none | some => simp [Write.adds]

theorem lastWrite_addQuota {accountId : ℕ} {tenantId : Option ℕ} {amount : ℤ} (key : Key κ β) :
    lastWrite key (addQuota accountId tenantId amount : List (MessageWrite κ β)) = none := by
  unfold lastWrite
  rw [findSome?_eq_none_iff]
  intro op hop
  rcases mem_cons.1 (mem_reverse.1 hop) with rfl | hop
  · rfl
  · obtain ⟨id, -, rfl⟩ := mem_map.1 hop
    rfl

theorem lastWrite_index_append {index} {op}
    (hindex : ∀ op ∈ index, IsIndexWrite op) {left}
    (hop : ∀ key, op.leaves key = if key = .archive then some left else none) (key : Key κ β) :
    lastWrite key (index ++ [op]) =
      if key = .archive then some left
      else if key = .deletedAt then lastWrite .deletedAt index else none := by
  rw [lastWrite_append, lastWrite_singleton, hop]
  by_cases harchive : key = .archive
  · rw [if_pos harchive, if_pos harchive, Option.some_or]
  · rw [if_neg harchive, if_neg harchive, Option.none_or]
    by_cases hdeletedAt : key = .deletedAt
    · rw [if_pos hdeletedAt, hdeletedAt]
    · rw [if_neg hdeletedAt, lastWrite_of_isIndexWrite hindex hdeletedAt]

omit [DecidableEq κ] [DecidableEq β] in
theorem unconditional_index_append {index} {last : MessageWrite κ β}
    {behind : List (MessageWrite κ β)} (hindex : ∀ op ∈ index, IsIndexWrite op)
    (hlast : last.Unconditional) (hbehind : ∀ op ∈ behind, op.Unconditional) :
    ∀ op ∈ index ++ [last] ++ behind, op.Unconditional := by
  intro op hmem
  rcases mem_append.1 hmem with hmem | hmem
  · rcases mem_append.1 hmem with hmem | hmem
    · exact (hindex op hmem).unconditional
    · rw [mem_singleton.1 hmem]
      exact hlast
  · exact hbehind op hmem

theorem leaves_set_archive (data : MessageData) (key : Key κ β) :
    (Write.set .archive (.data data) : MessageWrite κ β).leaves key =
      if key = .archive then some (some (.data data)) else none := by
  unfold Write.leaves
  simp only [eq_comm]

theorem leaves_clear_archive (key : Key κ β) :
    (Write.clear .archive : MessageWrite κ β).leaves key =
      if key = .archive then some none else none := by
  unfold Write.leaves
  simp only [eq_comm]

/-- What a record leaves in `DeletedAt`. -/
def deletedAtValue (now : ℕ) (data : MessageData) : Option (StoredValue κ β) :=
  if data.isInTrash then some (.time now) else none

theorem index_of_build (accountId : ℕ) (tenantId : Option ℕ) (set : Bool) (now : ℕ)
    (data : MessageData) :
    let index : List (MessageWrite κ β) :=
      (data.indexValues now).flatMap (buildIndex accountId tenantId set)
    (∀ op ∈ index, IsIndexWrite op) ∧
    lastWrite .deletedAt index =
      (if data.isInTrash then some (if set then deletedAtValue now data else none) else none) ∧
    ∀ id, added id index =
      charge accountId tenantId (if set then data.size else -data.size) id := by
  intro index
  have hsplit : index =
      buildIndex accountId tenantId set
        (.property (if data.isInTrash then some now else none)) ++
      addQuota accountId tenantId (if set then data.size else -data.size) :=
    (flatMap_cons ..).trans (congrArg _ (flatMap_singleton ..))
  refine ⟨fun op hop => ?_, ?_, fun id => ?_⟩
  · obtain ⟨item, -, hmem⟩ := mem_flatMap.1 hop
    exact isIndexWrite_buildIndex hmem
  · rw [hsplit, lastWrite_append, lastWrite_addQuota]
    unfold deletedAtValue
    cases data.isInTrash <;> cases set <;> rfl
  · rw [hsplit, added_append, added_addQuota]
    have hproperty : ∀ value, added id
        (buildIndex accountId tenantId set (.property value) : List (MessageWrite κ β)) = 0 := by
      intro value
      cases value <;> cases set <;> rfl
    rw [hproperty, zero_add]

/-- The index operations of an update that keeps the size. -/
theorem index_of_update (accountId : ℕ) (tenantId : Option ℕ) (now now' : ℕ)
    {current changes : MessageData} (hsize : changes.size = current.size) :
    let index : List (MessageWrite κ β) :=
      ((current.indexValues now).zip (changes.indexValues now')).flatMap fun values =>
        if values.1 ≠ values.2 then mergeIndex accountId tenantId values.1 values.2 else []
    (∀ op ∈ index, IsIndexWrite op) ∧
    lastWrite .deletedAt index =
      (if deletedAtValue (κ := κ) (β := β) now current = deletedAtValue now' changes then none
        else some (deletedAtValue now' changes)) ∧
    ∀ id, added id index = 0 := by
  intro index
  have hquota : IndexValue.quota changes.size = .quota current.size := congrArg _ hsize
  have hsplit : index =
      if IndexValue.property (if current.isInTrash then some now else none) ≠
          .property (if changes.isInTrash then some now' else none) then
        mergeIndex accountId tenantId
          (.property (if current.isInTrash then some now else none))
          (.property (if changes.isInTrash then some now' else none))
      else [] := by
    have hzip : (current.indexValues now).zip (changes.indexValues now') =
        [(.property (if current.isInTrash then some now else none),
            .property (if changes.isInTrash then some now' else none)),
          (.quota current.size, .quota current.size)] := by
      unfold MessageData.indexValues
      rw [hquota]
      rfl
    have hflat : index = _ := congrArg (flatMap _) hzip
    rw [hflat, flatMap_cons, flatMap_singleton, if_neg (not_not.2 rfl), append_nil]
  refine ⟨fun op hop => ?_, ?_, fun id => ?_⟩
  · obtain ⟨values, -, hmem⟩ := mem_flatMap.1 hop
    split at hmem
    · exact isIndexWrite_mergeIndex hmem
    · cases hmem
  · rw [hsplit]
    unfold deletedAtValue
    cases current.isInTrash <;> cases changes.isInTrash
    · rfl
    · rfl
    · rfl
    · by_cases hnow : now = now' <;> simp [hnow, mergeIndex, lastWrite, Write.leaves]
  · have hmerge : ∀ old new, added id (mergeIndex accountId tenantId (.property old)
        (.property new) : List (MessageWrite κ β)) = 0 := by
      intro old new
      cases new <;> rfl
    rw [hsplit, apply_ite (added id), hmerge]
    exact ite_self _

end Writes

end MailServer.Message
