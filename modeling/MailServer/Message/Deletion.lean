import MailServer.Message.Index
import Mathlib.Data.String.Basic

/-!
# Deleting a message

The life of a message in the store, from `email_ingest` over updates of its `MessageData` to
`emails_delete` (`email/src/message/delete.rs`) or the destruction of its last mailbox
(`email/src/mailbox/destroy.rs`) and the index task that removes its metadata
(`services/src/task_manager/index.rs`).

Principal results: `Stored.run`, `undone_iff`, `reply_subject_remains`.
-/

namespace MailServer.Message

open MailServer.Threading MailServer.Batches List

variable {κ β ε : Type} [LinearOrder κ] [DecidableEq β]

/-! ## Ingestion -/

variable (hash : String → κ)

/-- `email_ingest` up to the batch that it writes; `none` is a message that is skipped. -/
def ingest (threadName : String → String) (order : ThreadMerge → ThreadMerge)
    (quota : Except ε Unit) (params : IngestEmail) (account : Account) (c : IngestContext β) :
    Except (IngestError ε) (Option (List (MessageWrite κ β))) :=
  emailIngest hash threadName order quota params account fun references threadResult =>
    .ok (ingestBatch c (params.message.getD []) params.mailboxIds
      (sortedIds hash references.messageIds) threadResult)

/-! ## Updates -/

/-- What may happen to a message between its ingestion and the end of its deletion. -/
inductive Event (κ : Type) where
  /-- An update of mailboxes and keywords, by a user of a tenant, of a record read before. -/
  | update (current : MessageData) (mailboxes : List UidMailbox) (keywords : List String)
      (tenantId : Option ℕ) (now now' : ℕ)
  /-- A `MergeThreads` task that moves the message, as it was read, to another thread. -/
  | mergeThreads (threadHash : κ) (current : MessageData) (threadId now now' : ℕ)
  /-- The task that indexes the message is done. -/
  | indexed

def Event.apply (accountId : ℕ) (s : Records κ β) : Event κ → Records κ β
  | .update current mailboxes keywords tenantId now now' =>
    s.attempt (build accountId tenantId now now' (some current)
      (some { current with mailboxes, keywords }))
  | .mergeThreads threadHash current threadId now now' =>
    match s.value (.threading threadHash) with
    | some (.threadInfo info) =>
      s.attempt (build accountId none now now' (some current) (some { current with threadId }) ++
        [.set (.threading threadHash) (.threadInfo { info with threadId })])
    | _ => s
  | .indexed => s.attempt [.clear (.updateIndex true)]

/-! ## Deletion -/

/-- `emails_delete`, or `mailbox_destroy` with `remove_emails`; the tenant is that of the user. -/
inductive Deletion where
  | emailsDelete (tenantId : Option ℕ) (now : ℕ)
  | mailboxDestroy (mailboxId : ℕ) (tenantId : Option ℕ) (now : ℕ)

def Deletion.tenantId : Deletion → Option ℕ
  | .emailsDelete tenantId _ => tenantId
  | .mailboxDestroy _ tenantId _ => tenantId

/-- The message is deleted and not untagged only. -/
def Deletion.deletes : Deletion → MessageData → Bool
  | .emailsDelete _ _, _ => true
  | .mailboxDestroy mailboxId _ _, current =>
    current.mailboxes.any (fun mailbox => mailbox.mailboxId == mailboxId) &&
      current.mailboxes.length == 1

/-- The operations for a message. -/
def Deletion.batch (accountId : ℕ) (current : MessageData) : Deletion → List (MessageWrite κ β)
  | .emailsDelete tenantId now => deleteBatch accountId tenantId now current
  | .mailboxDestroy mailboxId tenantId now =>
    if !current.mailboxes.any fun mailbox => mailbox.mailboxId == mailboxId then []
    else if current.mailboxes.length == 1 then deleteBatch accountId tenantId now current
    else
      build accountId tenantId now now (some current)
        (some { current with
          mailboxes := current.mailboxes.filter fun mailbox => mailbox.mailboxId != mailboxId })

def Deletion.apply (accountId : ℕ) (deletion : Deletion) (s : Records κ β) : Records κ β :=
  match s.value .archive with
  | some (.data current) => s.attempt (deletion.batch accountId current)
  | _ => s

/-- The record found is one that the operation deletes. -/
def Deletion.Applies (deletion : Deletion) (s : Records κ β) : Prop :=
  match s.value .archive with
  | some (.data current) => deletion.deletes current
  | _ => False

instance (deletion : Deletion) (s : Records κ β) : Decidable (deletion.Applies s) := by
  unfold Deletion.Applies
  split <;> infer_instance

/-- The worker on the deletion task of the message: the metadata, and then the task, are removed. -/
def processDeletion (threadName : String → String) (s : Records κ β) :
    Records κ β :=
  if s.value (.updateIndex false) = some .empty then
    (s.attempt (deleteEmailMetadata hash threadName s)).attempt [.clear (.updateIndex false)]
  else s

/-! ## The life of a message -/

/-- A document id that is not in use, and quota counters. -/
def unused (start : ℕ → ℤ) : Records κ β where
  value _ := none
  counter := start

/-- What is stored after the ingestion and some events. -/
def stored (start : ℕ → ℤ) (accountId : ℕ) (batch : List (MessageWrite κ β))
    (events : List (Event κ)) : Records κ β :=
  events.foldl (Event.apply accountId) ((unused start).attempt batch)

/-- What is stored when the message has been deleted, other events have passed and the deletion task
has been processed. -/
def deleted (threadName : String → String) (accountId : ℕ) (deletion : Deletion)
    (later : List (Event κ)) (s : Records κ β) : Records κ β :=
  processDeletion hash threadName
    (later.foldl (Event.apply accountId) (deletion.apply accountId s))

/-- No key of the document remains and the counters are where they were. -/
structure Undone (start : ℕ → ℤ) (s : Records κ β) : Prop where
  archive : s.value .archive = none
  metadata : s.value .metadata = none
  threading : ∀ hash, s.value (.threading hash) = none
  deletedAt : s.value .deletedAt = none
  blobLink : ∀ hash, s.value (.blobLink hash) = none
  quota : ∀ id, s.counter id = start id

/-! ## Subjects -/

/-- The values of the subject headers, the last one first. -/
def subjects (headers : List Header) : List HeaderValue :=
  ((headers.filter fun header => header.name = .subject).map Header.value).reverse

variable (threadName : String → String)

/-- The name that a message is filed under: the last thread name that is not empty, of the first
text of each subject. -/
def filedName (headers : List Header) : String :=
  (((subjects headers).map fun value => threadName value.subjectText).find? (· ≠ "")).getD ""

def lastText : HeaderValue → Option String
  | .text value => some value
  | .textList values => values.getLast?
  | .other => none

/-- The name that is cleared: the thread name of the last text of the last subject that has one. -/
def clearedName (headers : List Header) : String :=
  (((subjects headers).findSome? lastText).map threadName).getD ""

theorem subject_readReferences (headers : List Header) :
    (readReferences threadName headers).subject = filedName threadName headers := by
  have hfold : ∀ (l : List Header) r,
      (l.foldl (References.visit threadName) r).subject =
        if r.subject = "" then
          ((((l.filter fun header => header.name = .subject).map Header.value).map
            fun value => threadName value.subjectText).find? (· ≠ "")).getD ""
        else r.subject := by
    intro l
    induction l with
    | nil =>
      intro r
      by_cases hr : r.subject = ""
      · rw [if_pos hr]
        exact hr
      · rw [if_neg hr]
        rfl
    | cons header rest ih =>
      intro r
      rw [foldl_cons, ih]
      cases hname : header.name with
      | subject =>
        by_cases hr : r.subject = ""
        · by_cases hne : threadName header.value.subjectText = ""
          · simp [References.visit, hname, hr, hne]
          · simp [References.visit, hname, hr, hne]
        · simp [References.visit, hname, hr]
      | messageId | inReplyTo | references | resentMessageId | other =>
        simp [References.visit, hname]
  unfold readReferences filedName subjects
  rw [hfold, if_pos rfl, filter_reverse, map_reverse]

omit [DecidableEq β] in
theorem unindexThreadName_archive (blobHash : β) (headers : List Header) :
    (⟨blobHash, headers.map archiveHeader⟩ : MessageMetadata β).unindexThreadName threadName =
      clearedName threadName headers := by
  have hfind : ∀ l : List Header,
      ((l.map archiveHeader).findSome? fun header =>
        if header.name = .subject then header.value.asText else none) =
        ((l.filter fun header => header.name = .subject).map Header.value).findSome? lastText := by
    intro l
    induction l with
    | nil => rfl
    | cons header rest ih =>
      have hvalue : (archiveValue header.value).asText = lastText header.value := by
        cases header.value <;> rfl
      rw [map_cons, findSome?_cons, ih]
      by_cases hname : header.name = .subject
      · simp [archiveHeader, hname, isKept, hvalue, findSome?_cons]
      · simp [archiveHeader, hname]
  unfold MessageMetadata.unindexThreadName clearedName subjects
  rw [← map_reverse, hfind, filter_reverse, map_reverse]

/-! ## What an update writes -/

omit [DecidableEq β] [LinearOrder κ] in
@[simp] theorem isSome_deletedAtValue (now : ℕ) (data : MessageData) :
    (deletedAtValue now data : Option (StoredValue κ β)).isSome = data.isInTrash := by
  unfold deletedAtValue
  cases data.isInTrash <;> rfl

/-- An update that keeps the size, with other writes behind it: the record read is not the one
stored and nothing happens, or everything is written. -/
theorem attempt_update (s : Records κ β) (accountId : ℕ) (tenantId : Option ℕ) (now now' : ℕ)
    {current changes : MessageData} (hsize : changes.size = current.size)
    {extra} (hextra : ∀ op ∈ extra, op.Unconditional) :
    let t := s.attempt (build accountId tenantId now now' (some current) (some changes) ++ extra)
    t = s ∨ s.value .archive = some (.data current) ∧
      (∀ key, t.value key = (lastWrite key extra).getD
        (if key = .archive then some (.data changes)
          else if key = .deletedAt ∧ deletedAtValue (κ := κ) (β := β) now current ≠
            deletedAtValue now' changes then deletedAtValue now' changes
          else s.value key)) ∧
      ∀ id, t.counter id = s.counter id + added id extra := by
  intro t
  obtain ⟨hindex, hdeletedAt, hadded⟩ := index_of_update (κ := κ) (β := β) accountId tenantId now
    now' hsize
  set index : List (MessageWrite κ β) :=
    ((current.indexValues now).zip (changes.indexValues now')).flatMap fun values =>
      if values.1 ≠ values.2 then mergeIndex accountId tenantId values.1 values.2 else []
    with hindexDef
  by_cases hcurrent : s.value .archive = some (.data current)
  · have hrest : ∀ op ∈ index ++ [.set .archive (.data changes)] ++ extra, op.Unconditional :=
      unconditional_index_append hindex trivial hextra
    obtain ⟨hvalue, hcounter⟩ := attempt_of_current hrest hcurrent
    refine .inr ⟨hcurrent, fun key => ?_, fun id => ?_⟩
    · have ht : t.value key = _ := hvalue key
      rw [ht, lastWrite_append, lastWrite_index_append hindex (leaves_set_archive changes),
        hdeletedAt]
      cases lastWrite key extra with
      | some left => rfl
      | none =>
        by_cases harchive : key = .archive
        · rw [if_pos harchive, if_pos harchive]
          rfl
        · rw [if_neg harchive, if_neg harchive]
          by_cases hkey : key = .deletedAt
          · rw [if_pos hkey]
            by_cases hsame : deletedAtValue (κ := κ) (β := β) now current =
                deletedAtValue now' changes
            · rw [if_pos hsame, if_neg (fun h => h.2 hsame)]
              rfl
            · rw [if_neg hsame, if_pos ⟨hkey, hsame⟩]
              rfl
          · rw [if_neg hkey, if_neg (fun h => hkey h.1)]
            rfl
    · have ht : t.counter id = _ := hcounter id
      have harchive : added id [(Write.set .archive (.data changes) : MessageWrite κ β)] = 0 := rfl
      rw [ht, added_append, added_append, hadded, harchive, zero_add, zero_add]
  · refine .inl ?_
    have ht : t = s.attempt (.assertValue .archive (.data current) ::
        (index ++ [.set .archive (.data changes)] ++ extra)) := rfl
    rw [ht, attempt_of_stale hcurrent]

/-! ## A stored message -/

/-- What was written with the message. -/
structure Written (κ β : Type) where
  accountId : ℕ
  tenantId : Option ℕ
  threadHash : κ
  metadata : MessageMetadata β
  size : ℕ

/-- The document is stored, and the counters have moved by its size. -/
structure Stored (start : ℕ → ℤ) (w : Written κ β) (s : Records κ β) : Prop where
  archive : ∃ data, s.value .archive = some (.data data) ∧ data.size = w.size ∧
    (s.value .deletedAt).isSome = data.isInTrash
  metadata : s.value .metadata = some (.metadata w.metadata)
  threading : ∀ hash, s.value (.threading hash) = none ↔ hash ≠ w.threadHash
  blobLink : ∀ hash, s.value (.blobLink hash) = none ↔ hash ≠ w.metadata.blobHash
  quota : ∀ id, s.counter id = start id + charge w.accountId w.tenantId w.size id

/-- The record is gone, what the index task removes is still there. -/
structure Removed (start : ℕ → ℤ) (w : Written κ β) (tenantId : Option ℕ) (s : Records κ β) :
    Prop where
  archive : s.value .archive = none
  deletedAt : s.value .deletedAt = none
  metadata : s.value .metadata = some (.metadata w.metadata)
  threading : ∀ hash, s.value (.threading hash) = none ↔ hash ≠ w.threadHash
  blobLink : ∀ hash, s.value (.blobLink hash) = none ↔ hash ≠ w.metadata.blobHash
  task : s.value (.updateIndex false) = some .empty
  quota : ∀ id, s.counter id = start id + charge w.accountId w.tenantId w.size id +
    charge w.accountId tenantId (-w.size) id

variable {start : ℕ → ℤ} {w : Written κ β} {s : Records κ β}

/-- An update of a stored message, with writes behind it that leave the keys of the document alone.
-/
theorem Stored.attempt_update (h : Stored start w s) (accountId : ℕ) (tenantId : Option ℕ)
    (now now' : ℕ) (current changes : MessageData) (hsize : changes.size = current.size)
    (extra : List (MessageWrite κ β)) (hextra : ∀ op ∈ extra, op.Unconditional)
    (hkey : ∀ key, (∀ hash, key ≠ .threading hash) → lastWrite key extra = none)
    (hthreading : ∀ hash, (lastWrite (.threading hash) extra).getD (s.value (.threading hash)) =
      none ↔ s.value (.threading hash) = none)
    (hadded : ∀ id, added id extra = 0) :
    Stored start w (s.attempt
      (build accountId tenantId now now' (some current) (some changes) ++ extra)) := by
  rcases Message.attempt_update s accountId tenantId now now' hsize hextra with
    hstale | ⟨hcurrent, hvalue, hcounter⟩
  · rw [hstale]
    exact h
  · obtain ⟨data, harchive, hdata, htrash⟩ := h.archive
    have hsame : data = current := by
      have := harchive.symm.trans hcurrent
      cases this
      rfl
    subst hsame
    -- every key but those of the record is as it was
    have hother : ∀ key, key ≠ .archive → key ≠ .deletedAt → (∀ hash, key ≠ .threading hash) →
        (s.attempt (build accountId tenantId now now' (some data) (some changes) ++
          extra)).value key = s.value key := by
      intro key hne hne' hne''
      rw [hvalue, hkey key hne'', Option.getD_none, if_neg hne, if_neg (fun hand => hne' hand.1)]
    refine ⟨⟨changes, ?_, hsize.trans hdata, ?_⟩, ?_, fun hash => ?_, fun hash => ?_, fun id => ?_⟩
    · rw [hvalue, hkey _ (fun _ => by simp), Option.getD_none, if_pos rfl]
    · rw [hvalue, hkey _ (fun _ => by simp), Option.getD_none, if_neg (by simp)]
      by_cases hdeletedAt : deletedAtValue (κ := κ) (β := β) now data = deletedAtValue now' changes
      · have hsame := congrArg Option.isSome hdeletedAt
        rw [isSome_deletedAtValue, isSome_deletedAtValue] at hsame
        rw [if_neg (fun hand => hand.2 hdeletedAt), htrash, hsame]
      · rw [if_pos ⟨rfl, hdeletedAt⟩, isSome_deletedAtValue]
    · rw [hother _ (by simp) (by simp) (fun _ => by simp)]
      exact h.metadata
    · rw [hvalue, if_neg (by simp), if_neg (fun hand => by simp at hand), hthreading]
      exact h.threading hash
    · rw [hother _ (by simp) (by simp) (fun _ => by simp)]
      exact h.blobLink hash
    · rw [hcounter, hadded, add_zero]
      exact h.quota id

/-- **Every event keeps the message stored.** -/
theorem Stored.apply (h : Stored start w s) (event : Event κ) :
    Stored start w (event.apply w.accountId s) := by
  cases event with
  | update current mailboxes keywords tenantId now now' =>
    have hupdate := h.attempt_update w.accountId tenantId now now' current
      { current with mailboxes, keywords } rfl [] (fun op hop => by cases hop) (fun _ _ => rfl)
      (fun _ => Iff.rfl) (fun _ => rfl)
    rw [append_nil] at hupdate
    exact hupdate
  | mergeThreads threadHash current threadId now now' =>
    dsimp only [Event.apply]
    split
    · rename_i info hinfo
      refine h.attempt_update w.accountId none now now' current { current with threadId } rfl
        [.set (.threading threadHash) (.threadInfo { info with threadId })] (fun op hop => ?_)
        (fun key hkey => ?_) (fun hash => ?_) (fun _ => rfl)
      · obtain rfl := mem_singleton.1 hop
        trivial
      · simp [Write.leaves, Ne.symm (hkey threadHash)]
      · by_cases hhash : threadHash = hash
        · subst hhash
          simp [Write.leaves, hinfo]
        · simp [Write.leaves, hhash]
    · exact h
  | indexed =>
    obtain ⟨hvalue, hcounter⟩ := attempt_of_unconditional s
      [(.clear (.updateIndex true) : MessageWrite κ β)]
      (fun op hop => by obtain rfl := mem_singleton.1 hop; trivial)
    have hkeep : ∀ key, key ≠ .updateIndex true →
        (s.attempt [.clear (.updateIndex true)]).value key = s.value key := by
      intro key hne
      rw [hvalue]
      simp [Write.leaves, Ne.symm hne]
    obtain ⟨data, harchive, hdata, htrash⟩ := h.archive
    have hclear : Event.apply w.accountId s .indexed =
        s.attempt [.clear (.updateIndex true)] := rfl
    rw [hclear]
    refine ⟨⟨data, ?_, hdata, ?_⟩, ?_, fun hash => ?_, fun hash => ?_, fun id => ?_⟩
    · rw [hkeep _ (by simp), harchive]
    · rw [hkeep _ (by simp), htrash]
    · rw [hkeep _ (by simp), h.metadata]
    · rw [hkeep _ (by simp), h.threading]
    · rw [hkeep _ (by simp), h.blobLink]
    · rw [hcounter, h.quota]
      exact add_zero _

/-- **Every run of events keeps the message stored.** -/
theorem Stored.run (h : Stored start w s) (events : List (Event κ)) :
    Stored start w (events.foldl (Event.apply w.accountId) s) := by
  induction events generalizing s with
  | nil => exact h
  | cons event rest ih => exact ih (h.apply event)

/-- The message is stored once its batch is written. -/
theorem stored_ingestBatch (start : ℕ → ℤ) (c : IngestContext β) (headers : List Header)
    (mailboxIds : List ℕ) (messageIds : List κ) (threadResult : ThreadResult κ) :
    Stored start ⟨c.accountId, c.tenantId, threadResult.threadHash,
        ⟨c.blobHash, (c.rootHeaders headers).map archiveHeader⟩, c.storedSize⟩
      ((unused start).attempt
        (ingestBatch c headers mailboxIds messageIds threadResult)) := by
  set threadId := threadResult.threadId.getD c.documentId
  set data := c.messageData mailboxIds threadId
  obtain ⟨hindex, hdeletedAt, hadded⟩ :=
    index_of_build (κ := κ) (β := β) c.accountId c.tenantId true c.now data
  set index : List (MessageWrite κ β) :=
    (data.indexValues c.now).flatMap (buildIndex c.accountId c.tenantId true) with hindexDef
  set metadata : MessageMetadata β := ⟨c.blobHash, (c.rootHeaders headers).map archiveHeader⟩
  -- the writes behind the record
  set behind : List (MessageWrite κ β) :=
    [.set .metadata (.metadata metadata),
      .set (.threading threadResult.threadHash) (.threadInfo ⟨threadId, messageIds⟩),
      .set (.updateIndex true) .empty] with hbehindDef
  have hbatch : ingestBatch c headers mailboxIds messageIds threadResult =
      [.set (.blobLink c.blobHash) .empty] ++
        ((index ++ [.set .archive (.data data)]) ++ behind) := by
    unfold ingestBatch indexMessage
    simp [hbehindDef, hindexDef, build, data, threadId, metadata]
  have huncond : ∀ op ∈ ingestBatch c headers mailboxIds messageIds threadResult,
      op.Unconditional := by
    intro op hop
    rw [hbatch] at hop
    rcases mem_append.1 hop with hop | hop
    · obtain rfl := mem_singleton.1 hop
      trivial
    · have hlast : (.set .archive (.data data) : MessageWrite κ β).Unconditional := trivial
      refine unconditional_index_append hindex hlast (fun op hop => ?_) op hop
      simp only [hbehindDef, mem_cons, not_mem_nil, or_false] at hop
      rcases hop with rfl | rfl | rfl <;> trivial
  obtain ⟨hvalue, hcounter⟩ := attempt_of_unconditional (unused start) _ huncond
  have hread : ∀ key, ((unused start).attempt
      (ingestBatch c headers mailboxIds messageIds threadResult)).value key =
      (((lastWrite key behind).or
        (if key = .archive then some (some (.data data))
          else if key = .deletedAt then lastWrite .deletedAt index else none)).or
        ((Write.set (.blobLink c.blobHash) .empty : MessageWrite κ β).leaves key)).getD none := by
    intro key
    rw [hvalue, hbatch, lastWrite_append, lastWrite_append,
      lastWrite_index_append hindex (leaves_set_archive data), lastWrite_singleton]
    rfl
  refine ⟨⟨data, ?_, rfl, ?_⟩, ?_, fun hash => ?_, fun hash => ?_, fun id => ?_⟩
  · rw [hread]
    rfl
  · rw [hread, if_neg (by simp), hdeletedAt]
    cases htrash : data.isInTrash <;>
      simp [hbehindDef, lastWrite, Write.leaves, htrash]
  · rw [hread]
    rfl
  · rw [hread]
    by_cases hhash : threadResult.threadHash = hash
    · simp [hbehindDef, lastWrite, Write.leaves, hhash]
    · simp [hbehindDef, lastWrite, Write.leaves, hhash, Ne.symm hhash]
  · rw [hread]
    by_cases hhash : c.blobHash = hash
    · simp [hbehindDef, lastWrite, Write.leaves, hhash, metadata]
    · simp [hbehindDef, lastWrite, Write.leaves, hhash, Ne.symm hhash, metadata]
  · rw [hcounter, hbatch, added_append, added_append, added_append, hadded]
    have hzero : added id [(.set (.blobLink c.blobHash) .empty : MessageWrite κ β)] = 0 := rfl
    have hzero' : added id [(.set .archive (.data data) : MessageWrite κ β)] = 0 := rfl
    have hzero'' : added id behind = 0 := rfl
    rw [hzero, hzero', hzero'', zero_add, add_zero, add_zero]
    rfl

/-! ## A removed message -/

/-- **The deletion** removes the record and leaves the rest to its task. -/
theorem Stored.delete (h : Stored start w s) {deletion : Deletion} (happlies : deletion.Applies s) :
    Removed start w deletion.tenantId (deletion.apply w.accountId s) := by
  obtain ⟨data, harchive, hsize, htrash⟩ := h.archive
  have hdeletes : deletion.deletes data := by
    unfold Deletion.Applies at happlies
    rw [harchive] at happlies
    exact happlies
  obtain ⟨now, hbatch⟩ : ∃ now, deletion.batch w.accountId data =
      (deleteBatch w.accountId deletion.tenantId now data : List (MessageWrite κ β)) := by
    cases deletion with
    | emailsDelete tenantId now => exact ⟨now, rfl⟩
    | mailboxDestroy mailboxId tenantId now =>
      obtain ⟨hany, hlength⟩ := Bool.and_eq_true_iff.1 hdeletes
      refine ⟨now, ?_⟩
      dsimp only [Deletion.batch]
      rw [hany, if_pos hlength]
      rfl
  have happly : deletion.apply w.accountId s =
      s.attempt (deleteBatch w.accountId deletion.tenantId now data) := by
    unfold Deletion.apply
    rw [harchive]
    exact congrArg s.attempt hbatch
  obtain ⟨hindex, hdeletedAt, hadded⟩ :=
    index_of_build (κ := κ) (β := β) w.accountId deletion.tenantId false now data
  set index : List (MessageWrite κ β) :=
    (data.indexValues now).flatMap (buildIndex w.accountId deletion.tenantId false)
  have hcons : (deleteBatch w.accountId deletion.tenantId now data : List (MessageWrite κ β)) =
      .assertValue .archive (.data data) ::
        (index ++ [.clear .archive] ++ [.set (.updateIndex false) .empty]) := rfl
  have huncond : ∀ op ∈ index ++ [.clear .archive] ++ [.set (.updateIndex false) .empty],
      op.Unconditional := by
    refine unconditional_index_append hindex trivial fun op hop => ?_
    obtain rfl := mem_singleton.1 hop
    trivial
  obtain ⟨hvalue, hcounter⟩ := attempt_of_current huncond harchive
  have hread : ∀ key, (deletion.apply w.accountId s).value key =
      (((Write.set (.updateIndex false) .empty : MessageWrite κ β).leaves key).or
        (if key = .archive then some none
          else if key = .deletedAt then lastWrite .deletedAt index else none)).getD
        (s.value key) := by
    intro key
    rw [happly, hcons, hvalue, lastWrite_append,
      lastWrite_index_append hindex leaves_clear_archive, lastWrite_singleton]
  have hkeep : ∀ key, key ≠ .archive → key ≠ .deletedAt → key ≠ .updateIndex false →
      (deletion.apply w.accountId s).value key = s.value key := by
    intro key hne hne' hne''
    rw [hread, if_neg hne, if_neg hne']
    simp [Write.leaves, Ne.symm hne'']
  refine ⟨?_, ?_, ?_, fun hash => ?_, fun hash => ?_, ?_, fun id => ?_⟩
  · rw [hread]
    rfl
  · rw [hread, hdeletedAt]
    cases hdata : data.isInTrash with
    | true => simp [Write.leaves]
    | false =>
      have hnone : s.value .deletedAt = none := by
        rw [← Option.isNone_iff_eq_none, ← Option.not_isSome, htrash, hdata]
        rfl
      simp [Write.leaves, hnone]
  · rw [hkeep _ (by simp) (by simp) (by simp)]
    exact h.metadata
  · rw [hkeep _ (by simp) (by simp) (by simp)]
    exact h.threading hash
  · rw [hkeep _ (by simp) (by simp) (by simp)]
    exact h.blobLink hash
  · rw [hread]
    rfl
  · have hzero : added id [(.clear .archive : MessageWrite κ β)] = 0 := rfl
    have hzero' : added id [(.set (.updateIndex false) .empty : MessageWrite κ β)] = 0 := rfl
    rw [happly, hcons, hcounter, added_append, added_append, hadded, hzero, hzero', h.quota,
      add_zero, add_zero, hsize]
    rfl

section

variable {tenantId : Option ℕ} (h : Removed start w tenantId s)
include h

/-- Events do nothing to a message that is removed: what they assert does not hold. -/
theorem Removed.apply (event : Event κ) :
    Removed start w tenantId (event.apply w.accountId s) := by
  have hstale : ∀ current, s.value .archive ≠ some (.data current) := by
    intro current hcurrent
    rw [h.archive] at hcurrent
    cases hcurrent
  cases event with
  | update current mailboxes keywords tenantId' now now' =>
    have hsame : Event.apply w.accountId s
        (.update current mailboxes keywords tenantId' now now') = s :=
      attempt_of_stale (hstale current)
    rw [hsame]
    exact h
  | mergeThreads threadHash current threadId now now' =>
    have hsame : Event.apply w.accountId s
        (.mergeThreads threadHash current threadId now now') = s := by
      dsimp only [Event.apply]
      split
      · exact attempt_of_stale (hstale current)
      · rfl
    rw [hsame]
    exact h
  | indexed =>
    obtain ⟨hvalue, hcounter⟩ := attempt_of_unconditional s
      [(.clear (.updateIndex true) : MessageWrite κ β)]
      (fun op hop => by obtain rfl := mem_singleton.1 hop; trivial)
    have hkeep : ∀ key, key ≠ .updateIndex true →
        (Event.apply w.accountId s .indexed).value key = s.value key := by
      intro key hne
      refine (hvalue key).trans ?_
      simp [Write.leaves, Ne.symm hne]
    refine ⟨?_, ?_, ?_, fun hash => ?_, fun hash => ?_, ?_, fun id => ?_⟩
    · rw [hkeep _ (by simp), h.archive]
    · rw [hkeep _ (by simp), h.deletedAt]
    · rw [hkeep _ (by simp), h.metadata]
    · rw [hkeep _ (by simp), h.threading]
    · rw [hkeep _ (by simp), h.blobLink]
    · rw [hkeep _ (by simp), h.task]
    · refine (hcounter id).trans ?_
      rw [h.quota]
      exact add_zero _

theorem Removed.run (events : List (Event κ)) :
    Removed start w tenantId (events.foldl (Event.apply w.accountId) s) := by
  induction events generalizing s with
  | nil => exact h
  | cons event rest ih => exact ih (h.apply event)

/-- **The deletion task** removes what is left when it clears the hash that was set. -/
theorem Removed.process (threadName : String → String) :
    Undone start (processDeletion hash threadName s) ↔
      w.threadHash = hash (threadKey (w.metadata.unindexThreadName threadName)) ∧
        ∀ id, charge w.accountId w.tenantId w.size id +
          charge w.accountId tenantId (-w.size) id = 0 := by
  have hbatch : deleteEmailMetadata hash threadName s = w.metadata.unindex hash threadName := by
    unfold deleteEmailMetadata
    rw [h.metadata]
  have huncond : ∀ op ∈ (w.metadata.unindex hash threadName : List (MessageWrite κ β)),
      op.Unconditional := by
    intro op hop
    unfold MessageMetadata.unindex at hop
    simp only [mem_cons, not_mem_nil, or_false] at hop
    rcases hop with rfl | rfl | rfl <;> trivial
  obtain ⟨hvalue, hcounter⟩ := attempt_of_unconditional s _ huncond
  obtain ⟨hvalue', hcounter'⟩ := attempt_of_unconditional
    (s.attempt (w.metadata.unindex hash threadName))
    [(.clear (.updateIndex false) : MessageWrite κ β)]
    (fun op hop => by obtain rfl := mem_singleton.1 hop; trivial)
  have hprocess : processDeletion hash threadName s =
      (s.attempt (w.metadata.unindex hash threadName)).attempt [.clear (.updateIndex false)] := by
    unfold processDeletion
    rw [if_pos h.task, hbatch]
  have hread : ∀ key, key ≠ .updateIndex false →
      (processDeletion hash threadName s).value key =
        (lastWrite key (w.metadata.unindex hash threadName)).getD (s.value key) := by
    intro key hne
    rw [hprocess, hvalue', hvalue]
    simp [Write.leaves, Ne.symm hne]
  have hquota : ∀ id, (processDeletion hash threadName s).counter id = start id +
      (charge w.accountId w.tenantId w.size id + charge w.accountId tenantId (-w.size) id) := by
    intro id
    have hzero : added id (w.metadata.unindex hash threadName : List (MessageWrite κ β)) = 0 := rfl
    have hzero' : added id [(.clear (.updateIndex false) : MessageWrite κ β)] = 0 := rfl
    rw [hprocess, hcounter', hcounter, hzero, hzero', h.quota, add_zero, add_zero, add_assoc]
  have hthreading : ∀ hash', (processDeletion hash threadName s).value (.threading hash') =
      if hash (threadKey (w.metadata.unindexThreadName threadName)) = hash' then none
      else s.value (.threading hash') := by
    intro hash'
    rw [hread _ (by simp)]
    by_cases hhash : hash (threadKey (w.metadata.unindexThreadName threadName)) = hash'
    · simp [MessageMetadata.unindex, lastWrite, Write.leaves, hhash]
    · simp [MessageMetadata.unindex, lastWrite, Write.leaves, hhash]
  constructor
  · intro hundone
    refine ⟨?_, fun id => ?_⟩
    · have hnone := hundone.threading w.threadHash
      rw [hthreading] at hnone
      by_contra hne
      rw [if_neg (fun heq => hne heq.symm)] at hnone
      exact (h.threading w.threadHash).1 hnone rfl
    · have hcount := hundone.quota id
      rw [hquota] at hcount
      omega
  · rintro ⟨hhash, hcharge⟩
    refine ⟨?_, ?_, fun hash' => ?_, ?_, fun hash' => ?_, fun id => ?_⟩
    · rw [hread _ (by simp)]
      simp [MessageMetadata.unindex, lastWrite, Write.leaves, h.archive]
    · rw [hread _ (by simp)]
      simp [MessageMetadata.unindex, lastWrite, Write.leaves]
    · rw [hthreading]
      split
      · rfl
      · rename_i hne
        rw [h.threading]
        intro heq
        exact hne (by rw [heq, hhash])
    · rw [hread _ (by simp)]
      simp [MessageMetadata.unindex, lastWrite, Write.leaves, h.deletedAt]
    · rw [hread _ (by simp)]
      by_cases heq : w.metadata.blobHash = hash'
      · simp [MessageMetadata.unindex, lastWrite, Write.leaves, heq]
      · simp [MessageMetadata.unindex, lastWrite, Write.leaves, heq,
          (h.blobLink hash').2 (Ne.symm heq)]
    · rw [hquota, hcharge, add_zero]

end

theorem charge_cancels_iff (accountId : ℕ) (tenantId tenantId' : Option ℕ) (size : ℕ) :
    (∀ id, charge accountId tenantId size id + charge accountId tenantId' (-size) id = 0) ↔
      tenantId' = tenantId ∨ size = 0 := by
  constructor
  · intro h
    by_cases hsize : size = 0
    · exact .inr hsize
    · left
      unfold charge at h
      cases tenantId with
      | none =>
        cases tenantId' with
        | none => rfl
        | some id' =>
          have := h id'
          simp at this
          split at this <;> omega
      | some id =>
        have := h id
        cases tenantId' with
        | none =>
          simp at this
          split at this <;> omega
        | some id' =>
          by_cases hid : id' = id
          · rw [hid]
          · simp at this
            split at this <;> omega
  · intro h id
    unfold charge
    rcases h with rfl | rfl
    · split <;> split <;> omega
    · simp

/-! ## The life of a message -/

theorem thread_hash_findThreadId (order : ThreadMerge → ThreadMerge) (index : List (IndexEntry κ))
    (threadName : String) (messageIds : List κ) :
    (findThreadId hash order index threadName messageIds).threadHash =
      hash (threadKey threadName) := by
  unfold findThreadId
  dsimp only
  split
  · rfl
  · split <;> rfl

omit [DecidableEq β] in
theorem ingest_eq_ok {hash} {threadName}
    {order} {quota : Except ε Unit} {params : IngestEmail}
    {account : Account} {c : IngestContext β} {batch : List (MessageWrite κ β)}
    (h : ingest hash threadName order quota params account c = .ok (some batch)) :
    ∃ headers messageIds threadResult, params.message = some headers ∧
      batch = ingestBatch c headers params.mailboxIds messageIds threadResult ∧
      threadResult.threadHash = hash (threadKey (filedName threadName headers)) := by
  unfold ingest emailIngest at h
  cases quota with
  | error err => cases h
  | ok _ =>
    cases hmessage : params.message with
    | none =>
      rw [hmessage] at h
      cases h
    | some headers =>
      rw [hmessage] at h
      dsimp only at h
      split at h
      · cases h
      · cases h
        refine ⟨headers, _, _, rfl, rfl, ?_⟩
        rw [thread_hash_findThreadId, subject_readReferences]

/-- **Deleting a message undoes its ingestion** exactly when the thread name it is filed under and
the one read from its headers have the same hash, and the tenant of the user who deletes was charged
or the message has no size. -/
theorem undone_iff (hash : String → κ) (threadName : String → String)
    (order : ThreadMerge → ThreadMerge) (quota : Except ε Unit) (params : IngestEmail)
    (account : Account) (c : IngestContext β) (start : ℕ → ℤ) (events later : List (Event κ))
    (deletion : Deletion) {batch : List (MessageWrite κ β)}
    (hingest : ingest hash threadName order quota params account c = .ok (some batch))
    (happlies : deletion.Applies (stored start c.accountId batch events)) :
    Undone start (deleted hash threadName c.accountId deletion later
        (stored start c.accountId batch events)) ↔
      hash (threadKey (filedName threadName (params.message.getD []))) =
          hash (threadKey (clearedName threadName (c.rootHeaders (params.message.getD [])))) ∧
        (deletion.tenantId = c.tenantId ∨ c.storedSize = 0) := by
  obtain ⟨headers, messageIds, threadResult, hmessage, rfl, hhash⟩ := ingest_eq_ok hingest
  have hstored := (stored_ingestBatch start c headers params.mailboxIds messageIds
    threadResult).run events
  have hremoved := (hstored.delete happlies).run later
  have hprocess := hremoved.process hash threadName
  rw [unindexThreadName_archive, hhash, charge_cancels_iff] at hprocess
  rw [hmessage]
  exact hprocess

/-! ## A message with two subjects -/

/-- `thread_name`, on the subjects used here. -/
def stripReply (subject : String) : String := if subject = "Re:" then "" else subject

/-- A message to the inbox of account 1 in tenant 9. -/
def inboxContext : IngestContext ℕ where
  accountId := 1
  tenantId := some 9
  documentId := 0
  rawLen := 30
  deliveredTo := none
  spamStatus := none
  encrypted := none
  blobHash := 0
  uids := [1]
  keywords := []
  now := 0

/-- A subject, and behind it an empty reply to it. -/
def twoSubjects : IngestEmail where
  message := some [⟨.subject, .text "Hello"⟩, ⟨.subject, .text "Re:"⟩]
  mailboxIds := [INBOX_ID]
  smtp := false

def oneSubject : IngestEmail where
  message := some [⟨.subject, .text "Hello"⟩]
  mailboxIds := [INBOX_ID]
  smtp := false

/-- The batch that is written for a message of an empty account. -/
def inboxBatch (params : IngestEmail) : List (MessageWrite String ℕ) :=
  ingestBatch inboxContext (params.message.getD []) params.mailboxIds []
    ⟨none, "Hello", [], []⟩

theorem ingest_oneSubject :
    ingest id stripReply id (.ok () : Except Unit Unit) oneSubject ⟨[], nodup_nil⟩
      inboxContext = .ok (some (inboxBatch oneSubject)) := rfl

theorem undone_oneSubject :
    Undone (fun _ => 0) (deleted id stripReply 1 (.emailsDelete (some 9) 0) [.indexed]
      (stored (fun _ => 0) 1 (inboxBatch oneSubject)
        [.update ⟨[⟨0, 1⟩], [], 0, 30⟩ [⟨0, 1⟩, ⟨1, 1⟩] [] (some 9) 5 5])) :=
  (undone_iff id stripReply id (.ok () : Except Unit Unit) oneSubject ⟨[], nodup_nil⟩
    inboxContext (fun _ => 0) [.update ⟨[⟨0, 1⟩], [], 0, 30⟩ [⟨0, 1⟩, ⟨1, 1⟩] [] (some 9) 5 5]
    [.indexed] (.emailsDelete (some 9) 0) ingest_oneSubject (by decide)).2 (by decide)

/-- **The entry of an empty reply stays**: it is filed under the first subject, and that of an empty
name is cleared. -/
theorem reply_subject_remains :
    ingest id stripReply id (.ok () : Except Unit Unit) twoSubjects ⟨[], nodup_nil⟩
        inboxContext = .ok (some (inboxBatch twoSubjects)) ∧
      (Deletion.emailsDelete (some 9) 0).Applies
        (stored (fun _ => 0) 1 (inboxBatch twoSubjects) []) ∧
      (deleted id stripReply 1 (.emailsDelete (some 9) 0) [.indexed]
        (stored (fun _ => 0) 1 (inboxBatch twoSubjects) [])).value (.threading "Hello") =
        some (.threadInfo ⟨0, []⟩) :=
  ⟨rfl, by decide, by decide⟩

end MailServer.Message
