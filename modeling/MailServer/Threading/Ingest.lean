import MailServer.Lib.SortedSet
import MailServer.Threading.MergeThreads

/-!
# Ingesting a message

The part of `email_ingest` (`email/src/message/ingest.rs`) that reads the references of a message,
finds the thread that it belongs to and skips it when it has been delivered before.

Principal results: `mem_duplicate_ids`, `suppressed_iff`.
-/

namespace MailServer.Threading

open List

/-! ## Headers -/

inductive HeaderName where
  | messageId
  | inReplyTo
  | references
  | resentMessageId
  | subject
  | other (name : String)
deriving DecidableEq

/-- `HeaderValue`; `other` is any value that is not a text. -/
inductive HeaderValue where
  | text (text : String)
  | textList (texts : List String)
  | other

structure Header where
  name : HeaderName
  value : HeaderValue

/-- `VisitText::visit_text`: the texts visited. -/
def HeaderValue.visitText : HeaderValue → List String
  | .text value => [value]
  | .textList values => values
  | .other => []

/-- What the loop over the headers collects. -/
structure References where
  messageIds : List String := []
  subject : String := ""
deriving DecidableEq

def HeaderValue.subjectText : HeaderValue → String
  | .text value => value
  | .textList (value :: _) => value
  | _ => ""

/-- The body of the loop; `thread_name` strips prefixes such as `Re:` from a subject. -/
def References.visit (threadName : String → String) (r : References) (header : Header) :
    References :=
  match header.name with
  | .messageId | .inReplyTo | .references | .resentMessageId =>
    { r with messageIds := r.messageIds ++ header.value.visitText.filter fun id => id ≠ "" }
  | .subject =>
    if r.subject = "" then { r with subject := threadName header.value.subjectText } else r
  | .other _ => r

/-- `message.root_part().headers().iter().rev()`. -/
def readReferences (threadName : String → String) (headers : List Header) : References :=
  headers.reverse.foldl (References.visit threadName) {}

/-! ## Finding the thread -/

variable {κ : Type} [LinearOrder κ]

structure IndexEntry (κ : Type) where
  threadHash : κ
  documentId : ℕ
  info : ThreadInfo κ

structure ThreadResult (κ : Type) where
  threadId : Option ℕ
  threadHash : κ
  mergeIds : List ℕ
  duplicateIds : List ℕ

/-- `has_message_id`, which compares the raw bytes of the hashes. -/
def hasMessageId (messageIds references : List κ) : Bool :=
  SortedSet.meets messageIds references

/-- The test for a duplicate among the messages that share a reference. -/
def isDuplicate (messageIds references : List κ) : Bool :=
  messageIds.length == 1 ||
    (messageIds.length == references.length &&
      (references.zip messageIds).all fun pair => decide (pair.1 = pair.2))

/-- The callback of the iteration, on the duplicates and the threads found so far. -/
def visitReference (messageIds : List κ) (found : List ℕ × ThreadMerge) (entry : IndexEntry κ) :
    List ℕ × ThreadMerge :=
  if hasMessageId messageIds entry.info.refIds then
    (if isDuplicate messageIds entry.info.refIds then found.1 ++ [entry.documentId] else found.1,
      ThreadMerge.add found.2 entry.info.threadId entry.documentId)
  else found

def threadKey (threadName : String) : String := if threadName ≠ "" then threadName else "!"

/-- `find_thread_id`; the hash map of threads is walked in `order`. -/
def findThreadId (hash : String → κ) (order : ThreadMerge → ThreadMerge)
    (index : List (IndexEntry κ)) (threadName : String) (messageIds : List κ) : ThreadResult κ :=
  let threadHash := hash (threadKey threadName)
  if messageIds.isEmpty then
    { threadId := none, threadHash, mergeIds := [], duplicateIds := [] }
  else
    let (duplicateIds, threadMerge) :=
      (index.filter fun entry => decide (entry.threadHash = threadHash)).foldl
        (visitReference messageIds) ([], [])
    match order threadMerge with
    | [] => { threadId := none, threadHash, mergeIds := [], duplicateIds }
    | [(threadId, _)] => { threadId := some threadId, threadHash, mergeIds := [], duplicateIds }
    | entries =>
      let (threadId, mergeIds) := ThreadMerge.merge entries
      { threadId := some threadId, threadHash, mergeIds, duplicateIds }

/-! ## What is found -/

omit [LinearOrder κ] in
theorem zip_all_eq [DecidableEq κ] {l l' : List κ} (h : l'.length = l.length) :
    ((l.zip l').all fun pair => decide (pair.1 = pair.2)) ↔ l' = l := by
  induction l generalizing l' with
  | nil => simp [length_eq_zero_iff.1 h]
  | cons a rest ih =>
    cases l' with
    | nil => cases h
    | cons b rest' =>
      have hlen : rest'.length = rest.length := Nat.succ.inj h
      rw [zip_cons_cons, all_cons, Bool.and_eq_true, ih hlen, decide_eq_true_eq,
        cons.injEq, eq_comm]

theorem isDuplicate_iff {messageIds references : List κ} :
    isDuplicate messageIds references ↔
      messageIds.length = 1 ∨ messageIds = references := by
  unfold isDuplicate
  rw [Bool.or_eq_true, Bool.and_eq_true, beq_iff_eq, beq_iff_eq]
  refine or_congr_right ⟨fun h => (zip_all_eq h.1).1 h.2, fun h => ?_⟩
  have hlen : messageIds.length = references.length := congrArg length h
  exact ⟨hlen, (zip_all_eq hlen).2 h⟩

theorem foldl_visitReference (messageIds : List κ) (index : List (IndexEntry κ))
    (found : List ℕ × ThreadMerge) :
    index.foldl (visitReference messageIds) found =
      (found.1 ++ ((index.filter fun entry => hasMessageId messageIds entry.info.refIds).filter
          fun entry => isDuplicate messageIds entry.info.refIds).map IndexEntry.documentId,
        (index.filter fun entry => hasMessageId messageIds entry.info.refIds).foldl
          (fun merge entry => ThreadMerge.add merge entry.info.threadId entry.documentId)
          found.2) := by
  induction index generalizing found with
  | nil => exact Prod.ext (append_nil _).symm rfl
  | cons entry rest ih =>
    rw [foldl_cons, ih]
    unfold visitReference
    cases hshared : hasMessageId messageIds entry.info.refIds with
    | false => simp [hshared]
    | true =>
      cases hduplicate : isDuplicate messageIds entry.info.refIds with
      | false | true => simp [hshared, hduplicate]

theorem duplicate_ids_findThreadId (hash : String → κ) (order : ThreadMerge → ThreadMerge)
    (index : List (IndexEntry κ)) (threadName : String) {messageIds : List κ}
    (hne : messageIds ≠ []) :
    (findThreadId hash order index threadName messageIds).duplicateIds =
      (((index.filter fun entry => decide (entry.threadHash = hash (threadKey threadName))).filter
        fun entry => hasMessageId messageIds entry.info.refIds).filter
        fun entry => isDuplicate messageIds entry.info.refIds).map IndexEntry.documentId := by
  unfold findThreadId
  rw [if_neg (fun h => hne (isEmpty_iff.1 h)), foldl_visitReference]
  dsimp only
  split <;> exact nil_append _

/-! ## The account -/

/-- A message with an entry in the `Threading` index, the thread name and the references that it was
ingested with.  A deleted message keeps its entry until its index task has run, and is until then a
message without mailboxes. -/
structure StoredMessage where
  documentId : ℕ
  subject : String
  messageIds : List String
  threadId : ℕ
  mailboxes : List ℕ

/-- The messages as the index and the cache show them to `email_ingest`; a document id is used
once. -/
structure Account where
  messages : List StoredMessage
  nodup : (messages.map StoredMessage.documentId).Nodup

/-- `sort_unstable` and `dedup` of the hashes of the references. -/
def sortedIds (hash : String → κ) (messageIds : List String) : List κ :=
  SortedSet.sortDedup (messageIds.map hash)

/-- The entry of the `Threading` index that was written with the message. -/
def StoredMessage.indexEntry (hash : String → κ) (m : StoredMessage) : IndexEntry κ where
  threadHash := hash (threadKey m.subject)
  documentId := m.documentId
  info := { threadId := m.threadId, refIds := sortedIds hash m.messageIds }

def INBOX_ID : ℕ := 0
def JUNK_ID : ℕ := 2

/-- `in_mailboxes`, over the messages of the cache. -/
def Account.inMailboxes (account : Account) (mailboxIds : List ℕ) : List StoredMessage :=
  account.messages.filter fun m => m.mailboxes.any fun id => mailboxIds.contains id

/-- `IngestEmail`: the parsed headers, the mailboxes and whether the message comes from SMTP. -/
structure IngestEmail where
  message : Option (List Header)
  mailboxIds : List ℕ
  smtp : Bool

/-- `params.mailbox_ids.first().copied().unwrap_or(INBOX_ID)`. -/
def IngestEmail.target (params : IngestEmail) : ℕ := params.mailboxIds.head?.getD INBOX_ID

/-- The test that skips a message. -/
def skipsDuplicate (params : IngestEmail) (account : Account) (duplicateIds : List ℕ) : Bool :=
  (!duplicateIds.isEmpty && params.smtp) &&
    !(account.inMailboxes [params.target, JUNK_ID]).any fun m =>
      duplicateIds.contains m.documentId

/-- Errors before the message is looked at, and those of the rest of the function. -/
inductive IngestError (ε : Type) where
  | quota (err : ε)
  | parse (code : ℕ) (reason : String)
  | store (err : ε)

variable {ε α : Type}

/-- `email_ingest`. `quota` is the result of the quota check, `store` the rest of the function,
which returns `Ok` only with a message stored; `ok none` is the empty `IngestedEmail` of a skipped
message. -/
def emailIngest (hash : String → κ) (threadName : String → String)
    (order : ThreadMerge → ThreadMerge) (quota : Except ε Unit) (params : IngestEmail)
    (account : Account) (store : References → ThreadResult κ → Except ε α) :
    Except (IngestError ε) (Option α) :=
  match quota with
  | .error err => .error (.quota err)
  | .ok _ =>
    match params.message with
    | none => .error (.parse 550 "Failed to parse e-mail message.")
    | some headers =>
      let references := readReferences threadName headers
      let threadResult := findThreadId hash order (account.messages.map (·.indexEntry hash))
        references.subject (sortedIds hash references.messageIds)
      if skipsDuplicate params account threadResult.duplicateIds then .ok none
      else
        match store references threadResult with
        | .error err => .error (.store err)
        | .ok ingested => .ok (some ingested)

/-! ## Duplicates -/

/-- What `find_thread_id` takes for a duplicate: a message with a reference in common, if the new
one has one id only or the two have the same. -/
def Duplicates (hash : String → κ) (references : References) (m : StoredMessage) : Prop :=
  hash (threadKey m.subject) = hash (threadKey references.subject) ∧
  (∃ id ∈ references.messageIds, ∃ id' ∈ m.messageIds, hash id = hash id') ∧
  ((∀ id ∈ references.messageIds, ∀ id' ∈ references.messageIds, hash id = hash id') ∨
    ∀ h, h ∈ references.messageIds.map hash ↔ h ∈ m.messageIds.map hash)

/-- A copy of the message: the same thread subject and the same set of ids. -/
def SameMessage (references : References) (m : StoredMessage) : Prop :=
  m.subject = references.subject ∧ ∀ id, id ∈ m.messageIds ↔ id ∈ references.messageIds

/-- The message is in the target mailbox or in the junk mailbox. -/
def Held (params : IngestEmail) (m : StoredMessage) : Prop :=
  params.target ∈ m.mailboxes ∨ JUNK_ID ∈ m.mailboxes

variable {hash : String → κ}

theorem mem_sortedIds {messageIds : List String} {h : κ} :
    h ∈ sortedIds hash messageIds ↔ h ∈ messageIds.map hash := SortedSet.mem_sortDedup

theorem hasMessageId_sortedIds {ids ids' : List String} :
    hasMessageId (sortedIds hash ids) (sortedIds hash ids') ↔
      ∃ id ∈ ids, ∃ id' ∈ ids', hash id = hash id' := by
  unfold hasMessageId sortedIds
  rw [SortedSet.meets_iff (SortedSet.pairwise_sortDedup _) (SortedSet.pairwise_sortDedup _)]
  constructor
  · rintro ⟨h, hmem, hmem'⟩
    obtain ⟨id, hid, rfl⟩ := mem_map.1 (mem_sortedIds.1 hmem)
    obtain ⟨id', hid', heq⟩ := mem_map.1 (mem_sortedIds.1 hmem')
    exact ⟨id, hid, id', hid', heq.symm⟩
  · rintro ⟨id, hid, id', hid', heq⟩
    exact ⟨hash id, mem_sortedIds.2 (mem_map.2 ⟨id, hid, rfl⟩),
      mem_sortedIds.2 (mem_map.2 ⟨id', hid', heq.symm⟩)⟩

theorem isDuplicate_sortedIds {ids ids' : List String} (hne : ids ≠ []) :
    isDuplicate (sortedIds hash ids) (sortedIds hash ids') ↔
      (∀ id ∈ ids, ∀ id' ∈ ids, hash id = hash id') ∨
        ∀ h, h ∈ ids.map hash ↔ h ∈ ids'.map hash := by
  rw [isDuplicate_iff]
  unfold sortedIds
  rw [SortedSet.sortDedup_eq_iff, SortedSet.length_sortDedup_eq_one]
  refine or_congr_left ⟨?_, fun h => ?_⟩
  · rintro ⟨h, -, hall⟩ id hid id' hid'
    rw [hall _ (mem_map.2 ⟨id, hid, rfl⟩), hall _ (mem_map.2 ⟨id', hid', rfl⟩)]
  · obtain ⟨id, hid⟩ := exists_mem_of_ne_nil ids hne
    refine ⟨hash id, mem_map.2 ⟨id, hid, rfl⟩, fun h' hmem => ?_⟩
    obtain ⟨id', hid', rfl⟩ := mem_map.1 hmem
    exact h id' hid' id hid

/-- **The duplicates found** are the messages that `Duplicates` describes. -/
theorem mem_duplicate_ids (hash : String → κ) (order : ThreadMerge → ThreadMerge)
    (account : Account) (references : References) {documentId : ℕ} :
    documentId ∈ (findThreadId hash order (account.messages.map (·.indexEntry hash))
        references.subject (sortedIds hash references.messageIds)).duplicateIds ↔
      ∃ m ∈ account.messages, Duplicates hash references m ∧ m.documentId = documentId := by
  by_cases hne : references.messageIds = []
  · -- without references nothing is looked up
    have hnil : sortedIds hash references.messageIds = [] := by
      rw [hne]
      rfl
    rw [hnil]
    constructor
    · intro h
      cases h
    · rintro ⟨m, -, ⟨-, ⟨id, hid, -⟩, -⟩, -⟩
      rw [hne] at hid
      cases hid
  · have hids : sortedIds hash references.messageIds ≠ [] := fun hnil =>
      hne (map_eq_nil_iff.1 (SortedSet.sortDedup_eq_nil.1 hnil))
    rw [duplicate_ids_findThreadId hash order _ _ hids]
    simp only [mem_map, mem_filter, decide_eq_true_eq]
    constructor
    · rintro ⟨_, ⟨⟨⟨⟨m, hm, rfl⟩, hhash⟩, hshared⟩, hduplicate⟩, rfl⟩
      exact ⟨m, hm, ⟨hhash, hasMessageId_sortedIds.1 hshared,
        (isDuplicate_sortedIds hne).1 hduplicate⟩, rfl⟩
    · rintro ⟨m, hm, ⟨hhash, hshared, hduplicate⟩, rfl⟩
      exact ⟨_, ⟨⟨⟨⟨m, hm, rfl⟩, hhash⟩, hasMessageId_sortedIds.2 hshared⟩,
        (isDuplicate_sortedIds hne).2 hduplicate⟩, rfl⟩

theorem mem_inMailboxes {account : Account} {params : IngestEmail} {m} :
    m ∈ account.inMailboxes [params.target, JUNK_ID] ↔ m ∈ account.messages ∧ Held params m := by
  unfold Account.inMailboxes Held
  rw [mem_filter, any_eq_true]
  refine and_congr_right fun _ => ⟨?_, ?_⟩
  · rintro ⟨id, hid, hcontains⟩
    rcases mem_cons.1 (contains_iff_mem.1 hcontains) with rfl | hjunk
    · exact .inl hid
    · exact .inr (mem_singleton.1 hjunk ▸ hid)
  · rintro (htarget | hjunk)
    · exact ⟨_, htarget, contains_iff_mem.2 ((.head _) ..)⟩
    · exact ⟨_, hjunk, contains_iff_mem.2
        (.tail _ (mem_singleton.2 rfl))⟩

/-- A message is skipped when it has duplicates and none of them is held. -/
theorem skipsDuplicate_iff (hash : String → κ) (order : ThreadMerge → ThreadMerge)
    (account : Account) (params : IngestEmail) (references : References) :
    skipsDuplicate params account (findThreadId hash order
        (account.messages.map (·.indexEntry hash)) references.subject
        (sortedIds hash references.messageIds)).duplicateIds ↔
      params.smtp ∧ (∃ m ∈ account.messages, Duplicates hash references m) ∧
        ∀ m ∈ account.messages, Duplicates hash references m → ¬Held params m := by
  have hmem : ∀ documentId, documentId ∈ (findThreadId hash order
      (account.messages.map (·.indexEntry hash)) references.subject
      (sortedIds hash references.messageIds)).duplicateIds ↔
      ∃ m ∈ account.messages, Duplicates hash references m ∧ m.documentId = documentId :=
    fun _ => mem_duplicate_ids hash order account references
  generalize (findThreadId hash order (account.messages.map (·.indexEntry hash))
    references.subject (sortedIds hash references.messageIds)).duplicateIds = duplicates at hmem
  have hsome : (!duplicates.isEmpty) ↔
      ∃ m ∈ account.messages, Duplicates hash references m := by
    rw [Bool.not_eq_true', isEmpty_eq_false_iff_exists_mem]
    constructor
    · rintro ⟨documentId, h⟩
      obtain ⟨m, hm, hduplicate, -⟩ := (hmem documentId).1 h
      exact ⟨m, hm, hduplicate⟩
    · rintro ⟨m, hm, hduplicate⟩
      exact ⟨m.documentId, (hmem _).2 ⟨m, hm, hduplicate, rfl⟩⟩
  have hnone : (!(account.inMailboxes [params.target, JUNK_ID]).any fun m =>
      duplicates.contains m.documentId) ↔
      ∀ m ∈ account.messages, Duplicates hash references m → ¬Held params m := by
    rw [Bool.not_eq_true', any_eq_false]
    constructor
    · intro h m hm hduplicate hheld
      exact h m (mem_inMailboxes.2 ⟨hm, hheld⟩)
        (contains_iff_mem.2 ((hmem _).2 ⟨m, hm, hduplicate, rfl⟩))
    · intro h m hm hcontains
      obtain ⟨hm, hheld⟩ := mem_inMailboxes.1 hm
      obtain ⟨m', hm', hduplicate, heq⟩ := (hmem _).1 (contains_iff_mem.1 hcontains)
      obtain rfl : m' = m := inj_on_of_nodup_map account.nodup hm' hm heq
      exact h m' hm' hduplicate hheld
  unfold skipsDuplicate
  rw [Bool.and_eq_true, Bool.and_eq_true, hsome, hnone, and_comm (b := params.smtp),
    and_assoc]

omit [LinearOrder κ] in
theorem SameMessage.duplicates {hash : String → κ} {references : References} {m}
    (h : SameMessage references m) (hne : references.messageIds ≠ []) :
    Duplicates hash references m := by
  obtain ⟨hsubject, hids⟩ := h
  obtain ⟨id, hid⟩ := exists_mem_of_ne_nil _ hne
  refine ⟨by rw [hsubject], ⟨id, hid, id, (hids id).2 hid, rfl⟩, .inr fun h => ?_⟩
  rw [mem_map, mem_map]
  exact ⟨fun ⟨id, hid, heq⟩ => ⟨id, (hids id).2 hid, heq⟩,
    fun ⟨id, hid, heq⟩ => ⟨id, (hids id).1 hid, heq⟩⟩

/-- When the function returns `Ok` without a message stored. -/
theorem emailIngest_eq_none {threadName}
    {order} {quota : Except ε Unit} {params : IngestEmail}
    {account : Account} {store : References → ThreadResult κ → Except ε α} :
    emailIngest hash threadName order quota params account store = .ok none ↔
      quota = .ok () ∧ ∃ headers, params.message = some headers ∧ params.smtp ∧
        (∃ m ∈ account.messages, Duplicates hash (readReferences threadName headers) m) ∧
        ∀ m ∈ account.messages, Duplicates hash (readReferences threadName headers) m →
          ¬Held params m := by
  unfold emailIngest
  cases quota with
  | error err => simp
  | ok u =>
    cases hmessage : params.message with
    | none => simp
    | some headers =>
      simp only [true_and, Option.some.injEq, exists_eq_left']
      rw [← skipsDuplicate_iff hash order account params (readReferences threadName headers)]
      constructor
      · intro h
        split at h
        · rename_i hskips
          exact hskips
        · split at h <;> cases h
      · intro h
        rw [if_pos h]

/-- **Suppressed mail.** A message is skipped only if a copy of it is held exactly when it does not
come from SMTP, is refused before, has no duplicates, or has one that is held. -/
theorem suppressed_iff (hash : String → κ) (threadName : String → String)
    (order : ThreadMerge → ThreadMerge) (quota : Except ε Unit) (params : IngestEmail)
    (account : Account) (store : References → ThreadResult κ → Except ε α) :
    (emailIngest hash threadName order quota params account store = .ok none →
      ∃ headers, params.message = some headers ∧ ∃ m ∈ account.messages,
        SameMessage (readReferences threadName headers) m ∧ Held params m) ↔
    (quota = .ok () → ∀ headers, params.message = some headers → params.smtp →
      (∃ m ∈ account.messages, Duplicates hash (readReferences threadName headers) m) →
      ∃ m ∈ account.messages, Duplicates hash (readReferences threadName headers) m ∧
        Held params m) := by
  rw [emailIngest_eq_none]
  constructor
  · intro hstored hquota headers hheaders hsmtp hsome
    by_contra hnone
    push Not at hnone
    obtain ⟨headers', hheaders', m, hm, hsame, hheld⟩ :=
      hstored ⟨hquota, headers, hheaders, hsmtp, hsome, hnone⟩
    obtain rfl : headers = headers' := Option.some_inj.1 (hheaders.symm.trans hheaders')
    -- a copy that is held would have been found
    obtain ⟨m', -, ⟨-, ⟨id, hid, -⟩, -⟩⟩ := hsome
    exact hnone m hm (hsame.duplicates (ne_nil_of_mem hid)) hheld
  · rintro hheld ⟨hquota, headers, hheaders, hsmtp, hsome, hnone⟩
    obtain ⟨m, hm, hduplicate, hm'⟩ := hheld hquota headers hheaders hsmtp hsome
    cases hnone m hm hduplicate hm'

/-- A reply in another mailbox, which arrived before the message it replies to. -/
def replyFirst : Account where
  messages := [{ documentId := 1, subject := "hello", messageIds := ["reply", "id"],
                 threadId := 1, mailboxes := [4] }]
  nodup := nodup_singleton 1

/-- The message it replies to is discarded, although no copy of it is stored at all. -/
theorem original_discarded :
    emailIngest String.length id id (.ok () : Except Unit Unit)
        { message := some [⟨.messageId, .text "id"⟩, ⟨.subject, .text "hello"⟩]
          mailboxIds := [INBOX_ID], smtp := true }
        replyFirst (fun _ _ => .ok ()) = .ok none ∧
      ∀ m ∈ replyFirst.messages, ¬SameMessage
        (readReferences id [⟨.messageId, .text "id"⟩, ⟨.subject, .text "hello"⟩]) m := by
  have hreferences : readReferences id [⟨.messageId, .text "id"⟩, ⟨.subject, .text "hello"⟩] =
      { messageIds := ["id"], subject := "hello" } := by decide
  refine ⟨emailIngest_eq_none.2 ⟨rfl, _, rfl, rfl, ?_, ?_⟩, ?_⟩
  · refine ⟨_, (.head _) .., rfl, ⟨"id", (.head _) .., "id", ?_, rfl⟩, .inl ?_⟩
    · exact .tail _ ((.head _) ..)
    · rintro id hid id' hid'
      rw [mem_singleton.1 hid, mem_singleton.1 hid']
  · rintro m hm - hheld
    obtain rfl := mem_singleton.1 hm
    rcases hheld with hheld | hheld
    · exact absurd hheld (by decide)
    · exact absurd hheld (by decide)
  · rintro m hm ⟨-, hids⟩
    obtain rfl := mem_singleton.1 hm
    have hreply := (hids "reply").1 ((.head _) ..)
    exact absurd hreply (by decide)

end MailServer.Threading
