import MailServer.Lib.Run
import MailServer.Mailboxes.Account

/-!
# Destroying a mailbox

`mailbox_destroy` (`email/src/mailbox/destroy.rs`) beside the operations that put messages into a
mailbox or mailboxes below it: `email_ingest` and `copy_message` (`email/src/message`), `COPY` and
`MOVE` (`imap/src/op/copy_move.rs`), `Email/set`, and the creation of mailboxes
(`jmap/src/mailbox/set.rs`, `imap/src/op/create.rs`, `email/src/mailbox/manage.rs`).  Each reads the
cache and the records it rewrites at some earlier point of the run and commits one batch.

Principal results: `housed_of_run`, `added_to_destroyed`; `housed_of_destroy`, `housed_of_rewrites`
— what one commit does to the invariant.
-/

namespace MailServer.Mailboxes

open MailServer.Message InsertionMap List
open MailServer.Threading (INBOX_ID JUNK_ID)

/-! ## What the operations read -/

/-- The account as it is, and as it was before each of the commits so far, the last one first. -/
structure History where
  current : Account
  past : List Account

variable (hash : ArchiveHash) {h : History}

/-- The account as it was some commits ago. -/
def History.ago (h : History) (n : ℕ) : Account := ((h.current :: h.past)[n]?).getD h.current

/-! ## `mailbox_destroy` -/

inductive MailboxDestroyError where
  | cannotDestroy
  | forbidden
  | hasChildren
  | hasEmails
  | notFound

/-- A call of `mailbox_destroy`: its arguments, whether the ACL forbids it, and how many commits ago
the cache, the archives and the mailbox were read. -/
structure Destroy where
  documentId : ℕ
  removeEmails : Bool
  forbidden : Bool
  cacheAgo : ℕ
  archiveAgo : ℕ → ℕ
  mailboxAgo : ℕ

def Destroy.messageIds (h : History) (d : Destroy) : List ℕ :=
  SortedSet.sortDedup ((h.ago d.cacheAgo).inMailbox d.documentId)

/-- A message without the mailbox; `none` when it was in no other. -/
def untagged (mailboxId : ℕ) (data : MessageData) : Option MessageData :=
  if data.mailboxes.length = 1 then none
  else some { data with
    mailboxes := data.mailboxes.filter fun mailbox => mailbox.mailboxId != mailboxId }

/-- What is done to a message of the mailbox, if it is found in it still. -/
def Destroy.rewrite? (h : History) (d : Destroy) (id : ℕ) : Option Rewrite :=
  match (h.ago (d.archiveAgo id)).message id with
  | none => none
  | some data =>
    if hasMailboxId data d.documentId then some ⟨id, data, untagged d.documentId data⟩ else none

def Destroy.rewrites (h : History) (d : Destroy) : List Rewrite :=
  (d.messageIds h).filterMap (d.rewrite? h)

/-- `mailbox_destroy` up to its commit. -/
def Destroy.batch (h : History) (d : Destroy) : Except MailboxDestroyError (List Write) :=
  if d.documentId ∈ [INBOX_ID, TRASH_ID, JUNK_ID] then .error .cannotDestroy
  else if (h.ago d.cacheAgo).mailboxes.any fun item => item.2.parentId == d.documentId + 1 then
    .error .hasChildren
  else if !(d.messageIds h).isEmpty && !d.removeEmails then .error .hasEmails
  else
    match (h.ago d.mailboxAgo).mailbox d.documentId with
    | none => .error .notFound
    | some mailbox =>
      if d.forbidden then .error .forbidden
      else .ok ((d.rewrites h).flatMap Rewrite.writes ++
        [.assertMailbox d.documentId mailbox, .clearMailbox d.documentId])

/-! ## Messages put into a mailbox -/

/-- A new message: its data, and how many commits ago its mailboxes were looked up. -/
structure Ingest where
  documentId : ℕ
  data : MessageData
  cacheAgo : ℕ

def Ingest.batch (h : History) (i : Ingest) : Option (List Write) :=
  if i.data.mailboxes.isEmpty then none
  else if i.data.mailboxes.all fun mailbox =>
      (h.ago i.cacheAgo).hasMailbox mailbox.mailboxId then
    some [.setMessage i.documentId i.data]
  else none

/-- `COPY` or `MOVE` between two mailboxes: the messages, how many commits ago each was read, and
the UIDs assigned. -/
structure CopyMove where
  srcMailbox : ℕ
  destMailbox : ℕ
  isMove : Bool
  cacheAgo : ℕ
  messages : List (ℕ × ℕ)
  uid : ℕ → ℕ
  nodup : (messages.map Prod.fst).Nodup

def removeMailbox (mailboxId : ℕ) (data : MessageData) : MessageData :=
  { data with mailboxes := data.mailboxes.filter fun mailbox => mailbox.mailboxId != mailboxId }

/-- The new record of a message, `none` when it is skipped. -/
def CopyMove.changes (c : CopyMove) (id : ℕ) (data : MessageData) : Option MessageData :=
  if !hasMailboxId data c.srcMailbox then none
  else if hasMailboxId data c.destMailbox then
    if c.isMove then some (removeMailbox c.srcMailbox data) else none
  else
    let added := { data with mailboxes := data.mailboxes ++ [⟨c.destMailbox, c.uid id⟩] }
    some (if c.isMove then removeMailbox c.srcMailbox added else added)

def CopyMove.rewrite? (h : History) (c : CopyMove) (message : ℕ × ℕ) : Option Rewrite :=
  match (h.ago message.2).message message.1 with
  | none => none
  | some data => (c.changes message.1 data).map fun changes => ⟨message.1, data, some changes⟩

def CopyMove.rewrites (h : History) (c : CopyMove) : List Rewrite :=
  c.messages.filterMap (c.rewrite? h)

def CopyMove.batch (h : History) (c : CopyMove) : Option (List Write) :=
  if !(h.ago c.cacheAgo).hasMailbox c.destMailbox then none
  else if c.srcMailbox = c.destMailbox then none
  else some ((c.rewrites h).flatMap Rewrite.writes)

/-- The update of a message in `Email/set`: how many commits ago it was read, and what the patch
gives it. -/
structure EmailUpdate where
  documentId : ℕ
  readAgo : ℕ
  mailboxes : List UidMailbox
  keywords : List String

/-- The updates of one `Email/set`, which validates mailboxes in a cache read before. -/
structure EmailSet where
  cacheAgo : ℕ
  updates : List EmailUpdate
  nodup : (updates.map EmailUpdate.documentId).Nodup

def hasMailboxChanges (mailboxes : List UidMailbox) (data : MessageData) : Bool :=
  mailboxes.length != data.mailboxes.length ||
    !mailboxes.all fun mailbox => hasMailboxId data mailbox.mailboxId

def hasKeywordChanges (keywords : List String) (data : MessageData) : Bool :=
  keywords.length != data.keywords.length ||
    !keywords.all fun keyword => data.keywords.contains keyword

/-- The record that an update writes, `none` when it changes nothing or is refused. -/
def EmailSet.changes (h : History) (e : EmailSet) (u : EmailUpdate) (data : MessageData) :
    Option MessageData :=
  if !hasKeywordChanges u.keywords data && !hasMailboxChanges u.mailboxes data then none
  else if hasMailboxChanges u.mailboxes data && u.mailboxes.isEmpty then none
  else if hasMailboxChanges u.mailboxes data && !u.mailboxes.all fun mailbox =>
      hasMailboxId data mailbox.mailboxId ||
        (h.ago e.cacheAgo).hasMailbox mailbox.mailboxId then none
  else some { data with mailboxes := u.mailboxes, keywords := u.keywords }

def EmailSet.rewrite? (h : History) (e : EmailSet) (u : EmailUpdate) : Option Rewrite :=
  match (h.ago u.readAgo).message u.documentId with
  | none => none
  | some data => (e.changes h u data).map fun changes => ⟨u.documentId, data, some changes⟩

def EmailSet.rewrites (h : History) (e : EmailSet) : List Rewrite :=
  e.updates.filterMap (e.rewrite? h)

def EmailSet.batch (h : History) (e : EmailSet) : List Write :=
  (e.rewrites h).flatMap Rewrite.writes

/-! ## New mailboxes -/

/-- A mailbox created with `Mailbox/set`, which asserts that the parent exists. -/
structure Create where
  documentId : ℕ
  mailbox : Mailbox

def Create.batch (c : Create) : List Write :=
  (if 0 < c.mailbox.parentId then [.assertExists (c.mailbox.parentId - 1)] else []) ++
    [.setMailbox c.documentId c.mailbox]

/-- A path created with `CREATE` or by a Sieve script, below a mailbox found in the cache. -/
structure CreatePath where
  names : List String
  documentId : ℕ
  parentId : ℕ
  cacheAgo : ℕ

def CreatePath.batch (h : History) (c : CreatePath) : Option (List Write) :=
  if c.parentId = 0 ∨ (h.ago c.cacheAgo).hasMailbox (c.parentId - 1) then
    some (pathWrites c.names c.documentId c.parentId)
  else none

/-! ## Runs -/

inductive Operation where
  | destroy (d : Destroy)
  | ingest (i : Ingest)
  | copyMove (c : CopyMove)
  | emailSet (e : EmailSet)
  | create (c : Create)
  | createPath (c : CreatePath)

/-- The batch that an operation commits, if it gets that far. -/
def Operation.batch (h : History) : Operation → Option (List Write)
  | .destroy d => (d.batch h).toOption
  | .ingest i => i.batch h
  | .copyMove c => c.batch h
  | .emailSet e => some (e.batch h)
  | .create c => some c.batch
  | .createPath c => c.batch h

/-- The account after the commit of an operation; `none` when it is refused or an assertion
fails. -/
def Operation.commit (h : History) (op : Operation) : Option Account :=
  (op.batch h).bind (h.current.commit hash)

/-- One operation; one that does not commit changes nothing. -/
def step (h : History) (op : Operation) : Option History :=
  match op.commit hash h with
  | some t => some ⟨t, h.current :: h.past⟩
  | none => some h

/-- **Every message is in a mailbox that exists, and the parent of every mailbox exists.** -/
structure Housed (a : Account) : Prop where
  messages : ∀ id data, a.message id = some data →
    ∃ mailbox ∈ data.mailboxes, a.hasMailbox mailbox.mailboxId
  parents : a.ParentsExist

/-! ## The steps that keep it -/

/-- What the call has read of a message that it found in the mailbox, in the cache and in its
archive. -/
def Destroy.HasRead (h : History) (d : Destroy) (id : ℕ) (data : MessageData) : Prop :=
  id ∈ (h.ago d.cacheAgo).inMailbox d.documentId ∧
    (h.ago (d.archiveAgo id)).message id = some data ∧ hasMailboxId data d.documentId

/-- The message is in another mailbox that exists. -/
def Destroy.Elsewhere (a : Account) (d : Destroy) (data : MessageData) : Prop :=
  ∃ mailbox ∈ data.mailboxes, mailbox.mailboxId ≠ d.documentId ∧ a.hasMailbox mailbox.mailboxId

/-- Every message of the mailbox is elsewhere too, or the call has read it; what it has read is in
no other mailbox, or elsewhere too; there is no mailbox below. -/
structure Destroy.Complete (h : History) (d : Destroy) : Prop where
  messages : ∀ id data, h.current.message id = some data → hasMailboxId data d.documentId →
    d.Elsewhere h.current data ∨ ∃ read, d.HasRead h id read
  read : ∀ id data, d.HasRead h id data →
    data.mailboxes.length = 1 ∨ d.Elsewhere h.current data
  children : ∀ id mailbox, h.current.mailbox id = some mailbox → id ≠ d.documentId →
    mailbox.parentId ≠ d.documentId + 1

/-- The destination exists, or another mailbox of the message that it stays in. -/
def CopyMove.Lands (a : Account) (c : CopyMove) (data : MessageData) : Prop :=
  a.hasMailbox c.destMailbox ∨
    ∃ mailbox ∈ data.mailboxes, (c.isMove → mailbox.mailboxId ≠ c.srcMailbox) ∧
      a.hasMailbox mailbox.mailboxId

/-- What an operation must find in the account that its batch is written to. -/
def Timely (h : History) : Operation → Prop
  | .destroy d => d.Complete h
  | .ingest i =>
    ∃ mailbox ∈ i.data.mailboxes, h.current.hasMailbox mailbox.mailboxId
  | .copyMove c => ∀ message ∈ c.messages, ∀ data, (h.ago message.2).message message.1 = some data →
    (c.changes message.1 data).isSome → c.Lands h.current data
  | .emailSet e => ∀ u ∈ e.updates, ∀ data, (h.ago u.readAgo).message u.documentId = some data →
    (e.changes h u data).isSome →
      ∃ mailbox ∈ u.mailboxes, h.current.hasMailbox mailbox.mailboxId
  | .create _ => True
  | .createPath c =>
    c.names = [] ∨ c.parentId = 0 ∨ h.current.hasMailbox (c.parentId - 1)

theorem hasMailboxId_iff {data : MessageData} {mailboxId : ℕ} :
    hasMailboxId data mailboxId ↔
      ∃ mailbox ∈ data.mailboxes, mailbox.mailboxId = mailboxId := by
  unfold hasMailboxId
  rw [any_eq_true]
  simp only [beq_iff_eq]

variable {hash}

theorem housed_of_rewrites {a t : Account} (h : Housed a) {rewrites : List Rewrite}
    (hnodup : (rewrites.map Rewrite.documentId).Nodup)
    (hcommit : a.commit hash (rewrites.flatMap Rewrite.writes) = some t)
    (hchanges : ∀ r ∈ rewrites, ∀ data, r.changes = some data →
      ∃ mailbox ∈ data.mailboxes, a.hasMailbox mailbox.mailboxId) : Housed t := by
  obtain ⟨hmailboxes, hrewritten, hkept⟩ := commit_rewrites hnodup hcommit
  have hmailbox : ∀ id, t.mailbox id = a.mailbox id := fun id => congrArg (find id) hmailboxes
  have hhas : ∀ id, t.hasMailbox id = a.hasMailbox id := fun id => congrArg _ (hmailbox id)
  refine ⟨fun id data hdata => ?_, fun id mailbox hid => ?_⟩
  · simp only [hhas]
    by_cases hmem : id ∈ rewrites.map Rewrite.documentId
    · obtain ⟨r, hr, rfl⟩ := mem_map.1 hmem
      rw [hrewritten r hr] at hdata
      exact hchanges r hr data hdata
    · rw [hkept id hmem] at hdata
      exact h.messages id data hdata
  · rw [hmailbox] at hid
    rw [hhas]
    exact h.parents id mailbox hid

theorem mem_destroy_rewrites {d : Destroy} {r : Rewrite} (hr : r ∈ d.rewrites h) :
    d.HasRead h r.documentId r.current ∧ r.changes = untagged d.documentId r.current := by
  obtain ⟨id, hid, hrewrite⟩ := mem_filterMap.1 hr
  unfold Destroy.rewrite? at hrewrite
  split at hrewrite
  · cases hrewrite
  · rename_i data hdata
    split at hrewrite
    · rename_i hhas
      cases hrewrite
      exact ⟨⟨SortedSet.mem_sortDedup.1 hid, hdata, hhas⟩, rfl⟩
    · cases hrewrite

theorem exists_rewrite_of_hasRead {d : Destroy} {id : ℕ} {data : MessageData}
    (hread : d.HasRead h id data) : ∃ r ∈ d.rewrites h, r.documentId = id := by
  obtain ⟨hcache, hdata, hhas⟩ := hread
  refine ⟨⟨id, data, untagged d.documentId data⟩,
    mem_filterMap.2 ⟨id, SortedSet.mem_sortDedup.2 hcache, ?_⟩, rfl⟩
  unfold Destroy.rewrite?
  rw [hdata]
  exact if_pos hhas

theorem rewrite?_documentId {d : Destroy} {id : ℕ} {r : Rewrite}
    (hr : d.rewrite? h id = some r) : r.documentId = id := by
  unfold Destroy.rewrite? at hr
  split at hr
  · cases hr
  · split at hr
    · cases hr
      rfl
    · cases hr

theorem nodup_filterMap_rewrites {α : Type} {l : List α} (key : α → ℕ) {f}
    (hkey : ∀ x r, f x = some r → r.documentId = key x) (hnodup : (l.map key).Nodup) :
    ((l.filterMap f).map Rewrite.documentId).Nodup := by
  induction l with
  | nil => exact nodup_nil
  | cons x rest ih =>
    rw [map_cons, nodup_cons] at hnodup
    rw [filterMap_cons]
    split
    · exact ih hnodup.2
    · rename_i r hr
      rw [map_cons, nodup_cons]
      refine ⟨fun hmem => hnodup.1 ?_, ih hnodup.2⟩
      obtain ⟨r', hr', hid⟩ := mem_map.1 hmem
      obtain ⟨y, hy, hfy⟩ := mem_filterMap.1 hr'
      rw [hkey x r hr, hkey y r' hfy] at hid
      exact hid ▸ mem_map_of_mem hy

/-- **Destroying a mailbox** whose messages it has read, or that are elsewhere too, leaves every
message in a mailbox. -/
theorem housed_of_destroy (hhoused : Housed h.current) {d : Destroy}
    {batch : List Write} {t : Account} (hbatch : d.batch h = .ok batch)
    (hcommit : h.current.commit hash batch = some t) (hcomplete : d.Complete h) : Housed t := by
  obtain ⟨mailbox, rfl⟩ : ∃ mailbox, batch = (d.rewrites h).flatMap Rewrite.writes ++
      [.assertMailbox d.documentId mailbox, .clearMailbox d.documentId] := by
    unfold Destroy.batch at hbatch
    split at hbatch
    · cases hbatch
    · split at hbatch
      · cases hbatch
      · split at hbatch
        · cases hbatch
        · split at hbatch
          · cases hbatch
          · rename_i mailbox _
            split at hbatch
            · cases hbatch
            · cases hbatch
              exact ⟨mailbox, rfl⟩
  rw [commit_append] at hcommit
  obtain ⟨a, hrewrites, hclear⟩ := Option.bind_eq_some_iff.1 hcommit
  have hnodup : ((d.rewrites h).map Rewrite.documentId).Nodup := by
    refine nodup_filterMap_rewrites id (fun x r => rewrite?_documentId) ?_
    rw [map_id]
    exact (SortedSet.pairwise_sortDedup _).imp fun hlt => Nat.ne_of_lt hlt
  obtain ⟨hmailboxes, hrewritten, hkept⟩ := commit_rewrites hnodup hrewrites
  -- the mailbox is cleared last
  have ht : t = { a with mailboxes := remove d.documentId a.mailboxes } := by
    obtain ⟨a', hassert, hlast⟩ := Option.bind_eq_some_iff.1 hclear
    dsimp only [Account.write] at hassert
    split at hassert
    · cases hassert
      cases hlast
      rfl
    · cases hassert
  have hmailbox : ∀ id, t.mailbox id =
      if id = d.documentId then none else h.current.mailbox id := by
    intro id
    have hsame : a.mailbox id = h.current.mailbox id := congrArg (find id) hmailboxes
    rw [ht, mailbox_remove, hsame]
  have hmessage : ∀ id, t.message id = a.message id := fun id => by rw [ht]; rfl
  have hhas : ∀ id, id ≠ d.documentId → h.current.hasMailbox id →
      t.hasMailbox id := by
    intro id hne hid
    unfold Account.hasMailbox
    rw [hmailbox, if_neg hne]
    exact hid
  refine ⟨fun id data hdata => ?_, fun id mailbox' hid => ?_⟩
  · rw [hmessage] at hdata
    by_cases hmem : id ∈ (d.rewrites h).map Rewrite.documentId
    · -- a message that was untagged
      obtain ⟨r, hr, rfl⟩ := mem_map.1 hmem
      obtain ⟨hread, hchanges⟩ := mem_destroy_rewrites hr
      rw [hrewritten r hr, hchanges] at hdata
      unfold untagged at hdata
      split at hdata
      · cases hdata
      · rename_i hlength
        cases hdata
        obtain ⟨other, hother, hne, hexists⟩ :=
          (hcomplete.read _ _ hread).resolve_left hlength
        refine ⟨other, mem_filter.2 ⟨hother, ?_⟩, hhas _ hne hexists⟩
        exact bne_iff_ne.2 hne
    · rw [hkept id hmem] at hdata
      by_cases hhasId : hasMailboxId data d.documentId
      · rcases hcomplete.messages _ _ hdata hhasId with
          ⟨other, hother, hne, hexists⟩ | ⟨_, hread⟩
        · exact ⟨other, hother, hhas _ hne hexists⟩
        · obtain ⟨r, hr, rfl⟩ := exists_rewrite_of_hasRead hread
          cases hmem (mem_map_of_mem hr)
      · obtain ⟨other, hother, hexists⟩ := hhoused.messages id data hdata
        refine ⟨other, hother, hhas _ (fun heq => hhasId ?_) hexists⟩
        exact hasMailboxId_iff.2 ⟨other, hother, heq⟩
  · rw [hmailbox] at hid
    split at hid
    · cases hid
    · rename_i hne
      rcases hhoused.parents id mailbox' hid with hroot | hparent
      · exact .inl hroot
      · by_cases hzero : mailbox'.parentId = 0
        · exact .inl hzero
        · refine .inr (hhas _ (fun heq => ?_) hparent)
          have := hcomplete.children id mailbox' hid hne
          omega

/-! ## The other operations -/

theorem mem_removeMailbox {mailboxId : ℕ} {data : MessageData} {mailbox : UidMailbox} :
    mailbox ∈ (removeMailbox mailboxId data).mailboxes ↔
      mailbox ∈ data.mailboxes ∧ mailbox.mailboxId ≠ mailboxId := by
  unfold removeMailbox
  rw [mem_filter, bne_iff_ne]

/-- The new record of a message that lands somewhere has a mailbox. -/
theorem exists_of_lands {a : Account} {c : CopyMove} {id : ℕ} {data changes : MessageData}
    (hne : c.srcMailbox ≠ c.destMailbox) (hchanges : c.changes id data = some changes)
    (hlands : c.Lands a data) :
    ∃ mailbox ∈ changes.mailboxes, a.hasMailbox mailbox.mailboxId := by
  -- the destination is in the new record, and so is every mailbox that is not left
  have hdest : ∃ mailbox ∈ changes.mailboxes, mailbox.mailboxId = c.destMailbox := by
    unfold CopyMove.changes at hchanges
    split at hchanges
    · cases hchanges
    · split at hchanges
      · rename_i hhas
        split at hchanges
        · cases hchanges
          obtain ⟨mailbox, hmem, hid⟩ := hasMailboxId_iff.1 hhas
          exact ⟨mailbox, mem_removeMailbox.2 ⟨hmem, fun heq => hne (heq.symm.trans hid)⟩, hid⟩
        · cases hchanges
      · cases hchanges
        refine ⟨⟨c.destMailbox, c.uid id⟩, ?_, rfl⟩
        split
        · exact mem_removeMailbox.2 ⟨mem_append_right _ (mem_singleton_self _),
            fun heq => hne heq.symm⟩
        · exact mem_append_right _ (mem_singleton_self _)
  have hstays : ∀ mailbox ∈ data.mailboxes,
      (c.isMove → mailbox.mailboxId ≠ c.srcMailbox) → mailbox ∈ changes.mailboxes := by
    intro mailbox hmem hstay
    unfold CopyMove.changes at hchanges
    split at hchanges
    · cases hchanges
    · split at hchanges
      · split at hchanges
        · rename_i hmove
          cases hchanges
          exact mem_removeMailbox.2 ⟨hmem, hstay hmove⟩
        · cases hchanges
      · cases hchanges
        split
        · rename_i hmove
          exact mem_removeMailbox.2 ⟨mem_append_left _ hmem, hstay hmove⟩
        · exact mem_append_left _ hmem
  rcases hlands with hexists | ⟨mailbox, hmem, hstay, hexists⟩
  · obtain ⟨mailbox, hmem, hid⟩ := hdest
    exact ⟨mailbox, hmem, hid ▸ hexists⟩
  · exact ⟨mailbox, hstays mailbox hmem hstay, hexists⟩

theorem copyMove_rewrite?_eq_some {c : CopyMove} {message : ℕ × ℕ} {r : Rewrite}
    (hr : c.rewrite? h message = some r) :
    r.documentId = message.1 ∧ ∃ data changes,
      (h.ago message.2).message message.1 = some data ∧
        c.changes message.1 data = some changes ∧ r.changes = some changes := by
  unfold CopyMove.rewrite? at hr
  split at hr
  · cases hr
  · rename_i data hdata
    obtain ⟨changes, hchanges, rfl⟩ := Option.map_eq_some_iff.1 hr
    exact ⟨rfl, data, changes, hdata, hchanges, rfl⟩

theorem emailSet_rewrite?_eq_some {e : EmailSet} {u : EmailUpdate} {r : Rewrite}
    (hr : e.rewrite? h u = some r) :
    r.documentId = u.documentId ∧ ∃ data changes,
      (h.ago u.readAgo).message u.documentId = some data ∧
        e.changes h u data = some changes ∧ r.changes = some changes := by
  unfold EmailSet.rewrite? at hr
  split at hr
  · cases hr
  · rename_i data hdata
    obtain ⟨changes, hchanges, rfl⟩ := Option.map_eq_some_iff.1 hr
    exact ⟨rfl, data, changes, hdata, hchanges, rfl⟩

theorem mailboxes_of_emailSet_changes {e : EmailSet} {u : EmailUpdate}
    {data changes : MessageData} (hchanges : e.changes h u data = some changes) :
    changes.mailboxes = u.mailboxes := by
  unfold EmailSet.changes at hchanges
  split at hchanges
  · cases hchanges
  · split at hchanges
    · cases hchanges
    · split at hchanges
      · cases hchanges
      · cases hchanges
        rfl

theorem housed_of_grown {a t : Account} (h : Housed a) (hparents : t.ParentsExist)
    (hmessages : t.messages = a.messages)
    (hgrown : ∀ id, a.hasMailbox id → t.hasMailbox id) : Housed t := by
  refine ⟨fun id data hdata => ?_, hparents⟩
  have hsame : a.message id = some data := by
    unfold Account.message at hdata ⊢
    rw [← hmessages]
    exact hdata
  obtain ⟨mailbox, hmem, hid⟩ := h.messages id data hsame
  exact ⟨mailbox, hmem, hgrown _ hid⟩

/-- **A timely commit** keeps the invariant. -/
theorem housed_of_commit (hhoused : Housed h.current) {op : Operation} {t : Account}
    (hcommit : op.commit hash h = some t) (htimely : Timely h op) : Housed t := by
  obtain ⟨batch, hbatch, hwrite⟩ := Option.bind_eq_some_iff.1 hcommit
  cases op with
  | destroy d =>
    have hok : d.batch h = .ok batch := by
      cases hresult : d.batch h with
      | error err =>
        rw [Operation.batch, hresult] at hbatch
        cases hbatch
      | ok batch' =>
        rw [Operation.batch, hresult] at hbatch
        cases hbatch
        rfl
    exact housed_of_destroy hhoused hok hwrite htimely
  | ingest i =>
    have hset : batch = [.setMessage i.documentId i.data] := by
      have hguard : i.batch h = some batch := hbatch
      unfold Ingest.batch at hguard
      split at hguard
      · cases hguard
      · split at hguard
        · cases hguard
          rfl
        · cases hguard
    subst hset
    cases hwrite
    refine ⟨fun id data hdata => ?_, hhoused.parents⟩
    rw [message_insert] at hdata
    split at hdata
    · cases hdata
      exact htimely
    · exact hhoused.messages id data hdata
  | copyMove c =>
    obtain ⟨hne, rfl⟩ : c.srcMailbox ≠ c.destMailbox ∧
        batch = (c.rewrites h).flatMap Rewrite.writes := by
      have hguard : c.batch h = some batch := hbatch
      unfold CopyMove.batch at hguard
      split at hguard
      · cases hguard
      · split at hguard
        · cases hguard
        · rename_i hne
          cases hguard
          exact ⟨hne, rfl⟩
    refine housed_of_rewrites hhoused ?_ hwrite fun r hr data hdata => ?_
    · exact nodup_filterMap_rewrites Prod.fst
        (fun message r hr => (copyMove_rewrite?_eq_some hr).1) c.nodup
    · obtain ⟨message, hmem, hrewrite⟩ := mem_filterMap.1 hr
      obtain ⟨-, current, changes, hread, hchanges, hwritten⟩ := copyMove_rewrite?_eq_some hrewrite
      obtain rfl : changes = data := Option.some_inj.1 (hwritten.symm.trans hdata)
      refine exists_of_lands hne hchanges (htimely message hmem current hread ?_)
      rw [hchanges]
      rfl
  | emailSet e =>
    obtain rfl : (e.rewrites h).flatMap Rewrite.writes = batch := Option.some_inj.1 hbatch
    refine housed_of_rewrites hhoused ?_ hwrite fun r hr data hdata => ?_
    · exact nodup_filterMap_rewrites EmailUpdate.documentId
        (fun u r hr => (emailSet_rewrite?_eq_some hr).1) e.nodup
    · obtain ⟨u, hmem, hrewrite⟩ := mem_filterMap.1 hr
      obtain ⟨-, current, changes, hread, hchanges, hwritten⟩ := emailSet_rewrite?_eq_some hrewrite
      obtain rfl : changes = data := Option.some_inj.1 (hwritten.symm.trans hdata)
      rw [mailboxes_of_emailSet_changes hchanges]
      refine htimely u hmem current hread ?_
      rw [hchanges]
      rfl
  | create c =>
    obtain rfl : c.batch = batch := Option.some_inj.1 hbatch
    obtain ⟨a, hassert, hset⟩ := Option.bind_eq_some_iff.1
      ((commit_append _ _ _).symm.trans hwrite)
    have hparent : a = h.current ∧
        (c.mailbox.parentId = 0 ∨ h.current.hasMailbox (c.mailbox.parentId - 1)) := by
      split at hassert
      · obtain ⟨a', hexists, hnil⟩ := Option.bind_eq_some_iff.1 hassert
        dsimp only [Account.write] at hexists
        split at hexists
        · rename_i hparent
          cases hexists
          cases hnil
          exact ⟨rfl, .inr hparent⟩
        · cases hexists
      · cases hassert
        exact ⟨rfl, .inl (by omega)⟩
    obtain ⟨rfl, hparent⟩ := hparent
    have hpath : h.current.commit hash
        (pathWrites [c.mailbox.name] c.documentId c.mailbox.parentId) = some t := hset
    obtain ⟨hparents, hmessages, hgrown⟩ := commit_pathWrites _ hpath hhoused.parents hparent
    exact housed_of_grown hhoused hparents hmessages hgrown
  | createPath c =>
    have hset : batch = pathWrites c.names c.documentId c.parentId := by
      have hguard : c.batch h = some batch := hbatch
      unfold CreatePath.batch at hguard
      split at hguard
      · cases hguard
        rfl
      · cases hguard
    subst hset
    rcases htimely with hnil | hparent
    · rw [hnil] at hwrite
      cases hwrite
      exact hhoused
    · obtain ⟨hparents, hmessages, hgrown⟩ := commit_pathWrites _ hwrite hhoused.parents hparent
      exact housed_of_grown hhoused hparents hmessages hgrown

/-- The condition on a run: every operation that commits is timely. -/
def AllTimely (hash : ArchiveHash) (h : History) (ops : List Operation) : Prop :=
  Runs.Along (step hash) (fun h op => (op.commit hash h).isSome → Timely h op) h ops

/-- **No message is left in a deleted mailbox** in a run whose commits are all timely: each message
has a mailbox that exists and each mailbox its parent. -/
theorem housed_of_run {h : History} (hhoused : Housed h.current) {ops : List Operation}
    (htimely : AllTimely hash h ops) :
    Runs.Throughout (step hash) (fun h => Housed h.current) h ops := by
  refine Runs.throughout_of_invariant (fun h op h' hinv hok hstep => ?_) hhoused htimely
  unfold step at hstep
  split at hstep
  · rename_i t ht
    cases hstep
    exact housed_of_commit hinv ht (hok (by rw [ht]; rfl))
  · cases hstep
    exact hinv

/-! ## Two runs -/

/-- Hashes that tell the records of these runs apart. -/
def plainHash : ArchiveHash where
  mailbox mailbox := .ofNat (mailbox.name.length + 100 * mailbox.parentId)
  message data := .ofNat (data.size + 100 * data.threadId + 10000 * data.mailboxes.length)

/-- The inbox with a message, and an empty mailbox. -/
def twoMailboxes : Account where
  mailboxes := [(0, ⟨"Inbox", 0⟩), (7, ⟨"Work", 0⟩)]
  messages := [(1, ⟨[⟨0, 1⟩], [], 1, 10⟩)]

/-- The empty mailbox is destroyed; everything is read as it is. -/
def destroyWork : Destroy where
  documentId := 7
  removeEmails := true
  forbidden := false
  cacheAgo := 0
  archiveAgo _ := 0
  mailboxAgo := 0

/-- A message to the mailbox, which was looked up some commits ago. -/
def ingestWork (cacheAgo : ℕ) : Ingest where
  documentId := 2
  data := ⟨[⟨7, 1⟩], [], 2, 10⟩
  cacheAgo := cacheAgo

/-- A mailbox below it, likewise. -/
def createBelowWork (cacheAgo : ℕ) : CreatePath where
  names := ["Drafts"]
  documentId := 8
  parentId := 8
  cacheAgo := cacheAgo

theorem housed_twoMailboxes : Housed twoMailboxes := by
  refine ⟨fun id data hdata => ?_, fun id mailbox hid => ?_⟩
  · by_cases hone : id = 1
    · subst hone
      cases hdata
      exact ⟨⟨0, 1⟩, mem_singleton_self _, rfl⟩
    · simp [Account.message, twoMailboxes, find, Ne.symm hone] at hdata
  · by_cases hinbox : id = 0
    · subst hinbox
      cases hid
      exact .inl rfl
    · by_cases hwork : id = 7
      · subst hwork
        cases hid
        exact .inl rfl
      · simp [Account.mailbox, twoMailboxes, find, Ne.symm hinbox, Ne.symm hwork] at hid

/-- The mailbox is destroyed with the message that was put into it before. -/
theorem housed_ingest_destroy : Runs.Throughout (step plainHash) (fun h => Housed h.current)
    ⟨twoMailboxes, []⟩ [.ingest (ingestWork 0), .destroy destroyWork] := by
  refine housed_of_run housed_twoMailboxes ⟨fun _ => ⟨⟨7, 1⟩, mem_singleton_self _, rfl⟩,
    fun h' hstep => ?_⟩
  cases hstep
  refine ⟨fun _ => ⟨fun id data hdata hhas => ?_, fun id data hread => ?_,
    fun id mailbox hid _ => ?_⟩, fun _ _ => trivial⟩
  · by_cases hone : id = 1
    · subst hone
      cases hdata
      cases hhas
    · by_cases htwo : id = 2
      · subst htwo
        cases hdata
        exact .inr ⟨_, by decide, rfl, by decide⟩
      · simp [Account.message, twoMailboxes, ingestWork, InsertionMap.insert, alter, find,
          Ne.symm hone, Ne.symm htwo] at hdata
  · obtain ⟨-, hdata, hhas⟩ := hread
    by_cases hone : id = 1
    · subst hone
      cases hdata
      cases hhas
    · by_cases htwo : id = 2
      · subst htwo
        cases hdata
        exact .inl rfl
      · simp [Account.message, History.ago, destroyWork, twoMailboxes, ingestWork,
          InsertionMap.insert, alter, find, Ne.symm hone, Ne.symm htwo] at hdata
  · by_cases hinbox : id = 0
    · subst hinbox
      cases hid
      decide
    · by_cases hwork : id = 7
      · subst hwork
        cases hid
        decide
      · simp [Account.mailbox, twoMailboxes, find, Ne.symm hinbox, Ne.symm hwork] at hid

/-- **A message and a mailbox in a mailbox that is gone**: the two operations found it before it was
destroyed, and what they commit does not assert that it is still there. -/
theorem added_to_destroyed :
    ((Runs.exec (step plainHash) ⟨twoMailboxes, []⟩ [.destroy destroyWork, .ingest (ingestWork 1),
        .createPath (createBelowWork 2)]).map fun h =>
      (h.current.message 2, h.current.mailbox 8, h.current.hasMailbox 7)) =
      some (some ⟨[⟨7, 1⟩], [], 2, 10⟩, some ⟨"Drafts", 8⟩, false) := by
  decide

end MailServer.Mailboxes
