import MailServer.Message.Index

/-!
# Mailboxes and the messages in them

The records of an account, and the batches that the operations on its mailboxes commit.  A batch is
written as a whole or, when an assertion fails, not at all; an assertion compares the 32-bit hashes
of the archives.  A batch of more than 1000 operations or 5 MB, which the store splits at its commit
points, is not modelled.

Principal results: `commit_rewrites`, `commit_pathWrites`.
-/

namespace MailServer.Mailboxes

open MailServer.Message InsertionMap List

/-! ## Records -/

/-- What the destruction of a mailbox and the operations beside it read of a mailbox; `parentId` is
one more than the id of the parent, and 0 at the root. -/
structure Mailbox where
  name : String
  parentId : ℕ
deriving DecidableEq

/-- The mailboxes and the messages of an account by their document ids. -/
structure Account where
  mailboxes : InsertionMap ℕ Mailbox
  messages : InsertionMap ℕ MessageData

def Account.mailbox (a : Account) (id : ℕ) : Option Mailbox := find id a.mailboxes

def Account.message (a : Account) (id : ℕ) : Option MessageData := find id a.messages

def Account.hasMailbox (a : Account) (id : ℕ) : Bool := (a.mailbox id).isSome

def hasMailboxId (data : MessageData) (mailboxId : ℕ) : Bool :=
  data.mailboxes.any fun mailbox => mailbox.mailboxId == mailboxId

/-- `in_mailbox`: the ids of the messages, in the order of the cache. -/
def Account.inMailbox (a : Account) (mailboxId : ℕ) : List ℕ :=
  (keys a.messages).filter fun id => (a.message id).any fun data => hasMailboxId data mailboxId

/-! ## Batches -/

/-- An operation of a batch; `assertExists` is `AssertValue::Some`. -/
inductive Write where
  | assertMailbox (id : ℕ) (current : Mailbox)
  | assertExists (id : ℕ)
  | setMailbox (id : ℕ) (mailbox : Mailbox)
  | clearMailbox (id : ℕ)
  | assertMessage (id : ℕ) (current : MessageData)
  | setMessage (id : ℕ) (data : MessageData)
  | clearMessage (id : ℕ)

/-- The hashes that the archives of the records carry. -/
structure ArchiveHash where
  mailbox : Mailbox → UInt32
  message : MessageData → UInt32

variable (hash : ArchiveHash)

def Account.write (a : Account) : Write → Option Account
  | .assertMailbox id current =>
    if (a.mailbox id).map hash.mailbox = some (hash.mailbox current) then some a else none
  | .assertExists id => if a.hasMailbox id then some a else none
  | .setMailbox id mailbox => some { a with mailboxes := insert id mailbox a.mailboxes }
  | .clearMailbox id => some { a with mailboxes := remove id a.mailboxes }
  | .assertMessage id current =>
    if (a.message id).map hash.message = some (hash.message current) then some a else none
  | .setMessage id data => some { a with messages := insert id data a.messages }
  | .clearMessage id => some { a with messages := remove id a.messages }

/-- `commit_batch`; `none` is an assertion that failed. -/
def Account.commit (a : Account) (batch : List Write) : Option Account :=
  batch.foldlM (Account.write hash) a

variable {hash}

theorem commit_cons (a : Account) (op : Write) (rest : List Write) :
    a.commit hash (op :: rest) = (a.write hash op).bind fun a' => a'.commit hash rest :=
  foldlM_cons

theorem commit_append (a : Account) (batch rest : List Write) :
    a.commit hash (batch ++ rest) = (a.commit hash batch).bind fun a' => a'.commit hash rest :=
  foldlM_append

@[simp] theorem mailbox_insert (a : Account) (id id' : ℕ) (mailbox : Mailbox) :
    ({ a with mailboxes := insert id mailbox a.mailboxes } : Account).mailbox id' =
      if id' = id then some mailbox else a.mailbox id' := find_insert

@[simp] theorem mailbox_remove (a : Account) (id id' : ℕ) :
    ({ a with mailboxes := remove id a.mailboxes } : Account).mailbox id' =
      if id' = id then none else a.mailbox id' := find_remove

@[simp] theorem message_insert (a : Account) (id id' : ℕ) (data : MessageData) :
    ({ a with messages := insert id data a.messages } : Account).message id' =
      if id' = id then some data else a.message id' := find_insert

@[simp] theorem message_remove (a : Account) (id id' : ℕ) :
    ({ a with messages := remove id a.messages } : Account).message id' =
      if id' = id then none else a.message id' := find_remove

/-! ## Rewriting messages -/

/-- A message that was read, and what is written in its place; `none` deletes it. -/
structure Rewrite where
  documentId : ℕ
  current : MessageData
  changes : Option MessageData

def Rewrite.writes (r : Rewrite) : List Write :=
  [.assertMessage r.documentId r.current,
    match r.changes with
    | some data => .setMessage r.documentId data
    | none => .clearMessage r.documentId]

theorem commit_rewrite {a t : Account} {r : Rewrite} (h : a.commit hash r.writes = some t) :
    t.mailboxes = a.mailboxes ∧
      ∀ id, t.message id = if id = r.documentId then r.changes else a.message id := by
  unfold Rewrite.writes at h
  rw [commit_cons] at h
  obtain ⟨a', hassert, hrest⟩ := Option.bind_eq_some_iff.1 h
  dsimp only [Account.write] at hassert
  split at hassert
  · cases hassert
    cases hchanges : r.changes with
    | none =>
      rw [hchanges] at hrest
      cases hrest
      exact ⟨rfl, fun id => message_remove ..⟩
    | some data =>
      rw [hchanges] at hrest
      cases hrest
      exact ⟨rfl, fun id => message_insert ..⟩
  · cases hassert

/-- **Rewritten messages**: each is now as it was to be, and no other message has changed. -/
theorem commit_rewrites {a t : Account} {rewrites : List Rewrite}
    (hnodup : (rewrites.map Rewrite.documentId).Nodup)
    (h : a.commit hash (rewrites.flatMap Rewrite.writes) = some t) :
    t.mailboxes = a.mailboxes ∧
      (∀ r ∈ rewrites, t.message r.documentId = r.changes) ∧
      ∀ id, id ∉ rewrites.map Rewrite.documentId → t.message id = a.message id := by
  induction rewrites generalizing a with
  | nil =>
    cases h
    exact ⟨rfl, fun r hr => (by cases hr), fun _ _ => rfl⟩
  | cons r rest ih =>
    rw [flatMap_cons, commit_append] at h
    obtain ⟨a', hfirst, hrest⟩ := Option.bind_eq_some_iff.1 h
    obtain ⟨hmailboxes, hmessage⟩ := commit_rewrite hfirst
    rw [map_cons, nodup_cons] at hnodup
    obtain ⟨hmailboxes', hrewritten, hkept⟩ := ih hnodup.2 hrest
    refine ⟨hmailboxes'.trans hmailboxes, fun r' hr' => ?_, fun id hid => ?_⟩
    · rcases mem_cons.1 hr' with rfl | hr'
      · rw [hkept _ hnodup.1, hmessage, if_pos rfl]
      · exact hrewritten r' hr'
    · rw [map_cons, mem_cons, not_or] at hid
      rw [hkept id hid.2, hmessage, if_neg hid.1]

/-! ## Paths of new mailboxes -/

/-- The mailboxes of a path, from an id downwards; each is the parent of the next. -/
def pathWrites : List String → ℕ → ℕ → List Write
  | [], _, _ => []
  | name :: rest, documentId, parentId =>
    .setMailbox documentId ⟨name, parentId⟩ ::
      pathWrites rest (documentId - 1) (documentId + 1)

def Account.ParentsExist (a : Account) : Prop :=
  ∀ id mailbox, a.mailbox id = some mailbox →
    mailbox.parentId = 0 ∨ a.hasMailbox (mailbox.parentId - 1)

theorem Account.ParentsExist.insert {a : Account} (h : a.ParentsExist) {id : ℕ} {mailbox : Mailbox}
    (hparent : mailbox.parentId = 0 ∨ a.hasMailbox (mailbox.parentId - 1)) :
    ({ a with mailboxes := InsertionMap.insert id mailbox a.mailboxes } :
      Account).ParentsExist := by
  have hkept : ∀ id', a.hasMailbox id' →
      ({ a with mailboxes := InsertionMap.insert id mailbox a.mailboxes } : Account).hasMailbox
        id' := by
    intro id' hid'
    unfold Account.hasMailbox
    rw [mailbox_insert]
    split
    · rfl
    · exact hid'
  intro id' mailbox' hmailbox'
  rw [mailbox_insert] at hmailbox'
  split at hmailbox'
  · cases hmailbox'
    exact hparent.imp_right (hkept _)
  · exact (h id' mailbox' hmailbox').imp_right (hkept _)

/-- **A path below a mailbox that exists** adds mailboxes whose parents exist, and nothing else. -/
theorem commit_pathWrites (names : List String) {a t : Account} {documentId parentId : ℕ}
    (h : a.commit hash (pathWrites names documentId parentId) = some t) (hparents : a.ParentsExist)
    (hparent : parentId = 0 ∨ a.hasMailbox (parentId - 1)) :
    t.ParentsExist ∧ t.messages = a.messages ∧
      ∀ id, a.hasMailbox id → t.hasMailbox id := by
  induction names generalizing a documentId parentId with
  | nil =>
    cases h
    exact ⟨hparents, rfl, fun _ hid => hid⟩
  | cons name rest ih =>
    have hself : ({ a with mailboxes :=
        InsertionMap.insert documentId ⟨name, parentId⟩ a.mailboxes } : Account).hasMailbox
          (documentId + 1 - 1) := by
      unfold Account.hasMailbox
      rw [mailbox_insert, if_pos (Nat.add_sub_cancel documentId 1)]
      rfl
    obtain ⟨hparents', hmessages, hkept⟩ := ih h (hparents.insert hparent) (.inr hself)
    refine ⟨hparents', hmessages, fun id hid => hkept id ?_⟩
    unfold Account.hasMailbox
    rw [mailbox_insert]
    split
    · rfl
    · exact hid

end MailServer.Mailboxes
