import MailServer.Cache.Mailboxes
import MailServer.Mailboxes.Destroy

/-!
# `Mailbox/set`

`mailbox_set` and `mailbox_set_item` (`jmap/src/mailbox/set.rs`): the creates, the updates and the
destroys of a request.  Each object is validated against the mailboxes as they are stored before the
first object of its kind is written; the creates are committed together and so are the updates, each
of the two batches in one transaction unless it is large.

Nobody else changes the mailboxes meanwhile, so the cache has what is stored.
-/

namespace MailServer.MailboxSet

open InsertionMap
open MailServer.Cache (SpecialUse AclGrant)
open MailServer.Mailboxes (MailboxDestroyError)

/-! ## Mailboxes -/

/-- A mailbox with every field that `Mailbox/set` writes; `parentId` is one more than the id of the
parent, and 0 at the root. -/
structure Mailbox where
  name : String
  role : SpecialUse := .none
  parentId : ℕ := 0
  sortOrder : Option ℕ := none
  subscribers : List ℕ := []
  acls : List AclGrant := []
deriving DecidableEq

/-- The mailboxes of an account, and the document id that is assigned next. -/
structure Account where
  mailboxes : InsertionMap ℕ Mailbox
  nextId : ℕ

def Account.mailbox (a : Account) (id : ℕ) : Option Mailbox := find id a.mailboxes

/-- Document ids are assigned in ascending order. -/
def Account.Numbered (a : Account) : Prop := ∀ id ∈ keys a.mailboxes, id < a.nextId

/-- `SpecialUse::as_str`. -/
def roleName : SpecialUse → Option String
  | .inbox => some "inbox"
  | .trash => some "trash"
  | .junk => some "junk"
  | .drafts => some "drafts"
  | .archive => some "archive"
  | .sent => some "sent"
  | .shared => some "shared"
  | .important => some "important"
  | .memos => some "memos"
  | .scheduled => some "scheduled"
  | .snoozed => some "snoozed"
  | .none => none

/-! ## Requests -/

inductive Property where
  | name | parentId | isSubscribed | role | sortOrder | shareWith
  | other (name : String)

inductive SetErrorType where
  | invalidProperties | forbidden | notFound | willDestroy | overQuota
  | mailboxHasChild | mailboxHasEmail

structure SetError where
  type : SetErrorType
  property : Option Property := none
  description : Option String := none

/-- An id of a request, or a reference to an object that the request creates. -/
inductive Reference where
  | id (id : ℕ)
  | created (id : String)

/-- `document_id` of an id of 64 bits. -/
def documentId (id : ℕ) : ℕ := id % 2 ^ 32

/-- A property of an object and its value; of `shareWith` what becomes of the grants. -/
inductive Change where
  | name (value : String)
  | parentId (value : Option Reference)
  | isSubscribed (subscribe : Bool)
  | role (value : SpecialUse)
  | sortOrder (value : ℕ)
  | shareWith (acls : Except SetError (List AclGrant))
  | shareWithPointer (patch : List AclGrant → Except SetError (List AclGrant))
  | invalid (property : Property)

/-- `contains_key(&Key::Property(MailboxProperty::ShareWith))`. -/
def Change.isShareWith : Change → Bool
  | .shareWith _ => true
  | .invalid .shareWith => true
  | _ => false

/-- `SetRequest`; a value that is no object is `none`. -/
structure Request where
  create : List (String × Option (List Change))
  update : List (ℕ × Option (List Change))
  destroy : List ℕ

inductive Acl where
  | modify | share | createChild | delete | removeItems

/-- An object that is to be written, and what it was validated against: a create has no `current`
mailbox. -/
structure Item where
  documentId : ℕ
  current : Option Mailbox
  changes : Mailbox

/-- The configuration, the user of the request, what the store makes of a mailbox, and the functions
of the standard library on names. -/
structure Server where
  mailboxNameMaxLen : ℕ
  mailboxMaxDepth : ℕ
  objectQuota : ℕ
  primaryId : ℕ
  isShared : Bool
  effectiveAcl : List AclGrant → Acl → Bool
  aclValidate : List AclGrant → Option SetError
  /-- whether messages are in the mailbox, and whether they are to be removed with it -/
  hasEmails : ℕ → Bool
  removeEmails : Bool
  /-- the hash of an archive, which assertions compare -/
  hash : Mailbox → UInt32
  /-- `is_large_batch`, of the objects behind the last commit point -/
  isLargeBatch : List Item → Bool
  trim : String → String
  toLowercase : String → String

structure SetContext where
  mailboxIds : List ℕ
  willDestroy : List ℕ
  created : List (String × ℕ)

/-! ## `mailbox_set_item` -/

/-- `resolve_self_references`. -/
def resolve (ctx : SetContext) : Reference → Except SetError ℕ
  | .id id => .ok id
  | .created ref =>
    match ctx.created.lookup ref with
    | some documentId => .ok documentId
    | none => .error ⟨.notFound, none, some ("Id reference " ++ ref.quote ++ " not found.")⟩

section Server

variable (srv : Server)

/-- One property of the object; the flag is `has_acl_changes`. -/
def applyChange (ctx : SetContext) (m : Mailbox × Bool) : Change → Except SetError (Mailbox × Bool)
  | .name value =>
    let value := srv.trim value
    if value ≠ "" ∧ value.utf8ByteSize < srv.mailboxNameMaxLen then
      .ok ({ m.1 with name := value }, m.2)
    else
      .error ⟨.invalidProperties, some .name,
        some (if value ≠ "" then "Mailbox name is too long." else "Mailbox name cannot be empty.")⟩
  | .parentId none => .ok ({ m.1 with parentId := 0 }, m.2)
  | .parentId (some reference) => do
    let id ← resolve ctx reference
    if ctx.willDestroy.contains id then
      .error ⟨.willDestroy, none, some "Parent ID will be destroyed."⟩
    else if ctx.mailboxIds.contains (documentId id) then
      .ok ({ m.1 with parentId := documentId id + 1 }, m.2)
    else .error ⟨.invalidProperties, none, some "Parent ID does not exist."⟩
  | .isSubscribed subscribe =>
    let subscribers :=
      if subscribe then
        if m.1.subscribers.contains srv.primaryId then m.1.subscribers
        else m.1.subscribers ++ [srv.primaryId]
      else m.1.subscribers.filter fun id => id != srv.primaryId
    .ok ({ m.1 with subscribers := subscribers }, m.2)
  | .role role => .ok ({ m.1 with role := role }, m.2)
  | .sortOrder value => .ok ({ m.1 with sortOrder := some (value % 2 ^ 32) }, m.2)
  | .shareWith acls => acls.map fun acls => ({ m.1 with acls := acls }, true)
  | .shareWithPointer patch => (patch m.1.acls).map fun acls => ({ m.1 with acls := acls }, true)
  | .invalid property =>
    .error ⟨.invalidProperties, some property, some "Invalid property or value."⟩

/-- The walk from a parent up to the root; `current` is one more than the id, the fuel the levels
left. -/
def walkParents (ctx : SetContext) (a : Account) (current : ℕ) :
    ℕ → Bool → ℕ → Except SetError Unit
  | 0, _, _ =>
    .error ⟨.invalidProperties, some .parentId,
      some "Mailbox parent-child relationship is too deep."⟩
  | fuel + 1, first, parent =>
    if parent = current then
      .error ⟨.invalidProperties, some .parentId, some "Mailbox cannot be a parent of itself."⟩
    else if parent = 0 then
      if first && srv.isShared then
        .error ⟨.forbidden, none, some "You are not allowed to create root folders."⟩
      else .ok ()
    else
      match a.mailbox (parent - 1) with
      | some mailbox =>
        if first && srv.isShared && !srv.effectiveAcl mailbox.acls .createChild then
          .error ⟨.forbidden, none,
            some "You are not allowed to create sub mailboxes under this mailbox."⟩
        else walkParents ctx a current fuel false mailbox.parentId
      | none =>
        if ctx.mailboxIds.contains (parent - 1) then .ok ()
        else
          .error ⟨.invalidProperties, some .parentId, some "Mailbox parent does not exist."⟩

/-- The depth and the circularity of the parents are checked when the parent changes. -/
def checkParent (ctx : SetContext) (a : Account) (update : Option (ℕ × Mailbox)) (m : Mailbox) :
    Except SetError Unit :=
  if update.all fun u => decide (u.2.parentId ≠ m.parentId) then
    walkParents srv ctx a (update.elim (2 ^ 32 - 1) fun u => u.1 + 1) srv.mailboxMaxDepth true
      m.parentId
  else .ok ()

/-- The role is unique, and that of an internal folder stays. -/
def checkRole (a : Account) (update : Option (ℕ × Mailbox)) (m : Mailbox) : Except SetError Unit :=
  if update.all fun u => decide (u.2.role ≠ m.role) then
    if m.role ≠ .none ∧ (a.mailboxes.any fun item => decide (item.2.role = m.role)) then
      .error ⟨.invalidProperties, some .role,
        some ("A mailbox with role '" ++ (roleName m.role).getD "" ++ "' already exists.")⟩
    else if update.any fun u =>
        [Threading.INBOX_ID, Message.TRASH_ID, Threading.JUNK_ID].contains u.1 then
      .error ⟨.invalidProperties, some .role,
        some "You are not allowed to change the role of Inbox, Junk or Trash folders."⟩
    else .ok ()
  else .ok ()

/-- The name is unique below its parent. -/
def checkName (a : Account) (update : Option (ℕ × Mailbox)) (m : Mailbox) : Except SetError Unit :=
  if m.name ≠ "" then
    if (update.all fun u => decide (u.2.name ≠ m.name)) &&
        a.mailboxes.any fun item =>
          srv.toLowercase item.2.name == srv.toLowercase m.name && item.2.parentId == m.parentId
    then
      .error ⟨.invalidProperties, some .name,
        some ("A mailbox with name '" ++ m.name ++ "' already exists.")⟩
    else .ok ()
  else .error ⟨.invalidProperties, some .name, some "Mailbox name cannot be empty."⟩

def checkAcls (hasAclChanges : Bool) (m : Mailbox) : Except SetError Unit :=
  if hasAclChanges && !m.acls.isEmpty then
    match srv.aclValidate m.acls with
    | some error => .error error
    | none => .ok ()
  else .ok ()

/-- `mailbox_set_item`: the mailbox that is written. -/
def mailboxSetItem (ctx : SetContext) (a : Account) (changes : List Change)
    (update : Option (ℕ × Mailbox)) : Except SetError Mailbox := do
  let m ← changes.foldlM (applyChange srv ctx) (update.elim ⟨"", .none, 0, none, [], []⟩ Prod.snd,
    false)
  checkParent srv ctx a update m.1
  checkRole a update m.1
  checkName srv a update m.1
  checkAcls srv m.2 m.1
  pure m.1

/-! ## `mailbox_set` -/

/-- The operations of an object; `none` is an assertion that failed. -/
def Item.write (a : Account) (i : Item) : Option Account :=
  if i.changes.parentId ≠ 0 ∧ a.mailbox (i.changes.parentId - 1) = none then none
  else if i.current.isSome ∧
      (a.mailbox i.documentId).map srv.hash ≠ i.current.map srv.hash then none
  else some { a with mailboxes := insert i.documentId i.changes a.mailboxes }

/-- The transactions of a batch: a commit point stands behind each object, and counts when the batch
is large by then. -/
def transactions (pending : List Item) : List Item → List (List Item)
  | [] => if pending.isEmpty then [] else [pending]
  | i :: rest =>
    if srv.isLargeBatch (pending ++ [i]) then (pending ++ [i]) :: transactions [] rest
    else transactions (pending ++ [i]) rest

/-- One transaction. -/
def commit (a : Account) (items : List Item) : Option Account := items.foldlM (Item.write srv) a

/-- `commit_batch`: the account after each transaction, up to the first that fails. -/
def commits (a : Account) : List (List Item) → List Account
  | [] => []
  | items :: rest =>
    match commit srv a items with
    | none => []
    | some a' => a' :: commits a' rest

/-- The account after `commit_batch`. -/
def commitBatch (a : Account) (batch : List (List Item)) : Account :=
  (commits srv a batch).getLastD a

structure SetResponse where
  created : List (String × ℕ) := []
  notCreated : List (String × SetError) := []
  updated : List ℕ := []
  notUpdated : List (ℕ × SetError) := []
  destroyed : List ℕ := []
  notDestroyed : List (ℕ × SetError) := []

/-- The creates or the updates of a request so far. -/
structure Progress where
  mailboxIds : List ℕ
  nextId : ℕ
  items : List Item
  response : SetResponse

def Progress.context (s : Progress) (willDestroy : List ℕ) : SetContext :=
  ⟨s.mailboxIds, willDestroy, s.response.created⟩

def createOne (a : Account) (willDestroy : List ℕ) (s : Progress)
    (object : String × Option (List Change)) : Progress :=
  match object.2 with
  | none => s
  | some changes =>
    if srv.objectQuota ≤ s.mailboxIds.length then
      { s with response.notCreated := s.response.notCreated ++ [(object.1, ⟨.overQuota, none,
        some "There are too many mailboxes, please delete some before adding a new one."⟩)] }
    else
      match mailboxSetItem srv (s.context willDestroy) a changes none with
      | .ok m =>
        { s with
          mailboxIds := s.mailboxIds ++ [s.nextId]
          nextId := s.nextId + 1
          items := s.items ++ [⟨s.nextId, none, m⟩]
          response.created := s.response.created ++ [(object.1, s.nextId)] }
      | .error error =>
        { s with response.notCreated := s.response.notCreated ++ [(object.1, error)] }

def Progress.refuse (s : Progress) (id : ℕ) (error : SetError) : Progress :=
  { s with response.notUpdated := s.response.notUpdated ++ [(id, error)] }

/-- The rights that an update needs in an account of somebody else. -/
def forbids (changes : List Change) (m : Mailbox) : Option SetError :=
  if !srv.isShared then none
  else if !srv.effectiveAcl m.acls .modify then
    some ⟨.forbidden, none, some "You are not allowed to modify this mailbox."⟩
  else if changes.any Change.isShareWith && !srv.effectiveAcl m.acls .share then
    some ⟨.forbidden, none, some "You are not allowed to change the permissions of this mailbox."⟩
  else none

def updateOne (a : Account) (willDestroy : List ℕ) (s : Progress)
    (object : ℕ × Option (List Change)) : Progress :=
  if willDestroy.contains object.1 then s.refuse object.1 ⟨.willDestroy, none, none⟩
  else
    match object.2 with
    | none => s
    | some changes =>
      match a.mailbox (documentId object.1) with
      | none => s.refuse object.1 ⟨.notFound, none, none⟩
      | some m =>
        match forbids srv changes m with
        | some error => s.refuse object.1 error
        | none =>
          match mailboxSetItem srv (s.context willDestroy) a changes
              (some (documentId object.1, m)) with
          | .ok m' =>
            { s with
              items := s.items ++ [⟨documentId object.1, some m, m'⟩]
              response.updated := s.response.updated ++ [object.1] }
          | .error error => s.refuse object.1 error

/-- `mailbox_destroy`, as far as it concerns the mailboxes. -/
def destroyMailbox (a : Account) (documentId : ℕ) : Except MailboxDestroyError Account :=
  if [Threading.INBOX_ID, Message.TRASH_ID, Threading.JUNK_ID].contains documentId then
    .error .cannotDestroy
  else if a.mailboxes.any fun item => item.2.parentId == documentId + 1 then .error .hasChildren
  else if srv.hasEmails documentId && !srv.removeEmails then .error .hasEmails
  else
    match a.mailbox documentId with
    | none => .error .notFound
    | some m =>
      if srv.isShared && (!srv.effectiveAcl m.acls .delete ||
          (srv.removeEmails && !srv.effectiveAcl m.acls .removeItems)) then .error .forbidden
      else .ok { a with mailboxes := remove documentId a.mailboxes }

def destroyError : MailboxDestroyError → SetError
  | .cannotDestroy =>
    ⟨.forbidden, none, some "You are not allowed to delete Inbox, Junk or Trash folders."⟩
  | .forbidden => ⟨.forbidden, none, some "You are not allowed to delete this mailbox."⟩
  | .hasChildren => ⟨.mailboxHasChild, none, some "Mailbox has at least one children."⟩
  | .hasEmails => ⟨.mailboxHasEmail, none, some "Mailbox is not empty."⟩
  | .notFound => ⟨.notFound, none, none⟩

/-- The destroys: the account after each of them, and the response. -/
def destroys (a : Account) (response : SetResponse) : List ℕ → List Account × SetResponse
  | [] => ([], response)
  | id :: rest =>
    match destroyMailbox srv a (documentId id) with
    | .ok a' =>
      let r := destroys a' { response with destroyed := response.destroyed ++ [id] } rest
      (a' :: r.1, r.2)
    | .error error =>
      destroys a
        { response with notDestroyed := response.notDestroyed ++ [(id, destroyError error)] } rest

def createItems (a : Account) (request : Request) : Progress :=
  request.create.foldl (createOne srv a request.destroy)
    ⟨keys a.mailboxes, a.nextId, [], {}⟩

def assigned (a : Account) (request : Request) : Account :=
  { a with nextId := (createItems srv a request).nextId }

/-- The transactions of the creates. -/
def createBatch (a : Account) (request : Request) : List (List Item) :=
  transactions srv [] (createItems srv a request).items

/-- The account when the creates are committed. -/
def afterCreates (a : Account) (request : Request) : Account :=
  commitBatch srv (assigned srv a request) (createBatch srv a request)

def updateItems (a : Account) (request : Request) : Progress :=
  request.update.foldl (updateOne srv (afterCreates srv a request) request.destroy)
    { createItems srv a request with items := [] }

/-- The transactions of the updates. -/
def updateBatch (a : Account) (request : Request) : List (List Item) :=
  transactions srv [] (updateItems srv a request).items

def afterUpdates (a : Account) (request : Request) : Account :=
  commitBatch srv (afterCreates srv a request) (updateBatch srv a request)

/-- No transaction of the batch failed. -/
def committed (a : Account) (batch : List (List Item)) : Bool :=
  (commits srv a batch).length == batch.length

/-- The response to the updates: when an assertion fails none of them counts as done. -/
def updateResponse (a : Account) (request : Request) : SetResponse :=
  let s := updateItems srv a request
  if committed srv (afterCreates srv a request) (updateBatch srv a request) then s.response
  else
    { s.response with
      updated := []
      notUpdated := s.response.notUpdated ++ s.response.updated.map fun id =>
        (id, ⟨.forbidden, none, some "Another process modified this mailbox, please try again."⟩) }

/-- The account after each transaction of a request, the creates first, up to one that fails. -/
def states (a : Account) (request : Request) : List Account :=
  commits srv (assigned srv a request) (createBatch srv a request) ++
    if committed srv (assigned srv a request) (createBatch srv a request) then
      commits srv (afterCreates srv a request) (updateBatch srv a request) ++
        (destroys srv (afterUpdates srv a request) (updateResponse srv a request)
          request.destroy).1
    else []

/-- `mailbox_set`: the account that is stored and the response. -/
def mailboxSet (a : Account) (request : Request) : Account × Option SetResponse :=
  ((states srv a request).getLastD (assigned srv a request),
    if committed srv (assigned srv a request) (createBatch srv a request) then
      some (destroys srv (afterUpdates srv a request) (updateResponse srv a request)
        request.destroy).2
    else none)

end Server

end MailServer.MailboxSet
