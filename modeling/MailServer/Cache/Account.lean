import MailServer.Store.LogSince
import MailServer.Cache.Keywords
import MailServer.Cache.Mailboxes

/-!
# What the message cache is built from

The messages and the mailboxes of an account, what a batch does to them and what it writes to the
change log (`common/src/storage/index.rs`).

Principal results: `ItemsFollow.apply`, `MailboxesFollow.apply`.
-/

namespace MailServer.Cache

open InsertionMap MailServer.Store List
open Option (ite_none_right_eq_some)

/-! ## The account -/

/-- A mailbox of a message, and the UID of the message in it. -/
structure UidMailbox where
  mailboxId : UInt32
  uid : UInt32
deriving DecidableEq

/-- The record with the widths that the cache has; where no width matters, in the modules about
messages and mailboxes, the record has natural numbers. -/
structure MessageData where
  mailboxes : List UidMailbox
  keywords : List Keyword
  threadId : UInt32
  size : UInt32
deriving DecidableEq

/-- A versioned archive: the change id under which it was written, and its contents. -/
structure Archive where
  changeId : ℕ
  inner : MessageData

/-- The archives of the messages and of the mailboxes under their document ids. -/
structure Account where
  messages : InsertionMap UInt32 Archive
  mailboxes : InsertionMap UInt32 Mailbox

def INBOX_ID : UInt32 := 0
def TRASH_ID : UInt32 := 1
def JUNK_ID : UInt32 := 2

/-! ## Changes -/

/-- `ObjectIndexBuilder` with the archive that was read and the one that is to be written. -/
inductive ObjectIndex (α : Type) where
  | insertion (changes : α)
  | update (current changes : α)
  | deletion (current : α)

inductive RecordChange where
  | message (documentId : UInt32) (index : ObjectIndex MessageData)
  | mailbox (documentId : UInt32) (index : ObjectIndex Mailbox)

variable {account account' : Account} {changeId : ℕ} {change : RecordChange}

/-- The ids of `IndexValue::LogContainerProperty` for the email collection. -/
def MessageData.mailboxIds (data : MessageData) : List UInt32 :=
  data.mailboxes.map UidMailbox.mailboxId

/-- `IndexValue::LogContainerProperty`: the mailboxes that a message enters or leaves. -/
def propertyCalls (ids : List UInt32) : List LogCall := ids.map .containerPropertyUpdate

/-- What `build_index` and `merge_index` write to the log for a message. -/
def messageCalls (documentId : UInt32) : ObjectIndex MessageData → List LogCall
  | .insertion changes =>
    .itemInsert (some changes.threadId) documentId :: propertyCalls changes.mailboxIds
  | .update current changes =>
    (if current.threadId ≠ changes.threadId then
      [.itemDelete (some current.threadId) documentId,
        .itemInsert (some changes.threadId) documentId]
    else [.itemUpdate (some current.threadId) documentId]) ++
    propertyCalls (current.mailboxIds.filter (· ∉ changes.mailboxIds)) ++
    propertyCalls (changes.mailboxIds.filter (· ∉ current.mailboxIds))
  | .deletion current =>
    .itemDelete (some current.threadId) documentId :: propertyCalls current.mailboxIds

/-- What is written to the log for a mailbox. -/
def mailboxCalls (documentId : UInt32) : ObjectIndex Mailbox → List LogCall
  | .insertion _ => [.containerInsert documentId]
  | .update _ _ => [.containerUpdate documentId]
  | .deletion _ => [.containerDelete documentId]

def RecordChange.calls : RecordChange → List LogCall
  | .message documentId index => messageCalls documentId index
  | .mailbox documentId index => mailboxCalls documentId index

/-- Writes one change under a change id; `none` is an assertion that fails, an id not assigned anew,
or a mailbox that is not destroyed. -/
def Account.apply (changeId : ℕ) (account : Account) : RecordChange → Option Account
  | .message id (.insertion changes) =>
    if find id account.messages = none then
      some { account with messages := insert id ⟨changeId, changes⟩ account.messages }
    else none
  | .message id (.update current changes) =>
    if (find id account.messages).map Archive.inner = some current then
      some { account with messages := insert id ⟨changeId, changes⟩ account.messages }
    else none
  | .message id (.deletion current) =>
    if (find id account.messages).map Archive.inner = some current then
      some { account with messages := remove id account.messages }
    else none
  | .mailbox id (.insertion changes) =>
    if find id account.mailboxes = none then
      some { account with mailboxes := insert id changes account.mailboxes }
    else none
  | .mailbox id (.update current changes) =>
    if find id account.mailboxes = some current then
      some { account with mailboxes := insert id changes account.mailboxes }
    else none
  | .mailbox id (.deletion current) =>
    if find id account.mailboxes = some current ∧ id ∉ [INBOX_ID, TRASH_ID, JUNK_ID] then
      some { account with mailboxes := remove id account.mailboxes }
    else none

/-! ## Item ids -/

theorem toNat_buildId (threadId documentId : UInt32) :
    (buildId (some threadId) documentId).toNat = threadId.toNat * 2 ^ 32 + documentId.toNat := by
  have hthread := threadId.toNat_lt
  have hdocument := documentId.toNat_lt
  unfold buildId
  rw [UInt64.toNat_or, UInt64.toNat_shiftLeft, UInt32.toNat_toUInt64, UInt32.toNat_toUInt64]
  rw [show (32 : UInt64).toNat % 64 = 32 from rfl, Nat.mod_eq_of_lt (by
    omega), ← Nat.shiftLeft_add_eq_or_of_lt hdocument, Nat.shiftLeft_eq]

theorem toUInt32_buildId (threadId documentId : UInt32) :
    (buildId (some threadId) documentId).toUInt32 = documentId := by
  have hdocument := documentId.toNat_lt
  refine UInt32.toNat_inj.1 ?_
  rw [UInt64.toNat_toUInt32, toNat_buildId]
  omega

theorem buildId_inj {threadId threadId' documentId : UInt32} :
    buildId (some threadId) documentId = buildId (some threadId') documentId ↔
      threadId = threadId' := by
  refine ⟨fun h => ?_, fun h => congrArg (fun t => buildId (some t) documentId) h⟩
  have hnat := congrArg UInt64.toNat h
  rw [toNat_buildId, toNat_buildId] at hnat
  refine UInt32.toNat_inj.1 ?_
  omega

/-! ## Messages and their items -/

/-- A message as an item of the log: its thread and its document id. -/
def Account.hasItem (account : Account) (id : UInt64) : Bool :=
  (find id.toUInt32 account.messages).any fun archive =>
    buildId (some archive.inner.threadId) id.toUInt32 == id

def itemKinds (id : UInt64) (calls : List LogCall) : List Kind :=
  calls.filterMap (LogCall.itemKind id)

theorem itemKinds_append (id : UInt64) (calls calls' : List LogCall) :
    itemKinds id (calls ++ calls') = itemKinds id calls ++ itemKinds id calls' :=
  filterMap_append

theorem itemKinds_cons (id : UInt64) (call : LogCall) (calls : List LogCall) :
    itemKinds id (call :: calls) = (call.itemKind id).toList ++ itemKinds id calls := by
  unfold itemKinds
  rw [filterMap_cons]
  cases call.itemKind id <;> rfl

@[simp] theorem itemKinds_propertyCalls (id : UInt64) (ids : List UInt32) :
    itemKinds id (propertyCalls ids) = [] := by
  unfold itemKinds propertyCalls
  rw [filterMap_eq_nil_iff]
  intro call hcall
  obtain ⟨i, -, rfl⟩ := mem_map.1 hcall
  rfl

theorem core_itemKinds (id : UInt64) (calls : List LogCall) :
    core (itemKinds id calls) = itemKinds id calls := by
  refine filter_eq_self.2 fun kind hkind => ?_
  obtain ⟨call, -, hcall⟩ := mem_filterMap.1 hkind
  cases call <;> simp only [LogCall.itemKind, ite_none_right_eq_some, reduceCtorEq] at hcall
  all_goals
    obtain ⟨-, hkind'⟩ := hcall
    cases hkind'
    rfl

/-- **The calls live the life of the items**: an item is inserted when it is not there and changed
when it is, a message that no call is about is as it was, and of its items none is left alone while
another is not. -/
structure ItemsFollow (account account' : Account) (calls : List LogCall) : Prop where
  legal : ∀ id, Legal (account.hasItem id) (itemKinds id calls)
  after : ∀ id, aliveAfter (account.hasItem id) (itemKinds id calls) = account'.hasItem id
  still : ∀ documentId, (∀ id : UInt64, id.toUInt32 = documentId → itemKinds id calls = []) →
    find documentId account'.messages = find documentId account.messages
  only : ∀ id, account.hasItem id → itemKinds id calls = [] →
    ∀ id' : UInt64, id'.toUInt32 = id.toUInt32 → itemKinds id' calls = []

theorem ItemsFollow.refl (account : Account) : ItemsFollow account account [] where
  legal _ := trivial
  after _ := rfl
  still _ _ := rfl
  only _ _ _ _ _ := rfl

theorem ItemsFollow.trans {account account' account'' : Account} {calls calls' : List LogCall}
    (h : ItemsFollow account account' calls) (h' : ItemsFollow account' account'' calls') :
    ItemsFollow account account'' (calls ++ calls') where
  legal id := by
    rw [itemKinds_append]
    exact (legal_append _ _ _).2 ⟨h.legal id, h.after id ▸ h'.legal id⟩
  after id := by
    rw [itemKinds_append, aliveAfter_append, h.after, h'.after]
  still documentId hnone := by
    have hboth : ∀ id, id.toUInt32 = documentId →
        itemKinds id calls = [] ∧ itemKinds id calls' = [] := by
      intro id hid
      have happend := hnone id hid
      rw [itemKinds_append] at happend
      exact append_eq_nil_iff.1 happend
    exact (h'.still documentId fun id hid => (hboth id hid).2).trans
      (h.still documentId fun id hid => (hboth id hid).1)
  only id halive hnone id' hid' := by
    rw [itemKinds_append] at hnone ⊢
    obtain ⟨hcalls, hcalls'⟩ := append_eq_nil_iff.1 hnone
    have halive' : account'.hasItem id := by
      rw [← h.after, hcalls]
      exact halive
    rw [h.only id halive hcalls id' hid', h'.only id halive' hcalls' id' hid']
    rfl

variable {calls : List LogCall}

theorem ItemsFollow.of_messages
    (hmessages : account'.messages = account.messages) (hcalls : ∀ id, itemKinds id calls = []) :
    ItemsFollow account account' calls where
  legal id := by
    rw [hcalls]
    trivial
  after id := by
    rw [hcalls]
    unfold Account.hasItem
    rw [hmessages]
    rfl
  still _ _ := by rw [hmessages]
  only _ _ _ id' _ := hcalls id'

/-- An item of a message that is in a thread, or not stored. -/
def isItemOf (documentId : UInt32) (id : UInt64) (threadId : Option UInt32) : Bool :=
  threadId.any fun threadId => buildId (some threadId) documentId == id

theorem hasItem_eq_isItemOf (account : Account) {documentId : UInt32} {id : UInt64}
    (hid : id.toUInt32 = documentId) :
    account.hasItem id =
      isItemOf documentId id ((find documentId account.messages).map (·.inner.threadId)) := by
  subst hid
  unfold Account.hasItem
  cases find id.toUInt32 account.messages <;> rfl

theorem exists_hasItem {account : Account} {documentId : UInt32}
    (h : find documentId account.messages ≠ none) :
    ∃ id, id.toUInt32 = documentId ∧ account.hasItem id := by
  obtain ⟨archive, h⟩ := Option.ne_none_iff_exists'.1 h
  have hlow := toUInt32_buildId archive.inner.threadId documentId
  refine ⟨_, hlow, ?_⟩
  rw [hasItem_eq_isItemOf account hlow, h]
  exact beq_self_eq_true _

section Between

variable {documentId : UInt32} {id : UInt64} {before after : Option UInt32}

theorem isItemOf_far (hid : id.toUInt32 ≠ documentId) (threadId : Option UInt32) :
    isItemOf documentId id threadId = false := by
  cases threadId with
  | none => rfl
  | some threadId =>
    refine beq_false_of_ne ?_
    rintro rfl
    exact hid (toUInt32_buildId threadId documentId)

theorem isItemOf_inj (hbefore : isItemOf documentId id before)
    (hafter : isItemOf documentId id after) : before = after := by
  cases before with
  | none => cases hbefore
  | some threadId =>
    cases after with
    | none => cases hafter
    | some threadId' =>
      exact congrArg some (buildId_inj.1 ((eq_of_beq hbefore).trans (eq_of_beq hafter).symm))

/-- What is logged of an item when its message goes from one thread to another. -/
def kindsBetween (documentId : UInt32) (id : UInt64) (before after : Option UInt32) : List Kind :=
  if before = after then (if isItemOf documentId id before then [.update] else [])
  else (if isItemOf documentId id before then [.delete] else []) ++
    if isItemOf documentId id after then [.insert] else []

theorem kindsBetween_spec :
    Legal (isItemOf documentId id before) (kindsBetween documentId id before after) ∧
    aliveAfter (isItemOf documentId id before) (kindsBetween documentId id before after) =
      isItemOf documentId id after ∧
    (kindsBetween documentId id before after = [] ↔
      isItemOf documentId id before = false ∧ isItemOf documentId id after = false) := by
  unfold kindsBetween
  by_cases hsame : before = after
  · subst hsame
    cases isItemOf documentId id before <;> simp [Legal, aliveAfter, Kind.after]
  · rw [if_neg hsame]
    cases hbefore : isItemOf documentId id before with
    | false => cases isItemOf documentId id after <;> simp [Legal, aliveAfter, Kind.after]
    | true =>
      have hafter : isItemOf documentId id after = false :=
        Bool.eq_false_iff.2 fun hafter => hsame (isItemOf_inj hbefore hafter)
      simp [hafter, Legal, aliveAfter, Kind.after]

end Between

theorem ItemsFollow.of_threads {documentId : UInt32} {before after}
    (hother : ∀ id, id ≠ documentId → find id account'.messages = find id account.messages)
    (hbefore : (find documentId account.messages).map (·.inner.threadId) = before)
    (hafter : (find documentId account'.messages).map (·.inner.threadId) = after)
    (hcalls : ∀ id, itemKinds id calls = kindsBetween documentId id before after)
    (hstored : before.isSome ∨ after.isSome) : ItemsFollow account account' calls := by
  have hbefore' {id : UInt64} (hid : id.toUInt32 = documentId) :
      account.hasItem id = isItemOf documentId id before :=
        hbefore ▸ hasItem_eq_isItemOf account hid
  have hafter' {id : UInt64} (hid : id.toUInt32 = documentId) :
      account'.hasItem id = isItemOf documentId id after :=
        hafter ▸ hasItem_eq_isItemOf account' hid
  have hfar {id : UInt64} (hid : id.toUInt32 ≠ documentId) : itemKinds id calls = [] := by
    rw [hcalls, kindsBetween_spec.2.2]
    exact ⟨isItemOf_far hid _, isItemOf_far hid _⟩
  refine ⟨fun id => ?_, fun id => ?_, fun id hnone => ?_, fun id halive hnone id' hid' => ?_⟩
  · by_cases hid : id.toUInt32 = documentId
    · rw [hcalls, hbefore' hid]
      exact kindsBetween_spec.1
    · rw [hfar hid]
      trivial
  · by_cases hid : id.toUInt32 = documentId
    · rw [hcalls, hbefore' hid, hafter' hid]
      exact kindsBetween_spec.2.1
    · rw [hfar hid]
      unfold Account.hasItem
      rw [hother _ hid]
      rfl
  · refine hother id ?_
    rintro rfl
    -- the item of the thread that the message is in before or after
    have hself (threadId : UInt32) : isItemOf id (buildId (some threadId) id) (some threadId) :=
      beq_self_eq_true _
    obtain ⟨threadId, rfl⟩ | ⟨threadId, rfl⟩ :=
      hstored.imp Option.isSome_iff_exists.1 Option.isSome_iff_exists.1
    all_goals
      have hnil := hnone _ (toUInt32_buildId threadId id)
      rw [hcalls, kindsBetween_spec.2.2, hself] at hnil
      simp at hnil
  · refine hfar fun heq => ?_
    have hid := hid'.symm.trans heq
    rw [hcalls, kindsBetween_spec.2.2, ← hbefore' hid, halive] at hnone
    cases hnone.1

/-- The step lemma for messages. -/
theorem ItemsFollow.apply (h : account.apply changeId change = some account') :
    ItemsFollow account account' change.calls := by
  cases change with
  | mailbox documentId index =>
    refine ItemsFollow.of_messages ?_ fun id => by cases index <;> rfl
    cases index <;> simp only [Account.apply, ite_none_right_eq_some] at h <;>
      cases Option.some.inj h.2 <;> rfl
  | message documentId index =>
    cases index with
    | insertion changes =>
      obtain ⟨hnew, hinsert⟩ := ite_none_right_eq_some.1 h
      cases hinsert
      refine .of_threads (fun id hid => by rw [find_insert, if_neg hid]) (congrArg _ hnew)
        (congrArg _ (find_insert.trans (if_pos rfl))) (fun id => ?_) (.inr rfl)
      change itemKinds id (_ :: propertyCalls _) = _
      rw [itemKinds_cons]
      simp [kindsBetween, isItemOf, LogCall.itemKind, apply_ite Option.toList]
    | update current changes =>
      obtain ⟨hcurrent, hinsert⟩ := ite_none_right_eq_some.1 h
      cases hinsert
      obtain ⟨archive, hfind, rfl⟩ := Option.map_eq_some_iff.1 hcurrent
      refine .of_threads (fun id hid => by rw [find_insert, if_neg hid]) (congrArg _ hfind)
        (congrArg _ (find_insert.trans (if_pos rfl))) (fun id => ?_) (.inl rfl)
      change itemKinds id (_ ++ propertyCalls _ ++ propertyCalls _) = _
      rw [itemKinds_append, itemKinds_append]
      have hnil : itemKinds id [] = [] := rfl
      by_cases hsame : archive.inner.threadId = changes.threadId <;>
        simp [kindsBetween, isItemOf, hsame, itemKinds_cons, hnil, LogCall.itemKind,
          apply_ite Option.toList]
    | deletion current =>
      obtain ⟨hcurrent, hremove⟩ := ite_none_right_eq_some.1 h
      cases hremove
      obtain ⟨archive, hfind, rfl⟩ := Option.map_eq_some_iff.1 hcurrent
      refine .of_threads (fun id hid => by rw [find_remove, if_neg hid]) (congrArg _ hfind)
        (congrArg _ (find_remove.trans (if_pos rfl))) (fun id => ?_) (.inl rfl)
      change itemKinds id (_ :: propertyCalls _) = _
      rw [itemKinds_cons, itemKinds_propertyCalls, append_nil]
      simp [kindsBetween, isItemOf, LogCall.itemKind, apply_ite Option.toList]

/-! ## Mailboxes -/

def Account.hasMailbox (account : Account) (id : UInt32) : Bool :=
  (find id account.mailboxes).isSome

def mailboxKinds (id : UInt32) (calls : List LogCall) : List Kind :=
  calls.filterMap (LogCall.containerKind id)

theorem mailboxKinds_append (id : UInt32) (calls calls' : List LogCall) :
    mailboxKinds id (calls ++ calls') = mailboxKinds id calls ++ mailboxKinds id calls' :=
  filterMap_append

theorem core_mailboxKinds_append (id : UInt32) (calls calls' : List LogCall) :
    core (mailboxKinds id (calls ++ calls')) =
      core (mailboxKinds id calls) ++ core (mailboxKinds id calls') := by
  rw [mailboxKinds_append, core_append]

@[simp] theorem core_mailboxKinds_propertyCalls (id : UInt32) (ids : List UInt32) :
    core (mailboxKinds id (propertyCalls ids)) = [] := by
  refine filter_eq_nil_iff.2 fun kind hkind => ?_
  obtain ⟨call, hcall, hkind⟩ := mem_filterMap.1 hkind
  obtain ⟨i, -, rfl⟩ := mem_map.1 hcall
  have hkind' : (if i = id then some Kind.property else none) = some kind := hkind
  rw [ite_none_right_eq_some] at hkind'
  cases hkind'.2
  simp

/-- **The calls live the life of the mailboxes**, property updates apart. -/
structure MailboxesFollow (account account' : Account) (calls : List LogCall) : Prop where
  legal : ∀ id, Legal (account.hasMailbox id) (core (mailboxKinds id calls))
  after : ∀ id, aliveAfter (account.hasMailbox id) (mailboxKinds id calls) = account'.hasMailbox id
  still : ∀ id, core (mailboxKinds id calls) = [] →
    find id account'.mailboxes = find id account.mailboxes

theorem MailboxesFollow.refl (account : Account) : MailboxesFollow account account [] where
  legal _ := trivial
  after _ := rfl
  still _ _ := rfl

theorem MailboxesFollow.trans {account account' account'' : Account}
    {calls calls' : List LogCall} (h : MailboxesFollow account account' calls)
    (h' : MailboxesFollow account' account'' calls') :
    MailboxesFollow account account'' (calls ++ calls') where
  legal id := by
    rw [core_mailboxKinds_append]
    refine (legal_append _ _ _).2 ⟨h.legal id, ?_⟩
    rw [aliveAfter_core, h.after]
    exact h'.legal id
  after id := by
    rw [mailboxKinds_append, aliveAfter_append, h.after, h'.after]
  still id hnone := by
    rw [core_mailboxKinds_append] at hnone
    obtain ⟨hcalls, hcalls'⟩ := append_eq_nil_iff.1 hnone
    exact (h'.still id hcalls').trans (h.still id hcalls)

theorem MailboxesFollow.of_mailboxes (hmailboxes : account'.mailboxes = account.mailboxes)
    (hcalls : ∀ id, core (mailboxKinds id calls) = []) :
    MailboxesFollow account account' calls where
  legal id := by
    rw [hcalls]
    trivial
  after id := by
    rw [← aliveAfter_core, hcalls]
    unfold Account.hasMailbox
    rw [hmailboxes]
    rfl
  still _ _ := by rw [hmailboxes]

theorem MailboxesFollow.of_change (documentId : UInt32) (kind : Kind) (hproperty : kind ≠ .property)
    (hother : ∀ id, id ≠ documentId → find id account'.mailboxes = find id account.mailboxes)
    (hcalls : ∀ id, mailboxKinds id calls = if documentId = id then [kind] else [])
    (hlegal : kind = .insert ↔ account.hasMailbox documentId = false)
    (hafter : kind.after (account.hasMailbox documentId) = account'.hasMailbox documentId) :
    MailboxesFollow account account' calls where
  legal id := by
    rw [hcalls]
    split_ifs with hid
    · subst hid
      rw [core_singleton hproperty]
      exact ⟨hlegal, trivial⟩
    · trivial
  after id := by
    rw [hcalls]
    split_ifs with hid
    · subst hid
      exact hafter
    · unfold Account.hasMailbox
      rw [hother id (Ne.symm hid)]
      rfl
  still id hnone := by
    rw [hcalls] at hnone
    split_ifs at hnone with hid
    · rw [core_singleton hproperty] at hnone
      cases hnone
    · exact hother id (Ne.symm hid)

/-- The step lemma for mailboxes. -/
theorem MailboxesFollow.apply (h : account.apply changeId change = some account') :
    MailboxesFollow account account' change.calls := by
  have hone : ∀ id documentId call kind,
      call.containerKind id = (if documentId = id then some kind else none) →
      mailboxKinds id [call] = if documentId = id then [kind] else [] := by
    intro id documentId call kind hcall
    unfold mailboxKinds
    rw [filterMap_cons, hcall]
    split_ifs <;> rfl
  cases change with
  | message documentId index =>
    refine MailboxesFollow.of_mailboxes ?_ fun id => ?_
    · cases index <;> simp only [Account.apply, ite_none_right_eq_some] at h <;>
        cases Option.some.inj h.2 <;> rfl
    · cases index with
      | insertion changes => exact core_mailboxKinds_propertyCalls id changes.mailboxIds
      | deletion current => exact core_mailboxKinds_propertyCalls id current.mailboxIds
      | update current changes =>
        change core (mailboxKinds id (_ ++ propertyCalls _ ++ propertyCalls _)) = []
        rw [core_mailboxKinds_append, core_mailboxKinds_append, core_mailboxKinds_propertyCalls,
          core_mailboxKinds_propertyCalls]
        split_ifs <;> rfl
  | mailbox documentId index =>
    cases index with
    | insertion changes =>
      obtain ⟨hnew, hinsert⟩ := ite_none_right_eq_some.1 h
      cases hinsert
      refine MailboxesFollow.of_change documentId .insert (by simp)
        (fun id hid => by rw [find_insert, if_neg hid]) (fun id => hone _ _ _ _ rfl) ?_ ?_
      · simp [Account.hasMailbox, hnew]
      · simp [Account.hasMailbox, find_insert, Kind.after]
    | update current changes =>
      obtain ⟨hcurrent, hinsert⟩ := ite_none_right_eq_some.1 h
      cases hinsert
      refine MailboxesFollow.of_change documentId .update (by simp)
        (fun id hid => by rw [find_insert, if_neg hid]) (fun id => hone _ _ _ _ rfl) ?_ ?_
      · simp [Account.hasMailbox, hcurrent]
      · simp [Account.hasMailbox, find_insert, hcurrent, Kind.after]
    | deletion current =>
      obtain ⟨⟨hcurrent, -⟩, hremove⟩ := ite_none_right_eq_some.1 h
      cases hremove
      refine MailboxesFollow.of_change documentId .delete (by simp)
        (fun id hid => by rw [find_remove, if_neg hid]) (fun id => hone _ _ _ _ rfl) ?_ ?_
      · simp [Account.hasMailbox, hcurrent]
      · simp [Account.hasMailbox, find_remove, Kind.after]

/-! ## Batches -/

/-- The changes of a batch, one after the other. -/
def Account.applyAll (changeId : ℕ) (account : Account) (changes : List RecordChange) :
    Option Account :=
  changes.foldlM (Account.apply changeId) account

/-- **A batch.** -/
theorem follow_applyAll {changes}
    (h : account.applyAll changeId changes = some account') :
    ItemsFollow account account' (changes.flatMap RecordChange.calls) ∧
      MailboxesFollow account account' (changes.flatMap RecordChange.calls) := by
  induction changes generalizing account with
  | nil =>
    cases h
    exact ⟨.refl _, .refl _⟩
  | cons change changes ih =>
    unfold Account.applyAll at h
    rw [foldlM_cons, Option.bind_eq_bind, Option.bind_eq_some_iff] at h
    obtain ⟨account₁, hfirst, hrest⟩ := h
    obtain ⟨hitems, hmailboxes⟩ := ih hrest
    exact ⟨(ItemsFollow.apply hfirst).trans hitems, (MailboxesFollow.apply hfirst).trans hmailboxes⟩

theorem find_inbox_apply (h : account.apply changeId change = some account')
    (hinbox : (find INBOX_ID account.mailboxes).isSome) :
    (find INBOX_ID account'.mailboxes).isSome := by
  cases change with
  | message documentId index =>
    cases index <;> simp only [Account.apply, ite_none_right_eq_some] at h <;>
      cases Option.some.inj h.2 <;> exact hinbox
  | mailbox documentId index =>
    cases index with
    | insertion changes | update current changes =>
      simp only [Account.apply, ite_none_right_eq_some] at h
      cases Option.some.inj h.2
      rw [find_insert]
      split_ifs
      · rfl
      · exact hinbox
    | deletion current =>
      obtain ⟨⟨-, hsystem⟩, hremove⟩ := ite_none_right_eq_some.1 h
      cases hremove
      rw [find_remove, if_neg]
      · exact hinbox
      · rintro rfl
        exact hsystem (by simp)

theorem find_inbox_applyAll {changes}
    {account account' : Account} (h : account.applyAll changeId changes = some account')
    (hinbox : (find INBOX_ID account.mailboxes).isSome) :
    (find INBOX_ID account'.mailboxes).isSome := by
  induction changes generalizing account with
  | nil =>
    cases h
    exact hinbox
  | cons change changes ih =>
    unfold Account.applyAll at h
    rw [foldlM_cons, Option.bind_eq_bind, Option.bind_eq_some_iff] at h
    obtain ⟨account₁, hfirst, hrest⟩ := h
    exact ih hrest (find_inbox_apply hfirst hinbox)

end MailServer.Cache
