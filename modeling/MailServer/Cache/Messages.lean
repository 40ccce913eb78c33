import MailServer.Lib.Run
import MailServer.Cache.Build

/-!
# The message cache across runs

`get_cached_messages` (`email/src/cache/mod.rs`) between the batches that are committed to an
account and the truncations of its change log.

Principal results: `Inv.getCachedMessages`, `cached_of_run`.
-/

namespace MailServer.Cache

open InsertionMap MailServer.Store Runs List

/-! ## Calls -/

/-- The orders in which the two maps of a call are iterated. -/
structure HashOrder where
  items : InsertionMap UInt32 Bool → List (UInt32 × Bool)
  containers : InsertionMap UInt32 Bool → List (UInt32 × Bool)
  items_perm : ∀ changed, (items changed).Perm changed
  containers_perm : ∀ changed, (containers changed).Perm changed

/-- An account, its change log and its cache; `changeId` is the last change id that was given
out. -/
structure Server where
  account : Account
  log : List LogEntry
  changeId : ℕ
  cache : Option MessageStoreCache

/-- Commits a batch whose changes write the calls `b` to the log. -/
def Server.commit (s : Server) (b : Committed) (changes : List RecordChange) : Option Server := do
  let account ← s.account.applyAll b.changeId changes
  if b.batch.calls = changes.flatMap RecordChange.calls ∧ s.changeId < b.changeId ∧
      b.changeId ≤ 2 ^ 64 - 1 then
    some { s with account := account, log := s.log ++ [b.entry], changeId := b.changeId }
  else none

def Server.createSystemFolders (s : Server) (folders : List (UInt32 × Mailbox))
    (created : Committed) : Option Server :=
  s.commit created (folders.map fun folder => .mailbox folder.1 (.insertion folder.2))

/-- `full_cache_build`; an account without mailboxes gets the system folders first, which `created`
writes to the log. -/
def Server.fullCacheBuild (s : Server) (folders : List (UInt32 × Mailbox)) (created : Committed) :
    Option (MessageStoreCache × Server) := do
  let lastChangeId := (lastChangeId s.log).getD 0
  let emails := fullEmailCacheBuild s.account.messages
  let s ← if s.account.mailboxes.isEmpty then s.createSystemFolders folders created else some s
  let mailboxes := fullMailboxCacheBuild s.account.mailboxes
  some ({ emails := { emails with changeId := lastChangeId }
          mailboxes := { mailboxes with changeId := lastChangeId }
          lastChangeId := lastChangeId }, s)

/-- What `get_cached_messages` makes of a cache and the changes since. -/
def updateCache (order : HashOrder) (account : Account) (changes : Changelog)
    (cache : MessageStoreCache) : MessageStoreCache :=
  let changedItems := changedItems changes.changes
  let changedContainers := changedContainers changes.changes
  let emails :=
    if ¬changedItems.isEmpty then
      { updateEmailCache account.messages (order.items changedItems) cache.emails with
        changeId := changes.itemChangeId.getD changes.toChangeId }
    else cache.emails
  let mailboxes :=
    if ¬changedContainers.isEmpty then
      { updateMailboxCache account.mailboxes (order.containers changedContainers)
          cache.mailboxes with
        changeId := changes.containerChangeId.getD changes.toChangeId }
    else if hasContainerPropertyChanges changes.changes then
      { cache.mailboxes with changeId := changes.containerChangeId.getD changes.toChangeId }
    else cache.mailboxes
  { emails := emails, mailboxes := mailboxes, lastChangeId := changes.toChangeId }

/-- A full build whose result is kept. -/
def Server.rebuild (s : Server) (folders : List (UInt32 × Mailbox)) (created : Committed) :
    Option (MessageStoreCache × Server) := do
  let (cache, s) ← s.fullCacheBuild folders created
  some (cache, { s with cache := some cache })

def Server.getCachedMessages (s : Server) (folders : List (UInt32 × Mailbox)) (order : HashOrder)
    (created : Committed) : Option (MessageStoreCache × Server) :=
  match s.cache with
  | none => s.rebuild folders created
  | some cache => do
    let changes ← changesSince false s.log (.since cache.lastChangeId)
    if changes.isTruncated then s.rebuild folders created
    else if changes.changes.isEmpty then some (cache, s)
    else if cache.lastChangeId ≥ changes.toChangeId then some (cache, s)
    else
      let cache := updateCache order s.account changes cache
      some (cache, { s with cache := some cache })

/-! ## Runs -/

inductive Event where
  | commit (b : Committed) (changes : List RecordChange)
  | deleteChanges (maxEntries : ℕ)
  | evict
  | getCachedMessages (order : HashOrder) (created : Committed)

/-- A batch is committed, the change log is truncated, the cache is dropped, or it is asked for. -/
def Server.step (folders : List (UInt32 × Mailbox)) (s : Server) : Event → Option Server
  | .commit b changes => s.commit b changes
  | .deleteChanges maxEntries => some { s with log := deleteChanges maxEntries s.log }
  | .evict => some { s with cache := none }
  | .getCachedMessages order created =>
    (s.getCachedMessages folders order created).map Prod.snd

/-- The cache is that of an earlier account, and the log has what happened since. -/
structure Synced (s : Server) (cache : MessageStoreCache) (account : Account)
    (pending : List Committed) : Prop where
  log : LogSince s.log cache.lastChangeId pending
  le : cache.lastChangeId ≤ s.changeId
  items : ItemsFollow account s.account (pending.flatMap fun b => b.batch.calls)
  mailboxes : MailboxesFollow account s.account (pending.flatMap fun b => b.batch.calls)
  emailsMatch : EmailsMatch cache.emails fun id => find id account.messages
  mailboxesMatch : MailboxesMatch cache.mailboxes account.mailboxes

/-- The log is in order, every document is stored once, and the cache follows the account. -/
structure Inv (s : Server) : Prop where
  sorted : s.log.Pairwise fun e e' => e.changeId < e'.changeId
  given : ∀ e ∈ s.log, e.changeId ≤ s.changeId
  bounded : s.changeId ≤ 2 ^ 64 - 1
  messages : (keys s.account.messages).Nodup
  mailboxes : (keys s.account.mailboxes).Nodup
  inbox : (find INBOX_ID s.account.mailboxes).isSome
  synced : ∀ cache, s.cache = some cache → ∃ account pending, Synced s cache account pending

/-- An account with its mailboxes and any messages, before the cache is first asked for. -/
structure Server.Started (s : Server) : Prop where
  sorted : s.log.Pairwise fun e e' => e.changeId < e'.changeId
  given : ∀ e ∈ s.log, e.changeId ≤ s.changeId
  bounded : s.changeId ≤ 2 ^ 64 - 1
  messages : (keys s.account.messages).Nodup
  mailboxes : (keys s.account.mailboxes).Nodup
  inbox : (find INBOX_ID s.account.mailboxes).isSome
  cache : s.cache = none

/-- The cache holds exactly what is stored. -/
structure Holds (cache : MessageStoreCache) (account : Account) : Prop where
  emails : EmailsMatch cache.emails fun id => find id account.messages
  mailboxes : MailboxesMatch cache.mailboxes account.mailboxes

section Steps

variable {s s' : Server} {folders : List (UInt32 × Mailbox)}

theorem Server.Started.inv (h : s.Started) : Inv s where
  sorted := h.sorted
  given := h.given
  bounded := h.bounded
  messages := h.messages
  mailboxes := h.mailboxes
  inbox := h.inbox
  synced cache hcache := by
    rw [h.cache] at hcache
    cases hcache

theorem nodup_apply {changeId : ℕ} {account account' : Account} {change : RecordChange}
    (h : account.apply changeId change = some account') (hmessages : (keys account.messages).Nodup)
    (hmailboxes : (keys account.mailboxes).Nodup) :
    (keys account'.messages).Nodup ∧ (keys account'.mailboxes).Nodup := by
  cases change with
  | message documentId index =>
    cases index <;> simp only [Account.apply, Option.ite_none_right_eq_some] at h <;>
      cases Option.some.inj h.2
    · exact ⟨nodup_keys_alter hmessages, hmailboxes⟩
    · exact ⟨nodup_keys_alter hmessages, hmailboxes⟩
    · exact ⟨nodup_keys_remove hmessages, hmailboxes⟩
  | mailbox documentId index =>
    cases index <;> simp only [Account.apply, Option.ite_none_right_eq_some] at h <;>
      cases Option.some.inj h.2
    · exact ⟨hmessages, nodup_keys_alter hmailboxes⟩
    · exact ⟨hmessages, nodup_keys_alter hmailboxes⟩
    · exact ⟨hmessages, nodup_keys_remove hmailboxes⟩

theorem nodup_applyAll {changeId : ℕ} {changes} {account account' : Account}
    (h : account.applyAll changeId changes = some account')
    (hmessages : (keys account.messages).Nodup) (hmailboxes : (keys account.mailboxes).Nodup) :
    (keys account'.messages).Nodup ∧ (keys account'.mailboxes).Nodup := by
  induction changes generalizing account with
  | nil =>
    cases h
    exact ⟨hmessages, hmailboxes⟩
  | cons change changes ih =>
    unfold Account.applyAll at h
    rw [foldlM_cons, Option.bind_eq_bind, Option.bind_eq_some_iff] at h
    obtain ⟨account₁, hfirst, hrest⟩ := h
    obtain ⟨hmessages₁, hmailboxes₁⟩ := nodup_apply hfirst hmessages hmailboxes
    exact ih hrest hmessages₁ hmailboxes₁

/-- **A batch** is written to the log, and the cache has it before it. -/
theorem Inv.commit (h : Inv s) {b : Committed} {changes}
    (hcommit : s.commit b changes = some s') : Inv s' := by
  unfold Server.commit at hcommit
  rw [Option.bind_eq_bind, Option.bind_eq_some_iff] at hcommit
  obtain ⟨account, happly, hcommit⟩ := hcommit
  rw [Option.ite_none_right_eq_some] at hcommit
  obtain ⟨⟨hcalls, hlater, hbounded⟩, hs'⟩ := hcommit
  cases hs'
  obtain ⟨hmessages, hmailboxes⟩ := nodup_applyAll happly h.messages h.mailboxes
  obtain ⟨hitems, hcontainers⟩ := follow_applyAll happly
  have hgiven : ∀ e ∈ s.log, e.changeId < b.changeId := fun e he =>
    Nat.lt_of_le_of_lt (h.given e he) hlater
  refine ⟨?_, fun e he => ?_, hbounded, hmessages, hmailboxes, find_inbox_applyAll happly h.inbox,
    fun cache hcache => ?_⟩
  · refine pairwise_append.2 ⟨h.sorted, pairwise_singleton _ _, fun e he e' he' => ?_⟩
    rw [mem_singleton.1 he']
    exact hgiven e he
  · rcases mem_append.1 he with hmem | hmem
    · exact Nat.le_of_lt (hgiven e hmem)
    · rw [mem_singleton.1 hmem]
      exact Nat.le_refl _
  · obtain ⟨before, pending, hsynced⟩ := h.synced cache hcache
    have hlast : cache.lastChangeId < b.changeId := Nat.lt_of_le_of_lt hsynced.le hlater
    have hflat : ((pending ++ [b]).flatMap fun b => b.batch.calls) =
        (pending.flatMap fun b => b.batch.calls) ++ changes.flatMap RecordChange.calls := by
      rw [flatMap_append, flatMap_singleton, hcalls]
    refine ⟨before, pending ++ [b], hsynced.log.commit hgiven hlast hbounded,
      Nat.le_of_lt hlast, ?_, ?_, hsynced.emailsMatch, hsynced.mailboxesMatch⟩
    · rw [hflat]
      exact hsynced.items.trans hitems
    · rw [hflat]
      exact hsynced.mailboxes.trans hcontainers

theorem mem_deleteChanges {maxEntries : ℕ} {log} {e : LogEntry}
    (h : e ∈ deleteChanges maxEntries log) : ∃ e' ∈ log, e'.changeId = e.changeId := by
  unfold deleteChanges at h
  split_ifs at h
  · cases hdrop : log.drop (log.length - (maxEntries + 1)) with
    | nil =>
      rw [hdrop] at h
      exact ⟨e, h, rfl⟩
    | cons first rest =>
      rw [hdrop] at h
      have hmem : ∀ e ∈ first :: rest, e ∈ log := by
        rw [← hdrop]
        exact fun e he => mem_of_mem_drop he
      rcases mem_cons.1 h with rfl | h
      · exact ⟨first, hmem first (by simp), rfl⟩
      · exact ⟨e, hmem e (by simp [h]), rfl⟩
  · exact ⟨e, h, rfl⟩

/-- **A truncation.** -/
theorem Inv.deleteChanges (h : Inv s) (maxEntries : ℕ) :
    Inv { s with log := deleteChanges maxEntries s.log } := by
  have hlog : LogSince s.log s.changeId [] :=
    .ofLe h.sorted (fun e he => Nat.le_trans (h.given e he) h.bounded) h.given
  refine ⟨(hlog.deleteChanges maxEntries).sorted, fun e he => ?_, h.bounded, h.messages,
    h.mailboxes, h.inbox, fun cache hcache => ?_⟩
  · obtain ⟨e', he', heq⟩ := mem_deleteChanges he
    rw [← heq]
    exact h.given e' he'
  · obtain ⟨account, pending, hsynced⟩ := h.synced cache hcache
    exact ⟨account, pending, hsynced.log.deleteChanges maxEntries, hsynced.le, hsynced.items,
      hsynced.mailboxes, hsynced.emailsMatch, hsynced.mailboxesMatch⟩

/-- **A full rebuild** holds what is stored and has nothing to catch up with. -/
theorem Inv.fullCacheBuild (h : Inv s) (folders : List (UInt32 × Mailbox)) (created : Committed) :
    ∃ cache, s.fullCacheBuild folders created = some (cache, s) ∧ Holds cache s.account ∧
      Synced s cache s.account [] := by
  have hmailboxes : s.account.mailboxes.isEmpty = false := by
    cases hempty : s.account.mailboxes with
    | nil =>
      have hinbox := h.inbox
      rw [hempty] at hinbox
      cases hinbox
    | cons mailbox mailboxes => rfl
  have hbounded : ∀ e ∈ s.log, e.changeId ≤ 2 ^ 64 - 1 := fun e he =>
    Nat.le_trans (h.given e he) h.bounded
  have hlog := LogSince.ofLast h.sorted hbounded
  have hle : (lastChangeId s.log).getD 0 ≤ s.changeId := by
    unfold lastChangeId
    cases hlast : s.log.getLast? with
    | none => exact Nat.zero_le _
    | some e => exact h.given e (mem_of_getLast? hlast)
  have hemails := emailsMatch_full h.messages
  let cache : MessageStoreCache :=
    { emails := { fullEmailCacheBuild s.account.messages with
        changeId := (lastChangeId s.log).getD 0 }
      mailboxes := { fullMailboxCacheBuild s.account.mailboxes with
        changeId := (lastChangeId s.log).getD 0 }
      lastChangeId := (lastChangeId s.log).getD 0 }
  have hholds : Holds cache s.account :=
    ⟨⟨hemails.nodup, hemails.table, hemails.items⟩, mailboxesMatch_full h.mailboxes⟩
  refine ⟨cache, ?_, hholds, ⟨hlog, hle, .refl _, .refl _, hholds.emails, hholds.mailboxes⟩⟩
  unfold Server.fullCacheBuild
  rw [hmailboxes]
  rfl

theorem Inv.rebuild (h : Inv s) (folders : List (UInt32 × Mailbox)) (created : Committed) :
    ∃ cache s', s.rebuild folders created = some (cache, s') ∧ Inv s' ∧
      s'.account = s.account ∧ Holds cache s.account := by
  obtain ⟨cache, hbuild, hholds, hsynced⟩ := h.fullCacheBuild folders created
  refine ⟨cache, { s with cache := some cache }, ?_, ?_, rfl, hholds⟩
  · unfold Server.rebuild
    rw [hbuild]
    rfl
  · refine ⟨h.sorted, h.given, h.bounded, h.messages, h.mailboxes, h.inbox, ?_⟩
    rintro cache' ⟨⟩
    exact ⟨s.account, [], hsynced.log, hsynced.le, hsynced.items, hsynced.mailboxes,
      hsynced.emailsMatch, hsynced.mailboxesMatch⟩

/-- **An incremental update** holds what is stored. -/
theorem Synced.updateCache {cache} {account : Account}
    {pending} (h : Synced s cache account pending) {start : Changelog}
    (hstart : start.changes = []) (order : HashOrder) :
    Holds (updateCache order s.account (start.pushAll pending) cache) s.account := by
  have hitems := changedItems_spec h.items hstart
  have hcontainers := changedContainers_spec h.mailboxes hstart
  have hitemsNodup := nodup_keys_changedItems (start.pushAll pending).changes
  have hcontainersNodup := nodup_keys_changedContainers (start.pushAll pending).changes
  have hitemsPerm := order.items_perm (changedItems (start.pushAll pending).changes)
  have hcontainersPerm := order.containers_perm (changedContainers (start.pushAll pending).changes)
  unfold Cache.updateCache
  refine ⟨?_, ?_⟩
  · dsimp only
    split_ifs with hchanged
    · -- nothing is in the map: all messages are as they were
      rw [List.isEmpty_iff] at hchanged
      have hsame : (fun id => find id s.account.messages) =
          fun id => find id account.messages := funext fun id =>
        (hitems id).1 (by rw [hchanged]; rfl)
      rw [hsame]
      exact h.emailsMatch
    · have hupdate := emailsMatch_update (nodup_keys_of_perm hitemsPerm hitemsNodup) h.emailsMatch
        (fun id hid => (hitems id).1 (by rwa [find_perm hitemsPerm hitemsNodup] at hid))
        (fun id hid => (hitems id).2 (by rwa [find_perm hitemsPerm hitemsNodup] at hid))
      exact ⟨hupdate.nodup, hupdate.table, hupdate.items⟩
  · have hkeep : (changedContainers (start.pushAll pending).changes).isEmpty →
        MailboxesMatch cache.mailboxes s.account.mailboxes := by
      intro hchanged
      rw [List.isEmpty_iff] at hchanged
      obtain ⟨items, hreads, hcache⟩ := h.mailboxesMatch
      refine ⟨items, ⟨hreads.nodup, fun id => ?_⟩, hcache⟩
      rw [hreads.same id, (hcontainers id).1 (by rw [hchanged]; rfl)]
    dsimp only
    split_ifs with hchanged hproperty
    · exact hkeep hchanged
    · exact hkeep hchanged
    · exact mailboxesMatch_update (nodup_keys_of_perm hcontainersPerm hcontainersNodup)
        h.mailboxesMatch
        (fun id hid => (hcontainers id).1
          (by rwa [find_perm hcontainersPerm hcontainersNodup] at hid))
        (fun id hid => (hcontainers id).2
          (by rwa [find_perm hcontainersPerm hcontainersNodup] at hid))

/-- **A call** returns what is stored, whichever way it takes. -/
theorem Inv.getCachedMessages (h : Inv s) (folders : List (UInt32 × Mailbox)) (order : HashOrder)
    (created : Committed) :
    ∃ cache s', s.getCachedMessages folders order created = some (cache, s') ∧ Inv s' ∧
      s'.account = s.account ∧ Holds cache s.account := by
  unfold Server.getCachedMessages
  cases hcache : s.cache with
  | none => exact h.rebuild folders created
  | some cache =>
    obtain ⟨account, pending, hsynced⟩ := h.synced cache hcache
    obtain ⟨changes, hread, hchanges⟩ := hsynced.log.read
    dsimp only
    rw [hread, Option.bind_eq_bind, Option.bind_some]
    cases htruncated : changes.isTruncated with
    | true =>
      exact h.rebuild folders created
    | false =>
      rcases hchanges with hmet | ⟨hwhole, start, hstart, rfl⟩
      · rw [htruncated] at hmet
        cases hmet
      have hholds := hsynced.updateCache hstart order
      by_cases hempty : (start.pushAll pending).changes.isEmpty
      · -- no changes: the cache as it is
        rw [if_pos hempty]
        refine ⟨cache, s, rfl, h, rfl, ?_⟩
        rw [List.isEmpty_iff] at hempty
        unfold Cache.updateCache at hholds
        rw [hempty] at hholds
        exact ⟨hholds.emails, hholds.mailboxes⟩
      · rw [if_neg hempty]
        -- the batches that were read are later than the cache
        obtain ⟨before, last, rfl⟩ : ∃ before last, pending = before ++ [last] := by
          rcases eq_nil_or_concat pending with rfl | ⟨before, last, rfl⟩
          · refine absurd ?_ hempty
            change start.changes.isEmpty
            rw [hstart]
            rfl
          · exact ⟨before, last, concat_eq_append⟩
        have hto : (start.pushAll (before ++ [last])).toChangeId = last.changeId :=
          Changelog.pushAll_toChangeId
        obtain ⟨hin, hlater, hlast⟩ := hsynced.log.le_last hwhole
        rw [hto, if_neg (Nat.not_le.2 hlater)]
        refine ⟨_, _, rfl, ?_, rfl, hholds⟩
        refine ⟨h.sorted, h.given, h.bounded, h.messages, h.mailboxes, h.inbox, ?_⟩
        rintro cache' ⟨⟩
        have hnow : (updateCache order s.account (start.pushAll (before ++ [last]))
            cache).lastChangeId = last.changeId := hto
        refine ⟨s.account, [], ⟨?_, ?_, .refl _, .refl _, hholds.emails, hholds.mailboxes⟩⟩
        · rw [hnow]
          exact .ofLe h.sorted hsynced.log.bounded hlast
        · rw [hnow]
          exact h.given last.entry hin

theorem Inv.step (h : Inv s) {event : Event} (hstep : s.step folders event = some s') : Inv s' := by
  cases event with
  | commit b changes => exact h.commit hstep
  | deleteChanges maxEntries =>
    cases hstep
    exact h.deleteChanges maxEntries
  | evict =>
    cases hstep
    refine ⟨h.sorted, h.given, h.bounded, h.messages, h.mailboxes, h.inbox, ?_⟩
    rintro cache ⟨⟩
  | getCachedMessages order created =>
    obtain ⟨cache, s₁, hcall, hinv, -⟩ := h.getCachedMessages folders order created
    have hresult : (s.getCachedMessages folders order created).map Prod.snd = some s' := hstep
    rw [hcall] at hresult
    cases hresult
    exact hinv

end Steps

/-! ## Against a full rebuild -/

/-- A message of the cache without the bits, which depend on the table. -/
def MessageCache.withoutKeywords (item : MessageCache) : List UidMailbox × UInt32 × ℕ × UInt32 :=
  (item.mailboxes, item.threadId, item.changeId, item.size)

/-- The cache says what a full rebuild says: the same messages with the same items;
`expand_keywords` gives the stored keywords, of the custom ones those in the table, which is full
when it lacks one; and the same mailboxes, with the same paths where no mailbox is numbered. -/
structure SameAsRebuilt (cache full : MessageStoreCache) (account : Account) : Prop where
  messages : ∀ id, (find id cache.emails.items).map MessageCache.withoutKeywords =
    (find id full.emails.items).map MessageCache.withoutKeywords
  keywords : ∀ id item, find id cache.emails.items = some item →
    ∃ archive keywords, find id account.messages = some archive ∧
      expandKeywords cache.emails.keywords item.keywords = some keywords ∧
      (∀ keyword, keyword ∈ keywords ↔ keyword ∈ archive.inner.keywords ∧
        ∀ name, keyword = .other name → name ∈ cache.emails.keywords) ∧
      (∀ name, Keyword.other name ∈ archive.inner.keywords → name ∉ cache.emails.keywords →
        cache.emails.keywords.length = 128 - OTHER)
  mailboxes : ∀ id, (find id cache.mailboxes.items).map MailboxCache.withoutPath =
    (find id full.mailboxes.items).map MailboxCache.withoutPath
  paths : ∀ id, ¬UnderNumbered account.mailboxes id →
    (find id cache.mailboxes.items).map MailboxCache.path =
      (find id full.mailboxes.items).map MailboxCache.path

theorem EmailsMatch.withoutKeywords {cache} {messages}
    (h : EmailsMatch cache messages) (id : UInt32) :
    (find id cache.items).map MessageCache.withoutKeywords = (messages id).map fun archive =>
      (archive.inner.mailboxes, archive.inner.threadId, archive.changeId, archive.inner.size) := by
  have hid := h.items id
  generalize find id cache.items = item at hid ⊢
  generalize messages id = archive at hid ⊢
  cases hid with
  | none => rfl
  | some hitem =>
    unfold MessageCache.withoutKeywords
    rw [Option.map_some, Option.map_some, hitem.mailboxes, hitem.threadId, hitem.changeId,
      hitem.size]

/-- **Two caches of one account** say the same. -/
theorem Holds.sameAsRebuilt {cache full} {account : Account}
    (h : Holds cache account) (hfull : Holds full account) :
    SameAsRebuilt cache full account := by
  obtain ⟨items, hreads, hitems⟩ := h.mailboxes
  obtain ⟨items', hreads', hitems'⟩ := hfull.mailboxes
  refine ⟨fun id => ?_, fun id item hitem => ?_, fun id => ?_, fun id hnot => ?_⟩
  · rw [h.emails.withoutKeywords, hfull.emails.withoutKeywords]
  · have hid := h.emails.items id
    rw [hitem] at hid
    cases harchive : find id account.messages with
    | none =>
      rw [harchive] at hid
      cases hid
    | some archive =>
      rw [harchive] at hid
      cases hid with
      | some hreflects =>
        obtain ⟨keywords, hexpand, hmem⟩ := expandKeywords_of_shown hreflects.keywords
        exact ⟨archive, keywords, rfl, hexpand, hmem, hreflects.keywords.missing⟩
  · rw [hitems, hitems', (reads_buildTree hreads).same, (reads_buildTree hreads').same]
  · rw [hitems, hitems']
    exact path_congr hreads hreads' hnot

/-- **The cache across runs.** However batches, truncations of the log and calls follow each other,
a call returns a cache that says what a full rebuild says. -/
theorem cached_of_run {folders : List (UInt32 × Mailbox)} {s s' : Server} {events : List Event}
    (hstart : s.Started) (hrun : exec (Server.step folders) s events = some s')
    (order : HashOrder) (created : Committed) :
    ∃ cache next full again, s'.getCachedMessages folders order created = some (cache, next) ∧
      s'.fullCacheBuild folders created = some (full, again) ∧
      SameAsRebuilt cache full s'.account := by
  have halways : Along (Server.step folders) (fun _ _ => True) s events :=
    Along.of_forall (fun _ _ => trivial) _ _
  have hinv : Inv s' :=
    exec_invariant_of_some (fun _ _ _ h _ hstep => Inv.step h hstep) hstart.inv halways hrun
  obtain ⟨cache, next, hcall, -, -, hholds⟩ := hinv.getCachedMessages folders order created
  obtain ⟨full, hbuild, hfull, -⟩ := hinv.fullCacheBuild folders created
  exact ⟨cache, next, full, s', hcall, hbuild, hholds.sameAsRebuilt hfull⟩

def inboxMailbox : Mailbox := ⟨"Inbox", .inbox, 0, none, 1, [], []⟩

def plainMailbox (name : String) : Mailbox := ⟨name, .none, 0, none, 1, [], []⟩

/-- Both maps in the order in which they were filled. -/
def HashOrder.filled : HashOrder where
  items changed := changed
  containers changed := changed
  items_perm _ := List.Perm.refl _
  containers_perm _ := List.Perm.refl _

/-- An update of mailbox 3 in the log. -/
def mailboxUpdated : Committed :=
  ⟨1, [.containerUpdate 3], ⟨.empty, .one 3, .empty, .empty, .empty, .empty, .empty⟩⟩

/-- An inbox and a root mailbox of its name. -/
def twoInboxes : Server :=
  ⟨⟨[], [(0, inboxMailbox), (3, plainMailbox "inbox")]⟩, [], 0, none⟩

def twoInboxesEvents : List Event :=
  [.getCachedMessages .filled mailboxUpdated,
    .commit mailboxUpdated
      [.mailbox 3 (.update (plainMailbox "inbox") (plainMailbox "INBOX"))]]

theorem cached_of_run_twoInboxes :
    ∃ s', exec (Server.step []) twoInboxes twoInboxesEvents = some s' ∧
      ∃ cache next full again, s'.getCachedMessages [] .filled mailboxUpdated = some (cache, next) ∧
        s'.fullCacheBuild [] mailboxUpdated = some (full, again) ∧
        SameAsRebuilt cache full s'.account := by
  have hstart : twoInboxes.Started :=
    ⟨List.Pairwise.nil, by simp [twoInboxes], by decide, by decide, by decide, by decide, rfl⟩
  have hruns : (exec (Server.step []) twoInboxes twoInboxesEvents).isSome := by
    decide +kernel
  obtain ⟨s', hrun⟩ := Option.isSome_iff_exists.1 hruns
  exact ⟨s', hrun, cached_of_run hstart hrun .filled mailboxUpdated⟩

/-- A message with a hundred custom keywords. -/
def hundredKeywords : List Keyword :=
  (range 100).map fun i => .other (String.ofList (replicate i 'k'))

def crowdedServer : Server :=
  ⟨⟨[(0, ⟨0, ⟨[], hundredKeywords, 1, 1⟩⟩)], [(0, inboxMailbox)]⟩, [], 0, none⟩

/-- **Of a hundred custom keywords** the table has no room for one. -/
theorem hundredKeywords_dropped :
    ((crowdedServer.getCachedMessages [] .filled mailboxUpdated).bind fun r =>
        (find 0 r.1.emails.items).bind fun item =>
          (expandKeywords r.1.emails.keywords item.keywords).map fun keywords =>
            decide (∀ keyword ∈ hundredKeywords, keyword ∈ keywords)) = some false := by
  have hstart : crowdedServer.Started :=
    ⟨List.Pairwise.nil, by simp [crowdedServer], by decide, by decide, by decide, by decide, rfl⟩
  obtain ⟨cache, next, hcall, -, -, hholds⟩ :=
    hstart.inv.getCachedMessages [] .filled mailboxUpdated
  have hmessage := hholds.emails.items 0
  rw [hcall, Option.bind_some]
  generalize find 0 cache.emails.items = found at hmessage ⊢
  cases hmessage with
  | some hreflects =>
    obtain ⟨keywords, hexpand, hmem⟩ := expandKeywords_of_shown hreflects.keywords
    rw [Option.bind_some, hexpand, Option.map_some, Option.some_inj, decide_eq_false_iff_not]
    intro hall
    have hknown : (range 100).map (fun i => String.ofList (replicate i 'k')) ⊆
        cache.emails.keywords := by
      intro name hname
      obtain ⟨i, hi, rfl⟩ := mem_map.1 hname
      exact ((hmem _).1 (hall _ (mem_map_of_mem hi))).2 _ rfl
    have hnodup : ((range 100).map fun i => String.ofList (replicate i 'k')).Nodup :=
      nodup_range.map fun i j hij => by simpa using congrArg String.length hij
    have hle := (subperm_of_subset hnodup hknown).length_le
    have htable := hholds.emails.table.length_le
    rw [length_map, length_range] at hle
    unfold OTHER at htable
    omega

/-- The system folders of an account in the log, and the removal of one of them. -/
def foldersCreated : Committed :=
  ⟨1, [.containerInsert 0, .containerInsert 3],
    ⟨⟨[0, 3], by decide, by simp [Changes.build, Changes.log, Changes.empty, or_comm], by decide⟩,
      .empty, .empty, .empty, .empty, .empty, .empty⟩⟩

def folderDestroyed : Committed :=
  ⟨2, [.containerDelete 3], ⟨.empty, .empty, .empty, .one 3, .empty, .empty, .empty⟩⟩

def systemFolders : List (UInt32 × Mailbox) := [(0, inboxMailbox), (3, plainMailbox "Drafts")]

def cachedPath (id : UInt32) (r : MessageStoreCache × Server) : Option String :=
  (find id r.1.mailboxes.items).map MailboxCache.path

/-- A numbered mailbox has another path than after a full rebuild, of a hundred custom keywords one
is not given back, and a system folder that is destroyed before the second call stays in the cache.
-/
theorem cache_differs :
    ((exec (Server.step []) twoInboxes twoInboxesEvents).bind fun s =>
        (s.getCachedMessages [] .filled mailboxUpdated).map (cachedPath 3)) =
      some (some "INBOX 1") ∧
    ((exec (Server.step []) twoInboxes twoInboxesEvents).bind fun s =>
        (s.fullCacheBuild [] mailboxUpdated).map (cachedPath 3)) = some (some "INBOX 2") ∧
    ((crowdedServer.getCachedMessages [] .filled mailboxUpdated).bind fun r =>
        (find 0 r.1.emails.items).bind fun item =>
          (expandKeywords r.1.emails.keywords item.keywords).map fun keywords =>
            decide (∀ keyword ∈ hundredKeywords, keyword ∈ keywords)) = some false ∧
    ((exec (Server.step systemFolders) ⟨⟨[], []⟩, [], 0, none⟩
        [.getCachedMessages .filled foldersCreated,
          .commit folderDestroyed [.mailbox 3 (.deletion (plainMailbox "Drafts"))]]).bind fun s =>
        (s.getCachedMessages systemFolders .filled mailboxUpdated).map (cachedPath 3)) =
      some (some "Drafts") ∧
    ((exec (Server.step systemFolders) ⟨⟨[], []⟩, [], 0, none⟩
        [.getCachedMessages .filled foldersCreated,
          .commit folderDestroyed [.mailbox 3 (.deletion (plainMailbox "Drafts"))]]).bind fun s =>
        (s.fullCacheBuild systemFolders mailboxUpdated).map (cachedPath 3)) = some none := by
  refine ⟨?_, ?_, hundredKeywords_dropped, ?_, ?_⟩ <;> decide +kernel

end MailServer.Cache
