import MailServer.Cache.Changed
import Mathlib.Data.List.Sort

/-!
# Building the message cache

The cache of an account built from its archives, and built from an older cache and the documents
that were changed since (`email/src/cache/email.rs`, `email/src/cache/mailbox.rs`).

Principal results: `emailsMatch_full`, `emailsMatch_update`, `mailboxesMatch_full`,
`mailboxesMatch_update`.
-/

namespace MailServer.Cache

open InsertionMap MailServer.Store List

/-! ## The cache -/

/-- A message of the cache, which is kept under its document id. -/
structure MessageCache where
  mailboxes : List UidMailbox
  keywords : BitVec 128
  threadId : UInt32
  changeId : ℕ
  size : UInt32

/-- The messages with the index of their document ids, and the table of custom keywords. -/
structure MessagesCache where
  changeId : ℕ
  items : InsertionMap UInt32 MessageCache
  keywords : List String

structure MailboxesCache where
  changeId : ℕ
  items : MailboxItems

structure MessageStoreCache where
  emails : MessagesCache
  mailboxes : MailboxesCache
  lastChangeId : ℕ

/-- `archives`: all documents of a collection, by their ids. -/
def archives {α : Type} (documents : InsertionMap UInt32 α) : List (UInt32 × α) :=
  documents.insertionSort fun document document' => document.1 ≤ document'.1

def insertItem (cache : MessagesCache) (documentId : UInt32) (archive : Archive) : MessagesCache :=
  let (keywords, bits) := addKeywords cache.keywords archive.inner.keywords
  { cache with
    keywords := keywords
    items := insert documentId
      { mailboxes := archive.inner.mailboxes
        keywords := bits
        threadId := archive.inner.threadId
        changeId := archive.changeId
        size := archive.inner.size } cache.items }

def fullEmailCacheBuild (messages : InsertionMap UInt32 Archive) : MessagesCache :=
  (archives messages).foldl (fun cache document => insertItem cache document.1 document.2)
    ⟨0, [], []⟩

/-- `full_mailbox_cache_build`, once there are mailboxes. -/
def fullMailboxCacheBuild (mailboxes : InsertionMap UInt32 Mailbox) : MailboxesCache where
  changeId := 0
  items := buildTree ((archives mailboxes).foldl
    (fun items document => insertMailbox items document.1 document.2) [])

/-- The loop over the changed ids in both updates: a flagged document is read again and handed to
`insert_item`. -/
def refresh {α β : Type} (insertItem : β → UInt32 → α → β) (documents : InsertionMap UInt32 α)
    (cache : β) (changed : UInt32 × Bool) : β :=
  if changed.2 then
    match find changed.1 documents with
    | some document => insertItem cache changed.1 document
    | none => cache
  else cache

/-- `update_email_cache`; the changed ids come in the order of a hash map. -/
def updateEmailCache (messages : InsertionMap UInt32 Archive) (changedIds : List (UInt32 × Bool))
    (cache : MessagesCache) : MessagesCache :=
  let newCache := changedIds.foldl (refresh insertItem messages) ⟨0, [], cache.keywords⟩
  cache.items.foldl
    (fun newCache item =>
      if (find item.1 changedIds).isNone then
        { newCache with items := insert item.1 item.2 newCache.items }
      else newCache)
    newCache

def updateMailboxCache (mailboxes : InsertionMap UInt32 Mailbox)
    (changedIds : List (UInt32 × Bool)) (cache : MailboxesCache) : MailboxesCache where
  changeId := 0
  items :=
    let newItems := changedIds.foldl (refresh insertMailbox mailboxes) []
    buildTree (cache.items.foldl
      (fun newItems item =>
        if (find item.1 changedIds).isNone then insert item.1 item.2 newItems else newItems)
      newItems)

/-! ## Maps in another order -/

section Perm

variable {α : Type} {documents documents' : InsertionMap UInt32 α}

theorem nodup_keys_of_perm (h : documents'.Perm documents) (hnodup : (keys documents).Nodup) :
    (keys documents').Nodup := (h.map Prod.fst).nodup_iff.2 hnodup

theorem find_perm (h : documents'.Perm documents) (hnodup : (keys documents).Nodup) (id : UInt32) :
    find id documents' = find id documents := by
  refine Option.ext fun document => ?_
  rw [find_eq_some (nodup_keys_of_perm h hnodup), find_eq_some hnodup]
  exact h.mem_iff

/-- The documents that are read again. -/
def refreshed (documents : InsertionMap UInt32 α) (changedIds : List (UInt32 × Bool)) :
    List (UInt32 × α) :=
  changedIds.filterMap fun changed =>
    if changed.2 then (find changed.1 documents).map (changed.1, ·) else none

theorem keys_refreshed_sublist (documents : InsertionMap UInt32 α)
    (changedIds : List (UInt32 × Bool)) :
    (keys (refreshed documents changedIds)).Sublist (keys changedIds) := by
  induction changedIds with
  | nil => exact List.Sublist.slnil
  | cons changed changedIds ih =>
    unfold refreshed
    rw [filterMap_cons]
    cases hread : (if changed.2 then (find changed.1 documents).map (changed.1, ·) else none) with
    | none => exact ih.cons _
    | some document =>
      rw [Option.ite_none_right_eq_some, Option.map_eq_some_iff] at hread
      obtain ⟨-, archive, -, rfl⟩ := hread
      exact ih.cons_cons _

theorem find_refreshed {changedIds : InsertionMap UInt32 Bool} (hnodup : (keys changedIds).Nodup)
    (id : UInt32) :
    find id (refreshed documents changedIds) =
      if find id changedIds = some true then find id documents else none := by
  induction changedIds with
  | nil => rfl
  | cons changed changedIds ih =>
    obtain ⟨hnew, hrest⟩ := nodup_cons.1 hnodup
    have ih := ih hrest
    obtain ⟨id', flag⟩ := changed
    have hsplit : find id (refreshed documents ((id', flag) :: changedIds)) =
        if id' = id ∧ flag ∧ (find id' documents).isSome then find id' documents
        else find id (refreshed documents changedIds) := by
      unfold refreshed
      rw [filterMap_cons]
      cases flag with
      | false => simp
      | true =>
        cases hfind : find id' documents with
        | none => simp
        | some document => simp [find]
    rw [hsplit, ih]
    by_cases hid : id' = id
    · subst hid
      have hlater : find id' changedIds = none := find_eq_none hnew
      have hfirst : find id' ((id', flag) :: changedIds) = some flag := if_pos rfl
      rw [hfirst, hlater]
      cases flag with
      | false => simp
      | true => cases hfind : find id' documents <;> simp
    · have hfirst : find id ((id', flag) :: changedIds) = find id changedIds := if_neg hid
      rw [hfirst, if_neg fun h => hid h.1]

theorem foldl_refreshed {β : Type} (step : β → UInt32 → α → β) (changedIds : List (UInt32 × Bool))
    (b : β) :
    changedIds.foldl (refresh step documents) b =
      (refreshed documents changedIds).foldl (fun b document => step b document.1 document.2)
        b := by
  unfold refreshed
  rw [foldl_filterMap]
  refine congrArg (fun f => changedIds.foldl f b) (funext fun b => funext fun changed => ?_)
  unfold refresh
  cases changed.2 with
  | false => rfl
  | true => cases find changed.1 documents <;> rfl

end Perm

/-! ## Messages -/

/-- The item says what the archive says, its keywords as bits. -/
structure Reflects (table : List String) (item : MessageCache) (archive : Archive) : Prop where
  mailboxes : item.mailboxes = archive.inner.mailboxes
  threadId : item.threadId = archive.inner.threadId
  changeId : item.changeId = archive.changeId
  size : item.size = archive.inner.size
  keywords : Shown archive.inner.keywords table item.keywords

theorem Reflects.grow {table table' : List String} {item : MessageCache} {archive : Archive}
    (h : Reflects table item archive) (hextends : table <+: table') (htable : IsTable table') :
    Reflects table' item archive :=
  ⟨h.mailboxes, h.threadId, h.changeId, h.size, h.keywords.grow hextends htable⟩

/-- The cache holds exactly these messages. -/
structure EmailsMatch (cache : MessagesCache) (messages : UInt32 → Option Archive) : Prop where
  nodup : (keys cache.items).Nodup
  table : IsTable cache.keywords
  items : ∀ id, Option.Rel (Reflects cache.keywords) (find id cache.items) (messages id)

section Emails

variable {cache : MessagesCache} {messages : UInt32 → Option Archive}

theorem rel_mono {α β : Type} {R S} {o : Option α} {o' : Option β}
    (h : Option.Rel R o o') (hRS : ∀ a b, R a b → S a b) : Option.Rel S o o' := by
  cases h with
  | some hab => exact .some (hRS _ _ hab)
  | none => exact .none

/-- **One message is read.** -/
theorem EmailsMatch.insertItem (h : EmailsMatch cache messages) (documentId : UInt32)
    (archive : Archive) :
    EmailsMatch (insertItem cache documentId archive)
      (fun id => if id = documentId then some archive else messages id) ∧
    cache.keywords <+: (Cache.insertItem cache documentId archive).keywords := by
  obtain ⟨htable, hextends, hshown⟩ := shown_addKeywords h.table archive.inner.keywords
  refine ⟨⟨nodup_keys_alter h.nodup, htable, fun id => ?_⟩, hextends⟩
  unfold Cache.insertItem
  rw [find_insert]
  split_ifs
  · exact .some ⟨rfl, rfl, rfl, rfl, hshown⟩
  · exact rel_mono (h.items id) fun item archive' hitem => hitem.grow hextends htable

/-- **A list of messages is read.** -/
theorem EmailsMatch.insertItems {documents}
    (h : EmailsMatch cache messages) (hnodup : (keys documents).Nodup) :
    EmailsMatch
        (documents.foldl (fun cache document => Cache.insertItem cache document.1 document.2) cache)
        (fun id => (find id documents).or (messages id)) ∧
      cache.keywords <+: (documents.foldl
        (fun cache document => Cache.insertItem cache document.1 document.2) cache).keywords := by
  induction documents generalizing cache messages with
  | nil => exact ⟨h, prefix_refl _⟩
  | cons document documents ih =>
    obtain ⟨hnew, hrest⟩ := nodup_cons.1 hnodup
    obtain ⟨hfirst, hextends⟩ := h.insertItem document.1 document.2
    obtain ⟨hall, hextends'⟩ := ih hfirst hrest
    refine ⟨?_, hextends.trans hextends'⟩
    have hsame : (fun id => (find id documents).or
        (if id = document.1 then some document.2 else messages id)) =
        fun id => (find id (document :: documents)).or (messages id) := by
      funext id
      rw [find]
      by_cases hid : id = document.1
      · subst hid
        rw [if_pos rfl, if_pos rfl, find_eq_none hnew]
        rfl
      · rw [if_neg hid, if_neg (Ne.symm hid)]
    rw [← hsame]
    exact hall

theorem emailsMatch_nil {table : List String} (htable : IsTable table) :
    EmailsMatch ⟨0, [], table⟩ fun _ => none :=
  ⟨nodup_nil, htable, fun _ => .none⟩

/-- **A full build** holds the messages that are stored. -/
theorem emailsMatch_full {documents}
    (hnodup : (keys documents).Nodup) :
    EmailsMatch (fullEmailCacheBuild documents) fun id => find id documents := by
  have hperm : (archives documents).Perm documents := perm_insertionSort _ _
  obtain ⟨hmatch, -⟩ := (emailsMatch_nil isTable_nil).insertItems (nodup_keys_of_perm hperm hnodup)
  have hsame : (fun id => (find id (archives documents)).or none) =
      fun id => find id documents := by
    funext id
    rw [Option.or_none, find_perm hperm hnodup]
  rw [← hsame]
  exact hmatch

/-- **An update** of a cache holds the messages that are stored, when what is not in the map of
changes is as it was and what has no flag there is gone. -/
theorem emailsMatch_update {before after}
    {changedIds} (hnodup : (keys changedIds).Nodup)
    (h : EmailsMatch cache fun id => find id before)
    (hsame : ∀ id, find id changedIds = none → find id after = find id before)
    (hgone : ∀ id, find id changedIds = some false → find id after = none) :
    EmailsMatch (updateEmailCache after changedIds cache) fun id => find id after := by
  have hfresh : (keys (refreshed after changedIds)).Nodup :=
    hnodup.sublist (keys_refreshed_sublist after changedIds)
  obtain ⟨hread, hextends⟩ := (emailsMatch_nil h.table).insertItems hfresh
  -- the messages that are read again, then those of the cache that were not changed
  have hupdate : ∀ new, (refreshed after changedIds).foldl
        (fun cache document => Cache.insertItem cache document.1 document.2)
        ⟨0, [], cache.keywords⟩ = new → updateEmailCache after changedIds cache =
      { new with
        items := (cache.items.filter fun item => (find item.1 changedIds).isNone).foldl
          (fun items item => InsertionMap.insert item.1 item.2 items) new.items } := by
    intro new hnew
    unfold updateEmailCache
    rw [foldl_refreshed Cache.insertItem, hnew, foldl_filter]
    clear hnew
    induction cache.items generalizing new with
    | nil => rfl
    | cons item items ih =>
      rw [foldl_cons, ih, foldl_cons]
      by_cases hkeep : (find item.1 changedIds).isNone
      · rw [if_pos hkeep, if_pos hkeep]
      · rw [if_neg hkeep, if_neg hkeep]
  generalize hnew : (refreshed after changedIds).foldl _ _ = new at hread hextends
  rw [hupdate new hnew]
  have hkept : (keys (cache.items.filter fun item => (find item.1 changedIds).isNone)).Nodup :=
    h.nodup.sublist (filter_sublist.map Prod.fst)
  refine ⟨nodup_keys_foldl_insert hread.nodup, hread.table, fun id => ?_⟩
  rw [find_foldl_insert hkept, find_filter_key fun key => (find key changedIds).isNone]
  have hitem := hread.items id
  rw [find_refreshed hnodup, Option.or_none] at hitem
  cases hflag : find id changedIds with
  | none =>
    rw [hsame id hflag]
    have hold := rel_mono (h.items id) fun item archive hitem => hitem.grow hextends hread.table
    rw [hflag] at hitem
    have hnone : find id new.items = none := by
      cases hitem' : find id new.items with
      | none => rfl
      | some item =>
        rw [hitem'] at hitem
        cases hitem
    rw [hnone, Option.or_none]
    exact hold
  | some flag =>
    rw [hflag] at hitem
    cases flag with
    | true =>
      exact hitem
    | false =>
      rw [hgone id hflag]
      exact hitem

end Emails

/-! ## Mailboxes -/

/-- The cache is the tree of exactly these mailboxes. -/
def MailboxesMatch (cache : MailboxesCache) (mailboxes : InsertionMap UInt32 Mailbox) : Prop :=
  ∃ items, Reads items mailboxes ∧ cache.items = buildTree items

theorem foldl_insertMailbox (documents : List (UInt32 × Mailbox)) (items : MailboxItems) :
    documents.foldl (fun items document => insertMailbox items document.1 document.2) items =
      (documents.map fun document => (document.1, MailboxCache.ofMailbox document.2)).foldl
        (fun items item => insert item.1 item.2 items) items := by
  rw [foldl_map]
  rfl

theorem keys_map_snd {α β : Type} (f : α → β) (documents : List (UInt32 × α)) :
    keys (documents.map fun document => (document.1, f document.2)) = keys documents := by
  unfold InsertionMap.keys
  rw [map_map]
  rfl

theorem find_map_snd {α β : Type} (f : α → β) (documents : List (UInt32 × α)) (id : UInt32) :
    find id (documents.map fun document => (document.1, f document.2)) =
      (find id documents).map f := by
  induction documents with
  | nil => rfl
  | cons document documents ih =>
    rw [map_cons, find, find, ih]
    split_ifs <;> rfl

/-- **A full build** holds the mailboxes that are stored. -/
theorem mailboxesMatch_full {documents}
    (hnodup : (keys documents).Nodup) :
    MailboxesMatch (fullMailboxCacheBuild documents) documents := by
  have hperm : (archives documents).Perm documents := perm_insertionSort _ _
  have hkeys : (keys ((archives documents).map fun document =>
      (document.1, MailboxCache.ofMailbox document.2))).Nodup := by
    rw [keys_map_snd]
    exact nodup_keys_of_perm hperm hnodup
  refine ⟨_, ⟨?_, fun id => ?_⟩, rfl⟩
  · rw [foldl_insertMailbox]
    exact nodup_keys_foldl_insert nodup_nil
  · rw [foldl_insertMailbox, find_foldl_insert hkeys, find_map_snd, find_perm hperm hnodup]
    cases find id documents <;> rfl

/-- **An update** of a cache holds the mailboxes that are stored. -/
theorem mailboxesMatch_update {cache} {before after}
    {changedIds} (hnodup : (keys changedIds).Nodup)
    (h : MailboxesMatch cache before)
    (hsame : ∀ id, find id changedIds = none → find id after = find id before)
    (hgone : ∀ id, find id changedIds = some false → find id after = none) :
    MailboxesMatch (updateMailboxCache after changedIds cache) after := by
  obtain ⟨raw, hraw, hcache⟩ := h
  have hold : Reads cache.items before := hcache ▸ reads_buildTree hraw
  refine ⟨_, ⟨?_, fun id => ?_⟩, rfl⟩
  all_goals
    rw [foldl_refreshed insertMailbox, foldl_insertMailbox]
    have hkept : ∀ new, cache.items.foldl
        (fun newItems item =>
          if (find item.1 changedIds).isNone then insert item.1 item.2 newItems else newItems) new =
        (cache.items.filter fun item => (find item.1 changedIds).isNone).foldl
          (fun items item => insert item.1 item.2 items) new := by
      intro new
      rw [foldl_filter]
    rw [hkept]
  · exact nodup_keys_foldl_insert (nodup_keys_foldl_insert nodup_nil)
  · have hrefreshed : (keys ((refreshed after changedIds).map fun document =>
        (document.1, MailboxCache.ofMailbox document.2))).Nodup := by
      rw [keys_map_snd]
      exact hnodup.sublist (keys_refreshed_sublist after changedIds)
    rw [find_foldl_insert (hold.nodup.sublist (filter_sublist.map Prod.fst)),
      find_filter_key fun key => (find key changedIds).isNone, find_foldl_insert hrefreshed,
      find_map_snd, find_refreshed hnodup]
    have hitem := hold.same id
    cases hflag : find id changedIds with
    | none =>
      rw [hsame id hflag, ← hitem]
      change ((find id cache.items).or (Option.or none none)).map _ = _
      rw [Option.or_none, Option.or_none]
    | some flag =>
      change (Option.or _ none).map _ = _
      cases flag with
      | true =>
        cases find id after <;> rfl
      | false =>
        rw [hgone id hflag]
        rfl

end MailServer.Cache
