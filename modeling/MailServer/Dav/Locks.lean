import MailServer.Lib.PathHeads
import MailServer.Store.ValueClass
import Mathlib.Data.List.DropRight

/-!
# Stored locks

The locks of an account's DAV collections and the caches through which a request reads them
(`dav/src/common/lock.rs`, `dav/src/common/uri.rs`).

Principal results: `mem_findLocks`, `lockData_of_extends`, `findCachePos_spec`.
-/

namespace MailServer.Dav

open List
open MailServer.Store (Collection)
open PathHeads

/-- A path or a token, as the characters of the string. -/
abbrev Str := List Char

/-! ## Collections -/

def mainCollection : Collection → Collection
  | .email => .mailbox
  | .calendarEvent => .calendar
  | .contactCard => .addressBook
  | c => c

def childCollection : Collection → Option Collection
  | .mailbox => some .email
  | .calendar => some .calendarEvent
  | .addressBook => some .contactCard
  | .fileNode => some .fileNode
  | .calendarEventNotification => some .calendarEventNotification
  | _ => none

/-! ## Tokens -/

inductive Urn where
  | lock (id : UInt64)
  | sync (id : UInt64) (seq : UInt32)

def DAVLOCK : Str := "urn:stalwart:davlock:".toList

def DAVSYNC : Str := "urn:stalwart:davsync:".toList

/-- `{:x}`. -/
def hex (n : ℕ) : Str := Nat.toDigits 16 n

/-- `Urn::fmt`. -/
def Urn.toStr : Urn → Str
  | .lock id => DAVLOCK ++ hex id.toNat
  | .sync id seq =>
    if seq = 0 then DAVSYNC ++ hex id.toNat else DAVSYNC ++ hex id.toNat ++ ':' :: hex seq.toNat

/-- `Urn::try_extract_sync_id`: the token up to the first colon after the prefix. -/
def tryExtractSyncId (token : Str) : Option Str :=
  if DAVSYNC.isPrefixOf token then some ((token.drop DAVSYNC.length).takeWhile (· ≠ ':')) else none

/-! ## Locks -/

structure LockItem where
  lockId : UInt64
  owner : UInt32
  expires : UInt64
  depthInfinity : Bool
  exclusive : Bool
deriving DecidableEq

def LockItem.urn (lock : LockItem) : Urn := .lock lock.lockId

/-- The locks of the paths of one account and collection. -/
structure LockData where
  locks : List (Str × List LockItem)
  nodup : (locks.map Prod.fst).Nodup

def LockData.get (data : LockData) (path : Str) : List LockItem := (data.locks.lookup path).getD []

def LockData.findLocks (data : LockData) (now : UInt64) (resource : Str)
    (includeChildren : Bool) : List (Str × LockItem) :=
  ((resource :: heads '/' resource).flatMap fun resourcePart =>
      ((data.get resourcePart).filter fun lock =>
        decide (now < lock.expires) && (resource == resourcePart || lock.depthInfinity)).map
          (resourcePart, ·)) ++
    if includeChildren then
      data.locks.flatMap fun entry =>
        if (resource ++ ['/']).isPrefixOf entry.1 then
          (entry.2.filter fun lock => decide (now < lock.expires)).map (entry.1, ·)
        else []
    else []

theorem LockData.mem_get {data : LockData} {path : Str} {lock : LockItem} :
    lock ∈ data.get path ↔ ∃ items, (path, items) ∈ data.locks ∧ lock ∈ items := by
  have hnodup := data.nodup
  unfold get
  generalize data.locks = locks at hnodup
  induction locks with
  | nil => simp
  | cons entry rest ih =>
    obtain ⟨key, items⟩ := entry
    rw [map_cons, nodup_cons] at hnodup
    by_cases hkey : path = key
    · subst hkey
      rw [lookup_cons_self]
      refine ⟨fun h => ⟨items, .head _, h⟩, ?_⟩
      rintro ⟨items', hmem, hlock⟩
      rcases mem_cons.1 hmem with heq | hmem
      · rw [Prod.mk.injEq] at heq
        exact heq.2 ▸ hlock
      · exact absurd (mem_map_of_mem hmem) hnodup.1
    · rw [lookup_cons, show (path == key) = false from beq_eq_false_iff_ne.2 hkey]
      refine (ih hnodup.2).trans ⟨?_, ?_⟩
      · rintro ⟨items', hmem, hlock⟩
        exact ⟨items', .tail _ hmem, hlock⟩
      · rintro ⟨items', hmem, hlock⟩
        rcases mem_cons.1 hmem with heq | hmem
        · rw [Prod.mk.injEq] at heq
          cases hkey heq.1
        · exact ⟨items', hmem, hlock⟩

/-- **The locks reported for a path are the active ones on it, those of infinite depth above it
and, when asked for, all below it.** -/
theorem mem_findLocks {data : LockData} {now : UInt64} {resource path : Str}
    {includeChildren : Bool} {lock : LockItem} :
    (path, lock) ∈ data.findLocks now resource includeChildren ↔
      lock ∈ data.get path ∧ now < lock.expires ∧
        (path = resource ∨ (lock.depthInfinity ∧ ∃ rest, resource = path ++ '/' :: rest) ∨
          (includeChildren ∧ ∃ rest, path = resource ++ '/' :: rest)) := by
  have habove : (path, lock) ∈ ((resource :: heads '/' resource).flatMap fun resourcePart =>
      ((data.get resourcePart).filter fun lock =>
        decide (now < lock.expires) && (resource == resourcePart || lock.depthInfinity)).map
          (resourcePart, ·)) ↔
      lock ∈ data.get path ∧ now < lock.expires ∧
        (path = resource ∨ (lock.depthInfinity ∧ ∃ rest, resource = path ++ '/' :: rest)) := by
    simp only [mem_flatMap, mem_map, mem_filter, mem_cons, Prod.mk.injEq,
      Bool.and_eq_true, Bool.or_eq_true, decide_eq_true_eq, beq_iff_eq]
    constructor
    · rintro ⟨part, hpart, item, ⟨hmem, hactive, hdepth⟩, rfl, rfl⟩
      refine ⟨hmem, hactive, ?_⟩
      rcases hpart with rfl | hhead
      · exact .inl rfl
      · rcases hdepth with rfl | hdepth
        · exact .inl rfl
        · exact .inr ⟨hdepth, mem_heads.1 hhead⟩
    · rintro ⟨hmem, hactive, rfl | ⟨hdepth, hhead⟩⟩
      · exact ⟨path, .inl rfl, lock, ⟨hmem, hactive, .inl rfl⟩, rfl, rfl⟩
      · exact ⟨path, .inr (mem_heads.2 hhead), lock, ⟨hmem, hactive, .inr hdepth⟩, rfl, rfl⟩
  have hbelow : (path, lock) ∈ (data.locks.flatMap fun entry =>
        if (resource ++ ['/']).isPrefixOf entry.1 then
          (entry.2.filter fun lock => decide (now < lock.expires)).map (entry.1, ·)
        else []) ↔
      lock ∈ data.get path ∧ now < lock.expires ∧ ∃ rest, path = resource ++ '/' :: rest := by
    rw [LockData.mem_get, mem_flatMap]
    constructor
    · rintro ⟨entry, hentry, hmem⟩
      by_cases hprefix : (resource ++ ['/']).isPrefixOf entry.1
      · rw [if_pos hprefix] at hmem
        simp only [mem_map, mem_filter, decide_eq_true_eq] at hmem
        obtain ⟨item, ⟨hitem, hactive⟩, rfl, rfl⟩ := hmem
        obtain ⟨rest, hrest⟩ := isPrefixOf_iff_prefix.1 hprefix
        exact ⟨⟨entry.2, hentry, hitem⟩, hactive, rest, by
          rw [← hrest, append_assoc, singleton_append]⟩
      · rw [if_neg hprefix] at hmem
        cases hmem
    · rintro ⟨⟨items, hentry, hitem⟩, hactive, rest, rfl⟩
      have hprefix : (resource ++ ['/']).isPrefixOf (resource ++ '/' :: rest) :=
        isPrefixOf_iff_prefix.2
          ⟨rest, by rw [append_assoc, singleton_append]⟩
      refine ⟨_, hentry, ?_⟩
      rw [if_pos hprefix]
      exact mem_map_of_mem (mem_filter.2 ⟨hitem, decide_eq_true hactive⟩)
  unfold LockData.findLocks
  rw [mem_append, habove]
  cases includeChildren with
  | false =>
    simp only [Bool.false_eq_true, if_false, not_mem_nil, or_false, false_and]
  | true =>
    simp only [if_true, true_and]
    rw [hbelow]
    constructor
    · rintro (⟨h, ha, hp⟩ | ⟨h, ha, hp⟩)
      · exact ⟨h, ha, hp.elim .inl (fun hp => .inr (.inl hp))⟩
      · exact ⟨h, ha, .inr (.inr hp)⟩
    · rintro ⟨h, ha, hp | hp | hp⟩
      · exact .inl ⟨h, ha, .inl hp⟩
      · exact .inl ⟨h, ha, .inr hp⟩
      · exact .inr ⟨h, ha, hp⟩

/-! ## Resources and the server -/

structure ResourceState where
  accountId : UInt32
  collection : Collection
  documentId : Option UInt32 := none
  etag : Option String := none
  lockTokens : List Str := []
  syncToken : Option Str := none
  path : Str

/-- An address with the account and the path that it may leave out. -/
structure UnresolvedUri where
  collection : Collection
  accountId : Option UInt32
  resource : Option Str

/-- What a request reads: the time, the lock data of an account and a main collection, what an
address stands for, the access rights, and the stored documents. -/
structure DavServer where
  now : UInt64
  keyGet : UInt32 → Collection → Option LockData
  validateUri : Str → Option UnresolvedUri
  hasAccess : UInt32 → Collection → Bool
  mapUriResource : UInt32 → Collection → Str → Option UInt32
  archiveEtag : UInt32 → Collection → UInt32 → Option String
  highestChangeId : UInt32 → Collection → UInt64

/-! ## Caches -/

structure LockCache where
  accountId : UInt32
  collection : Collection
  lockArchive : LockData

abbrev LockCaches := List LockCache

/-- The cache holds the locks of the resource's account and main collection. -/
def LockCache.holds (resourceState : ResourceState) (cache : LockCache) : Bool :=
  resourceState.accountId == cache.accountId &&
    mainCollection resourceState.collection == mainCollection cache.collection

def isCached (caches : LockCaches) (resourceState : ResourceState) : Option ℕ :=
  caches.findIdx? (·.holds resourceState)

/-- `LockCaches::insert_lock_data`, and whether there was any. -/
def insertLockData (server : DavServer) (caches : LockCaches) (resourceState : ResourceState) :
    LockCaches × Bool :=
  match server.keyGet resourceState.accountId (mainCollection resourceState.collection) with
  | some lockArchive =>
    (caches ++ [⟨resourceState.accountId, resourceState.collection, lockArchive⟩], true)
  | none => (caches, false)

def findCachePos (server : DavServer) (caches : LockCaches) (resourceState : ResourceState) :
    Option ℕ × LockCaches :=
  match isCached caches resourceState with
  | some idx => (some idx, caches)
  | none =>
    if resourceState.collection ≠ .none then
      match insertLockData server caches resourceState with
      | (caches, true) => (some (caches.length - 1), caches)
      | (caches, false) => (none, caches)
    else (none, caches)

def findLocksByPos (server : DavServer) (caches : LockCaches) (pos : ℕ)
    (resourceState : ResourceState) (includeChildren : Bool) : List (Str × LockItem) :=
  match caches[pos]? with
  | some cache => cache.lockArchive.findLocks server.now resourceState.path includeChildren
  | none => []

/-- The step of the loop that adds the lock data of the resources to the caches. -/
def addLockData (server : DavServer) (caches : LockCaches) (resource : ResourceState) :
    LockCaches :=
  match isCached caches resource with
  | some _ => caches
  | none => (insertLockData server caches resource).1

/-- The lock data read for a resource: the cached one, else the stored one. -/
def lockData (server : DavServer) (caches : LockCaches) (resourceState : ResourceState) :
    Option LockData :=
  match caches.find? (·.holds resourceState) with
  | some cache => some cache.lockArchive
  | none => server.keyGet resourceState.accountId (mainCollection resourceState.collection)

/-- The locks reported for a resource. -/
def locksOn (server : DavServer) (caches : LockCaches) (resourceState : ResourceState)
    (includeChildren : Bool) : List (Str × LockItem) :=
  match lockData server caches resourceState with
  | some data => data.findLocks server.now resourceState.path includeChildren
  | none => []

/-- More lock data has been loaded from the store. -/
def Extends (server : DavServer) (caches caches' : LockCaches) : Prop :=
  ∃ loaded, caches' = caches ++ loaded ∧ ∀ cache ∈ loaded,
    server.keyGet cache.accountId (mainCollection cache.collection) = some cache.lockArchive

variable {server : DavServer} {caches caches' caches'' : LockCaches} {r : ResourceState}

theorem Extends.refl (server : DavServer) (caches : LockCaches) : Extends server caches caches :=
  ⟨[], (append_nil caches).symm, nofun⟩

theorem Extends.trans (h : Extends server caches caches') (h' : Extends server caches' caches'') :
    Extends server caches caches'' := by
  obtain ⟨loaded, rfl, hloaded⟩ := h
  obtain ⟨loaded', rfl, hloaded'⟩ := h'
  exact ⟨loaded ++ loaded', append_assoc _ _ _, fun cache hmem =>
    (mem_append.1 hmem).elim (hloaded cache) (hloaded' cache)⟩

theorem LockCache.holds_iff {cache : LockCache} :
    cache.holds r ↔ r.accountId = cache.accountId ∧
      mainCollection r.collection = mainCollection cache.collection := by
  unfold LockCache.holds
  rw [Bool.and_eq_true, beq_iff_eq, beq_iff_eq]

/-- **Loading further lock data changes what is read for no resource.** -/
theorem lockData_of_extends (h : Extends server caches caches') :
    lockData server caches' r = lockData server caches r := by
  obtain ⟨loaded, rfl, hloaded⟩ := h
  unfold lockData
  rw [List.find?_append]
  cases hcached : caches.find? (·.holds r) with
  | some cache => rfl
  | none =>
    cases hfound : loaded.find? (·.holds r) with
    | none => rfl
    | some cache =>
      have hholds := LockCache.holds_iff.1 (List.find?_some hfound)
      change some cache.lockArchive = _
      rw [hholds.1, hholds.2]
      exact (hloaded cache (List.mem_of_find?_eq_some hfound)).symm

theorem locksOn_of_extends (h : Extends server caches caches') (includeChildren : Bool) :
    locksOn server caches' r includeChildren = locksOn server caches r includeChildren := by
  unfold locksOn
  rw [lockData_of_extends h]

theorem isCached_spec {idx : ℕ} (h : isCached caches r = some idx) :
    ∃ cache, caches[idx]? = some cache ∧ caches.find? (·.holds r) = some cache := by
  unfold isCached at h
  rw [List.findIdx?_eq_some_iff_getElem] at h
  obtain ⟨hlt, hholds, hfirst⟩ := h
  exact ⟨caches[idx], List.getElem?_eq_getElem hlt,
    List.find?_eq_some_iff_getElem.2 ⟨hholds, idx, hlt, rfl, fun j hj => by
      rw [Bool.not_eq_true', Bool.eq_false_iff]
      exact hfirst j hj⟩⟩

theorem isCached_eq_none : isCached caches r = none ↔ caches.find? (·.holds r) = none := by
  unfold isCached
  rw [List.findIdx?_eq_none_iff, List.find?_eq_none]
  exact forall₂_congr fun _ _ => Bool.not_eq_true _ ▸ Iff.rfl

theorem insertLockData_extends (server : DavServer) (caches : LockCaches) (r : ResourceState) :
    Extends server caches (insertLockData server caches r).1 := by
  unfold insertLockData
  cases hget : server.keyGet r.accountId (mainCollection r.collection) with
  | none => exact Extends.refl server caches
  | some data =>
    refine ⟨_, rfl, fun cache hmem => ?_⟩
    rw [mem_singleton] at hmem
    rw [hmem]
    exact hget

/-- The store has no more lock data for the resource than the caches do. -/
def Loaded (server : DavServer) (caches : LockCaches) (r : ResourceState) : Prop :=
  isCached caches r = none →
    server.keyGet r.accountId (mainCollection r.collection) = none

theorem Loaded.extends (h : Loaded server caches r) (hext : Extends server caches caches') :
    Loaded server caches' r := by
  intro hnone
  obtain ⟨loaded, rfl, -⟩ := hext
  refine h (isCached_eq_none.2 ?_)
  rw [isCached_eq_none, List.find?_append, Option.or_eq_none_iff] at hnone
  exact hnone.1

/-- **The position found is that of the resource's own lock data.** -/
theorem findCachePos_spec (server : DavServer) (caches : LockCaches) (r : ResourceState)
    (includeChildren : Bool)
    (hloaded : r.collection = .none → Loaded server caches r) :
    Extends server caches (findCachePos server caches r).2 ∧
      match (findCachePos server caches r).1 with
      | some idx => findLocksByPos server (findCachePos server caches r).2 idx r includeChildren =
          locksOn server caches r includeChildren
      | none => locksOn server caches r includeChildren = [] := by
  unfold findCachePos
  cases hcached : isCached caches r with
  | some idx =>
    obtain ⟨cache, hidx, hfind⟩ := isCached_spec hcached
    refine ⟨Extends.refl server caches, ?_⟩
    simp only [findLocksByPos, hidx, locksOn, lockData, hfind]
  | none =>
    have hfind := isCached_eq_none.1 hcached
    by_cases hcollection : r.collection = .none
    · have hget := hloaded hcollection hcached
      simp only [hcollection, ne_eq, not_true_eq_false, if_false]
      refine ⟨Extends.refl server caches, ?_⟩
      simp only [locksOn, lockData, hfind, hget]
    · simp only [ne_eq, hcollection, not_false_eq_true, if_true]
      have hext := insertLockData_extends server caches r
      unfold insertLockData at hext ⊢
      cases hget : server.keyGet r.accountId (mainCollection r.collection) with
      | none =>
        refine ⟨Extends.refl server caches, ?_⟩
        simp only [locksOn, lockData, hfind, hget]
      | some data =>
        rw [hget] at hext
        refine ⟨hext, ?_⟩
        simp only [findLocksByPos, locksOn, lockData, hfind, hget, length_append,
          length_singleton, Nat.add_sub_cancel, List.getElem?_concat_length]

theorem addLockData_extends : Extends server caches (addLockData server caches r) := by
  unfold addLockData
  cases isCached caches r with
  | some idx => exact Extends.refl server caches
  | none => exact insertLockData_extends server caches r

theorem addLockData_loaded : Loaded server (addLockData server caches r) r := by
  intro hnone
  unfold addLockData at hnone
  cases hcached : isCached caches r with
  | some idx =>
    simp only [hcached] at hnone
    cases hnone
  | none =>
    simp only [hcached] at hnone
    unfold insertLockData at hnone
    cases hget : server.keyGet r.accountId (mainCollection r.collection) with
    | none => rfl
    | some data =>
      rw [hget, isCached_eq_none, List.find?_append, Option.or_eq_none_iff] at hnone
      have hnot := List.find?_eq_none.1 hnone.2 _ (.head _)
      cases hnot (LockCache.holds_iff.2 ⟨rfl, rfl⟩)

theorem foldl_addLockData (server : DavServer) (resources : List ResourceState)
    (caches : LockCaches) :
    Extends server caches (resources.foldl (addLockData server) caches) ∧
      ∀ r ∈ resources, Loaded server (resources.foldl (addLockData server) caches) r := by
  induction resources generalizing caches with
  | nil => exact ⟨Extends.refl server caches, nofun⟩
  | cons resource rest ih =>
    obtain ⟨hext, hrest⟩ := ih (addLockData server caches resource)
    refine ⟨addLockData_extends.trans hext, fun r hr => ?_⟩
    rcases mem_cons.1 hr with rfl | hr
    · exact addLockData_loaded.extends hext
    · exact hrest r hr

end MailServer.Dav
