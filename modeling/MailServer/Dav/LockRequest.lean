import MailServer.Dav.Headers
import MailServer.Dav.FileCopyMove
import MailServer.Lib.Fallible

/-!
# Lock requests

`LockRequestHandler::handle_lock_request` (`dav/src/common/lock.rs`): what a `LOCK`, a refresh or an
`UNLOCK` makes of the lock record that it has read. The owner that a lock names for display is left
out, but for its size, and so is the body of the answer.

Principal results: `covers_common_iff`, `readRequest_checked`; `LockData.mem_pushLock`,
`LockData.mem_replaceLock`, `LockData.mem_of_mem_removeLock` — what a record holds after a lock was
added, rewritten or removed.
-/

namespace MailServer.Dav

open List
open MailServer.Store (Collection)

variable {items : List LockItem} {locks : List (Str × List LockItem)}

/-! ## Tokens -/

/-- The value of a hexadecimal digit, of either case. -/
def hexDigit (c : Char) : Option ℕ :=
  if '0' ≤ c ∧ c ≤ '9' then some (c.toNat - '0'.toNat)
  else if 'a' ≤ c ∧ c ≤ 'f' then some (c.toNat - 'a'.toNat + 10)
  else if 'A' ≤ c ∧ c ≤ 'F' then some (c.toNat - 'A'.toNat + 10)
  else none

/-- `from_str_radix` of base 16, for the numbers below a bound. A plus sign may stand in front. -/
def fromStrRadix16 (bound : ℕ) (input : Str) : Option ℕ :=
  let digits := match input with
    | '+' :: rest => rest
    | digits => digits
  if digits = [] then none
  else digits.foldlM (fun n c => (hexDigit c).bind fun d =>
    if n * 16 + d < bound then some (n * 16 + d) else none) 0

def splitOnceColon (input : Str) : Option (Str × Str) :=
  match input.span (· ≠ ':') with
  | (before, _ :: after) => some (before, after)
  | (_, []) => none

def STALWART : Str := "urn:stalwart:".toList

def parseUrn (input : Str) : Option Urn :=
  if STALWART.isPrefixOf input then
    match splitOnceColon (input.drop STALWART.length) with
    | some (kind, id) =>
      if kind = "davlock".toList then
        (fromStrRadix16 (2 ^ 64) id).map fun id => .lock (UInt64.ofNat id)
      else if kind = "davsync".toList then
        match splitOnceColon id with
        | some (id, seq) =>
          (fromStrRadix16 (2 ^ 64) id).bind fun id =>
            (fromStrRadix16 (2 ^ 32) seq).map fun seq =>
              .sync (UInt64.ofNat id) (UInt32.ofNat seq)
        | none => (fromStrRadix16 (2 ^ 64) id).map fun id => .sync (UInt64.ofNat id) 0
      else none
    | none => none
  else none

def tryUnwrapLock : Urn → Option UInt64
  | .lock id => some id
  | .sync _ _ => none

/-! ## Requests -/

inductive Timeout where
  | Infinite | Second (seconds : UInt64) | None

inductive LockScope where
  | Exclusive | Shared
deriving DecidableEq

/-- What a `LOCK` asks for. Of the owner only the size is kept. -/
structure LockInfo where
  lockScope : LockScope
  ownerSize : Option ℕ
deriving DecidableEq

inductive LockRequest where
  | lock (lockInfo : LockInfo)
  | unlock
  | refresh
deriving DecidableEq

structure LockHeaders extends RequestHeaders where
  depth : Depth
  timeout : Timeout
  lockToken : Option Str

/-- The part of an access token that a lock request looks at. -/
structure LockUser where
  primaryId : UInt32
  memberOf : List UInt32
  impersonates : Bool

def LockUser.isMember (user : LockUser) (accountId : UInt32) : Bool :=
  user.primaryId == accountId || user.memberOf.contains accountId || user.impersonates

structure LockConfig where
  deadPropertySize : Option ℕ
  maxLockTimeout : UInt64
  maxLocksPerUser : ℕ

inductive LockError where
  | uri
  | headers (error : DavError)
  | FORBIDDEN | BAD_REQUEST | PAYLOAD_TOO_LARGE | TOO_MANY_REQUESTS | PRECONDITION_FAILED
  | CONFLICT
  | lockTokenSubmitted (hrefs : List Str)
  | lockTokenMatchesRequestUri

/-- The id of the first lock token among the conditions of the `If` header, or zero. -/
def LockHeaders.ifLockToken (headers : LockHeaders) : UInt64 :=
  ((headers.if_.flatMap (·.list)).findSome? fun cond =>
    match cond with
    | .stateToken _ token => (parseUrn token).bind tryUnwrapLock
    | _ => none).getD 0

def LockHeaders.isInfinity (headers : LockHeaders) : Bool := headers.depth == .Infinity

/-- The owner is larger than a property may be. -/
def LockConfig.refusesOwner (config : LockConfig) (lockInfo : LockInfo) : Bool :=
  match lockInfo.ownerSize with
  | some size => decide (config.deadPropertySize.getD 512 < size)
  | none => false

/-! ## The record -/

def LockData.empty : LockData := ⟨[], nodup_nil⟩

/-- The record with the lock added to the ones of the path. -/
def pushEntry (path : Str) (lock : LockItem) :
    List (Str × List LockItem) → List (Str × List LockItem)
  | [] => [(path, [lock])]
  | (key, items) :: rest =>
    if key = path then (key, items ++ [lock]) :: rest
    else (key, items) :: pushEntry path lock rest

/-- The first lock with the id is rewritten. -/
def replaceItem (lockId : UInt64) (f : LockItem → LockItem) : List LockItem → List LockItem
  | [] => []
  | lock :: rest =>
    if lock.lockId = lockId then f lock :: rest else lock :: replaceItem lockId f rest

/-- The first lock with the id is rewritten, in the order in which the paths are kept. -/
def replaceEntry (lockId : UInt64) (f : LockItem → LockItem) :
    List (Str × List LockItem) → List (Str × List LockItem)
  | [] => []
  | (key, items) :: rest =>
    if items.any (·.lockId == lockId) then (key, replaceItem lockId f items) :: rest
    else (key, items) :: replaceEntry lockId f rest

def swapRemove (items : List LockItem) (idx : ℕ) : List LockItem :=
  match items.getLast? with
  | some last => (items.set idx last).dropLast
  | none => []

/-- The loop of `LockData::remove_lock`. -/
def removeEntry (lockId : UInt64) : List (Str × List LockItem) → List (Str × List LockItem)
  | [] => []
  | (key, items) :: rest =>
    match items.findIdx? (·.lockId == lockId) with
    | some idx =>
      if swapRemove items idx = [] then rest else (key, swapRemove items idx) :: rest
    | none => (key, items) :: removeEntry lockId rest

/-- The locks of a path that are still active. -/
def activeEntry (now : UInt64) (entry : Str × List LockItem) : Option (Str × List LockItem) :=
  if (entry.2.filter fun lock => decide (now < lock.expires)) = [] then none
  else some (entry.1, entry.2.filter fun lock => decide (now < lock.expires))

theorem map_fst_pushEntry_subset {path key : Str} {lock : LockItem}
    {locks} (h : key ∈ (pushEntry path lock locks).map Prod.fst) :
    key = path ∨ key ∈ locks.map Prod.fst := by
  induction locks with
  | nil =>
    rw [pushEntry, map_singleton, mem_singleton] at h
    exact .inl h
  | cons entry rest ih =>
    obtain ⟨key', items⟩ := entry
    unfold pushEntry at h
    by_cases hkey : key' = path
    · rw [if_pos hkey] at h
      exact .inr h
    · rw [if_neg hkey, map_cons, mem_cons] at h
      rcases h with rfl | h
      · exact .inr (.head _)
      · exact (ih h).imp_right (mem_cons_of_mem _)

theorem nodup_pushEntry {path : Str} {lock : LockItem}
    (h : (locks.map Prod.fst).Nodup) : ((pushEntry path lock locks).map Prod.fst).Nodup := by
  induction locks with
  | nil => exact nodup_singleton path
  | cons entry rest ih =>
    obtain ⟨key, items⟩ := entry
    rw [map_cons, nodup_cons] at h
    unfold pushEntry
    by_cases hkey : key = path
    · rw [if_pos hkey, map_cons, nodup_cons]
      exact h
    · rw [if_neg hkey, map_cons, nodup_cons]
      exact ⟨fun hmem => (map_fst_pushEntry_subset hmem).elim hkey h.1, ih h.2⟩

theorem map_fst_replaceEntry (lockId : UInt64) (f : LockItem → LockItem)
    (locks : List (Str × List LockItem)) :
    (replaceEntry lockId f locks).map Prod.fst = locks.map Prod.fst := by
  induction locks with
  | nil => rfl
  | cons entry rest ih =>
    obtain ⟨key, items⟩ := entry
    unfold replaceEntry
    by_cases hany : items.any (·.lockId == lockId)
    · rw [if_pos hany, map_cons, map_cons]
    · rw [if_neg hany, map_cons, map_cons, ih]

theorem map_fst_removeEntry_sublist (lockId : UInt64) (locks : List (Str × List LockItem)) :
    ((removeEntry lockId locks).map Prod.fst).Sublist (locks.map Prod.fst) := by
  induction locks with
  | nil => exact List.Sublist.refl _
  | cons entry rest ih =>
    obtain ⟨key, items⟩ := entry
    unfold removeEntry
    cases items.findIdx? (·.lockId == lockId) with
    | none => exact ih.cons_cons key
    | some idx =>
      by_cases hempty : swapRemove items idx = []
      · simp only [hempty, if_true]
        exact sublist_cons_self key _
      · simp only [hempty]
        exact List.Sublist.refl _

theorem map_fst_activeEntry_sublist (now : UInt64) (locks : List (Str × List LockItem)) :
    ((locks.filterMap (activeEntry now)).map Prod.fst).Sublist (locks.map Prod.fst) := by
  induction locks with
  | nil => exact List.Sublist.refl _
  | cons entry rest ih =>
    rw [filterMap_cons, map_cons]
    unfold activeEntry
    by_cases hempty : (entry.2.filter fun lock => decide (now < lock.expires)) = []
    · rw [if_pos hempty]
      exact ih.trans (sublist_cons_self _ _)
    · rw [if_neg hempty]
      exact ih.cons_cons _

/-- The entry of the path, made if it is missing, with the lock added at its end. -/
def LockData.pushLock (data : LockData) (path : Str) (lock : LockItem) : LockData :=
  ⟨pushEntry path lock data.locks, nodup_pushEntry data.nodup⟩

/-- The first lock with the id, over all paths. -/
def LockData.findId (data : LockData) (lockId : UInt64) : Option LockItem :=
  (data.locks.flatMap Prod.snd).find? (·.lockId == lockId)

/-- The record with that lock rewritten. -/
def LockData.replaceLock (data : LockData) (lockId : UInt64) (f : LockItem → LockItem) :
    LockData :=
  ⟨replaceEntry lockId f data.locks, by
    rw [map_fst_replaceEntry]
    exact data.nodup⟩

/-- `LockData::remove_lock`, and whether there was such a lock. -/
def LockData.removeLock (data : LockData) (lockId : UInt64) : LockData × Bool :=
  (⟨removeEntry lockId data.locks, data.nodup.sublist (map_fst_removeEntry_sublist _ _)⟩,
    (data.findId lockId).isSome)

def LockData.removeExpired (data : LockData) (now : UInt64) : LockData :=
  ⟨data.locks.filterMap (activeEntry now), data.nodup.sublist (map_fst_activeEntry_sublist _ _)⟩

/-- The latest time at which a lock of the record expires, or zero. -/
def LockData.maxExpire (data : LockData) : UInt64 :=
  (data.locks.flatMap Prod.snd).foldl (fun maxExpire lock => max maxExpire lock.expires) 0

/-- How many locks of the record are the user's. -/
def LockData.countOwner (data : LockData) (owner : UInt32) : ℕ :=
  (data.locks.flatMap Prod.snd).countP (·.owner == owner)

def LockData.pathsOf (data : LockData) (lockId : UInt64) : List Str :=
  data.locks.flatMap fun entry =>
    (entry.2.filter (·.lockId == lockId)).map fun _ => entry.1

/-! ## Reading the record -/

/-- A request between its two accesses to the record. -/
structure Pending where
  accountId : UInt32
  collection : Collection
  resourcePath : Str
  ifLockToken : UInt64
  primaryId : UInt32
  headers : LockHeaders
  lockInfo : LockRequest
  lockData : LockData

/-- The lock found stands in the way of the one asked for. -/
def standsInTheWay (ifLockToken : UInt64) (isExclusive isInfinity : Bool) (resourcePath : Str)
    (found : Str × LockItem) : Bool :=
  ifLockToken != found.2.lockId && (found.2.exclusive || isExclusive) &&
    (found.1.length == resourcePath.length ||
      found.2.depthInfinity && decide (found.1.length < resourcePath.length) ||
      isInfinity && decide (resourcePath.length < found.1.length))

/-- The addresses of the locks in the way of a `LOCK`. -/
def failedLocks (now : UInt64) (headers : LockHeaders) (lockInfo : LockInfo)
    (resourcePath : Str) (lockData : LockData) : List Str :=
  ((lockData.findLocks now resourcePath true).filter
    (standsInTheWay headers.ifLockToken (lockInfo.lockScope == .Exclusive) headers.isInfinity
      resourcePath)).map fun found => headers.baseUri.getD [] ++ '/' :: found.1

/-- The checks of a `LOCK` against a record that exists. -/
def checkLock (now : UInt64) (config : LockConfig) (user : LockUser) (headers : LockHeaders)
    (lockInfo : LockInfo) (resourcePath : Str) (lockData : LockData) :
    Except LockError Unit :=
  if failedLocks now headers lockInfo resourcePath lockData ≠ [] then
    .error (.lockTokenSubmitted (failedLocks now headers lockInfo resourcePath lockData))
  else if config.refusesOwner lockInfo then .error .PAYLOAD_TOO_LARGE
  else if 0 < config.maxLocksPerUser ∧
      config.maxLocksPerUser ≤ lockData.countOwner user.primaryId then
    .error .TOO_MANY_REQUESTS
  else .ok ()

def checkRequest (now : UInt64) (config : LockConfig) (user : LockUser) (headers : LockHeaders)
    (resourcePath : Str) (lockData : LockData) : LockRequest → Except LockError Unit
  | .lock lockInfo => checkLock now config user headers lockInfo resourcePath lockData
  | _ => .ok ()

/-- What the request reads: the record under its account and collection, when it gets past the
checks. -/
def readRecord (server : DavServer) (config : LockConfig) (user : LockUser) (headers : LockHeaders)
    (lockInfo : LockRequest) (accountId : UInt32) (collection : Collection)
    (resourcePath : Str) : Except LockError LockData := do
  let method : DavMethod := if lockInfo = .unlock then .UNLOCK else .LOCK
  let resources : List ResourceState :=
    [{ accountId := accountId, collection := collection, path := resourcePath }]
  match server.keyGet accountId (mainCollection collection) with
  | some lockData =>
    (validateHeaders server headers.toRequestHeaders resources
      [⟨accountId, collection, lockData⟩] method).mapError .headers
    checkRequest server.now config user headers resourcePath lockData lockInfo
    .ok lockData
  | none =>
    if lockInfo = .unlock then .error .lockTokenMatchesRequestUri
    else
      (validateHeaders server headers.toRequestHeaders resources [] .LOCK).mapError .headers
      .ok LockData.empty

/-- `handle_lock_request` up to the point where it has read the record. -/
def readRequest (server : DavServer) (config : LockConfig) (user : LockUser) (headers : LockHeaders)
    (lockInfo : LockRequest) : Except LockError Pending :=
  match server.validateUri headers.uri with
  | none => .error .uri
  | some ⟨_, none, _⟩ => .error .FORBIDDEN
  | some ⟨_, some _, none⟩ => .error .CONFLICT
  | some ⟨collection, some accountId, some resourcePath⟩ =>
    if user.isMember accountId = false then .error .FORBIDDEN
    else do
      let lockData ← readRecord server config user headers lockInfo accountId collection
        resourcePath
      .ok ⟨accountId, collection, resourcePath, headers.ifLockToken, user.primaryId, headers,
        lockInfo, lockData⟩

/-! ## Writing the record -/

/-- When a lock that is made or refreshed now expires. -/
def Pending.expires (p : Pending) (config : LockConfig) (now : UInt64) : UInt64 :=
  now + match p.headers.timeout with
    | .Second seconds => min seconds config.maxLockTimeout
    | _ => config.maxLockTimeout

/-- What the request makes of a lock. `random` is the number drawn for it. -/
def Pending.rewrite (p : Pending) (config : LockConfig) (now random : UInt64) (lock : LockItem) :
    LockItem :=
  match p.lockInfo with
  | .lock lockInfo =>
    { lockId := random ^^^ p.expires config now
      owner := p.primaryId
      expires := p.expires config now
      depthInfinity := p.headers.isInfinity
      exclusive := lockInfo.lockScope == .Exclusive }
  | _ => { lock with expires := p.expires config now }

def LockItem.default : LockItem := ⟨0, 0, 0, false, false⟩

/-- The second check of the owner. -/
def Pending.refusesOwner (p : Pending) (config : LockConfig) : Bool :=
  match p.lockInfo with
  | .lock lockInfo => config.refusesOwner lockInfo
  | _ => false

/-- The lock made or rewritten, the first with the submitted id or a new one on the path, and the
record with it. -/
def Pending.upsertLock (p : Pending) (config : LockConfig) (now random : UInt64) :
    Except LockError (LockData × LockItem) :=
  if 0 < p.ifLockToken then
    match p.lockData.findId p.ifLockToken with
    | some lockItem =>
      if p.refusesOwner config then .error .PAYLOAD_TOO_LARGE
      else .ok (p.lockData.replaceLock p.ifLockToken (p.rewrite config now random),
        p.rewrite config now random lockItem)
    | none => .error .PRECONDITION_FAILED
  else if p.refusesOwner config then .error .PAYLOAD_TOO_LARGE
  else .ok (p.lockData.pushLock p.resourcePath (p.rewrite config now random LockItem.default),
    p.rewrite config now random LockItem.default)

/-- The id of the `Lock-Token` header. -/
def Pending.lockToken (p : Pending) : Option UInt64 :=
  (p.headers.lockToken.bind parseUrn).bind tryUnwrapLock

/-- The record without the lock of the `Lock-Token` header, and its id. -/
def Pending.removeLock (p : Pending) : Except LockError (LockData × UInt64) :=
  match p.lockToken with
  | none => .error .BAD_REQUEST
  | some lockId =>
    if (p.lockData.removeLock lockId).2 then .ok ((p.lockData.removeLock lockId).1, lockId)
    else .error .lockTokenMatchesRequestUri

/-- What the client is told: the lock that it has, or the id of the one that it gave up. -/
inductive Answer where
  | locked (lock : LockItem)
  | unlocked (lockId : UInt64)

/-- The rest of `handle_lock_request`: the record to store, and the answer. -/
def Pending.writeRequest (p : Pending) (config : LockConfig) (now random : UInt64) :
    Except LockError (LockData × Answer) :=
  if p.lockInfo = .unlock then
    p.removeLock.map fun r => (r.1.removeExpired now, .unlocked r.2)
  else (p.upsertLock config now random).map fun r => (r.1.removeExpired now, .locked r.2)

/-! ## Resources under a lock -/

/-- A lock on the path, of infinite depth or not, is one on the resource. -/
def Covers (path : Str) (depthInfinity : Bool) (resource : Str) : Prop :=
  resource = path ∨ depthInfinity ∧ ∃ rest, resource = path ++ '/' :: rest

/-- The locks have a resource in common, and one of them is exclusive. -/
def Conflicting (path : Str) (lock : LockItem) (path' : Str) (lock' : LockItem) : Prop :=
  (lock.exclusive ∨ lock'.exclusive) ∧
    ∃ resource, Covers path lock.depthInfinity resource ∧
      Covers path' lock'.depthInfinity resource

/-- **Two locks have a resource in common exactly when they are on one path or one of infinite
depth is above the other.** -/
theorem covers_common_iff {path path' : Str} {depthInfinity depthInfinity' : Bool} :
    (∃ resource, Covers path depthInfinity resource ∧ Covers path' depthInfinity' resource) ↔
      path = path' ∨ (depthInfinity ∧ ∃ rest, path' = path ++ '/' :: rest) ∨
        (depthInfinity' ∧ ∃ rest, path = path' ++ '/' :: rest) := by
  constructor
  · rintro ⟨resource, rfl | ⟨hdepth, rest, rfl⟩, heq | ⟨hdepth', rest', heq⟩⟩
    · exact .inl heq
    · exact .inr (.inr ⟨hdepth', rest', heq⟩)
    · exact .inr (.inl ⟨hdepth, rest, heq.symm⟩)
    · -- Both are above the resource, so the one with the shorter path is above the other.
      rcases append_eq_append_iff.1 heq with
        ⟨between, rfl, hbetween⟩ | ⟨between, rfl, hbetween⟩
      · cases between with
        | nil => exact .inl (append_nil path).symm
        | cons c between =>
          rw [cons_append, List.cons.injEq] at hbetween
          exact .inr (.inl ⟨hdepth, between, by rw [← hbetween.1]⟩)
      · cases between with
        | nil => exact .inl (append_nil path')
        | cons c between =>
          rw [cons_append, List.cons.injEq] at hbetween
          exact .inr (.inr ⟨hdepth', between, by rw [← hbetween.1]⟩)
  · rintro (rfl | ⟨hdepth, rest, rfl⟩ | ⟨hdepth, rest, rfl⟩)
    · exact ⟨path, .inl rfl, .inl rfl⟩
    · exact ⟨_, .inr ⟨hdepth, rest, rfl⟩, .inl rfl⟩
    · exact ⟨_, .inl rfl, .inr ⟨hdepth, rest, rfl⟩⟩

theorem Conflicting.symm {path path' : Str} {lock lock' : LockItem}
    (h : Conflicting path lock path' lock') : Conflicting path' lock' path lock := by
  obtain ⟨hexclusive, resource, hcovers, hcovers'⟩ := h
  exact ⟨hexclusive.symm, resource, hcovers', hcovers⟩

/-! ## What a record holds after a change -/

variable {data : LockData} {path key : Str} {lock item : LockItem} {lockId : UInt64}
  {f : LockItem → LockItem} {now : UInt64}

/-- The lock is among the ones of the path. -/
def At (locks : List (Str × List LockItem)) (key : Str) (lock : LockItem) : Prop :=
  ∃ items, (key, items) ∈ locks ∧ lock ∈ items

theorem LockData.mem_get_iff_at : lock ∈ data.get key ↔ At data.locks key lock := LockData.mem_get

theorem at_nil : ¬ At [] key lock := fun ⟨_, h, _⟩ => not_mem_nil h

theorem at_cons {rest} :
    At ((path, items) :: rest) key lock ↔ (key = path ∧ lock ∈ items) ∨ At rest key lock := by
  constructor
  · rintro ⟨items', hentry, hlock⟩
    rcases mem_cons.1 hentry with heq | hentry
    · rw [Prod.mk.injEq] at heq
      exact .inl ⟨heq.1, heq.2 ▸ hlock⟩
    · exact .inr ⟨items', hentry, hlock⟩
  · rintro (⟨rfl, hlock⟩ | ⟨items', hentry, hlock⟩)
    · exact ⟨items, .head _, hlock⟩
    · exact ⟨items', .tail _ hentry, hlock⟩

theorem LockData.mem_get_empty : lock ∉ LockData.empty.get path :=
  fun h => at_nil (LockData.mem_get_iff_at.1 h)

theorem at_pushEntry :
    At (pushEntry path item locks) key lock ↔ At locks key lock ∨ key = path ∧ lock = item := by
  induction locks with
  | nil =>
    unfold pushEntry
    rw [at_cons, mem_singleton, or_comm]
  | cons entry rest ih =>
    obtain ⟨key', items⟩ := entry
    unfold pushEntry
    by_cases hkey : key' = path
    · rw [if_pos hkey, at_cons, at_cons, mem_append, mem_singleton, and_or_left, hkey]
      constructor
      · rintro ((h | h) | h)
        · exact .inl (.inl h)
        · exact .inr h
        · exact .inl (.inr h)
      · rintro ((h | h) | h)
        · exact .inl (.inl h)
        · exact .inr h
        · exact .inl (.inr h)
    · rw [if_neg hkey, at_cons, at_cons, ih, or_assoc]

theorem LockData.mem_pushLock :
    lock ∈ (data.pushLock path item).get key ↔ lock ∈ data.get key ∨ key = path ∧ lock = item := by
  rw [LockData.mem_get_iff_at, LockData.mem_get_iff_at]
  exact at_pushEntry

theorem mem_replaceItem (h : lock ∈ replaceItem lockId f items) :
    lock ∈ items ∨ ∃ old ∈ items, old.lockId = lockId ∧ lock = f old := by
  induction items with
  | nil => exact .inl h
  | cons first rest ih =>
    unfold replaceItem at h
    by_cases hid : first.lockId = lockId
    · rw [if_pos hid] at h
      rcases mem_cons.1 h with rfl | h
      · exact .inr ⟨first, .head _, hid, rfl⟩
      · exact .inl (.tail _ h)
    · rw [if_neg hid] at h
      rcases mem_cons.1 h with rfl | h
      · exact .inl (.head _)
      · rcases ih h with h | ⟨old, hold, heq⟩
        · exact .inl (.tail _ h)
        · exact .inr ⟨old, .tail _ hold, heq⟩

theorem mem_replaceItem_of_ne (h : lock ∈ items)
    (hne : lock.lockId ≠ lockId) : lock ∈ replaceItem lockId f items := by
  induction items with
  | nil => exact h
  | cons first rest ih =>
    unfold replaceItem
    by_cases hid : first.lockId = lockId
    · rw [if_pos hid]
      rcases mem_cons.1 h with rfl | h
      · cases hne hid
      · exact .tail _ h
    · rw [if_neg hid]
      rcases mem_cons.1 h with rfl | h
      · exact .head _
      · exact .tail _ (ih h)

theorem mem_replaceItem_found {old : LockItem}
    (h : items.find? (·.lockId == lockId) = some old) : f old ∈ replaceItem lockId f items := by
  induction items with
  | nil => cases h
  | cons first rest ih =>
    unfold replaceItem
    rw [List.find?_cons] at h
    by_cases hid : first.lockId = lockId
    · simp only [hid, beq_self_eq_true] at h
      rw [if_pos hid, Option.some_inj.1 h]
      exact .head _
    · simp only [beq_eq_false_iff_ne.2 hid] at h
      rw [if_neg hid]
      exact .tail _ (ih h)

theorem mem_replaceItem_unique (hunique : (items.filter (·.lockId == lockId)).length ≤ 1)
    (h : lock ∈ replaceItem lockId f items) :
    (lock ∈ items ∧ lock.lockId ≠ lockId) ∨ ∃ old ∈ items, lock = f old := by
  induction items with
  | nil => cases h
  | cons first rest ih =>
    unfold replaceItem at h
    by_cases hid : first.lockId = lockId
    · rw [if_pos hid] at h
      rcases mem_cons.1 h with rfl | h
      · exact .inr ⟨first, .head _, rfl⟩
      · rw [filter_cons_of_pos (by simpa using hid), length_cons] at hunique
        have hnone : rest.filter (·.lockId == lockId) = [] :=
          length_eq_zero_iff.1 (by omega)
        refine .inl ⟨.tail _ h, fun heq => ?_⟩
        exact filter_eq_nil_iff.1 hnone lock h (beq_iff_eq.2 heq)
    · rw [if_neg hid] at h
      rw [filter_cons_of_neg (by simpa using hid)] at hunique
      rcases mem_cons.1 h with rfl | h
      · exact .inl ⟨.head _, hid⟩
      · rcases ih hunique h with ⟨h, hne⟩ | ⟨old, hold, heq⟩
        · exact .inl ⟨.tail _ h, hne⟩
        · exact .inr ⟨old, .tail _ hold, heq⟩

theorem LockData.mem_replaceLock (h : lock ∈ (data.replaceLock lockId f).get key) :
    lock ∈ data.get key ∨ ∃ old ∈ data.get key, old.lockId = lockId ∧ lock = f old := by
  simp only [LockData.mem_get_iff_at] at h ⊢
  unfold LockData.replaceLock at h
  simp only at h
  generalize data.locks = locks at h ⊢
  induction locks with
  | nil => cases at_nil h
  | cons entry rest ih =>
    obtain ⟨key', items⟩ := entry
    simp only [at_cons]
    unfold replaceEntry at h
    by_cases hany : items.any (·.lockId == lockId)
    · rw [if_pos hany, at_cons] at h
      rcases h with ⟨rfl, h⟩ | h
      · rcases mem_replaceItem h with h | ⟨old, hold, heq⟩
        · exact .inl (.inl ⟨rfl, h⟩)
        · exact .inr ⟨old, .inl ⟨rfl, hold⟩, heq⟩
      · exact .inl (.inr h)
    · rw [if_neg hany, at_cons] at h
      rcases h with h | h
      · exact .inl (.inl h)
      · rcases ih h with h | ⟨old, hold, heq⟩
        · exact .inl (.inr h)
        · exact .inr ⟨old, .inr hold, heq⟩

theorem LockData.mem_replaceLock_of_ne (h : lock ∈ data.get key) (hne : lock.lockId ≠ lockId) :
    lock ∈ (data.replaceLock lockId f).get key := by
  simp only [LockData.mem_get_iff_at] at h ⊢
  unfold LockData.replaceLock
  simp only
  generalize data.locks = locks at h ⊢
  induction locks with
  | nil => cases at_nil h
  | cons entry rest ih =>
    obtain ⟨key', items⟩ := entry
    rw [at_cons] at h
    unfold replaceEntry
    by_cases hany : items.any (·.lockId == lockId)
    · rw [if_pos hany, at_cons]
      exact h.imp_left fun ⟨hkey, h⟩ => ⟨hkey, mem_replaceItem_of_ne h hne⟩
    · rw [if_neg hany, at_cons]
      exact h.imp_right ih

theorem LockData.mem_replaceLock_found {old : LockItem} (h : data.findId lockId = some old) :
    ∃ key, f old ∈ (data.replaceLock lockId f).get key := by
  simp only [LockData.mem_get_iff_at]
  unfold LockData.findId at h
  unfold LockData.replaceLock
  simp only
  generalize data.locks = locks at h ⊢
  induction locks with
  | nil => cases h
  | cons entry rest ih =>
    obtain ⟨key', items⟩ := entry
    rw [flatMap_cons, List.find?_append] at h
    unfold replaceEntry
    cases hitems : items.find? (·.lockId == lockId) with
    | some first =>
      rw [hitems, Option.some_or, Option.some_inj] at h
      subst h
      have hid : (first.lockId == lockId) := by simpa using List.find?_some hitems
      have hany : items.any (·.lockId == lockId) :=
        any_eq_true.2 ⟨first, List.mem_of_find?_eq_some hitems, hid⟩
      rw [if_pos hany]
      exact ⟨key', at_cons.2 (.inl ⟨rfl, mem_replaceItem_found hitems⟩)⟩
    | none =>
      rw [hitems] at h
      have hany : ¬ items.any (·.lockId == lockId) := fun hany => by
        obtain ⟨first, hfirst, hid⟩ := any_eq_true.1 hany
        exact List.find?_eq_none.1 hitems first hfirst hid
      rw [if_neg hany]
      obtain ⟨key, hfound⟩ := ih h
      exact ⟨key, at_cons.2 (.inr hfound)⟩

theorem LockData.mem_pathsOf :
    path ∈ data.pathsOf lockId ↔ ∃ lock ∈ data.get path, lock.lockId = lockId := by
  unfold LockData.pathsOf
  simp only [LockData.mem_get, mem_flatMap, mem_map, mem_filter, beq_iff_eq]
  constructor
  · rintro ⟨entry, hentry, lock, ⟨hlock, hid⟩, rfl⟩
    exact ⟨lock, ⟨entry.2, hentry, hlock⟩, hid⟩
  · rintro ⟨lock, ⟨items, hentry, hlock⟩, hid⟩
    exact ⟨(path, items), hentry, lock, ⟨hlock, hid⟩, rfl⟩

/-- Where one lock only has the id, the record has the rewritten one on its path and no other with
that id. -/
theorem LockData.mem_replaceLock_unique (hunique : data.pathsOf lockId = [path])
    (h : lock ∈ (data.replaceLock lockId f).get key) :
    (lock ∈ data.get key ∧ lock.lockId ≠ lockId) ∨ (key = path ∧ ∃ old, lock = f old) := by
  simp only [LockData.mem_get_iff_at] at h ⊢
  unfold LockData.replaceLock at h
  simp only at h
  unfold LockData.pathsOf at hunique
  generalize data.locks = locks at h hunique ⊢
  induction locks with
  | nil => cases at_nil h
  | cons entry rest ih =>
    obtain ⟨key', items⟩ := entry
    simp only [at_cons]
    rw [flatMap_cons] at hunique
    change (items.filter (·.lockId == lockId)).map (fun _ => key') ++ _ = [path] at hunique
    unfold replaceEntry at h
    by_cases hany : items.any (·.lockId == lockId)
    · rw [if_pos hany, at_cons] at h
      obtain ⟨first, hfirst, hid⟩ := any_eq_true.1 hany
      have hmem : first ∈ items.filter (·.lockId == lockId) := mem_filter.2 ⟨hfirst, hid⟩
      have hlength := congrArg List.length hunique
      rw [length_append, length_map, length_singleton] at hlength
      have hpos := length_pos_of_mem hmem
      have hrest : rest.flatMap (fun entry =>
          (entry.2.filter (·.lockId == lockId)).map fun _ => entry.1) = [] :=
        length_eq_zero_iff.1 (by omega)
      rw [hrest, append_nil] at hunique
      have hpath : key' = path := by
        have hkey := mem_map_of_mem (f := fun _ => key') hmem
        rw [hunique, mem_singleton] at hkey
        exact hkey
      rcases h with ⟨rfl, h⟩ | h
      · rcases mem_replaceItem_unique (by omega) h with ⟨h, hne⟩ | ⟨old, -, heq⟩
        · exact .inl ⟨.inl ⟨rfl, h⟩, hne⟩
        · exact .inr ⟨hpath, old, heq⟩
      · refine .inl ⟨.inr h, fun heq => ?_⟩
        obtain ⟨items', hentry, hlock⟩ := h
        have hnone := flatMap_eq_nil_iff.1 hrest (key, items') hentry
        rw [map_eq_nil_iff, filter_eq_nil_iff] at hnone
        exact hnone lock hlock (beq_iff_eq.2 heq)
    · rw [if_neg hany, at_cons] at h
      have hnone : items.filter (·.lockId == lockId) = [] := by
        rw [filter_eq_nil_iff]
        exact fun first hfirst hid => hany (any_eq_true.2 ⟨first, hfirst, hid⟩)
      rw [hnone] at hunique
      rcases h with ⟨hkey, h⟩ | h
      · refine .inl ⟨.inl ⟨hkey, h⟩, fun heq => ?_⟩
        exact hany (any_eq_true.2 ⟨lock, h, beq_iff_eq.2 heq⟩)
      · rcases ih h hunique with ⟨h, hne⟩ | h
        · exact .inl ⟨.inr h, hne⟩
        · exact .inr h

theorem LockData.mem_of_findId {old : LockItem} (h : data.findId lockId = some old) :
    old.lockId = lockId ∧ ∃ key, old ∈ data.get key := by
  obtain ⟨entry, hentry, hold⟩ := mem_flatMap.1 (List.mem_of_find?_eq_some h)
  have hid : (old.lockId == lockId) := by simpa using List.find?_some h
  exact ⟨beq_iff_eq.1 hid, entry.1, LockData.mem_get.2 ⟨entry.2, hentry, hold⟩⟩

theorem mem_of_mem_swapRemove {idx : ℕ} (h : lock ∈ swapRemove items idx) : lock ∈ items := by
  unfold swapRemove at h
  cases hlast : items.getLast? with
  | none =>
    rw [hlast] at h
    cases h
  | some last =>
    rw [hlast] at h
    rcases mem_or_eq_of_mem_set (mem_of_mem_dropLast h) with h | rfl
    · exact h
    · exact List.mem_of_getLast? hlast

theorem mem_swapRemove_of_ne {idx : ℕ} (hlt : idx < items.length)
    (h : lock ∈ items) (hne : lock ≠ items[idx]) : lock ∈ swapRemove items idx := by
  rcases eq_nil_or_concat' items with rfl | ⟨init, last, rfl⟩
  · cases h
  · unfold swapRemove
    rw [List.getLast?_concat]
    simp only
    by_cases hidx : idx < init.length
    · rw [set_append_left _ _ hidx, dropLast_concat]
      rw [getElem_append_left hidx] at hne
      rcases mem_append.1 h with h | h
      · obtain ⟨j, hj, rfl⟩ := mem_iff_getElem.1 h
        have hji : idx ≠ j := by
          rintro rfl
          exact hne rfl
        exact mem_iff_getElem.2 ⟨j, by rw [length_set]; exact hj, by
          rw [getElem_set_ne hji]⟩
      · rw [mem_singleton] at h
        rw [h]
        exact mem_set hidx last
    · rw [length_append, length_singleton] at hlt
      have heq : idx = init.length := by omega
      subst heq
      rw [set_append_right _ _ (le_refl _), Nat.sub_self, set_cons_zero,
        dropLast_concat]
      rcases mem_append.1 h with h | h
      · exact h
      · rw [mem_singleton] at h
        cases hne (h.trans (getElem_concat_length rfl _).symm)

theorem LockData.mem_of_mem_removeLock (h : lock ∈ (data.removeLock lockId).1.get key) :
    lock ∈ data.get key := by
  rw [LockData.mem_get_iff_at] at h ⊢
  unfold LockData.removeLock at h
  simp only at h
  generalize data.locks = locks at h ⊢
  induction locks with
  | nil => cases at_nil h
  | cons entry rest ih =>
    obtain ⟨key', items⟩ := entry
    rw [at_cons]
    unfold removeEntry at h
    cases hidx : items.findIdx? (·.lockId == lockId) with
    | none =>
      simp only [hidx] at h
      rw [at_cons] at h
      exact h.imp_right ih
    | some idx =>
      simp only [hidx] at h
      by_cases hempty : swapRemove items idx = []
      · rw [if_pos hempty] at h
        exact .inr h
      · rw [if_neg hempty, at_cons] at h
        exact h.imp_left fun ⟨hkey, h⟩ => ⟨hkey, mem_of_mem_swapRemove h⟩

theorem LockData.mem_removeLock_of_ne (h : lock ∈ data.get key) (hne : lock.lockId ≠ lockId) :
    lock ∈ (data.removeLock lockId).1.get key := by
  rw [LockData.mem_get_iff_at] at h ⊢
  unfold LockData.removeLock
  simp only
  generalize data.locks = locks at h ⊢
  induction locks with
  | nil => cases at_nil h
  | cons entry rest ih =>
    obtain ⟨key', items⟩ := entry
    rw [at_cons] at h
    unfold removeEntry
    cases hidx : items.findIdx? (·.lockId == lockId) with
    | none =>
      simp only
      rw [at_cons]
      exact h.imp_right ih
    | some idx =>
      simp only
      obtain ⟨hlt, hid, -⟩ := List.findIdx?_eq_some_iff_getElem.1 hidx
      have hstays : lock ∈ items → lock ∈ swapRemove items idx := fun h =>
        mem_swapRemove_of_ne hlt h fun heq => hne (by rw [heq]; exact beq_iff_eq.1 hid)
      by_cases hempty : swapRemove items idx = []
      · rw [if_pos hempty]
        rcases h with ⟨-, h⟩ | h
        · have hnone := hstays h
          rw [hempty] at hnone
          cases hnone
        · exact h
      · rw [if_neg hempty, at_cons]
        exact h.imp_left fun ⟨hkey, h⟩ => ⟨hkey, hstays h⟩

theorem LockData.mem_removeExpired :
    lock ∈ (data.removeExpired now).get key ↔ lock ∈ data.get key ∧ now < lock.expires := by
  rw [LockData.mem_get, LockData.mem_get]
  unfold LockData.removeExpired activeEntry
  simp only [mem_filterMap, Option.ite_none_left_eq_some, Option.some_inj, Prod.mk.injEq]
  constructor
  · rintro ⟨items, ⟨entry, hentry, -, rfl, rfl⟩, hlock⟩
    rw [mem_filter, decide_eq_true_eq] at hlock
    exact ⟨⟨entry.2, hentry, hlock.1⟩, hlock.2⟩
  · rintro ⟨⟨items, hentry, hlock⟩, hactive⟩
    have hkept : lock ∈ items.filter fun lock => decide (now < lock.expires) :=
      mem_filter.2 ⟨hlock, decide_eq_true hactive⟩
    exact ⟨_, ⟨(key, items), hentry, ne_nil_of_mem hkept, rfl, rfl⟩, hkept⟩

theorem max_expire_le (maxExpire expires : UInt64) :
    maxExpire ≤ max maxExpire expires ∧ expires ≤ max maxExpire expires := by
  change maxExpire ≤ ite _ _ _ ∧ expires ≤ ite _ _ _
  split_ifs with h
  · exact ⟨h, UInt64.le_refl expires⟩
  · exact ⟨UInt64.le_refl maxExpire, UInt64.le_of_lt (UInt64.not_le.1 h)⟩

theorem le_foldl_expires (locks : List LockItem) (start : UInt64) :
    start ≤ locks.foldl (fun maxExpire lock => max maxExpire lock.expires) start ∧
      ∀ lock ∈ locks,
        lock.expires ≤ locks.foldl (fun maxExpire lock => max maxExpire lock.expires) start := by
  induction locks generalizing start with
  | nil => exact ⟨UInt64.le_refl start, nofun⟩
  | cons first rest ih =>
    obtain ⟨hstart, hrest⟩ := ih (max start first.expires)
    have hmax := max_expire_le start first.expires
    refine ⟨UInt64.le_trans hmax.1 hstart, fun lock hlock => ?_⟩
    rcases mem_cons.1 hlock with rfl | hlock
    · exact UInt64.le_trans hmax.2 hstart
    · exact hrest lock hlock

theorem LockData.le_maxExpire (h : lock ∈ data.get key) : lock.expires ≤ data.maxExpire := by
  obtain ⟨items, hentry, hlock⟩ := LockData.mem_get.1 h
  exact (le_foldl_expires _ 0).2 lock (mem_flatMap.2 ⟨(key, items), hentry, hlock⟩)

/-! ## What a request has checked and what it writes -/

/-- The lock asked for is in conflict with no active lock of the record but the ones with the
submitted id. -/
def Pending.Checked (p : Pending) (now : UInt64) : Prop :=
  ∀ lockInfo, p.lockInfo = .lock lockInfo → ∀ path, ∀ lock ∈ p.lockData.get path,
    now < lock.expires → lock.lockId ≠ p.ifLockToken → ∀ asked : LockItem,
      asked.exclusive = (lockInfo.lockScope == .Exclusive) →
      asked.depthInfinity = p.headers.isInfinity →
        ¬ Conflicting path lock p.resourcePath asked

theorem length_lt_of_below (path rest : Str) : path.length < (path ++ '/' :: rest).length := by
  rw [length_append, length_cons]
  omega

theorem mem_failedLocks_of_conflicting {headers : LockHeaders} {lockInfo : LockInfo}
    {resourcePath : Str} {asked : LockItem} (hlock : lock ∈ data.get path)
    (hactive : now < lock.expires) (hne : lock.lockId ≠ headers.ifLockToken)
    (hexclusive : asked.exclusive = (lockInfo.lockScope == .Exclusive))
    (hdepth : asked.depthInfinity = headers.isInfinity)
    (hconflict : Conflicting path lock resourcePath asked) :
    failedLocks now headers lockInfo resourcePath data ≠ [] := by
  obtain ⟨hscope, hcommon⟩ := hconflict
  have hcommon := covers_common_iff.1 hcommon
  have hfound : (path, lock) ∈ data.findLocks now resourcePath true := by
    refine mem_findLocks.2 ⟨hlock, hactive, ?_⟩
    rcases hcommon with heq | ⟨hinfinity, hbelow⟩ | ⟨-, habove⟩
    · exact .inl heq
    · exact .inr (.inl ⟨hinfinity, hbelow⟩)
    · exact .inr (.inr ⟨rfl, habove⟩)
  have hblocks : standsInTheWay headers.ifLockToken (lockInfo.lockScope == .Exclusive)
      headers.isInfinity resourcePath (path, lock) := by
    unfold standsInTheWay
    rw [← hexclusive, ← hdepth, Bool.and_eq_true, Bool.and_eq_true, Bool.or_eq_true,
      Bool.or_eq_true, Bool.or_eq_true, Bool.and_eq_true, Bool.and_eq_true, bne_iff_ne, beq_iff_eq,
      decide_eq_true_eq, decide_eq_true_eq]
    refine ⟨⟨hne.symm, hscope⟩, ?_⟩
    rcases hcommon with rfl | ⟨hinfinity, rest, rfl⟩ | ⟨hinfinity, rest, rfl⟩
    · exact .inl (.inl rfl)
    · exact .inl (.inr ⟨hinfinity, length_lt_of_below path rest⟩)
    · exact .inr ⟨hinfinity, length_lt_of_below resourcePath rest⟩
  exact fun hnone => not_mem_nil
    (map_eq_nil_iff.1 hnone ▸ mem_filter.2 ⟨hfound, hblocks⟩)

variable {server : DavServer} {config : LockConfig} {user : LockUser} {headers : LockHeaders}
  {lockInfo : LockRequest} {p : Pending}

theorem readRecord_stored {accountId : UInt32} {collection : Collection} {resourcePath : Str}
    (h : readRecord server config user headers lockInfo accountId collection resourcePath =
      .ok data) :
    server.keyGet accountId (mainCollection collection) = some data ∨ data = LockData.empty := by
  unfold readRecord at h
  cases hget : server.keyGet accountId (mainCollection collection) with
  | some stored =>
    simp only [hget] at h
    obtain ⟨_, -, h⟩ := Lib.bind_eq_ok_iff.1 h
    obtain ⟨_, -, h⟩ := Lib.bind_eq_ok_iff.1 h
    exact .inl (congrArg some (Except.ok.inj h))
  | none =>
    simp only [hget] at h
    by_cases hunlock : lockInfo = .unlock
    · rw [if_pos hunlock] at h
      cases h
    · rw [if_neg hunlock] at h
      obtain ⟨_, -, h⟩ := Lib.bind_eq_ok_iff.1 h
      exact .inr (Except.ok.inj h).symm

theorem readRecord_failedLocks {accountId : UInt32} {collection : Collection}
    {resourcePath : Str} {asked : LockInfo}
    (h : readRecord server config user headers (.lock asked) accountId collection
      resourcePath = .ok data) :
    data = LockData.empty ∨ failedLocks server.now headers asked resourcePath data = [] := by
  unfold readRecord at h
  cases hget : server.keyGet accountId (mainCollection collection) with
  | some stored =>
    simp only [hget] at h
    obtain ⟨_, -, h⟩ := Lib.bind_eq_ok_iff.1 h
    obtain ⟨_, hcheck, h⟩ := Lib.bind_eq_ok_iff.1 h
    cases h
    refine .inr (by_contra fun hfailed => ?_)
    change checkLock _ _ _ _ _ _ _ = _ at hcheck
    unfold checkLock at hcheck
    rw [if_pos hfailed] at hcheck
    cases hcheck
  | none =>
    simp only [hget] at h
    obtain ⟨_, -, h⟩ := Lib.bind_eq_ok_iff.1 h
    exact .inl (Except.ok.inj h).symm

theorem readRequest_record (h : readRequest server config user headers lockInfo = .ok p) :
    p.lockInfo = lockInfo ∧ p.headers = headers ∧ p.ifLockToken = headers.ifLockToken ∧
      readRecord server config user headers lockInfo p.accountId p.collection p.resourcePath =
        .ok p.lockData := by
  unfold readRequest at h
  split at h
  · cases h
  · cases h
  · cases h
  · split_ifs at h
    obtain ⟨stored, hread, h⟩ := Lib.bind_eq_ok_iff.1 h
    cases h
    exact ⟨rfl, rfl, rfl, hread⟩

/-- **A `LOCK` that gets past the check** is in conflict with no active lock but those with its id.
-/
theorem readRequest_checked (h : readRequest server config user headers lockInfo = .ok p) :
    p.Checked server.now := by
  obtain ⟨hinfo, rfl, htoken, hread⟩ := readRequest_record h
  intro askedInfo hlock path lock hmem hactive hne asked hexclusive hdepth hconflict
  rw [← hinfo, hlock] at hread
  rcases readRecord_failedLocks hread with hempty | hfailed
  · rw [hempty] at hmem
    exact LockData.mem_get_empty hmem
  · rw [htoken] at hne
    exact mem_failedLocks_of_conflicting hmem hactive hne hexclusive hdepth hconflict hfailed

theorem Pending.Checked.later {later : UInt64} (h : p.Checked now) (hle : now ≤ later) :
    p.Checked later :=
  fun lockInfo hinfo path lock hmem hactive =>
    h lockInfo hinfo path lock hmem (UInt64.lt_of_le_of_lt hle hactive)

theorem Pending.upsertLock_ok {random : UInt64} {result}
    (h : p.upsertLock config now random = .ok result) :
    (0 < p.ifLockToken ∧ ∃ old, p.lockData.findId p.ifLockToken = some old ∧
        result = (p.lockData.replaceLock p.ifLockToken (p.rewrite config now random),
          p.rewrite config now random old)) ∨
      (¬ 0 < p.ifLockToken ∧
        result = (p.lockData.pushLock p.resourcePath (p.rewrite config now random .default),
          p.rewrite config now random .default)) := by
  unfold Pending.upsertLock at h
  by_cases htoken : 0 < p.ifLockToken
  · rw [if_pos htoken] at h
    cases hfind : p.lockData.findId p.ifLockToken with
    | none =>
      rw [hfind] at h
      cases h
    | some old =>
      rw [hfind] at h
      split_ifs at h
      exact .inl ⟨htoken, old, rfl, (Except.ok.inj h).symm⟩
  · split_ifs at h
    exact .inr ⟨htoken, (Except.ok.inj h).symm⟩

theorem Pending.removeLock_ok {result} (h : p.removeLock = .ok result) :
    p.lockToken = some result.2 ∧ result.1 = (p.lockData.removeLock result.2).1 := by
  unfold Pending.removeLock at h
  cases htoken : p.lockToken with
  | none =>
    rw [htoken] at h
    cases h
  | some lockId =>
    rw [htoken] at h
    simp only at h
    split_ifs at h
    cases h
    exact ⟨rfl, rfl⟩

theorem Pending.writeRequest_ok {random : UInt64} {result}
    (h : p.writeRequest config now random = .ok result) :
    (p.lockInfo ≠ .unlock ∧ ∃ changed lock, p.upsertLock config now random = .ok (changed, lock) ∧
        result = (changed.removeExpired now, .locked lock)) ∨
      (p.lockInfo = .unlock ∧ ∃ lockId,
        result = ((p.lockData.removeLock lockId).1.removeExpired now, .unlocked lockId)) := by
  unfold Pending.writeRequest at h
  by_cases hunlock : p.lockInfo = .unlock
  · rw [if_pos hunlock] at h
    cases hremove : p.removeLock with
    | error e =>
      rw [hremove] at h
      cases h
    | ok r =>
      rw [hremove] at h
      cases h
      refine .inr ⟨hunlock, r.2, ?_⟩
      rw [← (Pending.removeLock_ok hremove).2]
  · rw [if_neg hunlock] at h
    cases hupsert : p.upsertLock config now random with
    | error e =>
      rw [hupsert] at h
      cases h
    | ok r =>
      rw [hupsert] at h
      cases h
      exact .inl ⟨hunlock, r.1, r.2, rfl, rfl⟩

end MailServer.Dav
