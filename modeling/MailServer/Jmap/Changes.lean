import MailServer.Store.LogHistory

/-!
# The changes methods of JMAP

`jmap/src/changes/get.rs` answers a request for the changes since a state with a page of them, and
with a state from which the next page is asked for.  The state of an object type whose objects are
cached comes from the cache (`email/src/cache/mod.rs`, `groupware/src/cache/mod.rs`), which the
request brings up to date.
-/

namespace MailServer.Jmap

open MailServer.Store

/-! ## States and object types -/

inductive State where
  | initial
  | exact (changeId : ℕ)
  | intermediate (fromId toId itemsSent : ℕ)
deriving DecidableEq

/-- The logs that an object type with changes has. -/
inductive SyncCollection where
  | email
  | thread
  | calendar
  | addressBook
  | fileNode
  | identity
  | emailSubmission
  | calendarEventNotification
  | shareNotification
deriving DecidableEq

inductive MethodObject where
  | email
  | mailbox
  | core
  | blob
  | pushSubscription
  | thread
  | searchSnippet
  | identity
  | emailSubmission
  | vacationResponse
  | sieveScript
  | principal
  | quota
  | calendar
  | calendarEvent
  | calendarEventNotification
  | addressBook
  | contactCard
  | fileNode
  | participantIdentity
  | shareNotification
deriving DecidableEq

/-- The log of an object type, and whether its objects are the containers in it. -/
def MethodObject.collection : MethodObject → Option (SyncCollection × Bool)
  | .email => some (.email, false)
  | .mailbox => some (.email, true)
  | .thread => some (.thread, true)
  | .identity => some (.identity, false)
  | .emailSubmission => some (.emailSubmission, false)
  | .addressBook => some (.addressBook, true)
  | .contactCard => some (.addressBook, false)
  | .fileNode => some (.fileNode, false)
  | .calendar => some (.calendar, true)
  | .calendarEvent => some (.calendar, false)
  | .calendarEventNotification => some (.calendarEventNotification, false)
  | .shareNotification => some (.shareNotification, false)
  | _ => none

/-! ## The caches -/

/-- The change ids of a cache: of its items, of its containers, and the last one it has seen. -/
structure CacheIds where
  items : ℕ
  containers : ℕ
  last : ℕ

def CacheIds.of (isContainer : Bool) (cache : CacheIds) : ℕ :=
  if isContainer then cache.containers else cache.items

def CacheIds.getState (isContainer : Bool) (cache : CacheIds) : State :=
  .exact (cache.of isContainer)

def fullCacheBuild (log : List LogEntry) : CacheIds :=
  let lastChangeId := (lastChangeId log).getD 0
  ⟨lastChangeId, lastChangeId, lastChangeId⟩

/-- The change ids of the messages and of the mailboxes after changes. -/
def updateMessages (cache : CacheIds) (changelog : Changelog) : CacheIds where
  items :=
    if changelog.changes.any Change.isItemChange then
      changelog.itemChangeId.getD changelog.toChangeId
    else cache.items
  containers :=
    if changelog.changes.any Change.isContainerChange then
      changelog.containerChangeId.getD changelog.toChangeId
    else cache.containers
  last := changelog.toChangeId

def updateResources (cache : CacheIds) (changelog : Changelog) : CacheIds where
  items := changelog.itemChangeId.getD cache.items
  containers := changelog.containerChangeId.getD cache.containers
  last := changelog.toChangeId

/-- A cache is brought up to date, or built anew when the log does not have the changes any more. -/
def refresh (update : CacheIds → Changelog → CacheIds) (log : List LogEntry) (cache : CacheIds) :
    Option CacheIds := do
  let changelog ← changesSince false log (.since cache.last)
  if changelog.isTruncated then some (fullCacheBuild log)
  else if changelog.changes.isEmpty then some cache
  else if cache.last ≥ changelog.toChangeId then some cache
  else some (update cache changelog)

/-- `get_cached_messages` -/
def refreshMessages : List LogEntry → CacheIds → Option CacheIds := refresh updateMessages

/-- `fetch_dav_resources` -/
def refreshResources : List LogEntry → CacheIds → Option CacheIds := refresh updateResources

/-- The cache that the method asks for the state, if any. -/
def SyncCollection.refresh : SyncCollection → Option (List LogEntry → CacheIds → Option CacheIds)
  | .calendar | .addressBook => some refreshResources
  | .email => some refreshMessages
  | _ => none

/-! ## The method -/

structure ChangesRequest where
  sinceState : State
  maxChanges : Option ℕ

structure ChangesResponse where
  oldState : State
  newState : State
  hasMoreChanges : Bool
  created : List UInt64
  updated : List UInt64
  destroyed : List UInt64
deriving DecidableEq

structure IntermediateChangesResponse where
  response : ChangesResponse
  onlyContainerChanges : Bool
deriving DecidableEq

inductive ChangesError where
  | cannotCalculateChanges (details : Option String)
  | corruptedKey
deriving DecidableEq

def Change.created : Change → Option UInt64
  | .insertContainer id | .insertItem id => some id
  | _ => none

def Change.updated : Change → Option UInt64
  | .updateContainer id | .updateItem id | .updateContainerProperty id => some id
  | _ => none

def Change.destroyed : Change → Option UInt64
  | .deleteContainer id | .deleteItem id => some id
  | _ => none

/-- `items_changed` -/
def Change.changesItem : Change → Bool
  | .updateContainer _ | .updateItem _ => true
  | _ => false

/-- What the state of a request leads to: nothing has changed, or a changelog of which so many
changes were sent, and the new state as far as it is known. -/
inductive Lookup where
  | unchanged (newState : State)
  | found (itemsSent : ℕ) (changelog : Changelog) (newState : State)

def readLog (isShareLog : Bool) (log : List LogEntry) (query : Query) :
    Except ChangesError Changelog :=
  match changesSince isShareLog log query with
  | some changelog => .ok changelog
  | none => .error .corruptedKey

/-- The state of the cache, where the object type has one. -/
def lastState (collection : SyncCollection) (isContainer : Bool) (log : List LogEntry)
    (cache : CacheIds) : Except ChangesError (Option State) :=
  match collection.refresh with
  | some refresh =>
    match refresh log cache with
    | some cache => .ok (some (cache.getState isContainer))
    | none => .error .corruptedKey
  | none => .ok none

def lookup (collection : SyncCollection) (isContainer : Bool) (log : List LogEntry)
    (cache : CacheIds) (sinceState : State) : Except ChangesError Lookup :=
  let isShareLog := collection = .shareNotification
  match sinceState with
  | .initial => do
    let changelog ← readLog isShareLog log .all
    if changelog.changes.isEmpty && changelog.fromChangeId == 0 then return .unchanged .initial
    return .found 0 changelog .initial
  | .exact changeId => do
    let lastState ← lastState collection isContainer log cache
    if lastState = some (.exact changeId) then return .unchanged (.exact changeId)
    let changelog ← readLog isShareLog log (.since changeId)
    return .found 0 changelog (lastState.getD .initial)
  | .intermediate fromId toId itemsSent => do
    let changelog ← readLog isShareLog log (.rangeInclusive fromId toId)
    if (isContainer && itemsSent ≥ changelog.totalContainerChanges) ||
        (!isContainer && itemsSent ≥ changelog.totalItemChanges) then
      let changelog ← readLog isShareLog log (.since toId)
      return .found 0 changelog .initial
    return .found itemsSent changelog .initial

/-- A page of the changes that are left. -/
def page (isContainer : Bool) (maxChanges : ℕ) (oldState : State) (itemsSent : ℕ)
    (changelog : Changelog) (newState : State) : IntermediateChangesResponse :=
  let changes := (changelog.relevant isContainer).drop itemsSent
  let sent := changes.take maxChanges
  let changeId := (changelog.changeId isContainer).getD changelog.toChangeId
  let hasMoreChanges := !(changes.drop maxChanges).isEmpty
  let updated := sent.filterMap Change.updated
  { response :=
      { oldState := oldState
        newState :=
          if hasMoreChanges then
            .intermediate changelog.fromChangeId changeId (itemsSent + maxChanges)
          else if newState = .initial then .exact changeId
          else newState
        hasMoreChanges := hasMoreChanges
        created := sent.filterMap Change.created
        updated := updated
        destroyed := sent.filterMap Change.destroyed }
    onlyContainerChanges := isContainer && !updated.isEmpty && !sent.any Change.changesItem }

/-- The number of changes of a page; `maxResults` is `changes_max_results`. -/
def pageSize (maxResults maxChanges : Option ℕ) : ℕ :=
  min ((maxChanges.filter (· ≠ 0)).getD (2 ^ 64 - 1)) (maxResults.getD (2 ^ 64 - 1))

def changes (maxResults : Option ℕ) (object : MethodObject) (log : List LogEntry)
    (cache : CacheIds) (request : ChangesRequest) :
    Except ChangesError IntermediateChangesResponse :=
  match object.collection with
  | none => .error (.cannotCalculateChanges none)
  | some (collection, isContainer) => do
    match ← lookup collection isContainer log cache request.sinceState with
    | .unchanged newState =>
      return { response := ⟨request.sinceState, newState, false, [], [], []⟩
               onlyContainerChanges := false }
    | .found itemsSent changelog newState =>
      if (changelog.isTruncated || changelog.fromChangeId == 0) &&
          request.sinceState ≠ .initial then
        throw (.cannotCalculateChanges (some
          (if changelog.isTruncated then "Change log is truncated" else "Since state is invalid")))
      return page isContainer (pageSize maxResults request.maxChanges) request.sinceState itemsSent
        changelog newState

end MailServer.Jmap
