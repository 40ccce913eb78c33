import MailServer.Dav.Locks
import Mathlib.Data.List.Forall2

/-!
# Locks and preconditions of a request

`LockRequestHandler::validate_headers` (`dav/src/common/lock.rs`): whether the locks on the
resources of a request and the lists of its `If` header let it through.

Principal results: `validateLocks_ok_iff`, `evaluateIf_iff`, `enforced_iff`.
-/

namespace MailServer.Dav

open List
open Option (none_or some_ne_none some_or)
open MailServer.Store (Collection)
open PathHeads

variable {known : List ResourceState}

/-! ## Requests -/

inductive DavMethod where
  | GET | PUT | POST | DELETE | HEAD | PATCH | PROPFIND | PROPPATCH | REPORT | MKCOL | MKCALENDAR
  | COPY | MOVE | LOCK | UNLOCK | OPTIONS | ACL
deriving DecidableEq

inductive Condition where
  | stateToken (isNot : Bool) (token : Str)
  | eTag (isNot : Bool) (tag : String)
  | exists_ (isNot : Bool)

def Condition.isNoneMatch : Condition → Bool
  | .eTag isNot _ => isNot
  | .exists_ isNot => isNot
  | .stateToken _ _ => false

structure If where
  resource : Option Str
  list : List Condition

structure RequestHeaders where
  uri : Str
  overwriteFail : Bool
  if_ : List If

/-- The loop of `dav_base_uri`: how much of the address is kept, and the separators passed after
`/dav`. -/
def davBaseUriLoop (foundDav : Bool) (sepCount kept : ℕ) : Str → ℕ × ℕ
  | [] => (sepCount, kept)
  | ch :: rest =>
    if ch = '/' then
      if foundDav then
        if sepCount = 2 then (sepCount, kept)
        else davBaseUriLoop foundDav (sepCount + 1) (kept + 1) rest
      else davBaseUriLoop ("dav/".toList.isPrefixOf rest) sepCount (kept + 1) rest
    else davBaseUriLoop foundDav sepCount (kept + 1) rest

def RequestHeaders.baseUri (headers : RequestHeaders) : Option Str :=
  match davBaseUriLoop false 0 0 headers.uri with
  | (2, kept) => some (headers.uri.take kept)
  | _ => none

/-! ## Answers -/

inductive StatusCode where
  | NOT_MODIFIED | PRECONDITION_FAILED | LOCKED
deriving DecidableEq

inductive BaseCondition where
  | lockTokenSubmitted (hrefs : List Str)
deriving DecidableEq

inductive DavError where
  | condition (code : StatusCode) (condition : BaseCondition)
  | code (code : StatusCode)
deriving DecidableEq

/-! ## Locks of the resources -/

/-- A list of the `If` header that applies to the path submits the token. -/
def RequestHeaders.names (headers : RequestHeaders) (lock : Str × LockItem) : Bool :=
  headers.if_.any fun if_ =>
    (match if_.resource with
      | none => true
      | some r => lock.1.isSuffixOf (r.rdropWhile (· = '/'))) &&
    if_.list.any fun cond =>
      match cond with
      | .stateToken _ token => token == lock.2.urn.toStr
      | _ => false

/-- The loop over the locks of a resource: the ones not submitted, or nothing as soon as one is. -/
def scanLocks (headers : RequestHeaders) : List (Str × LockItem) → List Str → Option (List Str)
  | [], failedLocks => some failedLocks
  | lock :: rest, failedLocks =>
    if headers.names lock then none
    else scanLocks headers rest
      (failedLocks ++ [headers.baseUri.getD [] ++ '/' :: lock.1])

/-- The loop over the resources from `pos` on. A submitted token leaves both loops. -/
def validateLocks (server : DavServer) (headers : RequestHeaders) (method : DavMethod) (pos : ℕ)
    (caches : LockCaches) : List ResourceState → Except DavError Unit × LockCaches
  | [] => (.ok (), caches)
  | resource :: rest =>
    if pos = 0 ∧ method = .COPY then validateLocks server headers method (pos + 1) caches rest
    else
      match findCachePos server caches resource with
      | (none, caches) => validateLocks server headers method (pos + 1) caches rest
      | (some idx, caches) =>
        match scanLocks headers (findLocksByPos server caches idx resource true) [] with
        | none => (.ok (), caches)
        | some [] => validateLocks server headers method (pos + 1) caches rest
        | some failedLocks =>
          (.error (.condition .LOCKED (.lockTokenSubmitted failedLocks)), caches)

/-! ## Lists of the If header -/

/-- The resource that an address names, as the loop over the lists makes it. -/
def resolveResource (server : DavServer) (uri : Str) : Option ResourceState :=
  match server.validateUri uri with
  | some ⟨collection, some accountId, some path⟩ =>
    some {
      accountId := accountId
      collection :=
        if collection ≠ .fileNode ∧ '/' ∈ path then (childCollection collection).getD collection
        else collection
      path := path }
  | _ => none

def ResourceState.same (resource r : ResourceState) : Bool :=
  r.accountId == resource.accountId && r.collection == resource.collection &&
    r.path == resource.path

/-- The position of the state that a list is about, with the resources known from then on. -/
def selectResource (server : DavServer) (resources : List ResourceState) (if_ : If) :
    List ResourceState × Option ℕ :=
  match if_.resource with
  | none => (resources, if resources = [] then none else some 0)
  | some uri =>
    match resolveResource server uri with
    | none => (resources, none)
    | some resource =>
      match resources.findIdx? resource.same with
      | some pos => (resources, some pos)
      | none =>
        if server.hasAccess resource.accountId resource.collection then
          (resources ++ [resource], some resources.length)
        else (resources, none)

def resourceNotFound : ResourceState where
  accountId := 0xFFFFFFFF
  collection := .none
  path := []

def needsSyncToken (list : List Condition) : Bool :=
  list.any fun cond =>
    match cond with
    | .stateToken _ token => DAVSYNC.isPrefixOf token
    | _ => false

def needsLockToken (list : List Condition) : Bool :=
  list.any fun cond =>
    match cond with
    | .stateToken _ token => !DAVSYNC.isPrefixOf token
    | _ => false

def needsEtag (list : List Condition) : Bool :=
  list.any fun cond =>
    match cond with
    | .stateToken _ _ => false
    | _ => true

/-- The document of the resource, or the largest id for none. -/
def fetchDocumentId (server : DavServer) (s : ResourceState) : UInt32 :=
  s.documentId.getD ((server.mapUriResource s.accountId s.collection s.path).getD 0xFFFFFFFF)

/-- The entity tag of the stored document. -/
def fetchEtag (server : DavServer) (s : ResourceState) : Option String :=
  if fetchDocumentId server s = 0xFFFFFFFF then none
  else server.archiveEtag s.accountId s.collection (fetchDocumentId server s)

def fillEtag (server : DavServer) (list : List Condition) (s : ResourceState) : ResourceState :=
  if needsEtag list ∧ s.etag = none then
    { s with documentId := some (fetchDocumentId server s), etag := fetchEtag server s }
  else s

def fillLockTokens (server : DavServer) (list : List Condition) (caches : LockCaches)
    (s : ResourceState) : ResourceState × LockCaches :=
  if needsLockToken list ∧ s.lockTokens = [] then
    match findCachePos server caches s with
    | (some idx, caches) =>
      ({ s with lockTokens :=
          (findLocksByPos server caches idx s false).map fun lock => lock.2.urn.toStr }, caches)
    | (none, caches) => (s, caches)
  else (s, caches)

def fetchSyncToken (server : DavServer) (s : ResourceState) : Str :=
  (Urn.sync (server.highestChangeId s.accountId s.collection) 0).toStr

def fillSyncToken (server : DavServer) (list : List Condition) (s : ResourceState) :
    ResourceState :=
  if needsSyncToken list ∧ s.syncToken = none then
    { s with syncToken := some (fetchSyncToken server s) }
  else s

/-- Fills in what the list needs to know about the resource. -/
def fillResource (server : DavServer) (list : List Condition) (caches : LockCaches)
    (s : ResourceState) : ResourceState × LockCaches :=
  if s.collection ≠ .none ∧ (s.etag = none ∨ s.lockTokens = [] ∨ s.syncToken = none) then
    match fillLockTokens server list caches (fillEtag server list s) with
    | (s, caches) => (fillSyncToken server list s, caches)
  else (s, caches)

/-- What a condition says of a state. -/
def Condition.holds (s : ResourceState) : Condition → Bool
  | .stateToken isNot token =>
    match tryExtractSyncId token with
    | some id => (s.syncToken.bind tryExtractSyncId == some id) ^^ isNot
    | none => s.lockTokens.contains token ^^ isNot
  | .eTag isNot tag => (s.etag == some tag) ^^ isNot
  | .exists_ isNot => s.etag.isSome ^^ isNot

/-- The loop over the lists of the `If` header: whether one of them holds. -/
def evaluateIf (server : DavServer) (resources : List ResourceState) (caches : LockCaches) :
    List If → Bool
  | [] => false
  | if_ :: rest =>
    if if_.list = [] then evaluateIf server resources caches rest
    else
      match selectResource server resources if_ with
      | (resources, none) =>
        if if_.list.all (·.holds resourceNotFound) then true
        else evaluateIf server resources caches rest
      | (resources, some pos) =>
        match fillResource server if_.list caches (resources.getD pos resourceNotFound) with
        | (resourceState, caches) =>
          if if_.list.all (·.holds resourceState) then true
          else evaluateIf server (resources.set pos resourceState) caches rest

/-! ## The whole check -/

def DavMethod.reads (method : DavMethod) : Bool := method == .GET || method == .HEAD

/-- The methods that make or replace their last resource. -/
def DavMethod.overwrites : DavMethod → Bool
  | .COPY | .MOVE | .POST | .PUT | .PATCH => true
  | _ => false

/-- The methods whose locks are not checked. -/
def DavMethod.skipsLocks : DavMethod → Bool
  | .GET | .HEAD | .LOCK | .UNLOCK => true
  | _ => false

/-- The request must not overwrite and its last resource exists. -/
def refusesOverwrite (headers : RequestHeaders) (resources : List ResourceState) : Bool :=
  headers.overwriteFail && match resources.getLast? with
    | some r => r.etag.isSome || match r.documentId with
      | some id => id != 0xFFFFFFFF
      | none => false
    | none => false

/-- The answer when no list of the `If` header holds. -/
def preconditionError (headers : RequestHeaders) (method : DavMethod) : DavError :=
  .code (if method.reads && headers.if_.any fun if_ => if_.list.any (·.isNoneMatch)
    then .NOT_MODIFIED else .PRECONDITION_FAILED)

def validateHeaders (server : DavServer) (headers : RequestHeaders)
    (resources : List ResourceState) (locks : LockCaches) (method : DavMethod) :
    Except DavError Unit :=
  if method.reads ∧ headers.if_ = [] then .ok ()
  else if method.overwrites ∧ refusesOverwrite headers resources then
    .error (.code .PRECONDITION_FAILED)
  else
    let locks := resources.foldl (addLockData server) locks
    let (lockResponse, locks) :=
      if method.skipsLocks then (.ok (), locks)
      else validateLocks server headers method 0 locks resources
    if headers.if_ = [] then lockResponse
    else if evaluateIf server resources locks headers.if_ then lockResponse
    else .error (preconditionError headers method)

/-! ## What the locks ask for -/

/-- The resources that the method modifies: all but the source of a copy. -/
def modifiedResources (method : DavMethod) (resources : List ResourceState) :
    List ResourceState :=
  if method.skipsLocks then [] else if method = .COPY then resources.drop 1 else resources

/-- The request submits the token of the lock in its `If` header. -/
def RequestHeaders.Submits (headers : RequestHeaders) (lock : LockItem) : Prop :=
  ∃ if_ ∈ headers.if_, ∃ isNot, .stateToken isNot lock.urn.toStr ∈ if_.list

/-- The request submits the token of the lock, or of another one of the shared locks on the same
path. -/
def Covered (headers : RequestHeaders) (found : List (Str × LockItem)) (lock : Str × LockItem) :
    Prop :=
  headers.Submits lock.2 ∨ lock.2.exclusive = false ∧
    ∃ other ∈ found, other.1 = lock.1 ∧ other.2.exclusive = false ∧ headers.Submits other.2

/-- **A request is let through only if every lock on what it modifies is covered.** -/
def Enforced (server : DavServer) (headers : RequestHeaders) (resources : List ResourceState)
    (locks : LockCaches) (method : DavMethod) : Prop :=
  validateHeaders server headers resources locks method = .ok () →
    ∀ r ∈ modifiedResources method resources, ∀ lock ∈ locksOn server locks r true,
      Covered headers (locksOn server locks r true) lock

/-! ## The scan over the locks -/

variable {server : DavServer} {headers : RequestHeaders} {method : DavMethod}
  {caches caches' : LockCaches} {resources : List ResourceState}

theorem scanLocks_eq_none {found} {failedLocks : List Str} :
    scanLocks headers found failedLocks = none ↔ ∃ lock ∈ found, headers.names lock := by
  induction found generalizing failedLocks with
  | nil => simp [scanLocks]
  | cons lock rest ih =>
    unfold scanLocks
    by_cases hnames : headers.names lock
    · rw [if_pos hnames]
      exact ⟨fun _ => ⟨lock, .head _, hnames⟩, fun _ => rfl⟩
    · rw [if_neg hnames, ih, exists_mem_cons_iff]
      exact (or_iff_right hnames).symm

theorem scanLocks_eq_some_nil {found} {failedLocks : List Str}
    (h : scanLocks headers found failedLocks = some []) : found = [] ∧ failedLocks = [] := by
  induction found generalizing failedLocks with
  | nil => exact ⟨rfl, Option.some.inj h⟩
  | cons lock rest ih =>
    unfold scanLocks at h
    split at h
    · cases h
    · cases append_ne_nil_of_right_ne_nil _ (cons_ne_nil _ _) (ih h).2

/-! ## The scan over the resources -/

/-- The resources from the first one on that has a lock. -/
def stopsAt (server : DavServer) (caches : LockCaches) (modified : List ResourceState) :
    List ResourceState :=
  modified.dropWhile fun r => (locksOn server caches r true).isEmpty

/-- The request submits the token of a lock on the first resource that has one. -/
def NamesFirst (server : DavServer) (headers : RequestHeaders) (caches : LockCaches)
    (modified : List ResourceState) : Prop :=
  match stopsAt server caches modified with
  | [] => True
  | r :: _ => ∃ lock ∈ locksOn server caches r true, headers.names lock

theorem stopsAt_cons (r : ResourceState) (rest : List ResourceState) :
    stopsAt server caches (r :: rest) =
      if locksOn server caches r true = [] then stopsAt server caches rest else r :: rest := by
  unfold stopsAt
  rw [dropWhile_cons]
  simp only [List.isEmpty_iff]

theorem validateLocks_cons (headers : RequestHeaders) {pos : ℕ} {r}
    (rest : List ResourceState) (hpos : ¬(pos = 0 ∧ method = .COPY))
    (hext : Extends server caches caches')
    (hloaded : Loaded server caches' r) :
    ∃ loaded, Extends server caches loaded ∧ Extends server caches' loaded ∧
      (locksOn server caches r true = [] →
        validateLocks server headers method pos caches' (r :: rest) =
          validateLocks server headers method (pos + 1) loaded rest) ∧
      (locksOn server caches r true ≠ [] →
        (validateLocks server headers method pos caches' (r :: rest)).2 = loaded ∧
        ((validateLocks server headers method pos caches' (r :: rest)).1 = .ok () ↔
          ∃ lock ∈ locksOn server caches r true, headers.names lock)) := by
  obtain ⟨hfound, hlocks⟩ := findCachePos_spec server caches' r true fun _ => hloaded
  refine ⟨_, hext.trans hfound, hfound, ?_⟩
  rw [locksOn_of_extends hext] at hlocks
  rw [validateLocks, if_neg hpos]
  cases hpos? : findCachePos server caches' r with
  | mk idx loaded =>
    rw [hpos?] at hlocks
    cases idx with
    | none =>
      have hnone : locksOn server caches r true = [] := hlocks
      exact ⟨fun _ => rfl, fun hne => absurd hnone hne⟩
    | some idx =>
      have hsome : findLocksByPos server loaded idx r true = locksOn server caches r true := hlocks
      simp only [hsome]
      cases hscan : scanLocks headers (locksOn server caches r true) [] with
      | none =>
        obtain ⟨lock, hmem, hnames⟩ := scanLocks_eq_none.1 hscan
        refine ⟨fun hnil => ?_, fun _ => ⟨rfl, fun _ => ⟨lock, hmem, hnames⟩, fun _ => rfl⟩⟩
        rw [hnil] at hmem
        cases hmem
      | some failedLocks =>
        cases failedLocks with
        | nil => exact ⟨fun _ => rfl, fun hne => absurd (scanLocks_eq_some_nil hscan).1 hne⟩
        | cons failed restFailed =>
          refine ⟨fun hnil => ?_, fun _ => ⟨rfl, (fun h => nomatch h), fun h => ?_⟩⟩
          · rw [hnil] at hscan
            cases (cons_ne_nil _ _).symm (Option.some.inj hscan)
          · have hnone := hscan.symm.trans (scanLocks_eq_none.mpr h)
            cases hnone

theorem validateLocks_spec {pos : ℕ} (hpos : ¬(pos = 0 ∧ method = .COPY))
    (hext : Extends server caches caches') (hloaded : ∀ r ∈ resources, Loaded server caches' r) :
    Extends server caches (validateLocks server headers method pos caches' resources).2 ∧
      ((validateLocks server headers method pos caches' resources).1 = .ok () ↔
        NamesFirst server headers caches resources) := by
  induction resources generalizing pos caches' with
  | nil => exact ⟨hext, fun _ => trivial, fun _ => rfl⟩
  | cons r rest ih =>
    obtain ⟨loaded, hall, hmore, hskip, hstop⟩ := validateLocks_cons headers rest
      hpos hext (hloaded r (.head _))
    unfold NamesFirst
    rw [stopsAt_cons]
    by_cases hnil : locksOn server caches r true = []
    · rw [if_pos hnil, hskip hnil]
      exact ih (fun h => Nat.succ_ne_zero pos h.1) hall
        fun r' hr' => (hloaded r' (mem_cons_of_mem r hr')).extends hmore
    · rw [if_neg hnil]
      obtain ⟨hcaches, hok⟩ := hstop hnil
      rw [hcaches]
      exact ⟨hall, hok⟩

/-- **The scan over the resources is decided by the first one that has a lock.** -/
theorem validateLocks_ok_iff (headers : RequestHeaders) (hmethod : method.skipsLocks = false)
    (hext : Extends server caches caches') (hloaded : ∀ r ∈ resources, Loaded server caches' r) :
    Extends server caches (validateLocks server headers method 0 caches' resources).2 ∧
      ((validateLocks server headers method 0 caches' resources).1 = .ok () ↔
        NamesFirst server headers caches (modifiedResources method resources)) := by
  unfold modifiedResources
  rw [hmethod]
  by_cases hcopy : method = .COPY
  · rw [if_pos hcopy]
    cases resources with
    | nil => exact ⟨hext, fun _ => trivial, fun _ => rfl⟩
    | cons source rest =>
      have hstart : validateLocks server headers method 0 caches' (source :: rest) =
          validateLocks server headers method 1 caches' rest := by
        rw [validateLocks, if_pos ⟨rfl, hcopy⟩]
      rw [hstart]
      exact validateLocks_spec (fun h => Nat.one_ne_zero h.1) hext
        fun r hr => hloaded r (mem_cons_of_mem source hr)
  · rw [if_neg hcopy]
    exact validateLocks_spec (fun h => hcopy h.2) hext hloaded

/-! ## What a list says of the store -/

/-- The tokens of the locks that cover the resource itself. -/
def lockTokensOf (server : DavServer) (caches : LockCaches) (s : ResourceState) : List Str :=
  (locksOn server caches s false).map fun lock => lock.2.urn.toStr

/-- The state with all that can be read about the resource filled in. -/
def asStored (server : DavServer) (caches : LockCaches) (s : ResourceState) : ResourceState :=
  if s.collection = .none then { s with documentId := none }
  else { s with
    documentId := none
    etag := s.etag.or (fetchEtag server s)
    lockTokens := if s.lockTokens = [] then lockTokensOf server caches s else s.lockTokens
    syncToken := s.syncToken.or (some (fetchSyncToken server s)) }

/-- The given resource that a list is about, or the one its address names. -/
def target (server : DavServer) (resources : List ResourceState) (if_ : If) : ResourceState :=
  match if_.resource with
  | none => resources.head?.getD resourceNotFound
  | some uri =>
    match resolveResource server uri with
    | none => resourceNotFound
    | some resource =>
      match resources.find? resource.same with
      | some r => r
      | none =>
        if server.hasAccess resource.accountId resource.collection then resource
        else resourceNotFound

/-- **A list of the header holds of the resource it is about, as it stands in the store.** -/
def IfHolds (server : DavServer) (resources : List ResourceState) (caches : LockCaches)
    (ifs : List If) : Prop :=
  ∃ if_ ∈ ifs, if_.list ≠ [] ∧
    ∀ cond ∈ if_.list, cond.holds (asStored server caches (target server resources if_))

section

variable {s : ResourceState} (list : List Condition) (hcollection : s.collection ≠ .none)
include list hcollection

theorem asStored_fillEtag :
    asStored server caches (fillEtag server list s) = asStored server caches s := by
  unfold fillEtag
  split
  · rename_i h
    have hetag : fetchEtag server { s with
        documentId := some (fetchDocumentId server s), etag := fetchEtag server s } =
        fetchEtag server s := rfl
    unfold asStored
    rw [if_neg hcollection, if_neg hcollection, hetag, h.2, Option.or_self]
    rfl
  · rfl

theorem fillLockTokens_spec (hext : Extends server caches caches') :
    Extends server caches (fillLockTokens server list caches' s).2 ∧
      (fillLockTokens server list caches' s).1.collection ≠ .none ∧
      asStored server caches (fillLockTokens server list caches' s).1 =
        asStored server caches s := by
  unfold fillLockTokens
  split
  · rename_i h
    obtain ⟨hfound, hlocks⟩ := findCachePos_spec server caches' s false
      fun h => absurd h hcollection
    rw [locksOn_of_extends hext] at hlocks
    cases hpos? : findCachePos server caches' s with
    | mk idx loaded =>
      rw [hpos?] at hlocks hfound
      cases idx with
      | none => exact ⟨hext.trans hfound, hcollection, rfl⟩
      | some idx =>
        have hsome : findLocksByPos server loaded idx s false = locksOn server caches s false :=
          hlocks
        refine ⟨hext.trans hfound, hcollection, ?_⟩
        simp only [hsome]
        change asStored server caches { s with lockTokens := lockTokensOf server caches s } = _
        unfold asStored
        rw [if_neg hcollection, if_neg hcollection, h.2]
        exact congrArg (fun tokens : List Str => ({ s with
          documentId := none
          etag := s.etag.or (fetchEtag server s)
          lockTokens := tokens
          syncToken := s.syncToken.or (some (fetchSyncToken server s)) } : ResourceState))
          (ite_self _)
  · exact ⟨hext, hcollection, rfl⟩

theorem asStored_fillSyncToken :
    asStored server caches (fillSyncToken server list s) = asStored server caches s := by
  unfold fillSyncToken
  split
  · rename_i h
    unfold asStored
    rw [if_neg hcollection, if_neg hcollection, h.2]
    rfl
  · rfl

end

/-! ## What a filled state says -/

theorem fillEtag_etag {s} {list} (hneeds : needsEtag list) :
    (fillEtag server list s).etag = s.etag.or (fetchEtag server s) := by
  unfold fillEtag
  cases hetag : s.etag with
  | none => rw [if_pos ⟨hneeds, rfl⟩, none_or]
  | some etag => rw [if_neg fun h => some_ne_none etag h.2, hetag, some_or]

theorem fillEtag_frame (server : DavServer) (list : List Condition) (s : ResourceState) :
    ∃ documentId etag,
      fillEtag server list s = { s with documentId := documentId, etag := etag } := by
  unfold fillEtag
  split
  · exact ⟨_, _, rfl⟩
  · exact ⟨s.documentId, s.etag, rfl⟩

theorem fillLockTokens_frame (server : DavServer) (caches : LockCaches) (list : List Condition)
    (s : ResourceState) :
    ∃ tokens, (fillLockTokens server list caches s).1 = { s with lockTokens := tokens } := by
  unfold fillLockTokens
  split
  · cases findCachePos server caches s with
    | mk idx loaded =>
      cases idx with
      | some idx => exact ⟨_, rfl⟩
      | none => exact ⟨s.lockTokens, rfl⟩
  · exact ⟨s.lockTokens, rfl⟩

theorem fillSyncToken_frame (server : DavServer) (list : List Condition) (s : ResourceState) :
    ∃ token, fillSyncToken server list s = { s with syncToken := token } := by
  unfold fillSyncToken
  split
  · exact ⟨_, rfl⟩
  · exact ⟨s.syncToken, rfl⟩

theorem fillLockTokens_tokens {s} {list}
    (hneeds : needsLockToken list) (hcollection : s.collection ≠ .none)
    (hext : Extends server caches caches') :
    (fillLockTokens server list caches' s).1.lockTokens =
      if s.lockTokens = [] then lockTokensOf server caches s else s.lockTokens := by
  unfold fillLockTokens
  by_cases htokens : s.lockTokens = []
  · rw [if_pos ⟨hneeds, htokens⟩, if_pos htokens]
    obtain ⟨-, hlocks⟩ := findCachePos_spec server caches' s false fun h => absurd h hcollection
    rw [locksOn_of_extends hext] at hlocks
    unfold lockTokensOf
    cases hpos? : findCachePos server caches' s with
    | mk idx loaded =>
      rw [hpos?] at hlocks
      cases idx with
      | some idx => exact congrArg (List.map fun lock => lock.2.urn.toStr) hlocks
      | none =>
        have hnone : locksOn server caches s false = [] := hlocks
        rw [hnone]
        exact htokens
  · rw [if_neg fun h => htokens h.2, if_neg htokens]

theorem fillSyncToken_token {s} {list}
    (hneeds : needsSyncToken list) :
    (fillSyncToken server list s).syncToken =
      s.syncToken.or (some (fetchSyncToken server s)) := by
  unfold fillSyncToken
  cases htoken : s.syncToken with
  | none => rw [if_pos ⟨hneeds, rfl⟩, none_or]
  | some token => rw [if_neg fun h => some_ne_none token h.2, htoken, some_or]

theorem Condition.holds_congr {cond : Condition} {list} {s s'}
    (hmem : cond ∈ list) (hetag : needsEtag list → s.etag = s'.etag)
    (hlock : needsLockToken list → s.lockTokens = s'.lockTokens)
    (hsync : needsSyncToken list → s.syncToken = s'.syncToken) :
    cond.holds s = cond.holds s' := by
  cases cond with
  | stateToken isNot token =>
    unfold Condition.holds tryExtractSyncId
    by_cases hprefix : DAVSYNC.isPrefixOf token
    · simp only [if_pos hprefix]
      rw [hsync (any_eq_true.mpr ⟨_, hmem, hprefix⟩)]
    · simp only [if_neg hprefix]
      rw [hlock (List.any_eq_true.mpr ⟨_, hmem, by rw [Bool.not_eq_true', Bool.eq_false_iff]
                                                   exact hprefix⟩)]
  | eTag | exists_ =>
    unfold Condition.holds
    rw [hetag (any_eq_true.mpr ⟨_, hmem, rfl⟩)]

/-- **Filling in what a list needs leaves a state of the same resource, of which its conditions
hold as they do of the store.** -/
theorem fillResource_spec (list : List Condition) (s : ResourceState)
    (hext : Extends server caches caches') :
    Extends server caches (fillResource server list caches' s).2 ∧
      asStored server caches (fillResource server list caches' s).1 =
        asStored server caches s ∧
      ∀ cond ∈ list, cond.holds (fillResource server list caches' s).1 =
        cond.holds (asStored server caches s) := by
  unfold fillResource
  split
  · rename_i h
    obtain ⟨hcollection, -⟩ := h
    obtain ⟨documentId, etag, hframe⟩ := fillEtag_frame server list s
    have hfilled : (fillEtag server list s).collection ≠ .none := by
      rw [hframe]
      exact hcollection
    obtain ⟨hloaded, hcollection', hstored⟩ := fillLockTokens_spec list hfilled hext
    obtain ⟨tokens, hframe'⟩ := fillLockTokens_frame server caches' list
      (fillEtag server list s)
    have hsame := (asStored_fillSyncToken list hcollection').trans
      (hstored.trans (asStored_fillEtag list hcollection))
    obtain ⟨token, hframe''⟩ := fillSyncToken_frame server list
      (fillLockTokens server list caches' (fillEtag server list s)).1
    refine ⟨hloaded, hsame, fun cond hmem => ?_⟩
    have hvalue : asStored server caches s = { s with
        documentId := none
        etag := s.etag.or (fetchEtag server s)
        lockTokens := if s.lockTokens = [] then lockTokensOf server caches s else s.lockTokens
        syncToken := s.syncToken.or (some (fetchSyncToken server s)) } := by
      unfold asStored
      rw [if_neg hcollection]
    change cond.holds (fillSyncToken server list
      (fillLockTokens server list caches' (fillEtag server list s)).1) = _
    refine Condition.holds_congr hmem (fun hneeds => ?_) (fun hneeds => ?_) fun hneeds => ?_
    · rw [hvalue, hframe'', hframe']
      exact fillEtag_etag hneeds
    · rw [hvalue, hframe'']
      refine (fillLockTokens_tokens hneeds hfilled hext).trans ?_
      rw [hframe]
      rfl
    · rw [hvalue]
      refine (fillSyncToken_token hneeds).trans ?_
      rw [hframe', hframe]
      rfl
  · rename_i h
    refine ⟨hext, rfl, fun cond hmem => ?_⟩
    unfold asStored
    split
    · exact Condition.holds_congr hmem (fun _ => rfl) (fun _ => rfl) fun _ => rfl
    · rename_i hcollection
      have hfull : ¬(s.etag = none ∨ s.lockTokens = [] ∨ s.syncToken = none) :=
        fun hmissing => h ⟨hcollection, hmissing⟩
      rw [not_or, not_or] at hfull
      obtain ⟨etag, hetag⟩ := Option.ne_none_iff_exists'.1 hfull.1
      obtain ⟨token, htoken⟩ := Option.ne_none_iff_exists'.1 hfull.2.2
      refine Condition.holds_congr hmem (fun _ => ?_) (fun _ => ?_) fun _ => ?_
      · rw [hetag, some_or]
      · rw [if_neg hfull.2.1]
      · rw [htoken, some_or]

/-! ## The loop over the lists -/

/-- Nothing but its name is known of the resource. -/
def Blank (s : ResourceState) : Prop :=
  s = { accountId := s.accountId, collection := s.collection, path := s.path }

/-- The resources known to the loop: the given ones, with more filled in, and others that a list
named. -/
def Known (server : DavServer) (caches : LockCaches) (resources known : List ResourceState) :
    Prop :=
  ∃ pushed,
    known.map (asStored server caches) = (resources ++ pushed).map (asStored server caches) ∧
    ∀ s ∈ pushed, server.hasAccess s.accountId s.collection ∧ Blank s

theorem ResourceState.same_iff {resource r : ResourceState} :
    resource.same r ↔ r.accountId = resource.accountId ∧ r.collection = resource.collection ∧
      r.path = resource.path := by
  unfold ResourceState.same
  rw [Bool.and_eq_true, Bool.and_eq_true, beq_iff_eq, beq_iff_eq, beq_iff_eq, and_assoc]

theorem same_comp_asStored (server : DavServer) (caches : LockCaches) (resource : ResourceState) :
    resource.same ∘ asStored server caches = resource.same := by
  funext s
  unfold Function.comp asStored
  split
  · rfl
  · rfl

theorem blank_of_resolveResource {uri : Str} {resource : ResourceState}
    (h : resolveResource server uri = some resource) : Blank resource := by
  unfold resolveResource at h
  split at h
  · cases h
    rfl
  · cases h

theorem eq_of_blank {resource s : ResourceState} (hblank : Blank resource) (hblank' : Blank s)
    (hsame : resource.same s) : s = resource := by
  obtain ⟨haccount, hcollection, hpath⟩ := ResourceState.same_iff.1 hsame
  rw [hblank, hblank', haccount, hcollection, hpath]

theorem findIdx?_eq_of_map {known full : List ResourceState} (resource : ResourceState)
    (h : known.map (asStored server caches) = full.map (asStored server caches)) :
    known.findIdx? resource.same = full.findIdx? resource.same := by
  rw [← same_comp_asStored server caches resource, ← List.findIdx?_map, h,
    List.findIdx?_map]

theorem getD_of_map {known full : List ResourceState} {pos : ℕ} {s}
    (h : known.map (asStored server caches) = full.map (asStored server caches))
    (hpos : full[pos]? = some s) :
    pos < known.length ∧
      asStored server caches (known.getD pos resourceNotFound) = asStored server caches s := by
  have hget : (known.map (asStored server caches))[pos]? =
      (full.map (asStored server caches))[pos]? := by rw [h]
  rw [List.getElem?_map, List.getElem?_map, hpos, Option.map_some] at hget
  cases hknown : known[pos]? with
  | none =>
    rw [hknown] at hget
    cases hget
  | some s' =>
    rw [hknown, Option.map_some, Option.some_inj] at hget
    refine ⟨(List.getElem?_eq_some_iff.1 hknown).1, ?_⟩
    rw [getD_eq_getElem?_getD, hknown]
    exact hget

/-- **The state that a list is found to be about is its target, filled in or not.** -/
theorem selectResource_spec (if_ : If) (hne : resources ≠ [])
    (hknown : Known server caches resources known) :
    Known server caches resources (selectResource server known if_).1 ∧
      match (selectResource server known if_).2 with
      | none => target server resources if_ = resourceNotFound
      | some pos => pos < (selectResource server known if_).1.length ∧
          asStored server caches
              ((selectResource server known if_).1.getD pos resourceNotFound) =
            asStored server caches (target server resources if_) := by
  obtain ⟨pushed, hmap, hpushed⟩ := hknown
  unfold selectResource target
  cases if_.resource with
  | none =>
    obtain ⟨first, rest, rfl⟩ := exists_cons_of_ne_nil hne
    have hfirst : (first :: rest ++ pushed)[0]? = some first := rfl
    obtain ⟨hlt, hstored⟩ := getD_of_map hmap hfirst
    have hknown : known ≠ [] := ne_nil_of_length_pos hlt
    rw [if_neg hknown]
    exact ⟨⟨pushed, hmap, hpushed⟩, hlt, hstored⟩
  | some uri =>
    cases hresolve : resolveResource server uri with
    | none =>
      simp only [hresolve]
      exact ⟨⟨pushed, hmap, hpushed⟩, trivial⟩
    | some resource =>
      have hblank := blank_of_resolveResource hresolve
      simp only [hresolve, findIdx?_eq_of_map resource hmap]
      cases hfound : (resources ++ pushed).findIdx? resource.same with
      | some pos =>
        rw [List.findIdx?_eq_some_iff_getElem] at hfound
        obtain ⟨hlt, hsame, hbefore⟩ := hfound
        have hfind : (resources ++ pushed).find? resource.same = some (resources ++ pushed)[pos] :=
          List.find?_eq_some_iff_getElem.2 ⟨hsame, pos, hlt, rfl, fun j hj => by
            rw [Bool.not_eq_true', Bool.eq_false_iff]
            exact hbefore j hj⟩
        obtain ⟨hlt', hstored⟩ := getD_of_map hmap (List.getElem?_eq_getElem hlt)
        refine ⟨⟨pushed, hmap, hpushed⟩, hlt', hstored.trans ?_⟩
        rw [List.find?_append] at hfind
        cases hgiven : resources.find? resource.same with
        | some r =>
          rw [hgiven, some_or] at hfind
          rw [hfind]
        | none =>
          rw [hgiven] at hfind
          obtain ⟨haccess, hblank'⟩ := hpushed _ (List.mem_of_find?_eq_some hfind)
          have heq := eq_of_blank hblank hblank' hsame
          rw [heq] at haccess ⊢
          rw [if_pos haccess]
      | none =>
        rw [List.findIdx?_eq_none_iff] at hfound
        have hgiven : resources.find? resource.same = none :=
          List.find?_eq_none.2 fun s hs h => by
            have hnot := hfound s (mem_append_left pushed hs)
            rw [h] at hnot
            exact Bool.noConfusion hnot
        rw [hgiven]
        by_cases haccess : server.hasAccess resource.accountId resource.collection
        · simp only [if_pos haccess]
          have hmap' : (known ++ [resource]).map (asStored server caches) =
              (resources ++ (pushed ++ [resource])).map (asStored server caches) := by
            rw [map_append, hmap, ← map_append, append_assoc]
          refine ⟨⟨pushed ++ [resource], hmap', fun s hs => ?_⟩, ?_, ?_⟩
          · rcases mem_append.1 hs with hs | hs
            · exact hpushed s hs
            · rw [mem_singleton.1 hs]
              exact ⟨haccess, hblank⟩
          · rw [length_append]
            exact Nat.lt_succ_self known.length
          · rw [getD_eq_getElem?_getD, List.getElem?_concat_length, Option.getD_some]
        · simp only [if_neg haccess]
          exact ⟨⟨pushed, hmap, hpushed⟩, trivial⟩

theorem Known.set {pos : ℕ} {s : ResourceState}
    (hknown : Known server caches resources known) (hpos : pos < known.length)
    (hs : asStored server caches s =
      asStored server caches (known.getD pos resourceNotFound)) :
    Known server caches resources (known.set pos s) := by
  obtain ⟨pushed, hmap, hpushed⟩ := hknown
  refine ⟨pushed, ?_, hpushed⟩
  rw [← hmap, map_set, hs, getD_eq_getElem known resourceNotFound hpos,
    ← getElem_map (asStored server caches)]
  · exact set_getElem_self _
  · rw [length_map]
    exact hpos

theorem ifHolds_cons {if_ : If} {rest : List If} :
    IfHolds server resources caches (if_ :: rest) ↔
      (if_.list ≠ [] ∧
        ∀ cond ∈ if_.list, cond.holds (asStored server caches (target server resources if_))) ∨
      IfHolds server resources caches rest := exists_mem_cons_iff _ _ _

/-- **The loop accepts a request iff a list holds of the resources as they stand in the store.** -/
theorem evaluateIf_iff {ifs : List If} (hne : resources ≠ [])
    (hknown : Known server caches resources known) (hext : Extends server caches caches') :
    evaluateIf server known caches' ifs ↔ IfHolds server resources caches ifs := by
  induction ifs generalizing known caches' with
  | nil =>
    refine ⟨nofun, ?_⟩
    rintro ⟨if_, hmem, -⟩
    cases hmem
  | cons if_ rest ih =>
    rw [ifHolds_cons, evaluateIf]
    by_cases hlist : if_.list = []
    · rw [if_pos hlist, ih hknown hext]
      exact (or_iff_right fun h => h.1 hlist).symm
    · rw [if_neg hlist]
      obtain ⟨hselected, hpos⟩ := selectResource_spec if_ hne hknown
      cases hselect : selectResource server known if_ with
      | mk selected pos =>
        rw [hselect] at hselected hpos
        cases pos with
        | none =>
          have htarget : target server resources if_ = resourceNotFound := hpos
          have hstored : asStored server caches resourceNotFound = resourceNotFound := rfl
          rw [htarget]
          by_cases hall : if_.list.all (·.holds resourceNotFound)
          · simp only [if_pos hall]
            exact ⟨fun _ => .inl ⟨hlist, all_eq_true.1 hall⟩, fun _ => trivial⟩
          · simp only [if_neg hall]
            rw [ih hselected hext]
            exact (or_iff_right fun h => hall (all_eq_true.2 h.2)).symm
        | some pos =>
          obtain ⟨hlt, hstored⟩ := hpos
          obtain ⟨hext', hsame, hconds⟩ := fillResource_spec if_.list
            (selected.getD pos resourceNotFound) hext
          rw [hstored] at hconds
          cases hfill : fillResource server if_.list caches'
              (selected.getD pos resourceNotFound) with
          | mk resourceState loaded =>
            rw [hfill] at hext' hsame hconds
            have hall : if_.list.all (·.holds resourceState) ↔
                ∀ cond ∈ if_.list,
                  cond.holds (asStored server caches (target server resources if_)) := by
              rw [all_eq_true]
              exact forall₂_congr fun cond hmem => by rw [← hconds cond hmem]
            by_cases hholds : if_.list.all (·.holds resourceState)
            · simp only [hfill, if_pos hholds]
              exact ⟨fun _ => .inl ⟨hlist, hall.1 hholds⟩, fun _ => trivial⟩
            · simp only [hfill, if_neg hholds]
              rw [ih (hselected.set hlt hsame) hext']
              exact (or_iff_right fun h => hholds (hall.2 h.2)).symm

/-! ## Requests that are let through -/

theorem known_refl : Known server caches resources resources :=
  ⟨[], by rw [append_nil], nofun⟩

/-- **A request is let through iff it may overwrite what it does, names a lock of the first resource
that has any, and a list of its `If` header holds.** -/
theorem validateHeaders_ok_iff (hmethod : method.skipsLocks = false) (hne : resources ≠ []) :
    validateHeaders server headers resources caches method = .ok () ↔
      ¬(method.overwrites ∧ refusesOverwrite headers resources) ∧
        NamesFirst server headers caches (modifiedResources method resources) ∧
        (headers.if_ = [] ∨ IfHolds server resources caches headers.if_) := by
  have hreads : ¬(method.reads ∧ headers.if_ = []) := by
    rintro ⟨hreads, -⟩
    unfold DavMethod.reads at hreads
    rw [Bool.or_eq_true, beq_iff_eq, beq_iff_eq] at hreads
    rcases hreads with rfl | rfl
    · exact Bool.noConfusion hmethod
    · exact Bool.noConfusion hmethod
  obtain ⟨hloadedExt, hloaded⟩ := foldl_addLockData server resources caches
  obtain ⟨hext, hlocks⟩ := validateLocks_ok_iff headers hmethod hloadedExt hloaded
  unfold validateHeaders
  rw [if_neg hreads]
  by_cases hoverwrite : method.overwrites ∧ refusesOverwrite headers resources
  · rw [if_pos hoverwrite]
    exact ⟨(fun h => nomatch h), fun h => absurd hoverwrite h.1⟩
  · rw [if_neg hoverwrite, hmethod]
    simp only [Bool.false_eq_true, if_false]
    rw [and_iff_right hoverwrite, ← hlocks]
    by_cases hif : headers.if_ = []
    · rw [if_pos hif, and_iff_left (.inl hif)]
    · rw [if_neg hif, or_iff_right hif, ← evaluateIf_iff hne known_refl hext]
      split
      · rename_i hholds
        exact (and_iff_left hholds).symm
      · rename_i hfails
        exact ⟨(fun h => nomatch h), fun h => absurd h.2 hfails⟩

/-- What the scan does not look at once a token of a lock on the first locked resource is found is
covered as well. -/
def CoveredAfter (server : DavServer) (headers : RequestHeaders) (caches : LockCaches)
    (modified : List ResourceState) : Prop :=
  NamesFirst server headers caches modified →
    ∀ r ∈ stopsAt server caches modified, ∀ lock ∈ locksOn server caches r true,
      Covered headers (locksOn server caches r true) lock

theorem mem_stopsAt {r} {lock : Str × LockItem} (hr : r ∈ resources)
    (hlock : lock ∈ locksOn server caches r true) : r ∈ stopsAt server caches resources := by
  induction resources with
  | nil => cases hr
  | cons first rest ih =>
    rw [stopsAt_cons]
    split
    · rename_i hnil
      rcases mem_cons.1 hr with rfl | hr
      · rw [hnil] at hlock
        cases hlock
      · exact ih hr
    · exact hr

/-- **The requests for which a lock that is not covered is always refused.** -/
theorem enforced_iff (server : DavServer) (headers : RequestHeaders)
    (resources : List ResourceState) (locks : LockCaches) (method : DavMethod) :
    Enforced server headers resources locks method ↔
      (method.overwrites ∧ refusesOverwrite headers resources) ∨
        (headers.if_ ≠ [] ∧ ¬ IfHolds server resources locks headers.if_) ∨
        CoveredAfter server headers locks (modifiedResources method resources) := by
  by_cases hnone : modifiedResources method resources = []
  · unfold Enforced CoveredAfter
    rw [hnone]
    exact ⟨fun _ => .inr (.inr nofun),
      nofun⟩
  · have hmethod : method.skipsLocks = false := by
      rw [← Bool.not_eq_true]
      exact fun h => hnone (by rw [modifiedResources, if_pos h])
    have hne : resources ≠ [] := by
      rintro rfl
      refine hnone ?_
      rw [modifiedResources, hmethod, if_neg Bool.false_ne_true, drop_nil, ite_self]
    unfold Enforced
    rw [validateHeaders_ok_iff hmethod hne]
    constructor
    · intro henforced
      by_cases hoverwrite : method.overwrites ∧ refusesOverwrite headers resources
      · exact .inl hoverwrite
      · by_cases hif : headers.if_ = [] ∨ IfHolds server resources locks headers.if_
        · refine .inr (.inr fun hnames r hr => ?_)
          exact henforced ⟨hoverwrite, hnames, hif⟩ r ((dropWhile_sublist _).mem hr)
        · exact .inr (.inl (not_or.1 hif))
    · rintro (hoverwrite | ⟨hif, hfails⟩ | hafter) ⟨hallowed, hnames, hholds⟩
      · cases hallowed hoverwrite
      · cases not_or.2 ⟨hif, hfails⟩ hholds
      · exact fun r hr lock hlock => hafter hnames r (mem_stopsAt hr hlock) lock hlock

/-! ## A move onto a resource that someone else has locked -/

def lockedBy (owner : UInt32) (lockId : UInt64) : LockItem where
  lockId := lockId
  owner := owner
  expires := 100
  depthInfinity := false
  exclusive := true

/-- The file `a` is locked by its user and the file `b` by another one. -/
def twoLocks : LockData where
  locks := [(['a'], [lockedBy 1 10]), (['b'], [lockedBy 2 11])]
  nodup := by decide

def twoLocksServer : DavServer where
  now := 50
  keyGet := fun _ _ => some twoLocks
  validateUri := fun _ => none
  hasAccess := fun _ _ => true
  mapUriResource := fun _ _ _ => none
  archiveEtag := fun _ _ _ => none
  highestChangeId := fun _ _ => 0

def fileAt (path : Str) : ResourceState where
  accountId := 1
  collection := .fileNode
  path := path

/-- The user's own token is submitted. -/
def ownToken : RequestHeaders where
  uri := []
  overwriteFail := false
  if_ := [⟨none, [.stateToken false (lockedBy 1 10).urn.toStr]⟩]

/-- The move of `a` onto `b` is let through without the token of the lock on `b`. -/
theorem second_lock_ignored :
    ¬ Enforced twoLocksServer ownToken [fileAt ['a'], fileAt ['b']] [] .MOVE := by
  intro henforced
  have hok : validateHeaders twoLocksServer ownToken [fileAt ['a'], fileAt ['b']] [] .MOVE =
    .ok () := by decide
  have hcovered := henforced hok (fileAt ['b']) (.tail _ (.head _))
    (['b'], lockedBy 2 11) (by decide)
  rcases hcovered with ⟨if_, hif, isNot, hmem⟩ | ⟨hshared, -⟩
  · rw [ownToken, mem_singleton] at hif
    subst hif
    rw [mem_singleton, Condition.stateToken.injEq] at hmem
    cases hmem.2
  · exact Bool.noConfusion hshared

end MailServer.Dav
