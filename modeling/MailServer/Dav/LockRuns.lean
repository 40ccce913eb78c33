import MailServer.Dav.LockRequest
import MailServer.Lib.Run

/-!
# Runs of lock requests

The lock records of all accounts while clients lock, refresh and unlock resources. A request reads
its record and writes it back in two steps, and any others may come between them.

Principal results: `separate_writeRequest`, `kept_write`, `locks_hold`.
-/

namespace MailServer.Dav

open List
open Option (map_eq_some_iff some_inj)
open MailServer.Store (Collection)
open Runs

variable {lock : LockItem} {answer : Answer} {lockInfo : LockInfo}

/-! ## The system -/

/-- A record under its key, and when the key expires. -/
structure StoredLocks where
  lockData : LockData
  expires : UInt64

/-- A lock that a client was told it has, and where. -/
structure Grant where
  accountId : UInt32
  collection : Collection
  lock : LockItem
deriving DecidableEq

/-- The clock, the records, the requests between their read and their write, and the locks that
clients hold. -/
structure LockWorld where
  now : UInt64
  records : UInt32 → Collection → Option StoredLocks
  pending : List Pending
  granted : List Grant

inductive LockStep where
  /-- Time passes. -/
  | tick (later : UInt64)
  /-- A request comes in and reads its record; the rest of what it reads is arbitrary. -/
  | read (server : DavServer) (user : LockUser) (headers : LockHeaders) (lockInfo : LockRequest)
  /-- A request writes its record, having drawn a number. -/
  | write (idx : ℕ) (random : UInt64)

/-- `key_get`: an expired key has no value. -/
def LockWorld.keyGet (w : LockWorld) (accountId : UInt32) (collection : Collection) :
    Option LockData :=
  match w.records accountId collection with
  | some stored => if w.now < stored.expires then some stored.lockData else none
  | none => none

/-- What is stored for a record: it lasts as long as a lock of it, and is deleted if there is none.
-/
def storedLocks (now : UInt64) (lockData : LockData) : Option StoredLocks :=
  if 0 < lockData.maxExpire then some ⟨lockData, now + lockData.maxExpire⟩ else none

/-- `key_set` or `key_delete`. -/
def LockWorld.keySet (w : LockWorld) (accountId : UInt32) (collection : Collection)
    (value : Option StoredLocks) : UInt32 → Collection → Option StoredLocks :=
  fun accountId' collection' =>
    if accountId' = accountId ∧ collection' = collection then value
    else w.records accountId' collection'

/-- The client gives up or replaces the locks with the id. -/
def Grant.isFor (p : Pending) (lockId : UInt64) (grant : Grant) : Bool :=
  grant.accountId == p.accountId && grant.collection == mainCollection p.collection &&
    grant.lock.lockId == lockId

/-- What clients hold after the answer to a request. -/
def afterAnswer (p : Pending) (granted : List Grant) : Answer → List Grant
  | .locked lock =>
    ⟨p.accountId, mainCollection p.collection, lock⟩ ::
      granted.filter fun grant => !(decide (0 < p.ifLockToken) && grant.isFor p p.ifLockToken)
  | .unlocked lockId => granted.filter fun grant => !grant.isFor p lockId

/-- One step. A request that fails leaves everything but the pending requests as it was. -/
def LockWorld.step (config : LockConfig) (w : LockWorld) : LockStep → Option LockWorld
  | .tick later => if w.now ≤ later then some { w with now := later } else none
  | .read server user headers lockInfo =>
    match readRequest { server with now := w.now, keyGet := w.keyGet } config user headers
        lockInfo with
    | .ok p => some { w with pending := w.pending ++ [p] }
    | .error _ => some w
  | .write idx random =>
    match w.pending[idx]? with
    | none => none
    | some p =>
      match p.writeRequest config w.now random with
      | .ok (lockData, answer) =>
        some {
          now := w.now
          records := w.keySet p.accountId (mainCollection p.collection)
            (storedLocks w.now lockData)
          pending := w.pending.eraseIdx idx
          granted := afterAnswer p w.granted answer }
      | .error _ => some { w with pending := w.pending.eraseIdx idx }

/-- No records, no requests. -/
def LockWorld.start (now : UInt64) : LockWorld := ⟨now, fun _ _ => none, [], []⟩

/-! ## What locks are for -/

/-- **Exclusive**: no record has two active locks with different ids, one exclusive, on a resource
in common. -/
def LockWorld.Exclusive (w : LockWorld) : Prop :=
  ∀ accountId collection stored, w.records accountId collection = some stored →
    ∀ path, ∀ lock ∈ stored.lockData.get path, ∀ path', ∀ lock' ∈ stored.lockData.get path',
      w.now < lock.expires → w.now < lock'.expires → lock.lockId ≠ lock'.lockId →
        ¬ Conflicting path lock path' lock'

/-- **Kept**: the locks that clients hold are in the records until they expire. -/
def LockWorld.Kept (w : LockWorld) : Prop :=
  ∀ grant ∈ w.granted, w.now < grant.lock.expires →
    ∃ lockData, w.keyGet grant.accountId grant.collection = some lockData ∧
      ∃ path, grant.lock ∈ lockData.get path

/-! ## Conditions on a write -/

/-- A refresh submits a token. A `LOCK` rewrites the only lock with the submitted id, on the path of
the request; if it submits none, no lock has the id that stands for none. -/
def Pending.Proper (p : Pending) : Prop :=
  match p.lockInfo with
  | .lock _ =>
    p.lockData.pathsOf p.ifLockToken = [] ∨
      0 < p.ifLockToken ∧ p.lockData.pathsOf p.ifLockToken = [p.resourcePath]
  | .refresh => 0 < p.ifLockToken
  | .unlock => True

def ProperWrite (w : LockWorld) : LockStep → Prop
  | .write idx _ => ∀ p ∈ w.pending[idx]?, p.Proper
  | _ => True

/-- The request has read every active lock of the record that it replaces. -/
def LockWorld.ReadAll (w : LockWorld) (p : Pending) : Prop :=
  ∀ stored ∈ w.records p.accountId (mainCollection p.collection),
    ∀ entry ∈ stored.lockData.locks, ∀ lock ∈ entry.2, w.now < lock.expires →
      lock ∈ p.lockData.get entry.1

/-- The clock and the longest timeout are far from the largest number. -/
def LockWorld.InTime (config : LockConfig) (w : LockWorld) : Prop :=
  w.now.toNat + (w.now.toNat + config.maxLockTimeout.toNat) < 2 ^ 64

def CurrentWrite (config : LockConfig) (w : LockWorld) : LockStep → Prop
  | .write idx _ => w.InTime config ∧ ∀ p ∈ w.pending[idx]?, w.ReadAll p
  | _ => True

instance (p : Pending) : Decidable p.Proper :=
  match h : p.lockInfo with
  | .lock _ => decidable_of_iff (p.lockData.pathsOf p.ifLockToken = [] ∨
      0 < p.ifLockToken ∧ p.lockData.pathsOf p.ifLockToken = [p.resourcePath])
      (by unfold Pending.Proper; rw [h])
  | .refresh => decidable_of_iff (0 < p.ifLockToken) (by unfold Pending.Proper; rw [h])
  | .unlock => isTrue (by unfold Pending.Proper; rw [h]; trivial)

instance (w : LockWorld) : (a : LockStep) → Decidable (ProperWrite w a)
  | .write idx _ => inferInstanceAs (Decidable (∀ p ∈ w.pending[idx]?, p.Proper))
  | .tick _ => isTrue trivial
  | .read _ _ _ _ => isTrue trivial

instance (w : LockWorld) (p : Pending) : Decidable (w.ReadAll p) :=
  inferInstanceAs (Decidable (∀ stored ∈ w.records p.accountId (mainCollection p.collection),
    ∀ entry ∈ stored.lockData.locks, ∀ lock ∈ entry.2, w.now < lock.expires →
      lock ∈ p.lockData.get entry.1))

instance (config : LockConfig) (w : LockWorld) :
    (a : LockStep) → Decidable (CurrentWrite config w a)
  | .write idx _ => inferInstanceAs (Decidable (w.now.toNat + (w.now.toNat +
      config.maxLockTimeout.toNat) < 2 ^ 64 ∧ ∀ p ∈ w.pending[idx]?, w.ReadAll p))
  | .tick _ => isTrue trivial
  | .read _ _ _ _ => isTrue trivial

/-! ## Records whose locks are apart -/

/-- No two locks of the record with different ids are in conflict, whether active or not. -/
def LockData.Separate (data : LockData) : Prop :=
  ∀ path, ∀ lock ∈ data.get path, ∀ path', ∀ lock' ∈ data.get path',
    lock.lockId ≠ lock'.lockId → ¬ Conflicting path lock path' lock'

variable {config : LockConfig} {w w' : LockWorld} {p : Pending} {data data' : LockData}
  {now random : UInt64}

theorem separate_empty : LockData.empty.Separate :=
  fun _ _ h => absurd h LockData.mem_get_empty

/-- A record stays separate if each of its locks is like one that was on the same path. -/
theorem LockData.Separate.of_origin (h : data.Separate)
    (horigin : ∀ path, ∀ lock ∈ data'.get path, ∃ old ∈ data.get path,
      old.lockId = lock.lockId ∧ old.depthInfinity = lock.depthInfinity ∧
        old.exclusive = lock.exclusive) : data'.Separate := by
  intro path lock hlock path' lock' hlock' hne hconflict
  obtain ⟨old, hold, hid, hdepth, hexclusive⟩ := horigin path lock hlock
  obtain ⟨old', hold', hid', hdepth', hexclusive'⟩ := horigin path' lock' hlock'
  refine h path old hold path' old' hold' (by rw [hid, hid']; exact hne) ?_
  unfold Conflicting at hconflict ⊢
  rw [hdepth, hdepth', hexclusive, hexclusive']
  exact hconflict

theorem LockData.Separate.of_subset (h : data.Separate)
    (hsub : ∀ path, ∀ lock ∈ data'.get path, lock ∈ data.get path) : data'.Separate :=
  h.of_origin fun path lock hlock => ⟨lock, hsub path lock hlock, rfl, rfl, rfl⟩

/-- A record stays separate if its locks are ones it had and a new one that is in conflict with none
of them. -/
theorem LockData.Separate.of_insert (h : data.Separate) (atPath : Str) (item : LockItem)
    (hnew : ∀ path, ∀ lock ∈ data'.get path,
      (lock ∈ data.get path ∧ ¬ Conflicting path lock atPath item) ∨
        path = atPath ∧ lock = item) : data'.Separate := by
  intro path lock hlock path' lock' hlock' hne hconflict
  rcases hnew path lock hlock with ⟨hlock, hapart⟩ | ⟨rfl, rfl⟩
  · rcases hnew path' lock' hlock' with ⟨hlock', -⟩ | ⟨rfl, rfl⟩
    · exact h path lock hlock path' lock' hlock' hne hconflict
    · exact hapart hconflict
  · rcases hnew path' lock' hlock' with ⟨-, hapart⟩ | ⟨rfl, rfl⟩
    · exact hapart hconflict.symm
    · exact hne rfl

theorem Pending.rewrite_refresh (h : p.lockInfo = .refresh) (lock : LockItem) :
    (p.rewrite config now random lock).lockId = lock.lockId ∧
      (p.rewrite config now random lock).depthInfinity = lock.depthInfinity ∧
      (p.rewrite config now random lock).exclusive = lock.exclusive := by
  unfold Pending.rewrite
  rw [h]
  exact ⟨rfl, rfl, rfl⟩

theorem Pending.rewrite_lock (h : p.lockInfo = .lock lockInfo) (lock : LockItem) :
    (p.rewrite config now random lock).depthInfinity = p.headers.isInfinity ∧
      (p.rewrite config now random lock).exclusive = (lockInfo.lockScope == .Exclusive) := by
  unfold Pending.rewrite
  rw [h]
  exact ⟨rfl, rfl⟩

theorem Pending.rewrite_lock_const (h : p.lockInfo = .lock lockInfo) (lock other : LockItem) :
    p.rewrite config now random lock = p.rewrite config now random other := by
  unfold Pending.rewrite
  rw [h]

theorem separate_refresh (hinfo : p.lockInfo = .refresh)
    (hproper : p.Proper) (hseparate : p.lockData.Separate)
    (h : p.upsertLock config now random = .ok (data, lock)) : data.Separate := by
  unfold Pending.Proper at hproper
  rw [hinfo] at hproper
  rcases Pending.upsertLock_ok h with ⟨-, old, -, heq⟩ | ⟨htoken, -⟩
  · cases heq
    refine hseparate.of_origin fun path lock hlock => ?_
    rcases LockData.mem_replaceLock hlock with hlock | ⟨old, hold, -, rfl⟩
    · exact ⟨lock, hlock, rfl, rfl, rfl⟩
    · obtain ⟨hid, hdepth, hexclusive⟩ := Pending.rewrite_refresh hinfo old
      exact ⟨old, hold, hid.symm, hdepth.symm, hexclusive.symm⟩
  · cases htoken hproper

/-- The active locks after a `LOCK`: the ones checked, and the one asked for on the path of the
request. -/
theorem separate_lock (hinfo : p.lockInfo = .lock lockInfo) (hproper : p.Proper)
    (hseparate : p.lockData.Separate) (hchecked : p.Checked now)
    (h : p.upsertLock config now random = .ok (data, lock)) :
    (data.removeExpired now).Separate := by
  unfold Pending.Proper at hproper
  rw [hinfo] at hproper
  have hapart : ∀ path, ∀ other ∈ p.lockData.get path, now < other.expires →
      other.lockId ≠ p.ifLockToken → ∀ item,
        ¬ Conflicting path other p.resourcePath (p.rewrite config now random item) :=
    fun path other hother hactive hne item =>
      hchecked lockInfo hinfo path other hother hactive hne _
        (Pending.rewrite_lock hinfo item).2 (Pending.rewrite_lock hinfo item).1
  refine hseparate.of_insert p.resourcePath (p.rewrite config now random .default)
    fun path other hother => ?_
  obtain ⟨hother, hactive⟩ := LockData.mem_removeExpired.1 hother
  rcases Pending.upsertLock_ok h with ⟨htoken, old, hfind, heq⟩ | ⟨htoken, heq⟩
  · cases heq
    obtain ⟨hid, key, hold⟩ := LockData.mem_of_findId hfind
    have hkey := LockData.mem_pathsOf.2 ⟨old, hold, hid⟩
    have hunique : p.lockData.pathsOf p.ifLockToken = [p.resourcePath] := by
      rcases hproper with hnone | ⟨-, hunique⟩
      · rw [hnone] at hkey
        cases hkey
      · exact hunique
    rcases LockData.mem_replaceLock_unique hunique hother with ⟨hother, hne⟩ | ⟨rfl, old, rfl⟩
    · exact .inl ⟨hother, hapart path other hother hactive hne _⟩
    · exact .inr ⟨rfl, Pending.rewrite_lock_const hinfo _ _⟩
  · cases heq
    rcases LockData.mem_pushLock.1 hother with hother | ⟨rfl, rfl⟩
    · refine .inl ⟨hother, hapart path other hother hactive (fun hid => ?_) _⟩
      -- Without a token, the id of none would have to be that of a lock.
      have hnone : p.lockData.pathsOf p.ifLockToken = [] :=
        hproper.resolve_right fun h => htoken h.1
      have hpath := LockData.mem_pathsOf.2 ⟨other, hother, hid⟩
      rw [hnone] at hpath
      exact not_mem_nil hpath
    · exact .inr ⟨rfl, rfl⟩

/-- **A request keeps the locks apart if a refresh submits a token and the lock that a `LOCK`
rewrites is the only one with its id and on the path of the request.** -/
theorem separate_writeRequest (hproper : p.Proper)
    (hseparate : p.lockData.Separate) (hchecked : p.Checked now)
    (h : p.writeRequest config now random = .ok (data, answer)) : data.Separate := by
  rcases Pending.writeRequest_ok h with ⟨hinfo, changed, lock, hupsert, heq⟩ | ⟨-, lockId, heq⟩
  · cases heq
    cases hlock : p.lockInfo with
    | lock lockInfo => exact separate_lock hlock hproper hseparate hchecked hupsert
    | unlock => cases hinfo hlock
    | refresh =>
      exact (separate_refresh hlock hproper hseparate hupsert).of_subset fun _ _ hmem =>
        (LockData.mem_removeExpired.1 hmem).1
  · cases heq
    exact hseparate.of_subset fun _ _ hmem =>
      LockData.mem_of_mem_removeLock (LockData.mem_removeExpired.1 hmem).1

/-- The locks of every record are apart, and so are those that each request has read. -/
structure LockWorld.Apart (w : LockWorld) : Prop where
  records : ∀ accountId collection stored, w.records accountId collection = some stored →
    stored.lockData.Separate
  pending : ∀ p ∈ w.pending, p.lockData.Separate ∧ p.Checked w.now

theorem LockWorld.Apart.exclusive (h : w.Apart) : w.Exclusive :=
  fun accountId collection stored hstored path lock hlock path' lock' hlock' _ _ =>
    h.records accountId collection stored hstored path lock hlock path' lock' hlock'

theorem apart_start (now : UInt64) : (LockWorld.start now).Apart :=
  ⟨(fun _ _ _ h => by cases h), fun _ h => absurd h not_mem_nil⟩

theorem LockWorld.keyGet_eq_some {accountId : UInt32} {collection : Collection}
    (h : w.keyGet accountId collection = some data) :
    ∃ stored, w.records accountId collection = some stored ∧ stored.lockData = data := by
  unfold LockWorld.keyGet at h
  cases hrecord : w.records accountId collection with
  | none =>
    rw [hrecord] at h
    cases h
  | some stored =>
    rw [hrecord] at h
    simp only at h
    split_ifs at h
    exact ⟨stored, rfl, some_inj.1 h⟩

theorem readRequest_stored {server : DavServer} {user : LockUser} {headers : LockHeaders}
    {lockInfo : LockRequest}
    (h : readRequest { server with now := w.now, keyGet := w.keyGet } config user headers
      lockInfo = .ok p) :
    (∃ stored, w.records p.accountId (mainCollection p.collection) = some stored ∧
      stored.lockData = p.lockData) ∨ p.lockData = LockData.empty := by
  obtain ⟨-, -, -, hread⟩ := readRequest_record h
  exact (readRecord_stored hread).imp_left LockWorld.keyGet_eq_some

theorem storedLocks_eq_some {stored : StoredLocks} (h : storedLocks now data = some stored) :
    stored = ⟨data, now + data.maxExpire⟩ := by
  unfold storedLocks at h
  split_ifs at h
  exact (some_inj.1 h).symm

theorem LockWorld.forall_keySet {P : UInt32 → Collection → StoredLocks → Prop} {accountId : UInt32}
    {collection : Collection} {value : Option StoredLocks}
    (hvalue : ∀ stored, value = some stored → P accountId collection stored)
    (h : ∀ accountId collection stored, w.records accountId collection = some stored →
      P accountId collection stored)
    (accountId' : UInt32) (collection' : Collection) (stored : StoredLocks)
    (hstored : w.keySet accountId collection value accountId' collection' = some stored) :
    P accountId' collection' stored := by
  unfold LockWorld.keySet at hstored
  by_cases hkey : accountId' = accountId ∧ collection' = collection
  · rw [if_pos hkey] at hstored
    rw [hkey.1, hkey.2]
    exact hvalue stored hstored
  · rw [if_neg hkey] at hstored
    exact h accountId' collection' stored hstored

/-- A step is time passing, a request that comes in, or one that is answered. -/
theorem LockWorld.step_cases {a : LockStep} (h : w.step config a = some w') :
    (∃ later, a = .tick later ∧ w.now ≤ later ∧ w' = { w with now := later }) ∨
      (∃ server user headers lockInfo p, a = .read server user headers lockInfo ∧
        readRequest { server with now := w.now, keyGet := w.keyGet } config user headers lockInfo =
          .ok p ∧ w' = { w with pending := w.pending ++ [p] }) ∨
      (∃ idx random p data answer, a = .write idx random ∧ w.pending[idx]? = some p ∧
        p.writeRequest config w.now random = .ok (data, answer) ∧
        w' = {
          now := w.now
          records := w.keySet p.accountId (mainCollection p.collection) (storedLocks w.now data)
          pending := w.pending.eraseIdx idx
          granted := afterAnswer p w.granted answer }) ∨
      (∃ pending, pending.Sublist w.pending ∧ w' = { w with pending := pending }) := by
  cases a with
  | tick later =>
    unfold LockWorld.step at h
    simp only at h
    split_ifs at h with hle
    exact .inl ⟨later, rfl, hle, (some_inj.1 h).symm⟩
  | read server user headers lockInfo =>
    unfold LockWorld.step at h
    simp only at h
    cases hread : readRequest { server with now := w.now, keyGet := w.keyGet } config user headers
        lockInfo with
    | error e =>
      rw [hread] at h
      exact .inr (.inr (.inr ⟨w.pending, List.Sublist.refl _, (some_inj.1 h).symm⟩))
    | ok p =>
      rw [hread] at h
      exact .inr (.inl ⟨server, user, headers, lockInfo, p, rfl, hread,
        (some_inj.1 h).symm⟩)
  | write idx random =>
    unfold LockWorld.step at h
    simp only at h
    cases hp : w.pending[idx]? with
    | none =>
      rw [hp] at h
      cases h
    | some p =>
      rw [hp] at h
      simp only at h
      cases hwrite : p.writeRequest config w.now random with
      | error e =>
        rw [hwrite] at h
        exact .inr (.inr (.inr ⟨_, eraseIdx_sublist _ _, (some_inj.1 h).symm⟩))
      | ok result =>
        rw [hwrite] at h
        exact .inr (.inr (.inl ⟨idx, random, p, result.1, result.2, rfl, hp, hwrite,
          (some_inj.1 h).symm⟩))

/-- **Step.** A proper write keeps the locks of all records apart. -/
theorem LockWorld.Apart.step {a : LockStep} (h : w.Apart) (hproper : ProperWrite w a)
    (hstep : w.step config a = some w') : w'.Apart := by
  rcases LockWorld.step_cases hstep with ⟨later, rfl, hle, rfl⟩ |
    ⟨server, user, headers, lockInfo, p, rfl, hread, rfl⟩ |
    ⟨idx, random, p, data, answer, rfl, hp, hwrite, rfl⟩ | ⟨pending, hsub, rfl⟩
  · exact ⟨h.records, fun p hp => ⟨(h.pending p hp).1, (h.pending p hp).2.later hle⟩⟩
  · refine ⟨h.records, fun q hq => ?_⟩
    rcases mem_append.1 hq with hq | hq
    · exact h.pending q hq
    · rw [mem_singleton] at hq
      subst hq
      refine ⟨?_, readRequest_checked hread⟩
      rcases readRequest_stored hread with ⟨stored, hstored, heq⟩ | hempty
      · rw [← heq]
        exact h.records _ _ stored hstored
      · rw [hempty]
        exact separate_empty
  · obtain ⟨hseparate, hchecked⟩ := h.pending p (List.mem_of_getElem? hp)
    refine ⟨LockWorld.forall_keySet (fun stored hstored => ?_) h.records, fun q hq =>
      h.pending q (mem_of_mem_eraseIdx hq)⟩
    rw [storedLocks_eq_some hstored]
    exact separate_writeRequest (hproper p hp) hseparate hchecked hwrite
  · exact ⟨h.records, fun p hp => h.pending p (hsub.mem hp)⟩

/-! ## Locks that last -/

theorem toNat_expires_le (p : Pending) (config : LockConfig) (now : UInt64) :
    (p.expires config now).toNat ≤ now.toNat + config.maxLockTimeout.toNat := by
  have hle : ∀ timeout, timeout ≤ config.maxLockTimeout →
      (now + timeout).toNat ≤ now.toNat + config.maxLockTimeout.toNat := by
    intro timeout h
    rw [UInt64.le_iff_toNat_le] at h
    rw [UInt64.toNat_add]
    omega
  unfold Pending.expires
  cases p.headers.timeout with
  | Second seconds =>
    refine hle _ ?_
    change ite _ _ _ ≤ _
    split_ifs with h
    · exact h
    · exact UInt64.le_refl _
  | Infinite | None => exact hle _ (UInt64.le_refl _)

theorem rewrite_expires (lock : LockItem) :
    (p.rewrite config now random lock).expires = p.expires config now := by
  unfold Pending.rewrite
  cases p.lockInfo <;> rfl

/-- No lock of the record expires later. -/
def LockData.ExpiresBy (data : LockData) (bound : ℕ) : Prop :=
  ∀ path, ∀ lock ∈ data.get path, lock.expires.toNat ≤ bound

theorem foldl_expires_mem (locks : List LockItem) (start : UInt64) :
    locks.foldl (fun maxExpire lock => max maxExpire lock.expires) start = start ∨
      ∃ lock ∈ locks,
        locks.foldl (fun maxExpire lock => max maxExpire lock.expires) start = lock.expires := by
  induction locks generalizing start with
  | nil => exact .inl rfl
  | cons first rest ih =>
    rw [foldl_cons]
    rcases ih (max start first.expires) with heq | ⟨lock, hlock, heq⟩
    · rw [heq]
      change ite _ _ _ = _ ∨ ∃ lock ∈ _, ite _ _ _ = _
      split_ifs with h
      · exact .inr ⟨first, .head _, rfl⟩
      · exact .inl rfl
    · exact .inr ⟨lock, .tail _ hlock, heq⟩

theorem LockData.ExpiresBy.maxExpire {bound : ℕ} (h : data.ExpiresBy bound) :
    data.maxExpire.toNat ≤ bound := by
  rcases foldl_expires_mem (data.locks.flatMap Prod.snd) 0 with heq | ⟨lock, hlock, heq⟩
  · unfold LockData.maxExpire
    rw [heq]
    exact Nat.zero_le bound
  · unfold LockData.maxExpire
    rw [heq]
    obtain ⟨entry, hentry, hlock⟩ := mem_flatMap.1 hlock
    exact h entry.1 lock (LockData.mem_get.2 ⟨entry.2, hentry, hlock⟩)

/-- The locks that the answer leaves to the clients are in the record that is written. -/
theorem writeRequest_keeps
    (h : p.writeRequest config now random = .ok (data, answer)) {granted : List Grant}
    (hgranted : ∀ grant ∈ granted, grant.accountId = p.accountId →
      grant.collection = mainCollection p.collection → now < grant.lock.expires →
        ∃ path, grant.lock ∈ p.lockData.get path) :
    ∀ grant ∈ afterAnswer p granted answer, grant.accountId = p.accountId →
      grant.collection = mainCollection p.collection → now < grant.lock.expires →
        ∃ path, grant.lock ∈ data.get path := by
  intro grant hgrant haccount hcollection hactive
  have hactive_iff : ∀ {changed : LockData}, (∃ path, grant.lock ∈ changed.get path) →
      ∃ path, grant.lock ∈ (changed.removeExpired now).get path := fun ⟨path, hmem⟩ =>
    ⟨path, LockData.mem_removeExpired.2 ⟨hmem, hactive⟩⟩
  have hisFor : ∀ lockId, grant.isFor p lockId = decide (grant.lock.lockId = lockId) := by
    intro lockId
    unfold Grant.isFor
    rw [haccount, hcollection, beq_self_eq_true, beq_self_eq_true]
    rfl
  rcases Pending.writeRequest_ok h with ⟨-, changed, lock, hupsert, heq⟩ | ⟨-, lockId, heq⟩
  · cases heq
    refine hactive_iff ?_
    rcases mem_cons.1 hgrant with rfl | hgrant
    · -- The lock that the client is told of.
      rcases Pending.upsertLock_ok hupsert with ⟨-, old, hfind, heq⟩ | ⟨-, heq⟩
      · cases heq
        exact LockData.mem_replaceLock_found hfind
      · cases heq
        exact ⟨p.resourcePath, LockData.mem_pushLock.2 (.inr ⟨rfl, rfl⟩)⟩
    · rw [mem_filter, hisFor] at hgrant
      obtain ⟨path, hmem⟩ := hgranted grant hgrant.1 haccount hcollection hactive
      rcases Pending.upsertLock_ok hupsert with ⟨htoken, old, -, heq⟩ | ⟨-, heq⟩
      · obtain ⟨rfl, -⟩ := Prod.mk.inj heq
        have hne : grant.lock.lockId ≠ p.ifLockToken := by
          have hkept := hgrant.2
          rw [decide_eq_true htoken, Bool.true_and, Bool.not_eq_true', decide_eq_false_iff_not]
            at hkept
          exact hkept
        exact ⟨path, LockData.mem_replaceLock_of_ne hmem hne⟩
      · cases heq
        exact ⟨path, LockData.mem_pushLock.2 (.inl hmem)⟩
  · cases heq
    refine hactive_iff ?_
    unfold afterAnswer at hgrant
    rw [mem_filter, hisFor, Bool.not_eq_true', decide_eq_false_iff_not] at hgrant
    obtain ⟨path, hmem⟩ := hgranted grant hgrant.1 haccount hcollection hactive
    exact ⟨path, LockData.mem_removeLock_of_ne hmem hgrant.2⟩

theorem writeRequest_expiresBy {bound : ℕ}
    (h : p.writeRequest config now random = .ok (data, answer))
    (hread : p.lockData.ExpiresBy bound) (hbound : (p.expires config now).toNat ≤ bound) :
    data.ExpiresBy bound := by
  intro path lock hlock
  rcases Pending.writeRequest_ok h with ⟨-, changed, item, hupsert, heq⟩ | ⟨-, lockId, heq⟩
  · cases heq
    have hlock := (LockData.mem_removeExpired.1 hlock).1
    rcases Pending.upsertLock_ok hupsert with ⟨-, old, -, heq⟩ | ⟨-, heq⟩
    · cases heq
      rcases LockData.mem_replaceLock hlock with hlock | ⟨old, -, -, rfl⟩
      · exact hread path lock hlock
      · rw [rewrite_expires]
        exact hbound
    · cases heq
      rcases LockData.mem_pushLock.1 hlock with hlock | ⟨-, rfl⟩
      · exact hread path lock hlock
      · rw [rewrite_expires]
        exact hbound
  · cases heq
    exact hread path lock (LockData.mem_of_mem_removeLock (LockData.mem_removeExpired.1 hlock).1)

/-- The locks that clients hold are in the records, whose keys outlive them; nothing outlasts the
longest timeout. -/
structure LockWorld.Lasting (config : LockConfig) (w : LockWorld) : Prop where
  held : ∀ grant ∈ w.granted, w.now < grant.lock.expires →
    ∃ stored, w.records grant.accountId grant.collection = some stored ∧
      ∃ path, grant.lock ∈ stored.lockData.get path
  outlives : ∀ accountId collection stored, w.records accountId collection = some stored →
    ∀ path, ∀ lock ∈ stored.lockData.get path, lock.expires ≤ stored.expires
  recordsExpireBy : ∀ accountId collection stored,
    w.records accountId collection = some stored →
      stored.lockData.ExpiresBy (w.now.toNat + config.maxLockTimeout.toNat)
  pendingExpireBy : ∀ p ∈ w.pending,
    p.lockData.ExpiresBy (w.now.toNat + config.maxLockTimeout.toNat)

theorem LockWorld.Lasting.kept (h : w.Lasting config) : w.Kept := by
  intro grant hgrant hactive
  obtain ⟨stored, hstored, path, hmem⟩ := h.held grant hgrant hactive
  refine ⟨stored.lockData, ?_, path, hmem⟩
  unfold LockWorld.keyGet
  rw [hstored]
  exact if_pos (UInt64.lt_of_lt_of_le hactive (h.outlives _ _ stored hstored path _ hmem))

theorem lasting_start (config : LockConfig) (now : UInt64) :
    (LockWorld.start now).Lasting config where
  held _ h := absurd h not_mem_nil
  outlives _ _ _ h := by cases h
  recordsExpireBy _ _ _ h := by cases h
  pendingExpireBy _ h := absurd h not_mem_nil

theorem LockData.ExpiresBy.mono {bound bound' : ℕ} (h : data.ExpiresBy bound)
    (hle : bound ≤ bound') : data.ExpiresBy bound' :=
  fun path lock hlock => (h path lock hlock).trans hle

theorem outlives_storedLocks {bound : ℕ} {stored : StoredLocks}
    (h : storedLocks now data = some stored) (hexpires : data.ExpiresBy bound)
    (htime : now.toNat + bound < 2 ^ 64) :
    ∀ path, ∀ lock ∈ stored.lockData.get path, lock.expires ≤ stored.expires := by
  rw [storedLocks_eq_some h]
  intro path lock hlock
  have hmax := hexpires.maxExpire
  have hsum : (now + data.maxExpire).toNat = now.toNat + data.maxExpire.toNat := by
    rw [UInt64.toNat_add, Nat.mod_eq_of_lt (by omega)]
  have hle : lock.expires.toNat ≤ data.maxExpire.toNat :=
    UInt64.le_iff_toNat_le.1 (LockData.le_maxExpire hlock)
  rw [UInt64.le_iff_toNat_le, hsum]
  omega

theorem storedLocks_of_active {path : Str} (hmem : lock ∈ data.get path)
    (hactive : now < lock.expires) :
    storedLocks now data = some ⟨data, now + data.maxExpire⟩ := by
  have hpos : 0 < data.maxExpire := by
    have hle := LockData.le_maxExpire hmem
    exact Nat.lt_of_le_of_lt (Nat.zero_le _) (Nat.lt_of_lt_of_le hactive hle)
  unfold storedLocks
  rw [if_pos hpos]

/-- **A write keeps every lock that clients hold if the request has read all the active locks of
the record that it replaces.** -/
theorem kept_write {idx : ℕ} (h : w.Lasting config) (htime : w.InTime config)
    (hp : w.pending[idx]? = some p) (hread : w.ReadAll p)
    (hwrite : p.writeRequest config w.now random = .ok (data, answer)) :
    LockWorld.Lasting config {
      now := w.now
      records := w.keySet p.accountId (mainCollection p.collection) (storedLocks w.now data)
      pending := w.pending.eraseIdx idx
      granted := afterAnswer p w.granted answer } := by
  have hexpires : data.ExpiresBy (w.now.toNat + config.maxLockTimeout.toNat) :=
    writeRequest_expiresBy hwrite (h.pendingExpireBy p (List.mem_of_getElem? hp))
      (toNat_expires_le p config w.now)
  refine ⟨fun grant hgrant hactive => ?_, ?_, ?_, fun q hq =>
    h.pendingExpireBy q (mem_of_mem_eraseIdx hq)⟩
  · by_cases hkey : grant.accountId = p.accountId ∧
      grant.collection = mainCollection p.collection
    · obtain ⟨path, hmem⟩ := writeRequest_keeps hwrite
        (fun grant hgrant haccount hcollection hactive => by
          obtain ⟨stored, hstored, path, hmem⟩ := h.held grant hgrant hactive
          rw [haccount, hcollection] at hstored
          obtain ⟨items, hentry, hmem⟩ := LockData.mem_get.1 hmem
          exact ⟨path, hread stored hstored (path, items) hentry _ hmem hactive⟩)
        grant hgrant hkey.1 hkey.2 hactive
      refine ⟨⟨data, w.now + data.maxExpire⟩, ?_, path, hmem⟩
      change w.keySet _ _ _ _ _ = _
      unfold LockWorld.keySet
      rw [if_pos hkey]
      exact storedLocks_of_active hmem hactive
    · have hold : grant ∈ w.granted := by
        cases answer with
        | locked lock =>
          rcases mem_cons.1 hgrant with rfl | hgrant
          · cases hkey ⟨rfl, rfl⟩
          · exact (mem_filter.1 hgrant).1
        | unlocked lockId => exact (mem_filter.1 hgrant).1
      obtain ⟨stored, hstored, hpath⟩ := h.held grant hold hactive
      refine ⟨stored, ?_, hpath⟩
      change w.keySet _ _ _ _ _ = _
      unfold LockWorld.keySet
      rw [if_neg hkey]
      exact hstored
  · exact LockWorld.forall_keySet
      (fun stored hstored => outlives_storedLocks hstored hexpires htime) h.outlives
  · refine LockWorld.forall_keySet (fun stored hstored => ?_) h.recordsExpireBy
    rw [storedLocks_eq_some hstored]
    exact hexpires

/-- **Step.** A write by a request that has read the record as it is keeps the locks of clients. -/
theorem LockWorld.Lasting.step {a : LockStep} (h : w.Lasting config)
    (hcurrent : CurrentWrite config w a) (hstep : w.step config a = some w') :
    w'.Lasting config := by
  rcases LockWorld.step_cases hstep with ⟨later, rfl, hle, rfl⟩ |
    ⟨server, user, headers, lockInfo, p, rfl, hread, rfl⟩ |
    ⟨idx, random, p, data, answer, rfl, hp, hwrite, rfl⟩ | ⟨pending, hsub, rfl⟩
  · have hlater := UInt64.le_iff_toNat_le.1 hle
    exact ⟨fun grant hgrant hactive =>
        h.held grant hgrant (UInt64.lt_of_le_of_lt hle hactive),
      h.outlives, fun _ _ stored hstored =>
        (h.recordsExpireBy _ _ stored hstored).mono (Nat.add_le_add_right hlater _),
      fun p hp => (h.pendingExpireBy p hp).mono (Nat.add_le_add_right hlater _)⟩
  · refine ⟨h.held, h.outlives, h.recordsExpireBy, fun q hq => ?_⟩
    rcases mem_append.1 hq with hq | hq
    · exact h.pendingExpireBy q hq
    · rw [mem_singleton] at hq
      subst hq
      rcases readRequest_stored hread with ⟨stored, hstored, heq⟩ | hempty
      · rw [← heq]
        exact h.recordsExpireBy _ _ stored hstored
      · rw [hempty]
        exact fun _ _ hlock => absurd hlock LockData.mem_get_empty
  · exact kept_write h hcurrent.1 hp (hcurrent.2 p hp) hwrite
  · exact ⟨h.held, h.outlives, h.recordsExpireBy, fun p hp => h.pendingExpireBy p (hsub.mem hp)⟩

/-! ## Runs -/

/-- **Runs**: the locks are exclusive after any interleaving of proper requests; and clients keep
their locks after any in which each request has read the active locks of the record that it
replaces. -/
theorem locks_hold (config : LockConfig) (now : UInt64) {steps : List LockStep} {w : LockWorld}
    (hexec : exec (LockWorld.step config) (.start now) steps = some w) :
    (Along (LockWorld.step config) ProperWrite (.start now) steps → w.Exclusive) ∧
      (Along (LockWorld.step config) (CurrentWrite config) (.start now) steps → w.Kept) := by
  constructor
  · intro hproper
    have hapart : w.Apart := exec_invariant_of_some (I := LockWorld.Apart)
      (fun _ _ _ h hok hstep => h.step hok hstep) (apart_start now) hproper hexec
    exact hapart.exclusive
  · intro hcurrent
    have hlasting : w.Lasting config := exec_invariant_of_some (I := LockWorld.Lasting config)
      (fun _ _ _ h hok hstep => h.step hok hstep) (lasting_start config now) hcurrent hexec
    exact hlasting.kept

/-! ## Instances -/

/-- A server on which an address is the path of a file of the one account that it names. -/
def fileServer : DavServer where
  now := 0
  keyGet _ _ := none
  validateUri uri := some ⟨.fileNode, some 7, some uri⟩
  hasAccess _ _ := true
  mapUriResource _ _ _ := none
  archiveEtag _ _ _ := none
  highestChangeId _ _ := 0

def lockConfig : LockConfig := ⟨some 1024, 3600, 10⟩

/-- A request for a path of the account that submits the tokens. -/
def lockStep (path : String) (tokens : List String) (depth : Depth) (lockInfo : LockRequest) :
    LockStep :=
  .read fileServer ⟨7, [], false⟩
    { uri := path.toList
      overwriteFail := false
      if_ := if tokens = [] then []
        else [⟨none, tokens.map fun token => .stateToken false token.toList⟩]
      depth := depth
      timeout := .Second 600
      lockToken := none }
    lockInfo

def exclusive : LockRequest := .lock ⟨.Exclusive, none⟩

/-- A file is locked, the lock is refreshed, and another file is locked. -/
def inTurn : List LockStep :=
  [lockStep "a" [] .Zero exclusive, .write 0 5, .tick 200,
    lockStep "a" ["urn:stalwart:davlock:2b9"] .Zero .refresh, .write 0 6,
    lockStep "b" [] .Infinity exclusive, .write 0 7]

theorem locks_hold_inTurn :
    ∃ w, exec (LockWorld.step lockConfig) (.start 100) inTurn = some w ∧ w.Exclusive ∧ w.Kept ∧
      w.granted.map (·.lock.lockId) = [807, 697] := by
  obtain ⟨w, hexec⟩ : ∃ w, exec (LockWorld.step lockConfig) (.start 100) inTurn = some w :=
    Option.isSome_iff_exists.1 (by decide +kernel)
  have hheld : (exec (LockWorld.step lockConfig) (.start 100) inTurn).map
      (fun w => w.granted.map (·.lock.lockId)) = some [807, 697] := by decide +kernel
  rw [hexec] at hheld
  obtain ⟨hexclusive, hkept⟩ := locks_hold lockConfig 100 hexec
  exact ⟨w, hexec, hexclusive (by decide +kernel), hkept (by decide +kernel),
    some_inj.1 hheld⟩

/-- A `LOCK` below a shared lock makes it exclusive, whatever else it covers. -/
def fromBelow : List LockStep :=
  [lockStep "a" [] .Infinity (.lock ⟨.Shared, none⟩), .write 0 5,
    lockStep "a/c" [] .Zero (.lock ⟨.Shared, none⟩), .write 0 6,
    lockStep "a/b" ["urn:stalwart:davlock:2b9"] .Infinity exclusive, .write 0 7]

/-- A refresh without a token makes a lock that nothing is checked against. -/
def withoutToken : List LockStep :=
  [lockStep "a" [] .Zero .refresh, .write 0 5, lockStep "a" [] .Zero exclusive, .write 0 5]

/-- Two requests read the same record. -/
def atOnce : List LockStep :=
  [lockStep "a" [] .Zero exclusive, lockStep "a" [] .Zero exclusive, .write 0 5, .write 0 6]

/-- The time, what the record of the account has, and what clients hold. -/
structure LockOutcome where
  now : UInt64
  locks : Option (List (Str × List LockItem))
  granted : List Grant
deriving DecidableEq

def outcome (steps : List LockStep) : Option LockOutcome :=
  (exec (LockWorld.step lockConfig) (.start 100) steps).map fun w =>
    ⟨w.now, (w.records 7 .fileNode).map (·.lockData.locks), w.granted⟩

section

variable {steps : List LockStep} {locks : List (Str × List LockItem)} {granted : List Grant}
  (hsteps : outcome steps = some ⟨now, some locks, granted⟩)
include hsteps

theorem not_exclusive_of_outcome {path path' : Str} {lock lock' : LockItem}
    (hlock : At locks path lock) (hlock' : At locks path' lock') (hactive : now < lock.expires)
    (hactive' : now < lock'.expires) (hne : lock.lockId ≠ lock'.lockId)
    (hconflict : Conflicting path lock path' lock') :
    ∃ w, exec (LockWorld.step lockConfig) (.start 100) steps = some w ∧ ¬ w.Exclusive := by
  obtain ⟨w, hexec, heq⟩ := map_eq_some_iff.1 hsteps
  rw [LockOutcome.mk.injEq] at heq
  obtain ⟨rfl, hrecord, -⟩ := heq
  obtain ⟨stored, hstored, rfl⟩ := map_eq_some_iff.1 hrecord
  refine ⟨w, hexec, fun h => ?_⟩
  exact h 7 .fileNode stored hstored path lock (LockData.mem_get_iff_at.2 hlock) path' lock'
    (LockData.mem_get_iff_at.2 hlock') hactive hactive' hne hconflict

theorem not_kept_of_outcome (hgrant : ⟨7, .fileNode, lock⟩ ∈ granted)
    (hactive : now < lock.expires) (hlost : ∀ entry ∈ locks, lock ∉ entry.2) :
    ∃ w, exec (LockWorld.step lockConfig) (.start 100) steps = some w ∧ ¬ w.Kept := by
  obtain ⟨w, hexec, heq⟩ := map_eq_some_iff.1 hsteps
  rw [LockOutcome.mk.injEq] at heq
  obtain ⟨rfl, hrecord, rfl⟩ := heq
  obtain ⟨stored, hstored, rfl⟩ := map_eq_some_iff.1 hrecord
  refine ⟨w, hexec, fun h => ?_⟩
  obtain ⟨data, hget, path, hmem⟩ := h _ hgrant hactive
  obtain ⟨stored', hstored', rfl⟩ := LockWorld.keyGet_eq_some hget
  obtain rfl : stored = stored' := some_inj.1 (hstored.symm.trans hstored')
  obtain ⟨items, hentry, hlock⟩ := LockData.mem_get.1 hmem
  exact hlost (path, items) hentry hlock

end

theorem locks_conflict_or_lost :
    (∃ w, exec (LockWorld.step lockConfig) (.start 100) fromBelow = some w ∧ ¬ w.Exclusive) ∧
      (∃ w, exec (LockWorld.step lockConfig) (.start 100) withoutToken = some w ∧
        ¬ w.Exclusive) ∧
      ∃ w, exec (LockWorld.step lockConfig) (.start 100) atOnce = some w ∧ ¬ w.Kept := by
  refine ⟨?_, ?_, ?_⟩
  · have hrun : outcome fromBelow = some ⟨100,
        some [("a".toList, [⟨699, 7, 700, true, true⟩]),
          ("a/c".toList, [⟨698, 7, 700, false, false⟩])],
        [⟨7, .fileNode, ⟨699, 7, 700, true, true⟩⟩,
          ⟨7, .fileNode, ⟨698, 7, 700, false, false⟩⟩]⟩ := by
      decide +kernel
    refine not_exclusive_of_outcome hrun ⟨_, .head _, (.head _)⟩
      ⟨_, .tail _ (.head _), .head _⟩ (by decide) (by decide)
      (by decide) ⟨.inl rfl, covers_common_iff.2 (.inr (.inl ⟨rfl, "c".toList, rfl⟩))⟩
  · have hrun : outcome withoutToken = some ⟨100,
        some [("a".toList, [⟨0, 0, 700, false, false⟩, ⟨697, 7, 700, false, true⟩])],
        [⟨7, .fileNode, ⟨697, 7, 700, false, true⟩⟩,
          ⟨7, .fileNode, ⟨0, 0, 700, false, false⟩⟩]⟩ := by
      decide +kernel
    exact not_exclusive_of_outcome hrun ⟨_, .head _, (.head _)⟩
      ⟨_, .head _, .tail _ (.head _)⟩ (by decide) (by decide)
      (by decide) ⟨.inr rfl, covers_common_iff.2 (.inl rfl)⟩
  · have hrun : outcome atOnce = some ⟨100,
        some [("a".toList, [⟨698, 7, 700, false, true⟩])],
        [⟨7, .fileNode, ⟨698, 7, 700, false, true⟩⟩,
          ⟨7, .fileNode, ⟨697, 7, 700, false, true⟩⟩]⟩ := by
      decide +kernel
    exact not_kept_of_outcome hrun (.tail _ (.head _)) (by decide)
      (by decide)

end MailServer.Dav
