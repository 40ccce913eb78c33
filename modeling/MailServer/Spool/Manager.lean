import MailServer.Lib.Run
import Mathlib.Data.List.AList

/-!
# The queue manager

`Queue::start` receives events, and between them scans the due event keys of the store
(`SmtpSpool::next_event`), locks the ones it finds and dispatches a delivery worker for each.
`locked` holds one lock per dispatched pair of queue id and queue name, `stats` counts the
workers per virtual queue.

The system below is the manager together with its workers: a step hands one event to the manager
or ends one turn of its loop.  Everything the manager does not decide is part of the label: the
clock readings, the keys the store returns, the order `shuffle` gives them, the jitter of a lock
and the settings a reload reads.
-/

namespace MailServer.Spool

variable {Name : Type} [DecidableEq Name]

/-- `QUEUE_REFRESH`: five minutes. -/
def queueRefresh : ℕ := 5 * 60

/-- `LOCK_EXPIRY`: ten minutes. -/
def lockExpiry : ℕ := 10 * 60

/-- `INFINITE_LOCK`: one year. -/
def infiniteLock : ℕ := 60 * 60 * 24 * 365

/-! ## Data -/

/-- A queue id with the name of a virtual queue. -/
abbrev EventKey (Name : Type) := ℕ × Name

structure LockedMessage where
  expires : ℕ
  revision : ℕ

/-- `QueueStats`; the time of the last warning is left out. -/
structure QueueStats where
  inFlight : ℕ
  maxInFlight : ℕ

def QueueStats.new (maxInFlight : ℕ) : QueueStats := ⟨0, maxInFlight⟩

def QueueStats.hasCapacity (stats : QueueStats) : Bool := stats.inFlight < stats.maxInFlight

abbrev Locks (Name : Type) := AList fun _ : EventKey Name => LockedMessage

abbrev Stats (Name : Type) := AList fun _ : Name => QueueStats

/-- `Queue`: the state of the manager; the core handle and the channel are left out. -/
structure Queue (Name : Type) where
  locked : Locks Name
  lockedRevision : ℕ
  stats : Stats Name
  nextRefresh : ℕ
  isPaused : Bool

/-- Every lock is written with the revision of the last scan. -/
def Queue.lock (queue : Queue Name) (key : EventKey Name) (expires : ℕ) : Queue Name :=
  { queue with locked := queue.locked.insert key ⟨expires, queue.lockedRevision⟩ }

theorem Queue.lookup_lock (queue : Queue Name) (key : EventKey Name) (expires : ℕ) :
    (queue.lock key expires).locked.lookup key = some ⟨expires, queue.lockedRevision⟩ :=
  AList.lookup_insert queue.locked

theorem Queue.lookup_lock_ne {key key'} (h : key' ≠ key) (queue : Queue Name)
    (expires : ℕ) : (queue.lock key expires).locked.lookup key' = queue.locked.lookup key' :=
  AList.lookup_insert_ne h

/-- `QueuedMessage`, also the key of a `MessageEvent` in the store. -/
structure QueuedMessage (Name : Type) where
  due : ℕ
  queueId : ℕ
  queueName : Name

/-- The pair under which the message is locked. -/
def QueuedMessage.key (m : QueuedMessage Name) : EventKey Name := (m.queueId, m.queueName)

structure QueuedMessages (Name : Type) where
  messages : List (QueuedMessage Name)
  nextRefresh : ℕ

/-! ## Scanning the store -/

/-- `queue.stats.get(&name).is_none_or(has_capacity)`. -/
def capacityOrUnknown (stats : Stats Name) (name : Name) : Bool :=
  match stats.lookup name with
  | none => true
  | some stats => stats.hasCapacity

/-- What `next_event` does with a key that is due: the new locks, whether the event is added, and
the refresh time. -/
def lockEvent (now : ℕ) (queue : Queue Name) (nextRefresh : ℕ) (m : QueuedMessage Name) :
    Queue Name × Bool × ℕ :=
  if capacityOrUnknown queue.stats m.queueName then
    match queue.locked.lookup m.key with
    | some locked =>
      if locked.expires ≤ now then (queue.lock m.key (now + infiniteLock), true, nextRefresh)
      else (queue.lock m.key locked.expires, false, min locked.expires nextRefresh)
    | none => (queue.lock m.key (now + infiniteLock), true, nextRefresh)
  else (queue, false, nextRefresh)

/-- The iteration of `next_event` over the keys the store delivers, in ascending order. -/
def scan (now : ℕ) (queue : Queue Name) (nextRefresh : ℕ) :
    List (QueuedMessage Name) → Queue Name × QueuedMessages Name
  | [] => (queue, ⟨[], nextRefresh⟩)
  | m :: rest =>
    if m.due ≤ now then
      let (queue', add, nextRefresh') := lockEvent now queue nextRefresh m
      let (queue'', events) := scan now queue' nextRefresh' rest
      (queue'', ⟨if add then m :: events.messages else events.messages, events.nextRefresh⟩)
    else (queue, ⟨[], min m.due nextRefresh⟩)

/-- `SmtpSpool::next_event`; `stored` are the event keys in the store, as far as the iteration
gets. -/
def nextEvent (now : ℕ) (stored : List (QueuedMessage Name)) (queue : Queue Name) :
    Queue Name × QueuedMessages Name :=
  let queue := { queue with lockedRevision := queue.lockedRevision + 1 }
  scan now queue (now + queueRefresh) (stored.filter (fun m => m.due ≤ now + queueRefresh))

/-! ## Dispatching -/

/-- The stats of a queue, created from the settings when missing. -/
def statsOrDefault (threads : Name → ℕ) (stats : Stats Name) (name : Name) : QueueStats :=
  (stats.lookup name).getD (.new (threads name))

/-- One turn of the `for` loop in `start`, with the stats after the dispatch if a worker was
started. -/
def dispatch (threads : Name → ℕ) (queue : Queue Name) (m : QueuedMessage Name) :
    Queue Name × Option QueueStats :=
  let stats := statsOrDefault threads queue.stats m.queueName
  if stats.hasCapacity then
    let stats := { stats with inFlight := stats.inFlight + 1 }
    ({ queue with stats := queue.stats.insert m.queueName stats }, some stats)
  else
    ({ queue with
        stats := queue.stats.insert m.queueName stats
        locked := queue.locked.erase m.key }, none)

def retain (p : LockedMessage → Bool) (locked : Locks Name) : Locks Name where
  entries := locked.entries.filter fun e => p e.2
  nodupKeys := (List.filter_sublist.map Sigma.fst).nodup locked.nodupKeys

/-- The end of a scan: stale locks are removed and the next refresh is set. -/
def purge (now nextRefresh : ℕ) (queue : Queue Name) : Queue Name :=
  { queue with
    locked := retain (fun l => decide (now < l.expires) && l.revision == queue.lockedRevision)
      queue.locked
    nextRefresh := now + (nextRefresh - now) }

/-! ## Events -/

inductive QueueEventStatus where
  | completed | locked | deferred

/-- A reload carries the virtual queues with their threads, a finished worker the jitter of the lock
that may be set. -/
inductive QueueEvent (Name : Type) where
  | workerDone (key : EventKey Name) (status : QueueEventStatus) (jitter : ℕ)
  | refresh
  | paused (paused : Bool)
  | reloadSettings (virtualQueues : List (Name × ℕ))
  | stop

/-- The `ReloadSettings` branch for one virtual queue. -/
def reloadQueue (stats : Stats Name) (settings : Name × ℕ) : Stats Name :=
  match stats.lookup settings.1 with
  | some s => stats.insert settings.1 { s with maxInFlight := settings.2 }
  | none => stats.insert settings.1 (.new settings.2)

/-- The `WorkerDone` branch of `handle_event`; `none` is a panic. -/
def workerDone (now : ℕ) (queue : Queue Name) (key : EventKey Name) (status : QueueEventStatus)
    (jitter : ℕ) : Option (Queue Name × Bool) :=
  match queue.stats.lookup key.2 with
  | none => none
  | some stats =>
    if stats.inFlight = 0 then none
    else
      let stats := { stats with inFlight := stats.inFlight - 1 }
      let queue := { queue with stats := queue.stats.insert key.2 stats }
      match status with
      | .completed =>
        let locked := queue.locked.erase key
        some ({ queue with locked := locked }, !locked.entries.isEmpty || !stats.hasCapacity)
      | .locked =>
        let expires := lockExpiry + jitter
        let queue := { queue with nextRefresh := min (now + expires) queue.nextRefresh }
        let queue := queue.lock key (now + expires)
        some (queue, decide (1 < queue.locked.entries.length) || !stats.hasCapacity)
      | .deferred => some ({ queue with locked := queue.locked.erase key }, true)

/-- `Queue::handle_event`: the new state and whether the queue is to be refreshed. -/
def handleEvent (now : ℕ) (queue : Queue Name) : QueueEvent Name → Option (Queue Name × Bool)
  | .workerDone key status jitter => workerDone now queue key status jitter
  | .refresh => some (queue, true)
  | .paused paused => some ({ queue with isPaused := paused }, false)
  | .reloadSettings virtualQueues =>
    some ({ queue with stats := virtualQueues.foldl reloadQueue queue.stats }, false)
  | .stop => some ({ queue with isPaused := true }, false)

/-! ## The manager and its workers -/

/-- A dispatched and unfinished worker, with the expiry its lock was given. -/
structure Worker (Name : Type) where
  key : EventKey Name
  expires : ℕ
  deriving DecidableEq

/-- A dispatch: when it happened, the workers that were running then, and the stats of the queue
after it. -/
structure Dispatch (Name : Type) where
  key : EventKey Name
  time : ℕ
  running : List (Worker Name)
  stats : QueueStats

/-- The manager, the local `refresh_queue` of its loop, and what happens around it. -/
structure System (Name : Type) where
  queue : Queue Name
  refreshQueue : Bool
  clock : ℕ
  workers : List (Worker Name)
  history : List (Dispatch Name)

/-- A message on the channel, a timeout of `recv`, or the part of the loop behind the `match`. -/
inductive Label (Name : Type) where
  | event (now : ℕ) (e : QueueEvent Name)
  | done (now : ℕ) (w : Worker Name) (status : QueueEventStatus) (jitter : ℕ)
  | timeout (now : ℕ)
  | turn (now purgeNow : ℕ) (stored : List (QueuedMessage Name))
      (shuffle : List (QueuedMessage Name) → List (QueuedMessage Name)) (threads : Name → ℕ)

/-- One turn of the `for` loop, with the worker it starts. -/
def dispatchMessage (now : ℕ) (threads : Name → ℕ) (sys : System Name) (m : QueuedMessage Name) :
    System Name :=
  match dispatch threads sys.queue m with
  | (queue, some stats) =>
    { sys with
      queue := queue
      workers := ⟨m.key, now + infiniteLock⟩ :: sys.workers
      history := ⟨m.key, now, sys.workers, stats⟩ :: sys.history }
  | (queue, none) => { sys with queue := queue }

/-- The scan with the dispatches that follow it. -/
def processQueue (now purgeNow : ℕ) (stored : List (QueuedMessage Name))
    (shuffle : List (QueuedMessage Name) → List (QueuedMessage Name)) (threads : Name → ℕ)
    (sys : System Name) : System Name :=
  let (queue, events) := nextEvent now stored sys.queue
  let order := if 3 < events.messages.length then shuffle events.messages else events.messages
  let sys := order.foldl (dispatchMessage now threads) { sys with queue := queue }
  { sys with queue := purge purgeNow events.nextRefresh sys.queue }

/-- Whether the end of a turn scans the store. -/
def scans (now : ℕ) (sys : System Name) : Bool :=
  !sys.queue.isPaused && (sys.refreshQueue || decide (sys.queue.nextRefresh ≤ now))

/-- The part of the loop behind the `match`. -/
def endTurn (now purgeNow : ℕ) (stored : List (QueuedMessage Name))
    (shuffle : List (QueuedMessage Name) → List (QueuedMessage Name)) (threads : Name → ℕ)
    (sys : System Name) : System Name :=
  if scans now sys then processQueue now purgeNow stored shuffle threads sys
  else if sys.queue.isPaused then
    { sys with queue := { sys.queue with nextRefresh := now + 86400 } }
  else sys

variable (sys : System Name)

/-- A step of the system; `none` is a panic of the manager. -/
def step : Label Name → Option (System Name)
  | .event now e =>
    match handleEvent now sys.queue e with
    | none => none
    | some (queue, refresh) =>
      some { sys with
        queue := queue
        refreshQueue := refresh || sys.refreshQueue
        clock := now }
  | .done now w status jitter =>
    match workerDone now sys.queue w.key status jitter with
    | none => none
    | some (queue, refresh) =>
      some { sys with
        queue := queue
        refreshQueue := refresh || sys.refreshQueue
        clock := now
        workers := sys.workers.erase w }
  | .timeout now => some { sys with refreshQueue := true, clock := now }
  | .turn now purgeNow stored shuffle threads =>
    some { endTurn now purgeNow stored shuffle threads sys with
      refreshQueue := false
      clock := purgeNow }

/-- What the environment promises: the clock does not go back, only a running worker reports, and
the store iterates in ascending order. -/
def Allowed : Label Name → Prop
  | .event now e => sys.clock ≤ now ∧ ∀ key status jitter, e ≠ .workerDone key status jitter
  | .done now w _ _ => sys.clock ≤ now ∧ w ∈ sys.workers
  | .timeout now => sys.clock ≤ now ∧ sys.queue.nextRefresh ≤ now
  | .turn now purgeNow stored shuffle _ =>
    sys.clock ≤ now ∧ now ≤ purgeNow ∧ stored.Pairwise (fun a b => a.due ≤ b.due) ∧
      ∀ messages, (shuffle messages).Perm messages

/-- `Queue::new`. -/
def start (now : ℕ) : System Name where
  queue := ⟨∅, 0, ∅, now + 1, false⟩
  refreshQueue := false
  clock := now
  workers := []
  history := []

/-! ## What is to be shown -/

/-- The number of unfinished workers of a queue. -/
def unfinished (workers : List (Worker Name)) (name : Name) : ℕ :=
  workers.countP fun w => w.key.2 = name

/-- `in_flight` as the manager has it; a queue without stats has none. -/
def inFlight (stats : Stats Name) (name : Name) : ℕ :=
  match stats.lookup name with
  | none => 0
  | some stats => stats.inFlight

/-- `in_flight` of each queue is the number of its dispatched and unfinished workers. -/
def Counted : Prop :=
  ∀ name, inFlight sys.queue.stats name = unfinished sys.workers name

/-- At the moment of a dispatch, `in_flight` is at most `max_in_flight`. -/
def WithinCapacity : Prop :=
  ∀ d ∈ sys.history, d.stats.inFlight ≤ d.stats.maxInFlight

/-- No pair is dispatched while a worker runs for it whose lock has not expired. -/
def Exclusive : Prop :=
  ∀ d ∈ sys.history, ∀ w ∈ d.running, w.key = d.key → w.expires ≤ d.time

/-- The condition on a step: a scan finds the key of every running worker due and its queue with
capacity, and no worker outlives its lock with a second one for its pair. -/
def KeepsLocks : Label Name → Prop
  | .turn now _ stored _ _ =>
    scans now sys → ∀ w ∈ sys.workers, now < w.expires →
      (∃ m ∈ stored, m.key = w.key ∧ m.due ≤ now) ∧
        capacityOrUnknown sys.queue.stats w.key.2
  | .done now w _ _ => ∀ w' ∈ sys.workers.erase w, w'.key = w.key → w'.expires ≤ now
  | _ => True

end MailServer.Spool
