import MailServer.Lib.InsertionMap
import Mathlib.Algebra.Order.Ring.Int

/-!
# Messages of the outbound queue

A queued message holds one delivery state per recipient: its status, when it is due for a retry,
for a delay notification and for expiry, and the virtual queue that serves it.  A message with
pending recipients in several virtual queues is worked on by several workers, each with a copy of
its own.

Envelope data no delivery decision reads (sender address, flags, DSN parameters, priority, remote
address) is left out.  Sums of times are natural numbers.

Principal results: `mem_nextEvents`, `nextEvents_covers`.
-/

namespace MailServer.Delivery

open List

/-- One instance for every test of a domain, so that the terms of different modules agree. -/
scoped instance instLawfulBEqDomain : LawfulBEq (List Char) := inferInstance

/-! ## Delivery status -/

/-- A reply of a remote server. -/
structure Response where
  code : ℕ
  esc : ℕ × ℕ × ℕ
  message : String
  deriving DecidableEq

structure HostResponse where
  hostname : String
  response : Response
  deriving DecidableEq

inductive Error where
  | dnsError (details : String)
  | unexpectedResponse (command : String) (response : Response)
  | connectionError (details : String)
  | tlsError (details : String)
  | daneError (details : String)
  | mtaStsError (details : String)
  | rateLimited
  | concurrencyLimited
  | io (details : String)
  deriving DecidableEq

structure ErrorDetails where
  entity : String
  details : Error
  deriving DecidableEq

inductive Status where
  | scheduled
  | completed (response : HostResponse)
  | temporaryFailure (err : ErrorDetails)
  | permanentFailure (err : ErrorDetails)
  deriving DecidableEq

/-- `matches!(status, Status::Scheduled | Status::TemporaryFailure(_))`. -/
def Status.isPending : Status → Bool
  | .scheduled | .temporaryFailure _ => true
  | .completed _ | .permanentFailure _ => false

def Status.intoPermanent : Status → Status
  | .temporaryFailure err => .permanentFailure err
  | status => status

/-! ## Recipients -/

/-- `Schedule<u32>`. -/
structure Schedule where
  due : ℕ
  inner : ℕ
  deriving DecidableEq

inductive QueueExpiry where
  | ttl (time : ℕ)
  | attempts (count : ℕ)
  deriving DecidableEq

abbrev Address := List Char

/-- `DomainPart::domain_part`: what follows the last `@`, nothing when there is none. -/
def domainPart (address : Address) : List Char :=
  if '@' ∈ address then (address.reverse.takeWhile (· ≠ '@')).reverse else []

structure Recipient (Name : Type) where
  address : Address
  retry : Schedule
  notify : Schedule
  expires : QueueExpiry
  queue : Name
  status : Status
  deriving DecidableEq

inductive QuotaKey where
  | size (key : List UInt8) (id : ℕ)
  | count (key : List UInt8) (id : ℕ)

structure Message (Name : Type) where
  created : ℕ
  blobHash : List UInt8
  recipients : List (Recipient Name)
  size : ℕ
  quotaKeys : List QuotaKey

/-- `MessageWrapper`; the queue id is that of the entry the message is stored under. -/
structure MessageWrapper (Name : Type) where
  queueName : Name
  isMultiQueue : Bool
  message : Message Name

variable {Name : Type}

def Recipient.expirationTime (rcpt : Recipient Name) (created : ℕ) : Option ℕ :=
  match rcpt.expires with
  | .ttl time => some (created + time)
  | .attempts _ => none

def Recipient.isExpired (rcpt : Recipient Name) (created now : ℕ) : Bool :=
  match rcpt.expires with
  | .ttl time => created + time ≤ now
  | .attempts count => count ≤ rcpt.retry.inner

def Recipient.earlierEvent (rcpt : Recipient Name) (created : ℕ) : ℕ :=
  match rcpt.expirationTime created with
  | some expires => min (min rcpt.retry.due rcpt.notify.due) expires
  | none => min rcpt.retry.due rcpt.notify.due

/-! ## Events of a message -/

section Events

variable [DecidableEq Name]

/-- A recipient that still has to be delivered and that `queue`, if given, serves. -/
def Recipient.awaits (rcpt : Recipient Name) (queue : Option Name) : Bool :=
  rcpt.status.isPending && queue.all fun q => rcpt.queue = q

/-- The body of the loop of `next_event`. -/
def nextEventStep (created : ℕ) (queue : Option Name) (next : Option ℕ)
    (rcpt : Recipient Name) : Option ℕ :=
  if rcpt.awaits queue then
    match next with
    | some event => some (min (rcpt.earlierEvent created) event)
    | none => some (rcpt.earlierEvent created)
  else next

def Message.nextEvent (m : Message Name) (queue : Option Name) : Option ℕ :=
  m.recipients.foldl (nextEventStep m.created queue) none

/-- The body of the loop of `next_events`. -/
def nextEventsStep (created : ℕ) (events : InsertionMap Name ℕ) (rcpt : Recipient Name) :
    InsertionMap Name ℕ :=
  if rcpt.status.isPending then
    events.alter rcpt.queue (rcpt.earlierEvent created) (min (rcpt.earlierEvent created))
  else events

def Message.nextEvents (m : Message Name) : InsertionMap Name ℕ :=
  m.recipients.foldl (nextEventsStep m.created) []

theorem lookup_nextEventsStep (created : ℕ) (events : InsertionMap Name ℕ)
    (rcpt : Recipient Name) (q : Name) :
    (nextEventsStep created events rcpt).find q =
      nextEventStep created (some q) (events.find q) rcpt := by
  unfold nextEventsStep nextEventStep Recipient.awaits
  by_cases hpending : rcpt.status.isPending
  · by_cases hq : rcpt.queue = q
    · subst hq
      simp only [hpending, if_true, InsertionMap.find_alter]
      cases events.find rcpt.queue with
      | none | some => simp
    · simp [hpending, hq, InsertionMap.find_alter, Ne.symm hq]
  · simp [hpending]

theorem find_foldl_nextEvents (created : ℕ) (q : Name) (rcpts : List (Recipient Name))
    (events : InsertionMap Name ℕ) :
    (rcpts.foldl (nextEventsStep created) events).find q =
      rcpts.foldl (nextEventStep created (some q)) (events.find q) := by
  induction rcpts generalizing events with
  | nil => rfl
  | cons rcpt rest ih =>
    rw [foldl_cons, foldl_cons, ih, lookup_nextEventsStep]

theorem nodup_keys_foldl_nextEvents (created : ℕ) (rcpts : List (Recipient Name))
    (events : InsertionMap Name ℕ) (h : events.keys.Nodup) :
    (rcpts.foldl (nextEventsStep created) events).keys.Nodup := by
  induction rcpts generalizing events with
  | nil => exact h
  | cons rcpt rest ih =>
    apply ih
    unfold nextEventsStep
    split
    · exact InsertionMap.nodup_keys_alter h
    · exact h

/-- `next_events` holds for every queue what `next_event` answers for it. -/
theorem mem_nextEvents (m : Message Name) (q : Name) (due : ℕ) :
    (q, due) ∈ m.nextEvents ↔ m.nextEvent (some q) = some due := by
  have hnodup : (m.nextEvents).keys.Nodup :=
    nodup_keys_foldl_nextEvents m.created m.recipients [] nodup_nil
  rw [← InsertionMap.find_eq_some hnodup]
  unfold Message.nextEvents Message.nextEvent
  rw [find_foldl_nextEvents]
  rfl

theorem nextEvent_foldl_le (created : ℕ) (queue : Option Name) (rcpts : List (Recipient Name))
    (event : ℕ) :
    ∃ due, rcpts.foldl (nextEventStep created queue) (some event) = some due ∧ due ≤ event := by
  induction rcpts generalizing event with
  | nil => exact ⟨event, rfl, le_rfl⟩
  | cons rcpt rest ih =>
    rw [foldl_cons]
    unfold nextEventStep
    split
    · obtain ⟨due, hdue, hle⟩ := ih (min (rcpt.earlierEvent created) event)
      exact ⟨due, hdue, by omega⟩
    · exact ih event

theorem nextEvent_foldl_covers (created : ℕ) (queue : Option Name)
    (rcpts : List (Recipient Name)) (next : Option ℕ) (rcpt : Recipient Name)
    (hmem : rcpt ∈ rcpts) (hawaits : rcpt.awaits queue) :
    ∃ due, rcpts.foldl (nextEventStep created queue) next = some due ∧
      due ≤ rcpt.earlierEvent created := by
  induction rcpts generalizing next with
  | nil => cases hmem
  | cons head rest ih =>
    rw [foldl_cons]
    rcases mem_cons.1 hmem with rfl | hrest
    · -- The recipient itself: later turns can only lower the event.
      have hstep : ∃ event, nextEventStep created queue next rcpt = some event ∧
          event ≤ rcpt.earlierEvent created := by
        unfold nextEventStep
        rw [if_pos hawaits]
        cases next with
        | none => exact ⟨_, rfl, le_rfl⟩
        | some event => exact ⟨_, rfl, by omega⟩
      obtain ⟨event, hevent, hle⟩ := hstep
      rw [hevent]
      obtain ⟨due, hdue, hle'⟩ := nextEvent_foldl_le created queue rest event
      exact ⟨due, hdue, by omega⟩
    · exact ih _ hrest

/-- No pending recipient is missed by `next_events`. -/
theorem nextEvents_covers (m : Message Name) (rcpt : Recipient Name) (hmem : rcpt ∈ m.recipients)
    (hpending : rcpt.status.isPending) :
    ∃ due, (rcpt.queue, due) ∈ m.nextEvents ∧ due ≤ rcpt.earlierEvent m.created := by
  have hawaits : rcpt.awaits (some rcpt.queue) := by
    simp [Recipient.awaits, hpending]
  obtain ⟨due, hdue, hle⟩ :=
    nextEvent_foldl_covers m.created (some rcpt.queue) m.recipients none rcpt hmem hawaits
  exact ⟨due, (mem_nextEvents m rcpt.queue due).2 hdue, hle⟩

/-- An answer of `next_event` is about a recipient. -/
theorem exists_awaits_of_nextEvent (m : Message Name) (queue : Option Name) (due : ℕ)
    (h : m.nextEvent queue = some due) : ∃ rcpt ∈ m.recipients, rcpt.awaits queue := by
  by_contra hnone
  push Not at hnone
  have hkeep : ∀ rcpts : List (Recipient Name), (∀ rcpt ∈ rcpts, rcpt.awaits queue ≠ true) →
      rcpts.foldl (nextEventStep m.created queue) none = none := by
    intro rcpts hrcpts
    induction rcpts with
    | nil => rfl
    | cons rcpt rest ih =>
      rw [foldl_cons, nextEventStep, if_neg (hrcpts rcpt (.head _))]
      exact ih fun r hr => hrcpts r (.tail _ hr)
  rw [Message.nextEvent, hkeep m.recipients hnone] at h
  cases h

end Events

/-! ## Outcomes of a delivery attempt -/

/-- `QueueStrategy`, as far as a retry reads it. -/
structure QueueStrategy (Name : Type) where
  retry : List ℕ
  expiry : QueueExpiry
  virtualQueue : Name
  retry_ne_nil : retry ≠ []

theorem sampleRetry_ne_nil : ([60] : List ℕ) ≠ [] := cons_ne_nil 60 []

/-- `queue.retry[min(retry.inner, queue.retry.len() - 1)]`. -/
def QueueStrategy.retryAfter (queue : QueueStrategy Name) (attempts : ℕ) : ℕ :=
  queue.retry.get ⟨min attempts (queue.retry.length - 1), by
    have : 0 < queue.retry.length := length_pos_iff.2 queue.retry_ne_nil
    omega⟩

/-- What `set_rcpt_status` does to the recipient; `queue` is the strategy the configuration
answers for it. -/
def Recipient.setStatus (rcpt : Recipient Name) (status : Status) (queue : QueueStrategy Name)
    (now : ℕ) : Recipient Name :=
  let rcpt := { rcpt with status := status }
  if status.isPending then
    { rcpt with
      retry := ⟨now + queue.retryAfter rcpt.retry.inner, rcpt.retry.inner + 1⟩
      expires := queue.expiry
      queue := queue.virtualQueue }
  else rcpt

def Recipient.setRateLimit (rcpt : Recipient Name) (retryAt : ℕ) : Recipient Name :=
  { rcpt with
    retry := { rcpt.retry with due := retryAt }
    status := .temporaryFailure ⟨"localhost", .rateLimited⟩ }

/-- What `has_pending_delivery` does to the recipient. -/
def Recipient.expire (created now : ℕ) (rcpt : Recipient Name) : Recipient Name :=
  match rcpt.status with
  | .temporaryFailure _ =>
    if rcpt.isExpired created now then { rcpt with status := rcpt.status.intoPermanent } else rcpt
  | .scheduled =>
    if rcpt.isExpired created now then
      { rcpt with
        status := .permanentFailure ⟨String.ofList (domainPart rcpt.address),
          .io "Message expired without any delivery attempts made."⟩ }
    else rcpt
  | _ => rcpt

/-- Replaces one recipient; an index past the end panics. -/
def Message.modifyRcpt (m : Message Name) (rcptIdx : ℕ) (f : Recipient Name → Recipient Name) :
    Option (Message Name) :=
  if rcptIdx < m.recipients.length then
    some { m with recipients := m.recipients.modify rcptIdx f }
  else none

def Message.setRcptStatus (m : Message Name) (status : Status) (rcptIdx : ℕ)
    (queue : QueueStrategy Name) (now : ℕ) : Option (Message Name) :=
  m.modifyRcpt rcptIdx fun rcpt => rcpt.setStatus status queue now

def Message.setRcptRateLimit (m : Message Name) (rcptIdx retryAt : ℕ) : Option (Message Name) :=
  m.modifyRcpt rcptIdx fun rcpt => rcpt.setRateLimit retryAt

/-- The marking of `MessageWrapper::has_pending_delivery`. -/
def Message.expireRcpts (m : Message Name) (now : ℕ) : Message Name :=
  { m with recipients := m.recipients.map (Recipient.expire m.created now) }

theorem Recipient.expire_queue (created now : ℕ) (rcpt : Recipient Name) :
    (rcpt.expire created now).queue = rcpt.queue := by
  unfold Recipient.expire
  split
  · split
    · rfl
    · rfl
  · split
    · rfl
    · rfl
  · rfl

theorem Recipient.expire_of_not_pending (created now : ℕ) {rcpt : Recipient Name}
    (h : rcpt.status.isPending = false) : rcpt.expire created now = rcpt := by
  unfold Recipient.expire
  cases hstatus : rcpt.status with
  | scheduled | temporaryFailure => simp [hstatus, Status.isPending] at h
  | completed | permanentFailure => rfl

end MailServer.Delivery
