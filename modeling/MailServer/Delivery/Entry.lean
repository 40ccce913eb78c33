import MailServer.Delivery.Message
import MailServer.Lib.Run
import Mathlib.Data.Finset.Union

/-!
# One entry of the outbound queue

What the store holds under one queue id: the message and its event keys.  Delivery workers, and
the administration interface, read the message, change their copy and write it back with
`save_changes` or delete it with `remove`; every write is one atomic batch.

A run is a list of `Label`s, one per call, so any interleaving of any number of tasks is a run.
What the environment decides (the outcome of a delivery attempt, the strategy the configuration
answers, the clock) is part of the label.  `Entry.step` also gives what the batch adds to the
quota counters, which all entries share.

`Task.read` is not part of the program: it keeps the message as the task read it.
-/

namespace MailServer.Delivery

variable {Name : Type} [DecidableEq Name]

/-! ## Quota keys -/

/-- `QueueClass::QuotaCount` and `QueueClass::QuotaSize`. -/
inductive QuotaCounter where
  | quotaCount (key : List UInt8)
  | quotaSize (key : List UInt8)
  deriving DecidableEq

/-- `batch.add` on a quota counter. -/
abbrev CounterOp := QuotaCounter × ℤ

def QuotaKey.id : QuotaKey → ℕ
  | .size _ id | .count _ id => id

/-- The counter a key stands for, and the share of it that the key holds for a message of the
given size. -/
def QuotaKey.share (size : ℕ) : QuotaKey → CounterOp
  | .count key _ => (.quotaCount key, 1)
  | .size key _ => (.quotaSize key, size)

def QuotaKey.reserve (size : ℕ) (key : QuotaKey) : CounterOp := key.share size

def QuotaKey.release (size : ℕ) (key : QuotaKey) : CounterOp :=
  ((key.share size).1, -(key.share size).2)

/-- `quota_ids` of `release_quota`; `seenDomains` and `pos` are the state of its loop. -/
def quotaIds (seenDomains : List (List Char)) (pos : ℕ) : List (Recipient Name) → List ℕ
  | [] => []
  | rcpt :: rest =>
    if rcpt.status.isPending then quotaIds seenDomains (pos + 1) rest
    else if domainPart rcpt.address ∈ seenDomains then
      (pos + 1) :: quotaIds seenDomains (pos + 1) rest
    else
      ((pos + 1) <<< 32) :: (pos + 1) ::
        quotaIds (domainPart rcpt.address :: seenDomains) (pos + 1) rest

variable (m : Message Name)

/-- The ids of the keys a finished recipient releases. -/
def Message.finishedIds : List ℕ := quotaIds [] 0 m.recipients

/-- `MessageWrapper::release_quota`: the message that keeps the other keys, and the operations. -/
def Message.releaseQuota : Message Name × List CounterOp :=
  ({ m with quotaKeys := m.quotaKeys.filter (fun key => key.id ∉ m.finishedIds) },
    (m.quotaKeys.filter (fun key => key.id ∈ m.finishedIds)).map (QuotaKey.release m.size))

omit [DecidableEq Name] in
@[simp] theorem Message.releaseQuota_recipients :
    m.releaseQuota.1.recipients = m.recipients := rfl

/-! ## The stored message -/

/-- The `MessageEvent` keys of one queue id: due time and queue name. -/
abbrev Events (Name : Type) := Finset (ℕ × Name)

/-- Sets a key for every pair of `next_events`. -/
def Events.set (events : Events Name) (next : InsertionMap Name ℕ) : Events Name :=
  events ∪ (next.map Prod.swap).toFinset

/-- Clears the key of the event the task was started for, if there is one. -/
def Events.clearPrev (events : Events Name) (queueName : Name) : Option ℕ → Events Name
  | some due => events.erase (due, queueName)
  | none => events

/-- Clears a key for every pair of `next_events`. -/
def Events.clear (events : Events Name) (next : InsertionMap Name ℕ) : Events Name :=
  events \ (next.map Prod.swap).toFinset

/-- A caller of `read_message`: the wrapper it works on and the due time of its event. -/
structure Task (Name : Type) where
  wrapper : MessageWrapper Name
  prevEvent : Option ℕ
  read : Message Name

/-- What the store holds under one queue id, and the tasks at work on it. -/
structure Entry (Name : Type) where
  message : Option (Message Name)
  events : Events Name
  tasks : ℕ → Option (Task Name)

/-- A queue id that was never used. -/
def Entry.empty : Entry Name := ⟨none, ∅, fun _ => none⟩

/-- `is_multi_queue` of `read_message`. -/
def Message.isMultiQueue (queueName : Name) : Bool :=
  m.recipients.any fun rcpt => rcpt.status.isPending && rcpt.queue ≠ queueName

def readMessage (message : Option (Message Name)) (queueName : Name) :
    Option (MessageWrapper Name) :=
  message.map fun m => ⟨queueName, m.isMultiQueue queueName, m⟩

/-- The recipients of `merge_fnc`: those the new message has in the queue replace the stored
ones. -/
def mergeRecipients (queueName : Name) (cur new : List (Recipient Name)) :
    List (Recipient Name) :=
  List.zipWith (fun c n => if n.queue = queueName then n else c) cur new

/-- The function `save_changes` passes to `merge_fnc`. -/
def mergeFnc (queueName : Name) (new : Message Name) (bytes : Option (Message Name)) :
    Option (Message Name) :=
  match bytes with
  | none => none
  | some cur =>
    if cur.blobHash = new.blobHash ∧ cur.recipients.length = new.recipients.length then
      some { cur with recipients := mergeRecipients queueName cur.recipients new.recipients }
    else none

/-- `MessageWrapper::save_changes`; when the merge fails nothing is written. -/
def saveChanges (w : MessageWrapper Name) (prevEvent : Option ℕ) (e : Entry Name) :
    Entry Name × List CounterOp :=
  let (m, ops) := w.message.releaseQuota
  let events := (e.events.clearPrev w.queueName prevEvent).set m.nextEvents
  if w.isMultiQueue then
    match mergeFnc w.queueName m e.message with
    | some merged => ({ e with message := some merged, events := events }, ops)
    | none => (e, [])
  else ({ e with message := some m, events := events }, ops)

/-- `MessageWrapper::remove`. -/
def removeMessage (w : MessageWrapper Name) (prevEvent : Option ℕ) (e : Entry Name) :
    Entry Name × List CounterOp :=
  let events := match prevEvent with
    | some due => e.events.clearPrev w.queueName (some due)
    | none => e.events.clear w.message.nextEvents
  ({ e with message := none, events := events },
    w.message.quotaKeys.map (QuotaKey.release w.message.size))

/-- `MessageWrapper::queue`; `rawLen` is the length of the raw message. -/
def queueMessage (rawLen : ℕ) (e : Entry Name) :
    Entry Name × List CounterOp :=
  let m := { m with size := if m.size = 0 then rawLen else m.size }
  ({ e with message := some m, events := e.events.set m.nextEvents },
    m.quotaKeys.map (QuotaKey.reserve m.size))

/-! ## Steps -/

/-- One call. -/
inductive Label (Name : Type) where
  | queue (message : Message Name) (rawLen : ℕ)
  | read (task : ℕ) (queueName : Name) (prevEvent : Option ℕ)
  | expire (task now : ℕ)
  | setStatus (task : ℕ) (status : Status) (rcptIdx : ℕ) (strategy : QueueStrategy Name)
      (now : ℕ)
  | setRateLimit (task rcptIdx retryAt : ℕ)
  | save (task : ℕ)
  | remove (task : ℕ)

variable (e : Entry Name)

def Entry.setTask (task : ℕ) (t : Option (Task Name)) : Entry Name :=
  { e with tasks := Function.update e.tasks task t }

/-- The copy of a task that works on it. -/
def Task.withMessage (t : Task Name) (m : Message Name) : Task Name :=
  { t with wrapper := { t.wrapper with message := m } }

/-- A call that only changes the copy of its task. -/
def Entry.edit (task : ℕ) (f : Message Name → Option (Message Name)) :
    Option (Entry Name × List CounterOp) :=
  match e.tasks task with
  | none => some (e, [])
  | some t => (f t.wrapper.message).map fun m => (e.setTask task (some (t.withMessage m)), [])

/-- A call that writes to the store and ends its task. -/
def Entry.write (task : ℕ)
    (f : MessageWrapper Name → Option ℕ → Entry Name → Entry Name × List CounterOp) :
    Entry Name × List CounterOp :=
  match e.tasks task with
  | none => (e, [])
  | some t => ((f t.wrapper t.prevEvent e).1.setTask task none, (f t.wrapper t.prevEvent e).2)

/-- A task reads the message.  When there is none, its event is cleared and it ends. -/
def Entry.startTask (task : ℕ) (queueName : Name) (prevEvent : Option ℕ) :
    Entry Name :=
  match readMessage e.message queueName with
  | some w => e.setTask task (some ⟨w, prevEvent, w.message⟩)
  | none => { e with events := e.events.clearPrev queueName prevEvent }

/-- One call, with what it adds to the quota counters. -/
def Entry.step : Label Name → Option (Entry Name × List CounterOp)
  | .queue message rawLen => some (queueMessage message rawLen e)
  | .read task queueName prevEvent => some (e.startTask task queueName prevEvent, [])
  | .expire task now => e.edit task fun m => some (m.expireRcpts now)
  | .setStatus task status rcptIdx strategy now =>
    e.edit task fun m => m.setRcptStatus status rcptIdx strategy now
  | .setRateLimit task rcptIdx retryAt => e.edit task fun m => m.setRcptRateLimit rcptIdx retryAt
  | .save task => some (e.write task saveChanges)
  | .remove task => some (e.write task removeMessage)

/-- The entry after one call. -/
def Entry.next (a : Label Name) : Option (Entry Name) :=
  (e.step a).map Prod.fst

end MailServer.Delivery
