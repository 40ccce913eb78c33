import MailServer.Delivery.Dsn
import MailServer.Delivery.Entry

/-!
# Notifications of several workers

Delivery workers, one for each virtual queue of a message, copy the message, send notifications
about their copy and write it back.  A worker of a message with pending recipients in other queues
writes back the recipients that are in its own queue, and so the marks of these alone.

`read` is not part of the program: it keeps the message as the worker read it.  `removed` keeps the
message as it was when it was removed, and `reports` what all notifications said.
-/

namespace MailServer.Delivery

open List

variable {Name : Type} [DecidableEq Name]

/-! ## Workers -/

/-- How far a worker has come. -/
inductive TaskPhase where
  | read
  | ready
  | delivering (rcptIdxs : List ℕ)
  | writing (remove : Bool)

structure DsnTask (Name : Type) where
  queueName : Name
  isMultiQueue : Bool
  message : FlaggedMessage Name
  phase : TaskPhase
  read : FlaggedMessage Name

/-- `read_message`. -/
def FlaggedMessage.newTask (m : FlaggedMessage Name) (queueName : Name) : DsnTask Name where
  queueName := queueName
  isMultiQueue := m.toMessage.isMultiQueue queueName
  message := m
  phase := .read
  read := m

variable (t : DsnTask Name)

/-- The first part of `deliver_task`. -/
def DsnTask.start (config : FlaggedRecipient Name → List ℕ) (now : ℕ) :
    DsnTask Name × List (ℕ × DsnAction) :=
  match t.phase with
  | .read =>
    let (m, entries, turn) := t.message.startTask t.queueName config now
    match turn with
    | .deliver => ({ t with message := m, phase := .ready }, entries)
    | .remove => ({ t with message := m, phase := .writing true }, entries)
    | .save => ({ t with message := m, phase := .writing false }, entries)
  | _ => (t, [])

/-- The recipient is to be delivered to now, by the worker of the queue. -/
def FlaggedRecipient.isDue (queueName : Name) (now : ℕ) (rcpt : FlaggedRecipient Name) : Bool :=
  rcpt.status.isPending && rcpt.retry.due ≤ now && rcpt.queue = queueName

/-- The sender is throttled. -/
def DsnTask.limit (retryAt now : ℕ) : DsnTask Name :=
  match t.phase with
  | .ready =>
    { t with
      message := t.message.mapRcpts fun rcpt =>
        if rcpt.isDue t.queueName now then
          { rcpt with toRecipient := rcpt.toRecipient.setRateLimit retryAt }
        else rcpt
      phase := .writing false }
  | _ => t

/-- Groups the recipients by route. -/
def DsnTask.route (now : ℕ) : DsnTask Name :=
  match t.phase with
  | .ready =>
    { t with
      phase := .delivering ((t.message.recipients.zipIdx.filter fun e =>
        e.1.isDue t.queueName now).map Prod.snd) }
  | _ => t

/-- Applies a result to one of the routed recipients. -/
def DsnTask.outcome (rcptIdx : ℕ) (f : Recipient Name → Recipient Name) :
    DsnTask Name :=
  match t.phase with
  | .delivering rcptIdxs =>
    if rcptIdx ∈ rcptIdxs then
      { t with
        message := { t.message with
          recipients := t.message.recipients.modify rcptIdx fun rcpt =>
            { rcpt with toRecipient := f rcpt.toRecipient } } }
    else t
  | _ => t

/-- The last part of `deliver_task`, up to the write. -/
def DsnTask.finish (config : FlaggedRecipient Name → List ℕ) (now : ℕ) :
    DsnTask Name × List (ℕ × DsnAction) :=
  match t.phase with
  | .delivering _ =>
    let (m, entries) := t.message.sendDsn config now
    ({ t with message := m, phase := .writing !(m.toMessage.nextEvent none).isSome }, entries)
  | _ => (t, [])

/-- The recipients of `merge_fnc`. -/
def mergeFlagged (queueName : Name) (cur new : List (FlaggedRecipient Name)) :
    List (FlaggedRecipient Name) :=
  zipWith (fun c n => if n.queue = queueName then n else c) cur new

/-- The message `save_changes` stores; a merge that fails stores nothing. -/
def DsnTask.saved (message : Option (FlaggedMessage Name)) :
    Option (FlaggedMessage Name) :=
  if t.isMultiQueue then
    message.map fun cur =>
      if cur.blobHash = t.message.blobHash ∧
          cur.recipients.length = t.message.recipients.length then
        { cur with recipients := mergeFlagged t.queueName cur.recipients t.message.recipients }
      else cur
  else
    some { t.message with quotaKeys := t.message.toMessage.releaseQuota.1.quotaKeys }

/-! ## Runs -/

structure DsnState (Name : Type) where
  message : Option (FlaggedMessage Name)
  tasks : ℕ → Option (DsnTask Name)
  reports : List (ℕ × DsnAction)
  removed : Option (FlaggedMessage Name)

def DsnState.empty : DsnState Name := ⟨none, fun _ => none, [], none⟩

inductive DsnLabel (Name : Type) where
  | queue (message : FlaggedMessage Name)
  | read (task : ℕ) (queueName : Name)
  | start (task : ℕ) (config : FlaggedRecipient Name → List ℕ) (now : ℕ)
  | limit (task retryAt now : ℕ)
  | route (task now : ℕ)
  | setStatus (task : ℕ) (status : Status) (rcptIdx : ℕ) (strategy : QueueStrategy Name) (now : ℕ)
  | setRateLimit (task rcptIdx retryAt : ℕ)
  | finish (task : ℕ) (config : FlaggedRecipient Name → List ℕ) (now : ℕ)
  | write (task : ℕ)

variable (s : DsnState Name)

def DsnState.setTask (task : ℕ) (t : Option (DsnTask Name)) : DsnState Name :=
  { s with tasks := Function.update s.tasks task t }

/-- A worker goes on, and reports something. -/
def DsnState.edit (task : ℕ)
    (f : DsnTask Name → DsnTask Name × List (ℕ × DsnAction)) : DsnState Name :=
  match s.tasks task with
  | some t => { s.setTask task (some (f t).1) with reports := s.reports ++ (f t).2 }
  | none => s

/-- `save_changes` or `remove`. -/
def DsnState.write (task : ℕ) : DsnState Name :=
  match s.tasks task with
  | some t =>
    match t.phase with
    | .writing true =>
      { s.setTask task none with
        message := none, removed := if s.message.isSome then some t.message else s.removed }
    | .writing false => { s.setTask task none with message := t.saved s.message }
    | _ => s
  | none => s

def DsnState.next : DsnLabel Name → DsnState Name
  | .queue message => { s with message := some message }
  | .read task queueName =>
    match s.message with
    | some m => s.setTask task (some (m.newTask queueName))
    | none => s
  | .start task config now => s.edit task (·.start config now)
  | .limit task retryAt now => s.edit task fun t => (t.limit retryAt now, [])
  | .route task now => s.edit task fun t => (t.route now, [])
  | .setStatus task status rcptIdx strategy now =>
    s.edit task fun t => (t.outcome rcptIdx (·.setStatus status strategy now), [])
  | .setRateLimit task rcptIdx retryAt =>
    s.edit task fun t => (t.outcome rcptIdx (·.setRateLimit retryAt), [])
  | .finish task config now => s.edit task (·.finish config now)
  | .write task => s.write task

def DsnState.step (label : DsnLabel Name) : Option (DsnState Name) :=
  some (s.next label)

/-! ## What is promised -/

/-- The final outcome, if a report of it is asked for. -/
def FlaggedRecipient.requested (rcpt : FlaggedRecipient Name) : Option DsnAction :=
  if rcpt.flags.notifyNever then none
  else
    match rcpt.status with
    | .completed _ => if rcpt.flags.notifySuccess then some .delivered else none
    | .permanentFailure _ => if rcpt.flags.notifyFailure then some .failed else none
    | _ => none

/-- The final outcomes that were reported of a recipient. -/
def finals (reports : List (ℕ × DsnAction)) (i : ℕ) : List DsnAction :=
  (reports.filter fun e => e.1 = i && e.2 ≠ .delayed).map Prod.snd

/-- Final outcomes are reported once, and all of them before the message is removed. -/
structure ReportedOnce (s : DsnState Name) : Prop where
  atMostOnce : ∀ m : FlaggedMessage Name, s.message = some m →
    ∀ (i : ℕ) (rcpt : FlaggedRecipient Name),
    m.recipients[i]? = some rcpt → (finals s.reports i).length ≤ 1
  removed : ∀ m : FlaggedMessage Name, s.removed = some m →
    ∀ (i : ℕ) (rcpt : FlaggedRecipient Name),
    m.recipients[i]? = some rcpt →
      rcpt.status.isPending = false ∧ finals s.reports i = rcpt.requested.toList

/-- One message, with a return path; at most one worker for each queue. -/
def DsnAllowed : DsnLabel Name → Prop
  | .queue message =>
    s.message = none ∧ s.removed = none ∧ message.returnPath ≠ [] ∧
      ∀ rcpt ∈ message.recipients, rcpt.status = .scheduled ∧ rcpt.flags.dsnSent = false
  | .read task queueName =>
    s.tasks task = none ∧
      ∀ task' t, s.tasks task' = some t → t.queueName ≠ queueName
  | _ => True

/-- A worker of a message with several queues has no recipient outside its queue to report: none
expired, and none with an unmarked outcome. -/
def ReportsOwn : DsnLabel Name → Prop
  | .start task _ now =>
    ∀ t, s.tasks task = some t → t.phase = .read → t.isMultiQueue →
      ∀ rcpt ∈ t.message.recipients, rcpt.queue ≠ t.queueName → rcpt.status.isPending →
        rcpt.isExpired t.message.created now = false
  | .finish task _ _ =>
    ∀ t, s.tasks task = some t → t.isMultiQueue →
      ∀ rcpt ∈ t.message.recipients, rcpt.queue ≠ t.queueName → rcpt.status.isPending = false →
        rcpt.skipped
  | _ => True

/-! ## Reports -/

section Reports

omit [DecidableEq Name]

theorem finals_append (reports reports' : List (ℕ × DsnAction)) (i : ℕ) :
    finals (reports ++ reports') i = finals reports i ++ finals reports' i := by
  unfold finals
  rw [filter_append, map_append]

theorem dsnAction_final (now : ℕ) (rcpt : FlaggedRecipient Name) :
    (rcpt.dsnAction now).filter (· ≠ .delayed) =
      if rcpt.skipped then none else rcpt.requested := by
  unfold FlaggedRecipient.dsnAction FlaggedRecipient.requested
  by_cases hskipped : rcpt.skipped
  · rw [if_pos hskipped, if_pos hskipped]
    rfl
  · have hnever : rcpt.flags.notifyNever = false := by
      unfold FlaggedRecipient.skipped at hskipped
      rw [Bool.or_eq_true, not_or] at hskipped
      exact Bool.eq_false_of_not_eq_true hskipped.2
    rw [if_neg hskipped, if_neg hskipped, hnever]
    cases rcpt.status with
    | completed response => cases rcpt.flags.notifySuccess <;> rfl
    | permanentFailure err => cases rcpt.flags.notifyFailure <;> rfl
    | temporaryFailure err => split_ifs <;> rfl
    | scheduled => split_ifs <;> rfl

theorem finals_cons (e : ℕ × DsnAction) (reports : List (ℕ × DsnAction)) (i : ℕ) :
    finals (e :: reports) i =
      if e.1 = i then (Option.some e.2 |>.filter (· ≠ .delayed)).toList ++ finals reports i
      else finals reports i := by
  unfold finals
  by_cases hi : e.1 = i
  · rw [if_pos hi]
    by_cases hdelayed : e.2 = .delayed
    · rw [filter_cons_of_neg (by simp [hdelayed]), hdelayed]
      rfl
    · rw [filter_cons_of_pos (by simp [hi, hdelayed])]
      simp [Option.filter, hdelayed]
  · rw [if_neg hi, filter_cons_of_neg (by simp [hi])]

/-- The final outcomes in a list of recipients, numbered from some index on. -/
theorem finals_zipIdx (now : ℕ) (rcpts : List (FlaggedRecipient Name)) (first i : ℕ) :
    finals ((rcpts.zipIdx first).filterMap fun e => (e.1.dsnAction now).map (e.2, ·)) i =
      if first ≤ i then
        (rcpts[i - first]?.bind fun rcpt =>
          if rcpt.skipped then none else rcpt.requested).toList
      else [] := by
  induction rcpts generalizing first with
  | nil =>
    split_ifs <;> rfl
  | cons rcpt rest ih =>
    rw [zipIdx_cons, filterMap_cons]
    have hhead : finals (match (rcpt.dsnAction now).map (first, ·) with
          | none => rest.zipIdx (first + 1) |>.filterMap fun e => (e.1.dsnAction now).map (e.2, ·)
          | some e => e :: (rest.zipIdx (first + 1) |>.filterMap fun e =>
              (e.1.dsnAction now).map (e.2, ·))) i =
        if first = i then
          (if rcpt.skipped then none else rcpt.requested).toList ++
            finals (rest.zipIdx (first + 1) |>.filterMap fun e =>
              (e.1.dsnAction now).map (e.2, ·)) i
        else finals (rest.zipIdx (first + 1) |>.filterMap fun e =>
          (e.1.dsnAction now).map (e.2, ·)) i := by
      rw [← dsnAction_final now]
      cases rcpt.dsnAction now with
      | none => split_ifs <;> rfl
      | some action => exact finals_cons (first, action) _ i
    refine (Eq.trans ?_ hhead).trans ?_
    · cases rcpt.dsnAction now <;> rfl
    rw [ih]
    rcases Nat.lt_trichotomy first i with hlt | rfl | hgt
    · rw [if_neg (by omega), if_pos (by omega), if_pos (by omega)]
      have hindex : i - first = i - (first + 1) + 1 := by omega
      rw [hindex, getElem?_cons_succ]
    · have hnot : ¬ first + 1 ≤ first := by omega
      rw [if_pos rfl, if_neg hnot, if_pos le_rfl, Nat.sub_self, append_nil]
      rfl
    · rw [if_neg (by omega), if_neg (by omega), if_neg (by omega)]

theorem finals_dsnEntries (m : FlaggedMessage Name) (now i : ℕ) :
    finals (m.dsnEntries now) i =
      (m.recipients[i]?.bind fun rcpt =>
        if rcpt.skipped then none else rcpt.requested).toList := by
  unfold FlaggedMessage.dsnEntries
  rw [finals_zipIdx, if_pos (Nat.zero_le i), Nat.sub_zero]

section

variable {rcpt : FlaggedRecipient Name}

theorem requested_of_pending (h : rcpt.status.isPending) : rcpt.requested = none := by
  unfold FlaggedRecipient.requested
  cases hstatus : rcpt.status with
  | completed | permanentFailure => rw [hstatus] at h; cases h
  | temporaryFailure err => split_ifs <;> rfl
  | scheduled => split_ifs <;> rfl

theorem requested_of_unsent (hskipped : rcpt.skipped) (hsent : rcpt.flags.dsnSent = false) :
    rcpt.requested = none := by
  unfold FlaggedRecipient.skipped at hskipped
  rw [hsent] at hskipped
  exact if_pos hskipped

theorem skipped_of_sent (h : rcpt.flags.dsnSent) : rcpt.skipped := by
  unfold FlaggedRecipient.skipped
  rw [h, Bool.true_or]

theorem markSent_of_skipped (h : rcpt.skipped) :
    rcpt.markSent = rcpt := if_pos (by rw [h, Bool.true_or])

theorem markSent_of_final (hskipped : rcpt.skipped = false)
    (hfinal : rcpt.status.isPending = false) :
    rcpt.markSent = { rcpt with flags := { rcpt.flags with dsnSent := true } } :=
  if_neg (by rw [hskipped, hfinal]; decide)

theorem notified_of_final {m : FlaggedMessage Name} {config}
    {now : ℕ} (h : rcpt.status.isPending = false) : m.notified config now rcpt = rcpt.markSent := by
  have hkept : rcpt.markSent.advanceNotify config now = rcpt.markSent := by
    unfold FlaggedRecipient.advanceNotify
    rw [markSent_status, h]
    rfl
  unfold FlaggedMessage.notified
  rw [hkept, ite_self]

theorem notified_of_pending {m : FlaggedMessage Name} {config}
    {now : ℕ} (h : rcpt.status.isPending) :
    (m.notified config now rcpt).status = rcpt.status ∧
      (m.notified config now rcpt).flags = rcpt.flags ∧
      (m.notified config now rcpt).queue = rcpt.queue := by
  unfold FlaggedMessage.notified
  rw [markSent_of_pending h]
  unfold FlaggedRecipient.advanceNotify
  split_ifs
  · exact ⟨rfl, rfl, rfl⟩
  · exact ⟨rfl, rfl, rfl⟩
  · exact ⟨rfl, rfl, rfl⟩

theorem expire_of_final {created now : ℕ} (h : rcpt.status.isPending = false) :
    rcpt.expire created now = rcpt := by
  unfold FlaggedRecipient.expire
  rw [Recipient.expire_of_not_pending created now h]

end

theorem getElem?_mapRcpts (m : FlaggedMessage Name)
    (f : FlaggedRecipient Name → FlaggedRecipient Name) (i : ℕ) :
    (m.mapRcpts f).recipients[i]? = m.recipients[i]?.map f := getElem?_map

theorem expire_flags (created now : ℕ) (rcpt : FlaggedRecipient Name) :
    (rcpt.expire created now).flags = rcpt.flags := rfl

theorem expire_queue (created now : ℕ) (rcpt : FlaggedRecipient Name) :
    (rcpt.expire created now).queue = rcpt.queue :=
  Recipient.expire_queue created now rcpt.toRecipient

theorem markSent_queue (rcpt : FlaggedRecipient Name) : rcpt.markSent.queue = rcpt.queue := by
  unfold FlaggedRecipient.markSent
  split_ifs
  · rfl
  · rfl

theorem skipped_markSent {rcpt : FlaggedRecipient Name} (h : rcpt.status.isPending = false) :
    rcpt.markSent.skipped := by
  by_cases hskipped : rcpt.skipped
  · rw [markSent_of_skipped hskipped]
    exact hskipped
  · rw [markSent_of_final (Bool.eq_false_of_not_eq_true hskipped) h]
    rfl

end Reports

end MailServer.Delivery
