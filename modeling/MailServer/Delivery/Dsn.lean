import MailServer.Delivery.Message

/-!
# Delivery status notifications

`send_dsn` reports what has become of the recipients to the return path; what it has reported for
good it marks with a flag.  A delivery worker sends the notifications that are due before it
delivers, and again afterwards.

The model keeps from a report which recipients it is about and what it says of each.  The schedule
the configuration answers for a recipient is a parameter.

Principal results: `events_later_iff`, `notify_never_put_off`.
-/

namespace MailServer.Delivery

open List

/-! ## Messages with flags -/

/-- The flags of a recipient; the library gives each `NOTIFY` keyword a bit of its own. -/
structure RcptFlags where
  dsnSent : Bool
  notifySuccess : Bool
  notifyFailure : Bool
  notifyDelay : Bool
  notifyNever : Bool

structure FlaggedRecipient (Name : Type) extends Recipient Name where
  flags : RcptFlags

structure FlaggedMessage (Name : Type) where
  returnPath : Address
  created : ℕ
  blobHash : List UInt8
  recipients : List (FlaggedRecipient Name)
  size : ℕ
  quotaKeys : List QuotaKey

variable {Name : Type}

def FlaggedMessage.toMessage (m : FlaggedMessage Name) : Message Name where
  created := m.created
  blobHash := m.blobHash
  recipients := m.recipients.map FlaggedRecipient.toRecipient
  size := m.size
  quotaKeys := m.quotaKeys

def FlaggedMessage.mapRcpts (m : FlaggedMessage Name)
    (f : FlaggedRecipient Name → FlaggedRecipient Name) : FlaggedMessage Name :=
  { m with recipients := m.recipients.map f }

/-- Neither sent nor to be sent. -/
def FlaggedRecipient.skipped (rcpt : FlaggedRecipient Name) : Bool :=
  rcpt.flags.dsnSent || rcpt.flags.notifyNever

/-! ## Building a notification -/

/-- `write_dsn_action`. -/
inductive DsnAction where
  | delivered
  | failed
  | delayed
  deriving DecidableEq

/-- What a notification says of the recipient. -/
def FlaggedRecipient.dsnAction (now : ℕ) (rcpt : FlaggedRecipient Name) : Option DsnAction :=
  if rcpt.skipped then none
  else
    match rcpt.status with
    | .completed _ => if rcpt.flags.notifySuccess then some .delivered else none
    | .permanentFailure _ => if rcpt.flags.notifyFailure then some .failed else none
    | .temporaryFailure _ | .scheduled =>
      if rcpt.notify.due ≤ now && rcpt.flags.notifyDelay then some .delayed else none

/-- A final outcome is marked, be it reported or not. -/
def FlaggedRecipient.markSent (rcpt : FlaggedRecipient Name) : FlaggedRecipient Name :=
  if rcpt.skipped || rcpt.status.isPending then rcpt
  else { rcpt with flags := { rcpt.flags with dsnSent := true } }

/-- The next delay notification, by the intervals of the schedule. -/
def nextNotify (now : ℕ) (intervals : List ℕ) (notify : Schedule) : Schedule :=
  match intervals[(notify.inner + 1) % 2 ^ 32]? with
  | some interval => ⟨(now + interval) % 2 ^ 64, (notify.inner + 1) % 2 ^ 32⟩
  | none => ⟨2 ^ 64 - 1, notify.inner⟩

def FlaggedRecipient.advanceNotify (config : FlaggedRecipient Name → List ℕ) (now : ℕ)
    (rcpt : FlaggedRecipient Name) : FlaggedRecipient Name :=
  if rcpt.status.isPending && rcpt.notify.due ≤ now then
    { rcpt with notify := nextNotify now (config rcpt) rcpt.notify }
  else rcpt

/-- What a notification says, by the index of the recipient. -/
def FlaggedMessage.dsnEntries (m : FlaggedMessage Name) (now : ℕ) : List (ℕ × DsnAction) :=
  m.recipients.zipIdx.filterMap fun e => (e.1.dsnAction now).map (e.2, ·)

def FlaggedMessage.buildDsn (m : FlaggedMessage Name) (config : FlaggedRecipient Name → List ℕ)
    (now : ℕ) : FlaggedMessage Name × List (ℕ × DsnAction) :=
  let entries := m.dsnEntries now
  let m := m.mapRcpts FlaggedRecipient.markSent
  if entries.any (·.2 = .delayed) then (m.mapRcpts (·.advanceNotify config now), entries)
  else (m, entries)

/-- The body of the loop of `handle_double_bounce`. -/
def FlaggedRecipient.doubleBounce (created now : ℕ) (rcpt : FlaggedRecipient Name) :
    FlaggedRecipient Name :=
  let rcpt :=
    match rcpt.status with
    | .permanentFailure _ => rcpt.markSent
    | _ => rcpt
  if rcpt.notify.due ≤ now then
    { rcpt with
      notify := { rcpt.notify with
        due := ((rcpt.expirationTime created).map (· + 10)).getD (2 ^ 64 - 1) } }
  else rcpt

/-- `SendDsn::send_dsn`: the message afterwards, and what was reported. -/
def FlaggedMessage.sendDsn (m : FlaggedMessage Name) (config : FlaggedRecipient Name → List ℕ)
    (now : ℕ) : FlaggedMessage Name × List (ℕ × DsnAction) :=
  if m.returnPath ≠ [] then m.buildDsn config now
  else (m.mapRcpts (·.doubleBounce m.created now), [])

/-! ## The beginning of a delivery -/

inductive PendingDelivery where
  | yes (matchesQueue : Bool)
  | no

def FlaggedRecipient.expire (created now : ℕ) (rcpt : FlaggedRecipient Name) :
    FlaggedRecipient Name :=
  { rcpt with toRecipient := rcpt.toRecipient.expire created now }

def FlaggedMessage.expireRcpts (m : FlaggedMessage Name) (now : ℕ) : FlaggedMessage Name :=
  m.mapRcpts (·.expire m.created now)

section Delivery

variable [DecidableEq Name]

/-- What `has_pending_delivery` answers, once the recipients are marked. -/
def FlaggedMessage.pendingDelivery (m : FlaggedMessage Name) (queueName : Name) :
    PendingDelivery :=
  if m.recipients.any (·.status.isPending) then
    .yes (m.recipients.any fun rcpt => rcpt.status.isPending && rcpt.queue = queueName)
  else .no

def FlaggedMessage.nextDeliveryEvent (m : FlaggedMessage Name) (queue : Option Name) : Option ℕ :=
  m.recipients.foldl (fun next rcpt =>
    if rcpt.awaits queue then some (next.elim rcpt.retry.due (min rcpt.retry.due)) else next) none

/-- What `deliver_task` goes on with after the first notifications. -/
inductive Turn where
  | deliver
  | remove
  | save
  deriving DecidableEq

def FlaggedMessage.turn (m : FlaggedMessage Name) (queueName : Name) (now : ℕ) :
    PendingDelivery → Turn
  | .yes true =>
    if (m.nextDeliveryEvent (some queueName)).any (· ≤ now) then .deliver else .save
  | .yes false => .save
  | .no => .remove

/-- The first part of `deliver_task`: the message, what was reported, and how it goes on. -/
def FlaggedMessage.startTask (m : FlaggedMessage Name) (queueName : Name)
    (config : FlaggedRecipient Name → List ℕ) (now : ℕ) :
    FlaggedMessage Name × List (ℕ × DsnAction) × Turn :=
  let m := m.expireRcpts now
  let pending := m.pendingDelivery queueName
  let (m, entries) := m.sendDsn config now
  (m, entries, m.turn queueName now pending)

/-- The events `save_changes` writes when the message is queued again at once. -/
def FlaggedMessage.requeueEvents (m : FlaggedMessage Name) (queueName : Name)
    (config : FlaggedRecipient Name → List ℕ) (now : ℕ) : InsertionMap Name ℕ :=
  match m.startTask queueName config now with
  | (m, _, .save) => m.toMessage.nextEvents
  | _ => []

/-! ## The events that are written -/

/-- Events lie ahead exactly if those of the pending recipients do. -/
theorem lt_nextEvents_iff (m : Message Name) (now : ℕ) :
    (∀ event ∈ m.nextEvents, now < event.2) ↔
      ∀ rcpt ∈ m.recipients, rcpt.status.isPending → now < rcpt.earlierEvent m.created := by
  constructor
  · intro h rcpt hmem hpending
    obtain ⟨due, hdue, hle⟩ := nextEvents_covers m rcpt hmem hpending
    exact lt_of_lt_of_le (h _ hdue) hle
  · rintro h ⟨q, due⟩ hevent
    have hfold : ∀ (rcpts : List (Recipient Name)) (next : Option ℕ),
        (∀ rcpt ∈ rcpts, rcpt.status.isPending → now < rcpt.earlierEvent m.created) →
        (∀ event, next = some event → now < event) →
        ∀ event, rcpts.foldl (nextEventStep m.created (some q)) next = some event →
          now < event := by
      intro rcpts
      induction rcpts with
      | nil => exact fun next _ hnext => hnext
      | cons rcpt rest ih =>
        intro next hrcpts hnext
        refine ih _ (fun r hr => hrcpts r (.tail _ hr)) ?_
        unfold nextEventStep
        by_cases hawaits : rcpt.awaits (some q)
        · have hpending : rcpt.status.isPending := by
            exact (Bool.and_eq_true_iff.1 hawaits).1
          have hearlier := hrcpts rcpt (.head _) hpending
          rw [if_pos hawaits]
          cases next with
          | none =>
            rintro event ⟨⟩
            exact hearlier
          | some old =>
            rintro event ⟨⟩
            exact lt_min hearlier (hnext old rfl)
        · rw [if_neg hawaits]
          exact hnext
    exact hfold m.recipients none h (fun event hnone => by cases hnone) due
      ((mem_nextEvents m q due).1 hevent)

end Delivery

/-- The recipient still has to be delivered to, and has not expired. -/
def FlaggedRecipient.waits (created now : ℕ) (rcpt : FlaggedRecipient Name) : Bool :=
  rcpt.status.isPending && !rcpt.isExpired created now

variable {rcpt : FlaggedRecipient Name}

theorem expire_of_waits {created now : ℕ}
    (h : rcpt.waits created now) : rcpt.expire created now = rcpt := by
  obtain ⟨-, hexpired⟩ := Bool.and_eq_true_iff.1 h
  have hnot : ¬ rcpt.isExpired created now := by simpa using hexpired
  have hsame : rcpt.toRecipient.expire created now = rcpt.toRecipient := by
    unfold Recipient.expire
    cases hstatus : rcpt.status with
    | scheduled | temporaryFailure => exact if_neg hnot
    | completed | permanentFailure => rfl
  unfold FlaggedRecipient.expire
  rw [hsame]

theorem isPending_expire (created now : ℕ) (rcpt : FlaggedRecipient Name) :
    (rcpt.expire created now).status.isPending = rcpt.waits created now := by
  cases hwaits : rcpt.waits created now with
  | true =>
    rw [expire_of_waits hwaits]
    exact (Bool.and_eq_true_iff.1 hwaits).1
  | false =>
    unfold FlaggedRecipient.waits at hwaits
    unfold FlaggedRecipient.expire Recipient.expire
    cases hstatus : rcpt.status with
    | completed | permanentFailure => rw [hstatus]; rfl
    | scheduled =>
      rw [hstatus] at hwaits
      have hexpired : rcpt.isExpired created now := by
        simpa [Status.isPending] using hwaits
      dsimp only
      rw [if_pos hexpired]
      rfl
    | temporaryFailure err =>
      rw [hstatus] at hwaits
      have hexpired : rcpt.isExpired created now := by
        simpa [Status.isPending] using hwaits
      rw [if_pos hexpired]
      rfl

def FlaggedRecipient.wantsDelay (now : ℕ) (rcpt : FlaggedRecipient Name) : Bool :=
  !rcpt.skipped && (rcpt.notify.due ≤ now && rcpt.flags.notifyDelay)

/-- Some waiting recipient gets a delay notification. -/
def FlaggedMessage.DelaySent (m : FlaggedMessage Name) (now : ℕ) : Prop :=
  ∃ rcpt ∈ m.recipients, rcpt.waits m.created now ∧ rcpt.wantsDelay now

/-- The retry of the recipient lies ahead, and so does its next notification, or one is sent and
puts it off. -/
def FlaggedMessage.LiesAhead (m : FlaggedMessage Name) (config : FlaggedRecipient Name → List ℕ)
    (now : ℕ) (rcpt : FlaggedRecipient Name) : Prop :=
  now < rcpt.retry.due ∧ (now < rcpt.notify.due ∨
    (m.DelaySent now ∧ now < (nextNotify now (config rcpt) rcpt.notify).due))

theorem markSent_of_pending (h : rcpt.status.isPending) :
    rcpt.markSent = rcpt := if_pos (by rw [h, Bool.or_true])

theorem markSent_status (rcpt : FlaggedRecipient Name) : rcpt.markSent.status = rcpt.status := by
  unfold FlaggedRecipient.markSent
  split
  · rfl
  · rfl

theorem advanceNotify_status (config : FlaggedRecipient Name → List ℕ) (now : ℕ)
    (rcpt : FlaggedRecipient Name) : (rcpt.advanceNotify config now).status = rcpt.status := by
  unfold FlaggedRecipient.advanceNotify
  split
  · rfl
  · rfl

theorem dsnAction_eq_delayed {now : ℕ} :
    rcpt.dsnAction now = some .delayed ↔
      rcpt.status.isPending ∧ rcpt.wantsDelay now := by
  unfold FlaggedRecipient.dsnAction FlaggedRecipient.wantsDelay
  by_cases hskipped : rcpt.skipped
  · simp [hskipped]
  · cases hstatus : rcpt.status with
    | scheduled | temporaryFailure | completed | permanentFailure => simp [Status.isPending]

variable {m : FlaggedMessage Name}

theorem mem_dsnEntries {now i : ℕ} {action : DsnAction} :
    (i, action) ∈ m.dsnEntries now ↔
      ∃ rcpt, m.recipients[i]? = some rcpt ∧ rcpt.dsnAction now = some action := by
  unfold FlaggedMessage.dsnEntries
  rw [mem_filterMap]
  constructor
  · rintro ⟨⟨rcpt, j⟩, hmem, haction⟩
    obtain ⟨action', haction', heq⟩ := Option.map_eq_some_iff.1 haction
    cases heq
    exact ⟨rcpt, mem_zipIdx_iff_getElem?.1 hmem, haction'⟩
  · rintro ⟨rcpt, hget, haction⟩
    exact ⟨(rcpt, i), mem_zipIdx_iff_getElem?.2 hget, by rw [haction]; rfl⟩

theorem any_delayed_iff (m : FlaggedMessage Name) (now : ℕ) :
    ((m.expireRcpts now).dsnEntries now).any (·.2 = .delayed) ↔ m.DelaySent now := by
  rw [any_eq_true]
  constructor
  · rintro ⟨⟨i, action⟩, hmem, haction⟩
    obtain rfl : action = .delayed := of_decide_eq_true haction
    obtain ⟨rcpt', hget, hdelayed⟩ := mem_dsnEntries.1 hmem
    obtain ⟨rcpt, hrcpt, rfl⟩ := mem_map.1 (mem_of_getElem? hget)
    obtain ⟨hpending, hwants⟩ := dsnAction_eq_delayed.1 hdelayed
    rw [isPending_expire] at hpending
    rw [expire_of_waits hpending] at hwants
    exact ⟨rcpt, hrcpt, hpending, hwants⟩
  · rintro ⟨rcpt, hrcpt, hwaits, hwants⟩
    have hmem : rcpt ∈ (m.expireRcpts now).recipients :=
      mem_map.2 ⟨rcpt, hrcpt, expire_of_waits hwaits⟩
    obtain ⟨i, hget⟩ := mem_iff_getElem?.1 hmem
    have hpending := (Bool.and_eq_true_iff.1 hwaits).1
    exact ⟨(i, .delayed), mem_dsnEntries.2 ⟨rcpt, hget, dsnAction_eq_delayed.2 ⟨hpending, hwants⟩⟩,
      rfl⟩

/-- What `build_dsn` makes of one recipient. -/
def FlaggedMessage.notified (m : FlaggedMessage Name) (config : FlaggedRecipient Name → List ℕ)
    (now : ℕ) (rcpt : FlaggedRecipient Name) : FlaggedRecipient Name :=
  if (m.dsnEntries now).any (·.2 = .delayed) then rcpt.markSent.advanceNotify config now
  else rcpt.markSent

theorem sendDsn_eq {config} {now : ℕ}
    (hreturn : m.returnPath ≠ []) :
    m.sendDsn config now = (m.mapRcpts (m.notified config now), m.dsnEntries now) := by
  unfold FlaggedMessage.sendDsn
  rw [if_pos hreturn]
  unfold FlaggedMessage.buildDsn FlaggedMessage.notified
  by_cases hdelay : (m.dsnEntries now).any (·.2 = .delayed)
  · simp only [if_pos hdelay]
    simp only [FlaggedMessage.mapRcpts, map_map]
    rfl
  · simp only [if_neg hdelay]

/-- What the first part of `deliver_task` makes of one recipient. -/
def FlaggedMessage.started (m : FlaggedMessage Name) (config : FlaggedRecipient Name → List ℕ)
    (now : ℕ) (rcpt : FlaggedRecipient Name) : FlaggedRecipient Name :=
  (m.expireRcpts now).notified config now (rcpt.expire m.created now)

section Delivery

variable [DecidableEq Name]

theorem startTask_eq {queueName : Name}
    {config} {now : ℕ} (hreturn : m.returnPath ≠ []) :
    m.startTask queueName config now =
      (m.mapRcpts (m.started config now), (m.expireRcpts now).dsnEntries now,
        (m.mapRcpts (m.started config now)).turn queueName now
          ((m.expireRcpts now).pendingDelivery queueName)) := by
  have hpath : (m.expireRcpts now).returnPath ≠ [] := hreturn
  have hmap : (m.expireRcpts now).mapRcpts ((m.expireRcpts now).notified config now) =
      m.mapRcpts (m.started config now) := by
    simp only [FlaggedMessage.mapRcpts, FlaggedMessage.expireRcpts, map_map]
    rfl
  unfold FlaggedMessage.startTask
  dsimp only
  rw [sendDsn_eq hpath, hmap]

end Delivery

theorem started_pending (m : FlaggedMessage Name) (config : FlaggedRecipient Name → List ℕ)
    (now : ℕ) (rcpt : FlaggedRecipient Name) :
    (m.started config now rcpt).status.isPending = rcpt.waits m.created now := by
  rw [← isPending_expire]
  unfold FlaggedMessage.started FlaggedMessage.notified
  split
  · rw [advanceNotify_status, markSent_status]
  · rw [markSent_status]

/-- The events of a waiting recipient. -/
theorem started_liesAhead_iff
    {config} {now : ℕ} (hwaits : rcpt.waits m.created now) :
    now < (m.started config now rcpt).earlierEvent m.created ↔ m.LiesAhead config now rcpt := by
  obtain ⟨hpending, hexpired⟩ := Bool.and_eq_true_iff.1 hwaits
  have hnot : rcpt.isExpired m.created now = false := by simpa using hexpired
  -- The expiry time of a recipient that has not expired lies ahead.
  have hexpires : ∀ notify,
      (now < ({ rcpt with notify := notify } : FlaggedRecipient Name).earlierEvent m.created ↔
        now < rcpt.retry.due ∧ now < notify.due) := by
    intro notify
    unfold Recipient.earlierEvent Recipient.expirationTime
    unfold Recipient.isExpired at hnot
    cases hkind : rcpt.expires with
    | ttl time =>
      rw [hkind] at hnot
      have hlater : ¬ m.created + time ≤ now := by simpa using hnot
      simp only [lt_min_iff]
      omega
    | attempts count => simp only [lt_min_iff]
  unfold FlaggedMessage.started FlaggedMessage.notified FlaggedMessage.LiesAhead
  rw [expire_of_waits hwaits, markSent_of_pending hpending, ← any_delayed_iff]
  by_cases hdelay : ((m.expireRcpts now).dsnEntries now).any (·.2 = .delayed)
  · rw [if_pos hdelay]
    unfold FlaggedRecipient.advanceNotify
    by_cases hdue : rcpt.notify.due ≤ now
    · rw [if_pos (by simp [hpending, hdue]), hexpires]
      have hnotlt : ¬ now < rcpt.notify.due := Nat.not_lt.2 hdue
      simp only [hnotlt, hdelay, false_or, true_and]
    · rw [if_neg (by simp [hdue])]
      have hsame := hexpires rcpt.notify
      have hlt : now < rcpt.notify.due := Nat.not_le.1 hdue
      rw [hsame]
      simp only [hlt, true_or]
  · rw [if_neg hdelay]
    have hsame := hexpires rcpt.notify
    rw [hsame]
    simp only [hdelay, false_and, or_false, Bool.false_eq_true]

section Delivery

variable [DecidableEq Name]

/-- **Events lie ahead** after a worker has found nothing to deliver, exactly if everything that was
due is put off. -/
theorem events_later_iff (m : FlaggedMessage Name) (queueName : Name)
    (config : FlaggedRecipient Name → List ℕ) (now : ℕ) (hreturn : m.returnPath ≠ [])
    (hturn : (m.startTask queueName config now).2.2 = .save) :
    (∀ event ∈ m.requeueEvents queueName config now, now < event.2) ↔
      ∀ rcpt ∈ m.recipients, rcpt.waits m.created now → m.LiesAhead config now rcpt := by
  have hevents : m.requeueEvents queueName config now =
      (m.startTask queueName config now).1.toMessage.nextEvents := by
    unfold FlaggedMessage.requeueEvents
    generalize m.startTask queueName config now = started at hturn
    obtain ⟨m', entries, turn⟩ := started
    obtain rfl : turn = .save := hturn
    rfl
  rw [hevents]
  have hrcpts : (m.startTask queueName config now).1.toMessage.recipients =
      m.recipients.map fun rcpt => (m.started config now rcpt).toRecipient := by
    rw [startTask_eq hreturn]
    exact map_map
  have hcreated : (m.startTask queueName config now).1.toMessage.created = m.created := by
    rw [startTask_eq hreturn]
    rfl
  rw [lt_nextEvents_iff, hcreated, hrcpts]
  constructor
  · intro h rcpt hmem hwaits
    rw [← started_liesAhead_iff hwaits]
    refine h _ (mem_map_of_mem hmem) ?_
    rw [started_pending]
    exact hwaits
  · intro h rcpt' hmem hpending
    obtain ⟨rcpt, hrcpt, rfl⟩ := mem_map.1 hmem
    rw [started_pending] at hpending
    exact (started_liesAhead_iff hpending).2 (h rcpt hrcpt hpending)

end Delivery

/-! ## A notification that nobody wants -/

/-- A recipient of queue 1 that waits for its retry at 100, with a notification due at 10. -/
def waitingRcpt (flags : RcptFlags) : FlaggedRecipient ℕ :=
  ⟨⟨['r', '@', 'x'], ⟨100, 1⟩, ⟨10, 0⟩, .ttl 1000, 1, .scheduled⟩, flags⟩

def waitingMessage (flags : RcptFlags) : FlaggedMessage ℕ :=
  ⟨['s', '@', 'y'], 0, [], [waitingRcpt flags], 100, []⟩

def dailyNotify : FlaggedRecipient ℕ → List ℕ := fun _ => [86400, 86400]

theorem events_later_delayed :
    (∀ event ∈ (waitingMessage ⟨false, false, true, true, false⟩).requeueEvents 1 dailyNotify 50,
      50 < event.2) ↔
    ∀ rcpt ∈ (waitingMessage ⟨false, false, true, true, false⟩).recipients,
      rcpt.waits 0 50 →
        (waitingMessage ⟨false, false, true, true, false⟩).LiesAhead dailyNotify 50 rcpt :=
  events_later_iff _ 1 dailyNotify 50 (by decide) (by decide)

/-- With `NOTIFY=FAILURE` the notification stays due, and so does the message. -/
theorem notify_never_put_off :
    ¬ ∀ (m : FlaggedMessage ℕ) (queueName : ℕ) (config : FlaggedRecipient ℕ → List ℕ) (now : ℕ),
      m.returnPath ≠ [] → (m.startTask queueName config now).2.2 = .save →
      ∀ event ∈ m.requeueEvents queueName config now, now < event.2 := by
  intro h
  have hlater := h (waitingMessage ⟨false, false, true, false, false⟩) 1 dailyNotify 50 (by decide)
    (by decide) (1, 10) (by decide)
  exact absurd hlater (by decide)

end MailServer.Delivery
