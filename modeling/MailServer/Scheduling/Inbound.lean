import MailServer.Lib.Fallible
import MailServer.Scheduling.Export

/-!
# Incoming scheduling messages

`itipProcessMessage` compares the snapshot of a stored event with the snapshot of a scheduling
message and lists the changes to make to the event. The maps and sets of the snapshots are lists in
the order of an iteration, so that a statement about all lists is one about every iteration order.

Principal results: `updates_iff`, `organizer_only_iff`, `attendee_cancels`.
-/

namespace MailServer.Scheduling

open List

inductive MergeAction
  | addEntries (componentId : UInt16) (entries : List ICalendarEntry)
  | removeEntries (componentId : UInt16) (entries : List ICalendarProperty)
  | addParameters (componentId entryId : UInt16) (parameters : List ICalendarParameter)
  | removeParameters (componentId entryId : UInt16) (parameters : List ICalendarParameterName)
  | addComponent (component : ICalendarComponent)
  | removeComponent (componentId : UInt16)

variable {itip : ICalendar} {itipSnapshots : ItipSnapshots} {actions : List MergeAction}

inductive MergeResult
  | actions (actions : List MergeAction)
  | message (message : ItipMessage)
  | none

def itipMethod (ical : ICalendar) : Except ItipError ICalendarMethod :=
  match ical.components.head?.bind fun comp => comp.entries.findSome? fun entry =>
      if entry.name = .method then
        match entry.values.head? with
        | some (.method method) => some method
        | _ => none
      else none with
  | some method => .ok method
  | none => .error .missingMethod

def ItipSnapshot.attendeeByEmail (snapshot : ItipSnapshot) (email : String) : Option Attendee :=
  snapshot.attendees.find? (·.email.email = email)

def ItipSnapshot.externalAttendees (snapshot : ItipSnapshot) : List Attendee :=
  snapshot.attendees.filter fun attendee => !attendee.email.isLocal

def ItipSnapshots.senderIsOrganizerOrAttendee (snapshots : ItipSnapshots) (email : String) : Bool :=
  snapshots.organizer.email.email = email ||
    snapshots.components.any fun instance' =>
      instance'.2.attendees.any (·.email.email = email)

/-! ## Updates from the organizer -/

/-- Equality of two hash sets, given by their elements. -/
def sameElements {α : Type} [DecidableEq α] (xs ys : List α) : Bool :=
  xs.length = ys.length && xs.all (ys.contains ·)

variable (itipSnapshot snapshot : ItipSnapshot)

/-- The message is older than the stored instance. -/
def ItipSnapshot.outOfSequence : Bool :=
  itipSnapshot.sequence.getD 0 < snapshot.sequence.getD 0

/-- The names of the properties that a `REQUEST` replaces. -/
def changedEntries : List ICalendarProperty :=
  (itipSnapshot.entries.filter (!snapshot.entries.contains ·)).map (·.name) ++
    (snapshot.entries.filter (!itipSnapshot.entries.contains ·)).map (·.name) ++
    (if sameElements (itipSnapshot.attendees.map Attendee.key)
        (snapshot.attendees.map Attendee.key) then [] else [.attendee]) ++
    (if itipSnapshot.dtstamp.isSome && itipSnapshot.dtstamp ≠ snapshot.dtstamp then [.dtstamp]
      else []) ++
    [.sequence]

/-- The property is one of an unregistered name. -/
def ICalendarProperty.isOther : ICalendarProperty → Bool
  | .other _ => true
  | _ => false

variable (component : ICalendarComponent)

/-- The component of a new instance, without the entries that are left out. -/
def newComponent (isLeftOut : ICalendarProperty → Bool)
    (added : List ICalendarEntry) : ICalendarComponent where
  componentType := component.componentType
  entries := (component.entries.filter fun entry => !isLeftOut entry.name) ++ added
  componentIds := []

def newInstance (isLeftOut : ICalendarProperty → Bool)
    (added : List ICalendarEntry) : MergeAction :=
  .addComponent (newComponent component isLeftOut added)

def requestInstance (snapshots : ItipSnapshots) (itip : ICalendar)
    (update : InstanceId × ItipSnapshot) : Except ItipError (List MergeAction) :=
  let itipComponent := itip.component update.2.compId.toNat
  match snapshots.get? update.1 with
  | some snapshot =>
    if update.2.outOfSequence snapshot then .error .outOfSequence
    else
      let changed := changedEntries update.2 snapshot
      if changed.isEmpty then .ok []
      else .ok [
        .removeEntries snapshot.compId changed,
        .addEntries snapshot.compId
          (itipComponent.entries.filter fun entry => changed.contains entry.name)]
  | none => .ok [newInstance itipComponent ICalendarProperty.isOther []]

/-- The instances of the stored event that a message does not mention. -/
def unmentioned (snapshots itipSnapshots : ItipSnapshots) : List ItipSnapshot :=
  (snapshots.components.filter fun stored => (itipSnapshots.get? stored.1).isNone).map Prod.snd

/-- The removals of a full update, which names the main instance. -/
def requestTail (snapshots itipSnapshots : ItipSnapshots) : List MergeAction :=
  if itipSnapshots.components.any (·.1 = .main) then
    (unmentioned snapshots itipSnapshots).map fun snapshot => .removeComponent snapshot.compId
  else []

def handleRequest (snapshots : ItipSnapshots) (itip : ICalendar) (itipSnapshots : ItipSnapshots) :
    Except ItipError (List MergeAction) := do
  let actions ← itipSnapshots.components.mapM (requestInstance snapshots itip)
  return actions.flatten ++ requestTail snapshots itipSnapshots

def handleAdd (snapshots : ItipSnapshots) (itip : ICalendar) (itipSnapshots : ItipSnapshots) :
    List MergeAction :=
  (itipSnapshots.components.filter fun update => (snapshots.get? update.1).isNone).map
    fun update => newInstance (itip.component update.2.compId.toNat) ICalendarProperty.isOther []

def cancelledStatus : ICalendarEntry :=
  { name := .status, params := [], values := [.status .cancelled] }

/-- What a cancelled instance gets from the component of the message. -/
def cancelEntries : List ICalendarEntry :=
  (component.entries.filter fun entry => entry.name = .organizer ∨ entry.name = .attendee) ++
    [cancelledStatus]

def cancelInstance (snapshots : ItipSnapshots) (update : InstanceId × ItipSnapshot) :
    Except ItipError (List MergeAction) :=
  match snapshots.get? update.1 with
  | some snapshot =>
    if update.2.outOfSequence snapshot then .error .outOfSequence
    else .ok [
      .removeEntries snapshot.compId [.organizer, .attendee, .status, .sequence],
      .addEntries snapshot.compId (cancelEntries update.2.comp)]
  | none =>
    .ok [newInstance update.2.comp (fun name => name = .status || name.isOther) [cancelledStatus]]

/-- A stored instance that a `CANCEL` of the whole event does not mention. -/
def cancelUnmentioned (snapshot : ItipSnapshot) :
    List MergeAction :=
  [.removeEntries snapshot.compId [.organizer, .attendee, .status],
    .addEntries snapshot.compId (cancelEntries component)]

/-- The changes of a cancellation of the whole event to the instances it does not mention. -/
def cancelTail (snapshots itipSnapshots : ItipSnapshots) : List MergeAction :=
  match itipSnapshots.get? .main, snapshots.get? .main with
  | some itipMain, some _ =>
    (unmentioned snapshots itipSnapshots).flatMap (cancelUnmentioned itipMain.comp)
  | _, _ => []

def handleCancel (snapshots itipSnapshots : ItipSnapshots) :
    Except ItipError (List MergeAction) := do
  let actions ← itipSnapshots.components.mapM (cancelInstance snapshots)
  return actions.flatten ++ cancelTail snapshots itipSnapshots

/-! ## Replies from an attendee -/

/-- The parameters of the sender's own entry that a reply replaces, by name and by value. -/
def replyParameters (attendee updated : Attendee) (requestStatus : List String) :
    List ICalendarParameterName × List ICalendarParameter :=
  let partStat : List ICalendarParameterName × List ICalendarParameter :=
    if attendee.partStat ≠ updated.partStat then
      ([.partstat], updated.partStat.toList.map fun status =>
        { name := .partstat, value := .partstat status })
    else ([], [])
  let rsvp : List ICalendarParameterName × List ICalendarParameter :=
    if attendee.rsvp ≠ updated.rsvp then
      ([.rsvp], updated.rsvp.toList.map fun rsvp => { name := .rsvp, value := .bool rsvp })
    else ([], [])
  let delegatedTo : List ICalendarParameterName × List ICalendarParameter :=
    if attendee.delegatedTo.map Email.email ≠ updated.delegatedTo.map Email.email then
      ([.delegatedTo], updated.delegatedTo.map fun email =>
        { name := .delegatedTo, value := .uri (.location email.toString) })
    else ([], [])
  let scheduleStatus : List ICalendarParameterName × List ICalendarParameter :=
    if requestStatus ≠ [] then
      ([.scheduleStatus],
        [{ name := .scheduleStatus, value := .text (",".intercalate requestStatus) }])
    else ([], [])
  (partStat.1 ++ rsvp.1 ++ delegatedTo.1 ++ scheduleStatus.1,
    partStat.2 ++ rsvp.2 ++ delegatedTo.2 ++ scheduleStatus.2)

/-- The parameters of a delegate that are taken over from a reply. -/
def delegationParameters : List ICalendarParameterName :=
  [.delegatedTo, .delegatedFrom, .partstat, .rsvp, .scheduleStatus, .role]

/-- One address that the sender of a reply delegates to. -/
def replyDelegate (snapshot itipSnapshot : ItipSnapshot) (delegatedTo : Email) :
    List MergeAction :=
  match itipSnapshot.attendeeByEmail delegatedTo.email with
  | none => []
  | some itipDelegated =>
    let entry := itipSnapshot.comp.entries.getD itipDelegated.entryId.toNat
      { name := .attendee, params := [], values := [] }
    match snapshot.attendeeByEmail delegatedTo.email with
    | some delegated =>
      if delegated.key ≠ itipDelegated.key then [
        .removeParameters snapshot.compId delegated.entryId delegationParameters,
        .addParameters snapshot.compId delegated.entryId
          (entry.params.filter fun param => delegationParameters.contains param.name)]
      else []
    | none => [.addEntries snapshot.compId [entry]]

/-- The properties by which an attendee reports on a task. -/
def ICalendarProperty.isProgress : ICalendarProperty → Bool
  | .percentComplete | .status | .completed => true
  | _ => false

/-- The part of a reply about an instance that both sides know the sender to attend. -/
def replyAttendee (snapshot itipSnapshot : ItipSnapshot) (attendee updated : Attendee) :
    List MergeAction :=
  let parameters := replyParameters attendee updated itipSnapshot.requestStatus
  let progress := itipSnapshot.comp.entries.filter (·.name.isProgress)
  (if parameters.1 ≠ [] then
    [.removeParameters snapshot.compId attendee.entryId parameters.1,
      .addParameters snapshot.compId attendee.entryId parameters.2] ++
    updated.delegatedTo.flatMap (replyDelegate snapshot itipSnapshot)
  else []) ++
    if snapshot.comp.componentType = .vTodo ∧ progress ≠ [] then
      [.removeEntries snapshot.compId (progress.map (·.name)),
        .addEntries snapshot.compId progress]
    else []

/-- The properties of a new instance that a reply may bring along. -/
def isReplied (isTodo : Bool) : ICalendarProperty → Bool
  | .organizer | .attendee | .uid | .dtstamp | .sequence | .recurrenceId => true
  | .percentComplete | .status | .completed => isTodo
  | _ => false

def replyInstance (snapshots : ItipSnapshots) (sender : String)
    (update : InstanceId × ItipSnapshot) : Except ItipError (List MergeAction) :=
  match snapshots.get? update.1 with
  | some snapshot =>
    match snapshot.attendeeByEmail sender, update.2.attendeeByEmail sender with
    | some attendee, some updated => .ok (replyAttendee snapshot update.2 attendee updated)
    | _, _ => .error (.senderIsNotParticipant sender)
  | none =>
    if (update.2.attendeeByEmail sender).isSome then
      .ok [newInstance update.2.comp
        (fun name => !isReplied (update.2.comp.componentType = .vTodo) name) []]
    else .error (.senderIsNotParticipant sender)

def handleReply (snapshots itipSnapshots : ItipSnapshots) (sender : String) :
    Except ItipError (List MergeAction) := do
  let actions ← itipSnapshots.components.mapM (replyInstance snapshots sender)
  return actions.flatten

/-! ## Processing a message -/

/-- A reply from someone a local attendee delegated to. -/
def fromDelegate (itipSnapshots : ItipSnapshots) (sender : String) : Bool :=
  itipSnapshots.components.any fun update =>
    update.2.externalAttendees.any fun attendee =>
      attendee.email.email = sender && attendee.delegatedFrom.any (·.isLocal)

/-- The changes that a message to the organizer makes, by its method. -/
def organizerActions (snapshots itipSnapshots : ItipSnapshots) (sender : String) :
    ICalendarMethod → Except ItipError (List MergeAction)
  | .reply => handleReply snapshots itipSnapshots sender
  | method => .error (.unsupportedMethod method)

/-- The changes that a message to an attendee makes, by its method. -/
def attendeeActions (snapshots : ItipSnapshots) (itip : ICalendar) (itipSnapshots : ItipSnapshots)
    (sender : String) : ICalendarMethod → Except ItipError (List MergeAction)
  | .request => handleRequest snapshots itip itipSnapshots
  | .add => .ok (handleAdd snapshots itip itipSnapshots)
  | .cancel => handleCancel snapshots itipSnapshots
  | .reply =>
    if fromDelegate itipSnapshots sender then handleReply snapshots itipSnapshots sender
    else .error (.unsupportedMethod .reply)
  | method => .error (.unsupportedMethod method)

/-- The changes that a message makes to an event. -/
def mergeActions (snapshots : ItipSnapshots) (itip : ICalendar) (itipSnapshots : ItipSnapshots)
    (sender : String) (method : ICalendarMethod) : Except ItipError (List MergeAction) :=
  if snapshots.organizer.email.isLocal then organizerActions snapshots itipSnapshots sender method
  else attendeeActions snapshots itip itipSnapshots sender method

/-- `itip_process_message`; `now` is the time stamp of an answer to a `REFRESH`. -/
def itipProcessMessage (cal : Calcard) (now : PartialDateTime) (ical : ICalendar)
    (snapshots : ItipSnapshots) (itip : ICalendar) (itipSnapshots : ItipSnapshots)
    (sender : String) : Except ItipError MergeResult :=
  if snapshots.organizer.email.email ≠ itipSnapshots.organizer.email.email then
    .error .organizerMismatch
  else do
    let method ← itipMethod itip
    if snapshots.organizer.email.isLocal && snapshots.organizer.email.email = sender then
      .error .organizerIsLocalAddress
    else if snapshots.organizer.email.isLocal && method = .refresh then do
      match ← (organizerRequestFull cal now ical snapshots false false).2 with
      | [] => .error .nothingToSend
      | message :: _ => .ok (.message { message with recipients := [sender] })
    else do
      let actions ← mergeActions snapshots itip itipSnapshots sender method
      return if actions.isEmpty then .none else .actions actions

/-! ## Which messages change the stored event -/

theorem ItipSnapshots.get?_mem {snapshots : ItipSnapshots} {id : InstanceId}
    {snapshot : ItipSnapshot} (h : snapshots.get? id = some snapshot) :
    (id, snapshot) ∈ snapshots.components := by
  obtain ⟨found, hfound, rfl⟩ := Option.map_eq_some_iff.1 h
  obtain rfl : found.1 = id := by simpa using find?_some hfound
  exact mem_of_find?_eq_some hfound

theorem ItipSnapshots.get?_eq_none_iff {snapshots : ItipSnapshots} {id : InstanceId} :
    snapshots.get? id = none ↔ id ∉ snapshots.components.map Prod.fst := by
  rw [ItipSnapshots.get?, Option.map_eq_none_iff, find?_eq_none]
  simp only [decide_eq_true_eq, mem_map, not_exists, not_and]

/-- The message is not older than any of the stored instances it updates. -/
def InSequence (snapshots itipSnapshots : ItipSnapshots) : Prop :=
  ∀ update ∈ itipSnapshots.components, ∀ snapshot, snapshots.get? update.1 = some snapshot →
    update.2.outOfSequence snapshot = false

theorem changedEntries_ne_nil :
    changedEntries itipSnapshot snapshot ≠ [] := by
  simp [changedEntries]

section

variable {snapshots : ItipSnapshots} {update : InstanceId × ItipSnapshot}

theorem requestInstance_stored {snapshot : ItipSnapshot}
    (hstored : snapshots.get? update.1 = some snapshot) : requestInstance snapshots itip update =
      if update.2.outOfSequence snapshot then .error .outOfSequence
      else .ok [
        .removeEntries snapshot.compId (changedEntries update.2 snapshot),
        .addEntries snapshot.compId ((itip.component update.2.compId.toNat).entries.filter
          fun entry => (changedEntries update.2 snapshot).contains entry.name)] := by
  have hchanged : (changedEntries update.2 snapshot).isEmpty = false := by
    simpa using changedEntries_ne_nil update.2 snapshot
  simp only [requestInstance, hstored, hchanged]
  rfl

theorem requestInstance_new (hnew : snapshots.get? update.1 = none) :
    requestInstance snapshots itip update =
      .ok [newInstance (itip.component update.2.compId.toNat) ICalendarProperty.isOther []] := by
  simp only [requestInstance, hnew]

theorem exists_requestInstance_eq_ok_iff :
    (∃ actions, requestInstance snapshots itip update = .ok actions) ↔
      ∀ snapshot, snapshots.get? update.1 = some snapshot →
        update.2.outOfSequence snapshot = false := by
  cases hstored : snapshots.get? update.1 with
  | none => simp [requestInstance_new hstored]
  | some snapshot =>
    rw [requestInstance_stored hstored]
    cases hsequence : update.2.outOfSequence snapshot <;> simp [hsequence]

theorem requestInstance_ne_nil
    (h : requestInstance snapshots itip update = .ok actions) : actions ≠ [] := by
  cases hstored : snapshots.get? update.1 with
  | none =>
    rw [requestInstance_new hstored] at h
    cases h
    exact cons_ne_nil _ _
  | some snapshot =>
    rw [requestInstance_stored hstored] at h
    split at h
    · cases h
    · cases h
      exact cons_ne_nil _ _

theorem exists_cancelInstance_eq_ok_iff :
    (∃ actions, cancelInstance snapshots update = .ok actions) ↔
      ∀ snapshot, snapshots.get? update.1 = some snapshot →
        update.2.outOfSequence snapshot = false := by
  cases hstored : snapshots.get? update.1 with
  | none => simp [cancelInstance, hstored]
  | some snapshot =>
    cases hsequence : update.2.outOfSequence snapshot <;>
      simp [cancelInstance, hstored, hsequence]

theorem cancelInstance_ne_nil
    (h : cancelInstance snapshots update = .ok actions) : actions ≠ [] := by
  simp only [cancelInstance] at h
  split at h
  · split at h
    · cases h
    · cases h
      exact cons_ne_nil _ _
  · cases h
    exact cons_ne_nil _ _

end

/-- **What it takes for a message to change the event.** -/
theorem itipProcessMessage_actions_iff {cal : Calcard} {now} {ical : ICalendar}
    {snapshots} {sender : String} :
    itipProcessMessage cal now ical snapshots itip itipSnapshots sender = .ok (.actions actions) ↔
      snapshots.organizer.email.email = itipSnapshots.organizer.email.email ∧
        (snapshots.organizer.email.isLocal → snapshots.organizer.email.email ≠ sender) ∧
        ∃ method, itipMethod itip = .ok method ∧
          mergeActions snapshots itip itipSnapshots sender method = .ok actions ∧
          actions ≠ [] := by
  by_cases horganizer : snapshots.organizer.email.email = itipSnapshots.organizer.email.email
  swap
  · simp [itipProcessMessage, horganizer]
  have hfinish (result : Except ItipError (List MergeAction)) :
      (result >>= fun found => (pure (if found.isEmpty then .none else .actions found) :
          Except ItipError MergeResult)) = .ok (.actions actions) ↔
        result = .ok actions ∧ actions ≠ [] := by
    cases result with
    | error e => simp [bind, Except.bind]
    | ok found =>
      cases found with
      | nil => simp [bind, Except.bind, pure, Except.pure]
      | cons action found =>
        simp only [bind, Except.bind, pure, Except.pure, isEmpty_cons, Bool.false_eq_true,
          if_false, Except.ok.injEq, MergeResult.actions.injEq]
        exact ⟨fun h => ⟨h, h ▸ cons_ne_nil _ _⟩, And.left⟩
  cases hmethod : itipMethod itip with
  | error e => simp [itipProcessMessage, horganizer, hmethod, bind, Except.bind]
  | ok method =>
    have hprocess : itipProcessMessage cal now ical snapshots itip itipSnapshots sender =
        if snapshots.organizer.email.isLocal && snapshots.organizer.email.email = sender then
          .error .organizerIsLocalAddress
        else if snapshots.organizer.email.isLocal && method = .refresh then do
          match ← (organizerRequestFull cal now ical snapshots false false).2 with
          | [] => .error .nothingToSend
          | message :: _ => .ok (.message { message with recipients := [sender] })
        else do
          let found ← mergeActions snapshots itip itipSnapshots sender method
          return if found.isEmpty then .none else .actions found := by
      rw [itipProcessMessage, if_neg (not_not.2 horganizer), hmethod]
      rfl
    simp only [Except.ok.injEq, exists_eq_left']
    rw [hprocess]
    split
    · rename_i hlocal
      simp only [Bool.and_eq_true, decide_eq_true_eq] at hlocal
      exact ⟨(fun h => by cases h), fun h => absurd hlocal.2 (h.2.1 hlocal.1)⟩
    rename_i hlocal
    split
    · rename_i hrefresh
      simp only [Bool.and_eq_true, decide_eq_true_eq] at hrefresh
      constructor
      · intro h
        match hfull : (organizerRequestFull cal now ical snapshots false false).2 with
        | .error e => rw [hfull] at h; cases h
        | .ok [] => rw [hfull] at h; cases h
        | .ok (message :: _) => rw [hfull] at h; cases h
      · rintro ⟨-, -, h, -⟩
        simp [mergeActions, organizerActions, hrefresh.1, hrefresh.2] at h
    · rw [hfinish]
      simp only [Bool.and_eq_true, decide_eq_true_eq, not_and] at hlocal
      exact ⟨fun h => ⟨horganizer, hlocal, h⟩, fun h => h.2.2⟩

theorem exists_actions_iff {f : InstanceId × ItipSnapshot → Except ItipError (List MergeAction)}
    {snapshots itipSnapshots : ItipSnapshots} (hcomponents : itipSnapshots.components ≠ [])
    (tail : List MergeAction)
    (hok : ∀ update, (∃ actions, f update = .ok actions) ↔ ∀ snapshot,
      snapshots.get? update.1 = some snapshot → update.2.outOfSequence snapshot = false)
    (hne : ∀ update actions, f update = .ok actions → actions ≠ []) :
    (∃ actions, (do
        let actions ← itipSnapshots.components.mapM f
        return actions.flatten ++ tail) = .ok actions ∧ actions ≠ []) ↔
      InSequence snapshots itipSnapshots := by
  have hblocks : (∃ blocks, itipSnapshots.components.mapM f = .ok blocks) ↔
      InSequence snapshots itipSnapshots :=
    Lib.exists_mapM_eq_ok_iff.trans (forall₂_congr fun update _ => hok update)
  rw [← hblocks]
  constructor
  · rintro ⟨actions, h, -⟩
    match hmap : itipSnapshots.components.mapM f with
    | .error e => simp [hmap, bind, Except.bind] at h
    | .ok blocks => exact ⟨blocks, rfl⟩
  · rintro ⟨blocks, hmap⟩
    refine ⟨_, by rw [hmap]; rfl, append_ne_nil_of_left_ne_nil (fun hflatten => ?_) _⟩
    obtain ⟨update, hupdate⟩ := exists_mem_of_ne_nil _ hcomponents
    obtain ⟨actions, hactions⟩ := Lib.exists_mapM_eq_ok_iff.1 ⟨blocks, hmap⟩ update hupdate
    exact hne _ _ hactions
      (flatten_eq_nil_iff.1 hflatten _ ((Lib.mem_of_mapM hmap).2 ⟨update, hupdate, hactions⟩))

/-- The condition on the instances under which a message to an attendee changes the event. -/
def ChangesInstances (snapshots itipSnapshots : ItipSnapshots) : ICalendarMethod → Prop
  | .request | .cancel => InSequence snapshots itipSnapshots
  | .add => ∃ update ∈ itipSnapshots.components, snapshots.get? update.1 = none
  | _ => False

theorem exists_handleRequest_iff {snapshots : ItipSnapshots}
    {itipSnapshots : ItipSnapshots} (hcomponents : itipSnapshots.components ≠ []) :
    (∃ actions, handleRequest snapshots itip itipSnapshots = .ok actions ∧ actions ≠ []) ↔
      InSequence snapshots itipSnapshots :=
  exists_actions_iff hcomponents _ (fun _ => exists_requestInstance_eq_ok_iff)
    fun _ _ => requestInstance_ne_nil

theorem exists_handleCancel_iff {snapshots itipSnapshots : ItipSnapshots}
    (hcomponents : itipSnapshots.components ≠ []) :
    (∃ actions, handleCancel snapshots itipSnapshots = .ok actions ∧ actions ≠ []) ↔
      InSequence snapshots itipSnapshots :=
  exists_actions_iff hcomponents _ (fun _ => exists_cancelInstance_eq_ok_iff)
    fun _ _ => cancelInstance_ne_nil

theorem handleAdd_ne_nil_iff {snapshots} :
    handleAdd snapshots itip itipSnapshots ≠ [] ↔
      ∃ update ∈ itipSnapshots.components, snapshots.get? update.1 = none := by
  simp [handleAdd]

/-- **Which messages to an attendee change the stored event.** -/
theorem updates_iff {cal : Calcard} {now} {ical : ICalendar}
    {snapshots} {sender : String} {method}
    (hremote : snapshots.organizer.email.isLocal = false)
    (hcomponents : itipSnapshots.components ≠ []) (hmethod : itipMethod itip = .ok method)
    (hkind : method = .request ∨ method = .add ∨ method = .cancel) :
    (∃ actions, itipProcessMessage cal now ical snapshots itip itipSnapshots sender =
        .ok (.actions actions)) ↔
      snapshots.organizer.email.email = itipSnapshots.organizer.email.email ∧
        ChangesInstances snapshots itipSnapshots method := by
  have hprocess : (∃ actions, itipProcessMessage cal now ical snapshots itip itipSnapshots sender =
      .ok (.actions actions)) ↔
      snapshots.organizer.email.email = itipSnapshots.organizer.email.email ∧
        ∃ actions, attendeeActions snapshots itip itipSnapshots sender method = .ok actions ∧
          actions ≠ [] := by
    simp [itipProcessMessage_actions_iff, hremote, hmethod, mergeActions]
  rw [hprocess]
  refine and_congr_right fun _ => ?_
  rcases hkind with rfl | rfl | rfl
  · exact exists_handleRequest_iff hcomponents
  · simp only [attendeeActions, Except.ok.injEq, exists_eq_left']
    exact handleAdd_ne_nil_iff
  · exact exists_handleCancel_iff hcomponents

/-- A message about a stored event: both objects have a snapshot, and the message names its sender
as organizer or as an attendee. -/
structure Arrival (cal : Calcard) (emails : List String) (event itip : ICalendar)
    (snapshots itipSnapshots : ItipSnapshots) (sender : String) : Prop where
  stored : ReadFrom cal emails event snapshots
  message : ReadFrom cal emails itip itipSnapshots
  named : itipSnapshots.senderIsOrganizerOrAttendee sender

/-- **Who changes an attendee's copy of an event.** A message from someone else than the organizer
leaves the event alone only when it names another organizer, or would do nothing coming from the
organizer: it is older than a stored instance, or an addition without a new one. -/
theorem organizer_only_iff {cal : Calcard} {emails : List String} {now : PartialDateTime}
    {event itip : ICalendar} {snapshots itipSnapshots : ItipSnapshots} {sender : String}
    {method : ICalendarMethod}
    (harrival : Arrival cal emails event itip snapshots itipSnapshots sender)
    (hremote : snapshots.organizer.email.isLocal = false)
    (hmethod : itipMethod itip = .ok method)
    (hkind : method = .request ∨ method = .add ∨ method = .cancel) :
    (sender ≠ snapshots.organizer.email.email →
        ∀ actions, itipProcessMessage cal now event snapshots itip itipSnapshots sender ≠
          .ok (.actions actions)) ↔
      sender = snapshots.organizer.email.email ∨
        snapshots.organizer.email.email ≠ itipSnapshots.organizer.email.email ∨
        ¬ ChangesInstances snapshots itipSnapshots method := by
  have hchanges : (∃ actions, itipProcessMessage cal now event snapshots itip itipSnapshots sender =
      .ok (.actions actions)) ↔ _ :=
    updates_iff hremote harrival.message.components_ne_nil hmethod hkind
  have hunchanged : (∀ actions, itipProcessMessage cal now event snapshots itip itipSnapshots
      sender ≠ .ok (.actions actions)) ↔ _ := not_exists.symm.trans (not_congr hchanges)
  rw [hunchanged, not_and_or, ne_eq, ← or_iff_not_imp_left]

/-! ## An attendee cancels the meeting -/

/-- A calendar address property. -/
def addressEntry (name : ICalendarProperty) (address : String) : ICalendarEntry :=
  { name, params := [], values := [.text ("mailto:" ++ address)] }

/-- The component of a meeting of two attendees. -/
def meeting : ICalendarComponent where
  componentType := .vEvent
  entries := [
    { name := .uid, params := [], values := [.text "meeting"] },
    addressEntry .organizer "boss@b.org",
    addressEntry .attendee "me@a.org",
    addressEntry .attendee "eve@b.org"]
  componentIds := []

/-- The meeting as it is stored in the account of `me@a.org`. -/
def storedMeeting : ICalendar :=
  ⟨[{ componentType := .vCalendar, entries := [], componentIds := [1] }, meeting]⟩

def meetingMessage (method : ICalendarMethod) : ICalendar :=
  ⟨[{ componentType := .vCalendar
      entries := [{ name := .method, params := [], values := [.method method] }]
      componentIds := [1] }, meeting]⟩

/-- An attendee sends a cancellation that names the organizer and the attendee itself; the meeting
is cancelled. -/
theorem attendee_cancels :
    ¬ ∀ (cal : Calcard) (emails : List String) (now : PartialDateTime)
        (event itip : ICalendar) (snapshots itipSnapshots : ItipSnapshots) (sender : String)
        (method : ICalendarMethod),
        Arrival cal emails event itip snapshots itipSnapshots sender →
        snapshots.organizer.email.isLocal = false →
        itipMethod itip = .ok method →
        (method = .request ∨ method = .add ∨ method = .cancel) →
        sender ≠ snapshots.organizer.email.email →
        ∀ actions, itipProcessMessage cal now event snapshots itip itipSnapshots sender ≠
          .ok (.actions actions) := by
  intro h
  refine h .plain ["me@a.org"] {} storedMeeting (meetingMessage .cancel) _ _ "eve@b.org" .cancel
    ⟨.of_snapshot rfl, .of_snapshot rfl, ?_⟩ rfl rfl (.inr (.inr rfl)) ?_ _ rfl
  · decide
  · decide

/-- The meeting can also be updated by its attendee, so that both sides are false. -/
theorem organizer_only_iff_meeting :
    ∃ snapshots itipSnapshots,
      (("eve@b.org" ≠ snapshots.organizer.email.email →
        ∀ actions, itipProcessMessage .plain {} storedMeeting snapshots (meetingMessage .request)
          itipSnapshots "eve@b.org" ≠ .ok (.actions actions)) ↔
      "eve@b.org" = snapshots.organizer.email.email ∨
        snapshots.organizer.email.email ≠ itipSnapshots.organizer.email.email ∨
        ¬ ChangesInstances snapshots itipSnapshots .request) ∧
      "eve@b.org" ≠ snapshots.organizer.email.email ∧
      ∃ actions, itipProcessMessage .plain {} storedMeeting snapshots (meetingMessage .request)
        itipSnapshots "eve@b.org" = .ok (.actions actions) := by
  have harrival : Arrival .plain ["me@a.org"] storedMeeting (meetingMessage .request) _ _
      "eve@b.org" := ⟨.of_snapshot rfl, .of_snapshot rfl, by decide⟩
  exact ⟨_, _, organizer_only_iff harrival rfl rfl (.inl rfl), by decide, _, rfl⟩

end MailServer.Scheduling
