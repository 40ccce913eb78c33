import MailServer.Lib.InsertionMap
import MailServer.Scheduling.Inbound
import Mathlib.Data.List.Destutter
import Mathlib.Data.List.Sort

/-!
# Updates from the organizer of an event

`organizerHandleUpdate` compares two versions of an event, collects which address is told about
which instance and how, and then sends each address either the whole event in one `REQUEST` or a
message about its own instances.

Principal results: `mem_organizerChanges_iff`, `planned`, `one_update_each_iff`.
-/

namespace MailServer.Scheduling

open MailServer.Lib List

variable {new : InstanceId × ItipSnapshot}

inductive UpdateFailure
  | error (error : ItipError)
  /-- `unwrap` of a missing instance. -/
  | panic

/-! ## What changed -/

structure ChangedInstance where
  instanceId : InstanceId
  email : String
  method : ICalendarMethod

/-- The properties a change of which increments the sequence. -/
def ICalendarProperty.incrementsSequence : ICalendarProperty → Bool
  | .dtstart | .dtend | .duration | .due | .rrule | .rdate | .exdate | .status | .location => true
  | _ => false

variable (instanceNow oldInstance : ItipSnapshot)

/-- The addresses that an instance no longer invites. -/
def uninvited : List String :=
  ((oldInstance.externalAttendees.filter (·.sendUpdateMessages)).map (·.email.email)).dedup.filter
    fun email => !(instanceNow.externalAttendees.map (·.email.email)).contains email

/-- The instances of a version that keeps the address informed of changes. -/
def updatesTo (id : InstanceId) (method : ICalendarMethod) (snapshot : ItipSnapshot) :
    List ChangedInstance :=
  (snapshot.attendees.filter (·.sendUpdateMessages)).map fun attendee =>
    ⟨id, attendee.email.email, method⟩

/-- `instance.entries != old_instance.entries`. -/
def entriesChanged : Bool :=
  !sameElements instanceNow.entries oldInstance.entries

/-- `instance.attendees != old_instance.attendees`. -/
def attendeesChanged : Bool :=
  !sameElements (instanceNow.attendees.map Attendee.key) (oldInstance.attendees.map Attendee.key)

/-- `instance.entries.symmetric_difference(&old_instance.entries)`. -/
def symmetricDifference : List ItipEntry :=
  instanceNow.entries.filter (!oldInstance.entries.contains ·) ++
    oldInstance.entries.filter (!instanceNow.entries.contains ·)

/-- The method that a new instance is announced with. -/
def addedMethod (cal : Calcard) (instanceNow : ItipSnapshot) : ICalendarMethod :=
  if cal.status instanceNow.comp = some .cancelled then .cancel else .add

/-- One instance of the new version: what is collected, and whether sequences are incremented. -/
def changedInstance (cal : Calcard) (oldItip : ItipSnapshots) (new : InstanceId × ItipSnapshot) :
    Except ItipError (List ChangedInstance × Bool) :=
  match oldItip.get? new.1 with
  | some oldInstance =>
    if entriesChanged new.2 oldInstance || attendeesChanged new.2 oldInstance then
      .ok ((if attendeesChanged new.2 oldInstance then
          (uninvited new.2 oldInstance).map fun email => ⟨new.1, email, .cancel⟩ else []) ++
        updatesTo new.1 .request new.2,
        (entriesChanged new.2 oldInstance &&
          (symmetricDifference new.2 oldInstance).any (·.name.incrementsSequence)) ||
          attendeesChanged new.2 oldInstance)
    else .ok ([], false)
  | none =>
    if new.1 ≠ .main then
      .ok ((new.2.attendees.filter (·.sendInviteMessages)).map fun attendee =>
        ⟨new.1, attendee.email.email, addedMethod cal new.2⟩, true)
    else .error .cannotModifyInstance

/-- One instance of the old version that the new one does not have. -/
def removedInstance (old : InstanceId × ItipSnapshot) :
    Except ItipError (List ChangedInstance × Bool) :=
  if old.1 ≠ .main then .ok (updatesTo old.1 .cancel old.2, true)
  else .error .cannotModifyInstance

/-- `changed_instances` and `increment_sequence` after both loops. -/
def organizerChanges (cal : Calcard) (oldItip newItip : ItipSnapshots) :
    Except ItipError (List ChangedInstance × Bool) := do
  let changed ← newItip.components.mapM (changedInstance cal oldItip)
  let removed ← (oldItip.components.filter fun old => (newItip.get? old.1).isNone).mapM
    removedInstance
  return ((changed ++ removed).flatMap Prod.fst, (changed ++ removed).any Prod.snd)

/-! ## Who gets what -/

/-- `send_full_update` and `send_partial_update`. -/
structure UpdatePlan where
  sendFullUpdate : List String := []
  sendPartialUpdate :
    InsertionMap String (InsertionMap ICalendarMethod (List InstanceId)) := []

/-- Switches an address to the full update. -/
def UpdatePlan.sendFull (plan : UpdatePlan) (email : String) : UpdatePlan where
  sendFullUpdate := plan.sendFullUpdate.insert email
  sendPartialUpdate := InsertionMap.remove email plan.sendPartialUpdate

/-- Sets what an address is told about single instances. -/
def UpdatePlan.sendPartial (plan : UpdatePlan) (email : String)
    (entry : InsertionMap ICalendarMethod (List InstanceId)) : UpdatePlan :=
  { plan with sendPartialUpdate := InsertionMap.insert email entry plan.sendPartialUpdate }

/-- One turn of the loop over the collected changes. -/
def planUpdate (plan : UpdatePlan) (change : ChangedInstance) : UpdatePlan :=
  if change.instanceId = .main ∧ change.method = .request then plan.sendFull change.email
  else if plan.sendFullUpdate.contains change.email then plan
  else match InsertionMap.find change.email plan.sendPartialUpdate with
    | some entry =>
      match InsertionMap.find change.method entry with
      | some instances =>
        plan.sendPartial change.email
          (InsertionMap.insert change.method (instances ++ [change.instanceId]) entry)
      | none =>
        if entry.isEmpty then
          plan.sendPartial change.email
            (InsertionMap.insert change.method [change.instanceId] entry)
        else plan.sendFull change.email
    | none => plan.sendPartial change.email [(change.method, [change.instanceId])]

def updatePlan (changes : List ChangedInstance) : UpdatePlan :=
  changes.foldl planUpdate {}

/-! ## Messages about single instances -/

/-- The two versions of an event that an update compares. -/
structure EventVersions where
  oldIcal : ICalendar
  newIcal : ICalendar
  oldItip : ItipSnapshots
  newItip : ItipSnapshots

/-- The position of the entry that the id of an instance is read from, the last readable one. -/
def recurrenceEntryId (cal : Calcard) (zones : List Zone) (comp : ICalendarComponent) : ℕ :=
  ((comp.entries.zipIdx.filter fun entry => (readInstanceId cal zones entry.1).isSome).map
    Prod.snd).getLast?.getD 0

/-- What the derived order of instance ids compares: the main instance comes first, then the
position of the entry, the date and the range. -/
def EventVersions.orderKey (cal : Calcard) (versions : EventVersions) : InstanceId → List ℤ
  | .main => []
  | .recurrence id =>
    let entryId := match versions.newItip.get? (.recurrence id) with
      | some found => recurrenceEntryId cal versions.newIcal.zones found.comp
      | none => match versions.oldItip.get? (.recurrence id) with
        | some found => recurrenceEntryId cal versions.oldIcal.zones found.comp
        | none => 0
    [entryId, id.date, if id.thisAndFuture then 1 else 0]

def EventVersions.sortInstances (cal : Calcard) (versions : EventVersions)
    (instances : List InstanceId) : List InstanceId :=
  (instances.insertionSort fun a b => versions.orderKey cal a ≤ versions.orderKey cal b).destutter
    (· ≠ ·)

/-- `email.strip_suffix(attendee).is_some_and(|v| v.ends_with(':') || v.is_empty())`. -/
def isAddressOf (text address : String) : Bool :=
  address.toList.isSuffixOf text.toList &&
    let rest := text.toList.take (text.toList.length - address.toList.length)
    rest.getLast? = some ':' || rest.isEmpty

/-- The entries that a cancelled component keeps. -/
def isCancelEntry (cal : Calcard) (attendees : List String) (entry : ICalendarEntry) : Bool :=
  match entry.name with
  | .organizer | .uid | .summary | .dtstart | .dtend | .duration | .due | .recurrenceId | .created
  | .lastModified | .description | .location => true
  | .attendee => attendees.isEmpty ||
    (entry.values.head?.bind cal.asText).any fun text => attendees.any (isAddressOf text)
  | _ => false

def buildCancelComponent (cal : Calcard) (component : ICalendarComponent) (sequence : ℤ)
    (dtStamp : PartialDateTime) (attendees : List String) : ICalendarComponent where
  componentType := component.componentType
  entries := [cal.propertyEntry .status (.status .cancelled), cal.dtstampEntry dtStamp,
    cal.sequenceEntry sequence] ++ component.entries.filter (isCancelEntry cal attendees)
  componentIds := []

def itipAddTz (cal : Calcard) (message ical : ICalendar) : ICalendar :=
  let beforeZones := message.components.takeWhile (·.componentType ≠ .vTimezone)
  if beforeZones.any fun comp => comp.entries.any fun entry =>
      entry.params.any (·.name = .tzid) then cal.copyTimezones message ical
  else message

/-- The sequence that an update announces for an instance. -/
def ItipSnapshot.updatedSequence (comp : ItipSnapshot) (incrementSequence : Bool) : ℤ :=
  if incrementSequence then i64Succ (comp.sequence.getD 0) else comp.sequence.getD 0

/-- The component of a message about single instances, for one of them. -/
def partialComponent (cal : Calcard) (now : PartialDateTime) (itip : ItipSnapshots)
    (incrementSequence : Bool) (method : ICalendarMethod) (emails : List String)
    (comp : ItipSnapshot) : ICalendarComponent :=
  let sequence := comp.updatedSequence incrementSequence
  if method = .cancel then buildCancelComponent cal comp.comp sequence now emails
  else itipExportComponent cal comp.comp itip.uid now sequence (.organizer .needsAction)

/-- The version that a message about single instances is read from. -/
def EventVersions.source (versions : EventVersions) (isNew : Bool) : ICalendar × ItipSnapshots :=
  if isNew then (versions.newIcal, versions.newItip) else (versions.oldIcal, versions.oldItip)

/-- The snapshot of an instance and the version it is read from: the old one, or else the new one;
an instance that neither has is a panic. -/
def EventVersions.find (versions : EventVersions) (isNew : Bool) (id : InstanceId) :
    Except UpdateFailure (Bool × ItipSnapshot) :=
  match (versions.source isNew).2.get? id, versions.newItip.get? id with
  | some comp, _ => .ok (isNew, comp)
  | none, some comp => .ok (true, comp)
  | none, none => .error .panic

/-- The loop over the instances of a message. The switch to the new version is for good. -/
def partialComponents (cal : Calcard) (now : PartialDateTime) (versions : EventVersions)
    (incrementSequence : Bool) (method : ICalendarMethod) (emails : List String) :
    Bool → List InstanceId → Except UpdateFailure (Bool × List ICalendarComponent)
  | isNew, [] => .ok (isNew, [])
  | isNew, id :: rest => do
    let found ← versions.find isNew id
    let later ← partialComponents cal now versions incrementSequence method emails found.1 rest
    return (later.1, partialComponent cal now (versions.source found.1).2 incrementSequence method
      emails found.2 :: later.2)

/-- The message to a group of addresses that are told about the same instances in the same way. -/
def partialMessage (cal : Calcard) (now : PartialDateTime) (versions : EventVersions)
    (incrementSequence : Bool) (group : (ICalendarMethod × List InstanceId) × List String) :
    Except UpdateFailure ItipMessage := do
  let built ← partialComponents cal now versions incrementSequence group.1.1 group.2
    (group.1.1 ≠ .cancel) group.1.2
  let source := versions.source built.1
  let root := { itipBuildEnvelope group.1.1 with
    componentIds := range' 1 built.2.length }
  return {
    sender := source.2.organizer.email.email
    fromOrganizer := true
    recipients := group.2
    message := itipAddTz cal { components := root :: built.2 } source.1 }

/-- `updates`: the addresses grouped by method and instances. -/
def partialUpdates (cal : Calcard) (versions : EventVersions) (plan : UpdatePlan) :
    InsertionMap (ICalendarMethod × List InstanceId) (List String) :=
  InsertionMap.gather (plan.sendPartialUpdate.flatMap fun entry => entry.2.map fun update =>
    ((update.1, versions.sortInstances cal update.2), entry.1))

/-! ## The whole update -/

/-- The full update; `ids` are the components whose sequence is to be incremented. -/
def fullUpdate (cal : Calcard) (now : PartialDateTime) (versions : EventVersions)
    (incrementSequence : Bool) (plan : UpdatePlan) :
    Except UpdateFailure (List UInt16 × List ItipMessage) :=
  if plan.sendFullUpdate.isEmpty then .ok ([], [])
  else
    let (ids, request) :=
      organizerRequestFull cal now versions.newIcal versions.newItip incrementSequence false
    match request with
    | .ok messages => .ok (ids, messages)
    | .error error =>
      if plan.sendPartialUpdate.isEmpty then .error (.error error) else .ok (ids, [])

/-- The components whose sequence is to be incremented, and the messages. The ids of the components
in messages about single instances are dropped. -/
def organizerHandleUpdate (cal : Calcard) (now : PartialDateTime) (versions : EventVersions) :
    Except UpdateFailure (List UInt16 × List ItipMessage) := do
  let collected ← (organizerChanges cal versions.oldItip versions.newItip).mapError .error
  let plan := updatePlan collected.1
  if collected.1.isEmpty then throw (.error .nothingToSend)
  else
    let full ← fullUpdate cal now versions collected.2 plan
    let messages ← (partialUpdates cal versions plan).mapM
      (partialMessage cal now versions collected.2)
    return (full.1, full.2 ++ messages)

/-! ## What is collected -/

/-- The instance keeps the address informed of changes. -/
def ItipSnapshot.Updates (snapshot : ItipSnapshot) (email : String) : Prop :=
  ∃ attendee ∈ snapshot.attendees,
    attendee.sendUpdateMessages ∧ attendee.email.email = email

/-- The address is invited to the instance. -/
def ItipSnapshot.Invites (snapshot : ItipSnapshot) (email : String) : Prop :=
  ∃ attendee ∈ snapshot.attendees,
    attendee.sendInviteMessages ∧ attendee.email.email = email

/-- The instance lists the address of somebody else's account. -/
def ItipSnapshot.Lists (snapshot : ItipSnapshot) (email : String) : Prop :=
  ∃ attendee ∈ snapshot.externalAttendees, attendee.email.email = email

/-- **How an update concerns an address**: what it is told about an instance, read off the two
versions. -/
inductive Concerns (cal : Calcard) (oldItip newItip : ItipSnapshots) (id : InstanceId)
    (email : String) : ICalendarMethod → Prop
  | changed {instanceNow oldInstance : ItipSnapshot} :
    (id, instanceNow) ∈ newItip.components → oldItip.get? id = some oldInstance →
    (entriesChanged instanceNow oldInstance ∨
      attendeesChanged instanceNow oldInstance) →
    instanceNow.Updates email → Concerns cal oldItip newItip id email .request
  | uninvited {instanceNow oldInstance : ItipSnapshot} :
    (id, instanceNow) ∈ newItip.components → oldItip.get? id = some oldInstance →
    attendeesChanged instanceNow oldInstance → oldInstance.Updates email →
    ¬ instanceNow.Lists email → Concerns cal oldItip newItip id email .cancel
  | added {instanceNow : ItipSnapshot} :
    (id, instanceNow) ∈ newItip.components → oldItip.get? id = none →
    instanceNow.Invites email →
    Concerns cal oldItip newItip id email (addedMethod cal instanceNow)
  | removed {oldInstance : ItipSnapshot} :
    (id, oldInstance) ∈ oldItip.components → newItip.get? id = none →
    oldInstance.Updates email → Concerns cal oldItip newItip id email .cancel

section Collected

variable {cal : Calcard} {oldItip newItip : ItipSnapshots} {changes : List ChangedInstance}
  {incrementSequence : Bool}

theorem mem_updatesTo {id : InstanceId} {method} {snapshot : ItipSnapshot}
    {change} :
    change ∈ updatesTo id method snapshot ↔
      change.instanceId = id ∧ change.method = method ∧ snapshot.Updates change.email := by
  simp only [updatesTo, mem_map, mem_filter]
  constructor
  · rintro ⟨attendee, ⟨hmem, hsend⟩, rfl⟩
    exact ⟨rfl, rfl, attendee, hmem, hsend, rfl⟩
  · rintro ⟨rfl, rfl, attendee, hmem, hsend, hemail⟩
    exact ⟨attendee, ⟨hmem, hsend⟩, by rw [hemail]⟩

theorem mem_uninvited {instanceNow oldInstance : ItipSnapshot} {email : String} :
    email ∈ uninvited instanceNow oldInstance ↔
      oldInstance.Updates email ∧ ¬ instanceNow.Lists email := by
  simp only [uninvited, mem_filter, mem_dedup, mem_map, Bool.not_eq_true',
    contains_eq_mem, decide_eq_false_iff_not, ItipSnapshot.Lists]
  refine and_congr_left fun _ => ?_
  constructor
  · rintro ⟨attendee, ⟨hmem, hsend⟩, rfl⟩
    exact ⟨attendee, (mem_filter.1 hmem).1, hsend, rfl⟩
  · rintro ⟨attendee, hmem, hsend, rfl⟩
    have hexternal : attendee.email.isLocal = false := by
      simp only [Attendee.sendUpdateMessages, Bool.and_eq_true, Bool.not_eq_true'] at hsend
      exact hsend.1.1.1
    exact ⟨attendee, ⟨mem_filter.2 ⟨hmem, by rw [hexternal]; rfl⟩, hsend⟩, rfl⟩

theorem changedInstance_old {oldInstance : ItipSnapshot}
    (hold : oldItip.get? new.1 = some oldInstance)
    (h : changedInstance cal oldItip new = .ok (changes, incrementSequence)) :
    changes =
      (if entriesChanged new.2 oldInstance ∨ attendeesChanged new.2 oldInstance then
        (if attendeesChanged new.2 oldInstance then
          (uninvited new.2 oldInstance).map fun email => ⟨new.1, email, .cancel⟩ else []) ++
        updatesTo new.1 .request new.2
      else []) ∧
    incrementSequence = ((entriesChanged new.2 oldInstance &&
      (symmetricDifference new.2 oldInstance).any (·.name.incrementsSequence)) ||
        attendeesChanged new.2 oldInstance) := by
  simp only [changedInstance, hold] at h
  split at h
  · rename_i hchanged
    rw [if_pos (by simpa using hchanged)]
    cases h
    exact ⟨rfl, rfl⟩
  · rename_i hchanged
    have hnone := Bool.or_eq_false_iff.1 (Bool.eq_false_iff.2 hchanged)
    rw [if_neg (by simpa using hchanged), hnone.1, hnone.2]
    cases h
    exact ⟨rfl, rfl⟩

theorem changedInstance_new (hold : oldItip.get? new.1 = none)
    (h : changedInstance cal oldItip new = .ok (changes, incrementSequence)) :
    changes = (new.2.attendees.filter (·.sendInviteMessages)).map (fun attendee =>
      ⟨new.1, attendee.email.email, addedMethod cal new.2⟩) ∧ incrementSequence := by
  simp only [changedInstance, hold] at h
  split at h
  · cases h
    exact ⟨rfl, rfl⟩
  · cases h

theorem concerns_of_changedInstance (hnew : new ∈ newItip.components)
    (h : changedInstance cal oldItip new = .ok (changes, incrementSequence))
    {change} (hmem : change ∈ changes) :
    Concerns cal oldItip newItip change.instanceId change.email change.method := by
  cases hold : oldItip.get? new.1 with
  | none =>
    rw [(changedInstance_new hold h).1] at hmem
    obtain ⟨attendee, hattendee, rfl⟩ := mem_map.1 hmem
    obtain ⟨hin, hsend⟩ := mem_filter.1 hattendee
    exact .added hnew hold ⟨attendee, hin, hsend, rfl⟩
  | some oldInstance =>
    rw [(changedInstance_old hold h).1] at hmem
    split at hmem
    · rename_i hchanged
      rcases mem_append.1 hmem with hmem | hmem
      · split at hmem
        · rename_i hattendees
          obtain ⟨email, hemail, rfl⟩ := mem_map.1 hmem
          obtain ⟨hupdates, hlists⟩ := mem_uninvited.1 hemail
          exact .uninvited hnew hold hattendees hupdates hlists
        · cases hmem
      · obtain ⟨id, email, method⟩ := change
        obtain ⟨rfl, rfl, hupdates⟩ := mem_updatesTo.1 hmem
        exact .changed hnew hold hchanged hupdates
    · cases hmem

/-- **What is collected**: an address is told about an instance exactly when the update concerns
it. -/
theorem mem_organizerChanges_iff
    (h : organizerChanges cal oldItip newItip = .ok (changes, incrementSequence))
    {id : InstanceId} {email : String} {method} :
    ⟨id, email, method⟩ ∈ changes ↔ Concerns cal oldItip newItip id email method := by
  obtain ⟨changed, hchanged, hrest⟩ := bind_eq_ok_iff.1 h
  obtain ⟨removed, hremoved, heq⟩ := bind_pure_eq_ok_iff.1 hrest
  cases heq
  rw [mem_flatMap]
  constructor
  · rintro ⟨block, hblock, hmem⟩
    rcases mem_append.1 hblock with hblock | hblock
    · obtain ⟨new, hnew, hok⟩ := (mem_of_mapM hchanged).1 hblock
      exact concerns_of_changedInstance hnew hok hmem
    · obtain ⟨old, hold, hok⟩ := (mem_of_mapM hremoved).1 hblock
      obtain ⟨hold, hgone⟩ := mem_filter.1 hold
      unfold removedInstance at hok
      split at hok
      · cases hok
        obtain ⟨rfl, rfl, hupdates⟩ := mem_updatesTo.1 hmem
        exact .removed hold (Option.isNone_iff_eq_none.1 hgone) hupdates
      · cases hok
  · intro hconcerns
    cases hconcerns with
    | changed hnew hold hdiffer hupdates =>
      obtain ⟨block, hok⟩ := exists_mapM_eq_ok_iff.1 ⟨changed, hchanged⟩ _ hnew
      refine ⟨block, mem_append_left _ ((mem_of_mapM hchanged).2 ⟨_, hnew, hok⟩), ?_⟩
      rw [(changedInstance_old hold hok).1, if_pos hdiffer]
      exact mem_append_right _ (mem_updatesTo.2 ⟨rfl, rfl, hupdates⟩)
    | uninvited hnew hold hattendees hupdates hlists =>
      obtain ⟨block, hok⟩ := exists_mapM_eq_ok_iff.1 ⟨changed, hchanged⟩ _ hnew
      refine ⟨block, mem_append_left _ ((mem_of_mapM hchanged).2 ⟨_, hnew, hok⟩), ?_⟩
      rw [(changedInstance_old hold hok).1, if_pos (.inr hattendees), if_pos hattendees]
      exact mem_append_left _
        (mem_map.2 ⟨email, mem_uninvited.2 ⟨hupdates, hlists⟩, rfl⟩)
    | added hnew hold hinvites =>
      obtain ⟨block, hok⟩ := exists_mapM_eq_ok_iff.1 ⟨changed, hchanged⟩ _ hnew
      refine ⟨block, mem_append_left _ ((mem_of_mapM hchanged).2 ⟨_, hnew, hok⟩), ?_⟩
      rw [(changedInstance_new hold hok).1]
      obtain ⟨attendee, hin, hsend, rfl⟩ := hinvites
      exact mem_map.2 ⟨attendee, mem_filter.2 ⟨hin, hsend⟩, rfl⟩
    | @removed oldInstance hold hgone hupdates =>
      have hold : (id, oldInstance) ∈
          oldItip.components.filter fun old => (newItip.get? old.1).isNone :=
        mem_filter.2 ⟨hold, Option.isNone_iff_eq_none.2 hgone⟩
      obtain ⟨block, hok⟩ := exists_mapM_eq_ok_iff.1 ⟨removed, hremoved⟩ _ hold
      refine ⟨block, mem_append_right _ ((mem_of_mapM hremoved).2 ⟨_, hold, hok⟩), ?_⟩
      unfold removedInstance at hok
      split at hok
      · cases hok
        exact mem_updatesTo.2 ⟨rfl, rfl, hupdates⟩
      · cases hok

/-- The update increments the sequences: an instance came or went, its attendees changed, or one of
its properties that count did. -/
def Increments (oldItip newItip : ItipSnapshots) : Prop :=
  (∃ new ∈ newItip.components, ∀ oldInstance, oldItip.get? new.1 = some oldInstance →
    attendeesChanged new.2 oldInstance ∨ (entriesChanged new.2 oldInstance ∧
      ∃ entry ∈ symmetricDifference new.2 oldInstance, entry.name.incrementsSequence)) ∨
  ∃ old ∈ oldItip.components, newItip.get? old.1 = none

theorem increments_iff
    (h : organizerChanges cal oldItip newItip = .ok (changes, incrementSequence)) :
    incrementSequence ↔ Increments oldItip newItip := by
  obtain ⟨changed, hchanged, hrest⟩ := bind_eq_ok_iff.1 h
  obtain ⟨removed, hremoved, heq⟩ := bind_pure_eq_ok_iff.1 hrest
  obtain ⟨-, rfl⟩ := Prod.mk.inj heq
  rw [any_append, Bool.or_eq_true, any_eq_true, any_eq_true]
  refine or_congr ⟨?_, ?_⟩ ⟨?_, ?_⟩
  · rintro ⟨block, hblock, hincrement⟩
    obtain ⟨new, hnew, hok⟩ := (mem_of_mapM hchanged).1 hblock
    refine ⟨new, hnew, fun oldInstance hold => ?_⟩
    rw [(changedInstance_old hold hok).2] at hincrement
    simpa [or_comm] using hincrement
  · rintro ⟨new, hnew, hincrement⟩
    obtain ⟨block, hok⟩ := exists_mapM_eq_ok_iff.1 ⟨changed, hchanged⟩ _ hnew
    refine ⟨block, (mem_of_mapM hchanged).2 ⟨new, hnew, hok⟩, ?_⟩
    cases hold : oldItip.get? new.1 with
    | none => exact (changedInstance_new hold hok).2
    | some oldInstance =>
      rw [(changedInstance_old hold hok).2]
      simpa [or_comm] using hincrement oldInstance hold
  · rintro ⟨block, hblock, -⟩
    obtain ⟨old, hold, -⟩ := (mem_of_mapM hremoved).1 hblock
    obtain ⟨hold, hgone⟩ := mem_filter.1 hold
    exact ⟨old, hold, Option.isNone_iff_eq_none.1 hgone⟩
  · rintro ⟨old, hold, hgone⟩
    have hold : old ∈ oldItip.components.filter fun old => (newItip.get? old.1).isNone :=
      mem_filter.2 ⟨hold, Option.isNone_iff_eq_none.2 hgone⟩
    obtain ⟨block, hok⟩ := exists_mapM_eq_ok_iff.1 ⟨removed, hremoved⟩ _ hold
    refine ⟨block, (mem_of_mapM hremoved).2 ⟨old, hold, hok⟩, ?_⟩
    unfold removedInstance at hok
    split at hok
    · cases hok
      rfl
    · cases hok

end Collected

/-! ## Who gets the whole event -/

/-- The collected changes that make an address get the whole event: the main instance changed for
it, or two methods concern it. -/
def SentWhole (changes : List ChangedInstance) (email : String) : Prop :=
  (∃ change ∈ changes, change.email = email ∧ change.instanceId = .main ∧
    change.method = .request) ∨
  ∃ change ∈ changes, ∃ other ∈ changes,
    change.email = email ∧ other.email = email ∧ change.method ≠ other.method

/-- What an address that does not get the whole event is told, from the changes collected for
it. -/
def ownUpdate : List ChangedInstance → Option (InsertionMap ICalendarMethod (List InstanceId))
  | [] => none
  | change :: rest => some [(change.method, (change :: rest).map (·.instanceId))]

/-- The plan is what the collected changes call for. -/
structure Planned (changes : List ChangedInstance) (plan : UpdatePlan) : Prop where
  full : ∀ email, email ∈ plan.sendFullUpdate ↔ SentWhole changes email
  single : ∀ email, InsertionMap.find email plan.sendPartialUpdate =
    if email ∈ plan.sendFullUpdate then none
    else ownUpdate (changes.filter (·.email = email))
  nodup : (InsertionMap.keys plan.sendPartialUpdate).Nodup

section

variable {changes : List ChangedInstance} {change : ChangedInstance} {email : String}

theorem sentWhole_append : SentWhole (changes ++ [change]) email ↔ SentWhole changes email ∨
      (change.email = email ∧ ((change.instanceId = .main ∧ change.method = .request) ∨
        ∃ other ∈ changes, other.email = email ∧ other.method ≠ change.method)) := by
  simp only [SentWhole, mem_append, mem_singleton]
  constructor
  · rintro (⟨c, hc | rfl, hemail, hmain⟩ | ⟨c, hc | rfl, d, hd | rfl, hemail, hother, hne⟩)
    · exact .inl (.inl ⟨c, hc, hemail, hmain⟩)
    · exact .inr ⟨hemail, .inl hmain⟩
    · exact .inl (.inr ⟨c, hc, d, hd, hemail, hother, hne⟩)
    · exact .inr ⟨hother, .inr ⟨c, hc, hemail, hne⟩⟩
    · exact .inr ⟨hemail, .inr ⟨d, hd, hother, hne.symm⟩⟩
    · cases hne rfl
  · rintro ((⟨c, hc, hmain⟩ | ⟨c, hc, d, hd, hrest⟩) | ⟨hemail, hmain | ⟨other, hother, hrest⟩⟩)
    · exact .inl ⟨c, .inl hc, hmain⟩
    · exact .inr ⟨c, .inl hc, d, .inl hd, hrest⟩
    · exact .inl ⟨change, .inr rfl, hemail, hmain⟩
    · exact .inr ⟨other, .inl hother, change, .inr rfl, hrest.1, hemail, hrest.2⟩

theorem sentWhole_append_of_ne (h : change.email ≠ email) :
    SentWhole (changes ++ [change]) email ↔ SentWhole changes email := by
  rw [sentWhole_append]
  exact or_iff_left fun hnew => h hnew.1

theorem filter_append_of_ne (h : change.email ≠ email) :
    (changes ++ [change]).filter (·.email = email) = changes.filter (·.email = email) := by
  rw [filter_append, filter_cons_of_neg (by simpa using h), filter_nil,
    append_nil]

end

section Plan

variable {changes : List ChangedInstance} {plan : UpdatePlan} {change : ChangedInstance}

theorem Planned.sendFull (h : Planned changes plan)
    (hwhole : SentWhole (changes ++ [change]) change.email) :
    Planned (changes ++ [change]) (plan.sendFull change.email) := by
  have hmem : ∀ email, email ∈ (plan.sendFull change.email).sendFullUpdate ↔
      email = change.email ∨ email ∈ plan.sendFullUpdate := fun email => mem_insert_iff
  refine ⟨fun email => ?_, fun email => ?_, InsertionMap.nodup_keys_remove h.nodup⟩
  · rw [hmem]
    by_cases hemail : change.email = email
    · subst hemail
      exact iff_of_true (.inl rfl) hwhole
    · rw [or_iff_right (Ne.symm hemail), h.full, sentWhole_append_of_ne hemail]
  · change InsertionMap.find email (InsertionMap.remove change.email _) = _
    rw [InsertionMap.find_remove]
    by_cases hemail : change.email = email
    · subst hemail
      rw [if_pos rfl, if_pos ((hmem _).2 (.inl rfl))]
    · rw [if_neg (Ne.symm hemail), h.single, filter_append_of_ne hemail]
      exact if_congr ((hmem email).trans (or_iff_right (Ne.symm hemail))).symm rfl rfl

theorem Planned.sendPartial (h : Planned changes plan)
    (hwhole : ¬ SentWhole (changes ++ [change]) change.email)
    {entry}
    (hentry : ownUpdate (changes.filter (·.email = change.email) ++ [change]) = some entry) :
    Planned (changes ++ [change]) (plan.sendPartial change.email entry) := by
  have hnot : change.email ∉ plan.sendFullUpdate := fun hin =>
    hwhole (sentWhole_append.2 (.inl ((h.full _).1 hin)))
  refine ⟨fun email => ?_, fun email => ?_, InsertionMap.nodup_keys_alter h.nodup⟩
  · change email ∈ plan.sendFullUpdate ↔ _
    by_cases hemail : change.email = email
    · subst hemail
      exact iff_of_false hnot hwhole
    · rw [h.full, sentWhole_append_of_ne hemail]
  · change InsertionMap.find email (InsertionMap.insert change.email entry _) =
      if email ∈ plan.sendFullUpdate then none else _
    rw [InsertionMap.find_insert]
    by_cases hemail : change.email = email
    · subst hemail
      have hown : [change].filter (·.email = change.email) = [change] := by simp
      rw [if_pos rfl, if_neg hnot, filter_append, hown, hentry]
    · rw [if_neg (Ne.symm hemail), h.single, filter_append_of_ne hemail]

theorem Planned.stay (h : Planned changes plan) (hin : change.email ∈ plan.sendFullUpdate) :
    Planned (changes ++ [change]) plan := by
  have hwhole := (h.full _).1 hin
  refine ⟨fun email => ?_, fun email => ?_, h.nodup⟩
  · by_cases hemail : change.email = email
    · subst hemail
      exact iff_of_true hin (sentWhole_append.2 (.inl hwhole))
    · rw [h.full, sentWhole_append_of_ne hemail]
  · by_cases hemail : change.email = email
    · subst hemail
      rw [h.single, if_pos hin, if_pos hin]
    · rw [h.single, filter_append_of_ne hemail]

/-- One collected change keeps the plan in line with what was collected. -/
theorem planned_step (h : Planned changes plan) :
    Planned (changes ++ [change]) (planUpdate plan change) := by
  unfold planUpdate
  split
  · rename_i hmain
    exact h.sendFull (sentWhole_append.2 (.inr ⟨rfl, .inl hmain⟩))
  rename_i hmain
  split
  · rename_i hin
    exact h.stay (contains_iff_mem.1 hin)
  rename_i hin
  have hin : change.email ∉ plan.sendFullUpdate := fun hmem => hin (contains_iff_mem.2 hmem)
  have hsingle := h.single change.email
  rw [if_neg hin] at hsingle
  have hwhole : ¬ SentWhole changes change.email := fun hw => hin ((h.full _).2 hw)
  -- the changes collected for the address so far all have the method of the first one
  cases hown : changes.filter (·.email = change.email) with
  | nil =>
    rw [hown] at hsingle
    simp only [hsingle]
    refine h.sendPartial (fun hw => ?_) (by rw [hown]; rfl)
    rcases sentWhole_append.1 hw with hw | ⟨-, hw | ⟨other, hother, hemail, -⟩⟩
    · exact hwhole hw
    · exact hmain hw
    · have hmem : other ∈ changes.filter (·.email = change.email) :=
        mem_filter.2 ⟨hother, decide_eq_true hemail⟩
      rw [hown] at hmem
      cases hmem
  | cons first rest =>
    rw [hown] at hsingle
    have hfirst : first ∈ changes ∧ first.email = change.email := by
      have hmem : first ∈ changes.filter (·.email = change.email) :=
        hown ▸ (.head _)
      exact ⟨(mem_filter.1 hmem).1, of_decide_eq_true (mem_filter.1 hmem).2⟩
    simp only [hsingle, ownUpdate, InsertionMap.find]
    by_cases hmethod : first.method = change.method
    · simp only [if_pos hmethod]
      refine h.sendPartial (fun hw => ?_) ?_
      · rcases sentWhole_append.1 hw with hw | ⟨-, hw | ⟨other, hother, hemail, hne⟩⟩
        · exact hwhole hw
        · exact hmain hw
        · exact hwhole (.inr ⟨other, hother, first, hfirst.1, hemail, hfirst.2,
            fun heq => hne (heq.trans hmethod)⟩)
      · rw [hown]
        simp [ownUpdate, InsertionMap.insert, InsertionMap.alter, hmethod]
    · simp only [if_neg hmethod]
      exact h.sendFull (sentWhole_append.2
        (.inr ⟨rfl, .inr ⟨first, hfirst.1, hfirst.2, hmethod⟩⟩))

/-- **The plan of an update**: who gets the whole event, and what everyone else is told. -/
theorem planned (changes : List ChangedInstance) : Planned changes (updatePlan changes) := by
  induction changes using reverseRecOn with
  | nil =>
    exact ⟨fun email => by simp [updatePlan, SentWhole], fun _ => rfl, nodup_nil⟩
  | append_singleton changes change ih =>
    have hstep : Planned (changes ++ [change]) (planUpdate _ change) := planned_step ih
    rw [updatePlan, foldl_append]
    exact hstep

end Plan

/-! ## Who gets which message -/

theorem countP_mem_of_nodup_flatten {α : Type} [DecidableEq α] {x : α} :
    ∀ {xss : List (List α)}, xss.flatten.Nodup →
      xss.countP (x ∈ ·) = if x ∈ xss.flatten then 1 else 0
  | [], _ => rfl
  | xs :: xss, h => by
    obtain ⟨-, hxss, hdisjoint⟩ := nodup_append.1 h
    rw [countP_cons, countP_mem_of_nodup_flatten hxss]
    by_cases hx : x ∈ xs
    · have hrest : x ∉ xss.flatten := fun hin => hdisjoint x hx x hin rfl
      simp only [hrest, hx, flatten_cons, mem_append, true_or, if_true, if_false,
        decide_true]
    · simp only [hx, flatten_cons, mem_append, false_or, decide_false,
        Bool.false_eq_true, if_false, Nat.add_zero]

section Recipients

variable {cal : Calcard} {now : PartialDateTime} {versions : EventVersions}
  {changes : List ChangedInstance} {incrementSequence : Bool}

variable {email : String}

theorem mem_keys_sendPartialUpdate :
    email ∈ InsertionMap.keys (updatePlan changes).sendPartialUpdate ↔
      (∃ change ∈ changes, change.email = email) ∧ ¬ SentWhole changes email := by
  have hplan := planned changes
  have hfind := hplan.single email
  have hsome : email ∈ InsertionMap.keys (updatePlan changes).sendPartialUpdate ↔
      (InsertionMap.find email (updatePlan changes).sendPartialUpdate).isSome := by
    constructor
    · intro hin
      obtain ⟨⟨email', entry⟩, hmem, rfl⟩ := mem_map.1 hin
      rw [(InsertionMap.find_eq_some hplan.nodup).2 hmem]
      rfl
    · intro hin
      obtain ⟨entry, hentry⟩ := Option.isSome_iff_exists.1 hin
      exact InsertionMap.mem_keys_of_mem ((InsertionMap.find_eq_some hplan.nodup).1 hentry)
  rw [hsome, hfind]
  by_cases hwhole : SentWhole changes email
  · simp [hwhole, (hplan.full email).2 hwhole]
  · rw [if_neg fun hin => hwhole ((hplan.full email).1 hin)]
    have hfilter : (∃ change ∈ changes, change.email = email) ↔
        changes.filter (·.email = email) ≠ [] := by
      simp [filter_eq_nil_iff]
    rw [hfilter, and_iff_left hwhole]
    cases changes.filter (·.email = email) with
    | nil | cons => simp [ownUpdate]

theorem exists_own {entry}
    (h : (email, entry) ∈ (updatePlan changes).sendPartialUpdate) :
    ∃ first rest, changes.filter (·.email = email) = first :: rest ∧
      entry = [(first.method, (first :: rest).map (·.instanceId))] := by
  have hplan := planned changes
  have hfind := hplan.single email
  rw [(InsertionMap.find_eq_some hplan.nodup).2 h] at hfind
  split at hfind
  · cases hfind
  · cases hfilter : changes.filter (·.email = email) with
    | nil =>
      rw [hfilter] at hfind
      cases hfind
    | cons first rest =>
      rw [hfilter] at hfind
      exact ⟨first, rest, rfl, Option.some.inj hfind⟩

theorem flatMap_partialUpdates :
    ((partialUpdates cal versions (updatePlan changes)).flatMap Prod.snd).Perm
      (InsertionMap.keys (updatePlan changes).sendPartialUpdate) := by
  refine (InsertionMap.flatMap_gather_perm _).trans (List.Perm.of_eq ?_)
  rw [map_flatMap, InsertionMap.keys, ← flatMap_pure_eq_map]
  refine flatMap_congr fun entry hentry => ?_
  obtain ⟨first, rest, -, hentry⟩ := exists_own hentry
  rw [hentry]
  rfl

theorem nodup_partialUpdates :
    (((partialUpdates cal versions (updatePlan changes)).map Prod.snd).flatten).Nodup :=
  flatMap_partialUpdates.nodup_iff.2 (planned changes).nodup

theorem updates_of_sentWhole (h : organizerChanges cal versions.oldItip versions.newItip =
      .ok (changes, incrementSequence)) (hwhole : SentWhole changes email) :
    ∃ entry ∈ versions.newItip.components, entry.2.Updates email := by
  have hupdates : ∀ change ∈ changes, change.email = email → change.method ≠ .cancel →
      ∃ entry ∈ versions.newItip.components, entry.2.Updates email := by
    rintro ⟨id, email', method⟩ hin rfl hmethod
    cases (mem_organizerChanges_iff h).1 hin with
    | changed hnew _ _ hupdates => exact ⟨_, hnew, hupdates⟩
    | uninvited => cases hmethod rfl
    | added hnew _ hinvites =>
      obtain ⟨attendee, hattendee, hsend, hemail⟩ := hinvites
      exact ⟨_, hnew, attendee, hattendee, Attendee.sendUpdateMessages_of_invite hsend, hemail⟩
    | removed => cases hmethod rfl
  rcases hwhole with ⟨change, hin, hemail, -, hmethod⟩ |
    ⟨change, hin, other, hother, hemail, hemail', hne⟩
  · refine hupdates change hin hemail fun hcancel => ?_
    rw [hmethod] at hcancel
    cases hcancel
  · by_cases hcancel : change.method = .cancel
    · exact hupdates other hother hemail' fun h => hne (hcancel.trans h.symm)
    · exact hupdates change hin hemail hcancel

theorem mem_recipients {itip : ItipSnapshots} :
    email ∈ itip.recipients false ↔ ∃ entry ∈ itip.components, entry.2.Updates email := by
  simp only [ItipSnapshots.recipients, ItipSnapshots.shared, mem_dedup, mem_flatMap,
    mem_map, mem_filter, Bool.false_and, Bool.not_false, Bool.true_and, Bool.false_or]
  constructor
  · rintro ⟨snapshot, ⟨⟨entry, hentry, rfl⟩, -⟩, attendee, ⟨hattendee, hsend⟩, rfl⟩
    exact ⟨entry, hentry, attendee, hattendee, hsend, rfl⟩
  · rintro ⟨entry, hentry, attendee, hattendee, hsend, rfl⟩
    refine ⟨entry.2, ⟨⟨entry, hentry, rfl⟩, ?_⟩, attendee, ⟨hattendee, hsend⟩, rfl⟩
    simpa using ne_nil_of_mem hattendee

theorem organizerRequestFull_eq (cal : Calcard) (now : PartialDateTime) (ical : ICalendar)
    (incrementSequence : Bool) {itip : ItipSnapshots} (h : itip.recipients false ≠ []) :
    ∃ message, organizerRequestFull cal now ical itip incrementSequence false =
        (if incrementSequence then itip.shared.map (·.compId) else [], .ok [message]) ∧
      message.recipients = itip.recipients false :=
  ⟨_, Prod.ext rfl (if_neg (by simpa using h)), rfl⟩

structure SentUpdate (cal : Calcard) (now : PartialDateTime) (versions : EventVersions)
    (changes : List ChangedInstance) (incrementSequence : Bool) (ids : List UInt16)
    (full partials : List ItipMessage) : Prop where
  collected : organizerChanges cal versions.oldItip versions.newItip =
    .ok (changes, incrementSequence)
  partials : (partialUpdates cal versions (updatePlan changes)).mapM
    (partialMessage cal now versions incrementSequence) = .ok partials
  none : (∀ email, ¬ SentWhole changes email) → ids = [] ∧ full = []
  whole : (∃ email, SentWhole changes email) →
    organizerRequestFull cal now versions.newIcal versions.newItip incrementSequence false =
      (ids, .ok full)

theorem exists_sentUpdate {ids : List UInt16} {messages : List ItipMessage}
    (h : organizerHandleUpdate cal now versions = .ok (ids, messages)) :
    ∃ changes incrementSequence full partials, messages = full ++ partials ∧
      SentUpdate cal now versions changes incrementSequence ids full partials := by
  obtain ⟨⟨changes, incrementSequence⟩, hchanges, h⟩ := bind_eq_ok_iff.1 h
  have hcollected := mapError_eq_ok_iff.1 hchanges
  split at h
  · cases h
  obtain ⟨⟨ids', full⟩, hfull, h⟩ := bind_eq_ok_iff.1 h
  obtain ⟨partials, hpartials, h⟩ := bind_pure_eq_ok_iff.1 h
  cases h
  have hplan := planned changes
  refine ⟨changes, incrementSequence, full, partials, rfl, hcollected, hpartials,
    fun hnone => ?_, fun ⟨email, hwhole⟩ => ?_⟩
  · have hempty : (updatePlan changes).sendFullUpdate = [] :=
      eq_nil_iff_forall_not_mem.2 fun email hin => hnone email ((hplan.full email).1 hin)
    rw [fullUpdate, if_pos (by rw [hempty]; rfl)] at hfull
    cases hfull
    exact ⟨rfl, rfl⟩
  · have hne : (updatePlan changes).sendFullUpdate ≠ [] :=
      ne_nil_of_mem ((hplan.full email).2 hwhole)
    have hrecipients : versions.newItip.recipients false ≠ [] :=
      ne_nil_of_mem (mem_recipients.2 (updates_of_sentWhole hcollected hwhole))
    obtain ⟨message, hrequest, -⟩ := organizerRequestFull_eq cal now versions.newIcal
      incrementSequence hrecipients
    rw [fullUpdate, if_neg (by simpa using hne), hrequest] at hfull
    cases hfull
    exact hrequest

variable {ids : List UInt16} {full partials : List ItipMessage}

theorem partialMessage_recipients {group : (ICalendarMethod × List InstanceId) × List String}
    {message : ItipMessage}
    (h : partialMessage cal now versions incrementSequence group = .ok message) :
    message.recipients = group.2 := by
  obtain ⟨built, -, rfl⟩ := bind_pure_eq_ok_iff.1 h
  rfl

theorem SentUpdate.countP_partials
    (h : SentUpdate cal now versions changes incrementSequence ids full partials)
    (email : String) : partials.countP (email ∈ ·.recipients) =
      if email ∈ InsertionMap.keys (updatePlan changes).sendPartialUpdate then 1 else 0 := by
  have hrecipients : partials.map (·.recipients) =
      (partialUpdates cal versions (updatePlan changes)).map Prod.snd :=
    map_eq_of_mapM (fun _ _ => partialMessage_recipients) h.partials
  have hnodup : (((partialUpdates cal versions (updatePlan changes)).map Prod.snd).flatten).Nodup :=
    nodup_partialUpdates
  have hcount := countP_mem_of_nodup_flatten (x := email) hnodup
  rw [← hrecipients, countP_map] at hcount
  refine hcount.trans (if_congr ?_ rfl rfl)
  rw [hrecipients, ← flatMap_def]
  exact flatMap_partialUpdates.mem_iff

theorem SentUpdate.countP_full
    (h : SentUpdate cal now versions changes incrementSequence ids full partials)
    (hwhole : ∃ email, SentWhole changes email) (email : String) :
    full.countP (email ∈ ·.recipients) =
      if email ∈ versions.newItip.recipients false then 1 else 0 := by
  obtain ⟨whole, hin⟩ := hwhole
  have hrecipients : versions.newItip.recipients false ≠ [] :=
    ne_nil_of_mem (mem_recipients.2 (updates_of_sentWhole h.collected hin))
  obtain ⟨message, hrequest, hmessage⟩ := organizerRequestFull_eq cal now versions.newIcal
    incrementSequence hrecipients
  have hfull := (h.whole ⟨whole, hin⟩).symm.trans hrequest
  cases hfull
  rw [countP_singleton, hmessage]
  exact if_congr decide_eq_true_iff rfl rfl

end Recipients

/-! ## One update each -/

/-- **One update each**: every collected address gets exactly one message, and nobody gets two. -/
structure OneUpdateEach (cal : Calcard) (versions : EventVersions) (messages : List ItipMessage) :
    Prop where
  once : ∀ collected, organizerChanges cal versions.oldItip versions.newItip = .ok collected →
    ∀ change ∈ collected.1, messages.countP (change.email ∈ ·.recipients) = 1
  apart : ∀ email, messages.countP (email ∈ ·.recipients) ≤ 1

/-- The update calls for the whole event to be sent to the address. -/
def GetsWhole (cal : Calcard) (oldItip newItip : ItipSnapshots) (email : String) : Prop :=
  Concerns cal oldItip newItip .main email .request ∨
  ∃ id method other method', Concerns cal oldItip newItip id email method ∧
    Concerns cal oldItip newItip other email method' ∧ method ≠ method'

/-- An address is told about single instances, and the message about the whole event goes to it as
well. -/
def Overlaps (cal : Calcard) (oldItip newItip : ItipSnapshots) : Prop :=
  (∃ email, GetsWhole cal oldItip newItip email) ∧
  ∃ email, (∃ id method, Concerns cal oldItip newItip id email method) ∧
    ¬ GetsWhole cal oldItip newItip email ∧
    ∃ entry ∈ newItip.components, entry.2.Updates email

section

variable {cal : Calcard} {oldItip newItip : ItipSnapshots} {changes : List ChangedInstance}
  {incrementSequence : Bool}
  (h : organizerChanges cal oldItip newItip = .ok (changes, incrementSequence)) {email : String}
include h

theorem sentWhole_iff : SentWhole changes email ↔ GetsWhole cal oldItip newItip email := by
  constructor
  · rintro (⟨⟨id, email, method⟩, hin, rfl, rfl, rfl⟩ |
      ⟨⟨id, email, method⟩, hin, ⟨id', email', method'⟩, hin', rfl, rfl, hne⟩)
    · exact .inl ((mem_organizerChanges_iff h).1 hin)
    · exact .inr ⟨id, method, id', method', (mem_organizerChanges_iff h).1 hin,
        (mem_organizerChanges_iff h).1 hin', hne⟩
  · rintro (hmain | ⟨id, method, id', method', hin, hin', hne⟩)
    · exact .inl ⟨_, (mem_organizerChanges_iff h).2 hmain, rfl, rfl, rfl⟩
    · exact .inr ⟨_, (mem_organizerChanges_iff h).2 hin, _, (mem_organizerChanges_iff h).2 hin',
        rfl, rfl, hne⟩

theorem exists_change_iff : (∃ change ∈ changes, change.email = email) ↔
      ∃ id method, Concerns cal oldItip newItip id email method := by
  constructor
  · rintro ⟨⟨id, email, method⟩, hin, rfl⟩
    exact ⟨id, method, (mem_organizerChanges_iff h).1 hin⟩
  · rintro ⟨id, method, hconcerns⟩
    exact ⟨_, (mem_organizerChanges_iff h).2 hconcerns, rfl⟩

end

/-- **Who gets one update**: every collected address gets exactly one message exactly when the one
about the whole event does not reach an address that is told about single instances. -/
theorem one_update_each_iff {cal : Calcard} {now : PartialDateTime} {versions : EventVersions}
    {ids : List UInt16} {messages : List ItipMessage}
    (h : organizerHandleUpdate cal now versions = .ok (ids, messages)) :
    OneUpdateEach cal versions messages ↔ ¬ Overlaps cal versions.oldItip versions.newItip := by
  obtain ⟨changes, incrementSequence, full, partials, rfl, hsent⟩ := exists_sentUpdate h
  have hwhole := @sentWhole_iff _ _ _ _ _ hsent.collected
  have hchange := @exists_change_iff _ _ _ _ _ hsent.collected
  constructor
  · rintro hone ⟨⟨whole, hgets⟩, email, htold, hnot, hupdates⟩
    obtain ⟨change, hin, rfl⟩ := hchange.2 htold
    have honce := hone.once _ hsent.collected change hin
    have hkey := mem_keys_sendPartialUpdate.2 ⟨⟨change, hin, rfl⟩, fun hw => hnot (hwhole.1 hw)⟩
    rw [countP_append, hsent.countP_full ⟨whole, hwhole.2 hgets⟩, hsent.countP_partials,
      if_pos (mem_recipients.2 hupdates), if_pos hkey] at honce
    cases honce
  · intro hoverlap
    have hpartials := hsent.countP_partials
    by_cases hany : ∃ email, SentWhole changes email
    · have hfull := hsent.countP_full hany
      have hapart : ∀ email, email ∈ versions.newItip.recipients false →
          email ∉ InsertionMap.keys (updatePlan changes).sendPartialUpdate := by
        intro email hin hkey
        obtain ⟨whole, hsends⟩ := hany
        obtain ⟨htold, hnot⟩ := mem_keys_sendPartialUpdate.1 hkey
        exact hoverlap ⟨⟨whole, hwhole.1 hsends⟩, email, hchange.1 htold,
          fun hgets => hnot (hwhole.2 hgets), mem_recipients.1 hin⟩
      refine ⟨fun collected hcollected change hin => ?_, fun email => ?_⟩
      · cases hcollected.symm.trans hsent.collected
        rw [countP_append, hfull, hpartials]
        by_cases hsends : SentWhole changes change.email
        · have hrecipient := mem_recipients.2 (updates_of_sentWhole hsent.collected hsends)
          rw [if_pos hrecipient, if_neg (hapart _ hrecipient)]
        · have hkey := mem_keys_sendPartialUpdate.2 ⟨⟨change, hin, rfl⟩, hsends⟩
          rw [if_neg fun hrecipient => hapart _ hrecipient hkey, if_pos hkey]
      · rw [countP_append, hfull, hpartials]
        by_cases hrecipient : email ∈ versions.newItip.recipients false
        · rw [if_pos hrecipient, if_neg (hapart _ hrecipient)]
        · rw [if_neg hrecipient]
          split <;> decide
    · obtain ⟨-, rfl⟩ := hsent.none fun email hsends => hany ⟨email, hsends⟩
      refine ⟨fun collected hcollected change hin => ?_, fun email => ?_⟩
      · cases hcollected.symm.trans hsent.collected
        have hkey := mem_keys_sendPartialUpdate.2
          ⟨⟨change, hin, rfl⟩, fun hsends => hany ⟨_, hsends⟩⟩
        rw [nil_append, hpartials, if_pos hkey]
      · rw [nil_append, hpartials]
        split <;> decide

/-- A component of a weekly meeting: its place and its attendees. -/
def weeklyComponent (recurrence : List ICalendarEntry) (place : String) (attendees : List String) :
    ICalendarComponent where
  componentType := .vEvent
  entries := [
    { name := .uid, params := [], values := [.text "weekly"] },
    addressEntry .organizer "me@a.org",
    { name := .location, params := [], values := [.text place] }] ++ recurrence ++
    attendees.map (addressEntry .attendee)
  componentIds := []

/-- A weekly meeting with Bob, to one instance of which Carol is invited as well. -/
def weekly (place instancePlace : String) : ICalendar :=
  ⟨[{ componentType := .vCalendar, entries := [], componentIds := [1, 2] },
    weeklyComponent [] place ["bob@b.org"],
    weeklyComponent
      [{ name := .recurrenceId, params := [],
         values := [.partialDateTime { year := some 2024, month := some 3, day := some 4 }] }]
      instancePlace ["bob@b.org", "carol@c.org"]]⟩

/-- The meeting moves to another room. Carol is told about her instance, and gets the message about
the whole meeting. -/
theorem told_twice :
    ¬ ∀ (cal : Calcard) (accountEmails : List String) (now : PartialDateTime)
        (versions : EventVersions) (ids : List UInt16) (messages : List ItipMessage),
        ReadFrom cal accountEmails versions.oldIcal versions.oldItip →
        ReadFrom cal accountEmails versions.newIcal versions.newItip →
        organizerHandleUpdate cal now versions = .ok (ids, messages) →
        OneUpdateEach cal versions messages := by
  intro h
  have hold : ReadFrom .plain ["me@a.org"] (weekly "room 1" "room 1") _ := .of_snapshot rfl
  have hnew : ReadFrom .plain ["me@a.org"] (weekly "room 2" "room 2") _ := .of_snapshot rfl
  have hone := h .plain ["me@a.org"] {} ⟨_, _, _, _⟩ _ _ hold hnew rfl
  exact absurd (hone.apart "carol@c.org") (by decide)

theorem one_update_each_weekly :
    ∃ oldItip newItip messages,
      ReadFrom .plain ["me@a.org"] (weekly "room 1" "room 1") oldItip ∧
      ReadFrom .plain ["me@a.org"] (weekly "room 2" "room 2") newItip ∧
      (OneUpdateEach .plain
          ⟨weekly "room 1" "room 1", weekly "room 2" "room 2", oldItip, newItip⟩ messages ↔
        ¬ Overlaps .plain oldItip newItip) ∧
      ¬ OneUpdateEach .plain
        ⟨weekly "room 1" "room 1", weekly "room 2" "room 2", oldItip, newItip⟩ messages := by
  have hold : ReadFrom .plain ["me@a.org"] (weekly "room 1" "room 1") _ := .of_snapshot rfl
  have hnew : ReadFrom .plain ["me@a.org"] (weekly "room 2" "room 2") _ := .of_snapshot rfl
  refine ⟨_, _, _, hold, hnew, @one_update_each_iff _ {} _ _ _ rfl, fun hone => ?_⟩
  exact absurd (hone.apart "carol@c.org") (by decide)

end MailServer.Scheduling
