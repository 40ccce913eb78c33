import MailServer.Scheduling.Calendar
import Mathlib.Data.List.Basic

/-!
# Snapshots of scheduling objects

`itipSnapshot` reads the organizer, the UID and the instances of a calendar object in one loop over
its components and their entries, and fails at the first contradiction.

Principal result: `itipSnapshot_eq_ok_iff`.
-/

namespace MailServer.Scheduling

open List

variable {entry : ICalendarEntry × ℕ}

/-- An occurrence of a recurring event; `impl PartialEq` compares these two fields. -/
structure RecurrenceId where
  date : ℤ
  thisAndFuture : Bool
deriving DecidableEq

inductive InstanceId
  | main
  | recurrence (id : RecurrenceId)
deriving DecidableEq

/-- The value of a scheduling entry; dates compare by their instant alone. -/
inductive ItipEntryValue
  | dateTime (timestamp : ℤ)
  | period (period : String)
  | duration (duration : String)
  | status (status : ICalendarStatus)
  | rRule (rule : String)
  | text (text : String)
  | integer (value : ℤ)
deriving DecidableEq

structure ItipEntry where
  name : ICalendarProperty
  value : ItipEntryValue
deriving DecidableEq

structure ItipSnapshot where
  compId : UInt16
  comp : ICalendarComponent
  attendees : List Attendee := []
  dtstamp : Option PartialDateTime := none
  entries : List ItipEntry := []
  sequence : Option ℤ := none
  requestStatus : List String := []

/-- The map of instances is a list without repeated keys, in the order of an iteration. -/
structure ItipSnapshots where
  organizer : Organizer
  uid : String
  components : List (InstanceId × ItipSnapshot)

/-- `components.get(instance_id)`. -/
def ItipSnapshots.get? (snapshots : ItipSnapshots) (id : InstanceId) : Option ItipSnapshot :=
  (snapshots.components.find? (·.1 = id)).map Prod.snd

/-! ## Reading one entry -/

section Reading

variable (cal : Calcard) (zones : List Zone) (accountEmails : List String)

/-- `entry.values.first().and_then(|v| v.as_text()).and_then(|v| Email::new(v, account_emails))`. -/
def entryEmail (entry : ICalendarEntry) : Option Email :=
  (entry.values.head?.bind cal.asText).bind fun text => Email.new cal text accountEmails

def Organizer.readParam (part : Organizer) (param : ICalendarParameter) : Organizer :=
  match param.name, param.value with
  | .scheduleAgent, .scheduleAgent .client => { part with isServerScheduling := false }
  | .scheduleAgent, .scheduleAgent .none => { part with isServerScheduling := false }
  | .scheduleForceSend, .scheduleForceSend forceSend => { part with forceSend := some forceSend }
  | _, _ => part

def readOrganizer (entry : ICalendarEntry × ℕ) : Option Organizer :=
  if entry.1.name = .organizer then
    (entryEmail cal accountEmails entry.1).map fun email =>
      entry.1.params.foldl Organizer.readParam
        { entryId := entry.2.toUInt16, email, isServerScheduling := true, forceSend := none }
  else none

def Attendee.readParam (part : Attendee) (param : ICalendarParameter) : Attendee :=
  match param.name, param.value with
  | .scheduleAgent, .scheduleAgent agent => { part with isServerScheduling := agent = .server }
  | .rsvp, .bool rsvp => { part with rsvp := some rsvp }
  | .scheduleForceSend, .scheduleForceSend forceSend => { part with forceSend := some forceSend }
  | .partstat, .partstat value => { part with partStat := some value }
  | .cutype, .cutype value => { part with cuType := some value }
  | .delegatedFrom, .uri uri =>
    { part with
      delegatedFrom := part.delegatedFrom ++ (Email.fromUri cal uri accountEmails).toList }
  | .delegatedTo, .uri uri =>
    { part with delegatedTo := part.delegatedTo ++ (Email.fromUri cal uri accountEmails).toList }
  | .role, .role value => { part with role := some value }
  | .sentBy, .uri value => { part with sentBy := Email.fromUri cal value accountEmails }
  | _, _ => part

def readAttendee (entry : ICalendarEntry × ℕ) : Option Attendee :=
  if entry.1.name = .attendee then
    (entryEmail cal accountEmails entry.1).map fun email =>
      entry.1.params.foldl (Attendee.readParam cal accountEmails)
        { entryId := entry.2.toUInt16, email, partStat := none, delegatedFrom := [],
          delegatedTo := [], role := none, cuType := none, sentBy := none, rsvp := none,
          isServerScheduling := true, forceSend := none }
  else none

/-- `AHashSet::insert`: an attendee equal to one of the set is dropped. -/
def insertAttendee (attendees : List Attendee) (attendee : Attendee) : List Attendee :=
  if attendees.any (·.key = attendee.key) then attendees else attendees ++ [attendee]

def readUid (entry : ICalendarEntry) : Option String :=
  if entry.name = .uid then
    ((entry.values.head?.bind cal.asText).map fun text => String.ofList (trim text.toList)).filter
      (· ≠ "")
  else none

def readSequence (entry : ICalendarEntry) : Option ℤ :=
  if entry.name = .sequence then entry.values.head?.bind cal.asInteger else none

/-- The time zone name among the parameters of a recurrence id; the last one counts. -/
def recurrenceTz (params : List ICalendarParameter) : Option String :=
  params.foldl (fun tz param =>
    match param.name, param.value with
    | .tzid, .text id => some id
    | _, _ => tz) none

def readInstanceId (entry : ICalendarEntry) : Option InstanceId :=
  if entry.name = .recurrenceId then
    (entry.values.head?.bind cal.asPartialDateTime).map fun date =>
      .recurrence
        { date := cal.timestamp zones (recurrenceTz entry.params) date
          thisAndFuture := entry.params.any (·.name = .range) }
  else none

def readRequestStatus (entry : ICalendarEntry) : Option String :=
  if entry.name = .requestStatus then entry.values.head?.bind cal.asText else none

def readDtstamp (entry : ICalendarEntry) : Option (Option PartialDateTime) :=
  if entry.name = .dtstamp then some (entry.values.head?.bind cal.asPartialDateTime) else none

/-- The properties whose values a snapshot keeps. -/
def ICalendarProperty.isTracked : ICalendarProperty → Bool
  | .dtstart | .dtend | .duration | .due | .rrule | .rdate | .exdate | .status | .location
  | .summary | .description | .priority | .percentComplete | .completed => true
  | _ => false

def readValue (tzId : Option String) : ICalendarValue → Option ItipEntryValue
  | .uri (.location text) => some (.text text)
  | .partialDateTime date => some (.dateTime (cal.timestamp zones tzId date))
  | .duration duration => some (.duration duration)
  | .recurrenceRule rule => some (.rRule rule)
  | .period period => some (.period period)
  | .integer value => some (.integer value)
  | .text text => some (.text text)
  | .status status => some (.status status)
  | _ => none

def readTracked (entry : ICalendarEntry) : List ItipEntry :=
  if entry.name.isTracked then
    (entry.values.filterMap (readValue cal zones (cal.tzId entry))).map fun value =>
      { name := entry.name, value }
  else []

/-! ## Reading an object -/

/-- What the loop over the entries of a component updates. -/
structure EntryState where
  organizer : Option Organizer
  uid : Option String
  hasLocalEmails : Bool
  instanceId : InstanceId
  snapshot : ItipSnapshot

/-- One turn of the loop over the entries of a scheduling component. -/
def snapshotEntry (forceAddClientScheduling : Bool) (st : EntryState)
    (entry : ICalendarEntry × ℕ) : Except ItipError EntryState :=
  match entry.1.name with
  | .organizer =>
    match readOrganizer cal accountEmails entry with
    | none => .ok st
    | some part =>
      if !part.isServerScheduling && !forceAddClientScheduling then .error .otherSchedulingAgent
      else
        let hasLocalEmails := st.hasLocalEmails || part.email.isLocal
        match st.organizer with
        | some existing =>
          if existing.email.email ≠ part.email.email then .error .multipleOrganizer
          else .ok { st with hasLocalEmails }
        | none => .ok { st with organizer := some part, hasLocalEmails }
  | .attendee =>
    match readAttendee cal accountEmails entry with
    | none => .ok st
    | some part =>
      .ok { st with
        hasLocalEmails := st.hasLocalEmails ||
          (part.email.isLocal && (forceAddClientScheduling || part.isServerScheduling))
        snapshot := { st.snapshot with attendees := insertAttendee st.snapshot.attendees part } }
  | .uid =>
    match readUid cal entry.1 with
    | none => .ok st
    | some uid =>
      match st.uid with
      | some existing => if existing ≠ uid then .error .multipleUid else .ok st
      | none => .ok { st with uid := some uid }
  | .sequence =>
    match readSequence cal entry.1 with
    | none => .ok st
    | some sequence => .ok { st with snapshot := { st.snapshot with sequence := some sequence } }
  | .recurrenceId =>
    match readInstanceId cal zones entry.1 with
    | none => .ok st
    | some instanceId => .ok { st with instanceId }
  | .requestStatus =>
    match readRequestStatus cal entry.1 with
    | none => .ok st
    | some value =>
      .ok { st with
        snapshot := { st.snapshot with requestStatus := st.snapshot.requestStatus ++ [value] } }
  | .dtstamp =>
    .ok { st with
      snapshot :=
        { st.snapshot with dtstamp := entry.1.values.head?.bind cal.asPartialDateTime } }
  | _ =>
    .ok { st with
      snapshot := { st.snapshot with
        entries := (readTracked cal zones entry.1).foldl
          (fun entries entry => entries.insert entry) st.snapshot.entries } }

/-- What the loop over the components updates. -/
structure SnapshotState where
  organizer : Option Organizer := none
  uid : Option String := none
  components : List (InstanceId × ItipSnapshot) := []
  expectObjectType : Option ICalendarComponentType := none
  hasLocalEmails : Bool := false

/-- One turn of the loop over the components. -/
def snapshotComponent (forceAddClientScheduling : Bool) (st : SnapshotState)
    (comp : ICalendarComponent × ℕ) : Except ItipError SnapshotState :=
  if cal.isSchedulingObject comp.1.componentType then do
    if st.expectObjectType.any (· ≠ comp.1.componentType) then throw .multipleObjectTypes
    let read ← comp.1.entries.zipIdx.foldlM
      (snapshotEntry cal zones accountEmails forceAddClientScheduling)
      { organizer := st.organizer, uid := st.uid, hasLocalEmails := st.hasLocalEmails
        instanceId := .main, snapshot := { compId := comp.2.toUInt16, comp := comp.1 } }
    if st.components.any (·.1 = read.instanceId) then throw .multipleObjectInstances
    return {
      organizer := read.organizer
      uid := read.uid
      components := st.components ++ [(read.instanceId, read.snapshot)]
      expectObjectType := st.expectObjectType.or (some comp.1.componentType)
      hasLocalEmails := read.hasLocalEmails }
  else return st

end Reading

def itipSnapshot (cal : Calcard) (ical : ICalendar) (accountEmails : List String)
    (forceAddClientScheduling : Bool) : Except ItipError ItipSnapshots := do
  if !ical.components.any (fun comp =>
      cal.isSchedulingObject comp.componentType && comp.entries.any (·.name = .organizer)) then
    throw .noSchedulingInfo
  let st ← ical.components.zipIdx.foldlM
    (snapshotComponent cal ical.zones accountEmails forceAddClientScheduling) {}
  if st.hasLocalEmails then
    match st.organizer, st.uid with
    | none, _ => throw .noSchedulingInfo
    | some _, none => throw .missingUid
    | some organizer, some uid => return { organizer, uid, components := st.components }
  else throw .notOrganizerNorAttendee

/-! ## What the loop over the entries computes -/

section Entries

variable (cal : Calcard) (zones : List Zone) (accountEmails : List String) (force : Bool)

/-- An attendee that makes the account a party of the object. -/
def Attendee.isParty (part : Attendee) : Bool :=
  part.email.isLocal && (force || part.isServerScheduling)

/-- The entry does not contradict what was read before it. -/
structure EntryState.Accepts (st : EntryState) (entry : ICalendarEntry × ℕ) : Prop where
  agent : ∀ part, readOrganizer cal accountEmails entry = some part →
    part.isServerScheduling ∨ force
  organizer : ∀ part, readOrganizer cal accountEmails entry = some part →
    ∀ existing, st.organizer = some existing → existing.email.email = part.email.email
  uid : ∀ uid, readUid cal entry.1 = some uid → ∀ existing, st.uid = some existing → existing = uid

/-- The state after an accepted entry, field by field. -/
def EntryState.next (st : EntryState) (entry : ICalendarEntry × ℕ) : EntryState where
  organizer := st.organizer.or (readOrganizer cal accountEmails entry)
  uid := st.uid.or (readUid cal entry.1)
  hasLocalEmails := st.hasLocalEmails ||
    (readOrganizer cal accountEmails entry).any (·.email.isLocal) ||
    (readAttendee cal accountEmails entry).any (Attendee.isParty force)
  instanceId := (readInstanceId cal zones entry.1).getD st.instanceId
  snapshot := { st.snapshot with
    attendees := (readAttendee cal accountEmails entry).toList.foldl insertAttendee
      st.snapshot.attendees
    dtstamp := (readDtstamp cal entry.1).getD st.snapshot.dtstamp
    entries := (readTracked cal zones entry.1).foldl
      (fun entries entry => entries.insert entry) st.snapshot.entries
    sequence := (readSequence cal entry.1).or st.snapshot.sequence
    requestStatus := st.snapshot.requestStatus ++ (readRequestStatus cal entry.1).toList }

theorem accepts_of_snapshotEntry {st st' : EntryState}
    (h : snapshotEntry cal zones accountEmails force st entry = .ok st') :
    st.Accepts cal accountEmails force entry := by
  constructor
  · intro part hpart
    have hname : entry.1.name = .organizer := by
      by_contra hname
      simp [readOrganizer, hname] at hpart
    simp only [snapshotEntry, hname, hpart] at h
    split at h
    · cases h
    · rename_i hagent
      simpa [Bool.or_comm, or_iff_not_imp_left] using hagent
  · intro part hpart existing hexisting
    have hname : entry.1.name = .organizer := by
      by_contra hname
      simp [readOrganizer, hname] at hpart
    simp only [snapshotEntry, hname, hpart, hexisting] at h
    split at h
    · cases h
    · split at h
      · cases h
      · rename_i hsame
        exact not_not.1 hsame
  · intro uid huid existing hexisting
    have hname : entry.1.name = .uid := by
      by_contra hname
      simp [readUid, hname] at huid
    simp only [snapshotEntry, hname, huid, hexisting] at h
    split at h
    · cases h
    · rename_i hsame
      exact not_not.1 hsame

theorem snapshotEntry_of_accepts {st : EntryState} (h : st.Accepts cal accountEmails force entry) :
    snapshotEntry cal zones accountEmails force st entry =
      .ok (st.next cal zones accountEmails force entry) := by
  cases hname : entry.1.name
  case organizer =>
    have hnext : st.next cal zones accountEmails force entry =
        { st with
          organizer := st.organizer.or (readOrganizer cal accountEmails entry)
          hasLocalEmails := st.hasLocalEmails ||
            (readOrganizer cal accountEmails entry).any (·.email.isLocal) } := by
      simp [EntryState.next, readUid, readAttendee, readInstanceId, readDtstamp, readTracked,
        readSequence, readRequestStatus, hname, ICalendarProperty.isTracked]
    simp only [hnext, snapshotEntry, hname]
    cases hpart : readOrganizer cal accountEmails entry with
    | none => simp
    | some part =>
      have hagent : (!part.isServerScheduling && !force) = false := by
        simpa [or_iff_not_imp_left] using h.agent part hpart
      cases hexisting : st.organizer with
      | none => simp [hagent]
      | some existing => simp [hagent, h.organizer part hpart existing hexisting]
  case uid =>
    have hnext : st.next cal zones accountEmails force entry =
        { st with uid := st.uid.or (readUid cal entry.1) } := by
      simp [EntryState.next, readOrganizer, readAttendee, readInstanceId, readDtstamp, readTracked,
        readSequence, readRequestStatus, hname, ICalendarProperty.isTracked]
    simp only [hnext, snapshotEntry, hname]
    cases huid : readUid cal entry.1 with
    | none => simp
    | some uid =>
      cases hexisting : st.uid with
      | none => simp
      | some existing =>
        have hsame := h.uid uid huid existing hexisting
        simp only [hsame, ne_eq, not_true, if_false, Option.or_some, Option.getD_some]
        rw [← hsame, ← hexisting]
  case attendee =>
    cases hpart : readAttendee cal accountEmails entry <;>
      simp [snapshotEntry, EntryState.next, readOrganizer, readUid, readInstanceId, readDtstamp,
        readTracked, readSequence, readRequestStatus, hname, ICalendarProperty.isTracked, hpart,
        Attendee.isParty]
  case sequence =>
    cases hread : readSequence cal entry.1 <;>
      simp [snapshotEntry, EntryState.next, readOrganizer, readUid, readAttendee, readInstanceId,
        readDtstamp, readTracked, readRequestStatus, hname, ICalendarProperty.isTracked, hread]
  case recurrenceId =>
    cases hread : readInstanceId cal zones entry.1 <;>
      simp [snapshotEntry, EntryState.next, readOrganizer, readUid, readAttendee, readSequence,
        readDtstamp, readTracked, readRequestStatus, hname, ICalendarProperty.isTracked, hread]
  case requestStatus =>
    cases hread : readRequestStatus cal entry.1 <;>
      simp [snapshotEntry, EntryState.next, readOrganizer, readUid, readAttendee, readSequence,
        readDtstamp, readTracked, readInstanceId, hname, ICalendarProperty.isTracked, hread]
  all_goals
    simp [snapshotEntry, EntryState.next, readOrganizer, readUid, readAttendee, readSequence,
      readDtstamp, readRequestStatus, readInstanceId, hname, readTracked,
      ICalendarProperty.isTracked]

theorem snapshotEntry_eq_ok_iff {st st' : EntryState} :
    snapshotEntry cal zones accountEmails force st entry = .ok st' ↔
      st.Accepts cal accountEmails force entry ∧
        st' = st.next cal zones accountEmails force entry := by
  constructor
  · intro h
    have haccepts := accepts_of_snapshotEntry cal zones accountEmails force h
    rw [snapshotEntry_of_accepts cal zones accountEmails force haccepts, Except.ok.injEq] at h
    exact ⟨haccepts, h.symm⟩
  · rintro ⟨haccepts, rfl⟩
    exact snapshotEntry_of_accepts cal zones accountEmails force haccepts

end Entries

/-! ## Lists on which everything agrees -/

/-- All elements are one. -/
def Uniform {α : Type} (xs : List α) : Prop :=
  ∀ x ∈ xs, ∀ y ∈ xs, x = y

theorem uniform_or {α : Type} (slot read : Option α) (xs : List α) :
    (∀ x, read = some x → ∀ y, slot = some y → y = x) ∧ Uniform ((slot.or read).toList ++ xs) ↔
      Uniform (slot.toList ++ (read.toList ++ xs)) := by
  cases slot with
  | none => simp
  | some y =>
    cases read with
    | none => simp
    | some x =>
      simp only [Option.some.injEq, forall_eq', Option.or_some, Option.getD_some]
      constructor
      · rintro ⟨rfl, h⟩
        intro a ha b hb
        exact h a (by simpa using ha) b (by simpa using hb)
      · intro h
        refine ⟨h y (by simp) x (by simp), ?_⟩
        intro a ha b hb
        exact h a (by simp at ha ⊢; tauto) b (by simp at hb ⊢; tauto)

theorem uniform_append_nil {α : Type} (slot : Option α) : Uniform (slot.toList ++ []) := by
  cases slot <;> simp [Uniform]

theorem uniform_append {α : Type} (slot : Option α) (xs ys : List α) :
    Uniform (slot.toList ++ (xs ++ ys)) ↔
      Uniform (slot.toList ++ xs) ∧ Uniform ((slot.or xs.head?).toList ++ ys) := by
  have hhead : ∀ r ∈ (slot.or xs.head?).toList, r ∈ slot.toList ++ xs := by
    intro r hr
    cases slot with
    | none => exact mem_append_right _ (mem_of_head? (by simpa using hr))
    | some y => exact mem_append_left _ (by simpa using hr)
  constructor
  · intro h
    refine ⟨fun a ha b hb => h a ?_ b ?_, fun a ha b hb => h a ?_ b ?_⟩
    · rw [← append_assoc]; exact mem_append_left _ ha
    · rw [← append_assoc]; exact mem_append_left _ hb
    · rw [← append_assoc, mem_append]
      exact (mem_append.1 ha).imp_left (hhead a)
    · rw [← append_assoc, mem_append]
      exact (mem_append.1 hb).imp_left (hhead b)
  · rintro ⟨h₁, h₂⟩
    cases hslot : slot.or xs.head? with
    | none =>
      obtain ⟨rfl, hxs⟩ := Option.or_eq_none_iff.1 hslot
      obtain rfl := head?_eq_none_iff.1 hxs
      simpa using h₂
    | some r =>
      have hr := hhead r (by simp [hslot])
      have hall : ∀ a ∈ slot.toList ++ (xs ++ ys), a = r := by
        intro a ha
        rw [← append_assoc, mem_append] at ha
        rcases ha with ha | ha
        · exact h₁ a ha r hr
        · exact h₂ a (mem_append_right _ ha) r (by simp [hslot])
      exact fun a ha b hb => (hall a ha).trans (hall b hb).symm

theorem filterMap_zipIdx {α β : Type} (f : α → Option β) (xs : List α) :
    (xs.zipIdx.filterMap fun x => f x.1) = xs.filterMap f := by
  conv_rhs => rw [← zipIdx_map_fst 0 xs, filterMap_map]
  rfl

theorem flatMap_zipIdx {α β : Type} (f : α → List β) (xs : List α) :
    (xs.zipIdx.flatMap fun x => f x.1) = xs.flatMap f := by
  rw [← flatMap_map, zipIdx_map_fst]

theorem filterMap_cons_toList {α β : Type} (f : α → Option β) (x : α) (xs : List α) :
    (x :: xs).filterMap f = (f x).toList ++ xs.filterMap f := by
  cases h : f x <;> simp [h]

/-! ## The loop over the entries -/

section EntryLoop

variable (cal : Calcard) (zones : List Zone) (accountEmails : List String) (force : Bool)

/-- The state after a list of accepted entries, each field from the entries that carry it. -/
def EntryState.after (st : EntryState) (entries : List (ICalendarEntry × ℕ)) : EntryState where
  organizer := st.organizer.or (entries.filterMap (readOrganizer cal accountEmails)).head?
  uid := st.uid.or (entries.filterMap fun entry => readUid cal entry.1).head?
  hasLocalEmails := st.hasLocalEmails ||
    (entries.filterMap (readOrganizer cal accountEmails)).any (·.email.isLocal) ||
    (entries.filterMap (readAttendee cal accountEmails)).any (Attendee.isParty force)
  instanceId :=
    (entries.filterMap fun entry => readInstanceId cal zones entry.1).getLast?.getD st.instanceId
  snapshot := { st.snapshot with
    attendees := (entries.filterMap (readAttendee cal accountEmails)).foldl insertAttendee
      st.snapshot.attendees
    dtstamp :=
      (entries.filterMap fun entry => readDtstamp cal entry.1).getLast?.getD st.snapshot.dtstamp
    entries := (entries.flatMap fun entry => readTracked cal zones entry.1).foldl
      (fun entries entry => entries.insert entry) st.snapshot.entries
    sequence :=
      (entries.filterMap fun entry => readSequence cal entry.1).getLast?.or st.snapshot.sequence
    requestStatus :=
      st.snapshot.requestStatus ++ entries.filterMap fun entry => readRequestStatus cal entry.1 }

/-- No entry of the list contradicts the state or an earlier entry. -/
structure EntryState.AcceptsAll (st : EntryState) (entries : List (ICalendarEntry × ℕ)) : Prop where
  agent : ∀ part ∈ entries.filterMap (readOrganizer cal accountEmails),
    part.isServerScheduling ∨ force
  organizer : Uniform ((st.organizer.map (·.email.email)).toList ++
    (entries.filterMap (readOrganizer cal accountEmails)).map (·.email.email))
  uid : Uniform (st.uid.toList ++ entries.filterMap fun entry => readUid cal entry.1)

theorem EntryState.after_nil (st : EntryState) :
    st.after cal zones accountEmails force [] = st := by
  simp [EntryState.after]

theorem EntryState.after_next (st : EntryState) (entry : ICalendarEntry × ℕ)
    (entries : List (ICalendarEntry × ℕ)) :
    (st.next cal zones accountEmails force entry).after cal zones accountEmails force entries =
      st.after cal zones accountEmails force (entry :: entries) := by
  have hlast {α : Type} (read : Option α) (xs : List α) (slot : α) :
      xs.getLast?.getD (read.getD slot) = (read.toList ++ xs).getLast?.getD slot := by
    cases read <;> cases h : xs.getLast? <;> simp [getLast?_cons, h]
  have hlastOr {α : Type} (read : Option α) (xs : List α) (slot : Option α) :
      xs.getLast?.or (read.or slot) = (read.toList ++ xs).getLast?.or slot := by
    cases read <;> cases h : xs.getLast? <;> simp [getLast?_cons, h]
  have hhead {α : Type} (read : Option α) (xs : List α) (slot : Option α) :
      (slot.or read).or xs.head? = slot.or (read.toList ++ xs).head? := by
    cases slot <;> cases read <;> simp
  have hany {α : Type} (read : Option α) (p : α → Bool) : read.any p = read.toList.any p := by
    cases read <;> simp
  simp only [EntryState.after, EntryState.next, filterMap_cons_toList, hlast, hlastOr, hhead, hany,
    flatMap_cons, foldl_append, append_assoc]
  congr 1
  grind

theorem EntryState.acceptsAll_cons {st : EntryState} {entry}
    {entries} :
    st.AcceptsAll cal accountEmails force (entry :: entries) ↔
      st.Accepts cal accountEmails force entry ∧
        (st.next cal zones accountEmails force entry).AcceptsAll cal accountEmails force
          entries := by
  have horganizer := uniform_or (st.organizer.map (·.email.email))
    ((readOrganizer cal accountEmails entry).map (·.email.email))
    ((entries.filterMap (readOrganizer cal accountEmails)).map (·.email.email))
  have huid := uniform_or st.uid (readUid cal entry.1)
    (entries.filterMap fun entry => readUid cal entry.1)
  constructor
  · intro h
    have h₁ := horganizer.2 (by
      simpa [filterMap_cons_toList, Option.toList_map] using h.organizer)
    have h₂ := huid.2 (by simpa [filterMap_cons_toList] using h.uid)
    refine ⟨⟨?_, ?_, h₂.1⟩, ?_, ?_, h₂.2⟩
    · intro part hpart
      exact h.agent part (by simp [hpart])
    · intro part hpart existing hexisting
      exact h₁.1 _ (by simp [hpart]) _ (by simp [hexisting])
    · intro part hpart
      exact h.agent part (by simp [filterMap_cons_toList] at hpart ⊢; tauto)
    · simpa [EntryState.next, Option.map_or] using h₁.2
  · rintro ⟨h, hrest⟩
    refine ⟨?_, ?_, ?_⟩
    · intro part hpart
      rw [filterMap_cons_toList, mem_append] at hpart
      exact hpart.elim (fun hpart => h.agent part (by simpa using hpart)) (hrest.agent part)
    · have h₁ := horganizer.1 ⟨?_, by simpa [EntryState.next, Option.map_or] using hrest.organizer⟩
      · simpa [filterMap_cons_toList, map_append, Option.toList_map] using h₁
      · simp only [Option.map_eq_some_iff, forall_exists_index, and_imp, forall_apply_eq_imp_iff₂]
        exact h.organizer
    · simpa [filterMap_cons_toList] using huid.1 ⟨h.uid, hrest.uid⟩

/-- **The loop over the entries of a component.** -/
theorem foldlM_snapshotEntry_eq_ok_iff {st st' : EntryState}
    {entries} :
    entries.foldlM (snapshotEntry cal zones accountEmails force) st = .ok st' ↔
      st.AcceptsAll cal accountEmails force entries ∧
        st' = st.after cal zones accountEmails force entries := by
  induction entries generalizing st with
  | nil =>
    have hall : st.AcceptsAll cal accountEmails force [] :=
      ⟨by simp, by simpa using uniform_append_nil _, by simpa using uniform_append_nil _⟩
    simp [hall, EntryState.after_nil, eq_comm, pure, Except.pure]
  | cons entry entries ih =>
    rw [EntryState.acceptsAll_cons cal zones, ← EntryState.after_next, foldlM_cons]
    constructor
    · intro h
      cases hentry : snapshotEntry cal zones accountEmails force st entry with
      | error e => rw [hentry] at h; cases h
      | ok next =>
        rw [hentry] at h
        obtain ⟨haccepts, rfl⟩ := (snapshotEntry_eq_ok_iff cal zones accountEmails force).1 hentry
        obtain ⟨hrest, hst'⟩ := ih.1 h
        exact ⟨⟨haccepts, hrest⟩, hst'⟩
    · rintro ⟨⟨haccepts, hrest⟩, hst'⟩
      rw [snapshotEntry_of_accepts cal zones accountEmails force haccepts]
      exact ih.2 ⟨hrest, hst'⟩

end EntryLoop

/-! ## The loop over the components -/

section ComponentLoop

variable (cal : Calcard) (zones : List Zone) (accountEmails : List String) (force : Bool)

variable (comp : ICalendarComponent × ℕ)

def componentOrganizers : List Organizer :=
  comp.1.entries.zipIdx.filterMap (readOrganizer cal accountEmails)

def componentAttendees : List Attendee :=
  comp.1.entries.zipIdx.filterMap (readAttendee cal accountEmails)

def componentUids : List String :=
  comp.1.entries.filterMap (readUid cal)

def componentInstance (comp : ICalendarComponent) : InstanceId :=
  (comp.entries.filterMap (readInstanceId cal zones)).getLast?.getD .main

def componentSequence (comp : ICalendarComponent) : Option ℤ :=
  (comp.entries.filterMap (readSequence cal)).getLast?

/-- The snapshot of a scheduling component at its position. -/
def readComponent : InstanceId × ItipSnapshot :=
  (componentInstance cal zones comp.1,
    { compId := comp.2.toUInt16
      comp := comp.1
      attendees := (componentAttendees cal accountEmails comp).foldl insertAttendee []
      dtstamp := (comp.1.entries.filterMap (readDtstamp cal)).getLast?.getD none
      entries := (comp.1.entries.flatMap (readTracked cal zones)).foldl
        (fun entries entry => entries.insert entry) []
      sequence := componentSequence cal comp.1
      requestStatus := comp.1.entries.filterMap (readRequestStatus cal) })

/-- The components of a list do not contradict the state or each other. -/
structure SnapshotState.AcceptsAll (st : SnapshotState) (comps : List (ICalendarComponent × ℕ)) :
    Prop where
  agent : ∀ part ∈ comps.flatMap (componentOrganizers cal accountEmails),
    part.isServerScheduling ∨ force
  organizer : Uniform ((st.organizer.map (·.email.email)).toList ++
    (comps.flatMap (componentOrganizers cal accountEmails)).map (·.email.email))
  uid : Uniform (st.uid.toList ++ comps.flatMap (componentUids cal))
  objectType : Uniform (st.expectObjectType.toList ++ comps.map (·.1.componentType))
  instances : (st.components.map Prod.fst ++
    comps.map fun comp => componentInstance cal zones comp.1).Nodup

/-- The state after a list of accepted scheduling components. -/
def SnapshotState.after (st : SnapshotState) (comps : List (ICalendarComponent × ℕ)) :
    SnapshotState where
  organizer := st.organizer.or (comps.flatMap (componentOrganizers cal accountEmails)).head?
  uid := st.uid.or (comps.flatMap (componentUids cal)).head?
  components := st.components ++ comps.map (readComponent cal zones accountEmails)
  expectObjectType := st.expectObjectType.or (comps.map (·.1.componentType)).head?
  hasLocalEmails := st.hasLocalEmails ||
    (comps.flatMap (componentOrganizers cal accountEmails)).any (·.email.isLocal) ||
    (comps.flatMap (componentAttendees cal accountEmails)).any (Attendee.isParty force)

theorem after_component (st : SnapshotState) (comp : ICalendarComponent × ℕ) :
    let start : EntryState :=
      { organizer := st.organizer, uid := st.uid, hasLocalEmails := st.hasLocalEmails
        instanceId := .main, snapshot := { compId := comp.2.toUInt16, comp := comp.1 } }
    start.after cal zones accountEmails force comp.1.entries.zipIdx =
      { organizer := (st.after cal zones accountEmails force [comp]).organizer
        uid := (st.after cal zones accountEmails force [comp]).uid
        hasLocalEmails := (st.after cal zones accountEmails force [comp]).hasLocalEmails
        instanceId := (readComponent cal zones accountEmails comp).1
        snapshot := (readComponent cal zones accountEmails comp).2 } := by
  simp only [EntryState.after, SnapshotState.after, readComponent, componentOrganizers,
    componentAttendees, componentUids, componentInstance, componentSequence, flatMap_cons,
    flatMap_nil, append_nil, filterMap_zipIdx, flatMap_zipIdx, Option.or_none,
    nil_append]

/-- One turn of the loop at a scheduling component. -/
theorem snapshotComponent_eq_ok_iff {st st'} {comp}
    (hobject : cal.isSchedulingObject comp.1.componentType)
    (hnodup : (st.components.map Prod.fst).Nodup) :
    snapshotComponent cal zones accountEmails force st comp = .ok st' ↔
      st.AcceptsAll cal zones accountEmails force [comp] ∧
        st' = st.after cal zones accountEmails force [comp] := by
  have hafter := after_component cal zones accountEmails force st comp
  have hentries {read : EntryState} :
      comp.1.entries.zipIdx.foldlM (snapshotEntry cal zones accountEmails force)
          { organizer := st.organizer, uid := st.uid, hasLocalEmails := st.hasLocalEmails
            instanceId := .main, snapshot := { compId := comp.2.toUInt16, comp := comp.1 } } =
        .ok read ↔ _ := foldlM_snapshotEntry_eq_ok_iff cal zones accountEmails force
  have htypes : st.expectObjectType.any (· ≠ comp.1.componentType) = false ↔
      Uniform (st.expectObjectType.toList ++ [comp.1.componentType]) := by
    cases st.expectObjectType with
    | none => simp [Uniform]
    | some expected =>
      simp only [Option.any_some, decide_eq_false_iff_not, not_not, Option.toList_some, Uniform,
        cons_append, nil_append, mem_cons, not_mem_nil, or_false]
      constructor
      · rintro rfl x (rfl | rfl) y (rfl | rfl) <;> rfl
      · exact fun h => h _ (.inl rfl) _ (.inr rfl)
  have hinstances : (st.components.any
      (·.1 = (readComponent cal zones accountEmails comp).1)) = false ↔
      (st.components.map Prod.fst ++ [componentInstance cal zones comp.1]).Nodup := by
    rw [nodup_append]
    simp [hnodup, readComponent]
  constructor
  · intro h
    simp only [snapshotComponent, hobject, if_true] at h
    cases htype : st.expectObjectType.any (· ≠ comp.1.componentType) with
    | true => rw [htype] at h; cases h
    | false =>
      rw [htype] at h
      cases hread : comp.1.entries.zipIdx.foldlM (snapshotEntry cal zones accountEmails force)
          { organizer := st.organizer, uid := st.uid, hasLocalEmails := st.hasLocalEmails
            instanceId := .main, snapshot := { compId := comp.2.toUInt16, comp := comp.1 } } with
      | error e =>
        rw [hread] at h
        cases h
      | ok read =>
        obtain ⟨haccepts, rfl⟩ := hentries.1 hread
        rw [hread, hafter] at h
        cases hinstance : st.components.any
            (·.1 = (readComponent cal zones accountEmails comp).1) with
        | true =>
          simp only [bind, Except.bind, hinstance] at h
          cases h
        | false =>
          simp only [bind, Except.bind, pure, Except.pure, hinstance] at h
          refine ⟨⟨by simpa [componentOrganizers] using haccepts.agent,
            by simpa [componentOrganizers] using haccepts.organizer,
            by simpa [componentUids, filterMap_zipIdx] using haccepts.uid,
            by simpa using htypes.1 htype, by simpa using hinstances.1 hinstance⟩, ?_⟩
          cases h
          rfl
  · rintro ⟨⟨hagent, horganizer, huid, htype, hinstance⟩, rfl⟩
    have hread := hentries.2 ⟨⟨by simpa [componentOrganizers] using hagent,
      by simpa [componentOrganizers] using horganizer,
      by simpa [componentUids, filterMap_zipIdx] using huid⟩, rfl⟩
    simp only [snapshotComponent, hobject, hread, hafter, htypes.2 htype,
      hinstances.2 hinstance, bind, Except.bind]
    rfl

theorem SnapshotState.acceptsAll_cons {st : SnapshotState} {comp}
    {comps : List (ICalendarComponent × ℕ)} :
    st.AcceptsAll cal zones accountEmails force (comp :: comps) ↔
      st.AcceptsAll cal zones accountEmails force [comp] ∧
        (st.after cal zones accountEmails force [comp]).AcceptsAll cal zones accountEmails force
          comps := by
  have hor {α β : Type} (f : α → β) (slot read : Option α) :
      (slot.or read).map f = (slot.map f).or (read.map f) := Option.map_or
  have horganizer := uniform_append (st.organizer.map (·.email.email))
    ((componentOrganizers cal accountEmails comp).map (·.email.email))
    ((comps.flatMap (componentOrganizers cal accountEmails)).map (·.email.email))
  have huid := uniform_append st.uid (componentUids cal comp) (comps.flatMap (componentUids cal))
  have htype := uniform_append st.expectObjectType [comp.1.componentType]
    (comps.map (·.1.componentType))
  constructor
  · rintro ⟨h₁, h₂, h₃, h₄, h₅⟩
    have h₂ := horganizer.1 (by simpa using h₂)
    have h₃ := huid.1 (by simpa using h₃)
    have h₄ := htype.1 (by simpa using h₄)
    refine ⟨⟨fun part hpart => h₁ part ?_, by simpa using h₂.1, by simpa using h₃.1,
      by simpa using h₄.1, ?_⟩, fun part hpart => h₁ part ?_, ?_, ?_, ?_, ?_⟩
    · simp at hpart ⊢
      exact .inl hpart
    · exact h₅.sublist (List.Sublist.append_left (by simp) _)
    · exact mem_append_right _ hpart
    · simpa [SnapshotState.after, hor] using h₂.2
    · simpa [SnapshotState.after] using h₃.2
    · simpa [SnapshotState.after] using h₄.2
    · simpa [SnapshotState.after, readComponent] using h₅
  · rintro ⟨⟨h₁, h₂, h₃, h₄, -⟩, h₁', h₂', h₃', h₄', h₅'⟩
    have h₂ := horganizer.2 ⟨by simpa using h₂, by simpa [SnapshotState.after, hor] using h₂'⟩
    have h₃ := huid.2 ⟨by simpa using h₃, by simpa [SnapshotState.after] using h₃'⟩
    have h₄ := htype.2 ⟨by simpa using h₄, by simpa [SnapshotState.after] using h₄'⟩
    refine ⟨fun part hpart => ?_, by simpa using h₂, by simpa using h₃, by simpa using h₄,
      by simpa [SnapshotState.after, readComponent] using h₅'⟩
    rw [flatMap_cons, mem_append] at hpart
    exact hpart.elim (fun hpart => h₁ part (by simpa using hpart)) (h₁' part)

theorem SnapshotState.after_nil (st : SnapshotState) :
    st.after cal zones accountEmails force [] = st := by
  simp [SnapshotState.after]

theorem SnapshotState.after_cons (st : SnapshotState) (comp : ICalendarComponent × ℕ)
    (comps : List (ICalendarComponent × ℕ)) :
    (st.after cal zones accountEmails force [comp]).after cal zones accountEmails force comps =
      st.after cal zones accountEmails force (comp :: comps) := by
  simp only [SnapshotState.after, flatMap_cons, flatMap_nil, append_nil,
    head?_append, Option.or_assoc, append_assoc, any_append]
  congr 1
  ac_rfl

/-- **The loop over the components of an object.** -/
theorem foldlM_snapshotComponent_eq_ok_iff {st st' : SnapshotState}
    {comps : List (ICalendarComponent × ℕ)} (hnodup : (st.components.map Prod.fst).Nodup) :
    comps.foldlM (snapshotComponent cal zones accountEmails force) st = .ok st' ↔
      st.AcceptsAll cal zones accountEmails force
          (comps.filter fun comp => cal.isSchedulingObject comp.1.componentType) ∧
        st' = st.after cal zones accountEmails force
          (comps.filter fun comp => cal.isSchedulingObject comp.1.componentType) := by
  induction comps generalizing st with
  | nil =>
    have hall : st.AcceptsAll cal zones accountEmails force [] :=
      ⟨by simp, by simpa using uniform_append_nil _, by simpa using uniform_append_nil _,
        by simpa using uniform_append_nil _, by simpa using hnodup⟩
    simp [hall, SnapshotState.after_nil, eq_comm, pure, Except.pure]
  | cons comp comps ih =>
    cases hobject : cal.isSchedulingObject comp.1.componentType with
    | false =>
      have hskip : snapshotComponent cal zones accountEmails force st comp = .ok st := by
        simp [snapshotComponent, hobject, pure, Except.pure]
      rw [foldlM_cons, hskip, filter_cons_of_neg (by simp [hobject])]
      exact ih hnodup
    | true =>
      rw [filter_cons_of_pos (by simpa using hobject), SnapshotState.acceptsAll_cons,
        foldlM_cons]
      have hcomp {next : SnapshotState} :
          snapshotComponent cal zones accountEmails force st comp = .ok next ↔ _ :=
        snapshotComponent_eq_ok_iff cal zones accountEmails force hobject hnodup
      have hnodup' (haccepts : st.AcceptsAll cal zones accountEmails force [comp]) :
          ((st.after cal zones accountEmails force [comp]).components.map Prod.fst).Nodup := by
        simpa [SnapshotState.after, readComponent] using haccepts.instances
      constructor
      · intro h
        cases hnext : snapshotComponent cal zones accountEmails force st comp with
        | error e => rw [hnext] at h; cases h
        | ok next =>
          rw [hnext] at h
          obtain ⟨haccepts, rfl⟩ := hcomp.1 hnext
          obtain ⟨hrest, hst'⟩ := (ih (hnodup' haccepts)).1 h
          exact ⟨⟨haccepts, hrest⟩, hst'.trans (SnapshotState.after_cons ..)⟩
      · rintro ⟨⟨haccepts, hrest⟩, hst'⟩
        rw [← SnapshotState.after_cons] at hst'
        rw [hcomp.2 ⟨haccepts, rfl⟩]
        exact (ih (hnodup' haccepts)).2 ⟨hrest, hst'⟩

end ComponentLoop

/-! ## What a snapshot is -/

/-- The scheduling objects of a calendar object with their positions. -/
def schedulingComponents (cal : Calcard) (ical : ICalendar) : List (ICalendarComponent × ℕ) :=
  ical.components.zipIdx.filter fun comp => cal.isSchedulingObject comp.1.componentType

/-- The snapshot of an object, read off its entries, which do not contradict each other; the account
takes part in it, and every instance has its own component. -/
structure IsSnapshot (cal : Calcard) (ical : ICalendar) (accountEmails : List String)
    (force : Bool) (snapshots : ItipSnapshots) : Prop where
  agent : ∀ part ∈ (schedulingComponents cal ical).flatMap (componentOrganizers cal accountEmails),
    part.isServerScheduling ∨ force
  organizers : Uniform (((schedulingComponents cal ical).flatMap
    (componentOrganizers cal accountEmails)).map (·.email.email))
  uids : Uniform ((schedulingComponents cal ical).flatMap (componentUids cal))
  objectType : Uniform ((schedulingComponents cal ical).map (·.1.componentType))
  instances : ((schedulingComponents cal ical).map fun comp =>
    componentInstance cal ical.zones comp.1).Nodup
  party :
    (((schedulingComponents cal ical).flatMap (componentOrganizers cal accountEmails)).any
      (·.email.isLocal) ||
    ((schedulingComponents cal ical).flatMap (componentAttendees cal accountEmails)).any
      (Attendee.isParty force))
  organizer : ((schedulingComponents cal ical).flatMap
    (componentOrganizers cal accountEmails)).head? = some snapshots.organizer
  uid : ((schedulingComponents cal ical).flatMap (componentUids cal)).head? = some snapshots.uid
  components : snapshots.components =
    (schedulingComponents cal ical).map (readComponent cal ical.zones accountEmails)

section

variable {cal : Calcard} {ical : ICalendar} {accountEmails : List String} {force : Bool}
  {snapshots : ItipSnapshots}

/-- **Which objects have a snapshot, and which one.** -/
theorem itipSnapshot_eq_ok_iff : itipSnapshot cal ical accountEmails force = .ok snapshots ↔
      IsSnapshot cal ical accountEmails force snapshots := by
  have hloop {st : SnapshotState} :
      ical.components.zipIdx.foldlM (snapshotComponent cal ical.zones accountEmails force) {} =
          .ok st ↔
        ({} : SnapshotState).AcceptsAll cal ical.zones accountEmails force
            (schedulingComponents cal ical) ∧
          st = ({} : SnapshotState).after cal ical.zones accountEmails force
            (schedulingComponents cal ical) :=
    foldlM_snapshotComponent_eq_ok_iff cal ical.zones accountEmails force nodup_nil
  constructor
  · intro h
    simp only [itipSnapshot, bind, Except.bind] at h
    split at h
    · cases h
    cases hst : ical.components.zipIdx.foldlM
        (snapshotComponent cal ical.zones accountEmails force) {} with
    | error e => rw [hst] at h; cases h
    | ok st =>
      obtain ⟨⟨hagent, horganizers, huids, htypes, hinstances⟩, rfl⟩ := hloop.1 hst
      rw [hst] at h
      simp only [SnapshotState.after, Bool.false_or, Option.none_or, nil_append] at h
      split at h
      · rename_i hparty
        split at h
        · cases h
        · cases h
        · rename_i organizer uid horganizer huid
          cases h
          exact ⟨hagent, by simpa using horganizers, by simpa using huids, by simpa using htypes,
            by simpa using hinstances, hparty, horganizer, huid, rfl⟩
      · cases h
  · intro h
    have hloop := hloop.2 ⟨⟨h.agent, by simpa using h.organizers, by simpa using h.uids,
      by simpa using h.objectType, by simpa using h.instances⟩, rfl⟩
    have hstart : (ical.components.any fun comp =>
        cal.isSchedulingObject comp.componentType && comp.entries.any (·.name = .organizer)) =
          true := by
      obtain ⟨comp, hcomp, hpart⟩ := mem_flatMap.1 (mem_of_head? h.organizer)
      obtain ⟨entry, hentry, hread⟩ := mem_filterMap.1 hpart
      obtain ⟨hcomp, hobject⟩ := mem_filter.1 hcomp
      have hname : entry.1.name = .organizer := by
        by_contra hname
        simp [readOrganizer, hname] at hread
      refine any_eq_true.2 ⟨comp.1, fst_mem_of_mem_zipIdx hcomp, ?_⟩
      rw [hobject]
      exact any_eq_true.2 ⟨entry.1, fst_mem_of_mem_zipIdx hentry, by simpa using hname⟩
    simp only [itipSnapshot, hstart, hloop, SnapshotState.after, Bool.false_or, Option.none_or,
      h.party, h.organizer, h.uid, ← h.components]
    rfl

theorem IsSnapshot.components_ne_nil (h : IsSnapshot cal ical accountEmails force snapshots) :
    snapshots.components ≠ [] := by
  obtain ⟨comp, hcomp, -⟩ := mem_flatMap.1 (mem_of_head? h.organizer)
  rw [h.components]
  exact ne_nil_of_mem (mem_map_of_mem hcomp)

end

/-! ## Iteration orders -/

/-- The same snapshot, its sets listed in another order. -/
structure ItipSnapshot.Reorders (snapshot other : ItipSnapshot) : Prop where
  compId : snapshot.compId = other.compId
  comp : snapshot.comp = other.comp
  attendees : snapshot.attendees.Perm other.attendees
  dtstamp : snapshot.dtstamp = other.dtstamp
  entries : snapshot.entries.Perm other.entries
  sequence : snapshot.sequence = other.sequence
  requestStatus : snapshot.requestStatus = other.requestStatus

theorem ItipSnapshot.Reorders.refl (snapshot : ItipSnapshot) : snapshot.Reorders snapshot :=
  ⟨rfl, rfl, .refl _, rfl, .refl _, rfl, rfl⟩

/-- The snapshot of an object, its maps and sets listed in any order. -/
structure ReadFrom (cal : Calcard) (accountEmails : List String) (ical : ICalendar)
    (snapshots : ItipSnapshots) : Prop where
  read : ∃ other, itipSnapshot cal ical accountEmails false = .ok other ∧
    snapshots.organizer = other.organizer ∧ snapshots.uid = other.uid ∧
    ∃ ordered, ordered.Perm other.components ∧
      List.Forall₂ (fun x y => x.1 = y.1 ∧ x.2.Reorders y.2) snapshots.components ordered

theorem keys_eq_of_forall₂ {xs ys : List (InstanceId × ItipSnapshot)}
    (h : List.Forall₂ (fun x y => x.1 = y.1 ∧ x.2.Reorders y.2) xs ys) :
    xs.map Prod.fst = ys.map Prod.fst := by
  induction h with
  | nil => rfl
  | cons hxy _ ih => rw [map_cons, map_cons, hxy.1, ih]

section ReadFrom

variable {cal : Calcard} {accountEmails : List String} {ical : ICalendar}
  {snapshots : ItipSnapshots}

theorem ReadFrom.of_snapshot (h : itipSnapshot cal ical accountEmails false = .ok snapshots) :
    ReadFrom cal accountEmails ical snapshots :=
  ⟨snapshots, h, rfl, rfl, _, .refl _, forall₂_same.2 fun _ _ => ⟨rfl, .refl _⟩⟩

theorem ReadFrom.keys_perm (h : ReadFrom cal accountEmails ical snapshots) :
    (snapshots.components.map Prod.fst).Perm ((schedulingComponents cal ical).map fun comp =>
      componentInstance cal ical.zones comp.1) := by
  obtain ⟨other, hother, -, -, ordered, hperm, hforall⟩ := h.read
  rw [keys_eq_of_forall₂ hforall]
  refine (hperm.map _).trans ?_
  rw [(itipSnapshot_eq_ok_iff.1 hother).components, map_map]
  exact .refl _

theorem ReadFrom.nodup_keys (h : ReadFrom cal accountEmails ical snapshots) :
    (snapshots.components.map Prod.fst).Nodup := by
  obtain ⟨other, hother, -⟩ := h.read
  exact h.keys_perm.nodup_iff.2 (itipSnapshot_eq_ok_iff.1 hother).instances

theorem ReadFrom.components_ne_nil (h : ReadFrom cal accountEmails ical snapshots) :
    snapshots.components ≠ [] := by
  obtain ⟨other, hother, -⟩ := h.read
  intro hnil
  have hkeys := h.keys_perm
  rw [hnil, map_nil, nil_perm, map_eq_nil_iff] at hkeys
  have hne := (itipSnapshot_eq_ok_iff.1 hother).components_ne_nil
  rw [(itipSnapshot_eq_ok_iff.1 hother).components, hkeys] at hne
  exact hne rfl

end ReadFrom

end MailServer.Scheduling
