import Mathlib.Data.List.Nodup
import Mathlib.Data.Int.Notation

/-!
# iCalendar objects and the participants of a scheduling message

The calendar objects are those of the `calcard` crate, reduced to what the scheduling code
compares or reads: an object is a flat list of components that refer to their sub-components by
position, a component is a list of entries, an entry has parameters and values.

What `calcard` computes on them is a parameter (`Calcard`).

`Email.new` is the normalisation of calendar addresses of `scheduling/mod.rs`.
-/

namespace MailServer.Scheduling

/-! ## Calendar objects -/

inductive ICalendarComponentType
  | vCalendar | vEvent | vTodo | vJournal | vFreebusy | vTimezone | vAlarm | standard | daylight
  | other (name : String)
deriving DecidableEq

/-- The properties that the scheduling code names; `known` stands for the other registered ones
and `other` for `ICalendarProperty::Other`. -/
inductive ICalendarProperty
  | attendee | comment | completed | created | description | dtend | dtstamp | dtstart | due
  | duration | exdate | lastModified | location | method | organizer | percentComplete | priority
  | prodid | rdate | recurrenceId | requestStatus | rrule | sequence | status | summary | uid
  | version
  | known (name : String)
  | other (name : String)
deriving DecidableEq

inductive ICalendarMethod
  | publish | request | reply | add | cancel | refresh | counter | declineCounter
  | other (name : String)
deriving DecidableEq

inductive ICalendarStatus
  | tentative | confirmed | cancelled | needsAction | completed | inProcess | draft | final
  | other (name : String)
deriving DecidableEq

inductive ICalendarParticipationStatus
  | needsAction | accepted | declined | tentative | delegated | completed | inProcess | failed
  | other (name : String)
deriving DecidableEq

inductive ICalendarParticipationRole
  | chair | reqParticipant | optParticipant | nonParticipant | other (name : String)
deriving DecidableEq

inductive ICalendarUserTypes
  | individual | group | resource | room | unknown | other (name : String)
deriving DecidableEq

inductive ICalendarScheduleAgentValue
  | server | client | none | other (name : String)
deriving DecidableEq

inductive ICalendarScheduleForceSendValue
  | request | reply | other (name : String)
deriving DecidableEq

inductive Uri
  | location (uri : String)
  | data (contents : String)
deriving DecidableEq

inductive ICalendarParameterName
  | cn | cutype | delegatedFrom | delegatedTo | partstat | range | role | rsvp | scheduleAgent
  | scheduleForceSend | scheduleStatus | sentBy | tzid
  | other (name : String)
deriving DecidableEq

inductive ICalendarParameterValue
  | text (text : String)
  | bool (value : Bool)
  | uri (uri : Uri)
  | scheduleAgent (agent : ICalendarScheduleAgentValue)
  | scheduleForceSend (value : ICalendarScheduleForceSendValue)
  | partstat (value : ICalendarParticipationStatus)
  | cutype (value : ICalendarUserTypes)
  | role (value : ICalendarParticipationRole)
  | other (text : String)
deriving DecidableEq

structure ICalendarParameter where
  name : ICalendarParameterName
  value : ICalendarParameterValue
deriving DecidableEq

structure PartialDateTime where
  year : Option ℕ := none
  month : Option ℕ := none
  day : Option ℕ := none
  hour : Option ℕ := none
  minute : Option ℕ := none
  second : Option ℕ := none
  tzHour : Option ℕ := none
  tzMinute : Option ℕ := none
  tzMinus : Bool := false
deriving DecidableEq

/-- Durations, periods and recurrence rules are only ever compared. -/
inductive ICalendarValue
  | text (text : String)
  | integer (value : ℤ)
  | uri (uri : Uri)
  | partialDateTime (date : PartialDateTime)
  | duration (duration : String)
  | recurrenceRule (rule : String)
  | period (period : String)
  | status (status : ICalendarStatus)
  | method (method : ICalendarMethod)
  | other (text : String)
deriving DecidableEq

structure ICalendarEntry where
  name : ICalendarProperty
  params : List ICalendarParameter
  values : List ICalendarValue
deriving DecidableEq

structure ICalendarComponent where
  componentType : ICalendarComponentType
  entries : List ICalendarEntry
  /-- Positions of the sub-components in the calendar object. -/
  componentIds : List ℕ
deriving DecidableEq

/-- `ICalendarComponent::default()`. -/
instance : Inhabited ICalendarComponent := ⟨⟨.vCalendar, [], []⟩⟩

structure ICalendar where
  components : List ICalendarComponent

/-- `ical.components[id]`. -/
def ICalendar.component (ical : ICalendar) (id : ℕ) : ICalendarComponent :=
  ical.components.getD id default

/-- A time zone definition: the entries of a `VTIMEZONE` and those of its observances. -/
structure Zone where
  entries : List ICalendarEntry
  observances : List (List ICalendarEntry)

def ICalendarComponentType.isObservance : ICalendarComponentType → Bool
  | .standard | .daylight => true
  | _ => false

/-- The time zone definitions of an object, which is all that its resolver is built from. -/
def ICalendar.zones (ical : ICalendar) : List Zone :=
  (ical.components.filter (·.componentType = .vTimezone)).map fun zone =>
    { entries := zone.entries
      observances := (zone.componentIds.map ical.component).filterMap fun observance =>
        if observance.componentType.isObservance then some observance.entries else none }

/-- What the `calcard` crate provides. -/
structure Calcard where
  isSchedulingObject : ICalendarComponentType → Bool
  asText : ICalendarValue → Option String
  asInteger : ICalendarValue → Option ℤ
  asPartialDateTime : ICalendarValue → Option PartialDateTime
  /-- `ICalendarEntry::tz_id`. -/
  tzId : ICalendarEntry → Option String
  /-- The timestamp of a date in the zone of that name, among the zones of the object. -/
  timestamp : List Zone → Option String → PartialDateTime → ℤ
  removeComponentIds : ICalendar → List ℕ → ICalendar
  /-- `ICalendar::copy_timezones`: the first object with the time zones of the second. -/
  copyTimezones : ICalendar → ICalendar → ICalendar
  /-- `ICalendarComponent::status`. -/
  status : ICalendarComponent → Option ICalendarStatus
  /-- The entries that `add_dtstamp`, `add_sequence`, `add_uid` and `add_property` append. -/
  dtstampEntry : PartialDateTime → ICalendarEntry
  sequenceEntry : ℤ → ICalendarEntry
  uidEntry : String → ICalendarEntry
  propertyEntry : ICalendarProperty → ICalendarValue → ICalendarEntry
  /-- `str::to_lowercase`, the Unicode lower case of a text. -/
  toLowercase : List Char → List Char

/-! ## Calendar addresses -/

def isWhitespace (c : Char) : Bool :=
  let code := c.toNat
  (9 ≤ code && code ≤ 13) || (0x2000 ≤ code && code ≤ 0x200A) ||
    [0x20, 0x85, 0xA0, 0x1680, 0x2028, 0x2029, 0x202F, 0x205F, 0x3000].contains code

def trim (text : List Char) : List Char :=
  ((text.dropWhile isWhitespace).reverse.dropWhile isWhitespace).reverse

/-- `str::trim_start_matches` for a text; the fuel is the length of the text. -/
def trimStartMatches (pattern : List Char) : ℕ → List Char → List Char
  | 0, text => text
  | fuel + 1, text =>
    if pattern.isPrefixOf text then trimStartMatches pattern fuel (text.drop pattern.length)
    else text

structure Email where
  email : String
  isLocal : Bool

def Email.new (cal : Calcard) (email : String) (localAddresses : List String) : Option Email :=
  if email.toList.contains '@' then
    let text := trim email.toList
    let email := String.ofList
      (cal.toLowercase (trimStartMatches "mailto:".toList text.length text))
    some { email, isLocal := localAddresses.contains email }
  else none

def Email.fromUri (cal : Calcard) (uri : Uri) (localAddresses : List String) : Option Email :=
  match uri with
  | .location uri => Email.new cal uri localAddresses
  | .data _ => none

/-- `impl Display for Email`. -/
def Email.toString (email : Email) : String := "mailto:" ++ email.email

structure Organizer where
  entryId : UInt16
  email : Email
  isServerScheduling : Bool
  forceSend : Option ICalendarScheduleForceSendValue

structure Attendee where
  entryId : UInt16
  email : Email
  partStat : Option ICalendarParticipationStatus
  delegatedFrom : List Email
  delegatedTo : List Email
  role : Option ICalendarParticipationRole
  cuType : Option ICalendarUserTypes
  sentBy : Option Email
  rsvp : Option Bool
  isServerScheduling : Bool
  forceSend : Option ICalendarScheduleForceSendValue

/-- The part of an attendee that `impl PartialEq for Attendee` compares; addresses compare by
their text. -/
structure AttendeeKey where
  email : String
  partStat : Option ICalendarParticipationStatus
  delegatedFrom : List String
  delegatedTo : List String
  role : Option ICalendarParticipationRole
  cuType : Option ICalendarUserTypes
  sentBy : Option String
deriving DecidableEq

def Attendee.key (attendee : Attendee) : AttendeeKey where
  email := attendee.email.email
  partStat := attendee.partStat
  delegatedFrom := attendee.delegatedFrom.map Email.email
  delegatedTo := attendee.delegatedTo.map Email.email
  role := attendee.role
  cuType := attendee.cuType
  sentBy := attendee.sentBy.map Email.email

def Attendee.sendInviteMessages (attendee : Attendee) : Bool :=
  !attendee.email.isLocal && attendee.isServerScheduling && attendee.rsvp.getD true &&
    (attendee.forceSend.isSome || attendee.partStat.all (· = .needsAction))

def Attendee.sendUpdateMessages (attendee : Attendee) : Bool :=
  !attendee.email.isLocal && attendee.isServerScheduling && attendee.rsvp.getD true &&
    (attendee.forceSend.isSome || attendee.partStat.all (· ≠ .declined))

theorem Attendee.sendUpdateMessages_of_invite {attendee : Attendee}
    (h : attendee.sendInviteMessages) : attendee.sendUpdateMessages := by
  simp only [sendInviteMessages, sendUpdateMessages, Bool.and_eq_true, Bool.or_eq_true] at h ⊢
  refine ⟨h.1, h.2.imp_right fun hstat => ?_⟩
  cases hpart : attendee.partStat with
  | none => rfl
  | some status =>
    rw [hpart] at hstat
    obtain rfl : status = .needsAction := by simpa using hstat
    rfl

/-! ## Errors -/

inductive ItipError
  | noSchedulingInfo | otherSchedulingAgent | notOrganizer | notOrganizerNorAttendee
  | nothingToSend | missingUid | multipleUid | multipleOrganizer | multipleObjectTypes
  | multipleObjectInstances
  | cannotModifyProperty (property : ICalendarProperty)
  | cannotModifyInstance | cannotModifyAddress | organizerMismatch | missingMethod
  | invalidComponentType | outOfSequence | organizerIsLocalAddress
  | senderIsNotOrganizerNorAttendee
  | senderIsNotParticipant (sender : String)
  | unknownParticipant (participant : String)
  | unsupportedMethod (method : ICalendarMethod)
  | iCalendarParseError | eventNotFound | eventTooLarge | quotaExceeded | noDefaultCalendar
  | autoAddDisabled

/-! ## A concrete instance -/

/-- The days from 1970-01-01 to a date of the Gregorian calendar, by shifting the year to begin in
March. -/
def daysFromCivil (year month day : ℤ) : ℤ :=
  let y := if month ≤ 2 then year - 1 else year
  let era := y / 400
  let yearOfEra := y - era * 400
  let dayOfYear := (153 * (if month > 2 then month - 3 else month + 9) + 2) / 5 + day - 1
  era * 146097 + (yearOfEra * 365 + yearOfEra / 4 - yearOfEra / 100 + dayOfYear) - 719468

/-- The offset from UTC of a place without daylight saving time. -/
def placeOffset : String → Option ℤ
  | "Africa/Lagos" => some 3600
  | "Asia/Tokyo" => some 32400
  | _ => none

/-- The offset in seconds of the zone of that name: the place that a definition of the name gives
with `X-LIC-LOCATION`, or the place of that name; the offsets of its observances are not read. -/
def zoneOffset (zones : List Zone) (tzId : Option String) : ℤ :=
  let named (zone : Zone) : Bool := zone.entries.any fun entry =>
    entry.name = .known "TZID" && entry.values.head? = (tzId.map .text)
  let places := (zones.filter named).flatMap fun zone => zone.entries.filterMap fun entry =>
    match entry.name, entry.values.head? with
    | .other "X-LIC-LOCATION", some (.text place) => placeOffset place
    | _, _ => none
  (places.head? <|> tzId.bind placeOffset).getD 0

/-- Calendar objects read plainly: the zones of an object by the place that
they name, UTC for other names. -/
def Calcard.plain : Calcard where
  isSchedulingObject
    | .vEvent | .vTodo | .vJournal | .vFreebusy => true
    | _ => false
  asText
    | .text text => some text
    | .uri (.location uri) => some uri
    | _ => none
  asInteger
    | .integer value => some value
    | _ => none
  asPartialDateTime
    | .partialDateTime date => some date
    | _ => none
  tzId entry := entry.params.findSome? fun param =>
    match param.name, param.value with
    | .tzid, .text id => some id
    | _, _ => none
  timestamp zones tzId date :=
    daysFromCivil (date.year.getD 1970) (date.month.getD 1) (date.day.getD 1) * 86400 +
      date.hour.getD 0 * 3600 + date.minute.getD 0 * 60 + date.second.getD 0 -
      zoneOffset zones tzId
  removeComponentIds ical ids :=
    { components := (ical.components.zipIdx.filter fun comp => !ids.contains comp.2).map
        fun comp => { comp.1 with
          componentIds := (comp.1.componentIds.filter (!ids.contains ·)).map fun id =>
            ((List.range id).filter (!ids.contains ·)).length } }
  copyTimezones message _ := message
  status comp := (comp.entries.filter (·.name = .status)).findSome? fun entry =>
    match entry.values.head? with
    | some (.status status) => some status
    | _ => none
  dtstampEntry date := { name := .dtstamp, params := [], values := [.partialDateTime date] }
  sequenceEntry sequence := { name := .sequence, params := [], values := [.integer sequence] }
  uidEntry uid := { name := .uid, params := [], values := [.text uid] }
  propertyEntry name value := { name, params := [], values := [value] }
  toLowercase text := text.map Char.toLower

end MailServer.Scheduling
