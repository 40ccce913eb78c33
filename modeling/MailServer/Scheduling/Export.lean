import MailServer.Scheduling.Snapshot
import Mathlib.Algebra.Group.Nat.Defs

/-!
# The messages an organizer sends

The components that go into an outgoing scheduling message, and `organizerRequestFull`, the message
that carries a whole event to everyone who takes part in it. The summaries that accompany the
messages for display are left out.
-/

namespace MailServer.Scheduling

/-- `ItipMessage` without the summary. -/
structure ItipMessage where
  sender : String
  fromOrganizer : Bool
  recipients : List String
  message : ICalendar

def itipBuildEnvelope (method : ICalendarMethod) : ICalendarComponent where
  componentType := .vCalendar
  entries := [
    { name := .version, params := [], values := [.text "2.0"] },
    { name := .prodid, params := []
      values := [.text "-//Stalwart Labs LLC//Stalwart Server//EN"] },
    { name := .method, params := [], values := [.method method] }]
  componentIds := []

inductive ItipExportAs
  | organizer (partstat : ICalendarParticipationStatus)
  | attendee (entryIds : List UInt16)

/-- The parameters that tell a server how to deliver a message. -/
def ICalendarParameterName.isDelivery : ICalendarParameterName → Bool
  | .scheduleStatus | .scheduleAgent | .scheduleForceSend => true
  | _ => false

/-- The `RSVP` flag as the loop over the parameters leaves it. -/
def exportRsvp (params : List ICalendarParameter) : Bool :=
  params.foldl (fun rsvp param =>
    if param.name = .rsvp then param.value ≠ .bool false else rsvp) true

/-- One turn of the loop of `itip_export_component`: the entry as it goes into the message. -/
def exportEntry (isTodo : Bool) (exportAs : ItipExportAs) (entry : ICalendarEntry × ℕ) :
    List ICalendarEntry :=
  let deliverable := entry.1.params.filter fun param => !param.name.isDelivery
  if entry.1.name = .organizer ∨ entry.1.name = .attendee then
    match exportAs with
    | .organizer partstat =>
      let hasPartstat := deliverable.any (·.name = .partstat)
      let partstatParam : List ICalendarParameter :=
        if !hasPartstat && exportRsvp deliverable && entry.1.name = .attendee then
          [{ name := .partstat, value := .partstat partstat }]
        else []
      [{ name := entry.1.name, params := deliverable ++ partstatParam, values := entry.1.values }]
    | .attendee entryIds =>
      if entryIds.contains entry.2.toUInt16 || entry.1.name = .organizer then
        [{ name := entry.1.name, params := deliverable, values := entry.1.values }]
      else []
  else match entry.1.name, exportAs with
    | .requestStatus, _ | .dtstamp, _ | .sequence, _ | .uid, _ => []
    | _, .organizer _ => [entry.1]
    | .recurrenceId, _ | .dtstart, _ | .dtend, _ | .duration, _ | .due, _ | .description, _
    | .summary, _ => [entry.1]
    | .status, _ | .percentComplete, _ | .completed, _ => if isTodo then [entry.1] else []
    | _, _ => []

def itipExportComponent (cal : Calcard) (component : ICalendarComponent) (uid : String)
    (dtStamp : PartialDateTime) (sequence : ℤ) (exportAs : ItipExportAs) : ICalendarComponent :=
  let isTodo := component.componentType = .vTodo
  let requestStatus : List ICalendarEntry :=
    match exportAs with
    | .organizer _ => []
    | .attendee _ =>
      [{ name := .requestStatus, params := [], values := [.text "2.0", .text "Success"] }]
  { componentType := component.componentType
    entries := [cal.dtstampEntry dtStamp, cal.sequenceEntry sequence, cal.uidEntry uid] ++
      component.entries.zipIdx.flatMap (exportEntry isTodo exportAs) ++ requestStatus
    componentIds := [] }

/-- One turn of the loop that copies time zones and alarms: the ids still to be copied, and the
components of the message. -/
def copyComponent (copied : List ℕ × List ICalendarComponent) (comp : ICalendarComponent × ℕ) :
    List ℕ × List ICalendarComponent :=
  if comp.1.componentType = .vTimezone then
    (copied.1 ++ comp.1.componentIds, copied.2.set comp.2 comp.1)
  else if copied.1.contains comp.2 then (copied.1, copied.2.set comp.2 comp.1)
  else copied

/-- The instances that are sent; private ones, without attendees, are skipped. -/
def ItipSnapshots.shared (itip : ItipSnapshots) : List ItipSnapshot :=
  (itip.components.map Prod.snd).filter fun comp => !comp.attendees.isEmpty

/-- The addresses of the attendees that a message about the whole event goes to. -/
def ItipSnapshots.recipients (itip : ItipSnapshots) (isFirstRequest : Bool) : List String :=
  (itip.shared.flatMap fun comp =>
    (comp.attendees.filter fun attendee =>
      (isFirstRequest && attendee.sendInviteMessages) ||
        (!isFirstRequest && attendee.sendUpdateMessages)).map (·.email.email)).dedup

/-- The alarms of a component, which only the first message carries. -/
def requestAlarms (ical : ICalendar) (isFirstRequest : Bool) (comp : ItipSnapshot) : List ℕ :=
  if isFirstRequest then
    (ical.component comp.compId.toNat).componentIds.filter fun id =>
      (ical.component id).componentType = .vAlarm
  else []

/-- `n + 1` for a 64-bit signed integer, which wraps around. -/
def i64Succ (n : ℤ) : ℤ := Int.bmod (n + 1) (2 ^ 64)

/-- The component of a message about the whole event, for one instance. -/
def requestComponent (cal : Calcard) (now : PartialDateTime) (ical : ICalendar)
    (itip : ItipSnapshots) (incrementSequence isFirstRequest : Bool) (comp : ItipSnapshot) :
    ICalendarComponent :=
  let sequence :=
    if incrementSequence then i64Succ (comp.sequence.getD 0) else comp.sequence.getD 0
  { itipExportComponent cal (ical.component comp.compId.toNat) itip.uid now sequence
      (.organizer .needsAction) with
    componentIds := requestAlarms ical isFirstRequest comp }

/-- `organizer_request_full`: the component ids whose sequence is to be incremented, and the
message. -/
def organizerRequestFull (cal : Calcard) (now : PartialDateTime) (ical : ICalendar)
    (itip : ItipSnapshots) (incrementSequence isFirstRequest : Bool) :
    List UInt16 × Except ItipError (List ItipMessage) :=
  let rootIds := itip.shared.map (·.compId.toNat) ++
    (ical.components.zipIdx.filter (·.1.componentType = .vTimezone)).map Prod.snd
  -- every component keeps the position that it has in the calendar object
  let placed := itip.shared.foldl
    (fun message comp => message.set comp.compId.toNat
      (requestComponent cal now ical itip incrementSequence isFirstRequest comp))
    ((ical.components.map fun _ => default).set 0 (itipBuildEnvelope .request))
  let components := (ical.components.zipIdx.foldl copyComponent
    (itip.shared.flatMap (requestAlarms ical isFirstRequest), placed)).2
  (if incrementSequence then itip.shared.map (·.compId) else [],
    if (itip.recipients isFirstRequest).isEmpty then .error .nothingToSend
    else .ok [{
      sender := itip.organizer.email.email
      fromOrganizer := true
      recipients := itip.recipients isFirstRequest
      message := { components := components.modify 0 fun root =>
        { root with componentIds := (root.componentIds ++ rootIds).mergeSort } } }])

end MailServer.Scheduling
