import MailServer.Scheduling.Organizer
import MailServer.Scheduling.Sequence

/-!
# Announced and stored sequence numbers

`itipUpdate` sends the messages of an update and then increments the sequence numbers of the stored
calendar object, at the components whose ids were collected while the messages were built.

Principal results: `sequenceOf_itipFinalize` — what the stored object holds afterwards;
`SentUpdate.announces_iff` — what the messages announce; `announces_stored_iff`, for one update and
for two in succession.
-/

namespace MailServer.Scheduling

open MailServer.Lib List

variable {comp : ICalendarComponent × ℕ} {email : String}

/-! ## The stored object -/

/-- The entries of a scheduling object without the parameter that forces a message. -/
def dropForceSend (entries : List ICalendarEntry) : List ICalendarEntry :=
  entries.map fun entry =>
    if entry.name = .organizer ∨ entry.name = .attendee then
      { entry with params := entry.params.filter (·.name ≠ .scheduleForceSend) }
    else entry

/-- Increments the first sequence entry, or adds one. -/
def incrementEntries (cal : Calcard) : List ICalendarEntry → List ICalendarEntry
  | [] => [cal.sequenceEntry 1]
  | entry :: rest =>
    if entry.name = .sequence then
      { entry with values := match entry.values with
          | .integer sequence :: values => .integer (i64Succ sequence) :: values
          | _ => [.integer 1] } :: rest
    else entry :: incrementEntries cal rest

def itipFinalize (cal : Calcard) (ical : ICalendar) (ids : List UInt16) : ICalendar :=
  ids.foldl (fun ical id => ical.modifyEntries id (incrementEntries cal))
    { components := ical.components.map fun comp =>
        if cal.isSchedulingObject comp.componentType then
          { comp with entries := dropForceSend comp.entries }
        else comp }

/-! ## The whole update -/

/-- `main_instance_or_default`; a snapshot has an instance. -/
def ItipSnapshots.mainInstanceOrDefault (itip : ItipSnapshots) : Option ItipSnapshot :=
  (itip.get? .main).or (itip.components.head?.map Prod.snd)

/-- The sequence of a cancellation of the whole event. -/
def cancelSequence (itip : ItipSnapshots) : ℤ :=
  ((itip.get? .main).map fun comp => i64Succ (comp.sequence.getD 0)).getD 0

/-- `itip_cancel` by the organizer. -/
def organizerCancel (cal : Calcard) (now : PartialDateTime) (ical : ICalendar)
    (itip : ItipSnapshots) : Except UpdateFailure ItipMessage := do
  let recipients := (itip.components.flatMap fun entry =>
    (entry.2.attendees.filter (·.sendUpdateMessages)).map (·.email.email)).dedup
  let componentType := (itip.components.getLast?.map (·.2.comp.componentType)).getD .vEvent
  if recipients.isEmpty || componentType = .vFreebusy then throw (.error .nothingToSend)
  match itip.mainInstanceOrDefault with
  | none => throw .panic
  | some main =>
    let root := { itipBuildEnvelope .cancel with componentIds := [1] }
    let component := buildCancelComponent cal main.comp (cancelSequence itip) now []
    return {
      sender := itip.organizer.email.email
      fromOrganizer := true
      recipients
      message := itipAddTz cal { components := [root, component] } ical }

/-- The errors of a new version that makes the organizer cancel the event. -/
def ItipError.isNoLongerOrganized : ItipError → Bool
  | .noSchedulingInfo | .notOrganizer | .notOrganizerNorAttendee | .otherSchedulingAgent => true
  | _ => false

/-- `itip_update` on the snapshots of the two versions, with a third one of the old version for
`itip_cancel`: the messages, and the object to be stored. `attendeeHandleUpdate` and
`attendeeCancel` are the other roles. -/
def itipUpdate (cal : Calcard)
    (attendeeHandleUpdate : EventVersions → Except UpdateFailure (List ItipMessage))
    (attendeeCancel : ItipSnapshots → Except UpdateFailure ItipMessage) (now : PartialDateTime)
    (ical oldIcal : ICalendar) (oldItip newItip again : Except ItipError ItipSnapshots) :
    Except UpdateFailure (List ItipMessage × ICalendar) := do
  let oldItip ← oldItip.mapError .error
  match newItip with
  | .ok newItip =>
    let versions : EventVersions := ⟨oldIcal, ical, oldItip, newItip⟩
    if oldItip.organizer.email.email ≠ newItip.organizer.email.email then
      throw (.error .organizerMismatch)
    else if oldItip.organizer.email.isLocal then
      let sent ← organizerHandleUpdate cal now versions
      return (sent.2, itipFinalize cal ical sent.1)
    else
      let messages ← attendeeHandleUpdate versions
      return (messages, itipFinalize cal ical [])
  | .error error =>
    if error.isNoLongerOrganized then
      if oldItip.organizer.email.isLocal then
        let itip ← again.mapError .error
        let message ← if itip.organizer.email.isLocal then organizerCancel cal now oldIcal itip
          else attendeeCancel itip
        return ([message], ical)
      else throw (.error .cannotModifyAddress)
    else throw (.error error)

/-! ## What the stored object holds afterwards -/

/-- What updates rely on in `calcard`: integers are read as such, entries are added with their names
and values, and copying time zones adds no scheduling object. -/
structure Calcard.UpdateLaws (cal : Calcard) : Prop where
  integer : ∀ sequence, cal.asInteger (.integer sequence) = some sequence
  notInteger : ∀ value sequence, cal.asInteger value = some sequence → value = .integer sequence
  dtstampEntry : ∀ date, (cal.dtstampEntry date).name = .dtstamp
  sequenceEntry : ∀ sequence, (cal.sequenceEntry sequence).name = .sequence ∧
    (cal.sequenceEntry sequence).values = [.integer sequence]
  uidEntry : ∀ uid, (cal.uidEntry uid).name = .uid
  copiedContents : ∀ message ical : ICalendar, message.hasRoot →
    (∀ zone ∈ ical.components, zone.componentType = .vTimezone → ∀ id ∈ zone.componentIds,
      (ical.component id).componentType.isObservance) →
    scheduledContents cal (cal.copyTimezones message ical) = scheduledContents cal message
  copiedMethod : ∀ message ical : ICalendar, message.hasRoot →
    itipMethod (cal.copyTimezones message ical) = itipMethod message

/-- Of several sequence entries only the first one is read as a number. -/
def SingleSequence (cal : Calcard) (entries : List ICalendarEntry) : Prop :=
  ((entriesOf .sequence entries).drop 1).filterMap (readSequence cal) = []

instance (cal : Calcard) : DecidablePred (SingleSequence cal) :=
  fun entries => inferInstanceAs
    (Decidable (((entriesOf .sequence entries).drop 1).filterMap (readSequence cal) = []))

section Entries

variable {cal : Calcard}

theorem filterMap_readSequence (cal : Calcard) (entries : List ICalendarEntry) :
    entries.filterMap (readSequence cal) =
      (entriesOf .sequence entries).filterMap (readSequence cal) :=
  (filterMap_entriesOf (fun _ hname => by simp [readSequence, hname]) entries).symm

theorem entriesOf_dropForceSend {property} (horganizer : property ≠ .organizer)
    (hattendee : property ≠ .attendee) (entries : List ICalendarEntry) :
    entriesOf property (dropForceSend entries) = entriesOf property entries := by
  induction entries with
  | nil => rfl
  | cons entry entries ih =>
    unfold entriesOf dropForceSend at ih ⊢
    rw [map_cons]
    split
    · rename_i hname
      have hne : entry.name ≠ property := by
        rcases hname with hname | hname <;> rw [hname] <;> intro heq <;> simp_all
      rw [filter_cons_of_neg (by simpa using hne),
        filter_cons_of_neg (by simpa using hne), ih]
    · rw [filter_cons, filter_cons, ih]

theorem entriesOf_incrementEntries (laws : cal.UpdateLaws) (entries : List ICalendarEntry) :
    entriesOf .sequence (incrementEntries cal entries) =
      incrementEntries cal (entriesOf .sequence entries) := by
  induction entries with
  | nil =>
    have hname : decide ((cal.sequenceEntry 1).name = .sequence) :=
      decide_eq_true (laws.sequenceEntry 1).1
    simp [entriesOf, incrementEntries, hname]
  | cons entry entries ih =>
    by_cases hname : entry.name = .sequence
    · simp [entriesOf, incrementEntries, hname]
    · unfold entriesOf at ih ⊢
      rw [incrementEntries, if_neg hname, filter_cons_of_neg (by simpa using hname),
        filter_cons_of_neg (by simpa using hname), ih]

theorem entriesOf_incrementEntries_of_ne (laws : cal.UpdateLaws) {property}
    (hproperty : property ≠ .sequence) (entries : List ICalendarEntry) :
    entriesOf property (incrementEntries cal entries) = entriesOf property entries := by
  induction entries with
  | nil =>
    have hname : (cal.sequenceEntry 1).name ≠ property := by
      rw [(laws.sequenceEntry 1).1]
      exact hproperty.symm
    simp [entriesOf, incrementEntries, hname]
  | cons entry entries ih =>
    unfold entriesOf at ih ⊢
    rw [incrementEntries]
    split
    · rename_i hname
      have hne : entry.name ≠ property := fun heq => hproperty (heq.symm.trans hname)
      rw [filter_cons_of_neg (by simpa using hne),
        filter_cons_of_neg (by simpa using hne)]
    · rw [filter_cons, filter_cons, ih]

/-- Incrementing takes effect on what is read unless a later sequence entry is read. -/
theorem entriesSequence_incrementEntries (laws : cal.UpdateLaws)
    (entries : List ICalendarEntry) :
    (SingleSequence cal entries → entriesSequence cal (incrementEntries cal entries) =
      i64Succ (entriesSequence cal entries)) ∧
    (¬ SingleSequence cal entries → entriesSequence cal (incrementEntries cal entries) =
      entriesSequence cal entries) := by
  have hone : i64Succ 0 = 1 := by decide
  simp only [entriesSequence]
  rw [filterMap_readSequence, filterMap_readSequence cal entries, entriesOf_incrementEntries laws,
    SingleSequence]
  have hnames : ∀ entry ∈ entriesOf .sequence entries, entry.name = .sequence :=
    fun entry hentry => of_decide_eq_true (mem_filter.1 hentry).2
  cases hown : entriesOf .sequence entries with
  | nil =>
    obtain ⟨hname, hvalues⟩ := laws.sequenceEntry 1
    simp [incrementEntries, readSequence, hname, hvalues, laws.integer, hone]
  | cons entry rest =>
    have hname : entry.name = .sequence := hnames entry (hown ▸ (.head _))
    have hread : ∃ values, incrementEntries cal (entry :: rest) =
        { entry with values } :: rest ∧
        readSequence cal { entry with values } =
          some (i64Succ ((readSequence cal entry).getD 0)) := by
      rw [incrementEntries, if_pos hname]
      refine ⟨_, rfl, ?_⟩
      simp only [readSequence, hname]
      cases hvalues : entry.values with
      | nil => simp [laws.integer, hone]
      | cons value values =>
        cases hvalue : cal.asInteger value with
        | some sequence =>
          obtain rfl := laws.notInteger value sequence hvalue
          simp [laws.integer]
        | none =>
          have hother : ∀ sequence, value ≠ .integer sequence := fun sequence heq => by
            rw [heq, laws.integer] at hvalue
            cases hvalue
          cases value with
          | integer sequence => cases hother sequence rfl
          | _ => simp [laws.integer, hvalue, hone]
    obtain ⟨values, hincrement, hvalue⟩ := hread
    rw [hincrement, drop_one, tail_cons, filterMap_cons_some hvalue]
    constructor
    · intro hrest
      cases hfirst : readSequence cal entry with
      | none | some => simp [hfirst, hrest]
    · intro hrest
      obtain ⟨last, hlast⟩ : ∃ last, (rest.filterMap (readSequence cal)).getLast? = some last :=
        ⟨_, getLast?_eq_some_getLast hrest⟩
      cases hfirst : readSequence cal entry with
      | none | some => simp [getLast?_cons, hfirst, hlast]

end Entries

section Finalize

variable {cal : Calcard} {accountEmails : List String} {ical : ICalendar}
  {snapshots : ItipSnapshots} {ids : List UInt16}

/-- A component of the stored object afterwards: incremented as often as its position is listed. -/
def finalizedComponent (cal : Calcard) (ids : List UInt16) (comp : ICalendarComponent × ℕ) :
    ICalendarComponent :=
  { comp.1 with
    entries := (incrementEntries cal)^[ids.countP (·.toNat = comp.2)]
      (if cal.isSchedulingObject comp.1.componentType then dropForceSend comp.1.entries
      else comp.1.entries) }

theorem modify_map_zipIdx {α β : Type} (xs : List α) (f : α × ℕ → β) (g : β → β) (i : ℕ) :
    (xs.zipIdx.map f).modify i g =
      xs.zipIdx.map fun x => if x.2 = i then g (f x) else f x := by
  refine ext_getElem? fun j => ?_
  rw [getElem?_modify, getElem?_map, getElem?_map, getElem?_zipIdx]
  cases xs[j]? with
  | none => rfl
  | some x =>
    by_cases h : i = j
    · simp [h]
    · simp [h, Ne.symm h]

theorem components_itipFinalize :
    (itipFinalize cal ical ids).components =
      ical.components.zipIdx.map (finalizedComponent cal ids) := by
  induction ids using reverseRecOn with
  | nil =>
    have hmap : ical.components = ical.components.zipIdx.map Prod.fst :=
      (zipIdx_map_fst 0 ical.components).symm
    rw [itipFinalize]
    conv_lhs => rw [hmap]
    rw [map_map]
    refine map_congr_left fun comp _ => ?_
    by_cases hobject : cal.isSchedulingObject comp.1.componentType
    · simp [finalizedComponent, hobject]
    · simp [finalizedComponent, hobject]
  | append_singleton ids id ih =>
    unfold itipFinalize at ih ⊢
    rw [foldl_append, foldl_cons, ICalendar.modifyEntries]
    simp only [ih, modify_map_zipIdx]
    refine map_congr_left fun comp _ => ?_
    by_cases hid : comp.2 = id.toNat
    · have hcount : (ids ++ [id]).countP (·.toNat = comp.2) =
          ids.countP (·.toNat = comp.2) + 1 := by
        rw [countP_append, countP_singleton, if_pos (by simpa using hid.symm)]
      rw [if_pos hid]
      simp only [finalizedComponent, hcount, Function.iterate_succ_apply']
    · have hcount : (ids ++ [id]).countP (·.toNat = comp.2) = ids.countP (·.toNat = comp.2) := by
        rw [countP_append, countP_singleton, if_neg (by simpa using Ne.symm hid),
          Nat.add_zero]
      rw [if_neg hid]
      simp only [finalizedComponent, hcount]

theorem schedulingComponents_itipFinalize :
    schedulingComponents cal (itipFinalize cal ical ids) =
      (schedulingComponents cal ical).map fun comp =>
        (finalizedComponent cal ids comp, comp.2) := by
  have hzip : (itipFinalize cal ical ids).components.zipIdx =
      ical.components.zipIdx.map fun comp => (finalizedComponent cal ids comp, comp.2) := by
    rw [components_itipFinalize]
    refine ext_getElem? fun j => ?_
    simp only [getElem?_zipIdx, getElem?_map]
    cases ical.components[j]? <;> rfl
  rw [schedulingComponents, hzip, filter_map]
  rfl

/-- Only scheduling objects are incremented. -/
def ListsObjects (cal : Calcard) (ical : ICalendar) (ids : List UInt16) : Prop :=
  ids.Nodup ∧ ∀ id ∈ ids, cal.isSchedulingObject (ical.component id.toNat).componentType

theorem finalizedComponent_of_not_object (hids : ListsObjects cal ical ids)
    {comp} (hcomp : comp ∈ ical.components.zipIdx)
    (hobject : cal.isSchedulingObject comp.1.componentType = false) :
    finalizedComponent cal ids comp = comp.1 := by
  have hcount : ids.countP (·.toNat = comp.2) = 0 := by
    refine countP_eq_zero.2 fun id hid hposition => ?_
    have hat : ical.component id.toNat = comp.1 := by
      rw [of_decide_eq_true hposition, ICalendar.component, getD_eq_getElem?_getD,
        mem_zipIdx_iff_getElem?.1 hcomp]
      rfl
    have := hids.2 id hid
    rw [hat, hobject] at this
    cases this
  simp [finalizedComponent, hcount, hobject]

/-- The time zones of the stored object stay. -/
theorem zones_itipFinalize (laws : cal.Laws) (hids : ListsObjects cal ical ids) :
    (itipFinalize cal ical ids).zones = ical.zones := by
  have hkeeps (comp : ICalendarComponent × ℕ) (hcomp : comp ∈ ical.components.zipIdx)
      (h : cal.isSchedulingObject comp.1.componentType = false) :
      finalizedComponent cal ids comp = comp.1 :=
    finalizedComponent_of_not_object hids hcomp h
  refine zones_eq ?_ fun i => ?_
  · rw [components_itipFinalize, filter_map]
    conv_rhs => rw [← zipIdx_map_fst 0 ical.components, filter_map]
    refine map_congr_left fun comp hcomp => ?_
    obtain ⟨hcomp, htype⟩ := mem_filter.1 hcomp
    have htype : comp.1.componentType = .vTimezone := of_decide_eq_true htype
    exact hkeeps comp hcomp (htype ▸ laws.timezone)
  · have hcomponent : (itipFinalize cal ical ids).component i =
        (ical.components[i]?.map fun comp =>
          finalizedComponent cal ids (comp, i)).getD default := by
      rw [ICalendar.component, getD_eq_getElem?_getD, components_itipFinalize,
        getElem?_map, getElem?_zipIdx]
      cases ical.components[i]? <;> simp
    rw [ICalendar.observance, ICalendar.observance, hcomponent, ICalendar.component,
      getD_eq_getElem?_getD]
    cases hat : ical.components[i]? with
    | none => rfl
    | some comp =>
      change (if comp.componentType.isObservance then _ else none) =
        if comp.componentType.isObservance then _ else none
      split
      · rename_i hobservance
        have hobject : cal.isSchedulingObject comp.componentType = false := by
          by_contra hobject
          rw [laws.observance _ (by simpa using hobject)] at hobservance
          cases hobservance
        have hmem : (comp, i) ∈ ical.components.zipIdx := mem_zipIdx_iff_getElem?.2 hat
        rw [Option.map_some, Option.getD_some, hkeeps _ hmem hobject]
        rfl
      · rfl

theorem finalizedComponent_entries (hids : ids.Nodup)
    (hobject : cal.isSchedulingObject comp.1.componentType) :
    (finalizedComponent cal ids comp).entries =
      if comp.2 ∈ ids.map (·.toNat) then incrementEntries cal (dropForceSend comp.1.entries)
      else dropForceSend comp.1.entries := by
  have hcount : ids.countP (·.toNat = comp.2) = if comp.2 ∈ ids.map (·.toNat) then 1 else 0 := by
    have hnodup : (ids.map (·.toNat)).Nodup := hids.map fun _ _ h => UInt16.toNat_inj.1 h
    have hcounted : ids.countP (·.toNat = comp.2) = (ids.map (·.toNat)).count comp.2 := by
      rw [count, countP_map]
      rfl
    rw [hcounted]
    split
    · rename_i hmem
      exact count_eq_one_of_mem hnodup hmem
    · rename_i hmem
      exact count_eq_zero.2 hmem
  simp only [finalizedComponent, hcount]
  split <;> rfl

theorem entriesInstance_finalizedComponent (ulaws : cal.UpdateLaws) (hids : ids.Nodup)
    (zones : List Zone) (hobject : cal.isSchedulingObject comp.1.componentType) :
    entriesInstance cal zones (finalizedComponent cal ids comp).entries =
      entriesInstance cal zones comp.1.entries := by
  refine entriesInstance_congr (congrArg _ ?_)
  rw [finalizedComponent_entries hids hobject]
  split
  · rw [entriesOf_incrementEntries_of_ne ulaws (by decide),
      entriesOf_dropForceSend (by decide) (by decide)]
  · rw [entriesOf_dropForceSend (by decide) (by decide)]

/-- The sequence of an instance of the stored object afterwards. -/
theorem sequenceOf_itipFinalize (laws : cal.Laws) (ulaws : cal.UpdateLaws)
    (hread : ReadFrom cal accountEmails ical snapshots) (hids : ListsObjects cal ical ids)
    {id : InstanceId} {snapshot : ItipSnapshot}
    (hcomp : StoredAt cal accountEmails ical id snapshot comp) :
    sequenceOf cal (itipFinalize cal ical ids) id =
      some (if comp.2 ∈ ids.map (·.toNat) ∧ SingleSequence cal comp.1.entries then
        i64Succ (snapshot.sequence.getD 0) else snapshot.sequence.getD 0) := by
  obtain ⟨other, hother, -⟩ := hread.read
  have hsingle := filter_eq_singleton (itipSnapshot_eq_ok_iff.1 hother).instances hcomp.mem
  rw [hcomp.id_eq] at hsingle
  have hfilter : (schedulingComponents cal (itipFinalize cal ical ids)).filter
      (fun found => componentInstance cal (itipFinalize cal ical ids).zones found.1 = id) =
      [(finalizedComponent cal ids comp, comp.2)] := by
    rw [schedulingComponents_itipFinalize, zones_itipFinalize laws hids, filter_map]
    have hsame : (schedulingComponents cal ical).filter
        ((fun found => decide (componentInstance cal ical.zones found.1 = id)) ∘
          fun found => (finalizedComponent cal ids found, found.2)) = [comp] := by
      rw [← hsingle]
      refine filter_congr fun found hfound => ?_
      have hobject := (mem_filter.1 hfound).2
      refine decide_eq_decide.2 ?_
      rw [componentInstance_eq, componentInstance_eq,
        entriesInstance_finalizedComponent ulaws hids.1 _ hobject]
    rw [hsame]
    rfl
  rw [sequenceOf, instanceContents_eq_map, hfilter]
  change some (entriesSequence cal (finalizedComponent cal ids comp).entries) = _
  have hdrop : entriesOf .sequence (dropForceSend comp.1.entries) =
      entriesOf .sequence comp.1.entries :=
    entriesOf_dropForceSend (by decide) (by decide) _
  have hsequence : entriesSequence cal (dropForceSend comp.1.entries) =
      snapshot.sequence.getD 0 := by
    rw [hcomp.sequence_eq]
    exact entriesSequence_congr (congrArg _ hdrop)
  have hincrement := entriesSequence_incrementEntries ulaws (dropForceSend comp.1.entries)
  rw [SingleSequence, hdrop, hsequence] at hincrement
  rw [finalizedComponent_entries hids.1 hcomp.isSchedulingObject]
  by_cases hlisted : comp.2 ∈ ids.map (·.toNat)
  · by_cases hone : SingleSequence cal comp.1.entries
    · rw [if_pos hlisted, if_pos ⟨hlisted, hone⟩, hincrement.1 hone]
    · rw [if_pos hlisted, if_neg fun h => hone h.2, hincrement.2 hone]
  · rw [if_neg hlisted, if_neg fun h => hlisted h.1, hsequence]

end Finalize

/-! ## What the messages announce -/

/-- A calendar object with a root, whose time zones consist of observances. -/
structure ICalendar.WellFormed (ical : ICalendar) : Prop where
  root : ical.hasRoot
  observances : ∀ zone ∈ ical.components, zone.componentType = .vTimezone →
    ∀ id ∈ zone.componentIds, (ical.component id).componentType.isObservance

section Messages

variable {cal : Calcard} {now : PartialDateTime} {accountEmails : List String}

theorem mem_scheduledContents {ical : ICalendar}
    {content : ICalendarComponentType × List ICalendarEntry} :
    content ∈ scheduledContents cal ical ↔
      ∃ comp ∈ ical.components, cal.isSchedulingObject comp.componentType ∧
        comp.contents = content := by
  simp only [scheduledContents, mem_filter, mem_map]
  constructor
  · rintro ⟨⟨comp, hcomp, rfl⟩, hobject⟩
    exact ⟨comp, hcomp, hobject, rfl⟩
  · rintro ⟨comp, hcomp, hobject, rfl⟩
    exact ⟨⟨comp, hcomp, rfl⟩, hobject⟩

theorem filter_exportEntry (isTodo : Bool) (status : ICalendarParticipationStatus)
    (entry : ICalendarEntry × ℕ) :
    entriesOf .sequence (exportEntry isTodo (.organizer status) entry) = [] ∧
      entriesOf .recurrenceId (exportEntry isTodo (.organizer status) entry) =
        entriesOf .recurrenceId [entry.1] := by
  cases hname : entry.1.name <;> simp [exportEntry, entriesOf, hname]

theorem entriesOf_flatMap (property : ICalendarProperty)
    (f : ICalendarEntry × ℕ → List ICalendarEntry) (entries : List (ICalendarEntry × ℕ)) :
    entriesOf property (entries.flatMap f) =
      entries.flatMap fun entry => entriesOf property (f entry) := by
  induction entries with
  | nil => rfl
  | cons entry entries ih =>
    rw [flatMap_cons, entriesOf_append, ih, flatMap_cons]

theorem entriesSequence_export (ulaws : cal.UpdateLaws) (comp : ICalendarComponent) (uid : String)
    (sequence : ℤ) (status : ICalendarParticipationStatus) :
    entriesSequence cal
      (itipExportComponent cal comp uid now sequence (.organizer status)).entries = sequence := by
  obtain ⟨hname, hvalues⟩ := ulaws.sequenceEntry sequence
  have hdtstamp := ulaws.dtstampEntry now
  have huid := ulaws.uidEntry uid
  rw [entriesSequence, filterMap_readSequence, itipExportComponent]
  have hnone (isTodo : Bool) : entriesOf .sequence
      (comp.entries.zipIdx.flatMap (exportEntry isTodo (.organizer status))) = [] := by
    rw [entriesOf_flatMap]
    exact flatMap_eq_nil_iff.2 fun entry _ => (filter_exportEntry isTodo status entry).1
  simp only [entriesOf_append, hnone]
  simp [entriesOf, hdtstamp, hname, huid, readSequence, hvalues, ulaws.integer]

theorem entriesInstance_export (ulaws : cal.UpdateLaws) (zones : List Zone)
    (comp : ICalendarComponent) (uid : String) (sequence : ℤ)
    (status : ICalendarParticipationStatus) :
    entriesInstance cal zones
        (itipExportComponent cal comp uid now sequence (.organizer status)).entries =
      entriesInstance cal zones comp.entries := by
  obtain ⟨hname, -⟩ := ulaws.sequenceEntry sequence
  have hdtstamp := ulaws.dtstampEntry now
  have huid := ulaws.uidEntry uid
  refine entriesInstance_congr (congrArg _ ?_)
  rw [itipExportComponent]
  have hkept (isTodo : Bool) : entriesOf .recurrenceId
      (comp.entries.zipIdx.flatMap (exportEntry isTodo (.organizer status))) =
        entriesOf .recurrenceId comp.entries := by
    rw [entriesOf_flatMap]
    simp only [(filter_exportEntry isTodo status _).2]
    rw [← entriesOf_flatMap .recurrenceId fun entry => [entry.1], ← map_eq_flatMap,
      zipIdx_map_fst]
  simp only [entriesOf_append, hkept]
  simp [entriesOf, hdtstamp, hname, huid]

theorem getElem?_foldl_set_of_notMem {α β : Type} {f : β → ℕ} {g : β → α} {i : ℕ} :
    ∀ {updates : List β} {base : List α}, i ∉ updates.map f →
      (updates.foldl (fun m u => m.set (f u) (g u)) base)[i]? = base[i]?
  | [], _, _ => rfl
  | u :: updates, base, h => by
    obtain ⟨hne, hrest⟩ := not_or.1 fun hmem => h (mem_cons.2 hmem)
    rw [foldl_cons, getElem?_foldl_set_of_notMem hrest, getElem?_set_ne (Ne.symm hne)]

theorem getElem?_foldl_set_of_mem {α β : Type} {f : β → ℕ} {g : β → α} {x : β} :
    ∀ {updates : List β} {base : List α}, (updates.map f).Nodup → x ∈ updates →
      f x < base.length →
      (updates.foldl (fun m u => m.set (f u) (g u)) base)[f x]? = some (g x)
  | [], _, _, hx, _ => nomatch hx
  | u :: updates, base, hnodup, hx, hlt => by
    obtain ⟨hnew, hnodup⟩ := nodup_cons.1 hnodup
    rw [foldl_cons]
    rcases mem_cons.1 hx with rfl | hx
    · rw [getElem?_foldl_set_of_notMem hnew, getElem?_set_self hlt]
    · exact getElem?_foldl_set_of_mem hnodup hx (by rwa [length_set])

/-- Copying changes only the positions of time zones and of what is listed to be copied. -/
theorem getElem?_copy (i : ℕ) :
    ∀ (comps : List (ICalendarComponent × ℕ)) (copied : List ℕ × List ICalendarComponent),
      (comps.foldl copyComponent copied).2[i]? = copied.2[i]? ∨
      ∃ comp, (comp, i) ∈ comps ∧ (comps.foldl copyComponent copied).2[i]? = some comp ∧
        (comp.componentType = .vTimezone ∨ i ∈ copied.1 ∨
          ∃ zone ∈ comps, zone.1.componentType = .vTimezone ∧ i ∈ zone.1.componentIds)
  | [], _ => .inl rfl
  | comp :: comps, copied => by
    have hset : (copyComponent copied comp).2[i]? = copied.2[i]? ∨
        (comp.2 = i ∧ (copyComponent copied comp).2[i]? = some comp.1 ∧
          (comp.1.componentType = .vTimezone ∨ i ∈ copied.1)) := by
      unfold copyComponent
      by_cases hi : comp.2 = i ∧ i < copied.2.length
      · obtain ⟨rfl, hlt⟩ := hi
        split
        · rename_i htype
          exact .inr ⟨rfl, getElem?_set_self hlt, .inl htype⟩
        · split
          · rename_i hlisted
            exact .inr ⟨rfl, getElem?_set_self hlt, .inr (contains_iff_mem.1 hlisted)⟩
          · exact .inl rfl
      · have hsame : (copied.2.set comp.2 comp.1)[i]? = copied.2[i]? := by
          by_cases hposition : comp.2 = i
          · have hout : copied.2.length ≤ i := not_lt.1 fun hlt => hi ⟨hposition, hlt⟩
            rw [getElem?_eq_none_iff.2 hout,
              getElem?_eq_none_iff.2 (by rwa [length_set])]
          · exact getElem?_set_ne hposition
        split
        · exact .inl hsame
        · split
          · exact .inl hsame
          · exact .inl rfl
    have hcopied : i ∈ (copyComponent copied comp).1 →
        i ∈ copied.1 ∨ (comp.1.componentType = .vTimezone ∧ i ∈ comp.1.componentIds) := by
      unfold copyComponent
      split
      · rename_i htype
        exact fun hin => (mem_append.1 hin).imp_right fun hin => ⟨htype, hin⟩
      · split <;> exact fun hin => .inl hin
    rcases getElem?_copy i comps (copyComponent copied comp) with
      hrest | ⟨found, hfound, hrest, hreason⟩
    · rcases hset with hset | ⟨hposition, hset, hreason⟩
      · exact .inl (hrest.trans hset)
      · exact .inr ⟨comp.1, hposition ▸ (.head _), hrest.trans hset,
          hreason.imp_right Or.inl⟩
    · refine .inr ⟨found, .tail _ hfound, hrest, ?_⟩
      rcases hreason with htype | hin | ⟨zone, hzone, hin⟩
      · exact .inl htype
      · rcases hcopied hin with hin | hin
        · exact .inr (.inl hin)
        · exact .inr (.inr ⟨comp, .head _, hin⟩)
      · exact .inr (.inr ⟨zone, .tail _ hzone, hin⟩)

theorem ReadFrom.nodup_compIds {ical : ICalendar} {itip}
    (h : ReadFrom cal accountEmails ical itip) (hsmall : ical.components.length ≤ 2 ^ 16) :
    (itip.components.map (·.2.compId)).Nodup := by
  refine List.Nodup.map_on (fun x hx y hy heq => ?_) (List.Nodup.of_map _ h.nodup_keys)
  obtain ⟨xcomp, hxcomp⟩ := h.storedAt_of_mem hx
  obtain ⟨ycomp, hycomp⟩ := h.storedAt_of_mem hy
  have hcomp : xcomp.1 = ycomp.1 := by
    rw [← component_eq_of_mem hxcomp.mem, ← component_eq_of_mem hycomp.mem, ← hxcomp.compId hsmall,
      ← hycomp.compId hsmall, heq]
  have hid : x.1 = y.1 := hxcomp.id_eq.symm.trans ((congrArg _ hcomp).trans hycomp.id_eq)
  exact inj_on_of_nodup_map h.nodup_keys hx hy hid

theorem mem_shared {itip : ItipSnapshots} {comp : ItipSnapshot} :
    comp ∈ itip.shared ↔ ∃ id, (id, comp) ∈ itip.components ∧ comp.attendees ≠ [] := by
  simp only [ItipSnapshots.shared, mem_filter, mem_map, Bool.not_eq_true',
    isEmpty_eq_false_iff]
  constructor
  · rintro ⟨⟨entry, hentry, rfl⟩, hne⟩
    exact ⟨entry.1, hentry, hne⟩
  · rintro ⟨id, hentry, hne⟩
    exact ⟨⟨_, hentry, rfl⟩, hne⟩

theorem ReadFrom.nodup_shared {ical : ICalendar} {itip}
    (h : ReadFrom cal accountEmails ical itip) (hsmall : ical.components.length ≤ 2 ^ 16) :
    (itip.shared.map (·.compId)).Nodup := by
  have hall : ((itip.components.map Prod.snd).map (·.compId)).Nodup := by
    rw [map_map]
    exact h.nodup_compIds hsmall
  exact hall.sublist (filter_sublist.map _)

/-- What the message about the whole event consists of, before the root lists the others. -/
def requestComponents (cal : Calcard) (now : PartialDateTime) (ical : ICalendar)
    (itip : ItipSnapshots) (incrementSequence : Bool) : List ICalendarComponent :=
  (ical.components.zipIdx.foldl copyComponent
    ([], itip.shared.foldl
      (fun message comp => message.set comp.compId.toNat
        (requestComponent cal now ical itip incrementSequence false comp))
      ((ical.components.map fun _ => default).set 0 (itipBuildEnvelope .request)))).2

section Request

variable {ical : ICalendar} {itip : ItipSnapshots} {incrementSequence : Bool}

theorem not_object_of_copied (laws : cal.Laws) (hwell : ical.WellFormed) {i : ℕ}
    {comp : ICalendarComponent} (hat : (comp, i) ∈ ical.components.zipIdx)
    (hreason : comp.componentType = .vTimezone ∨ i ∈ ([] : List ℕ) ∨
      ∃ zone ∈ ical.components.zipIdx, zone.1.componentType = .vTimezone ∧
        i ∈ zone.1.componentIds) :
    comp.componentType ≠ .vCalendar ∧ cal.isSchedulingObject comp.componentType = false := by
  rcases hreason with htype | hin | ⟨zone, hzone, htype, hin⟩
  · exact ⟨(fun h => by rw [h] at htype; cases htype), htype ▸ laws.timezone⟩
  · cases hin
  · have hobservance := hwell.observances zone.1 (fst_mem_of_mem_zipIdx hzone) htype i hin
    rw [ICalendar.component, getD_eq_getElem?_getD, mem_zipIdx_iff_getElem?.1 hat]
      at hobservance
    refine ⟨fun h => ?_, ?_⟩
    · change comp.componentType.isObservance = true at hobservance
      rw [h] at hobservance
      cases hobservance
    · by_contra hobject
      have hnot := laws.observance comp.componentType (by simpa using hobject)
      exact absurd hobservance (by simp [hnot])

/-- The positions of the message: those of the instances hold their components, and what else is a
scheduling object stays out. -/
theorem getElem?_requestComponents (laws : cal.Laws) (hwell : ical.WellFormed)
    (hread : ReadFrom cal accountEmails ical itip) (hsmall : ical.components.length ≤ 2 ^ 16) :
    (∀ comp ∈ itip.shared,
      (requestComponents cal now ical itip incrementSequence)[comp.compId.toNat]? =
        some (requestComponent cal now ical itip incrementSequence false comp)) ∧
      (∀ i found, (requestComponents cal now ical itip incrementSequence)[i]? = some found →
        cal.isSchedulingObject found.componentType →
        ∃ comp ∈ itip.shared, comp.compId.toNat = i) ∧
      (requestComponents cal now ical itip incrementSequence)[0]? =
        some (itipBuildEnvelope .request) := by
  have hnodup : (itip.shared.map (·.compId.toNat)).Nodup := by
    have hall := (hread.nodup_shared hsmall).map fun _ _ h => UInt16.toNat_inj.1 h
    rwa [map_map] at hall
  have hstored : ∀ comp ∈ itip.shared, ∃ found, ical.components[comp.compId.toNat]? = some found ∧
      cal.isSchedulingObject found.componentType := by
    intro comp hcomp
    obtain ⟨id, hentry, -⟩ := mem_shared.1 hcomp
    obtain ⟨found, hfound⟩ := hread.storedAt_of_mem hentry
    rw [hfound.compId hsmall]
    exact ⟨found.1, mem_zipIdx_iff_getElem?.1 (mem_filter.1 hfound.mem).1,
      hfound.isSchedulingObject⟩
  obtain ⟨root, hroot, hroottype⟩ : ∃ root, ical.components[0]? = some root ∧
      root.componentType = .vCalendar := by
    have hhas := hwell.root
    rw [ICalendar.hasRoot, head?_eq_getElem?] at hhas
    cases hhead : ical.components[0]? with
    | none => rw [hhead] at hhas; cases hhas
    | some root => rw [hhead] at hhas; exact ⟨root, rfl, of_decide_eq_true hhas⟩
  have hcopied (i : ℕ) : (requestComponents cal now ical itip incrementSequence)[i]? =
      (itip.shared.foldl (fun message comp => message.set comp.compId.toNat
          (requestComponent cal now ical itip incrementSequence false comp))
        ((ical.components.map fun _ => default).set 0 (itipBuildEnvelope .request)))[i]? ∨
      ∃ comp, ical.components[i]? = some comp ∧
        (requestComponents cal now ical itip incrementSequence)[i]? = some comp ∧
        comp.componentType ≠ .vCalendar ∧ cal.isSchedulingObject comp.componentType = false := by
    refine (getElem?_copy i ical.components.zipIdx ([], _)).imp_right ?_
    rintro ⟨comp, hin, hat, hreason⟩
    exact ⟨comp, mem_zipIdx_iff_getElem?.1 hin, hat, not_object_of_copied laws hwell hin hreason⟩
  have hoff : ∀ i, (∀ comp ∈ itip.shared, comp.compId.toNat ≠ i) →
      i ∉ itip.shared.map (·.compId.toNat) := by
    intro i hne hin
    obtain ⟨comp, hcomp, heq⟩ := mem_map.1 hin
    exact hne comp hcomp heq
  refine ⟨fun comp hcomp => ?_, fun i found hfound hobject => ?_, ?_⟩
  · obtain ⟨found, hfound, hobject⟩ := hstored comp hcomp
    rcases hcopied comp.compId.toNat with hsame | ⟨other, hother, -, -, hnot⟩
    · rw [hsame]
      refine getElem?_foldl_set_of_mem hnodup hcomp ?_
      rw [length_set, length_map]
      exact (List.getElem?_eq_some_iff.1 hfound).1
    · cases hother.symm.trans hfound
      rw [hobject] at hnot
      cases hnot
  · by_contra hnone
    rcases hcopied i with hsame | ⟨other, -, hother, -, hnot⟩
    · rw [getElem?_foldl_set_of_notMem
        (hoff i fun comp hcomp heq => hnone ⟨comp, hcomp, heq⟩), hfound] at hsame
      -- the other positions hold the envelope or an empty component
      have hcalendar : found.componentType = .vCalendar := by
        rcases mem_or_eq_of_mem_set (mem_of_getElem? hsame.symm) with hin | rfl
        · obtain ⟨_, -, rfl⟩ := mem_map.1 hin
          rfl
        · rfl
      rw [hcalendar, laws.root] at hobject
      cases hobject
    · cases hother.symm.trans hfound
      rw [hobject] at hnot
      cases hnot
  · rcases hcopied 0 with hsame | ⟨other, hother, -, hne, -⟩
    · rw [hsame, getElem?_foldl_set_of_notMem (hoff 0 fun comp hcomp heq => ?_)]
      · refine getElem?_set_self ?_
        rw [length_map]
        exact (List.getElem?_eq_some_iff.1 hroot).1
      · obtain ⟨found, hfound, hobject⟩ := hstored comp hcomp
        rw [heq, hroot] at hfound
        cases hfound
        rw [hroottype, laws.root] at hobject
        cases hobject
    · cases hother.symm.trans hroot
      cases hne hroottype

theorem itipMethod_of_root {message : ICalendar} {root : ICalendarComponent}
    {method : ICalendarMethod} (hroot : message.components[0]? = some root)
    (hentries : root.entries = (itipBuildEnvelope method).entries) :
    itipMethod message = .ok method := by
  rw [itipMethod, head?_eq_getElem?, hroot, Option.bind_some, hentries]
  rfl

/-- **What a message about the whole event announces**: the shared instances, with the sequence that
the update decided on. -/
theorem scheduled_request (laws : cal.Laws) (hwell : ical.WellFormed)
    (hread : ReadFrom cal accountEmails ical itip) (hsmall : ical.components.length ≤ 2 ^ 16)
    {message : ItipMessage}
    (h : (organizerRequestFull cal now ical itip incrementSequence false).2 = .ok [message]) :
    itipMethod message.message = .ok .request ∧
      ∀ content, content ∈ scheduledContents cal message.message ↔ ∃ comp ∈ itip.shared,
        (requestComponent cal now ical itip incrementSequence false comp).contents = content := by
  obtain ⟨hshared, honly, hroot⟩ := @getElem?_requestComponents _ now _ _ _ incrementSequence laws
    hwell hread hsmall
  have halarms : itip.shared.flatMap (requestAlarms ical false) = [] :=
    flatMap_eq_nil_iff.2 fun _ _ => rfl
  obtain ⟨f, hf, hcomponents⟩ : ∃ f,
      (∀ comp, (f comp).contents = comp.contents) ∧ message.message.components =
        (requestComponents cal now ical itip incrementSequence).modify 0 f := by
    unfold organizerRequestFull at h
    simp only at h
    split at h
    · cases h
    · cases h
      rw [halarms]
      refine ⟨_, ?_, rfl⟩
      exact fun _ => rfl
  constructor
  · have hentries : (f (itipBuildEnvelope .request)).entries =
        (itipBuildEnvelope .request).entries := congrArg Prod.snd (hf _)
    refine itipMethod_of_root ?_ hentries
    rw [hcomponents, getElem?_modify, hroot]
    rfl
  · intro content
    have hcontents : scheduledContents cal message.message =
        scheduledContents cal ⟨requestComponents cal now ical itip incrementSequence⟩ := by
      rw [scheduledContents, hcomponents, contents_modify_of_same f hf]
      rfl
    rw [hcontents, mem_scheduledContents]
    constructor
    · rintro ⟨found, hfound, hobject, rfl⟩
      obtain ⟨i, hi⟩ := mem_iff_getElem?.1 hfound
      obtain ⟨comp, hcomp, rfl⟩ := honly i found hi hobject
      exact ⟨comp, hcomp, congrArg _ (Option.some.inj ((hshared comp hcomp).symm.trans hi))⟩
    · rintro ⟨comp, hcomp, rfl⟩
      refine ⟨_, mem_of_getElem? (hshared comp hcomp), ?_, rfl⟩
      obtain ⟨id, hentry, -⟩ := mem_shared.1 hcomp
      obtain ⟨found, hfound⟩ := hread.storedAt_of_mem hentry
      have hat := hfound.component_eq hsmall
      change cal.isSchedulingObject (ical.component comp.compId.toNat).componentType
      rw [hat]
      exact hfound.isSchedulingObject

end Request

section Partial

variable {versions : EventVersions} {incrementSequence : Bool} {method : ICalendarMethod}
  {instances : List InstanceId} {emails : List String}

/-- The component of a message about single instances that is not a cancellation. -/
def announcedComponent (cal : Calcard) (now : PartialDateTime) (versions : EventVersions)
    (incrementSequence : Bool) (comp : ItipSnapshot) : ICalendarComponent :=
  itipExportComponent cal comp.comp versions.newItip.uid now
    (comp.updatedSequence incrementSequence) (.organizer .needsAction)

/-- Only a cancellation is read from the old version. -/
theorem partialComponents_new (hmethod : method ≠ .cancel) {built : Bool × List ICalendarComponent}
    (h : partialComponents cal now versions incrementSequence method emails true instances =
      .ok built) :
    built.1 ∧ ∀ comp, comp ∈ built.2 ↔ ∃ id ∈ instances, ∃ snapshot,
      versions.newItip.get? id = some snapshot ∧
        announcedComponent cal now versions incrementSequence snapshot = comp := by
  induction instances generalizing built with
  | nil =>
    cases h
    exact ⟨rfl, fun comp => by simp⟩
  | cons id instances ih =>
    obtain ⟨⟨isNew, snapshot⟩, hfound, h⟩ := bind_eq_ok_iff.1 h
    have hget : isNew ∧ versions.newItip.get? id = some snapshot := by
      rw [EventVersions.find, show (versions.source true).2 = versions.newItip from rfl] at hfound
      split at hfound
      · rename_i hget
        cases hfound
        exact ⟨rfl, hget⟩
      · rename_i hnone hget
        rw [hnone] at hget
        cases hget
      · cases hfound
    obtain ⟨rfl, hget⟩ := hget
    obtain ⟨later, hlater, rfl⟩ := bind_pure_eq_ok_iff.1 h
    obtain ⟨hnew, hrest⟩ := ih hlater
    refine ⟨hnew, fun comp => ?_⟩
    have hhead : partialComponent cal now (versions.source true).2 incrementSequence method emails
        snapshot = announcedComponent cal now versions incrementSequence snapshot := by
      rw [partialComponent, if_neg hmethod]
      rfl
    rw [hhead, mem_cons, hrest, exists_mem_cons_iff]
    refine or_congr_left ⟨fun heq => ⟨snapshot, hget, heq.symm⟩, ?_⟩
    rintro ⟨other, hother, rfl⟩
    rw [Option.some.inj (hget.symm.trans hother)]

theorem itipAddTz_eq (ulaws : cal.UpdateLaws) {message ical : ICalendar}
    (hroot : message.hasRoot) :
    itipMethod (itipAddTz cal message ical) = itipMethod message ∧
      (ical.WellFormed → scheduledContents cal (itipAddTz cal message ical) =
        scheduledContents cal message) := by
  unfold itipAddTz
  simp only
  split
  · exact ⟨ulaws.copiedMethod message ical hroot,
      fun hwell => ulaws.copiedContents message ical hroot hwell.observances⟩
  · exact ⟨rfl, fun _ => rfl⟩

theorem itipMethod_partialMessage (ulaws : cal.UpdateLaws)
    {group} {message : ItipMessage}
    (h : partialMessage cal now versions incrementSequence group = .ok message) :
    itipMethod message.message = .ok group.1.1 := by
  obtain ⟨built, -, rfl⟩ := bind_pure_eq_ok_iff.1 h
  exact (itipAddTz_eq ulaws rfl).1.trans (itipMethod_of_root rfl rfl)

/-- **What a message about single instances announces**: the instances, with the sequence that the
update decided on. -/
theorem scheduled_partialMessage (laws : cal.Laws) (ulaws : cal.UpdateLaws)
    (hwell : versions.newIcal.WellFormed)
    (hread : ReadFrom cal accountEmails versions.newIcal versions.newItip)
    (hmethod : method ≠ .cancel) {message : ItipMessage}
    (h : partialMessage cal now versions incrementSequence ((method, instances), emails) =
      .ok message) (content : ICalendarComponentType × List ICalendarEntry) :
    content ∈ scheduledContents cal message.message ↔ ∃ id ∈ instances, ∃ snapshot,
      versions.newItip.get? id = some snapshot ∧
        (announcedComponent cal now versions incrementSequence snapshot).contents = content := by
  obtain ⟨built, hbuilt, rfl⟩ := bind_pure_eq_ok_iff.1 h
  have hstart : decide (method ≠ .cancel) := decide_eq_true hmethod
  simp only [hstart] at hbuilt
  obtain ⟨hnew, hcomps⟩ := partialComponents_new hmethod hbuilt
  have hsource : (versions.source built.1).1 = versions.newIcal := by
    rw [hnew]
    rfl
  simp only [hsource]
  rw [(itipAddTz_eq ulaws rfl).2 hwell, mem_scheduledContents]
  have hobject : ∀ id snapshot, versions.newItip.get? id = some snapshot →
      cal.isSchedulingObject (announcedComponent cal now versions incrementSequence
        snapshot).componentType := by
    intro id snapshot hget
    obtain ⟨comp, hcomp⟩ := hread.storedAt hget
    change cal.isSchedulingObject snapshot.comp.componentType
    rw [hcomp.comp_eq]
    exact hcomp.isSchedulingObject
  constructor
  · rintro ⟨comp, hcomp, hscheduled, rfl⟩
    rcases mem_cons.1 hcomp with rfl | hcomp
    · cases Bool.eq_false_iff.1 laws.root hscheduled
    · obtain ⟨id, hid, snapshot, hget, rfl⟩ := (hcomps comp).1 hcomp
      exact ⟨id, hid, snapshot, hget, rfl⟩
  · rintro ⟨id, hid, snapshot, hget, rfl⟩
    exact ⟨_, .tail _ ((hcomps _).2 ⟨id, hid, snapshot, hget, rfl⟩),
      hobject id snapshot hget, rfl⟩

end Partial

end Messages

/-! ## Which instances are announced -/

section Announced

variable {cal : Calcard} {now : PartialDateTime} {accountEmails : List String}
  {versions : EventVersions} {changes : List ChangedInstance} {incrementSequence : Bool}
  {ids : List UInt16} {full partials : List ItipMessage}

theorem exists_shared_of_concerns {oldItip newItip}
    (hnodup : (newItip.components.map Prod.fst).Nodup) {id : InstanceId}
    {method} (h : Concerns cal oldItip newItip id email method)
    (hmethod : method ≠ .cancel) :
    ∃ snapshot, newItip.get? id = some snapshot ∧ snapshot.attendees ≠ [] := by
  cases h with
  | changed hnew _ _ hupdates =>
    obtain ⟨attendee, hattendee, -⟩ := hupdates
    exact ⟨_, (ItipSnapshots.get?_eq_some_iff hnodup).2 hnew, ne_nil_of_mem hattendee⟩
  | uninvited => cases hmethod rfl
  | added hnew _ hinvites =>
    obtain ⟨attendee, hattendee, -⟩ := hinvites
    exact ⟨_, (ItipSnapshots.get?_eq_some_iff hnodup).2 hnew, ne_nil_of_mem hattendee⟩
  | removed => cases hmethod rfl

theorem exists_notCancel_of_getsWhole {oldItip newItip}
    (h : GetsWhole cal oldItip newItip email) :
    ∃ id email method, Concerns cal oldItip newItip id email method ∧ method ≠ .cancel := by
  rcases h with hmain | ⟨id, method, id', method', hfirst, hsecond, hne⟩
  · exact ⟨_, _, _, hmain, by decide⟩
  · by_cases hcancel : method = .cancel
    · exact ⟨_, _, _, hsecond, fun h => hne (hcancel.trans h.symm)⟩
    · exact ⟨_, _, _, hfirst, hcancel⟩

theorem mem_destutter'_ne {α : Type} [DecidableEq α] {x y : α} {xs : List α} :
    x ∈ xs.destutter' (· ≠ ·) y ↔ x ∈ y :: xs := by
  refine ⟨fun h => (destutter'_sublist _ _ _).subset h, fun h => ?_⟩
  induction xs generalizing y with
  | nil => exact h
  | cons z zs ih =>
    by_cases hne : y = z
    · obtain rfl := hne
      rw [destutter'_cons_neg (h := fun h => h rfl)]
      exact ih (by simpa using h)
    · rw [destutter'_cons_pos (h := hne)]
      exact (mem_cons.1 h).elim (fun heq => heq ▸ .head _) fun h => .tail _ (ih h)

theorem mem_sortInstances {id : InstanceId} {instances : List InstanceId} :
    id ∈ versions.sortInstances cal instances ↔ id ∈ instances := by
  have hsorted : id ∈ instances.insertionSort
      (fun a b => versions.orderKey cal a ≤ versions.orderKey cal b) ↔ id ∈ instances :=
    mem_insertionSort _
  rw [← hsorted, EventVersions.sortInstances]
  cases instances.insertionSort fun a b => versions.orderKey cal a ≤ versions.orderKey cal b with
  | nil => rfl
  | cons first rest => exact mem_destutter'_ne

section

variable (hcollected : organizerChanges cal versions.oldItip versions.newItip =
  .ok (changes, incrementSequence))
include hcollected

theorem own_concerns {entry}
    (h : (email, entry) ∈ (updatePlan changes).sendPartialUpdate) :
    ∃ method instances, entry = [(method, instances)] ∧
      (∀ id, id ∈ instances ↔
        Concerns cal versions.oldItip versions.newItip id email method) ∧
      ∀ id other, Concerns cal versions.oldItip versions.newItip id email other →
        other = method := by
  obtain ⟨first, rest, hfilter, rfl⟩ := exists_own h
  have hnot := (mem_keys_sendPartialUpdate.1 (InsertionMap.mem_keys_of_mem h)).2
  have hown : ∀ change ∈ changes, change.email = email → change.method = first.method := by
    intro change hchange hemail
    by_contra hne
    have hfirst : first ∈ changes.filter (·.email = email) := hfilter ▸ (.head _)
    obtain ⟨hfirst, hfirstEmail⟩ := mem_filter.1 hfirst
    exact hnot (.inr ⟨change, hchange, first, hfirst, hemail, of_decide_eq_true hfirstEmail, hne⟩)
  refine ⟨first.method, _, rfl, fun id => ?_, fun id other hconcerns => ?_⟩
  · rw [← mem_organizerChanges_iff hcollected, ← hfilter]
    constructor
    · intro hid
      obtain ⟨⟨id', email', method⟩, hchange, rfl⟩ := mem_map.1 hid
      obtain ⟨hin, hemail⟩ := mem_filter.1 hchange
      obtain rfl : email' = email := of_decide_eq_true hemail
      have hmethod : method = first.method := hown ⟨id', email', method⟩ hin rfl
      exact hmethod ▸ hin
    · intro hin
      exact mem_map.2 ⟨_, mem_filter.2 ⟨hin, decide_eq_true rfl⟩, rfl⟩
  · exact hown ⟨id, email, other⟩ ((mem_organizerChanges_iff hcollected).2 hconcerns) rfl

theorem group_concerns {group}
    (h : group ∈ partialUpdates cal versions (updatePlan changes)) : ∃ email, ∀ id,
      id ∈ group.1.2 ↔ Concerns cal versions.oldItip versions.newItip id email group.1.1 := by
  obtain ⟨email, hin⟩ := InsertionMap.mem_keys_gather.1
    (InsertionMap.mem_keys_of_mem (show (group.1, group.2) ∈ _ from h))
  obtain ⟨⟨email', entry⟩, hentry, hupdate⟩ := mem_flatMap.1 hin
  obtain ⟨method, instances, rfl, hconcerns, -⟩ := own_concerns hcollected hentry
  obtain ⟨hkey, -⟩ := Prod.mk.inj (mem_singleton.1 hupdate)
  refine ⟨email', fun id => ?_⟩
  rw [hkey]
  exact mem_sortInstances.trans (hconcerns id)

theorem exists_group {id : InstanceId} {method : ICalendarMethod}
    (hconcerns : Concerns cal versions.oldItip versions.newItip id email method)
    (hnot : ¬ SentWhole changes email) : ∃ group ∈ partialUpdates cal versions (updatePlan changes),
      group.1.1 = method ∧ id ∈ group.1.2 := by
  have hkey := mem_keys_sendPartialUpdate.2
    ⟨⟨_, (mem_organizerChanges_iff hcollected).2 hconcerns, rfl⟩, hnot⟩
  obtain ⟨⟨email', entry⟩, hentry, rfl⟩ := mem_map.1 hkey
  obtain ⟨method', instances, rfl, hinstances, hmethod⟩ := own_concerns hcollected hentry
  obtain rfl := hmethod id method hconcerns
  have hupdate : ((method, versions.sortInstances cal instances), email') ∈
      (updatePlan changes).sendPartialUpdate.flatMap fun entry => entry.2.map fun update =>
        ((update.1, versions.sortInstances cal update.2), entry.1) :=
    mem_flatMap.2 ⟨_, hentry, mem_singleton.2 rfl⟩
  obtain ⟨group, hgroup, heq⟩ := mem_map.1 (InsertionMap.mem_keys_gather.2 ⟨_, hupdate⟩)
  refine ⟨group, hgroup, congrArg Prod.fst heq, ?_⟩
  rw [congrArg Prod.snd heq]
  exact mem_sortInstances.2 ((hinstances id).2 hconcerns)

end

/-- The content of a component that a message asks the attendees to take over. -/
def Announces (cal : Calcard) (message : ICalendar)
    (content : ICalendarComponentType × List ICalendarEntry) : Prop :=
  (itipMethod message = .ok .request ∨ itipMethod message = .ok .add) ∧
    content ∈ scheduledContents cal message

/-- The content stands for an instance of the new version, at the sequence the update decided on. -/
structure StatesInstance (cal : Calcard) (versions : EventVersions) (incrementSequence : Bool)
    (id : InstanceId) (snapshot : ItipSnapshot)
    (content : ICalendarComponentType × List ICalendarEntry) : Prop where
  instanceId : entriesInstance cal versions.newIcal.zones content.2 = id
  sequence : entriesSequence cal content.2 = snapshot.updatedSequence incrementSequence

theorem announcedComponent_states (ulaws : cal.UpdateLaws)
    (hread : ReadFrom cal accountEmails versions.newIcal versions.newItip)
    (now : PartialDateTime) (incrementSequence : Bool) {id : InstanceId}
    {snapshot : ItipSnapshot} (hget : versions.newItip.get? id = some snapshot) :
    StatesInstance cal versions incrementSequence id snapshot
      (announcedComponent cal now versions incrementSequence snapshot).contents := by
  obtain ⟨comp, hcomp⟩ := hread.storedAt hget
  refine ⟨(entriesInstance_export ulaws _ _ _ _ _).trans ?_, entriesSequence_export ulaws _ _ _ _⟩
  rw [hcomp.comp_eq]
  exact hcomp.id_eq

/-- The message about the whole event and one about the instance alone say the same of it. -/
theorem requestComponent_contents
    (hread : ReadFrom cal accountEmails versions.newIcal versions.newItip)
    (hsmall : versions.newIcal.components.length ≤ 2 ^ 16) {id : InstanceId}
    {snapshot : ItipSnapshot} (hget : versions.newItip.get? id = some snapshot) :
    (requestComponent cal now versions.newIcal versions.newItip incrementSequence false
      snapshot).contents =
      (announcedComponent cal now versions incrementSequence snapshot).contents := by
  obtain ⟨comp, hcomp⟩ := hread.storedAt hget
  rw [announcedComponent, hcomp.comp_eq, ← hcomp.component_eq hsmall]
  rfl

theorem Concerns.request_or_add {oldItip newItip} {id : InstanceId} {method : ICalendarMethod}
    (h : Concerns cal oldItip newItip id email method) (hmethod : method ≠ .cancel) :
    method = .request ∨ method = .add := by
  cases h with
  | changed => exact .inl rfl
  | uninvited => cases hmethod rfl
  | added =>
    unfold addedMethod at hmethod ⊢
    split at hmethod
    · cases hmethod rfl
    · rename_i hstatus
      exact .inr (if_neg hstatus)
  | removed => cases hmethod rfl

/-- **Which instances an update announces**: when somebody gets the whole event, all that have
attendees, and otherwise those that it tells somebody more about than a cancellation. -/
def IsAnnounced (cal : Calcard) (oldItip newItip : ItipSnapshots) (id : InstanceId)
    (snapshot : ItipSnapshot) : Prop :=
  newItip.get? id = some snapshot ∧ snapshot.attendees ≠ [] ∧
    ((∃ email, GetsWhole cal oldItip newItip email) ∨
      ∃ email method, Concerns cal oldItip newItip id email method ∧ method ≠ .cancel)

theorem IsAnnounced.exists_notCancel {oldItip newItip} {id : InstanceId} {snapshot : ItipSnapshot}
    (h : IsAnnounced cal oldItip newItip id snapshot) :
    ∃ id email method, Concerns cal oldItip newItip id email method ∧ method ≠ .cancel := by
  obtain ⟨-, -, ⟨email, hgets⟩ | hconcerns⟩ := h
  · exact exists_notCancel_of_getsWhole hgets
  · exact ⟨id, hconcerns⟩

theorem SentUpdate.exists_full
    (h : SentUpdate cal now versions changes incrementSequence ids full partials)
    (hwhole : ∃ email, SentWhole changes email) :
    ∃ message, full = [message] ∧
      ids = (if incrementSequence then versions.newItip.shared.map (·.compId) else []) ∧
      (organizerRequestFull cal now versions.newIcal versions.newItip incrementSequence false).2 =
        .ok [message] := by
  obtain ⟨email, hsends⟩ := hwhole
  have hrecipients : versions.newItip.recipients false ≠ [] :=
    ne_nil_of_mem (mem_recipients.2 (updates_of_sentWhole h.collected hsends))
  obtain ⟨message, hrequest, -⟩ := organizerRequestFull_eq cal now versions.newIcal
    incrementSequence hrecipients
  obtain ⟨rfl, hfull⟩ := Prod.mk.inj ((h.whole ⟨email, hsends⟩).symm.trans hrequest)
  exact ⟨message, Except.ok.inj hfull, rfl, congrArg Prod.snd hrequest⟩

/-- The announced contents are those of the announced instances. -/
theorem SentUpdate.announces_iff (laws : cal.Laws) (ulaws : cal.UpdateLaws)
    (hwell : versions.newIcal.WellFormed)
    (hread : ReadFrom cal accountEmails versions.newIcal versions.newItip)
    (hsmall : versions.newIcal.components.length ≤ 2 ^ 16)
    (h : SentUpdate cal now versions changes incrementSequence ids full partials)
    {content : ICalendarComponentType × List ICalendarEntry} :
    (∃ message ∈ full ++ partials, Announces cal message.message content) ↔
      ∃ id snapshot, IsAnnounced cal versions.oldItip versions.newItip id snapshot ∧
        (announcedComponent cal now versions incrementSequence snapshot).contents = content := by
  have hwhole := @sentWhole_iff _ _ _ _ _ h.collected
  constructor
  · rintro ⟨message, hmessage, hannounces⟩
    rcases mem_append.1 hmessage with hmessage | hmessage
    · have hany : ∃ email, SentWhole changes email := by
        by_contra hnone
        rw [(h.none fun email hsends => hnone ⟨email, hsends⟩).2] at hmessage
        cases hmessage
      obtain ⟨request, rfl, -, hrequest⟩ := h.exists_full hany
      obtain rfl := mem_singleton.1 hmessage
      obtain ⟨comp, hcomp, rfl⟩ :=
        ((scheduled_request laws hwell hread hsmall hrequest).2 content).1 hannounces.2
      obtain ⟨id, hentry, hne⟩ := mem_shared.1 hcomp
      have hget := (ItipSnapshots.get?_eq_some_iff hread.nodup_keys).2 hentry
      exact ⟨id, comp, ⟨hget, hne, .inl (hany.imp fun _ => hwhole.1)⟩,
        (requestComponent_contents hread hsmall hget).symm⟩
    · obtain ⟨group, hgroup, hok⟩ := (mem_of_mapM h.partials).1 hmessage
      have hmethod : group.1.1 ≠ .cancel := by
        intro hcancel
        rw [Announces, itipMethod_partialMessage ulaws hok, hcancel] at hannounces
        rcases hannounces.1 with h | h <;> cases h
      obtain ⟨email, hconcerns⟩ := group_concerns h.collected hgroup
      obtain ⟨id, hid, snapshot, hget, rfl⟩ :=
        (scheduled_partialMessage laws ulaws hwell hread hmethod hok content).1 hannounces.2
      have hconcerns := (hconcerns id).1 hid
      obtain ⟨other, hother, hne⟩ := exists_shared_of_concerns hread.nodup_keys hconcerns hmethod
      obtain rfl := Option.some.inj (hother.symm.trans hget)
      exact ⟨id, other, ⟨hget, hne, .inr ⟨email, _, hconcerns, hmethod⟩⟩, rfl⟩
  · rintro ⟨id, snapshot, ⟨hget, hne, htold⟩, rfl⟩
    by_cases hany : ∃ email, SentWhole changes email
    · obtain ⟨message, rfl, -, hrequest⟩ := h.exists_full hany
      obtain ⟨hmethod, hcontents⟩ := scheduled_request laws hwell hread hsmall hrequest
      have hshared : snapshot ∈ versions.newItip.shared :=
        mem_shared.2 ⟨id, ItipSnapshots.get?_mem hget, hne⟩
      exact ⟨message, by simp, .inl hmethod,
        (hcontents _).2 ⟨snapshot, hshared, requestComponent_contents hread hsmall hget⟩⟩
    · rcases htold with ⟨email, hgets⟩ | ⟨email, method, hconcerns, hmethod⟩
      · cases hany ⟨email, hwhole.2 hgets⟩
      obtain ⟨group, hgroup, rfl, hid⟩ :=
        exists_group h.collected hconcerns fun hsends => hany ⟨email, hsends⟩
      obtain ⟨message, hok⟩ := exists_mapM_eq_ok_iff.1 ⟨partials, h.partials⟩ group hgroup
      have hannounced : itipMethod message.message = .ok .request ∨
          itipMethod message.message = .ok .add := by
        rw [itipMethod_partialMessage ulaws hok]
        exact (hconcerns.request_or_add hmethod).imp (congrArg _) (congrArg _)
      exact ⟨message, mem_append_right _ ((mem_of_mapM h.partials).2 ⟨group, hgroup, hok⟩),
        hannounced, (scheduled_partialMessage laws ulaws hwell hread hmethod hok _).2
          ⟨id, hid, snapshot, hget, rfl⟩⟩

end Announced

/-! ## Announced and stored numbers agree -/

theorem i64Succ_ne (n : ℤ) : i64Succ n ≠ n := by
  simp only [i64Succ, Int.bmod]
  split <;> omega

/-- **Announced and stored numbers agree**: what is announced for an instance is its sequence in the
stored object, greater, where sequences are incremented, than the one of the old version and the one
that the new version came with. -/
structure AnnouncesStored (cal : Calcard) (oldIcal newIcal after : ICalendar)
    (messages : List ItipMessage) (incremented : Prop) : Prop where
  stored : ∀ message ∈ messages, ∀ content, Announces cal message.message content →
    sequenceOf cal after (entriesInstance cal newIcal.zones content.2) =
      some (entriesSequence cal content.2)
  greater : incremented → ∀ message ∈ messages, ∀ content, Announces cal message.message content →
    ∀ before, (sequenceOf cal oldIcal (entriesInstance cal newIcal.zones content.2) = some before ∨
      sequenceOf cal newIcal (entriesInstance cal newIcal.zones content.2) = some before) →
      before < entriesSequence cal content.2

/-- The numbers of an instance can be incremented: one sequence entry counts, without a wrap around,
and exceeds the old version. -/
structure CanIncrement (cal : Calcard) (oldItip : ItipSnapshots)
    (new : InstanceId × ItipSnapshot) : Prop where
  single : SingleSequence cal new.2.comp.entries
  noWrap : new.2.sequence.getD 0 < i64Succ (new.2.sequence.getD 0)
  exceeds : ∀ oldInstance, oldItip.get? new.1 = some oldInstance →
    oldInstance.sequence.getD 0 < i64Succ (new.2.sequence.getD 0)

instance (cal : Calcard) (oldItip : ItipSnapshots) : DecidablePred (CanIncrement cal oldItip) :=
  fun new => decidable_of_iff
    (SingleSequence cal new.2.comp.entries ∧
      new.2.sequence.getD 0 < i64Succ (new.2.sequence.getD 0) ∧
      ∀ oldInstance ∈ oldItip.get? new.1,
        oldInstance.sequence.getD 0 < i64Succ (new.2.sequence.getD 0))
    ⟨fun ⟨single, noWrap, exceeds⟩ => ⟨single, noWrap, exceeds⟩,
      fun h => ⟨h.single, h.noWrap, h.exceeds⟩⟩

/-- An update that increments sequences only cancels, or it sends somebody the whole event. -/
def KeepsNumbers (cal : Calcard) (oldItip newItip : ItipSnapshots) : Prop :=
  Increments oldItip newItip →
    (∀ id email method, Concerns cal oldItip newItip id email method → method = .cancel) ∨
    ((∃ email, GetsWhole cal oldItip newItip email) ∧
      ∀ new ∈ newItip.components, new.2.attendees ≠ [] → CanIncrement cal oldItip new)

section Numbers

variable {cal : Calcard} {now : PartialDateTime} {accountEmails : List String}
  {versions : EventVersions} {changes : List ChangedInstance} {incrementSequence : Bool}
  {ids : List UInt16} {full partials messages : List ItipMessage}

theorem SentUpdate.listsObjects
    (hread : ReadFrom cal accountEmails versions.newIcal versions.newItip)
    (hsmall : versions.newIcal.components.length ≤ 2 ^ 16)
    (h : SentUpdate cal now versions changes incrementSequence ids full partials) :
    ListsObjects cal versions.newIcal ids := by
  by_cases hwhole : ∃ email, SentWhole changes email
  · obtain ⟨-, -, rfl, -⟩ := h.exists_full hwhole
    split
    · refine ⟨hread.nodup_shared hsmall, fun id hid => ?_⟩
      obtain ⟨comp, hcomp, rfl⟩ := mem_map.1 hid
      obtain ⟨id, hentry, -⟩ := mem_shared.1 hcomp
      obtain ⟨found, hfound⟩ := hread.storedAt_of_mem hentry
      rw [hfound.component_eq hsmall]
      exact hfound.isSchedulingObject
    · exact ⟨nodup_nil, nofun⟩
  · obtain ⟨rfl, -⟩ := h.none fun email hsends => hwhole ⟨email, hsends⟩
    exact ⟨nodup_nil, nofun⟩

/-- The organizer's part of the update. -/
theorem organizer_announces_stored_iff (laws : cal.Laws) (ulaws : cal.UpdateLaws)
    (hwell : versions.newIcal.WellFormed)
    (hold : ReadFrom cal accountEmails versions.oldIcal versions.oldItip)
    (hread : ReadFrom cal accountEmails versions.newIcal versions.newItip)
    (hsmall : versions.newIcal.components.length ≤ 2 ^ 16)
    (h : organizerHandleUpdate cal now versions = .ok (ids, messages)) :
    AnnouncesStored cal versions.oldIcal versions.newIcal
        (itipFinalize cal versions.newIcal ids) messages
        (Increments versions.oldItip versions.newItip) ↔
      KeepsNumbers cal versions.oldItip versions.newItip := by
  obtain ⟨changes, incrementSequence, full, partials, rfl, hsent⟩ := exists_sentUpdate h
  have hincrement := increments_iff hsent.collected
  have hids := hsent.listsObjects hread hsmall
  have hwhole := @sentWhole_iff _ _ _ _ _ hsent.collected
  have hannounces := fun content =>
    @SentUpdate.announces_iff _ _ _ _ _ _ _ _ _ laws ulaws hwell hread hsmall hsent content
  constructor
  · intro hagree hincrements
    have hset : incrementSequence := hincrement.2 hincrements
    have hnumbers : ∀ id snapshot,
        IsAnnounced cal versions.oldItip versions.newItip id snapshot →
        snapshot.compId.toNat ∈ ids.map (·.toNat) ∧
          CanIncrement cal versions.oldItip (id, snapshot) := by
      intro id snapshot hannounced
      obtain ⟨comp, hcomp⟩ := hread.storedAt hannounced.1
      obtain ⟨message, hmessage, hcontent⟩ := (hannounces _).2 ⟨id, snapshot, hannounced, rfl⟩
      obtain ⟨hid, hsequence⟩ :=
        announcedComponent_states ulaws hread now incrementSequence hannounced.1
      have hstored := hagree.stored message hmessage _ hcontent
      have hgreater := hagree.greater hincrements message hmessage _ hcontent
      rw [hid, hsequence, ItipSnapshot.updatedSequence, if_pos hset] at hstored hgreater
      rw [hread.sequenceOf_eq, hold.sequenceOf_eq, hannounced.1] at hgreater
      rw [sequenceOf_itipFinalize laws ulaws hread hids hcomp, Option.some.injEq] at hstored
      have hboth : comp.2 ∈ ids.map (·.toNat) ∧ SingleSequence cal comp.1.entries := by
        by_contra hnot
        rw [if_neg hnot] at hstored
        exact i64Succ_ne _ hstored.symm
      rw [hcomp.compId hsmall]
      refine ⟨hboth.1, hcomp.comp_eq ▸ hboth.2, hgreater _ (.inr rfl),
        fun oldInstance hget => hgreater _ (.inl ?_)⟩
      rw [hget]
      rfl
    by_cases hany : ∃ email, SentWhole changes email
    · have hany := hany.imp fun _ => hwhole.1
      refine .inr ⟨hany, fun ⟨id, snapshot⟩ hentry hne => ?_⟩
      have hget := (ItipSnapshots.get?_eq_some_iff hread.nodup_keys).2 hentry
      exact (hnumbers id snapshot ⟨hget, hne, .inl hany⟩).2
    · refine .inl fun id email method hconcerns => ?_
      by_contra hmethod
      obtain ⟨snapshot, hget, hne⟩ :=
        exists_shared_of_concerns hread.nodup_keys hconcerns hmethod
      -- the ids of instances that are announced alone are dropped
      have hlisted := (hnumbers id snapshot
        ⟨hget, hne, .inr ⟨email, method, hconcerns, hmethod⟩⟩).1
      rw [(hsent.none fun email hsends => hany ⟨email, hsends⟩).1] at hlisted
      cases hlisted
  · intro hkeeps
    have hnumbers : Increments versions.oldItip versions.newItip → ∀ id snapshot,
        IsAnnounced cal versions.oldItip versions.newItip id snapshot →
        CanIncrement cal versions.oldItip (id, snapshot) ∧
          snapshot.compId.toNat ∈ ids.map (·.toNat) := by
      intro hincrements id snapshot hannounced
      rcases hkeeps hincrements with hcancels | ⟨⟨email, hgets⟩, hcan⟩
      · obtain ⟨id, email, method, hconcerns, hmethod⟩ := hannounced.exists_notCancel
        cases hmethod (hcancels id email method hconcerns)
      · obtain ⟨hget, hne, -⟩ := hannounced
        refine ⟨hcan _ (ItipSnapshots.get?_mem hget) hne, ?_⟩
        obtain ⟨-, -, rfl, -⟩ := hsent.exists_full ⟨email, hwhole.2 hgets⟩
        rw [if_pos (hincrement.2 hincrements)]
        exact mem_map_of_mem (mem_map_of_mem
          (mem_shared.2 ⟨id, ItipSnapshots.get?_mem hget, hne⟩))
    refine ⟨fun message hmessage content hcontent => ?_,
      fun hincrements message hmessage content hcontent before hbefore => ?_⟩
    · obtain ⟨id, snapshot, hannounced, rfl⟩ :=
        (hannounces content).1 ⟨message, hmessage, hcontent⟩
      obtain ⟨hid, hsequence⟩ :=
        announcedComponent_states ulaws hread now incrementSequence hannounced.1
      obtain ⟨comp, hcomp⟩ := hread.storedAt hannounced.1
      rw [hid, hsequence, sequenceOf_itipFinalize laws ulaws hread hids hcomp,
        ItipSnapshot.updatedSequence]
      by_cases hset : incrementSequence
      · obtain ⟨hcan, hlisted⟩ := hnumbers (hincrement.1 hset) id snapshot hannounced
        rw [hcomp.compId hsmall] at hlisted
        rw [if_pos hset, if_pos ⟨hlisted, hcomp.comp_eq ▸ hcan.single⟩]
      · have hnone : ids = [] := by
          by_cases hany : ∃ email, SentWhole changes email
          · obtain ⟨-, -, rfl, -⟩ := hsent.exists_full hany
            rw [if_neg hset]
          · exact (hsent.none fun email hsends => hany ⟨email, hsends⟩).1
        rw [if_neg hset, hnone, if_neg fun hboth => absurd hboth.1 not_mem_nil]
    · obtain ⟨id, snapshot, hannounced, rfl⟩ :=
        (hannounces content).1 ⟨message, hmessage, hcontent⟩
      obtain ⟨hid, hsequence⟩ :=
        announcedComponent_states ulaws hread now incrementSequence hannounced.1
      have hcan := (hnumbers hincrements id snapshot hannounced).1
      rw [hid, hread.sequenceOf_eq, hold.sequenceOf_eq, hannounced.1] at hbefore
      rw [hsequence, ItipSnapshot.updatedSequence, if_pos (hincrement.2 hincrements)]
      rcases hbefore with hbefore | hbefore
      · obtain ⟨oldInstance, hget, rfl⟩ := Option.map_eq_some_iff.1 hbefore
        exact hcan.exceeds oldInstance hget
      · cases hbefore
        exact hcan.noWrap

/-- After an update whose numbers agree with the stored ones, one that increments sequences
announces greater numbers only. -/
theorem AnnouncesStored.later {oldIcal ical after : ICalendar} {incremented laterIncremented : Prop}
    (h : AnnouncesStored cal oldIcal ical after messages incremented) {later laterAfter : ICalendar}
    {laterMessages : List ItipMessage}
    (hlater : AnnouncesStored cal after later laterAfter laterMessages laterIncremented)
    (hincremented : laterIncremented)
    {message laterMessage : ItipMessage} (hmessage : message ∈ messages)
    (hlaterMessage : laterMessage ∈ laterMessages)
    {content laterContent : ICalendarComponentType × List ICalendarEntry}
    (hannounces : Announces cal message.message content)
    (hlaterAnnounces : Announces cal laterMessage.message laterContent)
    (hsame : entriesInstance cal ical.zones content.2 =
      entriesInstance cal later.zones laterContent.2) :
    entriesSequence cal content.2 < entriesSequence cal laterContent.2 := by
  have hstored := h.stored message hmessage content hannounces
  rw [hsame] at hstored
  exact hlater.greater hincremented laterMessage hlaterMessage laterContent hlaterAnnounces _
    (.inl hstored)

end Numbers

/-! ## Updates in succession -/

/-- What `itip_snapshot` yields, in some iteration order. -/
def ReadsAs (cal : Calcard) (accountEmails : List String) (ical : ICalendar) :
    Except ItipError ItipSnapshots → Prop
  | .ok snapshots => ReadFrom cal accountEmails ical snapshots
  | .error error => itipSnapshot cal ical accountEmails false = .error error

/-- A run of `itip_update` on an event that the account organizes: the two versions with what is
read of them, the messages and the object to be stored. -/
structure OrganizerUpdate (cal : Calcard) where
  accountEmails : List String
  now : PartialDateTime
  attendeeHandleUpdate : EventVersions → Except UpdateFailure (List ItipMessage)
  attendeeCancel : ItipSnapshots → Except UpdateFailure ItipMessage
  ical : ICalendar
  oldIcal : ICalendar
  after : ICalendar
  oldItip : ItipSnapshots
  again : ItipSnapshots
  newItip : Except ItipError ItipSnapshots
  messages : List ItipMessage
  readsOld : ReadFrom cal accountEmails oldIcal oldItip
  readsAgain : ReadFrom cal accountEmails oldIcal again
  readsNew : ReadsAs cal accountEmails ical newItip
  wellFormed : ical.WellFormed
  small : ical.components.length ≤ 2 ^ 16
  isLocal : oldItip.organizer.email.isLocal
  returns : itipUpdate cal attendeeHandleUpdate attendeeCancel now ical oldIcal (.ok oldItip)
    newItip (.ok again) = .ok (messages, after)

/-- What an announcement says beside its number and its time. -/
def announcedProperties (content : ICalendarComponentType × List ICalendarEntry) :
    ICalendarComponentType × List ICalendarEntry :=
  (content.1, content.2.filter fun entry => entry.name ≠ .sequence ∧ entry.name ≠ .dtstamp)

/-- What an instance has to say: its type, the identifier of the event and the entries that are
sent. -/
def ItipSnapshot.properties (cal : Calcard) (uid : String) (snapshot : ItipSnapshot) :
    ICalendarComponentType × List ICalendarEntry :=
  (snapshot.comp.componentType, cal.uidEntry uid :: snapshot.comp.entries.zipIdx.flatMap
    (exportEntry (snapshot.comp.componentType = .vTodo) (.organizer .needsAction)))

namespace OrganizerUpdate

variable {cal : Calcard}

/-- The two versions, the new one as it was read. -/
def versions (update : OrganizerUpdate cal) (found : ItipSnapshots) : EventVersions :=
  ⟨update.oldIcal, update.ical, update.oldItip, found⟩

/-- The numbers that are announced agree with the stored ones. -/
def AgreesWithStored (update : OrganizerUpdate cal) : Prop :=
  AnnouncesStored cal update.oldIcal update.ical update.after update.messages
    (∃ found, update.newItip = .ok found ∧ Increments update.oldItip found)

/-- Under one number, two updates say the same about an instance. -/
def NeverRepeats (update later : OrganizerUpdate cal) : Prop :=
  ∀ message ∈ update.messages, ∀ content, Announces cal message.message content →
  ∀ laterMessage ∈ later.messages, ∀ laterContent, Announces cal laterMessage.message laterContent →
    entriesInstance cal update.ical.zones content.2 =
      entriesInstance cal later.ical.zones laterContent.2 →
    entriesSequence cal content.2 = entriesSequence cal laterContent.2 →
    announcedProperties content = announcedProperties laterContent

/-- A later update that does not increment sequences says what was said before, about the instances
that both announce and that its new version leaves at the stored number. -/
def SaysTheSame (update later : OrganizerUpdate cal) : Prop :=
  ∀ found laterFound, update.newItip = .ok found → later.newItip = .ok laterFound →
    ¬ Increments later.oldItip laterFound →
    ∀ id snapshot stored laterSnapshot, IsAnnounced cal update.oldItip found id snapshot →
      later.oldItip.get? id = some stored →
      IsAnnounced cal later.oldItip laterFound id laterSnapshot →
      stored.sequence.getD 0 = laterSnapshot.sequence.getD 0 →
      snapshot.properties cal found.uid = laterSnapshot.properties cal laterFound.uid

end OrganizerUpdate

theorem ReadFrom.same_organizer {cal : Calcard} {accountEmails : List String} {ical : ICalendar}
    {snapshots others} (h : ReadFrom cal accountEmails ical snapshots)
    (hothers : ReadFrom cal accountEmails ical others) :
    snapshots.organizer = others.organizer := by
  obtain ⟨first, hfirst, horganizer, -⟩ := h.read
  obtain ⟨second, hsecond, horganizer', -⟩ := hothers.read
  rw [horganizer, horganizer', Except.ok.inj (hfirst.symm.trans hsecond)]

section Succession

variable {cal : Calcard} (laws : cal.Laws) (ulaws : cal.UpdateLaws)

include ulaws

theorem itipMethod_organizerCancel {now} {ical : ICalendar} {itip} {message : ItipMessage}
    (h : organizerCancel cal now ical itip = .ok message) :
    itipMethod message.message = .ok .cancel := by
  unfold organizerCancel at h
  simp only at h
  split at h
  · cases h
  · split at h
    · cases h
    · cases h
      exact (itipAddTz_eq ulaws rfl).1.trans (itipMethod_of_root rfl rfl)

variable (update : OrganizerUpdate cal)

/-- The organizer compares the versions, or cancels the event, which announces nothing. -/
theorem OrganizerUpdate.compares_or_cancels :
    (∃ found ids, update.newItip = .ok found ∧
      organizerHandleUpdate cal update.now (update.versions found) = .ok (ids, update.messages) ∧
      update.after = itipFinalize cal update.ical ids) ∨
    (∀ found, update.newItip ≠ .ok found) ∧
      ∀ message ∈ update.messages, ∀ content, ¬ Announces cal message.message content := by
  obtain ⟨read, hread, h⟩ := bind_eq_ok_iff.1 update.returns
  cases hread
  split at h
  · rename_i found hfound
    simp only at h
    split at h
    · cases h
    · rw [if_pos update.isLocal] at h
      obtain ⟨sent, hsent, heq⟩ := bind_pure_eq_ok_iff.1 h
      obtain ⟨hmessages, hafter⟩ := Prod.mk.inj heq
      exact .inl ⟨found, sent.1, hfound, hmessages ▸ hsent, hafter⟩
  · rename_i error herror
    split at h
    swap
    · cases h
    rw [if_pos update.isLocal] at h
    obtain ⟨itip, hitip, h⟩ := bind_eq_ok_iff.1 h
    cases hitip
    rw [← update.readsOld.same_organizer update.readsAgain, if_pos update.isLocal] at h
    obtain ⟨cancel, hcancel, heq⟩ := bind_pure_eq_ok_iff.1 h
    refine .inr ⟨fun found hfound => ?_, fun message hmessage content hannounces => ?_⟩
    · cases herror.symm.trans hfound
    · rw [(Prod.mk.inj heq).1] at hmessage
      rw [mem_singleton.1 hmessage, Announces, itipMethod_organizerCancel ulaws hcancel]
        at hannounces
      rcases hannounces.1 with h | h <;> cases h

omit ulaws in
theorem OrganizerUpdate.reads {found : ItipSnapshots}
    (h : update.newItip = .ok found) : ReadFrom cal update.accountEmails update.ical found := by
  have hreads := update.readsNew
  rwa [h] at hreads

theorem OrganizerUpdate.states {found : ItipSnapshots} (hfound : update.newItip = .ok found)
    (incrementSequence : Bool) {id : InstanceId} {snapshot : ItipSnapshot}
    (h : IsAnnounced cal update.oldItip found id snapshot) :
    entriesInstance cal update.ical.zones (announcedComponent cal update.now
        (update.versions found) incrementSequence snapshot).contents.2 = id ∧
      entriesSequence cal (announcedComponent cal update.now (update.versions found)
        incrementSequence snapshot).contents.2 = snapshot.updatedSequence incrementSequence := by
  have hread : ReadFrom cal update.accountEmails (update.versions found).newIcal
    (update.versions found).newItip := update.reads hfound
  have hstates := announcedComponent_states ulaws hread update.now incrementSequence h.1
  exact ⟨hstates.instanceId, hstates.sequence⟩

omit ulaws in
theorem exportEntry_names {isTodo : Bool} {status : ICalendarParticipationStatus}
    {entry : ICalendarEntry × ℕ} {sent : ICalendarEntry}
    (h : sent ∈ exportEntry isTodo (.organizer status) entry) :
    sent.name ≠ .sequence ∧ sent.name ≠ .dtstamp := by
  cases hname : entry.1.name <;> simp_all [exportEntry]

theorem announcedProperties_announcedComponent (now : PartialDateTime) (versions : EventVersions)
    (incrementSequence : Bool) (snapshot : ItipSnapshot) :
    announcedProperties (announcedComponent cal now versions incrementSequence snapshot).contents =
      snapshot.properties cal versions.newItip.uid := by
  have hsent (isTodo : Bool) : (snapshot.comp.entries.zipIdx.flatMap
      (exportEntry isTodo (.organizer .needsAction))).filter
        (fun entry => entry.name ≠ .sequence ∧ entry.name ≠ .dtstamp) =
      snapshot.comp.entries.zipIdx.flatMap (exportEntry isTodo (.organizer .needsAction)) := by
    refine filter_eq_self.2 fun sent hin => decide_eq_true ?_
    obtain ⟨entry, -, hentry⟩ := mem_flatMap.1 hin
    exact exportEntry_names hentry
  have hdtstamp := ulaws.dtstampEntry now
  have hsequence := (ulaws.sequenceEntry (snapshot.updatedSequence incrementSequence)).1
  have huid := ulaws.uidEntry versions.newItip.uid
  simp only [announcedComponent, itipExportComponent, ICalendarComponent.contents,
    announcedProperties, ItipSnapshot.properties, append_nil, filter_append, hsent]
  simp [hdtstamp, hsequence, huid]

include laws

theorem OrganizerUpdate.agreesWithStored_iff :
    update.AgreesWithStored ↔
      ∀ found, update.newItip = .ok found → KeepsNumbers cal update.oldItip found := by
  rcases update.compares_or_cancels ulaws with ⟨found, ids, hfound, hsent, hafter⟩ |
    ⟨hnone, hsilent⟩
  · simp only [AgreesWithStored, hafter, hfound, Except.ok.injEq, exists_eq_left', forall_eq']
    exact organizer_announces_stored_iff laws ulaws update.wellFormed update.readsOld
      (update.reads hfound) update.small hsent
  · refine iff_of_true ⟨fun message hmessage content hannounces => ?_,
      fun _ message hmessage content hannounces => ?_⟩
      fun found hfound => absurd hfound (hnone found)
    · cases hsilent message hmessage content hannounces
    · cases hsilent message hmessage content hannounces

theorem OrganizerUpdate.exists_announces {found : ItipSnapshots}
    (hfound : update.newItip = .ok found) :
    ∃ incrementSequence : Bool, (incrementSequence ↔ Increments update.oldItip found) ∧
      ∀ content, (∃ message ∈ update.messages, Announces cal message.message content) ↔
        ∃ id snapshot, IsAnnounced cal update.oldItip found id snapshot ∧
          (announcedComponent cal update.now (update.versions found) incrementSequence
            snapshot).contents = content := by
  rcases update.compares_or_cancels ulaws with ⟨other, ids, hother, hsent, -⟩ | ⟨hnone, -⟩
  · cases hother.symm.trans hfound
    obtain ⟨changes, incrementSequence, full, partials, hmessages, hsent⟩ := exists_sentUpdate hsent
    rw [hmessages]
    exact ⟨incrementSequence, increments_iff hsent.collected, fun content =>
      hsent.announces_iff laws ulaws update.wellFormed (update.reads hfound) update.small⟩
  · cases hnone found hfound

omit laws in
theorem OrganizerUpdate.exists_found {message : ItipMessage} (hmessage : message ∈ update.messages)
    {content} (hannounces : Announces cal message.message content) :
    ∃ found, update.newItip = .ok found := by
  rcases update.compares_or_cancels ulaws with ⟨found, -, hfound, -⟩ | ⟨-, hsilent⟩
  · exact ⟨found, hfound⟩
  · cases hsilent message hmessage content hannounces

/-- Between updates whose numbers agree with the stored ones, a number is announced for other
contents only by a later one that leaves it as it is stored. -/
theorem OrganizerUpdate.neverRepeats_iff {update later : OrganizerUpdate cal}
    (hstored : later.oldIcal = update.after) (hagrees : update.AgreesWithStored)
    (hlaterAgrees : later.AgreesWithStored) :
    update.NeverRepeats later ↔ update.SaysTheSame later := by
  -- the later update finds the announced number in the old version
  have hfinds {message : ItipMessage} (hmessage : message ∈ update.messages) {content}
      (hannounces : Announces cal message.message content) :
      ∃ stored, later.oldItip.get? (entriesInstance cal update.ical.zones content.2) = some stored ∧
        stored.sequence.getD 0 = entriesSequence cal content.2 := by
    have hnumber := hagrees.stored message hmessage content hannounces
    rw [← hstored, later.readsOld.sequenceOf_eq] at hnumber
    exact Option.map_eq_some_iff.1 hnumber
  constructor
  · intro hnever found laterFound hfound hlaterFound hincrements id snapshot stored laterSnapshot
      hannounced hget hlaterAnnounced hsame
    obtain ⟨incrementSequence, -, hiff⟩ := update.exists_announces laws ulaws hfound
    obtain ⟨laterIncrement, hlaterIncrement, hlaterIff⟩ :=
      later.exists_announces laws ulaws hlaterFound
    obtain ⟨message, hmessage, hannounces⟩ := (hiff _).2 ⟨id, snapshot, hannounced, rfl⟩
    obtain ⟨laterMessage, hlaterMessage, hlaterAnnounces⟩ :=
      (hlaterIff _).2 ⟨id, laterSnapshot, hlaterAnnounced, rfl⟩
    obtain ⟨hid, -⟩ := update.states ulaws hfound incrementSequence hannounced
    obtain ⟨hlaterId, hlaterSequence⟩ :=
      later.states ulaws hlaterFound laterIncrement hlaterAnnounced
    obtain ⟨other, hother, hnumber⟩ := hfinds hmessage hannounces
    rw [hid, hget] at hother
    obtain rfl := Option.some.inj hother
    have hproperties := hnever message hmessage _ hannounces laterMessage hlaterMessage _
      hlaterAnnounces (hid.trans hlaterId.symm) <| by
        rw [← hnumber, hsame, hlaterSequence, ItipSnapshot.updatedSequence,
          if_neg fun hset => hincrements (hlaterIncrement.1 hset)]
    rwa [announcedProperties_announcedComponent ulaws,
      announcedProperties_announcedComponent ulaws] at hproperties
  · intro hsays message hmessage content hannounces laterMessage hlaterMessage laterContent
      hlaterAnnounces hinstance hsequence
    obtain ⟨found, hfound⟩ := update.exists_found ulaws hmessage hannounces
    obtain ⟨laterFound, hlaterFound⟩ := later.exists_found ulaws hlaterMessage hlaterAnnounces
    by_cases hincrements : Increments later.oldItip laterFound
    · rw [AgreesWithStored, hstored] at hlaterAgrees
      have hless := AnnouncesStored.later hagrees hlaterAgrees
        ⟨laterFound, hlaterFound, hincrements⟩ hmessage hlaterMessage hannounces hlaterAnnounces
        hinstance
      cases hless.ne hsequence
    · obtain ⟨stored, hget, hnumber⟩ := hfinds hmessage hannounces
      obtain ⟨incrementSequence, -, hiff⟩ := update.exists_announces laws ulaws hfound
      obtain ⟨laterIncrement, hlaterIncrement, hlaterIff⟩ :=
        later.exists_announces laws ulaws hlaterFound
      obtain ⟨id, snapshot, hannounced, rfl⟩ := (hiff content).1 ⟨message, hmessage, hannounces⟩
      obtain ⟨id', laterSnapshot, hlaterAnnounced, rfl⟩ :=
        (hlaterIff laterContent).1 ⟨laterMessage, hlaterMessage, hlaterAnnounces⟩
      obtain ⟨hid, -⟩ := update.states ulaws hfound incrementSequence hannounced
      obtain ⟨hlaterId, hlaterSequence⟩ :=
      later.states ulaws hlaterFound laterIncrement hlaterAnnounced
      obtain rfl : id = id' := hid.symm.trans (hinstance.trans hlaterId)
      rw [hid] at hget
      rw [announcedProperties_announcedComponent ulaws,
        announcedProperties_announcedComponent ulaws]
      refine hsays found laterFound hfound hlaterFound hincrements id snapshot stored laterSnapshot
        hannounced hget hlaterAnnounced ?_
      rw [hnumber, hsequence, hlaterSequence, ItipSnapshot.updatedSequence,
        if_neg fun hset => hincrements (hlaterIncrement.1 hset)]

/-- **When announced and stored numbers agree**: whenever the organizer's update increments
sequences, it only cancels, or somebody gets the whole event and every shared instance can be
incremented. **When no number is announced for two contents**, by two updates of which the second
one changes what the first one stored: when also the second one, should it not increment sequences,
repeats what was said of the instances it leaves at their numbers. -/
theorem announces_stored_iff (update : OrganizerUpdate cal) :
    (AnnouncesStored cal update.oldIcal update.ical update.after update.messages
        (∃ found, update.newItip = .ok found ∧ Increments update.oldItip found) ↔
      ∀ found, update.newItip = .ok found → KeepsNumbers cal update.oldItip found) ∧
    ∀ later : OrganizerUpdate cal, later.oldIcal = update.after →
      (update.AgreesWithStored ∧ later.AgreesWithStored ∧ update.NeverRepeats later ↔
        (∀ found, update.newItip = .ok found → KeepsNumbers cal update.oldItip found) ∧
        (∀ found, later.newItip = .ok found → KeepsNumbers cal later.oldItip found) ∧
        update.SaysTheSame later) := by
  refine ⟨update.agreesWithStored_iff laws ulaws, fun later hstored => ?_⟩
  have hagrees := update.agreesWithStored_iff laws ulaws
  have hlaterAgrees := later.agreesWithStored_iff laws ulaws
  rw [← hagrees, ← hlaterAgrees]
  exact and_congr_right fun h => and_congr_right fun hlater =>
    OrganizerUpdate.neverRepeats_iff laws ulaws hstored h hlater

end Succession

/-! ## One instance is moved -/

theorem Calcard.plain_updateLaws : Calcard.plain.UpdateLaws where
  integer _ := rfl
  notInteger value sequence h := by
    cases value <;> cases h
    rfl
  dtstampEntry _ := rfl
  sequenceEntry _ := ⟨rfl, rfl⟩
  uidEntry _ := rfl
  copiedContents _ _ _ _ := rfl
  copiedMethod _ _ _ := rfl

/-- The instance of Carol moves to another room: sequence 1 is announced, and the stored instance
has none. -/
theorem announced_not_stored :
    ¬ ∀ (cal : Calcard), cal.Laws → cal.UpdateLaws →
        ∀ (attendeeHandleUpdate : EventVersions → Except UpdateFailure (List ItipMessage))
          (attendeeCancel : ItipSnapshots → Except UpdateFailure ItipMessage)
          (now : PartialDateTime) (accountEmails : List String) (ical oldIcal after : ICalendar)
          (oldItip again found : ItipSnapshots) (messages : List ItipMessage),
        ReadFrom cal accountEmails oldIcal oldItip → ReadFrom cal accountEmails oldIcal again →
        ReadFrom cal accountEmails ical found → ical.WellFormed →
        ical.components.length ≤ 2 ^ 16 → oldItip.organizer.email.isLocal →
        itipUpdate cal attendeeHandleUpdate attendeeCancel now ical oldIcal (.ok oldItip)
          (.ok found) (.ok again) = .ok (messages, after) →
        AnnouncesStored cal oldIcal ical after messages (Increments oldItip found) := by
  intro h
  have hold : ReadFrom .plain ["me@a.org"] (weekly "room 1" "room 1") _ := .of_snapshot rfl
  have hnew : ReadFrom .plain ["me@a.org"] (weekly "room 1" "room 2") _ := .of_snapshot rfl
  have hagree := h .plain Calcard.plain_laws Calcard.plain_updateLaws (fun _ => .error .panic)
    (fun _ => .error .panic) {} ["me@a.org"] _ _ _ _ _ _ _ hold hold hnew
    ⟨by decide, by decide⟩ (by decide) rfl rfl
  have hstored := hagree.stored _ (mem_of_getElem? (i := 0) rfl) _
    ⟨.inl rfl, mem_of_getElem? (i := 0) rfl⟩
  cases hstored

/-- The weekly meeting as an update stores it. -/
def numberedWeekly (place : String) (sequence : ℤ) : ICalendar :=
  ⟨(weekly place place).components.map fun comp =>
    if comp.componentType = .vEvent then
      { comp with entries := comp.entries ++ [Calcard.plain.sequenceEntry sequence] }
    else comp⟩

/-- The meeting moves to another room, where Bob gets the whole event. -/
def firstMove : OrganizerUpdate .plain where
  accountEmails := ["me@a.org"]
  now := {}
  attendeeHandleUpdate _ := .error .panic
  attendeeCancel _ := .error .panic
  ical := weekly "room 2" "room 2"
  oldIcal := weekly "room 1" "room 1"
  after := numberedWeekly "room 2" 1
  oldItip := _
  again := _
  newItip := .ok _
  messages := _
  readsOld := .of_snapshot rfl
  readsAgain := .of_snapshot rfl
  readsNew := ReadFrom.of_snapshot rfl
  wellFormed := ⟨by decide, by decide⟩
  small := by decide
  isLocal := rfl
  returns := rfl

/-- The meeting moves on. -/
def secondMove : OrganizerUpdate .plain where
  accountEmails := ["me@a.org"]
  now := {}
  attendeeHandleUpdate _ := .error .panic
  attendeeCancel _ := .error .panic
  ical := numberedWeekly "room 3" 1
  oldIcal := numberedWeekly "room 2" 1
  after := numberedWeekly "room 3" 2
  oldItip := _
  again := _
  newItip := .ok _
  messages := _
  readsOld := .of_snapshot rfl
  readsAgain := .of_snapshot rfl
  readsNew := ReadFrom.of_snapshot rfl
  wellFormed := ⟨by decide, by decide⟩
  small := by decide
  isLocal := rfl
  returns := rfl

theorem announces_stored_iff_moves :
    secondMove.oldIcal = firstMove.after ∧ firstMove.messages ≠ [] ∧ secondMove.messages ≠ [] ∧
      firstMove.AgreesWithStored ∧ secondMove.AgreesWithStored ∧
      firstMove.NeverRepeats secondMove := by
  have hfirst (found) (hfound : firstMove.newItip = .ok found) :
      KeepsNumbers .plain firstMove.oldItip found := by
    obtain rfl := Except.ok.inj hfound
    exact fun _ => .inr ⟨⟨"bob@b.org", .inl (.changed (.head _) rfl (.inl rfl)
      ⟨_, .head _, rfl, rfl⟩)⟩, by decide +kernel⟩
  have hsecond (found) (hfound : secondMove.newItip = .ok found) :
      KeepsNumbers .plain secondMove.oldItip found := by
    obtain rfl := Except.ok.inj hfound
    exact fun _ => .inr ⟨⟨"bob@b.org", .inl (.changed (.head _) rfl (.inl rfl)
      ⟨_, .head _, rfl, rfl⟩)⟩, by decide +kernel⟩
  have hboth := announces_stored_iff Calcard.plain_laws Calcard.plain_updateLaws firstMove
  refine ⟨rfl, nofun, nofun, (hboth.2 secondMove rfl).2 ⟨hfirst, hsecond, ?_⟩⟩
  intro found laterFound _ hlaterFound hincrements
  obtain rfl := Except.ok.inj hlaterFound
  refine absurd (.inl ⟨_, .head _, fun oldInstance hold => .inr ⟨?_, ?_⟩⟩) hincrements
  all_goals obtain rfl := Option.some.inj hold
  · decide +kernel
  · exact ⟨_, .head _, by decide +kernel⟩

end MailServer.Scheduling
