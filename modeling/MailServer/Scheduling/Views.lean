import MailServer.Scheduling.Replies
import MailServer.Scheduling.Sequence

/-!
# Comparing calendar objects by their snapshots

Two snapshots say the same when they have the same instances and, for each of them, the same
scheduling entries, attendees and sequence, the first two as sets.

Principal results: `exists_snapshot_iff`, `ReadFrom.views_eq_some_iff`.
-/

namespace MailServer.Scheduling

open List

/-- What an instance is compared by. -/
@[ext]
structure View where
  entries : Set ItipEntry
  attendees : Set AttendeeKey
  sequence : Option ℤ

def ItipSnapshot.view (snapshot : ItipSnapshot) : View where
  entries := {entry | entry ∈ snapshot.entries}
  attendees := {key | key ∈ snapshot.attendees.map Attendee.key}
  sequence := snapshot.sequence

/-- The views of the instances of an object. -/
def ItipSnapshots.views (snapshots : ItipSnapshots) (id : InstanceId) : Option View :=
  (snapshots.get? id).map ItipSnapshot.view

theorem uniform_congr {α : Type} {xs ys : List α} (h : ∀ x, x ∈ xs ↔ x ∈ ys) :
    Uniform xs ↔ Uniform ys := by
  simp only [Uniform, h]

section Contents

variable (cal : Calcard) (zones : List Zone) (emails : List String) (entry : ICalendarEntry)

def entryOrganizer : Option Organizer :=
  readOrganizer cal emails (entry, 0)

def entryAttendee : Option Attendee :=
  readAttendee cal emails (entry, 0)

/-- The view of an instance with these entries. -/
def view (entries : List ICalendarEntry) : View where
  entries := {item | ∃ entry ∈ entries, item ∈ readTracked cal zones entry}
  attendees := {key | ∃ entry ∈ entries, ∃ part, entryAttendee cal emails entry = some part ∧
    part.key = key}
  sequence := (entries.filterMap (readSequence cal)).getLast?

/-- The contents of the scheduling components of an object that has a snapshot. -/
structure Readable (contents : List (ICalendarComponentType × List ICalendarEntry)) : Prop where
  agent : ∀ entry ∈ contents.flatMap Prod.snd, ∀ part,
    entryOrganizer cal emails entry = some part → part.isServerScheduling
  organizers : Uniform ((contents.flatMap Prod.snd).filterMap fun entry =>
    (entryOrganizer cal emails entry).map (·.email.email))
  uids : Uniform ((contents.flatMap Prod.snd).filterMap (readUid cal))
  objectType : Uniform (contents.map Prod.fst)
  instances : (contents.map fun comp => entriesInstance cal zones comp.2).Nodup
  party : ∃ entry ∈ contents.flatMap Prod.snd,
    (∃ part, entryOrganizer cal emails entry = some part ∧ part.email.isLocal) ∨
      ∃ part, entryAttendee cal emails entry = some part ∧ part.isParty false
  organizer : ∃ entry ∈ contents.flatMap Prod.snd, ∃ part,
    entryOrganizer cal emails entry = some part
  uid : ∃ entry ∈ contents.flatMap Prod.snd, ∃ uid, readUid cal entry = some uid

variable {cal zones emails}

theorem foldl_organizer_readParam (params : List ICalendarParameter) (part : Organizer)
    (entryId : UInt16) :
    params.foldl Organizer.readParam { part with entryId } =
      { params.foldl Organizer.readParam part with entryId } := by
  induction params generalizing part with
  | nil => rfl
  | cons param params ih =>
    rw [foldl_cons, foldl_cons, ← ih]
    congr 1
    simp only [Organizer.readParam]
    split <;> rfl

theorem foldl_attendee_readParam (params : List ICalendarParameter) (part : Attendee)
    (entryId : UInt16) :
    params.foldl (Attendee.readParam cal emails) { part with entryId } =
      { params.foldl (Attendee.readParam cal emails) part with entryId } := by
  induction params generalizing part with
  | nil => rfl
  | cons param params ih =>
    rw [foldl_cons, foldl_cons, ← ih]
    congr 1
    simp only [Attendee.readParam]
    split <;> rfl

theorem readOrganizer_eq (position : ℕ) :
    readOrganizer cal emails (entry, position) =
      (entryOrganizer cal emails entry).map
        ({ · with entryId := position.toUInt16 }) := by
  rw [entryOrganizer, readOrganizer, readOrganizer]
  split
  · rw [Option.map_map]
    refine Option.map_congr fun email _ => ?_
    exact foldl_organizer_readParam entry.params
      { entryId := 0, email, isServerScheduling := true, forceSend := none } _
  · rfl

theorem readAttendee_eq (position : ℕ) :
    readAttendee cal emails (entry, position) =
      (entryAttendee cal emails entry).map
        ({ · with entryId := position.toUInt16 }) := by
  rw [entryAttendee, readAttendee, readAttendee]
  split
  · rw [Option.map_map]
    refine Option.map_congr fun email _ => ?_
    exact foldl_attendee_readParam entry.params
      { entryId := 0, email, partStat := none, delegatedFrom := [], delegatedTo := [],
        role := none, cuType := none, sentBy := none, rsvp := none, isServerScheduling := true,
        forceSend := none } _
  · rfl

theorem exists_filterMap_zipIdx {α β γ : Type} {read} {readEntry : α → Option β}
    {place : ℕ → β → β}
    (hread : ∀ entry position, read (entry, position) = (readEntry entry).map (place position))
    (f : β → γ) (hf : ∀ position part, f (place position part) = f part) {entries : List α}
    {y : γ} :
    (∃ part ∈ entries.zipIdx.filterMap read, f part = y) ↔
      ∃ entry ∈ entries, ∃ part, readEntry entry = some part ∧ f part = y := by
  constructor
  · rintro ⟨part, hpart, rfl⟩
    obtain ⟨⟨entry, position⟩, hentry, hentryRead⟩ := mem_filterMap.1 hpart
    rw [hread] at hentryRead
    obtain ⟨found, hfound, rfl⟩ := Option.map_eq_some_iff.1 hentryRead
    exact ⟨entry, fst_mem_of_mem_zipIdx hentry, found, hfound, (hf _ _).symm⟩
  · rintro ⟨entry, hentry, part, hpart, rfl⟩
    obtain ⟨position, hposition⟩ := getElem?_of_mem hentry
    refine ⟨place position part, mem_filterMap.2
      ⟨(entry, position), mem_zipIdx_iff_getElem?.2 hposition, ?_⟩, hf _ _⟩
    rw [hread, hpart, Option.map_some]

theorem mem_componentOrganizers {β : Type} (f : Organizer → β)
    (hf : ∀ part entryId, f { part with entryId } = f part) {comp : ICalendarComponent × ℕ}
    {y : β} :
    (∃ part ∈ componentOrganizers cal emails comp, f part = y) ↔
      ∃ entry ∈ comp.1.entries, ∃ part, entryOrganizer cal emails entry = some part ∧
        f part = y :=
  exists_filterMap_zipIdx readOrganizer_eq f fun _ part => hf part _

theorem mem_componentAttendees {β : Type} (f : Attendee → β)
    (hf : ∀ part entryId, f { part with entryId } = f part) {comp : ICalendarComponent × ℕ}
    {y : β} :
    (∃ part ∈ componentAttendees cal emails comp, f part = y) ↔
      ∃ entry ∈ comp.1.entries, ∃ part, entryAttendee cal emails entry = some part ∧
        f part = y :=
  exists_filterMap_zipIdx readAttendee_eq f fun _ part => hf part _

variable {ical : ICalendar}

theorem mem_flatMap_scheduledContents {entry : ICalendarEntry} :
    entry ∈ (scheduledContents cal ical).flatMap Prod.snd ↔
      ∃ comp ∈ schedulingComponents cal ical, entry ∈ comp.1.entries := by
  rw [scheduledContents_eq, mem_flatMap]
  constructor
  · rintro ⟨contents, hcontents, hentry⟩
    obtain ⟨comp, hcomp, rfl⟩ := mem_map.1 hcontents
    exact ⟨comp, hcomp, hentry⟩
  · rintro ⟨comp, hcomp, hentry⟩
    exact ⟨comp.1.contents, mem_map_of_mem hcomp, hentry⟩

theorem exists_mem_schedulingComponents {β : Type} {parts}
    {P : β → Prop} {Q : ICalendarEntry → Prop}
    (h : ∀ comp, (∃ part ∈ parts comp, P part) ↔ ∃ entry ∈ comp.1.entries, Q entry) :
    (∃ part ∈ (schedulingComponents cal ical).flatMap parts, P part) ↔
      ∃ entry ∈ (scheduledContents cal ical).flatMap Prod.snd, Q entry := by
  simp only [mem_flatMap_scheduledContents]
  simp only [mem_flatMap]
  constructor
  · rintro ⟨part, ⟨comp, hcomp, hpart⟩, hy⟩
    obtain ⟨entry, hentry, hread⟩ := (h comp).1 ⟨part, hpart, hy⟩
    exact ⟨entry, ⟨comp, hcomp, hentry⟩, hread⟩
  · rintro ⟨entry, ⟨comp, hcomp, hentry⟩, hread⟩
    obtain ⟨part, hpart, hy⟩ := (h comp).2 ⟨entry, hentry, hread⟩
    exact ⟨part, ⟨comp, hcomp, hpart⟩, hy⟩

theorem exists_organizer_iff {β : Type} (f : Organizer → β)
    (hf : ∀ part entryId, f { part with entryId } = f part) {y : β} :
    (∃ part ∈ (schedulingComponents cal ical).flatMap (componentOrganizers cal emails),
        f part = y) ↔
      ∃ entry ∈ (scheduledContents cal ical).flatMap Prod.snd,
        ∃ part, entryOrganizer cal emails entry = some part ∧ f part = y :=
  exists_mem_schedulingComponents fun _ => mem_componentOrganizers f hf

theorem exists_attendee_iff {β : Type} (f : Attendee → β)
    (hf : ∀ part entryId, f { part with entryId } = f part) {y : β} :
    (∃ part ∈ (schedulingComponents cal ical).flatMap (componentAttendees cal emails),
        f part = y) ↔
      ∃ entry ∈ (scheduledContents cal ical).flatMap Prod.snd,
        ∃ part, entryAttendee cal emails entry = some part ∧ f part = y :=
  exists_mem_schedulingComponents fun _ => mem_componentAttendees f hf

theorem flatMap_componentUids :
    (schedulingComponents cal ical).flatMap (componentUids cal) =
      ((scheduledContents cal ical).flatMap Prod.snd).filterMap (readUid cal) := by
  rw [scheduledContents_eq, flatMap_map, filterMap_flatMap]
  rfl

theorem uniform_organizers_iff :
    Uniform (((schedulingComponents cal ical).flatMap
        (componentOrganizers cal emails)).map (·.email.email)) ↔
      Uniform (((scheduledContents cal ical).flatMap Prod.snd).filterMap fun entry =>
        (entryOrganizer cal emails entry).map (·.email.email)) := by
  refine uniform_congr fun email => ?_
  rw [mem_map, exists_organizer_iff _ fun _ _ => rfl, mem_filterMap]
  simp only [Option.map_eq_some_iff]

/-- **Which objects have a snapshot.** -/
theorem exists_snapshot_iff :
    (∃ snapshots, itipSnapshot cal ical emails false = .ok snapshots) ↔
      Readable cal ical.zones emails (scheduledContents cal ical) := by
  have htypes : (schedulingComponents cal ical).map (·.1.componentType) =
      (scheduledContents cal ical).map Prod.fst := by
    rw [scheduledContents_eq, map_map]
    rfl
  have hinstances : ((schedulingComponents cal ical).map fun comp =>
      componentInstance cal ical.zones comp.1) =
      (scheduledContents cal ical).map fun comp => entriesInstance cal ical.zones comp.2 := by
    rw [scheduledContents_eq, map_map]
    rfl
  have hparty : (((schedulingComponents cal ical).flatMap
        (componentOrganizers cal emails)).any (·.email.isLocal) ||
      ((schedulingComponents cal ical).flatMap (componentAttendees cal emails)).any
        (Attendee.isParty false)) ↔
      ∃ entry ∈ (scheduledContents cal ical).flatMap Prod.snd,
        (∃ part, entryOrganizer cal emails entry = some part ∧ part.email.isLocal) ∨
        ∃ part, entryAttendee cal emails entry = some part ∧ part.isParty false := by
    rw [Bool.or_eq_true, any_eq_true, any_eq_true,
      exists_organizer_iff (·.email.isLocal) fun _ _ => rfl,
      exists_attendee_iff (Attendee.isParty false) fun _ _ => rfl]
    simp only [and_or_left, exists_or]
  simp only [itipSnapshot_eq_ok_iff]
  constructor
  · rintro ⟨snapshots, h⟩
    refine ⟨fun entry hentry part hpart => ?_, uniform_organizers_iff.1 h.organizers,
      flatMap_componentUids ▸ h.uids, htypes ▸ h.objectType, hinstances ▸ h.instances,
      hparty.1 h.party, ?_, ?_⟩
    · obtain ⟨part', hpart', hsame⟩ := (exists_organizer_iff (·.isServerScheduling)
        fun _ _ => rfl).2 ⟨entry, hentry, part, hpart, rfl⟩
      exact hsame.symm.trans ((h.agent part' hpart').resolve_right Bool.false_ne_true)
    · obtain ⟨entry, hentry, part, hpart, -⟩ := (exists_organizer_iff (fun _ => ())
        fun _ _ => rfl).1 ⟨_, mem_of_head? h.organizer, rfl⟩
      exact ⟨entry, hentry, part, hpart⟩
    · have hmem := mem_of_head? h.uid
      rw [flatMap_componentUids] at hmem
      obtain ⟨entry, hentry, hread⟩ := mem_filterMap.1 hmem
      exact ⟨entry, hentry, _, hread⟩
  · intro h
    obtain ⟨entry, hentry, part, hpart⟩ := h.organizer
    obtain ⟨part', hpart', -⟩ := (exists_organizer_iff (fun _ => ()) fun _ _ => rfl).2
      ⟨entry, hentry, part, hpart, rfl⟩
    obtain ⟨organizer, horganizer⟩ := Option.isSome_iff_exists.1
      (isSome_head?.2 (ne_nil_of_mem hpart'))
    obtain ⟨entry, hentry, uid, huid⟩ := h.uid
    have hmem := mem_filterMap.2 ⟨entry, hentry, huid⟩
    rw [← flatMap_componentUids] at hmem
    obtain ⟨uid, huid⟩ := Option.isSome_iff_exists.1 (isSome_head?.2 (ne_nil_of_mem hmem))
    refine ⟨⟨organizer, uid, _⟩, fun part hpart => .inl ?_, uniform_organizers_iff.2 h.organizers,
      flatMap_componentUids ▸ h.uids, htypes ▸ h.objectType, hinstances ▸ h.instances,
      hparty.2 h.party, horganizer, huid, rfl⟩
    obtain ⟨entry, hentry, part', hpart', hsame⟩ := (exists_organizer_iff
      (·.isServerScheduling) fun _ _ => rfl).1 ⟨part, hpart, rfl⟩
    exact hsame.symm.trans (h.agent entry hentry part' hpart')

theorem StoredAt.view_eq {id : InstanceId} {snapshot : ItipSnapshot}
    {comp : ICalendarComponent × ℕ} (h : StoredAt cal emails ical id snapshot comp) :
    snapshot.view = view cal ical.zones emails comp.1.entries := by
  refine View.ext (Set.ext fun item => h.mem_entries) (Set.ext fun key => ?_) h.sequence_eq
  have hattendees : key ∈ snapshot.attendees.map Attendee.key ↔
      ∃ part ∈ componentAttendees cal emails comp, part.key = key := by
    rw [mem_map]
    constructor
    · rintro ⟨part, hpart, rfl⟩
      rw [h.reorders.attendees.mem_iff] at hpart
      exact ⟨part, (mem_foldl_insertAttendee hpart).resolve_left not_mem_nil, rfl⟩
    · rintro ⟨part, hpart, rfl⟩
      have hadded : part ∈ [] ∨ part ∈ componentAttendees cal emails comp := .inr hpart
      obtain ⟨found, hfound, hkey⟩ := mem_foldl_insertAttendee_of_mem hadded
      exact ⟨found, h.reorders.attendees.mem_iff.2 hfound, hkey⟩
  exact hattendees.trans (mem_componentAttendees Attendee.key fun _ _ => rfl)

/-- **The views of the instances of an object**, read off its scheduling components. -/
theorem ReadFrom.views_eq_some_iff {snapshots}
    (h : ReadFrom cal emails ical snapshots) {id : InstanceId} {found : View} :
    snapshots.views id = some found ↔
      ∃ comp ∈ scheduledContents cal ical, entriesInstance cal ical.zones comp.2 = id ∧
        view cal ical.zones emails comp.2 = found := by
  rw [ItipSnapshots.views, Option.map_eq_some_iff, scheduledContents_eq]
  constructor
  · rintro ⟨snapshot, hget, rfl⟩
    obtain ⟨comp, hcomp⟩ := h.storedAt hget
    exact ⟨comp.1.contents, mem_map_of_mem hcomp.mem, hcomp.id_eq, hcomp.view_eq.symm⟩
  · rintro ⟨contents, hcontents, rfl, rfl⟩
    obtain ⟨comp, hcomp, rfl⟩ := mem_map.1 hcontents
    obtain ⟨snapshot, hget, hstored⟩ := h.get?_of_mem hcomp
    exact ⟨snapshot, hget, hstored.view_eq⟩

end Contents

end MailServer.Scheduling
