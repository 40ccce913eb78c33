import MailServer.Scheduling.Views
import Mathlib.Data.List.Perm.Subperm

/-!
# A request from the organizer

A request of the whole event is to bring the copy of an attendee in line with the organizer's: the
merged calendar is to have the snapshot of the message. What is merged is read in the context of the
stored object, whose time zones the message does not change.

Principal results: `mem_request_contents`, `inLine_iff`, `request_brings_in_line_iff`,
`request_in_another_zone`.
-/

namespace MailServer.Scheduling

open List

variable {entry : ICalendarEntry} {entries : List ICalendarEntry} {zones : List Zone}
variable {item : ItipEntry}

/-- The stored instances that a message names. -/
def keptInstances (snapshots itipSnapshots : ItipSnapshots) : List (InstanceId × ItipSnapshot) :=
  snapshots.components.filter fun stored => (itipSnapshots.get? stored.1).isSome

/-- The instances of a message that are not stored. -/
def newInstances (snapshots itipSnapshots : ItipSnapshots) : List (InstanceId × ItipSnapshot) :=
  itipSnapshots.components.filter fun update => (snapshots.get? update.1).isNone

/-- The entries of a stored instance after a request. -/
def updatedEntries (snapshot update : ItipSnapshot) : List ICalendarEntry :=
  (snapshot.comp.entries.filter (!(changedEntries update snapshot).contains ·.name)) ++
    update.comp.entries.filter ((changedEntries update snapshot).contains ·.name)

/-- A request from the organizer of a stored event, who is not the account, no older than any stored
instance. -/
structure OrganizerRequest (cal : Calcard) (emails : List String) (event itip : ICalendar)
    (snapshots itipSnapshots : ItipSnapshots) : Prop where
  readings : Readings cal emails event itip snapshots itipSnapshots
  remote : snapshots.organizer.email.isLocal = false
  sameOrganizer : snapshots.organizer.email.email = itipSnapshots.organizer.email.email
  isRequest : itipMethod itip = .ok .request
  hasMain : itipSnapshots.components.any (·.1 = .main)
  inSequence : InSequence snapshots itipSnapshots

section Request

variable {cal : Calcard} {emails : List String} {event itip : ICalendar}
  {snapshots itipSnapshots : ItipSnapshots} {actions : List MergeAction}

theorem mem_keptInstances (hnodup : (snapshots.components.map Prod.fst).Nodup)
    {stored} :
    stored ∈ keptInstances snapshots itipSnapshots ↔
      snapshots.get? stored.1 = some stored.2 ∧
        ∃ update, itipSnapshots.get? stored.1 = some update := by
  rw [keptInstances, mem_filter, ItipSnapshots.get?_eq_some_iff hnodup,
    Option.isSome_iff_exists]

theorem mem_newInstances (hnodup : (itipSnapshots.components.map Prod.fst).Nodup)
    {update} :
    update ∈ newInstances snapshots itipSnapshots ↔
      itipSnapshots.get? update.1 = some update.2 ∧ snapshots.get? update.1 = none := by
  rw [newInstances, mem_filter, ItipSnapshots.get?_eq_some_iff hnodup,
    Option.isNone_iff_eq_none]

theorem OrganizerRequest.accepted
    (h : OrganizerRequest cal emails event itip snapshots itipSnapshots)
    (now : PartialDateTime) (sender : String) :
    ∃ actions, itipProcessMessage cal now event snapshots itip itipSnapshots sender =
      .ok (.actions actions) ∧ handleRequest snapshots itip itipSnapshots = .ok actions := by
  have hupdates : (∃ actions, itipProcessMessage cal now event snapshots itip itipSnapshots sender =
      .ok (.actions actions)) ↔ _ :=
    updates_iff h.remote h.readings.message.components_ne_nil h.isRequest (.inl rfl)
  obtain ⟨actions, hactions⟩ := hupdates.2 ⟨h.sameOrganizer, h.inSequence⟩
  refine ⟨actions, hactions, ?_⟩
  obtain ⟨-, -, method, hmethod, hmerge, -⟩ := itipProcessMessage_actions_iff.1 hactions
  cases h.isRequest.symm.trans hmethod
  rwa [mergeActions, h.remote] at hmerge

section

variable (laws : cal.Laws)
  (h : OrganizerRequest cal emails event itip snapshots itipSnapshots)
  (hactions : handleRequest snapshots itip itipSnapshots = .ok actions)
include laws h hactions

theorem request_contents : scheduledContents cal (itipMergeChanges cal event actions) =
      ((schedulingComponents cal event).filter fun comp =>
          (itipSnapshots.get? (componentInstance cal event.zones comp.1)).isSome).map
        (fun comp => (comp.1.componentType, entriesAfter actions comp.2 comp.1.entries)) ++
        if event.hasRoot then (newInstances snapshots itipSnapshots).map fun update =>
          (newComponent update.2.comp ICalendarProperty.isOther []).contents
        else [] := by
  rw [scheduled_merge laws (request_scheduled h.readings hactions)]
  congr 1
  · refine congrArg _ (filter_congr fun comp hcomp => ?_)
    obtain ⟨snapshot, hget, hstored⟩ := h.readings.stored.get?_of_mem hcomp
    obtain ⟨-, -, hremoved⟩ := request_effect h.readings hactions hget hstored []
    rw [h.hasMain] at hremoved
    cases hfound : itipSnapshots.get? (componentInstance cal event.zones comp.1) with
    | none | some => simp [hremoved, hfound]
  · rw [request_added hactions]
    split
    swap
    · rfl
    rw [map_map]
    refine map_congr_left fun update hupdate => ?_
    obtain ⟨comp, hcomp⟩ := h.readings.message.storedAt_of_mem (mem_filter.1 hupdate).1
    rw [Function.comp_apply, hcomp.component_eq h.readings.messageSmall, hcomp.comp_eq]

/-- **What the scheduling components of the merged calendar hold.** -/
theorem mem_request_contents {contents : ICalendarComponentType × List ICalendarEntry} :
    contents ∈ scheduledContents cal (itipMergeChanges cal event actions) ↔
      (∃ id snapshot update, snapshots.get? id = some snapshot ∧
        itipSnapshots.get? id = some update ∧
        contents = (snapshot.comp.componentType, updatedEntries snapshot update)) ∨
      (event.hasRoot ∧ ∃ update ∈ newInstances snapshots itipSnapshots,
        contents = (newComponent update.2.comp ICalendarProperty.isOther []).contents) := by
  have hkept {id : InstanceId} {snapshot update : ItipSnapshot} {comp : ICalendarComponent × ℕ}
      (hget : snapshots.get? id = some snapshot)
      (hstored : StoredAt cal emails event id snapshot comp)
      (hupdate : itipSnapshots.get? id = some update) :
      (comp.1.componentType, entriesAfter actions comp.2 comp.1.entries) =
        (snapshot.comp.componentType, updatedEntries snapshot update) := by
    obtain ⟨comp', hcomp'⟩ := h.readings.message.storedAt hupdate
    obtain ⟨hmentioned, -⟩ := request_effect h.readings hactions hget hstored comp.1.entries
    rw [(hmentioned update hupdate).2, hcomp'.component_eq h.readings.messageSmall, updatedEntries,
      hstored.comp_eq, hcomp'.comp_eq]
  rw [request_contents laws h hactions, mem_append, mem_map]
  refine or_congr ?_ ?_
  · constructor
    · rintro ⟨comp, hcomp, rfl⟩
      obtain ⟨hcomp, hsome⟩ := mem_filter.1 hcomp
      obtain ⟨snapshot, hget, hstored⟩ := h.readings.stored.get?_of_mem hcomp
      obtain ⟨update, hupdate⟩ := Option.isSome_iff_exists.1 hsome
      exact ⟨_, snapshot, update, hget, hupdate, hkept hget hstored hupdate⟩
    · rintro ⟨id, snapshot, update, hget, hupdate, rfl⟩
      obtain ⟨comp, hstored⟩ := h.readings.stored.storedAt hget
      refine ⟨comp, mem_filter.2 ⟨hstored.mem, ?_⟩, hkept hget hstored hupdate⟩
      rw [hstored.id_eq, hupdate]
      rfl
  · split
    · rename_i hroot
      simp only [hroot, true_and, mem_map, eq_comm]
    · rename_i hroot
      simp [hroot]

end

/-- An item is read, in some zones, from one of the entries. -/
def ReadAt (cal : Calcard) (zones : List Zone) (entries : List ICalendarEntry) (item : ItipEntry) :
    Prop :=
  ∃ entry ∈ entries, item ∈ readTracked cal zones entry

instance (cal : Calcard) (zones : List Zone) (entries : List ICalendarEntry) (item : ItipEntry) :
    Decidable (ReadAt cal zones entries item) :=
  inferInstanceAs (Decidable (∃ entry ∈ entries, item ∈ readTracked cal zones entry))

theorem readAt_append {xs ys} :
    ReadAt cal zones (xs ++ ys) item ↔ ReadAt cal zones xs item ∨ ReadAt cal zones ys item := by
  simp only [ReadAt, mem_append, or_and_right, exists_or]

theorem exists_mem_filter_name {P : ICalendarEntry → Prop} {name}
    (hP : ∀ entry, P entry → entry.name = name) (p : ICalendarProperty → Bool) :
    (∃ entry ∈ entries.filter fun entry => p entry.name, P entry) ↔
      p name ∧ ∃ entry ∈ entries, P entry := by
  constructor
  · rintro ⟨entry, hentry, hPentry⟩
    obtain ⟨hentry, hp⟩ := mem_filter.1 hentry
    rw [hP entry hPentry] at hp
    exact ⟨hp, entry, hentry, hPentry⟩
  · rintro ⟨hp, entry, hentry, hPentry⟩
    refine ⟨entry, mem_filter.2 ⟨hentry, ?_⟩, hPentry⟩
    rwa [hP entry hPentry]

theorem readAt_filter (p : ICalendarProperty → Bool) :
    ReadAt cal zones (entries.filter fun entry => p entry.name) item ↔
      p item.name ∧ ReadAt cal zones entries item :=
  exists_mem_filter_name (fun _ hitem => (isTracked_of_mem_readTracked hitem).2.symm) p

theorem sameElements_iff {α : Type} [DecidableEq α] {xs ys : List α} (hxs : xs.Nodup)
    (hys : ys.Nodup) : sameElements xs ys ↔ ∀ x, x ∈ xs ↔ x ∈ ys := by
  simp only [sameElements, Bool.and_eq_true, decide_eq_true_eq, all_eq_true,
    contains_iff_mem]
  constructor
  · rintro ⟨hlength, hsubset⟩ x
    have hperm := (hxs.subperm hsubset).perm_of_length_le hlength.ge
    exact hperm.mem_iff
  · intro h
    exact ⟨((perm_ext_iff_of_nodup hxs hys).2 h).length_eq, fun x hx => (h x).1 hx⟩

theorem nodup_foldl_insertAttendee {xs acc : List Attendee} (h : (acc.map Attendee.key).Nodup) :
    ((xs.foldl insertAttendee acc).map Attendee.key).Nodup := by
  induction xs generalizing acc with
  | nil => exact h
  | cons x xs ih =>
    refine ih ?_
    rw [insertAttendee]
    split
    · exact h
    · rename_i hnew
      have hfresh : x.key ∉ acc.map Attendee.key := fun hmem => by
        obtain ⟨found, hfound, hkey⟩ := mem_map.1 hmem
        exact hnew (any_eq_true.2 ⟨found, hfound, by simpa using hkey⟩)
      rw [map_append]
      exact nodup_append_comm.1 (nodup_cons.2 ⟨hfresh, h⟩)

theorem StoredAt.nodup_attendees {ical : ICalendar} {id : InstanceId} {snapshot : ItipSnapshot}
    {comp : ICalendarComponent × ℕ} (h : StoredAt cal emails ical id snapshot comp) :
    (snapshot.attendees.map Attendee.key).Nodup :=
  (h.reorders.attendees.map _).nodup_iff.2 (nodup_foldl_insertAttendee nodup_nil)

theorem attendee_mem_changedEntries_iff {id : InstanceId} {snapshot update : ItipSnapshot}
    {comp comp' : ICalendarComponent × ℕ}
    (hcomp : StoredAt cal emails event id snapshot comp)
    (hcomp' : StoredAt cal emails itip id update comp') :
    ICalendarProperty.attendee ∈ changedEntries update snapshot ↔
      update.view.attendees ≠ snapshot.view.attendees := by
  have htracked {ical : ICalendar} {snapshot : ItipSnapshot} {comp : ICalendarComponent × ℕ}
      (hcomp : StoredAt cal emails ical id snapshot comp) {item : ItipEntry}
      (hitem : item ∈ snapshot.entries) : item.name ≠ .attendee := fun hname => by
    obtain ⟨entry, -, hread⟩ := hcomp.mem_entries.1 hitem
    have htracked := isTracked_of_mem_readTracked hread
    rw [← htracked.2, hname] at htracked
    exact absurd htracked.1 (by decide)
  have hsame : sameElements (update.attendees.map Attendee.key)
      (snapshot.attendees.map Attendee.key) ↔
        update.view.attendees = snapshot.view.attendees := by
    rw [sameElements_iff hcomp'.nodup_attendees hcomp.nodup_attendees, Set.ext_iff]
    rfl
  rw [ne_eq, ← hsame]
  simp only [changedEntries, mem_append, mem_map, mem_filter, mem_singleton,
    reduceCtorEq, or_false]
  constructor
  · rintro (((⟨item, hitem, hname⟩ | ⟨item, hitem, hname⟩) | hmem) | hmem) heq
    · exact htracked hcomp' hitem.1 hname
    · exact htracked hcomp hitem.1 hname
    · rw [if_pos heq] at hmem
      cases hmem
    · split at hmem
      · cases mem_singleton.1 hmem
      · cases hmem
  · intro hne
    refine .inl (.inr ?_)
    rw [if_neg hne]
    exact mem_singleton.2 rfl

theorem not_mem_changedEntries {snapshot update : ItipSnapshot}
    (h : item.name ∉ changedEntries update snapshot) :
    item ∈ snapshot.entries ↔ item ∈ update.entries := by
  simp only [changedEntries, mem_append, mem_map, mem_filter, not_or] at h
  constructor
  · intro hitem
    by_contra hnone
    exact h.1.1.1.2 ⟨item, ⟨hitem, by simpa using hnone⟩, rfl⟩
  · intro hitem
    by_contra hnone
    exact h.1.1.1.1 ⟨item, ⟨hitem, by simpa using hnone⟩, rfl⟩

theorem mem_view_entries :
    item ∈ (view cal zones emails entries).entries ↔ ReadAt cal zones entries item :=
  Iff.rfl

theorem mem_attendees_filter (p : ICalendarProperty → Bool)
    {entries : List ICalendarEntry} {key : AttendeeKey} :
    key ∈ (view cal zones emails (entries.filter fun entry => p entry.name)).attendees ↔
      p .attendee ∧ key ∈ (view cal zones emails entries).attendees :=
  exists_mem_filter_name (fun _ ⟨_, hpart, _⟩ => (readAttendee_eq_some hpart).1) p

theorem mem_attendees_append {xs ys : List ICalendarEntry} {key : AttendeeKey} :
    key ∈ (view cal zones emails (xs ++ ys)).attendees ↔
      key ∈ (view cal zones emails xs).attendees ∨
        key ∈ (view cal zones emails ys).attendees := by
  simp only [view, Set.mem_ofPred_eq, mem_append, or_and_right, exists_or]

theorem readSequences_filter (p : ICalendarProperty → Bool) (entries : List ICalendarEntry) :
    (entries.filter fun entry => p entry.name).filterMap (readSequence cal) =
      if p .sequence then entries.filterMap (readSequence cal) else [] := by
  have hread (entry : ICalendarEntry) (hne : entry.name ≠ .sequence) :
      readSequence cal entry = none := by simp [readSequence, hne]
  rw [← filterMap_entriesOf hread, entriesOf_filter]
  split
  · exact filterMap_entriesOf hread entries
  · rfl

section Kept

variable {id : InstanceId} {snapshot update : ItipSnapshot}
  {comp comp' : ICalendarComponent × ℕ}

/-- What changes in an instance reads the same in the zones of the stored object and of the message.
-/
def SameTimes (cal : Calcard) (event itip : ICalendar) (snapshot update : ItipSnapshot) : Prop :=
  ∀ item : ItipEntry, item.name ∈ changedEntries update snapshot →
    (ReadAt cal event.zones update.comp.entries item ↔
      ReadAt cal itip.zones update.comp.entries item)

section

variable (hcomp : StoredAt cal emails event id snapshot comp)
  (hcomp' : StoredAt cal emails itip id update comp')
include hcomp hcomp'

/-- **When a stored instance is brought in line.** -/
theorem view_updatedEntries_iff :
    view cal event.zones emails (updatedEntries snapshot update) = update.view ↔
      SameTimes cal event itip snapshot update := by
  have hstored : snapshot.view = view cal event.zones emails snapshot.comp.entries := by
    rw [hcomp.view_eq, hcomp.comp_eq]
  have hupdate : update.view = view cal itip.zones emails update.comp.entries := by
    rw [hcomp'.view_eq, hcomp'.comp_eq]
  have hsequence : (view cal event.zones emails
      (updatedEntries snapshot update)).sequence = update.view.sequence := by
    have hreads : (updatedEntries snapshot update).filterMap (readSequence cal) =
        update.comp.entries.filterMap (readSequence cal) := by
      rw [updatedEntries, filterMap_append,
        readSequences_filter fun name => !(changedEntries update snapshot).contains name,
        readSequences_filter fun name => (changedEntries update snapshot).contains name]
      simp [sequence_mem_changedEntries]
    rw [hupdate, view, view, hreads]
  have hattendees : (view cal event.zones emails
      (updatedEntries snapshot update)).attendees = update.view.attendees := by
    ext key
    rw [updatedEntries, mem_attendees_append,
      mem_attendees_filter fun name => !(changedEntries update snapshot).contains name,
      mem_attendees_filter fun name => (changedEntries update snapshot).contains name]
    by_cases hchanged : ICalendarProperty.attendee ∈ changedEntries update snapshot
    · rw [hupdate]
      simp [hchanged, view]
    · have hsame := not_not.1 fun hne =>
        hchanged ((attendee_mem_changedEntries_iff hcomp hcomp').2 hne)
      rw [hsame, hstored]
      simp [hchanged]
  have hentries (item : ItipEntry) :
      item ∈ (view cal event.zones emails (updatedEntries snapshot update)).entries ↔
        if item.name ∈ changedEntries update snapshot then
          ReadAt cal event.zones update.comp.entries item
        else ReadAt cal itip.zones update.comp.entries item := by
    rw [mem_view_entries, updatedEntries, readAt_append,
      readAt_filter fun name => !(changedEntries update snapshot).contains name,
      readAt_filter fun name => (changedEntries update snapshot).contains name]
    split
    · rename_i hchanged
      simp [hchanged]
    · rename_i hchanged
      have hsame : item ∈ snapshot.view.entries ↔ item ∈ update.view.entries :=
        not_mem_changedEntries hchanged
      rw [hstored, hupdate, mem_view_entries, mem_view_entries] at hsame
      simp [hchanged, hsame]
  constructor
  · intro h item hchanged
    have hitem := hentries item
    rw [h, if_pos hchanged, hupdate] at hitem
    exact hitem.symm
  · intro h
    refine View.ext (Set.ext fun item => ?_) hattendees hsequence
    rw [hentries, hupdate]
    split
    · rename_i hchanged
      exact h item hchanged
    · rfl

theorem entriesInstance_updatedEntries :
    entriesInstance cal event.zones (updatedEntries snapshot update) = id := by
  have hspared : ICalendarProperty.recurrenceId ∉ changedEntries update snapshot := fun hmem => by
    rcases name_of_mem_changedEntries hcomp hcomp' hmem with hname | hname | hname | hname <;>
      cases hname
  have hadded : ∀ entry ∈ update.comp.entries.filter
      ((changedEntries update snapshot).contains ·.name), entry.name ≠ .recurrenceId :=
    fun entry hentry hname => hspared (by simpa [hname] using (mem_filter.1 hentry).2)
  rw [← hcomp.id_eq, ← hcomp.comp_eq]
  exact entriesInstance_congr (congrArg _ (entriesOf_replace hspared hadded _))

end

end Kept

theorem view_newComponent (zones : List Zone) (component : ICalendarComponent) :
    view cal zones emails (newComponent component ICalendarProperty.isOther []).entries =
      view cal zones emails component.entries := by
  rw [newComponent, append_nil]
  refine View.ext (Set.ext fun item => ?_) (Set.ext fun key => ?_) ?_
  · rw [mem_view_entries, readAt_filter fun name => !name.isOther]
    refine and_iff_right_of_imp ?_
    rintro ⟨entry, -, hitem⟩
    have htracked := isTracked_of_mem_readTracked hitem
    cases hname : entry.name <;> simp_all [ICalendarProperty.isOther, ICalendarProperty.isTracked]
  · rw [mem_attendees_filter fun name => !name.isOther]
    exact and_iff_right rfl
  · have hreads : (component.entries.filter fun entry => !entry.name.isOther).filterMap
        (readSequence cal) = component.entries.filterMap (readSequence cal) :=
      readSequences_filter (fun name => !name.isOther) _
    rw [view, view, hreads]

theorem entriesInstance_newComponent (zones : List Zone) (component : ICalendarComponent) :
    entriesInstance cal zones (newComponent component ICalendarProperty.isOther []).entries =
      entriesInstance cal zones component.entries := by
  rw [newComponent, append_nil]
  refine entriesInstance_congr (congrArg _ ?_)
  rw [entriesOf_filter _ fun name => !name.isOther]
  rfl

/-! ## The organizer -/

theorem entryEmail_isLocal {email : Email} (h : entryEmail cal emails entry = some email) :
    email.isLocal = emails.contains email.email := by
  obtain ⟨text, -, hnew⟩ := Option.bind_eq_some_iff.1 h
  rw [Email.new] at hnew
  split at hnew
  · cases hnew
    rfl
  · cases hnew

theorem foldl_organizer_email (params : List ICalendarParameter) (part : Organizer) :
    (params.foldl Organizer.readParam part).email = part.email := by
  induction params generalizing part with
  | nil => rfl
  | cons param params ih =>
    have hstep : (Organizer.readParam part param).email = part.email := by
      rw [Organizer.readParam]
      split <;> rfl
    rw [foldl_cons, ih, hstep]

theorem entryOrganizer_eq_some {part : Organizer}
    (h : entryOrganizer cal emails entry = some part) :
    entry.name = .organizer ∧ part.email.isLocal = emails.contains part.email.email := by
  rw [entryOrganizer, readOrganizer] at h
  split at h
  · rename_i hname
    obtain ⟨email, hemail, rfl⟩ := Option.map_eq_some_iff.1 h
    rw [foldl_organizer_email]
    exact ⟨hname, entryEmail_isLocal hemail⟩
  · cases h

/-- The organizer of a snapshot is read from an entry of its object. -/
theorem ReadFrom.exists_organizer {ical : ICalendar} {found}
    (h : ReadFrom cal emails ical found) :
    ∃ entry ∈ (scheduledContents cal ical).flatMap Prod.snd, ∃ part,
      entryOrganizer cal emails entry = some part ∧ part.email = found.organizer.email := by
  obtain ⟨other, hother, horganizer, -⟩ := h.read
  rw [horganizer]
  exact (exists_organizer_iff (fun part : Organizer => part.email) fun _ _ => rfl).1
    ⟨other.organizer, mem_of_head? (itipSnapshot_eq_ok_iff.1 hother).organizer, rfl⟩

theorem ReadFrom.organizer_eq {ical : ICalendar} {found : ItipSnapshots}
    (h : ReadFrom cal emails ical found)
    (hentry : entry ∈ (scheduledContents cal ical).flatMap Prod.snd) {part : Organizer}
    (hpart : entryOrganizer cal emails entry = some part) :
    part.email.email = found.organizer.email.email ∧
      part.email.isLocal = found.organizer.email.isLocal ∧ part.isServerScheduling := by
  obtain ⟨other, hother, -⟩ := h.read
  have hreadable := exists_snapshot_iff.1 ⟨other, hother⟩
  obtain ⟨entry', hentry', part', hpart', hemail⟩ := h.exists_organizer
  have hsame : part.email.email = found.organizer.email.email := by
    rw [← hemail]
    exact hreadable.organizers _ (mem_filterMap.2 ⟨entry, hentry, by rw [hpart]; rfl⟩) _
      (mem_filterMap.2 ⟨entry', hentry', by rw [hpart']; rfl⟩)
  refine ⟨hsame, ?_, hreadable.agent entry hentry part hpart⟩
  rw [(entryOrganizer_eq_some hpart).2, hsame, ← hemail, ← (entryOrganizer_eq_some hpart').2]

/-! ## When the merged calendar is in line -/

/-- The calendar has the snapshot of the message. -/
def InLine (cal : Calcard) (emails : List String) (calendar : ICalendar)
    (itipSnapshots : ItipSnapshots) : Prop :=
  ∃ snapshots, itipSnapshot cal calendar emails false = .ok snapshots ∧
    snapshots.views = itipSnapshots.views

/-- The entries name the account as an attendee that takes part. -/
def TakesPart (cal : Calcard) (emails : List String) (entries : List ICalendarEntry) :
    Prop :=
  ∃ entry ∈ entries, ∃ part, entryAttendee cal emails entry = some part ∧
    part.isParty false

/-- The instances of the merged calendar, as they were stored or as the message has them. -/
def mergedInstances (snapshots itipSnapshots : ItipSnapshots) : List (InstanceId × ItipSnapshot) :=
  keptInstances snapshots itipSnapshots ++ newInstances snapshots itipSnapshots

/-- A request that fits the stored object: it reads the same in the time zones that the object
defines, its new instances have a root and stay the instances they are, and the components of both
do not contradict each other. -/
structure Compatible (cal : Calcard) (emails : List String) (event itip : ICalendar)
    (snapshots itipSnapshots : ItipSnapshots) : Prop where
  times : ∀ id snapshot update, snapshots.get? id = some snapshot →
    itipSnapshots.get? id = some update → SameTimes cal event itip snapshot update
  root : newInstances snapshots itipSnapshots ≠ [] → event.hasRoot
  distinct : ((newInstances snapshots itipSnapshots).map fun update =>
    entriesInstance cal event.zones update.2.comp.entries).Nodup
  instances : ∀ update ∈ newInstances snapshots itipSnapshots,
    ∃ other ∈ newInstances snapshots itipSnapshots,
      entriesInstance cal event.zones update.2.comp.entries = other.1 ∧
        view cal event.zones emails update.2.comp.entries = other.2.view
  objectType : Uniform ((mergedInstances snapshots itipSnapshots).map (·.2.comp.componentType))
  uids : Uniform ((mergedInstances snapshots itipSnapshots).flatMap fun found =>
    found.2.comp.entries.filterMap (readUid cal))
  uid : ∃ found ∈ mergedInstances snapshots itipSnapshots, ∃ entry ∈ found.2.comp.entries,
    ∃ uid, readUid cal entry = some uid
  organizer : ∃ found ∈ mergedInstances snapshots itipSnapshots, ∃ entry ∈ found.2.comp.entries,
    ∃ part, entryOrganizer cal emails entry = some part
  party : (∃ id snapshot update, snapshots.get? id = some snapshot ∧
      itipSnapshots.get? id = some update ∧
      TakesPart cal emails (if ICalendarProperty.attendee ∈ changedEntries update snapshot
        then update.comp.entries else snapshot.comp.entries)) ∨
    ∃ update ∈ newInstances snapshots itipSnapshots,
      TakesPart cal emails update.2.comp.entries

/-- The properties that a request leaves as they are stored, and takes over for new instances. -/
def ICalendarProperty.isSpared (property : ICalendarProperty) : Bool :=
  !property.isTracked && property ≠ .attendee && property ≠ .dtstamp && property ≠ .sequence &&
    !property.isOther

/-- What the merged calendar states of a property that a request spares. -/
theorem exists_spared_iff (laws : cal.Laws)
    (h : OrganizerRequest cal emails event itip snapshots itipSnapshots)
    (hactions : handleRequest snapshots itip itipSnapshots = .ok actions)
    (hroot : newInstances snapshots itipSnapshots ≠ [] → event.hasRoot)
    (property : ICalendarProperty) (hproperty : property.isSpared)
    {P : ICalendarEntry → Prop} (hP : ∀ entry, P entry → entry.name = property) :
    (∃ entry ∈ (scheduledContents cal (itipMergeChanges cal event actions)).flatMap Prod.snd,
        P entry) ↔
      ∃ found ∈ mergedInstances snapshots itipSnapshots, ∃ entry ∈ found.2.comp.entries,
        P entry := by
  simp only [ICalendarProperty.isSpared, Bool.and_eq_true, Bool.not_eq_true',
    decide_eq_true_eq] at hproperty
  obtain ⟨⟨⟨⟨htracked, hattendee⟩, hdtstamp⟩, hsequence⟩, hother⟩ := hproperty
  have hspared {id : InstanceId} {snapshot update : ItipSnapshot}
      (hget : snapshots.get? id = some snapshot) (hupdate : itipSnapshots.get? id = some update) :
      property ∉ changedEntries update snapshot := fun hmem => by
    obtain ⟨comp, hcomp⟩ := h.readings.stored.storedAt hget
    obtain ⟨comp', hcomp'⟩ := h.readings.message.storedAt hupdate
    rcases name_of_mem_changedEntries hcomp hcomp' hmem with hname | hname | hname | hname
    · rw [htracked] at hname
      cases hname
    · exact hattendee hname
    · exact hdtstamp hname
    · exact hsequence hname
  constructor
  · rintro ⟨entry, hentry, hPentry⟩
    obtain ⟨contents, hcontents, hentry⟩ := mem_flatMap.1 hentry
    rcases (mem_request_contents laws h hactions).1 hcontents with
      ⟨id, snapshot, update, hget, hupdate, rfl⟩ | ⟨-, update, hupdate, rfl⟩
    · refine ⟨(id, snapshot), mem_append_left _
        ((mem_keptInstances h.readings.stored.nodup_keys).2 ⟨hget, update, hupdate⟩), entry, ?_,
        hPentry⟩
      rcases mem_append.1 hentry with hentry | hentry
      · exact (mem_filter.1 hentry).1
      · have hname := (mem_filter.1 hentry).2
        rw [hP entry hPentry] at hname
        cases hspared hget hupdate (contains_iff_mem.1 hname)
    · rw [newComponent, append_nil] at hentry
      exact ⟨update, mem_append_right _ hupdate, entry, (mem_filter.1 hentry).1, hPentry⟩
  · rintro ⟨found, hfound, entry, hentry, hPentry⟩
    rcases mem_append.1 hfound with hfound | hfound
    · obtain ⟨hget, update, hupdate⟩ := (mem_keptInstances h.readings.stored.nodup_keys).1 hfound
      refine ⟨entry, mem_flatMap.2 ⟨_, (mem_request_contents laws h hactions).2
        (.inl ⟨_, _, update, hget, hupdate, rfl⟩), ?_⟩, hPentry⟩
      refine mem_append_left _ (mem_filter.2 ⟨hentry, ?_⟩)
      rw [hP entry hPentry]
      simpa using hspared hget hupdate
    · refine ⟨entry, mem_flatMap.2 ⟨_, (mem_request_contents laws h hactions).2
        (.inr ⟨hroot (ne_nil_of_mem hfound), found, hfound, rfl⟩), ?_⟩, hPentry⟩
      refine mem_append_left _ (mem_filter.2 ⟨hentry, ?_⟩)
      rw [hP entry hPentry, hother]
      rfl

theorem inLine_iff_readable {calendar : ICalendar} :
    InLine cal emails calendar itipSnapshots ↔
      Readable cal calendar.zones emails (scheduledContents cal calendar) ∧
        ∀ id found, (∃ comp ∈ scheduledContents cal calendar,
          entriesInstance cal calendar.zones comp.2 = id ∧
            view cal calendar.zones emails comp.2 = found) ↔
          itipSnapshots.views id = some found := by
  constructor
  · rintro ⟨snapshots, hsnapshot, hviews⟩
    refine ⟨exists_snapshot_iff.1 ⟨snapshots, hsnapshot⟩, fun id found => ?_⟩
    rw [← hviews]
    exact (ReadFrom.of_snapshot hsnapshot).views_eq_some_iff.symm
  · rintro ⟨hreadable, hviews⟩
    obtain ⟨snapshots, hsnapshot⟩ := exists_snapshot_iff.2 hreadable
    refine ⟨snapshots, hsnapshot, funext fun id => Option.ext fun found => ?_⟩
    exact (ReadFrom.of_snapshot hsnapshot).views_eq_some_iff.trans (hviews id found)

theorem readUid_name {uid : String} (h : readUid cal entry = some uid) :
    entry.name = .uid := by
  by_contra hname
  simp [readUid, hname] at h

section

variable (laws : cal.Laws)
  (h : OrganizerRequest cal emails event itip snapshots itipSnapshots)
  (hactions : handleRequest snapshots itip itipSnapshots = .ok actions)
include laws h hactions

theorem request_instances :
    ((scheduledContents cal (itipMergeChanges cal event actions)).map fun comp =>
        entriesInstance cal event.zones comp.2) =
      ((schedulingComponents cal event).map fun comp =>
          componentInstance cal event.zones comp.1).filter
        (fun id => (itipSnapshots.get? id).isSome) ++
        if event.hasRoot then (newInstances snapshots itipSnapshots).map fun update =>
          entriesInstance cal event.zones update.2.comp.entries
        else [] := by
  rw [request_contents laws h hactions, map_append, map_map, filter_map]
  congr 1
  · refine map_congr_left fun comp hcomp => ?_
    obtain ⟨hcomp, hsome⟩ := mem_filter.1 hcomp
    obtain ⟨snapshot, hget, hstored⟩ := h.readings.stored.get?_of_mem hcomp
    obtain ⟨update, hupdate⟩ := Option.isSome_iff_exists.1 hsome
    obtain ⟨comp', hcomp'⟩ := h.readings.message.storedAt hupdate
    obtain ⟨hmentioned, -⟩ := request_effect h.readings hactions hget hstored comp.1.entries
    have hentries : entriesAfter actions comp.2 comp.1.entries =
      updatedEntries snapshot update := by
      rw [(hmentioned update hupdate).2, hcomp'.component_eq h.readings.messageSmall,
        updatedEntries, hstored.comp_eq, hcomp'.comp_eq]
    rw [Function.comp_apply, hentries]
    exact entriesInstance_updatedEntries hstored hcomp'
  · split
    · rw [map_map]
      exact map_congr_left fun update _ => entriesInstance_newComponent _ _
    · rfl

/-- The merged calendar and the message show the same instance, a stored or a new one. -/
theorem request_views {id : InstanceId} {found : View} :
    (∃ comp ∈ scheduledContents cal (itipMergeChanges cal event actions),
        entriesInstance cal event.zones comp.2 = id ∧
          view cal event.zones emails comp.2 = found) ↔
      (∃ snapshot update, snapshots.get? id = some snapshot ∧ itipSnapshots.get? id = some update ∧
        view cal event.zones emails (updatedEntries snapshot update) = found) ∨
      (event.hasRoot ∧ ∃ update ∈ newInstances snapshots itipSnapshots,
        entriesInstance cal event.zones update.2.comp.entries = id ∧
          view cal event.zones emails update.2.comp.entries = found) := by
  have hinstance {id : InstanceId} {snapshot update : ItipSnapshot}
      (hget : snapshots.get? id = some snapshot) (hupdate : itipSnapshots.get? id = some update) :
      entriesInstance cal event.zones (updatedEntries snapshot update) = id := by
    obtain ⟨comp, hcomp⟩ := h.readings.stored.storedAt hget
    obtain ⟨comp', hcomp'⟩ := h.readings.message.storedAt hupdate
    exact entriesInstance_updatedEntries hcomp hcomp'
  constructor
  · rintro ⟨contents, hcontents, rfl, rfl⟩
    rcases (mem_request_contents laws h hactions).1 hcontents with
      ⟨id, snapshot, update, hget, hupdate, rfl⟩ | ⟨hroot, update, hupdate, rfl⟩
    · rw [hinstance hget hupdate]
      exact .inl ⟨snapshot, update, hget, hupdate, rfl⟩
    · exact .inr ⟨hroot, update, hupdate, (entriesInstance_newComponent _ _).symm,
        (view_newComponent _ _).symm⟩
  · rintro (⟨snapshot, update, hget, hupdate, rfl⟩ | ⟨hroot, update, hupdate, rfl, rfl⟩)
    · exact ⟨_, (mem_request_contents laws h hactions).2
        (.inl ⟨id, snapshot, update, hget, hupdate, rfl⟩), hinstance hget hupdate, rfl⟩
    · exact ⟨_, (mem_request_contents laws h hactions).2 (.inr ⟨hroot, update, hupdate, rfl⟩),
        entriesInstance_newComponent _ _, view_newComponent _ _⟩

/-- Whether the account takes part in the merged calendar. -/
theorem takesPart_iff (hroot : newInstances snapshots itipSnapshots ≠ [] → event.hasRoot) :
    TakesPart cal emails
        ((scheduledContents cal (itipMergeChanges cal event actions)).flatMap Prod.snd) ↔
      (∃ id snapshot update, snapshots.get? id = some snapshot ∧
        itipSnapshots.get? id = some update ∧
        TakesPart cal emails (if ICalendarProperty.attendee ∈ changedEntries update snapshot
          then update.comp.entries else snapshot.comp.entries)) ∨
      ∃ update ∈ newInstances snapshots itipSnapshots,
        TakesPart cal emails update.2.comp.entries := by
  have hfilter (p : ICalendarProperty → Bool) (entries : List ICalendarEntry) :
      TakesPart cal emails (entries.filter fun entry => p entry.name) ↔
        p .attendee ∧ TakesPart cal emails entries :=
    exists_mem_filter_name (fun _ ⟨_, hpart, _⟩ => (readAttendee_eq_some hpart).1) p
  have hupdated (snapshot update : ItipSnapshot) :
      TakesPart cal emails (updatedEntries snapshot update) ↔
        TakesPart cal emails (if ICalendarProperty.attendee ∈ changedEntries update snapshot
          then update.comp.entries else snapshot.comp.entries) := by
    have happend (xs ys : List ICalendarEntry) : TakesPart cal emails (xs ++ ys) ↔
        TakesPart cal emails xs ∨ TakesPart cal emails ys := by
      simp only [TakesPart, mem_append, or_and_right, exists_or]
    rw [updatedEntries, happend,
      hfilter fun name => !(changedEntries update snapshot).contains name,
      hfilter fun name => (changedEntries update snapshot).contains name]
    by_cases hchanged : ICalendarProperty.attendee ∈ changedEntries update snapshot <;>
      simp [hchanged]
  have hnew (component : ICalendarComponent) : TakesPart cal emails
      (newComponent component ICalendarProperty.isOther []).entries ↔
        TakesPart cal emails component.entries := by
    rw [newComponent, append_nil, hfilter fun name => !name.isOther]
    exact and_iff_right rfl
  constructor
  · rintro ⟨entry, hentry, hparty⟩
    obtain ⟨contents, hcontents, hentry⟩ := mem_flatMap.1 hentry
    rcases (mem_request_contents laws h hactions).1 hcontents with
      ⟨id, snapshot, update, hget, hupdate, rfl⟩ | ⟨-, update, hupdate, rfl⟩
    · exact .inl ⟨id, snapshot, update, hget, hupdate,
        (hupdated snapshot update).1 ⟨entry, hentry, hparty⟩⟩
    · exact .inr ⟨update, hupdate, (hnew _).1 ⟨entry, hentry, hparty⟩⟩
  · rintro (⟨id, snapshot, update, hget, hupdate, hparty⟩ | ⟨update, hupdate, hparty⟩)
    · obtain ⟨entry, hentry, hparty⟩ := (hupdated snapshot update).2 hparty
      exact ⟨entry, mem_flatMap.2 ⟨_, (mem_request_contents laws h hactions).2
        (.inl ⟨id, snapshot, update, hget, hupdate, rfl⟩), hentry⟩, hparty⟩
    · obtain ⟨entry, hentry, hparty⟩ := (hnew _).2 hparty
      exact ⟨entry, mem_flatMap.2 ⟨_, (mem_request_contents laws h hactions).2
        (.inr ⟨hroot (ne_nil_of_mem hupdate), update, hupdate, rfl⟩), hentry⟩, hparty⟩

/-- The components of the merged calendar agree on what a request spares just when those of both
sides do. -/
theorem agree_iff (hroot : newInstances snapshots itipSnapshots ≠ [] → event.hasRoot) :
    (Uniform (((scheduledContents cal (itipMergeChanges cal event actions)).flatMap
        Prod.snd).filterMap (readUid cal)) ↔
      Uniform ((mergedInstances snapshots itipSnapshots).flatMap fun found =>
        found.2.comp.entries.filterMap (readUid cal))) ∧
    (Uniform ((scheduledContents cal (itipMergeChanges cal event actions)).map Prod.fst) ↔
      Uniform ((mergedInstances snapshots itipSnapshots).map (·.2.comp.componentType))) := by
  constructor
  · refine uniform_congr fun uid => ?_
    rw [mem_filterMap, exists_spared_iff laws h hactions hroot .uid rfl
      fun _ => readUid_name]
    simp only [mem_flatMap, mem_filterMap]
  · refine uniform_congr fun type => ?_
    simp only [mem_map]
    constructor
    · rintro ⟨contents, hcontents, rfl⟩
      rcases (mem_request_contents laws h hactions).1 hcontents with
        ⟨id, snapshot, update, hget, hupdate, rfl⟩ | ⟨-, update, hupdate, rfl⟩
      · exact ⟨(id, snapshot), mem_append_left _
          ((mem_keptInstances h.readings.stored.nodup_keys).2 ⟨hget, update, hupdate⟩), rfl⟩
      · exact ⟨update, mem_append_right _ hupdate, rfl⟩
    · rintro ⟨found, hfound, rfl⟩
      rcases mem_append.1 hfound with hfound | hfound
      · obtain ⟨hget, update, hupdate⟩ := (mem_keptInstances h.readings.stored.nodup_keys).1 hfound
        exact ⟨_, (mem_request_contents laws h hactions).2
          (.inl ⟨_, _, update, hget, hupdate, rfl⟩), rfl⟩
      · exact ⟨_, (mem_request_contents laws h hactions).2
          (.inr ⟨hroot (ne_nil_of_mem hfound), found, hfound, rfl⟩), rfl⟩

/-- Every organizer that the merged calendar names is the stored one, and uses the server. -/
theorem merged_organizer (hentry : entry ∈
      (scheduledContents cal (itipMergeChanges cal event actions)).flatMap Prod.snd)
    {part : Organizer} (hpart : entryOrganizer cal emails entry = some part) :
    part.email.email = snapshots.organizer.email.email ∧ part.email.isLocal = false ∧
      part.isServerScheduling := by
  have hstored (hmem : entry ∈ (scheduledContents cal event).flatMap Prod.snd) :
      part.email.email = snapshots.organizer.email.email ∧ part.email.isLocal = false ∧
        part.isServerScheduling := by
    obtain ⟨hemail, hlocal, hserver⟩ := h.readings.stored.organizer_eq hmem hpart
    exact ⟨hemail, hlocal.trans h.remote, hserver⟩
  have hmessage (hmem : entry ∈ (scheduledContents cal itip).flatMap Prod.snd) :
      part.email.email = snapshots.organizer.email.email ∧ part.email.isLocal = false ∧
        part.isServerScheduling := by
    obtain ⟨hemail, -, hserver⟩ := h.readings.message.organizer_eq hmem hpart
    have hsame := hemail.trans h.sameOrganizer.symm
    obtain ⟨entry', -, part', hpart', hemail'⟩ := h.readings.stored.exists_organizer
    refine ⟨hsame, ?_, hserver⟩
    rw [(entryOrganizer_eq_some hpart).2, hsame, ← hemail', ← (entryOrganizer_eq_some hpart').2,
      hemail', h.remote]
  obtain ⟨contents, hcontents, hentry⟩ := mem_flatMap.1 hentry
  rcases (mem_request_contents laws h hactions).1 hcontents with
    ⟨id, snapshot, update, hget, hupdate, rfl⟩ | ⟨-, update, hupdate, rfl⟩
  · obtain ⟨comp, hcomp⟩ := h.readings.stored.storedAt hget
    obtain ⟨comp', hcomp'⟩ := h.readings.message.storedAt hupdate
    rcases mem_append.1 hentry with hentry | hentry
    · refine hstored (mem_flatMap_scheduledContents.2 ⟨comp, hcomp.mem, ?_⟩)
      rw [← hcomp.comp_eq]
      exact (mem_filter.1 hentry).1
    · refine hmessage (mem_flatMap_scheduledContents.2 ⟨comp', hcomp'.mem, ?_⟩)
      rw [← hcomp'.comp_eq]
      exact (mem_filter.1 hentry).1
  · obtain ⟨comp, hcomp⟩ := h.readings.message.storedAt_of_mem (mem_filter.1 hupdate).1
    rw [newComponent, append_nil] at hentry
    refine hmessage (mem_flatMap_scheduledContents.2 ⟨comp, hcomp.mem, ?_⟩)
    rw [← hcomp.comp_eq]
    exact (mem_filter.1 hentry).1

/-- **When a request brings the stored event in line.** -/
theorem inLine_iff : InLine cal emails (itipMergeChanges cal event actions) itipSnapshots ↔
      Compatible cal emails event itip snapshots itipSnapshots := by
  have hmessageKeys := h.readings.message.nodup_keys
  rw [inLine_iff_readable, zones_merge laws (request_scheduled h.readings hactions)]
  simp only [request_views laws h hactions]
  constructor
  · rintro ⟨hreadable, hviews⟩
    have hroot : newInstances snapshots itipSnapshots ≠ [] → event.hasRoot := fun hne => by
      obtain ⟨update, hupdate⟩ := exists_mem_of_ne_nil _ hne
      obtain ⟨hget, hnew⟩ := (mem_newInstances hmessageKeys).1 hupdate
      have hview : itipSnapshots.views update.1 = some update.2.view := by
        rw [ItipSnapshots.views, hget]
        rfl
      rcases (hviews _ _).2 hview with ⟨snapshot, -, hstored, -⟩ | ⟨hroot, -⟩
      · rw [hnew] at hstored
        cases hstored
      · exact hroot
    have hinstances := hreadable.instances
    rw [request_instances laws h hactions] at hinstances
    have hagree := agree_iff laws h hactions hroot
    have hunstored (update : InstanceId × ItipSnapshot)
        (hupdate : update ∈ newInstances snapshots itipSnapshots) :
        snapshots.get? (entriesInstance cal event.zones update.2.comp.entries) = none ∨
          itipSnapshots.get? (entriesInstance cal event.zones update.2.comp.entries) = none := by
      rw [if_pos (hroot (ne_nil_of_mem hupdate))] at hinstances
      have hdisjoint := (nodup_append'.1 hinstances).2.2
      by_contra hboth
      rw [not_or] at hboth
      obtain ⟨snapshot, hget⟩ := Option.ne_none_iff_exists'.1 hboth.1
      obtain ⟨comp, hcomp⟩ := h.readings.stored.storedAt hget
      refine hdisjoint (mem_filter.2 ⟨mem_map.2 ⟨comp, hcomp.mem, hcomp.id_eq⟩, ?_⟩)
        (mem_map.2 ⟨update, hupdate, rfl⟩)
      exact Option.isSome_iff_ne_none.2 hboth.2
    refine ⟨fun id snapshot update hget hupdate => ?_, hroot, ?_, fun update hupdate => ?_,
      hagree.2.1 hreadable.objectType, hagree.1.1 hreadable.uids, ?_, ?_, ?_⟩
    · obtain ⟨comp, hcomp⟩ := h.readings.stored.storedAt hget
      obtain ⟨comp', hcomp'⟩ := h.readings.message.storedAt hupdate
      have hview := (hviews id _).1 (.inl ⟨snapshot, update, hget, hupdate, rfl⟩)
      rw [ItipSnapshots.views, hupdate, Option.map_some, Option.some.injEq] at hview
      exact (view_updatedEntries_iff hcomp hcomp').1 hview.symm
    · by_cases hne : newInstances snapshots itipSnapshots = []
      · rw [hne]
        exact nodup_nil
      · rw [if_pos (hroot hne)] at hinstances
        exact (nodup_append'.1 hinstances).2.1
    · have hview := (hviews _ _).1
        (.inr ⟨hroot (ne_nil_of_mem hupdate), update, hupdate, rfl, rfl⟩)
      obtain ⟨other, hother, hsame⟩ := Option.map_eq_some_iff.1 hview
      refine ⟨(_, other), (mem_newInstances hmessageKeys).2 ⟨hother, ?_⟩, rfl, hsame.symm⟩
      refine (hunstored update hupdate).resolve_right fun hnone => ?_
      rw [hnone] at hother
      cases hother
    · exact (exists_spared_iff laws h hactions hroot .uid rfl
        fun _ h => h.elim fun _ huid => readUid_name huid).1 hreadable.uid
    · exact (exists_spared_iff laws h hactions hroot .organizer rfl
        fun _ h => h.elim fun _ hpart => (entryOrganizer_eq_some hpart).1).1 hreadable.organizer
    · obtain ⟨entry, hentry, ⟨part, hpart, hlocal⟩ | hparty⟩ := hreadable.party
      · rw [(merged_organizer laws h hactions hentry hpart).2.1] at hlocal
        cases hlocal
      · exact (takesPart_iff laws h hactions hroot).1 ⟨entry, hentry, hparty⟩
  · intro hcompatible
    have hroot := hcompatible.root
    have hagree := agree_iff laws h hactions hroot
    refine ⟨⟨fun entry hentry part hpart => (merged_organizer laws h hactions hentry hpart).2.2, ?_,
      hagree.1.2 hcompatible.uids, hagree.2.2 hcompatible.objectType, ?_, ?_, ?_, ?_⟩,
      fun id found => ?_⟩
    · intro x hx y hy
      obtain ⟨entry, hentry, hx⟩ := mem_filterMap.1 hx
      obtain ⟨part, hpart, rfl⟩ := Option.map_eq_some_iff.1 hx
      obtain ⟨entry', hentry', hy⟩ := mem_filterMap.1 hy
      obtain ⟨part', hpart', rfl⟩ := Option.map_eq_some_iff.1 hy
      rw [(merged_organizer laws h hactions hentry hpart).1,
        (merged_organizer laws h hactions hentry' hpart').1]
    · rw [request_instances laws h hactions]
      obtain ⟨other, hother, -⟩ := h.readings.stored.read
      have hkept := (itipSnapshot_eq_ok_iff.1 hother).instances.filter
        fun id => (itipSnapshots.get? id).isSome
      split
      swap
      · rwa [append_nil]
      refine nodup_append'.2 ⟨hkept, hcompatible.distinct, fun id hid hid' => ?_⟩
      obtain ⟨update, hupdate, rfl⟩ := mem_map.1 hid'
      obtain ⟨other, hother, hsame, -⟩ := hcompatible.instances update hupdate
      obtain ⟨comp, hcomp, hcompId⟩ := mem_map.1 (mem_filter.1 hid).1
      obtain ⟨snapshot, hget, -⟩ := h.readings.stored.get?_of_mem hcomp
      rw [hcompId, hsame, ((mem_newInstances hmessageKeys).1 hother).2] at hget
      cases hget
    · obtain ⟨entry, hentry, hparty⟩ := (takesPart_iff laws h hactions hroot).2 hcompatible.party
      exact ⟨entry, hentry, .inr hparty⟩
    · exact (exists_spared_iff laws h hactions hroot .organizer rfl
        fun _ h => h.elim fun _ hpart => (entryOrganizer_eq_some hpart).1).2 hcompatible.organizer
    · exact (exists_spared_iff laws h hactions hroot .uid rfl
        fun _ h => h.elim fun _ huid => readUid_name huid).2 hcompatible.uid
    · have hkeptView {snapshot update : ItipSnapshot} (hget : snapshots.get? id = some snapshot)
          (hupdate : itipSnapshots.get? id = some update) :
          view cal event.zones emails (updatedEntries snapshot update) = update.view := by
        obtain ⟨comp, hcomp⟩ := h.readings.stored.storedAt hget
        obtain ⟨comp', hcomp'⟩ := h.readings.message.storedAt hupdate
        exact (view_updatedEntries_iff hcomp hcomp').2
          (hcompatible.times id snapshot update hget hupdate)
      constructor
      · rintro (⟨snapshot, update, hget, hupdate, rfl⟩ | ⟨-, update, hupdate, rfl, rfl⟩)
        · rw [hkeptView hget hupdate, ItipSnapshots.views, hupdate]
          rfl
        · obtain ⟨other, hother, hsame, hview⟩ := hcompatible.instances update hupdate
          rw [hsame, hview, ItipSnapshots.views, ((mem_newInstances hmessageKeys).1 hother).1]
          rfl
      · intro hview
        obtain ⟨update, hupdate, rfl⟩ := Option.map_eq_some_iff.1 hview
        cases hget : snapshots.get? id with
        | some snapshot => exact .inl ⟨snapshot, update, rfl, hupdate, hkeptView hget hupdate⟩
        | none =>
          have hnew : (id, update) ∈ newInstances snapshots itipSnapshots :=
            (mem_newInstances hmessageKeys).2 ⟨hupdate, hget⟩
          -- The new instances, read in the stored object, are distinct and among the new ones.
          have hsubset : ((newInstances snapshots itipSnapshots).map fun update =>
              entriesInstance cal event.zones update.2.comp.entries) ⊆
              (newInstances snapshots itipSnapshots).map Prod.fst := by
            intro id hid
            obtain ⟨update, hupdate, rfl⟩ := mem_map.1 hid
            obtain ⟨other, hother, hsame, -⟩ := hcompatible.instances update hupdate
            exact mem_map.2 ⟨other, hother, hsame.symm⟩
          have hperm := (hcompatible.distinct.subperm hsubset).perm_of_length_le (by simp)
          have hid : id ∈ (newInstances snapshots itipSnapshots).map Prod.fst :=
            mem_map_of_mem hnew
          obtain ⟨source, hsource, hsame⟩ := mem_map.1 (hperm.mem_iff.2 hid)
          obtain ⟨other, hother, hinstance, hsourceView⟩ := hcompatible.instances source hsource
          refine .inr ⟨hroot (ne_nil_of_mem hnew), source, hsource, hsame, ?_⟩
          have hotherUpdate := ((mem_newInstances hmessageKeys).1 hother).1
          rw [← hinstance, hsame, hupdate, Option.some.injEq] at hotherUpdate
          rw [hsourceView, hotherUpdate]

end

/-- A request that the event is in line with already fits it. -/
theorem compatible_of_views
    (h : OrganizerRequest cal emails event itip snapshots itipSnapshots)
    (hviews : snapshots.views = itipSnapshots.views) :
    Compatible cal emails event itip snapshots itipSnapshots := by
  have hmentioned {id : InstanceId} {snapshot : ItipSnapshot}
      (hget : snapshots.get? id = some snapshot) :
      ∃ update, itipSnapshots.get? id = some update ∧ update.view = snapshot.view := by
    have hview := congrFun hviews id
    rw [ItipSnapshots.views, hget] at hview
    exact Option.map_eq_some_iff.1 hview.symm
  have hnone : newInstances snapshots itipSnapshots = [] := by
    refine eq_nil_iff_forall_not_mem.2 fun update hupdate => ?_
    obtain ⟨hget, hnew⟩ := (mem_newInstances h.readings.message.nodup_keys).1 hupdate
    have hview := congrFun hviews update.1
    rw [ItipSnapshots.views, ItipSnapshots.views, hget, hnew] at hview
    cases hview
  obtain ⟨other, hother, -⟩ := h.readings.stored.read
  have hreadable := exists_snapshot_iff.1 ⟨other, hother⟩
  have hcontents {found : InstanceId × ItipSnapshot}
      (hfound : found ∈ mergedInstances snapshots itipSnapshots) :
      found.2.comp.contents ∈ scheduledContents cal event := by
    rw [mergedInstances, hnone, append_nil] at hfound
    obtain ⟨comp, hcomp⟩ := h.readings.stored.storedAt_of_mem (mem_filter.1 hfound).1
    rw [hcomp.comp_eq, scheduledContents_eq]
    exact mem_map_of_mem hcomp.mem
  have hkept {entry : ICalendarEntry}
      (hentry : entry ∈ (scheduledContents cal event).flatMap Prod.snd) :
      ∃ id snapshot, snapshots.get? id = some snapshot ∧ entry ∈ snapshot.comp.entries ∧
        (id, snapshot) ∈ mergedInstances snapshots itipSnapshots := by
    obtain ⟨comp, hcomp, hentry⟩ := mem_flatMap_scheduledContents.1 hentry
    obtain ⟨snapshot, hget, hstored⟩ := h.readings.stored.get?_of_mem hcomp
    obtain ⟨update, hupdate, -⟩ := hmentioned hget
    refine ⟨_, snapshot, hget, by rwa [hstored.comp_eq], mem_append_left _ ?_⟩
    exact (mem_keptInstances h.readings.stored.nodup_keys).2 ⟨hget, update, hupdate⟩
  refine ⟨fun id snapshot update hget hupdate item hchanged => ?_, fun hne => absurd hnone hne,
    by rw [hnone]; exact nodup_nil, fun update hupdate => ?_, fun x hx y hy => ?_,
    fun x hx y hy => ?_, ?_, ?_, ?_⟩
  · obtain ⟨update', hupdate', hview⟩ := hmentioned hget
    cases hupdate.symm.trans hupdate'
    have hentries (item : ItipEntry) : item ∈ update.entries ↔ item ∈ snapshot.entries :=
      Set.ext_iff.1 (congrArg View.entries hview) item
    have hname : item.name.isTracked = false := by
      simp only [changedEntries, mem_append, mem_map, mem_filter,
        mem_singleton] at hchanged
      rcases hchanged with (((⟨found, hfound, -⟩ | ⟨found, hfound, -⟩) | hmem) | hmem) | hname
      · simp [← hentries] at hfound
      · simp [hentries] at hfound
      · split at hmem
        · cases hmem
        · rw [mem_singleton.1 hmem]
          rfl
      · split at hmem
        · rw [mem_singleton.1 hmem]
          rfl
        · cases hmem
      · rw [hname]
        rfl
    have hunread (zones : List Zone) : ¬ ReadAt cal zones update.comp.entries item := by
      rintro ⟨entry, -, hitem⟩
      obtain ⟨htracked, hsame⟩ := isTracked_of_mem_readTracked hitem
      rw [hsame, htracked] at hname
      cases hname
    exact iff_of_false (hunread _) (hunread _)
  · rw [hnone] at hupdate
    cases hupdate
  · obtain ⟨found, hfound, rfl⟩ := mem_map.1 hx
    obtain ⟨found', hfound', rfl⟩ := mem_map.1 hy
    exact hreadable.objectType _ (mem_map_of_mem (hcontents hfound)) _
      (mem_map_of_mem (hcontents hfound'))
  · obtain ⟨found, hfound, hx⟩ := mem_flatMap.1 hx
    obtain ⟨found', hfound', hy⟩ := mem_flatMap.1 hy
    obtain ⟨entry, hentry, hx⟩ := mem_filterMap.1 hx
    obtain ⟨entry', hentry', hy⟩ := mem_filterMap.1 hy
    exact hreadable.uids _ (mem_filterMap.2 ⟨entry,
      mem_flatMap.2 ⟨_, hcontents hfound, hentry⟩, hx⟩) _ (mem_filterMap.2 ⟨entry',
        mem_flatMap.2 ⟨_, hcontents hfound', hentry'⟩, hy⟩)
  · obtain ⟨entry, hentry, huid⟩ := hreadable.uid
    obtain ⟨id, snapshot, -, hmem, hfound⟩ := hkept hentry
    exact ⟨_, hfound, entry, hmem, huid⟩
  · obtain ⟨entry, hentry, hpart⟩ := hreadable.organizer
    obtain ⟨id, snapshot, -, hmem, hfound⟩ := hkept hentry
    exact ⟨_, hfound, entry, hmem, hpart⟩
  · obtain ⟨entry, hentry, ⟨part, hpart, hlocal⟩ | hparty⟩ := hreadable.party
    · rw [(h.readings.stored.organizer_eq hentry hpart).2.1, h.remote] at hlocal
      cases hlocal
    · obtain ⟨id, snapshot, hget, hmem, -⟩ := hkept hentry
      obtain ⟨update, hupdate, hview⟩ := hmentioned hget
      obtain ⟨comp, hcomp⟩ := h.readings.stored.storedAt hget
      obtain ⟨comp', hcomp'⟩ := h.readings.message.storedAt hupdate
      refine .inl ⟨id, snapshot, update, hget, hupdate, ?_⟩
      rw [if_neg fun hchanged => (attendee_mem_changedEntries_iff hcomp hcomp').1 hchanged
        (congrArg View.attendees hview)]
      exact ⟨entry, hmem, hparty⟩

/-- A request has brought an event in line: the merged calendar has the snapshot of the message, and
keeps it when the message is processed once more. -/
structure BroughtInLine (cal : Calcard) (emails : List String) (now : PartialDateTime)
    (itip : ICalendar) (itipSnapshots : ItipSnapshots) (sender : String) (merged : ICalendar) :
    Prop where
  inLine : InLine cal emails merged itipSnapshots
  again : ∀ snapshots, Readings cal emails merged itip snapshots itipSnapshots →
    ∃ actions, itipProcessMessage cal now merged snapshots itip itipSnapshots sender =
        .ok (.actions actions) ∧
      InLine cal emails (itipMergeChanges cal merged actions) itipSnapshots

theorem OrganizerRequest.again (laws : cal.Laws)
    (h : OrganizerRequest cal emails event itip snapshots itipSnapshots)
    (hactions : handleRequest snapshots itip itipSnapshots = .ok actions)
    (hinLine : InLine cal emails (itipMergeChanges cal event actions) itipSnapshots)
    {snapshots' : ItipSnapshots} (h' : Readings cal emails
      (itipMergeChanges cal event actions) itip snapshots' itipSnapshots) :
    OrganizerRequest cal emails (itipMergeChanges cal event actions) itip snapshots'
        itipSnapshots ∧
      snapshots'.views = itipSnapshots.views := by
  have hviews : snapshots'.views = itipSnapshots.views := funext fun id => Option.ext fun found =>
    h'.stored.views_eq_some_iff.trans ((inLine_iff_readable.1 hinLine).2 id found)
  obtain ⟨entry, hentry, part, hpart, hemail⟩ := h'.stored.exists_organizer
  obtain ⟨hsame, hlocal, -⟩ := merged_organizer laws h hactions hentry hpart
  rw [hemail] at hsame hlocal
  refine ⟨⟨h', hlocal, hsame.trans h.sameOrganizer, h.isRequest, h.hasMain,
    fun update hupdate snapshot hget => ?_⟩, hviews⟩
  have hview := congrFun hviews update.1
  rw [ItipSnapshots.views, ItipSnapshots.views, hget,
    (ItipSnapshots.get?_eq_some_iff h.readings.message.nodup_keys).2 hupdate] at hview
  have hsequence : snapshot.sequence = update.2.sequence :=
    congrArg View.sequence (Option.some.inj hview)
  rw [ItipSnapshot.outOfSequence, hsequence]
  simp

/-- **When a request brings the copy of an attendee in line with the organizer's.** -/
theorem request_brings_in_line_iff (laws : cal.Laws)
    (h : OrganizerRequest cal emails event itip snapshots itipSnapshots)
    (now : PartialDateTime) (sender : String) :
    (∃ actions, itipProcessMessage cal now event snapshots itip itipSnapshots sender =
        .ok (.actions actions) ∧
      BroughtInLine cal emails now itip itipSnapshots sender
        (itipMergeChanges cal event actions)) ↔
      Compatible cal emails event itip snapshots itipSnapshots := by
  obtain ⟨actions, hprocess, hactions⟩ := h.accepted now sender
  constructor
  · rintro ⟨actions', hprocess', hbrought⟩
    rw [hprocess, Except.ok.injEq, MergeResult.actions.injEq] at hprocess'
    rw [← inLine_iff laws h hactions, hprocess']
    exact hbrought.inLine
  · intro hcompatible
    have hinLine := (inLine_iff laws h hactions).2 hcompatible
    refine ⟨actions, hprocess, hinLine, fun snapshots' h' => ?_⟩
    obtain ⟨hrequest, hviews⟩ := h.again laws hactions hinLine h'
    obtain ⟨actions', hprocess', hactions'⟩ := hrequest.accepted now sender
    exact ⟨actions', hprocess',
      (inLine_iff laws hrequest hactions').2 (compatible_of_views hrequest hviews)⟩

end Request

/-! ## A request in another time zone -/

/-- The meeting at ten o'clock in a time zone that the message defines, by a place one hour ahead of
UTC. -/
def zonedRequest : ICalendar :=
  ⟨[{ componentType := .vCalendar
      entries := [{ name := .method, params := [], values := [.method .request] }]
      componentIds := [1, 2] },
    { meeting with entries := meeting.entries ++
        [{ name := .dtstart
           params := [{ name := .tzid, value := .text "Office" }]
           values := [.partialDateTime
             { year := some 2026, month := some 3, day := some 2, hour := some 10 }] }] },
    { componentType := .vTimezone
      entries := [{ name := .known "TZID", params := [], values := [.text "Office"] },
        { name := .other "X-LIC-LOCATION", params := [], values := [.text "Africa/Lagos"] }]
      componentIds := [3] },
    { componentType := .standard
      entries := [
        { name := .known "TZOFFSETTO", params := []
          values := [.partialDateTime { tzHour := some 1 }] }]
      componentIds := [] }]⟩

theorem inSequence_meeting {snapshots itipSnapshots : ItipSnapshots}
    {snapshot update : ItipSnapshot} (hstored : snapshots.components = [(.main, snapshot)])
    (hmessage : itipSnapshots.components = [(.main, update)])
    (hsequence : update.outOfSequence snapshot = false) :
    InSequence snapshots itipSnapshots := by
  intro found hfound stored hget
  rw [hmessage, mem_singleton] at hfound
  have hmem := ItipSnapshots.get?_mem hget
  rw [hstored, mem_singleton] at hmem
  rw [hfound, (Prod.mk.inj hmem).2]
  exact hsequence

/-- Nine o'clock in UTC becomes ten o'clock in the copy of the attendee, whose stored object does
not define the zone. -/
theorem request_in_another_zone :
    ¬ ∀ (cal : Calcard), cal.Laws → ∀ (emails : List String) (event itip : ICalendar)
        (snapshots itipSnapshots : ItipSnapshots) (now : PartialDateTime) (sender : String),
        OrganizerRequest cal emails event itip snapshots itipSnapshots →
        ∃ actions, itipProcessMessage cal now event snapshots itip itipSnapshots sender =
            .ok (.actions actions) ∧
          BroughtInLine cal emails now itip itipSnapshots sender
            (itipMergeChanges cal event actions) := by
  intro h
  have hreadings : Readings .plain ["me@a.org"] storedMeeting zonedRequest _ _ :=
    ⟨.of_snapshot rfl, .of_snapshot rfl, by decide, by decide, by decide, by decide⟩
  have hrequest : OrganizerRequest .plain ["me@a.org"] storedMeeting zonedRequest _ _ :=
    ⟨hreadings, rfl, rfl, rfl, rfl, inSequence_meeting rfl rfl rfl⟩
  obtain ⟨actions, hprocess, hbrought⟩ :=
    h .plain Calcard.plain_laws _ _ _ _ _ {} "boss@b.org" hrequest
  obtain ⟨actions', hprocess', hactions⟩ := hrequest.accepted {} "boss@b.org"
  rw [hprocess', Except.ok.injEq, MergeResult.actions.injEq] at hprocess
  rw [← hprocess] at hbrought
  have hline := (inLine_iff Calcard.plain_laws hrequest hactions).1 hbrought.inLine
  have hsame := hline.times .main _ _
    rfl rfl { name := .dtstart, value := .dateTime (20514 * 86400 + 9 * 3600) } (by decide)
  exact absurd hsame (by decide)

/-- Without time zones the copy is brought in line. -/
theorem request_brings_in_line_meeting :
    ∃ snapshots itipSnapshots actions,
      itipProcessMessage .plain {} storedMeeting snapshots (meetingMessage .request)
          itipSnapshots "boss@b.org" = .ok (.actions actions) ∧
        BroughtInLine .plain ["me@a.org"] {} (meetingMessage .request) itipSnapshots "boss@b.org"
          (itipMergeChanges .plain storedMeeting actions) := by
  have hreadings : Readings .plain ["me@a.org"] storedMeeting (meetingMessage .request) _ _ :=
    ⟨.of_snapshot rfl, .of_snapshot rfl, by decide, by decide, by decide, by decide⟩
  have hrequest : OrganizerRequest .plain ["me@a.org"] storedMeeting
    (meetingMessage .request) _ _ :=
    ⟨hreadings, rfl, rfl, rfl, rfl, inSequence_meeting rfl rfl rfl⟩
  refine ⟨_, _, (request_brings_in_line_iff Calcard.plain_laws hrequest {} "boss@b.org").2
    { times := fun _ _ _ _ _ _ _ => Iff.rfl
      root := fun _ => by decide
      distinct := nodup_nil
      instances := fun _ hupdate => nomatch hupdate
      objectType := by unfold Uniform; decide
      uids := by unfold Uniform; decide
      uid := ⟨_, .head _, _, .head _, _, rfl⟩
      organizer := ⟨_, .head _, _, .tail _ (.head _), _, rfl⟩
      party := .inl ⟨.main, _, _, rfl, rfl, _, .tail _ (.tail _ (.head _)), _, rfl, by decide⟩ }⟩

end MailServer.Scheduling
