import MailServer.Scheduling.Effects

/-!
# Sequence numbers over the life of a stored event

A message is stale for an instance when its sequence number is lower than the stored one. The law
that sequence numbers never go back is about runs: every message of the run is processed and merged
into the event the previous ones left.

Principal results: `outcome`, `sequences_never_go_back`, `cancel_resets_sequence`.
-/

namespace MailServer.Scheduling

open List

/-! ## Instances of a calendar object -/

def entriesInstance (cal : Calcard) (zones : List Zone) (entries : List ICalendarEntry) :
    InstanceId :=
  (entries.filterMap (readInstanceId cal zones)).getLast?.getD .main

/-- The sequence number among a list of entries, 0 when absent. -/
def entriesSequence (cal : Calcard) (entries : List ICalendarEntry) : ℤ :=
  (entries.filterMap (readSequence cal)).getLast?.getD 0

/-- The scheduling objects of an event that stand for an instance. -/
def instanceContents (cal : Calcard) (ical : ICalendar) (id : InstanceId) :
    List (ICalendarComponentType × List ICalendarEntry) :=
  (scheduledContents cal ical).filter fun comp => entriesInstance cal ical.zones comp.2 = id

/-- What a message announces for an instance, or for the main one when it does not mention it. -/
def announced (itipSnapshots : ItipSnapshots) (id : InstanceId) : Option ℤ :=
  ((itipSnapshots.get? id).or (itipSnapshots.get? .main)).map (·.sequence.getD 0)

/-- A message that does not break the order of the sequence numbers: additions keep their identity,
a cancellation carries the stored numbers of what it cancels, a full update removes no instance with
a higher one, and a reply carries the stored one. -/
structure Orderly (cal : Calcard) (event : ICalendar) (method : ICalendarMethod)
    (snapshots itipSnapshots : ItipSnapshots) : Prop where
  added : ∀ update ∈ itipSnapshots.components, snapshots.get? update.1 = none →
    componentInstance cal event.zones update.2.comp = update.1
  cancelled : method = .cancel → ∀ id snapshot update, snapshots.get? id = some snapshot →
    itipSnapshots.get? id = some update → update.sequence.getD 0 ≤ 0
  cancelledAll : method = .cancel → ∀ id snapshot main, snapshots.get? id = some snapshot →
    itipSnapshots.get? id = none → itipSnapshots.get? .main = some main →
    (snapshots.get? .main).isSome → main.sequence.getD 0 = snapshot.sequence.getD 0
  removed : method = .request → ∀ id snapshot main, snapshots.get? id = some snapshot →
    itipSnapshots.get? id = none → itipSnapshots.get? .main = some main →
    snapshot.sequence.getD 0 ≤ main.sequence.getD 0
  replied : method = .reply → ∀ id snapshot update, snapshots.get? id = some snapshot →
    itipSnapshots.get? id = some update → update.sequence.getD 0 = snapshot.sequence.getD 0

/-! ## What one message does to one instance -/

/-- What happens to a stored instance: nothing, an update that leaves at least the sequence number
of the message, or its removal. -/
inductive Outcome (cal : Calcard) (itipSnapshots : ItipSnapshots) (actions : List MergeAction)
    (id : InstanceId) (snapshot : ItipSnapshot) (comp : ICalendarComponent × ℕ) : Prop
  | untouched (entries : entriesAfter actions comp.2 comp.1.entries = comp.1.entries)
      (kept : comp.2 ∉ removedIds actions)
  | updated (sequence : ℤ) (hannounced : announced itipSnapshots id = some sequence)
      (before : snapshot.sequence.getD 0 ≤ sequence)
      (after : sequence ≤ entriesSequence cal (entriesAfter actions comp.2 comp.1.entries))
  | removed (sequence : ℤ) (hannounced : announced itipSnapshots id = some sequence)
      (before : snapshot.sequence.getD 0 ≤ sequence) (gone : comp.2 ∈ removedIds actions)

theorem componentInstance_eq (cal : Calcard) (zones : List Zone) (comp : ICalendarComponent) :
    componentInstance cal zones comp = entriesInstance cal zones comp.entries := rfl

theorem entriesSequence_congr {cal : Calcard} {entries entries'}
    (h : (entriesOf .sequence entries).map ICalendarEntry.core =
      (entriesOf .sequence entries').map ICalendarEntry.core) :
    entriesSequence cal entries = entriesSequence cal entries' := by
  rw [entriesSequence, entriesSequence, filterMap_readSequence_congr cal h]

theorem entriesInstance_congr {cal : Calcard} {zones : List Zone}
    {entries entries'}
    (h : (entriesOf .recurrenceId entries).map ICalendarEntry.core =
      (entriesOf .recurrenceId entries').map ICalendarEntry.core) :
    entriesInstance cal zones entries = entriesInstance cal zones entries' := by
  rw [entriesInstance, entriesInstance, filterMap_readInstanceId_congr cal zones h]

section Outcome

variable {cal : Calcard} {emails : List String} {event itip : ICalendar}
  {snapshots itipSnapshots : ItipSnapshots} {actions : List MergeAction} {id : InstanceId}
  {snapshot : ItipSnapshot} {comp : ICalendarComponent × ℕ}

theorem announced_of_mentioned {update : ItipSnapshot}
    (h : itipSnapshots.get? id = some update) :
    announced itipSnapshots id = some (update.sequence.getD 0) := by
  simp [announced, h]

theorem announced_of_unmentioned {main : ItipSnapshot} (h : itipSnapshots.get? id = none)
    (hmain : itipSnapshots.get? .main = some main) :
    announced itipSnapshots id = some (main.sequence.getD 0) := by
  simp [announced, h, hmain]

theorem le_of_inSequence {update : ItipSnapshot} (h : update.outOfSequence snapshot = false) :
    snapshot.sequence.getD 0 ≤ update.sequence.getD 0 := by
  simpa [ItipSnapshot.outOfSequence] using h

/-- An outcome for an instance that keeps its identity. -/
abbrev KeepsInstance (cal : Calcard) (itipSnapshots : ItipSnapshots) (actions : List MergeAction)
    (id : InstanceId) (snapshot : ItipSnapshot) (comp : ICalendarComponent × ℕ) : Prop :=
  Outcome cal itipSnapshots actions id snapshot comp ∧
    (entriesOf .recurrenceId (entriesAfter actions comp.2 comp.1.entries)).map
        ICalendarEntry.core =
      (entriesOf .recurrenceId comp.1.entries).map ICalendarEntry.core

theorem request_outcome (h : Readings cal emails event itip snapshots itipSnapshots)
    (hactions : handleRequest snapshots itip itipSnapshots = .ok actions)
    (horderly : Orderly cal event .request snapshots itipSnapshots)
    (hget : snapshots.get? id = some snapshot)
    (hcomp : StoredAt cal emails event id snapshot comp) :
    KeepsInstance cal itipSnapshots actions id snapshot comp := by
  obtain ⟨hmentioned, hother, hremoved⟩ := request_effect h hactions hget hcomp comp.1.entries
  cases hupdate : itipSnapshots.get? id with
  | none =>
    refine ⟨?_, by rw [hother hupdate]⟩
    by_cases hgone : comp.2 ∈ removedIds actions
    · obtain ⟨-, hany⟩ := hremoved.1 hgone
      cases hmain : itipSnapshots.get? .main with
      | none =>
        obtain ⟨update, hmem, hid⟩ := any_eq_true.1 hany
        exact absurd (mem_map.2 ⟨update, hmem, by simpa using hid⟩)
          (ItipSnapshots.get?_eq_none_iff.1 hmain)
      | some main =>
        exact .removed _ (announced_of_unmentioned hupdate hmain)
          (horderly.removed rfl id snapshot main hget hupdate hmain) hgone
    · exact .untouched (hother hupdate) hgone
  | some update =>
    obtain ⟨comp', hcomp'⟩ := h.message.storedAt hupdate
    obtain ⟨hsequence, hentries⟩ := hmentioned update hupdate
    rw [hcomp'.component_eq h.messageSmall] at hentries
    have hafter (property : ICalendarProperty) :
        entriesOf property (entriesAfter actions comp.2 comp.1.entries) =
          (if (changedEntries update snapshot).contains property
            then entriesOf property comp'.1.entries else entriesOf property comp.1.entries) := by
      rw [hentries, entriesOf_append,
        entriesOf_filter _ fun name => !(changedEntries update snapshot).contains name,
        entriesOf_filter _ fun name => (changedEntries update snapshot).contains name]
      cases (changedEntries update snapshot).contains property <;> simp
    have hsame : entriesSequence cal (entriesAfter actions comp.2 comp.1.entries) =
        update.sequence.getD 0 := by
      rw [hcomp'.sequence_eq]
      refine entriesSequence_congr (congrArg _ ?_)
      rw [hafter, if_pos (by simpa using sequence_mem_changedEntries update snapshot)]
    refine ⟨.updated _ (announced_of_mentioned hupdate) (le_of_inSequence hsequence) hsame.ge,
      congrArg _ ?_⟩
    rw [hafter, if_neg]
    intro hmem
    have hname := name_of_mem_changedEntries hcomp hcomp' (contains_iff_mem.1 hmem)
    rcases hname with hname | hname | hname | hname <;> cases hname

section

variable {property : ICalendarProperty}
  (hproperty : property ≠ .organizer ∧ property ≠ .attendee ∧ property ≠ .status)
  (component : ICalendarComponent)
include hproperty component

theorem entriesOf_cancelEntries : entriesOf property (cancelEntries component) = [] := by
  refine filter_eq_nil_iff.2 fun entry hentry hname => ?_
  obtain rfl : entry.name = property := by simpa using hname
  rcases mem_append.1 hentry with hentry | hentry
  · have hname := (mem_filter.1 hentry).2
    simp [hproperty] at hname
  · rw [mem_singleton.1 hentry] at hproperty
    exact hproperty.2.2 rfl

theorem entriesOf_cancelled {names : List ICalendarProperty} (entries : List ICalendarEntry) :
    entriesOf property ((entries.filter (!names.contains ·.name)) ++ cancelEntries component) =
      if names.contains property then [] else entriesOf property entries := by
  rw [entriesOf_append, entriesOf_cancelEntries hproperty, append_nil,
    entriesOf_filter _ fun name => !names.contains name]
  cases names.contains property <;> rfl

end

section

variable (h : Readings cal emails event itip snapshots itipSnapshots)
include h

theorem cancel_outcome (hactions : handleCancel snapshots itipSnapshots = .ok actions)
    (horderly : Orderly cal event .cancel snapshots itipSnapshots)
    (hget : snapshots.get? id = some snapshot)
    (hcomp : StoredAt cal emails event id snapshot comp) :
    KeepsInstance cal itipSnapshots actions id snapshot comp := by
  obtain ⟨hmentioned, hall, hother, hremoved⟩ := cancel_effect h hactions hget hcomp comp.1.entries
  cases hupdate : itipSnapshots.get? id with
  | none =>
    by_cases hcancels : CancelsAll snapshots itipSnapshots
    · obtain ⟨itipMain, main, hitip, hmain⟩ := hcancels
      have hentries := hall hupdate itipMain main hitip hmain
      have hsame := horderly.cancelledAll rfl id snapshot itipMain hget hupdate hitip
        (by simp [hmain])
      have hsequence : entriesSequence cal (entriesAfter actions comp.2 comp.1.entries) =
          snapshot.sequence.getD 0 := by
        rw [hcomp.sequence_eq, hentries]
        exact entriesSequence_congr (congrArg _ (entriesOf_cancelled (by decide) _ _))
      refine ⟨.updated _ (announced_of_unmentioned hupdate hitip) hsame.ge
        (hsequence.trans hsame.symm).ge, congrArg _ ?_⟩
      rw [hentries]
      exact entriesOf_cancelled (by decide) _ _
    · exact ⟨.untouched (hother hupdate hcancels) (by simp [hremoved]),
        by rw [hother hupdate hcancels]⟩
  | some update =>
    obtain ⟨hsequence, hentries⟩ := hmentioned update hupdate
    have hnone : entriesSequence cal (entriesAfter actions comp.2 comp.1.entries) =
        entriesSequence cal [] := by
      rw [hentries]
      exact entriesSequence_congr (congrArg _ (entriesOf_cancelled (by decide) _ _))
    refine ⟨.updated _ (announced_of_mentioned hupdate) (le_of_inSequence hsequence) ?_,
      congrArg _ ?_⟩
    · rw [hnone]
      exact horderly.cancelled rfl id snapshot update hget hupdate
    · rw [hentries]
      exact entriesOf_cancelled (by decide) _ _

theorem reply_outcome {sender : String}
    (hactions : handleReply snapshots itipSnapshots sender = .ok actions)
    (horderly : Orderly cal event .reply snapshots itipSnapshots)
    (hget : snapshots.get? id = some snapshot)
    (hcomp : StoredAt cal emails event id snapshot comp) :
    KeepsInstance cal itipSnapshots actions id snapshot comp := by
  obtain ⟨hmentioned, hother, hremoved⟩ := reply_effect h hactions hget hcomp comp.1.entries
  cases hupdate : itipSnapshots.get? id with
  | none =>
    exact ⟨.untouched (hother hupdate) (by simp [hremoved]), by rw [hother hupdate]⟩
  | some update =>
    obtain ⟨attendee, updated, -, -, hentries⟩ := hmentioned update hupdate
    obtain ⟨comp', hcomp'⟩ := h.message.storedAt hupdate
    have hsmall : comp'.1.entries.length ≤ 2 ^ 16 :=
      h.messageEntries _ (fst_mem_of_mem_zipIdx (mem_filter.1 hcomp'.mem).1)
    have hsame := horderly.replied rfl id snapshot update hget hupdate
    have hsequence : entriesSequence cal (entriesAfter actions comp.2 comp.1.entries) =
        snapshot.sequence.getD 0 := by
      rw [hcomp.sequence_eq, hentries]
      exact entriesSequence_congr
        (entriesAfter_core (replyAttendee_spares hcomp' hsmall _ _ (by decide) rfl) _ _)
    refine ⟨.updated _ (announced_of_mentioned hupdate) hsame.ge (hsequence.trans hsame.symm).ge,
      ?_⟩
    rw [hentries]
    exact entriesAfter_core (replyAttendee_spares hcomp' hsmall _ _ (by decide) rfl) _ _

theorem add_outcome (snapshot : ItipSnapshot) :
    Outcome cal itipSnapshots (handleAdd snapshots itip itipSnapshots) id snapshot comp := by
  obtain ⟨-, hentries, hremoved, -⟩ := add_effect h
  exact .untouched (hentries _ _) (by simp [hremoved])

end

section

variable (h : Readings cal emails event itip snapshots itipSnapshots) {sender : String}
  {method : ICalendarMethod}
  (hactions : mergeActions snapshots itip itipSnapshots sender method = .ok actions)
include h hactions

/-- **What an orderly message does to a stored instance**: the instance keeps its identity, and is
left untouched unless the message carries at least its sequence number. -/
theorem outcome (horderly : Orderly cal event method snapshots itipSnapshots)
    (hget : snapshots.get? id = some snapshot)
    (hcomp : StoredAt cal emails event id snapshot comp) :
    KeepsInstance cal itipSnapshots actions id snapshot comp := by
  rw [mergeActions] at hactions
  split at hactions
  · cases method with
    | reply => exact reply_outcome h hactions horderly hget hcomp
    | _ => cases hactions
  · cases method with
    | request => exact request_outcome h hactions horderly hget hcomp
    | cancel => exact cancel_outcome h hactions horderly hget hcomp
    | add =>
      cases hactions
      exact ⟨add_outcome h snapshot, by rw [(add_effect h).2.1]⟩
    | reply =>
      simp only [attendeeActions] at hactions
      split at hactions
      · exact reply_outcome h hactions horderly hget hcomp
      · cases hactions
    | _ => cases hactions

theorem Readings.scheduled : Scheduled cal event actions := by
  rw [mergeActions] at hactions
  split at hactions
  · cases method with
    | reply => exact reply_scheduled h hactions
    | _ => cases hactions
  · cases method with
    | request => exact request_scheduled h hactions
    | cancel => exact cancel_scheduled h hactions
    | add =>
      cases hactions
      exact (add_effect h).1
    | reply =>
      simp only [attendeeActions] at hactions
      split at hactions
      · exact reply_scheduled h hactions
      · cases hactions
    | _ => cases hactions

end

/-- A component that a message adds is a new instance of the message, with its identity and its
sequence number. -/
structure AddedFrom (cal : Calcard) (zones : List Zone) (snapshots itipSnapshots : ItipSnapshots)
    (component : ICalendarComponent) : Prop where
  exists_update : ∃ id update, itipSnapshots.get? id = some update ∧ snapshots.get? id = none ∧
    entriesInstance cal zones component.entries = entriesInstance cal zones update.comp.entries ∧
    entriesSequence cal component.entries = update.sequence.getD 0

theorem addedFrom_newComponent {zones : List Zone} {update : InstanceId × ItipSnapshot}
    (hmessage : ReadFrom cal emails itip itipSnapshots)
    (hupdate : update ∈ itipSnapshots.components) (hnew : snapshots.get? update.1 = none)
    {isLeftOut} {added}
    (hleft : isLeftOut .recurrenceId = false ∧ isLeftOut .sequence = false)
    (hadded : ∀ entry ∈ added, entry.name ≠ .recurrenceId ∧ entry.name ≠ .sequence) :
    AddedFrom cal zones snapshots itipSnapshots
      (newComponent update.2.comp isLeftOut added) := by
  have hkept {property : ICalendarProperty} (hproperty : isLeftOut property = false)
      (hadded : ∀ entry ∈ added, entry.name ≠ property) :
      entriesOf property (newComponent update.2.comp isLeftOut added).entries =
        entriesOf property update.2.comp.entries := by
    have hnil : entriesOf property added = [] :=
      filter_eq_nil_iff.2 fun entry hentry => by simpa using hadded entry hentry
    rw [newComponent, entriesOf_append, hnil, entriesOf_filter _ fun name => !isLeftOut name]
    simp [hproperty]
  obtain ⟨comp, hcomp⟩ := hmessage.storedAt_of_mem hupdate
  refine ⟨update.1, update.2, (ItipSnapshots.get?_eq_some_iff hmessage.nodup_keys).2 hupdate, hnew,
    entriesInstance_congr (congrArg _ (hkept hleft.1 fun e he => (hadded e he).1)), ?_⟩
  rw [hcomp.sequence_eq, ← hcomp.comp_eq]
  exact entriesSequence_congr (congrArg _ (hkept hleft.2 fun e he => (hadded e he).2))

theorem addedFrom (h : Readings cal emails event itip snapshots itipSnapshots)
    {sender : String} {method}
    (hactions : mergeActions snapshots itip itipSnapshots sender method = .ok actions)
    {component} (hcomponent : component ∈ addedComponents actions) :
    AddedFrom cal event.zones snapshots itipSnapshots component := by
  have hread {update : InstanceId × ItipSnapshot}
      (hupdate : update ∈ itipSnapshots.components.filter fun update =>
        (snapshots.get? update.1).isNone) :
      update ∈ itipSnapshots.components ∧ snapshots.get? update.1 = none ∧
        itip.component update.2.compId.toNat = update.2.comp := by
    obtain ⟨hmem, hnew⟩ := mem_filter.1 hupdate
    obtain ⟨comp, hcomp⟩ := h.message.storedAt_of_mem hmem
    exact ⟨hmem, by simpa using hnew, (hcomp.component_eq h.messageSmall).trans hcomp.comp_eq.symm⟩
  have hreply (hactions : handleReply snapshots itipSnapshots sender = .ok actions) :
      AddedFrom cal event.zones snapshots itipSnapshots component := by
    rw [reply_added hactions] at hcomponent
    obtain ⟨update, hupdate, rfl⟩ := mem_map.1 hcomponent
    obtain ⟨hmem, hnew, -⟩ := hread hupdate
    exact addedFrom_newComponent h.message hmem hnew ⟨rfl, rfl⟩ (by simp)
  rw [mergeActions] at hactions
  split at hactions
  · cases method with
    | reply => exact hreply hactions
    | _ => cases hactions
  · cases method with
    | request =>
      rw [request_added hactions] at hcomponent
      obtain ⟨update, hupdate, rfl⟩ := mem_map.1 hcomponent
      obtain ⟨hmem, hnew, hsame⟩ := hread hupdate
      rw [hsame]
      exact addedFrom_newComponent h.message hmem hnew ⟨rfl, rfl⟩ (by simp)
    | cancel =>
      rw [cancel_added h hactions] at hcomponent
      obtain ⟨update, hupdate, rfl⟩ := mem_map.1 hcomponent
      obtain ⟨hmem, hnew, -⟩ := hread hupdate
      exact addedFrom_newComponent h.message hmem hnew ⟨rfl, rfl⟩ (by simp [cancelledStatus])
    | add =>
      cases hactions
      rw [(add_effect h).2.2.2] at hcomponent
      obtain ⟨update, hupdate, rfl⟩ := mem_map.1 hcomponent
      obtain ⟨hmem, hnew, hsame⟩ := hread hupdate
      rw [hsame]
      exact addedFrom_newComponent h.message hmem hnew ⟨rfl, rfl⟩ (by simp)
    | reply =>
      simp only [attendeeActions] at hactions
      split at hactions
      · exact hreply hactions
      · cases hactions
    | _ => cases hactions

end Outcome

/-! ## One step of a run -/

/-- The sequence number of an instance of a calendar object, 0 when it has none. -/
def sequenceOf (cal : Calcard) (ical : ICalendar) (id : InstanceId) : Option ℤ :=
  (instanceContents cal ical id).head?.map fun comp => entriesSequence cal comp.2

/-- The sequence number that a message carries for an instance, or for the main one when it does not
mention it. -/
def messageSequence (cal : Calcard) (itip : ICalendar) (id : InstanceId) : Option ℤ :=
  (sequenceOf cal itip id).or (sequenceOf cal itip .main)

section Step

variable {cal : Calcard} {emails : List String}

theorem scheduledContents_eq (cal : Calcard) (ical : ICalendar) :
    scheduledContents cal ical =
      (schedulingComponents cal ical).map fun comp => comp.1.contents := by
  rw [scheduledContents]
  conv_lhs => rw [← zipIdx_map_fst 0 ical.components, map_map, filter_map]
  rfl

theorem filter_eq_singleton {α β : Type} [DecidableEq β] {f : α → β} :
    ∀ {xs : List α}, (xs.map f).Nodup → ∀ {x : α}, x ∈ xs → xs.filter (f · = f x) = [x]
  | [], _, x, hx => nomatch hx
  | y :: xs, hnodup, x, hx => by
    rw [map_cons, nodup_cons] at hnodup
    rcases mem_cons.1 hx with rfl | hx
    · have hrest : xs.filter (f · = f x) = [] := filter_eq_nil_iff.2 fun z hz => by
        have hne : f z ≠ f x := fun h => hnodup.1 (h ▸ mem_map_of_mem hz)
        simpa using hne
      simp [hrest]
    · have hne : f y ≠ f x := fun h => hnodup.1 (h ▸ mem_map_of_mem hx)
      rw [filter_cons_of_neg (by simpa using hne)]
      exact filter_eq_singleton hnodup.2 hx

theorem instanceContents_eq_map (cal : Calcard) (ical : ICalendar) (id : InstanceId) :
    instanceContents cal ical id =
      ((schedulingComponents cal ical).filter fun comp =>
        componentInstance cal ical.zones comp.1 = id).map fun comp => comp.1.contents := by
  rw [instanceContents, scheduledContents_eq, filter_map]
  rfl

variable {id : InstanceId}

section

variable {ical : ICalendar} {snapshots : ItipSnapshots}
  (h : ReadFrom cal emails ical snapshots)
include h

theorem ReadFrom.instanceContents_eq {snapshot : ItipSnapshot}
    {comp} (hcomp : StoredAt cal emails ical id snapshot comp) :
    instanceContents cal ical id = [comp.1.contents] := by
  obtain ⟨other, hother, -⟩ := h.read
  have hsingle := filter_eq_singleton (itipSnapshot_eq_ok_iff.1 hother).instances hcomp.mem
  rw [instanceContents_eq_map, ← hcomp.id_eq, hsingle]
  rfl

theorem ReadFrom.instanceContents_eq_nil (hget : snapshots.get? id = none) :
    instanceContents cal ical id = [] := by
  rw [instanceContents_eq_map, filter_eq_nil_iff.2, map_nil]
  intro comp hcomp hid
  obtain ⟨snapshot, hsnapshot, -⟩ := h.get?_of_mem hcomp
  rw [of_decide_eq_true hid, hget] at hsnapshot
  cases hsnapshot

theorem ReadFrom.sequenceOf_eq (id : InstanceId) :
    sequenceOf cal ical id = (snapshots.get? id).map (·.sequence.getD 0) := by
  cases hget : snapshots.get? id with
  | none => rw [sequenceOf, h.instanceContents_eq_nil hget]; rfl
  | some snapshot =>
    obtain ⟨comp, hcomp⟩ := h.storedAt hget
    rw [sequenceOf, h.instanceContents_eq hcomp, Option.map_some, hcomp.sequence_eq]
    rfl

end

theorem ReadFrom.messageSequence_eq {itip : ICalendar} {itipSnapshots}
    (h : ReadFrom cal emails itip itipSnapshots) (id : InstanceId) :
    messageSequence cal itip id = announced itipSnapshots id := by
  rw [messageSequence, h.sequenceOf_eq, h.sequenceOf_eq, announced, Option.map_or]

variable {event itip : ICalendar} {snapshots itipSnapshots : ItipSnapshots}
  {actions : List MergeAction}

/-- An instance after an orderly message: its stored component, and what is added under its name. -/
theorem instanceContents_merge (laws : cal.Laws)
    (h : Readings cal emails event itip snapshots itipSnapshots)
    {sender : String} {method}
    (hactions : mergeActions snapshots itip itipSnapshots sender method = .ok actions)
    (horderly : Orderly cal event method snapshots itipSnapshots) (id : InstanceId) :
    instanceContents cal (itipMergeChanges cal event actions) id =
      ((schedulingComponents cal event).filter fun comp =>
          !(removedIds actions).contains comp.2 && componentInstance cal event.zones comp.1 =
            id).map
        (fun comp => (comp.1.componentType, entriesAfter actions comp.2 comp.1.entries)) ++
        if event.hasRoot then
          ((addedComponents actions).filter fun comp =>
            entriesInstance cal event.zones comp.entries = id).map ICalendarComponent.contents
        else [] := by
  have hscheduled := h.scheduled hactions
  have hkept : ∀ comp ∈ schedulingComponents cal event,
      entriesInstance cal event.zones (entriesAfter actions comp.2 comp.1.entries) =
        componentInstance cal event.zones comp.1 := fun comp hcomp => by
    obtain ⟨snapshot, hget, hstored⟩ := h.stored.get?_of_mem hcomp
    exact entriesInstance_congr (outcome h hactions horderly hget hstored).2
  rw [instanceContents, scheduled_merge laws hscheduled, zones_merge laws hscheduled,
    filter_append, filter_map, filter_filter]
  congr 1
  · refine congrArg _ (filter_congr fun comp hcomp => ?_)
    rw [Function.comp_apply, hkept comp hcomp, Bool.and_comm]
  · split
    · rw [filter_map]
      rfl
    · rfl

/-- What a message makes of an instance: nothing, or a change by a message with a sequence number
between the old and the new one. -/
inductive Change (cal : Calcard) (event itip : ICalendar) (id : InstanceId) (event' : ICalendar) :
    Prop
  | unchanged (same : instanceContents cal event' id = instanceContents cal event id)
  | updated (sequence : ℤ) (carried : messageSequence cal itip id = some sequence)
      (before : ∀ found, sequenceOf cal event id = some found → found ≤ sequence)
      (after : ∀ left, sequenceOf cal event' id = some left → sequence ≤ left)

theorem Change.monotone {event' : ICalendar} (h : Change cal event itip id event') {found left : ℤ}
    (hfound : sequenceOf cal event id = some found)
    (hleft : sequenceOf cal event' id = some left) : found ≤ left := by
  cases h with
  | unchanged same =>
    rw [sequenceOf, same, ← sequenceOf, hfound] at hleft
    exact (Option.some.inj hleft).le
  | updated sequence carried before after => exact (before _ hfound).trans (after _ hleft)

section

variable (laws : cal.Laws) (h : Readings cal emails event itip snapshots itipSnapshots)
  {sender : String} {method : ICalendarMethod}
  (hactions : mergeActions snapshots itip itipSnapshots sender method = .ok actions)
  (horderly : Orderly cal event method snapshots itipSnapshots)
include laws h hactions horderly

theorem instanceContents_merge_stored {snapshot : ItipSnapshot}
    {comp} (hget : snapshots.get? id = some snapshot)
    (hcomp : StoredAt cal emails event id snapshot comp) :
    instanceContents cal (itipMergeChanges cal event actions) id =
      if comp.2 ∈ removedIds actions then []
      else [(comp.1.componentType, entriesAfter actions comp.2 comp.1.entries)] := by
  have hnew : (addedComponents actions).filter (fun component =>
      entriesInstance cal event.zones component.entries = id) = [] := by
    refine filter_eq_nil_iff.2 fun component hcomponent hid => ?_
    obtain ⟨id', update, hupdate, hunknown, hinstance, -⟩ :=
      (addedFrom h hactions hcomponent).exists_update
    have hsame : componentInstance cal event.zones update.comp = id' :=
      horderly.added _ (ItipSnapshots.get?_mem hupdate) hunknown
    rw [componentInstance_eq, ← hinstance, of_decide_eq_true hid] at hsame
    rw [← hsame, hget] at hunknown
    cases hunknown
  obtain ⟨other, hother, -⟩ := h.stored.read
  have hsingle := filter_eq_singleton (itipSnapshot_eq_ok_iff.1 hother).instances hcomp.mem
  rw [hcomp.id_eq] at hsingle
  rw [instanceContents_merge laws h hactions horderly, hnew, ← filter_filter, hsingle]
  by_cases hremoved : comp.2 ∈ removedIds actions
  · simp [hremoved]
  · simp [hremoved]

theorem instanceContents_merge_new (hget : snapshots.get? id = none)
    {found : ICalendarComponentType × List ICalendarEntry}
    (hfound : found ∈ instanceContents cal (itipMergeChanges cal event actions) id) :
    ∃ update, itipSnapshots.get? id = some update ∧
      entriesSequence cal found.2 = update.sequence.getD 0 := by
  have hkept : (schedulingComponents cal event).filter (fun comp =>
      !(removedIds actions).contains comp.2 && componentInstance cal event.zones comp.1 = id) =
        [] := by
    refine filter_eq_nil_iff.2 fun comp hcomp hid => ?_
    obtain ⟨snapshot, hsnapshot, -⟩ := h.stored.get?_of_mem hcomp
    rw [Bool.and_eq_true, decide_eq_true_eq] at hid
    rw [hid.2, hget] at hsnapshot
    cases hsnapshot
  rw [instanceContents_merge laws h hactions horderly, hkept]
    at hfound
  split at hfound
  swap
  · cases hfound
  obtain ⟨component, hcomponent, rfl⟩ := mem_map.1 hfound
  obtain ⟨hcomponent, hid⟩ := mem_filter.1 hcomponent
  obtain ⟨id', update, hupdate, hunknown, hinstance, hsequence⟩ :=
    (addedFrom h hactions hcomponent).exists_update
  have hsame : componentInstance cal event.zones update.comp = id' :=
    horderly.added _ (ItipSnapshots.get?_mem hupdate) hunknown
  rw [componentInstance_eq, ← hinstance, of_decide_eq_true hid] at hsame
  exact ⟨update, hsame ▸ hupdate, hsequence⟩

/-- **What an orderly message makes of any instance.** -/
theorem change_merge (id : InstanceId) :
    Change cal event itip id (itipMergeChanges cal event actions) := by
  cases hget : snapshots.get? id with
  | some snapshot =>
    obtain ⟨comp, hcomp⟩ := h.stored.storedAt hget
    have hafter := instanceContents_merge_stored laws h hactions horderly hget hcomp
    have hbefore (sequence : ℤ) (hle : snapshot.sequence.getD 0 ≤ sequence) (found : ℤ)
        (hfound : sequenceOf cal event id = some found) : found ≤ sequence := by
      rw [h.stored.sequenceOf_eq, hget] at hfound
      exact Option.some.inj hfound ▸ hle
    cases (outcome h hactions horderly hget hcomp).1 with
    | untouched entries kept =>
      refine .unchanged ?_
      rw [hafter, if_neg kept, entries, h.stored.instanceContents_eq hcomp]
      rfl
    | updated sequence hannounced before after =>
      refine .updated sequence ((h.message.messageSequence_eq id).trans hannounced)
        (hbefore sequence before) fun left hleft => ?_
      rw [sequenceOf, hafter] at hleft
      split at hleft
      · cases hleft
      · exact Option.some.inj hleft ▸ after
    | removed sequence hannounced before gone =>
      refine .updated sequence ((h.message.messageSequence_eq id).trans hannounced)
        (hbefore sequence before) fun left hleft => ?_
      rw [sequenceOf, hafter, if_pos gone] at hleft
      cases hleft
  | none =>
    have hnone := h.stored.instanceContents_eq_nil hget
    cases hfound : (instanceContents cal (itipMergeChanges cal event actions) id).head? with
    | none =>
      refine .unchanged ?_
      rw [hnone]
      exact head?_eq_none_iff.1 hfound
    | some found =>
      obtain ⟨update, hupdate, hsequence⟩ :=
        instanceContents_merge_new laws h hactions horderly hget (mem_of_head? hfound)
      refine .updated _ ((h.message.messageSequence_eq id).trans (announced_of_mentioned hupdate))
        (fun stored hstored => ?_) fun left hleft => ?_
      · rw [sequenceOf, hnone] at hstored
        cases hstored
      · rw [sequenceOf, hfound] at hleft
        exact (hsequence.symm.trans (Option.some.inj hleft)).le

end

end Step

/-! ## Runs -/

/-- A scheduling message and its sender. -/
structure Message where
  itip : ICalendar
  sender : String

/-- A message that `itip_process_message` and `itip_merge_changes` change the event by. -/
structure Merged (cal : Calcard) (emails : List String) (event : ICalendar)
    (message : Message) (event' : ICalendar) (method : ICalendarMethod)
    (snapshots itipSnapshots : ItipSnapshots) : Prop where
  readings : Readings cal emails event message.itip snapshots itipSnapshots
  hmethod : itipMethod message.itip = .ok method
  changes : ∃ now actions, itipProcessMessage cal now event snapshots message.itip itipSnapshots
    message.sender = .ok (.actions actions) ∧ event' = itipMergeChanges cal event actions

/-- A message arrives: it is merged into the event, or the event stays as it is. -/
def Step (cal : Calcard) (emails : List String) (event : ICalendar) (message : Message)
    (event' : ICalendar) : Prop :=
  (∃ method snapshots itipSnapshots,
    Merged cal emails event message event' method snapshots itipSnapshots) ∨ event' = event

/-- The same for a message that does not break the order of the sequence numbers. -/
def OrderlyStep (cal : Calcard) (emails : List String) (event : ICalendar)
    (message : Message) (event' : ICalendar) : Prop :=
  (∃ method snapshots itipSnapshots,
    Merged cal emails event message event' method snapshots itipSnapshots ∧
      Orderly cal event method snapshots itipSnapshots) ∨ event' = event

/-- The law of sequence numbers: they do not go back, and once a message with a sequence number has
changed an instance, one with none or a lower one leaves it alone as long as it survives. -/
structure NeverGoesBack (cal : Calcard) (length : ℕ) (events : ℕ → ICalendar)
    (messages : ℕ → Message) (id : InstanceId) : Prop where
  monotone : ∀ k < length, ∀ found left, sequenceOf cal (events k) id = some found →
    sequenceOf cal (events (k + 1)) id = some left → found ≤ left
  stale : ∀ j k, j < k → k < length →
    instanceContents cal (events (j + 1)) id ≠ instanceContents cal (events j) id →
    (∀ l, j < l → l ≤ k → instanceContents cal (events l) id ≠ []) →
    ∀ sequence, messageSequence cal (messages j).itip id = some sequence →
    (∀ lower, messageSequence cal (messages k).itip id = some lower → lower < sequence) →
    instanceContents cal (events (k + 1)) id = instanceContents cal (events k) id

section Runs

variable {cal : Calcard} {emails : List String}

theorem OrderlyStep.change (laws : cal.Laws) {event event' : ICalendar} {message : Message}
    (h : OrderlyStep cal emails event message event') (id : InstanceId) :
    Change cal event message.itip id event' := by
  rcases h with ⟨method, snapshots, itipSnapshots, hmerged, horderly⟩ | rfl
  · obtain ⟨now, actions, hprocess, rfl⟩ := hmerged.changes
    obtain ⟨-, -, method', hmethod, hactions, -⟩ := itipProcessMessage_actions_iff.1 hprocess
    cases hmerged.hmethod.symm.trans hmethod
    exact change_merge laws hmerged.readings hactions horderly id
  · exact .unchanged rfl

theorem exists_sequenceOf {ical : ICalendar} {id : InstanceId}
    (h : instanceContents cal ical id ≠ []) :
    ∃ sequence, sequenceOf cal ical id = some sequence := by
  obtain ⟨comp, rest, hcons⟩ := exists_cons_of_ne_nil h
  exact ⟨entriesSequence cal comp.2, by rw [sequenceOf, hcons]; rfl⟩

/-- **Sequence numbers never go back** in a run of orderly messages. -/
theorem sequences_never_go_back (laws : cal.Laws) {length : ℕ} {events : ℕ → ICalendar}
    {messages : ℕ → Message}
    (hrun : ∀ k < length, OrderlyStep cal emails (events k) (messages k) (events (k + 1)))
    (id : InstanceId) : NeverGoesBack cal length events messages id := by
  have hchange (k : ℕ) (hk : k < length) :
      Change cal (events k) (messages k).itip id (events (k + 1)) := (hrun k hk).change laws id
  refine ⟨fun k hk found left => (hchange k hk).monotone, ?_⟩
  intro j k hjk hk hchanged hpresent sequence hcarried hlower
  -- From the change on, the stored sequence is at least the one that the message carried.
  have hleast : ∀ n, j + 1 + n ≤ k → ∀ found,
      sequenceOf cal (events (j + 1 + n)) id = some found → sequence ≤ found := by
    intro n
    induction n with
    | zero =>
      intro _ found hfound
      cases hchange j (hjk.trans hk) with
      | unchanged same => cases hchanged same
      | updated carried hcarried' before after =>
        cases hcarried.symm.trans hcarried'
        exact after found hfound
    | succ n ih =>
      intro hn left hleft
      have hn' : j + 1 + n ≤ k := by omega
      obtain ⟨found, hfound⟩ := exists_sequenceOf (hpresent (j + 1 + n) (by omega) hn')
      exact (ih hn' found hfound).trans ((hchange (j + 1 + n) (by omega)).monotone hfound hleft)
  cases hchange k hk with
  | unchanged same => exact same
  | updated carried hcarried' before after =>
    obtain ⟨found, hfound⟩ := exists_sequenceOf (hpresent k hjk le_rfl)
    obtain ⟨n, rfl⟩ := Nat.exists_eq_add_of_le hjk
    have hstored := hleast n le_rfl found hfound
    have hstale := (hlower carried hcarried').trans_le hstored
    cases not_le.2 hstale (before found hfound)

end Runs

/-! ## A cancellation -/

/-- The meeting at a sequence number. -/
def meetingAt (sequence : ℤ) : ICalendarComponent :=
  { meeting with entries := meeting.entries ++
      [{ name := .sequence, params := [], values := [.integer sequence] }] }

def storedMeetingAt (sequence : ℤ) : ICalendar :=
  ⟨[{ componentType := .vCalendar, entries := [], componentIds := [1] }, meetingAt sequence]⟩

def meetingMessageAt (method : ICalendarMethod) (sequence : ℤ) : Message where
  itip := ⟨[{ componentType := .vCalendar
              entries := [{ name := .method, params := [], values := [.method method] }]
              componentIds := [1] }, meetingAt sequence]⟩
  sender := "boss@b.org"

/-- The changes that a message makes to the meeting in the account of one of its attendees. -/
def meetingChanges (event : ICalendar) (message : Message) : List MergeAction :=
  match itipSnapshot .plain event ["me@a.org"] false,
      itipSnapshot .plain message.itip ["me@a.org"] false with
  | .ok snapshots, .ok itipSnapshots =>
    match itipProcessMessage .plain {} event snapshots message.itip itipSnapshots
      message.sender with
    | .ok (.actions actions) => actions
    | _ => []
  | _, _ => []

/-- The meeting after the first messages. -/
def meetingRun (messages : ℕ → Message) : ℕ → ICalendar
  | 0 => storedMeetingAt 2
  | k + 1 => itipMergeChanges .plain (meetingRun messages k)
      (meetingChanges (meetingRun messages k) (messages k))

/-- The organizer of a meeting at sequence 2 cancels it with sequence 3; it is left without one. -/
theorem cancel_resets_sequence :
    ¬ ∀ (cal : Calcard), cal.Laws → ∀ (emails : List String) (length : ℕ)
        (events : ℕ → ICalendar) (messages : ℕ → Message),
        (∀ k < length, Step cal emails (events k) (messages k) (events (k + 1))) →
        ∀ id, NeverGoesBack cal length events messages id := by
  intro h
  have hrun : ∀ k < 1, Step .plain ["me@a.org"]
      (meetingRun (fun _ => meetingMessageAt .cancel 3) k) (meetingMessageAt .cancel 3)
      (meetingRun (fun _ => meetingMessageAt .cancel 3) (k + 1)) := by
    intro k hk
    obtain rfl : k = 0 := by omega
    refine .inl ⟨.cancel, _, _, ⟨.of_snapshot rfl, .of_snapshot rfl, ?_, ?_, ?_, ?_⟩, rfl, {},
      meetingChanges (storedMeetingAt 2) (meetingMessageAt .cancel 3), rfl, rfl⟩ <;> decide
  have hlaw := (h .plain Calcard.plain_laws ["me@a.org"] 1 _ (fun _ => meetingMessageAt .cancel 3)
    hrun .main).monotone 0 Nat.one_pos 2 0 rfl rfl
  cases hlaw

/-- An update of the meeting, and one behind it that was overtaken. -/
def overtaken (k : ℕ) : Message := meetingMessageAt .request (if k = 0 then 3 else 2)

theorem sequences_never_go_back_meeting :
    NeverGoesBack .plain 2 (meetingRun overtaken) overtaken .main := by
  have hrun : ∀ k < 2, OrderlyStep .plain ["me@a.org"] (meetingRun overtaken k) (overtaken k)
      (meetingRun overtaken (k + 1)) := by
    intro k hk
    obtain rfl | rfl : k = 0 ∨ k = 1 := by omega
    swap
    · exact .inr rfl
    refine .inl ⟨.request, _, _, ⟨⟨.of_snapshot rfl, .of_snapshot rfl, ?_, ?_, ?_, ?_⟩, rfl, {},
      meetingChanges (storedMeetingAt 2) (meetingMessageAt .request 3), rfl, rfl⟩,
      ⟨?_, (fun h => by cases h), (fun h => by cases h), ?_, (fun h => by cases h)⟩⟩
    · decide
    · decide
    · decide
    · decide
    · decide
    · intro _ id snapshot main hstored hnone hmain
      have hmem := mem_singleton.1 (ItipSnapshots.get?_mem hstored)
      obtain rfl : id = .main := congrArg Prod.fst hmem
      cases hnone
  exact sequences_never_go_back Calcard.plain_laws hrun .main

end MailServer.Scheduling
