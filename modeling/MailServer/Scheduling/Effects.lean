import MailServer.Scheduling.Merge

/-!
# What a message does to a stored instance

Principal results: `ReadFrom.storedAt`, `ReadFrom.get?_of_mem`, `entriesAfter_blocks`.
-/

namespace MailServer.Scheduling

open List

variable {sender : String}

/-! ## Instances and components -/

/-- The snapshot of an instance is read from that component of the object. -/
structure StoredAt (cal : Calcard) (emails : List String) (ical : ICalendar)
    (id : InstanceId) (snapshot : ItipSnapshot) (comp : ICalendarComponent × ℕ) : Prop where
  mem : comp ∈ schedulingComponents cal ical
  id_eq : componentInstance cal ical.zones comp.1 = id
  reorders : snapshot.Reorders (readComponent cal ical.zones emails comp).2

section Stored

variable {cal : Calcard} {emails : List String} {ical : ICalendar}
  {snapshots : ItipSnapshots} {id : InstanceId} {snapshot : ItipSnapshot}
  {comp : ICalendarComponent × ℕ}

theorem ItipSnapshots.get?_eq_some_iff (hnodup : (snapshots.components.map Prod.fst).Nodup) :
    snapshots.get? id = some snapshot ↔ (id, snapshot) ∈ snapshots.components := by
  refine ⟨ItipSnapshots.get?_mem, fun hmem => ?_⟩
  cases hget : snapshots.get? id with
  | none =>
    cases ItipSnapshots.get?_eq_none_iff.1 hget (mem_map_of_mem hmem)
  | some other =>
    have hother := ItipSnapshots.get?_mem hget
    have hsame := inj_on_of_nodup_map hnodup hother hmem rfl
    rw [(Prod.mk.injEq ..).mp hsame |>.2]

theorem exists_of_forall₂ {α β : Type} {R} {xs : List α} {ys : List β}
    (h : List.Forall₂ R xs ys) {x : α} (hx : x ∈ xs) : ∃ y ∈ ys, R x y := by
  induction h with
  | nil => cases hx
  | cons hxy _ ih =>
    rcases mem_cons.1 hx with rfl | hx
    · exact ⟨_, .head _, hxy⟩
    · obtain ⟨y, hy, hrel⟩ := ih hx
      exact ⟨y, .tail _ hy, hrel⟩

theorem ReadFrom.storedAt_of_mem (h : ReadFrom cal emails ical snapshots)
    (hmem : (id, snapshot) ∈ snapshots.components) :
    ∃ comp, StoredAt cal emails ical id snapshot comp := by
  obtain ⟨other, hother, -, -, ordered, hperm, hforall⟩ := h.read
  obtain ⟨y, hy, hid, hreorders⟩ := exists_of_forall₂ hforall hmem
  rw [hperm.mem_iff, (itipSnapshot_eq_ok_iff.1 hother).components] at hy
  obtain ⟨comp, hcomp, rfl⟩ := mem_map.1 hy
  exact ⟨comp, hcomp, hid.symm, hreorders⟩

theorem ReadFrom.storedAt (h : ReadFrom cal emails ical snapshots)
    (hget : snapshots.get? id = some snapshot) :
    ∃ comp, StoredAt cal emails ical id snapshot comp :=
  h.storedAt_of_mem (ItipSnapshots.get?_mem hget)

theorem ReadFrom.get?_of_mem (h : ReadFrom cal emails ical snapshots)
    (hcomp : comp ∈ schedulingComponents cal ical) :
    ∃ snapshot, snapshots.get? (componentInstance cal ical.zones comp.1) = some snapshot ∧
      StoredAt cal emails ical (componentInstance cal ical.zones comp.1) snapshot comp := by
  obtain ⟨other, hother, -, -, ordered, hperm, hforall⟩ := h.read
  have hy : readComponent cal ical.zones emails comp ∈ ordered := by
    rw [hperm.mem_iff, (itipSnapshot_eq_ok_iff.1 hother).components]
    exact mem_map_of_mem hcomp
  obtain ⟨x, hx, hid, hreorders⟩ := exists_of_forall₂ hforall.flip hy
  obtain ⟨id, snapshot⟩ := x
  obtain rfl : id = componentInstance cal ical.zones comp.1 := hid
  exact ⟨snapshot, (ItipSnapshots.get?_eq_some_iff h.nodup_keys).2 hx, hcomp, rfl, hreorders⟩

theorem StoredAt.lt_length (h : StoredAt cal emails ical id snapshot comp) :
    comp.2 < ical.components.length := by
  simpa using snd_lt_of_mem_zipIdx (mem_filter.1 h.mem).1

/-- In an object that `u16` can index, the component id is the position of the component. -/
theorem StoredAt.compId (h : StoredAt cal emails ical id snapshot comp)
    (hsmall : ical.components.length ≤ 2 ^ 16) : snapshot.compId.toNat = comp.2 := by
  rw [h.reorders.compId]
  exact Nat.mod_eq_of_lt (lt_of_lt_of_le h.lt_length hsmall)

theorem component_eq_of_mem (hmem : comp ∈ schedulingComponents cal ical) :
    ical.component comp.2 = comp.1 := by
  rw [ICalendar.component, getD_eq_getElem?_getD,
    mem_zipIdx_iff_getElem?.1 (mem_filter.1 hmem).1]
  rfl

section

variable (h : StoredAt cal emails ical id snapshot comp)
include h

theorem StoredAt.comp_eq : snapshot.comp = comp.1 :=
  h.reorders.comp

theorem StoredAt.sequence_eq : snapshot.sequence = componentSequence cal comp.1 :=
  h.reorders.sequence

theorem StoredAt.isSchedulingObject : cal.isSchedulingObject comp.1.componentType :=
  (mem_filter.1 h.mem).2

theorem StoredAt.component_eq (hsmall : ical.components.length ≤ 2 ^ 16) :
    ical.component snapshot.compId.toNat = comp.1 := by
  rw [h.compId hsmall, component_eq_of_mem h.mem]

end

end Stored

/-! ## Changes to several instances -/

/-- The changes for one instance of a message edit the stored component of that instance or add a
scheduling object. -/
structure ConcernsOnly (cal : Calcard) (snapshots : ItipSnapshots) (id : InstanceId)
    (actions : List MergeAction) : Prop where
  targets : ∀ action ∈ actions, ∀ position, action.target = some position →
    ∃ snapshot, snapshots.get? id = some snapshot ∧ position = snapshot.compId.toNat
  added : ∀ component ∈ addedComponents actions,
    cal.isSchedulingObject component.componentType
  removed : removedIds actions = []

section Blocks

variable {f : InstanceId × ItipSnapshot → Except ItipError (List MergeAction)}
  {updates : List (InstanceId × ItipSnapshot)} {blocks : List (List MergeAction)}

theorem mem_flatten_blocks (h : updates.mapM f = .ok blocks) {action : MergeAction} :
    action ∈ blocks.flatten ↔ ∃ update ∈ updates, ∃ actions, f update = .ok actions ∧
      action ∈ actions := by
  rw [mem_flatten]
  constructor
  · rintro ⟨actions, hactions, haction⟩
    obtain ⟨update, hupdate, hf⟩ := (Lib.mem_of_mapM h).1 hactions
    exact ⟨update, hupdate, actions, hf, haction⟩
  · rintro ⟨update, hupdate, actions, hf, haction⟩
    exact ⟨actions, (Lib.mem_of_mapM h).2 ⟨update, hupdate, hf⟩, haction⟩

theorem entriesAfter_blocks_other (h : updates.mapM f = .ok blocks) {position : ℕ}
    (hother : ∀ update ∈ updates, ∀ actions, f update = .ok actions →
      ∀ action ∈ actions, action.target ≠ some position) (entries : List ICalendarEntry) :
    entriesAfter blocks.flatten position entries = entries := by
  refine entriesAfter_of_target_ne (fun action haction => ?_) entries
  obtain ⟨update, hupdate, actions, hf, haction⟩ := (mem_flatten_blocks h).1 haction
  exact hother update hupdate actions hf action haction

/-- **The changes of a message to one component are those for its instance.** -/
theorem entriesAfter_blocks (h : updates.mapM f = .ok blocks)
    (hnodup : (updates.map Prod.fst).Nodup) {update}
    (hupdate : update ∈ updates) {actions} (hf : f update = .ok actions)
    {position : ℕ}
    (hother : ∀ other ∈ updates, other.1 ≠ update.1 → ∀ actions, f other = .ok actions →
      ∀ action ∈ actions, action.target ≠ some position) (entries : List ICalendarEntry) :
    entriesAfter blocks.flatten position entries = entriesAfter actions position entries := by
  induction updates generalizing blocks entries with
  | nil => cases hupdate
  | cons head updates ih =>
    obtain ⟨block, rest, hblock, hrest, rfl⟩ := Lib.mapM_cons_eq_ok_iff.1 h
    rw [map_cons, nodup_cons] at hnodup
    rw [flatten_cons, entriesAfter_append]
    rcases mem_cons.1 hupdate with rfl | hmem
    · cases hblock.symm.trans hf
      refine entriesAfter_blocks_other hrest (fun other hmem => ?_) _
      refine hother other (.tail _ hmem) fun heq => ?_
      exact hnodup.1 (heq ▸ mem_map_of_mem hmem)
    · have hne : head.1 ≠ update.1 := fun heq => hnodup.1 (heq ▸ mem_map_of_mem hmem)
      rw [entriesAfter_of_target_ne (hother head (.head _) hne block hblock)]
      exact ih hrest hnodup.2 hmem
        (fun other hmem => hother other (.tail _ hmem)) entries

theorem flatMap_ite_singleton {α β : Type} (p : α → Bool) (g : α → β) (xs : List α) :
    (xs.flatMap fun x => if p x then [g x] else []) = (xs.filter p).map g := by
  induction xs with
  | nil => rfl
  | cons x xs ih =>
    rw [flatMap_cons, ih, filter_cons]
    cases p x <;> rfl

theorem addedComponents_blocks (h : updates.mapM f = .ok blocks) :
    addedComponents blocks.flatten = updates.flatMap fun update =>
      match f update with
      | .ok actions => addedComponents actions
      | .error _ => [] := by
  induction updates generalizing blocks with
  | nil =>
    obtain rfl := Lib.mapM_nil_eq_ok_iff.1 h
    rfl
  | cons head updates ih =>
    obtain ⟨block, rest, hblock, hrest, rfl⟩ := Lib.mapM_cons_eq_ok_iff.1 h
    rw [flatten_cons, flatMap_cons, ← ih hrest, hblock, addedComponents,
      filterMap_append]
    rfl

end Blocks

/-! ## The instances that a message concerns -/

section Concerns

variable {cal : Calcard} {emails : List String} {event itip : ICalendar}
  {snapshots : ItipSnapshots} {update : InstanceId × ItipSnapshot}
  {comp : ICalendarComponent × ℕ} {actions : List MergeAction}

theorem target_of_mem_pair {x y action : MergeAction} {target : Option ℕ} (hx : x.target = target)
    (hy : y.target = target) (h : action ∈ [x, y]) : action.target = target := by
  rcases mem_cons.1 h with rfl | h
  · exact hx
  · rwa [mem_singleton.1 h]

theorem ConcernsOnly.of_stored {id : InstanceId} {snapshot : ItipSnapshot}
    (hstored : snapshots.get? id = some snapshot)
    (h : ∀ action ∈ actions, action.target = some snapshot.compId.toNat) :
    ConcernsOnly cal snapshots id actions where
  targets action haction position hposition :=
    ⟨snapshot, hstored, Option.some.inj (hposition.symm.trans (h action haction))⟩
  added component hcomponent := by
    obtain ⟨action, haction, heq⟩ := mem_filterMap.1 hcomponent
    have htarget := h action haction
    cases action <;> first | cases htarget | cases heq
  removed := by
    refine filterMap_eq_nil_iff.2 fun action haction => ?_
    have htarget := h action haction
    cases action <;> first | rfl | cases htarget

theorem ConcernsOnly.of_new {id : InstanceId} {component}
    {isLeftOut} {added}
    (hobject : cal.isSchedulingObject component.componentType) :
    ConcernsOnly cal snapshots id [newInstance component isLeftOut added] where
  targets action haction position hposition := by
    rw [mem_singleton.1 haction] at hposition
    cases hposition
  added component' hcomponent := by
    simp only [newInstance, addedComponents, filterMap_cons, filterMap_nil,
      mem_singleton] at hcomponent
    rw [hcomponent]
    exact hobject
  removed := rfl

theorem requestInstance_concerns (hupdate : StoredAt cal emails itip update.1 update.2 comp)
    (hsmall : itip.components.length ≤ 2 ^ 16)
    (h : requestInstance snapshots itip update = .ok actions) :
    ConcernsOnly cal snapshots update.1 actions := by
  cases hget : snapshots.get? update.1 with
  | none =>
    rw [requestInstance_new hget] at h
    cases h
    refine .of_new ?_
    rw [hupdate.component_eq hsmall]
    exact hupdate.isSchedulingObject
  | some snapshot =>
    rw [requestInstance_stored hget] at h
    split at h
    · cases h
    · cases h
      exact .of_stored hget fun action haction => target_of_mem_pair rfl rfl haction

theorem cancelInstance_concerns (hupdate : StoredAt cal emails itip update.1 update.2 comp)
    (h : cancelInstance snapshots update = .ok actions) :
    ConcernsOnly cal snapshots update.1 actions := by
  simp only [cancelInstance] at h
  split at h
  · rename_i snapshot hget
    split at h
    · cases h
    · cases h
      exact .of_stored hget fun action haction => target_of_mem_pair rfl rfl haction
  · cases h
    refine .of_new ?_
    rw [hupdate.comp_eq]
    exact hupdate.isSchedulingObject

theorem replyDelegate_target {snapshot itipSnapshot : ItipSnapshot} {delegatedTo : Email}
    {action : MergeAction} (h : action ∈ replyDelegate snapshot itipSnapshot delegatedTo) :
    action.target = some snapshot.compId.toNat := by
  simp only [replyDelegate] at h
  split at h
  · cases h
  · split at h
    · split at h
      · exact target_of_mem_pair rfl rfl h
      · cases h
    · rw [mem_singleton.1 h]
      rfl

theorem replyAttendee_target {snapshot itipSnapshot : ItipSnapshot} {attendee updated : Attendee}
    {action : MergeAction} (h : action ∈ replyAttendee snapshot itipSnapshot attendee updated) :
    action.target = some snapshot.compId.toNat := by
  rw [replyAttendee, mem_append] at h
  rcases h with h | h
  · split at h
    · rw [mem_append] at h
      rcases h with h | h
      · exact target_of_mem_pair rfl rfl h
      · obtain ⟨delegatedTo, -, h⟩ := mem_flatMap.1 h
        exact replyDelegate_target h
    · cases h
  · split at h
    · exact target_of_mem_pair rfl rfl h
    · cases h

theorem replyInstance_concerns (hupdate : StoredAt cal emails itip update.1 update.2 comp)
    (h : replyInstance snapshots sender update = .ok actions) :
    ConcernsOnly cal snapshots update.1 actions := by
  simp only [replyInstance] at h
  split at h
  · rename_i snapshot hget
    split at h
    · cases h
      exact .of_stored hget fun action haction => replyAttendee_target haction
    · cases h
  · split at h
    · cases h
      refine .of_new ?_
      rw [hupdate.comp_eq]
      exact hupdate.isSchedulingObject
    · cases h

theorem ConcernsOnly.target_ne {id id' : InstanceId} {snapshot : ItipSnapshot}
    (hstored : ReadFrom cal emails event snapshots)
    (hsmall : event.components.length ≤ 2 ^ 16)
    (hid : StoredAt cal emails event id snapshot comp)
    (h : ConcernsOnly cal snapshots id' actions) (hne : id' ≠ id) :
    ∀ action ∈ actions, action.target ≠ some comp.2 := by
  intro action haction htarget
  obtain ⟨snapshot', hget, hposition⟩ := h.targets action haction _ htarget
  obtain ⟨comp', hid'⟩ := hstored.storedAt hget
  rw [hid'.compId hsmall] at hposition
  have hcomp : comp'.1 = comp.1 := by
    rw [← component_eq_of_mem hid'.mem, ← component_eq_of_mem hid.mem, hposition]
  exact hne (hid'.id_eq.symm.trans ((congrArg _ hcomp).trans hid.id_eq))

end Concerns

/-! ## What each kind of message does -/

section

variable {snapshots itipSnapshots : ItipSnapshots} {actions : List MergeAction}

theorem handleRequest_eq_ok_iff {itip : ICalendar} :
    handleRequest snapshots itip itipSnapshots = .ok actions ↔
      ∃ blocks, itipSnapshots.components.mapM (requestInstance snapshots itip) = .ok blocks ∧
        actions = blocks.flatten ++ requestTail snapshots itipSnapshots :=
  Lib.bind_pure_eq_ok_iff

theorem handleCancel_eq_ok_iff : handleCancel snapshots itipSnapshots = .ok actions ↔
      ∃ blocks, itipSnapshots.components.mapM (cancelInstance snapshots) = .ok blocks ∧
        actions = blocks.flatten ++ cancelTail snapshots itipSnapshots :=
  Lib.bind_pure_eq_ok_iff

theorem handleReply_eq_ok_iff :
    handleReply snapshots itipSnapshots sender = .ok actions ↔
      ∃ blocks, itipSnapshots.components.mapM (replyInstance snapshots sender) = .ok blocks ∧
        actions = blocks.flatten :=
  Lib.bind_pure_eq_ok_iff

end

theorem mem_unmentioned {snapshots itipSnapshots} {snapshot : ItipSnapshot}
    (hnodup : (snapshots.components.map Prod.fst).Nodup) :
    snapshot ∈ unmentioned snapshots itipSnapshots ↔
      ∃ id, snapshots.get? id = some snapshot ∧ itipSnapshots.get? id = none := by
  simp only [unmentioned, mem_map, mem_filter, Option.isNone_iff_eq_none]
  constructor
  · rintro ⟨⟨id, snapshot⟩, ⟨hmem, hnone⟩, rfl⟩
    exact ⟨id, (ItipSnapshots.get?_eq_some_iff hnodup).2 hmem, hnone⟩
  · rintro ⟨id, hget, hnone⟩
    exact ⟨(id, snapshot), ⟨ItipSnapshots.get?_mem hget, hnone⟩, rfl⟩

theorem addedComponents_append (xs ys : List MergeAction) :
    addedComponents (xs ++ ys) = addedComponents xs ++ addedComponents ys :=
  filterMap_append ..

theorem removedIds_append (xs ys : List MergeAction) :
    removedIds (xs ++ ys) = removedIds xs ++ removedIds ys :=
  filterMap_append ..

section Effects

variable {cal : Calcard} {emails : List String} {event itip : ICalendar}
  {snapshots itipSnapshots : ItipSnapshots}

theorem Scheduled.append {xs ys} (hxs : Scheduled cal event xs)
    (hys : Scheduled cal event ys) : Scheduled cal event (xs ++ ys) where
  targets action haction := (mem_append.1 haction).elim (hxs.targets action) (hys.targets action)
  added component hcomponent := by
    rw [addedComponents_append, mem_append] at hcomponent
    exact hcomponent.elim (hxs.added component) (hys.added component)
  removed id hid := by
    rw [removedIds_append, mem_append] at hid
    exact hid.elim (hxs.removed id) (hys.removed id)

theorem Scheduled.nil : Scheduled cal event [] where
  targets _ haction := nomatch haction
  added _ hcomponent := nomatch hcomponent
  removed _ hid := absurd hid not_mem_nil

theorem isSchedulingObject_of_get? (hstored : ReadFrom cal emails event snapshots)
    (hsmall : event.components.length ≤ 2 ^ 16) {id : InstanceId} {snapshot : ItipSnapshot}
    (hget : snapshots.get? id = some snapshot) :
    cal.isSchedulingObject (event.component snapshot.compId.toNat).componentType := by
  obtain ⟨comp, hcomp⟩ := hstored.storedAt hget
  rw [hcomp.component_eq hsmall]
  exact hcomp.isSchedulingObject

section

variable {f : InstanceId × ItipSnapshot → Except ItipError (List MergeAction)}
  {updates : List (InstanceId × ItipSnapshot)} {blocks : List (List MergeAction)}

theorem removedIds_of_concerns
    (hconcerns : ∀ update ∈ updates, ∀ actions, f update = .ok actions →
      ConcernsOnly cal snapshots update.1 actions)
    (h : updates.mapM f = .ok blocks) : removedIds blocks.flatten = [] := by
  refine eq_nil_iff_forall_not_mem.2 fun id hid => ?_
  obtain ⟨action, haction, heq⟩ := mem_filterMap.1 hid
  obtain ⟨update, hupdate, actions, hf, haction⟩ := (mem_flatten_blocks h).1 haction
  have hmem : id ∈ removedIds actions := mem_filterMap.2 ⟨action, haction, heq⟩
  rw [(hconcerns update hupdate actions hf).removed] at hmem
  cases hmem

theorem scheduled_of_concerns (hstored : ReadFrom cal emails event snapshots)
    (hsmall : event.components.length ≤ 2 ^ 16)
    (hconcerns : ∀ update ∈ updates, ∀ actions, f update = .ok actions →
      ConcernsOnly cal snapshots update.1 actions)
    (h : updates.mapM f = .ok blocks) : Scheduled cal event blocks.flatten := by
  refine ⟨fun action haction position hposition => ?_, fun component hcomponent => ?_,
    by simp [removedIds_of_concerns hconcerns h]⟩
  · obtain ⟨update, hupdate, actions, hf, haction⟩ := (mem_flatten_blocks h).1 haction
    obtain ⟨snapshot, hget, rfl⟩ :=
      (hconcerns update hupdate actions hf).targets action haction position hposition
    exact isSchedulingObject_of_get? hstored hsmall hget
  · obtain ⟨action, haction, heq⟩ := mem_filterMap.1 hcomponent
    obtain ⟨update, hupdate, actions, hf, haction⟩ := (mem_flatten_blocks h).1 haction
    exact (hconcerns update hupdate actions hf).added component
      (mem_filterMap.2 ⟨action, haction, heq⟩)

/-- The components added are those of the instances that are not stored. -/
theorem addedComponents_of_instances {component}
    (hadded : ∀ update actions, f update = .ok actions → addedComponents actions =
      if (snapshots.get? update.1).isNone then [component update] else [])
    (h : updates.mapM f = .ok blocks) : addedComponents blocks.flatten =
      (updates.filter fun update => (snapshots.get? update.1).isNone).map component := by
  rw [addedComponents_blocks h, ← flatMap_ite_singleton]
  refine flatMap_congr fun update hupdate => ?_
  obtain ⟨actions, hf⟩ := Lib.exists_mapM_eq_ok_iff.1 ⟨blocks, h⟩ update hupdate
  rw [hf]
  exact hadded update actions hf

/-- **One instance of a message and its component**: the entries that the blocks leave. -/
theorem entriesAfter_concerns {id : InstanceId} {snapshot : ItipSnapshot}
    {comp} (hstored : ReadFrom cal emails event snapshots)
    (hsmall : event.components.length ≤ 2 ^ 16)
    (hmessage : ReadFrom cal emails itip itipSnapshots)
    (hconcerns : ∀ update ∈ itipSnapshots.components, ∀ actions, f update = .ok actions →
      ConcernsOnly cal snapshots update.1 actions)
    (h : itipSnapshots.components.mapM f = .ok blocks)
    (hid : StoredAt cal emails event id snapshot comp) (entries : List ICalendarEntry) :
    (∀ update, itipSnapshots.get? id = some update → ∃ actions, f (id, update) = .ok actions ∧
      entriesAfter blocks.flatten comp.2 entries = entriesAfter actions comp.2 entries) ∧
    (itipSnapshots.get? id = none → entriesAfter blocks.flatten comp.2 entries = entries) := by
  have hother (other : InstanceId × ItipSnapshot) (hmem : other ∈ itipSnapshots.components)
      (hne : other.1 ≠ id) (actions : List MergeAction) (hf : f other = .ok actions) :
      ∀ action ∈ actions, action.target ≠ some comp.2 :=
    (hconcerns other hmem actions hf).target_ne hstored hsmall hid hne
  constructor
  · intro update hget
    have hmem := ItipSnapshots.get?_mem hget
    obtain ⟨actions, hf⟩ := Lib.exists_mapM_eq_ok_iff.1 ⟨blocks, h⟩ _ hmem
    exact ⟨actions, hf, entriesAfter_blocks h hmessage.nodup_keys hmem hf hother entries⟩
  · intro hnone
    refine entriesAfter_blocks_other h (fun other hmem actions hf => ?_) entries
    refine hother other hmem (fun heq => ?_) actions hf
    exact ItipSnapshots.get?_eq_none_iff.1 hnone (heq ▸ mem_map_of_mem hmem)

end

end Effects

/-! ## The changes to the entries -/

def entriesOf (property : ICalendarProperty) (entries : List ICalendarEntry) :
    List ICalendarEntry :=
  entries.filter (·.name = property)

theorem entriesOf_append (property : ICalendarProperty) (xs ys : List ICalendarEntry) :
    entriesOf property (xs ++ ys) = entriesOf property xs ++ entriesOf property ys :=
  filter_append ..

theorem entriesOf_filter (property : ICalendarProperty) (p : ICalendarProperty → Bool)
    (entries : List ICalendarEntry) :
    entriesOf property (entries.filter fun entry => p entry.name) =
      if p property then entriesOf property entries else [] := by
  rw [entriesOf, filter_filter]
  split
  · refine filter_congr fun entry _ => ?_
    by_cases h : entry.name = property <;> simp_all
  · refine filter_eq_nil_iff.2 fun entry _ => ?_
    by_cases h : entry.name = property <;> simp_all

theorem filterMap_entriesOf {β : Type} {property}
    {f : ICalendarEntry → Option β} (hf : ∀ entry, entry.name ≠ property → f entry = none)
    (entries : List ICalendarEntry) :
    (entriesOf property entries).filterMap f = entries.filterMap f := by
  rw [entriesOf, filterMap_filter]
  refine filterMap_congr fun entry _ => ?_
  by_cases h : entry.name = property
  · simp [h]
  · simp [hf entry h]

/-- The part of an entry that instances and sequences are read from. -/
def ICalendarEntry.core (entry : ICalendarEntry) : ICalendarEntry :=
  { entry with params := entry.params.filter fun param => param.name = .tzid ∨ param.name = .range }

theorem recurrenceTz_core (params : List ICalendarParameter) :
    recurrenceTz (params.filter fun param => param.name = .tzid ∨ param.name = .range) =
      recurrenceTz params := by
  rw [recurrenceTz, foldl_filter]
  congr 1
  funext tz param
  split
  · rfl
  · rename_i hname
    split
    · rename_i htzid _
      cases hname (by simp [htzid])
    · rfl

theorem readInstanceId_core (cal : Calcard) (zones : List Zone) (entry : ICalendarEntry) :
    readInstanceId cal zones entry.core = readInstanceId cal zones entry := by
  have hrange : (entry.params.filter fun param => param.name = .tzid ∨ param.name = .range).any
      (·.name = .range) = entry.params.any (·.name = .range) := by
    rw [any_filter]
    refine congrArg (entry.params.any ·) (funext fun param => ?_)
    by_cases h : param.name = .range <;> simp [h]
  simp only [readInstanceId, ICalendarEntry.core, recurrenceTz_core, hrange]

theorem filterMap_readInstanceId_congr (cal : Calcard) (zones : List Zone)
    {entries entries'}
    (h : (entriesOf .recurrenceId entries).map ICalendarEntry.core =
      (entriesOf .recurrenceId entries').map ICalendarEntry.core) :
    entries.filterMap (readInstanceId cal zones) =
      entries'.filterMap (readInstanceId cal zones) := by
  have hread (entry : ICalendarEntry) (hne : entry.name ≠ .recurrenceId) :
      readInstanceId cal zones entry = none := by simp [readInstanceId, hne]
  have hcore (entries : List ICalendarEntry) :
      entries.filterMap (readInstanceId cal zones) =
        ((entriesOf .recurrenceId entries).map ICalendarEntry.core).filterMap
          (readInstanceId cal zones) := by
    rw [filterMap_map, ← filterMap_entriesOf hread]
    exact filterMap_congr fun entry _ => (readInstanceId_core cal zones entry).symm
  rw [hcore, h, ← hcore]

theorem filterMap_readSequence_congr (cal : Calcard) {entries entries'}
    (h : (entriesOf .sequence entries).map ICalendarEntry.core =
      (entriesOf .sequence entries').map ICalendarEntry.core) :
    entries.filterMap (readSequence cal) = entries'.filterMap (readSequence cal) := by
  have hread (entry : ICalendarEntry) (hne : entry.name ≠ .sequence) :
      readSequence cal entry = none := by simp [readSequence, hne]
  have hcore (entries : List ICalendarEntry) :
      entries.filterMap (readSequence cal) =
        ((entriesOf .sequence entries).map ICalendarEntry.core).filterMap (readSequence cal) := by
    rw [filterMap_map, ← filterMap_entriesOf hread]
    rfl
  rw [hcore, h, ← hcore]

theorem entriesOf_replace {property} {names : List ICalendarProperty}
    (hnames : property ∉ names) {added : List ICalendarEntry}
    (hadded : ∀ entry ∈ added, entry.name ≠ property) (entries : List ICalendarEntry) :
    entriesOf property ((entries.filter (!names.contains ·.name)) ++ added) =
      entriesOf property entries := by
  have hnil : entriesOf property added = [] :=
    filter_eq_nil_iff.2 fun entry hentry => by simpa using hadded entry hentry
  rw [entriesOf_append, hnil, entriesOf_filter _ fun name => !names.contains name]
  simp [hnames]

theorem entriesAfter_replace {id : UInt16} {position : ℕ} (hposition : id.toNat = position)
    (names : List ICalendarProperty) (added entries : List ICalendarEntry) :
    entriesAfter [.removeEntries id names, .addEntries id added] position entries =
      (entries.filter (!names.contains ·.name)) ++ added := by
  simp [entriesAfter, MergeAction.target, MergeAction.edit, hposition]

/-! ## The methods one by one -/

/-- The snapshots of a stored event and of a message about it, in some iteration order, of objects
that `u16` can index. -/
structure Readings (cal : Calcard) (emails : List String) (event itip : ICalendar)
    (snapshots itipSnapshots : ItipSnapshots) : Prop where
  stored : ReadFrom cal emails event snapshots
  message : ReadFrom cal emails itip itipSnapshots
  eventSmall : event.components.length ≤ 2 ^ 16
  messageSmall : itip.components.length ≤ 2 ^ 16
  eventEntries : ∀ comp ∈ event.components, comp.entries.length ≤ 2 ^ 16
  messageEntries : ∀ comp ∈ itip.components, comp.entries.length ≤ 2 ^ 16

section Methods

variable {cal : Calcard} {emails : List String} {event itip : ICalendar}
  {snapshots itipSnapshots : ItipSnapshots} {actions : List MergeAction}

variable {comp : ICalendarComponent × ℕ} {snapshot : ItipSnapshot}

section

variable (h : Readings cal emails event itip snapshots itipSnapshots)
include h

theorem Readings.request_concerns : ∀ update ∈ itipSnapshots.components, ∀ actions,
      requestInstance snapshots itip update = .ok actions →
        ConcernsOnly cal snapshots update.1 actions := by
  intro update hupdate actions hactions
  obtain ⟨comp, hcomp⟩ := h.message.storedAt_of_mem hupdate
  exact requestInstance_concerns hcomp h.messageSmall hactions

theorem Readings.cancel_concerns : ∀ update ∈ itipSnapshots.components, ∀ actions,
      cancelInstance snapshots update = .ok actions →
        ConcernsOnly cal snapshots update.1 actions := by
  intro update hupdate actions hactions
  obtain ⟨comp, hcomp⟩ := h.message.storedAt_of_mem hupdate
  exact cancelInstance_concerns hcomp hactions

theorem Readings.reply_concerns (sender : String) : ∀ update ∈ itipSnapshots.components, ∀ actions,
      replyInstance snapshots sender update = .ok actions →
        ConcernsOnly cal snapshots update.1 actions := by
  intro update hupdate actions hactions
  obtain ⟨comp, hcomp⟩ := h.message.storedAt_of_mem hupdate
  exact replyInstance_concerns hcomp hactions

theorem Readings.position {id : InstanceId}
    {comp} (hcomp : StoredAt cal emails event id snapshot comp) :
    snapshot.compId.toNat = comp.2 :=
  hcomp.compId h.eventSmall

theorem Readings.position_inj {id id' : InstanceId} {snapshot snapshot' : ItipSnapshot}
    {comp} (hcomp : StoredAt cal emails event id snapshot comp)
    (hget : snapshots.get? id' = some snapshot') (hposition : snapshot'.compId.toNat = comp.2) :
    id' = id := by
  obtain ⟨comp', hcomp'⟩ := h.stored.storedAt hget
  rw [h.position hcomp'] at hposition
  have hsame : comp'.1 = comp.1 := by
    rw [← component_eq_of_mem hcomp'.mem, ← component_eq_of_mem hcomp.mem, hposition]
  exact hcomp'.id_eq.symm.trans ((congrArg _ hsame).trans hcomp.id_eq)

/-- What a `REQUEST` does to a stored instance. -/
theorem request_effect (hactions : handleRequest snapshots itip itipSnapshots = .ok actions)
    {id : InstanceId} (hget : snapshots.get? id = some snapshot)
    (hcomp : StoredAt cal emails event id snapshot comp) (entries : List ICalendarEntry) :
    (∀ update, itipSnapshots.get? id = some update →
      update.outOfSequence snapshot = false ∧
      entriesAfter actions comp.2 entries =
        (entries.filter (!(changedEntries update snapshot).contains ·.name)) ++
          (itip.component update.compId.toNat).entries.filter
            ((changedEntries update snapshot).contains ·.name)) ∧
    (itipSnapshots.get? id = none → entriesAfter actions comp.2 entries = entries) ∧
    (comp.2 ∈ removedIds actions ↔ itipSnapshots.get? id = none ∧
      itipSnapshots.components.any (·.1 = .main)) := by
  obtain ⟨blocks, hblocks, rfl⟩ := handleRequest_eq_ok_iff.1 hactions
  have htail : ∀ action ∈ requestTail snapshots itipSnapshots, action.target ≠ some comp.2 := by
    intro action haction
    rw [requestTail] at haction
    split at haction
    · obtain ⟨stored, -, rfl⟩ := mem_map.1 haction
      exact Option.some_ne_none _ |>.symm
    · cases haction
  obtain ⟨hmentioned, hother⟩ := entriesAfter_concerns h.stored h.eventSmall h.message
    h.request_concerns hblocks hcomp entries
  refine ⟨fun update hupdate => ?_, fun hnone => ?_, ?_⟩
  · obtain ⟨actions, hf, hentries⟩ := hmentioned update hupdate
    rw [entriesAfter_append, entriesAfter_of_target_ne htail, hentries]
    rw [requestInstance_stored hget] at hf
    cases hsequence : update.outOfSequence snapshot with
    | true =>
      rw [hsequence] at hf
      cases hf
    | false =>
      rw [hsequence] at hf
      cases hf
      exact ⟨rfl, entriesAfter_replace (h.position hcomp) _ _ _⟩
  · rw [entriesAfter_append, entriesAfter_of_target_ne htail, hother hnone]
  · rw [removedIds_append, removedIds_of_concerns h.request_concerns hblocks, nil_append,
      requestTail]
    split
    · rename_i hmain
      simp only [hmain, and_true, removedIds, filterMap_map, mem_filterMap,
        Function.comp_apply, Option.some.injEq, mem_unmentioned h.stored.nodup_keys]
      constructor
      · rintro ⟨stored, ⟨id', hget', hnone⟩, hposition⟩
        rwa [h.position_inj hcomp hget' hposition] at hnone
      · intro hnone
        exact ⟨snapshot, ⟨id, hget, hnone⟩, h.position hcomp⟩
    · rename_i hmain
      simp [removedIds, hmain]

end

/-- The components that a `REQUEST` adds: those of its new instances. -/
theorem request_added (hactions : handleRequest snapshots itip itipSnapshots = .ok actions) :
    addedComponents actions =
      (itipSnapshots.components.filter fun update => (snapshots.get? update.1).isNone).map
        fun update => newComponent (itip.component update.2.compId.toNat)
          ICalendarProperty.isOther [] := by
  obtain ⟨blocks, hblocks, rfl⟩ := handleRequest_eq_ok_iff.1 hactions
  have htail : addedComponents (requestTail snapshots itipSnapshots) = [] := by
    rw [requestTail]
    split
    · simp [addedComponents]
    · rfl
  rw [addedComponents_append, htail, append_nil]
  refine addedComponents_of_instances (fun update actions hf => ?_) hblocks
  cases hget : snapshots.get? update.1 with
  | none =>
    rw [requestInstance_new hget] at hf
    cases hf
    rfl
  | some snapshot =>
    rw [requestInstance_stored hget] at hf
    split at hf
    · cases hf
    · cases hf
      rfl

/-- The changes of a `REQUEST` are changes to scheduling objects. -/
theorem request_scheduled (h : Readings cal emails event itip snapshots itipSnapshots)
    (hactions : handleRequest snapshots itip itipSnapshots = .ok actions) :
    Scheduled cal event actions := by
  obtain ⟨blocks, hblocks, rfl⟩ := handleRequest_eq_ok_iff.1 hactions
  refine (scheduled_of_concerns h.stored h.eventSmall h.request_concerns hblocks).append ?_
  rw [requestTail]
  split
  swap
  · exact .nil
  refine ⟨fun action haction id hid => ?_, fun component hcomponent => ?_, fun id hid => ?_⟩
  · obtain ⟨stored, -, rfl⟩ := mem_map.1 haction
    cases hid
  · simp [addedComponents] at hcomponent
  · simp only [removedIds, filterMap_map, mem_filterMap, Function.comp_apply,
      Option.some.injEq, mem_unmentioned h.stored.nodup_keys] at hid
    obtain ⟨stored, ⟨id', hget, -⟩, rfl⟩ := hid
    exact isSchedulingObject_of_get? h.stored h.eventSmall hget

theorem cancelTail_eq (itipMain main : ItipSnapshot)
    (hitip : itipSnapshots.get? .main = some itipMain)
    (hmain : snapshots.get? .main = some main) :
    cancelTail snapshots itipSnapshots =
      ((snapshots.components.filter fun stored => (itipSnapshots.get? stored.1).isNone).map
        fun stored => cancelUnmentioned itipMain.comp stored.2).flatten := by
  simp only [cancelTail, hitip, hmain, unmentioned, flatMap_map]
  rfl

theorem cancelUnmentioned_concerns (component : ICalendarComponent) {id : InstanceId}
    {snapshot : ItipSnapshot} (hget : snapshots.get? id = some snapshot) :
    ConcernsOnly cal snapshots id (cancelUnmentioned component snapshot) :=
  .of_stored hget fun _ haction => target_of_mem_pair rfl rfl haction

/-- The stored instances that a cancellation does not mention are cancelled with the main one. -/
def CancelsAll (snapshots itipSnapshots : ItipSnapshots) : Prop :=
  ∃ itipMain main, itipSnapshots.get? .main = some itipMain ∧ snapshots.get? .main = some main

theorem cancelTail_of_not_cancelsAll (h : ¬ CancelsAll snapshots itipSnapshots) :
    cancelTail snapshots itipSnapshots = [] := by
  simp only [cancelTail]
  split
  · rename_i itipMain main hitip hmain
    cases h ⟨itipMain, main, hitip, hmain⟩
  · rfl

section

variable (h : Readings cal emails event itip snapshots itipSnapshots)
include h

theorem cancelTail_blocks (itipMain : ItipSnapshot) :
    let unmentioned := snapshots.components.filter fun stored =>
      (itipSnapshots.get? stored.1).isNone
    let f : InstanceId × ItipSnapshot → Except ItipError (List MergeAction) := fun stored =>
      .ok (cancelUnmentioned itipMain.comp stored.2)
    unmentioned.mapM f =
        .ok (unmentioned.map fun stored => cancelUnmentioned itipMain.comp stored.2) ∧
      ∀ stored ∈ unmentioned, ∀ actions, f stored = .ok actions →
        ConcernsOnly cal snapshots stored.1 actions := by
  refine ⟨Lib.mapM_ok .., fun stored hmem actions hactions => ?_⟩
  cases hactions
  exact cancelUnmentioned_concerns _
    ((ItipSnapshots.get?_eq_some_iff h.stored.nodup_keys).2 (mem_filter.1 hmem).1)

/-- The changes to the unmentioned instances, at the component of a stored one. -/
theorem cancelTail_entries {itipMain main : ItipSnapshot}
    (hitip : itipSnapshots.get? .main = some itipMain) (hmain : snapshots.get? .main = some main)
    {id : InstanceId} (hget : snapshots.get? id = some snapshot)
    (hcomp : StoredAt cal emails event id snapshot comp) (entries : List ICalendarEntry) :
    entriesAfter (cancelTail snapshots itipSnapshots) comp.2 entries =
      if itipSnapshots.get? id = none then
        (entries.filter
          (!([.organizer, .attendee, .status] : List ICalendarProperty).contains ·.name)) ++
          cancelEntries itipMain.comp
      else entries := by
  obtain ⟨hblocks, hconcerns⟩ := cancelTail_blocks h itipMain
  rw [cancelTail_eq itipMain main hitip hmain]
  split
  · rename_i hnone
    have hmem : (id, snapshot) ∈ snapshots.components.filter fun stored =>
        (itipSnapshots.get? stored.1).isNone :=
      mem_filter.2 ⟨ItipSnapshots.get?_mem hget, by simp [hnone]⟩
    rw [entriesAfter_blocks hblocks (h.stored.nodup_keys.sublist (filter_sublist.map _)) hmem
      rfl (fun other hother hne actions hactions => ?_)]
    · exact entriesAfter_replace (h.position hcomp) _ _ _
    · exact (hconcerns other hother actions hactions).target_ne h.stored h.eventSmall hcomp hne
  · rename_i hsome
    refine entriesAfter_blocks_other hblocks (fun other hother actions hactions => ?_) entries
    refine (hconcerns other hother actions hactions).target_ne h.stored h.eventSmall hcomp
      fun heq => hsome ?_
    rw [← heq]
    simpa using (mem_filter.1 hother).2

/-- The cancellation of unmentioned instances removes and adds no component. -/
theorem cancelTail_scheduled : Scheduled cal event (cancelTail snapshots itipSnapshots) ∧
      addedComponents (cancelTail snapshots itipSnapshots) = [] ∧
      removedIds (cancelTail snapshots itipSnapshots) = [] := by
  by_cases hall : CancelsAll snapshots itipSnapshots
  swap
  · rw [cancelTail_of_not_cancelsAll hall]
    exact ⟨.nil, rfl, rfl⟩
  obtain ⟨itipMain, main, hitip, hmain⟩ := hall
  obtain ⟨hblocks, hconcerns⟩ := cancelTail_blocks h itipMain
  rw [cancelTail_eq itipMain main hitip hmain]
  refine ⟨scheduled_of_concerns h.stored h.eventSmall hconcerns hblocks, ?_,
    removedIds_of_concerns hconcerns hblocks⟩
  rw [addedComponents_blocks hblocks]
  exact flatMap_eq_nil_iff.2 fun _ _ => rfl

section

variable (hactions : handleCancel snapshots itipSnapshots = .ok actions)
include hactions

/-- What a `CANCEL` does to a stored instance. -/
theorem cancel_effect {id : InstanceId} {snapshot : ItipSnapshot} {comp}
    (hget : snapshots.get? id = some snapshot)
    (hcomp : StoredAt cal emails event id snapshot comp) (entries : List ICalendarEntry) :
    (∀ update, itipSnapshots.get? id = some update →
      update.outOfSequence snapshot = false ∧
      entriesAfter actions comp.2 entries =
        (entries.filter (!([.organizer, .attendee, .status, .sequence] :
          List ICalendarProperty).contains ·.name)) ++
          cancelEntries update.comp) ∧
    (itipSnapshots.get? id = none → ∀ itipMain main, itipSnapshots.get? .main = some itipMain →
      snapshots.get? .main = some main →
      entriesAfter actions comp.2 entries =
        (entries.filter
          (!([.organizer, .attendee, .status] : List ICalendarProperty).contains ·.name)) ++
          cancelEntries itipMain.comp) ∧
    (itipSnapshots.get? id = none → ¬ CancelsAll snapshots itipSnapshots →
      entriesAfter actions comp.2 entries = entries) ∧
    removedIds actions = [] := by
  obtain ⟨blocks, hblocks, rfl⟩ := handleCancel_eq_ok_iff.1 hactions
  obtain ⟨hmentioned, hother⟩ := entriesAfter_concerns h.stored h.eventSmall h.message
    h.cancel_concerns hblocks hcomp entries
  refine ⟨fun update hupdate => ?_, fun hnone itipMain main hitip hmain => ?_,
    fun hnone hall => ?_, ?_⟩
  · obtain ⟨actions, hf, hentries⟩ := hmentioned update hupdate
    have htail (entries : List ICalendarEntry) :
        entriesAfter (cancelTail snapshots itipSnapshots) comp.2 entries = entries := by
      by_cases hall : CancelsAll snapshots itipSnapshots
      · obtain ⟨itipMain, main, hitip, hmain⟩ := hall
        rw [cancelTail_entries h hitip hmain hget hcomp, if_neg (by simp [hupdate])]
      · rw [cancelTail_of_not_cancelsAll hall]
        rfl
    rw [entriesAfter_append, htail, hentries]
    simp only [cancelInstance, hget] at hf
    split at hf
    · cases hf
    · rename_i hsequence
      cases hf
      exact ⟨by simpa using hsequence, entriesAfter_replace (h.position hcomp) _ _ _⟩
  · rw [entriesAfter_append, hother hnone, cancelTail_entries h hitip hmain hget hcomp,
      if_pos hnone]
  · rw [cancelTail_of_not_cancelsAll hall, append_nil, hother hnone]
  · rw [removedIds_append, removedIds_of_concerns h.cancel_concerns hblocks,
      (cancelTail_scheduled h).2.2, append_nil]

/-- The components that a `CANCEL` adds: those of its new instances, cancelled. -/
theorem cancel_added : addedComponents actions =
      (itipSnapshots.components.filter fun update => (snapshots.get? update.1).isNone).map
        fun update => newComponent update.2.comp (fun name => name = .status || name.isOther)
          [cancelledStatus] := by
  obtain ⟨blocks, hblocks, rfl⟩ := handleCancel_eq_ok_iff.1 hactions
  rw [addedComponents_append, (cancelTail_scheduled h).2.1, append_nil]
  refine addedComponents_of_instances (fun update actions hf => ?_) hblocks
  simp only [cancelInstance] at hf
  split at hf
  · rename_i snapshot hget
    rw [hget]
    split at hf
    · cases hf
    · cases hf
      rfl
  · rename_i hget
    rw [hget]
    cases hf
    rfl

theorem cancel_scheduled : Scheduled cal event actions := by
  obtain ⟨blocks, hblocks, rfl⟩ := handleCancel_eq_ok_iff.1 hactions
  exact (scheduled_of_concerns h.stored h.eventSmall h.cancel_concerns hblocks).append
    (cancelTail_scheduled h).1

end

end

theorem newInstances_effect (component : InstanceId × ItipSnapshot → ICalendarComponent)
    (updates : List (InstanceId × ItipSnapshot)) :
    let actions := updates.map fun update =>
      newInstance (component update) ICalendarProperty.isOther []
    (∀ action ∈ actions, action.target = none) ∧ removedIds actions = [] ∧
      addedComponents actions = updates.map fun update =>
        newComponent (component update) ICalendarProperty.isOther [] := by
  refine ⟨fun action haction => ?_, ?_, ?_⟩
  · obtain ⟨update, -, rfl⟩ := mem_map.1 haction
    rfl
  · simp [removedIds, newInstance]
  · rw [addedComponents, filterMap_map]
    exact congrFun filterMap_eq_map' updates

/-- What an `ADD` does: it leaves the stored instances alone and adds those it has not. -/
theorem add_effect (h : Readings cal emails event itip snapshots itipSnapshots) :
    Scheduled cal event (handleAdd snapshots itip itipSnapshots) ∧
      (∀ position entries,
        entriesAfter (handleAdd snapshots itip itipSnapshots) position entries = entries) ∧
      removedIds (handleAdd snapshots itip itipSnapshots) = [] ∧
      addedComponents (handleAdd snapshots itip itipSnapshots) =
        (itipSnapshots.components.filter fun update => (snapshots.get? update.1).isNone).map
          fun update => newComponent (itip.component update.2.compId.toNat)
            ICalendarProperty.isOther [] := by
  obtain ⟨htarget, hremoved, hadded⟩ := newInstances_effect
    (fun update => itip.component update.2.compId.toNat)
    (itipSnapshots.components.filter fun update => (snapshots.get? update.1).isNone)
  refine ⟨⟨fun action haction id hid => ?_, fun component hcomponent => ?_, fun id hid => ?_⟩,
    fun position entries => entriesAfter_of_target_ne (fun action haction => ?_) entries,
    hremoved, hadded⟩
  · rw [htarget action haction] at hid
    cases hid
  · rw [handleAdd, hadded] at hcomponent
    obtain ⟨update, hupdate, rfl⟩ := mem_map.1 hcomponent
    obtain ⟨comp, hcomp⟩ := h.message.storedAt_of_mem (mem_filter.1 hupdate).1
    rw [hcomp.component_eq h.messageSmall]
    exact hcomp.isSchedulingObject
  · rw [handleAdd, hremoved] at hid
    cases hid
  · rw [htarget action haction]
    exact (Option.some_ne_none _).symm

/-- What a `REPLY` does to a stored instance. -/
theorem reply_effect (h : Readings cal emails event itip snapshots itipSnapshots)
    {sender : String} (hactions : handleReply snapshots itipSnapshots sender = .ok actions)
    {id : InstanceId} (hget : snapshots.get? id = some snapshot)
    (hcomp : StoredAt cal emails event id snapshot comp) (entries : List ICalendarEntry) :
    (∀ update, itipSnapshots.get? id = some update → ∃ attendee updated,
      snapshot.attendeeByEmail sender = some attendee ∧
      update.attendeeByEmail sender = some updated ∧
      entriesAfter actions comp.2 entries =
        entriesAfter (replyAttendee snapshot update attendee updated) comp.2 entries) ∧
    (itipSnapshots.get? id = none → entriesAfter actions comp.2 entries = entries) ∧
    removedIds actions = [] := by
  obtain ⟨blocks, hblocks, rfl⟩ := handleReply_eq_ok_iff.1 hactions
  obtain ⟨hmentioned, hother⟩ := entriesAfter_concerns h.stored h.eventSmall h.message
    (h.reply_concerns sender) hblocks hcomp entries
  refine ⟨fun update hupdate => ?_, hother,
    removedIds_of_concerns (h.reply_concerns sender) hblocks⟩
  obtain ⟨actions, hf, hentries⟩ := hmentioned update hupdate
  simp only [replyInstance, hget] at hf
  split at hf
  · rename_i attendee updated hattendee hupdated
    cases hf
    exact ⟨attendee, updated, hattendee, hupdated, hentries⟩
  · cases hf

/-- The component of a new instance of a `REPLY`. -/
def replyComponent (update : ItipSnapshot) : ICalendarComponent :=
  newComponent update.comp (fun name => !isReplied (update.comp.componentType = .vTodo) name) []

/-- The components that a `REPLY` adds: those of its new instances, which the sender attends. -/
theorem reply_added (hactions : handleReply snapshots itipSnapshots sender = .ok actions) :
    addedComponents actions =
      (itipSnapshots.components.filter fun update => (snapshots.get? update.1).isNone).map
        fun update => replyComponent update.2 := by
  obtain ⟨blocks, hblocks, rfl⟩ := handleReply_eq_ok_iff.1 hactions
  refine addedComponents_of_instances (fun update actions hf => ?_) hblocks
  simp only [replyInstance] at hf
  split at hf
  · rename_i snapshot hget
    rw [hget]
    split at hf
    · cases hf
      refine filterMap_eq_nil_iff.2 fun action haction => ?_
      have htarget := replyAttendee_target haction
      cases action <;> first | rfl | cases htarget
    · cases hf
  · rename_i hget
    rw [hget]
    split at hf
    · cases hf
      rfl
    · cases hf

theorem reply_scheduled (h : Readings cal emails event itip snapshots itipSnapshots)
    {sender : String} (hactions : handleReply snapshots itipSnapshots sender = .ok actions) :
    Scheduled cal event actions := by
  obtain ⟨blocks, hblocks, rfl⟩ := handleReply_eq_ok_iff.1 hactions
  exact scheduled_of_concerns h.stored h.eventSmall (h.reply_concerns sender) hblocks

end Methods

/-! ## Edits that spare a property -/

/-- The edit leaves the entries of a property alone, up to parameters that instances are not read
from. -/
def MergeAction.Spares (property : ICalendarProperty) : MergeAction → Prop
  | .addEntries _ entries => ∀ entry ∈ entries, entry.name ≠ property
  | .removeEntries _ names => property ∉ names
  | .addParameters _ _ parameters => ∀ param ∈ parameters, param.name ≠ .tzid ∧ param.name ≠ .range
  | .removeParameters _ _ names => .tzid ∉ names ∧ .range ∉ names
  | .addComponent _ | .removeComponent _ => True

theorem modify_core {f}
    (hf : ∀ entry, (f entry).core = entry.core) (property : ICalendarProperty)
    (entries : List ICalendarEntry) (position : ℕ) :
    (entriesOf property (entries.modify position f)).map ICalendarEntry.core =
      (entriesOf property entries).map ICalendarEntry.core := by
  have hmap (entries : List ICalendarEntry) : (entriesOf property entries).map ICalendarEntry.core =
      entriesOf property (entries.map ICalendarEntry.core) := by
    rw [entriesOf, entriesOf, filter_map]
    rfl
  rw [hmap, hmap]
  congr 1
  refine ext_getElem? fun i => ?_
  rw [getElem?_map, getElem?_map, getElem?_modify]
  by_cases h : position = i
  · cases entries[i]? <;> simp [h, hf]
  · simp [h]

theorem edit_core {action : MergeAction} {property}
    (h : action.Spares property) (entries : List ICalendarEntry) :
    (entriesOf property (action.edit entries)).map ICalendarEntry.core =
      (entriesOf property entries).map ICalendarEntry.core := by
  cases action with
  | addEntries id added =>
    have hnil : entriesOf property added = [] :=
      filter_eq_nil_iff.2 fun entry hentry => by simpa using h entry hentry
    simp only [MergeAction.edit, entriesOf_append, hnil, append_nil]
  | removeEntries id names =>
    simp only [MergeAction.edit]
    rw [entriesOf_filter _ fun name => !names.contains name,
      if_pos (by simpa [MergeAction.Spares] using h)]
  | addParameters id entryId parameters =>
    refine modify_core (fun entry => ?_) property entries entryId.toNat
    have hnil : (parameters.filter fun param => param.name = .tzid ∨ param.name = .range) = [] :=
      filter_eq_nil_iff.2 fun param hparam => by simpa using h param hparam
    simp only [ICalendarEntry.core, filter_append, hnil, append_nil]
  | removeParameters id entryId names =>
    refine modify_core (fun entry => ?_) property entries entryId.toNat
    simp only [ICalendarEntry.core, filter_filter]
    congr 1
    refine filter_congr fun param _ => ?_
    by_cases htzid : param.name = .tzid
    · simp [htzid, h.1]
    · by_cases hrange : param.name = .range
      · simp [hrange, h.2]
      · simp [htzid, hrange]
  | addComponent | removeComponent => rfl

theorem entriesAfter_core {actions} {property}
    (h : ∀ action ∈ actions, action.Spares property) (position : ℕ)
    (entries : List ICalendarEntry) :
    (entriesOf property (entriesAfter actions position entries)).map ICalendarEntry.core =
      (entriesOf property entries).map ICalendarEntry.core := by
  induction actions generalizing entries with
  | nil => rfl
  | cons action actions ih =>
    rw [forall_mem_cons] at h
    have hcons : entriesAfter (action :: actions) position entries =
        entriesAfter actions position
          (if action.target = some position then action.edit entries else entries) := rfl
    rw [hcons, ih h.2]
    split
    · exact edit_core h.1 entries
    · rfl

theorem mem_foldl_insertAttendee {attendee : Attendee} {xs acc : List Attendee}
    (h : attendee ∈ xs.foldl insertAttendee acc) : attendee ∈ acc ∨ attendee ∈ xs := by
  induction xs generalizing acc with
  | nil => exact .inl h
  | cons x xs ih =>
    rcases ih h with hacc | hxs
    · rw [insertAttendee] at hacc
      split at hacc
      · exact .inl hacc
      · rcases mem_append.1 hacc with hacc | hx
        · exact .inl hacc
        · rw [mem_singleton.1 hx]
          exact .inr (.head _)
    · exact .inr (.tail _ hxs)

section

variable {cal : Calcard} {emails : List String}

theorem StoredAt.attendee {ical : ICalendar} {id : InstanceId} {snapshot : ItipSnapshot}
    {comp : ICalendarComponent × ℕ} (h : StoredAt cal emails ical id snapshot comp)
    {attendee : Attendee} (hattendee : attendee ∈ snapshot.attendees) :
    ∃ entry ∈ comp.1.entries.zipIdx, readAttendee cal emails entry = some attendee := by
  rw [h.reorders.attendees.mem_iff] at hattendee
  rcases mem_foldl_insertAttendee hattendee with hnil | hmem
  · cases hnil
  · exact mem_filterMap.1 hmem

theorem foldl_readParam_entryId (params : List ICalendarParameter) (part : Attendee) :
    (params.foldl (Attendee.readParam cal emails) part).entryId = part.entryId ∧
      (params.foldl (Attendee.readParam cal emails) part).email = part.email := by
  induction params generalizing part with
  | nil => exact ⟨rfl, rfl⟩
  | cons param params ih =>
    have hstep : (Attendee.readParam cal emails part param).entryId = part.entryId ∧
        (Attendee.readParam cal emails part param).email = part.email := by
      rw [Attendee.readParam]
      split <;> exact ⟨rfl, rfl⟩
    exact ⟨(ih _).1.trans hstep.1, (ih _).2.trans hstep.2⟩

theorem readAttendee_eq_some {entry : ICalendarEntry × ℕ} {attendee : Attendee}
    (h : readAttendee cal emails entry = some attendee) :
    entry.1.name = .attendee ∧ attendee.entryId = entry.2.toUInt16 ∧
      entryEmail cal emails entry.1 = some attendee.email := by
  rw [readAttendee] at h
  split at h
  · rename_i hname
    obtain ⟨email, hemail, rfl⟩ := Option.map_eq_some_iff.1 h
    refine ⟨hname, (foldl_readParam_entryId _ _).1, hemail.trans ?_⟩
    rw [(foldl_readParam_entryId _ _).2]
  · cases h

/-- In a component whose entries `u16` can index, an attendee points at an attendee entry. -/
theorem StoredAt.attendee_entry {ical : ICalendar} {id : InstanceId} {snapshot : ItipSnapshot}
    {comp} (h : StoredAt cal emails ical id snapshot comp)
    (hsmall : comp.1.entries.length ≤ 2 ^ 16) {attendee : Attendee}
    (hattendee : attendee ∈ snapshot.attendees) :
    ∃ entry position, comp.1.entries[attendee.entryId.toNat]? = some entry ∧
      readAttendee cal emails (entry, position) = some attendee := by
  obtain ⟨⟨entry, position⟩, hentry, hread⟩ := h.attendee hattendee
  have hlt : position < 2 ^ 16 :=
    lt_of_lt_of_le (by simpa using snd_lt_of_mem_zipIdx hentry) hsmall
  have hposition : attendee.entryId.toNat = position := by
    rw [(readAttendee_eq_some hread).2.1]
    exact Nat.mod_eq_of_lt hlt
  refine ⟨entry, position, ?_, hread⟩
  rw [hposition]
  exact mem_zipIdx_iff_getElem?.1 hentry

end

theorem ItipSnapshot.attendeeByEmail_mem {snapshot : ItipSnapshot} {email : String}
    {attendee : Attendee} (h : snapshot.attendeeByEmail email = some attendee) :
    attendee ∈ snapshot.attendees ∧ attendee.email.email = email :=
  ⟨mem_of_find?_eq_some h, by simpa using find?_some h⟩

/-- The parameters by which an attendee answers. -/
def replyNames : List ICalendarParameterName := [.partstat, .rsvp, .delegatedTo, .scheduleStatus]

theorem replyParameters_names (attendee updated : Attendee) (requestStatus : List String) :
    (∀ name ∈ (replyParameters attendee updated requestStatus).1, name ∈ replyNames) ∧
      ∀ param ∈ (replyParameters attendee updated requestStatus).2, param.name ∈ replyNames := by
  simp only [replyParameters, replyNames]
  constructor
  · intro name hname
    simp only [mem_append] at hname
    rcases hname with ((hname | hname) | hname) | hname <;> split at hname <;> simp_all
  · intro param hparam
    simp only [mem_append] at hparam
    rcases hparam with ((hparam | hparam) | hparam) | hparam <;> split at hparam <;>
      simp only [mem_map, mem_singleton, not_mem_nil] at hparam
    · obtain ⟨status, -, rfl⟩ := hparam
      simp
    · obtain ⟨rsvp, -, rfl⟩ := hparam
      simp
    · obtain ⟨email, -, rfl⟩ := hparam
      simp
    · subst hparam
      simp

section

variable {cal : Calcard} {emails : List String} {itip : ICalendar} {id : InstanceId}
  {snapshot update : ItipSnapshot} {comp : ICalendarComponent × ℕ}
  (hupdate : StoredAt cal emails itip id update comp)
  (hsmall : comp.1.entries.length ≤ 2 ^ 16) {property : ICalendarProperty}
include hupdate hsmall

theorem replyDelegate_spares {delegatedTo : Email} (hattendee : property ≠ .attendee)
    {action : MergeAction} (haction : action ∈ replyDelegate snapshot update delegatedTo) :
    action.Spares property := by
  simp only [replyDelegate] at haction
  split at haction
  · cases haction
  · rename_i itipDelegated hdelegated
    split at haction
    · split at haction
      · rcases mem_cons.1 haction with rfl | haction
        · exact ⟨by decide, by decide⟩
        · rw [mem_singleton.1 haction]
          intro param hparam
          have hname := (mem_filter.1 hparam).2
          constructor <;> intro h <;> simp [h, delegationParameters] at hname
      · cases haction
    · obtain ⟨entry, position, hentry, hread⟩ :=
        hupdate.attendee_entry hsmall (ItipSnapshot.attendeeByEmail_mem hdelegated).1
      rw [mem_singleton.1 haction]
      intro added hadded
      rw [mem_singleton.1 hadded, hupdate.comp_eq, getD_eq_getElem?_getD, hentry]
      exact fun h => hattendee (h.symm.trans (readAttendee_eq_some hread).1)

theorem replyAttendee_spares (attendee updated : Attendee) (hattendee : property ≠ .attendee)
    (hprogress : property.isProgress = false) :
    ∀ action ∈ replyAttendee snapshot update attendee updated, action.Spares property := by
  intro action haction
  rw [replyAttendee, mem_append] at haction
  rcases haction with haction | haction
  · split at haction
    · rw [mem_append] at haction
      rcases haction with haction | haction
      · obtain ⟨hnames, hparams⟩ := replyParameters_names attendee updated update.requestStatus
        rcases mem_cons.1 haction with rfl | haction
        · exact ⟨fun h => absurd (hnames _ h) (by decide), fun h => absurd (hnames _ h) (by decide)⟩
        · rw [mem_singleton.1 haction]
          intro param hparam
          have hname := hparams param hparam
          constructor <;> intro h <;> rw [h] at hname <;> exact absurd hname (by decide)
      · obtain ⟨delegatedTo, -, haction⟩ := mem_flatMap.1 haction
        exact replyDelegate_spares hupdate hsmall hattendee haction
    · cases haction
  · split at haction
    · rcases mem_cons.1 haction with rfl | haction
      · intro hmem
        obtain ⟨entry, hentry, rfl⟩ := mem_map.1 hmem
        exact absurd (mem_filter.1 hentry).2 (by simp [hprogress])
      · rw [mem_singleton.1 haction]
        rintro entry hentry rfl
        exact absurd (mem_filter.1 hentry).2 (by simp [hprogress])
    · cases haction

end

/-! ## The properties that a request replaces -/

theorem mem_foldl_insert {entry : ItipEntry} {xs acc : List ItipEntry} :
    entry ∈ xs.foldl (fun entries entry => entries.insert entry) acc ↔
      entry ∈ acc ∨ entry ∈ xs := by
  induction xs generalizing acc with
  | nil => simp
  | cons x xs ih =>
    rw [foldl_cons, ih, mem_insert_iff, mem_cons]
    tauto

theorem StoredAt.mem_entries {cal : Calcard} {emails : List String} {ical : ICalendar}
    {id : InstanceId} {snapshot : ItipSnapshot} {comp : ICalendarComponent × ℕ}
    (h : StoredAt cal emails ical id snapshot comp) {entry : ItipEntry} :
    entry ∈ snapshot.entries ↔ ∃ e ∈ comp.1.entries, entry ∈ readTracked cal ical.zones e := by
  rw [h.reorders.entries.mem_iff]
  simp [readComponent, mem_foldl_insert]

theorem isTracked_of_mem_readTracked {cal : Calcard} {zones : List Zone} {e : ICalendarEntry}
    {entry : ItipEntry} (h : entry ∈ readTracked cal zones e) :
    e.name.isTracked ∧ entry.name = e.name := by
  rw [readTracked] at h
  split at h
  · rename_i htracked
    obtain ⟨value, -, rfl⟩ := mem_map.1 h
    exact ⟨htracked, rfl⟩
  · cases h

theorem name_of_mem_changedEntries {cal : Calcard} {emails : List String}
    {event itip : ICalendar} {id id' : InstanceId} {snapshot update : ItipSnapshot}
    {comp comp'}
    (hcomp : StoredAt cal emails event id snapshot comp)
    (hupdate : StoredAt cal emails itip id' update comp') {name}
    (h : name ∈ changedEntries update snapshot) :
    name.isTracked ∨ name = .attendee ∨ name = .dtstamp ∨ name = .sequence := by
  have htracked {ical : ICalendar} {id : InstanceId} {snapshot : ItipSnapshot}
      {comp : ICalendarComponent × ℕ} (hcomp : StoredAt cal emails ical id snapshot comp)
      {entry : ItipEntry} (hentry : entry ∈ snapshot.entries) : entry.name.isTracked := by
    obtain ⟨e, -, he⟩ := hcomp.mem_entries.1 hentry
    obtain ⟨htracked, hname⟩ := isTracked_of_mem_readTracked he
    rwa [hname]
  simp only [changedEntries, mem_append] at h
  rcases h with (((h | h) | h) | h) | h
  · obtain ⟨entry, hentry, rfl⟩ := mem_map.1 h
    exact .inl (htracked hupdate (mem_filter.1 hentry).1)
  · obtain ⟨entry, hentry, rfl⟩ := mem_map.1 h
    exact .inl (htracked hcomp (mem_filter.1 hentry).1)
  · split at h
    · cases h
    · exact .inr (.inl (mem_singleton.1 h))
  · split at h
    · exact .inr (.inr (.inl (mem_singleton.1 h)))
    · cases h
  · exact .inr (.inr (.inr (mem_singleton.1 h)))

theorem sequence_mem_changedEntries (update snapshot : ItipSnapshot) :
    ICalendarProperty.sequence ∈ changedEntries update snapshot := by
  simp [changedEntries]

end MailServer.Scheduling
