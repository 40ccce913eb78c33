import MailServer.Scheduling.Inbound
import Mathlib.Algebra.Order.Ring.Int

/-!
# Merging the changes of a message

`itipMergeChanges` applies a list of merge actions in order: entries and parameters are replaced in
place, components are appended below the root, and the components to remove are collected and
removed at the end.

Principal results: `foldl_contents`, `zones_foldl`, `scheduled_merge`.
-/

namespace MailServer.Scheduling

open List

variable {actions : List MergeAction} {merge : ICalendar × List ℕ} {id : ℕ}

/-- `ical.components[id].entries`, updated in place. -/
def ICalendar.modifyEntries (ical : ICalendar) (id : UInt16)
    (f : List ICalendarEntry → List ICalendarEntry) : ICalendar :=
  { components := ical.components.modify id.toNat fun comp =>
      { comp with entries := f comp.entries } }

/-- The object has a root component that lists the others. -/
def ICalendar.hasRoot (ical : ICalendar) : Bool :=
  ical.components.head?.any (·.componentType = .vCalendar)

/-- One turn of the loop of `itip_merge_changes`: the calendar object and the components to remove
from it in the end. -/
def applyMergeAction (merge : ICalendar × List ℕ) : MergeAction → ICalendar × List ℕ
  | .addEntries id entries => (merge.1.modifyEntries id (· ++ entries), merge.2)
  | .removeEntries id names =>
    (merge.1.modifyEntries id fun entries => entries.filter (!names.contains ·.name), merge.2)
  | .addParameters id entryId parameters =>
    (merge.1.modifyEntries id fun entries => entries.modify entryId.toNat fun entry =>
      { entry with params := entry.params ++ parameters }, merge.2)
  | .removeParameters id entryId names =>
    (merge.1.modifyEntries id fun entries => entries.modify entryId.toNat fun entry =>
      { entry with params := entry.params.filter (!names.contains ·.name) }, merge.2)
  | .addComponent component =>
    if merge.1.hasRoot then
      let root (comp : ICalendarComponent) : ICalendarComponent :=
        { comp with componentIds := comp.componentIds ++ [merge.1.components.length] }
      ({ components := merge.1.components.modify 0 root ++ [component] }, merge.2)
    else merge
  | .removeComponent id => (merge.1, merge.2 ++ [id.toNat])

def itipMergeChanges (cal : Calcard) (ical : ICalendar) (changes : List MergeAction) : ICalendar :=
  let merge := changes.foldl applyMergeAction (ical, [])
  if merge.2.isEmpty then merge.1 else cal.removeComponentIds merge.1 merge.2

/-! ## What the actions leave at a position -/

/-- The component that an action edits in place. -/
def MergeAction.target : MergeAction → Option ℕ
  | .addEntries id _ | .removeEntries id _ | .addParameters id _ _ | .removeParameters id _ _ =>
    some id.toNat
  | .addComponent _ | .removeComponent _ => none

/-- What an action does to the entries of the component it edits. -/
def MergeAction.edit : MergeAction → List ICalendarEntry → List ICalendarEntry
  | .addEntries _ entries, es => es ++ entries
  | .removeEntries _ names, es => es.filter (!names.contains ·.name)
  | .addParameters _ entryId parameters, es => es.modify entryId.toNat fun entry =>
    { entry with params := entry.params ++ parameters }
  | .removeParameters _ entryId names, es => es.modify entryId.toNat fun entry =>
    { entry with params := entry.params.filter (!names.contains ·.name) }
  | .addComponent _, es | .removeComponent _, es => es

/-- The entries of the component at a position after some actions. -/
def entriesAfter (actions : List MergeAction) (position : ℕ) (entries : List ICalendarEntry) :
    List ICalendarEntry :=
  actions.foldl (fun entries action =>
    if action.target = some position then action.edit entries else entries) entries

/-- The components that the actions append. -/
def addedComponents (actions : List MergeAction) : List ICalendarComponent :=
  actions.filterMap fun action =>
    match action with
    | .addComponent component => some component
    | _ => none

/-- The components that the actions remove. -/
def removedIds (actions : List MergeAction) : List ℕ :=
  actions.filterMap fun action =>
    match action with
    | .removeComponent id => some id.toNat
    | _ => none

theorem entriesAfter_append (xs ys : List MergeAction) (position : ℕ)
    (entries : List ICalendarEntry) :
    entriesAfter (xs ++ ys) position entries =
      entriesAfter ys position (entriesAfter xs position entries) := by
  rw [entriesAfter, foldl_append]
  rfl

theorem entriesAfter_of_target_ne {position : ℕ}
    (h : ∀ action ∈ actions, action.target ≠ some position) (entries : List ICalendarEntry) :
    entriesAfter actions position entries = entries := by
  induction actions with
  | nil => rfl
  | cons action actions ih =>
    rw [entriesAfter, foldl_cons, if_neg (h action (.head _))]
    exact ih fun action haction => h action (.tail _ haction)

theorem addedComponents_cons (action : MergeAction) (actions : List MergeAction) :
    addedComponents (action :: actions) = addedComponents [action] ++ addedComponents actions := by
  simp [addedComponents, ← filterMap_append]

/-- What a scheduling component holds, apart from the positions of its sub-components. -/
def ICalendarComponent.contents (comp : ICalendarComponent) :
    ICalendarComponentType × List ICalendarEntry :=
  (comp.componentType, comp.entries)

theorem applyMergeAction_of_target {action : MergeAction} (h : action.target = some id) :
    applyMergeAction merge action =
      ({ components := merge.1.components.modify id fun comp =>
          { comp with entries := action.edit comp.entries } }, merge.2) := by
  cases action with
  | addEntries | removeEntries | addParameters | removeParameters =>
    cases h
    rfl
  | addComponent | removeComponent => cases h

theorem contents_modify_of_same (f : ICalendarComponent → ICalendarComponent)
    (hf : ∀ comp, (f comp).contents = comp.contents) (comps : List ICalendarComponent)
    (position : ℕ) :
    (comps.modify position f).map ICalendarComponent.contents =
      comps.map ICalendarComponent.contents := by
  refine ext_getElem? fun i => ?_
  rw [getElem?_map, getElem?_map, getElem?_modify]
  cases comps[i]? with
  | none => rfl
  | some comp =>
    by_cases h : position = i
    · simp [h, hf]
    · simp [h]

theorem contents_applyMergeAction (merge : ICalendar × List ℕ) (action : MergeAction) :
    (applyMergeAction merge action).1.components.map ICalendarComponent.contents =
      ((merge.1.components.map ICalendarComponent.contents).mapIdx fun position comp =>
          (comp.1, if action.target = some position then action.edit comp.2 else comp.2)) ++
        if merge.1.hasRoot then (addedComponents [action]).map ICalendarComponent.contents
        else [] := by
  have hnone (h : action.target = none) :
      ((merge.1.components.map ICalendarComponent.contents).mapIdx fun position comp =>
        (comp.1, if action.target = some position then action.edit comp.2 else comp.2)) =
      merge.1.components.map ICalendarComponent.contents := by
    refine ext_getElem? fun i => ?_
    rw [getElem?_mapIdx, h]
    cases (merge.1.components.map ICalendarComponent.contents)[i]? <;> simp
  cases htarget : action.target with
  | some id =>
    have hadded : addedComponents [action] = [] := by
      cases action <;> first | rfl | cases htarget
    rw [applyMergeAction_of_target htarget, hadded]
    refine ext_getElem? fun i => ?_
    simp only [map_nil, ite_self, append_nil, getElem?_map, getElem?_mapIdx,
      getElem?_modify]
    cases merge.1.components[i]? with
    | none => rfl
    | some comp =>
      by_cases h : id = i
      · simp [h, ICalendarComponent.contents]
      · simp [h]
  | none =>
    rw [← htarget, hnone htarget]
    cases action with
    | addComponent component =>
      simp only [applyMergeAction]
      cases hroot : merge.1.hasRoot with
      | true =>
        simp only [if_true, map_append]
        exact congrArg (· ++ _) (contents_modify_of_same _ (fun _ => by rfl) _ _)
      | false => simp
    | removeComponent => simp [applyMergeAction, addedComponents]
    | addEntries | removeEntries | addParameters | removeParameters => cases htarget

theorem hasRoot_eq_contents (ical : ICalendar) :
    ical.hasRoot =
      (ical.components.map ICalendarComponent.contents).head?.any (·.1 = .vCalendar) := by
  rw [ICalendar.hasRoot, head?_map]
  cases ical.components.head? <;> rfl

/-- **What a list of actions leaves at every position**, when the actions edit components of the
first part of the object. -/
theorem foldl_contents {base extras : List (ICalendarComponentType × List ICalendarEntry)}
    (hmerge : merge.1.components.map ICalendarComponent.contents = base ++ extras)
    (hbase : base = [] → extras = [])
    (htargets : ∀ action ∈ actions, ∀ id, action.target = some id → id < base.length) :
    (actions.foldl applyMergeAction merge).1.components.map ICalendarComponent.contents =
      (base.mapIdx fun position comp => (comp.1, entriesAfter actions position comp.2)) ++
        (extras ++ if merge.1.hasRoot then
          (addedComponents actions).map ICalendarComponent.contents else []) := by
  induction actions generalizing merge base extras with
  | nil =>
    rw [foldl_nil, hmerge]
    have hsame : (base.mapIdx fun position comp => (comp.1, entriesAfter [] position comp.2)) =
        base := by
      refine ext_getElem? fun i => ?_
      rw [getElem?_mapIdx]
      cases base[i]? <;> simp [entriesAfter]
    simp [hsame, addedComponents]
  | cons action actions ih =>
    have htarget := htargets action (.head _)
    let base' := base.mapIdx fun position comp =>
      (comp.1, if action.target = some position then action.edit comp.2 else comp.2)
    let extras' := extras ++ if merge.1.hasRoot then
      (addedComponents [action]).map ICalendarComponent.contents else []
    have hextras : (extras.mapIdx fun position comp => (comp.1,
        if action.target = some (position + base.length) then action.edit comp.2 else comp.2)) =
        extras := by
      refine ext_getElem? fun i => ?_
      have hne : action.target ≠ some (i + base.length) := fun h => by
        have := htarget _ h
        omega
      rw [getElem?_mapIdx]
      cases extras[i]? <;> simp [hne]
    have hmerge' : (applyMergeAction merge action).1.components.map ICalendarComponent.contents =
        base' ++ extras' := by
      rw [contents_applyMergeAction, hmerge, mapIdx_append, hextras, append_assoc]
    have hrootless (h : base = []) : merge.1.hasRoot = false := by
      rw [hasRoot_eq_contents, hmerge, h, hbase h]
      rfl
    have hbase' (h : base' = []) : extras' = [] := by
      have hnil : base = [] := by simpa [base'] using h
      simp [extras', hbase hnil, hrootless hnil]
    have hroot : (applyMergeAction merge action).1.hasRoot = merge.1.hasRoot := by
      rw [hasRoot_eq_contents, hmerge', hasRoot_eq_contents, hmerge]
      cases hnil : base with
      | nil => simp [base', extras', hnil, hrootless hnil]
      | cons comp base => simp [base', hnil]
    rw [foldl_cons, ih hmerge' hbase' fun action' haction' id hid => ?_, hroot,
      addedComponents_cons]
    · rw [mapIdx_mapIdx]
      have hentries (position : ℕ) (comp : ICalendarComponentType × List ICalendarEntry) :
          entriesAfter actions position
              (if action.target = some position then action.edit comp.2 else comp.2) =
            entriesAfter (action :: actions) position comp.2 := rfl
      cases hrooted : merge.1.hasRoot <;>
        simp [extras', hrooted, Function.comp_def, hentries]
    · simpa [base'] using htargets action' (.tail _ haction') id hid

theorem foldl_removed (actions : List MergeAction) (merge : ICalendar × List ℕ) :
    (actions.foldl applyMergeAction merge).2 = merge.2 ++ removedIds actions := by
  induction actions generalizing merge with
  | nil => simp [removedIds]
  | cons action actions ih =>
    have hstep : (applyMergeAction merge action).2 = merge.2 ++ removedIds [action] := by
      cases action with
      | addComponent component =>
        simp only [applyMergeAction]
        split <;> simp [removedIds]
      | addEntries | removeEntries | addParameters | removeParameters | removeComponent =>
        simp [applyMergeAction, removedIds]
    rw [foldl_cons, ih, hstep, append_assoc, removedIds, removedIds,
      ← filterMap_append]
    rfl

/-! ## Time zones -/

/-- The entries of a position that holds an observance of a time zone. -/
def ICalendar.observance (ical : ICalendar) (id : ℕ) : Option (List ICalendarEntry) :=
  if (ical.component id).componentType.isObservance then some (ical.component id).entries else none

theorem zones_eq_observances (ical : ICalendar) :
    ical.zones = (ical.components.filter (·.componentType = .vTimezone)).map fun zone =>
      { entries := zone.entries, observances := zone.componentIds.filterMap ical.observance } := by
  have hread (zone : ICalendarComponent) :
      ((zone.componentIds.map ical.component).filterMap fun observance =>
        if observance.componentType.isObservance then some observance.entries else none) =
      zone.componentIds.filterMap ical.observance := by
    rw [filterMap_map]
    rfl
  simp only [ICalendar.zones, hread]

theorem zones_eq {ical ical' : ICalendar}
    (hzones : ical'.components.filter (·.componentType = .vTimezone) =
      ical.components.filter (·.componentType = .vTimezone))
    (hobservance : ∀ id, ical'.observance id = ical.observance id) : ical'.zones = ical.zones := by
  rw [zones_eq_observances, zones_eq_observances, hzones, funext hobservance]

theorem filter_modify {α : Type} {p : α → Bool} {f : α → α} :
    ∀ {xs : List α} {i : ℕ}, (∀ x, xs[i]? = some x → p x = false ∧ p (f x) = false) →
      (xs.modify i f).filter p = xs.filter p
  | [], i, _ => by simp
  | x :: xs, 0, h => by
    obtain ⟨hx, hfx⟩ := h x rfl
    simp [hx, hfx]
  | x :: xs, i + 1, h => by
    have htail := @filter_modify _ _ _ xs i h
    rw [modify_succ_cons, filter_cons, filter_cons, htail]

theorem component_modify (comps : List ICalendarComponent) (position id : ℕ)
    (f : ICalendarComponent → ICalendarComponent) :
    (ICalendar.mk (comps.modify position f)).component id =
      if position = id ∧ id < comps.length then f ((ICalendar.mk comps).component id)
      else (ICalendar.mk comps).component id := by
  simp only [ICalendar.component]
  by_cases h : id < comps.length
  · by_cases hposition : position = id <;> simp [h, hposition]
  · simp [h]

theorem observance_append_singleton (comps : List ICalendarComponent) (comp : ICalendarComponent)
    (hcomp : comp.componentType.isObservance = false) (id : ℕ) :
    (ICalendar.mk (comps ++ [comp])).observance id = (ICalendar.mk comps).observance id := by
  have hdefault : (default : ICalendarComponent).componentType.isObservance = false := rfl
  rcases lt_trichotomy id comps.length with h | rfl | h
  · simp only [ICalendar.observance, ICalendar.component, getD_eq_getElem?_getD,
      getElem?_append_left h]
  · simp [ICalendar.observance, ICalendar.component, hcomp, hdefault]
  · have hout : (comps ++ [comp])[id]? = none := by
      rw [getElem?_eq_none_iff, length_append]
      exact h
    have hin : comps[id]? = none := getElem?_eq_none_iff.2 h.le
    simp only [ICalendar.observance, ICalendar.component, getD_eq_getElem?_getD, hout, hin]

/-- What merging relies on in `calcard`: time zone definitions and the root are not scheduling
objects, and exactly the listed components are removed. -/
structure Calcard.Laws (cal : Calcard) : Prop where
  root : cal.isSchedulingObject .vCalendar = false
  timezone : cal.isSchedulingObject .vTimezone = false
  observance : ∀ type, cal.isSchedulingObject type → type.isObservance = false
  removed : ∀ (ical : ICalendar) (ids : List ℕ),
    (((cal.removeComponentIds ical ids).components.map ICalendarComponent.contents).filter
      fun comp => cal.isSchedulingObject comp.1) =
    (((ical.components.map ICalendarComponent.contents).zipIdx.filter fun comp =>
      cal.isSchedulingObject comp.1.1 && !ids.contains comp.2).map Prod.fst)
  removedZones : ∀ (ical : ICalendar) (ids : List ℕ),
    (∀ id ∈ ids, cal.isSchedulingObject (ical.component id).componentType) →
      (cal.removeComponentIds ical ids).zones = ical.zones

section Laws

variable {cal : Calcard} (laws : cal.Laws)
include laws

/-- An action on scheduling objects does not touch the time zone definitions. -/
theorem zones_applyMergeAction {action : MergeAction} (htarget : ∀ id, action.target = some id →
      cal.isSchedulingObject (merge.1.component id).componentType)
    (hadded : ∀ component ∈ addedComponents [action],
      cal.isSchedulingObject component.componentType) :
    (applyMergeAction merge action).1.zones = merge.1.zones := by
  cases haction : action.target with
  | some id =>
    have htarget := htarget id haction
    rw [applyMergeAction_of_target haction]
    refine zones_eq (filter_modify fun comp hcomp => ?_) fun j => ?_
    · have hcomponent : merge.1.component id = comp := by
        simp [ICalendar.component, getD_eq_getElem?_getD, hcomp]
      have hne : comp.componentType ≠ .vTimezone := fun h => by
        rw [hcomponent, h, laws.timezone] at htarget
        cases htarget
      simp [hne]
    · rw [ICalendar.observance, ICalendar.observance, component_modify]
      split
      · rename_i hj
        rw [← hj.1]
        have hne := laws.observance _ htarget
        simp [hne]
      · rfl
  | none =>
    cases action with
    | addEntries | removeEntries | addParameters | removeParameters => cases haction
    | removeComponent => rfl
    | addComponent component =>
      have hobject : cal.isSchedulingObject component.componentType :=
        hadded component (by simp [addedComponents])
      simp only [applyMergeAction]
      split
      swap
      · rfl
      rename_i hroot
      have htimezone : component.componentType ≠ .vTimezone := fun h => by
        rw [h, laws.timezone] at hobject
        cases hobject
      refine zones_eq ?_ fun j => ?_
      · rw [filter_append, filter_modify fun comp hcomp => ?_]
        · simp [htimezone]
        · have hcalendar : comp.componentType = .vCalendar := by
            rw [ICalendar.hasRoot, head?_eq_getElem?, hcomp] at hroot
            simpa using hroot
          simp [hcalendar]
      · rw [observance_append_singleton _ _ (laws.observance _ hobject), ICalendar.observance,
          component_modify]
        split <;> rfl

theorem lt_length_of_scheduled {ical : ICalendar}
    (h : cal.isSchedulingObject (ical.component id).componentType) :
    id < ical.components.length := by
  by_contra hid
  have hdefault : ical.component id = default := by
    simp [ICalendar.component, getD_eq_getElem?_getD, not_lt.1 hid]
  rw [hdefault] at h
  exact absurd (laws.root.symm.trans h) (by decide)

theorem isSchedulingObject_applyMergeAction (merge : ICalendar × List ℕ) (action : MergeAction)
    {id : ℕ} (h : cal.isSchedulingObject (merge.1.component id).componentType) :
    cal.isSchedulingObject ((applyMergeAction merge action).1.component id).componentType =
      true := by
  have hid := lt_length_of_scheduled laws h
  have htype (ical : ICalendar) : (ical.component id).componentType =
      ((ical.components.map ICalendarComponent.contents)[id]?.map Prod.fst).getD .vCalendar := by
    rw [ICalendar.component, getD_eq_getElem?_getD, getElem?_map]
    cases ical.components[id]? <;> rfl
  have hbound : id < ((merge.1.components.map ICalendarComponent.contents).mapIdx
      fun position comp => (comp.1,
        if action.target = some position then action.edit comp.2 else comp.2)).length := by
    simpa using hid
  rw [htype] at h ⊢
  rw [contents_applyMergeAction, getElem?_append_left hbound, getElem?_mapIdx,
    Option.map_map]
  exact h

/-- **Merging does not touch the time zone definitions.** -/
theorem zones_foldl (htargets : ∀ action ∈ actions, ∀ id, action.target = some id →
      cal.isSchedulingObject (merge.1.component id).componentType)
    (hadded : ∀ component ∈ addedComponents actions,
      cal.isSchedulingObject component.componentType) :
    (actions.foldl applyMergeAction merge).1.zones = merge.1.zones := by
  induction actions generalizing merge with
  | nil => rfl
  | cons action actions ih =>
    rw [addedComponents_cons, forall_mem_append] at hadded
    rw [foldl_cons, ih (fun action' haction' id hid => ?_) hadded.2]
    · exact zones_applyMergeAction laws (htargets action (.head _)) hadded.1
    · exact isSchedulingObject_applyMergeAction laws merge action
        (htargets action' (.tail _ haction') id hid)

/-- What the scheduling objects of a calendar object hold. -/
def scheduledContents (cal : Calcard) (ical : ICalendar) :
    List (ICalendarComponentType × List ICalendarEntry) :=
  (ical.components.map ICalendarComponent.contents).filter fun comp =>
    cal.isSchedulingObject comp.1

/-- The actions concern scheduling objects only. -/
structure Scheduled (cal : Calcard) (ical : ICalendar) (actions : List MergeAction) : Prop where
  targets : ∀ action ∈ actions, ∀ id, action.target = some id →
    cal.isSchedulingObject (ical.component id).componentType
  added : ∀ component ∈ addedComponents actions,
    cal.isSchedulingObject component.componentType
  removed : ∀ id ∈ removedIds actions,
    cal.isSchedulingObject (ical.component id).componentType

/-- **The scheduling objects of the merged calendar**: those not removed, and the added ones. -/
theorem scheduled_merge {ical : ICalendar} (h : Scheduled cal ical actions) :
    scheduledContents cal (itipMergeChanges cal ical actions) =
      ((schedulingComponents cal ical).filter fun comp =>
          !(removedIds actions).contains comp.2).map
        (fun comp => (comp.1.componentType, entriesAfter actions comp.2 comp.1.entries)) ++
        if ical.hasRoot then (addedComponents actions).map ICalendarComponent.contents else [] := by
  have hids : (actions.foldl applyMergeAction (ical, [])).2 = removedIds actions := by
    rw [foldl_removed, nil_append]
  have hcontents : (actions.foldl applyMergeAction (ical, [])).1.components.map
      ICalendarComponent.contents =
      ((ical.components.map ICalendarComponent.contents).mapIdx fun position comp =>
        (comp.1, entriesAfter actions position comp.2)) ++ ([] ++ _) :=
    foldl_contents (append_nil _).symm (fun _ => rfl) fun action haction id hid => by
      simpa using lt_length_of_scheduled laws (h.targets action haction id hid)
  have hkept : scheduledContents cal (itipMergeChanges cal ical actions) =
      ((((actions.foldl applyMergeAction (ical, [])).1.components.map
        ICalendarComponent.contents).zipIdx.filter fun comp =>
          cal.isSchedulingObject comp.1.1 && !(removedIds actions).contains comp.2).map
            Prod.fst) := by
    rw [itipMergeChanges, scheduledContents]
    split
    · rename_i hempty
      rw [hids, List.isEmpty_iff] at hempty
      simp only [hempty, contains_nil, Bool.not_false, Bool.and_true]
      conv_lhs => rw [← zipIdx_map_fst 0 (map _ _), filter_map]
      rfl
    · rw [laws.removed, hids]
  rw [hkept, hcontents, zipIdx_append, filter_append, map_append]
  congr 1
  · have hbase : ((ical.components.map ICalendarComponent.contents).mapIdx
        fun position comp => (comp.1, entriesAfter actions position comp.2)).zipIdx =
        ical.components.zipIdx.map fun comp =>
          ((comp.1.componentType, entriesAfter actions comp.2 comp.1.entries), comp.2) := by
      refine ext_getElem? fun i => ?_
      simp only [getElem?_zipIdx, getElem?_mapIdx, getElem?_map]
      cases ical.components[i]? <;> simp [ICalendarComponent.contents]
    rw [hbase, filter_map, map_map, schedulingComponents, filter_filter]
    congr 1
    refine filter_congr fun comp _ => ?_
    exact Bool.and_comm _ _
  · rw [nil_append]
    split
    swap
    · rfl
    rw [filter_eq_self.2, zipIdx_map_fst]
    intro comp hcomp
    obtain ⟨component, hadded, hcomponent⟩ :=
      mem_map.1 (fst_mem_of_mem_zipIdx hcomp)
    have hlength := le_snd_of_mem_zipIdx hcomp
    have hremoved : comp.2 ∉ removedIds actions := fun hid => by
      have hlt := lt_length_of_scheduled laws (h.removed _ hid)
      simp only [length_mapIdx, length_map] at hlength
      omega
    have hobject := h.added component hadded
    simp [← hcomponent, hremoved, ICalendarComponent.contents, hobject]

theorem isSchedulingObject_foldl (actions : List MergeAction) :
    ∀ merge,
      cal.isSchedulingObject (merge.1.component id).componentType →
      cal.isSchedulingObject ((actions.foldl applyMergeAction merge).1.component
        id).componentType := by
  induction actions with
  | nil => exact fun _ h => h
  | cons action actions ih =>
    exact fun merge h => ih _ (isSchedulingObject_applyMergeAction laws merge action h)

theorem zones_merge {ical : ICalendar}
    (h : Scheduled cal ical actions) : (itipMergeChanges cal ical actions).zones = ical.zones := by
  have hfold : (actions.foldl applyMergeAction (ical, [])).1.zones = ical.zones :=
    zones_foldl laws h.targets h.added
  rw [itipMergeChanges]
  split
  · exact hfold
  · rw [laws.removedZones _ _ fun id hid => ?_, hfold]
    rw [foldl_removed] at hid
    exact isSchedulingObject_foldl laws actions _ (h.removed id hid)

end Laws

/-! ## The concrete calendar library obeys the laws -/

theorem getElem?_filter_zipIdx {α : Type} {p : ℕ → Bool} {xs : List α}
    (hid : id < xs.length) (hp : p id) :
    (xs.zipIdx.filter fun x => p x.2)[((range id).filter p).length]? = some (xs[id], id) := by
  have hsplit : xs.zipIdx = (xs.take id).zipIdx ++ (xs.drop id).zipIdx id := by
    conv_lhs => rw [← take_append_drop id xs, zipIdx_append]
    simp [hid.le]
  have hlength : (((xs.take id).zipIdx.filter fun x => p x.2)).length =
      ((range id).filter p).length := by
    have hsnd : (xs.take id).zipIdx.map Prod.snd = range id := by
      rw [zipIdx_map_snd, range_eq_range', length_take, min_eq_left hid.le]
    rw [← hsnd, filter_map, length_map]
    rfl
  rw [hsplit, filter_append, getElem?_append_right hlength.le, hlength, Nat.sub_self,
    drop_eq_getElem_cons hid, zipIdx_cons,
    filter_cons_of_pos (by exact hp)]
  rfl

theorem length_filter_zipIdx_le {α : Type} {p : ℕ → Bool} {xs : List α} (hid : xs.length ≤ id) :
    (xs.zipIdx.filter fun x => p x.2).length ≤ ((range id).filter p).length := by
  have hlength : (xs.zipIdx.filter fun x => p x.2).length =
      ((range xs.length).filter p).length := by
    rw [range_eq_range', ← zipIdx_map_snd 0 xs, filter_map, length_map]
    rfl
  rw [hlength]
  exact ((range_sublist.2 hid).filter p).length_le

/-- The component at the new place of a kept position is the old one, with its sub-components at
theirs. -/
theorem observance_removeComponentIds (ical : ICalendar) (ids : List ℕ) (hid : id ∉ ids) :
    (Calcard.plain.removeComponentIds ical ids).observance
        ((range id).filter (!ids.contains ·)).length =
      ical.observance id := by
  have hp : (!ids.contains id) := by simpa using hid
  rcases lt_or_ge id ical.components.length with hlt | hge
  · have hkept := getElem?_filter_zipIdx (p := fun id => !ids.contains id) hlt hp
    simp only [Calcard.plain, ICalendar.observance, ICalendar.component,
      getD_eq_getElem?_getD, getElem?_map, hkept, Option.map_some, Option.getD_some,
      getElem?_eq_getElem hlt]
  · have hkept := length_filter_zipIdx_le (p := fun id => !ids.contains id) hge
    simp only [Calcard.plain, ICalendar.observance, ICalendar.component,
      getD_eq_getElem?_getD, getElem?_map, getElem?_eq_none hkept,
      getElem?_eq_none hge, Option.map_none]

theorem Calcard.plain_laws : Calcard.plain.Laws where
  root := rfl
  timezone := rfl
  observance type h := by
    cases type <;> first | rfl | cases h
  removed ical ids := by
    have hzip : (ical.components.map ICalendarComponent.contents).zipIdx =
        ical.components.zipIdx.map fun comp => (comp.1.contents, comp.2) := by
      rw [zipIdx_map]
      rfl
    rw [hzip, Calcard.plain, map_map, filter_map, filter_map, map_map,
      filter_filter]
    rfl
  removedZones ical ids h := by
    have htype (id : ℕ) (hid : id ∈ ids) : ical.observance id = none := by
      have hobject := h id hid
      rw [ICalendar.observance]
      cases htype : (ical.component id).componentType <;>
        first | rfl | (rw [htype] at hobject; cases hobject)
    have hobservances (zoneIds : List ℕ) :
        ((zoneIds.filter (!ids.contains ·)).map fun id =>
          ((range id).filter (!ids.contains ·)).length).filterMap
            (Calcard.plain.removeComponentIds ical ids).observance =
        zoneIds.filterMap ical.observance := by
      rw [filterMap_map, filterMap_filter]
      refine filterMap_congr fun id _ => ?_
      by_cases hid : id ∈ ids
      · simp [hid, htype id hid]
      · simpa [hid] using observance_removeComponentIds ical ids hid
    have hkept : (ical.components.zipIdx.filter fun comp => !ids.contains comp.2).filter
        (fun comp => comp.1.componentType = .vTimezone) =
        ical.components.zipIdx.filter fun comp => comp.1.componentType = .vTimezone := by
      rw [filter_filter]
      refine filter_congr fun comp hcomp => ?_
      have hcomponent : ical.component comp.2 = comp.1 := by
        rw [ICalendar.component, getD_eq_getElem?_getD, mem_zipIdx_iff_getElem?.1 hcomp]
        rfl
      by_cases hid : comp.2 ∈ ids
      · have hobject := h comp.2 hid
        rw [hcomponent] at hobject
        have hne : comp.1.componentType ≠ .vTimezone := fun htimezone => by
          rw [htimezone] at hobject
          cases hobject
        simp [hne]
      · simp [hid]
    have hcomponents : ical.components.filter (·.componentType = .vTimezone) =
        (ical.components.zipIdx.filter fun comp => comp.1.componentType = .vTimezone).map
          Prod.fst := by
      conv_lhs => rw [← zipIdx_map_fst 0 ical.components, filter_map]
      rfl
    rw [zones_eq_observances, zones_eq_observances, hcomponents, ← hkept]
    simp only [Calcard.plain] at hobservances ⊢
    rw [filter_map, map_map, map_map]
    refine map_congr_left fun comp _ => ?_
    exact congrArg (Zone.mk comp.1.entries) (hobservances comp.1.componentIds)

end MailServer.Scheduling
