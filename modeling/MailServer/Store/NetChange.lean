import MailServer.Store.ChangeLog

/-!
# Net changes

What the merged change list says about one id.  The calls of a batch that are about an id form
a list of `Kind`s; the sets of the builder and the merged list, seen from that id, are
`KindSets` and again a list of `Kind`s.

Principal results: `batchStep_net`, `mergedKinds_eq_net_iff`, `mergeBatches_net_iff`.
-/

namespace MailServer.Store

open List

/-! ## The changes of one id -/

/-- A call or a change, seen from the id it is about. -/
inductive Kind where
  | insert
  | update
  | property
  | delete
deriving DecidableEq

variable {kinds : List Kind} {batches : List (List Kind)}

/-- Whether the id exists after a call. -/
def Kind.after (alive : Bool) : Kind → Bool
  | .insert => true
  | .delete => false
  | _ => alive

/-- Whether the id exists after the calls. -/
def aliveAfter (alive : Bool) (kinds : List Kind) : Bool :=
  kinds.foldl Kind.after alive

/-- Only an id that exists is updated or deleted, and only one that does not is inserted. -/
def Legal : Bool → List Kind → Prop
  | _, [] => True
  | alive, kind :: kinds => (kind = .insert ↔ alive = false) ∧ Legal (kind.after alive) kinds

/-- The net change of an id with the given history. -/
def net (existed : Bool) (kinds : List Kind) : List Kind :=
  match existed, aliveAfter existed kinds with
  | false, false => []
  | false, true => [.insert]
  | true, false => [.delete]
  | true, true =>
    if kinds = [] then [] else if ∀ kind ∈ kinds, kind = .property then [.property] else [.update]

/-- The calls about a container. -/
def LogCall.containerKind (id : UInt32) : LogCall → Option Kind
  | .containerInsert i => if i = id then some .insert else none
  | .containerUpdate i => if i = id then some .update else none
  | .containerPropertyUpdate i => if i = id then some .property else none
  | .containerDelete i => if i = id then some .delete else none
  | _ => none

/-- The calls about an item. -/
def LogCall.itemKind (id : UInt64) : LogCall → Option Kind
  | .itemInsert pre i => if buildId pre i = id then some .insert else none
  | .itemUpdate pre i => if buildId pre i = id then some .update else none
  | .itemDelete pre i => if buildId pre i = id then some .delete else none
  | _ => none

/-- The changes about a container. -/
def Change.containerKind (id : UInt64) : Change → Option Kind
  | .insertContainer i => if i = id then some .insert else none
  | .updateContainer i => if i = id then some .update else none
  | .updateContainerProperty i => if i = id then some .property else none
  | .deleteContainer i => if i = id then some .delete else none
  | _ => none

/-- The changes about an item. -/
def Change.itemKind (id : UInt64) : Change → Option Kind
  | .insertItem i => if i = id then some .insert else none
  | .updateItem i => if i = id then some .update else none
  | .deleteItem i => if i = id then some .delete else none
  | _ => none

/-! ## The sets of the builder -/

/-- The sets an id is in. -/
structure KindSets where
  inserts : Bool
  updates : Bool
  properties : Bool
  deletes : Bool

def KindSets.empty : KindSets := ⟨false, false, false, false⟩

/-- One call about the id. -/
def KindSets.log (s : KindSets) : Kind → KindSets
  | .insert =>
    if s.deletes then { s with deletes := false, updates := true } else { s with inserts := true }
  | .update => { s with updates := true }
  | .property => { s with properties := true }
  | .delete => { s with updates := false, properties := false, deletes := true }

/-- The sets after the calls of a batch. -/
def kindSets (kinds : List Kind) : KindSets :=
  kinds.foldl KindSets.log .empty

/-- `contains` of a hash set. -/
def contains {α : Type} [DecidableEq α] (set : Finset α) (id : α) : Bool :=
  decide (id ∈ set)

section Contains

variable {α : Type} [DecidableEq α] (set : Finset α) (i id : α)

@[simp] theorem contains_iff : contains set id ↔ id ∈ set := decide_eq_true_iff

@[simp] theorem contains_insert :
    contains (insert i set) id = (decide (i = id) || contains set id) := by
  rw [Bool.eq_iff_iff]
  simp only [contains_iff, Finset.mem_insert, Bool.or_eq_true, decide_eq_true_eq]
  exact or_congr_left eq_comm

@[simp] theorem contains_erase :
    contains (set.erase i) id = (!decide (i = id) && contains set id) := by
  rw [Bool.eq_iff_iff]
  simp only [contains_iff, Finset.mem_erase, Bool.and_eq_true, Bool.not_eq_true',
    decide_eq_false_iff_not]
  exact and_congr_left' ne_comm

end Contains

def Changes.containerSets (c : Changes) (id : UInt32) : KindSets :=
  ⟨contains c.containerInserts id, contains c.containerUpdates id,
    contains c.containerPropertyChanges id, contains c.containerDeletes id⟩

def Changes.itemSets (c : Changes) (id : UInt64) : KindSets :=
  ⟨contains c.itemInserts id, contains c.itemUpdates id, false, contains c.itemDeletes id⟩

theorem containerSets_log (c : Changes) (id : UInt32) (call : LogCall) :
    (c.log call).containerSets id =
      (call.containerKind id).elim (c.containerSets id) (c.containerSets id).log := by
  cases call with
  | containerInsert i =>
    by_cases hd : i ∈ c.containerDeletes <;> by_cases h : i = id <;>
      simp_all [Changes.log, Changes.containerSets, LogCall.containerKind, KindSets.log]
  | itemInsert pre i =>
    by_cases hd : buildId pre i ∈ c.itemDeletes <;>
      simp [Changes.log, Changes.containerSets, LogCall.containerKind, hd]
  | itemUpdate | itemDelete => rfl
  | containerUpdate i | containerPropertyUpdate i | containerDelete i =>
    by_cases h : i = id <;>
      simp [Changes.log, Changes.containerSets, LogCall.containerKind, KindSets.log, h]

theorem itemSets_log (c : Changes) (id : UInt64) (call : LogCall) :
    (c.log call).itemSets id =
      (call.itemKind id).elim (c.itemSets id) (c.itemSets id).log := by
  cases call with
  | itemInsert pre i =>
    by_cases hd : buildId pre i ∈ c.itemDeletes <;> by_cases h : buildId pre i = id <;>
      simp_all [Changes.log, Changes.itemSets, LogCall.itemKind, KindSets.log]
  | containerInsert i =>
    by_cases hd : i ∈ c.containerDeletes <;>
      simp [Changes.log, Changes.itemSets, LogCall.itemKind, hd]
  | containerUpdate | containerPropertyUpdate | containerDelete => rfl
  | itemUpdate pre i | itemDelete pre i =>
    by_cases h : buildId pre i = id <;>
      simp [Changes.log, Changes.itemSets, LogCall.itemKind, KindSets.log, h]

theorem foldl_view (view : Changes → KindSets) (kind : LogCall → Option Kind)
    (hlog : ∀ c call, view (c.log call) = (kind call).elim (view c) (view c).log) :
    ∀ (calls : List LogCall) c,
      view (calls.foldl Changes.log c) = (calls.filterMap kind).foldl KindSets.log (view c)
  | [], _ => rfl
  | call :: calls, c => by
    rw [foldl_cons, foldl_view view kind hlog calls, hlog, filterMap_cons]
    cases kind call <;> rfl

theorem containerSets_build (id : UInt32) (calls : List LogCall) :
    (Changes.build calls).containerSets id =
      kindSets (calls.filterMap (LogCall.containerKind id)) :=
  foldl_view (Changes.containerSets · id) (LogCall.containerKind id)
    (fun c call => containerSets_log c id call)
    calls .empty

theorem itemSets_build (id : UInt64) (calls : List LogCall) :
    (Changes.build calls).itemSets id = kindSets (calls.filterMap (LogCall.itemKind id)) :=
  foldl_view (Changes.itemSets · id) (LogCall.itemKind id)
    (fun c call => itemSets_log c id call)
    calls .empty

/-! ## The merged list -/

/-- An update, seen from its id. -/
def updateKinds (isPropertyChange : Bool) : List Kind → List Kind
  | [] => [if isPropertyChange then .property else .update]
  | .insert :: kinds => .insert :: kinds
  | .update :: kinds => kinds ++ [.update]
  | .property :: kinds => kinds ++ [if isPropertyChange then .property else .update]
  | .delete :: kinds => .delete :: updateKinds isPropertyChange kinds

/-- A deletion, seen from its id. -/
def deleteKinds : List Kind → List Kind
  | [] => [.delete]
  | .insert :: kinds => kinds
  | .update :: kinds => kinds ++ [.delete]
  | .property :: kinds => .property :: deleteKinds kinds
  | .delete :: kinds => .delete :: deleteKinds kinds

section View

variable (id i : UInt64) (isPropertyChange : Bool) (changes : List Change)

theorem containerKind_updateContainer :
    (updateContainer i isPropertyChange changes).filterMap (Change.containerKind id) =
      if i = id then updateKinds isPropertyChange (changes.filterMap (Change.containerKind id))
      else changes.filterMap (Change.containerKind id) := by
  induction changes with
  | nil =>
    by_cases h : i = id <;> cases isPropertyChange <;>
      simp [updateContainer, updateKinds, Change.containerKind, h]
  | cons change changes ih =>
    rw [updateContainer]
    by_cases h : i = id
    · cases change <;> cases isPropertyChange <;>
        simp [Change.containerKind, filterMap_cons] <;>
        split_ifs <;> simp_all [Change.containerKind, updateKinds]
    · cases isPropertyChange <;> split_ifs <;>
        simp_all [Change.containerKind, filterMap_cons]

theorem containerKind_deleteContainer :
    (deleteContainer i changes).filterMap (Change.containerKind id) =
      if i = id then deleteKinds (changes.filterMap (Change.containerKind id))
      else changes.filterMap (Change.containerKind id) := by
  induction changes with
  | nil => by_cases h : i = id <;> simp [deleteContainer, deleteKinds, Change.containerKind, h]
  | cons change changes ih =>
    rw [deleteContainer]
    by_cases h : i = id
    · cases change <;> simp [Change.containerKind, filterMap_cons] <;>
        split_ifs <;> simp_all [Change.containerKind, deleteKinds]
    · split_ifs <;> simp_all [Change.containerKind, filterMap_cons]

theorem itemKind_updateItem :
    (updateItem i changes).filterMap (Change.itemKind id) =
      if i = id then updateKinds false (changes.filterMap (Change.itemKind id))
      else changes.filterMap (Change.itemKind id) := by
  induction changes with
  | nil => by_cases h : i = id <;> simp [updateItem, updateKinds, Change.itemKind, h]
  | cons change changes ih =>
    rw [updateItem]
    by_cases h : i = id
    · cases change <;> simp [Change.itemKind, filterMap_cons] <;>
        split_ifs <;> simp_all [Change.itemKind, updateKinds]
    · split_ifs <;> simp_all [Change.itemKind, filterMap_cons]

theorem itemKind_deleteItem :
    (deleteItem i changes).filterMap (Change.itemKind id) =
      if i = id then deleteKinds (changes.filterMap (Change.itemKind id))
      else changes.filterMap (Change.itemKind id) := by
  induction changes with
  | nil => by_cases h : i = id <;> simp [deleteItem, deleteKinds, Change.itemKind, h]
  | cons change changes ih =>
    rw [deleteItem]
    by_cases h : i = id
    · cases change <;> simp [Change.itemKind, filterMap_cons] <;>
        split_ifs <;> simp_all [Change.itemKind, deleteKinds]
    · split_ifs <;> simp_all [Change.itemKind, filterMap_cons]

theorem itemKind_updateContainer :
    (updateContainer i isPropertyChange changes).filterMap (Change.itemKind id) =
      changes.filterMap (Change.itemKind id) := by
  induction changes with
  | nil => cases isPropertyChange <;> rfl
  | cons change changes ih =>
    rw [updateContainer]
    cases isPropertyChange <;> split_ifs <;>
      simp_all [Change.itemKind, filterMap_cons]

theorem itemKind_deleteContainer :
    (deleteContainer i changes).filterMap (Change.itemKind id) =
      changes.filterMap (Change.itemKind id) := by
  induction changes with
  | nil => rfl
  | cons change changes ih =>
    rw [deleteContainer]
    split_ifs <;> simp_all [Change.itemKind, filterMap_cons]

theorem containerKind_updateItem :
    (updateItem i changes).filterMap (Change.containerKind id) =
      changes.filterMap (Change.containerKind id) := by
  induction changes with
  | nil => rfl
  | cons change changes ih =>
    rw [updateItem]
    split_ifs <;> simp_all [Change.containerKind, filterMap_cons]

theorem containerKind_deleteItem :
    (deleteItem i changes).filterMap (Change.containerKind id) =
      changes.filterMap (Change.containerKind id) := by
  induction changes with
  | nil => rfl
  | cons change changes ih =>
    rw [deleteItem]
    split_ifs <;> simp_all [Change.containerKind, filterMap_cons]

end View

/-- Merging ids that are all different performs one step on the changes of each, and leaves those of
other ids alone. -/
theorem filterMap_mergeIds (step : List Kind → List Kind)
    {merge} {kind} {id : UInt64}
    (hmerge : ∀ i changes, (merge i changes).filterMap kind =
      if i = id then step (changes.filterMap kind) else changes.filterMap kind) :
    ∀ (ids : List UInt64) changes, ids.Nodup →
      (mergeIds merge ids changes).filterMap kind =
        if id ∈ ids then step (changes.filterMap kind) else changes.filterMap kind
  | [], changes, _ => rfl
  | i :: ids, changes, hnodup => by
    obtain ⟨hi, hids⟩ := nodup_cons.1 hnodup
    have ih := filterMap_mergeIds step hmerge ids (merge i changes) hids
    rw [mergeIds, foldl_cons, ← mergeIds, ih, hmerge]
    by_cases h : i = id
    · subst h
      simp [hi]
    · simp [h, Ne.symm h]

theorem filterMap_mergeIds_of_untouched {merge}
    {kind : Change → Option Kind}
    (hmerge : ∀ i changes, (merge i changes).filterMap kind = changes.filterMap kind) :
    ∀ ids changes,
      (mergeIds merge ids changes).filterMap kind = changes.filterMap kind
  | [], _ => rfl
  | i :: ids, changes => by
    rw [mergeIds, foldl_cons, ← mergeIds, filterMap_mergeIds_of_untouched hmerge ids, hmerge]

/-- One batch, seen from an id that is in the given sets. -/
def batchStep (s : KindSets) (kinds : List Kind) : List Kind :=
  let kinds := if s.inserts then kinds ++ [.insert] else kinds
  let kinds := if s.updates then updateKinds false kinds else kinds
  let kinds := if s.properties then updateKinds true kinds else kinds
  if s.deletes then deleteKinds kinds else kinds

theorem wide_nodup {set} (o : IterOrder set) :
    (o.ids.map UInt32.toUInt64).Nodup :=
  o.nodup.map fun _ _ h => UInt32.toUInt64_inj.1 h

theorem mem_wide_iff {set} (o : IterOrder set) (id : UInt32) :
    id.toUInt64 ∈ o.ids.map UInt32.toUInt64 ↔ contains set id := by
  rw [contains_iff, ← o.mem_iff, mem_map]
  constructor
  · rintro ⟨i, hi, h⟩
    rwa [← UInt32.toUInt64_inj.1 h]
  · intro h
    exact ⟨id, h, rfl⟩

theorem mem_ids_iff {set} (o : IterOrder set) (id : UInt64) :
    id ∈ o.ids ↔ contains set id := by
  rw [contains_iff, o.mem_iff]

/-- A batch, seen from the widened ids of its containers. -/
theorem containerKind_mergeOrder_wide {c : Changes} (o : c.Order) (id : UInt64)
    (changes : List Change) :
    (mergeOrder o changes).filterMap (Change.containerKind id) =
      batchStep ⟨decide (id ∈ o.containerInserts.ids.map UInt32.toUInt64),
        decide (id ∈ o.containerUpdates.ids.map UInt32.toUInt64),
        decide (id ∈ o.containerPropertyChanges.ids.map UInt32.toUInt64),
        decide (id ∈ o.containerDeletes.ids.map UInt32.toUInt64)⟩
        (changes.filterMap (Change.containerKind id)) := by
  have hinsert : ∀ i changes,
      (changes ++ [Change.insertContainer i]).filterMap (Change.containerKind id) =
        if i = id then changes.filterMap (Change.containerKind id) ++ [.insert]
        else changes.filterMap (Change.containerKind id) := by
    intro i changes
    by_cases h : i = id <;> simp [Change.containerKind, h]
  have hitem : ∀ i changes,
      (changes ++ [Change.insertItem i]).filterMap (Change.containerKind id) =
        changes.filterMap (Change.containerKind id) := by
    intro i changes
    simp [Change.containerKind]
  unfold mergeOrder
  rw [filterMap_mergeIds_of_untouched (containerKind_deleteItem _),
    filterMap_mergeIds_of_untouched (containerKind_updateItem _),
    filterMap_mergeIds_of_untouched hitem,
    filterMap_mergeIds deleteKinds (containerKind_deleteContainer _) _ _ (wide_nodup _),
    filterMap_mergeIds (updateKinds true)
      (fun i changes => containerKind_updateContainer _ i true changes) _ _ (wide_nodup _),
    filterMap_mergeIds (updateKinds false)
      (fun i changes => containerKind_updateContainer _ i false changes) _ _ (wide_nodup _),
    filterMap_mergeIds (· ++ [.insert]) hinsert _ _ (wide_nodup _)]
  simp only [batchStep, decide_eq_true_eq]

/-- **A batch, seen from a container.** -/
theorem containerKind_mergeOrder {c : Changes} (o : c.Order) (id : UInt32)
    (changes : List Change) :
    (mergeOrder o changes).filterMap (Change.containerKind id.toUInt64) =
      batchStep (c.containerSets id) (changes.filterMap (Change.containerKind id.toUInt64)) := by
  rw [containerKind_mergeOrder_wide]
  simp only [mem_wide_iff, Bool.decide_eq_true]
  rfl

/-- **A batch, seen from an item.** -/
theorem itemKind_mergeOrder {c : Changes} (o : c.Order) (id : UInt64) (changes : List Change) :
    (mergeOrder o changes).filterMap (Change.itemKind id) =
      batchStep (c.itemSets id) (changes.filterMap (Change.itemKind id)) := by
  have hinsert : ∀ i changes,
      (changes ++ [Change.insertItem i]).filterMap (Change.itemKind id) =
        if i = id then changes.filterMap (Change.itemKind id) ++ [.insert]
        else changes.filterMap (Change.itemKind id) := by
    intro i changes
    by_cases h : i = id <;> simp [Change.itemKind, h]
  have hcontainer : ∀ i changes,
      (changes ++ [Change.insertContainer i]).filterMap (Change.itemKind id) =
        changes.filterMap (Change.itemKind id) := by
    intro i changes
    simp [Change.itemKind]
  unfold mergeOrder
  rw [filterMap_mergeIds deleteKinds (itemKind_deleteItem _) _ _ o.itemDeletes.nodup,
    filterMap_mergeIds (updateKinds false) (itemKind_updateItem _) _ _
      o.itemUpdates.nodup,
    filterMap_mergeIds (· ++ [.insert]) hinsert _ _ o.itemInserts.nodup,
    filterMap_mergeIds_of_untouched (itemKind_deleteContainer _),
    filterMap_mergeIds_of_untouched (fun i changes => itemKind_updateContainer _ i true changes),
    filterMap_mergeIds_of_untouched (fun i changes => itemKind_updateContainer _ i false changes),
    filterMap_mergeIds_of_untouched hcontainer]
  simp only [mem_ids_iff]
  rfl

/-! ## One batch -/

theorem aliveAfter_append (alive : Bool) (kinds kinds' : List Kind) :
    aliveAfter alive (kinds ++ kinds') = aliveAfter (aliveAfter alive kinds) kinds' :=
  foldl_append

theorem legal_append (kinds' : List Kind) :
    ∀ alive kinds,
      Legal alive (kinds ++ kinds') ↔
        Legal alive kinds ∧ Legal (aliveAfter alive kinds) kinds'
  | _, [] => by simp [Legal, aliveAfter]
  | alive, kind :: kinds => by
    simp only [cons_append, Legal, legal_append kinds' _ kinds, and_assoc]
    rfl

/-- What the sets say about an id: nothing yet, or whether it was inserted and is alive, and how it
was changed since. -/
structure SetsSpec (alive : Bool) (kinds : List Kind) (s : KindSets) : Prop where
  /-- An id is in the inserts exactly when the batch brought it into being. -/
  inserts : s.inserts = (!alive && !kinds.isEmpty)
  deletes : s.deletes = (!aliveAfter alive kinds && !kinds.isEmpty)
  dead : s.deletes → s.updates = false ∧ s.properties = false
  updates : alive → aliveAfter alive kinds →
    (s.updates ↔ ∃ kind ∈ kinds, kind ≠ .property)
  properties : alive → s.updates = false → aliveAfter alive kinds →
    (s.properties ↔ kinds ≠ [])

theorem kindSets_append (kinds : List Kind) (kind : Kind) :
    kindSets (kinds ++ [kind]) = (kindSets kinds).log kind := by
  simp [kindSets]

/-- **The sets after the calls of a batch**, by induction on the calls. -/
theorem kindSets_spec (alive : Bool) (kinds : List Kind) (hlegal : Legal alive kinds) :
    SetsSpec alive kinds (kindSets kinds) := by
  induction kinds using reverseRecOn with
  | nil => constructor <;> simp [kindSets, KindSets.empty]
  | append_singleton kinds kind ih =>
    obtain ⟨hbefore, hkind, -⟩ := (legal_append [kind] alive kinds).1 hlegal
    obtain ⟨hinserts, hdeletes, -, hupdates, -⟩ := ih hbefore
    have hafter : aliveAfter alive (kinds ++ [kind]) = kind.after (aliveAfter alive kinds) :=
      aliveAfter_append alive kinds [kind]
    have hempty : kinds = [] → aliveAfter alive kinds = alive := by
      rintro rfl
      rfl
    have hcons : (kinds ++ [kind]).isEmpty = false := by simp
    -- a call other than an insertion finds the id alive, so the batch is not its beginning
    have hother : kind ≠ .insert → aliveAfter alive kinds ∧
        (!alive && !kinds.isEmpty) = !alive := by
      intro hne
      have halive : aliveAfter alive kinds := by
        by_contra h
        exact hne (hkind.2 (by simpa using h))
      refine ⟨halive, ?_⟩
      cases hkinds : kinds.isEmpty with
      | true =>
        have hborn : alive := (hempty (by simpa using hkinds)).symm.trans halive
        simp [hborn]
      | false => simp
    rw [kindSets_append]
    cases kind with
    | insert =>
      have hdead' : aliveAfter alive kinds = false := hkind.1 rfl
      cases hkinds : kinds.isEmpty with
      | true =>
        constructor <;> simp_all [KindSets.log, Kind.after]
      | false => constructor <;> simp_all [KindSets.log, Kind.after]
    | update =>
      obtain ⟨halive, hborn⟩ := hother (by simp)
      constructor
      · simpa [KindSets.log, hcons, hborn] using hinserts
      · simpa [KindSets.log, hafter, Kind.after, halive] using hdeletes
      · intro h
        simp [KindSets.log, hdeletes, halive] at h
      · intro _ _
        simp [KindSets.log]
      · intro _ h
        simp [KindSets.log] at h
    | property =>
      obtain ⟨halive, hborn⟩ := hother (by simp)
      constructor
      · simpa [KindSets.log, hcons, hborn] using hinserts
      · simpa [KindSets.log, hafter, Kind.after, halive] using hdeletes
      · intro h
        simp [KindSets.log, hdeletes, halive] at h
      · intro h _
        simpa [KindSets.log] using hupdates h halive
      · intro _ _ _
        simp [KindSets.log]
    | delete =>
      obtain ⟨-, hborn⟩ := hother (by simp)
      constructor
      · simpa [KindSets.log, hcons, hborn] using hinserts
      · simp [KindSets.log, hafter, Kind.after]
      · intro _
        simp [KindSets.log]
      · intro _ h
        simp [hafter, Kind.after] at h
      · intro _ _ h
        simp [hafter, Kind.after] at h

/-! ## The step lemma -/

/-- A batch deletes an id that existed before and whose earlier changes, at least one, were
property updates. -/
def DeletesProperty (existed : Bool) (before batch : List Kind) : Prop :=
  existed ∧ before ≠ [] ∧ (∀ kind ∈ before, kind = .property) ∧
    aliveAfter existed (before ++ batch) = false

theorem aliveAfter_of_property (h : ∀ kind ∈ kinds, kind = .property)
    (alive : Bool) : aliveAfter alive kinds = alive := by
  induction kinds with
  | nil => rfl
  | cons kind kinds ih =>
    rw [h kind (by simp)]
    exact ih fun k hk => h k (by simp [hk])

theorem delete_mem_of_dead :
    ∀ {kinds : List Kind} {alive : Bool}, alive → aliveAfter alive kinds = false →
      Kind.delete ∈ kinds
  | [], alive, halive, hdead => by simp [aliveAfter, halive] at hdead
  | kind :: kinds, alive, halive, hdead => by
    cases kind with
    | delete => simp
    | insert | update | property =>
      exact .tail _ (delete_mem_of_dead (by simp [Kind.after, halive]) hdead)

theorem eq_nil_of_dead (hlegal : Legal false kinds)
    (hinsert : Kind.insert ∉ kinds) : kinds = [] := by
  cases kinds with
  | nil => rfl
  | cons kind kinds =>
    obtain rfl : kind = .insert := hlegal.1.2 rfl
    simp at hinsert

theorem batchStep_nil (kinds : List Kind) : batchStep (kindSets []) kinds = kinds := rfl

theorem batchStep_insert {s : KindSets} (hinserts : s.inserts = false) :
    batchStep s [.insert] = if s.deletes then [] else [.insert] := by
  obtain ⟨i, u, p, d⟩ := s
  obtain rfl : i = false := hinserts
  cases u <;> cases p <;> cases d <;> rfl

theorem batchStep_of_inserts {s : KindSets} (hinserts : s.inserts) :
    batchStep s [] = if s.deletes then [] else [.insert] := by
  obtain ⟨i, u, p, d⟩ := s
  obtain rfl : i := hinserts
  cases u <;> cases p <;> cases d <;> rfl

theorem net_alive (halive : aliveAfter true kinds) :
    net true kinds = if kinds = [] then [] else
      if ∀ kind ∈ kinds, kind = .property then [.property] else [.update] := by
  simp [net, halive]

theorem net_dead (hdead : aliveAfter true kinds = false) :
    net true kinds = [.delete] := by
  simp [net, hdead]

theorem net_new (kinds : List Kind) :
    net false kinds = if aliveAfter false kinds then [.insert] else [] := by
  cases h : aliveAfter false kinds <;> simp [net, h]

/-- One batch about an id that existed before the first batch and is alive. -/
theorem batchStep_net_alive {before batch : List Kind} (halive : aliveAfter true before)
    (hbatch : Legal true batch) (hsafe : ¬DeletesProperty true before batch) :
    batchStep (kindSets batch) (net true before) = net true (before ++ batch) := by
  obtain ⟨hinserts, hdeletes, hdead, hupdates, hproperties⟩ := kindSets_spec true batch hbatch
  have happend := aliveAfter_append true before batch
  rw [halive] at happend
  simp only [Bool.not_true, Bool.false_and] at hinserts
  rw [net_alive halive]
  cases hd : (kindSets batch).deletes with
  | true =>
    obtain ⟨hu, hp⟩ := hdead hd
    have hafter : aliveAfter true batch = false := by
      rw [hd] at hdeletes
      simpa using (Bool.and_eq_true_iff.1 hdeletes.symm).1
    rw [net_dead (happend.trans hafter), batchStep]
    simp only [hinserts, hu, hp, hd, Bool.false_eq_true, if_false, if_true]
    split_ifs with hnil hproperty
    · rfl
    · cases hsafe ⟨rfl, hnil, hproperty, happend.trans hafter⟩
    · rfl
  | false =>
    have hafter : aliveAfter true batch := by
      rw [hd] at hdeletes
      cases hb : batch with
      | nil => rfl
      | cons kind kinds => simpa [hb] using hdeletes
    rw [net_alive (happend.trans hafter), batchStep]
    cases hu : (kindSets batch).updates with
    | true =>
      obtain ⟨kind, hkind, hne⟩ := (hupdates rfl hafter).1 hu
      have hnil : before ++ batch ≠ [] := by
        rintro h
        simp_all
      have hall : ¬∀ kind ∈ before ++ batch, kind = .property := fun h =>
        hne (h kind (by simp [hkind]))
      simp only [hinserts, hd, Bool.false_eq_true, if_false]
      split_ifs <;> rfl
    | false =>
      have hall : ∀ kind ∈ batch, kind = .property := by
        intro kind hkind
        by_contra hne
        rw [(hupdates rfl hafter).2 ⟨kind, hkind, hne⟩] at hu
        cases hu
      cases hp : (kindSets batch).properties with
      | true =>
        have hnil : batch ≠ [] := (hproperties rfl hu hafter).1 hp
        simp only [hinserts, hd, Bool.false_eq_true, if_false, if_true]
        by_cases hb : before = []
        · subst hb
          simpa [hnil, updateKinds] using hall
        · by_cases hbefore : ∀ kind ∈ before, kind = .property
          · have happ : ∀ kind ∈ before ++ batch, kind = .property := by
              intro kind hkind
              exact (mem_append.1 hkind).elim (hbefore kind) (hall kind)
            rw [if_neg hb, if_pos hbefore, if_neg (by simp [hb]), if_pos happ]
            rfl
          · have happ : ¬∀ kind ∈ before ++ batch, kind = .property := fun h =>
              hbefore fun kind hkind => h kind (by simp [hkind])
            rw [if_neg hb, if_neg hbefore, if_neg (by simp [hb]), if_neg happ]
            rfl
      | false =>
        have hnil : batch = [] := by
          by_contra hne
          rw [(hproperties rfl hu hafter).2 hne] at hp
          cases hp
        subst hnil
        simp only [hinserts, hd, Bool.false_eq_true, if_false, append_nil]

/-- **One batch takes the net change to the net change**, unless it deletes an id after property
updates. -/
theorem batchStep_net {existed : Bool} {before batch : List Kind}
    (hlegal : Legal existed (before ++ batch))
    (hreinsert : Kind.delete ∈ before → Kind.insert ∉ batch)
    (hsafe : ¬DeletesProperty existed before batch) :
    batchStep (kindSets batch) (net existed before) = net existed (before ++ batch) := by
  obtain ⟨-, hbatch⟩ := (legal_append batch existed before).1 hlegal
  have happend := aliveAfter_append existed before batch
  cases halive : aliveAfter existed before with
  | true =>
    rw [halive] at hbatch happend
    cases existed with
    | true => exact batchStep_net_alive halive hbatch hsafe
    | false =>
      obtain ⟨hinserts, hdeletes, -⟩ := kindSets_spec true batch hbatch
      rw [net_new, net_new, halive, if_pos rfl, batchStep_insert (by simpa using hinserts),
        hdeletes, happend]
      cases batch with
      | nil => rfl
      | cons kind kinds => cases aliveAfter true (kind :: kinds) <;> rfl
  | false =>
    rw [halive] at hbatch happend
    cases existed with
    | true =>
      have hnil := eq_nil_of_dead hbatch (hreinsert (delete_mem_of_dead rfl halive))
      rw [hnil, batchStep_nil, append_nil]
    | false =>
      cases hb : batch with
      | nil => rw [batchStep_nil, append_nil]
      | cons kind kinds =>
        obtain ⟨hinserts, hdeletes, -⟩ := kindSets_spec false batch hbatch
        rw [hb] at hinserts hdeletes happend
        rw [net_new, net_new, halive, if_neg (by simp),
          batchStep_of_inserts (by simpa using hinserts), hdeletes, happend]
        cases aliveAfter false (kind :: kinds) <;> rfl

/-! ## The run lemma -/

/-- The merged list after several batches, seen from one id. -/
def mergedKinds (kinds : List Kind) (batches : List (List Kind)) : List Kind :=
  batches.foldl (fun kinds batch => batchStep (kindSets batch) kinds) kinds

theorem mergedKinds_cons (kinds batch : List Kind) (batches : List (List Kind)) :
    mergedKinds kinds (batch :: batches) =
      mergedKinds (batchStep (kindSets batch) kinds) batches := rfl

theorem mergedKinds_append (kinds : List Kind) (batches batches' : List (List Kind)) :
    mergedKinds kinds (batches ++ batches') = mergedKinds (mergedKinds kinds batches) batches' :=
  foldl_append

/-- The calls about one id are a legal lifecycle, and an id that one batch deletes is not
inserted by a later one. -/
structure LegalLife (existed : Bool) (batches : List (List Kind)) : Prop where
  lifecycle : Legal existed batches.flatten
  reinsert : batches.Pairwise fun earlier later => Kind.delete ∈ earlier → Kind.insert ∉ later

/-- Some batch deletes the id after nothing but property updates in the batches before. -/
def DeletesPropertyIn (existed : Bool) (batches : List (List Kind)) : Prop :=
  ∃ before batch after, batches = before ++ batch :: after ∧
    DeletesProperty existed before.flatten batch

theorem mergedKinds_net (existed : Bool) :
    ∀ (todo done : List (List Kind)), LegalLife existed (done ++ todo) →
      ¬DeletesPropertyIn existed (done ++ todo) →
      mergedKinds (net existed done.flatten) todo = net existed (done ++ todo).flatten
  | [], done, _, _ => by simp [mergedKinds]
  | batch :: todo, done, hlife, hsafe => by
    have hsplit : done ++ batch :: todo = (done ++ [batch]) ++ todo := by simp
    have hstep : batchStep (kindSets batch) (net existed done.flatten) =
        net existed (done ++ [batch]).flatten := by
      rw [flatten_append, flatten_singleton]
      refine batchStep_net ?_ ?_ fun h => hsafe ⟨done, batch, todo, rfl, h⟩
      · have hlegal := hlife.lifecycle
        rw [hsplit, flatten_append, flatten_append, flatten_singleton] at hlegal
        exact ((legal_append todo.flatten existed _).1 hlegal).1
      · intro hdelete
        obtain ⟨earlier, hearlier, hmem⟩ := mem_flatten.1 hdelete
        exact (pairwise_append.1 hlife.reinsert).2.2 earlier hearlier batch (by simp) hmem
    rw [mergedKinds_cons, hstep, hsplit]
    exact mergedKinds_net existed todo (done ++ [batch]) (hsplit ▸ hlife) (hsplit ▸ hsafe)

theorem mergedKinds_dead (hlegal : Legal false batches.flatten)
    (hinsert : ∀ batch ∈ batches, Kind.insert ∉ batch) (kinds : List Kind) :
    batches.flatten = [] ∧ mergedKinds kinds batches = kinds := by
  have hnil : batches.flatten = [] := by
    refine eq_nil_of_dead hlegal fun h => ?_
    obtain ⟨batch, hbatch, hmem⟩ := mem_flatten.1 h
    exact hinsert batch hbatch hmem
  refine ⟨hnil, ?_⟩
  rw [flatten_eq_nil_iff] at hnil
  clear hlegal hinsert
  induction batches with
  | nil => rfl
  | cons batch batches ih =>
    rw [hnil batch (by simp)]
    exact ih fun b hb => hnil b (by simp [hb])

/-- A deletion after property updates leaves both changes in the list. -/
theorem mergedKinds_deletesProperty {existed : Bool}
    (hlife : LegalLife existed batches) (h : DeletesPropertyIn existed batches) :
    mergedKinds [] batches = [.property, .delete] ∧ net existed batches.flatten = [.delete] := by
  obtain ⟨before, batch, after, rfl, rfl, hnil, hproperty, hdead⟩ := h
  have halive : aliveAfter true before.flatten := aliveAfter_of_property hproperty true
  obtain ⟨hlegal, hpair⟩ := hlife
  rw [flatten_append, flatten_cons, ← append_assoc] at hlegal
  obtain ⟨hlegalBatch, hlegalAfter⟩ := (legal_append after.flatten true _).1 hlegal
  obtain ⟨hlegalBefore, hlegalBatch⟩ := (legal_append batch true _).1 hlegalBatch
  rw [hdead] at hlegalAfter
  rw [aliveAfter_append, halive] at hdead
  rw [halive] at hlegalBatch
  -- the batches before: the net change is one property update
  have hbefore : mergedKinds [] before = [.property] := by
    have hrun := mergedKinds_net true before [] ⟨hlegalBefore,
      (pairwise_append.1 hpair).1⟩ (by
        rintro ⟨first, second, third, hsplit, -, -, -, hdead'⟩
        subst hsplit
        rw [aliveAfter_of_property] at hdead'
        · cases hdead'
        · intro kind hkind
          exact hproperty kind (by
            rcases mem_append.1 hkind with h | h <;> simp [h]))
    have hnet : net true before.flatten = [.property] := by
      rw [net_alive halive, if_neg hnil, if_pos hproperty]
    exact hrun.trans hnet
  -- the batch itself
  obtain ⟨hinserts, hdeletes, hsets, -⟩ := kindSets_spec true batch hlegalBatch
  have hbatch : batch ≠ [] := by
    rintro rfl
    simp [aliveAfter] at hdead
  have hempty : batch.isEmpty = false := by simpa using hbatch
  have hd : (kindSets batch).deletes := by
    rw [hdeletes, hdead, hempty]
    rfl
  have hstep : batchStep (kindSets batch) [.property] = [.property, .delete] := by
    obtain ⟨hu, hp⟩ := hsets hd
    simp [batchStep, hinserts, hu, hp, hd, deleteKinds]
  -- the batches after
  have hdelete : Kind.delete ∈ batch := delete_mem_of_dead rfl hdead
  have hinsert : ∀ b ∈ after, Kind.insert ∉ b := fun b hb =>
    (pairwise_cons.1 (pairwise_append.1 hpair).2.1).1 b hb hdelete
  obtain ⟨hafter, hrest⟩ := mergedKinds_dead hlegalAfter hinsert [.property, .delete]
  constructor
  · rw [mergedKinds_append, hbefore, mergedKinds_cons, hstep, hrest]
  · refine net_dead ?_
    rw [flatten_append, flatten_cons, hafter, append_nil, aliveAfter_append,
      halive]
    exact hdead

/-- **The merged list is the net change** exactly when no batch deletes the id after nothing but
property updates. -/
theorem mergedKinds_eq_net_iff {existed : Bool} (hlife : LegalLife existed batches) :
    mergedKinds [] batches = net existed batches.flatten ↔
      ¬DeletesPropertyIn existed batches := by
  constructor
  · intro hnet h
    obtain ⟨hmerged, hdelete⟩ := mergedKinds_deletesProperty hlife h
    rw [hmerged, hdelete] at hnet
    cases hnet
  · intro hsafe
    have hempty : net existed ([] : List (List Kind)).flatten = [] := by
      cases existed <;> rfl
    have hrun := mergedKinds_net _ batches [] hlife hsafe
    rw [hempty] at hrun
    exact hrun

/-! ## Serialized batches -/

/-- A batch: its calls, and the order in which its sets are iterated when it is written. -/
structure Batch where
  calls : List LogCall
  order : (Changes.build calls).Order

def Batch.bytes (b : Batch) : List UInt8 :=
  (Changes.build b.calls).serialize b.order

/-- Feed the byte strings of the batches to `deserialize`, one after the other. -/
def mergeBatches (batches : List Batch) : Option (List Change) :=
  batches.foldlM (fun changes b => (deserialize changes b.bytes).map Prod.snd) []

def containerHistory (id : UInt32) (batches : List Batch) : List (List Kind) :=
  batches.map fun b => b.calls.filterMap (LogCall.containerKind id)

def itemHistory (id : UInt64) (batches : List Batch) : List (List Kind) :=
  batches.map fun b => b.calls.filterMap (LogCall.itemKind id)

/-- Every id lives a legal life. -/
structure LegalBatches (containers : UInt32 → Bool) (items : UInt64 → Bool)
    (batches : List Batch) : Prop where
  containers : ∀ id, LegalLife (containers id) (containerHistory id batches)
  items : ∀ id, LegalLife (items id) (itemHistory id batches)

/-- The changes about every id are its net change: none, or the one that says what became of
it. -/
structure NetLaw (containers : UInt32 → Bool) (items : UInt64 → Bool) (batches : List Batch)
    (changes : List Change) : Prop where
  containers : ∀ id : UInt32, changes.filterMap (Change.containerKind id.toUInt64) =
    net (containers id) (containerHistory id batches).flatten
  items : ∀ id : UInt64, changes.filterMap (Change.itemKind id) =
    net (items id) (itemHistory id batches).flatten

def mergeOrders (batches : List Batch) (changes : List Change) : List Change :=
  batches.foldl (fun changes b => mergeOrder b.order changes) changes

theorem mergeBatches_eq (batches : List Batch) :
    mergeBatches batches = some (mergeOrders batches []) := by
  have hrun : ∀ batches changes,
      batches.foldlM (fun changes b => (deserialize changes b.bytes).map Prod.snd) changes =
        some (mergeOrders batches changes) := by
    intro batches
    induction batches with
    | nil => intro changes; rfl
    | cons b batches ih =>
      intro changes
      rw [foldlM_cons, Batch.bytes, deserialize_serialize, Option.map_some,
        Option.bind_eq_bind, Option.bind_some, ih]
      rfl
  exact hrun batches []

theorem containerKind_mergeOrders (id : UInt32) :
    ∀ batches changes,
      (mergeOrders batches changes).filterMap (Change.containerKind id.toUInt64) =
        mergedKinds (changes.filterMap (Change.containerKind id.toUInt64))
          (containerHistory id batches)
  | [], _ => rfl
  | b :: batches, changes => by
    rw [mergeOrders, foldl_cons, ← mergeOrders, containerKind_mergeOrders id batches,
      containerKind_mergeOrder, containerSets_build, containerHistory, containerHistory,
      map_cons, mergedKinds_cons]

theorem itemKind_mergeOrders (id : UInt64) :
    ∀ batches changes,
      (mergeOrders batches changes).filterMap (Change.itemKind id) =
        mergedKinds (changes.filterMap (Change.itemKind id)) (itemHistory id batches)
  | [], _ => rfl
  | b :: batches, changes => by
    rw [mergeOrders, foldl_cons, ← mergeOrders, itemKind_mergeOrders id batches,
      itemKind_mergeOrder, itemSets_build, itemHistory, itemHistory, map_cons,
      mergedKinds_cons]

theorem not_deletesPropertyIn_item (existed : Bool) (id : UInt64) (batches : List Batch) :
    ¬DeletesPropertyIn existed (itemHistory id batches) := by
  rintro ⟨before, batch, after, hsplit, -, hnil, hproperty, -⟩
  obtain ⟨kind, hkind⟩ := exists_mem_of_ne_nil _ hnil
  obtain ⟨kinds, hkinds, hmem⟩ := mem_flatten.1 hkind
  have hhistory : kinds ∈ itemHistory id batches := by
    rw [hsplit]
    exact mem_append_left _ hkinds
  obtain ⟨b, -, rfl⟩ := mem_map.1 hhistory
  obtain ⟨call, -, hcall⟩ := mem_filterMap.1 hmem
  rw [hproperty kind hkind] at hcall
  cases call <;> simp [LogCall.itemKind] at hcall

/-- **The net-change law of the change log.** In whatever order, the batches are read back, and the
changes about every id are its net change, if and only if no batch deletes a container that existed
before and whose earlier changes, at least one, were all property updates. -/
theorem mergeBatches_net_iff (containers : UInt32 → Bool) (items : UInt64 → Bool)
    (batches : List Batch) (hlegal : LegalBatches containers items batches) :
    ∃ changes, mergeBatches batches = some changes ∧
      (NetLaw containers items batches changes ↔
        ∀ id, ¬DeletesPropertyIn (containers id) (containerHistory id batches)) := by
  refine ⟨mergeOrders batches [], mergeBatches_eq batches, ?_⟩
  have hcontainer (id : UInt32) := containerKind_mergeOrders id batches []
  have hitem (id : UInt64) := itemKind_mergeOrders id batches []
  constructor
  · intro hlaw id
    have hnet := hlaw.containers id
    rw [hcontainer] at hnet
    exact (mergedKinds_eq_net_iff (hlegal.containers id)).1 hnet
  · intro hsafe
    refine ⟨fun id => ?_, fun id => ?_⟩
    · rw [hcontainer]
      exact (mergedKinds_eq_net_iff (hlegal.containers id)).2 (hsafe id)
    · rw [hitem]
      exact (mergedKinds_eq_net_iff (hlegal.items id)).2
        (not_deletesPropertyIn_item (items id) id batches)

theorem mem_nil_iff_empty {α : Type} (id : α) : id ∈ ([] : List α) ↔ id ∈ (∅ : Finset α) := by
  simp

theorem length_nil_fits {α : Type} : ([] : List α).length < 2 ^ 64 := by
  simp

def IterOrder.empty {α : Type} : IterOrder (∅ : Finset α) :=
  ⟨[], nodup_nil, mem_nil_iff_empty, length_nil_fits⟩

def IterOrder.one {α : Type} [DecidableEq α] (id : α) : IterOrder (insert id (∅ : Finset α)) :=
  ⟨[id], by simp, by simp, by simp⟩

/-- A property update of container 7 in one batch, its deletion in the next. -/
def propertyThenDelete : List Batch :=
  [⟨[.containerPropertyUpdate 7], ⟨.empty, .empty, .one 7, .empty, .empty, .empty, .empty⟩⟩,
    ⟨[.containerDelete 7], ⟨.empty, .empty, .empty, .one 7, .empty, .empty, .empty⟩⟩]

theorem containerHistory_propertyThenDelete (id : UInt32) :
    containerHistory id propertyThenDelete =
      if 7 = id then [[.property], [.delete]] else [[], []] := by
  by_cases h : 7 = id <;>
    simp [containerHistory, propertyThenDelete, LogCall.containerKind, h]

theorem legal_propertyThenDelete :
    LegalBatches (fun _ => true) (fun _ => true) propertyThenDelete where
  containers id := by
    rw [containerHistory_propertyThenDelete]
    split_ifs
    · exact ⟨by simp [Legal, Kind.after], by simp⟩
    · exact ⟨by simp [Legal], by simp⟩
  items id := by
    have hitems : itemHistory id propertyThenDelete = [[], []] := rfl
    rw [hitems]
    exact ⟨by simp [Legal], by simp⟩

theorem mergeBatches_net_iff_propertyThenDelete :
    ∃ changes, mergeBatches propertyThenDelete = some changes ∧
      (NetLaw (fun _ => true) (fun _ => true) propertyThenDelete changes ↔
        ∀ id, ¬DeletesPropertyIn true (containerHistory id propertyThenDelete)) :=
  mergeBatches_net_iff _ _ _ legal_propertyThenDelete

theorem propertyThenDelete_reported_twice :
    LegalBatches (fun _ => true) (fun _ => true) propertyThenDelete ∧
      mergeBatches propertyThenDelete = some [.updateContainerProperty 7, .deleteContainer 7] ∧
      ¬NetLaw (fun _ => true) (fun _ => true) propertyThenDelete
        [.updateContainerProperty 7, .deleteContainer 7] := by
  refine ⟨legal_propertyThenDelete, mergeBatches_eq _, fun hlaw => ?_⟩
  have hnet := hlaw.containers 7
  rw [containerHistory_propertyThenDelete] at hnet
  simp [Change.containerKind, net, aliveAfter, Kind.after] at hnet

end MailServer.Store
