import MailServer.Cache.Account

/-!
# The changed documents

The two maps that `get_cached_messages` makes of the changes that it reads
(`email/src/cache/mod.rs`): the messages and the mailboxes that were changed, each with a flag that
says whether to read it again.

Principal results: `changedItems_spec`, `changedContainers_spec`.
-/

namespace MailServer.Cache

open InsertionMap MailServer.Store List

/-! ## The maps -/

/-- `changed_items`: a deletion that is not the first change of a message is a move to another
thread. -/
def noteItem (changed : InsertionMap UInt32 Bool) : Change → InsertionMap UInt32 Bool
  | .insertItem id | .updateItem id => insert id.toUInt32 true changed
  | .deleteItem id =>
    if (find id.toUInt32 changed).isSome then insert id.toUInt32 true changed
    else insert id.toUInt32 false changed
  | _ => changed

/-- `changed_containers`. -/
def noteContainer (changed : InsertionMap UInt32 Bool) : Change → InsertionMap UInt32 Bool
  | .insertContainer id | .updateContainer id => insert id.toUInt32 true changed
  | .deleteContainer id => insert id.toUInt32 false changed
  | _ => changed

def changedItems (changes : List Change) : InsertionMap UInt32 Bool := changes.foldl noteItem []

def changedContainers (changes : List Change) : InsertionMap UInt32 Bool :=
  changes.foldl noteContainer []

def hasContainerPropertyChanges (changes : List Change) : Bool :=
  changes.any fun change =>
    match change with
    | .updateContainerProperty _ => true
    | _ => false

theorem nodup_keys_noteItem {changed} (h : (keys changed).Nodup)
    (change : Change) : (keys (noteItem changed change)).Nodup := by
  cases change with
  | insertItem id | updateItem id => exact nodup_keys_alter h
  | deleteItem id =>
    dsimp only [noteItem]
    split_ifs <;> exact nodup_keys_alter h
  | _ => exact h

theorem nodup_keys_noteContainer {changed} (h : (keys changed).Nodup)
    (change : Change) : (keys (noteContainer changed change)).Nodup := by
  cases change with
  | insertContainer id | updateContainer id | deleteContainer id => exact nodup_keys_alter h
  | _ => exact h

theorem nodup_keys_changedItems (changes : List Change) : (keys (changedItems changes)).Nodup := by
  unfold changedItems
  induction changes using reverseRecOn with
  | nil => exact nodup_nil
  | append_singleton changes change ih =>
    rw [foldl_append]
    exact nodup_keys_noteItem ih change

theorem nodup_keys_changedContainers (changes : List Change) :
    (keys (changedContainers changes)).Nodup := by
  unfold changedContainers
  induction changes using reverseRecOn with
  | nil => exact nodup_nil
  | append_singleton changes change ih =>
    rw [foldl_append]
    exact nodup_keys_noteContainer ih change

/-! ## Messages -/

section Items

variable {changes : List Change} {documentId : UInt32}

/-- What a list of changes says about an item. -/
def itemChanges (id : UInt64) (changes : List Change) : List Kind :=
  changes.filterMap (Change.itemKind id)

/-- One change, seen from a message. -/
theorem find_noteItem (documentId : UInt32) (changed : InsertionMap UInt32 Bool) (change : Change) :
    (∃ id, id.toUInt32 = documentId ∧ ∃ kind, change.itemKind id = some kind ∧
      find documentId (noteItem changed change) =
        some (decide (kind ≠ .delete ∨ (find documentId changed).isSome))) ∨
    ((∀ id, id.toUInt32 = documentId → change.itemKind id = none) ∧
      find documentId (noteItem changed change) = find documentId changed) := by
  have hnoted : (∃ id kind flag,
      (∀ i, change.itemKind i = if id = i then some kind else none) ∧
      noteItem changed change = insert id.toUInt32 flag changed ∧
      flag = decide (kind ≠ .delete ∨ (find id.toUInt32 changed).isSome)) ∨
      (∀ i, change.itemKind i = none) ∧ noteItem changed change = changed := by
    cases change with
    | insertItem id => exact .inl ⟨id, .insert, true, fun _ => rfl, rfl, by simp⟩
    | updateItem id => exact .inl ⟨id, .update, true, fun _ => rfl, rfl, by simp⟩
    | deleteItem id =>
      by_cases hold : (find id.toUInt32 changed).isSome
      · exact .inl ⟨id, .delete, true, fun _ => rfl, if_pos hold, by simp [hold]⟩
      · exact .inl ⟨id, .delete, false, fun _ => rfl, if_neg hold, by simp [hold]⟩
    | _ => exact .inr ⟨fun _ => rfl, rfl⟩
  rcases hnoted with ⟨id, kind, flag, hkind, hnote, hflag⟩ | ⟨hkind, hnote⟩
  · rw [hnote, find_insert]
    by_cases hid : documentId = id.toUInt32
    · subst hid
      refine .inl ⟨id, rfl, kind, by rw [hkind, if_pos rfl], ?_⟩
      rw [if_pos rfl, hflag]
    · refine .inr ⟨fun i hi => ?_, if_neg hid⟩
      rw [hkind, if_neg]
      rintro rfl
      exact hid hi.symm
  · exact .inr ⟨fun i _ => hkind i, by rw [hnote]⟩

theorem itemChanges_append (id : UInt64) (changes : List Change) (change : Change) :
    itemChanges id (changes ++ [change]) =
      itemChanges id changes ++ (change.itemKind id).toList := by
  unfold itemChanges
  rw [filterMap_append, filterMap_cons]
  cases change.itemKind id <;> rfl

theorem find_changedItems_eq_none :
    find documentId (changedItems changes) = none ↔
      ∀ id, id.toUInt32 = documentId → itemChanges id changes = [] := by
  unfold changedItems
  induction changes using reverseRecOn with
  | nil => exact ⟨fun _ _ _ => rfl, fun _ => rfl⟩
  | append_singleton changes change ih =>
    rw [foldl_append, foldl_cons, foldl_nil]
    rcases find_noteItem documentId (changes.foldl noteItem []) change with
      ⟨id, hid, kind, hkind, hfind⟩ | ⟨hnone, hfind⟩
    · rw [hfind]
      refine iff_of_false (by simp) fun hnil => ?_
      have happend := hnil id hid
      rw [itemChanges_append, hkind] at happend
      exact absurd happend (by simp)
    · rw [hfind, ih]
      refine forall_congr' fun id => forall_congr' fun hid => ?_
      rw [itemChanges_append, hnone id hid]
      exact (congrArg (· = []) (append_nil _)).symm.to_iff

theorem find_changedItems_of_ne_delete {id : UInt64} (hid : id.toUInt32 = documentId) {kind : Kind}
    (hkind : kind ∈ itemChanges id changes) (hne : kind ≠ .delete) :
    find documentId (changedItems changes) = some true := by
  unfold changedItems
  induction changes using reverseRecOn with
  | nil => cases hkind
  | append_singleton changes change ih =>
    rw [foldl_append, foldl_cons, foldl_nil]
    rw [itemChanges_append] at hkind
    rcases find_noteItem documentId (changes.foldl noteItem []) change with
      ⟨id', hid', kind', hkind', hfind⟩ | ⟨hnone, hfind⟩
    · rw [hfind]
      rcases mem_append.1 hkind with hold | hnew
      · rw [ih hold]
        simp
      · -- the change is about one item only
        have hsome : change.itemKind id = some kind := by
          rwa [Option.mem_toList] at hnew
        have hsame : kind' = kind := by
          cases change <;> simp only [Change.itemKind, Option.ite_none_right_eq_some,
            reduceCtorEq] at hsome hkind' <;> exact Option.some.inj (hkind'.2.symm.trans hsome.2)
        rw [hsame, decide_eq_true (.inl hne)]
    · rw [hfind]
      rcases mem_append.1 hkind with hold | hnew
      · exact ih hold
      · rw [hnone id hid] at hnew
        exact absurd hnew (by simp)

end Items

section

variable {account account' : Account} {pending : List Committed}
  (h : ItemsFollow account account' (pending.flatMap fun b => b.batch.calls)) {start : Changelog}
  (hstart : start.changes = [])
include h hstart

theorem followed_items (id : UInt64) :
    Followed (account.hasItem id) (itemKinds id (pending.flatMap fun b => b.batch.calls))
      (itemChanges id (start.pushAll pending).changes) := by
  have hflatten : (callsOf false id pending).flatten =
      itemKinds id (pending.flatMap fun b => b.batch.calls) := by
    unfold itemKinds callsOf
    rw [filterMap_flatMap]
    rfl
  have hmerged := kinds_pushAll false id pending start
  rw [hstart] at hmerged
  have hfollowed : Followed (account.hasItem id) (callsOf false id pending).flatten
      (mergedKinds [] (callsOf false id pending)) := by
    refine followed_mergedKinds ?_
    rw [hflatten, core_itemKinds]
    exact h.legal id
  rw [hflatten] at hfollowed
  have hchanges : itemChanges id (start.pushAll pending).changes = _ := hmerged
  rw [hchanges]
  exact hfollowed

/-- **The map of the changed messages**, against what the messages have become. -/
theorem changedItems_spec (documentId : UInt32) :
    (find documentId (changedItems (start.pushAll pending).changes) = none →
      find documentId account'.messages = find documentId account.messages) ∧
    (find documentId (changedItems (start.pushAll pending).changes) = some false →
      find documentId account'.messages = none) := by
  have hfollowed := followed_items h hstart
  -- no calls, no changes
  have hsilent : (∀ id, id.toUInt32 = documentId →
      itemKinds id (pending.flatMap fun b => b.batch.calls) = []) →
      find documentId (changedItems (start.pushAll pending).changes) = none := by
    intro hnone
    refine find_changedItems_eq_none.2 fun id hid => ?_
    have hmerged := (hfollowed id).untouched (by rw [hnone id hid]; rfl)
    have hcore : core (itemChanges id (start.pushAll pending).changes) =
        itemChanges id (start.pushAll pending).changes := by
      refine filter_eq_self.2 fun kind hkind => ?_
      obtain ⟨change, -, hchange⟩ := mem_filterMap.1 hkind
      cases change <;> simp only [Change.itemKind, Option.ite_none_right_eq_some,
        reduceCtorEq] at hchange
      all_goals
        obtain ⟨-, hkind'⟩ := hchange
        cases hkind'
        rfl
    rw [← hcore, hmerged]
  -- a message that is there and was called about has its flag set
  have halive : ∀ id, id.toUInt32 = documentId → account'.hasItem id →
      itemKinds id (pending.flatMap fun b => b.batch.calls) ≠ [] →
      find documentId (changedItems (start.pushAll pending).changes) = some true := by
    intro id hid hitem hne
    obtain ⟨kind, hlast, hdelete⟩ := (hfollowed id).ends ((h.after id).trans hitem)
      (by rwa [core_itemKinds])
    have hmem : kind ∈ itemChanges id (start.pushAll pending).changes :=
      mem_of_mem_filter (mem_of_getLast? hlast)
    exact find_changedItems_of_ne_delete hid hmem hdelete
  -- an item that no call is about leaves its message alone
  have hquiet : ∀ id, id.toUInt32 = documentId → account'.hasItem id →
      itemKinds id (pending.flatMap fun b => b.batch.calls) = [] →
      ∀ id', id'.toUInt32 = documentId →
        itemKinds id' (pending.flatMap fun b => b.batch.calls) = [] := by
    intro id hid hitem hnil id' hid'
    have hbefore : account.hasItem id := by
      rw [← hitem, ← h.after id, hnil]
      rfl
    exact h.only id hbefore hnil id' (hid'.trans hid.symm)
  refine ⟨fun hnone => ?_, fun hfalse => ?_⟩
  · by_cases htouched : ∀ id, id.toUInt32 = documentId →
        itemKinds id (pending.flatMap fun b => b.batch.calls) = []
    · exact h.still documentId htouched
    · -- a message that came and went between the two
      have hafter : find documentId account'.messages = none := by
        by_contra hsome
        obtain ⟨id, hid, hitem⟩ := exists_hasItem hsome
        by_cases hnil : itemKinds id (pending.flatMap fun b => b.batch.calls) = []
        · exact htouched (hquiet id hid hitem hnil)
        · rw [halive id hid hitem hnil] at hnone
          cases hnone
      have hbefore : find documentId account.messages = none := by
        by_contra hsome
        obtain ⟨id, hid, hitem⟩ := exists_hasItem hsome
        by_cases hnil : itemKinds id (pending.flatMap fun b => b.batch.calls) = []
        · exact htouched fun id' hid' => h.only id hitem hnil id' (hid'.trans hid.symm)
        · have hrecorded := (hfollowed id).recorded hitem (by rwa [core_itemKinds])
          rw [find_changedItems_eq_none.1 hnone id hid] at hrecorded
          rcases hrecorded with hmem | hmem <;> cases hmem
      rw [hafter, hbefore]
  · by_contra hsome
    obtain ⟨id, hid, hitem⟩ := exists_hasItem hsome
    by_cases hnil : itemKinds id (pending.flatMap fun b => b.batch.calls) = []
    · rw [hsilent (hquiet id hid hitem hnil)] at hfalse
      cases hfalse
    · rw [halive id hid hitem hnil] at hfalse
      cases hfalse

end

/-! ## Mailboxes -/

/-- What a list of changes says about a mailbox. -/
def containerChanges (id : UInt32) (changes : List Change) : List Kind :=
  changes.filterMap (Change.containerKind id.toUInt64)

theorem containerChanges_append (id : UInt32) (changes : List Change) (change : Change) :
    containerChanges id (changes ++ [change]) =
      containerChanges id changes ++ (change.containerKind id.toUInt64).toList := by
  unfold containerChanges
  rw [filterMap_append, filterMap_cons]
  cases change.containerKind id.toUInt64 <;> rfl

/-- The id of a container fits in 32 bits. -/
def Change.Narrow (change : Change) : Prop :=
  ∀ id : UInt64, id.toUInt32.toUInt64 ≠ id → change.containerKind id = none

/-- **The flag of a mailbox** is that of the last change of it that is not a property update. -/
theorem find_changedContainers {changes : List Change} (hnarrow : ∀ c ∈ changes, Change.Narrow c)
    (id : UInt32) :
    find id (changedContainers changes) =
      (core (containerChanges id changes)).getLast?.map fun kind => decide (kind ≠ .delete) := by
  unfold changedContainers
  induction changes using reverseRecOn with
  | nil => rfl
  | append_singleton changes change ih =>
    have ih := ih fun c hc => hnarrow c (mem_append_left _ hc)
    have hchange := hnarrow change (by simp)
    rw [foldl_append, containerChanges_append, core_append]
    generalize hchanged : changes.foldl noteContainer [] = changed at ih ⊢
    -- a change of the mailbox itself, or of another one
    have hnoted : (∃ i kind, kind ≠ .property ∧
        (∀ j, change.containerKind j = if i = j then some kind else none) ∧
        noteContainer changed change = insert i.toUInt32 (decide (kind ≠ .delete)) changed) ∨
        ((change.containerKind id.toUInt64).toList = [] ∨
          (change.containerKind id.toUInt64).toList = [Kind.property]) ∧
        noteContainer changed change = changed := by
      cases change with
      | insertContainer i => exact .inl ⟨i, .insert, by simp, fun _ => rfl, rfl⟩
      | updateContainer i => exact .inl ⟨i, .update, by simp, fun _ => rfl, rfl⟩
      | deleteContainer i => exact .inl ⟨i, .delete, by simp, fun _ => rfl, rfl⟩
      | updateContainerProperty i =>
        refine .inr ⟨?_, rfl⟩
        change (if i = id.toUInt64 then some Kind.property else none).toList = [] ∨ _
        split_ifs with h
        · exact .inr (congrArg Option.toList (if_pos h))
        · exact .inl rfl
      | insertItem i | updateItem i | deleteItem i => exact .inr ⟨.inl rfl, rfl⟩
    rcases hnoted with ⟨i, kind, hproperty, hkind, hnote⟩ | ⟨hkinds, hnote⟩
    · have hwide : i.toUInt32.toUInt64 = i := by
        by_contra hne
        have hnone := hchange i hne
        rw [hkind, if_pos rfl] at hnone
        cases hnone
      rw [foldl_cons, foldl_nil, hnote, find_insert, hkind]
      by_cases hid : id = i.toUInt32
      · subst hid
        rw [if_pos rfl, if_pos hwide.symm, Option.toList_some, core_singleton hproperty,
          getLast?_concat]
        rfl
      · have hne : i ≠ id.toUInt64 := by
          rintro rfl
          exact hid (by simp)
        rw [if_neg hid, if_neg hne, ih]
        exact congrArg (fun l => (getLast? l).map _) (append_nil _).symm
    · have hcore : core (change.containerKind id.toUInt64).toList = [] := by
        rcases hkinds with hkinds | hkinds <;> rw [hkinds] <;> rfl
      rw [foldl_cons, foldl_nil, hnote, hcore, append_nil, ih]

section

variable {account account' : Account} {pending : List Committed}
  (h : MailboxesFollow account account' (pending.flatMap fun b => b.batch.calls))
  {start : Changelog} (hstart : start.changes = [])
include h hstart

/-- What the merged list says about a mailbox follows the calls about it. -/
theorem followed_mailboxes : (∀ id, Followed (account.hasMailbox id)
      (mailboxKinds id (pending.flatMap fun b => b.batch.calls))
      (containerChanges id (start.pushAll pending).changes)) ∧
    ∀ c ∈ (start.pushAll pending).changes, Change.Narrow c := by
  constructor
  · intro id
    have hkinds : ∀ calls : List LogCall,
        calls.filterMap (LogCall.kindOf true id.toUInt64) =
          calls.filterMap (LogCall.containerKind id) := by
      intro calls
      refine congrArg (fun f => calls.filterMap f) (funext fun call => ?_)
      change (if id.toUInt64.toUInt32.toUInt64 = id.toUInt64 then _ else none) = _
      rw [UInt32.toUInt32_toUInt64, if_pos rfl]
    have hflatten : (callsOf true id.toUInt64 pending).flatten =
        mailboxKinds id (pending.flatMap fun b => b.batch.calls) := by
      unfold mailboxKinds callsOf
      rw [filterMap_flatMap]
      exact congrArg (fun f => pending.flatMap f) (funext fun b => hkinds b.batch.calls)
    have hmerged := kinds_pushAll true id.toUInt64 pending start
    rw [hstart] at hmerged
    have hfollowed : Followed (account.hasMailbox id) (callsOf true id.toUInt64 pending).flatten
        (mergedKinds [] (callsOf true id.toUInt64 pending)) := by
      refine followed_mergedKinds ?_
      rw [hflatten]
      exact h.legal id
    rw [hflatten] at hfollowed
    have hchanges : containerChanges id (start.pushAll pending).changes = _ := hmerged
    rw [hchanges]
    exact hfollowed
  · intro c hc id hwide
    have hmerged := kinds_pushAll true id pending start
    have hnone : ∀ kinds ∈ callsOf true id pending, kinds = [] := by
      intro kinds hkinds
      obtain ⟨b, -, rfl⟩ := mem_map.1 hkinds
      refine filterMap_eq_nil_iff.2 fun call _ => ?_
      change (if id.toUInt32.toUInt64 = id then _ else none) = none
      exact if_neg hwide
    have hempty : mergedKinds [] (callsOf true id pending) = [] := by
      generalize callsOf true id pending = batches at hnone
      induction batches with
      | nil => rfl
      | cons batch batches ih =>
        rw [hnone batch (by simp)]
        exact ih fun kinds hkinds => hnone kinds (by simp [hkinds])
    rw [hstart, filterMap_nil, hempty] at hmerged
    exact filterMap_eq_nil_iff.1 hmerged c hc

/-- **The map of the changed mailboxes**, against what the mailboxes have become. -/
theorem changedContainers_spec (id : UInt32) :
    (find id (changedContainers (start.pushAll pending).changes) = none →
      find id account'.mailboxes = find id account.mailboxes) ∧
    (find id (changedContainers (start.pushAll pending).changes) = some false →
      find id account'.mailboxes = none) := by
  obtain ⟨hfollowed, hnarrow⟩ := followed_mailboxes h hstart
  rw [find_changedContainers hnarrow id]
  have hhas : ∀ {account : Account}, account.hasMailbox id = false →
      find id account.mailboxes = none := fun hno =>
    Option.isNone_iff_eq_none.1 (Option.isSome_eq_false_iff.1 hno)
  refine ⟨fun hnone => ?_, fun hfalse => ?_⟩
  · rw [Option.map_eq_none_iff, getLast?_eq_none_iff] at hnone
    by_cases hcalls : core (mailboxKinds id (pending.flatMap fun b => b.batch.calls)) = []
    · exact h.still id hcalls
    · have hbefore : account.hasMailbox id = false := by
        refine Bool.eq_false_iff.2 fun hexisted => ?_
        rcases (hfollowed id).recorded hexisted hcalls with hmem | hmem
        · have hcore : Kind.delete ∈ core (containerChanges id (start.pushAll pending).changes) :=
            mem_filter.2 ⟨hmem, by simp⟩
          rw [hnone] at hcore
          cases hcore
        · have hcore : Kind.update ∈ core (containerChanges id (start.pushAll pending).changes) :=
            mem_filter.2 ⟨hmem, by simp⟩
          rw [hnone] at hcore
          cases hcore
      have hafter : account'.hasMailbox id = false := by
        refine Bool.eq_false_iff.2 fun halive => ?_
        obtain ⟨kind, hlast, -⟩ := (hfollowed id).ends ((h.after id).trans halive) hcalls
        rw [hnone] at hlast
        cases hlast
      rw [hhas hbefore, hhas hafter]
  · obtain ⟨kind, hlast, hkind⟩ := Option.map_eq_some_iff.1 hfalse
    have hdelete : kind = .delete := by simpa using hkind
    subst hdelete
    refine hhas (Bool.eq_false_iff.2 fun halive => ?_)
    by_cases hcalls : core (mailboxKinds id (pending.flatMap fun b => b.batch.calls)) = []
    · rw [(hfollowed id).untouched hcalls] at hlast
      cases hlast
    · obtain ⟨kind, hlast', hne⟩ := (hfollowed id).ends ((h.after id).trans halive) hcalls
      exact hne (Option.some.inj (hlast'.symm.trans hlast))

end

end MailServer.Cache
