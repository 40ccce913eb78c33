import MailServer.Store.NetChange

/-!
# Reading the change log

`Store::changes` (`store/src/query/log.rs`) iterates over the log of a collection, from the oldest
entry of a range to the newest, and merges the entries into one list of changes.

Principal results: `readEntries_committed`, `reread`.
-/

namespace MailServer.Store

open List

/-! ## The iteration -/

/-- A key of the log of a collection, and its value. -/
structure LogEntry where
  changeId : ℕ
  value : List UInt8
deriving DecidableEq

inductive Query where
  | all
  | since (changeId : ℕ)
  | sinceInclusive (changeId : ℕ)
  | rangeInclusive (fromChangeId toChangeId : ℕ)

/-- `is_inclusive`, `from_change_id` and `to_change_id`. -/
def Query.bounds : Query → Bool × ℕ × ℕ
  | .all => (true, 0, 2 ^ 64 - 1)
  | .since changeId => (false, changeId, 2 ^ 64 - 1)
  | .sinceInclusive changeId => (true, changeId, 2 ^ 64 - 1)
  | .rangeInclusive fromChangeId toChangeId => (true, fromChangeId, toChangeId)

/-- The `Changes` of `store/src/query/log.rs`. -/
structure Changelog where
  changes : List Change
  fromChangeId : ℕ
  toChangeId : ℕ
  containerChangeId : Option ℕ
  itemChangeId : Option ℕ
  isTruncated : Bool

variable {isContainer : Bool} {changelog : Changelog}

/-- `Changes::default` -/
def Changelog.empty : Changelog := ⟨[], 0, 0, none, none, false⟩

/-- One entry of the iteration; `none` is a corrupted entry. -/
def readEntry (isShareLog isInclusive : Bool) (fromChangeId : ℕ) (changelog : Changelog)
    (entry : LogEntry) : Option Changelog :=
  if isInclusive || entry.changeId != fromChangeId then
    if entry.value.isEmpty then some { changelog with isTruncated := true }
    else
      let changelog := { changelog with
        fromChangeId :=
          if changelog.changes.isEmpty then entry.changeId else changelog.fromChangeId
        toChangeId := entry.changeId }
      if !isShareLog then do
        let ((hasContainerChanges, hasItemChanges), changes) ←
          deserialize changelog.changes entry.value
        some { changelog with
          changes := changes
          containerChangeId :=
            if hasContainerChanges then some entry.changeId else changelog.containerChangeId
          itemChangeId := if hasItemChanges then some entry.changeId else changelog.itemChangeId }
      else
        some { changelog with
          changes := changelog.changes ++ [.insertItem (UInt64.ofNat entry.changeId)] }
  else
    some { changelog with fromChangeId := entry.changeId, toChangeId := entry.changeId }

/-- `Store::changes`; the entries of the log are in ascending order. -/
def changesSince (isShareLog : Bool) (log : List LogEntry) (query : Query) : Option Changelog :=
  let (isInclusive, fromChangeId, toChangeId) := query.bounds
  (log.filter fun entry => fromChangeId ≤ entry.changeId && entry.changeId ≤ toChangeId).foldlM
    (readEntry isShareLog isInclusive fromChangeId) .empty

def Change.isContainerChange : Change → Bool
  | .insertContainer _ | .updateContainer _ | .updateContainerProperty _ | .deleteContainer _ =>
    true
  | _ => false

def Change.isItemChange : Change → Bool
  | .insertItem _ | .updateItem _ | .deleteItem _ => true
  | _ => false

def Changelog.totalContainerChanges (changelog : Changelog) : ℕ :=
  (changelog.changes.filter Change.isContainerChange).length

def Changelog.totalItemChanges (changelog : Changelog) : ℕ :=
  (changelog.changes.filter Change.isItemChange).length

def lastChangeId (log : List LogEntry) : Option ℕ := (log.getLast?).map LogEntry.changeId

/-! ## Batches in the log -/

/-- A batch that was written under a change id. -/
structure Committed where
  changeId : ℕ
  batch : Batch

variable {bs : List Committed}

def Committed.entry (b : Committed) : LogEntry := ⟨b.changeId, b.batch.bytes⟩

@[simp] theorem Committed.entry_changeId (b : Committed) : b.entry.changeId = b.changeId := rfl

theorem Batch.bytes_ne_nil (b : Batch) : b.bytes ≠ [] := by
  intro h
  have hread := deserialize_serialize (Changes.build b.calls) b.order []
  change deserialize [] b.bytes = _ at hread
  rw [h] at hread
  cases hread

/-- What a batch adds to a changelog. -/
def Changelog.push (changelog : Changelog) (b : Committed) : Changelog where
  changes := mergeOrder b.batch.order changelog.changes
  fromChangeId := if changelog.changes.isEmpty then b.changeId else changelog.fromChangeId
  toChangeId := b.changeId
  containerChangeId :=
    if b.batch.order.flags.1 then some b.changeId else changelog.containerChangeId
  itemChangeId := if b.batch.order.flags.2 then some b.changeId else changelog.itemChangeId
  isTruncated := changelog.isTruncated

theorem readEntry_committed {isInclusive : Bool} {fromChangeId : ℕ} (changelog : Changelog)
    {b : Committed} (h : isInclusive ∨ b.changeId ≠ fromChangeId) :
    readEntry false isInclusive fromChangeId changelog b.entry = some (changelog.push b) := by
  have hincluded : (isInclusive || b.entry.changeId != fromChangeId) := by
    rcases h with h | h
    · simp [h]
    · simp [h]
  have hvalue : b.entry.value.isEmpty = false := by
    rw [isEmpty_eq_false_iff]
    exact b.batch.bytes_ne_nil
  unfold readEntry
  rw [hincluded, hvalue]
  have hread : deserialize changelog.changes b.entry.value =
      some (b.batch.order.flags, mergeOrder b.batch.order changelog.changes) :=
    deserialize_serialize (Changes.build b.batch.calls) b.batch.order changelog.changes
  simp only [hread]
  rfl

/-- The changelog after a sequence of batches. -/
def Changelog.pushAll (changelog : Changelog) (bs : List Committed) : Changelog :=
  bs.foldl Changelog.push changelog

theorem Changelog.pushAll_append (changelog : Changelog) (bs bs' : List Committed) :
    changelog.pushAll (bs ++ bs') = (changelog.pushAll bs).pushAll bs' :=
  foldl_append

/-- **Reading what batches wrote.** -/
theorem readEntries_committed {isInclusive : Bool} {fromChangeId : ℕ}
    (h : ∀ b ∈ bs, isInclusive ∨ b.changeId ≠ fromChangeId) (changelog : Changelog) :
    (bs.map Committed.entry).foldlM (readEntry false isInclusive fromChangeId) changelog =
      some (changelog.pushAll bs) := by
  induction bs generalizing changelog with
  | nil => rfl
  | cons b bs ih =>
    rw [map_cons, foldlM_cons, readEntry_committed changelog (h b (by simp))]
    exact ih (fun b' hb' => h b' (by simp [hb'])) _

theorem Changelog.pushAll_isTruncated (changelog : Changelog) (bs : List Committed) :
    (changelog.pushAll bs).isTruncated = changelog.isTruncated := by
  induction bs generalizing changelog with
  | nil => rfl
  | cons b bs ih => exact ih (changelog.push b)

/-! ## Containers and items -/

/-- Whether the change is about a container, or about an item. -/
def Change.concerns (isContainer : Bool) (change : Change) : Bool :=
  (isContainer && change.isContainerChange) || (!isContainer && change.isItemChange)

/-- Whether the batch has changes of containers, or of items. -/
def Committed.concerns (isContainer : Bool) (b : Committed) : Bool :=
  if isContainer then b.batch.order.flags.1 else b.batch.order.flags.2

def Changelog.changeId (isContainer : Bool) (changelog : Changelog) : Option ℕ :=
  if isContainer then changelog.containerChangeId else changelog.itemChangeId

section Concerns

variable (i : UInt64) (isPropertyChange : Bool) (changes : List Change)

theorem filter_updateContainer :
    (updateContainer i isPropertyChange changes).filter (Change.concerns false) =
      changes.filter (Change.concerns false) := by
  induction changes with
  | nil => cases isPropertyChange <;> rfl
  | cons change changes ih =>
    rw [updateContainer]
    cases isPropertyChange <;> split_ifs <;>
      simp_all [Change.concerns, Change.isItemChange, filter_cons]

theorem filter_deleteContainer :
    (deleteContainer i changes).filter (Change.concerns false) =
      changes.filter (Change.concerns false) := by
  induction changes with
  | nil => rfl
  | cons change changes ih =>
    rw [deleteContainer]
    split_ifs <;> simp_all [Change.concerns, Change.isItemChange, filter_cons]

theorem filter_updateItem :
    (updateItem i changes).filter (Change.concerns true) =
      changes.filter (Change.concerns true) := by
  induction changes with
  | nil => rfl
  | cons change changes ih =>
    rw [updateItem]
    split_ifs <;> simp_all [Change.concerns, Change.isContainerChange, filter_cons]

theorem filter_deleteItem :
    (deleteItem i changes).filter (Change.concerns true) =
      changes.filter (Change.concerns true) := by
  induction changes with
  | nil => rfl
  | cons change changes ih =>
    rw [deleteItem]
    split_ifs <;> simp_all [Change.concerns, Change.isContainerChange, filter_cons]

end Concerns

theorem filter_mergeIds {merge} {p}
    (hmerge : ∀ i changes, (merge i changes).filter p = changes.filter p) :
    ∀ ids changes,
      (mergeIds merge ids changes).filter p = changes.filter p
  | [], _ => rfl
  | i :: ids, changes => by
    rw [mergeIds, foldl_cons, ← mergeIds, filter_mergeIds hmerge ids, hmerge]

/-- **A batch without changes of containers** leaves those of the list alone, and so with items. -/
theorem filter_mergeOrder {b : Committed}
    (h : b.concerns isContainer = false) (changes : List Change) :
    (mergeOrder b.batch.order changes).filter (Change.concerns isContainer) =
      changes.filter (Change.concerns isContainer) := by
  unfold Committed.concerns at h
  generalize b.batch.order = o at h ⊢
  unfold mergeOrder
  cases isContainer with
  | true =>
    have hnone : ¬ (o.containerInserts.ids.length + o.containerUpdates.ids.length +
        o.containerPropertyChanges.ids.length + o.containerDeletes.ids.length > 0) :=
      of_decide_eq_false h
    have hinserts : o.containerInserts.ids = [] := eq_nil_of_length_eq_zero (by omega)
    have hupdates : o.containerUpdates.ids = [] := eq_nil_of_length_eq_zero (by omega)
    have hproperties : o.containerPropertyChanges.ids = [] :=
      eq_nil_of_length_eq_zero (by omega)
    have hdeletes : o.containerDeletes.ids = [] := eq_nil_of_length_eq_zero (by omega)
    have hitem : ∀ i changes,
        (changes ++ [Change.insertItem i]).filter (Change.concerns true) =
          changes.filter (Change.concerns true) := by
      intro i changes
      simp [Change.concerns, Change.isContainerChange]
    rw [filter_mergeIds filter_deleteItem, filter_mergeIds filter_updateItem,
      filter_mergeIds hitem, hinserts, hupdates, hproperties, hdeletes]
    rfl
  | false =>
    have hnone : ¬ (o.itemInserts.ids.length + o.itemUpdates.ids.length +
        o.itemDeletes.ids.length > 0) := of_decide_eq_false h
    have hinserts : o.itemInserts.ids = [] := eq_nil_of_length_eq_zero (by omega)
    have hupdates : o.itemUpdates.ids = [] := eq_nil_of_length_eq_zero (by omega)
    have hdeletes : o.itemDeletes.ids = [] := eq_nil_of_length_eq_zero (by omega)
    have hcontainer : ∀ i changes,
        (changes ++ [Change.insertContainer i]).filter (Change.concerns false) =
          changes.filter (Change.concerns false) := by
      intro i changes
      simp [Change.concerns, Change.isItemChange]
    rw [hinserts, hupdates, hdeletes]
    change (mergeIds deleteContainer _ _).filter _ = _
    rw [filter_mergeIds filter_deleteContainer,
      filter_mergeIds fun i changes => filter_updateContainer i true changes,
      filter_mergeIds fun i changes => filter_updateContainer i false changes,
      filter_mergeIds hcontainer]

/-! ## The change ids of a reading -/

def Changelog.relevant (isContainer : Bool) (changelog : Changelog) : List Change :=
  changelog.changes.filter (Change.concerns isContainer)

theorem Changelog.relevant_pushAll
    (h : ∀ b ∈ bs, b.concerns isContainer = false) (changelog : Changelog) :
    (changelog.pushAll bs).relevant isContainer = changelog.relevant isContainer := by
  induction bs generalizing changelog with
  | nil => rfl
  | cons b bs ih =>
    exact (ih (fun b' hb' => h b' (by simp [hb'])) (changelog.push b)).trans
      (filter_mergeOrder (h b (by simp)) changelog.changes)

theorem Changelog.changeId_push (isContainer : Bool) (changelog : Changelog) (b : Committed) :
    (changelog.push b).changeId isContainer =
      if b.concerns isContainer then some b.changeId else changelog.changeId isContainer := by
  cases isContainer <;> rfl

theorem Changelog.changeId_pushAll_none (h : (changelog.pushAll bs).changeId isContainer = none) :
    ∀ b ∈ bs, b.concerns isContainer = false := by
  induction bs using reverseRecOn with
  | nil => exact nofun
  | append_singleton bs b ih =>
    rw [pushAll_append] at h
    change ((changelog.pushAll bs).push b).changeId isContainer = none at h
    rw [changeId_push] at h
    cases hb : b.concerns isContainer with
    | true =>
      rw [hb] at h
      cases h
    | false =>
      rw [hb] at h
      intro b' hmem
      rcases mem_append.1 hmem with hmem | hmem
      · exact ih h b' hmem
      · rw [mem_singleton.1 hmem, hb]

/-- **The last change id** is that of the last batch with changes that are asked for. -/
theorem Changelog.changeId_pushAll_some
    {changelog : Changelog} {changeId : ℕ} (hnone : changelog.changeId isContainer = none)
    (h : (changelog.pushAll bs).changeId isContainer = some changeId) :
    ∃ before b after, bs = before ++ b :: after ∧ b.changeId = changeId ∧
      b.concerns isContainer ∧ ∀ b' ∈ after, b'.concerns isContainer = false := by
  induction bs using reverseRecOn with
  | nil =>
    rw [show changelog.pushAll [] = changelog from rfl, hnone] at h
    cases h
  | append_singleton bs b ih =>
    rw [pushAll_append] at h
    change ((changelog.pushAll bs).push b).changeId isContainer = _ at h
    rw [changeId_push] at h
    cases hb : b.concerns isContainer with
    | true =>
      rw [hb] at h
      exact ⟨bs, b, [], rfl, Option.some.inj h, hb, nofun⟩
    | false =>
      rw [hb] at h
      obtain ⟨before, b₁, after, rfl, hid, hconcerns, hafter⟩ := ih h
      refine ⟨before, b₁, after ++ [b], by simp, hid, hconcerns, fun b' hb' => ?_⟩
      rcases mem_append.1 hb' with hb' | hb'
      · exact hafter b' hb'
      · rw [mem_singleton.1 hb', hb]

/-- **The first change id** is that of the last batch before which there were no changes, also when
the reading ends early. -/
theorem Changelog.exists_fromChangeId (hne : bs ≠ []) (hnil : changelog.changes = []) :
    ∃ before b after, bs = before ++ b :: after ∧ (changelog.pushAll before).changes = [] ∧
      ∀ first second, after = first ++ second →
        (changelog.pushAll (before ++ b :: first)).fromChangeId = b.changeId := by
  induction bs using reverseRecOn with
  | nil => cases hne rfl
  | append_singleton bs b ih =>
    by_cases hempty : (changelog.pushAll bs).changes = []
    · refine ⟨bs, b, [], rfl, hempty, fun first second hsplit => ?_⟩
      obtain ⟨rfl, rfl⟩ := append_eq_nil_iff.1 hsplit.symm
      rw [pushAll_append]
      change (if (changelog.pushAll bs).changes.isEmpty then _ else _) = _
      rw [hempty]
      rfl
    · have hbs : bs ≠ [] := by
        rintro rfl
        exact hempty hnil
      obtain ⟨before, b₁, after, rfl, hbefore, hfrom⟩ := ih hbs
      refine ⟨before, b₁, after ++ [b], by simp, hbefore, fun first second hsplit => ?_⟩
      rcases eq_nil_or_concat second with rfl | ⟨second, b₂, rfl⟩
      · rw [append_nil] at hsplit
        have hall := hfrom after [] (append_nil _).symm
        rw [← hsplit, ← cons_append, ← append_assoc, pushAll_append]
        change (if (changelog.pushAll (before ++ b₁ :: after)).changes.isEmpty then _ else _) = _
        rw [if_neg (by simpa using hempty)]
        exact hall
      · rw [concat_eq_append, ← append_assoc] at hsplit
        exact hfrom first second (append_inj_left' hsplit rfl)

theorem Changelog.pushAll_cons_congr {changelog changelog' : Changelog}
    (h : changelog.changes = []) (h' : changelog'.changes = []) (b : Committed)
    (bs : List Committed) :
    (changelog.pushAll (b :: bs)).changes = (changelog'.pushAll (b :: bs)).changes ∧
      (changelog.pushAll (b :: bs)).fromChangeId = (changelog'.pushAll (b :: bs)).fromChangeId := by
  induction bs using reverseRecOn with
  | nil =>
    change mergeOrder _ changelog.changes = mergeOrder _ changelog'.changes ∧
      (if changelog.changes.isEmpty then _ else _) = (if changelog'.changes.isEmpty then _ else _)
    rw [h, h']
    exact ⟨rfl, rfl⟩
  | append_singleton bs b' ih =>
    rw [← cons_append, pushAll_append, pushAll_append]
    change mergeOrder _ (changelog.pushAll (b :: bs)).changes =
        mergeOrder _ (changelog'.pushAll (b :: bs)).changes ∧
      (if (changelog.pushAll (b :: bs)).changes.isEmpty then _ else _) =
        (if (changelog'.pushAll (b :: bs)).changes.isEmpty then _ else _)
    rw [ih.1, ih.2]
    exact ⟨rfl, rfl⟩

theorem filter_between {before mid after : List Committed} {lo hi : ℕ}
    (hbefore : ∀ b ∈ before, b.changeId < lo) (hafter : ∀ b ∈ after, hi < b.changeId)
    (hmid : ∀ b ∈ mid, lo ≤ b.changeId ∧ b.changeId ≤ hi) :
    (before ++ mid ++ after).filter (fun b => lo ≤ b.changeId && b.changeId ≤ hi) = mid := by
  rw [filter_append, filter_append, filter_eq_nil_iff.2, filter_eq_self.2,
    filter_eq_nil_iff.2, nil_append, append_nil]
  · intro b hb
    have h := hafter b hb
    simp only [Bool.and_eq_true, decide_eq_true_eq]
    omega
  · intro b hb
    have h := hmid b hb
    simp only [Bool.and_eq_true, decide_eq_true_eq]
    exact h
  · intro b hb
    have h := hbefore b hb
    simp only [Bool.and_eq_true, decide_eq_true_eq]
    omega

/-- **Reading a part again**: what lies between the first and the last change id of a reading gives
the same changes and change ids. -/
theorem reread (hsorted : bs.Pairwise fun b b' => b.changeId < b'.changeId) {start : Changelog}
    (hstart : start.changes = []) (hnone : start.changeId isContainer = none)
    (hrelevant : (start.pushAll bs).relevant isContainer ≠ []) {toId : ℕ}
    (htoId : (start.pushAll bs).changeId isContainer = some toId) :
    ∃ before mid after, bs = before ++ mid ++ after ∧
      bs.filter (fun b => (start.pushAll bs).fromChangeId ≤ b.changeId && b.changeId ≤ toId) =
        mid ∧
      (Changelog.empty.pushAll mid).relevant isContainer =
        (start.pushAll bs).relevant isContainer ∧
      (Changelog.empty.pushAll mid).fromChangeId = (start.pushAll bs).fromChangeId ∧
      (Changelog.empty.pushAll mid).changeId isContainer = some toId := by
  have hne : bs ≠ [] := by
    rintro rfl
    rw [show start.pushAll [] = start from rfl, hnone] at htoId
    cases htoId
  obtain ⟨before, b, rest, hbs, hbefore, hfrom⟩ := Changelog.exists_fromChangeId hne hstart
  obtain ⟨first, e, after, hbs', rfl, hconcerns, hafter⟩ :=
    Changelog.changeId_pushAll_some hnone htoId
  have hfromId : (start.pushAll bs).fromChangeId = b.changeId := by
    rw [hbs]
    exact hfrom rest [] (append_nil _).symm
  -- the last batch with changes that are asked for is not before the first change id
  obtain ⟨upto, -, hmid⟩ : ∃ upto, first = before ++ upto ∧ b :: rest = upto ++ e :: after := by
    rcases append_eq_append_iff.1 (hbs.symm.trans hbs') with ⟨upto, h, h'⟩ | ⟨mid, h, h'⟩
    · exact ⟨upto, h, h'⟩
    · cases mid with
      | nil => exact ⟨[], by simpa using h.symm, by simpa using h'.symm⟩
      | cons e' mid =>
        obtain ⟨rfl, htail⟩ := cons.inj h'
        refine absurd ?_ hrelevant
        rw [hbs, Changelog.pushAll_append, Changelog.relevant_pushAll]
        · unfold Changelog.relevant
          rw [hbefore]
          rfl
        · intro b' hb'
          exact hafter b' (by rw [htail]; exact mem_append_right _ hb')
  have hmid' : ∃ mid, upto ++ [e] = b :: mid ∧ rest = mid ++ after := by
    cases upto with
    | nil =>
      obtain ⟨rfl, rfl⟩ := cons.inj hmid
      exact ⟨[], rfl, rfl⟩
    | cons b' upto =>
      obtain ⟨rfl, rfl⟩ := cons.inj hmid
      exact ⟨upto ++ [e], rfl, by simp⟩
  obtain ⟨mid, hupto, hrest⟩ := hmid'
  have hsplit : bs = before ++ (b :: mid) ++ after := by
    rw [hbs, hrest, append_assoc, cons_append]
  have hempty : Changelog.empty.changes = [] := rfl
  have hcongr := Changelog.pushAll_cons_congr hempty hbefore b mid
  refine ⟨before, b :: mid, after, hsplit, ?_, ?_, ?_, ?_⟩
  · rw [hsplit] at hsorted
    obtain ⟨hinit, -, hcross⟩ := pairwise_append.1 hsorted
    obtain ⟨-, hmids, hcross'⟩ := pairwise_append.1 hinit
    rw [hfromId]
    rw [hsplit]
    refine filter_between (fun b' hb' => hcross' b' hb' b (by simp))
      (fun b' hb' => hcross e ?_ b' hb') fun b' hb' => ⟨?_, ?_⟩
    · rw [← hupto]
      simp
    · rcases mem_cons.1 hb' with rfl | hmem
      · exact Nat.le_refl _
      · exact Nat.le_of_lt ((pairwise_cons.1 hmids).1 b' hmem)
    · rw [← hupto] at hmids hb'
      rcases mem_append.1 hb' with hmem | hmem
      · exact Nat.le_of_lt ((pairwise_append.1 hmids).2.2 b' hmem e (by simp))
      · rw [mem_singleton.1 hmem]
  · have hrel : (start.pushAll bs).relevant isContainer =
        ((start.pushAll before).pushAll (b :: mid)).relevant isContainer := by
      rw [hsplit, Changelog.pushAll_append, Changelog.relevant_pushAll hafter,
        Changelog.pushAll_append]
    rw [hrel]
    unfold Changelog.relevant
    rw [hcongr.1]
  · rw [hcongr.2, ← Changelog.pushAll_append, hfrom mid after hrest, hfromId]
  · rw [← hupto, Changelog.pushAll_append]
    change ((Changelog.empty.pushAll upto).push e).changeId isContainer = _
    rw [Changelog.changeId_push, hconcerns]
    rfl

end MailServer.Store
