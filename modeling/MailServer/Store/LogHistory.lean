import MailServer.Store.LogQuery

/-!
# The log of a collection and what it has been

A log holds the batches of a collection from some batch on: `delete_changes`
(`common/src/core.rs`) removes the oldest entries and leaves an empty one in place of the last of
them.  A `CollectionLog` is such a log with the batches that it has lost.

Principal results: `changesSince_since`, `changesSince_truncated`, `changesSince_all`,
`changesSince_range`, `kinds_pushAll`, `merged_kinds`.
-/

namespace MailServer.Store

open List

variable {b : Committed}

/-! ## One id -/

variable (isContainer : Bool) (id : UInt64)

/-- A call, seen from a container or from an item. -/
def LogCall.kindOf (call : LogCall) : Option Kind :=
  if isContainer then
    if id.toUInt32.toUInt64 = id then call.containerKind id.toUInt32 else none
  else call.itemKind id

def Change.kindOf (change : Change) : Option Kind :=
  if isContainer then change.containerKind id else change.itemKind id

def callsOf (bs : List Committed) : List (List Kind) :=
  bs.map fun b => b.batch.calls.filterMap (LogCall.kindOf isContainer id)

theorem containerKind_mergeOrder_of_wide {c : Changes} (o : c.Order) {id : UInt64}
    (hid : id.toUInt32.toUInt64 ≠ id) (changes : List Change) :
    (mergeOrder o changes).filterMap (Change.containerKind id) =
      changes.filterMap (Change.containerKind id) := by
  have hnot : ∀ ids : List UInt32, id ∉ ids.map UInt32.toUInt64 := by
    intro ids hmem
    obtain ⟨i, -, rfl⟩ := mem_map.1 hmem
    exact hid (by simp)
  rw [containerKind_mergeOrder_wide]
  simp only [hnot]
  rfl

/-- **A batch, seen from an id.** -/
theorem kindOf_mergeOrder (b : Batch) (changes : List Change) :
    (mergeOrder b.order changes).filterMap (Change.kindOf isContainer id) =
      batchStep (kindSets (b.calls.filterMap (LogCall.kindOf isContainer id)))
        (changes.filterMap (Change.kindOf isContainer id)) := by
  cases isContainer with
  | false =>
    change (mergeOrder b.order changes).filterMap (Change.itemKind id) =
      batchStep (kindSets (b.calls.filterMap (LogCall.itemKind id)))
        (changes.filterMap (Change.itemKind id))
    rw [itemKind_mergeOrder, itemSets_build]
  | true =>
    change (mergeOrder b.order changes).filterMap (Change.containerKind id) =
      batchStep _ (changes.filterMap (Change.containerKind id))
    by_cases hid : id.toUInt32.toUInt64 = id
    · have hkinds : b.calls.filterMap (LogCall.kindOf true id) =
          b.calls.filterMap (LogCall.containerKind id.toUInt32) := by
        refine congrArg (fun f => b.calls.filterMap f) (funext fun call => ?_)
        change (if id.toUInt32.toUInt64 = id then _ else none) = _
        rw [if_pos hid]
      have hstep := containerKind_mergeOrder b.order id.toUInt32 changes
      rw [hid] at hstep
      rw [hkinds, hstep, containerSets_build]
    · have hkinds : b.calls.filterMap (LogCall.kindOf true id) = [] := by
        refine filterMap_eq_nil_iff.2 fun call _ => ?_
        change (if id.toUInt32.toUInt64 = id then _ else none) = none
        rw [if_neg hid]
      rw [hkinds, containerKind_mergeOrder_of_wide b.order hid]
      exact (batchStep_nil _).symm

/-- **The merged list, seen from an id.** -/
theorem kinds_pushAll (bs : List Committed) (changelog : Changelog) :
    (changelog.pushAll bs).changes.filterMap (Change.kindOf isContainer id) =
      mergedKinds (changelog.changes.filterMap (Change.kindOf isContainer id))
        (callsOf isContainer id bs) := by
  induction bs generalizing changelog with
  | nil => rfl
  | cons b bs ih =>
    change ((changelog.push b).pushAll bs).changes.filterMap _ = _
    have hpush : (changelog.push b).changes.filterMap (Change.kindOf isContainer id) = _ :=
      kindOf_mergeOrder isContainer id b.batch changelog.changes
    rw [ih, hpush]
    rfl

theorem kinds_relevant (changelog : Changelog) :
    (changelog.relevant isContainer).filterMap (Change.kindOf isContainer id) =
      changelog.changes.filterMap (Change.kindOf isContainer id) := by
  unfold Changelog.relevant
  rw [filterMap_filter]
  refine congrArg (fun f => changelog.changes.filterMap f) (funext fun change => ?_)
  cases isContainer <;> cases change <;> rfl

/-- **What became of an id**: the merged list inserts it if it is new, and deletes it if it is gone.
-/
theorem merged_kinds {existed : Bool} {batches}
    (hlife : LegalLife existed batches) :
    (Kind.insert ∈ mergedKinds [] batches ↔
        existed = false ∧ aliveAfter existed batches.flatten) ∧
      (Kind.delete ∈ mergedKinds [] batches ↔
        existed ∧ aliveAfter existed batches.flatten = false) ∧
      (mergedKinds [] batches = [] ↔ batches.flatten = [] ∨
        (existed = false ∧ aliveAfter existed batches.flatten = false)) := by
  by_cases hdeletes : DeletesPropertyIn existed batches
  · obtain ⟨hmerged, hnet⟩ := mergedKinds_deletesProperty hlife hdeletes
    obtain ⟨-, -, -, -, rfl, -⟩ := hdeletes
    have hdead : aliveAfter true batches.flatten = false := by
      by_contra halive
      rw [Bool.not_eq_false] at halive
      rw [net_alive halive] at hnet
      split_ifs at hnet
      · cases hnet
      · cases hnet
    have hne : batches.flatten ≠ [] := by
      intro h
      rw [h] at hdead
      cases hdead
    rw [hmerged, hdead]
    simpa using hne
  · rw [(mergedKinds_eq_net_iff hlife).2 hdeletes]
    cases existed with
    | false =>
      rw [net_new]
      cases halive : aliveAfter false batches.flatten with
      | false => simp
      | true =>
        have hne : batches.flatten ≠ [] := by
          intro h
          rw [h] at halive
          cases halive
        simpa using hne
    | true =>
      cases halive : aliveAfter true batches.flatten with
      | false =>
        rw [net_dead halive]
        have hne : batches.flatten ≠ [] := by
          intro h
          rw [h] at halive
          cases halive
        simpa using hne
      | true =>
        rw [net_alive halive]
        split_ifs with hnil hproperty
        · simpa using hnil
        · simpa using hnil
        · simpa using hnil

theorem length_mergedKinds_le {existed : Bool} {batches}
    (hlife : LegalLife existed batches) (halive : aliveAfter existed batches.flatten) :
    (mergedKinds [] batches).length ≤ 1 := by
  have hsafe : ¬DeletesPropertyIn existed batches := by
    rintro ⟨before, batch, after, hsplit, hdeletes⟩
    obtain ⟨-, hnet⟩ := mergedKinds_deletesProperty hlife ⟨before, batch, after, hsplit, hdeletes⟩
    obtain ⟨hexisted, -⟩ := hdeletes
    subst hexisted
    rw [net_alive halive] at hnet
    split_ifs at hnet
    · cases hnet
    · cases hnet
  rw [(mergedKinds_eq_net_iff hlife).2 hsafe]
  unfold net
  rw [halive]
  cases existed with
  | false => exact Nat.le_refl 1
  | true =>
    split_ifs
    · exact Nat.zero_le 1
    · exact Nat.le_refl 1
    · exact Nat.le_refl 1

/-! ## The log -/

/-- The log of a collection, with all batches ever written to it: their change ids grow, every id
lives a legal life, and what is missing was removed by a truncation. -/
structure CollectionLog where
  history : List Committed
  truncatedAt : Option ℕ
  sorted : history.Pairwise fun b b' => b.changeId < b'.changeId
  positive : ∀ b ∈ history, 0 < b.changeId
  bounded : ∀ b ∈ history, b.changeId ≤ 2 ^ 64 - 1
  truncated : ∀ t, truncatedAt = some t → ∃ b ∈ history, b.changeId = t
  legal : ∀ isContainer id, LegalLife false (callsOf isContainer id history)

namespace CollectionLog

/-- The batches after a change id. -/
def since (l : CollectionLog) (changeId : ℕ) : List Committed :=
  l.history.filter fun b => changeId < b.changeId

/-- The batches up to a change id. -/
def upTo (l : CollectionLog) (changeId : ℕ) : List Committed :=
  l.history.filter fun b => b.changeId ≤ changeId

/-- What is in the store. -/
def entries (l : CollectionLog) : List LogEntry :=
  match l.truncatedAt with
  | none => l.history.map Committed.entry
  | some t => ⟨t, []⟩ :: (l.since t).map Committed.entry

/-- The log still has everything after the change id. -/
def Covers (l : CollectionLog) (changeId : ℕ) : Prop :=
  ∀ t, l.truncatedAt = some t → t ≤ changeId

/-- A change id that the log has given out, or the one before the first. -/
def HasId (l : CollectionLog) (changeId : ℕ) : Prop :=
  changeId = 0 ∨ ∃ b ∈ l.history, b.changeId = changeId

variable (l : CollectionLog)

theorem filter_from_mem {bs : List Committed}
    (hsorted : bs.Pairwise fun b b' => b.changeId < b'.changeId) (hb : b ∈ bs) :
    bs.filter (fun b' => b.changeId ≤ b'.changeId) =
      b :: bs.filter fun b' => b.changeId < b'.changeId := by
  induction bs with
  | nil => cases hb
  | cons b₁ bs ih =>
    obtain ⟨hfirst, hrest⟩ := pairwise_cons.1 hsorted
    rcases mem_cons.1 hb with rfl | hmem
    · rw [filter_cons_of_pos (by simp), filter_cons_of_neg (by simp)]
      refine congrArg _ (filter_congr fun b' hb' => ?_)
      have hlt := hfirst b' hb'
      rw [decide_eq_true (Nat.le_of_lt hlt), decide_eq_true hlt]
    · have hlt := hfirst b hmem
      rw [filter_cons_of_neg (by simpa using hlt),
        filter_cons_of_neg (by simpa using Nat.le_of_lt hlt)]
      exact ih hrest hmem

/-- **The history is what was and what came after.** -/
theorem upTo_append_since (changeId : ℕ) : l.upTo changeId ++ l.since changeId = l.history := by
  have hsorted := l.sorted
  unfold upTo since
  generalize l.history = bs at hsorted
  induction bs with
  | nil => rfl
  | cons b bs ih =>
    obtain ⟨hfirst, hrest⟩ := pairwise_cons.1 hsorted
    by_cases h : b.changeId ≤ changeId
    · rw [filter_cons_of_pos (by simpa using h),
        filter_cons_of_neg (by simpa using h), cons_append, ih hrest]
    · have hnone : bs.filter (fun b => b.changeId ≤ changeId) = [] := by
        refine filter_eq_nil_iff.2 fun b' hb' => ?_
        have hlt := hfirst b' hb'
        simp only [decide_eq_true_eq]
        omega
      have hall : bs.filter (fun b => changeId < b.changeId) = bs := by
        refine filter_eq_self.2 fun b' hb' => ?_
        have hlt := hfirst b' hb'
        simp only [decide_eq_true_eq]
        omega
      rw [filter_cons_of_neg (by simpa using h),
        filter_cons_of_pos (by simpa using h), hnone, hall]
      rfl

theorem filter_entries {lo hi : ℕ} (h : ∀ t, l.truncatedAt = some t → t < lo) :
    l.entries.filter (fun e => lo ≤ e.changeId && e.changeId ≤ hi) =
      (l.history.filter fun b => lo ≤ b.changeId && b.changeId ≤ hi).map Committed.entry := by
  unfold entries
  cases ht : l.truncatedAt with
  | none =>
    rw [filter_map]
    rfl
  | some t =>
    have hlt := h t ht
    rw [filter_cons_of_neg (by simp; omega), filter_map, since, filter_filter]
    refine congrArg _ (filter_congr fun b _ => ?_)
    rw [Bool.eq_iff_iff]
    simp only [Function.comp, Bool.and_eq_true, decide_eq_true_eq]
    simp only [Committed.entry_changeId]
    omega

end CollectionLog

def Changelog.startAt (changeId : ℕ) : Changelog :=
  { Changelog.empty with fromChangeId := changeId, toChangeId := changeId }

namespace CollectionLog

variable (l : CollectionLog)

theorem mem_since {changeId : ℕ} :
    b ∈ l.since changeId ↔ b ∈ l.history ∧ changeId < b.changeId := by
  unfold since
  rw [mem_filter, decide_eq_true_eq]

theorem mem_upTo {changeId : ℕ} :
    b ∈ l.upTo changeId ↔ b ∈ l.history ∧ b.changeId ≤ changeId := by
  unfold upTo
  rw [mem_filter, decide_eq_true_eq]

theorem since_zero : l.since 0 = l.history :=
  filter_eq_self.2 fun b hb => decide_eq_true (l.positive b hb)

/-- The entries from a change id on: the one of this id, and the batches after it. -/
theorem exists_entries_from {changeId : ℕ} (hid : l.HasId changeId) (hcovers : l.Covers changeId) :
    ∃ key, l.entries.filter
        (fun e => changeId ≤ e.changeId && e.changeId ≤ 2 ^ 64 - 1) =
          key ++ (l.since changeId).map Committed.entry ∧
      ((changeId = 0 ∧ key = []) ∨ ∃ e, key = [e] ∧ e.changeId = changeId) := by
  have hbound : l.history.filter (fun b => changeId ≤ b.changeId && b.changeId ≤ 2 ^ 64 - 1) =
      l.history.filter fun b => changeId ≤ b.changeId := by
    refine filter_congr fun b hb => ?_
    rw [decide_eq_true (l.bounded b hb), Bool.and_true]
  by_cases hat : l.truncatedAt = some changeId
  · -- the truncation left an empty entry under this id
    refine ⟨[⟨changeId, []⟩], ?_, .inr ⟨_, rfl, rfl⟩⟩
    obtain ⟨b, hb, hbid⟩ := l.truncated changeId hat
    have hmax := l.bounded b hb
    unfold entries
    rw [hat]
    rw [filter_cons_of_pos (by simp; omega)]
    refine congrArg _ (filter_eq_self.2 fun e he => ?_)
    obtain ⟨b', hb', rfl⟩ := mem_map.1 he
    obtain ⟨hmem, hlt⟩ := l.mem_since.1 hb'
    have hmax' := l.bounded b' hmem
    rw [Bool.and_eq_true, decide_eq_true_eq, decide_eq_true_eq, Committed.entry_changeId]
    omega
  · have hbefore : ∀ t, l.truncatedAt = some t → t < changeId := by
      intro t ht
      refine Nat.lt_of_le_of_ne (hcovers t ht) ?_
      rintro rfl
      exact hat ht
    rw [l.filter_entries hbefore, hbound]
    rcases hid with rfl | ⟨b, hb, rfl⟩
    · refine ⟨[], ?_, .inl ⟨rfl, rfl⟩⟩
      rw [since_zero, filter_eq_self.2 (by simp)]
      rfl
    · refine ⟨[b.entry], ?_, .inr ⟨_, rfl, rfl⟩⟩
      rw [filter_from_mem l.sorted hb]
      rfl

/-- **Reading from a change id that the log covers.** -/
theorem changesSince_since {changeId : ℕ} (hid : l.HasId changeId) (hcovers : l.Covers changeId) :
    changesSince false l.entries (.since changeId) =
      some ((Changelog.startAt changeId).pushAll (l.since changeId)) := by
  obtain ⟨key, hentries, hkey⟩ := l.exists_entries_from hid hcovers
  have hafter : ∀ b ∈ l.since changeId, false ∨ b.changeId ≠ changeId := fun b hb =>
    .inr (Nat.ne_of_gt (l.mem_since.1 hb).2)
  unfold changesSince Query.bounds
  dsimp only
  rw [hentries, foldlM_append]
  rcases hkey with ⟨rfl, rfl⟩ | ⟨e, rfl, rfl⟩
  · exact readEntries_committed hafter _
  · have hread : readEntry false false e.changeId .empty e = some (.startAt e.changeId) := by
      unfold readEntry
      simp only [bne_self_eq_false]
      rfl
    rw [foldlM_cons, hread]
    exact readEntries_committed hafter _

/-- **Reading all of a log** that is whole. -/
theorem changesSince_all (h : l.truncatedAt = none) :
    changesSince false l.entries .all = some (Changelog.empty.pushAll l.history) := by
  have hall : l.history.filter (fun b => 0 ≤ b.changeId && b.changeId ≤ 2 ^ 64 - 1) =
      l.history := by
    refine filter_eq_self.2 fun b hb => ?_
    rw [decide_eq_true (l.bounded b hb)]
    rfl
  unfold changesSince Query.bounds
  dsimp only
  rw [l.filter_entries (fun t ht => by rw [h] at ht; cases ht), hall]
  exact readEntries_committed (fun _ _ => .inl rfl) _

/-- **Reading a range** that lies after the truncation. -/
theorem changesSince_range {fromId toId : ℕ} (h : ∀ t, l.truncatedAt = some t → t < fromId) :
    changesSince false l.entries (.rangeInclusive fromId toId) =
      some (Changelog.empty.pushAll
        (l.history.filter fun b => fromId ≤ b.changeId && b.changeId ≤ toId)) := by
  unfold changesSince Query.bounds
  dsimp only
  rw [l.filter_entries h]
  exact readEntries_committed (fun _ _ => .inl rfl) _

/-- **Reading from a change id that the log has lost**: the truncation is met. -/
theorem changesSince_truncated {changeId t : ℕ} (ht : l.truncatedAt = some t)
    (hlt : changeId < t) :
    ∃ changelog, changesSince false l.entries (.since changeId) = some changelog ∧
      changelog.isTruncated := by
  obtain ⟨b, hb, hbid⟩ := l.truncated t ht
  have hmax := l.bounded b hb
  have hall : ((l.since t).map Committed.entry).filter
      (fun e => changeId ≤ e.changeId && e.changeId ≤ 2 ^ 64 - 1) =
        (l.since t).map Committed.entry := by
    refine filter_eq_self.2 fun e he => ?_
    obtain ⟨b', hb', rfl⟩ := mem_map.1 he
    obtain ⟨hmem, hlt'⟩ := l.mem_since.1 hb'
    have hmax' := l.bounded b' hmem
    rw [Bool.and_eq_true, decide_eq_true_eq, decide_eq_true_eq, Committed.entry_changeId]
    omega
  have hread : readEntry false false changeId .empty ⟨t, []⟩ =
      some { Changelog.empty with isTruncated := true } := by
    have hne : (t != changeId) := by
      simp only [bne_iff_ne]
      omega
    unfold readEntry
    simp only [hne, Bool.or_true, if_true, isEmpty_nil]
  refine ⟨_, ?_, Changelog.pushAll_isTruncated { Changelog.empty with isTruncated := true }
    (l.since t)⟩
  unfold changesSince Query.bounds entries
  rw [ht]
  dsimp only
  rw [filter_cons_of_pos (by simp; omega), hall, foldlM_cons, hread]
  refine readEntries_committed (fun b' hb' => .inr ?_) _
  have hlt' := (l.mem_since.1 hb').2
  omega

/-! ## Objects -/

/-- The object exists after the batches up to a change id. -/
def alive (changeId : ℕ) (id : UInt64) : Bool :=
  aliveAfter false (callsOf isContainer id (l.upTo changeId)).flatten

def objects (changeId : ℕ) : Set UInt64 :=
  {id | l.alive isContainer changeId id = true}

/-- What has been called about an object after a change id and up to another. -/
def callsBetween (fromId toId : ℕ) : List Kind :=
  (callsOf isContainer id ((l.since fromId).filter fun b => b.changeId ≤ toId)).flatten

theorem callsOf_append (bs bs' : List Committed) :
    callsOf isContainer id (bs ++ bs') = callsOf isContainer id bs ++ callsOf isContainer id bs' :=
  map_append

/-- **From a change id on** an object lives a legal life, and it is alive in the end if it is after
what came. -/
theorem legal_since (changeId : ℕ) (id : UInt64) :
    LegalLife (l.alive isContainer changeId id) (callsOf isContainer id (l.since changeId)) ∧
      aliveAfter false (callsOf isContainer id l.history).flatten =
        aliveAfter (l.alive isContainer changeId id)
          (callsOf isContainer id (l.since changeId)).flatten := by
  have hlife := l.legal isContainer id
  rw [← l.upTo_append_since changeId, callsOf_append] at hlife ⊢
  obtain ⟨hlegal, hreinsert⟩ := hlife
  rw [flatten_append] at hlegal ⊢
  exact ⟨⟨((legal_append _ _ _).1 hlegal).2, (pairwise_append.1 hreinsert).2.1⟩,
    aliveAfter_append _ _ _⟩

theorem eq_nil_of_kindSets_empty {kinds : List Kind} (h : kindSets kinds = .empty) :
    kinds = [] := by
  induction kinds using reverseRecOn with
  | nil => rfl
  | append_singleton kinds kind ih =>
    rw [kindSets_append] at h
    generalize kindSets kinds = s at h
    obtain ⟨i, u, p, d⟩ := s
    cases kind with
    | insert =>
      cases d <;> cases h
    | update | property | delete => cases h

/-- **A batch without changes of containers** has no calls about one, and so with items. -/
theorem calls_eq_nil {isContainer : Bool} (h : b.concerns isContainer = false)
    (id : UInt64) : b.batch.calls.filterMap (LogCall.kindOf isContainer id) = [] := by
  obtain ⟨changeId, calls, o⟩ := b
  have hnone : ∀ {α : Type} [DecidableEq α] {set : Finset α} (o : IterOrder set),
      o.ids = [] → ∀ id, contains set id = false := by
    intro α _ set o hids id
    refine Bool.eq_false_iff.2 fun hmem => ?_
    rw [contains_iff, ← o.mem_iff, hids] at hmem
    cases hmem
  cases isContainer with
  | false =>
    have hlengths : ¬ (o.itemInserts.ids.length + o.itemUpdates.ids.length +
        o.itemDeletes.ids.length > 0) := of_decide_eq_false h
    refine eq_nil_of_kindSets_empty ((itemSets_build id calls).symm.trans ?_)
    unfold Changes.itemSets
    rw [hnone o.itemInserts (eq_nil_of_length_eq_zero (by omega)),
      hnone o.itemUpdates (eq_nil_of_length_eq_zero (by omega)),
      hnone o.itemDeletes (eq_nil_of_length_eq_zero (by omega))]
    rfl
  | true =>
    have hlengths : ¬ (o.containerInserts.ids.length + o.containerUpdates.ids.length +
        o.containerPropertyChanges.ids.length + o.containerDeletes.ids.length > 0) :=
      of_decide_eq_false h
    have hkinds : calls.filterMap (LogCall.containerKind id.toUInt32) = [] := by
      refine eq_nil_of_kindSets_empty ((containerSets_build id.toUInt32 calls).symm.trans ?_)
      unfold Changes.containerSets
      rw [hnone o.containerInserts (eq_nil_of_length_eq_zero (by omega)),
        hnone o.containerUpdates (eq_nil_of_length_eq_zero (by omega)),
        hnone o.containerPropertyChanges (eq_nil_of_length_eq_zero (by omega)),
        hnone o.containerDeletes (eq_nil_of_length_eq_zero (by omega))]
      rfl
    rw [filterMap_eq_nil_iff] at hkinds ⊢
    intro call hcall
    unfold LogCall.kindOf
    rw [if_pos rfl]
    split
    · exact hkinds call hcall
    · rfl

theorem callsOf_eq_nil {isContainer : Bool} {bs : List Committed}
    (h : ∀ b ∈ bs, b.concerns isContainer = false) (id : UInt64) :
    (callsOf isContainer id bs).flatten = [] := by
  rw [flatten_eq_nil_iff]
  intro kinds hkinds
  obtain ⟨b, hb, rfl⟩ := mem_map.1 hkinds
  exact calls_eq_nil (h b hb) id

theorem alive_of_last {isContainer : Bool} {changeId : ℕ}
    (h : ∀ b ∈ l.since changeId, b.concerns isContainer = false) (id : UInt64) :
    aliveAfter false (callsOf isContainer id l.history).flatten =
      l.alive isContainer changeId id := by
  rw [(l.legal_since isContainer changeId id).2, callsOf_eq_nil h]
  rfl

/-! ## Growth -/

/-- The other log has more batches, and no other truncation. -/
def Grows (l l' : CollectionLog) : Prop :=
  l'.truncatedAt = l.truncatedAt ∧ ∃ bs, l'.history = l.history ++ bs

theorem Grows.refl : Grows l l := ⟨rfl, [], (append_nil _).symm⟩

theorem Grows.trans {l l' l''} (h : Grows l l') (h' : Grows l' l'') :
    Grows l l'' := by
  obtain ⟨ht, bs, hbs⟩ := h
  obtain ⟨ht', bs', hbs'⟩ := h'
  exact ⟨ht'.trans ht, bs ++ bs', by rw [hbs', hbs, append_assoc]⟩

section

variable {l l' : CollectionLog} {bs : List Committed} (h : l'.history = l.history ++ bs)
  {changeId : ℕ} (hid : l.HasId changeId)
include h hid

theorem Grows.lt : ∀ b ∈ bs, changeId < b.changeId := by
  have hsorted := l'.sorted
  have hpositive := l'.positive
  rw [h] at hsorted hpositive
  intro b hb
  rcases hid with rfl | ⟨b', hb', rfl⟩
  · exact hpositive b (mem_append_right _ hb)
  · exact (pairwise_append.1 hsorted).2.2 b' hb' b hb

theorem upTo_of_append : l'.upTo changeId = l.upTo changeId := by
  have hnone : bs.filter (fun b => b.changeId ≤ changeId) = [] := by
    refine filter_eq_nil_iff.2 fun b hb => ?_
    have hlt := Grows.lt h hid b hb
    simp only [decide_eq_true_eq]
    omega
  unfold upTo
  rw [h, filter_append, hnone, append_nil]

theorem HasId.mono : l'.HasId changeId := by
  rcases hid with hzero | ⟨b, hb, hbid⟩
  · exact .inl hzero
  · exact .inr ⟨b, by rw [h]; exact mem_append_left _ hb, hbid⟩

end

end CollectionLog

/-! ## Truncation -/

/-- `delete_changes`: of more than `maxEntries` entries the last ones stay, and the one before them
without its value. -/
def deleteChanges (maxEntries : ℕ) (log : List LogEntry) : List LogEntry :=
  if maxEntries < log.length then
    match log.drop (log.length - (maxEntries + 1)) with
    | [] => log
    | first :: rest => ⟨first.changeId, []⟩ :: rest
  else log

namespace CollectionLog

variable (l : CollectionLog)

theorem since_of_split {before after}
    (h : l.history = before ++ b :: after) : l.since b.changeId = after := by
  have hsorted := l.sorted
  rw [h] at hsorted
  obtain ⟨-, hrest, hcross⟩ := pairwise_append.1 hsorted
  have hbefore : before.filter (fun b' => b.changeId < b'.changeId) = [] := by
    refine filter_eq_nil_iff.2 fun b' hb' => ?_
    have hlt := hcross b' hb' b (by simp)
    simp only [decide_eq_true_eq]
    omega
  have hafter : after.filter (fun b' => b.changeId < b'.changeId) = after := by
    refine filter_eq_self.2 fun b' hb' => ?_
    exact decide_eq_true ((pairwise_cons.1 hrest).1 b' hb')
  unfold since
  rw [h, filter_append, hbefore, filter_cons_of_neg (by simp), hafter]
  rfl

/-- What happens to the log: a batch is written, or the oldest entries are removed. -/
inductive Step : CollectionLog → CollectionLog → Prop where
  | commit {l l' : CollectionLog} (b : Committed) (hhistory : l'.history = l.history ++ [b])
    (htruncated : l'.truncatedAt = l.truncatedAt) : Step l l'
  | deleteChanges {l l' : CollectionLog} (maxEntries : ℕ) (hhistory : l'.history = l.history)
    (hentries : l'.entries = Store.deleteChanges maxEntries l.entries) : Step l l'

theorem lastChangeId_entries :
    l.HasId ((lastChangeId l.entries).getD 0) ∧ l.since ((lastChangeId l.entries).getD 0) = [] := by
  have hlast : ∀ {before : List Committed} {b : Committed}, l.history = before ++ [b] →
      l.since b.changeId = [] := fun h => l.since_of_split h
  unfold lastChangeId entries
  cases ht : l.truncatedAt with
  | none =>
    rcases eq_nil_or_concat l.history with hnil | ⟨before, b, hhistory⟩
    · rw [hnil]
      refine ⟨.inl rfl, ?_⟩
      unfold since
      rw [hnil]
      rfl
    · rw [concat_eq_append] at hhistory
      rw [hhistory, map_append, map_singleton, getLast?_concat]
      refine ⟨.inr ⟨b, by rw [hhistory]; simp, rfl⟩, hlast hhistory⟩
  | some t =>
    dsimp only
    rcases eq_nil_or_concat (l.since t) with hnil | ⟨before, b, hsince⟩
    · rw [hnil]
      exact ⟨.inr (l.truncated t ht), hnil⟩
    · rw [concat_eq_append] at hsince
      have hhistory : l.history = (l.upTo t ++ before) ++ [b] := by
        rw [append_assoc, ← hsince, l.upTo_append_since]
      rw [hsince, map_append, map_singleton, ← cons_append, getLast?_concat]
      exact ⟨.inr ⟨b, by rw [hhistory]; simp, rfl⟩, hlast hhistory⟩

end CollectionLog

end MailServer.Store
