import MailServer.Store.LogHistory

/-!
# Reading on from a change id

What `Store::changes` returns to a reader that has seen everything up to a change id, when ids may
come back: an item whose thread changes is deleted under one id and inserted under another, and may
return to the first.

Principal results: `LogSince.read`, `followed_mergedKinds`.
-/

namespace MailServer.Store

open List

/-! ## The log -/

/-- The log after a change id: the batches written since, unless the truncation is met there. -/
structure LogSince (log : List LogEntry) (changeId : ℕ) (pending : List Committed) : Prop where
  sorted : log.Pairwise fun e e' => e.changeId < e'.changeId
  bounded : ∀ e ∈ log, e.changeId ≤ 2 ^ 64 - 1
  written : ∀ e ∈ log, changeId < e.changeId → e.value = [] ∨ ∃ b : Committed, b.entry = e
  whole : (∃ e ∈ log, changeId < e.changeId ∧ e.value = []) ∨
    log.filter (fun e => changeId < e.changeId) = pending.map Committed.entry

section Reading

variable {log : List LogEntry} {changeId : ℕ} {pending : List Committed}

theorem filter_from (changeId : ℕ)
    (hsorted : log.Pairwise fun e e' => e.changeId < e'.changeId) :
    ∃ key,
      log.filter (fun e => changeId ≤ e.changeId) =
        key ++ log.filter (fun e => changeId < e.changeId) ∧
      (key = [] ∨ ∃ e, key = [e] ∧ e.changeId = changeId) := by
  induction log with
  | nil => exact ⟨[], rfl, .inl rfl⟩
  | cons e log ih =>
    obtain ⟨hfirst, hrest⟩ := pairwise_cons.1 hsorted
    rcases Nat.lt_trichotomy e.changeId changeId with hlt | heq | hgt
    · obtain ⟨key, hkey, hshape⟩ := ih hrest
      refine ⟨key, ?_, hshape⟩
      rw [filter_cons_of_neg (by simpa using hlt), hkey,
        filter_cons_of_neg (by simpa using Nat.le_of_lt hlt)]
    · refine ⟨[e], ?_, .inr ⟨e, rfl, heq⟩⟩
      rw [filter_cons_of_pos (by simp [heq]), filter_cons_of_neg (by simp [heq])]
      refine congrArg (e :: ·) (filter_congr fun e' he' => ?_)
      have hlt := hfirst e' he'
      rw [decide_eq_true (by omega), decide_eq_true (by omega)]
    · refine ⟨[], ?_, .inl rfl⟩
      rw [filter_cons_of_pos (by simpa using Nat.le_of_lt hgt),
        filter_cons_of_pos (by simpa using hgt)]
      refine congrArg (e :: ·) (filter_congr fun e' he' => ?_)
      have hlt := hfirst e' he'
      rw [decide_eq_true (by omega), decide_eq_true (by omega)]

/-- Entries that were written or left by a truncation are read; a truncation that was met is not
forgotten. -/
theorem readEntries_written {entries : List LogEntry}
    (h : ∀ e ∈ entries, e.changeId ≠ changeId ∧ (e.value = [] ∨ ∃ b : Committed, b.entry = e))
    (changelog : Changelog) :
    ∃ changelog', entries.foldlM (readEntry false false changeId) changelog = some changelog' ∧
      (changelog.isTruncated ∨ (∃ e ∈ entries, e.value = []) →
        changelog'.isTruncated) := by
  induction entries generalizing changelog with
  | nil =>
    refine ⟨changelog, rfl, fun htruncated => htruncated.elim id ?_⟩
    rintro ⟨e, he, -⟩
    cases he
  | cons e entries ih =>
    obtain ⟨⟨hne, hvalue⟩, hrest⟩ := forall_mem_cons.1 h
    rw [foldlM_cons]
    rcases hvalue with hvalue | ⟨b, rfl⟩
    · have hread : readEntry false false changeId changelog e =
          some { changelog with isTruncated := true } := by
        have hne' : (e.changeId != changeId) := by simpa using hne
        unfold readEntry
        rw [hne', hvalue]
        rfl
      obtain ⟨changelog', hrun, htruncated⟩ := ih hrest { changelog with isTruncated := true }
      refine ⟨changelog', ?_, fun _ => htruncated (.inl rfl)⟩
      rw [hread]
      exact hrun
    · obtain ⟨changelog', hrun, htruncated⟩ := ih hrest (changelog.push b)
      refine ⟨changelog', ?_, fun hmet => htruncated ?_⟩
      · rw [readEntry_committed changelog (.inr hne)]
        exact hrun
      · rcases hmet with hbefore | ⟨e, he, hempty⟩
        · exact .inl hbefore
        · rcases mem_cons.1 he with rfl | hmem
          · cases b.batch.bytes_ne_nil hempty
          · exact .inr ⟨e, hmem, hempty⟩

/-- **Reading on**: the truncation is met, or all batches since the change id are merged. -/
theorem LogSince.read (h : LogSince log changeId pending) :
    ∃ changelog, changesSince false log (.since changeId) = some changelog ∧
      (changelog.isTruncated ∨
        log.filter (fun e => changeId < e.changeId) = pending.map Committed.entry ∧
          ∃ start : Changelog, start.changes = [] ∧ changelog = start.pushAll pending) := by
  obtain ⟨hsorted, hbounded, hwritten, hwhole⟩ := h
  obtain ⟨key, hkey, hshape⟩ := filter_from changeId hsorted
  have hrange : log.filter (fun e => changeId ≤ e.changeId && e.changeId ≤ 2 ^ 64 - 1) =
      key ++ log.filter (fun e => changeId < e.changeId) := by
    rw [← hkey]
    refine filter_congr fun e he => ?_
    rw [decide_eq_true (hbounded e he), Bool.and_true]
  -- the entry under the change id itself only sets the ids
  obtain ⟨start, hstart, hchanges⟩ : ∃ start,
      key.foldlM (readEntry false false changeId) .empty = some start ∧ start.changes = [] := by
    rcases hshape with rfl | ⟨e, rfl, rfl⟩
    · exact ⟨.empty, rfl, rfl⟩
    · refine ⟨.startAt e.changeId, ?_, rfl⟩
      have hread : readEntry false false e.changeId .empty e = some (.startAt e.changeId) := by
        unfold readEntry
        simp only [Bool.false_or, bne_self_eq_false, Bool.false_eq_true, if_false]
        rfl
      rw [foldlM_cons, hread]
      rfl
  have hread : changesSince false log (.since changeId) =
      (log.filter fun e => changeId < e.changeId).foldlM (readEntry false false changeId)
        start := by
    unfold changesSince Query.bounds
    dsimp only
    rw [hrange, foldlM_append, hstart]
    rfl
  rw [hread]
  rcases hwhole with ⟨e, he, hlt, hempty⟩ | hpending
  · have hread : ∀ e ∈ log.filter fun e => changeId < e.changeId,
        e.changeId ≠ changeId ∧ (e.value = [] ∨ ∃ b : Committed, b.entry = e) := by
      intro e he
      obtain ⟨hmem, hlater⟩ := mem_filter.1 he
      rw [decide_eq_true_eq] at hlater
      exact ⟨Nat.ne_of_gt hlater, hwritten e hmem hlater⟩
    obtain ⟨changelog, hrun, hmet⟩ := readEntries_written hread start
    exact ⟨changelog, hrun, .inl (hmet (.inr ⟨e, mem_filter.2 ⟨he, by simpa using hlt⟩,
      hempty⟩))⟩
  · have hlater : ∀ b ∈ pending, false ∨ b.changeId ≠ changeId := by
      intro b hb
      have hmem : b.entry ∈ log.filter fun e => changeId < e.changeId := by
        rw [hpending]
        exact mem_map_of_mem hb
      exact .inr (Nat.ne_of_gt (of_decide_eq_true (mem_filter.1 hmem).2))
    refine ⟨start.pushAll pending, ?_, .inr ⟨hpending, start, hchanges, rfl⟩⟩
    rw [hpending]
    exact readEntries_committed hlater start

theorem LogSince.ofLe (hsorted : log.Pairwise fun e e' => e.changeId < e'.changeId)
    (hbounded : ∀ e ∈ log, e.changeId ≤ 2 ^ 64 - 1) (hle : ∀ e ∈ log, e.changeId ≤ changeId) :
    LogSince log changeId [] := by
  refine ⟨hsorted, hbounded, fun e he hlt => ?_, .inr (filter_eq_nil_iff.2 fun e he => ?_)⟩
  · cases Nat.not_lt.2 (hle e he) hlt
  · rw [decide_eq_true_eq]
    exact Nat.not_lt.2 (hle e he)

theorem le_of_concat {before : List LogEntry} {last : LogEntry}
    (hsorted : (before ++ [last]).Pairwise fun e e' => e.changeId < e'.changeId) :
    ∀ e ∈ before ++ [last], e.changeId ≤ last.changeId := by
  intro e he
  rcases mem_append.1 he with hmem | hmem
  · exact Nat.le_of_lt ((pairwise_append.1 hsorted).2.2 e hmem last (by simp))
  · rw [mem_singleton.1 hmem]

theorem LogSince.ofLast (hsorted : log.Pairwise fun e e' => e.changeId < e'.changeId)
    (hbounded : ∀ e ∈ log, e.changeId ≤ 2 ^ 64 - 1) :
    LogSince log ((lastChangeId log).getD 0) [] := by
  refine .ofLe hsorted hbounded ?_
  unfold lastChangeId
  rcases eq_nil_or_concat log with rfl | ⟨before, last, rfl⟩
  · intro e he
    cases he
  · rw [concat_eq_append] at hsorted ⊢
    rw [getLast?_concat]
    exact le_of_concat hsorted

theorem LogSince.le_last {before} {last : Committed}
    (h : LogSince log changeId (before ++ [last]))
    (hwhole : log.filter (fun e => changeId < e.changeId) =
      (before ++ [last]).map Committed.entry) :
    last.entry ∈ log ∧ changeId < last.changeId ∧ ∀ e ∈ log, e.changeId ≤ last.changeId := by
  have hmem : last.entry ∈ log.filter fun e => changeId < e.changeId := by
    rw [hwhole]
    simp
  obtain ⟨hin, hlate⟩ := mem_filter.1 hmem
  have hlater : changeId < last.changeId := of_decide_eq_true hlate
  have hsorted := h.sorted.filter fun e => changeId < e.changeId
  rw [hwhole, map_append] at hsorted
  refine ⟨hin, hlater, fun e he => ?_⟩
  by_cases hold : changeId < e.changeId
  · have hread : e ∈ log.filter fun e => changeId < e.changeId :=
      mem_filter.2 ⟨he, decide_eq_true hold⟩
    rw [hwhole, map_append] at hread
    exact le_of_concat hsorted e hread
  · omega

theorem LogSince.commit (h : LogSince log changeId pending) {b : Committed}
    (hlater : ∀ e ∈ log, e.changeId < b.changeId) (hlt : changeId < b.changeId)
    (hb : b.changeId ≤ 2 ^ 64 - 1) :
    LogSince (log ++ [b.entry]) changeId (pending ++ [b]) where
  sorted := by
    refine pairwise_append.2 ⟨h.sorted, pairwise_singleton _ _, fun e he e' he' => ?_⟩
    rw [mem_singleton.1 he']
    exact hlater e he
  bounded := by
    intro e he
    rcases mem_append.1 he with hmem | hmem
    · exact h.bounded e hmem
    · rw [mem_singleton.1 hmem]
      exact hb
  written := by
    intro e he hlate
    rcases mem_append.1 he with hmem | hmem
    · exact h.written e hmem hlate
    · rw [mem_singleton.1 hmem]
      exact .inr ⟨b, rfl⟩
  whole := by
    rcases h.whole with ⟨e, he, hlate, hempty⟩ | hwhole
    · exact .inl ⟨e, mem_append_left _ he, hlate, hempty⟩
    · refine .inr ?_
      rw [filter_append, hwhole, map_append]
      exact congrArg _ (filter_cons_of_pos (decide_eq_true hlt))

/-- A truncation removes only what was read, or is met. -/
theorem LogSince.deleteChanges (h : LogSince log changeId pending) (maxEntries : ℕ) :
    LogSince (deleteChanges maxEntries log) changeId pending := by
  unfold Store.deleteChanges
  split_ifs
  swap
  · exact h
  generalize log.length - (maxEntries + 1) = dropped
  cases hdrop : log.drop dropped with
  | nil => exact h
  | cons first rest =>
    have hsplit : log = log.take dropped ++ first :: rest := by
      rw [← hdrop, take_append_drop]
    generalize log.take dropped = removed at hsplit
    subst hsplit
    obtain ⟨-, htail, hcross⟩ := pairwise_append.1 h.sorted
    obtain ⟨hfirst, hrest⟩ := pairwise_cons.1 htail
    refine ⟨pairwise_cons.2 ⟨hfirst, hrest⟩, fun e he => ?_, fun e he hlate => ?_, ?_⟩
    · rcases mem_cons.1 he with rfl | hmem
      · exact h.bounded first (by simp)
      · exact h.bounded e (by simp [hmem])
    · rcases mem_cons.1 he with rfl | hmem
      · exact .inl rfl
      · exact h.written e (by simp [hmem]) hlate
    · by_cases hlate : changeId < first.changeId
      · exact .inl ⟨⟨first.changeId, []⟩, by simp, hlate, rfl⟩
      · rcases h.whole with ⟨e, he, hlt, hempty⟩ | hwhole
        · rcases mem_append.1 he with hmem | hmem
          · have hbefore := hcross e hmem first (by simp)
            omega
          · rcases mem_cons.1 hmem with rfl | hmem
            · cases hlate hlt
            · exact .inl ⟨e, by simp [hmem], hlt, hempty⟩
        · refine .inr ?_
          have hremoved : removed.filter (fun e => changeId < e.changeId) = [] := by
            refine filter_eq_nil_iff.2 fun e he => ?_
            have hbefore := hcross e he first (by simp)
            rw [decide_eq_true_eq]
            omega
          rw [← hwhole, filter_append, hremoved,
            filter_cons_of_neg (by simpa using hlate),
            filter_cons_of_neg (by simpa using hlate)]
          rfl

end Reading

theorem Changelog.pushAll_toChangeId {changelog : Changelog} {bs} {b : Committed} :
    (changelog.pushAll (bs ++ [b])).toChangeId = b.changeId := by
  rw [pushAll_append]
  rfl

/-! ## Ids that come back -/

/-- The kinds that are not property updates. -/
def core (kinds : List Kind) : List Kind := kinds.filter fun kind => kind ≠ .property

/-- The last kind, property updates apart, is not a deletion. -/
def Ends (kinds : List Kind) : Prop := ∃ kind, (core kinds).getLast? = some kind ∧ kind ≠ .delete

/-- Something is said about an id that existed. -/
def Recorded (kinds : List Kind) : Prop := Kind.delete ∈ kinds ∨ Kind.update ∈ kinds

theorem core_append (kinds kinds' : List Kind) :
    core (kinds ++ kinds') = core kinds ++ core kinds' :=
  filter_append ..

@[simp] theorem core_delete (kinds : List Kind) :
    core (.delete :: kinds) = .delete :: core kinds := rfl

theorem aliveAfter_core (alive : Bool) (kinds : List Kind) :
    aliveAfter alive (core kinds) = aliveAfter alive kinds := by
  induction kinds generalizing alive with
  | nil => rfl
  | cons kind kinds ih =>
    cases kind with
    | property => exact ih alive
    | insert => exact ih true
    | update => exact ih alive
    | delete => exact ih false

theorem core_singleton {kind : Kind} (h : kind ≠ .property) : core [kind] = [kind] := by
  cases kind with
  | property => cases h rfl
  | insert | update | delete => rfl

theorem kindSets_core (kinds : List Kind) :
    (kindSets kinds).inserts = (kindSets (core kinds)).inserts ∧
      (kindSets kinds).updates = (kindSets (core kinds)).updates ∧
      (kindSets kinds).deletes = (kindSets (core kinds)).deletes := by
  induction kinds using reverseRecOn with
  | nil => exact ⟨rfl, rfl, rfl⟩
  | append_singleton kinds kind ih =>
    rw [kindSets_append, core_append]
    by_cases hproperty : kind = .property
    · subst hproperty
      have hcore : core kinds ++ core [Kind.property] = core kinds := append_nil _
      rw [hcore]
      exact ih
    · rw [core_singleton hproperty, kindSets_append]
      generalize kindSets kinds = s at ih ⊢
      generalize kindSets (core kinds) = s' at ih ⊢
      obtain ⟨i, u, p, d⟩ := s
      obtain ⟨i', u', p', d'⟩ := s'
      obtain ⟨rfl, rfl, rfl⟩ := ih
      cases kind <;> cases d <;> exact ⟨rfl, rfl, rfl⟩

theorem ends_append {kinds : List Kind} {kind : Kind} (hproperty : kind ≠ .property)
    (hdelete : kind ≠ .delete) : Ends (kinds ++ [kind]) := by
  refine ⟨kind, ?_, hdelete⟩
  rw [core_append]
  rw [core_singleton hproperty, getLast?_concat]

theorem Ends.of_delete {kinds : List Kind} (h : Ends (.delete :: kinds)) : Ends kinds := by
  obtain ⟨kind, hlast, hne⟩ := h
  rw [core_delete] at hlast
  cases hcore : core kinds with
  | nil =>
    rw [hcore] at hlast
    cases hlast
    cases hne rfl
  | cons first rest =>
    rw [hcore] at hlast
    exact ⟨kind, by rw [hcore]; exact hlast, hne⟩

theorem Ends.delete {kinds : List Kind} (h : Ends kinds) : Ends (.delete :: kinds) := by
  obtain ⟨kind, hlast, hne⟩ := h
  refine ⟨kind, ?_, hne⟩
  rw [core_delete]
  cases hcore : core kinds with
  | nil =>
    rw [hcore] at hlast
    cases hlast
  | cons first rest =>
    rw [getLast?_cons_cons, ← hcore]
    exact hlast

section Merging

variable {kinds : List Kind}

theorem ends_updateKinds_false (h : core kinds = [] ∨ Ends kinds) :
    Ends (updateKinds false kinds) := by
  induction kinds with
  | nil => exact ⟨.update, rfl, by simp⟩
  | cons kind kinds ih =>
    cases kind with
    | insert =>
      rcases h with h | h
      · cases h
      · exact h
    | update | property => exact ends_append (by simp) (by simp)
    | delete =>
      rcases h with h | h
      · cases h
      · exact (ih (.inr h.of_delete)).delete

theorem Ends.updateKinds_true (h : Ends kinds) : Ends (updateKinds true kinds) := by
  induction kinds with
  | nil =>
    obtain ⟨kind, hlast, -⟩ := h
    cases hlast
  | cons kind kinds ih =>
    cases kind with
    | insert => exact h
    | update => exact ends_append (by simp) (by simp)
    | property =>
      obtain ⟨kind, hlast, hne⟩ := h
      refine ⟨kind, ?_, hne⟩
      change (core (kinds ++ [Kind.property])).getLast? = some kind
      rw [core_append]
      exact (congrArg getLast? (append_nil (core kinds))).trans hlast
    | delete => exact (ih h.of_delete).delete

theorem core_updateKinds_true (h : core kinds = []) : core (updateKinds true kinds) = [] := by
  cases kinds with
  | nil => rfl
  | cons kind kinds =>
    cases kind with
    | insert | update | delete => cases h
    | property =>
      change core (kinds ++ [Kind.property]) = []
      rw [core_append, show core kinds = [] from h]
      rfl

theorem Recorded.updateKinds (h : Recorded kinds) (isPropertyChange : Bool) :
    Recorded (updateKinds isPropertyChange kinds) := by
  induction kinds with
  | nil => rcases h with h | h <;> cases h
  | cons kind kinds ih =>
    cases kind with
    | insert => exact h
    | update => exact .inr (mem_append_right _ (by simp))
    | property =>
      change Recorded (kinds ++ [_])
      rcases h with h | h
      · exact .inl (mem_append_left _ (by simpa using h))
      · exact .inr (mem_append_left _ (by simpa using h))
    | delete => exact .inl (by simp [Store.updateKinds])

theorem recorded_updateKinds_false (h : core kinds = []) : Recorded (updateKinds false kinds) := by
  cases kinds with
  | nil => exact .inr (by simp [updateKinds])
  | cons kind kinds =>
    cases kind with
    | insert | update | delete => cases h
    | property => exact .inr (mem_append_right _ (by simp))

theorem recorded_deleteKinds (h : core kinds = [] ∨ Recorded kinds) :
    Recorded (deleteKinds kinds) := by
  induction kinds with
  | nil => exact .inl (by simp [deleteKinds])
  | cons kind kinds ih =>
    cases kind with
    | insert =>
      rcases h with h | h
      · cases h
      · change Recorded kinds
        exact h.imp (fun h => by simpa using h) fun h => by simpa using h
    | update => exact .inl (mem_append_right _ (by simp))
    | property =>
      have hrest : Recorded (deleteKinds kinds) := by
        refine ih (h.imp id fun h => ?_)
        exact h.imp (fun h => by simpa using h) fun h => by simpa using h
      exact hrest.imp (mem_cons_of_mem _) (mem_cons_of_mem _)
    | delete => exact .inl (by simp [deleteKinds])

end Merging

/-- What the merged list says about an id after the given calls. -/
structure Followed (existed : Bool) (kinds merged : List Kind) : Prop where
  untouched : core kinds = [] → core merged = []
  recorded : existed → core kinds ≠ [] → Recorded merged
  ends : aliveAfter existed kinds → core kinds ≠ [] → Ends merged

/-- The step lemma: one batch, its property updates anywhere. -/
theorem Followed.step {existed : Bool} {kinds merged batch : List Kind}
    (h : Followed existed kinds merged)
    (hlegal : Legal (aliveAfter existed kinds) (core batch)) :
    Followed existed (kinds ++ batch) (batchStep (kindSets batch) merged) := by
  obtain ⟨hinserts, hdeletes, hdead, hupdates, -⟩ := kindSets_spec _ _ hlegal
  obtain ⟨hi, hu, hd⟩ := kindSets_core batch
  rw [← hi] at hinserts
  rw [← hd] at hdeletes hdead
  rw [← hu] at hdead hupdates
  rw [aliveAfter_core] at hdeletes hupdates
  have hlife := aliveAfter_append existed kinds batch
  by_cases hbatch : core batch = []
  · -- property updates only
    have hcore : core (kinds ++ batch) = core kinds := by
      rw [core_append, hbatch, append_nil]
    have hsame : aliveAfter existed (kinds ++ batch) = aliveAfter existed kinds := by
      rw [hlife, ← aliveAfter_core, hbatch]
      rfl
    have hnone : (kindSets batch).updates = false := by
      rw [hu, hbatch]
      rfl
    rw [hbatch] at hinserts hdeletes
    have hstep : batchStep (kindSets batch) merged =
        if (kindSets batch).properties then updateKinds true merged else merged := by
      unfold batchStep
      rw [hinserts, hdeletes, hnone]
      simp
    rw [hstep]
    refine ⟨fun hempty => ?_, fun hexisted hne => ?_, fun halive hne => ?_⟩
    · have hmerged := h.untouched (hcore ▸ hempty)
      split
      · exact core_updateKinds_true hmerged
      · exact hmerged
    · have hmerged := h.recorded hexisted (hcore ▸ hne)
      split
      · exact hmerged.updateKinds true
      · exact hmerged
    · have hmerged := h.ends (hsame ▸ halive) (hcore ▸ hne)
      split
      · exact hmerged.updateKinds_true
      · exact hmerged
  · have hsome : (core batch).isEmpty = false := by simpa using hbatch
    rw [hsome, Bool.not_false, Bool.and_true] at hinserts hdeletes
    have hchanged : ∃ kind ∈ core batch, kind ≠ .property := by
      obtain ⟨kind, hkind⟩ := exists_mem_of_ne_nil _ hbatch
      exact ⟨kind, hkind, by simpa using (mem_filter.1 hkind).2⟩
    -- the updates of a batch that leaves an old id alive
    have hupdated : aliveAfter existed kinds →
        aliveAfter (aliveAfter existed kinds) batch → (kindSets batch).updates :=
      fun hbefore hafter => (hupdates hbefore hafter).2 hchanged
    refine ⟨fun hempty => ?_, fun hexisted _ => ?_, fun halive _ => ?_⟩
    · rw [core_append] at hempty
      cases hbatch (append_eq_nil_iff.1 hempty).2
    · by_cases htouched : core kinds = []
      · -- the first batch about an id that existed
        have hbefore : aliveAfter existed kinds := by
          rw [← aliveAfter_core, htouched, hexisted]
          rfl
        have hmerged := h.untouched htouched
        rw [hbefore] at hinserts
        cases hafter : aliveAfter (aliveAfter existed kinds) batch with
        | false =>
          rw [hafter, Bool.not_false] at hdeletes
          obtain ⟨hnoupdate, -⟩ := hdead hdeletes
          unfold batchStep
          rw [hinserts, hdeletes, hnoupdate]
          simp only [Bool.false_eq_true, if_false, if_true]
          split
          · exact recorded_deleteKinds (.inl (core_updateKinds_true hmerged))
          · exact recorded_deleteKinds (.inl hmerged)
        | true =>
          rw [hafter, Bool.not_true] at hdeletes
          have hupdate := hupdated hbefore hafter
          unfold batchStep
          rw [hinserts, hdeletes, hupdate]
          simp only [Bool.false_eq_true, if_false, if_true]
          split
          · exact (recorded_updateKinds_false hmerged).updateKinds true
          · exact recorded_updateKinds_false hmerged
      · have hmerged := h.recorded hexisted htouched
        have hinsert : ∀ b : Bool, Recorded (if b then merged ++ [.insert] else merged) := by
          intro b
          split
          · exact hmerged.imp (mem_append_left _) (mem_append_left _)
          · exact hmerged
        have hupdate : ∀ (b p : Bool) {m : List Kind}, Recorded m →
            Recorded (if b then updateKinds p m else m) := by
          intro b p m hm
          split
          · exact hm.updateKinds p
          · exact hm
        have hlast := hupdate (kindSets batch).properties true
          (hupdate (kindSets batch).updates false (hinsert (kindSets batch).inserts))
        unfold batchStep
        dsimp only
        split
        · exact recorded_deleteKinds (.inr hlast)
        · exact hlast
    · rw [hlife] at halive
      rw [halive] at hdeletes
      have hproperty : ∀ {m : List Kind}, Ends m →
          Ends (if (kindSets batch).properties then updateKinds true m else m) := by
        intro m hm
        split
        · exact hm.updateKinds_true
        · exact hm
      unfold batchStep
      rw [hdeletes]
      refine hproperty ?_
      cases hbefore : aliveAfter existed kinds with
      | true =>
        rw [hbefore] at hinserts
        rw [hinserts, hupdated hbefore halive]
        by_cases htouched : core kinds = []
        · exact ends_updateKinds_false (.inl (h.untouched htouched))
        · exact ends_updateKinds_false (.inr (h.ends hbefore htouched))
      | false =>
        rw [hbefore, Bool.not_false] at hinserts
        have hnew : Ends (merged ++ [.insert]) := ends_append (by simp) (by simp)
        split
        · exact ends_updateKinds_false (.inr hnew)
        · exact hnew

/-- **The merged list follows an id**, also one that comes back and one whose property updates come
at any time. -/
theorem followed_mergedKinds {existed : Bool} {batches}
    (hlegal : Legal existed (core batches.flatten)) :
    Followed existed batches.flatten (mergedKinds [] batches) := by
  induction batches using reverseRecOn with
  | nil => exact ⟨fun _ => rfl, fun _ h => absurd rfl h, fun _ h => absurd rfl h⟩
  | append_singleton batches batch ih =>
    rw [flatten_append, flatten_singleton] at hlegal ⊢
    rw [core_append] at hlegal
    obtain ⟨hbefore, hbatch⟩ := (legal_append _ _ _).1 hlegal
    rw [aliveAfter_core] at hbatch
    rw [mergedKinds_append]
    exact (ih hbefore).step hbatch

end MailServer.Store
