import MailServer.Jmap.Changes

/-!
# The states of the caches

A cache may be behind the log: its state is the last change id at which there was something new for
it.  What matters is that the objects at this state are the objects of the log.

Principal results: `exists_refresh`, `Cached.faithful`; `refresh_faithful` — it keeps `Faithful`,
and gives a state at which the objects are those of the log; `lastState_quiet` — since the state
that a cache gives, nothing is about an object of it.
-/

namespace MailServer.Store

open List

variable {isContainer : Bool} {changeId : ℕ}

namespace CollectionLog

variable (l : CollectionLog)

/-- The object exists in the end. -/
def aliveNow (isContainer : Bool) (id : UInt64) : Bool :=
  aliveAfter false (callsOf isContainer id l.history).flatten

theorem kinds_since (isContainer : Bool) (changeId : ℕ) (id : UInt64) :
    (((Changelog.startAt changeId).pushAll (l.since changeId)).relevant isContainer).filterMap
        (Change.kindOf isContainer id) =
      mergedKinds [] (callsOf isContainer id (l.since changeId)) := by
  rw [kinds_relevant, kinds_pushAll]
  rfl

theorem aliveNow_of_relevant_nil
    (h : ((Changelog.startAt changeId).pushAll (l.since changeId)).relevant isContainer = [])
    (id : UInt64) : l.aliveNow isContainer id = l.alive isContainer changeId id := by
  obtain ⟨hlife, hnow⟩ := l.legal_since isContainer changeId id
  have hkinds := l.kinds_since isContainer changeId id
  rw [h] at hkinds
  unfold aliveNow
  rw [hnow]
  rcases (merged_kinds hlife).2.2.1 hkinds.symm with hnil | ⟨hbefore, hafter⟩
  · rw [hnil]
    rfl
  · rw [hafter, hbefore]

theorem aliveNow_of_changeId {changeId last : ℕ}
    (h : ((Changelog.startAt changeId).pushAll (l.since changeId)).changeId isContainer =
      some last) :
    l.HasId last ∧ ∀ id, l.aliveNow isContainer id = l.alive isContainer last id := by
  have hnone : (Changelog.startAt changeId).changeId isContainer = none := by
    cases isContainer <;> rfl
  obtain ⟨before, b, after, hsince, rfl, -, hafter⟩ := Changelog.changeId_pushAll_some hnone h
  have hhistory : l.history = (l.upTo changeId ++ before) ++ b :: after := by
    rw [append_assoc, ← hsince, l.upTo_append_since]
  refine ⟨.inr ⟨b, by rw [hhistory]; simp, rfl⟩, fun id => ?_⟩
  exact l.alive_of_last (by rw [l.since_of_split hhistory]; exact hafter) id

theorem toChangeId_since (hne : l.since changeId ≠ []) :
    changeId < ((Changelog.startAt changeId).pushAll (l.since changeId)).toChangeId ∧
      l.HasId ((Changelog.startAt changeId).pushAll (l.since changeId)).toChangeId ∧
      l.since ((Changelog.startAt changeId).pushAll (l.since changeId)).toChangeId = [] := by
  obtain ⟨before, b, hsince⟩ := (eq_nil_or_concat (l.since changeId)).resolve_left hne
  rw [concat_eq_append] at hsince
  have hhistory : l.history = (l.upTo changeId ++ before) ++ [b] := by
    rw [append_assoc, ← hsince, l.upTo_append_since]
  have hto : ((Changelog.startAt changeId).pushAll (l.since changeId)).toChangeId =
      b.changeId := by
    rw [hsince, Changelog.pushAll_append]
    rfl
  have hmem : b ∈ l.since changeId := by
    rw [hsince]
    simp
  rw [hto]
  exact ⟨(l.mem_since.1 hmem).2, .inr ⟨b, (l.mem_since.1 hmem).1, rfl⟩, l.since_of_split hhistory⟩

theorem aliveNow_of_since_nil (h : l.since changeId = []) (isContainer : Bool)
    (id : UInt64) : l.aliveNow isContainer id = l.alive isContainer changeId id :=
  l.alive_of_last (by rw [h]; exact nofun) id

/-- Between the change ids nothing is about an object that exists at the first. -/
def QuietBetween (isContainer : Bool) (fromId toId : ℕ) : Prop :=
  ∀ id, l.alive isContainer fromId id → ∀ b ∈ l.since fromId, b.changeId ≤ toId →
    b.batch.calls.filterMap (LogCall.kindOf isContainer id) = []

theorem quietBetween_of_concerns
    (h : ∀ b ∈ l.since changeId, b.concerns isContainer = false) (toId : ℕ) :
    l.QuietBetween isContainer changeId toId :=
  fun id _ b hb _ => calls_eq_nil (h b hb) id

theorem quietBetween_of_relevant_nil
    (h : ((Changelog.startAt changeId).pushAll (l.since changeId)).relevant isContainer = [])
    (toId : ℕ) : l.QuietBetween isContainer changeId toId := by
  intro id halive b hb _
  have hkinds := l.kinds_since isContainer changeId id
  rw [h] at hkinds
  have hlife := (l.legal_since isContainer changeId id).1
  rw [halive] at hlife
  have hnil := ((merged_kinds hlife).2.2.1 hkinds.symm).resolve_right fun hdead => by
    cases hdead.1
  exact flatten_eq_nil_iff.1 hnil _ (mem_map.2 ⟨b, hb, rfl⟩)

theorem QuietBetween.trans {fromId midId : ℕ} (h : l.QuietBetween isContainer fromId midId)
    (halive : ∀ id, l.alive isContainer fromId id = l.alive isContainer midId id)
    (h' : ∀ toId, l.QuietBetween isContainer midId toId) (toId : ℕ) :
    l.QuietBetween isContainer fromId toId := by
  intro id hid b hb hto
  by_cases hle : b.changeId ≤ midId
  · exact h id hid b hb hle
  · rw [halive] at hid
    exact h' toId id hid b (l.mem_since.2 ⟨(l.mem_since.1 hb).1, Nat.not_le.1 hle⟩) hto

theorem alive_of_append {l l' : CollectionLog} {bs}
    (h : l'.history = l.history ++ bs) (hid : l.HasId changeId) (isContainer : Bool) (id : UInt64) :
    l'.alive isContainer changeId id = l.alive isContainer changeId id := by
  unfold alive
  rw [upTo_of_append h hid]

end CollectionLog

end MailServer.Store

namespace MailServer.Jmap

open MailServer.Store List

/-! ## Caches that can be -/

/-- A cache of a collection: built at some time, and brought up to date at others. -/
inductive Cached (collection : SyncCollection) : CollectionLog → CacheIds → Prop where
  | build (l : CollectionLog) : Cached collection l (fullCacheBuild l.entries)
  | refresh {l : CollectionLog} {cache cache' : CacheIds}
    {refresh : List LogEntry → CacheIds → Option CacheIds} (hcached : Cached collection l cache)
    (hcollection : collection.refresh = some refresh)
    (hrefresh : refresh l.entries cache = some cache') : Cached collection l cache'
  | step {l l' : CollectionLog} {cache : CacheIds} (hcached : Cached collection l cache)
    (hstep : CollectionLog.Step l l') : Cached collection l' cache

/-- At the states of the cache the objects are those at the last change id that it has seen. -/
structure Faithful (l : CollectionLog) (cache : CacheIds) : Prop where
  last : l.HasId cache.last
  hasId : ∀ isContainer, l.HasId (cache.of isContainer)
  alive : ∀ isContainer id,
    l.alive isContainer (cache.of isContainer) id = l.alive isContainer cache.last id

/-- At the states of the cache the objects are those of the log. -/
def Fresh (l : CollectionLog) (cache : CacheIds) : Prop :=
  ∀ isContainer id, l.aliveNow isContainer id = l.alive isContainer (cache.of isContainer) id

theorem fullCacheBuild_faithful (l : CollectionLog) :
    Faithful l (fullCacheBuild l.entries) ∧ Fresh l (fullCacheBuild l.entries) := by
  obtain ⟨hid, hsince⟩ := l.lastChangeId_entries
  have hof : ∀ isContainer,
      (fullCacheBuild l.entries).of isContainer = (lastChangeId l.entries).getD 0 := by
    intro isContainer
    cases isContainer <;> rfl
  refine ⟨⟨hid, fun isContainer => ?_, fun isContainer id => ?_⟩, fun isContainer id => ?_⟩
  · rw [hof]
    exact hid
  · rw [hof]
    rfl
  · rw [hof]
    exact l.aliveNow_of_since_nil hsince isContainer id

/-- What an update of a cache does: the state of the containers is the last change id with changes
of them, or stays where there are none. -/
def Updates (update : CacheIds → Changelog → CacheIds) : Prop :=
  ∀ cache changelog,
    (∀ isContainer, changelog.changeId isContainer = none →
      changelog.relevant isContainer = []) →
    (update cache changelog).last = changelog.toChangeId ∧
      ∀ isContainer,
        ((update cache changelog).of isContainer = cache.of isContainer ∧
          changelog.relevant isContainer = []) ∨
        changelog.changeId isContainer = some ((update cache changelog).of isContainer)

theorem relevant_eq_nil_iff (isContainer : Bool) (changelog : Changelog) :
    changelog.relevant isContainer = [] ↔
      (if isContainer then changelog.changes.any Change.isContainerChange
        else changelog.changes.any Change.isItemChange) = false := by
  unfold Changelog.relevant
  cases isContainer with
  | true | false => simp [Change.concerns]

theorem updates_updateMessages : Updates updateMessages := by
  intro cache changelog hnone
  refine ⟨rfl, fun isContainer => ?_⟩
  have hiff := relevant_eq_nil_iff isContainer changelog
  have hid := hnone isContainer
  cases isContainer with
  | true =>
    cases hany : changelog.changes.any Change.isContainerChange with
    | false => exact .inl ⟨by simp [updateMessages, CacheIds.of, hany], hiff.2 hany⟩
    | true =>
      cases hc : changelog.changeId true with
      | none =>
        rw [if_pos rfl, hid hc, hany] at hiff
        exact absurd (hiff.1 rfl) (by decide)
      | some t =>
        have hc' : changelog.containerChangeId = some t := hc
        exact .inr (by simp [updateMessages, CacheIds.of, hany, hc'])
  | false =>
    cases hany : changelog.changes.any Change.isItemChange with
    | false => exact .inl ⟨by simp [updateMessages, CacheIds.of, hany], hiff.2 hany⟩
    | true =>
      cases hc : changelog.changeId false with
      | none =>
        rw [if_neg Bool.false_ne_true, hid hc, hany] at hiff
        exact absurd (hiff.1 rfl) (by decide)
      | some t =>
        have hc' : changelog.itemChangeId = some t := hc
        exact .inr (by simp [updateMessages, CacheIds.of, hany, hc'])

theorem updates_updateResources : Updates updateResources := by
  intro cache changelog hnone
  refine ⟨rfl, fun isContainer => ?_⟩
  cases hc : changelog.changeId isContainer with
  | none =>
    refine .inl ⟨?_, hnone isContainer hc⟩
    cases isContainer with
    | true =>
      have hc' : changelog.containerChangeId = none := hc
      simp [updateResources, CacheIds.of, hc']
    | false =>
      have hc' : changelog.itemChangeId = none := hc
      simp [updateResources, CacheIds.of, hc']
  | some t =>
    refine .inr ?_
    cases isContainer with
    | true =>
      have hc' : changelog.containerChangeId = some t := hc
      simp [updateResources, CacheIds.of, hc']
    | false =>
      have hc' : changelog.itemChangeId = some t := hc
      simp [updateResources, CacheIds.of, hc']

theorem startAt_changeId (isContainer : Bool) (changeId : ℕ) :
    (Changelog.startAt changeId).changeId isContainer = none := by
  cases isContainer <;> rfl

theorem relevant_eq_nil_of_changeId {bs}
    (h : ((Changelog.startAt changeId).pushAll bs).changeId isContainer = none) :
    ((Changelog.startAt changeId).pushAll bs).relevant isContainer = [] :=
  Changelog.relevant_pushAll (Changelog.changeId_pushAll_none h) _

section

variable {update : CacheIds → Changelog → CacheIds} (hupdate : Updates update) {l : CollectionLog}
include hupdate

/-- **Bringing a cache up to date**: it is built anew, or has seen everything, with the last change
id of the kind as its state. -/
theorem exists_refresh {cache : CacheIds} (hlast : l.HasId cache.last) :
    ∃ cache', refresh update l.entries cache = some cache' ∧
      (cache' = fullCacheBuild l.entries ∨
        (cache' = cache ∨ l.HasId cache'.last ∧ l.since cache'.last = []) ∧
          ∀ isContainer,
            (cache'.of isContainer = cache.of isContainer ∧
              ((Changelog.startAt cache.last).pushAll (l.since cache.last)).relevant isContainer =
                []) ∨
            ((Changelog.startAt cache.last).pushAll (l.since cache.last)).changeId isContainer =
              some (cache'.of isContainer)) := by
  unfold refresh
  by_cases hcovers : l.Covers cache.last
  · rw [l.changesSince_since hlast hcovers, Option.bind_eq_bind, Option.bind_some,
      Changelog.pushAll_isTruncated]
    have hstart : (Changelog.startAt cache.last).isTruncated = false := rfl
    rw [hstart, if_neg Bool.false_ne_true]
    split_ifs with hempty hseen
    · refine ⟨cache, rfl, .inr ⟨.inl rfl, fun isContainer => .inl ⟨rfl, ?_⟩⟩⟩
      rw [List.isEmpty_iff] at hempty
      unfold Changelog.relevant
      rw [hempty]
      rfl
    · -- there are changes, so there are batches after the last change id
      have hne : l.since cache.last ≠ [] := by
        intro hnil
        rw [hnil] at hempty
        exact hempty rfl
      cases Nat.not_lt_of_le hseen (l.toChangeId_since hne).1
    · have hne : l.since cache.last ≠ [] := by
        intro hnil
        rw [hnil] at hempty
        exact hempty rfl
      obtain ⟨-, hid, hsince⟩ := l.toChangeId_since hne
      obtain ⟨hto, hof⟩ := hupdate cache
        ((Changelog.startAt cache.last).pushAll (l.since cache.last))
        fun isContainer => relevant_eq_nil_of_changeId
      refine ⟨_, rfl, .inr ⟨.inr ?_, hof⟩⟩
      rw [hto]
      exact ⟨hid, hsince⟩
  · obtain ⟨t, ht⟩ := not_forall.1 hcovers
    obtain ⟨ht, hlt⟩ := Classical.not_imp.1 ht
    obtain ⟨changelog, hread, htruncated⟩ := l.changesSince_truncated ht (Nat.not_le.1 hlt)
    rw [hread, Option.bind_eq_bind, Option.bind_some, if_pos htruncated]
    exact ⟨_, rfl, .inl rfl⟩

theorem refresh_faithful {cache : CacheIds} (h : Faithful l cache) :
    ∃ cache', refresh update l.entries cache = some cache' ∧ Faithful l cache' ∧
      Fresh l cache' := by
  obtain ⟨cache', hrefresh, hcase⟩ := exists_refresh hupdate h.last
  refine ⟨cache', hrefresh, ?_⟩
  rcases hcase with rfl | ⟨hseen, hof⟩
  · exact fullCacheBuild_faithful l
  · have hfresh : Fresh l cache' := by
      intro isContainer id
      rcases hof isContainer with ⟨hsame, hnil⟩ | hchangeId
      · rw [hsame, l.aliveNow_of_relevant_nil hnil, h.alive]
      · exact (l.aliveNow_of_changeId hchangeId).2 id
    refine ⟨?_, hfresh⟩
    rcases hseen with rfl | ⟨hid, hsince⟩
    · exact h
    · refine ⟨hid, fun isContainer => ?_, fun isContainer id => ?_⟩
      · rcases hof isContainer with ⟨hsame, -⟩ | hchangeId
        · rw [hsame]
          exact h.hasId isContainer
        · exact (l.aliveNow_of_changeId hchangeId).1
      · rw [← hfresh, l.aliveNow_of_since_nil hsince]

theorem refresh_quiet {cache cache' : CacheIds} (h : Faithful l cache)
    (hquiet : ∀ isContainer, l.QuietBetween isContainer (cache.of isContainer) cache.last)
    (hrefresh : refresh update l.entries cache = some cache') (isContainer : Bool) (toId : ℕ) :
    l.QuietBetween isContainer (cache'.of isContainer) toId := by
  obtain ⟨cache'', hrefresh', hcase⟩ := exists_refresh hupdate h.last
  rw [hrefresh] at hrefresh'
  cases hrefresh'
  rcases hcase with rfl | ⟨-, hof⟩
  · have hsince := (l.lastChangeId_entries).2
    have hof : (fullCacheBuild l.entries).of isContainer = (lastChangeId l.entries).getD 0 := by
      cases isContainer <;> rfl
    rw [hof]
    refine l.quietBetween_of_concerns (fun b hb => ?_) toId
    rw [hsince] at hb
    cases hb
  · rcases hof isContainer with ⟨hsame, hnil⟩ | hchangeId
    · rw [hsame]
      exact (hquiet isContainer).trans l (h.alive isContainer)
        (l.quietBetween_of_relevant_nil hnil) toId
    · obtain ⟨before, b, after, hsince, hid, -, hafter⟩ :=
        Changelog.changeId_pushAll_some (startAt_changeId isContainer cache.last) hchangeId
      have hhistory : l.history = (l.upTo cache.last ++ before) ++ b :: after := by
        rw [append_assoc, ← hsince, l.upTo_append_since]
      rw [← hid]
      refine l.quietBetween_of_concerns (fun b' hb' => hafter b' ?_) toId
      rwa [l.since_of_split hhistory] at hb'

end

theorem updates_of_collection {collection : SyncCollection}
    {f : List LogEntry → CacheIds → Option CacheIds} (h : collection.refresh = some f) :
    ∃ update, f = refresh update ∧ Updates update := by
  cases collection <;> cases h
  · exact ⟨_, rfl, updates_updateMessages⟩
  · exact ⟨_, rfl, updates_updateResources⟩
  · exact ⟨_, rfl, updates_updateResources⟩

theorem history_of_step {l l' : CollectionLog} (hstep : CollectionLog.Step l l') :
    ∃ bs, l'.history = l.history ++ bs := by
  cases hstep with
  | commit b hhistory => exact ⟨[b], hhistory⟩
  | deleteChanges maxEntries hhistory => exact ⟨[], by rw [hhistory, append_nil]⟩

theorem step_faithful {l l' : CollectionLog} {cache : CacheIds} (h : Faithful l cache)
    (hstep : CollectionLog.Step l l') : Faithful l' cache := by
  obtain ⟨bs, hbs⟩ := history_of_step hstep
  refine ⟨h.last.mono hbs, fun isContainer => (h.hasId isContainer).mono hbs,
    fun isContainer id => ?_⟩
  rw [CollectionLog.alive_of_append hbs (h.hasId isContainer),
    CollectionLog.alive_of_append hbs h.last]
  exact h.alive isContainer id

section

variable {collection : SyncCollection} {l : CollectionLog} {cache : CacheIds}
  (h : Cached collection l cache)
include h

theorem Cached.faithful : Faithful l cache := by
  induction h with
  | build l => exact (fullCacheBuild_faithful l).1
  | refresh hcached hcollection hrefresh ih =>
    obtain ⟨update, rfl, hupdate⟩ := updates_of_collection hcollection
    obtain ⟨cache', hcache', hfaithful, -⟩ := refresh_faithful hupdate ih
    rw [hrefresh] at hcache'
    cases hcache'
    exact hfaithful
  | step hcached hstep ih => exact step_faithful ih hstep

theorem Cached.quiet (isContainer : Bool) :
    l.QuietBetween isContainer (cache.of isContainer) cache.last := by
  induction h generalizing isContainer with
  | build l =>
    have hof : (fullCacheBuild l.entries).of isContainer = (fullCacheBuild l.entries).last := by
      cases isContainer <;> rfl
    intro id _ b hb hle
    rw [hof] at hb
    cases Nat.not_lt.2 hle (l.mem_since.1 hb).2
  | refresh hcached hcollection hrefresh ih =>
    obtain ⟨update, rfl, hupdate⟩ := updates_of_collection hcollection
    exact refresh_quiet hupdate hcached.faithful ih hrefresh isContainer _
  | @step l l' cache hcached hstep ih =>
    obtain ⟨bs, hbs⟩ := history_of_step hstep
    have hfaithful := hcached.faithful
    intro id hid b hb hle
    rw [CollectionLog.alive_of_append hbs (hfaithful.hasId isContainer)] at hid
    obtain ⟨hmem, hlt⟩ := l'.mem_since.1 hb
    rw [hbs] at hmem
    rcases mem_append.1 hmem with hold | hnew
    · exact ih isContainer id hid b (l.mem_since.2 ⟨hold, hlt⟩) hle
    · cases Nat.not_lt.2 hle (CollectionLog.Grows.lt hbs hfaithful.last b hnew)

/-- **The state of a cache** that the method asks is a state of the log at which the objects are
those of the log. -/
theorem lastState_spec (isContainer : Bool) :
    (lastState collection isContainer l.entries cache = .ok none ∧ collection.refresh = none) ∨
      ∃ changeId, lastState collection isContainer l.entries cache = .ok (some (.exact changeId)) ∧
        l.HasId changeId ∧
        ∀ id, l.aliveNow isContainer id = l.alive isContainer changeId id := by
  unfold lastState
  cases hcollection : collection.refresh with
  | none => exact .inl ⟨rfl, rfl⟩
  | some f =>
    obtain ⟨update, rfl, hupdate⟩ := updates_of_collection hcollection
    obtain ⟨cache', hcache', hfaithful, hfresh⟩ := refresh_faithful hupdate h.faithful
    dsimp only
    rw [hcache']
    exact .inr ⟨cache'.of isContainer, rfl, hfaithful.hasId isContainer, hfresh isContainer⟩

theorem lastState_quiet
    (hlast : lastState collection isContainer l.entries cache = .ok (some (.exact changeId)))
    (toId : ℕ) : l.QuietBetween isContainer changeId toId := by
  unfold lastState at hlast
  cases hcollection : collection.refresh with
  | none =>
    rw [hcollection] at hlast
    cases hlast
  | some f =>
    obtain ⟨update, rfl, hupdate⟩ := updates_of_collection hcollection
    obtain ⟨cache', hcache', -, -⟩ := refresh_faithful hupdate h.faithful
    rw [hcollection] at hlast
    dsimp only at hlast
    rw [hcache'] at hlast
    cases hlast
    exact refresh_quiet hupdate h.faithful (fun isContainer => h.quiet isContainer) hcache'
      isContainer toId

end

end MailServer.Jmap
