import MailServer.Jmap.QueryChanges

/-!
# The splice law of query changes

A client that applies the responses to its old result list has the new one if every response is
right.  The pages of the changes since a state say of every object that there is in the end what has
become of it, on one page; the places in a response are those in the whole new list, so a page on
which other objects are still missing puts its own in the wrong places.

Principal results: `exists_reported`, `splice_iff`, `queryChanges_splice_iff`.
-/

namespace MailServer.Jmap

open MailServer.Store Splicing List

variable {page : ChangesResponse} {maxResults : Option ℕ}

/-! ## What the pages report -/

/-- The page names the object. -/
def ChangesResponse.Mentions (page : ChangesResponse) (id : UInt64) : Prop :=
  id ∈ page.created ∨ id ∈ page.updated ∨ id ∈ page.destroyed

/-- The pages say what has become of the objects since a change id. -/
structure Reported (l : CollectionLog) (isContainer : Bool) (changeId : ℕ)
    (pages : List ChangesResponse) : Prop where
  created : ∀ id, (∃ page ∈ pages, id ∈ page.created) ↔
    l.alive isContainer changeId id = false ∧ l.aliveNow isContainer id
  destroyed : ∀ id, (∃ page ∈ pages, id ∈ page.destroyed) ↔
    l.alive isContainer changeId id ∧ l.aliveNow isContainer id = false
  untouched : ∀ id, l.alive isContainer changeId id →
    (∀ page ∈ pages, ¬ page.Mentions id) → ∀ b ∈ l.since changeId,
      b.batch.calls.filterMap (LogCall.kindOf isContainer id) = []
  once : ∀ id, l.aliveNow isContainer id →
    pages.Pairwise fun page page' => ¬ page.Mentions id ∨ ¬ page'.Mentions id
  updated : ∀ id, l.aliveNow isContainer id → ∀ page ∈ pages, id ∈ page.updated →
    l.alive isContainer changeId id

section Chunks

variable {isContainer : Bool} {pages : List ChangesResponse} {sent : List (List Change)}

theorem exists_page_iff (hall : List.Forall₂ Sends pages sent) {P : ChangesResponse → Prop}
    {Q : List Change → Prop} (h : ∀ page, ∀ chunk ∈ sent, Sends page chunk → (P page ↔ Q chunk)) :
    (∃ page ∈ pages, P page) ↔ ∃ chunk ∈ sent, Q chunk := by
  induction hall with
  | nil => simp
  | @cons page chunk pages sent hsends hall ih =>
    have hrest := ih fun page' chunk' hchunk => h page' chunk' (.tail _ hchunk)
    simp only [exists_mem_cons_iff]
    rw [h page chunk (by simp) hsends, hrest]

theorem mem_kinds_flatten {id : UInt64} {kind : Kind} :
    kind ∈ sent.flatten.filterMap (Change.kindOf isContainer id) ↔
      ∃ chunk ∈ sent, kind ∈ chunk.filterMap (Change.kindOf isContainer id) := by
  rw [filterMap_flatten, mem_flatten]
  simp only [mem_map, exists_exists_and_eq_and]

theorem mem_updated {chunk : List Change} (id : UInt64)
    (h : ∀ change ∈ chunk, change.concerns isContainer)
    (hupdated : id ∈ chunk.filterMap Change.updated) :
    ∃ kind ∈ chunk.filterMap (Change.kindOf isContainer id), kind = .update ∨ kind = .property := by
  obtain ⟨change, hmem, hchange⟩ := mem_filterMap.1 hupdated
  have hconcerns := h change hmem
  refine ⟨(Change.kindOf isContainer id change).getD .update,
    mem_filterMap.2 ⟨change, hmem, ?_⟩, ?_⟩ <;>
    cases isContainer <;> cases change <;>
    simp_all [Change.concerns, Change.isContainerChange, Change.isItemChange, Change.updated,
      Change.kindOf, Change.containerKind, Change.itemKind]

theorem mentions_iff {chunk : List Change} (id : UInt64)
    (hsends : Sends page chunk) (h : ∀ change ∈ chunk, change.concerns isContainer) :
    page.Mentions id ↔ chunk.filterMap (Change.kindOf isContainer id) ≠ [] := by
  constructor
  · unfold ChangesResponse.Mentions
    rw [hsends.created, hsends.updated, hsends.destroyed, mem_created_iff id h,
      mem_destroyed_iff id h]
    rintro (hmem | hmem | hmem)
    · exact ne_nil_of_mem hmem
    · obtain ⟨kind, hmem, -⟩ := mem_updated id h hmem
      exact ne_nil_of_mem hmem
    · exact ne_nil_of_mem hmem
  · exact mem_page id hsends

theorem mentions_once (hall : List.Forall₂ Sends pages sent) {id : UInt64}
    (h : ∀ change ∈ sent.flatten, change.concerns isContainer)
    (hone : (sent.flatten.filterMap (Change.kindOf isContainer id)).length ≤ 1) :
    pages.Pairwise fun page page' => ¬ page.Mentions id ∨ ¬ page'.Mentions id := by
  induction hall with
  | nil => exact .nil
  | @cons page chunk pages sent hsends hall ih =>
    rw [flatten_cons] at h hone
    have hchunk : ∀ change ∈ chunk, change.concerns isContainer := fun change hmem =>
      h change (mem_append_left _ hmem)
    have hrest : ∀ change ∈ sent.flatten, change.concerns isContainer :=
      fun change hmem => h change (mem_append_right _ hmem)
    rw [filterMap_append, length_append] at hone
    refine pairwise_cons.2 ⟨fun page' hpage' => ?_, ih hrest (by omega)⟩
    rw [mentions_iff id hsends hchunk, or_iff_not_imp_left, not_not]
    intro hne hmentions
    obtain ⟨chunk', hchunk', hne'⟩ := (exists_page_iff hall
      (Q := fun chunk => chunk.filterMap (Change.kindOf isContainer id) ≠ [])
      fun page chunk hmem hsends => mentions_iff id hsends fun change hchange =>
        hrest change (mem_flatten.2 ⟨chunk, hmem, hchange⟩)).1 ⟨page', hpage', hmentions⟩
    obtain ⟨kind, hkind⟩ := exists_mem_of_ne_nil _ hne'
    have hpos := length_pos_of_ne_nil hne
    have hpos' := length_pos_of_mem (mem_kinds_flatten.2 ⟨chunk', hchunk', hkind⟩)
    omega

end Chunks

section Reading

variable {collection : SyncCollection} {isContainer : Bool} {object : MethodObject}

/-- Pages that send all that is merged since a change id report it. -/
theorem reported_of_sends {l : CollectionLog} {changeId : ℕ} {pages}
    {sent : List (List Change)} (hall : List.Forall₂ Sends pages sent)
    (hflatten : sent.flatten = (l.readSince changeId).relevant isContainer) :
    Reported l isContainer changeId pages := by
  have hconcerns : ∀ change ∈ sent.flatten, change.concerns isContainer := by
    intro change hmem
    rw [hflatten] at hmem
    exact (mem_filter.1 hmem).2
  have hchunk : ∀ chunk ∈ sent, ∀ change ∈ chunk, change.concerns isContainer :=
    fun chunk hchunk change hmem => hconcerns change (mem_flatten.2 ⟨chunk, hchunk, hmem⟩)
  have hkinds : ∀ id, sent.flatten.filterMap (Change.kindOf isContainer id) =
      mergedKinds [] (callsOf isContainer id (l.since changeId)) := by
    intro id
    rw [hflatten]
    exact l.kinds_since isContainer changeId id
  have hcreated : ∀ id, (∃ page ∈ pages, id ∈ page.created) ↔
      l.alive isContainer changeId id = false ∧ l.aliveNow isContainer id := by
    intro id
    obtain ⟨hlife, hnow⟩ := l.legal_since isContainer changeId id
    have hpages : (∃ page ∈ pages, id ∈ page.created) ↔
        ∃ chunk ∈ sent, Kind.insert ∈ chunk.filterMap (Change.kindOf isContainer id) :=
      exists_page_iff hall fun page chunk hmem hsends => by
        rw [hsends.created, mem_created_iff id (hchunk chunk hmem)]
    rw [hpages, ← mem_kinds_flatten, hkinds, (merged_kinds hlife).1]
    unfold CollectionLog.aliveNow
    rw [hnow]
  refine ⟨hcreated, fun id => ?_, fun id halive hnone b hb => ?_, fun id hnow => ?_,
    fun id hnow page hpage hupdated => ?_⟩
  · obtain ⟨hlife, hnow⟩ := l.legal_since isContainer changeId id
    have hpages : (∃ page ∈ pages, id ∈ page.destroyed) ↔
        ∃ chunk ∈ sent, Kind.delete ∈ chunk.filterMap (Change.kindOf isContainer id) :=
      exists_page_iff hall fun page chunk hmem hsends => by
        rw [hsends.destroyed, mem_destroyed_iff id (hchunk chunk hmem)]
    rw [hpages, ← mem_kinds_flatten, hkinds, (merged_kinds hlife).2.1]
    unfold CollectionLog.aliveNow
    rw [hnow]
  · have hnil : sent.flatten.filterMap (Change.kindOf isContainer id) = [] := by
      by_contra hne
      obtain ⟨kind, hkind⟩ := exists_mem_of_ne_nil _ hne
      obtain ⟨chunk, hmem, hkind⟩ := mem_kinds_flatten.1 hkind
      obtain ⟨page, hpage, hmentions⟩ := (exists_page_iff hall fun page chunk hmem hsends =>
        mentions_iff id hsends (hchunk chunk hmem)).2 ⟨chunk, hmem, ne_nil_of_mem hkind⟩
      exact hnone page hpage hmentions
    have hlife := (l.legal_since isContainer changeId id).1
    rw [halive] at hlife
    rw [hkinds] at hnil
    have hflat := ((merged_kinds hlife).2.2.1 hnil).resolve_right fun hdead => by
      cases hdead.1
    exact flatten_eq_nil_iff.1 hflat _ (mem_map.2 ⟨b, hb, rfl⟩)
  · refine mentions_once hall hconcerns ?_
    obtain ⟨hlife, hafter⟩ := l.legal_since isContainer changeId id
    unfold CollectionLog.aliveNow at hnow
    rw [hafter] at hnow
    rw [hkinds]
    exact length_mergedKinds_le hlife hnow
  · -- an object that was not there before has its insertion as its one change
    by_contra hbefore
    rw [Bool.not_eq_true] at hbefore
    obtain ⟨hlife, hafter⟩ := l.legal_since isContainer changeId id
    have hnow' := hnow
    unfold CollectionLog.aliveNow at hnow'
    rw [hafter] at hnow'
    have hinsert := (merged_kinds hlife).1.2 ⟨hbefore, hnow'⟩
    have hone := length_mergedKinds_le hlife hnow'
    have hpages : (∃ page ∈ pages, id ∈ page.updated) ↔
        ∃ chunk ∈ sent, id ∈ chunk.filterMap Change.updated :=
      exists_page_iff hall fun page chunk _ hsends => by rw [hsends.updated]
    obtain ⟨chunk, hmem, hupdated⟩ := hpages.1 ⟨page, hpage, hupdated⟩
    obtain ⟨kind, hkind, hor⟩ := mem_updated id (hchunk chunk hmem) hupdated
    have hother := mem_kinds_flatten.2 ⟨chunk, hmem, hkind⟩
    rw [hkinds] at hother
    generalize mergedKinds [] (callsOf isContainer id (l.since changeId)) = kinds at *
    match kinds, hone with
    | [], _ => cases hinsert
    | [k], _ =>
      rw [mem_singleton] at hinsert hother
      subst hinsert hother
      rcases hor with h | h <;> cases h
    | k :: k' :: rest, hone => exact absurd hone (by simp)

/-- **The pages** of the changes since a state that is answered report what has become of the
objects, and lead to a state with the objects that there are. -/
theorem exists_reported {m : Moment collection}
    (hobject : object.collection = some (collection, isContainer))
    (hshare : collection ≠ .shareNotification) (hmax : maxResults ≠ some 0) {sinceState : State}
    (hknown : Known m.log sinceState) (hanswers : Answers m isContainer sinceState)
    (limits : ℕ → Option ℕ) :
    ∃ pages final, Pages (answers (constantly m) maxResults object limits) 0 sinceState pages
        final ∧
      (∀ id, m.log.aliveNow isContainer id = m.log.alive isContainer final.changeId id) ∧
      Reported m.log isContainer sinceState.changeId pages := by
  have hgrows : ∀ i, (constantly m 0).log.Grows (constantly m i).log :=
    fun _ => CollectionLog.Grows.refl m.log
  rcases respond_cases hobject hshare hknown hanswers with
    ⟨hsame, hquiet, hrespond⟩ | ⟨hcovers, newState, hnew, hrespond⟩
  · refine ⟨_, _, .last (hrespond maxResults (limits 0)) rfl, hsame, ?_⟩
    refine ⟨fun id => ?_, fun id => ?_, fun id halive _ b hb => ?_, fun id _ => ?_,
      fun id _ page hpage hupdated => ?_⟩
    · rw [hsame]
      simp
    · rw [hsame]
      simp
    · exact hquiet b.changeId id halive b hb (Nat.le_refl _)
    · exact pairwise_singleton _ _
    · rw [mem_singleton.1 hpage] at hupdated
      cases hupdated
  · obtain ⟨pages, sent, final, hpages, hall, hflatten, hfinal⟩ :
        ∃ pages sent final, Pages (answers (constantly m) maxResults object limits) 0 sinceState
            pages final ∧
          List.Forall₂ Sends pages sent ∧
          sent.flatten = (m.log.readSince sinceState.changeId).relevant isContainer ∧
          (final = lastOf m.log isContainer sinceState.changeId newState ∨
            ∃ toId, (m.log.readSince sinceState.changeId).changeId isContainer = some toId ∧
              final = .exact toId) :=
      exists_pages hobject hshare hmax hgrows hcovers fun maxChanges =>
        hrespond maxResults maxChanges
    obtain ⟨e, rfl, -, hnow⟩ := exists_last (known_hasId hknown) hnew hfinal
    exact ⟨pages, _, hpages, hnow, reported_of_sends hall hflatten⟩

end Reading

/-! ## Responses, one after another -/

/-- The new state of a limited response. -/
def State.isIntermediate : State → Bool
  | .intermediate _ _ _ => true
  | _ => false

/-- The responses from a request on, until one is not limited. -/
inductive Responses (respond : ℕ → State → Except ChangesError QueryChangesResponse) :
    ℕ → State → List QueryChangesResponse → State → Prop where
  | last {i : ℕ} {sinceState : State} {r : QueryChangesResponse}
    (hrespond : respond i sinceState = .ok r) (hlast : r.newQueryState.isIntermediate = false) :
    Responses respond i sinceState [r] r.newQueryState
  | more {i : ℕ} {sinceState final : State} {r : QueryChangesResponse}
    {responses : List QueryChangesResponse} (hrespond : respond i sinceState = .ok r)
    (hmore : r.newQueryState.isIntermediate)
    (hresponses : Responses respond (i + 1) r.newQueryState responses final) :
    Responses respond i sinceState (r :: responses) final

theorem Responses.unique {respond : ℕ → State → Except ChangesError QueryChangesResponse} {i : ℕ}
    {sinceState final final' : State} {responses responses'}
    (h : Responses respond i sinceState responses final)
    (h' : Responses respond i sinceState responses' final') : responses' = responses := by
  induction h generalizing responses' with
  | last hrespond hlast =>
    cases h' with
    | last hrespond' _ =>
      rw [hrespond] at hrespond'
      cases hrespond'
      rfl
    | more hrespond' hmore' _ =>
      rw [hrespond] at hrespond'
      cases hrespond'
      rw [hlast] at hmore'
      cases hmore'
  | more hrespond hmore _ ih =>
    cases h' with
    | last hrespond' hlast' =>
      rw [hrespond] at hrespond'
      cases hrespond'
      rw [hmore] at hlast'
      cases hlast'
    | more hrespond' _ hresponses' =>
      rw [hrespond] at hrespond'
      cases hrespond'
      rw [ih hresponses']

section Run

variable {Data Key : Type} [LinearOrder Key] {collection : SyncCollection} {isContainer : Bool}
  {object : MethodObject}

/-- The answers of a server to which nothing happens. -/
def queryAnswers (m : Moment collection) (maxResults : Option ℕ) (queryMaxResults : ℕ)
    (object : MethodObject) (objects : Objects Data) (request : QueryChangesRequest Data Key)
    (limits : ℕ → Option ℕ) : ℕ → State → Except ChangesError QueryChangesResponse :=
  fun i sinceState => queryChanges maxResults queryMaxResults object m.log.entries m.cache objects
    { request with sinceQueryState := sinceState, maxChanges := limits i }

def Lookup.newState : Lookup → State
  | .unchanged newState => newState
  | .found _ _ newState => newState

/-- The state that a lookup leads to is not in the middle of pages. -/
theorem isIntermediate_of_lookup {log} {cache : CacheIds} {sinceState : State}
    {result : Lookup} (h : lookup collection isContainer log cache sinceState = .ok result) :
    result.newState.isIntermediate = false := by
  unfold lookup at h
  cases sinceState with
  | initial =>
    dsimp only at h
    cases hread : readLog (decide (collection = .shareNotification)) log .all with
    | error e =>
      rw [hread] at h
      cases h
    | ok changelog =>
      rw [hread] at h
      simp only [bind, Except.bind] at h
      split at h <;> cases h <;> rfl
  | exact changeId =>
    cases hstate : lastState collection isContainer log cache with
    | error e =>
      rw [hstate] at h
      cases h
    | ok state =>
      have hlast : (state.getD .initial).isIntermediate = false := by
        unfold lastState at hstate
        split at hstate
        · split at hstate
          · cases hstate
            rfl
          · cases hstate
        · cases hstate
          rfl
      rw [hstate] at h
      simp only [bind, Except.bind] at h
      split at h
      · cases h
        rfl
      · split at h
        · cases h
        · cases h
          exact hlast
  | intermediate fromId toId itemsSent =>
    dsimp only at h
    cases hread : readLog (decide (collection = .shareNotification)) log
        (.rangeInclusive fromId toId) with
    | error e =>
      rw [hread] at h
      cases h
    | ok changelog =>
      rw [hread] at h
      simp only [bind, Except.bind] at h
      split at h
      · split at h
        · cases h
        · cases h
          rfl
      · cases h
        rfl

/-- **The new state of a page** is an intermediate one exactly when there are more changes. -/
theorem changes_isIntermediate {log} {cache : CacheIds}
    {request} {r}
    (h : changes maxResults object log cache request = .ok r) :
    r.response.newState.isIntermediate = r.response.hasMoreChanges := by
  unfold changes at h
  cases hobject : object.collection with
  | none =>
    rw [hobject] at h
    cases h
  | some of =>
    obtain ⟨collection, isContainer⟩ := of
    rw [hobject] at h
    dsimp only at h
    cases hlookup : lookup collection isContainer log cache request.sinceState with
    | error e =>
      rw [hlookup] at h
      cases h
    | ok result =>
      have hnew := isIntermediate_of_lookup hlookup
      rw [hlookup] at h
      cases result with
      | unchanged newState =>
        cases h
        exact hnew
      | found itemsSent changelog newState =>
        simp only [bind, Except.bind] at h
        split at h
        · cases h
        · cases h
          rw [page_newState, page_hasMoreChanges]
          split_ifs with hmore hinitial
          · rw [decide_eq_true hmore]
            rfl
          · rw [decide_eq_false hmore]
            rfl
          · rw [decide_eq_false hmore]
            exact hnew

theorem responses_of_pages {m : Moment collection} {queryMaxResults : ℕ}
    {objects : Objects Data} {request : QueryChangesRequest Data Key} {limits : ℕ → Option ℕ}
    {i : ℕ} {sinceState final : State} {pages : List ChangesResponse}
    (h : Pages (answers (constantly m) maxResults object limits) i sinceState pages final) :
    Responses (queryAnswers m maxResults queryMaxResults object objects request limits) i
      sinceState (pages.map (queryResponse queryMaxResults object objects request)) final := by
  have hanswer : ∀ {i : ℕ} {sinceState : State} {r : IntermediateChangesResponse},
      (constantly m i).respond maxResults object (limits i) sinceState = .ok r →
        queryAnswers m maxResults queryMaxResults object objects request limits i sinceState =
          .ok (queryResponse queryMaxResults object objects request r.response) := by
    intro i sinceState r hrespond
    change (changes maxResults object m.log.entries m.cache ⟨sinceState, limits i⟩ >>=
      fun changes =>
      pure (queryResponse queryMaxResults object objects request changes.response)) = _
    have hchanges : changes maxResults object m.log.entries m.cache ⟨sinceState, limits i⟩ =
        .ok r := hrespond
    rw [hchanges]
    rfl
  have hstate : ∀ changes,
      (queryResponse queryMaxResults object objects request changes).newQueryState =
        changes.newState := by
    intro changes
    unfold queryResponse
    dsimp only
    split
    · rfl
    · split
      · split <;> rfl
      · rfl
  induction h with
  | @last i sinceState r hrespond hmore =>
    have hlast := changes_isIntermediate hrespond
    rw [hmore, ← hstate] at hlast
    have h := Responses.last (hanswer hrespond) hlast
    rwa [hstate] at h
  | @more i sinceState final r pages hrespond hmore _ ih =>
    have hnext := changes_isIntermediate hrespond
    rw [hmore, ← hstate] at hnext
    refine .more (hanswer hrespond) hnext ?_
    rw [hstate]
    exact ih

/-! ## The splice law -/

/-- The objects at a change id and those in the end: what no batch is about has not changed. -/
structure Follows (l : CollectionLog) (isContainer : Bool) (changeId : ℕ)
    (q : ObjectQuery Data Key) (mutable : Bool) (old new : Objects Data) : Prop where
  old_ids : (old.map Prod.fst).Nodup
  new_ids : (new.map Prod.fst).Nodup
  mem_old : ∀ id, (∃ data, (id, data) ∈ old) ↔ l.alive isContainer changeId id
  mem_new : ∀ id, (∃ data, (id, data) ∈ new) ↔ l.aliveNow isContainer id
  untouched : ∀ id data, (id, data) ∈ old → (∀ b ∈ l.since changeId,
    b.batch.calls.filterMap (LogCall.kindOf isContainer id) = []) → (id, data) ∈ new
  immutable : mutable = false → ∀ id data data', (id, data) ∈ old → (id, data') ∈ new →
    q.selects (id, data') = q.selects (id, data) ∧ q.key (id, data') = q.key (id, data)

/-- All that is to be put into the new list is among the results that the responses look at. -/
def Shown (mutable : Bool) (target shown : List UInt64) (pages : List ChangesResponse) : Prop :=
  ∀ page ∈ pages, ∀ id ∈ (editOf mutable target page).added, id ∈ shown

/-- Each response puts each object where it belongs, as far as the objects stay that are in the list
by then. -/
def WellPlaced (mutable : Bool) (old target : List UInt64) (pages : List ChangesResponse) : Prop :=
  RunsRight (fun id => target.idxOf id) old (pages.map (editOf mutable target))

section Splice

variable {l : CollectionLog} {changeId : ℕ} {q : ObjectQuery Data Key} {mutable : Bool}
  {old new : Objects Data} {pages : List ChangesResponse} {id : UInt64}

theorem mem_editOf_removed {target : List UInt64} :
    id ∈ (editOf mutable target page).removed ↔
      (mutable ∧ id ∈ page.updated) ∨ id ∈ page.destroyed := by
  unfold editOf
  cases mutable <;> simp

theorem mem_editOf_added {target : List UInt64} :
    id ∈ (editOf mutable target page).added ↔
      id ∈ target ∧ (id ∈ page.created ∨ (mutable ∧ id ∈ page.updated)) := by
  unfold editOf
  cases mutable <;> simp

theorem aliveNow_of_mem_results (hfollows : Follows l isContainer changeId q mutable old new)
    (h : id ∈ q.results new) : l.aliveNow isContainer id := by
  obtain ⟨data, hmem, -⟩ := q.mem_results.1 h
  exact (hfollows.mem_new id).1 ⟨data, hmem⟩

theorem alive_of_mem_results (hfollows : Follows l isContainer changeId q mutable old new)
    (h : id ∈ q.results old) : l.alive isContainer changeId id := by
  obtain ⟨data, hmem, -⟩ := q.mem_results.1 h
  exact (hfollows.mem_old id).1 ⟨data, hmem⟩

section

variable (hreported : Reported l isContainer changeId pages)
  (hfollows : Follows l isContainer changeId q mutable old new)
include hreported hfollows

/-- **What no page takes out** looks to the query as it did. -/
theorem kept (hkept : ∀ page ∈ pages, id ∉ (editOf mutable (q.results new) page).removed)
    {data : Data} (hold : (id, data) ∈ old) :
    ∃ data', (id, data') ∈ new ∧ q.selects (id, data') = q.selects (id, data) ∧
      q.key (id, data') = q.key (id, data) := by
  have halive := (hfollows.mem_old id).1 ⟨data, hold⟩
  have hdestroyed : ∀ page ∈ pages, id ∉ page.destroyed := fun page hpage hmem =>
    hkept page hpage (mem_editOf_removed.2 (.inr hmem))
  cases hm : mutable with
  | true =>
    subst hm
    refine ⟨data, hfollows.untouched id data hold (hreported.untouched id halive ?_), rfl, rfl⟩
    rintro page hpage (hcreated | hupdated | hgone)
    · have hnew := ((hreported.created id).1 ⟨page, hpage, hcreated⟩).1
      rw [halive] at hnew
      cases hnew
    · exact hkept page hpage (mem_editOf_removed.2 (.inl ⟨rfl, hupdated⟩))
    · exact hdestroyed page hpage hgone
  | false =>
    have hnow : l.aliveNow isContainer id := by
      by_contra hgone
      rw [Bool.not_eq_true] at hgone
      obtain ⟨page, hpage, hmem⟩ := (hreported.destroyed id).2 ⟨halive, hgone⟩
      exact hdestroyed page hpage hmem
    obtain ⟨data', hnew⟩ := (hfollows.mem_new id).2 hnow
    obtain ⟨hselects, hkey⟩ := hfollows.immutable hm id data data' hold hnew
    exact ⟨data', hnew, hselects, hkey⟩

theorem mem_new_of_kept (hkept : ∀ page ∈ pages, id ∉ (editOf mutable (q.results new) page).removed)
    (hold : id ∈ q.results old) : id ∈ q.results new := by
  obtain ⟨data, hmem, hselects⟩ := q.mem_results.1 hold
  obtain ⟨data', hmem', hselects', -⟩ := kept hreported hfollows hkept hmem
  exact q.mem_results.2 ⟨data', hmem', hselects'.trans hselects⟩

/-- **What is in the new list** is put in by a page, or was there and is not taken out. -/
theorem added_or_kept (hnew : id ∈ q.results new) :
    (∃ page ∈ pages, id ∈ (editOf mutable (q.results new) page).added) ∨
      (id ∈ q.results old ∧
        ∀ page ∈ pages, id ∉ (editOf mutable (q.results new) page).removed) := by
  rw [or_iff_not_imp_left]
  intro hnone
  have hnow := aliveNow_of_mem_results hfollows hnew
  have hcreated : ∀ page ∈ pages, id ∉ page.created := fun page hpage hmem =>
    hnone ⟨page, hpage, mem_editOf_added.2 ⟨hnew, .inl hmem⟩⟩
  have hkept : ∀ page ∈ pages, id ∉ (editOf mutable (q.results new) page).removed := by
    intro page hpage hremoved
    rcases mem_editOf_removed.1 hremoved with hupdated | hdestroyed
    · exact hnone ⟨page, hpage, mem_editOf_added.2 ⟨hnew, .inr hupdated⟩⟩
    · have hgone := ((hreported.destroyed id).1 ⟨page, hpage, hdestroyed⟩).2
      rw [hnow] at hgone
      cases hgone
  have halive : l.alive isContainer changeId id := by
    by_contra hnot
    rw [Bool.not_eq_true] at hnot
    obtain ⟨page, hpage, hmem⟩ := (hreported.created id).2 ⟨hnot, hnow⟩
    exact hcreated page hpage hmem
  obtain ⟨data, hold⟩ := (hfollows.mem_old id).2 halive
  obtain ⟨data', hmem', hselects, -⟩ := kept hreported hfollows hkept hold
  obtain ⟨data'', hmem'', hselects''⟩ := q.mem_results.1 hnew
  rw [eq_of_mem_objects hfollows.new_ids hmem'' hmem', hselects] at hselects''
  exact ⟨q.mem_results.2 ⟨data, hold, hselects''⟩, hkept⟩

theorem removed_of_added (hpage : page ∈ pages)
    (hadded : id ∈ (editOf mutable (q.results new) page).added) (hold : id ∈ q.results old) :
    id ∈ (editOf mutable (q.results new) page).removed := by
  rcases (mem_editOf_added.1 hadded).2 with hcreated | hupdated
  · have hnot := ((hreported.created id).1 ⟨page, hpage, hcreated⟩).1
    rw [alive_of_mem_results hfollows hold] at hnot
    cases hnot
  · exact mem_editOf_removed.2 (.inl hupdated)

theorem added_once : (pages.map (editOf mutable (q.results new))).Pairwise
      fun e e' => ∀ id ∈ e.added, id ∉ e'.removed ∧ id ∉ e'.added := by
  rw [pairwise_map, pairwise_iff_forall_sublist]
  intro page page' hsub id hadded
  obtain ⟨hnew, hchanged⟩ := mem_editOf_added.1 hadded
  have honce := pairwise_iff_forall_sublist.1
    (hreported.once id (aliveNow_of_mem_results hfollows hnew)) hsub
  have hmentions : page.Mentions id := hchanged.imp_right fun h => .inl h.2
  have hnot := honce.resolve_left (not_not.2 hmentions)
  refine ⟨fun hremoved => hnot ?_, fun hadded' => hnot ?_⟩
  · rcases mem_editOf_removed.1 hremoved with ⟨-, hupdated⟩ | hdestroyed
    · exact .inr (.inl hupdated)
    · exact .inr (.inr hdestroyed)
  · rcases (mem_editOf_added.1 hadded').2 with hcreated | ⟨-, hupdated⟩
    · exact .inl hcreated
    · exact .inr (.inl hupdated)

end

theorem idxOf_lt_of_key (hids : (new.map Prod.fst).Nodup) {id' : UInt64} {data data' : Data}
    (h : (id, data) ∈ new) (h' : (id', data') ∈ new) (hid : id ∈ q.results new)
    (hid' : id' ∈ q.results new) (hlt : q.key (id, data) < q.key (id', data')) :
    (q.results new).idxOf id < (q.results new).idxOf id' := by
  by_contra hge
  have hne : (q.results new).idxOf id' ≠ (q.results new).idxOf id := by
    intro heq
    have hsame := eq_of_idxOf_eq hid heq
    subst hsame
    rw [eq_of_mem_objects hids h h'] at hlt
    exact lt_irrefl _ hlt
  have hbefore : (q.results new).idxOf id' < (q.results new).idxOf id := by omega
  have hpair := pairwise_iff_getElem.1 (q.results_sorted hids) _ _
    (idxOf_lt_length_of_mem hid') (idxOf_lt_length_of_mem hid) hbefore
  rw [getElem_idxOf, getElem_idxOf] at hpair
  exact lt_asymm hlt (hpair data' data h' h)

theorem ranked_old (hreported : Reported l isContainer changeId pages)
    (hfollows : Follows l isContainer changeId q mutable old new) :
    Ranked (fun id => (q.results new).idxOf id)
      (settled (pages.map (editOf mutable (q.results new)))) (q.results old) := by
  have hkept : ∀ {id : UInt64}, settled (pages.map (editOf mutable (q.results new))) id →
      ∀ page ∈ pages, id ∉ (editOf mutable (q.results new) page).removed :=
        fun hsettled page hpage =>
    settled_iff.1 hsettled _ (mem_map.2 ⟨page, hpage, rfl⟩)
  unfold Ranked
  rw [pairwise_filter]
  refine (q.results_sorted hfollows.old_ids).imp_of_mem ?_
  intro id id' hid hid' hlt hsettled hsettled'
  obtain ⟨data, hmem, -⟩ := q.mem_results.1 hid
  obtain ⟨data', hmem', -⟩ := q.mem_results.1 hid'
  obtain ⟨now, hnow, -, hkey⟩ := kept hreported hfollows (hkept hsettled) hmem
  obtain ⟨now', hnow', -, hkey'⟩ := kept hreported hfollows (hkept hsettled') hmem'
  refine idxOf_lt_of_key hfollows.new_ids hnow hnow'
    (mem_new_of_kept hreported hfollows (hkept hsettled) hid)
    (mem_new_of_kept hreported hfollows (hkept hsettled') hid') ?_
  rw [hkey, hkey']
  exact hlt data data' hmem hmem'

/-- **With everything shown** the client has the new list exactly when all is well placed. -/
theorem run_eq_iff (hreported : Reported l isContainer changeId pages)
    (hfollows : Follows l isContainer changeId q mutable old new) :
    run (fun id => (q.results new).idxOf id) (q.results old)
        (pages.map (editOf mutable (q.results new))) = q.results new ↔
      WellPlaced mutable (q.results old) (q.results new) pages := by
  have hnodup := q.results_nodup hfollows.new_ids
  have honce := added_once hreported hfollows
  have hfresh : Splicing.Fresh (fun id => (q.results new).idxOf id) (q.results new)
      (q.results old) (pages.map (editOf mutable (q.results new))) := by
    refine fresh_of_once _ (fun e he => ?_) honce fun e he x hx hold => ?_
    · obtain ⟨page, -, rfl⟩ := mem_map.1 he
      exact ⟨hnodup.filter _, fun x hx => (mem_editOf_added.1 hx).1⟩
    · obtain ⟨page, hpage, rfl⟩ := mem_map.1 he
      exact removed_of_added hreported hfollows hpage hx hold
  have hranked := ranked_run_iff (fun id => (q.results new).idxOf id) (q.results new)
    (fun x hx y h => eq_of_idxOf_eq hx h) (ranked_old hreported hfollows) hfresh
  refine Iff.trans ⟨fun heq => ?_, fun h => ?_⟩ hranked
  · rw [heq]
    exact pairwise_idxOf hnodup
  · refine eq_of_ranked _ h (pairwise_idxOf hnodup) fun x => ?_
    rw [mem_run _ (honce.imp fun h x hx => (h x hx).1), settled_iff]
    simp only [mem_map, exists_exists_and_eq_and, forall_exists_index, and_imp,
      forall_apply_eq_imp_iff₂]
    constructor
    · rintro (⟨page, -, hx⟩ | ⟨hold, hkept⟩)
      · exact (mem_editOf_added.1 hx).1
      · exact mem_new_of_kept hreported hfollows hkept hold
    · exact added_or_kept hreported hfollows

/-- **One page** is well placed. -/
theorem wellPlaced_single (hreported : Reported l isContainer changeId [page])
    (hfollows : Follows l isContainer changeId q mutable old new) :
    WellPlaced mutable (q.results old) (q.results new) [page] := by
  have hnodup := q.results_nodup hfollows.new_ids
  have hpairwise := pairwise_idxOf hnodup
  have hranked := ranked_old hreported hfollows
  change ((q.results old).filter (settled [editOf mutable (q.results new) page])).Pairwise _
    at hranked
  have hsettled : ∀ l : List UInt64, l.filter (settled []) = l := fun l =>
    filter_eq_self.2 fun _ _ => rfl
  rw [filter_settled_cons, hsettled] at hranked
  refine ⟨insertsRight_of_complete _ hpairwise (fun x hx => countP_idxOf_lt hnodup hx) hranked ?_
    (hpairwise.sublist filter_sublist) ?_ ?_, trivial⟩
  · intro x hx
    obtain ⟨hold, hkept⟩ := mem_filter.1 hx
    refine mem_new_of_kept hreported hfollows (fun page' hpage' => ?_) hold
    rw [mem_singleton.1 hpage']
    exact of_decide_eq_true hkept
  · intro x hx
    refine ⟨(mem_editOf_added.1 hx).1, fun hmem => ?_⟩
    obtain ⟨hold, hkept⟩ := mem_filter.1 hmem
    exact of_decide_eq_true hkept (removed_of_added hreported hfollows (by simp) hx hold)
  · intro x hx
    rcases added_or_kept hreported hfollows hx with ⟨page', hpage', hadded⟩ | ⟨hold, hkept⟩
    · rw [mem_singleton.1 hpage'] at hadded
      exact .inr hadded
    · exact .inl (mem_filter.2 ⟨hold, decide_eq_true (hkept page (by simp))⟩)

theorem editOf_shown {target shown : List UInt64} (hstart : shown <+: target)
    {page : ChangesResponse} (h : ∀ id ∈ (editOf mutable target page).added, id ∈ shown)
    (hnodup : target.Nodup) :
    (editOf mutable shown page).added = (editOf mutable target page).added := by
  obtain ⟨rest, rfl⟩ := hstart
  unfold editOf at h ⊢
  have hnone : rest.filter (fun id =>
      page.created.contains id || (mutable && page.updated.contains id)) = [] := by
    refine filter_eq_nil_iff.2 fun id hid hchanged => ?_
    have hmem := h id (mem_filter.2 ⟨mem_append_right _ hid, hchanged⟩)
    exact (nodup_append.1 hnodup).2.2 id hmem id hid rfl
  rw [filter_append, hnone, append_nil]

/-- **The splice law**: a client has the new list exactly when all that is to be put in is looked at
and put in the right places. -/
theorem splice_iff (queryMaxResults : ℕ) (request : QueryChangesRequest Data Key)
    (hreported : Reported l isContainer changeId pages)
    (hfollows : Follows l isContainer changeId request.query (isMutable object request.query)
      old new) :
    (pages.map (queryResponse queryMaxResults object new request)).foldl applyResponse
        (request.query.results old) = request.query.results new ↔
      Shown (isMutable object request.query) (request.query.results new)
          (shownIds queryMaxResults (isMutable object request.query) request.upToId
            (request.query.results new)) pages ∧
        WellPlaced (isMutable object request.query) (request.query.results old)
          (request.query.results new) pages := by
  have hnodup := request.query.results_nodup hfollows.new_ids
  have happly := fun changes results =>
    applyResponse_queryResponse queryMaxResults object request changes hfollows.new_ids results
  have hstart := prefix_shownIds queryMaxResults (isMutable object request.query) request.upToId
    (request.query.results new)
  have hrun := run_eq_iff hreported hfollows
  have honce := added_once hreported hfollows
  generalize isMutable object request.query = mutable at *
  generalize shownIds queryMaxResults mutable request.upToId (request.query.results new) = shown
    at *
  have hfold : (pages.map (queryResponse queryMaxResults object new request)).foldl applyResponse
      (request.query.results old) =
        run (fun id => (request.query.results new).idxOf id) (request.query.results old)
          (pages.map fun page => { editOf mutable (request.query.results new) page with
            added := (editOf mutable shown page).added }) := by
    unfold run
    rw [foldl_map, foldl_map]
    exact congrArg (fun f => pages.foldl f _) (funext fun results => funext fun page =>
      happly page results)
  rw [hfold]
  have hsub : ∀ page, (editOf mutable shown page).added.Sublist
      (editOf mutable (request.query.results new) page).added := fun page =>
    hstart.sublist.filter _
  -- what is put in by an edit that does not see everything is put in by one that does
  have honce' : (pages.map fun page => { editOf mutable (request.query.results new) page with
      added := (editOf mutable shown page).added }).Pairwise
        fun e e' => ∀ x ∈ e.added, x ∉ e'.removed := by
    rw [pairwise_map] at honce ⊢
    exact honce.imp fun {page page'} h x hx => (h x ((hsub page).subset hx)).1
  have hsame : Shown mutable (request.query.results new) shown pages →
      (pages.map fun page => { editOf mutable (request.query.results new) page with
        added := (editOf mutable shown page).added }) =
          pages.map (editOf mutable (request.query.results new)) := by
    intro hshown
    refine map_congr_left fun page hpage => ?_
    rw [editOf_shown hstart (hshown page hpage) hnodup]
  constructor
  · intro heq
    have hshown : Shown mutable (request.query.results new) shown pages := by
      intro page hpage x hx
      have hmem : x ∈ request.query.results new := (mem_editOf_added.1 hx).1
      rw [← heq, mem_run _ honce'] at hmem
      rcases hmem with ⟨e, he, hadded⟩ | ⟨hold, hsettled⟩
      · obtain ⟨page', -, rfl⟩ := mem_map.1 he
        exact (mem_editOf_added.1 hadded).1
      · have hremoved := removed_of_added hreported hfollows hpage hx hold
        have hkept := settled_iff.1 hsettled _ (mem_map.2 ⟨page, hpage, rfl⟩)
        cases hkept hremoved
    rw [hsame hshown] at heq
    exact ⟨hshown, hrun.1 heq⟩
  · rintro ⟨hshown, hplaced⟩
    rw [hsame hshown]
    exact hrun.2 hplaced

end Splice

/-- What following the new states from a state comes to, for a client that has the old list. -/
structure Spliced (m : Moment collection) (isContainer : Bool) (object : MethodObject)
    (maxResults : Option ℕ) (queryMaxResults : ℕ) (request : QueryChangesRequest Data Key)
    (limits : ℕ → Option ℕ) (old new : Objects Data) (pages : List ChangesResponse)
    (final : State) : Prop where
  paged : Pages (answers (constantly m) maxResults object limits) 0 request.sinceQueryState pages
    final
  objects : ∀ id, m.log.aliveNow isContainer id = m.log.alive isContainer final.changeId id
  responds : ∃ responses, Responses
    (queryAnswers m maxResults queryMaxResults object new request limits) 0
      request.sinceQueryState responses final
  splice : ∀ responses final', Responses
      (queryAnswers m maxResults queryMaxResults object new request limits) 0
        request.sinceQueryState responses final' →
    (responses.foldl applyResponse (request.query.results old) = request.query.results new ↔
      Shown (isMutable object request.query) (request.query.results new)
          (shownIds queryMaxResults (isMutable object request.query) request.upToId
            (request.query.results new)) pages ∧
        WellPlaced (isMutable object request.query) (request.query.results old)
          (request.query.results new) pages)
  single : pages.length = 1 → WellPlaced (isMutable object request.query)
    (request.query.results old) (request.query.results new) pages

/-- **The splice law of `queryChanges`.** -/
theorem queryChanges_splice_iff {m : Moment collection} {maxResults : Option ℕ}
    (hobject : object.collection = some (collection, isContainer))
    (hshare : collection ≠ .shareNotification) (hmax : maxResults ≠ some 0)
    (queryMaxResults : ℕ) (request : QueryChangesRequest Data Key)
    (hknown : Known m.log request.sinceQueryState)
    (hanswers : Answers m isContainer request.sinceQueryState) (limits : ℕ → Option ℕ)
    {old new : Objects Data}
    (hfollows : Follows m.log isContainer request.sinceQueryState.changeId request.query
      (isMutable object request.query) old new) :
    ∃ pages final, Spliced m isContainer object maxResults queryMaxResults request limits old new
      pages final := by
  obtain ⟨pages, final, hpages, hnow, hreported⟩ :=
    exists_reported hobject hshare hmax hknown hanswers limits
  have hresponses : Responses
      (queryAnswers m maxResults queryMaxResults object new request limits) 0
        request.sinceQueryState (pages.map (queryResponse queryMaxResults object new request))
          final := responses_of_pages hpages
  refine ⟨pages, final, hpages, hnow, ⟨_, hresponses⟩, fun responses final' h => ?_, fun hone => ?_⟩
  · rw [hresponses.unique h]
    exact splice_iff queryMaxResults request hreported hfollows
  · obtain ⟨page, rfl⟩ := length_eq_one_iff.1 hone
    exact wellPlaced_single hreported hfollows

end Run

/-! ## A page before another -/

theorem legalLife_of_insert {batches : List (List Kind)}
    (h : batches.flatten = [] ∨ batches.flatten = [.insert]) : LegalLife false batches := by
  refine ⟨?_, pairwise_iff_forall_sublist.2 fun {earlier later} hsub hdelete => ?_⟩
  · rcases h with h | h <;> simp [h, Legal]
  · have hmem : Kind.delete ∈ batches.flatten :=
      mem_flatten.2 ⟨earlier, hsub.subset (by simp), hdelete⟩
    rcases h with h | h <;> simp [h] at hmem

/-- Items 7, 6 and 5 are inserted. -/
def threeInserts : CollectionLog where
  history := [⟨1, insertBatch 7⟩, ⟨2, insertBatch 6⟩, ⟨3, insertBatch 5⟩]
  truncatedAt := none
  sorted := by simp
  positive := by simp
  bounded := by simp
  truncated t ht := by cases ht
  legal isContainer id := by
    cases isContainer with
    | true =>
      have hcalls : callsOf true id [⟨1, insertBatch 7⟩, ⟨2, insertBatch 6⟩, ⟨3, insertBatch 5⟩] =
          [[], [], []] := by
        simp [callsOf, insertBatch, LogCall.kindOf, LogCall.containerKind]
      rw [hcalls]
      exact ⟨by simp [Legal], by simp⟩
    | false =>
      refine legalLife_of_insert ?_
      by_cases h : id ∈ [5, 6, 7]
      · simp only [mem_cons, not_mem_nil, or_false] at h
        rcases h with rfl | rfl | rfl <;> exact .inr (by decide)
      · simp only [mem_cons, not_mem_nil, or_false, not_or] at h
        obtain ⟨h5, h6, h7⟩ := h
        simp [callsOf, insertBatch, LogCall.kindOf, LogCall.itemKind, buildId, Ne.symm h5,
          Ne.symm h6, Ne.symm h7]

/-- All objects, by their ids. -/
def byId (sinceQueryState : State) (maxChanges : Option ℕ) : QueryChangesRequest Unit ℕ where
  query := ⟨fun _ => true, fun o => o.1.toNat, true, fun _ _ h => UInt64.toNat_inj.1 h⟩
  sinceQueryState := sinceQueryState
  maxChanges := maxChanges
  upToId := none
  calculateTotal := none

theorem threeInserts_alive (id : UInt64) :
    threeInserts.alive false 1 id = decide (id ∈ [7]) ∧
      threeInserts.aliveNow false id = decide (id ∈ [5, 6, 7]) := by
  by_cases h : id ∈ [5, 6, 7]
  · simp only [mem_cons, not_mem_nil, or_false] at h
    rcases h with rfl | rfl | rfl <;> exact ⟨by decide, by decide⟩
  · have h' : id ∉ [7] := fun hmem => h (by simp [mem_singleton.1 hmem])
    rw [decide_eq_false h, decide_eq_false h']
    simp only [mem_cons, not_mem_nil, or_false, not_or] at h
    obtain ⟨h5, h6, h7⟩ := h
    constructor
    · have hupTo : threeInserts.upTo 1 = [⟨1, insertBatch 7⟩] := rfl
      unfold CollectionLog.alive
      rw [hupTo]
      simp [callsOf, insertBatch, LogCall.kindOf, LogCall.itemKind, buildId, aliveAfter,
        Ne.symm h7]
    · unfold CollectionLog.aliveNow threeInserts
      simp [callsOf, insertBatch, LogCall.kindOf, LogCall.itemKind, buildId, aliveAfter,
        Ne.symm h5, Ne.symm h6, Ne.symm h7]

theorem threeInserts_follows (sinceQueryState : State) (maxChanges : Option ℕ) :
    Follows threeInserts false 1 (byId sinceQueryState maxChanges).query true [(7, ())]
      [(5, ()), (6, ()), (7, ())] where
  old_ids := by simp
  new_ids := by simp
  mem_old id := by
    rw [(threeInserts_alive id).1]
    simp
  mem_new id := by
    rw [(threeInserts_alive id).2]
    simp
  untouched id data hmem _ := by
    simp [hmem]
  immutable h := by cases h

theorem queryChanges_splice_iff_threeInserts :
    ∃ pages final, Spliced (.built .email threeInserts) false .email (some 5000) 5000
      (byId (.exact 1) none) (fun _ => none) [(7, ())] [(5, ()), (6, ()), (7, ())] pages final := by
  have hshare : SyncCollection.email ≠ .shareNotification := by decide
  have hmax : some 5000 ≠ some 0 := by decide
  have hknown : Known threeInserts (.exact 1) :=
    .inr ⟨⟨1, insertBatch 7⟩, by simp [threeInserts], rfl⟩
  have hanswers : Answers (.built .email threeInserts) false (.exact 1) :=
    .inr ⟨(fun t ht => by cases ht), .inl (by decide)⟩
  have hobject : MethodObject.email.collection = some (.email, false) := rfl
  exact queryChanges_splice_iff hobject hshare hmax 5000 (byId (.exact 1) none) hknown hanswers
    (fun _ => none) (threeInserts_follows (.exact 1) none)

/-- With one change a page, object 6 is put in the place it has once object 5 is there; with one
result a query, neither it nor object 7 is looked at. -/
theorem not_queryChanges_splice :
    Follows threeInserts false 1 (byId (.exact 1) none).query true [(7, ())]
        [(5, ()), (6, ()), (7, ())] ∧
      (byId (.exact 1) none).query.results [(7, ())] = [7] ∧
      (byId (.exact 1) none).query.results [(5, ()), (6, ()), (7, ())] = [5, 6, 7] ∧
      (∃ responses, Responses (queryAnswers (.built .email threeInserts) none 5000 .email
          [(5, ()), (6, ()), (7, ())] (byId (.exact 1) none) fun _ => some 1) 0 (.exact 1) responses
            (.exact 3) ∧
        responses.foldl applyResponse [7] = [5, 7, 6]) ∧
      (∃ responses, Responses (queryAnswers (.built .email threeInserts) none 1 .email
          [(5, ()), (6, ()), (7, ())] (byId (.exact 1) none) fun _ => none) 0 (.exact 1) responses
            (.exact 3) ∧
        responses.foldl applyResponse [7] = [5, 7]) := by
  have hfirst : queryAnswers (.built .email threeInserts) none 5000 .email
      [(5, ()), (6, ()), (7, ())] (byId (.exact 1) none) (fun _ => some 1) 0 (.exact 1) =
        .ok ⟨.exact 1, .intermediate 2 3 1, none, [], [⟨6, 1⟩]⟩ := by decide +kernel
  have hsecond : queryAnswers (.built .email threeInserts) none 5000 .email
      [(5, ()), (6, ()), (7, ())] (byId (.exact 1) none) (fun _ => some 1) 1
        (.intermediate 2 3 1) = .ok ⟨.intermediate 2 3 1, .exact 3, none, [], [⟨5, 0⟩]⟩ := by
    decide +kernel
  have hcut : queryAnswers (.built .email threeInserts) none 1 .email
      [(5, ()), (6, ()), (7, ())] (byId (.exact 1) none) (fun _ => none) 0 (.exact 1) =
        .ok ⟨.exact 1, .exact 3, none, [], [⟨5, 0⟩]⟩ := by decide +kernel
  have hlast : Responses (queryAnswers (.built .email threeInserts) none 5000 .email
      [(5, ()), (6, ()), (7, ())] (byId (.exact 1) none) fun _ => some 1) 1 (.intermediate 2 3 1)
        [⟨.intermediate 2 3 1, .exact 3, none, [], [⟨5, 0⟩]⟩] (.exact 3) := .last hsecond rfl
  refine ⟨threeInserts_follows (.exact 1) none, by decide, by decide, ⟨_, .more hfirst rfl hlast,
    by decide⟩, ⟨_, .last hcut rfl, by decide⟩⟩

end MailServer.Jmap
