import MailServer.Jmap.StateCache

/-!
# Paging through changes

A client asks for the changes since a state, and goes on with the new state of every page until
there are no more.  The first page fixes the part of the log that the pages are about; every later
page reads this part again and leaves out what was sent.

Principal results: `changes_intermediate`, `exists_pages`, `changes_paging`.
-/

namespace MailServer.Jmap

open MailServer.Store List

/-! ## A client -/

/-- The log and the cache when a request is made. -/
structure Moment (collection : SyncCollection) where
  log : CollectionLog
  cache : CacheIds
  cached : Cached collection log cache

variable {collection : SyncCollection}

def Moment.respond (m : Moment collection) (maxResults : Option ℕ) (object : MethodObject)
    (maxChanges : Option ℕ) (sinceState : State) :
    Except ChangesError IntermediateChangesResponse :=
  changes maxResults object m.log.entries m.cache ⟨sinceState, maxChanges⟩

/-- The pages from a request on, until there are no more changes. -/
inductive Pages (respond : ℕ → State → Except ChangesError IntermediateChangesResponse) :
    ℕ → State → List ChangesResponse → State → Prop where
  | last {i : ℕ} {sinceState : State} {r : IntermediateChangesResponse}
    (hrespond : respond i sinceState = .ok r) (hmore : r.response.hasMoreChanges = false) :
    Pages respond i sinceState [r.response] r.response.newState
  | more {i : ℕ} {sinceState final : State} {r : IntermediateChangesResponse}
    {pages : List ChangesResponse} (hrespond : respond i sinceState = .ok r)
    (hmore : r.response.hasMoreChanges)
    (hpages : Pages respond (i + 1) r.response.newState pages final) :
    Pages respond i sinceState (r.response :: pages) final

/-- What a client does with a page. -/
def applyPage (objects : Set UInt64) (page : ChangesResponse) : Set UInt64 :=
  (objects ∪ {id | id ∈ page.created}) \ {id | id ∈ page.destroyed}

def State.changeId : State → ℕ
  | .initial => 0
  | .exact changeId => changeId
  | .intermediate _ toId _ => toId

/-- A state that has been given out and is not in the middle of pages. -/
def Known (l : CollectionLog) : State → Prop
  | .initial => True
  | .exact changeId => l.HasId changeId
  | .intermediate _ _ _ => False

structure Sends (page : ChangesResponse) (sent : List Change) : Prop where
  created : page.created = sent.filterMap Change.created
  updated : page.updated = sent.filterMap Change.updated
  destroyed : page.destroyed = sent.filterMap Change.destroyed

/-! ## One page -/

theorem pageSize_pos {maxResults : Option ℕ} (h : maxResults ≠ some 0) (maxChanges : Option ℕ) :
    0 < pageSize maxResults maxChanges := by
  refine Nat.lt_min.2 ⟨?_, ?_⟩
  · cases maxChanges with
    | none => decide
    | some n =>
      by_cases hzero : n = 0
      · subst hzero
        decide
      · rw [Option.filter_some_pos (by simpa using hzero)]
        exact Nat.pos_of_ne_zero hzero
  · cases maxResults with
    | none => decide
    | some n => exact Nat.pos_of_ne_zero fun hzero => h (congrArg some hzero)

section

variable (isContainer : Bool) (maxChanges : ℕ) (oldState : State) (itemsSent : ℕ)
  (changelog : Changelog) (newState : State)
include isContainer maxChanges oldState itemsSent changelog newState

theorem page_sends :
    Sends (page isContainer maxChanges oldState itemsSent changelog newState).response
      (((changelog.relevant isContainer).drop itemsSent).take maxChanges) :=
  ⟨rfl, rfl, rfl⟩

theorem page_hasMoreChanges :
    (page isContainer maxChanges oldState itemsSent changelog newState).response.hasMoreChanges =
      decide (itemsSent + maxChanges < (changelog.relevant isContainer).length) := by
  unfold page
  dsimp only
  rw [drop_drop, Bool.eq_iff_iff, Bool.not_eq_true', isEmpty_eq_false_iff, ne_eq,
    drop_eq_nil_iff, decide_eq_true_eq, Nat.not_le]

/-- **The next state** after a page. -/
theorem page_newState :
    (page isContainer maxChanges oldState itemsSent changelog newState).response.newState =
      if itemsSent + maxChanges < (changelog.relevant isContainer).length then
        .intermediate changelog.fromChangeId
          ((changelog.changeId isContainer).getD changelog.toChangeId) (itemsSent + maxChanges)
      else if newState = .initial then
        .exact ((changelog.changeId isContainer).getD changelog.toChangeId)
      else newState := by
  have hmore :=
    page_hasMoreChanges isContainer maxChanges oldState itemsSent changelog newState
  unfold page at hmore ⊢
  dsimp only at hmore ⊢
  rw [hmore]
  by_cases hlt : itemsSent + maxChanges < (changelog.relevant isContainer).length
  · rw [decide_eq_true hlt, if_pos rfl, if_pos hlt]
  · rw [decide_eq_false hlt, if_neg Bool.false_ne_true, if_neg hlt]

end

end MailServer.Jmap

namespace MailServer.Store.CollectionLog

open List

variable (l : CollectionLog)

def readSince (changeId : ℕ) : Changelog := (Changelog.startAt changeId).pushAll (l.since changeId)

theorem readSince_isTruncated (changeId : ℕ) : (l.readSince changeId).isTruncated = false :=
  Changelog.pushAll_isTruncated _ _

theorem since_sorted (changeId : ℕ) :
    (l.since changeId).Pairwise fun b b' => b.changeId < b'.changeId :=
  l.sorted.filter _

theorem lt_fromChangeId {changeId : ℕ} (hne : l.since changeId ≠ []) :
    changeId < (l.readSince changeId).fromChangeId := by
  have hnil : (Changelog.startAt changeId).changes = [] := rfl
  obtain ⟨before, b, after, hsince, -, hfrom⟩ := Changelog.exists_fromChangeId hne hnil
  have hmem : b ∈ l.since changeId := by
    rw [hsince]
    simp
  unfold readSince
  rw [hsince, hfrom after [] (append_nil _).symm]
  exact (l.mem_since.1 hmem).2

theorem fromChangeId_eq_zero_iff (changeId : ℕ) :
    (l.readSince changeId).fromChangeId = 0 ↔ changeId = 0 ∧ l.history = [] := by
  constructor
  · intro hzero
    by_cases hnil : l.since changeId = []
    · unfold readSince at hzero
      rw [hnil] at hzero
      have hchangeId : changeId = 0 := hzero
      subst hchangeId
      rw [since_zero] at hnil
      exact ⟨rfl, hnil⟩
    · have hlt := l.lt_fromChangeId hnil
      omega
  · rintro ⟨rfl, hnil⟩
    unfold readSince
    rw [since_zero, hnil]
    rfl

/-- **Reading again**, after more was written: the part of the log between the first and the last
change id of a reading gives the same. -/
theorem reread_range {l l' : CollectionLog} {isContainer : Bool} {changeId toId : ℕ}
    (hcovers : l.Covers changeId) (hgrows : l.Grows l')
    (hrelevant : (l.readSince changeId).relevant isContainer ≠ [])
    (htoId : (l.readSince changeId).changeId isContainer = some toId) :
    ∃ changelog, changesSince false l'.entries
        (.rangeInclusive (l.readSince changeId).fromChangeId toId) = some changelog ∧
      changelog.relevant isContainer = (l.readSince changeId).relevant isContainer ∧
      changelog.fromChangeId = (l.readSince changeId).fromChangeId ∧
      changelog.changeId isContainer = some toId ∧ changelog.isTruncated = false := by
  obtain ⟨htruncated, bs, hbs⟩ := hgrows
  have hne : l.since changeId ≠ [] := by
    intro hnil
    unfold readSince at hrelevant
    rw [hnil] at hrelevant
    exact hrelevant rfl
  have hfrom := l.lt_fromChangeId hne
  have hstart : (Changelog.startAt changeId).changeId isContainer = none := by
    cases isContainer <;> rfl
  obtain ⟨before, mid, after, -, hfilter, hsame, hfromId, hlast⟩ :=
    reread (l.since_sorted changeId) rfl hstart hrelevant htoId
  have hhistory : l'.history.filter (fun b => (l.readSince changeId).fromChangeId ≤ b.changeId &&
      b.changeId ≤ toId) = mid := by
    have hold : (l.upTo changeId).filter (fun b =>
        (l.readSince changeId).fromChangeId ≤ b.changeId && b.changeId ≤ toId) = [] := by
      refine filter_eq_nil_iff.2 fun b hb => ?_
      have hle := (l.mem_upTo.1 hb).2
      simp only [Bool.and_eq_true, decide_eq_true_eq]
      omega
    have hnew : bs.filter (fun b =>
        (l.readSince changeId).fromChangeId ≤ b.changeId && b.changeId ≤ toId) = [] := by
      refine filter_eq_nil_iff.2 fun b hb => ?_
      have hlt := Grows.lt hbs (l.aliveNow_of_changeId htoId).1 b hb
      simp only [Bool.and_eq_true, decide_eq_true_eq]
      omega
    rw [hbs, filter_append, hnew, append_nil, ← l.upTo_append_since changeId,
      filter_append, hold]
    exact hfilter
  refine ⟨Changelog.empty.pushAll mid, ?_, hsame, hfromId, hlast,
    Changelog.pushAll_isTruncated _ _⟩
  rw [l'.changesSince_range, hhistory]
  intro t ht
  rw [htruncated] at ht
  exact Nat.lt_of_le_of_lt (hcovers t ht) hfrom

end MailServer.Store.CollectionLog

namespace MailServer.Jmap

open MailServer.Store List

variable {collection : SyncCollection} {isContainer : Bool} {object : MethodObject}

theorem totalContainerChanges_eq (changelog : Changelog) :
    changelog.totalContainerChanges = (changelog.relevant true).length := by
  have hconcerns : Change.concerns true = Change.isContainerChange := by
    funext change
    simp [Change.concerns]
  unfold Changelog.totalContainerChanges Changelog.relevant
  rw [hconcerns]

theorem totalItemChanges_eq (changelog : Changelog) :
    changelog.totalItemChanges = (changelog.relevant false).length := by
  have hconcerns : Change.concerns false = Change.isItemChange := by
    funext change
    simp [Change.concerns]
  unfold Changelog.totalItemChanges Changelog.relevant
  rw [hconcerns]

theorem readLog_ok {log} {query : Query} {changelog : Changelog}
    (hshare : collection ≠ .shareNotification)
    (h : changesSince false log query = some changelog) :
    readLog (decide (collection = .shareNotification)) log query = .ok changelog := by
  unfold readLog
  rw [decide_eq_false hshare, h]

section

variable {maxResults : Option ℕ} {log : List LogEntry} {cache : CacheIds} {request : ChangesRequest}
  {itemsSent : ℕ} {changelog : Changelog} {newState : State}
  (hobject : object.collection = some (collection, isContainer))
  (hlookup : lookup collection isContainer log cache request.sinceState =
    .ok (.found itemsSent changelog newState))
include hobject hlookup

theorem changes_of_found (htruncated : changelog.isTruncated = false)
    (hfrom : changelog.fromChangeId ≠ 0 ∨ request.sinceState = .initial) :
    changes maxResults object log cache request =
      .ok (page isContainer (pageSize maxResults request.maxChanges) request.sinceState itemsSent
        changelog newState) := by
  have hvalid : ((changelog.isTruncated || changelog.fromChangeId == 0) &&
      decide (request.sinceState ≠ .initial)) = false := by
    rw [htruncated]
    rcases hfrom with hfrom | hinitial
    · simp [hfrom]
    · simp [hinitial]
  unfold changes
  rw [hobject]
  dsimp only
  rw [hlookup]
  exact if_neg (by rw [hvalid]; exact Bool.false_ne_true)

theorem changes_of_lost (hlost : changelog.isTruncated ∨ changelog.fromChangeId = 0)
    (hstate : request.sinceState ≠ .initial) : changes maxResults object log cache request =
      .error (.cannotCalculateChanges (some
        (if changelog.isTruncated then "Change log is truncated"
          else "Since state is invalid"))) := by
  have hinvalid : ((changelog.isTruncated || changelog.fromChangeId == 0) &&
      decide (request.sinceState ≠ .initial)) := by
    rw [decide_eq_true hstate, Bool.and_true, Bool.or_eq_true, beq_iff_eq]
    exact hlost
  unfold changes
  rw [hobject]
  dsimp only
  rw [hlookup]
  exact if_pos hinvalid

end

/-- **A later page** continues where the last one ended. -/
theorem changes_intermediate {l : CollectionLog} {m : Moment collection} {changeId toId : ℕ}
    (hobject : object.collection = some (collection, isContainer))
    (hshare : collection ≠ .shareNotification) (maxResults maxChanges : Option ℕ)
    (hcovers : l.Covers changeId) (hgrows : l.Grows m.log)
    (htoId : (l.readSince changeId).changeId isContainer = some toId) {itemsSent : ℕ}
    (hsent : itemsSent < ((l.readSince changeId).relevant isContainer).length) :
    ∃ changelog, m.respond maxResults object maxChanges
        (.intermediate (l.readSince changeId).fromChangeId toId itemsSent) =
          .ok (page isContainer (pageSize maxResults maxChanges)
            (.intermediate (l.readSince changeId).fromChangeId toId itemsSent) itemsSent changelog
            .initial) ∧
      changelog.relevant isContainer = (l.readSince changeId).relevant isContainer ∧
      changelog.fromChangeId = (l.readSince changeId).fromChangeId ∧
      changelog.changeId isContainer = some toId := by
  have hrelevant : (l.readSince changeId).relevant isContainer ≠ [] := by
    intro hnil
    rw [hnil] at hsent
    cases Nat.not_lt_zero _ hsent
  obtain ⟨changelog, hread, hsame, hfrom, hlast, htruncated⟩ :=
    CollectionLog.reread_range hcovers hgrows hrelevant htoId
  have hne : l.since changeId ≠ [] := by
    intro hnil
    unfold CollectionLog.readSince at hrelevant
    rw [hnil] at hrelevant
    exact hrelevant rfl
  have hpos : changelog.fromChangeId ≠ 0 := by
    have hlt := l.lt_fromChangeId hne
    omega
  have htotal : ((isContainer && decide (itemsSent ≥ changelog.totalContainerChanges)) ||
      (!isContainer && decide (itemsSent ≥ changelog.totalItemChanges))) = false := by
    have hlt : itemsSent < (changelog.relevant isContainer).length := by
      rw [hsame]
      exact hsent
    cases isContainer with
    | true => simp [totalContainerChanges_eq, hlt]
    | false => simp [totalItemChanges_eq, hlt]
  refine ⟨changelog, changes_of_found hobject ?_ htruncated (.inl hpos), hsame, hfrom, hlast⟩
  unfold lookup
  dsimp only
  rw [readLog_ok hshare hread]
  exact if_neg (by rw [htotal]; exact Bool.false_ne_true)

/-! ## A run of pages -/

section Run

variable {l : CollectionLog} {env : ℕ → Moment collection} {maxResults : Option ℕ}
  {limits : ℕ → Option ℕ} {changeId : ℕ}

/-- The answers of the server, one moment after another. -/
abbrev answers (env : ℕ → Moment collection) (maxResults : Option ℕ) (object : MethodObject)
    (limits : ℕ → Option ℕ) : ℕ → State → Except ChangesError IntermediateChangesResponse :=
  fun i sinceState => (env i).respond maxResults object (limits i) sinceState

/-- **From a later page on** the pages are the changes that are left, cut into pieces. -/
theorem exists_laterPages (hobject : object.collection = some (collection, isContainer))
    (hshare : collection ≠ .shareNotification) (hmax : maxResults ≠ some 0)
    (hcovers : l.Covers changeId) (hgrows : ∀ i, l.Grows (env i).log) {toId : ℕ}
    (htoId : (l.readSince changeId).changeId isContainer = some toId) (left : ℕ) :
    ∀ {itemsSent : ℕ} (i : ℕ),
      ((l.readSince changeId).relevant isContainer).length = itemsSent + left → 0 < left →
      ∃ pages sent, Pages (answers env maxResults object limits) i
          (.intermediate (l.readSince changeId).fromChangeId toId itemsSent) pages (.exact toId) ∧
        List.Forall₂ Sends pages sent ∧
        sent.flatten = ((l.readSince changeId).relevant isContainer).drop itemsSent := by
  induction left using Nat.strong_induction_on with
  | _ left ih =>
    intro itemsSent i hlength hleft
    obtain ⟨changelog, hrespond, hsame, hfrom, hlast⟩ :=
      changes_intermediate (m := env i) hobject hshare maxResults (limits i) hcovers (hgrows i)
        htoId (by omega : itemsSent < ((l.readSince changeId).relevant isContainer).length)
    have hsize := pageSize_pos hmax (limits i)
    generalize pageSize maxResults (limits i) = size at hrespond hsize
    have hsends := page_sends isContainer size
      (.intermediate (l.readSince changeId).fromChangeId toId itemsSent) itemsSent changelog
        .initial
    have hmore := page_hasMoreChanges isContainer size
      (.intermediate (l.readSince changeId).fromChangeId toId itemsSent) itemsSent changelog
        .initial
    rw [hsame] at hsends hmore
    by_cases hdone : left ≤ size
    · have hstop : decide (itemsSent + size <
          ((l.readSince changeId).relevant isContainer).length) = false :=
        decide_eq_false (by omega)
      rw [hstop] at hmore
      have hnew : (page isContainer size
          (.intermediate (l.readSince changeId).fromChangeId toId itemsSent) itemsSent changelog
          .initial).response.newState = .exact toId := by
        rw [page_newState, hsame, if_neg (of_decide_eq_false hstop), hlast]
        rfl
      refine ⟨_, _, hnew ▸ Pages.last hrespond hmore, .cons hsends .nil, ?_⟩
      rw [flatten_singleton, take_of_length_le]
      rw [length_drop]
      omega
    · have hgo : decide (itemsSent + size <
          ((l.readSince changeId).relevant isContainer).length) :=
        decide_eq_true (by omega)
      rw [hgo] at hmore
      have hnew : (page isContainer size
          (.intermediate (l.readSince changeId).fromChangeId toId itemsSent) itemsSent changelog
          .initial).response.newState =
            .intermediate (l.readSince changeId).fromChangeId toId (itemsSent + size) := by
        rw [page_newState, hsame, if_pos (of_decide_eq_true hgo), hfrom, hlast]
        rfl
      obtain ⟨pages, sent, hpages, hall, hflatten⟩ :=
        ih (left - size) (by omega) (i + 1) (by omega : _ = (itemsSent + size) + (left - size))
          (by omega)
      refine ⟨_ :: pages, _ :: sent, .more hrespond hmore (by rw [hnew]; exact hpages),
        .cons hsends hall, ?_⟩
      rw [flatten_cons, hflatten, ← drop_drop, take_append_drop]

/-- The last state after pages that start with a reading from a change id on. -/
def lastOf (l : CollectionLog) (isContainer : Bool) (changeId : ℕ) (newState : State) : State :=
  if newState = .initial then
    .exact (((l.readSince changeId).changeId isContainer).getD (l.readSince changeId).toChangeId)
  else newState

/-- **The pages** are the changes of one reading, cut into pieces. -/
theorem exists_pages (hobject : object.collection = some (collection, isContainer))
    (hshare : collection ≠ .shareNotification) (hmax : maxResults ≠ some 0)
    (hgrows : ∀ i, (env 0).log.Grows (env i).log) {sinceState newState : State}
    (hcovers : (env 0).log.Covers changeId)
    (hrespond : ∀ maxChanges, (env 0).respond maxResults object maxChanges sinceState =
      .ok (page isContainer (pageSize maxResults maxChanges) sinceState 0
        ((env 0).log.readSince changeId) newState)) :
    ∃ pages sent final, Pages (answers env maxResults object limits) 0 sinceState pages final ∧
      List.Forall₂ Sends pages sent ∧
      sent.flatten = ((env 0).log.readSince changeId).relevant isContainer ∧
      (final = lastOf (env 0).log isContainer changeId newState ∨
        ∃ toId, ((env 0).log.readSince changeId).changeId isContainer = some toId ∧
          final = .exact toId) := by
  have hsize := pageSize_pos hmax (limits 0)
  have hfirst := hrespond (limits 0)
  generalize pageSize maxResults (limits 0) = size at hfirst hsize
  have hsends := page_sends isContainer size sinceState 0 ((env 0).log.readSince changeId) newState
  have hmore :=
    page_hasMoreChanges isContainer size sinceState 0 ((env 0).log.readSince changeId) newState
  have hnew := page_newState isContainer size sinceState 0 ((env 0).log.readSince changeId) newState
  rw [drop_zero] at hsends
  rw [Nat.zero_add] at hmore hnew
  by_cases hlt : size < (((env 0).log.readSince changeId).relevant isContainer).length
  · rw [decide_eq_true hlt] at hmore
    rw [if_pos hlt] at hnew
    cases htoId : ((env 0).log.readSince changeId).changeId isContainer with
    | none =>
      -- without a change id there are no changes
      unfold CollectionLog.readSince at hlt htoId
      rw [relevant_eq_nil_of_changeId htoId] at hlt
      cases Nat.not_lt_zero _ hlt
    | some toId =>
      rw [htoId] at hnew
      obtain ⟨pages, sent, hpages, hall, hflatten⟩ :
          ∃ pages sent, Pages (answers env maxResults object limits) 1
            (.intermediate ((env 0).log.readSince changeId).fromChangeId toId size) pages
              (.exact toId) ∧
          List.Forall₂ Sends pages sent ∧ sent.flatten =
            (((env 0).log.readSince changeId).relevant isContainer).drop size :=
        exists_laterPages hobject hshare hmax hcovers hgrows htoId
          ((((env 0).log.readSince changeId).relevant isContainer).length - size) 1
          (by omega) (by omega)
      refine ⟨_ :: pages, _ :: sent, .exact toId, .more hfirst hmore (by rw [hnew]; exact hpages),
        .cons hsends hall, ?_, .inr ⟨toId, rfl, rfl⟩⟩
      rw [flatten_cons, hflatten, take_append_drop]
  · rw [decide_eq_false hlt] at hmore
    rw [if_neg hlt] at hnew
    refine ⟨_, _, _, .last hfirst hmore, .cons hsends .nil, ?_, .inl hnew⟩
    rw [flatten_singleton, take_of_length_le (Nat.not_lt.1 hlt)]

end Run

/-! ## What the client makes of the pages -/

theorem exists_of_forall₂ {α β : Type} {r : α → β → Prop} {as : List α} {bs : List β}
    (h : List.Forall₂ r as bs) {b : β} (hb : b ∈ bs) : ∃ a ∈ as, r a b := by
  induction h with
  | nil => cases hb
  | @cons a b' as bs hr hall ih =>
    rcases mem_cons.1 hb with rfl | hmem
    · exact ⟨a, by simp, hr⟩
    · obtain ⟨a', ha', hr'⟩ := ih hmem
      exact ⟨a', .tail _ ha', hr'⟩

section Client

variable {sent : List Change} (id : UInt64)

theorem mem_created_iff (h : ∀ change ∈ sent, change.concerns isContainer) :
    id ∈ sent.filterMap Change.created ↔
      Kind.insert ∈ sent.filterMap (Change.kindOf isContainer id) := by
  rw [mem_filterMap, mem_filterMap]
  refine exists_congr fun change => and_congr_right fun hmem => ?_
  have hconcerns := h change hmem
  cases isContainer <;> cases change <;>
    simp_all [Change.concerns, Change.isContainerChange, Change.isItemChange, Change.created,
      Change.kindOf, Change.containerKind, Change.itemKind]

theorem mem_destroyed_iff (h : ∀ change ∈ sent, change.concerns isContainer) :
    id ∈ sent.filterMap Change.destroyed ↔
      Kind.delete ∈ sent.filterMap (Change.kindOf isContainer id) := by
  rw [mem_filterMap, mem_filterMap]
  refine exists_congr fun change => and_congr_right fun hmem => ?_
  have hconcerns := h change hmem
  cases isContainer <;> cases change <;>
    simp_all [Change.concerns, Change.isContainerChange, Change.isItemChange, Change.destroyed,
      Change.kindOf, Change.containerKind, Change.itemKind]

theorem mem_page {page : ChangesResponse} (hsends : Sends page sent)
    (h : sent.filterMap (Change.kindOf isContainer id) ≠ []) :
    id ∈ page.created ∨ id ∈ page.updated ∨ id ∈ page.destroyed := by
  obtain ⟨kind, hkind⟩ := exists_mem_of_ne_nil _ h
  obtain ⟨change, hmem, hchange⟩ := mem_filterMap.1 hkind
  rw [hsends.created, hsends.updated, hsends.destroyed, mem_filterMap, mem_filterMap,
    mem_filterMap]
  cases isContainer <;> cases change <;>
    simp [Change.kindOf, Change.containerKind, Change.itemKind] at hchange <;>
    obtain ⟨rfl, -⟩ := hchange
  all_goals first
    | exact .inl ⟨_, hmem, rfl⟩
    | exact .inr (.inl ⟨_, hmem, rfl⟩)
    | exact .inr (.inr ⟨_, hmem, rfl⟩)

/-- **After the pages** the client has what was inserted, and what it had and was not deleted. -/
theorem mem_foldl_applyPage {pages} {sent}
    (hall : List.Forall₂ Sends pages sent)
    (h : ∀ change ∈ sent.flatten, change.concerns isContainer)
    (honce : ¬ (Kind.insert ∈ sent.flatten.filterMap (Change.kindOf isContainer id) ∧
      Kind.delete ∈ sent.flatten.filterMap (Change.kindOf isContainer id)))
    (objects : Set UInt64) :
    id ∈ pages.foldl applyPage objects ↔
      Kind.insert ∈ sent.flatten.filterMap (Change.kindOf isContainer id) ∨
        (id ∈ objects ∧ Kind.delete ∉ sent.flatten.filterMap (Change.kindOf isContainer id)) := by
  induction hall generalizing objects with
  | nil => simp
  | @cons page chunk pages sent hsends hall ih =>
    rw [flatten_cons] at h honce ⊢
    have hchunk : ∀ change ∈ chunk, change.concerns isContainer := fun change hmem =>
      h change (mem_append_left _ hmem)
    have hpage : id ∈ applyPage objects page ↔
        (id ∈ objects ∨ Kind.insert ∈ chunk.filterMap (Change.kindOf isContainer id)) ∧
          Kind.delete ∉ chunk.filterMap (Change.kindOf isContainer id) := by
      rw [← mem_created_iff id hchunk, ← mem_destroyed_iff id hchunk, ← hsends.created,
        ← hsends.destroyed]
      rfl
    rw [filterMap_append, mem_append, mem_append] at honce ⊢
    rw [foldl_cons, ih (fun change hmem => h change (mem_append_right _ hmem))
      (fun hboth => honce ⟨.inr hboth.1, .inr hboth.2⟩)]
    tauto

end Client

/-! ## Transparency -/

/-- The lists of pages, one after another, are those of one response. -/
structure Accounts (unpaged : ChangesResponse) (pages : List ChangesResponse) : Prop where
  created : pages.flatMap ChangesResponse.created = unpaged.created
  updated : pages.flatMap ChangesResponse.updated = unpaged.updated
  destroyed : pages.flatMap ChangesResponse.destroyed = unpaged.destroyed

theorem accounts_of_sends {pages} {sent}
    (hall : List.Forall₂ Sends pages sent) {unpaged}
    (hunpaged : Sends unpaged sent.flatten) : Accounts unpaged pages := by
  obtain ⟨hcreated, hupdated, hdestroyed⟩ := hunpaged
  have hlists : pages.flatMap ChangesResponse.created = sent.flatten.filterMap Change.created ∧
      pages.flatMap ChangesResponse.updated = sent.flatten.filterMap Change.updated ∧
      pages.flatMap ChangesResponse.destroyed = sent.flatten.filterMap Change.destroyed := by
    clear hcreated hupdated hdestroyed
    induction hall with
    | nil => exact ⟨rfl, rfl, rfl⟩
    | cons hsends hall ih =>
      obtain ⟨hcreated, hupdated, hdestroyed⟩ := ih
      rw [flatMap_cons, flatMap_cons, flatMap_cons, flatten_cons,
        filterMap_append, filterMap_append, filterMap_append, hcreated, hupdated,
        hdestroyed, hsends.created, hsends.updated, hsends.destroyed]
      exact ⟨rfl, rfl, rfl⟩
  exact ⟨hlists.1.trans hcreated.symm, hlists.2.1.trans hupdated.symm,
    hlists.2.2.trans hdestroyed.symm⟩

/-- The object has changed between two change ids, and existed at one of them. -/
def Changed (l : CollectionLog) (isContainer : Bool) (fromId toId : ℕ) (id : UInt64) : Prop :=
  l.callsBetween isContainer id fromId toId ≠ [] ∧
    (id ∈ l.objects isContainer fromId ∨ id ∈ l.objects isContainer toId)

/-- The response to the request without a limit, which has everything. -/
def Unpaged (m : Moment collection) (object : MethodObject) (sinceState : State)
    (unpaged : ChangesResponse) : Prop :=
  ∃ limit r, m.respond (some limit) object (some limit) sinceState = .ok r ∧
    r.response = unpaged ∧ unpaged.hasMoreChanges = false

/-- What paging from a state comes to. -/
structure Transparent (env : ℕ → Moment collection) (isContainer : Bool) (object : MethodObject)
    (sinceState final : State) (pages : List ChangesResponse) : Prop where
  known : Known (env 0).log final
  objects : ∀ i, pages.foldl applyPage ((env 0).log.objects isContainer sinceState.changeId) =
    (env i).log.objects isContainer final.changeId
  occurs : ∀ id, Changed (env 0).log isContainer sinceState.changeId final.changeId id →
    ∃ page ∈ pages, id ∈ page.created ∨ id ∈ page.updated ∨ id ∈ page.destroyed
  accounts : ∃ unpaged, Unpaged (env 0) object sinceState unpaged ∧ Accounts unpaged pages

/-- A request from a state is answered: from the beginning if the log is whole; from a change id if
the cache is there, or if the log still has what came after it and is not empty. -/
def Answers (m : Moment collection) (isContainer : Bool) : State → Prop
  | .initial => m.log.truncatedAt = none
  | .exact changeId =>
    lastState collection isContainer m.log.entries m.cache = .ok (some (.exact changeId)) ∨
      (m.log.Covers changeId ∧ (changeId ≠ 0 ∨ m.log.history ≠ []))
  | .intermediate _ _ _ => False

section Transparency

variable {env : ℕ → Moment collection} {maxResults : Option ℕ} {limits : ℕ → Option ℕ}

theorem known_hasId {l} {state : State} (h : Known l state) :
    l.HasId state.changeId := by
  cases state with
  | initial => exact .inl rfl
  | exact changeId => exact h
  | intermediate fromId toId itemsSent => cases id h

theorem objects_of_grows {l l'} (h : l.Grows l') {state : State}
    (hknown : Known l state) (isContainer : Bool) :
    l'.objects isContainer state.changeId = l.objects isContainer state.changeId := by
  obtain ⟨-, bs, hbs⟩ := h
  ext id
  unfold CollectionLog.objects
  rw [Set.mem_ofPred_eq, Set.mem_ofPred_eq,
    CollectionLog.alive_of_append hbs (known_hasId hknown)]

theorem transparent_of_unchanged (hgrows : ∀ i, (env 0).log.Grows (env i).log)
    {sinceState : State} (hknown : Known (env 0).log sinceState)
    (hrespond : ∀ maxResults maxChanges, (env 0).respond maxResults object maxChanges sinceState =
      .ok ⟨⟨sinceState, sinceState, false, [], [], []⟩, false⟩) :
    ∃ pages final, Pages (answers env maxResults object limits) 0 sinceState pages final ∧
      Transparent env isContainer object sinceState final pages := by
  refine ⟨_, _, .last (hrespond maxResults (limits 0)) rfl, hknown, fun i => ?_, ?_, ?_⟩
  · rw [objects_of_grows (hgrows i) hknown]
    ext id
    simp [applyPage]
  · rintro id ⟨hcalls, -⟩
    refine absurd ?_ hcalls
    have hnone : ((env 0).log.since sinceState.changeId).filter
        (fun b => b.changeId ≤ sinceState.changeId) = [] := by
      refine filter_eq_nil_iff.2 fun b hb => ?_
      have hlt := ((env 0).log.mem_since.1 hb).2
      simp only [decide_eq_true_eq]
      omega
    unfold CollectionLog.callsBetween
    rw [hnone]
    rfl
  · exact ⟨_, ⟨0, _, hrespond _ _, rfl, rfl⟩, ⟨rfl, rfl, rfl⟩⟩

theorem exists_last {l} {changeId : ℕ} (hid : l.HasId changeId)
    {newState final : State}
    (hnew : newState = .initial ∨ ∃ e, newState = .exact e ∧ l.HasId e ∧
      ∀ id, l.aliveNow isContainer id = l.alive isContainer e id)
    (hfinal : final = lastOf l isContainer changeId newState ∨
      ∃ toId, (l.readSince changeId).changeId isContainer = some toId ∧ final = .exact toId) :
    ∃ e, final = .exact e ∧ l.HasId e ∧
      ∀ id, l.aliveNow isContainer id = l.alive isContainer e id := by
  rcases hfinal with rfl | ⟨toId, htoId, rfl⟩
  · unfold lastOf
    rcases hnew with rfl | ⟨e, rfl, he, halive⟩
    · refine ⟨_, rfl, ?_⟩
      cases htoId : (l.readSince changeId).changeId isContainer with
      | some toId => exact l.aliveNow_of_changeId htoId
      | none =>
        by_cases hsince : l.since changeId = []
        · have hto : (l.readSince changeId).toChangeId = changeId := by
            unfold CollectionLog.readSince
            rw [hsince]
            rfl
          rw [hto]
          exact ⟨hid, l.aliveNow_of_since_nil hsince isContainer⟩
        · obtain ⟨-, hto, hnil⟩ := l.toChangeId_since hsince
          exact ⟨hto, l.aliveNow_of_since_nil hnil isContainer⟩
    · exact ⟨e, rfl, he, halive⟩
  · exact ⟨toId, rfl, l.aliveNow_of_changeId htoId⟩

/-- **Where the log is read** the pages are transparent. -/
theorem transparent_of_read (hobject : object.collection = some (collection, isContainer))
    (hshare : collection ≠ .shareNotification) (hmax : maxResults ≠ some 0)
    (hgrows : ∀ i, (env 0).log.Grows (env i).log) {sinceState newState : State}
    (hid : (env 0).log.HasId sinceState.changeId)
    (hcovers : (env 0).log.Covers sinceState.changeId)
    (hnew : newState = .initial ∨ ∃ e, newState = .exact e ∧ (env 0).log.HasId e ∧
      ∀ id, (env 0).log.aliveNow isContainer id = (env 0).log.alive isContainer e id)
    (hrespond : ∀ maxResults maxChanges, (env 0).respond maxResults object maxChanges sinceState =
      .ok (page isContainer (pageSize maxResults maxChanges) sinceState 0
        ((env 0).log.readSince sinceState.changeId) newState)) :
    ∃ pages final, Pages (answers env maxResults object limits) 0 sinceState pages final ∧
      Transparent env isContainer object sinceState final pages := by
  obtain ⟨pages, sent, final, hpages, hall, hflatten, hfinal⟩ :
      ∃ pages sent final, Pages (answers env maxResults object limits) 0 sinceState pages final ∧
        List.Forall₂ Sends pages sent ∧
        sent.flatten = ((env 0).log.readSince sinceState.changeId).relevant isContainer ∧
        (final = lastOf (env 0).log isContainer sinceState.changeId newState ∨
          ∃ toId, ((env 0).log.readSince sinceState.changeId).changeId isContainer = some toId ∧
            final = .exact toId) :=
    exists_pages hobject hshare hmax hgrows hcovers fun maxChanges => hrespond maxResults maxChanges
  obtain ⟨e, rfl, hlast, hnow⟩ := exists_last hid hnew hfinal
  generalize hl : (env 0).log = l at hid hcovers hflatten hlast hnow hrespond hgrows
  have hknown : Known l (.exact e) := hlast
  have hconcerns : ∀ change ∈ sent.flatten, change.concerns isContainer := by
    intro change hmem
    rw [hflatten] at hmem
    exact (mem_filter.1 hmem).2
  have hkinds : ∀ id, sent.flatten.filterMap (Change.kindOf isContainer id) =
      mergedKinds [] (callsOf isContainer id (l.since sinceState.changeId)) := by
    intro id
    rw [hflatten]
    exact l.kinds_since isContainer sinceState.changeId id
  refine ⟨pages, .exact e, hpages, hl.symm ▸ hknown, fun i => ?_, fun id hchanged => ?_, ?_⟩
  · have hgrown := objects_of_grows (hgrows i) hknown isContainer
    rw [hgrown, hl]
    ext id
    obtain ⟨hlife, hafter⟩ := l.legal_since isContainer sinceState.changeId id
    obtain ⟨hinsert, hdelete, -⟩ := merged_kinds hlife
    have honce : ¬ (Kind.insert ∈ sent.flatten.filterMap (Change.kindOf isContainer id) ∧
        Kind.delete ∈ sent.flatten.filterMap (Change.kindOf isContainer id)) := by
      rw [hkinds, hinsert, hdelete]
      rintro ⟨⟨hnew, -⟩, hold, -⟩
      rw [hnew] at hold
      cases hold
    rw [mem_foldl_applyPage id hall hconcerns honce, hkinds, hinsert, hdelete, ← hafter]
    have hnow' := hnow id
    unfold CollectionLog.aliveNow at hnow'
    rw [hnow']
    unfold CollectionLog.objects
    rw [Set.mem_ofPred_eq]
    change _ ↔ l.alive isContainer e id
    cases l.alive isContainer e id <;> cases l.alive isContainer sinceState.changeId id <;> simp
  · rw [hl] at hchanged
    obtain ⟨hcalls, halive⟩ := hchanged
    obtain ⟨hlife, hafter⟩ := l.legal_since isContainer sinceState.changeId id
    obtain ⟨-, -, hnil⟩ := merged_kinds hlife
    have hne : sent.flatten.filterMap (Change.kindOf isContainer id) ≠ [] := by
      intro hempty
      rw [hkinds, hnil] at hempty
      rcases hempty with hflat | ⟨hbefore, hend⟩
      · refine hcalls ?_
        unfold CollectionLog.callsBetween
        rw [flatten_eq_nil_iff] at hflat ⊢
        intro kinds hmem
        obtain ⟨b, hb, rfl⟩ := mem_map.1 hmem
        exact hflat _ (mem_map.2 ⟨b, (mem_filter.1 hb).1, rfl⟩)
      · rw [← hafter] at hend
        have hnow' := hnow id
        unfold CollectionLog.aliveNow at hnow'
        rw [hend] at hnow'
        rcases halive with hold | hnew
        · have hold' : l.alive isContainer sinceState.changeId id := hold
          rw [hbefore] at hold'
          cases hold'
        · have hnew' : l.alive isContainer e id := hnew
          rw [← hnow'] at hnew'
          cases hnew'
    obtain ⟨kind, hkind⟩ := exists_mem_of_ne_nil _ hne
    obtain ⟨change, hmem, hchange⟩ := mem_filterMap.1 hkind
    obtain ⟨chunk, hchunk, hmem⟩ := mem_flatten.1 hmem
    obtain ⟨page, hpage, hsends⟩ := exists_of_forall₂ hall hchunk
    have hchunkKinds : chunk.filterMap (Change.kindOf isContainer id) ≠ [] :=
      ne_nil_of_mem (mem_filterMap.2 ⟨change, hmem, hchange⟩)
    exact ⟨page, hpage, mem_page id hsends hchunkKinds⟩
  · have hlimit : pageSize (some (max sent.flatten.length 1)) (some (max sent.flatten.length 1)) =
        max sent.flatten.length 1 := by
      unfold pageSize
      rw [Option.filter_some_pos (by simp)]
      exact Nat.min_self _
    have hunpaged := hrespond (some (max sent.flatten.length 1)) (some (max sent.flatten.length 1))
    rw [hlimit] at hunpaged
    have hsends := page_sends isContainer (max sent.flatten.length 1) sinceState 0
      (l.readSince sinceState.changeId) newState
    have hmore := page_hasMoreChanges isContainer (max sent.flatten.length 1) sinceState 0
      (l.readSince sinceState.changeId) newState
    rw [← hflatten, Nat.zero_add, decide_eq_false (Nat.not_lt.2 (Nat.le_max_left _ _))] at hmore
    rw [← hflatten, drop_zero, take_of_length_le (Nat.le_max_left _ _)] at hsends
    exact ⟨_, ⟨_, _, hunpaged, rfl, hmore⟩, accounts_of_sends hall hsends⟩

/-- From the beginning of a log that is whole. -/
theorem respond_initial {m : Moment collection}
    (hobject : object.collection = some (collection, isContainer))
    (hshare : collection ≠ .shareNotification) (hwhole : m.log.truncatedAt = none)
    (maxResults maxChanges : Option ℕ) :
    (m.log.history = [] ∧ m.respond maxResults object maxChanges .initial =
        .ok ⟨⟨.initial, .initial, false, [], [], []⟩, false⟩) ∨
      (m.log.history ≠ [] ∧ m.respond maxResults object maxChanges .initial =
        .ok (page isContainer (pageSize maxResults maxChanges) .initial 0 (m.log.readSince 0)
          .initial)) := by
  have hread : readLog (decide (collection = .shareNotification)) m.log.entries .all =
      .ok (m.log.readSince 0) := by
    refine readLog_ok hshare ?_
    unfold CollectionLog.readSince
    rw [m.log.changesSince_all hwhole, m.log.since_zero]
    rfl
  have hzero := m.log.fromChangeId_eq_zero_iff 0
  have hlookup : lookup collection isContainer m.log.entries m.cache .initial =
      if ((m.log.readSince 0).changes.isEmpty && (m.log.readSince 0).fromChangeId == 0) then
        .ok (.unchanged .initial) else .ok (.found 0 (m.log.readSince 0) .initial) := by
    unfold lookup
    dsimp only
    rw [hread]
    rfl
  by_cases hempty : m.log.history = []
  · refine .inl ⟨hempty, ?_⟩
    have hchanges : (m.log.readSince 0).changes = [] := by
      unfold CollectionLog.readSince
      rw [m.log.since_zero, hempty]
      rfl
    rw [hchanges, hzero.2 ⟨rfl, hempty⟩] at hlookup
    unfold Moment.respond changes
    rw [hobject]
    dsimp only
    rw [hlookup]
    rfl
  · refine .inr ⟨hempty, ?_⟩
    have hne : (m.log.readSince 0).fromChangeId ≠ 0 := fun h => hempty (hzero.1 h).2
    rw [if_neg (by simp [hne])] at hlookup
    exact changes_of_found hobject hlookup (m.log.readSince_isTruncated 0) (.inr rfl)

/-- What the lookup from a change id finds where the cache is at another state, or there is
none. -/
theorem lookup_exact {m : Moment collection} (hshare : collection ≠ .shareNotification)
    {changeId : ℕ} {changelog : Changelog}
    (hread : changesSince false m.log.entries (.since changeId) = some changelog)
    (hlast : lastState collection isContainer m.log.entries m.cache ≠
      .ok (some (.exact changeId))) :
    ∃ newState, lookup collection isContainer m.log.entries m.cache (.exact changeId) =
        .ok (.found 0 changelog newState) ∧
      (newState = .initial ∨ ∃ e, newState = .exact e ∧ m.log.HasId e ∧
        ∀ id, m.log.aliveNow isContainer id = m.log.alive isContainer e id) := by
  have hlog := readLog_ok hshare hread
  rcases lastState_spec m.cached isContainer with ⟨hnone, -⟩ | ⟨e, hsome, he, halive⟩
  · refine ⟨.initial, ?_, .inl rfl⟩
    unfold lookup
    dsimp only
    rw [hnone, hlog]
    rfl
  · refine ⟨.exact e, ?_, .inr ⟨e, rfl, he, halive⟩⟩
    have hne : some (State.exact e) ≠ some (.exact changeId) := by
      intro h
      rw [hsome, h] at hlast
      exact hlast rfl
    unfold lookup
    dsimp only
    rw [hsome, hlog]
    exact if_neg hne

section

variable {m : Moment collection} (hobject : object.collection = some (collection, isContainer))
  (hshare : collection ≠ .shareNotification) {sinceState : State} (hknown : Known m.log sinceState)
include hobject hshare hknown

/-- **What the first request comes to**: nothing has changed, or the log is read. -/
theorem respond_cases (hanswers : Answers m isContainer sinceState) :
    ((∀ id, m.log.aliveNow isContainer id = m.log.alive isContainer sinceState.changeId id) ∧
        (∀ toId, m.log.QuietBetween isContainer sinceState.changeId toId) ∧
        ∀ maxResults maxChanges, m.respond maxResults object maxChanges sinceState =
          .ok ⟨⟨sinceState, sinceState, false, [], [], []⟩, false⟩) ∨
      (m.log.Covers sinceState.changeId ∧
        ∃ newState, (newState = .initial ∨ ∃ e, newState = .exact e ∧ m.log.HasId e ∧
            ∀ id, m.log.aliveNow isContainer id = m.log.alive isContainer e id) ∧
          ∀ maxResults maxChanges, m.respond maxResults object maxChanges sinceState =
            .ok (page isContainer (pageSize maxResults maxChanges) sinceState 0
              (m.log.readSince sinceState.changeId) newState)) := by
  cases sinceState with
  | intermediate fromId toId itemsSent => cases id hknown
  | initial =>
    have hrespond := fun maxResults maxChanges =>
      respond_initial (m := m) hobject hshare hanswers maxResults maxChanges
    by_cases hempty : m.log.history = []
    · have hnil : m.log.since 0 = [] := by rw [m.log.since_zero, hempty]
      refine .inl ⟨m.log.aliveNow_of_since_nil hnil isContainer, fun toId id _ b hb _ => ?_,
        fun maxResults maxChanges =>
          ((hrespond maxResults maxChanges).resolve_right fun h => h.1 hempty).2⟩
      change b ∈ m.log.since 0 at hb
      rw [hnil] at hb
      cases hb
    · refine .inr ⟨fun t ht => ?_, .initial, .inl rfl, fun maxResults maxChanges =>
        ((hrespond maxResults maxChanges).resolve_left fun h => hempty h.1).2⟩
      rw [show m.log.truncatedAt = none from hanswers] at ht
      cases ht
  | exact changeId =>
    by_cases hlast : lastState collection isContainer m.log.entries m.cache =
        .ok (some (.exact changeId))
    · refine .inl ⟨?_, lastState_quiet m.cached hlast, fun maxResults maxChanges => ?_⟩
      · rcases lastState_spec m.cached isContainer with ⟨hnone, -⟩ | ⟨e, hsome, -, halive⟩
        · rw [hnone] at hlast
          cases hlast
        · rw [hsome] at hlast
          cases hlast
          exact halive
      · have hlookup : lookup collection isContainer m.log.entries m.cache (.exact changeId) =
            .ok (.unchanged (.exact changeId)) := by
          unfold lookup
          rw [hlast]
          exact if_pos rfl
        unfold Moment.respond changes
        rw [hobject]
        dsimp only
        rw [hlookup]
        rfl
    · obtain ⟨hcovers, hne⟩ := hanswers.resolve_left hlast
      obtain ⟨newState, hlookup, hnew⟩ :=
        lookup_exact hshare (m.log.changesSince_since hknown hcovers) hlast
      refine .inr ⟨hcovers, newState, hnew, fun maxResults maxChanges => ?_⟩
      refine changes_of_found hobject hlookup (m.log.readSince_isTruncated changeId)
        (.inl fun hzero => ?_)
      obtain ⟨hzero, hempty⟩ := (m.log.fromChangeId_eq_zero_iff changeId).1 hzero
      rcases hne with hne | hne
      · exact hne hzero
      · exact hne hempty

/-- **A request that is not answered** is refused. -/
theorem respond_refused (hrefuses : ¬ Answers m isContainer sinceState)
    (hstate : sinceState ≠ .initial) (maxResults maxChanges : Option ℕ) :
    ∃ details, m.respond maxResults object maxChanges sinceState =
      .error (.cannotCalculateChanges (some details)) := by
  cases sinceState with
  | intermediate fromId toId itemsSent => cases id hknown
  | initial => cases hstate rfl
  | exact changeId =>
    have hlast : lastState collection isContainer m.log.entries m.cache ≠
        .ok (some (.exact changeId)) := fun h => hrefuses (.inl h)
    by_cases hcovers : m.log.Covers changeId
    · have hempty : changeId = 0 ∧ m.log.history = [] := by
        by_contra hne
        refine hrefuses (.inr ⟨hcovers, ?_⟩)
        rw [not_and_or] at hne
        exact hne
      obtain ⟨newState, hlookup, -⟩ :=
        lookup_exact hshare (m.log.changesSince_since hknown hcovers) hlast
      exact ⟨_, changes_of_lost hobject hlookup
        (.inr ((m.log.fromChangeId_eq_zero_iff changeId).2 hempty)) (by simp)⟩
    · obtain ⟨t, ht⟩ := not_forall.1 hcovers
      obtain ⟨ht, hlt⟩ := Classical.not_imp.1 ht
      obtain ⟨changelog, hread, htruncated⟩ :=
        m.log.changesSince_truncated ht (Nat.not_le.1 hlt)
      obtain ⟨newState, hlookup, -⟩ := lookup_exact hshare hread hlast
      exact ⟨_, changes_of_lost hobject hlookup (.inl htruncated) (by simp)⟩

end

theorem grows_of_steps {env : ℕ → Moment collection}
    (hgrows : ∀ i, (env i).log.Grows (env (i + 1)).log) (i : ℕ) :
    (env 0).log.Grows (env i).log := by
  induction i with
  | zero => exact CollectionLog.Grows.refl _
  | succ i ih => exact ih.trans (hgrows i)

end Transparency

/-! ## Small logs -/

def insertBatch (id : UInt32) : Batch where
  calls := [.itemInsert none id]
  order := ⟨.empty, .empty, .empty, .empty, .one (buildId none id), .empty, .empty⟩

def deleteBatch (id : UInt32) : Batch where
  calls := [.itemDelete none id]
  order := ⟨.empty, .empty, .empty, .empty, .empty, .empty, .one (buildId none id)⟩

/-- Items 5 and 6 are inserted. -/
def twoInserts : CollectionLog where
  history := [⟨1, insertBatch 5⟩, ⟨2, insertBatch 6⟩]
  truncatedAt := none
  sorted := by simp
  positive := by simp
  bounded := by simp
  truncated t ht := by cases ht
  legal isContainer id := by
    cases isContainer with
    | true =>
      have hcalls : callsOf true id [⟨1, insertBatch 5⟩, ⟨2, insertBatch 6⟩] = [[], []] := by
        simp [callsOf, insertBatch, LogCall.kindOf, LogCall.containerKind]
      rw [hcalls]
      exact ⟨by simp [Legal], by simp⟩
    | false =>
      have hcalls : callsOf false id [⟨1, insertBatch 5⟩, ⟨2, insertBatch 6⟩] =
          if 5 = id then [[.insert], []] else if 6 = id then [[], [.insert]] else [[], []] := by
        by_cases h5 : 5 = id
        · subst h5
          decide
        · by_cases h6 : 6 = id
          · subst h6
            decide
          · rw [if_neg h5, if_neg h6]
            simp [callsOf, insertBatch, LogCall.kindOf, LogCall.itemKind, buildId, h5, h6]
      rw [hcalls]
      split_ifs
      · exact ⟨by simp [Legal], by simp⟩
      · exact ⟨by simp [Legal], by simp⟩
      · exact ⟨by simp [Legal], by simp⟩

/-- Item 5 is inserted and deleted. -/
def insertDelete : CollectionLog where
  history := [⟨1, insertBatch 5⟩, ⟨2, deleteBatch 5⟩]
  truncatedAt := none
  sorted := by simp
  positive := by simp
  bounded := by simp
  truncated t ht := by cases ht
  legal isContainer id := by
    cases isContainer with
    | true =>
      have hcalls : callsOf true id [⟨1, insertBatch 5⟩, ⟨2, deleteBatch 5⟩] = [[], []] := by
        simp [callsOf, insertBatch, deleteBatch, LogCall.kindOf, LogCall.containerKind]
      rw [hcalls]
      exact ⟨by simp [Legal], by simp⟩
    | false =>
      have hcalls : callsOf false id [⟨1, insertBatch 5⟩, ⟨2, deleteBatch 5⟩] =
          if 5 = id then [[.insert], [.delete]] else [[], []] := by
        by_cases h5 : 5 = id
        · subst h5
          decide
        · rw [if_neg h5]
          simp [callsOf, insertBatch, deleteBatch, LogCall.kindOf, LogCall.itemKind, buildId, h5]
      rw [hcalls]
      split_ifs
      · exact ⟨by simp [Legal, Kind.after], by simp⟩
      · exact ⟨by simp [Legal], by simp⟩

/-- The log of `twoInserts` without its first batch. -/
def truncatedLog : CollectionLog :=
  { twoInserts with
    truncatedAt := some 1
    truncated := fun t ht => ⟨⟨1, insertBatch 5⟩, by simp [twoInserts], Option.some.inj ht⟩ }

/-- A log, and a cache that has just been built from it. -/
def Moment.built (collection : SyncCollection) (l : CollectionLog) : Moment collection :=
  ⟨l, fullCacheBuild l.entries, .build l⟩

/-- A server to which nothing happens. -/
def constantly {collection : SyncCollection} (m : Moment collection) : ℕ → Moment collection :=
  fun _ => m

theorem constantly_grows {collection : SyncCollection} (m : Moment collection) (i : ℕ) :
    (constantly m i).log.Grows (constantly m (i + 1)).log :=
  CollectionLog.Grows.refl m.log

end MailServer.Jmap
