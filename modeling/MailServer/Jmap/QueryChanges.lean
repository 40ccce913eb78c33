import MailServer.Jmap.Paging
import MailServer.Lib.Splicing

/-!
# The query changes method of JMAP

`jmap/src/changes/query.rs` tells a client how the result list of a query has changed: it asks for
the changes since the state, runs the query again, and reports which ids are to be taken out and
which are to be put in, each with its place in the new list.

Principal result: `applyResponse_queryResponse`.
-/

namespace MailServer.Jmap

open MailServer.Store Splicing List

/-! ## Queries -/

/-- A filter and a sort that look at nothing but the object; the sort breaks all ties. -/
structure ObjectQuery (Data Key : Type) [LinearOrder Key] where
  selects : UInt64 × Data → Bool
  key : UInt64 × Data → Key
  isMutable : Bool
  id_eq_of_key : ∀ o o', key o = key o' → o.1 = o'.1

/-- The id of an object and what it is. -/
abbrev Objects (Data : Type) := List (UInt64 × Data)

variable {Data Key : Type} [LinearOrder Key]

/-- All ids that the query selects, in order. -/
def ObjectQuery.results (q : ObjectQuery Data Key) (objects : Objects Data) : List UInt64 :=
  ((objects.filter q.selects).insertionSort fun o o' => q.key o ≤ q.key o').map Prod.fst

/-- `QueryResponseBuilder::add_id` until it has enough. -/
def addIds (limit : ℕ) : List UInt64 → List UInt64 → List UInt64
  | ids, [] => ids
  | ids, id :: results =>
    if (ids ++ [id]).length = limit then ids ++ [id] else addIds limit (ids ++ [id]) results

/-- The ids of the response to a query without a limit or an anchor; `queryMaxResults` is
`query_max_results`. -/
def queryIds (queryMaxResults : ℕ) (results : List UInt64) : List UInt64 :=
  addIds (min queryMaxResults results.length) [] results

/-! ## The method -/

structure QueryChangesRequest (Data Key : Type) [LinearOrder Key] where
  query : ObjectQuery Data Key
  sinceQueryState : State
  maxChanges : Option ℕ
  upToId : Option UInt64
  calculateTotal : Option Bool

structure AddedItem where
  id : UInt64
  index : ℕ
deriving DecidableEq

structure QueryChangesResponse where
  oldQueryState : State
  newQueryState : State
  total : Option ℕ
  removed : List UInt64
  added : List AddedItem
deriving DecidableEq

def ChangesResponse.hasChanges (changes : ChangesResponse) : Bool :=
  !changes.created.isEmpty || !changes.updated.isEmpty || !changes.destroyed.isEmpty

/-- The loop over the results from an index on, which may stop after an id. -/
def addedItems (isAdded : UInt64 → Bool) (upToId : Option UInt64) : ℕ → List UInt64 → List AddedItem
  | _, [] => []
  | index, id :: ids =>
    (if isAdded id then [⟨id, index⟩] else []) ++
      if upToId = some id then [] else addedItems isAdded upToId (index + 1) ids

def queryResponse (queryMaxResults : ℕ) (object : MethodObject) (objects : Objects Data)
    (request : QueryChangesRequest Data Key) (changes : ChangesResponse) : QueryChangesResponse :=
  let calculateTotal := request.calculateTotal.getD false
  let response : QueryChangesResponse := ⟨changes.oldState, changes.newState, none, [], []⟩
  if !changes.hasChanges && !calculateTotal then response
  else
    let isMutable := object ≠ .email || request.query.isMutable
    let results := request.query.results objects
    let ids := queryIds queryMaxResults results
    let total := if calculateTotal then some results.length else none
    if changes.hasChanges then
      if isMutable then
        { response with
          total := total
          removed := changes.updated ++ changes.destroyed
          added := addedItems (fun id => changes.created.contains id || changes.updated.contains id)
            none 0 ids }
      else
        { response with
          total := total
          removed := changes.destroyed
          added := addedItems (fun id => changes.created.contains id) request.upToId 0 ids }
    else { response with total := total }

def queryChanges (maxResults : Option ℕ) (queryMaxResults : ℕ) (object : MethodObject)
    (log : List LogEntry) (cache : CacheIds) (objects : Objects Data)
    (request : QueryChangesRequest Data Key) : Except ChangesError QueryChangesResponse := do
  let changes ←
    changes maxResults object log cache ⟨request.sinceQueryState, request.maxChanges⟩
  return queryResponse queryMaxResults object objects request changes.response

/-! ## A client -/

/-- The client takes out what was removed, and puts in what was added in the order of the
indexes. -/
def applyResponse (results : List UInt64) (response : QueryChangesResponse) : List UInt64 :=
  (response.added.insertionSort fun a a' => a.index ≤ a'.index).foldl
    (fun results added => insertAt results added.index added.id)
    (results.filter fun id => id ∉ response.removed)

/-! ## Result lists -/

section Results

variable (q : ObjectQuery Data Key) {objects : Objects Data}

theorem ObjectQuery.mem_results {id : UInt64} :
    id ∈ q.results objects ↔ ∃ data, (id, data) ∈ objects ∧ q.selects (id, data) := by
  unfold results
  rw [mem_map]
  constructor
  · rintro ⟨⟨id', data⟩, hmem, rfl⟩
    exact ⟨data, mem_filter.1 ((mem_insertionSort _).1 hmem)⟩
  · rintro ⟨data, hmem⟩
    exact ⟨(id, data), (mem_insertionSort _).2 (mem_filter.2 hmem), rfl⟩

theorem eq_of_mem_objects (hids : (objects.map Prod.fst).Nodup) {id : UInt64} {data data' : Data}
    (h : (id, data) ∈ objects) (h' : (id, data') ∈ objects) : data = data' := by
  have heq := inj_on_of_nodup_map hids h h' rfl
  exact congrArg Prod.snd heq

/-- **The results are in the order** of their keys. -/
theorem ObjectQuery.results_sorted (hids : (objects.map Prod.fst).Nodup) :
    (q.results objects).Pairwise fun id id' => ∀ data data', (id, data) ∈ objects →
      (id', data') ∈ objects → q.key (id, data) < q.key (id', data') := by
  unfold results
  rw [pairwise_map]
  have hperm := perm_insertionSort (fun o o' => q.key o ≤ q.key o') (objects.filter q.selects)
  have hnodup : ((objects.filter q.selects).insertionSort
      fun o o' => q.key o ≤ q.key o').Pairwise fun o o' => o.1 ≠ o'.1 := by
    have hfilter : ((objects.filter q.selects).map Prod.fst).Nodup :=
      hids.sublist (filter_sublist.map Prod.fst)
    exact pairwise_map.1 ((hperm.map Prod.fst).nodup_iff.2 hfilter)
  have hsorted := pairwise_insertionSort (fun o o' => q.key o ≤ q.key o')
    (objects.filter q.selects)
  refine ((hnodup.and hsorted).imp_of_mem fun {o o'} ho ho' h data data' hdata hdata' => ?_)
  have hmem : o ∈ objects := (mem_filter.1 ((mem_insertionSort _).1 ho)).1
  have hmem' : o' ∈ objects := (mem_filter.1 ((mem_insertionSort _).1 ho')).1
  rw [eq_of_mem_objects hids hdata hmem, eq_of_mem_objects hids hdata' hmem']
  exact lt_of_le_of_ne h.2 fun heq => h.1 (q.id_eq_of_key o o' heq)

theorem ObjectQuery.results_nodup (hids : (objects.map Prod.fst).Nodup) :
    (q.results objects).Nodup := by
  refine (q.results_sorted hids).imp_of_mem fun {id id'} hid _ hlt heq => ?_
  subst heq
  obtain ⟨data, hmem, -⟩ := q.mem_results.1 hid
  exact lt_irrefl _ (hlt data data hmem hmem)

end Results

theorem exists_addIds (limit : ℕ) (results : List UInt64) :
    ∀ ids, ∃ results', addIds limit ids results = ids ++ results' ∧ results' <+: results := by
  induction results with
  | nil => exact fun ids => ⟨[], (append_nil ids).symm, prefix_rfl⟩
  | cons id results ih =>
    intro ids
    unfold addIds
    split
    · exact ⟨[id], rfl, ⟨results, rfl⟩⟩
    · obtain ⟨results', heq, hstart⟩ := ih (ids ++ [id])
      refine ⟨id :: results', ?_, cons_prefix_cons.2 ⟨rfl, hstart⟩⟩
      rw [heq, append_assoc]
      rfl

theorem prefix_queryIds (queryMaxResults : ℕ) (results : List UInt64) :
    queryIds queryMaxResults results <+: results := by
  obtain ⟨results', heq, hstart⟩ :=
    exists_addIds (min queryMaxResults results.length) results []
  unfold queryIds
  rw [heq]
  exact hstart

/-! ## Responses as edits -/

/-- The ids up to one, if it is among them. -/
def idsUpTo (upToId : Option UInt64) : List UInt64 → List UInt64
  | [] => []
  | id :: ids => if upToId = some id then [id] else id :: idsUpTo upToId ids

theorem prefix_idsUpTo (upToId : Option UInt64) (ids : List UInt64) :
    idsUpTo upToId ids <+: ids := by
  induction ids with
  | nil => exact prefix_rfl
  | cons id ids ih =>
    unfold idsUpTo
    split
    · exact ⟨ids, rfl⟩
    · exact cons_prefix_cons.2 ⟨rfl, ih⟩

/-- **The entries of the loop** have the places of the ids in the list. -/
theorem addedItems_eq (isAdded : UInt64 → Bool) (upToId : Option UInt64) (ids : List UInt64) :
    ∀ before after, (before ++ ids ++ after).Nodup →
      addedItems isAdded upToId before.length ids =
        ((idsUpTo upToId ids).filter isAdded).map
          fun id => ⟨id, (before ++ ids ++ after).idxOf id⟩ := by
  induction ids with
  | nil => exact fun _ _ _ => rfl
  | cons id ids ih =>
    intro before after hnodup
    have hindex : (before ++ (id :: ids) ++ after).idxOf id = before.length := by
      rw [append_assoc] at hnodup ⊢
      have hnot : id ∉ before := fun hmem =>
        (nodup_append.1 hnodup).2.2 id hmem id (by simp) rfl
      rw [idxOf_append_of_notMem hnot, cons_append, idxOf_cons_self, Nat.add_zero]
    have hshift : before ++ (id :: ids) ++ after = (before ++ [id]) ++ ids ++ after := by simp
    have hrest : addedItems isAdded upToId (before.length + 1) ids =
        ((idsUpTo upToId ids).filter isAdded).map
          fun id' => ⟨id', (before ++ (id :: ids) ++ after).idxOf id'⟩ := by
      have h := ih (before ++ [id]) after (by rwa [← hshift])
      rwa [length_append, ← hshift] at h
    have hhead : ∀ l, ((id :: l).filter isAdded).map
        (fun id' => (⟨id', (before ++ (id :: ids) ++ after).idxOf id'⟩ : AddedItem)) =
          (if isAdded id then [⟨id, before.length⟩] else []) ++ (l.filter isAdded).map
            fun id' => ⟨id', (before ++ (id :: ids) ++ after).idxOf id'⟩ := by
      intro l
      rw [filter_cons]
      split
      · rw [map_cons, hindex]
        rfl
      · rfl
    unfold addedItems idsUpTo
    by_cases hlast : upToId = some id
    · rw [if_pos hlast, if_pos hlast, hhead]
      rfl
    · rw [if_neg hlast, if_neg hlast, hhead, hrest]

/-- The ids to be put in are looked for among all ids that are changed, or only among the new
ones. -/
def isMutable (object : MethodObject) (q : ObjectQuery Data Key) : Bool :=
  object ≠ .email || q.isMutable

/-- What changes make of a result list, whatever is shown of it. -/
def editOf (mutable : Bool) (target : List UInt64) (changes : ChangesResponse) : Edit UInt64 where
  removed := (if mutable then changes.updated else []) ++ changes.destroyed
  added := target.filter fun id =>
    changes.created.contains id || (mutable && changes.updated.contains id)

/-- The results that a response looks at. -/
def shownIds (queryMaxResults : ℕ) (mutable : Bool) (upToId : Option UInt64)
    (results : List UInt64) : List UInt64 :=
  idsUpTo (if mutable then none else upToId) (queryIds queryMaxResults results)

theorem prefix_shownIds (queryMaxResults : ℕ) (mutable : Bool) (upToId : Option UInt64)
    (results : List UInt64) : shownIds queryMaxResults mutable upToId results <+: results :=
  (prefix_idsUpTo _ _).trans (prefix_queryIds _ _)

section

variable (queryMaxResults : ℕ) (object : MethodObject) {objects : Objects Data}
  (request : QueryChangesRequest Data Key) (changes : ChangesResponse)
  (hids : (objects.map Prod.fst).Nodup)
include queryMaxResults object request changes hids

/-- The entries of a response. -/
theorem queryResponse_eq : (queryResponse queryMaxResults object objects request changes).removed =
        (editOf (isMutable object request.query) (request.query.results objects) changes).removed ∧
      (queryResponse queryMaxResults object objects request changes).added =
        (editOf (isMutable object request.query) (shownIds queryMaxResults
          (isMutable object request.query) request.upToId (request.query.results objects))
          changes).added.map fun id => ⟨id, (request.query.results objects).idxOf id⟩ := by
  have hloop : ∀ isAdded upToId, addedItems isAdded upToId 0
      (queryIds queryMaxResults (request.query.results objects)) =
        ((idsUpTo upToId (queryIds queryMaxResults (request.query.results objects))).filter
          isAdded).map fun id => ⟨id, (request.query.results objects).idxOf id⟩ := by
    intro isAdded upToId
    obtain ⟨after, hafter⟩ := prefix_queryIds queryMaxResults (request.query.results objects)
    have h := addedItems_eq isAdded upToId
      (queryIds queryMaxResults (request.query.results objects)) [] after
      (by rw [nil_append, hafter]; exact request.query.results_nodup hids)
    rwa [nil_append, hafter] at h
  by_cases hchanges : changes.hasChanges
  · unfold queryResponse
    dsimp only
    rw [hchanges]
    unfold editOf shownIds
    change (if isMutable object request.query then _ else _ : QueryChangesResponse).removed =
        _ ∧ (if isMutable object request.query then _ else _ : QueryChangesResponse).added = _
    cases hmutable : isMutable object request.query with
    | true => exact ⟨rfl, hloop _ _⟩
    | false =>
      refine ⟨rfl, ?_⟩
      simp only [Bool.false_and, Bool.or_false]
      exact hloop _ _
  · have hempty : changes.created = [] ∧ changes.updated = [] ∧ changes.destroyed = [] := by
      unfold ChangesResponse.hasChanges at hchanges
      simpa [and_assoc] using hchanges
    obtain ⟨hcreated, hupdated, hdestroyed⟩ := hempty
    rw [Bool.not_eq_true] at hchanges
    have hresponse : (queryResponse queryMaxResults object objects request changes).removed = [] ∧
        (queryResponse queryMaxResults object objects request changes).added = [] := by
      unfold queryResponse
      rw [hchanges]
      cases request.calculateTotal.getD false <;> exact ⟨rfl, rfl⟩
    rw [hresponse.1, hresponse.2]
    unfold editOf
    rw [hcreated, hupdated, hdestroyed]
    simp

/-- **A client applies a response** as an edit whose ranks are the places in the new list. -/
theorem applyResponse_queryResponse (results : List UInt64) :
    applyResponse results (queryResponse queryMaxResults object objects request changes) =
      Edit.apply (fun id => (request.query.results objects).idxOf id) results
        { editOf (isMutable object request.query) (request.query.results objects) changes with
          added := (editOf (isMutable object request.query) (shownIds queryMaxResults
            (isMutable object request.query) request.upToId (request.query.results objects))
            changes).added } := by
  obtain ⟨hremoved, hadded⟩ := queryResponse_eq queryMaxResults object request changes hids
  have hsorted : ((editOf (isMutable object request.query) (shownIds queryMaxResults
      (isMutable object request.query) request.upToId (request.query.results objects))
      changes).added.map fun id =>
        (⟨id, (request.query.results objects).idxOf id⟩ : AddedItem)).Pairwise fun a a' =>
          a.index ≤ a'.index := by
    rw [pairwise_map]
    have hnodup := request.query.results_nodup hids
    have hstart := prefix_shownIds queryMaxResults (isMutable object request.query)
      request.upToId (request.query.results objects)
    refine ((pairwise_idxOf hnodup).sublist
      (filter_sublist.trans hstart.sublist)).imp fun h => Nat.le_of_lt h
  unfold applyResponse Edit.apply insertAll
  rw [hremoved, hadded, hsorted.insertionSort_eq, foldl_map]

end

end MailServer.Jmap
