import MailServer.Lib.Fallible
import MailServer.Search.Evaluate
import MailServer.Search.SplitMeaning
import MailServer.Store.ValueClass
import Mathlib.Data.Finset.Sort

/-!
# Querying an account

`SearchStore::query_account` (`store/src/dispatch/search.rs`), which answers a query from the
built-in index (`Store::query_account`, `store/src/search/query.rs`) or from an external database
together with the filters and comparators that only the server can evaluate.

The index and the database are parameters: `InternalFts` evaluates an operator and orders the
documents by a field, `SubQuery` is `sub_query`, the query of an external database.

Principal results: `orderExternally_lists`, `sortResults_lists`, `sortResults_isOk` — ordering the
results neither loses nor repeats a document.
-/

namespace MailServer.Search

open Bracketed

/-! ## Comparators -/

/-- `SearchComparator`; the hash map of a sorted set is a partial function. -/
inductive SearchComparator where
  | field (field : SearchField) (ascending : Bool)
  | documentSet (set : RoaringBitmap) (ascending : Bool)
  | sortedSet (set : UInt32 → Option UInt32) (ascending : Bool)

def SearchComparator.isExternal : SearchComparator → Bool
  | .field .. => true
  | _ => false

/-- `if is_ascending { a.cmp(&b) } else { b.cmp(&a) }`. -/
def directed (ascending : Bool) (a b : UInt32) : Ordering :=
  if ascending then compare a b else compare b a

/-- The comparison of `QueryResults::into_sorted`; the first comparator that tells two documents
apart decides. -/
def compareBy : List SearchComparator → UInt32 → UInt32 → Ordering
  | [], _, _ => .eq
  | .field .. :: comparators, a, b => compareBy comparators a b
  | .documentSet set ascending :: comparators, a, b =>
    let absent (id : UInt32) : UInt32 := if id ∈ set then 0 else 1
    (directed ascending (absent a) (absent b)).then (compareBy comparators a b)
  | .sortedSet set ascending :: comparators, a, b =>
    let rank (id : UInt32) : UInt32 := (set id).getD 0xFFFFFFFF
    (directed ascending (rank a) (rank b)).then (compareBy comparators a b)

/-- `QueryResults::into_sorted`; `sort_by` is stable. -/
def intoSorted (results : RoaringBitmap) (comparators : List SearchComparator) : List UInt32 :=
  let results := results.sort
  if !results.isEmpty && !comparators.isEmpty then
    results.mergeSort fun a b => compareBy comparators a b != .gt
  else results

/-! ## The query -/

structure SearchQuery where
  index : Store.SearchIndex
  filters : List SearchFilter
  comparators : List SearchComparator
  mask : RoaringBitmap

/-- The built-in index: the bitmap of an operator, and `sort_order`, the rank of the documents
by a field. -/
structure InternalFts where
  eval : Store.SearchIndex → UInt32 → OperatorEval UInt32
  sortOrder : Store.SearchIndex → UInt32 → SearchField → Except String (UInt32 → Option UInt32)

/-- `SearchStore::sub_query`: the query of an external database. -/
abbrev SubQuery :=
  Store.SearchIndex → List SearchFilter → List SearchComparator → Except String (List UInt32)

/-- `internal_fts` tells the two kinds of search stores apart. -/
inductive SearchStore where
  | internal (fts : InternalFts)
  | external (subQuery : SubQuery)

/-- A field is compared by the ranks the index has for it. -/
def InternalFts.resolveComparator (fts : InternalFts) (index : Store.SearchIndex)
    (accountId : UInt32) : SearchComparator → Except String SearchComparator
  | .field field ascending => do
    let set ← fts.sortOrder index accountId field
    return .sortedSet set ascending
  | comparator => .ok comparator

def InternalFts.queryAccount (fts : InternalFts) (query : SearchQuery) :
    Except String (List UInt32) := do
  let results ← Search.queryAccount (fts.eval query.index) query.filters query.mask
  if results.card > 1 && !query.comparators.isEmpty then
    let accountId : UInt32 := (accountIdOf query.filters).elim 0xFFFFFFFF UInt64.toUInt32
    let comparators ← query.comparators.mapM (fts.resolveComparator query.index accountId)
    return intoSorted results comparators
  else
    return results.sort

/-- What the first loop of `SearchStore::query_account` finds out about the filters. -/
structure FilterKinds where
  accountId : UInt32
  hasLocalFilters : Bool
  hasExternalFilters : Bool

def FilterKinds.init : FilterKinds := ⟨0xFFFFFFFF, false, false⟩

def FilterKinds.note (kinds : FilterKinds) : SearchFilter → FilterKinds
  | .operator .accountId .equal (.uint id) => { kinds with accountId := id.toUInt32 }
  | .documentSet _ => { kinds with hasLocalFilters := true }
  | .operator .. => { kinds with hasExternalFilters := true }
  | _ => kinds

/-- A run is replaced by the documents the database returns for it. -/
def resolveFilter (subQuery : SubQuery) (index : Store.SearchIndex) :
    SplitFilter → Except String SearchFilter
  | .external filters => do
    let results ← subQuery index filters []
    return .documentSet results.toFinset
  | .internal filter => .ok filter

/-- Split the filters and have the database answer the runs. -/
def resolveFilters (subQuery : SubQuery) (index : Store.SearchIndex)
    (filters : List SearchFilter) : Except String (List SearchFilter) :=
  match splitFilters filters with
  | none => .error "Invalid filter query"
  | some split => split.mapM (resolveFilter subQuery index)

/-- `results.min().unwrap()` of a bitmap that is not empty. -/
def bitmapMin (results : RoaringBitmap) : UInt32 :=
  results.sort.head?.getD 0

/-- `results.max().unwrap()` of a bitmap that is not empty. -/
def bitmapMax (results : RoaringBitmap) : UInt32 :=
  results.sort.getLast?.getD 0

/-- The filters that have the database order the results: the account, and the range of the
document ids. -/
def rangeFilters (accountId : UInt32) (results : RoaringBitmap) : List SearchFilter :=
  [.operator .accountId .equal (.uint accountId.toUInt64),
    .operator .documentId .greaterEqualThan (.uint (bitmapMin results).toUInt64),
    .operator .documentId .lowerEqualThan (.uint (bitmapMax results).toUInt64)]

/-- `if results.remove(ordered_result) { ordered_results.push(ordered_result) }`. -/
def takeOrdered (st : RoaringBitmap × List UInt32) (orderedResult : UInt32) :
    RoaringBitmap × List UInt32 :=
  if orderedResult ∈ st.1 then (st.1.erase orderedResult, st.2 ++ [orderedResult]) else st

/-- The results in the order of the database, then those it does not know. -/
def orderExternally (subQuery : SubQuery) (accountId : UInt32) (index : Store.SearchIndex)
    (results : RoaringBitmap) (external : List SearchComparator) :
    Except String (List UInt32) := do
  let answer ← subQuery index (rangeFilters accountId results) external
  let (remaining, orderedResults) := answer.foldl takeOrdered (results, [])
  return orderedResults ++ remaining.sort

/-- The positions of the ordered results, as a sorted set. -/
def positions (orderedResults : List UInt32) : UInt32 → Option UInt32 :=
  orderedResults.zipIdx.foldl
    (fun set entry => Function.update set entry.1 (some (UInt32.ofNat entry.2))) fun _ => none

/-- The last step of `SearchStore::query_account`: sort the results of the local filters. -/
def sortResults (subQuery : SubQuery) (accountId : UInt32) (index : Store.SearchIndex)
    (results : RoaringBitmap) (comparators : List SearchComparator) :
    Except String (List UInt32) :=
  if results.card = 1 then .ok [bitmapMin results]
  else if results.card < 1 then .ok []
  else if comparators.isEmpty then .ok results.sort
  else
    let external := comparators.filter SearchComparator.isExternal
    let locals := comparators.filter fun comparator => !comparator.isExternal
    let externalFirst := comparators.head?.any SearchComparator.isExternal
    if external.isEmpty then .ok (intoSorted results locals)
    else do
      let orderedResults ← orderExternally subQuery accountId index results external
      if locals.isEmpty then return orderedResults
      let comparator := .sortedSet (positions orderedResults) true
      return intoSorted results
        (if externalFirst then comparator :: locals else locals ++ [comparator])

/-- `SearchStore::query_account` on an external database. -/
def externalQuery (subQuery : SubQuery) (query : SearchQuery) : Except String (List UInt32) :=
  let kinds := query.filters.foldl FilterKinds.note FilterKinds.init
  if kinds.accountId = 0xFFFFFFFF then
    .error "Account ID filter is required for account queries"
  else if !kinds.hasLocalFilters && !kinds.hasExternalFilters && query.comparators.isEmpty then
    .ok query.mask.sort
  else if !kinds.hasLocalFilters && query.comparators.all SearchComparator.isExternal then do
    let results ← subQuery query.index query.filters query.comparators
    if !results.isEmpty || kinds.hasExternalFilters then
      return results.filter fun id => id ∈ query.mask
    else
      -- "Database sort is broken, return masked results"
      return query.mask.sort
  else do
    let filters ← if kinds.hasExternalFilters then
        resolveFilters subQuery query.index query.filters
      else .ok query.filters
    sortResults subQuery kinds.accountId query.index (filter filters query.mask)
      query.comparators

def SearchStore.queryAccount (store : SearchStore) (query : SearchQuery) :
    Except String (List UInt32) :=
  if query.mask = ∅ then .ok []
  else
    match store with
    | .internal fts => fts.queryAccount query
    | .external subQuery => externalQuery subQuery query

/-! ## Sorting -/

/-- The list has every document of the bitmap once, and no other document. -/
def Lists (results : RoaringBitmap) (ids : List UInt32) : Prop :=
  ids.Nodup ∧ ∀ d, d ∈ ids ↔ d ∈ results

theorem lists_sort (results : RoaringBitmap) : Lists results results.sort :=
  ⟨results.sort_nodup _, fun _ => Finset.mem_sort _⟩

theorem intoSorted_lists (results : RoaringBitmap) (comparators : List SearchComparator) :
    Lists results (intoSorted results comparators) := by
  obtain ⟨hnodup, hmem⟩ := lists_sort results
  unfold intoSorted
  dsimp only
  split_ifs
  · have hperm := List.mergeSort_perm results.sort fun a b => compareBy comparators a b != .gt
    exact ⟨hperm.nodup_iff.2 hnodup, fun d => hperm.mem_iff.trans (hmem d)⟩
  · exact ⟨hnodup, hmem⟩

theorem foldl_takeOrdered (answer : List UInt32) :
    ∀ st, st.2.Nodup → (∀ d ∈ st.2, d ∉ st.1) →
      let after := answer.foldl takeOrdered st
      after.2.Nodup ∧ (∀ d ∈ after.2, d ∉ after.1) ∧
        ∀ d, d ∈ after.2 ∨ d ∈ after.1 ↔ d ∈ st.2 ∨ d ∈ st.1 := by
  induction answer with
  | nil => exact fun st hnodup hdisjoint => ⟨hnodup, hdisjoint, fun _ => Iff.rfl⟩
  | cons id answer ih =>
    intro st hnodup hdisjoint
    rw [List.foldl_cons]
    by_cases hid : id ∈ st.1
    · have hnew : id ∉ st.2 := fun h => hdisjoint id h hid
      have htake : takeOrdered st id = (st.1.erase id, st.2 ++ [id]) := by simp [takeOrdered, hid]
      obtain ⟨h₁, h₂, h₃⟩ := ih (takeOrdered st id)
        (by rw [htake]; exact List.nodup_append'.2
              ⟨hnodup, List.nodup_singleton id, by simpa using hnew⟩)
        (by
          rw [htake]
          intro d hd
          rcases List.mem_append.1 hd with hd | hd
          · exact fun h => hdisjoint d hd (Finset.mem_of_mem_erase h)
          · simp [List.mem_singleton.1 hd])
      refine ⟨h₁, h₂, fun d => (h₃ d).trans ?_⟩
      rw [htake]
      by_cases hd : d = id
      · simp [hd, hid]
      · simp [hd]
    · have htake : takeOrdered st id = st := by simp [takeOrdered, hid]
      rw [htake]
      exact ih st hnodup hdisjoint

section

variable {subQuery : SubQuery} {accountId : UInt32} {index : Store.SearchIndex}
  {results : RoaringBitmap}

/-- **The order of the database loses nothing**: the results it does not know follow behind those it
does. -/
theorem orderExternally_lists {external} {ids : List UInt32}
    (h : orderExternally subQuery accountId index results external = .ok ids) :
    Lists results ids := by
  obtain ⟨answer, -, h⟩ := Lib.bind_eq_ok_iff.1 h
  obtain ⟨hnodup, hdisjoint, hmem⟩ := foldl_takeOrdered answer (results, []) List.nodup_nil
    (by simp)
  cases h
  obtain ⟨hsorted, hsort⟩ := lists_sort (answer.foldl takeOrdered (results, [])).1
  refine ⟨List.nodup_append'.2 ⟨hnodup, hsorted, ?_⟩, fun d => ?_⟩
  · intro d hd hremaining
    exact hdisjoint d hd ((hsort d).1 hremaining)
  · rw [List.mem_append, hsort, hmem]
    simp

/-- **Sorting neither loses nor repeats a document.** -/
theorem sortResults_lists {comparators} {ids : List UInt32}
    (h : sortResults subQuery accountId index results comparators = .ok ids) :
    Lists results ids := by
  unfold sortResults at h
  dsimp only at h
  split_ifs at h with hone hnone _ _
  · cases h
    obtain ⟨d, rfl⟩ := Finset.card_eq_one.1 hone
    simp [Lists, bitmapMin]
  · cases h
    obtain rfl : results = ∅ := Finset.card_eq_zero.1 (by omega)
    simp [Lists]
  · cases h
    exact lists_sort results
  · cases h
    exact intoSorted_lists results _
  · -- no comparator is left for the server
    obtain ⟨orderedResults, hordered, h⟩ := Lib.bind_eq_ok_iff.1 h
    cases h
    exact orderExternally_lists hordered
  all_goals
    obtain ⟨orderedResults, -, h⟩ := Lib.bind_eq_ok_iff.1 h
    cases h
    exact intoSorted_lists results _

theorem sortResults_isOk {comparators}
    (hrange : ∃ answer, subQuery index (rangeFilters accountId results)
      (comparators.filter SearchComparator.isExternal) = .ok answer) :
    ∃ ids, sortResults subQuery accountId index results comparators = .ok ids := by
  obtain ⟨answer, hanswer⟩ := hrange
  have hordered : ∃ ids, orderExternally subQuery accountId index results
      (comparators.filter SearchComparator.isExternal) = .ok ids :=
    ⟨_, Lib.bind_eq_ok_iff.2 ⟨answer, hanswer, rfl⟩⟩
  obtain ⟨ordered, hordered⟩ := hordered
  unfold sortResults
  dsimp only
  split_ifs
  · exact ⟨_, rfl⟩
  · exact ⟨_, rfl⟩
  · exact ⟨_, rfl⟩
  · exact ⟨_, rfl⟩
  all_goals exact ⟨_, Lib.bind_eq_ok_iff.2 ⟨ordered, hordered, rfl⟩⟩

end

end MailServer.Search
