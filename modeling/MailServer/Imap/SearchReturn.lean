import MailServer.Imap.SearchParser
import Mathlib.Data.List.MinMax
import Mathlib.Order.Bounds.Basic

/-!
# SEARCH RETURN

`map_search_results` and the part of `search` (`imap/src/op/search.rs`) that answers with what has
been found: the options of `RETURN` and the saved result.

Principal result: `search_consistent_iff`.
-/

namespace MailServer.Imap.SearchCommand

open List View

def number (isUid : Bool) (imapId : ImapId) : ℕ :=
  if isUid then imapId.uid else imapId.seqnum

def mapResultId (selected : SelectedMailbox) (isUid : Bool) (documentId : ℕ) :
    Option (ℕ × ImapId) :=
  let imapId :=
    match InsertionMap.find documentId selected.state.idToImap with
    | some imapId => some imapId
    | none =>
      if isUid then
        selected.nextState.bind fun s => InsertionMap.find documentId s.nextState.idToImap
      else none
  imapId.map fun imapId => (number isUid imapId, imapId)

/-! ## Mapping the results -/

structure MappedResults where
  min : Option (ℕ × ImapId) := none
  max : Option (ℕ × ImapId) := none
  total : ℕ := 0
  imapIds : List ℕ := []
  savedResults : Option (List ImapId)

/-- The first of the best numbers, so far. -/
def keep (better : ℕ → ℕ → Prop) [DecidableRel better] (prev : Option (ℕ × ImapId))
    (found : ℕ × ImapId) : Option (ℕ × ImapId) :=
  match prev with
  | some p => if better found.1 p.1 then some found else some p
  | none => some found

section
variable (findMin findMax : Bool)

def MappedResults.add (r : MappedResults) (found : ℕ × ImapId) : MappedResults :=
  { min := if findMin then keep (· < ·) r.min found else r.min
    max := if findMax then keep (· > ·) r.max found else r.max
    total := r.total + 1
    imapIds := if findMin || findMax then r.imapIds else r.imapIds ++ [found.1]
    savedResults :=
      if findMin || findMax then r.savedResults else r.savedResults.map (· ++ [found.2]) }

def mapSearchResults (found : List (ℕ × ImapId)) (saving : Bool) : MappedResults :=
  let r := found.foldl (MappedResults.add findMin findMax)
    { savedResults := if saving then some [] else none }
  if findMin || findMax then
    let extremes := r.min.toList ++ r.max.toList
    { r with
      imapIds := r.imapIds ++ extremes.map Prod.fst
      savedResults := r.savedResults.map (· ++ extremes.map Prod.snd) }
  else r

end

structure Response where
  min : Option ℕ
  max : Option ℕ
  count : Option ℕ
  ids : List ℕ

/-- The response and, with `SAVE`, the saved result. -/
def search (selected : SelectedMailbox) (options : List ResultOption) (isUid isSort : Bool)
    (resultSet : List ℕ) : Response × Option (List ImapId) :=
  let r := mapSearchResults (options.contains .min) (options.contains .max)
    (resultSet.filterMap (mapResultId selected isUid)) (options.contains .save)
  let imapIds := if isSort then r.imapIds else r.imapIds.insertionSort (· ≤ ·)
  ({ min := r.min.map Prod.fst
     max := r.max.map Prod.fst
     count := if options.contains .count then some r.total else none
     ids := if options.isEmpty || options.contains .all then imapIds else [] },
    r.savedResults)

/-! ## What the options ask for -/

section
variable (options : List ResultOption) (numbers : Set ℕ)

/-- An extreme that is asked for. -/
def Extreme (n : ℕ) : Prop :=
  ResultOption.min ∈ options ∧ IsLeast numbers n ∨ ResultOption.max ∈ options ∧ IsGreatest numbers n

/-- The extremes alone are saved when neither `ALL` nor `COUNT` is asked for. -/
def Saved (n : ℕ) : Prop :=
  if (ResultOption.min ∈ options ∨ ResultOption.max ∈ options) ∧ ResultOption.all ∉ options ∧
      ResultOption.count ∉ options then Extreme options numbers n
  else n ∈ numbers

end

structure Consistent (options : List ResultOption) (isUid : Bool) (found : List ℕ)
    (response : Response) (saved : Option (List ImapId)) : Prop where
  min : ∀ n, response.min = some n ↔ ResultOption.min ∈ options ∧ IsLeast {n | n ∈ found} n
  max : ∀ n, response.max = some n ↔ ResultOption.max ∈ options ∧ IsGreatest {n | n ∈ found} n
  count : response.count = if ResultOption.count ∈ options then some found.length else none
  ids : ∀ n, n ∈ response.ids ↔ (options = [] ∨ ResultOption.all ∈ options) ∧ n ∈ found
  isSaved : saved.isSome ↔ ResultOption.save ∈ options
  savedIds : ∀ s, saved = some s → ∀ n,
    n ∈ s.map (number isUid) ↔ Saved options {n | n ∈ found} n

/-! ## The fold -/

theorem keep_eq_argAux (better : ℕ → ℕ → Prop) [DecidableRel better] :
    keep better = argAux fun b c => better b.1 c.1 := by
  funext prev found
  cases prev <;> rfl

theorem keep_least (found : List (ℕ × ImapId)) (n : ℕ) :
    (found.argmin Prod.fst).map Prod.fst = some n ↔ IsLeast {n | n ∈ found.map Prod.fst} n := by
  have hleast : ∀ e ∈ found.argmin Prod.fst, IsLeast {n | n ∈ found.map Prod.fst} e.1 :=
    fun e he => ⟨mem_map_of_mem (argmin_mem he),
      forall_mem_map.2 fun f hf => le_of_mem_argmin hf he⟩
  constructor
  · intro h
    obtain ⟨e, he, rfl⟩ := Option.map_eq_some_iff.1 h
    exact hleast e he
  · intro h
    cases he : found.argmin Prod.fst with
    | none => simpa [argmin_eq_none.1 he] using h.1
    | some e => exact congrArg some ((hleast e he).unique h)

theorem keep_greatest (found : List (ℕ × ImapId)) (n : ℕ) :
    (found.argmax Prod.fst).map Prod.fst = some n ↔
      IsGreatest {n | n ∈ found.map Prod.fst} n := by
  have hgreatest : ∀ e ∈ found.argmax Prod.fst, IsGreatest {n | n ∈ found.map Prod.fst} e.1 :=
    fun e he => ⟨mem_map_of_mem (argmax_mem he),
      forall_mem_map.2 fun f hf => le_of_mem_argmax hf he⟩
  constructor
  · intro h
    obtain ⟨e, he, rfl⟩ := Option.map_eq_some_iff.1 h
    exact hgreatest e he
  · intro h
    cases he : found.argmax Prod.fst with
    | none => simpa [argmax_eq_none.1 he] using h.1
    | some e => exact congrArg some ((hgreatest e he).unique h)

theorem foldl_add (findMin findMax : Bool) (found : List (ℕ × ImapId)) (r : MappedResults) :
    found.foldl (MappedResults.add findMin findMax) r =
      { min := if findMin then found.foldl (keep (· < ·)) r.min else r.min
        max := if findMax then found.foldl (keep (· > ·)) r.max else r.max
        total := r.total + found.length
        imapIds :=
          if findMin || findMax then r.imapIds else r.imapIds ++ found.map Prod.fst
        savedResults :=
          if findMin || findMax then r.savedResults
          else r.savedResults.map (· ++ found.map Prod.snd) } := by
  induction found generalizing r with
  | nil => cases r; simp
  | cons e l ih =>
    rw [foldl_cons, ih]
    cases findMin <;> cases findMax <;> simp [MappedResults.add, Function.comp_def] <;> omega

/-- What is reported as found, and saved. -/
def kept (findMin findMax : Bool) (found : List (ℕ × ImapId)) : List (ℕ × ImapId) :=
  if findMin || findMax then
    (if findMin then (found.argmin Prod.fst).toList else []) ++
      if findMax then (found.argmax Prod.fst).toList else []
  else found

theorem mapSearchResults_eq (findMin findMax saving : Bool) (found : List (ℕ × ImapId)) :
    mapSearchResults findMin findMax found saving =
      { min := if findMin then found.argmin Prod.fst else none
        max := if findMax then found.argmax Prod.fst else none
        total := found.length
        imapIds := (kept findMin findMax found).map Prod.fst
        savedResults :=
          if saving then some ((kept findMin findMax found).map Prod.snd) else none } := by
  rw [mapSearchResults, foldl_add, keep_eq_argAux, keep_eq_argAux]
  cases findMin <;> cases findMax <;> cases saving <;> simp [kept, argmin, argmax]

theorem mem_of_kept {findMin findMax : Bool} {found} {e}
    (h : e ∈ kept findMin findMax found) : e ∈ found := by
  unfold kept at h
  split at h
  case isTrue =>
    rcases mem_append.1 h with h | h <;> split at h <;>
      simp only [Option.mem_toList, not_mem_nil] at h
    · exact argmin_mem h
    · exact argmax_mem h
  case isFalse => exact h

theorem mem_kept (options : List ResultOption) (found : List (ℕ × ImapId)) (n : ℕ) :
    n ∈ (kept (options.contains .min) (options.contains .max) found).map Prod.fst ↔
      if ResultOption.min ∈ options ∨ ResultOption.max ∈ options then
        Extreme options {n | n ∈ found.map Prod.fst} n
      else n ∈ found.map Prod.fst := by
  simp only [Extreme, ← keep_least, ← keep_greatest]
  by_cases hmin : ResultOption.min ∈ options <;> by_cases hmax : ResultOption.max ∈ options <;>
    simp [kept, hmin, hmax]

/-- `ALL` gives, and `COUNT` saves, no more than the extremes that are asked for. -/
theorem search_consistent_iff (selected : SelectedMailbox) (options : List ResultOption)
    (isUid isSort : Bool) (resultSet : List ℕ) :
    let found := (resultSet.filterMap (mapResultId selected isUid)).map Prod.fst
    Consistent options isUid found (search selected options isUid isSort resultSet).1
        (search selected options isUid isSort resultSet).2 ↔
      (ResultOption.min ∈ options ∨ ResultOption.max ∈ options →
        ResultOption.all ∈ options ∨ ResultOption.count ∈ options ∧ ResultOption.save ∈ options →
        ∀ n ∈ found, Extreme options {n | n ∈ found} n) := by
  intro found
  let K := kept (options.contains .min) (options.contains .max)
    (resultSet.filterMap (mapResultId selected isUid))
  have hK : ∀ n, n ∈ K.map Prod.fst ↔
      if ResultOption.min ∈ options ∨ ResultOption.max ∈ options then
        Extreme options {n | n ∈ found} n else n ∈ found := mem_kept options _
  have hsub : ∀ n, Extreme options {n | n ∈ found} n → n ∈ found := by
    rintro n (⟨-, h⟩ | ⟨-, h⟩) <;> exact h.1
  have hnumbers : (K.map Prod.snd).map (number isUid) = K.map Prod.fst := by
    rw [map_map]
    refine map_congr_left fun e he => ?_
    obtain ⟨documentId, -, hmap⟩ := mem_filterMap.1 (mem_of_kept he)
    obtain ⟨imapId, -, rfl⟩ := Option.map_eq_some_iff.1 hmap
    rfl
  have hids : ∀ n, n ∈ (search selected options isUid isSort resultSet).1.ids ↔
      (options = [] ∨ ResultOption.all ∈ options) ∧ n ∈ K.map Prod.fst := by
    intro n
    simp only [search, mapSearchResults_eq]
    cases isSort <;> by_cases h : options = [] ∨ ResultOption.all ∈ options <;>
      simp [K]
  have hsaved : (search selected options isUid isSort resultSet).2 =
      if ResultOption.save ∈ options then some (K.map Prod.snd) else none := by
    simp [search, mapSearchResults_eq, K]
  constructor
  · rintro h hext (hall | ⟨hcount, hsave⟩) n hn
    · have hin := ((hids n).1 ((h.ids n).2 ⟨.inr hall, hn⟩)).2
      rwa [hK, if_pos hext] at hin
    · have hin := (h.savedIds _ (hsaved.trans (if_pos hsave)) n).2
        (by simpa [Saved, hcount] using hn)
      rwa [hnumbers, hK, if_pos hext] at hin
  · intro h
    refine ⟨fun n => ?_, fun n => ?_, ?_, fun n => ?_, ?_, fun s hs n => ?_⟩
    · rw [← keep_least]
      by_cases hmin : ResultOption.min ∈ options <;> simp [search, mapSearchResults_eq]
    · rw [← keep_greatest]
      by_cases hmax : ResultOption.max ∈ options <;> simp [search, mapSearchResults_eq]
    · simp [search, mapSearchResults_eq, found]
    · rw [hids]
      grind
    · rw [hsaved]
      split <;> simp [*]
    · rw [hsaved] at hs
      split at hs <;> cases hs
      rw [Saved]
      grind

/-- Three messages, with UIDs 4, 5 and 6. -/
def threeSelected : SelectedMailbox :=
  { state :=
      { uidToId := [(4, 0), (5, 1), (6, 2)]
        idToImap := [(0, ⟨4, 1⟩), (1, ⟨5, 2⟩), (2, ⟨6, 3⟩)]
        uidMax := 6
        totalMessages := 3
        modseq := 0 }
    nextState := none
    savedSearch := none }

/-- `RETURN (MIN ALL)` gives one number of three. -/
theorem all_with_min_incomplete :
    ¬ ∀ (selected : SelectedMailbox) (options : List ResultOption) (isUid isSort : Bool)
      (resultSet : List ℕ), Consistent options isUid
        ((resultSet.filterMap (mapResultId selected isUid)).map Prod.fst)
        (search selected options isUid isSort resultSet).1
        (search selected options isUid isSort resultSet).2 := by
  intro h
  have hids := (h threeSelected [.min, .all] true false [0, 1, 2]).ids 5
  revert hids
  decide

end MailServer.Imap.SearchCommand
