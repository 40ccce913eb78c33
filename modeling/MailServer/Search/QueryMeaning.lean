import MailServer.Search.QueryAccount

/-!
# What a query of an account answers

A query over an account names it once, at the top level of its filters.  Its answer is right when
it lists every document of the mask that satisfies the remaining filters once, and no other
(`Answers`).

Of an external database nothing is assumed but that it answers, without repeating a document: what
it returns for the lists it is sent is part of the condition.

Principal results: `resolveFilters_spec`, `externalQuery_whole`, `externalQuery_unfiltered`,
`externalQuery_documents`, `externalQuery_divided`, `queryAccount_answers_iff`.
-/

namespace MailServer.Search

open Bracketed List

/-! ## Queries over an account -/

def Operand.namesAccount : Operand → Bool
  | .operator .accountId _ _ => true
  | _ => false

/-- The operator of `with_account_id`. -/
def accountOperand (accountId : UInt32) : Operand :=
  .operator .accountId .equal (.uint accountId.toUInt64)

/-- The filters name the account once, between two sequences of operands that do not name it. -/
structure OverAccount (filters : List SearchFilter) (accountId : UInt32)
    (before after : Forest BoolOp Operand) : Prop where
  filters_eq : filters = filtersOf (before.append (.leaf (accountOperand accountId) after))
  others : ∀ a ∈ (before.append after).leaves, a.namesAccount = false
  full : (before.append after).full
  valid : accountId ≠ 0xFFFFFFFF

/-- The answer lists the documents of the mask that satisfy the filters, each of them once. -/
def Answers (docs : Assignment) (f : Forest BoolOp Operand) (mask : RoaringBitmap)
    (answer : Except String (List UInt32)) : Prop :=
  ∃ ids, answer = .ok ids ∧ ids.Nodup ∧ ∀ d, d ∈ ids ↔ d ∈ mask ∧ d ∈ exprValue docs .and f

/-- There is an operator somewhere in the expression. -/
def hasOperators (f : Forest BoolOp Operand) : Bool :=
  f.leaves.any fun a => !a.isDocuments

variable {f : Forest BoolOp Operand}

theorem answers_of_lists {docs : Assignment} {f}
    {mask found} {answer} {ids : List UInt32} (hanswer : answer = .ok ids)
    (hlists : Lists found ids) (hfound : ∀ d, d ∈ found ↔ d ∈ mask ∧ d ∈ exprValue docs .and f) :
    Answers docs f mask answer :=
  ⟨ids, hanswer, hlists.1, fun d => (hlists.2 d).trans (hfound d)⟩

theorem answers_iff_of_lists {docs : Assignment} {mask found : RoaringBitmap} {ids : List UInt32}
    (hlists : Lists found ids) (hmask : ∀ d ∈ found, d ∈ mask) :
    Answers docs f mask (.ok ids) ↔ ∀ d ∈ mask, d ∈ found ↔ d ∈ exprValue docs .and f := by
  constructor
  · rintro ⟨ids', hids, -, hall⟩ d hd
    cases hids
    rw [← hlists.2, hall, and_iff_right hd]
  · intro h
    refine answers_of_lists rfl hlists fun d => ⟨fun hd => ?_, fun hd => (h d hd.1).2 hd.2⟩
    exact ⟨hmask d hd, (h d (hmask d hd)).1 hd⟩

/-! ### The account among the filters -/

theorem hoistGroups_account (accountId : UInt32) (after : Forest BoolOp Operand) :
    ∀ before : Forest BoolOp Operand,
      hoistGroups (before.append (.leaf (accountOperand accountId) after)) =
        hoistGroups (before.append after)
  | .nil => rfl
  | .leaf _ rest => hoistGroups_account accountId after rest
  | .group op members rest => by
    simp only [Forest.append, hoistGroups, hoistGroups_account accountId after rest]

theorem directOperators_account (accountId : UInt32) (after : Forest BoolOp Operand) :
    ∀ before : Forest BoolOp Operand,
      directOperators (before.append (.leaf (accountOperand accountId) after)) =
        directOperators (before.append after)
  | .nil => rfl
  | .leaf a rest => by
    simp only [Forest.append, directOperators, directOperators_account accountId after rest]
  | .group _ _ rest => directOperators_account accountId after rest

theorem mergedDocuments_account (accountId : UInt32) (after : Forest BoolOp Operand)
    (op : Option BoolOp) :
    ∀ (before : Forest BoolOp Operand) merged,
      mergedDocuments op merged (before.append (.leaf (accountOperand accountId) after)) =
        mergedDocuments op merged (before.append after)
  | .nil, _ => rfl
  | .leaf a rest, merged => by
    simp only [Forest.append, mergedDocuments, mergedDocuments_account accountId after op rest]
  | .group _ _ rest, merged => mergedDocuments_account accountId after op rest merged

/-- The first pass of `split_filters` drops the account. -/
theorem hoistLevel_account (accountId : UInt32) (before after : Forest BoolOp Operand) :
    hoistLevel none (before.append (.leaf (accountOperand accountId) after)) =
      hoistLevel none (before.append after) := by
  rw [hoistLevel, hoistLevel, collectedLeaves, collectedLeaves, hoistGroups_account,
    directOperators_account, mergedDocuments_account]

theorem view_of_namesAccount {a : Operand} (h : a.namesAccount = false) (id : UInt64) :
    a.view ≠ .account id := by
  rcases a with ⟨field, op, value⟩ | set
  · cases field <;> cases value <;> simp_all [Operand.view, Operand.namesAccount]
  · simp [Operand.view]

theorem accountIds_of_others (h : ∀ a ∈ f.leaves, a.namesAccount = false) : accountIds f = [] := by
  rw [accountIds, filterMap_eq_nil_iff]
  intro a ha
  have hview := view_of_namesAccount (h a ha)
  split
  · next id hid => exact absurd hid (hview id)
  · rfl

theorem toUInt64_ne_max (accountId : UInt32) : accountId.toUInt64 ≠ 0xFFFFFFFFFFFFFFFF := by
  intro h
  have hlt := accountId.toNat_lt
  have := congrArg UInt64.toNat h
  simp at this
  omega

section Over

variable {filters : List SearchFilter} {accountId : UInt32} {before after : Forest BoolOp Operand}

theorem OverAccount.others_before (hover : OverAccount filters accountId before after) :
    ∀ a ∈ before.leaves, a.namesAccount = false :=
  fun a ha => hover.others a (by rw [Forest.leaves_append]; exact mem_append_left _ ha)

theorem OverAccount.others_after (hover : OverAccount filters accountId before after) :
    ∀ a ∈ after.leaves, a.namesAccount = false :=
  fun a ha => hover.others a (by rw [Forest.leaves_append]; exact mem_append_right _ ha)

/-- The split list of the filters. -/
def splitOf (accountId : UInt32) (f : Forest BoolOp Operand) : Forest BoolOp SplitOperand :=
  splitForest accountId.toUInt64 .and true (hoistLevel none f)

theorem OverAccount.splitFilters (hover : OverAccount filters accountId before after) :
    splitFilters filters = some (splitFiltersOf (splitOf accountId (before.append after))) := by
  have hids : accountIds (before.append (.leaf (accountOperand accountId) after)) =
      [accountId.toUInt64] := by
    have hbefore := accountIds_of_others hover.others_before
    have hafter := accountIds_of_others hover.others_after
    rw [accountIds] at hbefore hafter ⊢
    rw [Forest.leaves_append, filterMap_append, hbefore, Forest.leaves, filterMap_cons,
      hafter]
    rfl
  rw [hover.filters_eq, splitFilters_expression, hids, hoistLevel_account]
  exact if_neg (toUInt64_ne_max accountId)

/-! ### The kinds of its filters -/

theorem note_opening (kinds : FilterKinds) (op : BoolOp) :
    kinds.note (.ofToken (.opening op)) = kinds := by
  cases op <;> rfl

theorem note_leaf (kinds : FilterKinds) {a : Operand} (ha : a.namesAccount = false) :
    kinds.note (.ofToken (.leaf a)) =
      { kinds with
        hasLocalFilters := kinds.hasLocalFilters || a.isDocuments
        hasExternalFilters := kinds.hasExternalFilters || !a.isDocuments } := by
  rcases a with ⟨field, op, value⟩ | set
  · cases field <;>
      simp_all [SearchFilter.ofToken, FilterKinds.note, Operand.isDocuments, Operand.namesAccount]
  · simp [SearchFilter.ofToken, FilterKinds.note, Operand.isDocuments]

theorem foldl_note :
    ∀ f kinds,
      (∀ a ∈ f.leaves, a.namesAccount = false) →
      (filtersOf f).foldl FilterKinds.note kinds =
        { kinds with
          hasLocalFilters := kinds.hasLocalFilters || hasDocuments f
          hasExternalFilters := kinds.hasExternalFilters || hasOperators f }
  | .nil, kinds, _ => by simp [hasDocuments, hasOperators, Forest.leaves]
  | .leaf a rest, kinds, h => by
    have ha := h a (by simp [Forest.leaves])
    rw [filtersOf_leaf, foldl_cons, note_leaf kinds ha,
      foldl_note rest _ fun b hb => h b (by simp [Forest.leaves, hb])]
    simp [hasDocuments, hasOperators, Forest.leaves, Bool.or_assoc]
  | .group op members rest, kinds, h => by
    rw [filtersOf_group, foldl_cons, note_opening, foldl_append,
      foldl_note members _ fun b hb => h b (by simp [Forest.leaves, hb]), foldl_cons]
    rw [show ∀ k : FilterKinds, k.note .end_ = k from fun _ => rfl,
      foldl_note rest _ fun b hb => h b (by simp [Forest.leaves, hb])]
    simp [hasDocuments, hasOperators, Forest.leaves, Bool.or_assoc]

theorem OverAccount.kinds (hover : OverAccount filters accountId before after) :
    filters.foldl FilterKinds.note FilterKinds.init =
      ⟨accountId, hasDocuments (before.append after), hasOperators (before.append after)⟩ := by
  have hnote (kinds : FilterKinds) :
      kinds.note (.ofToken (.leaf (accountOperand accountId))) =
        { kinds with accountId := accountId } := by
    simp [accountOperand, SearchFilter.ofToken, FilterKinds.note]
  rw [hover.filters_eq, filtersOf_append, filtersOf_leaf, foldl_append,
    foldl_note before _ hover.others_before, foldl_cons, hnote,
    foldl_note after _ hover.others_after]
  simp [FilterKinds.init, hasDocuments, hasOperators, Forest.leaves_append]

theorem OverAccount.filter_others (hover : OverAccount filters accountId before after)
    {keep}
    (haccount : keep (.ofToken (.leaf (accountOperand accountId))) = false)
    (hothers : ∀ filter ∈ filtersOf (before.append after), keep filter) :
    filters.filter keep = filtersOf (before.append after) := by
  rw [filtersOf_append] at hothers ⊢
  rw [hover.filters_eq, filtersOf_append, filtersOf_leaf, filter_append,
    filter_cons_of_neg (by simp [haccount]),
    filter_eq_self.2 fun filter h => hothers filter (mem_append_left _ h),
    filter_eq_self.2 fun filter h => hothers filter (mem_append_right _ h)]

end Over

theorem mem_filtersOf_cases {filter : SearchFilter} (h : filter ∈ filtersOf f) :
    (∃ a ∈ f.leaves, filter = .ofToken (.leaf a)) ∨ filter = .and ∨ filter = .or ∨
      filter = .not ∨ filter = .end_ := by
  obtain ⟨t, ht, rfl⟩ := mem_map.1 h
  cases t with
  | leaf a => exact .inl ⟨a, (Forest.mem_leaves_iff a f).2 ht, rfl⟩
  | opening op => cases op <;> simp [SearchFilter.ofToken]
  | closing => simp [SearchFilter.ofToken]

theorem isQueried_of_others (h : ∀ a ∈ f.leaves, a.namesAccount = false) :
    ∀ filter ∈ filtersOf f, filter.isQueried := by
  intro filter hfilter
  rcases mem_filtersOf_cases hfilter with ⟨a, ha, rfl⟩ | rfl | rfl | rfl | rfl
  · have hname := h a ha
    rcases a with ⟨field, op, value⟩ | set
    · cases field <;> simp_all [SearchFilter.ofToken, SearchFilter.isQueried, Operand.namesAccount]
    · rfl
  all_goals rfl

theorem isLocal_of_documents (h : ∀ a ∈ f.leaves, a.isDocuments) :
    ∀ filter ∈ filtersOf f, filter.isLocal := by
  intro filter hfilter
  rcases mem_filtersOf_cases hfilter with ⟨a, ha, rfl⟩ | rfl | rfl | rfl | rfl
  · have hdocs := h a ha
    rcases a with ⟨field, op, value⟩ | set
    · cases hdocs
    · rfl
  all_goals rfl

theorem mem_filter_documents {filters} {mask}
    {f} (hf : filters.filter SearchFilter.isLocal = filtersOf f)
    (hfull : f.full) (hnil : f = .nil → filters = [])
    (hsafe : shortCircuitSafe mask (operandBitmap fun _ _ _ => none) true .and none f)
    {leafValue}
    (hleaves : ∀ d ∈ mask, ∀ a ∈ f.leaves,
      d ∈ leafDocuments (operandBitmap fun _ _ _ => none) a ↔ d ∈ leafValue a) (d : UInt32) :
    d ∈ filter filters mask ↔ d ∈ mask ∧ d ∈ f.value Set.univ leafValue .and := by
  have hmeaning := filter_meaning ((expression_eq_some_iff _ _).2 hf) hfull hnil hsafe
  have hmem : d ∈ filter filters mask ↔
      d ∈ mask ∧ d ∈ meaning mask (operandBitmap fun _ _ _ => none) f := by
    rw [← Finset.mem_coe, hmeaning]
    exact Iff.rfl
  rw [hmem]
  refine and_congr_right fun hd => ?_
  exact Forest.mem_value_congr (by simp [hd]) f (hleaves d hd) .and

/-! ## The split list -/

theorem full_leavesForest {α : Type} (as : List α) :
    (leavesForest as : Forest BoolOp α).full := by
  induction as with
  | nil => rfl
  | cons a as ih => exact ih

theorem collectedLeaves_ne_nil {op} {a : Operand} {rest}
    (ha : a.namesAccount = false) : collectedLeaves op (.leaf a rest) ≠ [] := by
  have hmerged (set : RoaringBitmap) : ∀ f, ∀ entry,
      mergedDocuments op (some entry) f ≠ none := by
    intro f
    induction f with
    | nil => simp [mergedDocuments]
    | leaf b rest ih =>
      intro entry
      rw [mergedDocuments]
      split
      · exact ih _
      · exact ih _
    | group o members rest _ ih => exact ih
  intro hnil
  rw [collectedLeaves, directOperators, mergedDocuments] at hnil
  cases hview : a.view with
  | account id => exact view_of_namesAccount ha id hview
  | operator => simp [hview] at hnil
  | documents set =>
    simp only [hview] at hnil
    obtain ⟨entry, hentry⟩ := Option.ne_none_iff_exists'.1
      (hmerged set rest (mergeDocuments op none set))
    simp [hentry] at hnil

theorem append_eq_nil {α : Type} {f g : Forest BoolOp α} (h : f.append g = .nil) :
    f = .nil ∧ g = .nil := by
  cases f <;> simp_all [Forest.append]

theorem leavesForest_eq_nil {α : Type} {as : List α}
    (h : (leavesForest as : Forest BoolOp α) = .nil) : as = [] := by
  cases as <;> simp_all [leavesForest]

theorem hoistLevel_ne_nil {op : Option BoolOp} (hne : f ≠ .nil)
    (hothers : ∀ a ∈ f.leaves, a.namesAccount = false) : hoistLevel op f ≠ .nil := by
  intro h
  obtain ⟨hgroups, hleaves⟩ := append_eq_nil h
  cases f with
  | nil => exact hne rfl
  | leaf a rest =>
    exact collectedLeaves_ne_nil (hothers a (by simp [Forest.leaves])) (leavesForest_eq_nil hleaves)
  | group o members rest => simp [hoistGroups] at hgroups

theorem full_hoistGroups :
    ∀ f, f.full → (∀ a ∈ f.leaves, a.namesAccount = false) →
      (hoistGroups f).full
  | .nil, _, _ => rfl
  | .leaf a rest, hfull, h =>
    full_hoistGroups rest hfull fun b hb => h b (by simp [Forest.leaves, hb])
  | .group op members rest, hfull, h => by
    obtain ⟨hne, hmembers, hrest⟩ := (Forest.full_group op members rest).1 hfull
    have hothers : ∀ a ∈ members.leaves, a.namesAccount = false :=
      fun b hb => h b (by simp [Forest.leaves, hb])
    rw [hoistGroups, Forest.full_group, Forest.full_append, full_leavesForest,
      full_hoistGroups members hmembers hothers]
    exact ⟨hoistLevel_ne_nil hne hothers, rfl,
      full_hoistGroups rest hrest fun b hb => h b (by simp [Forest.leaves, hb])⟩

theorem full_hoistLevel {op} (hfull : f.full)
    (h : ∀ a ∈ f.leaves, a.namesAccount = false) : (hoistLevel op f).full := by
  rw [hoistLevel, Forest.full_append, full_leavesForest, full_hoistGroups f hfull h]
  rfl

theorem splitForest_ne_nil (accountId : UInt64) (op : BoolOp) (first : Bool)
    {f} (hne : f ≠ .nil) : splitForest accountId op first f ≠ .nil := by
  cases f with
  | nil => cases hne rfl
  | leaf | group =>
    rw [splitForest]
    split_ifs <;> simp [runForest]

theorem full_runForest (accountId : UInt64) (op : BoolOp) (first : Bool)
    (f : Forest BoolOp Operand) : (runForest accountId op first f).full :=
  full_leavesForest _

theorem full_splitForest (accountId : UInt64) :
    ∀ f op first, f.full →
      (splitForest accountId op first f).full
  | .nil, _, _, _ => rfl
  | .leaf a rest, op, first, hfull => by
    rw [splitForest]
    split_ifs
    · exact full_splitForest accountId rest op false hfull
    · exact full_runForest accountId op first _
  | .group o members rest, op, first, hfull => by
    obtain ⟨hne, hmembers, hrest⟩ := (Forest.full_group o members rest).1 hfull
    rw [splitForest]
    split_ifs
    · rw [Forest.full_group]
      exact ⟨splitForest_ne_nil accountId o true hne,
        full_splitForest accountId members o true hmembers,
        full_splitForest accountId rest op false hrest⟩
    · exact full_runForest accountId op first _

theorem leaves_leavesForest {α : Type} (as : List α) :
    (leavesForest as : Forest BoolOp α).leaves = as := by
  induction as with
  | nil => rfl
  | cons a as ih => rw [leavesForest, Forest.leaves, ih]

theorem isDocuments_of_runForest {accountId : UInt64} {op : BoolOp} {first : Bool} {a : Operand}
    (h : SplitOperand.internal a ∈ (runForest accountId op first f).leaves) :
    a.isDocuments := by
  rw [runForest, Forest.leaves, leaves_leavesForest, mem_cons] at h
  rcases h with h | h
  · cases h
  · obtain ⟨b, hb, h⟩ := mem_map.1 h
    obtain rfl := SplitOperand.internal.inj h
    exact isDocuments_of_trailing f b hb

theorem isDocuments_of_splitForest (accountId : UInt64) :
    ∀ f op first a,
      SplitOperand.internal a ∈ (splitForest accountId op first f).leaves → a.isDocuments
  | .nil, _, _, a, h => by simp [splitForest, Forest.leaves] at h
  | .leaf b rest, op, first, a, h => by
    rw [splitForest] at h
    split_ifs at h with hb
    · rw [Forest.leaves, mem_cons] at h
      rcases h with h | h
      · obtain rfl := SplitOperand.internal.inj h
        exact hb
      · exact isDocuments_of_splitForest accountId rest op false a h
    · exact isDocuments_of_runForest h
  | .group o members rest, op, first, a, h => by
    rw [splitForest] at h
    split_ifs at h
    · rw [Forest.leaves, mem_append] at h
      rcases h with h | h
      · exact isDocuments_of_splitForest accountId members o true a h
      · exact isDocuments_of_splitForest accountId rest op false a h
    · exact isDocuments_of_runForest h

/-- An operand of the split list once the database has answered the runs. -/
def resolvedOperand (subQuery : SubQuery) (index : Store.SearchIndex) : SplitOperand → Operand
  | .internal a => a
  | .external filters => .documentSet ((subQuery index filters []).toOption.getD []).toFinset

variable {index : Store.SearchIndex}

theorem mapM_resolveFilter {subQuery : SubQuery} :
    ∀ ts : List (Token BoolOp SplitOperand),
      (∀ run, .leaf (.external run) ∈ ts → ∃ ids, subQuery index run [] = .ok ids) →
      (ts.map SplitFilter.ofToken).mapM (resolveFilter subQuery index) =
        .ok (ts.map fun t => .ofToken (Forest.mapToken (resolvedOperand subQuery index) t))
  | [], _ => rfl
  | t :: ts, h => by
    have ih := mapM_resolveFilter ts fun run hrun => h run (.tail _ hrun)
    have ht : resolveFilter subQuery index (.ofToken t) =
        .ok (.ofToken (Forest.mapToken (resolvedOperand subQuery index) t)) := by
      rcases t with (a | run) | op | _
      · rfl
      · obtain ⟨ids, hids⟩ := h run (.head _)
        simp only [SplitFilter.ofToken, resolveFilter, Forest.mapToken, resolvedOperand, hids,
          SearchFilter.ofToken]
        rfl
      · rfl
      · rfl
    exact Lib.mapM_cons_eq_ok_iff.2 ⟨_, _, ht, ih, rfl⟩

/-- **The filters once the database has answered the runs.** -/
theorem resolveFilters_spec {subQuery : SubQuery}
    {filters} {accountId : UInt32} {before after}
    (hover : OverAccount filters accountId before after)
    (hruns : ∀ run, .external run ∈ (splitOf accountId (before.append after)).leaves →
      ∃ ids, subQuery index run [] = .ok ids) :
    resolveFilters subQuery index filters = .ok (filtersOf
      ((splitOf accountId (before.append after)).map (resolvedOperand subQuery index))) := by
  rw [resolveFilters, hover.splitFilters, filtersOf, Forest.tokens_map, map_map]
  exact mapM_resolveFilter _ fun run hrun => hruns run ((Forest.mem_leaves_iff _ _).2 hrun)

/-! ### Without document sets -/

theorem cutBelow_of_operators :
    ∀ f, hasDocuments f = false → cutBelow f = false
  | .nil, _ => rfl
  | .leaf a rest, h => by
    rw [hasDocuments_leaf, Bool.or_eq_false_iff] at h
    exact cutBelow_of_operators rest h.2
  | .group op members rest, h => by
    rw [hasDocuments_group, Bool.or_eq_false_iff] at h
    rw [cutBelow, h.1, cutBelow_of_operators rest h.2]
    rfl

theorem trailing_of_operators :
    ∀ f, hasDocuments f = false → trailing f = []
  | .nil, _ => rfl
  | .leaf a rest, h => by
    rw [hasDocuments_leaf, Bool.or_eq_false_iff] at h
    rw [trailing, if_neg (by simp [h.1]), trailing_of_operators rest h.2]
  | .group _ _ rest, h => by
    rw [hasDocuments_group, Bool.or_eq_false_iff] at h
    exact trailing_of_operators rest h.2

/-- Operators only are one run. -/
theorem splitOf_operators (accountId : UInt32) (hne : f ≠ .nil) (hdocs : hasDocuments f = false)
    (hothers : ∀ a ∈ f.leaves, a.namesAccount = false) :
    ∃ run, splitOf accountId f = .leaf (.external run) .nil := by
  have hlevel : hasDocuments (hoistLevel none f) = false := by
    rw [hasDocuments_hoistLevel, hdocs]
  have hcut := cutBelow_of_operators _ hlevel
  have hsplit : splitOf accountId f =
      runForest accountId.toUInt64 .and true (hoistLevel none f) := by
    have hnil : hoistLevel none f ≠ .nil := hoistLevel_ne_nil hne hothers
    rw [splitOf]
    cases hg : hoistLevel none f with
    | nil => cases hnil hg
    | leaf a rest =>
      rw [hg, hasDocuments_leaf, Bool.or_eq_false_iff] at hlevel
      rw [splitForest, if_neg (by simp [hlevel.1])]
    | group o members rest =>
      rw [hg] at hcut
      rw [splitForest, if_neg (by simp [hcut])]
  rw [hsplit, runForest, trailing_of_operators _ hlevel]
  exact ⟨_, rfl⟩

/-! ## The built-in index -/

/-- The bitmaps of the operators, as the index evaluates them. -/
def InternalFts.results (fts : InternalFts) (index : Store.SearchIndex) (accountId : UInt32)
    (field : SearchField) (op : SearchOperator) (value : SearchValue) : Option RoaringBitmap :=
  match fts.eval index accountId field op value with
  | .ok bm => bm
  | .error _ => none

/-- The index evaluates the operators of the query, and orders the documents by its fields. -/
structure InternalFts.Serves (fts : InternalFts) (docs : Assignment) (query : SearchQuery)
    (accountId : UInt32) (f : Forest BoolOp Operand) : Prop where
  operators : ∀ field op value, Operand.operator field op value ∈ f.leaves →
    ∃ bm, fts.eval query.index accountId field op value = .ok bm ∧
      (↑(bm.getD ∅) : Set UInt32) = docs field op value
  order : ∀ field ascending, SearchComparator.field field ascending ∈ query.comparators →
    ∃ set, fts.sortOrder query.index accountId field = .ok set

theorem operandDocuments_of_others (docs : Assignment) {field : SearchField} {op}
    {value : SearchValue} (h : (Operand.operator field op value).namesAccount = false) :
    operandDocuments docs (.operator field op value) = docs field op value := by
  cases field <;> simp_all [operandDocuments, Operand.namesAccount]

theorem accountIdOf_append {filters : List SearchFilter} (rest : List SearchFilter)
    (h : ∀ filter ∈ filters, filter.isQueried) :
    accountIdOf (filters ++ rest) = accountIdOf rest := by
  induction filters with
  | nil => rfl
  | cons filter filters ih =>
    have ih := ih fun g hg => h g (.tail _ hg)
    rw [← ih]
    cases filter with
    | operator field op value => cases field <;> simp_all [accountIdOf, SearchFilter.isQueried]
    | _ => rfl

theorem mapM_resolveComparator {fts : InternalFts} {accountId : UInt32} :
    ∀ comparators : List SearchComparator,
      (∀ field ascending, SearchComparator.field field ascending ∈ comparators →
        ∃ set, fts.sortOrder index accountId field = .ok set) →
      ∃ resolved, comparators.mapM (fts.resolveComparator index accountId) = .ok resolved
  | [], _ => ⟨[], rfl⟩
  | comparator :: comparators, h => by
    obtain ⟨resolved, hresolved⟩ := mapM_resolveComparator comparators
      fun field ascending hmem => h field ascending (.tail _ hmem)
    have hhead : ∃ c, fts.resolveComparator index accountId comparator = .ok c := by
      cases comparator with
      | field field ascending =>
        obtain ⟨set, hset⟩ := h field ascending (.head _)
        exact ⟨_, Lib.bind_eq_ok_iff.2 ⟨set, hset, rfl⟩⟩
      | documentSet | sortedSet => exact ⟨_, rfl⟩
    obtain ⟨c, hc⟩ := hhead
    exact ⟨_, Lib.mapM_cons_eq_ok_iff.2 ⟨c, resolved, hc, hresolved, rfl⟩⟩

section Answer

variable {docs : Assignment} {indexed : Set UInt32} {query : SearchQuery} {accountId : UInt32}
  {before after : Forest BoolOp Operand}

/-- **The built-in index** lists the documents of the mask that satisfy the filters. -/
theorem internalQuery_answers {fts : InternalFts}
    (hover : OverAccount query.filters accountId before after)
    (hserves : fts.Serves docs query accountId (before.append after))
    (hsafe : shortCircuitSafe query.mask (operandBitmap (fts.results query.index accountId)) true
      .and none (before.append after)) :
    Answers docs (before.append after) query.mask (fts.queryAccount query) := by
  have hid : accountIdOf query.filters = some accountId.toUInt64 := by
    rw [hover.filters_eq, filtersOf_append, filtersOf_leaf,
      accountIdOf_append _ (isQueried_of_others hover.others_before)]
    rfl
  have htruncate : accountId.toUInt64.toUInt32 = accountId := by simp
  have hoperator : ∀ field op value, Operand.operator field op value ∈
      (before.append after).leaves → fts.eval query.index accountId field op value =
        .ok (fts.results query.index accountId field op value) := by
    intro field op value hmem
    obtain ⟨bm, hbm, -⟩ := hserves.operators field op value hmem
    simp [InternalFts.results, hbm]
  have hexpr : expression (query.filters.filter SearchFilter.isQueried) =
      some (before.append after) :=
    (expression_eq_some_iff _ _).2 (hover.filter_others rfl (isQueried_of_others hover.others))
  have hnil : before.append after = .nil → query.filters.length = 1 := by
    intro hnil
    obtain ⟨rfl, rfl⟩ := append_eq_nil hnil
    simp [hover.filters_eq]
  have hanswer : ∃ found, Search.queryAccount (fts.eval query.index) query.filters query.mask =
      .ok found ∧ (↑found : Set UInt32) = ↑query.mask ∩
        meaning query.mask (operandBitmap (fts.results query.index accountId))
          (before.append after) :=
    queryAccount_meaning hid (by rw [htruncate]; exact hover.valid) hexpr hover.full hnil
      (by rw [htruncate]; exact hoperator) hsafe
  obtain ⟨found, hfound, hmeaning⟩ := hanswer
  have hmem (d : UInt32) :
      d ∈ found ↔ d ∈ query.mask ∧ d ∈ exprValue docs .and (before.append after) := by
    rw [← Finset.mem_coe, hmeaning]
    refine and_congr_right fun hd => ?_
    refine Forest.mem_value_congr (by simp [hd]) _ (fun a ha => ?_) .and
    cases a with
    | documentSet set => rfl
    | operator field op value =>
      obtain ⟨bm, hbm, hdocs⟩ := hserves.operators field op value ha
      rw [operandDocuments_of_others docs (hover.others _ ha), ← hdocs]
      simp [leafDocuments, operandBitmap, InternalFts.results, hbm]
  have hlists : ∃ ids, fts.queryAccount query = .ok ids ∧ Lists found ids := by
    obtain ⟨resolved, hresolved⟩ := mapM_resolveComparator query.comparators hserves.order
    unfold InternalFts.queryAccount
    rw [hfound, hid, Option.elim_some, htruncate]
    simp only [bind, Except.bind, hresolved]
    split_ifs
    · exact ⟨_, rfl, intoSorted_lists found resolved⟩
    · exact ⟨_, rfl, lists_sort found⟩
  obtain ⟨ids, hids, hlists⟩ := hlists
  exact answers_of_lists hids hlists hmem

/-! ## An external database -/

/-- The documents the database returns for a list of filters. -/
def returned (subQuery : SubQuery) (index : Store.SearchIndex) (filters : List SearchFilter)
    (sort : List SearchComparator) : Set UInt32 :=
  {d | ∃ ids, subQuery index filters sort = .ok ids ∧ d ∈ ids}

theorem returned_of_ok {subQuery : SubQuery} {filters} {sort} {ids : List UInt32}
    (h : subQuery index filters sort = .ok ids) :
    returned subQuery index filters sort = {d | d ∈ ids} := by
  simp [returned, h]

/-- The database answers what it is sent, with whatever documents, none of them twice: the whole
query when the server has no part in it, the runs of its split list, and the order of the results.
-/
structure SubQueryAnswers (subQuery : SubQuery) (query : SearchQuery) (accountId : UInt32)
    (f : Forest BoolOp Operand) : Prop where
  whole : hasDocuments f = false → query.comparators.all SearchComparator.isExternal →
    ∃ ids, subQuery query.index query.filters query.comparators = .ok ids ∧ ids.Nodup
  runs : hasOperators f → ∀ run, .external run ∈ (splitOf accountId f).leaves →
    ∃ ids, subQuery query.index run [] = .ok ids
  order : ∀ results : RoaringBitmap, ∃ ids, subQuery query.index (rangeFilters accountId results)
    (query.comparators.filter SearchComparator.isExternal) = .ok ids

/-- The documents of an operand of the split list, a run standing for what is returned for it. -/
def answeredDocuments (subQuery : SubQuery) (index : Store.SearchIndex) :
    SplitOperand → Set UInt32
  | .internal a => operandDocuments (fun _ _ _ => ∅) a
  | .external run => returned subQuery index run []

/-- The value of the split list on the answers to its runs. -/
def answeredValue (subQuery : SubQuery) (index : Store.SearchIndex)
    (g : Forest BoolOp SplitOperand) : Set UInt32 :=
  g.value Set.univ (answeredDocuments subQuery index) .and

theorem externalQuery_eq (subQuery : SubQuery)
    (hover : OverAccount query.filters accountId before after) :
    externalQuery subQuery query =
      (if !hasDocuments (before.append after) && !hasOperators (before.append after) &&
          query.comparators.isEmpty then .ok query.mask.sort
      else if !hasDocuments (before.append after) &&
          query.comparators.all SearchComparator.isExternal then do
        let results ← subQuery query.index query.filters query.comparators
        if !results.isEmpty || hasOperators (before.append after) then
          return results.filter fun id => id ∈ query.mask
        else
          return query.mask.sort
      else do
        let filters ← if hasOperators (before.append after) then
            resolveFilters subQuery query.index query.filters
          else .ok query.filters
        sortResults subQuery accountId query.index (filter filters query.mask)
          query.comparators) := by
  unfold externalQuery
  rw [hover.kinds]
  exact if_neg hover.valid

theorem filter_account (accountId : UInt32) (mask : RoaringBitmap) :
    filter [.ofToken (.leaf (accountOperand accountId))] mask = ∅ := by
  simp [filter, evalLoop, readLocal, accountOperand, SearchFilter.ofToken, State.init]

theorem mem_mask_of_filter {filters : List SearchFilter} {mask : RoaringBitmap} {d : UInt32}
    (h : d ∈ filter filters mask) : d ∈ mask := by
  unfold filter at h
  split_ifs at h
  · exact h
  · split at h
    exact (Finset.mem_inter.1 h).2

theorem hasOperators_of_documents (hne : f ≠ .nil)
    (hfull : f.full) (hdocs : hasDocuments f = false) : hasOperators f := by
  have hleaves : f.leaves ≠ [] := fun h => hne (Forest.eq_nil_of_leaves hfull h)
  obtain ⟨a, ha⟩ := exists_mem_of_ne_nil _ hleaves
  rw [hasDocuments, any_eq_false] at hdocs
  rw [hasOperators, any_eq_true]
  exact ⟨a, ha, by simpa using hdocs a ha⟩

theorem isDocuments_of_operators (h : hasOperators f = false) :
    ∀ a ∈ f.leaves, a.isDocuments := by
  intro a ha
  rw [hasOperators, any_eq_false] at h
  simpa using h a ha

section

variable {subQuery : SubQuery} (hover : OverAccount query.filters accountId before after)
  (hanswers : SubQueryAnswers subQuery query accountId (before.append after))
include hover hanswers

omit hover in
/-- Results that are merged and sorted here are right when the evaluation of the filters is. -/
theorem answers_sortResults_iff (filters : List SearchFilter) :
    Answers docs (before.append after) query.mask
        (sortResults subQuery accountId query.index (filter filters query.mask)
          query.comparators) ↔
      ∀ d ∈ query.mask, d ∈ filter filters query.mask ↔
        d ∈ exprValue docs .and (before.append after) := by
  obtain ⟨ids, hids⟩ := sortResults_isOk (hanswers.order (filter filters query.mask))
  rw [hids]
  exact answers_iff_of_lists (sortResults_lists hids) fun _ => mem_mask_of_filter

/-- **A query that the database answers alone**: operators only, and no comparator of the server. -/
theorem externalQuery_whole (hne : before.append after ≠ .nil)
    (hdocs : hasDocuments (before.append after) = false)
    (hall : query.comparators.all SearchComparator.isExternal) :
    Answers docs (before.append after) query.mask (externalQuery subQuery query) ↔
      ∀ d ∈ query.mask, d ∈ returned subQuery query.index query.filters query.comparators ↔
        d ∈ exprValue docs .and (before.append after) := by
  have hoperators := hasOperators_of_documents hne hover.full hdocs
  obtain ⟨ids, hids, hnodup⟩ := hanswers.whole hdocs hall
  rw [externalQuery_eq subQuery hover, hdocs, hoperators, returned_of_ok hids]
  simp only [Bool.not_false, Bool.true_and, Bool.or_true, Bool.not_true, Bool.false_and,
    Bool.false_eq_true, if_false, hall, if_true, hids]
  have hlists : Lists (ids.toFinset ∩ query.mask) (ids.filter fun id => id ∈ query.mask) :=
    ⟨hnodup.filter _, fun d => by simp⟩
  refine (answers_iff_of_lists hlists fun d hd => (Finset.mem_inter.1 hd).2).trans ?_
  refine forall₂_congr fun d hd => ?_
  simp [hd]

/-- **A query without filters** is answered right when it is not sorted, or sorted by a database
that returns every document of the mask, or nothing at all. -/
theorem externalQuery_unfiltered (hmask : query.mask ≠ ∅) (hnil : before.append after = .nil) :
    Answers docs (before.append after) query.mask (externalQuery subQuery query) ↔
      query.comparators = [] ∨ query.comparators.all SearchComparator.isExternal ∧
        ((∀ d ∈ query.mask, d ∈ returned subQuery query.index query.filters query.comparators) ∨
          returned subQuery query.index query.filters query.comparators = ∅) := by
  have hvalue : exprValue docs .and (.nil : Forest BoolOp Operand) = Set.univ := rfl
  have hdocuments : hasDocuments (.nil : Forest BoolOp Operand) = false := rfl
  have hoperators : hasOperators (.nil : Forest BoolOp Operand) = false := rfl
  have hmaskAnswer : Answers docs .nil query.mask (.ok query.mask.sort) :=
    answers_of_lists rfl (lists_sort query.mask) (by simp [hvalue])
  have hsorted := @answers_sortResults_iff docs _ _ _ _ _ hanswers query.filters
  rw [externalQuery_eq subQuery hover]
  rw [hnil] at hsorted ⊢
  rw [hdocuments, hoperators]
  by_cases hempty : query.comparators = []
  · simpa [hempty] using hmaskAnswer
  have hnonempty : query.comparators.isEmpty = false := by
    rw [Bool.eq_false_iff]
    exact fun h => hempty (isEmpty_iff.1 h)
  rw [hnonempty]
  simp only [Bool.not_false, Bool.true_and, Bool.or_false, hempty]
  by_cases hall : query.comparators.all SearchComparator.isExternal
  · obtain ⟨ids, hids, hnodup⟩ := hanswers.whole (by rw [hnil, hdocuments]) hall
    rw [returned_of_ok hids, hids]
    by_cases hnone : ids = []
    · -- the database returns no document, and the mask is returned
      simp only [hall, hnone, not_mem_nil, Set.ofPred_false, or_true, and_true, iff_true]
      exact hmaskAnswer
    · have hsome : {d | d ∈ ids} ≠ (∅ : Set UInt32) := by
        obtain ⟨d, hd⟩ := exists_mem_of_ne_nil ids hnone
        exact Set.nonempty_iff_ne_empty.1 ⟨d, hd⟩
      have hfalse : ids.isEmpty = false := by simpa using hnone
      have hlists : Lists (ids.toFinset ∩ query.mask) (ids.filter fun id => id ∈ query.mask) :=
        ⟨hnodup.filter _, fun d => by simp⟩
      simp only [hall, hsome, bind, Except.bind, hfalse]
      refine (answers_iff_of_lists hlists fun d hd => (Finset.mem_inter.1 hd).2).trans ?_
      simp +contextual [hvalue]
  · -- the bitmap of no filters at all is empty
    have hfilters : query.filters = [.ofToken (.leaf (accountOperand accountId))] := by
      obtain ⟨rfl, rfl⟩ := append_eq_nil hnil
      exact hover.filters_eq
    obtain ⟨d, hd⟩ := Finset.nonempty_iff_ne_empty.2 hmask
    rw [hfilters, filter_account] at hsorted
    rw [hfilters]
    simp only [hall, bind, Except.bind, filter_account]
    simpa [hvalue] using hsorted.trans (iff_false_intro fun h => by simpa [hvalue] using (h d hd).2)

/-- **A query whose filters are document sets only** is evaluated locally. -/
theorem externalQuery_documents (hdocs : hasDocuments (before.append after))
    (hoperators : hasOperators (before.append after) = false)
    (hsafe : shortCircuitSafe query.mask (operandBitmap fun _ _ _ => none) true .and none
      (before.append after)) :
    Answers docs (before.append after) query.mask (externalQuery subQuery query) := by
  have hleaves := isDocuments_of_operators hoperators
  have hlocal := hover.filter_others rfl (isLocal_of_documents hleaves)
  have hnil : before.append after = .nil → query.filters = [] := by
    intro hnil
    rw [hnil] at hdocs
    cases hdocs
  have hmem (d : UInt32) : d ∈ filter query.filters query.mask ↔
      d ∈ query.mask ∧ d ∈ exprValue docs .and (before.append after) := by
    refine mem_filter_documents hlocal hover.full hnil hsafe (fun d _ a ha => ?_) d
    cases a with
    | documentSet set => rfl
    | operator field op value => cases hleaves _ ha
  rw [externalQuery_eq subQuery hover, hdocs, hoperators]
  exact (answers_sortResults_iff hanswers _).2 fun d hd => (hmem d).trans (and_iff_right hd)

/-- **A query whose operators go to the database as runs** is answered right when the split list has
the value of the filters on what the database returns. -/
theorem externalQuery_divided (hoperators : hasOperators (before.append after))
    (hdivided : hasDocuments (before.append after) = false →
      query.comparators.all SearchComparator.isExternal = false)
    (hsafe : shortCircuitSafe query.mask (operandBitmap fun _ _ _ => none) true .and none
      ((splitOf accountId (before.append after)).map (resolvedOperand subQuery query.index))) :
    Answers docs (before.append after) query.mask (externalQuery subQuery query) ↔
      ∀ d ∈ query.mask,
        d ∈ answeredValue subQuery query.index (splitOf accountId (before.append after)) ↔
          d ∈ exprValue docs .and (before.append after) := by
  have hresolve := resolveFilters_spec hover (hanswers.runs hoperators)
  have hruns := hanswers.runs hoperators
  set split := splitOf accountId (before.append after) with hsplit
  have hinternal : ∀ a, SplitOperand.internal a ∈ split.leaves → a.isDocuments :=
    isDocuments_of_splitForest _ _ .and true
  have hdocuments : ∀ a ∈ (split.map (resolvedOperand subQuery query.index)).leaves,
      a.isDocuments := by
    intro a ha
    rw [Forest.leaves_map, mem_map] at ha
    obtain ⟨a | run, hmem, rfl⟩ := ha
    · exact hinternal a hmem
    · rfl
  have hfull : (split.map (resolvedOperand subQuery query.index)).full := by
    rw [Forest.full_map]
    exact full_splitForest _ _ .and true (full_hoistLevel hover.full hover.others)
  have hmem (d : UInt32) : d ∈ filter (filtersOf (split.map (resolvedOperand subQuery query.index)))
      query.mask ↔ d ∈ query.mask ∧ d ∈ answeredValue subQuery query.index split := by
    have hnil : split.map (resolvedOperand subQuery query.index) = .nil →
        filtersOf (split.map (resolvedOperand subQuery query.index)) = [] := by
      intro hnil
      rw [hnil]
      rfl
    rw [mem_filter_documents (filter_eq_self.2 (isLocal_of_documents hdocuments)) hfull hnil
      hsafe (fun _ _ _ _ => Iff.rfl) d, Forest.value_map]
    refine and_congr_right fun hd => Forest.mem_value_congr Iff.rfl _ (fun a ha => ?_) .and
    cases a with
    | internal a =>
      cases a with
      | documentSet set => rfl
      | operator field op value => cases hinternal _ ha
    | external run =>
      obtain ⟨ids, hids⟩ := hruns run ha
      simp [resolvedOperand, hids, Except.toOption, leafDocuments, operandBitmap,
        answeredDocuments, returned_of_ok hids]
  have hnotWhole : (!hasDocuments (before.append after) &&
      query.comparators.all SearchComparator.isExternal) = false := by
    cases h : hasDocuments (before.append after) with
    | false => simp [hdivided h]
    | true => rfl
  rw [externalQuery_eq subQuery hover, hoperators, hnotWhole]
  simp only [hresolve, Bool.not_true, Bool.and_false, Bool.false_and]
  refine (answers_sortResults_iff hanswers _).trans (forall₂_congr fun d hd => ?_)
  rw [hmem, and_iff_right hd]

end

/-- A database that returns, for every run, the documents of the mask that satisfy it, leaves the
value of the filters to the two passes of `split_filters`. -/
theorem answeredValue_of_known {subQuery : SubQuery}
    (hhoist : hoistsSafely f) (hopen : opensSafely f)
    (hruns : ∀ run, .external run ∈ (splitOf accountId f).leaves → ∀ d ∈ query.mask,
      d ∈ returned subQuery query.index run [] ↔ d ∈ externalDocuments docs run) :
    ∀ d ∈ query.mask, d ∈ answeredValue subQuery query.index (splitOf accountId f) ↔
      d ∈ exprValue docs .and f := by
  have hlast : LeavesLast (hoistLevel none f) :=
    leavesLast_hoistGroups _ _ (leavesLast_collectedLeaves none _)
  have hopens : opensSafely (hoistLevel none f) :=
    opensSafely_hoistGroups (cutBelow_leavesForest _) (opensSafely_leavesForest _) _ hopen
  intro d hd
  rw [← hoistLevel_value hhoist, ← splitForest_value accountId.toUInt64 _ .and true hlast hopens
    (.inl rfl)]
  refine Forest.mem_value_congr Iff.rfl _ (fun a ha => ?_) .and
  cases a with
  | internal a =>
    have hdocs := isDocuments_of_splitForest _ _ .and true a ha
    cases a with
    | documentSet set => rfl
    | operator field op value => cases hdocs
  | external run => exact hruns run ha d hd

/-! ## Both kinds of stores -/

/-- The store answers what it is asked for the query. -/
def SearchStore.Serves (store : SearchStore) (docs : Assignment) (query : SearchQuery)
    (accountId : UInt32) (f : Forest BoolOp Operand) : Prop :=
  match store with
  | .internal fts => fts.Serves docs query accountId f
  | .external subQuery => SubQueryAnswers subQuery query accountId f

/-- No short circuit runs into a group of the list that is evaluated. -/
def SearchStore.EvaluatesSafely (store : SearchStore) (query : SearchQuery) (accountId : UInt32)
    (f : Forest BoolOp Operand) : Prop :=
  match store with
  | .internal fts =>
    shortCircuitSafe query.mask (operandBitmap (fts.results query.index accountId)) true .and none
      f
  | .external subQuery => hasDocuments f →
    shortCircuitSafe query.mask (operandBitmap fun _ _ _ => none) true .and none
      (if hasOperators f then
        (splitOf accountId f).map (resolvedOperand subQuery query.index) else f)

/-- **What an external database is to return**: of the mask, the documents that satisfy the filters,
when it answers alone; what makes the split list have the value of the filters, when it answers the
runs; and without filters the whole mask or nothing, unless the query is not sorted either. Without
filters no comparator may be one of the server. -/
def SearchStore.Covers (store : SearchStore) (docs : Assignment) (query : SearchQuery)
    (accountId : UInt32) (f : Forest BoolOp Operand) : Prop :=
  match store with
  | .internal _ => True
  | .external subQuery => query.mask = ∅ ∨
    let alone := returned subQuery query.index query.filters query.comparators
    if hasDocuments f = false ∧ query.comparators.all SearchComparator.isExternal then
      if hasOperators f then ∀ d ∈ query.mask, d ∈ alone ↔ d ∈ exprValue docs .and f
      else query.comparators = [] ∨ (∀ d ∈ query.mask, d ∈ alone) ∨ alone = ∅
    else if hasOperators f then
      ∀ d ∈ query.mask, d ∈ answeredValue subQuery query.index (splitOf accountId f) ↔
        d ∈ exprValue docs .and f
    else hasDocuments f

end Answer

end MailServer.Search
