import MailServer.Search.Split

/-!
# What a split filter list means

The meaning of the two passes of `split_filters` (`store/src/search/split.rs`): the expression
after the first pass (`hoistLevel_value`) and after the second (`splitForest_value`) have the
meaning of the original one, as long as

* the account is not an operand of an `Or` or a `Not`, and a `Not` has at most one document set
  of its own (`hoistsSafely`);
* a group that is opened because a document set stands in it or behind it keeps at most one
  operand besides the opened groups and the document set, or is an `And`, or is an `Or` without
  opened groups (`opensSafely`).
-/

namespace MailServer.Search

open Bracketed

/-! ## Meaning -/

/-- The documents each operator matches. -/
abbrev Assignment := SearchField → SearchOperator → SearchValue → Set UInt32

/-- The documents of an operand; `AccountId` matches every document of the account. -/
def operandDocuments (docs : Assignment) : Operand → Set UInt32
  | .operator .accountId _ (.uint _) => Set.univ
  | .operator field op value => docs field op value
  | .documentSet set => ↑set

@[simp] theorem operandDocuments_documentSet (docs : Assignment) (set : RoaringBitmap) :
    operandDocuments docs (.documentSet set) = ↑set := rfl

/-- Direct evaluation of an expression. -/
def exprValue (docs : Assignment) (op : BoolOp) (f : Forest BoolOp Operand) : Set UInt32 :=
  f.value Set.univ (operandDocuments docs) op

/-- What the database returns for a run: the implicit `And` of its filters. -/
def externalDocuments (docs : Assignment) (filters : List SearchFilter) : Set UInt32 :=
  (expression filters).elim ∅ (exprValue docs .and)

def splitDocuments (docs : Assignment) : SplitOperand → Set UInt32
  | .internal a => operandDocuments docs a
  | .external filters => externalDocuments docs filters

/-- Evaluation of a split list, every run replaced by its document set. -/
def splitValue (docs : Assignment) (op : BoolOp) (g : Forest BoolOp SplitOperand) : Set UInt32 :=
  g.value Set.univ (splitDocuments docs) op

/-! ## The conditions -/

/-- The account is one of the operands of the sequence. -/
def namesAccount : Forest BoolOp Operand → Bool
  | .nil => false
  | .leaf a rest => match a.view with
    | .account _ => true
    | _ => namesAccount rest
  | .group _ _ rest => namesAccount rest

/-- The number of document sets of the sequence, outside its groups. -/
def documentCount : Forest BoolOp Operand → Nat
  | .nil => 0
  | .leaf a rest => if a.isDocuments then documentCount rest + 1 else documentCount rest
  | .group _ _ rest => documentCount rest

/-- The first pass drops the account and intersects document sets, which is wrong below an `Or` or a
`Not`, and below a `Not`. -/
def hoistsGroup : BoolOp → Forest BoolOp Operand → Bool
  | .and, _ => true
  | .or, members => !namesAccount members
  | .not, members => !namesAccount members && documentCount members ≤ 1

/-- The first pass keeps the meaning of every group. -/
def hoistsSafely : Forest BoolOp Operand → Bool
  | .nil => true
  | .leaf _ rest => hoistsSafely rest
  | .group op members rest =>
    hoistsGroup op members && hoistsSafely members && hoistsSafely rest

/-- The operands of an opened sequence that are handed to the database in one run: the groups behind
the last one with a document set, and the operators. -/
def runLength : Forest BoolOp Operand → Nat
  | .nil => 0
  | .leaf a rest => if a.isDocuments then runLength rest else runLength rest + 1
  | .group op members rest =>
    if cutBelow (.group op members rest) then runLength rest else runLength rest + 1

/-- The second pass keeps the meaning of an opened group: its run is evaluated as an `And`, or as an
`Or` at its head. -/
def opensGroup (op : BoolOp) (members : Forest BoolOp Operand) : Bool :=
  op = .and || runLength members ≤ 1 || (op = .or && !cutBelow members)

/-- The second pass keeps the meaning of every group it opens. -/
def opensSafely : Forest BoolOp Operand → Bool
  | .nil => true
  | .leaf _ rest => opensSafely rest
  | .group op members rest =>
    (!cutBelow (.group op members rest) || opensGroup op members) && opensSafely members &&
      opensSafely rest

/-! ## The first pass -/

variable {f : Forest BoolOp Operand}

section Hoist

variable {docs : Assignment}

/-- A document is in all the merged sets. -/
def InAll (merged : Option RoaringBitmap) (d : UInt32) : Prop :=
  ∀ set ∈ merged, d ∈ set

/-- A document is in one of the merged sets. -/
def InAny (merged : Option RoaringBitmap) (d : UInt32) : Prop :=
  ∃ set ∈ merged, d ∈ set

theorem inAll_merge {op} (hop : op ≠ some .or) (merged : Option RoaringBitmap)
    (set : RoaringBitmap) (d : UInt32) :
    InAll (some (mergeDocuments op merged set)) d ↔ InAll merged d ∧ d ∈ set := by
  cases merged <;> simp [InAll, mergeDocuments, hop]

theorem inAny_merge (merged : Option RoaringBitmap) (set : RoaringBitmap) (d : UInt32) :
    InAny (some (mergeDocuments (some .or) merged set)) d ↔ InAny merged d ∨ d ∈ set := by
  cases merged <;> simp [InAny, mergeDocuments]

/-- The first pass keeps the meaning of a conjunction and, without the account, of a disjunction. -/
structure HoistKeeps (docs : Assignment) (f : Forest BoolOp Operand) : Prop where
  conj : ∀ (op : Option BoolOp) (merged : Option RoaringBitmap) (d : UInt32), op ≠ some .or →
    ((d ∈ exprValue docs .and f ∧ InAll merged d) ↔
      d ∈ exprValue docs .and (hoistGroups f) ∧
        (∀ a ∈ directOperators f, d ∈ operandDocuments docs a) ∧
        InAll (mergedDocuments op merged f) d)
  disj : namesAccount f = false → ∀ (merged : Option RoaringBitmap) (d : UInt32),
    ((d ∈ exprValue docs .or f ∨ InAny merged d) ↔
      d ∈ exprValue docs .or (hoistGroups f) ∨
        (∃ a ∈ directOperators f, d ∈ operandDocuments docs a) ∨
        InAny (mergedDocuments (some .or) merged f) d)

theorem value_and_leavesForest (d : UInt32) (as : List Operand) :
    d ∈ exprValue docs .and (leavesForest as) ↔ ∀ a ∈ as, d ∈ operandDocuments docs a := by
  induction as with
  | nil => simp [leavesForest, exprValue, Forest.value]
  | cons a as ih =>
    rw [exprValue] at ih ⊢
    simp [leavesForest, Forest.value, ih]

theorem value_or_leavesForest (d : UInt32) (as : List Operand) :
    d ∈ exprValue docs .or (leavesForest as) ↔ ∃ a ∈ as, d ∈ operandDocuments docs a := by
  induction as with
  | nil => simp [leavesForest, exprValue, Forest.value]
  | cons a as ih =>
    rw [exprValue] at ih ⊢
    simp [leavesForest, Forest.value, ih]

theorem exprValue_append_and (f g : Forest BoolOp Operand) :
    exprValue docs .and (f.append g) = exprValue docs .and f ∩ exprValue docs .and g :=
  Forest.value_append Set.univ (operandDocuments docs) .and f g

theorem exprValue_append_or (f g : Forest BoolOp Operand) :
    exprValue docs .or (f.append g) = exprValue docs .or f ∪ exprValue docs .or g :=
  Forest.value_append Set.univ (operandDocuments docs) .or f g

theorem exprValue_not (f : Forest BoolOp Operand) :
    exprValue docs .not f = Set.univ \ exprValue docs .or f :=
  Forest.value_not Set.univ (operandDocuments docs) f

theorem HoistKeeps.level_and (h : HoistKeeps docs f) {op} (hop : op ≠ some .or) :
    exprValue docs .and (hoistLevel op f) = exprValue docs .and f := by
  ext d
  have hconj := h.conj op none d hop
  have hmerged : (∀ a ∈ ((mergedDocuments op none f).map Operand.documentSet).toList,
      d ∈ operandDocuments docs a) ↔ InAll (mergedDocuments op none f) d := by
    cases mergedDocuments op none f <;> simp [InAll]
  rw [hoistLevel, exprValue_append_and, Set.mem_inter_iff, value_and_leavesForest,
    collectedLeaves, List.forall_mem_append, hmerged, ← hconj]
  simp [InAll]

theorem HoistKeeps.level_or (h : HoistKeeps docs f) (haccount : namesAccount f = false) :
    exprValue docs .or (hoistLevel (some .or) f) = exprValue docs .or f := by
  ext d
  have hdisj := h.disj haccount none d
  have hmerged : (∃ a ∈ ((mergedDocuments (some .or) none f).map Operand.documentSet).toList,
      d ∈ operandDocuments docs a) ↔ InAny (mergedDocuments (some .or) none f) d := by
    cases mergedDocuments (some .or) none f <;> simp [InAny]
  rw [hoistLevel, exprValue_append_or, Set.mem_union, value_or_leavesForest, collectedLeaves]
  simp only [List.mem_append, or_and_right, exists_or, hmerged, ← hdisj]
  simp [InAny]

theorem mergedDocuments_of_count (op : Option BoolOp) :
    ∀ f merged,
      documentCount f + merged.toList.length ≤ 1 →
      mergedDocuments op merged f = mergedDocuments (some .or) merged f
  | .nil, _, _ => rfl
  | .leaf a rest, merged, h => by
    have hrest : documentCount rest ≤ documentCount (.leaf a rest) := by
      rw [documentCount]
      split_ifs <;> omega
    have ih := mergedDocuments_of_count op rest
    cases hview : a.view with
    | documents set =>
      obtain rfl := Operand.eq_of_view_documents hview
      simp only [documentCount, Operand.isDocuments] at h
      obtain rfl : merged = none := by
        cases merged with
        | none => rfl
        | some entry => simp at h
      simpa [mergedDocuments, hview, mergeDocuments] using ih (some set) (by simpa using h)
    | account | operator => simpa [mergedDocuments, hview] using ih merged (by omega)
  | .group _ _ rest, merged, h => mergedDocuments_of_count op rest merged h

variable (docs) in
theorem operandDocuments_of_view_account {a : Operand} {id : UInt64} (h : a.view = .account id) :
    operandDocuments docs a = Set.univ := by
  rcases a with ⟨field, op, value⟩ | set
  · cases field <;> cases value <;> simp_all [Operand.view, operandDocuments]
  · simp [Operand.view] at h

theorem HoistKeeps.group {op : BoolOp} {members}
    (h : HoistKeeps docs members) (hsafe : hoistsGroup op members) :
    exprValue docs op (hoistLevel (some op) members) = exprValue docs op members := by
  cases op with
  | and => exact h.level_and (by simp)
  | or => exact h.level_or (by simpa [hoistsGroup] using hsafe)
  | not =>
    obtain ⟨haccount, hcount⟩ : namesAccount members = false ∧ documentCount members ≤ 1 := by
      simpa [hoistsGroup] using hsafe
    have hlevel : hoistLevel (some .not) members = hoistLevel (some .or) members := by
      rw [hoistLevel, hoistLevel, collectedLeaves, collectedLeaves,
        mergedDocuments_of_count (some .not) members none (by simpa using hcount)]
    rw [exprValue_not, exprValue_not, hlevel, h.level_or haccount]

/-- **The first pass keeps the meaning of every sequence of operands.** -/
theorem hoistKeeps :
    ∀ f, hoistsSafely f → HoistKeeps docs f
  | .nil, _ => by
    constructor <;>
      simp [exprValue, Forest.value, hoistGroups, directOperators, mergedDocuments]
  | .leaf a rest, h => by
    have ih := hoistKeeps rest h
    constructor
    · intro op merged d hop
      cases hview : a.view with
      | account id =>
        have ha := operandDocuments_of_view_account docs hview
        simpa [exprValue, Forest.value, hoistGroups, directOperators, mergedDocuments, hview, ha]
          using ih.conj op merged d hop
      | operator =>
        have hrest := ih.conj op merged d hop
        simp only [exprValue, Forest.value, hoistGroups, directOperators, mergedDocuments, hview,
          Set.mem_inter_iff, List.forall_mem_cons]
        tauto
      | documents set =>
        obtain rfl := Operand.eq_of_view_documents hview
        have hrest := ih.conj op (some (mergeDocuments op merged set)) d hop
        rw [inAll_merge hop] at hrest
        simp only [exprValue] at hrest
        simp only [exprValue, Forest.value, hoistGroups, directOperators, mergedDocuments, hview,
          Set.mem_inter_iff, operandDocuments_documentSet, Finset.mem_coe]
        tauto
    · intro haccount merged d
      cases hview : a.view with
      | account id => simp [namesAccount, hview] at haccount
      | operator =>
        have hrest := ih.disj (by simpa [namesAccount, hview] using haccount) merged d
        simp only [exprValue] at hrest
        simp only [exprValue, Forest.value, hoistGroups, directOperators, mergedDocuments, hview,
          Set.mem_union, List.mem_cons, exists_eq_or_imp, or_assoc, hrest]
        exact or_left_comm
      | documents set =>
        obtain rfl := Operand.eq_of_view_documents hview
        have hrest := ih.disj (by simpa [namesAccount, hview] using haccount)
          (some (mergeDocuments (some .or) merged set)) d
        rw [inAny_merge] at hrest
        simp only [exprValue] at hrest
        simp only [exprValue, Forest.value, hoistGroups, directOperators, mergedDocuments, hview,
          Set.mem_union, operandDocuments_documentSet, Finset.mem_coe]
        rw [← hrest, or_comm (a := d ∈ set), or_assoc, or_comm (a := d ∈ set)]
  | .group o members rest, h => by
    obtain ⟨⟨hgroup, hmembers⟩, hrest⟩ :
        (hoistsGroup o members ∧ hoistsSafely members) ∧ hoistsSafely rest := by
      simpa [hoistsSafely] using h
    have ih := hoistKeeps rest hrest
    have hvalue := (hoistKeeps members hmembers).group hgroup
    simp only [exprValue, hoistLevel] at hvalue
    constructor
    · intro op merged d hop
      have hrest := ih.conj op merged d hop
      simp only [exprValue, Forest.value, hoistGroups, Set.mem_inter_iff, hvalue]
      tauto
    · intro haccount merged d
      have hrest := ih.disj haccount merged d
      simp only [exprValue] at hrest
      simp only [exprValue, Forest.value, hoistGroups, directOperators, mergedDocuments,
        Set.mem_union, hvalue, or_assoc, hrest]

theorem hoistLevel_value (h : hoistsSafely f) :
    exprValue docs .and (hoistLevel none f) = exprValue docs .and f :=
  (hoistKeeps f h).level_and (by simp)

end Hoist

/-! ## The second pass -/

section Split

variable {docs : Assignment}

/-- The number of operands of a sequence. -/
def operandCount : Forest BoolOp Operand → Nat
  | .nil => 0
  | .leaf _ rest => operandCount rest + 1
  | .group _ _ rest => operandCount rest + 1

theorem operandCount_runOf :
    ∀ f, LeavesLast f → cutBelow f = false →
      operandCount (runOf f) = runLength f
  | .nil, _, _ => rfl
  | .leaf a rest, hlast, hcut => by
    cases ha : a.isDocuments with
    | true => simp [runOf, runLength, ha, hlast.1 ha, operandCount]
    | false => simp [runOf, runLength, ha, operandCount, operandCount_runOf rest hlast.2.2 hcut]
  | .group op members rest, hlast, hcut => by
    have hrest : cutBelow rest = false := by
      rw [cutBelow, Bool.or_eq_false_iff] at hcut
      exact hcut.2
    rw [runOf, operandCount, runLength, if_neg (by simp [hcut]),
      operandCount_runOf rest hlast.2 hrest]

theorem operandCount_pos (h : f ≠ .nil) : 0 < operandCount f := by
  cases f with
  | nil => cases h rfl
  | leaf | group => exact Nat.succ_pos _

variable (docs) in
theorem exprValue_and_eq_or {f} (h : operandCount f = 1) :
    exprValue docs .and f = exprValue docs .or f := by
  have hnil {rest : Forest BoolOp Operand} (hrest : operandCount rest + 1 = 1) : rest = .nil := by
    by_contra hne
    have := operandCount_pos hne
    omega
  cases f with
  | nil => simp [operandCount] at h
  | leaf | group => simp [hnil h, exprValue, Forest.value]

theorem filtersOf_length_le (f : Forest BoolOp Operand) :
    operandCount f ≤ (filtersOf f).length := by
  induction f with
  | nil => rfl
  | leaf a rest ih => simpa [operandCount] using ih
  | group op members rest _ ih =>
    simp only [operandCount, filtersOf_group, List.length_cons, List.length_append]
    omega

variable (docs) in
/-- The database evaluates a run as a disjunction when it is wrapped in an `Or`, and as a
conjunction otherwise. -/
theorem externalDocuments_run (accountId : UInt64) (afterOr : Bool) (f : Forest BoolOp Operand) :
    externalDocuments docs (externalRun accountId afterOr (filtersOf f)) =
      exprValue docs (if afterOr && (filtersOf f).length > 1 then .or else .and) f := by
  unfold externalDocuments externalRun
  cases haddOr : afterOr && decide ((filtersOf f).length > 1) with
  | true =>
    have hexpr : expression ([SearchFilter.operator .accountId .equal (.uint accountId)] ++
        [.or] ++ filtersOf f ++ [.end_]) =
          some (.leaf (.operator .accountId .equal (.uint accountId)) (.group .or f .nil)) := by
      rw [expression_eq_some_iff]
      simp [SearchFilter.ofToken]
    simp only [if_true, hexpr]
    simp [exprValue, Forest.value, operandDocuments]
  | false =>
    have hexpr : expression ([SearchFilter.operator .accountId .equal (.uint accountId)] ++
        [] ++ filtersOf f ++ []) =
          some (.leaf (.operator .accountId .equal (.uint accountId)) f) := by
      rw [expression_eq_some_iff]
      simp [SearchFilter.ofToken]
    simp only [Bool.false_eq_true, if_false, hexpr]
    simp [exprValue, Forest.value, operandDocuments]

variable (docs) in
theorem splitValue_internal (op : BoolOp) (as : List Operand) :
    splitValue docs op (leavesForest (as.map .internal)) = exprValue docs op (leavesForest as) := by
  induction as with
  | nil => cases op <;> rfl
  | cons a as ih =>
    simp only [splitValue] at ih
    cases op <;>
      simp [splitValue, exprValue, leavesForest, Forest.value, splitDocuments, ih]

/-- **A run keeps the meaning of its sequence** in an `And`, when it is a single operand, and
at the head of an `Or`. -/
theorem runForest_value (accountId : UInt64) {op : BoolOp} {first : Bool}
    {f} (hlast : LeavesLast f) (hne : runOf f ≠ .nil)
    (hop : op = .and ∨ operandCount (runOf f) ≤ 1 ∨ op = .or ∧ first) :
    splitValue docs op (runForest accountId op first f) = exprValue docs op f := by
  have hpos := operandCount_pos hne
  have hlen := filtersOf_length_le (runOf f)
  have hsplit := Forest.value_append Set.univ (operandDocuments docs) op (runOf f)
    (leavesForest (trailing f))
  rw [runOf_append_trailing f hlast] at hsplit
  have htrailing := splitValue_internal docs op (trailing f)
  have hrun := externalDocuments_run docs accountId (first && op = .or) (runOf f)
  simp only [splitValue, exprValue] at htrailing hrun ⊢
  cases op with
  | and =>
    rw [hsplit, runForest, Forest.value, htrailing, splitDocuments, hrun]
    simp [Forest.combine]
  | or =>
    rw [hsplit, runForest, Forest.value, htrailing, splitDocuments, hrun]
    by_cases hor : first ∧ (filtersOf (runOf f)).length > 1
    · simp [hor, Forest.combine]
    · have hone : operandCount (runOf f) = 1 := by
        simp only [reduceCtorEq, false_or, true_and] at hop
        rcases hop with hle | hfirst
        · omega
        · have : ¬(filtersOf (runOf f)).length > 1 := fun h => hor ⟨hfirst, h⟩
          omega
      have heq := exprValue_and_eq_or docs hone
      simp only [exprValue] at heq
      rw [if_neg (by simpa using hor), heq, Forest.combine]
  | not =>
    have hone : operandCount (runOf f) = 1 := by
      simp only [reduceCtorEq, false_or, false_and, or_false] at hop
      omega
    have heq := exprValue_and_eq_or docs hone
    simp only [exprValue] at heq
    rw [hsplit, runForest, Forest.value, htrailing, splitDocuments, hrun, Forest.combine,
      Forest.value_not _ _ (runOf f)]
    simp only [reduceCtorEq, decide_false, Bool.and_false, Bool.false_and, if_false, heq]
    ext d
    simp [and_comm]

/-- **The second pass keeps the meaning of every sequence of operands** whose opened groups are
safe. -/
theorem splitForest_value (accountId : UInt64) :
    ∀ f op (first : Bool), LeavesLast f →
      opensSafely f →
      (op = .and ∨ runLength f ≤ 1 ∨ op = .or ∧ first ∧ cutBelow f = false) →
      splitValue docs op (splitForest accountId op first f) = exprValue docs op f
  | .nil, op, _, _, _, _ => by cases op <;> rfl
  | .leaf a rest, op, first, hlast, hopens, hop => by
    cases ha : a.isDocuments with
    | true =>
      obtain rfl : rest = .nil := hlast.1 ha
      rw [splitForest, if_pos ha, splitForest]
      cases op <;> rfl
    | false =>
      have hcut : cutBelow (.leaf a rest) = false := cutBelow_of_operators_nil _ hlast.2.1
      rw [splitForest, if_neg (by simp [ha])]
      refine runForest_value accountId hlast (by simp [runOf, ha]) ?_
      rw [operandCount_runOf _ hlast hcut]
      tauto
  | .group o members rest, op, first, hlast, hopens, hop => by
    rw [splitForest]
    cases hcut : cutBelow (.group o members rest) with
    | false =>
      refine runForest_value accountId hlast (by simp [runOf]) ?_
      rw [operandCount_runOf _ hlast hcut]
      tauto
    | true =>
      rw [if_pos rfl]
      rw [opensSafely, hcut] at hopens
      obtain ⟨⟨hgroup, hmembers⟩, hrest⟩ :
          (opensGroup o members ∧ opensSafely members) ∧
            opensSafely rest := by
        simpa using hopens
      have ihMembers := splitForest_value accountId members o true hlast.1 hmembers (by
        simpa [opensGroup, or_assoc] using hgroup)
      -- the opened group is no part of the run, and what follows it is not the head of an `Or`
      have ihRest := splitForest_value accountId rest op false hlast.2 hrest (by
        rcases hop with hand | hle | hor
        · exact .inl hand
        · exact .inr (.inl (by simpa [runLength, hcut] using hle))
        · rw [hcut] at hor
          simp at hor)
      simp only [splitValue, exprValue] at ihMembers ihRest ⊢
      cases op <;> simp only [Forest.value, ihMembers, ihRest]

end Split

/-! ## Both passes -/

theorem hasDocuments_append :
    ∀ f g : Forest BoolOp Operand,
      hasDocuments (f.append g) = (hasDocuments f || hasDocuments g)
  | .nil, _ => rfl
  | .leaf a rest, g => by
    simp only [Forest.append, hasDocuments_leaf, hasDocuments_append rest g, Bool.or_assoc]
  | .group op members rest, g => by
    simp only [Forest.append, hasDocuments_group, hasDocuments_append rest g, Bool.or_assoc]

theorem hasDocuments_leavesForest (as : List Operand) :
    hasDocuments (leavesForest as) = as.any Operand.isDocuments := by
  induction as with
  | nil => rfl
  | cons a as ih => rw [leavesForest, hasDocuments_leaf, ih, List.any_cons]

theorem hasDocuments_collectedLeaves (op : Option BoolOp) (f : Forest BoolOp Operand) :
    hasDocuments (leavesForest (collectedLeaves op f)) = (mergedDocuments op none f).isSome := by
  have hoperators : (directOperators f).any Operand.isDocuments = false := by
    rw [List.any_eq_false]
    intro a ha
    simp [isDocuments_directOperators f a ha]
  rw [hasDocuments_leavesForest, collectedLeaves, List.any_append, hoperators]
  cases mergedDocuments op none f <;> rfl

theorem hasDocuments_hoistGroups (op : Option BoolOp) :
    ∀ f merged,
      (hasDocuments (hoistGroups f) || (mergedDocuments op merged f).isSome) =
        (hasDocuments f || merged.isSome)
  | .nil, _ => rfl
  | .leaf a rest, merged => by
    have ih := hasDocuments_hoistGroups op rest
    rw [hoistGroups, hasDocuments_leaf]
    cases hview : a.view with
    | documents set =>
      obtain rfl := Operand.eq_of_view_documents hview
      simp [mergedDocuments, hview, ih, Operand.isDocuments]
    | account | operator =>
      have ha : a.isDocuments = false := by cases a <;> simp_all [Operand.view, Operand.isDocuments]
      simp [mergedDocuments, hview, ih, ha]
  | .group o members rest, merged => by
    have ihMembers := hasDocuments_hoistGroups (some o) members none
    have ihRest := hasDocuments_hoistGroups op rest merged
    rw [hoistGroups, hasDocuments_group, hasDocuments_group, hasDocuments_append,
      hasDocuments_collectedLeaves, ihMembers, mergedDocuments, Bool.or_assoc, ihRest]
    simp [Bool.or_assoc]

theorem hasDocuments_hoistLevel (op : Option BoolOp) (f : Forest BoolOp Operand) :
    hasDocuments (hoistLevel op f) = hasDocuments f := by
  rw [hoistLevel, hasDocuments_append, hasDocuments_collectedLeaves,
    hasDocuments_hoistGroups op f none]
  simp

theorem cutBelow_hoistGroups {g} (hg : cutBelow g = false) :
    ∀ f, cutBelow ((hoistGroups f).append g) = cutBelow f
  | .nil => hg
  | .leaf _ rest => cutBelow_hoistGroups hg rest
  | .group op members rest => by
    have hmembers := hasDocuments_hoistLevel (some op) members
    rw [hoistLevel] at hmembers
    rw [hoistGroups, Forest.append, cutBelow, cutBelow, hmembers, cutBelow_hoistGroups hg rest]

theorem cutBelow_leavesForest (as : List Operand) : cutBelow (leavesForest as) = false :=
  cutBelow_of_operators_nil _ (operators_leavesForest as)

theorem runLength_hoistGroups {g} (hg : cutBelow g = false) :
    ∀ f,
      runLength ((hoistGroups f).append g) + (directOperators f).length ≤
        runLength f + runLength g
  | .nil => by simp [hoistGroups, Forest.append, directOperators, runLength]
  | .leaf a rest => by
    have ih := runLength_hoistGroups hg rest
    rw [hoistGroups, runLength, directOperators]
    cases hview : a.view with
    | operator =>
      have ha : a.isDocuments = false := by cases a <;> simp_all [Operand.view, Operand.isDocuments]
      simp only [ha, Bool.false_eq_true, if_false, List.length_cons]
      omega
    | account id => dsimp only; split_ifs <;> omega
    | documents set => dsimp only; split_ifs <;> omega
  | .group op members rest => by
    have ih := runLength_hoistGroups hg rest
    have hcut := cutBelow_hoistGroups hg (.group op members rest)
    rw [hoistGroups, Forest.append] at hcut
    rw [hoistGroups, Forest.append, runLength, hcut, runLength, directOperators]
    split_ifs <;> omega

theorem runLength_collectedLeaves (op : Option BoolOp) (f : Forest BoolOp Operand) :
    runLength (leavesForest (collectedLeaves op f)) ≤ (directOperators f).length := by
  have hdocs : runLength (leavesForest ((mergedDocuments op none f).map
      Operand.documentSet).toList) = 0 := by
    cases mergedDocuments op none f <;> simp [leavesForest, runLength, Operand.isDocuments]
  have hleaves (as : List Operand) (bs : List Operand) :
      runLength (leavesForest (as ++ bs)) ≤ as.length + runLength (leavesForest bs) := by
    induction as with
    | nil => simp
    | cons a as ih =>
      rw [List.cons_append, leavesForest, runLength, List.length_cons]
      split_ifs <;> omega
  have := hleaves (directOperators f)
    ((mergedDocuments op none f).map Operand.documentSet).toList
  rw [collectedLeaves]
  omega

theorem opensGroup_hoistLevel {op : BoolOp}
    (h : opensGroup op f) : opensGroup op (hoistLevel (some op) f) := by
  have hcut := cutBelow_hoistGroups (cutBelow_leavesForest (collectedLeaves (some op) f)) f
  have hrun := runLength_hoistGroups (cutBelow_leavesForest (collectedLeaves (some op) f)) f
  have hcollected := runLength_collectedLeaves (some op) f
  rw [opensGroup, hoistLevel, hcut]
  simp only [opensGroup, Bool.or_eq_true, decide_eq_true_eq] at h ⊢
  rcases h with (hand | hle) | hor
  · exact .inl (.inl hand)
  · exact .inl (.inr (by omega))
  · exact .inr hor

theorem opensSafely_leavesForest (as : List Operand) : opensSafely (leavesForest as) := by
  induction as with
  | nil => rfl
  | cons a as ih => exact ih

theorem opensSafely_hoistGroups {g} (hg : cutBelow g = false)
    (hopens : opensSafely g) :
    ∀ f, opensSafely f →
      opensSafely ((hoistGroups f).append g)
  | .nil, _ => hopens
  | .leaf _ rest, h => opensSafely_hoistGroups hg hopens rest h
  | .group op members rest, h => by
    rw [opensSafely] at h
    simp only [Bool.and_eq_true, Bool.or_eq_true, Bool.not_eq_true'] at h
    obtain ⟨⟨hgroup, hmembers⟩, hrest⟩ := h
    have hcut := cutBelow_hoistGroups hg (.group op members rest)
    rw [hoistGroups, Forest.append] at hcut ⊢
    rw [opensSafely, hcut]
    simp only [Bool.and_eq_true, Bool.or_eq_true, Bool.not_eq_true']
    refine ⟨⟨hgroup.imp_right opensGroup_hoistLevel, ?_⟩,
      opensSafely_hoistGroups hg hopens rest hrest⟩
    exact opensSafely_hoistGroups (cutBelow_leavesForest _) (opensSafely_leavesForest _) members
      hmembers

/-- **Splitting a filter list preserves its meaning** when both passes are safe on it: with every
run replaced by what the database returns for it, the same documents of the mask are selected. -/
theorem splitFilters_preserves_meaning (docs : Assignment) (filters : List SearchFilter)
    (mask : RoaringBitmap) (f : Forest BoolOp Operand) (id : UInt64)
    (hf : expression filters = some f) (hid : accountIds f = [id])
    (hmax : id ≠ 0xFFFFFFFFFFFFFFFF) (hhoist : hoistsSafely f)
    (hopen : opensSafely f) :
    ∃ split g, splitFilters filters = some split ∧
      Forest.parse (split.map SplitFilter.token) = some g ∧
      splitValue docs .and g ∩ ↑mask = exprValue docs .and f ∩ ↑mask := by
  rw [expression_eq_some_iff] at hf
  have hsplit := splitFilters_expression f
  simp only [hid, List.foldl_cons, List.foldl_nil, if_neg hmax] at hsplit
  have hlast : LeavesLast (hoistLevel none f) :=
    leavesLast_hoistGroups f _ (leavesLast_collectedLeaves none f)
  have hopens : opensSafely (hoistLevel none f) :=
    opensSafely_hoistGroups (cutBelow_leavesForest _) (opensSafely_leavesForest _) f hopen
  refine ⟨_, splitForest id .and true (hoistLevel none f), hf ▸ hsplit, ?_, ?_⟩
  · simp [splitFiltersOf, Function.comp_def]
  · rw [splitForest_value id _ .and true hlast hopens (.inl rfl), hoistLevel_value hhoist]

/-- `account ∧ {1, 2} ∧ (from ∨ to ∨ {1})`. -/
theorem splitFilters_preserves_meaning_or :
    ∃ split g, splitFilters [.operator .accountId .equal (.uint 42), .documentSet {1, 2}, .or,
        .operator (.email .from) .contains (.text "a"),
        .operator (.email .to) .contains (.text "a"),
        .documentSet {1}, .end_] = some split ∧
      Forest.parse (split.map SplitFilter.token) = some g ∧
      splitValue (fun _ _ _ => {2}) .and g ∩ ↑({1, 2, 3} : RoaringBitmap) =
        exprValue (fun _ _ _ => {2}) .and (.leaf (.operator .accountId .equal (.uint 42))
          (.leaf (.documentSet {1, 2}) (.group .or
            (.leaf (.operator (.email .from) .contains (.text "a"))
              (.leaf (.operator (.email .to) .contains (.text "a"))
                (.leaf (.documentSet {1}) .nil))) .nil))) ∩ ↑({1, 2, 3} : RoaringBitmap) :=
  splitFilters_preserves_meaning _ _ _ _ 42 rfl rfl (by decide) rfl rfl

/-- `account ∧ ((subject ∧ {1}) ∨ from ∨ to)`: the group with the document set is opened, and the
run behind it is evaluated as an `And`. -/
theorem splitFilters_loses_or :
    ∃ f split g, expression [.operator .accountId .equal (.uint 42), .or, .and,
        .operator (.email .subject) .contains (.text "a"), .documentSet {1}, .end_,
        .operator (.email .from) .contains (.text "a"),
        .operator (.email .to) .contains (.text "a"), .end_] = some f ∧
      accountIds f = [42] ∧ splitFilters (filtersOf f) = some split ∧
      Forest.parse (split.map SplitFilter.token) = some g ∧
      splitValue (fun field _ _ => if field = .email .from then {2} else ∅) .and g ∩
          ↑({1, 2} : RoaringBitmap) ≠
        exprValue (fun field _ _ => if field = .email .from then {2} else ∅) .and f ∩
          ↑({1, 2} : RoaringBitmap) := by
  let f : Forest BoolOp Operand := .leaf (.operator .accountId .equal (.uint 42))
    (.group .or (.group .and (.leaf (.operator (.email .subject) .contains (.text "a"))
      (.leaf (.documentSet {1}) .nil)) (.leaf (.operator (.email .from) .contains (.text "a"))
        (.leaf (.operator (.email .to) .contains (.text "a")) .nil))) .nil)
  refine ⟨f, _, splitForest 42 .and true (hoistLevel none f), rfl, rfl,
    splitFilters_expression f, ?_, fun h => ?_⟩
  · have hids : accountIds f = [42] := rfl
    simp [splitFiltersOf, Function.comp_def, hids]
  · have hsplit : splitForest 42 .and true (hoistLevel none f) =
        .group .or (.group .and (.leaf (.external [.operator .accountId .equal (.uint 42),
            .operator (.email .subject) .contains (.text "a")])
          (.leaf (.internal (.documentSet {1})) .nil))
          (.leaf (.external [.operator .accountId .equal (.uint 42),
            .operator (.email .from) .contains (.text "a"),
            .operator (.email .to) .contains (.text "a")]) .nil)) .nil := by
      rfl
    have hmem : (2 : UInt32) ∈ exprValue (fun field _ _ => if field = .email .from then {2} else ∅)
        .and f ∩ ↑({1, 2} : RoaringBitmap) := by
      simp [f, exprValue, Forest.value, operandDocuments]
    rw [← h, hsplit] at hmem
    have hexternal (a : Operand) (as : List Operand) :
        expression (.ofToken (.leaf a) :: as.map fun b => .ofToken (.leaf b)) =
          some (.leaf a (leavesForest as)) := by
      rw [expression_eq_some_iff, filtersOf_leaf, filtersOf_leavesForest]
    have hfirst := hexternal (.operator .accountId .equal (.uint 42))
      [.operator (.email .subject) .contains (.text "a")]
    have hsecond := hexternal (.operator .accountId .equal (.uint 42))
      [.operator (.email .from) .contains (.text "a"), .operator (.email .to) .contains (.text "a")]
    simp only [SearchFilter.ofToken, List.map_cons, List.map_nil] at hfirst hsecond
    simp [splitValue, Forest.value, splitDocuments, externalDocuments, hsecond,
      exprValue, leavesForest, operandDocuments] at hmem

end MailServer.Search
