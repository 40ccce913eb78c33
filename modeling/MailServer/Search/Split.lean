import MailServer.Search.Filter

/-!
# Splitting a filter list between the database and the server

`split_filters` (`store/src/search/split.rs`) divides a filter list into runs that an external
database evaluates and filters that the server evaluates itself.  A first pass moves, within
each group, the operators behind the groups and merges the document sets behind them
(`hoistStep`); a second pass cuts the list into runs at the document sets (`scan`,
`splitLoop`).

`hoistLevel` and `splitForest` are the two passes on the expression behind the list.

Principal results: `foldlM_hoistStep`, `splitLoop_splitForest`.
-/

namespace MailServer.Search

open Bracketed List

inductive SplitFilter where
  | internal (filter : SearchFilter)
  | external (filters : List SearchFilter)
deriving DecidableEq

/-! ## First pass -/

/-- The variables of the first pass, keyed by nesting depth; an absent entry of `operators` is the
empty list. -/
structure Hoist where
  opStack : List BoolOp
  filters : List SearchFilter
  operators : Nat → List SearchFilter
  documentSets : Nat → Option RoaringBitmap
  accountId : UInt64

def Hoist.init : Hoist := ⟨[], [], fun _ => [], fun _ => none, 0xFFFFFFFFFFFFFFFF⟩

variable (st : Hoist)

/-- The operators and the document set collected at a depth. -/
def Hoist.collected (depth : Nat) : List SearchFilter :=
  st.operators depth ++ ((st.documentSets depth).map SearchFilter.documentSet).toList

variable (op : BoolOp)

/-- Open a group. -/
def Hoist.push : Hoist :=
  { st with
    opStack := op :: st.opStack
    filters := st.filters ++ [.ofToken (.opening op)] }

/-- Merge a document set into the one collected so far: `|=` below an `Or`, `&=` otherwise. -/
def mergeDocuments (op : Option BoolOp) (merged : Option RoaringBitmap) (docs : RoaringBitmap) :
    RoaringBitmap :=
  match merged with
  | some entry => if op = some .or then entry ∪ docs else entry ∩ docs
  | none => docs

/-- One filter of the first pass; `none` where an `End` has no group to close. -/
def hoistStep : SearchFilter → Option Hoist
  | .and => some (st.push .and)
  | .or => some (st.push .or)
  | .not => some (st.push .not)
  | .end_ =>
    let depth := st.opStack.length
    match st.opStack with
    | [] => none
    | _ :: opStack =>
      some { st with
        opStack := opStack
        filters := st.filters ++ st.collected depth ++ [.end_]
        operators := Function.update st.operators depth []
        documentSets := Function.update st.documentSets depth none }
  | .operator .accountId _ (.uint id) => some { st with accountId := id }
  | .operator field op value =>
    let depth := st.opStack.length
    some { st with
      operators := Function.update st.operators depth
        (st.operators depth ++ [.operator field op value]) }
  | .documentSet docs =>
    let depth := st.opStack.length
    some { st with
      documentSets := Function.update st.documentSets depth
        (some (mergeDocuments st.opStack.head? (st.documentSets depth) docs)) }

/-! ## Second pass -/

/-- What the inner loop of the second pass finds behind position `i`. -/
inductive Scan where
  /-- The filters up to position `j` go to the database. -/
  | run (j : Nat)
  /-- The filter at position `i` stays on the server. -/
  | single

/-- The inner loop, from position `i + j` on and at the given depth below position `i`. -/
def scan : List SearchFilter → (depth j : Nat) → Scan
  | [], _, j => .run j
  | .and :: filters, depth, j => scan filters (depth + 1) (j + 1)
  | .or :: filters, depth, j => scan filters (depth + 1) (j + 1)
  | .not :: filters, depth, j => scan filters (depth + 1) (j + 1)
  | .end_ :: filters, depth, j =>
    match depth with
    | 0 => if j > 0 then .run j else .single
    | depth + 1 => scan filters depth (j + 1)
  | .operator .. :: filters, depth, j => scan filters depth (j + 1)
  | .documentSet _ :: _, depth, j => if depth = 0 ∧ j > 0 then .run j else .single

/-- The run handed to the database: the account, and the filters, within an `Or` when there are
several and the filter before them opened an `Or`. -/
def externalRun (accountId : UInt64) (afterOr : Bool) (run : List SearchFilter) :
    List SearchFilter :=
  let addOr := afterOr && run.length > 1
  [.operator .accountId .equal (.uint accountId)] ++ (if addOr then [.or] else []) ++ run ++
    (if addOr then [.end_] else [])

/-- The outer loop, on the filters from position `i` on. -/
def splitLoop (accountId : UInt64) (filters : List SearchFilter) (split : List SplitFilter) :
    List SplitFilter :=
  match filters with
  | [] => split
  | filter :: rest =>
    match scan (filter :: rest) 0 0 with
    | .single => splitLoop accountId rest (split ++ [.internal filter])
    | .run j =>
      let afterOr := split.getLast? = some (.internal .or)
      -- the inner loop leaves a run only behind its first filter: `j` is not zero
      splitLoop accountId (rest.drop (j - 1))
        (split ++ [.external (externalRun accountId afterOr ((filter :: rest).take j))])
termination_by filters.length
decreasing_by all_goals simp only [length_cons, length_drop]; omega

def splitFilters (filtersIn : List SearchFilter) : Option (List SplitFilter) := do
  let st ← filtersIn.foldlM hoistStep Hoist.init
  let filters := st.filters ++ st.collected 0
  if st.accountId = 0xFFFFFFFFFFFFFFFF then none
  else some (splitLoop st.accountId filters [])

/-! ## The first pass on the expression -/

/-- The three kinds of operands the first pass tells apart. -/
inductive OperandView where
  | account (id : UInt64)
  | operator
  | documents (docs : RoaringBitmap)

def Operand.view : Operand → OperandView
  | .operator .accountId _ (.uint id) => .account id
  | .operator .. => .operator
  | .documentSet docs => .documents docs

theorem Operand.eq_of_view_documents {a : Operand} {docs}
    (h : a.view = .documents docs) : a = .documentSet docs := by
  rcases a with ⟨field, op, value⟩ | set
  · cases field <;> cases value <;> cases h
  · cases h
    rfl

variable (f : Forest BoolOp Operand)

/-- The account ids an expression names. -/
def accountIds : List UInt64 :=
  f.leaves.filterMap fun a => match a.view with
    | .account id => some id
    | _ => none

/-- The operators of a sequence of operands, outside its groups. -/
def directOperators : Forest BoolOp Operand → List Operand
  | .nil => []
  | .leaf a rest => match a.view with
    | .operator => a :: directOperators rest
    | _ => directOperators rest
  | .group _ _ rest => directOperators rest

/-- The document sets of a sequence of operands, outside its groups, merged into one. -/
def mergedDocuments (op : Option BoolOp) :
    Option RoaringBitmap → Forest BoolOp Operand → Option RoaringBitmap
  | merged, .nil => merged
  | merged, .leaf a rest => match a.view with
    | .documents docs => mergedDocuments op (some (mergeDocuments op merged docs)) rest
    | _ => mergedDocuments op merged rest
  | merged, .group _ _ rest => mergedDocuments op merged rest

/-- A sequence of leaves. -/
def leavesForest {α : Type} : List α → Forest BoolOp α
  | [] => .nil
  | a :: as => .leaf a (leavesForest as)

/-- What the first pass puts behind the groups of a sequence of operands. -/
def collectedLeaves (op : Option BoolOp) (f : Forest BoolOp Operand) : List Operand :=
  directOperators f ++ ((mergedDocuments op none f).map Operand.documentSet).toList

/-- The groups of a sequence of operands after the first pass. -/
def hoistGroups : Forest BoolOp Operand → Forest BoolOp Operand
  | .nil => .nil
  | .leaf _ rest => hoistGroups rest
  | .group op members rest =>
    .group op ((hoistGroups members).append (leavesForest (collectedLeaves (some op) members)))
      (hoistGroups rest)

/-- A sequence of operands after the first pass: its groups, its operators, its documents. -/
def hoistLevel (op : Option BoolOp) (f : Forest BoolOp Operand) : Forest BoolOp Operand :=
  (hoistGroups f).append (leavesForest (collectedLeaves op f))

attribute [local simp] accountIds directOperators mergedDocuments hoistGroups Forest.leaves

theorem filtersOf_leavesForest (as : List Operand) :
    filtersOf (leavesForest as) = as.map fun a => .ofToken (.leaf a) := by
  induction as with
  | nil => rfl
  | cons a as ih => rw [leavesForest, filtersOf_leaf, ih, map_cons]

/-- The variables of the first pass behind a sequence of operands. -/
def Hoist.after : Hoist :=
  let depth := st.opStack.length
  { st with
    filters := st.filters ++ filtersOf (hoistGroups f)
    operators := Function.update st.operators depth
      (st.operators depth ++ (directOperators f).map fun a => .ofToken (.leaf a))
    documentSets := Function.update st.documentSets depth
      (mergedDocuments st.opStack.head? (st.documentSets depth) f)
    accountId := (accountIds f).foldl (fun _ id => id) st.accountId }

/-- Nothing is collected below the current depth. -/
def Hoist.Flushed : Prop :=
  ∀ depth > st.opStack.length, st.operators depth = [] ∧ st.documentSets depth = none

theorem hoistStep_leaf (a : Operand) :
    hoistStep st (.ofToken (.leaf a)) = some (st.after (.leaf a .nil)) := by
  rcases a with ⟨field, op, value⟩ | docs
  · cases field <;> cases value <;>
      simp [hoistStep, SearchFilter.ofToken, Hoist.after, Operand.view]
  · simp [hoistStep, SearchFilter.ofToken, Hoist.after, Operand.view]

theorem Hoist.after_leaf (a : Operand) (rest : Forest BoolOp Operand) :
    (st.after (.leaf a .nil)).after rest = st.after (.leaf a rest) := by
  cases h : a.view <;> simp [Hoist.after, h]

theorem Hoist.after_group (members rest : Forest BoolOp Operand) :
    (st.after (.group op members .nil)).after rest = st.after (.group op members rest) := by
  simp [Hoist.after]

theorem hoistStep_opening :
    hoistStep st (.ofToken (.opening op)) = some (st.push op) := by
  cases op <;> rfl

theorem hoistStep_end {st : Hoist} (hst : st.Flushed) (op : BoolOp)
    (members : Forest BoolOp Operand) :
    hoistStep ((st.push op).after members) .end_ = some (st.after (.group op members .nil)) := by
  obtain ⟨hops, hdocs⟩ := hst (st.opStack.length + 1) (Nat.lt_succ_self _)
  have hoperators : Function.update st.operators (st.opStack.length + 1) [] = st.operators := by
    rw [← hops, Function.update_eq_self]
  have hdocuments :
      Function.update st.documentSets (st.opStack.length + 1) none = st.documentSets := by
    rw [← hdocs, Function.update_eq_self]
  have hleaves : ((collectedLeaves (some op) members).map fun a => SearchFilter.ofToken (.leaf a)) =
      (directOperators members).map (fun a => .ofToken (.leaf a)) ++
        ((mergedDocuments (some op) none members).map SearchFilter.documentSet).toList := by
    cases h : mergedDocuments (some op) none members <;>
      simp [collectedLeaves, h, SearchFilter.ofToken]
  simp [hoistStep, Hoist.after, Hoist.push, Hoist.collected, hops, hdocs, hdocuments,
    filtersOf_leavesForest, hleaves]

/-- **The first pass computes `hoistGroups`** and collects the leaves next to the groups. -/
theorem foldlM_hoistStep :
    ∀ f st, st.Flushed →
      (filtersOf f).foldlM hoistStep st = some (st.after f)
  | .nil, st, _ => by simp [Hoist.after]
  | .leaf a rest, st, hst => by
    have hnext : (st.after (.leaf a .nil)).Flushed := by
      intro depth hdepth
      have hne : depth ≠ st.opStack.length := Nat.ne_of_gt hdepth
      simpa [Hoist.after, Function.update_of_ne hne] using hst depth hdepth
    rw [filtersOf_leaf, foldlM_cons, hoistStep_leaf]
    exact (foldlM_hoistStep rest _ hnext).trans (by rw [Hoist.after_leaf])
  | .group op members rest, st, hst => by
    have hpush : (st.push op).Flushed := by
      intro depth hdepth
      exact hst depth (Nat.lt_of_succ_lt hdepth)
    have hnext : (st.after (.group op members .nil)).Flushed := by
      intro depth hdepth
      have hne : depth ≠ st.opStack.length := Nat.ne_of_gt hdepth
      simpa [Hoist.after, Function.update_of_ne hne] using hst depth hdepth
    rw [filtersOf_group, foldlM_cons, hoistStep_opening, Option.bind_eq_bind,
      Option.bind_some, foldlM_append, foldlM_hoistStep members _ hpush,
      Option.bind_eq_bind, Option.bind_some, foldlM_cons, hoistStep_end hst]
    exact (foldlM_hoistStep rest _ hnext).trans (by rw [Hoist.after_group])

theorem splitFilters_eq :
    splitFilters (filtersOf f) =
      let accountId := (accountIds f).foldl (fun _ id => id) 0xFFFFFFFFFFFFFFFF
      if accountId = 0xFFFFFFFFFFFFFFFF then none
      else some (splitLoop accountId (filtersOf (hoistLevel none f)) []) := by
  have hinit : Hoist.init.Flushed := fun _ _ => ⟨rfl, rfl⟩
  have hcollected : (Hoist.init.after f).filters ++ (Hoist.init.after f).collected 0 =
      filtersOf (hoistLevel none f) := by
    cases h : mergedDocuments none none f <;>
      simp [Hoist.after, Hoist.init, Hoist.collected, hoistLevel, filtersOf_leavesForest,
        collectedLeaves, h, SearchFilter.ofToken]
  simp only [splitFilters, foldlM_hoistStep f _ hinit, Option.bind_eq_bind, Option.bind_some,
    hcollected]
  rfl

/-! ## The second pass on the expression -/

/-- The operands of the result: those that stay on the server, and the runs. -/
inductive SplitOperand where
  | internal (a : Operand)
  | external (filters : List SearchFilter)

def SplitFilter.token : SplitFilter → Token BoolOp SplitOperand
  | .external filters => .leaf (.external filters)
  | .internal filter => match filter.token with
    | .leaf a => .leaf (.internal a)
    | .opening op => .opening op
    | .closing => .closing

def SplitFilter.ofToken : Token BoolOp SplitOperand → SplitFilter
  | .leaf (.external filters) => .external filters
  | .leaf (.internal a) => .internal (.ofToken (.leaf a))
  | .opening op => .internal (.ofToken (.opening op))
  | .closing => .internal .end_

@[simp] theorem SplitFilter.token_ofToken :
    ∀ t, (ofToken t).token = t
  | .leaf (.external _) => rfl
  | .leaf (.internal a) => by simp [SplitFilter.ofToken, SplitFilter.token]
  | .opening op => by simp [SplitFilter.ofToken, SplitFilter.token]
  | .closing => rfl

def Operand.isDocuments : Operand → Bool
  | .documentSet _ => true
  | .operator .. => false

/-- There is a document set somewhere in the expression. -/
def hasDocuments : Bool :=
  f.leaves.any Operand.isDocuments

/-- There is a document set in some group of the sequence. -/
def cutBelow : Forest BoolOp Operand → Bool
  | .nil => false
  | .leaf _ rest => cutBelow rest
  | .group _ members rest => hasDocuments members || cutBelow rest

/-- The shape the first pass leaves behind: in every sequence of operands the groups come
first, and a document set comes last. -/
def LeavesLast : Forest BoolOp Operand → Prop
  | .nil => True
  | .leaf a rest => (a.isDocuments → rest = .nil) ∧ rest.operators = [] ∧ LeavesLast rest
  | .group _ members rest => LeavesLast members ∧ LeavesLast rest

/-- The operands in front of the first document set of the sequence. -/
def runOf : Forest BoolOp Operand → Forest BoolOp Operand
  | .nil => .nil
  | .leaf a rest => if a.isDocuments then .nil else .leaf a (runOf rest)
  | .group op members rest => .group op members (runOf rest)

/-- The document set that ends the sequence. -/
def trailing : Forest BoolOp Operand → List Operand
  | .nil => []
  | .leaf a rest => if a.isDocuments then [a] else trailing rest
  | .group _ _ rest => trailing rest

/-- A sequence of operands that is handed to the database but for its document set. -/
def runForest (accountId : UInt64) (op : BoolOp) (first : Bool) (f : Forest BoolOp Operand) :
    Forest BoolOp SplitOperand :=
  .leaf (.external (externalRun accountId (first && op = .or) (filtersOf (runOf f))))
    (leavesForest ((trailing f).map .internal))

/-- The second pass on a sequence of operands; `first` goes in front of the first operand of a
group. As long as a group further on has a document set, the group at hand is opened. -/
def splitForest (accountId : UInt64) :
    BoolOp → Bool → Forest BoolOp Operand → Forest BoolOp SplitOperand
  | _, _, .nil => .nil
  | op, first, .leaf a rest =>
    if a.isDocuments then .leaf (.internal a) (splitForest accountId op false rest)
    else runForest accountId op first (.leaf a rest)
  | op, first, .group o members rest =>
    if cutBelow (.group o members rest) then
      .group o (splitForest accountId o true members) (splitForest accountId op false rest)
    else runForest accountId op first (.group o members rest)

attribute [local simp] scan cutBelow LeavesLast runOf trailing splitForest

/-! ### The inner loop -/

theorem scan_leaf {a : Operand} (ha : a.isDocuments = false) (filters : List SearchFilter)
    (depth j : Nat) :
    scan (.ofToken (.leaf a) :: filters) depth j = scan filters depth (j + 1) := by
  cases a with
  | operator field op value => rfl
  | documentSet docs => simp [Operand.isDocuments] at ha

theorem scan_documents {a : Operand} (ha : a.isDocuments) (filters : List SearchFilter)
    (depth j : Nat) :
    scan (.ofToken (.leaf a) :: filters) depth j =
      if depth = 0 ∧ j > 0 then .run j else .single := by
  cases a with
  | operator field op value => simp [Operand.isDocuments] at ha
  | documentSet docs => rfl

theorem scan_opening (filters : List SearchFilter) (depth j : Nat) :
    scan (.ofToken (.opening op) :: filters) depth j = scan filters (depth + 1) (j + 1) := by
  cases op <;> rfl

theorem hasDocuments_leaf (a : Operand) (rest : Forest BoolOp Operand) :
    hasDocuments (.leaf a rest) = (a.isDocuments || hasDocuments rest) := rfl

theorem hasDocuments_group (members rest : Forest BoolOp Operand) :
    hasDocuments (.group op members rest) = (hasDocuments members || hasDocuments rest) := by
  simp [hasDocuments]

theorem scan_pure :
    ∀ f filters depth j,
      hasDocuments f = false →
      scan (filtersOf f ++ filters) depth j = scan filters depth (j + (filtersOf f).length)
  | .nil, _, _, _, _ => rfl
  | .leaf a rest, filters, depth, j, h => by
    rw [hasDocuments_leaf, Bool.or_eq_false_iff] at h
    rw [filtersOf_leaf, cons_append, scan_leaf h.1, scan_pure rest filters _ _ h.2]
    simp only [length_cons]
    congr 1
    omega
  | .group op members rest, filters, depth, j, h => by
    rw [hasDocuments_group, Bool.or_eq_false_iff] at h
    rw [filtersOf_group, cons_append, append_assoc, cons_append, scan_opening,
      scan_pure members _ _ _ h.1, scan, scan_pure rest filters _ _ h.2]
    simp only [length_cons, length_append]
    congr 1
    omega

/-- A document set below position `i` leaves the filter at position `i` on the server. -/
theorem scan_inside :
    ∀ f filters depth j,
      hasDocuments f → scan (filtersOf f ++ filters) (depth + 1) j = .single
  | .nil, _, _, _, h => by simp [hasDocuments] at h
  | .leaf a rest, filters, depth, j, h => by
    rw [filtersOf_leaf, cons_append]
    cases ha : a.isDocuments with
    | true => rw [scan_documents ha, if_neg (by omega)]
    | false =>
      rw [hasDocuments_leaf, ha, Bool.false_or] at h
      rw [scan_leaf ha, scan_inside rest filters depth _ h]
  | .group op members rest, filters, depth, j, h => by
    rw [filtersOf_group, cons_append, append_assoc, cons_append, scan_opening]
    cases hm : hasDocuments members with
    | true => exact scan_inside members _ _ _ hm
    | false =>
      rw [hasDocuments_group, hm, Bool.false_or] at h
      rw [scan_pure members _ _ _ hm, scan]
      exact scan_inside rest filters depth _ h

theorem cutBelow_of_operators_nil :
    ∀ f, f.operators = [] → cutBelow f = false
  | .nil, _ => rfl
  | .leaf _ rest, h => cutBelow_of_operators_nil rest h
  | .group .., h => by simp [Forest.operators] at h

theorem scan_cutBelow :
    ∀ f filters j,
      LeavesLast f → cutBelow f → scan (filtersOf f ++ filters) 0 j = .single
  | .nil, _, _, _, h => by simp at h
  | .leaf a rest, _, _, hlast, h => by
    -- no group stands behind a leaf
    have hrest := cutBelow_of_operators_nil rest hlast.2.1
    rw [cutBelow, hrest] at h
    cases h
  | .group op members rest, filters, j, hlast, h => by
    rw [filtersOf_group, cons_append, append_assoc, cons_append, scan_opening]
    cases hm : hasDocuments members with
    | true => exact scan_inside members _ _ _ hm
    | false =>
      rw [cutBelow, hm, Bool.false_or] at h
      rw [scan_pure members _ _ _ hm, scan]
      exact scan_cutBelow rest filters _ hlast.2 h

/-- The list ends or a group is closed. -/
def Boundary (filters : List SearchFilter) : Prop :=
  filters = [] ∨ ∃ rest, filters = .end_ :: rest

/-- Without a document set in a group, the inner loop takes the operands up to the document set or
the end. -/
theorem scan_run :
    ∀ f filters j,
      cutBelow f = false → Boundary filters → 0 < j + (filtersOf (runOf f)).length →
      scan (filtersOf f ++ filters) 0 j = .run (j + (filtersOf (runOf f)).length)
  | .nil, filters, j, _, hend, hj => by
    simp only [runOf, filtersOf_nil, length_nil, Nat.add_zero] at hj ⊢
    rcases hend with rfl | ⟨rest, rfl⟩
    · rfl
    · simp [hj]
  | .leaf a rest, filters, j, hcut, hend, hj => by
    rw [filtersOf_leaf, cons_append]
    cases ha : a.isDocuments with
    | true =>
      simp only [runOf, ha, if_true, filtersOf_nil, length_nil, Nat.add_zero] at hj ⊢
      rw [scan_documents ha, if_pos ⟨rfl, hj⟩]
    | false =>
      have ih := scan_run rest filters (j + 1) hcut hend (by omega)
      rw [scan_leaf ha, ih, runOf, if_neg (by simp [ha]), filtersOf_leaf, length_cons]
      congr 1
      omega
  | .group op members rest, filters, j, hcut, hend, hj => by
    rw [cutBelow, Bool.or_eq_false_iff] at hcut
    have ih := scan_run rest filters (j + 1 + (filtersOf members).length + 1) hcut.2 hend (by omega)
    rw [filtersOf_group, cons_append, append_assoc, cons_append, scan_opening,
      scan_pure members _ _ _ hcut.1, scan, ih, runOf, filtersOf_group]
    simp only [length_cons, length_append]
    congr 1
    omega

theorem runOf_append_trailing :
    ∀ f, LeavesLast f →
      (runOf f).append (leavesForest (trailing f)) = f
  | .nil, _ => rfl
  | .leaf a rest, h => by
    cases ha : a.isDocuments with
    | true => simp [ha, h.1 ha, Forest.append, leavesForest]
    | false => simp [ha, Forest.append, runOf_append_trailing rest h.2.2]
  | .group op members rest, h => by
    simp [Forest.append, runOf_append_trailing rest h.2]

theorem filtersOf_runOf {f} (h : LeavesLast f) :
    filtersOf f = filtersOf (runOf f) ++ (trailing f).map fun a => .ofToken (.leaf a) := by
  conv_lhs => rw [← runOf_append_trailing f h]
  rw [filtersOf_append, filtersOf_leavesForest]

theorem isDocuments_of_trailing :
    ∀ f, ∀ a ∈ trailing f, a.isDocuments
  | .nil, a, h => by simp at h
  | .leaf b rest, a, h => by
    cases hb : b.isDocuments with
    | true =>
      obtain rfl : a = b := by simpa [hb] using h
      exact hb
    | false => exact isDocuments_of_trailing rest a (by simpa [hb] using h)
  | .group _ _ rest, a, h => isDocuments_of_trailing rest a h

/-! ### The outer loop -/

theorem splitLoop_single {filter : SearchFilter} {rest}
    (h : scan (filter :: rest) 0 0 = .single) (accountId : UInt64) (split : List SplitFilter) :
    splitLoop accountId (filter :: rest) split =
      splitLoop accountId rest (split ++ [.internal filter]) := by
  rw [splitLoop]
  simp only [h]

theorem splitLoop_run {run rest} (hne : run ≠ [])
    (h : scan (run ++ rest) 0 0 = .run run.length) (accountId : UInt64)
    (split : List SplitFilter) :
    splitLoop accountId (run ++ rest) split =
      splitLoop accountId rest (split ++ [.external (externalRun accountId
        (split.getLast? = some (.internal .or)) run)]) := by
  obtain ⟨filter, run, rfl⟩ := exists_cons_of_ne_nil hne
  rw [cons_append, splitLoop]
  simp only [← cons_append, h]
  congr 1
  · simp
  · simp

def splitFiltersOf (g : Forest BoolOp SplitOperand) : List SplitFilter :=
  g.tokens.map SplitFilter.ofToken

theorem splitFiltersOf_group (members rest : Forest BoolOp SplitOperand) :
    splitFiltersOf (.group op members rest) = .internal (.ofToken (.opening op)) ::
      (splitFiltersOf members ++ .internal .end_ :: splitFiltersOf rest) := by
  simp [splitFiltersOf, Forest.tokens, SplitFilter.ofToken]

theorem splitFiltersOf_leaf (a : SplitOperand) (rest : Forest BoolOp SplitOperand) :
    splitFiltersOf (.leaf a rest) = .ofToken (.leaf a) :: splitFiltersOf rest := rfl

theorem splitLoop_documents (accountId : UInt64) (filters : List SearchFilter) :
    ∀ (docs : List Operand) split, (∀ a ∈ docs, a.isDocuments) →
      splitLoop accountId ((docs.map fun a => .ofToken (.leaf a)) ++ filters) split =
        splitLoop accountId filters
          (split ++ splitFiltersOf (leavesForest (docs.map .internal)))
  | [], split, _ => by simp [splitFiltersOf, leavesForest, Forest.tokens]
  | a :: docs, split, h => by
    have ha : a.isDocuments := h a (by simp)
    rw [map_cons, cons_append, splitLoop_single (by rw [scan_documents ha]; rfl),
      splitLoop_documents accountId filters docs _ fun b hb => h b (by simp [hb]),
      map_cons, leavesForest, splitFiltersOf_leaf]
    simp [SplitFilter.ofToken]

theorem splitLoop_runForest {f} {filters}
    {split} {op : BoolOp} {first : Bool} (hlast : LeavesLast f)
    (hcut : cutBelow f = false) (hne : filtersOf (runOf f) ≠ []) (hend : Boundary filters)
    (hor : decide (split.getLast? = some (.internal .or)) = (first && op = .or))
    (accountId : UInt64) :
    splitLoop accountId (filtersOf f ++ filters) split =
      splitLoop accountId filters
        (split ++ splitFiltersOf (runForest accountId op first f)) := by
  have hpos : 0 < 0 + (filtersOf (runOf f)).length := by
    have := length_pos_iff.2 hne
    omega
  have hscan := scan_run f filters 0 hcut hend hpos
  rw [filtersOf_runOf hlast, append_assoc, Nat.zero_add] at hscan
  rw [filtersOf_runOf hlast, append_assoc, splitLoop_run hne hscan,
    splitLoop_documents accountId filters _ _ (isDocuments_of_trailing f), hor, runForest,
    splitFiltersOf_leaf]
  simp [SplitFilter.ofToken]

/-- **The second pass computes `splitForest`.** -/
theorem splitLoop_splitForest (accountId : UInt64) :
    ∀ f op (first : Bool) filters
      (split : List SplitFilter), LeavesLast f → Boundary filters →
      decide (split.getLast? = some (.internal .or)) = (first && op = .or) →
      splitLoop accountId (filtersOf f ++ filters) split =
        splitLoop accountId filters (split ++ splitFiltersOf (splitForest accountId op first f))
  | .nil, _, _, _, _, _, _, _ => by simp [splitFiltersOf, Forest.tokens]
  | .leaf a rest, op, first, filters, split, hlast, hend, hor => by
    cases ha : a.isDocuments with
    | true =>
      obtain rfl : rest = .nil := hlast.1 ha
      rw [filtersOf_leaf, cons_append,
        splitLoop_single (by rw [scan_documents ha]; rfl), splitForest, if_pos ha, splitForest,
        splitFiltersOf_leaf]
      rfl
    | false =>
      have hcut : cutBelow (.leaf a rest) = false := cutBelow_of_operators_nil _ hlast.2.1
      rw [splitForest, if_neg (by simp [ha])]
      exact splitLoop_runForest hlast hcut (by simp [ha]) hend hor accountId
  | .group o members rest, op, first, filters, split, hlast, hend, hor => by
    rw [splitForest]
    cases hcut : cutBelow (.group o members rest) with
    | false => exact splitLoop_runForest hlast hcut (by simp) hend hor accountId
    | true =>
      have hscan := scan_cutBelow (.group o members rest) filters 0 hlast hcut
      rw [filtersOf_group, cons_append] at hscan
      have hopened : decide ((split ++ [SplitFilter.internal (.ofToken (.opening o))]).getLast? =
          some (.internal .or)) = (true && o = .or) := by
        cases o <;> simp [SearchFilter.ofToken]
      have hclosed (s : List SplitFilter) :
          decide ((s ++ [SplitFilter.internal .end_]).getLast? = some (.internal .or)) =
            (false && op = .or) := by
        simp
      rw [if_pos rfl, filtersOf_group, cons_append, splitLoop_single hscan,
        append_assoc, cons_append,
        splitLoop_splitForest accountId members o true _ _ hlast.1 (.inr ⟨_, rfl⟩) hopened,
        splitLoop_single rfl,
        splitLoop_splitForest accountId rest op false filters _ hlast.2 hend (hclosed _),
        splitFiltersOf_group]
      simp

/-! ### The shape after the first pass -/

theorem operators_leavesForest (as : List Operand) : (leavesForest as).operators = [] := by
  induction as with
  | nil => rfl
  | cons a as ih => rw [leavesForest, Forest.operators, ih]

theorem leavesLast_leavesForest (docs : Option Operand) (as : List Operand)
    (h : ∀ a ∈ as, a.isDocuments = false) :
    LeavesLast (leavesForest (as ++ docs.toList)) := by
  induction as with
  | nil => cases docs <;> simp [leavesForest, Forest.operators]
  | cons a as ih =>
    have ha : a.isDocuments = false := h a (by simp)
    rw [cons_append, leavesForest, LeavesLast, ha]
    exact ⟨by simp, operators_leavesForest _, ih fun b hb => h b (by simp [hb])⟩

theorem isDocuments_directOperators :
    ∀ f, ∀ a ∈ directOperators f, a.isDocuments = false
  | .nil, a, h => by simp at h
  | .leaf b rest, a, h => by
    rw [directOperators] at h
    rcases b with ⟨field, op, value⟩ | docs
    · split at h
      · rcases mem_cons.1 h with rfl | h
        · rfl
        · exact isDocuments_directOperators rest a h
      · exact isDocuments_directOperators rest a h
    · exact isDocuments_directOperators rest a h
  | .group _ _ rest, a, h => isDocuments_directOperators rest a h

theorem leavesLast_collectedLeaves (op : Option BoolOp) (f : Forest BoolOp Operand) :
    LeavesLast (leavesForest (collectedLeaves op f)) :=
  leavesLast_leavesForest _ _ (isDocuments_directOperators f)

theorem leavesLast_hoistGroups :
    ∀ f g, LeavesLast g → LeavesLast ((hoistGroups f).append g)
  | .nil, _, hg => hg
  | .leaf _ rest, g, hg => leavesLast_hoistGroups rest g hg
  | .group op members rest, g, hg =>
    ⟨leavesLast_hoistGroups members _ (leavesLast_collectedLeaves (some op) members),
      leavesLast_hoistGroups rest g hg⟩

/-- **`split_filters` computes the two passes on the expression.** -/
theorem splitFilters_expression :
    splitFilters (filtersOf f) =
      let accountId := (accountIds f).foldl (fun _ id => id) 0xFFFFFFFFFFFFFFFF
      if accountId = 0xFFFFFFFFFFFFFFFF then none
      else some (splitFiltersOf (splitForest accountId .and true (hoistLevel none f))) := by
  have hlast : LeavesLast (hoistLevel none f) :=
    leavesLast_hoistGroups f _ (leavesLast_collectedLeaves none f)
  have hloop (accountId : UInt64) :=
    splitLoop_splitForest accountId (hoistLevel none f) .and true [] [] hlast (.inl rfl) (by simp)
  simp only [append_nil, nil_append] at hloop
  rw [splitFilters_eq]
  simp only [hloop, splitLoop]

end MailServer.Search
