import MailServer.Search.Filter

/-!
# Evaluating a filter list

The stack machine that evaluates a filter list, in its three copies: `SearchQuery::filter`
(`store/src/search/local.rs`), `Store::query_account` and `Store::query_global`
(`store/src/search/query.rs`).  The loop is written once, `evalLoop`, with the reading of a
filter as a parameter; `filter`, `queryAccount` and `queryGlobal` are its three uses.

Principal results: `evalLoop_operands`, `mem_evalOperands`, `evaluation_denotational`.
-/

namespace MailServer.Search

open Bracketed

variable {ι ε : Type} [DecidableEq ι]

/-! ## The loop -/

/-- The group being evaluated: its operator and the operands merged so far. -/
structure State (ι : Type) where
  op : BoolOp
  bm : Option (Finset ι)

/-- What the head of the loop makes of a filter. -/
inductive Reading (ι : Type) where
  | result (bm : Option (Finset ι))
  | opening (op : BoolOp)
  | closing
  /-- `continue`: the filter is no operand. -/
  | skip

/-- "Apply logical operation": merge the result of one operand. -/
def applyOp (mask : Finset ι) :
    BoolOp → Option (Finset ι) → Option (Finset ι) → Finset ι
  | .and, some dest, some result => dest ∩ result
  | .and, some _, none => ∅
  | .or, some dest, some result => dest ∪ result
  | .or, some dest, none => dest
  | .not, some dest, some result => dest ∩ symmDiff result mask
  | .not, some dest, none => dest
  | .not, none, some result => symmDiff result mask
  | .not, none, none => mask
  | _, none, some result => result
  | _, none, none => ∅

/-- "And short circuit": the group is an `And` and nothing is left in it. -/
def State.shortCircuits (state : State ι) : Bool :=
  state.op = .and && state.bm = some ∅

/-- The evaluation loop. While `skipping`, the short circuit drops filters up to the next `End`,
whatever group that `End` closes. -/
def evalLoop (read : SearchFilter → Except ε (Reading ι)) (mask : Finset ι) :
    List SearchFilter → State ι → List (State ι) → Bool → Except ε (State ι)
  | [], state, _, _ => .ok state
  | filter :: filters, state, stack, skipping =>
    if skipping && filter ≠ .end_ then
      evalLoop read mask filters state stack true
    else
      match read filter with
      | .error e => .error e
      | .ok .skip => evalLoop read mask filters state stack false
      | .ok (.opening op) => evalLoop read mask filters ⟨op, none⟩ (state :: stack) false
      | .ok .closing =>
        match stack with
        | [] => .ok state
        | prev :: stack =>
          let next : State ι := ⟨prev.op, some (applyOp mask prev.op prev.bm state.bm)⟩
          evalLoop read mask filters next stack next.shortCircuits
      | .ok (.result bm) =>
        let next : State ι := ⟨state.op, some (applyOp mask state.op state.bm bm)⟩
        evalLoop read mask filters next stack next.shortCircuits

/-- The state before the first filter: the top level is an `And`. -/
def State.init : State ι := ⟨.and, none⟩

/-! ### Its three uses -/

/-- `SearchQuery::filter` reads document sets and skips operators. -/
def readLocal : SearchFilter → Except Empty (Reading UInt32)
  | .documentSet set => .ok (.result (some set))
  | .and => .ok (.opening .and)
  | .or => .ok (.opening .or)
  | .not => .ok (.opening .not)
  | .end_ => .ok .closing
  | .operator .. => .ok .skip

/-- `SearchQuery::filter`, the resulting document set. -/
def filter (filters : List SearchFilter) (mask : RoaringBitmap) : RoaringBitmap :=
  if filters = [] then mask
  else
    match evalLoop readLocal mask filters State.init [] false with
    | .ok state => state.bm.getD ∅ ∩ mask

/-- The bitmap an operator evaluates to against the index, or the error that ends the query. -/
abbrev OperatorEval (ι : Type) :=
  SearchField → SearchOperator → SearchValue → Except String (Option (Finset ι))

/-- `Store::query_account` evaluates operators, and skips the ones that name the account. -/
def readAccount (eval : OperatorEval UInt32) :
    SearchFilter → Except String (Reading UInt32)
  | .operator .accountId _ _ => .ok .skip
  | .operator field op value =>
    match eval field op value with
    | .ok bm => .ok (.result bm)
    | .error e => .error e
  | .documentSet set => .ok (.result (some set))
  | .and => .ok (.opening .and)
  | .or => .ok (.opening .or)
  | .not => .ok (.opening .not)
  | .end_ => .ok .closing

/-- The account a query is about: the value of its first `AccountId` operator with an
unsigned value. -/
def accountIdOf : List SearchFilter → Option UInt64
  | [] => none
  | .operator .accountId _ (.uint id) :: _ => some id
  | _ :: filters => accountIdOf filters

/-- `Store::query_account` up to the sorting of its results; `eval` evaluates an operator
within the given account. -/
def queryAccount (eval : UInt32 → OperatorEval UInt32) (filters : List SearchFilter)
    (mask : RoaringBitmap) : Except String RoaringBitmap :=
  let accountId : UInt32 := (accountIdOf filters).elim 0xFFFFFFFF UInt64.toUInt32
  if accountId = 0xFFFFFFFF then
    .error "Account ID must be specified before other filters"
  else if filters.length > 1 then
    match evalLoop (readAccount (eval accountId)) mask filters State.init [] false with
    | .ok state => .ok (state.bm.getD ∅ ∩ mask)
    | .error e => .error e
  else .ok mask

/-- `Store::query_global` evaluates operators only; it has no `Not` and no document sets. -/
def readGlobal (eval : OperatorEval UInt64) :
    SearchFilter → Except String (Reading UInt64)
  | .operator field op value =>
    match eval field op value with
    | .ok bm => .ok (.result bm)
    | .error e => .error e
  | .documentSet _ => .error "Unsupported filter in global search"
  | .not => .error "Unsupported filter in global search"
  | .and => .ok (.opening .and)
  | .or => .ok (.opening .or)
  | .end_ => .ok .closing

/-- `Store::query_global` up to the sorting of its results.  There is no mask: only a `Not`
would read it. -/
def queryGlobal (eval : OperatorEval UInt64) (filters : List SearchFilter) :
    Except String RoaringTreemap :=
  match evalLoop (readGlobal eval) ∅ filters State.init [] false with
  | .ok state => .ok (state.bm.getD ∅)
  | .error e => .error e

/-! ## The expression behind a filter list -/

/-- Evaluate the operands of a group one after the other, without any short circuit. -/
def evalOperands (mask : Finset ι) (leaf : Operand → Option (Finset ι)) :
    BoolOp → Option (Finset ι) → Forest BoolOp Operand → Option (Finset ι)
  | _, bm, .nil => bm
  | op, bm, .leaf a rest => evalOperands mask leaf op (some (applyOp mask op bm (leaf a))) rest
  | op, bm, .group o members rest =>
    evalOperands mask leaf op
      (some (applyOp mask op bm (evalOperands mask leaf o none members))) rest

/-- No short circuit runs into a group: where the operands so far leave an `And` empty, no group
follows in it, unless only `And`s (`conj`) are around it and the whole query is empty anyway. -/
def shortCircuitSafe (mask : Finset ι) (leaf : Operand → Option (Finset ι)) :
    Bool → BoolOp → Option (Finset ι) → Forest BoolOp Operand → Bool
  | _, _, _, .nil => true
  | conj, op, bm, .leaf a rest =>
    shortCircuitSafe mask leaf conj op (some (applyOp mask op bm (leaf a))) rest
  | conj, op, bm, .group o members rest =>
    if op = .and ∧ bm = some ∅ then conj
    else
      shortCircuitSafe mask leaf (conj && o = .and) o none members &&
        shortCircuitSafe mask leaf conj op
          (some (applyOp mask op bm (evalOperands mask leaf o none members))) rest

/-- The filters of an expression are read as its leaves and operators. -/
structure ReadsAs (read : SearchFilter → Except ε (Reading ι)) (leaf : Operand → Option (Finset ι))
    (f : Forest BoolOp Operand) : Prop where
  leaves : ∀ a ∈ f.leaves, read (.ofToken (.leaf a)) = .ok (.result (leaf a))
  operators : ∀ op ∈ f.operators, read (.ofToken (.opening op)) = .ok (.opening op)
  closing : read .end_ = .ok .closing

section Loop

variable {read : SearchFilter → Except ε (Reading ι)} {mask : Finset ι}
  {leaf : Operand → Option (Finset ι)}

omit [DecidableEq ι] in
theorem ReadsAs.tail_leaf {a : Operand} {rest}
    (h : ReadsAs read leaf (.leaf a rest)) : ReadsAs read leaf rest :=
  ⟨fun b hb => h.leaves b (by simp [Forest.leaves, hb]), h.operators, h.closing⟩

omit [DecidableEq ι] in
theorem ReadsAs.members {op : BoolOp} {members rest}
    (h : ReadsAs read leaf (.group op members rest)) : ReadsAs read leaf members :=
  ⟨fun b hb => h.leaves b (by simp [Forest.leaves, hb]),
    fun o ho => h.operators o (by simp [Forest.operators, ho]), h.closing⟩

omit [DecidableEq ι] in
theorem ReadsAs.tail_group {op : BoolOp} {members rest}
    (h : ReadsAs read leaf (.group op members rest)) : ReadsAs read leaf rest :=
  ⟨fun b hb => h.leaves b (by simp [Forest.leaves, hb]),
    fun o ho => h.operators o (by simp [Forest.operators, ho]), h.closing⟩

/-! ### One filter -/

section
variable {filter : SearchFilter}

attribute [local simp] evalLoop

theorem evalLoop_skipping (hend : filter ≠ .end_)
    (filters : List SearchFilter) (state : State ι) (stack : List (State ι)) :
    evalLoop read mask (filter :: filters) state stack true =
      evalLoop read mask filters state stack true := by
  simp [hend]

theorem evalLoop_skip (hread : read filter = .ok .skip)
    (filters : List SearchFilter) (state : State ι) (stack : List (State ι)) :
    evalLoop read mask (filter :: filters) state stack false =
      evalLoop read mask filters state stack false := by
  simp [hread]

theorem evalLoop_opening {op : BoolOp} (hread : read filter = .ok (.opening op))
    (filters : List SearchFilter) (state : State ι) (stack : List (State ι)) :
    evalLoop read mask (filter :: filters) state stack false =
      evalLoop read mask filters ⟨op, none⟩ (state :: stack) false := by
  simp [hread]

/-- The state behind an operand. -/
def State.merge (mask : Finset ι) (state : State ι) (result : Option (Finset ι)) : State ι :=
  ⟨state.op, some (applyOp mask state.op state.bm result)⟩

theorem evalLoop_result {result} (hread : read filter = .ok (.result result))
    (filters : List SearchFilter) (state : State ι) (stack : List (State ι)) :
    evalLoop read mask (filter :: filters) state stack false =
      evalLoop read mask filters (state.merge mask result) stack
        (state.merge mask result).shortCircuits := by
  simp [hread, State.merge]

theorem evalLoop_closing (hclosing : read .end_ = .ok .closing) (filters : List SearchFilter)
    (state prev : State ι) (stack : List (State ι)) (skipping : Bool) :
    evalLoop read mask (.end_ :: filters) state (prev :: stack) skipping =
      evalLoop read mask filters (prev.merge mask state.bm) stack
        (prev.merge mask state.bm).shortCircuits := by
  simp [hclosing, State.merge]

theorem evalLoop_closing_top (hclosing : read .end_ = .ok .closing) (filters : List SearchFilter)
    (state : State ι) (skipping : Bool) :
    evalLoop read mask (.end_ :: filters) state [] skipping = .ok state := by
  simp [hclosing]

end

/-! ### Runs of the loop -/

theorem evalLoop_filter (keep : SearchFilter → Bool)
    (hskip : ∀ filter, keep filter = false → read filter = .ok .skip ∧ filter ≠ .end_) :
    ∀ filters state (stack : List (State ι)) (skipping : Bool),
      evalLoop read mask filters state stack skipping =
        evalLoop read mask (filters.filter keep) state stack skipping
  | [], _, _, _ => rfl
  | filter :: filters, state, stack, skipping => by
    have ih := evalLoop_filter keep hskip filters
    by_cases hkeep : keep filter
    · rw [List.filter_cons_of_pos hkeep, evalLoop.eq_def, evalLoop.eq_def _ _ (_ :: _)]
      simp only [ih]
    · have hkeep : keep filter = false := by simpa using hkeep
      obtain ⟨hread, hend⟩ := hskip filter hkeep
      rw [List.filter_cons_of_neg (by simp [hkeep])]
      cases skipping with
      | false => rw [evalLoop_skip hread, ih]
      | true => rw [evalLoop_skipping hend, ih]

/-- An empty bitmap stays empty under `And`. -/
theorem applyOp_and_empty (result : Option (Finset ι)) :
    applyOp mask .and (some ∅) result = ∅ := by
  cases result <;> simp [applyOp]

theorem applyOp_and_of_empty (bm : Option (Finset ι)) :
    applyOp mask .and bm (some ∅) = ∅ := by
  cases bm <;> simp [applyOp]

/-- Once an `And` below `And`s only is empty, the query is: the inner loop skips to the next `End`
and the empty bitmap moves outwards. -/
theorem evalLoop_dead (hclosing : read .end_ = .ok .closing) :
    ∀ filters (stack : List (State ι)),
      (∀ s ∈ stack, s.op = .and) →
      ∃ state, evalLoop read mask filters ⟨.and, some ∅⟩ stack true = .ok state ∧
        state.bm = some ∅
  | [], _, _ => ⟨_, rfl, rfl⟩
  | filter :: filters, stack, hstack => by
    by_cases hend : filter = .end_
    · subst hend
      cases stack with
      | nil => exact ⟨_, evalLoop_closing_top hclosing _ _ _, rfl⟩
      | cons prev stack =>
        have hop : prev.op = .and := hstack prev (by simp)
        have hmerge : prev.merge mask (some ∅) = ⟨.and, some ∅⟩ := by
          simp [State.merge, hop, applyOp_and_of_empty]
        rw [evalLoop_closing hclosing, hmerge]
        exact evalLoop_dead hclosing filters stack fun s hs => hstack s (by simp [hs])
    · rw [evalLoop_skipping hend]
      exact evalLoop_dead hclosing filters stack hstack

theorem evalOperands_empty :
    ∀ f, evalOperands mask leaf .and (some ∅) f = some ∅
  | .nil => rfl
  | .leaf a rest => by rw [evalOperands, applyOp_and_empty, evalOperands_empty rest]
  | .group o members rest => by rw [evalOperands, applyOp_and_empty, evalOperands_empty rest]

variable (mask leaf) in
theorem evalOperands_isSome (op : BoolOp) :
    ∀ f (bm : Option (Finset ι)),
      bm.isSome ∨ f ≠ .nil → (evalOperands mask leaf op bm f).isSome
  | .nil, _, h => by simpa [evalOperands] using h
  | .leaf _ rest, _, _ => evalOperands_isSome op rest _ (.inl rfl)
  | .group _ _ rest, _, _ => evalOperands_isSome op rest _ (.inl rfl)

/-- **The loop follows the expression.** On filters whose short circuits are safe, it arrives behind
them with the evaluated operands, or has found, below `And`s only, that the whole query is empty. -/
theorem evalLoop_operands :
    ∀ f conj op (bm : Option (Finset ι))
      (filters : List SearchFilter) (stack : List (State ι)),
      ReadsAs read leaf f → shortCircuitSafe mask leaf conj op bm f →
      (conj → op = .and ∧ ∀ s ∈ stack, s.op = .and) →
      let after : State ι := ⟨op, evalOperands mask leaf op bm f⟩
      let run := evalLoop read mask (filtersOf f ++ filters) ⟨op, bm⟩ stack
        (State.shortCircuits ⟨op, bm⟩)
      run = evalLoop read mask filters after stack after.shortCircuits ∨
        (conj ∧ after.bm = some ∅ ∧ ∃ state, run = .ok state ∧ state.bm = some ∅)
  | .nil, _, _, _, _, _, _, _, _ => .inl rfl
  | .leaf a rest, conj, op, bm, filters, stack, hread, hsafe, hconj => by
    have ih := evalLoop_operands rest conj op (some (applyOp mask op bm (leaf a))) filters stack
      hread.tail_leaf hsafe hconj
    have ha := hread.leaves a (by simp [Forest.leaves])
    by_cases hshort : State.shortCircuits (⟨op, bm⟩ : State ι)
    · -- the leaf is dropped, and merging it would have changed nothing
      obtain ⟨rfl, rfl⟩ : op = .and ∧ bm = some ∅ := by
        simpa [State.shortCircuits] using hshort
      have hend : SearchFilter.ofToken (.leaf a) ≠ .end_ := by
        cases a <;> simp [SearchFilter.ofToken]
      have htrue : State.shortCircuits (⟨.and, some ∅⟩ : State ι) := by
        simp [State.shortCircuits]
      simp only [evalOperands, applyOp_and_empty, htrue] at ih ⊢
      rw [filtersOf_leaf, List.cons_append, evalLoop_skipping hend]
      exact ih
    · simp only [hshort]
      rw [filtersOf_leaf, List.cons_append, evalLoop_result ha]
      exact ih
  | .group o members rest, conj, op, bm, filters, stack, hread, hsafe, hconj => by
    rw [shortCircuitSafe] at hsafe
    by_cases hshort : op = .and ∧ bm = some ∅
    · -- the skip may run into this group, but the query is already known to be empty
      obtain ⟨-, hstack⟩ := hconj (by simpa [hshort] using hsafe)
      obtain ⟨rfl, rfl⟩ := hshort
      refine .inr ⟨by simpa using hsafe, evalOperands_empty _, ?_⟩
      exact evalLoop_dead hread.closing _ stack hstack
    · have hfalse : State.shortCircuits (⟨op, bm⟩ : State ι) = false := by
        simpa [State.shortCircuits] using hshort
      rw [if_neg hshort, Bool.and_eq_true] at hsafe
      obtain ⟨hmembers, hrest⟩ := hsafe
      have ihMembers := evalLoop_operands members (conj && o = .and) o none
        (.end_ :: (filtersOf rest ++ filters)) (⟨op, bm⟩ :: stack) hread.members hmembers
        (fun h => by
          obtain ⟨hc, ho⟩ : conj ∧ o = .and := by simpa using h
          simpa [ho] using hconj hc)
      have ihRest := evalLoop_operands rest conj op
        (some (applyOp mask op bm (evalOperands mask leaf o none members))) filters stack
        hread.tail_group hrest hconj
      have hnew : State.shortCircuits (⟨o, none⟩ : State ι) = false := by
        simp [State.shortCircuits]
      simp only [hnew] at ihMembers
      simp only [hfalse]
      rw [filtersOf_group, List.cons_append, List.append_assoc, List.cons_append,
        evalLoop_opening (hread.operators o (by simp [Forest.operators]))]
      rcases ihMembers with hrun | ⟨hc, hempty, hdead⟩
      · rw [hrun, evalLoop_closing hread.closing]
        exact ihRest
      · -- the members are empty below `And`s only
        obtain ⟨hc, -⟩ : conj ∧ o = .and := by simpa using hc
        obtain ⟨rfl, -⟩ := hconj hc
        refine .inr ⟨hc, ?_, hdead⟩
        simp only [evalOperands, hempty, applyOp_and_of_empty, evalOperands_empty]

theorem evalLoop_expression {f} (hread : ReadsAs read leaf f)
    (hsafe : shortCircuitSafe mask leaf true .and none f) :
    ∃ state, evalLoop read mask (filtersOf f) State.init [] false = .ok state ∧
      state.bm = evalOperands mask leaf .and none f := by
  have h := evalLoop_operands f true .and none [] [] hread hsafe (fun _ => by simp)
  have hinit : State.shortCircuits (⟨.and, none⟩ : State ι) = false := by
    simp [State.shortCircuits]
  simp only [List.append_nil] at h
  rcases h with hrun | ⟨-, hempty, state, hrun, hbm⟩
  · exact ⟨⟨.and, evalOperands mask leaf .and none f⟩, hrun, rfl⟩
  · exact ⟨state, hrun, hbm.trans hempty.symm⟩

end Loop

/-! ## The meaning of the expression -/

section Meaning

variable {mask : Finset ι} {leaf : Operand → Option (Finset ι)}

/-- The documents an operand stands for; no bitmap means no documents. -/
def leafDocuments (leaf : Operand → Option (Finset ι)) (a : Operand) : Set ι :=
  ↑((leaf a).getD ∅)

/-- The meaning of a query below its mask, in which negations are complements. -/
def meaning (mask : Finset ι) (leaf : Operand → Option (Finset ι)) (f : Forest BoolOp Operand) :
    Set ι :=
  f.value ↑mask (leafDocuments leaf) .and

/-- A document is in the operands merged so far; before the first one all are in `And` and `Not`,
none in `Or`. -/
def Merged (op : BoolOp) (bm : Option (Finset ι)) (d : ι) : Prop :=
  match bm with
  | some dest => d ∈ dest
  | none => op ≠ .or

/-- How membership in an operand enters the group. -/
def joins : BoolOp → Prop → Prop → Prop
  | .and, merged, operand => merged ∧ operand
  | .or, merged, operand => merged ∨ operand
  | .not, merged, operand => merged ∧ ¬operand

/-- How membership in further operands enters the group. -/
def joinsAll : BoolOp → Prop → Prop → Prop
  | .or, merged, operands => merged ∨ operands
  | _, merged, operands => merged ∧ operands

theorem mem_applyOp {d : ι} {op : BoolOp} (hd : op = .not → d ∈ mask)
    (bm result : Option (Finset ι)) :
    d ∈ applyOp mask op bm result ↔ joins op (Merged op bm d) (d ∈ result.getD ∅) := by
  cases op <;> cases bm <;> cases result <;>
    simp_all [applyOp, joins, Merged, Finset.mem_symmDiff]

/-- **`evalOperands` computes the meaning of the operands**, for the documents of the mask; the
mask matters for negations only. -/
theorem mem_evalOperands {d : ι} :
    ∀ f op (bm : Option (Finset ι)), f.full →
      (op = .not ∨ .not ∈ f.operators → d ∈ mask) →
      (Merged op (evalOperands mask leaf op bm f) d ↔
        joinsAll op (Merged op bm d) (d ∈ f.value ↑mask (leafDocuments leaf) op))
  | .nil, op, bm, _, hd => by
    cases op <;> simp_all [evalOperands, Forest.value, joinsAll]
  | .leaf a rest, op, bm, hfull, hd => by
    rw [evalOperands, mem_evalOperands rest op _ hfull hd]
    have happly := mem_applyOp (fun h => hd (.inl h)) bm (leaf a)
    cases op <;>
      simp only [Merged, joinsAll, joins, happly, Forest.value, leafDocuments, Set.mem_inter_iff,
        Set.mem_union, Set.mem_sdiff, Finset.mem_coe] <;> tauto
  | .group o members rest, op, bm, hfull, hd => by
    obtain ⟨hne, hmembers, hrest⟩ := (Forest.full_group o members rest).1 hfull
    simp only [Forest.operators, List.mem_cons, List.mem_append] at hd
    -- the bitmap the group is popped with
    obtain ⟨result, hresult⟩ :=
      Option.isSome_iff_exists.1 (evalOperands_isSome mask leaf o members
        none (.inr hne))
    have hgroup : d ∈ result ↔ d ∈ members.value ↑mask (leafDocuments leaf) o := by
      have ih := mem_evalOperands members o none hmembers fun h => hd (by tauto)
      rw [hresult] at ih
      cases o <;> simpa [Merged, joinsAll] using ih
    rw [evalOperands, mem_evalOperands rest op _ hrest fun h => hd (by tauto), hresult]
    have happly := mem_applyOp (fun h => hd (.inl h)) bm (some result)
    cases op <;>
      simp only [Merged, joinsAll, joins, happly, Forest.value, Set.mem_inter_iff, Set.mem_union,
        Set.mem_sdiff] <;> tauto

theorem mem_evalOperands_top {d : ι} {f} (hfull : f.full)
    (hne : f ≠ .nil) (hd : .not ∈ f.operators → d ∈ mask) :
    d ∈ (evalOperands mask leaf .and none f).getD ∅ ↔ d ∈ meaning mask leaf f := by
  obtain ⟨result, hresult⟩ :=
    Option.isSome_iff_exists.1 (evalOperands_isSome mask leaf .and f none
      (.inr hne))
  have h : Merged .and (evalOperands mask leaf .and none f) d ↔ joinsAll .and (Merged .and none d)
      (d ∈ f.value ↑mask (leafDocuments leaf) .and) :=
    mem_evalOperands f .and none hfull fun h => hd (by simpa using h)
  simpa [hresult, Merged, joinsAll, meaning] using h

theorem evalOperands_meaning {f} (hfull : f.full) (hne : f ≠ .nil) :
    (↑((evalOperands mask leaf .and none f).getD ∅ ∩ mask) : Set ι) =
      ↑mask ∩ meaning mask leaf f := by
  ext d
  simp only [Finset.coe_inter, Set.mem_inter_iff]
  rw [and_comm]
  exact and_congr_right fun hd => mem_evalOperands_top hfull hne fun _ => hd

end Meaning

/-! ## The three queries -/

/-- `SearchQuery::filter` takes document sets as its operands. -/
def SearchFilter.isLocal : SearchFilter → Bool
  | .operator .. => false
  | _ => true

/-- `Store::query_account` takes all filters as operands but those that name the account. -/
def SearchFilter.isQueried : SearchFilter → Bool
  | .operator .accountId _ _ => false
  | _ => true

def operandBitmap (results : SearchField → SearchOperator → SearchValue → Option RoaringBitmap) :
    Operand → Option RoaringBitmap
  | .operator field op value => results field op value
  | .documentSet set => some set

/-- The treemap of an operand; there are no document sets in a global query. -/
def operandTreemap (results : SearchField → SearchOperator → SearchValue → Option RoaringTreemap) :
    Operand → Option RoaringTreemap
  | .operator field op value => results field op value
  | .documentSet _ => none

section

variable {f : Forest BoolOp Operand}

theorem ofToken_mem_filtersOf {t} (h : t ∈ f.tokens) :
    SearchFilter.ofToken t ∈ filtersOf f :=
  List.mem_map_of_mem h

theorem readsAs_local {filters : List SearchFilter}
    (hf : filters.filter SearchFilter.isLocal = filtersOf f) :
    ReadsAs readLocal (operandBitmap fun _ _ _ => none) f where
  leaves := by
    intro a ha
    have hmem := ofToken_mem_filtersOf ((Forest.mem_leaves_iff a f).1 ha)
    rw [← hf] at hmem
    have hlocal := (List.mem_filter.1 hmem).2
    cases a with
    | operator field op value => simp [SearchFilter.ofToken, SearchFilter.isLocal] at hlocal
    | documentSet set => rfl
  operators := by rintro (_ | _ | _) _ <;> rfl
  closing := rfl

theorem readsAs_account {eval}
    {results}
    {filters : List SearchFilter} (hf : filters.filter SearchFilter.isQueried = filtersOf f)
    (heval : ∀ field op value, Operand.operator field op value ∈ f.leaves →
      eval field op value = .ok (results field op value)) :
    ReadsAs (readAccount eval) (operandBitmap results) f where
  leaves := by
    intro a ha
    have hmem := ofToken_mem_filtersOf ((Forest.mem_leaves_iff a f).1 ha)
    rw [← hf] at hmem
    have hqueried := (List.mem_filter.1 hmem).2
    cases a with
    | operator field op value =>
      cases field <;>
        simp_all [SearchFilter.ofToken, SearchFilter.isQueried, readAccount, operandBitmap]
    | documentSet set => rfl
  operators := by rintro (_ | _ | _) _ <;> rfl
  closing := rfl

theorem readsAs_global {eval}
    {results}
    (hnot : .not ∉ f.operators) (hdocs : ∀ set, Operand.documentSet set ∉ f.leaves)
    (heval : ∀ field op value, Operand.operator field op value ∈ f.leaves →
      eval field op value = .ok (results field op value)) :
    ReadsAs (readGlobal eval) (operandTreemap results) f where
  leaves := by
    intro a ha
    cases a with
    | operator field op value =>
      simp [SearchFilter.ofToken, readGlobal, operandTreemap, heval field op value ha]
    | documentSet set => cases hdocs set ha
  operators := by
    intro op hop
    cases op with
    | and | or => rfl
    | not => cases hnot hop
  closing := rfl

theorem filter_meaning {filters} {mask : RoaringBitmap}
    (hf : expression (filters.filter SearchFilter.isLocal) = some f) (hfull : f.full)
    (hnil : f = .nil → filters = [])
    (hsafe : shortCircuitSafe mask (operandBitmap fun _ _ _ => none) true .and none f) :
    (↑(filter filters mask) : Set UInt32) =
      ↑mask ∩ meaning mask (operandBitmap fun _ _ _ => none) f := by
  rw [expression_eq_some_iff] at hf
  unfold filter
  split_ifs with hempty
  · have : f = .nil := by cases f <;> simp_all [filtersOf, Forest.tokens]
    simp [this, meaning, Forest.value]
  · have hskip : ∀ t, SearchFilter.isLocal t = false → readLocal t = .ok .skip ∧ t ≠ .end_ := by
      intro t ht
      cases t <;> simp_all [readLocal, SearchFilter.isLocal]
    obtain ⟨state, hrun, hbm⟩ := evalLoop_expression (readsAs_local hf) hsafe
    rw [evalLoop_filter SearchFilter.isLocal hskip, hf, hrun]
    simp only [hbm]
    exact evalOperands_meaning hfull fun h => hempty (hnil h)

theorem queryAccount_meaning {eval}
    {results}
    {filters} {mask : RoaringBitmap} {id : UInt64}
    (hid : accountIdOf filters = some id) (hvalid : id.toUInt32 ≠ 0xFFFFFFFF)
    (hf : expression (filters.filter SearchFilter.isQueried) = some f) (hfull : f.full)
    (hnil : f = .nil → filters.length = 1)
    (heval : ∀ field op value, Operand.operator field op value ∈ f.leaves →
      eval id.toUInt32 field op value = .ok (results field op value))
    (hsafe : shortCircuitSafe mask (operandBitmap results) true .and none f) :
    ∃ found, queryAccount eval filters mask = .ok found ∧
      (↑found : Set UInt32) = ↑mask ∩ meaning mask (operandBitmap results) f := by
  rw [expression_eq_some_iff] at hf
  have hskip : ∀ t, SearchFilter.isQueried t = false →
      readAccount (eval id.toUInt32) t = .ok .skip ∧ t ≠ .end_ := by
    intro t ht
    cases t with
    | operator field op value => cases field <;> simp_all [readAccount, SearchFilter.isQueried]
    | _ => simp [SearchFilter.isQueried] at ht
  unfold queryAccount
  simp only [hid, Option.elim_some, if_neg hvalid]
  split_ifs with hlen
  · obtain ⟨state, hrun, hbm⟩ := evalLoop_expression (readsAs_account hf heval) hsafe
    rw [evalLoop_filter SearchFilter.isQueried hskip, hf, hrun]
    refine ⟨_, rfl, ?_⟩
    rw [hbm]
    exact evalOperands_meaning hfull fun h => absurd (hnil h) (by omega)
  · -- the only filter is the one that names the account
    refine ⟨mask, rfl, ?_⟩
    have hf' : f = .nil := by
      match filters, hid with
      | [.operator .accountId op (.uint id)], _ =>
        cases f <;> simp_all [SearchFilter.isQueried, filtersOf, Forest.tokens]
      | filter :: _ :: _, _ => simp at hlen
    simp [hf', meaning, Forest.value]

theorem queryGlobal_meaning {eval : OperatorEval UInt64}
    {results}
    {filters} (hf : expression filters = some f) (hfull : f.full)
    (hne : f ≠ .nil) (hnot : .not ∉ f.operators) (hdocs : ∀ set, Operand.documentSet set ∉ f.leaves)
    (heval : ∀ field op value, Operand.operator field op value ∈ f.leaves →
      eval field op value = .ok (results field op value))
    (hsafe : shortCircuitSafe ∅ (operandTreemap results) true .and none f) :
    ∃ found, queryGlobal eval filters = .ok found ∧
      (↑found : Set UInt64) = meaning ∅ (operandTreemap results) f := by
  rw [expression_eq_some_iff] at hf
  obtain ⟨state, hrun, hbm⟩ := evalLoop_expression (readsAs_global hnot hdocs heval) hsafe
  unfold queryGlobal
  rw [hf, hrun]
  refine ⟨_, rfl, ?_⟩
  ext d
  rw [hbm]
  exact mem_evalOperands_top hfull hne fun h => absurd h hnot

end

/-- **The three evaluation loops are denotational** wherever no short circuit runs into a group
below an `Or` or a `Not`: each returns the documents of the mask that the expression stands for. -/
theorem evaluation_denotational (filters : List SearchFilter) :
    (∀ (mask : RoaringBitmap) (f : Forest BoolOp Operand),
      expression (filters.filter SearchFilter.isLocal) = some f → f.full →
      (f = .nil → filters = []) →
      shortCircuitSafe mask (operandBitmap fun _ _ _ => none) true .and none f →
      (↑(filter filters mask) : Set UInt32) =
        ↑mask ∩ meaning mask (operandBitmap fun _ _ _ => none) f) ∧
    (∀ (eval : UInt32 → OperatorEval UInt32)
      (results : SearchField → SearchOperator → SearchValue → Option RoaringBitmap)
      (mask : RoaringBitmap) (id : UInt64) (f : Forest BoolOp Operand),
      accountIdOf filters = some id → id.toUInt32 ≠ 0xFFFFFFFF →
      expression (filters.filter SearchFilter.isQueried) = some f → f.full →
      (f = .nil → filters.length = 1) →
      (∀ field op value, Operand.operator field op value ∈ f.leaves →
        eval id.toUInt32 field op value = .ok (results field op value)) →
      shortCircuitSafe mask (operandBitmap results) true .and none f →
      ∃ found, queryAccount eval filters mask = .ok found ∧
        (↑found : Set UInt32) = ↑mask ∩ meaning mask (operandBitmap results) f) ∧
    (∀ (eval : OperatorEval UInt64)
      (results : SearchField → SearchOperator → SearchValue → Option RoaringTreemap)
      (f : Forest BoolOp Operand),
      expression filters = some f → f.full → f ≠ .nil → .not ∉ f.operators →
      (∀ set, Operand.documentSet set ∉ f.leaves) →
      (∀ field op value, Operand.operator field op value ∈ f.leaves →
        eval field op value = .ok (results field op value)) →
      shortCircuitSafe ∅ (operandTreemap results) true .and none f →
      ∃ found, queryGlobal eval filters = .ok found ∧
        (↑found : Set UInt64) = meaning ∅ (operandTreemap results) f) := by
  refine ⟨fun _ _ hf hfull hnil hsafe => filter_meaning hf hfull hnil hsafe,
    fun _ _ _ _ _ hid hvalid hf hfull hnil heval hsafe => ?_,
    fun _ _ _ hf hfull hne hnot hdocs heval hsafe => ?_⟩
  · exact queryAccount_meaning hid hvalid hf hfull hnil heval hsafe
  · exact queryGlobal_meaning hf hfull hne hnot hdocs heval hsafe

/-- `({} ∨ ({1} ∧ {2})) ∧ ({1} ∨ {2})`: the inner `And` comes out empty, but no group follows in
it. -/
theorem evaluation_denotational_nested :
    (↑(filter [.or, .documentSet ∅, .and, .documentSet {1}, .documentSet {2}, .end_, .end_,
      .or, .documentSet {1}, .documentSet {2}, .end_] {1, 2}) : Set UInt32) =
      ↑({1, 2} : RoaringBitmap) ∩ meaning {1, 2} (operandBitmap fun _ _ _ => none)
        (.group .or (.leaf (.documentSet ∅) (.group .and (.leaf (.documentSet {1})
          (.leaf (.documentSet {2}) .nil)) .nil)) (.group .or (.leaf (.documentSet {1})
          (.leaf (.documentSet {2}) .nil)) .nil)) :=
  (evaluation_denotational _).1 _ _ rfl rfl (by simp) (by decide)

/-- `({} ∧ ({1})) ∨ {2}`: the empty `And` skips to the `End` of the group inside it, the groups
around it are closed one level too early, and the result is empty instead of `{2}`. -/
theorem filter_skips_into_group :
    expression [.or, .and, .documentSet ∅, .or, .documentSet {1}, .end_, .end_,
      .documentSet {2}, .end_] = some
        (.group .or (.group .and (.leaf (.documentSet ∅) (.group .or
          (.leaf (.documentSet {1}) .nil) .nil)) (.leaf (.documentSet {2}) .nil)) .nil) ∧
    (↑(filter [.or, .and, .documentSet ∅, .or, .documentSet {1}, .end_, .end_,
      .documentSet {2}, .end_] {1, 2}) : Set UInt32) ≠
      ↑({1, 2} : RoaringBitmap) ∩ meaning {1, 2} (operandBitmap fun _ _ _ => none)
        (.group .or (.group .and (.leaf (.documentSet ∅) (.group .or
          (.leaf (.documentSet {1}) .nil) .nil)) (.leaf (.documentSet {2}) .nil)) .nil) := by
  refine ⟨rfl, fun h => ?_⟩
  have hresult : filter [.or, .and, .documentSet ∅, .or, .documentSet {1}, .end_, .end_,
      .documentSet {2}, .end_] {1, 2} = ∅ := by decide
  have hmem : (2 : UInt32) ∈ (↑({1, 2} : RoaringBitmap) ∩
      meaning {1, 2} (operandBitmap fun _ _ _ => none)
        (.group .or (.group .and (.leaf (.documentSet ∅) (.group .or
          (.leaf (.documentSet {1}) .nil) .nil)) (.leaf (.documentSet {2}) .nil)) .nil) :
      Set UInt32) := by
    simp [meaning, Forest.value, leafDocuments, operandBitmap]
  rw [← h, hresult] at hmem
  simp at hmem

end MailServer.Search
