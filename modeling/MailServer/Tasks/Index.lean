import MailServer.Lib.InsertionMap
import MailServer.Search.Filter
import MailServer.Store.ValueClass

/-!
# Index tasks

`Server::index` (`services/src/task_manager/index.rs`) and the worker that calls it
(`services/src/task_manager/mod.rs`): a batch of search index tasks is worked off in three stages,
and the tasks whose results are done are removed from the queue.

Principal results: `selects_deletionQuery`, `honest_iff`.
-/

namespace MailServer.Tasks

open MailServer.Search Bracketed List
open MailServer.Store (SearchIndex)

/-! ## Unindexing -/

/-- The documents of one account, by account. -/
abbrev Documents := InsertionMap UInt32 (List UInt32)

/-- `SearchFilter::eq` with a 32-bit id. -/
def eqId (field : SearchField) (id : UInt32) : SearchFilter :=
  .operator field .equal (.uint id.toUInt64)

def accountFilters (account : UInt32 × List UInt32) : List SearchFilter :=
  [.and, eqId .accountId account.1] ++ (if 1 < account.2.length then [.or] else []) ++
    account.2.map (eqId .documentId) ++ (if 1 < account.2.length then [.end_] else []) ++ [.end_]

/-- The filters of the query built for one index. -/
def deletionQuery (accounts : Documents) : List SearchFilter :=
  (if 1 < accounts.length then [.or] else []) ++ accounts.flatMap accountFilters ++
    if 1 < accounts.length then [.end_] else []

/-- The documents that an operand stands for, each with its account. -/
def operandSet : Operand → Set (UInt32 × UInt32)
  | .operator .accountId .equal (.uint id) => {p | p.1.toUInt64 = id}
  | .operator .documentId .equal (.uint id) => {p | p.2.toUInt64 = id}
  | _ => ∅

/-- The query is an expression, and the document of the account is in its meaning. -/
def Selects (filters : List SearchFilter) (accountId documentId : UInt32) : Prop :=
  ∃ f, expression filters = some f ∧
    (accountId, documentId) ∈ f.value Set.univ operandSet .and

def eqLeaf (field : SearchField) (id : UInt32) : Operand :=
  .operator field .equal (.uint id.toUInt64)

def documentsForest (documentIds : List UInt32) : Forest BoolOp Operand :=
  documentIds.foldr (fun id rest => .leaf (eqLeaf .documentId id) rest) .nil

/-- The operand that the filters of one account stand for. -/
def accountForest (account : UInt32 × List UInt32) (rest : Forest BoolOp Operand) :
    Forest BoolOp Operand :=
  .group .and
    (.leaf (eqLeaf .accountId account.1)
      (if 1 < account.2.length then .group .or (documentsForest account.2) .nil
        else documentsForest account.2))
    rest

theorem filtersOf_documentsForest (documentIds : List UInt32) :
    filtersOf (documentsForest documentIds) = documentIds.map (eqId .documentId) := by
  induction documentIds with
  | nil => rfl
  | cons id rest ih =>
    change filtersOf (.leaf (eqLeaf .documentId id) (documentsForest rest)) = _
    rw [filtersOf_leaf, ih]
    rfl

theorem filtersOf_accountForest (account : UInt32 × List UInt32) (rest : Forest BoolOp Operand) :
    filtersOf (accountForest account rest) = accountFilters account ++ filtersOf rest := by
  unfold accountForest accountFilters
  rw [filtersOf_group, filtersOf_leaf]
  split
  · rw [filtersOf_group, filtersOf_documentsForest]
    simp [SearchFilter.ofToken, eqLeaf, eqId]
  · rw [filtersOf_documentsForest]
    simp [SearchFilter.ofToken, eqLeaf, eqId]

theorem filtersOf_foldr_accountForest (accounts : Documents) :
    filtersOf (accounts.foldr accountForest .nil) = accounts.flatMap accountFilters := by
  induction accounts with
  | nil => rfl
  | cons account rest ih => rw [foldr_cons, filtersOf_accountForest, ih, flatMap_cons]

theorem mem_operandSet_accountId {p} {id : UInt32} :
    p ∈ operandSet (eqLeaf .accountId id) ↔ p.1 = id := by
  change p.1.toUInt64 = id.toUInt64 ↔ _
  exact ⟨fun h => UInt32.toUInt64_inj.1 h, fun h => congrArg _ h⟩

theorem mem_operandSet_documentId {p} {id : UInt32} :
    p ∈ operandSet (eqLeaf .documentId id) ↔ p.2 = id := by
  change p.2.toUInt64 = id.toUInt64 ↔ _
  exact ⟨fun h => UInt32.toUInt64_inj.1 h, fun h => congrArg _ h⟩

theorem mem_value_documentsForest {p} {documentIds : List UInt32} :
    p ∈ (documentsForest documentIds).value Set.univ operandSet .or ↔ p.2 ∈ documentIds := by
  induction documentIds with
  | nil => exact ⟨fun h => h.elim, fun h => by cases h⟩
  | cons id rest ih =>
    change p ∈ operandSet (eqLeaf .documentId id) ∪
      (documentsForest rest).value Set.univ operandSet .or ↔ _
    rw [Set.mem_union, mem_operandSet_documentId, ih, mem_cons]

theorem mem_value_accountForest {p} {account}
    (hne : account.2 ≠ []) :
    p ∈ (accountForest account .nil).value Set.univ operandSet .and ↔
      p.1 = account.1 ∧ p.2 ∈ account.2 := by
  have hdocuments : p ∈ (if 1 < account.2.length then
      Forest.group BoolOp.or (documentsForest account.2) .nil
        else documentsForest account.2).value Set.univ operandSet .and ↔ p.2 ∈ account.2 := by
    split
    · change p ∈ (documentsForest account.2).value Set.univ operandSet .or ∩ Set.univ ↔ _
      rw [Set.inter_univ, mem_value_documentsForest]
    · rename_i hone
      obtain ⟨id, hid⟩ := length_eq_one_iff.1
        (Nat.le_antisymm (Nat.not_lt.1 hone) (length_pos_iff.2 hne))
      rw [hid]
      change p ∈ operandSet (eqLeaf .documentId id) ∩ Set.univ ↔ _
      rw [Set.inter_univ, mem_operandSet_documentId, mem_singleton]
  change p ∈ (operandSet (eqLeaf .accountId account.1) ∩ _) ∩ Set.univ ↔ _
  rw [Set.inter_univ, Set.mem_inter_iff, mem_operandSet_accountId, hdocuments]

theorem mem_value_foldr_accountForest {p} {accounts : Documents}
    (hne : ∀ account ∈ accounts, account.2 ≠ []) :
    p ∈ (accounts.foldr accountForest .nil).value Set.univ operandSet .or ↔
      ∃ account ∈ accounts, p.1 = account.1 ∧ p.2 ∈ account.2 := by
  induction accounts with
  | nil => exact ⟨fun h => h.elim, fun ⟨_, h, _⟩ => by cases h⟩
  | cons account rest ih =>
    have hhead : p ∈ (accountForest account .nil).value Set.univ operandSet .and ↔ _ :=
      mem_value_accountForest (hne account ((.head _) ..))
    change p ∈ _ ∩ Set.univ ↔ _ at hhead
    rw [Set.inter_univ] at hhead
    rw [foldr_cons, exists_mem_cons_iff]
    change p ∈ _ ∪ _ ↔ _
    rw [Set.mem_union, hhead, ih fun other hother => hne other (.tail _ hother)]

/-- **The query** selects the documents gathered, whatever their number. -/
theorem selects_deletionQuery {accounts : Documents} (haccounts : accounts ≠ [])
    (hne : ∀ account ∈ accounts, account.2 ≠ []) {accountId documentId : UInt32} :
    Selects (deletionQuery accounts) accountId documentId ↔
      ∃ account ∈ accounts, accountId = account.1 ∧ documentId ∈ account.2 := by
  by_cases hmulti : 1 < accounts.length
  · have hquery : expression (deletionQuery accounts) =
        some (.group .or (accounts.foldr accountForest .nil) .nil) := by
      rw [expression_eq_some_iff, filtersOf_group, filtersOf_foldr_accountForest]
      unfold deletionQuery
      rw [if_pos hmulti, if_pos hmulti]
      rfl
    unfold Selects
    rw [hquery]
    simp only [Option.some.injEq, exists_eq_left']
    change (accountId, documentId) ∈ _ ∩ Set.univ ↔ _
    rw [Set.inter_univ]
    exact mem_value_foldr_accountForest hne
  · obtain ⟨account, haccount⟩ := length_eq_one_iff.1
      (Nat.le_antisymm (Nat.not_lt.1 hmulti) (length_pos_iff.2 haccounts))
    subst haccount
    have hquery : expression (deletionQuery [account]) = some (accountForest account .nil) := by
      rw [expression_eq_some_iff, filtersOf_accountForest, filtersOf_nil]
      change [] ++ (accountFilters account ++ []) ++ [] = _
      rw [nil_append, append_nil]
    unfold Selects
    rw [hquery]
    simp only [Option.some.injEq, exists_eq_left', mem_singleton, exists_eq_left]
    exact mem_value_accountForest (hne account ((.head _) ..))

/-! ## The tasks -/

/-- `Task<IndexAction>`. -/
structure IndexTask where
  index : SearchIndex
  isInsert : Bool
  accountId : UInt32
  documentId : UInt32
deriving DecidableEq

variable {l : List (IndexTask × ℕ)}

inductive TaskType where
  | insert
  | delete
deriving DecidableEq

inductive TaskStatus where
  | success
  | failed
  | ignored
deriving DecidableEq

structure IndexTaskResult where
  index : SearchIndex
  taskType : TaskType
  status : TaskStatus

def IndexTaskResult.isDone (r : IndexTaskResult) : Bool := decide (r.status ≠ .failed)

variable {ε δ ω : Type}

/-- What the stores answer for the task at a position; an error may come after some operations are
already in the batch. -/
structure World (ε δ ω : Type) where
  build : ℕ → Except ε (Option δ)
  isEmpty : δ → Bool
  metadata : ℕ → List ω × Except ε Unit
  commit : Except ε Unit
  index : Except ε Unit
  unindex : SearchIndex → Except ε Unit
  /-- The order in which a hash map of accounts is walked. -/
  order : Documents → Documents
  order_perm : ∀ accounts, (order accounts).Perm accounts

/-- The variables of the first loop. -/
structure Gathered (δ ω : Type) where
  results : List IndexTaskResult := []
  batch : List ω := []
  documentInsertions : List δ := []
  documentDeletions : ℕ → Documents := fun _ => []

/-- The end of the loop's body for a deletion. -/
def Gathered.delete (g : Gathered δ ω) (task : IndexTask) (idx : ℕ) : Gathered δ ω :=
  { g with
    documentDeletions := Function.update g.documentDeletions idx
      ((g.documentDeletions idx).alter task.accountId [] (· ++ [task.documentId]))
    results := g.results ++ [⟨task.index, .delete, .success⟩] }

/-- The body of the loop for the task at position `i`; `none` is `unreachable!()`. -/
def visit (w : World ε δ ω) (g : Gathered δ ω) (p : IndexTask × ℕ) : Option (Gathered δ ω) :=
  let (task, i) := p
  if task.isInsert then
    match task.index with
    | .file => some g -- `continue`
    | .inMemory => none
    | .email | .calendar | .contacts | .tracing =>
      match w.build i with
      | .ok (some doc) =>
        if !w.isEmpty doc then
          some { g with
            documentInsertions := g.documentInsertions ++ [doc]
            results := g.results ++ [⟨task.index, .insert, .success⟩] }
        else some { g with results := g.results ++ [⟨task.index, .insert, .ignored⟩] }
      | .error _ => some { g with results := g.results ++ [⟨task.index, .insert, .failed⟩] }
      | .ok none => some { g with results := g.results ++ [⟨task.index, .insert, .ignored⟩] }
  else
    match task.index with
    | .email =>
      let (operations, result) := w.metadata i
      let g := { g with batch := g.batch ++ operations }
      match result with
      | .error _ => some { g with results := g.results ++ [⟨task.index, .delete, .failed⟩] }
      | .ok _ => some (g.delete task 0)
    | .calendar => some (g.delete task 1)
    | .contacts => some (g.delete task 2)
    | .file => some (g.delete task 3)
    | .tracing | .inMemory => none

def gather (w : World ε δ ω) (tasks : List IndexTask) : Option (Gathered δ ω) :=
  tasks.zipIdx.foldlM (visit w) {}

/-- The last loop: the indexes in order, those without documents passed over. `false` comes with an
error; the queries listed were successful. -/
def unindexAll (w : World ε δ ω) (documentDeletions : ℕ → Documents) :
    List (ℕ × SearchIndex) → List (SearchIndex × List SearchFilter) →
      Bool × List (SearchIndex × List SearchFilter)
  | [], calls => (true, calls)
  | (idx, index) :: rest, calls =>
    let accounts := w.order (documentDeletions idx)
    if accounts.isEmpty then unindexAll w documentDeletions rest calls
    else
      match w.unindex index with
      | .error _ => (false, calls)
      | .ok _ =>
        unindexAll w documentDeletions rest (calls ++ [(index, deletionQuery accounts)])

/-- Marks results as failed. -/
def fail (which : IndexTaskResult → Bool) (results : List IndexTaskResult) : List IndexTaskResult :=
  results.map fun r => if which r then { r with status := .failed } else r

/-- What `index` returns, the operations committed, the documents of the successful index call and
the successful unindex calls. -/
structure Outcome (δ ω : Type) where
  results : List IndexTaskResult
  removed : List ω := []
  indexed : List δ := []
  unindexed : List (SearchIndex × List SearchFilter) := []

def deleted (r : IndexTaskResult) : Bool := r.taskType == .delete && r.status == .success

def inserted (r : IndexTaskResult) : Bool := r.taskType == .insert && r.status == .success

def index (w : World ε δ ω) (tasks : List IndexTask) : Option (Outcome δ ω) :=
  match gather w tasks with
  | none => none
  | some g =>
    if !g.batch.isEmpty && !w.commit.isOk then
      some { results := fail (fun r => deleted r && r.index == .email) g.results }
    else if !g.documentInsertions.isEmpty && !w.index.isOk then
      some { results := fail inserted g.results, removed := g.batch }
    else
      match unindexAll w g.documentDeletions [(0, .email), (1, .calendar), (2, .contacts)] [] with
      | (true, unindexed) =>
        some
          { results := g.results, removed := g.batch, indexed := g.documentInsertions, unindexed }
      | (false, unindexed) =>
        some { results := fail deleted g.results, removed := g.batch,
               indexed := g.documentInsertions, unindexed }

/-- The tasks that the worker removes from the queue. -/
def retired {τ : Type} (tasks : List τ) (results : List IndexTaskResult) : List τ :=
  if results.all IndexTaskResult.isDone then tasks
  else ((tasks.zip results).filter fun p => p.2.isDone).map Prod.fst

/-! ## What a removed task owes -/

/-- The effect of the task at position `i`. -/
def Effect (w : World ε δ ω) (out : Outcome δ ω) (p : IndexTask × ℕ) : Prop :=
  if p.1.isInsert then
    w.build p.2 = .ok none ∨
      ∃ doc, w.build p.2 = .ok (some doc) ∧ (w.isEmpty doc ∨ doc ∈ out.indexed)
  else
    (p.1.index = .email →
      (w.metadata p.2).2 = .ok () ∧ ∀ operation ∈ (w.metadata p.2).1, operation ∈ out.removed) ∧
    ∃ call ∈ out.unindexed, call.1 = p.1.index ∧
      Selects call.2 p.1.accountId p.1.documentId

/-- One result per task, in their order, and an effect for every task removed. -/
def Honest (w : World ε δ ω) (tasks : List IndexTask) : Prop :=
  ∃ out, index w tasks = some out ∧
    out.results.map (fun r => (r.index, r.taskType)) =
      tasks.map (fun t => (t.index, if t.isInsert then .insert else .delete)) ∧
    ∀ p ∈ retired tasks.zipIdx out.results, Effect w out p

/-! ## The first loop, task by task -/

/-- The tasks that reach `unreachable!()`. -/
def IndexTask.panics (t : IndexTask) : Bool :=
  if t.isInsert then t.index == .inMemory else t.index == .tracing || t.index == .inMemory

/-- The tasks that get no result. -/
def IndexTask.skipped (t : IndexTask) : Bool := t.isInsert && t.index == .file

def IndexTask.type (t : IndexTask) : TaskType := if t.isInsert then .insert else .delete

/-- The position in the array of deletions. -/
def slot : SearchIndex → ℕ
  | .email => 0
  | .calendar => 1
  | .contacts => 2
  | .file => 3
  | .tracing | .inMemory => 4

/-- The document that an insertion hands on. -/
def documents (w : World ε δ ω) (p : IndexTask × ℕ) : List δ :=
  match w.build p.2 with
  | .ok (some doc) => if p.1.isInsert && !w.isEmpty doc then [doc] else []
  | _ => []

/-- The operations that a deletion puts into the batch. -/
def operations (w : World ε δ ω) (p : IndexTask × ℕ) : List ω :=
  if p.1.isInsert = false ∧ p.1.index = .email then (w.metadata p.2).1 else []

/-- What the first loop records for a task. -/
def status (w : World ε δ ω) (p : IndexTask × ℕ) : TaskStatus :=
  if p.1.isInsert then
    match w.build p.2 with
    | .ok (some doc) => if w.isEmpty doc then .ignored else .success
    | .ok none => .ignored
    | .error _ => .failed
  else if p.1.index = .email then
    match (w.metadata p.2).2 with
    | .error _ => .failed
    | .ok _ => .success
  else .success

def result (w : World ε δ ω) (p : IndexTask × ℕ) : IndexTaskResult :=
  ⟨p.1.index, p.1.type, status w p⟩

/-- The deletions that are gathered for an unindex call. -/
def Deletes (w : World ε δ ω) (p : IndexTask × ℕ) : Prop :=
  p.1.isInsert = false ∧ status w p = .success

/-- What is gathered from a task that neither panics nor is passed over. -/
def Gathered.push (w : World ε δ ω) (g : Gathered δ ω) (p : IndexTask × ℕ) : Gathered δ ω where
  results := g.results ++ [result w p]
  batch := g.batch ++ operations w p
  documentInsertions := g.documentInsertions ++ documents w p
  documentDeletions :=
    if p.1.isInsert = false ∧ status w p = .success then
      Function.update g.documentDeletions (slot p.1.index)
        ((g.documentDeletions (slot p.1.index)).alter p.1.accountId [] (· ++ [p.1.documentId]))
    else g.documentDeletions

section

variable {w : World ε δ ω} {g : Gathered δ ω} {p : IndexTask × ℕ}

theorem visit_eq (hpanics : p.1.panics = false) (hskipped : p.1.skipped = false) :
    visit w g p = some (g.push w p) := by
  obtain ⟨⟨index, isInsert, accountId, documentId⟩, i⟩ := p
  cases isInsert with
  | true =>
    cases hbuild : w.build i with
    | error err =>
      cases index <;> first
        | (cases hpanics; done)
        | (cases hskipped; done)
        | simp [visit, Gathered.push, result, operations, documents, status, IndexTask.type, hbuild]
    | ok built =>
      cases built with
      | none =>
        cases index <;> first
          | (cases hpanics; done)
          | (cases hskipped; done)
          | simp [visit, Gathered.push, result, operations, documents, status, IndexTask.type,
            hbuild]
      | some doc =>
        cases hempty : w.isEmpty doc <;> cases index <;> first
          | (cases hpanics; done)
          | (cases hskipped; done)
          | simp [visit, Gathered.push, result, operations, documents, status, IndexTask.type,
            hbuild, hempty]
  | false =>
    have hdocuments : documents w (⟨index, false, accountId, documentId⟩, i) = [] := by
      unfold documents
      split
      · rfl
      · rfl
    cases index with
    | email =>
      cases hmetadata : (w.metadata i).2 <;>
        simp [visit, Gathered.push, Gathered.delete, result, operations, status, IndexTask.type,
          slot, hmetadata, hdocuments]
    | tracing | inMemory => cases hpanics
    | calendar | contacts | file =>
      simp [visit, Gathered.push, Gathered.delete, result, operations, status, IndexTask.type, slot,
        hdocuments]

theorem visit_panics (h : p.1.panics) : visit w g p = none := by
  obtain ⟨⟨index, isInsert, accountId, documentId⟩, i⟩ := p
  cases isInsert <;> cases index <;> first
    | (cases h; done)
    | rfl

theorem visit_skipped (h : p.1.skipped) : visit w g p = some g := by
  obtain ⟨⟨index, isInsert, accountId, documentId⟩, i⟩ := p
  cases isInsert <;> cases index <;> first
    | (cases h; done)
    | rfl

end

/-! ## The whole first loop -/

/-- The tasks that the loop gives a result to. -/
def Clean (tasks : List IndexTask) : Prop := ∀ t ∈ tasks, t.panics = false ∧ t.skipped = false

theorem foldlM_visit_eq {w : World ε δ ω} {g}
    (h : ∀ p ∈ l, p.1.panics = false ∧ p.1.skipped = false) :
    l.foldlM (visit w) g = some (l.foldl (Gathered.push w) g) := by
  induction l generalizing g with
  | nil => rfl
  | cons p rest ih =>
    obtain ⟨hpanics, hskipped⟩ := h p ((.head _) ..)
    rw [foldlM_cons, visit_eq hpanics hskipped]
    exact ih fun q hq => h q (.tail _ hq)

theorem length_of_foldlM_visit {w : World ε δ ω} {g g'}
    (h : l.foldlM (visit w) g = some g') :
    (∀ p ∈ l, p.1.panics = false) ∧
      g'.results.length + l.countP (fun p => p.1.skipped) = g.results.length + l.length := by
  induction l generalizing g with
  | nil =>
    cases h
    exact ⟨(fun p hp => by cases hp), rfl⟩
  | cons p rest ih =>
    rw [foldlM_cons] at h
    cases hpanics : p.1.panics with
    | true =>
      rw [visit_panics hpanics] at h
      cases h
    | false =>
      cases hskipped : p.1.skipped with
      | true =>
        rw [visit_skipped hskipped] at h
        obtain ⟨hrest, hlength⟩ := ih h
        refine ⟨forall_mem_cons.2 ⟨hpanics, hrest⟩, ?_⟩
        rw [countP_cons_of_pos (by exact hskipped), length_cons]
        omega
      | false =>
        rw [visit_eq hpanics hskipped] at h
        obtain ⟨hrest, hlength⟩ := ih h
        refine ⟨forall_mem_cons.2 ⟨hpanics, hrest⟩, ?_⟩
        have hpush : (g.push w p).results.length = g.results.length + 1 := length_append
        rw [countP_cons_of_neg (by simp [hskipped]), length_cons]
        omega

theorem mem_zipIdx_fst {tasks : List IndexTask} {t : IndexTask} (h : t ∈ tasks) :
    ∃ p ∈ tasks.zipIdx, p.1 = t := by
  have hmem : t ∈ tasks.zipIdx.map Prod.fst := by
    rw [zipIdx_map_fst]
    exact h
  exact mem_map.1 hmem

theorem fst_mem_of_mem_zipIdx {tasks : List IndexTask} {p}
    (h : p ∈ tasks.zipIdx) : p.1 ∈ tasks := by
  have hmem : p.1 ∈ tasks.zipIdx.map Prod.fst := mem_map.2 ⟨p, h, rfl⟩
  rwa [zipIdx_map_fst] at hmem

theorem clean_of_gather {w : World ε δ ω} {tasks} {g}
    (h : gather w tasks = some g) (hlength : g.results.length = tasks.length) : Clean tasks := by
  obtain ⟨hpanics, hcount⟩ := length_of_foldlM_visit h
  rw [length_zipIdx] at hcount
  have hnone : tasks.zipIdx.countP (fun p => p.1.skipped) = 0 := by
    change _ + _ = 0 + _ at hcount
    omega
  intro t ht
  obtain ⟨p, hp, rfl⟩ := mem_zipIdx_fst ht
  exact ⟨hpanics p hp, Bool.eq_false_iff.2 (countP_eq_zero.1 hnone p hp)⟩

/-- What the loop has gathered. -/
structure GatheredFrom (w : World ε δ ω) (l : List (IndexTask × ℕ)) (g : Gathered δ ω) : Prop where
  results : g.results = l.map (result w)
  batch : g.batch = l.flatMap (operations w)
  insertions : g.documentInsertions = l.flatMap (documents w)
  nonempty : ∀ k, ∀ account ∈ g.documentDeletions k, account.2 ≠ []
  deletions : ∀ k accountId documentId,
    (∃ account ∈ g.documentDeletions k, account.1 = accountId ∧ documentId ∈ account.2) ↔
      ∃ p ∈ l, Deletes w p ∧ slot p.1.index = k ∧ p.1.accountId = accountId ∧
        p.1.documentId = documentId

theorem gatheredFrom_foldl_push (w : World ε δ ω) (l : List (IndexTask × ℕ)) :
    GatheredFrom w l (l.foldl (Gathered.push w) {}) := by
  induction l using List.reverseRecOn with
  | nil =>
    refine ⟨rfl, rfl, rfl, (fun k account h => by cases h), fun k accountId documentId => ?_⟩
    exact ⟨(fun ⟨_, h, _⟩ => by cases h), (fun ⟨_, h, _⟩ => by cases h)⟩
  | append_singleton l p ih =>
    rw [foldl_append, foldl_cons, foldl_nil]
    generalize l.foldl (Gathered.push w) {} = g at ih
    refine ⟨?_, ?_, ?_, fun k => ?_, fun k accountId documentId => ?_⟩
    · rw [map_append, ← ih.results]
      rfl
    · rw [flatMap_append, ← ih.batch, flatMap_singleton]
      rfl
    · rw [flatMap_append, ← ih.insertions, flatMap_singleton]
      rfl
    · unfold Gathered.push
      dsimp only
      split
      · by_cases hk : k = slot p.1.index
        · subst hk
          rw [Function.update_self]
          exact InsertionMap.forall_mem_alter (P := fun documents => documents ≠ [])
            (cons_ne_nil _ _)
            (fun _ _ => append_ne_nil_of_right_ne_nil _ (cons_ne_nil _ _)) (ih.nonempty _)
        · rw [Function.update_of_ne hk]
          exact ih.nonempty k
      · exact ih.nonempty k
    · have hlast : (∃ q ∈ l ++ [p], Deletes w q ∧ slot q.1.index = k ∧ q.1.accountId = accountId ∧
          q.1.documentId = documentId) ↔
          (∃ q ∈ l, Deletes w q ∧ slot q.1.index = k ∧ q.1.accountId = accountId ∧
            q.1.documentId = documentId) ∨
          (Deletes w p ∧ slot p.1.index = k ∧ p.1.accountId = accountId ∧
            p.1.documentId = documentId) := by
        simp only [mem_append, mem_singleton, or_and_right, exists_or, exists_eq_left]
      rw [hlast, ← ih.deletions]
      unfold Gathered.push
      dsimp only
      split
      · rename_i hdeletes
        by_cases hk : k = slot p.1.index
        · subst hk
          rw [Function.update_self, InsertionMap.exists_mem_alter
            (P := fun documents => documentId ∈ documents) (Q := documentId = p.1.documentId)
            (by simp) fun documents => by simp]
          refine or_congr_right ⟨?_, ?_⟩
          · rintro ⟨haccount, hdocument⟩
            exact ⟨hdeletes, rfl, haccount.symm, hdocument.symm⟩
          · rintro ⟨-, -, haccount, hdocument⟩
            exact ⟨haccount.symm, hdocument.symm⟩
        · rw [Function.update_of_ne hk]
          exact ⟨.inl, fun h => h.resolve_right fun h => hk h.2.1.symm⟩
      · rename_i hkept
        exact ⟨.inl, fun h => h.resolve_right fun h => hkept h.1⟩

/-! ## The last loop -/

section

variable {w : World ε δ ω} {documentDeletions : ℕ → Documents} {slots : List (ℕ × SearchIndex)}
  {calls out : List (SearchIndex × List SearchFilter)}

theorem unindexAll_true (h : unindexAll w documentDeletions slots calls = (true, out)) :
    (∀ call ∈ out, call ∈ calls ∨ ∃ s ∈ slots, call.1 = s.2) ∧ (∀ call ∈ calls, call ∈ out) ∧
      ∀ s ∈ slots, documentDeletions s.1 ≠ [] →
        (w.unindex s.2).isOk ∧
          (s.2, deletionQuery (w.order (documentDeletions s.1))) ∈ out := by
  induction slots generalizing calls with
  | nil =>
    cases h
    exact ⟨fun call hcall => .inl hcall, fun call hcall => hcall, (fun s hs => by cases hs)⟩
  | cons s rest ih =>
    obtain ⟨idx, index⟩ := s
    unfold unindexAll at h
    dsimp only at h
    split at h
    · rename_i hempty
      obtain ⟨hfrom, hkept, hrest⟩ := ih h
      refine ⟨fun call hcall => ?_, hkept, forall_mem_cons.2 ⟨fun hne => ?_, hrest⟩⟩
      · exact (hfrom call hcall).imp id fun ⟨s, hs, heq⟩ => ⟨s, .tail _ hs, heq⟩
      · have hnil := List.isEmpty_iff.1 hempty ▸ (w.order_perm (documentDeletions idx))
        cases hne (nil_perm.1 hnil)
    · split at h
      · cases h
      · rename_i hok
        obtain ⟨hfrom, hkept, hrest⟩ := ih h
        refine ⟨fun call hcall => ?_, fun call hcall => hkept call (mem_append_left _ hcall),
          forall_mem_cons.2 ⟨fun _ => ⟨?_, ?_⟩, hrest⟩⟩
        · rcases hfrom call hcall with hcall | ⟨s, hs, heq⟩
          · rcases mem_append.1 hcall with hcall | hcall
            · exact .inl hcall
            · rw [mem_singleton.1 hcall]
              exact .inr ⟨_, (.head _) .., rfl⟩
          · exact .inr ⟨s, .tail _ hs, heq⟩
        · rw [hok]
          rfl
        · exact hkept _ (mem_append_right _ (mem_singleton.2 rfl))

theorem unindexAll_false (h : unindexAll w documentDeletions slots calls = (false, out)) :
    ∃ s ∈ slots, documentDeletions s.1 ≠ [] ∧ (w.unindex s.2).isOk = false := by
  induction slots generalizing calls with
  | nil => cases h
  | cons s rest ih =>
    obtain ⟨idx, index⟩ := s
    unfold unindexAll at h
    dsimp only at h
    split at h
    · obtain ⟨s, hs, hs'⟩ := ih h
      exact ⟨s, .tail _ hs, hs'⟩
    · rename_i hsome
      split at h
      · rename_i herr
        refine ⟨_, (.head _) .., fun hnil => hsome ?_, ?_⟩
        · have hperm : (w.order (documentDeletions idx)).Perm [] :=
            (w.order_perm _).trans (List.Perm.of_eq hnil)
          exact List.isEmpty_iff.2 hperm.eq_nil
        · rw [herr]
          rfl
      · obtain ⟨s, hs, hs'⟩ := ih h
        exact ⟨s, .tail _ hs, hs'⟩

end

/-! ## The tasks removed -/

theorem mem_retired {f}
    {p} : p ∈ retired l (l.map f) ↔ p ∈ l ∧ (f p).isDone := by
  unfold retired
  split
  · rename_i hall
    exact ⟨fun hp => ⟨hp, all_eq_true.1 hall _ (mem_map.2 ⟨p, hp, rfl⟩)⟩, And.left⟩
  · have hzip : l.zip (l.map f) = l.map fun p => (p, f p) := by
      have hmap : (l.map id).zip (l.map f) = l.map fun p => (p, f p) := zip_map'
      rwa [map_id] at hmap
    rw [hzip, filter_map, map_map]
    simp

section

variable {w : World ε δ ω} {p : IndexTask × ℕ}

theorem isDone_fail {which : IndexTaskResult → Bool} :
    (if which (result w p) then { result w p with status := .failed } else result w p).isDone =
        true ↔ which (result w p) = false ∧ status w p ≠ .failed := by
  cases h : which (result w p) with
  | true => simp [IndexTaskResult.isDone]
  | false => simp [IndexTaskResult.isDone, result]

theorem deleted_result : deleted (result w p) ↔ Deletes w p := by
  unfold deleted Deletes result IndexTask.type
  cases p.1.isInsert <;> simp

theorem inserted_result :
    inserted (result w p) ↔ p.1.isInsert ∧ status w p = .success := by
  unfold inserted result IndexTask.type
  cases p.1.isInsert <;> simp

theorem status_delete (h : p.1.isInsert = false) : status w p ≠ .failed ↔ Deletes w p := by
  unfold Deletes status
  rw [h]
  simp only [Bool.false_eq_true, if_false, true_and]
  split
  · split <;> simp
  · simp

theorem documents_insert (h : p.1.isInsert) :
    documents w p ≠ [] ↔ status w p = .success := by
  unfold documents status
  rw [h]
  cases w.build p.2 with
  | error err => simp
  | ok built =>
    cases built with
    | none => simp
    | some doc => cases w.isEmpty doc <;> simp

theorem effect_insert {out} (h : p.1.isInsert) :
    Effect w out p ↔ status w p ≠ .failed ∧ ∀ doc ∈ documents w p, doc ∈ out.indexed := by
  unfold Effect status documents
  rw [h]
  cases w.build p.2 with
  | error err => simp
  | ok built =>
    cases built with
    | none => simp
    | some doc => cases hempty : w.isEmpty doc <;> simp [hempty]

theorem effect_delete {out} (h : Deletes w p) :
    Effect w out p ↔ (∀ operation ∈ operations w p, operation ∈ out.removed) ∧
      ∃ call ∈ out.unindexed, call.1 = p.1.index ∧
        Selects call.2 p.1.accountId p.1.documentId := by
  obtain ⟨hdelete, hstatus⟩ := h
  unfold status at hstatus
  unfold Effect operations
  rw [hdelete] at hstatus ⊢
  simp only [Bool.false_eq_true, if_false, true_and] at hstatus ⊢
  by_cases hemail : p.1.index = .email
  · rw [if_pos hemail] at hstatus
    cases hmetadata : (w.metadata p.2).2 with
    | error err =>
      rw [hmetadata] at hstatus
      cases hstatus
    | ok u => simp [hemail]
  · simp [hemail]

end

/-! ## Which batches are honest -/

/-- The deletion batch holds operations and cannot be committed. -/
def CommitFails (w : World ε δ ω) (tasks : List IndexTask) : Prop :=
  (∃ p ∈ tasks.zipIdx, operations w p ≠ []) ∧ w.commit.isOk = false

/-- There are documents to index and they cannot be indexed. -/
def IndexFails (w : World ε δ ω) (tasks : List IndexTask) : Prop :=
  (∃ p ∈ tasks.zipIdx, documents w p ≠ []) ∧ w.index.isOk = false

/-- The batches and failures that no stage gets wrong. -/
structure Retirable (w : World ε δ ω) (tasks : List IndexTask) : Prop where
  /-- No insertion into the file index, and no task that panics. -/
  clean : Clean tasks
  /-- A failed commit is met by deletions of messages only, and by insertions without a document. -/
  commit : CommitFails w tasks → ∀ p ∈ tasks.zipIdx,
    if p.1.isInsert then documents w p = [] else p.1.index = .email
  /-- A failed index call is met by no deletion that was gathered. -/
  insertions : ¬CommitFails w tasks → IndexFails w tasks → ∀ p ∈ tasks.zipIdx, ¬Deletes w p
  /-- A deletion from the file index comes with an unindex call that fails. -/
  files : ¬CommitFails w tasks → ¬IndexFails w tasks →
    (∃ p ∈ tasks.zipIdx, Deletes w p ∧ p.1.index = .file) →
    ∃ q ∈ tasks.zipIdx, Deletes w q ∧ q.1.index ≠ .file ∧ (w.unindex q.1.index).isOk = false

variable {w : World ε δ ω} {tasks : List IndexTask} {g : Gathered δ ω}

section

variable (h : GatheredFrom w tasks.zipIdx g)
include h

theorem GatheredFrom.commitFails :
    (!g.batch.isEmpty && !w.commit.isOk) ↔ CommitFails w tasks := by
  rw [h.batch, Bool.and_eq_true, Bool.not_eq_true', Bool.not_eq_true',
    isEmpty_eq_false_iff, Ne, flatMap_eq_nil_iff]
  push Not
  rfl

theorem GatheredFrom.indexFails :
    (!g.documentInsertions.isEmpty && !w.index.isOk) ↔ IndexFails w tasks := by
  rw [h.insertions, Bool.and_eq_true, Bool.not_eq_true', Bool.not_eq_true',
    isEmpty_eq_false_iff, Ne, flatMap_eq_nil_iff]
  push Not
  rfl

variable {p : IndexTask × ℕ}

theorem GatheredFrom.mem_deletions (hp : p ∈ tasks.zipIdx) (hdeletes : Deletes w p) :
    ∃ account ∈ g.documentDeletions (slot p.1.index), p.1.accountId = account.1 ∧
      p.1.documentId ∈ account.2 := by
  obtain ⟨account, haccount, heq, hdocument⟩ :=
    (h.deletions _ p.1.accountId p.1.documentId).2 ⟨p, hp, hdeletes, rfl, rfl, rfl⟩
  exact ⟨account, haccount, heq.symm, hdocument⟩

theorem GatheredFrom.selects (hp : p ∈ tasks.zipIdx) (hdeletes : Deletes w p) :
    Selects (deletionQuery (w.order (g.documentDeletions (slot p.1.index)))) p.1.accountId
      p.1.documentId := by
  obtain ⟨account, haccount, hmem⟩ := h.mem_deletions hp hdeletes
  have hperm := w.order_perm (g.documentDeletions (slot p.1.index))
  refine (selects_deletionQuery (ne_nil_of_mem (hperm.mem_iff.2 haccount))
    fun other hother => h.nonempty _ other (hperm.mem_iff.1 hother)).2 ?_
  exact ⟨account, hperm.mem_iff.2 haccount, hmem⟩

theorem fail_results (which : IndexTaskResult → Bool) :
    fail which g.results = tasks.zipIdx.map fun p =>
      if which (result w p) then { result w p with status := .failed } else result w p := by
  unfold fail
  rw [h.results, map_map]
  rfl

theorem map_fail_results (which : IndexTaskResult → Bool) :
    (fail which g.results).map (fun r => (r.index, r.taskType)) =
      tasks.map fun t => (t.index, t.type) := by
  rw [fail_results h, map_map]
  have heq : ((fun r : IndexTaskResult => (r.index, r.taskType)) ∘ fun p : IndexTask × ℕ =>
      if which (result w p) then { result w p with status := .failed } else result w p) =
      (fun t : IndexTask => (t.index, t.type)) ∘ Prod.fst := by
    funext p
    change ((if _ then _ else _ : IndexTaskResult).index,
      (if _ then _ else _ : IndexTaskResult).taskType) = _
    split <;> rfl
  rw [heq, ← map_map, zipIdx_map_fst]

theorem mem_retired_fail {which : IndexTaskResult → Bool} :
    p ∈ retired tasks.zipIdx (fail which g.results) ↔
      p ∈ tasks.zipIdx ∧ which (result w p) = false ∧ status w p ≠ .failed := by
  rw [fail_results h, mem_retired, isDone_fail]

end

theorem fail_none (results : List IndexTaskResult) : fail (fun _ => false) results = results :=
  map_id results

/-- After a failed commit nothing has happened. -/
theorem effects_commit (h : GatheredFrom w tasks.zipIdx g) :
    (∀ p ∈ retired tasks.zipIdx (fail (fun r => deleted r && r.index == .email) g.results),
      Effect w { results := fail (fun r => deleted r && r.index == .email) g.results } p) ↔
    ∀ p ∈ tasks.zipIdx, if p.1.isInsert then documents w p = [] else p.1.index = .email := by
  refine forall_congr' fun p => ?_
  rw [mem_retired_fail h]
  by_cases hp : p ∈ tasks.zipIdx
  swap
  · exact ⟨fun _ hin => absurd hin hp, fun _ hin => absurd hin.1 hp⟩
  cases hinsert : p.1.isInsert with
  | true =>
    have hmark : (deleted (result w p) && (result w p).index == .email) = false := by
      rw [Bool.and_eq_false_iff]
      exact .inl (Bool.eq_false_iff.2 fun hdeleted => by
        rw [deleted_result.1 hdeleted |>.1] at hinsert
        cases hinsert)
    rw [effect_insert hinsert]
    constructor
    · intro heffect _
      by_contra hne
      have hsuccess := (documents_insert hinsert).1 hne
      have hfailed : status w p ≠ .failed := hsuccess ▸ fun heq => by cases heq
      obtain ⟨doc, hdoc⟩ := exists_mem_of_ne_nil _ hne
      cases (heffect ⟨hp, hmark, hfailed⟩).2 doc hdoc
    · rintro hnone ⟨-, -, hfailed⟩
      refine ⟨hfailed, fun doc hdoc => ?_⟩
      rw [hnone hp] at hdoc
      cases hdoc
  | false =>
    simp only [Bool.false_eq_true, if_false]
    constructor
    · intro heffect _
      by_contra hemail
      have hdeletes : Deletes w p := by
        refine ⟨hinsert, ?_⟩
        unfold status
        rw [hinsert, if_neg Bool.false_ne_true, if_neg hemail]
      have hmark : (deleted (result w p) && (result w p).index == .email) = false := by
        rw [Bool.and_eq_false_iff]
        exact .inr (beq_eq_false_iff_ne.2 hemail)
      obtain ⟨-, call, hcall, -⟩ :=
        (effect_delete hdeletes).1 (heffect ⟨hp, hmark, (status_delete hinsert).2 hdeletes⟩)
      cases hcall
    · rintro hemail ⟨-, hmark, hfailed⟩
      have hdeletes := (status_delete hinsert).1 hfailed
      rw [deleted_result.2 hdeletes, Bool.true_and, beq_eq_false_iff_ne] at hmark
      cases hmark (hemail hp)

theorem effects_insertions (h : GatheredFrom w tasks.zipIdx g) :
    (∀ p ∈ retired tasks.zipIdx (fail inserted g.results),
      Effect w { results := fail inserted g.results, removed := g.batch } p) ↔
    ∀ p ∈ tasks.zipIdx, ¬Deletes w p := by
  refine forall_congr' fun p => ?_
  rw [mem_retired_fail h]
  constructor
  · intro heffect hp hdeletes
    have hmark : inserted (result w p) = false := Bool.eq_false_iff.2 fun hinserted => by
      have := (inserted_result.1 hinserted).1
      rw [hdeletes.1] at this
      cases this
    obtain ⟨-, call, hcall, -⟩ := (effect_delete hdeletes).1
      (heffect ⟨hp, hmark, (status_delete hdeletes.1).2 hdeletes⟩)
    cases hcall
  · rintro hnone ⟨hp, hmark, hfailed⟩
    cases hinsert : p.1.isInsert with
    | true =>
      refine (effect_insert hinsert).2 ⟨hfailed, fun doc hdoc => ?_⟩
      have hsuccess := (documents_insert hinsert).1 (ne_nil_of_mem hdoc)
      rw [inserted_result.2 ⟨hinsert, hsuccess⟩] at hmark
      cases hmark
    | false => cases hnone hp ((status_delete hinsert).1 hfailed)

theorem effect_indexed (h : GatheredFrom w tasks.zipIdx g) {p}
    (hp : p ∈ tasks.zipIdx) (hinsert : p.1.isInsert) (hfailed : status w p ≠ .failed)
    {out} (hout : out.indexed = g.documentInsertions) : Effect w out p := by
  refine (effect_insert hinsert).2 ⟨hfailed, fun doc hdoc => ?_⟩
  rw [hout, h.insertions]
  exact mem_flatMap.2 ⟨p, hp, hdoc⟩

theorem slot_mem {t : IndexTask} (hpanics : t.panics = false) (hdelete : t.isInsert = false)
    (hfile : t.index ≠ .file) :
    (slot t.index, t.index) ∈
      [(0, SearchIndex.email), (1, SearchIndex.calendar), (2, SearchIndex.contacts)] := by
  obtain ⟨index, isInsert, accountId, documentId⟩ := t
  obtain rfl : isInsert = false := hdelete
  cases index with
  | email | calendar | contacts => simp [slot]
  | file => cases hfile rfl
  | tracing | inMemory => cases hpanics

theorem effects_done (h : GatheredFrom w tasks.zipIdx g) (hclean : Clean tasks)
    {unindexed : List (SearchIndex × List SearchFilter)}
    (hunindexed : unindexAll w g.documentDeletions
      [(0, .email), (1, .calendar), (2, .contacts)] [] = (true, unindexed)) :
    (∀ p ∈ retired tasks.zipIdx g.results,
      Effect w { results := g.results, removed := g.batch, indexed := g.documentInsertions,
                 unindexed } p) ↔
    ∀ p ∈ tasks.zipIdx, Deletes w p → p.1.index ≠ .file := by
  obtain ⟨hfrom, -, hall⟩ := unindexAll_true hunindexed
  refine forall_congr' fun p => ?_
  rw [← fail_none g.results, mem_retired_fail h]
  constructor
  · intro heffect hp hdeletes hfile
    obtain ⟨-, call, hcall, hindex, -⟩ := (effect_delete hdeletes).1
      (heffect ⟨hp, rfl, (status_delete hdeletes.1).2 hdeletes⟩)
    rcases hfrom call hcall with hcall | ⟨s, hs, heq⟩
    · cases hcall
    · rw [hindex, hfile] at heq
      simp only [mem_cons, not_mem_nil, or_false] at hs
      rcases hs with rfl | rfl | rfl <;> cases heq
  · rintro hfile ⟨hp, -, hfailed⟩
    cases hinsert : p.1.isInsert with
    | true => exact effect_indexed h hp hinsert hfailed rfl
    | false =>
      have hdeletes := (status_delete hinsert).1 hfailed
      obtain ⟨hpanics, -⟩ := hclean p.1 (fst_mem_of_mem_zipIdx hp)
      obtain ⟨account, haccount, -⟩ := h.mem_deletions hp hdeletes
      obtain ⟨-, hcall⟩ := hall _ (slot_mem hpanics hinsert (hfile hp hdeletes))
        (ne_nil_of_mem haccount)
      refine (effect_delete hdeletes).2 ⟨fun operation hoperation => ?_,
        _, hcall, rfl, h.selects hp hdeletes⟩
      change operation ∈ g.batch
      rw [h.batch]
      exact mem_flatMap.2 ⟨p, hp, hoperation⟩

theorem effects_unindex (h : GatheredFrom w tasks.zipIdx g)
    {unindexed : List (SearchIndex × List SearchFilter)} :
    ∀ p ∈ retired tasks.zipIdx (fail deleted g.results),
      Effect w { results := fail deleted g.results, removed := g.batch,
                 indexed := g.documentInsertions, unindexed } p := by
  intro p hp
  obtain ⟨hp, hmark, hfailed⟩ := (mem_retired_fail h).1 hp
  cases hinsert : p.1.isInsert with
  | true => exact effect_indexed h hp hinsert hfailed rfl
  | false =>
    rw [deleted_result.2 ((status_delete hinsert).1 hfailed)] at hmark
    cases hmark

section

variable (hgather : gather w tasks = some g) (h : GatheredFrom w tasks.zipIdx g)
include hgather h

theorem index_commitFails (hcommit : CommitFails w tasks) : index w tasks =
      some { results := fail (fun r => deleted r && r.index == .email) g.results } := by
  unfold index
  rw [hgather]
  exact if_pos (h.commitFails.2 hcommit)

theorem index_indexFails (hcommit : ¬CommitFails w tasks) (hindex : IndexFails w tasks) :
    index w tasks = some { results := fail inserted g.results, removed := g.batch } := by
  unfold index
  rw [hgather]
  exact (if_neg (fun hfails => hcommit (h.commitFails.1 hfails))).trans
    (if_pos (h.indexFails.2 hindex))

theorem index_unindex (hcommit : ¬CommitFails w tasks) (hindex : ¬IndexFails w tasks) :
    index w tasks =
      match unindexAll w g.documentDeletions [(0, .email), (1, .calendar), (2, .contacts)] [] with
      | (true, unindexed) =>
        some
          { results := g.results, removed := g.batch, indexed := g.documentInsertions, unindexed }
      | (false, unindexed) =>
        some { results := fail deleted g.results, removed := g.batch,
               indexed := g.documentInsertions, unindexed } := by
  unfold index
  rw [hgather]
  exact (if_neg (fun hfails => hcommit (h.commitFails.1 hfails))).trans
    (if_neg (fun hfails => hindex (h.indexFails.1 hfails)))

end

theorem honest_iff_effects {out : Outcome δ ω} (hindex : index w tasks = some out)
    (hresults : out.results.map (fun r => (r.index, r.taskType)) =
      tasks.map fun t => (t.index, t.type)) :
    Honest w tasks ↔ ∀ p ∈ retired tasks.zipIdx out.results, Effect w out p := by
  constructor
  · rintro ⟨out', hindex', -, heffects⟩
    obtain rfl : out = out' := Option.some_inj.1 (hindex.symm.trans hindex')
    exact heffects
  · exact fun heffects => ⟨out, hindex, hresults, heffects⟩

theorem length_fail (which : IndexTaskResult → Bool) (results : List IndexTaskResult) :
    (fail which results).length = results.length := length_map _

theorem clean_of_honest (h : Honest w tasks) : Clean tasks := by
  obtain ⟨out, hindex, hresults, -⟩ := h
  have hlength : out.results.length = tasks.length := by
    have := congrArg List.length hresults
    rwa [length_map, length_map] at this
  unfold index at hindex
  split at hindex
  · cases hindex
  · rename_i g hgather
    refine clean_of_gather hgather (Eq.trans ?_ hlength)
    split at hindex
    · cases hindex
      exact (length_fail _ _).symm
    · split at hindex
      · cases hindex
        exact (length_fail _ _).symm
      · split at hindex
        · cases hindex
          rfl
        · cases hindex
          exact (length_fail _ _).symm

theorem index_of_slot {s : ℕ × SearchIndex}
    (hs : s ∈ [(0, SearchIndex.email), (1, SearchIndex.calendar), (2, SearchIndex.contacts)])
    {index : SearchIndex} (hslot : slot index = s.1) : index = s.2 := by
  simp only [mem_cons, not_mem_nil, or_false] at hs
  rcases hs with rfl | rfl | rfl <;> cases index <;> first
    | rfl
    | cases hslot

/-- **Honest batches.** Every task has its result and every removed task its effect exactly if the
batch holds no file insertion and no task that panics, a failed commit or index call is met by no
task of the other kind, and a file deletion is kept by an unindex call that fails. -/
theorem honest_iff (w : World ε δ ω) (tasks : List IndexTask) :
    Honest w tasks ↔ Retirable w tasks := by
  by_cases hclean : Clean tasks
  swap
  · refine ⟨fun hhonest => absurd ?_ hclean, fun h => absurd h.clean hclean⟩
    exact clean_of_honest hhonest
  have hgather : gather w tasks = some (tasks.zipIdx.foldl (Gathered.push w) {}) :=
    foldlM_visit_eq fun p hp => hclean p.1 (fst_mem_of_mem_zipIdx hp)
  have h := gatheredFrom_foldl_push w tasks.zipIdx
  generalize tasks.zipIdx.foldl (Gathered.push w) {} = g at hgather h
  by_cases hcommit : CommitFails w tasks
  · rw [honest_iff_effects (index_commitFails hgather h hcommit) (map_fail_results h _),
      effects_commit h]
    exact ⟨fun heffects => ⟨hclean, fun _ => heffects, fun hnot => absurd hcommit hnot,
      fun hnot => absurd hcommit hnot⟩, fun hretirable => hretirable.commit hcommit⟩
  by_cases hindex : IndexFails w tasks
  · rw [honest_iff_effects (index_indexFails hgather h hcommit hindex) (map_fail_results h _),
      effects_insertions h]
    exact ⟨fun heffects => ⟨hclean, fun hfails => absurd hfails hcommit, fun _ _ => heffects,
      fun _ hnot => absurd hindex hnot⟩, fun hretirable => hretirable.insertions hcommit hindex⟩
  have hrest := index_unindex hgather h hcommit hindex
  cases hunindexed : unindexAll w g.documentDeletions
    [(0, .email), (1, .calendar), (2, .contacts)] [] with
  | mk ok unindexed =>
    rw [hunindexed] at hrest
    cases ok with
    | true =>
      have hresults := map_fail_results h fun _ => false
      rw [fail_none] at hresults
      rw [honest_iff_effects hrest hresults, effects_done h hclean hunindexed]
      refine ⟨fun hfiles => ⟨hclean, fun hfails => absurd hfails hcommit,
        fun _ hfails => absurd hfails hindex, fun _ _ ⟨p, hp, hdeletes, hfile⟩ =>
          absurd hfile (hfiles p hp hdeletes)⟩, fun hretirable p hp hdeletes hfile => ?_⟩
      obtain ⟨q, hq, hqdeletes, hqfile, herr⟩ :=
        hretirable.files hcommit hindex ⟨p, hp, hdeletes, hfile⟩
      obtain ⟨account, haccount, -⟩ := h.mem_deletions hq hqdeletes
      obtain ⟨-, -, hall⟩ := unindexAll_true hunindexed
      obtain ⟨hok, -⟩ := hall _
        (slot_mem (hclean q.1 (fst_mem_of_mem_zipIdx hq)).1 hqdeletes.1 hqfile)
        (ne_nil_of_mem haccount)
      rw [herr] at hok
      cases hok
    | false =>
      rw [honest_iff_effects hrest (map_fail_results h _)]
      refine ⟨fun _ => ⟨hclean, fun hfails => absurd hfails hcommit,
        fun _ hfails => absurd hfails hindex, fun _ _ _ => ?_⟩, fun _ => effects_unindex h⟩
      obtain ⟨s, hs, hne, herr⟩ := unindexAll_false hunindexed
      obtain ⟨account, haccount⟩ := exists_mem_of_ne_nil _ hne
      obtain ⟨documentId, hdocument⟩ := exists_mem_of_ne_nil _ (h.nonempty _ _ haccount)
      obtain ⟨q, hq, hdeletes, hslot, -⟩ :=
        (h.deletions s.1 account.1 documentId).1 ⟨account, haccount, rfl, hdocument⟩
      have hqindex := index_of_slot hs hslot
      refine ⟨q, hq, hdeletes, ?_, hqindex ▸ herr⟩
      rintro hfile
      rw [hfile] at hqindex
      simp only [mem_cons, not_mem_nil, or_false] at hs
      rcases hs with rfl | rfl | rfl <;> cases hqindex

/-- The insertion of a message is lost when a deletion in the same batch cannot be committed. -/
def mixedBatch : List IndexTask :=
  [⟨.email, true, 1, 7⟩, ⟨.email, false, 1, 8⟩]

def commitDown : World Unit ℕ ℕ where
  build _ := .ok (some 7)
  isEmpty _ := false
  metadata _ := ([8], .ok ())
  commit := .error ()
  index := .ok ()
  unindex _ := .ok ()
  order accounts := accounts
  order_perm _ := .refl _

theorem insertion_lost :
    (∃ out, index commitDown mixedBatch = some out ∧
      (⟨.email, true, 1, 7⟩, 0) ∈ retired mixedBatch.zipIdx out.results ∧ out.indexed = []) ∧
    ¬Honest commitDown mixedBatch := by
  have hindex : index commitDown mixedBatch = some
      { results := [⟨.email, .insert, .success⟩, ⟨.email, .delete, .failed⟩] } := rfl
  have hretired : (⟨.email, true, 1, 7⟩, 0) ∈ retired mixedBatch.zipIdx
      [⟨.email, .insert, .success⟩, ⟨.email, .delete, .failed⟩] := by decide
  refine ⟨⟨_, hindex, hretired, rfl⟩, ?_⟩
  rintro ⟨out, hout, -, heffects⟩
  obtain rfl := Option.some_inj.1 (hout.symm.trans hindex)
  obtain ⟨-, hdocuments⟩ := (effect_insert (w := commitDown) rfl).1 (heffects _ hretired)
  cases hdocuments 7 (mem_singleton.2 rfl)

end MailServer.Tasks
