import MailServer.Lib.Run
import MailServer.Store.BatchBuilder

/-!
# The context of batched operations

What the calls of the builder say (`Intent`): each operation with the account, collection and
document last selected when it is pushed, each logged change with its account.  And what a backend
executes (`trace`): the operations with their contexts, the logged changes in its log operations.

Principal results: `serializeChanges_spec`; `execute_eq_some` — a batch is written if and only if it
selects no account without changes, and then its trace is executed.
-/

namespace MailServer.Store

open List (append_assoc append_nil mem_cons)

variable {F : Type}

/-! ## What the calls say -/

/-- The Value, Index or AssertValue operation of a call. -/
def Call.operation : Call F → Option (Operation F)
  | .withAccountId _ | .withCollection _ | .withDocument _ | .commitPoint => none
  | .assertValue class_ value => some (.assertValue class_ value)
  | .index field value => some (.index field value true)
  | .unindex field value => some (.index field value false)
  | .tag field => some (.index field [] true)
  | .untag field => some (.index field [] false)
  | .add class_ value => some (.value class_ (.atomicAdd value))
  | .addAndGet class_ value => some (.value class_ (.addAndGet value))
  | .set class_ value => some (.value class_ (.set value))
  | .setFnc class_ fnc => some (.value class_ (.setFnc fnc))
  | .mergeFnc class_ fnc => some (.value class_ (.mergeFnc fnc))
  | .clear class_ => some (.value class_ .clear)
  | .aclGrant grantAccountId op => some (.value (.acl grantAccountId) (.set op))
  | .aclRevoke grantAccountId => some (.value (.acl grantAccountId) .clear)
  | .logItemInsert .. | .logItemUpdate .. | .logItemDelete .. | .logContainerInsert _
  | .logContainerUpdate _ | .logContainerDelete _ | .logContainerPropertyChange ..
  | .logVanishedItem .. => none
  | .logShareNotification notificationId notifyAccountId value =>
    some (.value (.shareNotification notificationId notifyAccountId) (.set value))

/-- The change a call logs when `documentId` is selected. -/
def Call.change (documentId : Option UInt32) : Call F → Option (LogCollection × LoggedChange)
  | .logItemInsert c pre => documentId.map fun id => (.sync c, .change (.itemInsert pre id))
  | .logItemUpdate c pre => documentId.map fun id => (.sync c, .change (.itemUpdate pre id))
  | .logItemDelete c pre => documentId.map fun id => (.sync c, .change (.itemDelete pre id))
  | .logContainerInsert c => documentId.map fun id => (.sync c, .change (.containerInsert id))
  | .logContainerUpdate c => documentId.map fun id => (.sync c, .change (.containerUpdate id))
  | .logContainerDelete c => documentId.map fun id => (.sync c, .change (.containerDelete id))
  | .logContainerPropertyChange c id => some (.sync c, .change (.containerPropertyUpdate id))
  | .logVanishedItem c item => some (.vanished c, .vanished item)
  | _ => none

/-- A logged change with its account and collection; `call` is the number of the call. -/
structure LogRecord where
  call : ℕ
  accountId : UInt32
  collection : LogCollection
  change : LoggedChange
  deriving DecidableEq

def Call.record (calls : ℕ) (accountId documentId : Option UInt32) (call : Call F) :
    Option LogRecord :=
  match accountId, call.change documentId with
  | some accountId, some (collection, change) => some ⟨calls, accountId, collection, change⟩
  | _, _ => none

/-- Changes other than vanished items. -/
def LogRecord.isSync (r : LogRecord) : Bool :=
  match r.collection with
  | .sync _ => true
  | .vanished _ => false

/-- What the calls say: the operations with the selections they were pushed under, the logged
changes with their account, and the accounts selected so far. -/
structure Intent (F : Type) where
  account : Option UInt32
  collection : Option Collection
  document : Option UInt32
  operations : List (Operation F × Context)
  logs : List LogRecord
  selected : List UInt32
  changed : List UInt32
  calls : ℕ

/-- The context that selections stand for: what is not selected is as a backend starts. -/
def contextOf (account : Option UInt32) (collection : Option Collection)
    (document : Option UInt32) : Context where
  accountId := account.getD 0xFFFFFFFF
  collection := (collection.map Collection.toU8).getD 0xFF
  documentId := document.getD 0xFFFFFFFF

namespace Intent

def start : Intent F := ⟨none, none, none, [], [], [], [], 0⟩

def context (i : Intent F) : Context := contextOf i.account i.collection i.document

def record (i : Intent F) (call : Call F) : Option LogRecord :=
  call.record i.calls i.account i.document

/-- The selections of a call, and the account a share notification goes to. -/
def select (i : Intent F) : Call F → Intent F
  | .withAccountId a => { i with account := some a, selected := a :: i.selected }
  | .withCollection c => { i with collection := some c }
  | .withDocument d => { i with document := some d }
  | .logShareNotification _ a _ => { i with changed := a :: i.changed }
  | _ => i

def step (i : Intent F) (call : Call F) : Intent F :=
  { i.select call with
    operations := i.operations ++ (call.operation.map fun op => (op, i.context)).toList
    logs := i.logs ++ (i.record call).toList
    changed :=
      (((i.record call).filter LogRecord.isSync).map LogRecord.accountId).toList ++
        (i.select call).changed
    calls := i.calls + 1 }

end Intent

/-! ## What a backend executes -/

variable (ctx : Context)

/-- The context behind an operation. -/
def Context.apply : Operation F → Context
  | .accountId a => { ctx with accountId := a }
  | .collection c => { ctx with collection := c.toU8 }
  | .documentId d => { ctx with documentId := d }
  | _ => ctx

def Context.executed : Operation F → List (Executed F)
  | .accountId _ | .collection _ | .documentId _ => []
  | .log collection set => [.log ctx.accountId collection set]
  | op => [.operation op ctx]

/-- `execute` without the check for changes. -/
def trace (ctx : Context) : List (Operation F) → List (Executed F)
  | [] => []
  | op :: ops => ctx.executed op ++ trace (ctx.apply op) ops

def after (ops : List (Operation F)) : Context := ops.foldl Context.apply ctx

/-- Every account selected in the batch has changes, or no account has. -/
def Selectable (accounts : List UInt32) (ops : List (Operation F)) : Prop :=
  accounts = [] ∨ ∀ a, .accountId a ∈ ops → a ∈ accounts

theorem Selectable.cons_iff {accounts : List UInt32} {op : Operation F} {ops}
    (h : ∀ a, op ≠ .accountId a) : Selectable accounts (op :: ops) ↔ Selectable accounts ops := by
  refine or_congr_right ⟨fun hall a ha => hall a (.tail _ ha), fun hall a ha => ?_⟩
  rcases mem_cons.1 ha with heq | ha
  · cases h a heq.symm
  · exact hall a ha

theorem execute_eq_some {accounts : List UInt32} {ctx : Context} {ops : List (Operation F)}
    {executed : List (Executed F)} :
    execute accounts ctx ops = some executed ↔
      Selectable accounts ops ∧ executed = trace ctx ops := by
  induction ops generalizing ctx executed with
  | nil =>
    constructor
    · intro h
      cases h
      exact ⟨.inr nofun, rfl⟩
    · rintro ⟨-, rfl⟩
      rfl
  | cons op ops ih =>
    cases op with
    | accountId a =>
      unfold execute
      by_cases hbad : accounts ≠ [] ∧ a ∉ accounts
      · rw [if_pos hbad]
        refine ⟨(fun h => by cases h), fun h => ?_⟩
        rcases h.1 with hnil | hall
        · cases hbad.1 hnil
        · cases hbad.2 (hall a (.head _))
      · rw [if_neg hbad, ih]
        refine and_congr_left fun _ => ⟨fun h => ?_, fun h => ?_⟩
        · rcases h with hnil | hall
          · exact .inl hnil
          · by_cases hnil : accounts = []
            · exact .inl hnil
            · refine .inr fun a' ha' => ?_
              rcases mem_cons.1 ha' with heq | ha'
              · cases heq
                by_contra hmem
                exact hbad ⟨hnil, hmem⟩
              · exact hall a' ha'
        · exact h.imp id fun hall a' ha' => hall a' (.tail _ ha')
    | collection | documentId =>
      rw [Selectable.cons_iff (fun a h => by cases h)]
      exact ih
    | assertValue class_ value | value class_ op | index field key set | log collection set =>
      rw [Selectable.cons_iff (fun a h => by cases h)]
      unfold execute
      simp only [Option.map_eq_some_iff]
      constructor
      · rintro ⟨rest, hrest, rfl⟩
        obtain ⟨hsel, rfl⟩ := ih.1 hrest
        exact ⟨hsel, rfl⟩
      · rintro ⟨hsel, rfl⟩
        exact ⟨_, ih.2 ⟨hsel, rfl⟩, rfl⟩

theorem trace_append (xs ys : List (Operation F)) :
    trace ctx (xs ++ ys) = trace ctx xs ++ trace (after ctx xs) ys := by
  induction xs generalizing ctx with
  | nil => rfl
  | cons op xs ih =>
    change ctx.executed op ++ trace (ctx.apply op) (xs ++ ys) = _
    rw [ih, ← append_assoc]
    rfl

theorem after_append (xs ys : List (Operation F)) :
    after ctx (xs ++ ys) = after (after ctx xs) ys := List.foldl_append

/-- The Value, Index and AssertValue operations that were executed, with their contexts. -/
def operationsOf (executed : List (Executed F)) : List (Operation F × Context) :=
  executed.flatMap fun
    | .operation op ctx => [(op, ctx)]
    | .log .. => []

/-- The logged changes in the log operations that were executed. -/
def recordsOf (executed : List (Executed F)) : List LogRecord :=
  executed.flatMap fun
    | .operation .. => []
    | .log accountId collection set =>
      set.map fun l => ⟨l.call, accountId, collection, l.change⟩

theorem operationsOf_append (xs ys : List (Executed F)) :
    operationsOf (xs ++ ys) = operationsOf xs ++ operationsOf ys := List.flatMap_append

theorem recordsOf_append (xs ys : List (Executed F)) :
    recordsOf (xs ++ ys) = recordsOf xs ++ recordsOf ys := List.flatMap_append

theorem trace_singleton (op : Operation F) : trace ctx [op] = ctx.executed op :=
  append_nil _

/-! ## Pending changes -/

/-- The records of what waits in one map. -/
def logRecords {κ α : Type} (accountId : UInt32) (collection : κ → LogCollection)
    (change : α → LoggedChange) (m : InsertionMap κ (List (Logged α))) : List LogRecord :=
  m.flatMap fun entry =>
    entry.2.map fun l => ⟨l.call, accountId, collection entry.1, change l.change⟩

/-- The records of what waits for one account. -/
def ChangeLogBuilder.records (accountId : UInt32) (log : ChangeLogBuilder) : List LogRecord :=
  logRecords accountId .sync .change log.changes ++
    logRecords accountId .vanished .vanished log.vanished

def pendingRecords (changes : InsertionMap UInt32 ChangeLogBuilder) : List LogRecord :=
  changes.flatMap fun entry => entry.2.records entry.1

theorem logRecords_alter {κ α : Type} [DecidableEq κ] (a : UInt32) (collection : κ → LogCollection)
    (change : α → LoggedChange) (m : InsertionMap κ (List (Logged α))) (c : κ) (l : Logged α) :
    (logRecords a collection change (m.alter c [] (· ++ [l]))).Perm
      (logRecords a collection change m ++ [⟨l.call, a, collection c, change l.change⟩]) :=
  InsertionMap.flatMap_alter_perm rfl fun _ => .of_eq List.map_append

theorem ChangeLogBuilder.records_log (a : UInt32) (c : SyncCollection) (l : Logged LogCall)
    (log : ChangeLogBuilder) :
    ((log.log c l).records a).Perm (log.records a ++ [⟨l.call, a, .sync c, .change l.change⟩]) := by
  have hchanges := logRecords_alter a .sync .change log.changes c l
  unfold records
  rw [append_assoc]
  refine (hchanges.append_right _).trans ?_
  rw [append_assoc]
  exact List.perm_append_comm.append_left _

theorem ChangeLogBuilder.records_logVanishedItem (a : UInt32) (c : VanishedCollection)
    (l : Logged VanishedItem) (log : ChangeLogBuilder) :
    ((log.logVanishedItem c l).records a).Perm
      (log.records a ++ [⟨l.call, a, .vanished c, .vanished l.change⟩]) := by
  have hvanished := logRecords_alter a .vanished .vanished log.vanished c l
  unfold records
  rw [append_assoc]
  exact hvanished.append_left _

/-- A list of operations that leaves the context alone and logs `records`. -/
structure LogsOnly (ctx : Context) (ops : List (Operation F)) (records : List LogRecord) :
    Prop where
  operations : operationsOf (trace ctx ops) = []
  records : recordsOf (trace ctx ops) = records
  after : after ctx ops = ctx

theorem LogsOnly.append {ctx : Context} {ops ops' : List (Operation F)}
    {records records' : List LogRecord} (h : LogsOnly ctx ops records)
    (h' : LogsOnly ctx ops' records') : LogsOnly ctx (ops ++ ops') (records ++ records') where
  operations := by
    rw [trace_append, operationsOf_append, h.after, h.operations, h'.operations]
    rfl
  records := by rw [trace_append, recordsOf_append, h.after, h.records, h'.records]
  after := by rw [after_append, h.after, h'.after]

theorem logOperations_logsOnly {κ α : Type} (collection : κ → LogCollection)
    (change : α → LoggedChange) (m : InsertionMap κ (List (Logged α))) :
    LogsOnly (F := F) ctx (logOperations collection change m)
      (logRecords ctx.accountId collection change m) := by
  induction m with
  | nil => exact ⟨rfl, rfl, rfl⟩
  | cons entry rest ih =>
    have hentry : LogsOnly (F := F) ctx (logOperations collection change [entry])
        (logRecords ctx.accountId collection change [entry]) := by
      refine ⟨rfl, ?_, rfl⟩
      change ((entry.2.map _).map _ ++ []) = _
      rw [append_nil, List.map_map]
      exact (append_nil _).symm
    have happend := hentry.append ih
    rwa [logRecords, logRecords, ← List.flatMap_append] at happend

theorem ChangeLogBuilder.operations_logsOnly (log : ChangeLogBuilder) :
    LogsOnly (F := F) ctx log.operations (log.records ctx.accountId) :=
  (logOperations_logsOnly ctx .sync .change log.changes).append
    (logOperations_logsOnly ctx .vanished .vanished log.vanished)

/-! ## Serialization -/

/-- What `serialize_changes` does: it appends `ops`, which log the records and select the last of
their accounts. -/
structure Serialized (b b' : BatchBuilder F) (entries : InsertionMap UInt32 ChangeLogBuilder)
    (ops : List (Operation F)) : Prop where
  ops_eq : b'.ops = b.ops ++ ops
  account : b'.currentAccountId = (entries.getLast?.map Prod.fst).or b.currentAccountId
  collection : b'.currentCollection = b.currentCollection
  document : b'.currentDocumentId = b.currentDocumentId
  commitPoints : b'.commitPoints = b.commitPoints
  changes : b'.changes = b.changes
  calls : b'.calls = b.calls
  operations : ∀ ctx : Context, ctx.accountId = b.currentAccountId.getD 0xFFFFFFFF →
    operationsOf (trace ctx ops) = []
  records : ∀ ctx : Context, ctx.accountId = b.currentAccountId.getD 0xFFFFFFFF →
    recordsOf (trace ctx ops) = pendingRecords entries
  after : ∀ ctx : Context, ctx.accountId = b.currentAccountId.getD 0xFFFFFFFF →
    after ctx ops = { ctx with accountId := b'.currentAccountId.getD 0xFFFFFFFF }
  selects : ∀ a, .accountId a ∈ ops → a ∈ entries.keys

variable (b : BatchBuilder F)

theorem Serialized.refl : Serialized b b [] [] where
  ops_eq := (append_nil _).symm
  account := rfl
  collection := rfl
  document := rfl
  commitPoints := rfl
  changes := rfl
  calls := rfl
  operations _ _ := rfl
  records _ _ := rfl
  after ctx h := by
    rw [← h]
    rfl
  selects _ ha := nomatch ha

theorem Serialized.trans {b b' b'' : BatchBuilder F}
    {entries entries'} {ops ops' : List (Operation F)}
    (h : Serialized b b' entries ops) (h' : Serialized b' b'' entries' ops') :
    Serialized b b'' (entries ++ entries') (ops ++ ops') where
  ops_eq := by rw [h'.ops_eq, h.ops_eq, append_assoc]
  account := by
    rw [h'.account, h.account, List.getLast?_append]
    cases entries'.getLast? with
    | none | some => rfl
  collection := h'.collection.trans h.collection
  document := h'.document.trans h.document
  commitPoints := h'.commitPoints.trans h.commitPoints
  changes := h'.changes.trans h.changes
  calls := h'.calls.trans h.calls
  operations ctx hctx := by
    rw [trace_append, operationsOf_append, h.operations ctx hctx, h.after ctx hctx]
    exact h'.operations _ rfl
  records ctx hctx := by
    rw [trace_append, recordsOf_append, h.records ctx hctx, h.after ctx hctx, h'.records _ rfl]
    exact List.flatMap_append.symm
  after ctx hctx := by rw [after_append, h.after ctx hctx, h'.after _ rfl]
  selects a ha := by
    rw [InsertionMap.keys, List.map_append, List.mem_append]
    exact (List.mem_append.1 ha).imp (h.selects a) (h'.selects a)

theorem ChangeLogBuilder.accountId_not_mem_operations (log : ChangeLogBuilder) (a : UInt32) :
    (.accountId a : Operation F) ∉ log.operations := by
  intro ha
  rcases List.mem_append.1 ha with ha | ha
  · obtain ⟨_, _, heq⟩ := List.mem_map.1 ha
    cases heq
  · obtain ⟨_, _, heq⟩ := List.mem_map.1 ha
    cases heq

theorem serializeAccount_spec (entry : UInt32 × ChangeLogBuilder) :
    ∃ ops, Serialized b (b.serializeAccount entry) [entry] ops := by
  have hlogs (ctx : Context) := entry.2.operations_logsOnly (F := F) ctx
  unfold BatchBuilder.serializeAccount BatchBuilder.withAccountId
  by_cases hcur : b.currentAccountId = some entry.1
  · have hget : b.currentAccountId.getD 0xFFFFFFFF = entry.1 := by rw [hcur]; rfl
    simp only [hcur, if_true]
    refine ⟨entry.2.operations, ?_⟩
    exact {
      ops_eq := rfl
      account := rfl
      collection := rfl
      document := rfl
      commitPoints := rfl
      changes := rfl
      calls := rfl
      operations := fun ctx _ => (hlogs ctx).operations
      records := fun ctx hctx => by
        rw [(hlogs ctx).records, hctx, hget]
        exact (append_nil _).symm
      after := fun ctx hctx => by
        rw [(hlogs ctx).after]
        change ctx = { ctx with accountId := entry.1 }
        rw [← hget, ← hctx]
      selects := fun a ha => absurd ha (entry.2.accountId_not_mem_operations a) }
  · simp only [hcur]
    refine ⟨.accountId entry.1 :: entry.2.operations, ?_⟩
    exact {
      ops_eq := append_assoc _ _ _
      account := rfl
      collection := rfl
      document := rfl
      commitPoints := rfl
      changes := rfl
      calls := rfl
      operations := fun ctx _ => (hlogs { ctx with accountId := entry.1 }).operations
      records := fun ctx _ =>
        (hlogs { ctx with accountId := entry.1 }).records.trans (append_nil _).symm
      after := fun ctx _ => (hlogs { ctx with accountId := entry.1 }).after
      selects := fun a ha => by
        rcases mem_cons.1 ha with heq | ha
        · cases heq
          exact List.mem_singleton.2 rfl
        · exact absurd ha (entry.2.accountId_not_mem_operations a) }

theorem foldl_serializeAccount_spec (entries : InsertionMap UInt32 ChangeLogBuilder)
    (b : BatchBuilder F) :
    ∃ ops, Serialized b (entries.foldl BatchBuilder.serializeAccount b) entries ops := by
  induction entries generalizing b with
  | nil => exact ⟨[], .refl b⟩
  | cons entry rest ih =>
    obtain ⟨ops, h⟩ := serializeAccount_spec b entry
    obtain ⟨ops', h'⟩ := ih (b.serializeAccount entry)
    exact ⟨ops ++ ops', h.trans h'⟩

theorem serializeChanges_spec :
    ∃ ops, Serialized { b with changes := [] } b.serializeChanges b.changes ops :=
  foldl_serializeAccount_spec b.changes _

/-! ## Accounts with changes -/

theorem mem_keys_noteChanges (a : UInt32) (entries : List (SyncCollection × List (Logged LogCall)))
    (changed : InsertionMap UInt32 ChangedCollection) (k : UInt32) :
    k ∈ (entries.foldl (noteChanges a) changed).keys ↔
      k ∈ changed.keys ∨ (k = a ∧ entries ≠ []) := by
  induction entries generalizing changed with
  | nil => simp
  | cons entry rest ih =>
    have hnote : k ∈ (noteChanges a changed entry).keys ↔ k = a ∨ k ∈ changed.keys :=
      InsertionMap.mem_keys_alter
    rw [List.foldl_cons, ih, hnote]
    constructor
    · rintro ((heq | hmem) | ⟨heq, -⟩)
      · exact .inr ⟨heq, List.cons_ne_nil _ _⟩
      · exact .inl hmem
      · exact .inr ⟨heq, List.cons_ne_nil _ _⟩
    · rintro (hmem | ⟨heq, -⟩)
      · exact .inl (.inr hmem)
      · exact .inl (.inl heq)

/-- The accounts that have changes in the batch, written or pending. -/
def BatchBuilder.HasChanges (a : UInt32) : Prop :=
  a ∈ b.changedCollections.keys ∨ ∃ entry ∈ b.changes, entry.1 = a ∧ entry.2.changes ≠ []

theorem withAccountId_changes (a : UInt32) :
    (b.withAccountId a).changes = b.changes ∧
      (b.withAccountId a).changedCollections = b.changedCollections := by
  unfold BatchBuilder.withAccountId
  split
  · exact ⟨rfl, rfl⟩
  · exact ⟨rfl, rfl⟩

theorem mem_keys_foldl_serializeAccount (entries : InsertionMap UInt32 ChangeLogBuilder)
    (b : BatchBuilder F) (a : UInt32) :
    a ∈ (entries.foldl BatchBuilder.serializeAccount b).changedCollections.keys ↔
      a ∈ b.changedCollections.keys ∨ ∃ entry ∈ entries, entry.1 = a ∧ entry.2.changes ≠ [] := by
  induction entries generalizing b with
  | nil => simp
  | cons entry rest ih =>
    have hentry : a ∈ (b.serializeAccount entry).changedCollections.keys ↔
        a ∈ b.changedCollections.keys ∨ (a = entry.1 ∧ entry.2.changes ≠ []) := by
      change a ∈ (entry.2.changes.foldl (noteChanges entry.1)
        (b.withAccountId entry.1).changedCollections).keys ↔ _
      rw [mem_keys_noteChanges, (withAccountId_changes b entry.1).2]
    rw [List.foldl_cons, ih, hentry, or_assoc]
    simp only [mem_cons, exists_eq_or_imp, eq_comm (a := a)]

theorem mem_keys_serializeChanges (a : UInt32) :
    a ∈ b.serializeChanges.changedCollections.keys ↔ b.HasChanges a :=
  mem_keys_foldl_serializeAccount b.changes _ a

end MailServer.Store
