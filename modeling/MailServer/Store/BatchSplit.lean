import MailServer.Store.BatchContext

/-!
# Splitting a batch

A batch is written whole, or segment by segment between the commit points that fired, each segment
from the initial context of the backend.

Principal results: `step_matches`, `batch_context_iff`, `commitPoint_switches_account`.
-/

namespace MailServer.Store

open List

variable {F : Type}

/-! ## Runs -/

/-- What decides whether a call keeps its context: `switched` says that the builder goes on with
another account than the one selected, `document` was selected since the last commit point. -/
structure Watch where
  switched : Bool
  document : Option UInt32

def BatchBuilder.lastPending (b : BatchBuilder F) : Option UInt32 := b.changes.getLast?.map Prod.fst

/-- The builder, what the calls say, and what decides about the context. -/
structure BatchRun (F : Type) where
  builder : BatchBuilder F
  intent : Intent F
  watch : Watch

namespace BatchRun

def start : BatchRun F := ⟨.new, .start, ⟨false, none⟩⟩

/-- A selected account and document are in force again; a commit point drops the document and goes
on with the last account that has pending changes. -/
def watchStep (r : BatchRun F) : Call F → Watch
  | .withAccountId _ => { r.watch with switched := false }
  | .withDocument d => { r.watch with document := some d }
  | .commitPoint =>
    if r.builder.isLargeBatch then
      { switched :=
          match r.builder.lastPending with
          | some a => decide (some a ≠ r.intent.account)
          | none => r.watch.switched
        document := none }
    else r.watch
  | _ => r.watch

def step (r : BatchRun F) (call : Call F) : BatchRun F :=
  ⟨r.builder.step call, r.intent.step call, r.watchStep call⟩

/-- The condition on a call: an operation finds the selected account in force, and the selected
document selected since the last commit point (or equal to what a backend starts with); a logged
change finds the selected account in force. -/
structure KeepsContext (r : BatchRun F) (call : Call F) : Prop where
  account : call.operation.isSome ∨ (r.intent.record call).isSome →
    r.watch.switched = false
  document : call.operation.isSome →
    r.watch.document.getD 0xFFFFFFFF = r.intent.document.getD 0xFFFFFFFF

end BatchRun

/-! ## Segments -/

/-- What is executed when the batch is written segment by segment. -/
def BatchBuilder.segmentsTrace (b : BatchBuilder F) : List (Executed F) :=
  (Slices.slices b.ops 0 b.commitPoints).flatMap (trace .initial)

def BatchBuilder.context (b : BatchBuilder F) : Context :=
  contextOf b.currentAccountId b.currentCollection b.currentDocumentId

/-- The segments of the batch: those that are closed, and the last one, which leaves the context
`ctx`. -/
structure Segmented (b : BatchBuilder F) (closed : List (List (Operation F)))
    (last : List (Operation F)) (ctx : Context) : Prop where
  ops : b.ops = closed.flatten ++ last
  commitPoints : b.commitPoints = Slices.offsets 0 closed
  after : after .initial last = ctx

variable {b b' : BatchBuilder F} {closed : List (List (Operation F))} {last : List (Operation F)}
  {ctx : Context}

theorem Segmented.trace (h : Segmented b closed last ctx) :
    b.segmentsTrace = closed.flatMap (trace .initial) ++ Store.trace .initial last := by
  unfold BatchBuilder.segmentsTrace
  rw [h.ops, h.commitPoints, Slices.slices_offsets, flatMap_append, flatMap_singleton]

theorem Segmented.append (h : Segmented b closed last ctx) (b' : BatchBuilder F)
    {ops} (hops : b'.ops = b.ops ++ ops) (hpoints : b'.commitPoints = b.commitPoints) :
    Segmented b' closed (last ++ ops) (Store.after ctx ops) ∧
      b'.segmentsTrace = b.segmentsTrace ++ Store.trace ctx ops := by
  have h' : Segmented b' closed (last ++ ops) (Store.after ctx ops) := by
    refine ⟨?_, hpoints.trans h.commitPoints, ?_⟩
    · rw [hops, h.ops, append_assoc]
    · rw [after_append, h.after]
  refine ⟨h', ?_⟩
  rw [h'.trace, h.trace, trace_append, h.after, append_assoc]

/-- A commit point closes the last segment behind `ops`, and the next one starts with `next`. -/
theorem Segmented.cut (h : Segmented b closed last ctx) {ops next}
    (hops : b'.ops = b.ops ++ ops ++ next)
    (hpoints : b'.commitPoints = b.commitPoints ++ [(b.ops ++ ops).length]) :
    Segmented b' (closed ++ [last ++ ops]) next (Store.after .initial next) ∧
      b'.segmentsTrace = b.segmentsTrace ++ Store.trace ctx ops ++ Store.trace .initial next := by
  have hlength : (b.ops ++ ops).length = 0 + closed.flatten.length + (last ++ ops).length := by
    rw [h.ops]
    simp only [length_append]
    omega
  have h' : Segmented b' (closed ++ [last ++ ops]) next (Store.after .initial next) := by
    refine ⟨?_, ?_, rfl⟩
    · rw [hops, h.ops]
      simp only [flatten_append, flatten_cons, flatten_nil, append_nil,
        append_assoc]
    · rw [hpoints, h.commitPoints, Slices.offsets_append, hlength]
  refine ⟨h', ?_⟩
  rw [h'.trace, h.trace, flatMap_append, flatMap_singleton, trace_append, h.after]
  simp only [append_assoc]

/-! ## The invariant -/

namespace BatchRun

def segmentContext (r : BatchRun F) : Context :=
  { r.builder.context with documentId := r.watch.document.getD 0xFFFFFFFF }

/-- **The invariant of a run**: the contexts that the operations leave, the agreement of the
selections, and where the accounts and records come from. -/
structure Sound (r : BatchRun F) : Prop where
  whole : after .initial r.builder.ops = r.builder.context
  segments : ∃ closed last, Segmented r.builder closed last r.segmentContext
  records : recordsOf r.builder.segmentsTrace = recordsOf (trace .initial r.builder.ops)
  collection : r.builder.currentCollection = r.intent.collection
  document : r.builder.currentDocumentId = r.intent.document
  account : r.watch.switched = false ↔ r.builder.currentAccountId = r.intent.account
  isSome : r.builder.currentAccountId.isSome = r.intent.account.isSome
  calls : r.builder.calls = r.intent.calls
  pending : r.builder.changes ≠ [] → r.builder.currentAccountId.isSome
  pendingSelected : ∀ a ∈ r.builder.changes.keys, a ∈ r.intent.selected
  selected : ∀ a, .accountId a ∈ r.builder.ops ↔ a ∈ r.intent.selected
  current : ∀ a, r.builder.currentAccountId = some a → a ∈ r.intent.selected
  fresh : ∀ l ∈ recordsOf (trace .initial r.builder.ops) ++ pendingRecords r.builder.changes,
    l.call < r.builder.calls
  freshIntent : ∀ l ∈ r.intent.logs, l.call < r.builder.calls

/-- What the calls say is what will be executed. -/
structure Matches (r : BatchRun F) : Prop where
  whole : operationsOf (trace .initial r.builder.ops) = r.intent.operations
  segments : operationsOf r.builder.segmentsTrace = r.intent.operations
  logs : (recordsOf (trace .initial r.builder.ops) ++ pendingRecords r.builder.changes).Perm
    r.intent.logs

theorem start_sound : (start : BatchRun F).Sound where
  whole := rfl
  segments := ⟨[], [], rfl, rfl, rfl⟩
  records := rfl
  collection := rfl
  document := rfl
  account := ⟨fun _ => rfl, fun _ => rfl⟩
  isSome := rfl
  calls := rfl
  pending h := absurd rfl h
  pendingSelected _ ha := nomatch ha
  selected _ := ⟨fun ha => absurd ha not_mem_nil, fun ha => absurd ha not_mem_nil⟩
  current _ h := by cases h
  fresh _ hl := nomatch hl
  freshIntent _ hl := nomatch hl

theorem start_matches : (start : BatchRun F).Matches := ⟨rfl, rfl, .nil⟩

end BatchRun

/-! ## What a call does to the builder -/

/-- The calls that log changes. -/
def Call.logs : Call F → Bool
  | .logItemInsert .. | .logItemUpdate .. | .logItemDelete .. | .logContainerInsert _
  | .logContainerUpdate _ | .logContainerDelete _ | .logContainerPropertyChange ..
  | .logVanishedItem .. => true
  | _ => false

/-- The selections and commit points of two builders agree. -/
structure SameSelections (b b' : BatchBuilder F) : Prop where
  account : b'.currentAccountId = b.currentAccountId
  collection : b'.currentCollection = b.currentCollection
  document : b'.currentDocumentId = b.currentDocumentId
  commitPoints : b'.commitPoints = b.commitPoints

theorem SameSelections.context (h : SameSelections b b') : b'.context = b.context := by
  unfold BatchBuilder.context
  rw [h.account, h.collection, h.document]

section

variable {call : Call F} {op : Operation F} (h : call.operation = some op)
include h

theorem perform_operation (b : BatchBuilder F) : SameSelections b (b.perform call) ∧
      (b.perform call).ops = b.ops ++ [op] ∧ (b.perform call).changes = b.changes := by
  cases call
  all_goals first
    | (cases h; done)
    | (cases h; exact ⟨⟨rfl, rfl, rfl, rfl⟩, rfl, rfl⟩)

theorem executed_operation (ctx : Context) :
    ctx.executed op = [.operation op ctx] ∧ ctx.apply op = ctx ∧
      ∀ a, op ≠ .accountId a := by
  cases call
  all_goals first
    | (cases h; done)
    | (cases h; exact ⟨rfl, rfl, fun a ha => by cases ha⟩)

theorem change_of_operation (documentId : Option UInt32) : call.change documentId = none := by
  cases call
  all_goals first
    | (cases h; done)
    | rfl

end

theorem logInto_pending (b : BatchBuilder F) (a : UInt32) (c : SyncCollection) (change : LogCall) :
    (pendingRecords (b.logInto a c change).changes).Perm
      (pendingRecords b.changes ++ [⟨b.calls, a, .sync c, .change change⟩]) :=
  InsertionMap.flatMap_alter_perm rfl fun log => log.records_log a c ⟨b.calls, change⟩

/-- What the `log_*` calls do: the record of the call becomes pending. -/
structure Logs (b b' : BatchBuilder F) (record : Option LogRecord) : Prop where
  selections : SameSelections b b'
  ops : b'.ops = b.ops
  pending : (pendingRecords b'.changes).Perm (pendingRecords b.changes ++ record.toList)
  keys : ∀ a, a ∈ b'.changes.keys ↔ a ∈ b.changes.keys ∨ record.map LogRecord.accountId = some a
  changed : ∀ a, b'.HasChanges a ↔
    b.HasChanges a ∨ (record.filter LogRecord.isSync).map LogRecord.accountId = some a

theorem Logs.none (b : BatchBuilder F) : Logs b b none where
  selections := ⟨rfl, rfl, rfl, rfl⟩
  ops := rfl
  pending := .of_eq (append_nil _).symm
  keys a := by simp
  changed a := by simp

theorem logInto_logs (b : BatchBuilder F) (a : UInt32) (c : SyncCollection) (change : LogCall) :
    Logs b (b.logInto a c change) (some ⟨b.calls, a, .sync c, .change change⟩) where
  selections := ⟨rfl, rfl, rfl, rfl⟩
  ops := rfl
  pending := logInto_pending b a c change
  keys k := by
    have hkeys : k ∈ (b.logInto a c change).changes.keys ↔ k = a ∨ k ∈ b.changes.keys :=
      InsertionMap.mem_keys_alter
    rw [hkeys, or_comm]
    simp only [Option.map_some, Option.some.injEq, eq_comm]
  changed k := by
    have hchanges : (∃ entry ∈ (b.logInto a c change).changes, entry.1 = k ∧ entry.2.changes ≠ []) ↔
        (∃ entry ∈ b.changes, entry.1 = k ∧ entry.2.changes ≠ []) ∨ (k = a ∧ True) :=
      InsertionMap.exists_mem_alter (P := fun log : ChangeLogBuilder => log.changes ≠ [])
        (iff_true_intro InsertionMap.alter_ne_nil) fun log => by
          rw [or_true]
          exact iff_true_intro InsertionMap.alter_ne_nil
    unfold BatchBuilder.HasChanges
    rw [hchanges, or_assoc]
    simp only [BatchBuilder.logInto, LogRecord.isSync, Option.filter_some, if_true, Option.map_some,
      Option.some.injEq, and_true, eq_comm]

theorem logVanishedItem_logs (b : BatchBuilder F) (c : VanishedCollection) (item : VanishedItem) :
    Logs b (b.logVanishedItem c item)
      (b.currentAccountId.map fun a => ⟨b.calls, a, .vanished c, .vanished item⟩) := by
  unfold BatchBuilder.logVanishedItem
  cases hcur : b.currentAccountId with
  | none => exact .none b
  | some a =>
    refine ⟨⟨hcur.symm, rfl, rfl, rfl⟩, rfl, ?_, fun k => ?_, fun k => ?_⟩
    · exact InsertionMap.flatMap_alter_perm rfl fun log =>
        log.records_logVanishedItem a c ⟨b.calls, item⟩
    · have hkeys : k ∈ (b.changes.alter a .empty
          (·.logVanishedItem c ⟨b.calls, item⟩)).keys ↔ k = a ∨ k ∈ b.changes.keys :=
        InsertionMap.mem_keys_alter
      rw [hkeys, or_comm]
      simp only [Option.map_some, Option.some.injEq, eq_comm]
    · have hchanges : (∃ entry ∈ b.changes.alter a .empty
            (·.logVanishedItem c ⟨b.calls, item⟩), entry.1 = k ∧ entry.2.changes ≠ []) ↔
          (∃ entry ∈ b.changes, entry.1 = k ∧ entry.2.changes ≠ []) ∨ (k = a ∧ False) :=
        InsertionMap.exists_mem_alter (P := fun log : ChangeLogBuilder => log.changes ≠ [])
          (iff_false_intro fun h => h rfl) fun log => by
            rw [or_false]
            exact Iff.rfl
      unfold BatchBuilder.HasChanges
      rw [hchanges]
      simp [LogRecord.isSync]

theorem logDocument_logs (b : BatchBuilder F) (c : SyncCollection) (change : UInt32 → LogCall) :
    Logs b (b.logDocument c change)
      (match b.currentAccountId, b.currentDocumentId.map fun id =>
          (LogCollection.sync c, LoggedChange.change (change id)) with
        | some a, some (c, x) => some ⟨b.calls, a, c, x⟩
        | _, _ => none) := by
  unfold BatchBuilder.logDocument
  cases b.currentAccountId with
  | none => exact .none b
  | some a =>
    cases b.currentDocumentId with
    | none => exact .none b
    | some id => exact logInto_logs b a c (change id)

theorem perform_logs {call : Call F} (h : call.logs) (b : BatchBuilder F) :
    Logs b (b.perform call) (call.record b.calls b.currentAccountId b.currentDocumentId) := by
  cases call with
  | logItemInsert c pre => exact logDocument_logs b c (.itemInsert pre)
  | logItemUpdate c pre => exact logDocument_logs b c (.itemUpdate pre)
  | logItemDelete c pre => exact logDocument_logs b c (.itemDelete pre)
  | logContainerInsert c => exact logDocument_logs b c .containerInsert
  | logContainerUpdate c => exact logDocument_logs b c .containerUpdate
  | logContainerDelete c => exact logDocument_logs b c .containerDelete
  | logContainerPropertyChange c id =>
    change Logs b (b.logContainerPropertyChange c id) _
    unfold BatchBuilder.logContainerPropertyChange Call.record
    cases b.currentAccountId with
    | none => exact .none b
    | some a => exact logInto_logs b a c (.containerPropertyUpdate id)
  | logVanishedItem c item =>
    have hlogs := logVanishedItem_logs b c item
    cases hcur : b.currentAccountId with
    | none | some =>
      rw [hcur] at hlogs
      exact hlogs
  | _ => cases h

theorem select_other {call : Call F} (h : call.operation.isSome ∨ call.logs)
    (r : BatchRun F) :
    r.watchStep call = r.watch ∧ (r.intent.select call).account = r.intent.account ∧
      (r.intent.select call).collection = r.intent.collection ∧
      (r.intent.select call).document = r.intent.document ∧
      (r.intent.select call).selected = r.intent.selected := by
  cases call
  all_goals first
    | exact ⟨rfl, rfl, rfl, rfl, rfl⟩
    | (rcases h with h | h <;> cases h)

namespace BatchRun

variable {r : BatchRun F} {call : Call F}

/-! ## Operations -/

theorem contextOf_eq_iff {a a'} (h : a.isSome = a'.isSome) (c : Option Collection)
    (d : Option UInt32) : contextOf a c d = contextOf a' c d ↔ a = a' := by
  constructor
  · intro heq
    have haccount : a.getD 0xFFFFFFFF = a'.getD 0xFFFFFFFF := congrArg Context.accountId heq
    cases a with
    | none =>
      cases a' with
      | none => rfl
      | some x => cases h
    | some x =>
      cases a' with
      | none => cases h
      | some y => exact congrArg some haccount
  · rintro rfl
    rfl

theorem Sound.context_eq_iff (h : r.Sound) :
    r.builder.context = r.intent.context ↔ r.watch.switched = false := by
  unfold BatchBuilder.context Intent.context
  rw [h.collection, h.document, contextOf_eq_iff h.isSome, h.account]

theorem Sound.segmentContext_eq_iff (h : r.Sound) :
    r.segmentContext = r.intent.context ↔ r.watch.switched = false ∧
      r.watch.document.getD 0xFFFFFFFF = r.intent.document.getD 0xFFFFFFFF := by
  rw [← h.context_eq_iff]
  unfold segmentContext
  constructor
  · intro heq
    have hdocument : r.watch.document.getD 0xFFFFFFFF = r.intent.document.getD 0xFFFFFFFF :=
      congrArg Context.documentId heq
    refine ⟨?_, hdocument⟩
    have hcontext : r.builder.context.documentId = r.intent.document.getD 0xFFFFFFFF :=
      congrArg (Option.getD · 0xFFFFFFFF) h.document
    rw [← heq, hdocument, ← hcontext]
  · rintro ⟨heq, hdocument⟩
    rw [hdocument, heq]
    rfl

theorem record_call {calls : ℕ} {accountId documentId} {record : LogRecord}
    (h : call.record calls accountId documentId = some record) : record.call = calls := by
  unfold Call.record at h
  split at h
  · cases h
    rfl
  · cases h

theorem Sound.freshIntent_step (h : r.Sound) :
    ∀ l ∈ (r.step call).intent.logs, l.call < r.builder.calls + 1 := by
  intro l hl
  rcases mem_append.1 hl with hl | hl
  · exact Nat.lt_succ_of_lt (h.freshIntent l hl)
  · have hcall : l.call = r.intent.calls := record_call (Option.mem_toList.1 hl)
    rw [hcall, ← h.calls]
    exact Nat.lt_succ_self _

/-- A call that selects nothing keeps the invariant: it appends `ops`, which leave every context
alone, and its pending changes are those of the current account. -/
theorem Sound.step_same (h : r.Sound) {ops}
    (hother : call.operation.isSome ∨ call.logs)
    (hsame : SameSelections r.builder (r.builder.perform call))
    (hops : (r.builder.perform call).ops = r.builder.ops ++ ops)
    (hafter : ∀ ctx, after ctx ops = ctx) (hrecords : ∀ ctx, recordsOf (trace ctx ops) = [])
    (haccounts : ∀ a, .accountId a ∉ ops)
    (hkeys : ∀ a ∈ (r.builder.perform call).changes.keys,
      a ∈ r.builder.changes.keys ∨ r.builder.currentAccountId = some a)
    (hpending : ∀ l ∈ pendingRecords (r.builder.perform call).changes,
      l ∈ pendingRecords r.builder.changes ∨ l.call = r.builder.calls) :
    (r.step call).Sound := by
  obtain ⟨hwatch, haccount, hcollection, hdocument, hselected⟩ := select_other hother r
  obtain ⟨closed, last, hsegments⟩ := h.segments
  obtain ⟨hsegments', hsegmentsTrace⟩ :=
    hsegments.append (r.step call).builder hops hsame.commitPoints
  have hcontext : (r.step call).builder.context = r.builder.context := hsame.context
  have hwatch' : (r.step call).watch = r.watch := hwatch
  have hsegmentContext : (r.step call).segmentContext = r.segmentContext := by
    unfold segmentContext
    rw [hcontext, hwatch']
  have hwhole : recordsOf (trace .initial (r.step call).builder.ops) =
      recordsOf (trace .initial r.builder.ops) := by
    change recordsOf (trace .initial (r.builder.perform call).ops) = _
    rw [hops, trace_append, recordsOf_append, hrecords, append_nil]
  exact {
    whole := by
      change after .initial (r.builder.perform call).ops = _
      rw [hops, after_append, h.whole, hafter, hcontext]
    segments := by
      refine ⟨closed, last ++ ops, ?_⟩
      rw [hafter] at hsegments'
      rw [hsegmentContext]
      exact hsegments'
    records := by
      rw [hsegmentsTrace, recordsOf_append, hrecords, append_nil, hwhole, h.records]
    collection := (hsame.collection.trans h.collection).trans hcollection.symm
    document := (hsame.document.trans h.document).trans hdocument.symm
    account := by
      change (r.watchStep call).switched = false ↔
        (r.builder.perform call).currentAccountId = (r.intent.select call).account
      rw [hwatch, hsame.account, haccount]
      exact h.account
    isSome := by
      change (r.builder.perform call).currentAccountId.isSome =
        (r.intent.select call).account.isSome
      rw [hsame.account, haccount]
      exact h.isSome
    calls := congrArg (· + 1) h.calls
    pending := by
      intro hne
      obtain ⟨entry, rest, heq⟩ := exists_cons_of_ne_nil hne
      have hmem : entry.1 ∈ (r.builder.perform call).changes.keys :=
        mem_map_of_mem (heq ▸ (.head _))
      change (r.builder.perform call).currentAccountId.isSome
      rw [hsame.account]
      rcases hkeys _ hmem with hmem | hcur
      · obtain ⟨entry', hentry', -⟩ := mem_map.1 hmem
        exact h.pending (ne_nil_of_mem hentry')
      · rw [hcur]
        rfl
    pendingSelected := fun a ha => by
      change a ∈ (r.intent.select call).selected
      rw [hselected]
      rcases hkeys a ha with ha | hcur
      · exact h.pendingSelected a ha
      · exact h.current a hcur
    selected := fun a => by
      change .accountId a ∈ (r.builder.perform call).ops ↔ a ∈ (r.intent.select call).selected
      rw [hops, hselected, mem_append, h.selected]
      exact or_iff_left (haccounts a)
    current := fun a ha => by
      change a ∈ (r.intent.select call).selected
      rw [hselected]
      exact h.current a (hsame.account.symm.trans ha)
    fresh := fun l hl => by
      rw [hwhole] at hl
      rcases mem_append.1 hl with hl | hl
      · exact Nat.lt_succ_of_lt (h.fresh l (mem_append_left _ hl))
      · rcases hpending l hl with hl | hcall
        · exact Nat.lt_succ_of_lt (h.fresh l (mem_append_right _ hl))
        · exact hcall ▸ Nat.lt_succ_self _
    freshIntent := h.freshIntent_step }

/-- **A Value, Index or AssertValue operation.** -/
theorem step_operation (h : r.Sound) {op : Operation F} (hop : call.operation = some op) :
    ((r.step call).Matches ↔ r.Matches ∧ r.KeepsContext call) ∧ (r.step call).Sound := by
  have hisSome : call.operation.isSome := by rw [hop]; rfl
  obtain ⟨hsame, hops, hchanges⟩ := perform_operation hop r.builder
  have hexecuted (ctx : Context) := executed_operation hop ctx
  have htrace (ctx : Context) : trace ctx [op] = [.operation op ctx] :=
    (trace_singleton ctx op).trans (hexecuted ctx).1
  have hsound : (r.step call).Sound := by
    refine h.step_same (.inl hisSome) hsame hops (fun ctx => (hexecuted ctx).2.1)
      (fun ctx => ?_) (fun a ha => ?_) (fun a ha => ?_) (fun l hl => ?_)
    · rw [htrace]
      rfl
    · exact (hexecuted .initial).2.2 a (mem_singleton.1 ha).symm
    · rw [hchanges] at ha
      exact .inl ha
    · rw [hchanges] at hl
      exact .inl hl
  refine ⟨?_, hsound⟩
  obtain ⟨closed, last, hsegments⟩ := h.segments
  obtain ⟨-, hsegmentsTrace⟩ :=
    hsegments.append (r.step call).builder hops hsame.commitPoints
  have hoperations : (r.step call).intent.operations =
      r.intent.operations ++ [(op, r.intent.context)] := by
    change r.intent.operations ++ _ = _
    rw [hop]
    rfl
  have hlogs : (r.step call).intent.logs = r.intent.logs := by
    have hrecord : r.intent.record call = none := by
      unfold Intent.record Call.record
      rw [change_of_operation hop]
      cases r.intent.account with
      | none | some => rfl
    change r.intent.logs ++ (r.intent.record call).toList = _
    rw [hrecord]
    exact append_nil _
  have hwhole : trace .initial (r.step call).builder.ops =
      trace .initial r.builder.ops ++ [.operation op r.builder.context] := by
    change trace .initial (r.builder.perform call).ops = _
    rw [hops, trace_append, h.whole, htrace]
  have hrecords : recordsOf (trace .initial (r.step call).builder.ops) =
      recordsOf (trace .initial r.builder.ops) := by
    rw [hwhole, recordsOf_append]
    exact append_nil _
  have hfirst : operationsOf (trace .initial (r.step call).builder.ops) =
      operationsOf (trace .initial r.builder.ops) ++ [(op, r.builder.context)] := by
    rw [hwhole, operationsOf_append]
    rfl
  have hsecond : operationsOf (r.step call).builder.segmentsTrace =
      operationsOf r.builder.segmentsTrace ++ [(op, r.segmentContext)] := by
    rw [hsegmentsTrace, htrace, operationsOf_append]
    rfl
  have hpending : (r.step call).builder.changes = r.builder.changes := hchanges
  have hkeeps : r.KeepsContext call ↔
      r.builder.context = r.intent.context ∧ r.segmentContext = r.intent.context := by
    rw [h.context_eq_iff, h.segmentContext_eq_iff]
    constructor
    · intro hk
      have hswitched := hk.account (.inl hisSome)
      exact ⟨hswitched, hswitched, hk.document hisSome⟩
    · rintro ⟨hswitched, -, hdocument⟩
      exact ⟨fun _ => hswitched, fun _ => hdocument⟩
  rw [hkeeps]
  constructor
  · rintro ⟨hw, hs, hl⟩
    rw [hfirst, hoperations, append_singleton_inj] at hw
    rw [hsecond, hoperations, append_singleton_inj] at hs
    rw [hrecords, hpending, hlogs] at hl
    exact ⟨⟨hw.1, hs.1, hl⟩, (Prod.ext_iff.1 hw.2).2, (Prod.ext_iff.1 hs.2).2⟩
  · rintro ⟨⟨hw, hs, hl⟩, hcontext, hsegmentContext⟩
    refine ⟨?_, ?_, ?_⟩
    · rw [hfirst, hoperations, hw, hcontext]
    · rw [hsecond, hoperations, hs, hsegmentContext]
    · rw [hrecords, hpending, hlogs]
      exact hl

/-! ## Logged changes -/

theorem perm_append_singleton_iff {xs ys} {x y : LogRecord} {n : ℕ}
    (hxs : ∀ l ∈ xs, l.call < n) (hy : y.call = n) :
    (xs ++ [x]).Perm (ys ++ [y]) ↔ xs.Perm ys ∧ x = y := by
  constructor
  · intro hperm
    have hmem : y ∈ xs ++ [x] := hperm.mem_iff.2 (mem_append_right _ (.head _))
    have heq : x = y := by
      rcases mem_append.1 hmem with hmem | hmem
      · have hlt := hxs y hmem
        omega
      · exact (mem_singleton.1 hmem).symm
    subst heq
    exact ⟨(perm_append_right_iff _).1 hperm, rfl⟩
  · rintro ⟨hperm, rfl⟩
    exact hperm.append_right _

theorem record_isSome {calls : ℕ} {a a' documentId} (h : a.isSome = a'.isSome) :
    (call.record calls a documentId).isSome = (call.record calls a' documentId).isSome := by
  unfold Call.record
  cases a with
  | none =>
    cases a' with
    | none => rfl
    | some y => cases h
  | some x =>
    cases a' with
    | none => cases h
    | some y =>
      cases call.change documentId with
      | none | some => rfl

theorem record_eq_iff {calls : ℕ} {a a' documentId} (h : a.isSome = a'.isSome) :
    call.record calls a documentId = call.record calls a' documentId ↔
      ((call.record calls a' documentId).isSome → a = a') := by
  unfold Call.record
  cases a with
  | none =>
    cases a' with
    | none => simp
    | some y => cases h
  | some x =>
    cases a' with
    | none => cases h
    | some y =>
      cases call.change documentId with
      | none | some => simp

/-- **A logged change.** -/
theorem step_logs (h : r.Sound) (hlog : call.logs) :
    ((r.step call).Matches ↔ r.Matches ∧ r.KeepsContext call) ∧ (r.step call).Sound := by
  have hlogs := perform_logs hlog r.builder
  have hops : (r.builder.perform call).ops = r.builder.ops ++ [] := by
    rw [hlogs.ops, append_nil]
  have hoperation : call.operation = none := by
    cases call
    all_goals first
      | rfl
      | cases hlog
  have hsound : (r.step call).Sound := by
    refine h.step_same (.inr hlog) hlogs.selections hops (fun _ => rfl) (fun _ => rfl)
      (nofun) (fun a ha => ?_) (fun l hl => ?_)
    · rcases (hlogs.keys a).1 ha with ha | ha
      · exact .inl ha
      · obtain ⟨record, hrecord, rfl⟩ := Option.map_eq_some_iff.1 ha
        refine .inr ?_
        unfold Call.record at hrecord
        split at hrecord
        · next hcur _ =>
          cases hrecord
          exact hcur
        · cases hrecord
    · rcases mem_append.1 (hlogs.pending.mem_iff.1 hl) with hl | hl
      · exact .inl hl
      · exact .inr (record_call (Option.mem_toList.1 hl))
  refine ⟨?_, hsound⟩
  obtain ⟨closed, last, hsegments⟩ := h.segments
  obtain ⟨-, hsegmentsTrace⟩ :=
    hsegments.append (r.step call).builder hops hlogs.selections.commitPoints
  have hwhole : (r.step call).builder.ops = r.builder.ops := hlogs.ops
  have hsecond : (r.step call).builder.segmentsTrace = r.builder.segmentsTrace :=
    hsegmentsTrace.trans (append_nil _)
  have hoperations : (r.step call).intent.operations = r.intent.operations := by
    change r.intent.operations ++ _ = _
    rw [hoperation]
    exact append_nil _
  have hintent : r.intent.record call =
      call.record r.builder.calls r.intent.account r.builder.currentDocumentId := by
    rw [h.calls, h.document]
    rfl
  have hintentLogs : (r.step call).intent.logs =
      r.intent.logs ++ (r.intent.record call).toList := rfl
  have hkeeps : r.KeepsContext call ↔
      ((r.intent.record call).isSome →
        r.builder.currentAccountId = r.intent.account) := by
    rw [← h.account]
    constructor
    · exact fun hk hrecord => hk.account (.inr hrecord)
    · intro hswitched
      refine ⟨fun hany => ?_, fun hany => ?_⟩
      · rcases hany with hany | hany
        · rw [hoperation] at hany
          cases hany
        · exact hswitched hany
      · rw [hoperation] at hany
        cases hany
  have hperm : ((recordsOf (trace .initial r.builder.ops) ++
        pendingRecords (r.builder.perform call).changes).Perm
          (r.intent.logs ++ (r.intent.record call).toList)) ↔
      ((recordsOf (trace .initial r.builder.ops) ++ pendingRecords r.builder.changes).Perm
        r.intent.logs) ∧ r.KeepsContext call := by
    have hmove := hlogs.pending.append_left (recordsOf (trace .initial r.builder.ops))
    rw [← append_assoc] at hmove
    have hrecord : call.record r.builder.calls r.builder.currentAccountId
          r.builder.currentDocumentId = r.intent.record call ↔
        ((r.intent.record call).isSome →
          r.builder.currentAccountId = r.intent.account) := by
      rw [hintent]
      exact record_eq_iff h.isSome
    have hisSome : (call.record r.builder.calls r.builder.currentAccountId
        r.builder.currentDocumentId).isSome = (r.intent.record call).isSome := by
      rw [hintent]
      exact record_isSome h.isSome
    rw [hmove.congr_left, hkeeps, ← hrecord]
    cases hx : call.record r.builder.calls r.builder.currentAccountId
        r.builder.currentDocumentId with
    | none =>
      cases hy : r.intent.record call with
      | none => simp
      | some y =>
        rw [hx, hy] at hisSome
        cases hisSome
    | some x =>
      cases hy : r.intent.record call with
      | none =>
        rw [hx, hy] at hisSome
        cases hisSome
      | some y =>
        rw [Option.some_inj]
        exact perm_append_singleton_iff h.fresh (record_call (hintent ▸ hy))
  constructor
  · rintro ⟨hw, hs, hl⟩
    rw [hwhole, hoperations] at hw
    rw [hsecond, hoperations] at hs
    rw [hwhole, hintentLogs] at hl
    obtain ⟨hl, hk⟩ := hperm.1 hl
    exact ⟨⟨hw, hs, hl⟩, hk⟩
  · rintro ⟨⟨hw, hs, hl⟩, hk⟩
    refine ⟨?_, ?_, ?_⟩
    · rw [hwhole, hoperations]
      exact hw
    · rw [hsecond, hoperations]
      exact hs
    · rw [hwhole]
      exact hperm.2 ⟨hl, hk⟩

/-! ## Selections -/

theorem keepsContext_of_none (hop : call.operation = none) (hchange : ∀ d, call.change d = none) :
    r.KeepsContext call := by
  have hrecord : r.intent.record call = none := by
    unfold Intent.record Call.record
    rw [hchange]
    cases r.intent.account with
    | none | some => rfl
  refine ⟨fun hany => ?_, fun hany => ?_⟩
  · rcases hany with hany | hany
    · rw [hop] at hany
      cases hany
    · rw [hrecord] at hany
      cases hany
  · rw [hop] at hany
    cases hany

theorem intent_step_of_none (hop : call.operation = none) (hchange : ∀ d, call.change d = none) :
    (r.step call).intent.operations = r.intent.operations ∧
      (r.step call).intent.logs = r.intent.logs := by
  have hrecord : r.intent.record call = none := by
    unfold Intent.record Call.record
    rw [hchange]
    cases r.intent.account with
    | none | some => rfl
  constructor
  · change r.intent.operations ++ _ = _
    rw [hop]
    exact append_nil _
  · change r.intent.logs ++ _ = _
    rw [hrecord]
    exact append_nil _

/-- A call that appends selections: the invariant follows from the contexts and accounts behind
them. -/
theorem step_select (h : r.Sound) {ops}
    (hop : call.operation = none) (hchange : ∀ d, call.change d = none)
    (hops : (r.builder.perform call).ops = r.builder.ops ++ ops)
    (hpoints : (r.builder.perform call).commitPoints = r.builder.commitPoints)
    (hchanges : (r.builder.perform call).changes = r.builder.changes)
    (htrace : ∀ ctx, trace ctx ops = [])
    (hwhole : after r.builder.context ops = (r.step call).builder.context)
    (hsegment : after r.segmentContext ops = (r.step call).segmentContext)
    (hcollection : (r.step call).builder.currentCollection = (r.step call).intent.collection)
    (hdocument : (r.step call).builder.currentDocumentId = (r.step call).intent.document)
    (haccount : (r.step call).watch.switched = false ↔
      (r.step call).builder.currentAccountId = (r.step call).intent.account)
    (hisSome : (r.step call).builder.currentAccountId.isSome =
      (r.step call).intent.account.isSome)
    (hpending : r.builder.changes ≠ [] → (r.step call).builder.currentAccountId.isSome)
    (hsubset : ∀ a ∈ r.intent.selected, a ∈ (r.step call).intent.selected)
    (hselected : ∀ a, .accountId a ∈ (r.step call).builder.ops ↔
      a ∈ (r.step call).intent.selected)
    (hcurrent : ∀ a, (r.step call).builder.currentAccountId = some a →
      a ∈ (r.step call).intent.selected) :
    ((r.step call).Matches ↔ r.Matches ∧ r.KeepsContext call) ∧ (r.step call).Sound := by
  obtain ⟨closed, last, hsegments⟩ := h.segments
  obtain ⟨hsegments', hsegmentsTrace⟩ :=
    hsegments.append (r.step call).builder hops hpoints
  obtain ⟨hoperations, hlogs⟩ := intent_step_of_none (r := r) hop hchange
  have htraceWhole : trace .initial (r.step call).builder.ops = trace .initial r.builder.ops := by
    change trace .initial (r.builder.perform call).ops = _
    rw [hops, trace_append, htrace, append_nil]
  have htraceSegments : (r.step call).builder.segmentsTrace = r.builder.segmentsTrace := by
    rw [hsegmentsTrace, htrace, append_nil]
  have hchanges' : (r.step call).builder.changes = r.builder.changes := hchanges
  constructor
  · rw [and_iff_left (keepsContext_of_none hop hchange)]
    constructor
    · rintro ⟨hw, hs, hl⟩
      rw [htraceWhole, hoperations] at hw
      rw [htraceSegments, hoperations] at hs
      rw [htraceWhole, hchanges', hlogs] at hl
      exact ⟨hw, hs, hl⟩
    · rintro ⟨hw, hs, hl⟩
      refine ⟨?_, ?_, ?_⟩
      · rw [htraceWhole, hoperations, hw]
      · rw [htraceSegments, hoperations, hs]
      · rw [htraceWhole, hchanges', hlogs]
        exact hl
  · exact {
      whole := by
        change after .initial (r.builder.perform call).ops = _
        rw [hops, after_append, h.whole, hwhole]
      segments := ⟨closed, last ++ ops, hsegment ▸ hsegments'⟩
      records := by rw [htraceSegments, htraceWhole, h.records]
      collection := hcollection
      document := hdocument
      account := haccount
      isSome := hisSome
      calls := congrArg (· + 1) h.calls
      pending := by
        rw [hchanges']
        exact hpending
      pendingSelected := fun a ha => by
        rw [hchanges'] at ha
        exact hsubset a (h.pendingSelected a ha)
      selected := hselected
      current := hcurrent
      fresh := fun l hl => by
        rw [htraceWhole, hchanges'] at hl
        exact Nat.lt_succ_of_lt (h.fresh l hl)
      freshIntent := h.freshIntent_step }

theorem step_withAccountId (h : r.Sound) (a : UInt32) :
    ((r.step (.withAccountId a)).Matches ↔ r.Matches ∧ r.KeepsContext (.withAccountId a)) ∧
      (r.step (.withAccountId a)).Sound := by
  have hcases : (∃ ops : List (Operation F),
      (r.builder.withAccountId a).ops = r.builder.ops ++ ops ∧ (∀ ctx, trace ctx ops = []) ∧
        (∀ ctx, ctx.accountId = r.builder.context.accountId →
          after ctx ops = { ctx with accountId := a }) ∧
        (∀ x, .accountId x ∈ ops → x = a) ∧ (a ∈ r.intent.selected ∨ .accountId a ∈ ops)) ∧
      (r.builder.withAccountId a).currentAccountId = some a ∧
      (r.builder.withAccountId a).currentCollection = r.builder.currentCollection ∧
      (r.builder.withAccountId a).currentDocumentId = r.builder.currentDocumentId ∧
      (r.builder.withAccountId a).commitPoints = r.builder.commitPoints ∧
      (r.builder.withAccountId a).changes = r.builder.changes := by
    unfold BatchBuilder.withAccountId
    by_cases hcur : r.builder.currentAccountId = some a
    · rw [if_pos hcur]
      have hget : r.builder.context.accountId = a := congrArg (Option.getD · 0xFFFFFFFF) hcur
      refine ⟨⟨[], (append_nil _).symm, fun _ => rfl, fun ctx hctx => ?_,
        nofun, .inl (h.current a hcur)⟩, hcur, rfl, rfl, rfl, rfl⟩
      rw [← hget, ← hctx]
      rfl
    · rw [if_neg hcur]
      refine ⟨⟨[.accountId a], rfl, fun _ => rfl, fun _ _ => rfl, fun x hx => ?_,
        .inr (.head _)⟩, rfl, rfl, rfl, rfl, rfl⟩
      cases mem_singleton.1 hx
      rfl
  obtain ⟨⟨ops, hops, htrace, hafter, hin, hall⟩, hcur, hcoll, hdoc, hpoints, hchanges⟩ := hcases
  have hcontext : (r.step (.withAccountId a)).builder.context =
      { r.builder.context with accountId := a } := by
    change contextOf (r.builder.withAccountId a).currentAccountId
      (r.builder.withAccountId a).currentCollection
      (r.builder.withAccountId a).currentDocumentId = _
    rw [hcur, hcoll, hdoc]
    rfl
  have hselect : (r.step (.withAccountId a)).intent.selected = a :: r.intent.selected := rfl
  have hsegmentContext : (r.step (.withAccountId a)).segmentContext =
      { r.segmentContext with accountId := a } := by
    unfold segmentContext
    rw [hcontext]
    rfl
  refine step_select h rfl (fun _ => rfl) hops hpoints hchanges htrace
    ((hafter _ rfl).trans hcontext.symm)
    ((hafter r.segmentContext rfl).trans hsegmentContext.symm)
    (hcoll.trans h.collection) (hdoc.trans h.document) ⟨fun _ => hcur, fun _ => rfl⟩
    (congrArg Option.isSome hcur) (fun _ => congrArg Option.isSome hcur)
    (fun x hx => .tail _ hx) (fun x => ?_) fun x hx => ?_
  · change .accountId x ∈ (r.builder.withAccountId a).ops ↔ _
    rw [hops, hselect, mem_append, mem_cons, h.selected]
    constructor
    · rintro (hx | hx)
      · exact .inr hx
      · exact .inl (hin x hx)
    · rintro (rfl | hx)
      · exact hall
      · exact .inl hx
  · have heq : some a = some x := hcur.symm.trans hx
    cases heq
    exact .head _

theorem step_withCollection (h : r.Sound) (c : Collection) :
    ((r.step (.withCollection c)).Matches ↔ r.Matches ∧ r.KeepsContext (.withCollection c)) ∧
      (r.step (.withCollection c)).Sound := by
  have hcases : (∃ ops : List (Operation F),
      (r.builder.withCollection c).ops = r.builder.ops ++ ops ∧ (∀ ctx, trace ctx ops = []) ∧
        (∀ ctx, ctx.collection = r.builder.context.collection →
          after ctx ops = { ctx with collection := c.toU8 }) ∧ ∀ x, .accountId x ∉ ops) ∧
      (r.builder.withCollection c).currentCollection = some c ∧
      (r.builder.withCollection c).currentAccountId = r.builder.currentAccountId ∧
      (r.builder.withCollection c).currentDocumentId = r.builder.currentDocumentId ∧
      (r.builder.withCollection c).commitPoints = r.builder.commitPoints ∧
      (r.builder.withCollection c).changes = r.builder.changes := by
    unfold BatchBuilder.withCollection
    by_cases hcoll : r.builder.currentCollection = some c
    · rw [if_pos hcoll]
      have hget : r.builder.context.collection = c.toU8 :=
        congrArg (fun c => (Option.map Collection.toU8 c).getD 0xFF) hcoll
      refine ⟨⟨[], (append_nil _).symm, fun _ => rfl, fun ctx hctx => ?_, fun _ => not_mem_nil⟩,
        hcoll, rfl, rfl, rfl, rfl⟩
      rw [← hget, ← hctx]
      rfl
    · rw [if_neg hcoll]
      exact ⟨⟨[.collection c], rfl, fun _ => rfl, fun _ _ => rfl,
        fun x hx => by cases mem_singleton.1 hx⟩, rfl, rfl, rfl, rfl, rfl⟩
  obtain ⟨⟨ops, hops, htrace, hafter, hin⟩, hcoll, hcur, hdoc, hpoints, hchanges⟩ := hcases
  have hcontext : (r.step (.withCollection c)).builder.context =
      { r.builder.context with collection := c.toU8 } := by
    change contextOf (r.builder.withCollection c).currentAccountId
      (r.builder.withCollection c).currentCollection
      (r.builder.withCollection c).currentDocumentId = _
    rw [hcur, hcoll, hdoc]
    rfl
  have hsegmentContext : (r.step (.withCollection c)).segmentContext =
      { r.segmentContext with collection := c.toU8 } := by
    unfold segmentContext
    rw [hcontext]
    rfl
  have hcur' : (r.step (.withCollection c)).builder.currentAccountId =
      r.builder.currentAccountId := hcur
  refine step_select h rfl (fun _ => rfl) hops hpoints hchanges htrace
    ((hafter _ rfl).trans hcontext.symm)
    ((hafter r.segmentContext rfl).trans hsegmentContext.symm)
    hcoll (hdoc.trans h.document) (hcur' ▸ h.account) (hcur' ▸ h.isSome) (hcur' ▸ h.pending)
    (fun x hx => hx) (fun x => ?_) (hcur' ▸ h.current)
  change .accountId x ∈ (r.builder.withCollection c).ops ↔ x ∈ r.intent.selected
  rw [hops, mem_append, h.selected]
  exact or_iff_left (hin x)

theorem step_withDocument (h : r.Sound) (d : UInt32) :
    ((r.step (.withDocument d)).Matches ↔ r.Matches ∧ r.KeepsContext (.withDocument d)) ∧
      (r.step (.withDocument d)).Sound := by
  have hops : (r.builder.perform (.withDocument d)).ops = r.builder.ops ++ [.documentId d] := rfl
  have hmem (x : UInt32) : .accountId x ∈ (r.step (.withDocument d)).builder.ops ↔
      x ∈ (r.step (.withDocument d)).intent.selected := by
    change .accountId x ∈ r.builder.ops ++ [.documentId d] ↔ x ∈ r.intent.selected
    rw [mem_append, h.selected]
    exact or_iff_left fun hx => by cases mem_singleton.1 hx
  exact step_select h rfl (fun _ => rfl) hops rfl rfl (fun _ => rfl) rfl rfl h.collection rfl
    h.account h.isSome h.pending (fun x hx => hx) hmem h.current

/-! ## Commit points -/

theorem after_selections (b : BatchBuilder F) (ctx : Context) :
    after ctx b.selections =
      { ctx with
        accountId := b.currentAccountId.getD ctx.accountId
        collection := (b.currentCollection.map Collection.toU8).getD ctx.collection } := by
  unfold BatchBuilder.selections
  cases b.currentAccountId with
  | none | some =>
    cases b.currentCollection with
    | none | some => rfl

theorem trace_selections (b : BatchBuilder F) (ctx : Context) : trace ctx b.selections = [] := by
  unfold BatchBuilder.selections
  cases b.currentAccountId with
  | none | some =>
    cases b.currentCollection with
    | none | some => rfl

theorem accountId_mem_selections (b : BatchBuilder F) (a : UInt32) :
    .accountId a ∈ b.selections ↔ b.currentAccountId = some a := by
  unfold BatchBuilder.selections
  rw [mem_append, Option.mem_toList, Option.mem_toList]
  simp only [Option.map_eq_some_iff]
  constructor
  · rintro (⟨x, hx, heq⟩ | ⟨x, hx, heq⟩)
    · cases heq
      exact hx
    · cases heq
  · exact fun hcur => .inl ⟨a, hcur, rfl⟩

theorem mem_keys_of_lastPending {a : UInt32} (h : b.lastPending = some a) : a ∈ b.changes.keys := by
  obtain ⟨entry, hentry, rfl⟩ := Option.map_eq_some_iff.1 h
  exact mem_map_of_mem (mem_of_getLast? hentry)

theorem step_smallBatch (h : r.Sound) (hsmall : ¬ r.builder.isLargeBatch) :
    ((r.step .commitPoint).Matches ↔ r.Matches ∧ r.KeepsContext .commitPoint) ∧
      (r.step .commitPoint).Sound := by
  have hsame : r.builder.perform .commitPoint = r.builder := if_neg hsmall
  have hwatch : r.watchStep .commitPoint = r.watch := if_neg hsmall
  have hstep : r.step .commitPoint =
      ⟨{ r.builder with calls := r.builder.calls + 1 }, r.intent.step .commitPoint, r.watch⟩ := by
    unfold step BatchBuilder.step
    rw [hsame, hwatch]
  have hops : (r.builder.perform .commitPoint).ops = r.builder.ops ++ [] := by
    rw [hsame, append_nil]
  refine step_select h rfl (fun _ => rfl) hops ?_ ?_ (fun _ => rfl) ?_ ?_ ?_ ?_ ?_ ?_ ?_
    (fun x hx => hx) ?_ ?_
  · rw [hsame]
  · rw [hsame]
  all_goals rw [hstep]
  · rfl
  · rfl
  · exact h.collection
  · exact h.document
  · exact h.account
  · exact h.isSome
  · exact h.pending
  · exact h.selected
  · exact h.current

/-- A commit point that fires: the pending changes are written, and the next segment starts without
a document. -/
theorem step_cut (h : r.Sound) (hlarge : r.builder.isLargeBatch) :
    ((r.step .commitPoint).Matches ↔ r.Matches ∧ r.KeepsContext .commitPoint) ∧
      (r.step .commitPoint).Sound := by
  obtain ⟨ops, hser⟩ := serializeChanges_spec r.builder
  have hperform : r.builder.perform .commitPoint = r.builder.cut := if_pos hlarge
  have hbuilder : (r.step .commitPoint).builder =
      { r.builder.cut with calls := r.builder.calls + 1 } := by
    change { r.builder.perform .commitPoint with calls := r.builder.calls + 1 } = _
    rw [hperform]
  have hwatch : (r.step .commitPoint).watch =
      { switched :=
          match r.builder.lastPending with
          | some a => decide (some a ≠ r.intent.account)
          | none => r.watch.switched
        document := none } := if_pos hlarge
  have hcur : (r.step .commitPoint).builder.currentAccountId =
      r.builder.lastPending.or r.builder.currentAccountId := by
    rw [hbuilder]
    exact hser.account
  have hcoll : (r.step .commitPoint).builder.currentCollection = r.builder.currentCollection := by
    rw [hbuilder]
    exact hser.collection
  have hdoc : (r.step .commitPoint).builder.currentDocumentId = r.builder.currentDocumentId := by
    rw [hbuilder]
    exact hser.document
  have hchanges : (r.step .commitPoint).builder.changes = [] := by
    rw [hbuilder]
    exact hser.changes
  have hops : (r.step .commitPoint).builder.ops =
      r.builder.ops ++ ops ++ r.builder.serializeChanges.selections := by
    rw [hbuilder]
    exact congrArg (· ++ r.builder.serializeChanges.selections) hser.ops_eq
  have hpoints : (r.step .commitPoint).builder.commitPoints =
      r.builder.commitPoints ++ [(r.builder.ops ++ ops).length] := by
    rw [hbuilder]
    change r.builder.serializeChanges.commitPoints ++ [r.builder.serializeChanges.ops.length] = _
    rw [hser.commitPoints, hser.ops_eq]
  have hselections (a : UInt32) : .accountId a ∈ r.builder.serializeChanges.selections ↔
      (r.step .commitPoint).builder.currentAccountId = some a := by
    rw [accountId_mem_selections, hbuilder]
    rfl
  obtain ⟨closed, last, hsegments⟩ := h.segments
  obtain ⟨hsegments', hsegmentsTrace⟩ := hsegments.cut hops hpoints
  have hintent : (r.step .commitPoint).intent.operations = r.intent.operations ∧
      (r.step .commitPoint).intent.logs = r.intent.logs := intent_step_of_none rfl fun _ => rfl
  obtain ⟨hoperations, hlogs⟩ := hintent
  -- the account in force before: that of the whole batch and that of the segment
  have hctx : r.builder.context.accountId = r.builder.currentAccountId.getD 0xFFFFFFFF := rfl
  have hsegctx : r.segmentContext.accountId = r.builder.currentAccountId.getD 0xFFFFFFFF := rfl
  have htrace : trace .initial (r.step .commitPoint).builder.ops =
      trace .initial r.builder.ops ++ trace r.builder.context ops := by
    rw [hops, trace_append, trace_selections, append_nil, trace_append, h.whole]
  have hsegment : (r.step .commitPoint).builder.segmentsTrace =
      r.builder.segmentsTrace ++ trace r.segmentContext ops := by
    rw [hsegmentsTrace, trace_selections, append_nil]
  have hrecords : recordsOf (trace .initial (r.step .commitPoint).builder.ops) =
      recordsOf (trace .initial r.builder.ops) ++ pendingRecords r.builder.changes := by
    rw [htrace, recordsOf_append, hser.records _ hctx]
  have hall : recordsOf (trace .initial (r.step .commitPoint).builder.ops) ++
        pendingRecords (r.step .commitPoint).builder.changes =
      recordsOf (trace .initial r.builder.ops) ++ pendingRecords r.builder.changes := by
    rw [hrecords, hchanges]
    exact append_nil _
  have hwhole : operationsOf (trace .initial (r.step .commitPoint).builder.ops) =
      operationsOf (trace .initial r.builder.ops) := by
    rw [htrace, operationsOf_append, hser.operations _ hctx, append_nil]
  have hsecond : operationsOf (r.step .commitPoint).builder.segmentsTrace =
      operationsOf r.builder.segmentsTrace := by
    rw [hsegment, operationsOf_append, hser.operations _ hsegctx, append_nil]
  constructor
  · rw [and_iff_left (keepsContext_of_none rfl (fun _ => rfl))]
    constructor
    · rintro ⟨hw, hs, hl⟩
      rw [hwhole, hoperations] at hw
      rw [hsecond, hoperations] at hs
      rw [hall, hlogs] at hl
      exact ⟨hw, hs, hl⟩
    · rintro ⟨hw, hs, hl⟩
      refine ⟨?_, ?_, ?_⟩
      · rw [hwhole, hoperations, hw]
      · rw [hsecond, hoperations, hs]
      · rw [hall, hlogs]
        exact hl
  · have hcurrent : ∀ a, (r.step .commitPoint).builder.currentAccountId = some a →
        a ∈ r.intent.selected := by
      intro a ha
      rw [hcur] at ha
      cases hlast : r.builder.lastPending with
      | none =>
        rw [hlast] at ha
        exact h.current a ha
      | some x =>
        rw [hlast] at ha
        cases ha
        exact h.pendingSelected _ (mem_keys_of_lastPending hlast)
    have hswitched : (r.step .commitPoint).watch.switched = false ↔
        (r.step .commitPoint).builder.currentAccountId = r.intent.account := by
      rw [hwatch, hcur]
      cases r.builder.lastPending with
      | none => exact h.account
      | some a => simp
    have hisSome : (r.step .commitPoint).builder.currentAccountId.isSome =
        r.intent.account.isSome := by
      rw [hcur, ← h.isSome]
      cases hlast : r.builder.lastPending with
      | none => rfl
      | some a =>
        have hmem := mem_keys_of_lastPending hlast
        obtain ⟨entry, hentry, -⟩ := mem_map.1 hmem
        exact (h.pending (ne_nil_of_mem hentry)).symm
    have hafter (ctx : Context) (haccount : ctx.accountId =
          r.builder.currentAccountId.getD 0xFFFFFFFF)
        (hcollection : ctx.collection =
          (r.builder.currentCollection.map Collection.toU8).getD 0xFF) :
        after (after ctx ops) r.builder.serializeChanges.selections =
          { ctx with
            accountId := (r.step .commitPoint).builder.currentAccountId.getD 0xFFFFFFFF } := by
      have hcur' : r.builder.serializeChanges.currentAccountId =
          (r.step .commitPoint).builder.currentAccountId := by
        rw [hbuilder]
        rfl
      rw [after_selections, hser.after ctx haccount, hser.collection, hcur']
      cases (r.step .commitPoint).builder.currentAccountId with
      | none | some =>
        cases hc : r.builder.currentCollection with
        | none => rfl
        | some c =>
          rw [hc] at hcollection
          simp [hcollection]
    have hcontext : (r.step .commitPoint).builder.context =
        { r.builder.context with
          accountId := (r.step .commitPoint).builder.currentAccountId.getD 0xFFFFFFFF } := by
      unfold BatchBuilder.context
      rw [hcoll, hdoc]
      rfl
    have hnext : after .initial r.builder.serializeChanges.selections =
        (r.step .commitPoint).segmentContext := by
      have hcur' : r.builder.serializeChanges.currentAccountId =
          (r.step .commitPoint).builder.currentAccountId := by
        rw [hbuilder]
        rfl
      unfold segmentContext
      rw [hcontext, after_selections, hser.collection, hcur', hwatch]
      rfl
    exact {
      whole := by
        rw [hops, after_append, after_append, h.whole, hafter _ hctx rfl, hcontext]
      segments := ⟨_, _, hnext ▸ hsegments'⟩
      records := by
        rw [hsegment, recordsOf_append, hser.records _ hsegctx, h.records, hrecords]
      collection := hcoll.trans h.collection
      document := hdoc.trans h.document
      account := hswitched
      isSome := hisSome
      calls := by
        exact congrArg (· + 1) h.calls
      pending := fun hne => absurd hchanges hne
      pendingSelected := fun a ha => by
        rw [hchanges] at ha
        cases ha
      selected := fun a => by
        change _ ↔ a ∈ r.intent.selected
        rw [hops, mem_append, mem_append, h.selected, hselections]
        constructor
        · rintro ((ha | ha) | ha)
          · exact ha
          · exact h.pendingSelected a (hser.selects a ha)
          · exact hcurrent a ha
        · exact fun ha => .inl (.inl ha)
      current := hcurrent
      fresh := fun l hl => by
        rw [hall] at hl
        exact Nat.lt_succ_of_lt (h.fresh l hl)
      freshIntent := fun l hl => by
        exact h.freshIntent_step l hl }

theorem step_commitPoint (h : r.Sound) :
    ((r.step .commitPoint).Matches ↔ r.Matches ∧ r.KeepsContext .commitPoint) ∧
      (r.step .commitPoint).Sound := by
  by_cases hlarge : r.builder.isLargeBatch
  · exact step_cut h hlarge
  · exact step_smallBatch h hlarge

/-- **Step lemma**: a call keeps the invariant, and it keeps the agreement exactly when it meets
the condition. -/
theorem step_matches (h : r.Sound) (call : Call F) :
    ((r.step call).Matches ↔ r.Matches ∧ r.KeepsContext call) ∧ (r.step call).Sound := by
  cases hop : call.operation with
  | some op => exact step_operation h hop
  | none =>
    cases call with
    | withAccountId a => exact step_withAccountId h a
    | withCollection c => exact step_withCollection h c
    | withDocument d => exact step_withDocument h d
    | commitPoint => exact step_commitPoint h
    | logItemInsert c pre | logItemUpdate c pre | logItemDelete c pre | logContainerInsert c
    | logContainerUpdate c | logContainerDelete c | logContainerPropertyChange c id
    | logVanishedItem c item => exact step_logs h rfl
    | _ => cases hop

/-! ## Accounts with changes -/

theorem hasChanges_congr {b b' : BatchBuilder F} {a : UInt32} (hchanges : b'.changes = b.changes)
    (hchanged : b'.changedCollections = b.changedCollections) :
    b'.HasChanges a ↔ b.HasChanges a := by
  unfold BatchBuilder.HasChanges
  rw [hchanges, hchanged]

theorem withCollection_changes (b : BatchBuilder F) (c : Collection) :
    (b.withCollection c).changes = b.changes ∧
      (b.withCollection c).changedCollections = b.changedCollections := by
  unfold BatchBuilder.withCollection
  split
  · exact ⟨rfl, rfl⟩
  · exact ⟨rfl, rfl⟩

theorem hasChanges_cut (b : BatchBuilder F) (a : UInt32) : b.cut.HasChanges a ↔ b.HasChanges a := by
  obtain ⟨ops, hser⟩ := serializeChanges_spec b
  have hchanges : b.cut.changes = [] := hser.changes
  have hkeys : a ∈ b.cut.changedCollections.keys ↔ b.HasChanges a := mem_keys_serializeChanges b a
  refine (or_iff_left fun hpending => ?_).trans hkeys
  obtain ⟨entry, hentry, -⟩ := hpending
  rw [hchanges] at hentry
  cases hentry

/-- The builder and the calls agree on the accounts with changes. -/
def SameChanges (r : BatchRun F) : Prop :=
  ∀ a, r.builder.HasChanges a ↔ a ∈ r.intent.changed

theorem changed_step_of_none (hrecord : r.intent.record call = none) :
    (r.step call).intent.changed = (r.intent.select call).changed := by
  change (((r.intent.record call).filter LogRecord.isSync).map LogRecord.accountId).toList ++ _ = _
  rw [hrecord]
  rfl

theorem record_of_change_none (hchange : ∀ d, call.change d = none) :
    r.intent.record call = none := by
  unfold Intent.record Call.record
  rw [hchange]
  cases r.intent.account with
  | none | some => rfl

theorem step_sameChanges (h : r.Sound) (hsame : r.SameChanges) (hkeeps : r.KeepsContext call) :
    (r.step call).SameChanges := by
  have hunchanged (hchange : ∀ d, call.change d = none)
      (hselect : (r.intent.select call).changed = r.intent.changed)
      (hbuilder : ∀ a, (r.builder.perform call).HasChanges a ↔ r.builder.HasChanges a) :
      (r.step call).SameChanges := by
    intro a
    rw [changed_step_of_none (record_of_change_none hchange), hselect]
    exact (hbuilder a).trans (hsame a)
  cases hlog : call.logs with
  | true =>
    intro a
    have hlogs := (perform_logs hlog r.builder).changed a
    have hrecord : call.record r.builder.calls r.builder.currentAccountId
        r.builder.currentDocumentId = r.intent.record call := by
      rw [h.calls, h.document]
      refine (record_eq_iff h.isSome).2 fun hsome => h.account.1 (hkeeps.account (.inr hsome))
    have hselect : (r.intent.select call).changed = r.intent.changed := by
      cases call
      all_goals first
        | rfl
        | cases hlog
    refine hlogs.trans ?_
    rw [hrecord, hsame a]
    change _ ↔ a ∈ (((r.intent.record call).filter LogRecord.isSync).map
      LogRecord.accountId).toList ++ (r.intent.select call).changed
    rw [hselect, mem_append, Option.mem_toList, or_comm]
  | false =>
    cases call with
    | withAccountId x =>
      obtain ⟨hchanges, hchanged⟩ := withAccountId_changes r.builder x
      exact hunchanged (fun _ => rfl) rfl fun a => hasChanges_congr hchanges hchanged
    | withCollection c =>
      obtain ⟨hchanges, hchanged⟩ := withCollection_changes r.builder c
      exact hunchanged (fun _ => rfl) rfl fun a => hasChanges_congr hchanges hchanged
    | commitPoint =>
      refine hunchanged (fun _ => rfl) rfl fun a => ?_
      by_cases hlarge : r.builder.isLargeBatch
      · have hcut : r.builder.perform .commitPoint = r.builder.cut := if_pos hlarge
        rw [hcut]
        exact hasChanges_cut r.builder a
      · have hsmall : r.builder.perform .commitPoint = r.builder := if_neg hlarge
        rw [hsmall]
    | logShareNotification id x value =>
      intro a
      have hchanged : (r.step (.logShareNotification id x value)).intent.changed =
          x :: r.intent.changed :=
        changed_step_of_none (record_of_change_none fun _ => rfl)
      have hkeys : (r.step (.logShareNotification id x value)).builder.HasChanges a ↔
          (a = x ∨ a ∈ r.builder.changedCollections.keys) ∨
            ∃ entry ∈ r.builder.changes, entry.1 = a ∧ entry.2.changes ≠ [] :=
        or_congr_left InsertionMap.mem_keys_alter
      rw [hchanged, mem_cons, hkeys, or_assoc, ← hsame a]
      exact Iff.rfl
    | logItemInsert c pre | logItemUpdate c pre | logItemDelete c pre | logContainerInsert c
    | logContainerUpdate c | logContainerDelete c | logContainerPropertyChange c id
    | logVanishedItem c item => cases hlog
    | _ => exact hunchanged (fun _ => rfl) rfl fun a => hasChanges_congr rfl rfl

/-! ## Runs -/

/-- The builder behind a list of calls, with what the calls say. -/
def run (calls : List (Call F)) : BatchRun F := calls.foldl step start

theorem along_cons_iff {calls : List (Call F)} :
    Runs.Along (fun r call => some (r.step call)) KeepsContext r (call :: calls) ↔
      r.KeepsContext call ∧
        Runs.Along (fun r call => some (r.step call)) KeepsContext (r.step call) calls :=
  ⟨fun hrun => ⟨hrun.1, hrun.2 _ rfl⟩, fun hrun => .cons hrun.1 rfl hrun.2⟩

/-- **Run lemma.** -/
theorem foldl_matches (calls : List (Call F)) (h : r.Sound) :
    (calls.foldl step r).Sound ∧
      ((calls.foldl step r).Matches ↔
        r.Matches ∧ Runs.Along (fun r call => some (r.step call)) KeepsContext r calls) := by
  induction calls generalizing r with
  | nil => exact ⟨h, (and_iff_left trivial).symm⟩
  | cons call calls ih =>
    obtain ⟨hstep, hsound⟩ := step_matches h call
    obtain ⟨hsound', hrun⟩ := ih hsound
    refine ⟨hsound', ?_⟩
    rw [foldl_cons, hrun, hstep, along_cons_iff, and_assoc]

theorem foldl_sameChanges (calls : List (Call F)) (h : r.Sound) (hsame : r.SameChanges)
    (hrun : Runs.Along (fun r call => some (r.step call)) KeepsContext r calls) :
    (calls.foldl step r).SameChanges := by
  induction calls generalizing r with
  | nil => exact hsame
  | cons call calls ih =>
    obtain ⟨hkeeps, hrun⟩ := along_cons_iff.1 hrun
    exact ih (step_matches h call).2 (step_sameChanges h hsame hkeeps) hrun

theorem start_sameChanges : (start : BatchRun F).SameChanges := by
  intro a
  constructor
  · rintro (ha | ⟨entry, hentry, -⟩)
    · cases ha
    · cases hentry
  · exact fun ha => nomatch ha

end BatchRun

/-! ## Writing the batch -/

theorem writeEach_eq_some {changed}
    {parts : List (List (Operation F))} {executed} :
    writeEach (parts.map fun ops => ⟨changed, ops⟩) = some executed ↔
      (∀ ops ∈ parts, Selectable changed.keys ops) ∧
        executed = parts.flatMap (trace .initial) := by
  induction parts generalizing executed with
  | nil =>
    refine ⟨fun h => ?_, fun h => ?_⟩
    · cases h
      exact ⟨nofun, rfl⟩
    · rw [h.2]
      rfl
  | cons ops parts ih =>
    have hcons : writeEach ((ops :: parts).map fun ops => ⟨changed, ops⟩) = some executed ↔
        ∃ first, execute changed.keys .initial ops = some first ∧
          ∃ rest, writeEach (parts.map fun ops => ⟨changed, ops⟩) = some rest ∧
            some (first ++ rest) = some executed := by
      rw [map_cons, writeEach]
      simp only [BuiltBatch.write, Option.bind_eq_bind, Option.bind_eq_some_iff]
    rw [hcons]
    constructor
    · rintro ⟨first, hfirst, rest, hrest, heq⟩
      obtain ⟨hsel, rfl⟩ := execute_eq_some.1 hfirst
      obtain ⟨hall, rfl⟩ := ih.1 hrest
      cases heq
      exact ⟨forall_mem_cons.2 ⟨hsel, hall⟩, rfl⟩
    · rintro ⟨hall, rfl⟩
      obtain ⟨hsel, hall⟩ := forall_mem_cons.1 hall
      exact ⟨_, execute_eq_some.2 ⟨hsel, rfl⟩, _, ih.2 ⟨hall, rfl⟩, rfl⟩

theorem selectable_flatten {accounts : List UInt32} {parts : List (List (Operation F))} :
    Selectable accounts parts.flatten ↔ ∀ ops ∈ parts, Selectable accounts ops := by
  unfold Selectable
  by_cases hnil : accounts = []
  · simp [hnil]
  · simp only [hnil, false_or, mem_flatten]
    constructor
    · exact fun h ops hops a ha => h a ⟨ops, hops, ha⟩
    · rintro h a ⟨ops, hops, ha⟩
      exact h ops hops a ha

/-- What is written is what the calls say: the operations in order, and each logged change exactly
once. -/
def Intent.Written (i : Intent F) (executed : Option (List (Executed F))) : Prop :=
  ∃ e, executed = some e ∧ operationsOf e = i.operations ∧ (recordsOf e).Perm i.logs

/-- Every selected account has changes, or no account has. -/
def Intent.Covered (i : Intent F) : Prop := i.changed = [] ∨ ∀ a ∈ i.selected, a ∈ i.changed

theorem Intent.written_iff {i : Intent F} {written : Option (List (Executed F))} {selectable : Prop}
    {e : List (Executed F)} (h : ∀ e', written = some e' ↔ selectable ∧ e' = e) :
    i.Written written ↔
      selectable ∧ operationsOf e = i.operations ∧ (recordsOf e).Perm i.logs := by
  constructor
  · rintro ⟨e', he', hoperations, hlogs⟩
    obtain ⟨hsel, rfl⟩ := (h e').1 he'
    exact ⟨hsel, hoperations, hlogs⟩
  · rintro ⟨hsel, hoperations, hlogs⟩
    exact ⟨e, (h e).2 ⟨hsel, rfl⟩, hoperations, hlogs⟩

namespace BatchRun

variable {r : BatchRun F}

/-- The batch as it stands, written whole and segment by segment. -/
theorem Sound.written_iff (h : r.Sound) :
    (r.intent.Written r.builder.buildAll.write ∧
        r.intent.Written (writeEach r.builder.buildEach)) ↔
      Selectable r.builder.serializeChanges.changedCollections.keys
        r.builder.serializeChanges.ops ∧ r.Matches := by
  obtain ⟨ops, hser⟩ := serializeChanges_spec r.builder
  obtain ⟨closed, last, hsegments⟩ := h.segments
  obtain ⟨hsegments', hsegmentsTrace⟩ :=
    hsegments.append r.builder.serializeChanges hser.ops_eq hser.commitPoints
  have hslices : Slices.slices r.builder.serializeChanges.ops 0
      r.builder.serializeChanges.commitPoints = closed ++ [last ++ ops] := by
    rw [hsegments'.ops, hsegments'.commitPoints, Slices.slices_offsets]
  have hflatten : (closed ++ [last ++ ops]).flatten = r.builder.serializeChanges.ops := by
    rw [hsegments'.ops, flatten_append, flatten_singleton]
  have hctx : r.builder.context.accountId = r.builder.currentAccountId.getD 0xFFFFFFFF := rfl
  have hsegctx : r.segmentContext.accountId = r.builder.currentAccountId.getD 0xFFFFFFFF := rfl
  have hwhole : trace .initial r.builder.serializeChanges.ops =
      trace .initial r.builder.ops ++ trace r.builder.context ops := by
    rw [hser.ops_eq, trace_append]
    exact congrArg (fun ctx => trace .initial r.builder.ops ++ trace ctx ops) h.whole
  have hsegment : r.builder.serializeChanges.segmentsTrace =
      r.builder.segmentsTrace ++ trace r.segmentContext ops := hsegmentsTrace
  have hoperations : operationsOf (trace .initial r.builder.serializeChanges.ops) =
      operationsOf (trace .initial r.builder.ops) := by
    rw [hwhole, operationsOf_append, hser.operations _ hctx, append_nil]
  have hoperations' : operationsOf r.builder.serializeChanges.segmentsTrace =
      operationsOf r.builder.segmentsTrace := by
    rw [hsegment, operationsOf_append, hser.operations _ hsegctx, append_nil]
  have hrecords : recordsOf (trace .initial r.builder.serializeChanges.ops) =
      recordsOf (trace .initial r.builder.ops) ++ pendingRecords r.builder.changes := by
    rw [hwhole, recordsOf_append, hser.records _ hctx]
  have hrecords' : recordsOf r.builder.serializeChanges.segmentsTrace =
      recordsOf (trace .initial r.builder.ops) ++ pendingRecords r.builder.changes := by
    rw [hsegment, recordsOf_append, hser.records _ hsegctx, h.records]
  have hall : r.intent.Written r.builder.buildAll.write ↔
      Selectable r.builder.serializeChanges.changedCollections.keys
          r.builder.serializeChanges.ops ∧
        operationsOf (trace .initial r.builder.serializeChanges.ops) = r.intent.operations ∧
        (recordsOf (trace .initial r.builder.serializeChanges.ops)).Perm r.intent.logs :=
    Intent.written_iff fun e => execute_eq_some
  have heach : r.intent.Written (writeEach r.builder.buildEach) ↔
      Selectable r.builder.serializeChanges.changedCollections.keys
          r.builder.serializeChanges.ops ∧
        operationsOf r.builder.serializeChanges.segmentsTrace = r.intent.operations ∧
        (recordsOf r.builder.serializeChanges.segmentsTrace).Perm r.intent.logs := by
    refine Intent.written_iff fun e => ?_
    change writeEach ((Slices.slices r.builder.serializeChanges.ops 0
      r.builder.serializeChanges.commitPoints).map fun ops =>
        ⟨r.builder.serializeChanges.changedCollections, ops⟩) = some e ↔ _ ∧
      e = (Slices.slices r.builder.serializeChanges.ops 0
        r.builder.serializeChanges.commitPoints).flatMap (trace .initial)
    rw [writeEach_eq_some, ← selectable_flatten, hslices, hflatten]
  rw [hoperations, hrecords] at hall
  rw [hoperations', hrecords'] at heach
  rw [hall, heach]
  constructor
  · rintro ⟨⟨hsel, hw, hl⟩, -, hs, -⟩
    exact ⟨hsel, hw, hs, hl⟩
  · rintro ⟨hsel, hw, hs, hl⟩
    exact ⟨⟨hsel, hw, hl⟩, hsel, hs, hl⟩

theorem Sound.selectable_iff (h : r.Sound) (hsame : r.SameChanges) :
    Selectable r.builder.serializeChanges.changedCollections.keys
      r.builder.serializeChanges.ops ↔ r.intent.Covered := by
  obtain ⟨ops, hser⟩ := serializeChanges_spec r.builder
  have hkeys (a : UInt32) : a ∈ r.builder.serializeChanges.changedCollections.keys ↔
      a ∈ r.intent.changed := (mem_keys_serializeChanges r.builder a).trans (hsame a)
  have hnil : r.builder.serializeChanges.changedCollections.keys = [] ↔ r.intent.changed = [] := by
    simp only [eq_nil_iff_forall_not_mem, hkeys]
  have hselected (a : UInt32) : .accountId a ∈ r.builder.serializeChanges.ops ↔
      a ∈ r.intent.selected := by
    rw [hser.ops_eq, mem_append]
    constructor
    · rintro (ha | ha)
      · exact (h.selected a).1 ha
      · exact h.pendingSelected a (hser.selects a ha)
    · exact fun ha => .inl ((h.selected a).2 ha)
  unfold Selectable Intent.Covered
  rw [hnil]
  simp only [hselected, hkeys]

/-- **Splitting a batch keeps the context of every operation**, written whole or segment by segment,
if and only if every call meets `KeepsContext` and every selected account has changes (or none has).
-/
theorem batch_context_iff (calls : List (Call F)) :
    ((run calls).intent.Written (run calls).builder.buildAll.write ∧
        (run calls).intent.Written (writeEach (run calls).builder.buildEach)) ↔
      Runs.Along (fun r call => some (r.step call)) KeepsContext start calls ∧
        (run calls).intent.Covered := by
  obtain ⟨hsound, hmatches⟩ := foldl_matches calls (start_sound (F := F))
  rw [and_iff_right start_matches] at hmatches
  have hwritten := hsound.written_iff
  rw [hmatches] at hwritten
  refine hwritten.trans ?_
  rw [and_comm]
  refine and_congr_right fun hrun => ?_
  exact hsound.selectable_iff (foldl_sameChanges calls start_sound start_sameChanges hrun)

/-! ## A commit point that changes the account -/

/-- Changes are logged for accounts 2 and 1; account 2 is selected again, and a large value is set
before the commit point. -/
def sharedBatch (large : Bytes) : List (Call Unit) :=
  [.withAccountId 2, .withCollection .email, .withDocument 7, .logItemUpdate .email none,
    .withAccountId 1, .logItemUpdate .email none, .withAccountId 2, .set (.property 0) large]

/-- The batch goes on behind the commit point. -/
def sharedBatchSplit (large : Bytes) : List (Call Unit) :=
  sharedBatch large ++ [.commitPoint, .set (.property 1) []]

theorem sharedBatchSplit_written {large : Bytes} (hlarge : 5000000 < large.length) :
    (∃ e, (run (sharedBatchSplit large)).builder.buildAll.write = some e ∧
      operationsOf e =
        [(.value (.property 0) (.set large), ⟨2, 0, 7⟩),
          (.value (.property 1) (.set []), ⟨1, 0, 7⟩)]) ∧
    (∃ e, writeEach (run (sharedBatchSplit large)).builder.buildEach = some e ∧
      operationsOf e =
        [(.value (.property 0) (.set large), ⟨2, 0, 7⟩),
          (.value (.property 1) (.set []), ⟨1, 0, 0xFFFFFFFF⟩)]) ∧
    (run (sharedBatchSplit large)).intent.operations =
      [(.value (.property 0) (.set large), ⟨2, 0, 7⟩),
        (.value (.property 1) (.set []), ⟨2, 0, 7⟩)] := by
  have hfires : (run (sharedBatch large)).builder.isLargeBatch := by
    have hsize : (run (sharedBatch large)).builder.batchSize = 0 + (11 + large.length) := rfl
    unfold BatchBuilder.isLargeBatch
    rw [decide_eq_true (by omega), Bool.true_or]
  have hpoint : (run (sharedBatch large)).builder.commitPoint =
      (run (sharedBatch large)).builder.cut := if_pos hfires
  have hbuilder : (run (sharedBatchSplit large)).builder =
      BatchBuilder.step { (run (sharedBatch large)).builder.cut with calls := 9 }
        (.set (.property 1) []) := by
    rw [← hpoint]
    rfl
  rw [hbuilder]
  exact ⟨⟨_, rfl, rfl⟩, ⟨_, rfl, rfl⟩, rfl⟩

/-- **A commit point moves the operations behind it to another account**: account 2 is selected, and
the property is written for account 1, or without its document. -/
theorem commitPoint_switches_account :
    let r := run (sharedBatchSplit (replicate 5000001 0))
    ¬ r.intent.Written r.builder.buildAll.write ∧
      ¬ r.intent.Written (writeEach r.builder.buildEach) := by
  have hlarge : 5000000 < (replicate 5000001 (0 : UInt8)).length := by
    rw [length_replicate]
    omega
  generalize replicate 5000001 (0 : UInt8) = large at hlarge
  obtain ⟨⟨e, he, hwhole⟩, ⟨e', he', hsegments⟩, hsays⟩ := sharedBatchSplit_written hlarge
  constructor
  · rintro ⟨e₁, he₁, hoperations, -⟩
    rw [he] at he₁
    cases he₁
    rw [hwhole, hsays] at hoperations
    simp at hoperations
  · rintro ⟨e₁, he₁, hoperations, -⟩
    rw [he'] at he₁
    cases he₁
    rw [hsegments, hsays] at hoperations
    simp at hoperations

end BatchRun

end MailServer.Store
