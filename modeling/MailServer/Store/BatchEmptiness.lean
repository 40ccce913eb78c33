import MailServer.Lib.Run
import MailServer.Store.BatchBuilder

/-!
# The emptiness test of a batch

`BatchBuilder::is_empty` (`store/src/write/batch.rs`), which callers ask before they commit. It
looks at a counter that not every call maintains and that a commit point resets.

Principal results: `isEmpty_exact_iff`; `turn_spec` — what a call adds to what the batch writes.
-/

namespace MailServer.Store

open InsertionMap Runs

variable {F : Type}

/-- Whether an operation writes to the store; selections and assertions do not. -/
def Operation.writes : Operation F → Bool
  | .accountId _ | .collection _ | .documentId _ | .assertValue .. => false
  | .value .. | .index .. | .log .. => true

/-- The calls of the builder. `commit_points` also takes the commit points, which nothing here
depends on; `custom` makes other calls. -/
inductive BuilderCall (F : Type) where
  | call (call : Call F)
  | anyOp (op : Operation F)
  | buildAll

variable {b b' : BatchBuilder F}

namespace BatchBuilder

def isEmpty (b : BatchBuilder F) : Bool := b.batchOps == 0

/-- Whether the operations and the pending changes write to the store. -/
def hasWrites (b : BatchBuilder F) : Bool := b.buildAll.ops.any Operation.writes

def anyOp (op : Operation F) : BatchBuilder F → BatchBuilder F := push op 0 1

def turn (b : BatchBuilder F) : BuilderCall F → Option (BatchBuilder F)
  | .call call => some (b.step call)
  | .anyOp op => some (b.anyOp op)
  | .buildAll => some b.serializeChanges

/-- Whether the call adds something that is written. -/
def adds (b : BatchBuilder F) : BuilderCall F → Bool
  | .anyOp op => op.writes
  | .buildAll => false
  | .call call =>
    match call with
    | .withAccountId _ | .withCollection _ | .withDocument _ | .assertValue .. | .commitPoint =>
      false
    | .logItemInsert .. | .logItemUpdate .. | .logItemDelete .. | .logContainerInsert _
    | .logContainerUpdate _ | .logContainerDelete _ =>
      b.currentAccountId.isSome && b.currentDocumentId.isSome
    | .logContainerPropertyChange .. | .logVanishedItem .. => b.currentAccountId.isSome
    | _ => true

/-- Whether the call counts as an operation. -/
def counts : BuilderCall F → Bool
  | .anyOp _ => true
  | .buildAll => false
  | .call call =>
    match call with
    | .withAccountId _ | .withCollection _ | .withDocument _ | .commitPoint | .setFnc ..
    | .mergeFnc .. | .logItemInsert .. | .logItemUpdate .. | .logItemDelete ..
    | .logContainerInsert _ | .logContainerUpdate _ | .logContainerDelete _
    | .logContainerPropertyChange .. | .logVanishedItem .. => false
    | _ => true

/-! ## What is written -/

theorem any_alter {κ ν : Type*} [DecidableEq κ] {key : κ} {default : ν} {f : ν → ν} {p : ν → Bool}
    (h : ∀ v, p (f v)) (m : InsertionMap κ ν) :
    (alter key default f m).any (fun entry => p entry.2) := by
  induction m with
  | nil => simp [alter, h]
  | cons entry rest ih =>
    unfold alter
    split
    · simp [h]
    · rw [List.any_cons, ih, Bool.or_true]

/-- Something waits to be logged. -/
def pending (log : ChangeLogBuilder) : Bool := !log.changes.isEmpty || !log.vanished.isEmpty

theorem any_operations (log : ChangeLogBuilder) :
    (log.operations : List (Operation F)).any Operation.writes = pending log := by
  cases log with
  | mk changes vanished =>
    cases changes <;> cases vanished <;>
      simp [ChangeLogBuilder.operations, logOperations, Operation.writes, pending]

theorem any_withAccountId (a : UInt32) (b : BatchBuilder F) :
    (b.withAccountId a).ops.any Operation.writes = b.ops.any Operation.writes := by
  unfold withAccountId
  split
  · rfl
  · simp [Operation.writes]

theorem any_foldl (entries : InsertionMap UInt32 ChangeLogBuilder) (b : BatchBuilder F) :
    (entries.foldl serializeAccount b).ops.any Operation.writes =
      (b.ops.any Operation.writes || entries.any fun entry => pending entry.2) := by
  induction entries generalizing b with
  | nil => simp
  | cons entry rest ih =>
    have hops : (b.serializeAccount entry).ops.any Operation.writes =
        (b.ops.any Operation.writes || pending entry.2) := by
      change ((b.withAccountId entry.1).ops ++ entry.2.operations).any _ = _
      rw [List.any_append, any_withAccountId, any_operations]
    rw [List.foldl_cons, ih, hops, List.any_cons, Bool.or_assoc]

/-- **What is written** are operations and pending changes. -/
theorem hasWrites_eq (b : BatchBuilder F) :
    b.hasWrites = (b.ops.any Operation.writes || b.changes.any fun entry => pending entry.2) :=
  any_foldl b.changes _

theorem hasWrites_congr (hops : b.ops = b'.ops)
    (hchanges : b.changes = b'.changes) : b.hasWrites = b'.hasWrites := by
  rw [hasWrites_eq, hasWrites_eq, hops, hchanges]

theorem changes_foldl (entries : InsertionMap UInt32 ChangeLogBuilder) (b : BatchBuilder F) :
    (entries.foldl serializeAccount b).changes = b.changes ∧
      (entries.foldl serializeAccount b).batchOps = b.batchOps := by
  induction entries generalizing b with
  | nil => exact ⟨rfl, rfl⟩
  | cons entry rest ih =>
    obtain ⟨hchanges, hops⟩ := ih (b.serializeAccount entry)
    rw [List.foldl_cons, hchanges, hops]
    unfold serializeAccount withAccountId
    split
    · exact ⟨rfl, rfl⟩
    · exact ⟨rfl, rfl⟩

theorem hasWrites_serializeChanges (b : BatchBuilder F) :
    b.serializeChanges.hasWrites = b.hasWrites := by
  have hchanges : b.serializeChanges.changes = [] := (changes_foldl b.changes _).1
  rw [hasWrites_eq, hchanges, List.any_nil, Bool.or_false]
  rfl

theorem hasWrites_logInto (a : UInt32) (collection : SyncCollection) (change : LogCall)
    (b : BatchBuilder F) : (b.logInto a collection change).hasWrites := by
  rw [hasWrites_eq]
  refine Bool.or_eq_true_iff.2 (.inr (any_alter (fun log => ?_) b.changes))
  have hne : (log.log collection ⟨b.calls, change⟩).changes ≠ [] := alter_ne_nil
  simp [pending, hne]

theorem hasWrites_logDocument (collection : SyncCollection) (change : UInt32 → LogCall)
    (b : BatchBuilder F) : (b.logDocument collection change).hasWrites =
      (b.hasWrites || (b.currentAccountId.isSome && b.currentDocumentId.isSome)) := by
  unfold logDocument
  cases b.currentAccountId <;> cases b.currentDocumentId <;> simp [hasWrites_logInto]

theorem hasWrites_push (op : Operation F) (size count : ℕ) (b : BatchBuilder F) :
    (b.push op size count).hasWrites = (b.hasWrites || op.writes) := by
  rw [hasWrites_eq, hasWrites_eq]
  simp [push, Bool.or_right_comm]

theorem hasWrites_cut (b : BatchBuilder F) : b.cut.hasWrites = b.hasWrites := by
  rw [← hasWrites_serializeChanges b, hasWrites_eq, hasWrites_eq]
  have hselections : b.serializeChanges.selections.any Operation.writes = false := by
    unfold selections
    cases b.serializeChanges.currentAccountId <;> cases b.serializeChanges.currentCollection <;>
      rfl
  simp [cut, hselections]

theorem step_logDocument (collection : SyncCollection) (change : UInt32 → LogCall)
    (b : BatchBuilder F) : (b.logDocument collection change).batchOps = b.batchOps := by
  unfold logDocument
  cases b.currentAccountId <;> cases b.currentDocumentId <;> rfl

/-- **What a call does** to what is written and to the counter, a commit point excepted. -/
theorem turn_spec {call}
    (hcommit : call ≠ .call .commitPoint) (h : b.turn call = some b') :
    b'.hasWrites = (b.hasWrites || b.adds call) ∧
      b'.batchOps = b.batchOps + (counts call).toNat := by
  cases call with
  | anyOp op =>
    cases h
    exact ⟨hasWrites_push op 0 1 b, rfl⟩
  | buildAll =>
    cases h
    exact ⟨by simp [hasWrites_serializeChanges, adds], (changes_foldl b.changes _).2⟩
  | call call =>
    cases h
    have hstep : (b.step call).hasWrites = (b.perform call).hasWrites := hasWrites_congr rfl rfl
    rw [hstep]
    change (b.perform call).hasWrites = _ ∧ (b.perform call).batchOps = _
    cases call with
    | commitPoint => cases hcommit rfl
    | withAccountId a =>
      rw [hasWrites_eq, hasWrites_eq]
      simp only [perform, adds, counts, withAccountId]
      split <;> simp [Operation.writes]
    | withCollection collection =>
      rw [hasWrites_eq, hasWrites_eq]
      simp only [perform, adds, counts, withCollection]
      split <;> simp [Operation.writes]
    | withDocument documentId =>
      rw [hasWrites_eq, hasWrites_eq]
      simp [perform, adds, counts, withDocument, Operation.writes]
    | logItemInsert | logItemUpdate | logItemDelete | logContainerInsert | logContainerUpdate
    | logContainerDelete => exact ⟨hasWrites_logDocument .., step_logDocument ..⟩
    | logContainerPropertyChange collection documentId =>
      change (b.logContainerPropertyChange collection documentId).hasWrites = _ ∧
        (b.logContainerPropertyChange collection documentId).batchOps = _
      unfold logContainerPropertyChange
      cases hcur : b.currentAccountId with
      | none => simp [adds, counts, hcur]
      | some a => exact ⟨by simp [adds, hcur, hasWrites_logInto], rfl⟩
    | logVanishedItem collection item =>
      change (b.logVanishedItem collection item).hasWrites = _ ∧
        (b.logVanishedItem collection item).batchOps = _
      unfold logVanishedItem
      cases hcur : b.currentAccountId with
      | none => simp [adds, counts, hcur]
      | some a =>
        refine ⟨?_, rfl⟩
        rw [hasWrites_eq]
        simp only [adds, hcur, Option.isSome_some, Bool.or_true]
        refine Bool.or_eq_true_iff.2 (.inr (any_alter (fun log => ?_) b.changes))
        have hne : (log.logVanishedItem collection ⟨b.calls, item⟩).vanished ≠ [] := alter_ne_nil
        simp [pending, hne]
    | logShareNotification notificationId notifyAccountId value =>
      refine ⟨(hasWrites_push ..).trans ?_, rfl⟩
      exact congrArg (· || true) (hasWrites_congr rfl rfl)
    | assertValue class_ value =>
      have hpush : (b.assertValue class_ value).hasWrites =
          (b.push (.assertValue class_ value) 0 1).hasWrites := hasWrites_congr rfl rfl
      exact ⟨hpush.trans (hasWrites_push ..), rfl⟩
    | _ => exact ⟨hasWrites_push .., rfl⟩

/-! ## The test -/

/-- The test tells whether something is written. -/
def Exact (b : BatchBuilder F) : Prop := b.isEmpty = !b.hasWrites

/-- The builder already holds something that is written, or the call counts as an operation exactly
if it adds something; no commit point fires over something that is written. -/
def Counted (b : BatchBuilder F) : BuilderCall F → Prop
  | .call .commitPoint => b.isLargeBatch → b.hasWrites = false
  | call => b.hasWrites ∨ counts call = b.adds call

theorem exact_iff {call} (hexact : Exact b)
    (h : b.turn call = some b') : Exact b' ↔ Counted b call := by
  unfold Exact isEmpty at hexact ⊢
  by_cases hcommit : call = .call .commitPoint
  · subst hcommit
    cases h
    have hstep : (b.step .commitPoint).hasWrites = b.commitPoint.hasWrites :=
      hasWrites_congr rfl rfl
    rw [hstep]
    change (b.commitPoint.batchOps == 0) = _ ↔ (b.isLargeBatch → b.hasWrites = false)
    unfold commitPoint
    split
    · rename_i hlarge
      have hcut : b.cut.batchOps = 0 := rfl
      simp [hcut, hasWrites_cut, hlarge]
    · rename_i hlarge
      simp [hexact, hlarge]
  · obtain ⟨hwrites, hops⟩ := turn_spec hcommit h
    have hcounted : Counted b call ↔ b.hasWrites ∨ counts call = b.adds call := by
      unfold Counted
      split
      · cases hcommit rfl
      · rfl
    rw [hwrites, hops, hcounted]
    cases hb : b.hasWrites with
    | true =>
      have hne : b.batchOps ≠ 0 := by simpa [hb] using hexact
      simp [hne]
    | false =>
      have hzero : b.batchOps = 0 := by simpa [hb] using hexact
      rw [hzero]
      cases counts call <;> cases b.adds call <;> simp

/-- **The emptiness test** tells in every state of a run whether something is written, exactly if
every call of the run is counted. -/
theorem isEmpty_exact_iff (calls : List (BuilderCall F)) :
    Throughout turn Exact new calls ↔ Along turn Counted new calls :=
  have hall : Along turn (fun _ _ => True) new calls := .of_forall (fun _ _ => trivial) new calls
  throughout_iff_along (J := fun _ => True) (fun _ _ _ _ _ _ => trivial)
    (fun _ _ _ hexact _ _ h => exact_iff hexact h)
    (fun _ call _ _ _ h => by cases call <;> cases h) rfl trivial hall

/-- A value that a function computes is written, and not counted. -/
theorem isEmpty_setFnc : ∃ b : BatchBuilder Unit,
    exec turn new [.call (.withAccountId 1), .call (.setFnc (.property 50) ())] = some b ∧
      b.hasWrites ∧ b.isEmpty :=
  ⟨_, rfl, rfl, rfl⟩

end BatchBuilder

end MailServer.Store
