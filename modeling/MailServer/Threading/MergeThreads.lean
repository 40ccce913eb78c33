import MailServer.Threading.ThreadMerge
import Mathlib.Data.List.Flatten
import Mathlib.Data.List.Perm.Subperm

/-!
# Merging threads

`merge_threads` (`services/src/task_manager/merge_threads.rs`) moves the messages of several
threads into one of them. It lists the index entries of a subject, reads the data of every message
it is about to move, and commits; other writers may change the store before each of these accesses,
and what does not fit is tried again.

Principal result: `survives_iff`.
-/

namespace MailServer.Threading

open List Function

variable {message : ℕ × ℕ} {found : List (ℕ × ℕ)}

/-! ## The store -/

/-- `MessageData`: the thread of a message, and the rest of the record, which is only copied. -/
structure MessageData (ρ : Type) where
  threadId : ℕ
  rest : ρ

/-- A value of the `Threading` index: the thread of a message and its references. -/
structure ThreadInfo (κ : Type) where
  threadId : ℕ
  refIds : List κ
deriving DecidableEq

/-- The archived messages, and the entries of the `Threading` index under the hash of one subject.
-/
structure Store (ρ κ : Type) where
  archive : ℕ → Option (MessageData ρ)
  threading : InsertionMap ℕ (ThreadInfo κ)

variable {ρ κ ε : Type}

/-- Every writer that sets the thread of a message sets its entry of the index too. A message that
`emails_delete` has deleted has no data any more; its entry stays until the index task clears it. -/
structure Store.Consistent (store : Store ρ κ) : Prop where
  nodup : store.threading.keys.Nodup
  agree : ∀ entry ∈ store.threading, ∀ data, store.archive entry.1 = some data →
    data.threadId = entry.2.threadId

/-- The index entries whose thread is one of those to merge. -/
def Store.listed (mergeIds : List ℕ) (store : Store ρ κ) : List (ℕ × ThreadInfo κ) :=
  store.threading.filter fun entry => decide (entry.2.threadId ∈ mergeIds)

/-- The thread and the document of an index entry. -/
def threadOf (entry : ℕ × ThreadInfo κ) : ℕ × ℕ := (entry.2.threadId, entry.1)

/-- What the accesses of one attempt meet; an error is one of the store itself. -/
structure Attempt (ρ κ ε : Type) where
  /-- The store as it is iterated. -/
  listed : Except ε (Store ρ κ)
  /-- The store at each `get_value`, by the number of those before. -/
  reads : ℕ → Except ε (Store ρ κ)
  /-- The store as the batch is committed. -/
  commit : Except ε (Store ρ κ)
  /-- The order in which the hash map is walked. -/
  order : ThreadMerge → ThreadMerge
  order_perm : ∀ entries, (order entries).Perm entries

/-- The store at one of the accesses. -/
inductive Attempt.Meets (a : Attempt ρ κ ε) (store : Store ρ κ) : Prop where
  | listed (h : a.listed = .ok store)
  | reads (i : ℕ) (h : a.reads i = .ok store)
  | commit (h : a.commit = .ok store)

/-- Other writers leave the store consistent before every access. -/
def Attempt.Consistent (a : Attempt ρ κ ε) : Prop :=
  ∀ store, a.Meets store → store.Consistent

/-- No message comes back: one that an attempt lists and that is gone at one of its accesses is gone
at the accesses of all later attempts. -/
def NoReturn (env : ℕ → Attempt ρ κ ε) : Prop :=
  ∀ i j, i < j → ∀ listed, (env i).listed = .ok listed → ∀ documentId ∈ listed.threading.keys,
    ∀ store, (env i).Meets store → store.archive documentId = none →
      ∀ store', (env j).Meets store' → store'.archive documentId = none

/-! ## One attempt -/

def MAX_RETRIES : ℕ := 5

/-- The variables declared before the loop. -/
structure Progress (κ : Type) where
  threadMerge : ThreadMerge := []
  threadIndex : ℕ → Option (ThreadInfo κ) := fun _ => none
  tryCount : ℕ := 0

/-- The callback of the iteration. -/
def Progress.visit (p : Progress κ) (entry : ℕ × ThreadInfo κ) : Progress κ :=
  { p with
    threadMerge := ThreadMerge.add p.threadMerge entry.2.threadId entry.1
    threadIndex := update p.threadIndex entry.1 (some entry.2) }

/-- A message to move: its data as read, and its value in the index as iterated. -/
structure Move (ρ κ : Type) where
  documentId : ℕ
  current : MessageData ρ
  info : ThreadInfo κ

/-- How the two inner loops end. -/
inductive Moves (ρ κ ε : Type) where
  | batch (moves : List (Move ρ κ)) (threadIndex : ℕ → Option (ThreadInfo κ))
  | mismatch (threadIndex : ℕ → Option (ThreadInfo κ))
  | panicked
  | failed (err : ε)

/-- The loops over the groups and their documents; `i` counts the values read. -/
def moveMessages (reads : ℕ → Except ε (Store ρ κ)) : ℕ → List (ℕ × ℕ) →
    (ℕ → Option (ThreadInfo κ)) → List (Move ρ κ) → Moves ρ κ ε
  | _, [], threadIndex, moves => .batch moves threadIndex
  | i, (groupThreadId, documentId) :: rest, threadIndex, moves =>
    match reads i with
    | .error err => .failed err
    | .ok store =>
      match store.archive documentId with
      | none => moveMessages reads (i + 1) rest threadIndex moves
      | some data =>
        if data.threadId ≠ groupThreadId then .mismatch threadIndex
        else
          match threadIndex documentId with
          | none => .panicked -- `thread_index.remove(&document_id).unwrap()`
          | some info =>
            moveMessages reads (i + 1) rest (update threadIndex documentId none)
              (moves ++ [⟨documentId, data, info⟩])

/-- The messages outside the thread chosen, group by group. -/
def others (entries : ThreadMerge) : List (ℕ × ℕ) :=
  (entries.filter fun group => decide (group.1 ≠ ThreadMerge.mergeThreadId entries)).flatMap
    fun group => group.2.map (Prod.mk group.1)

/-- A task that ends well: the entries it found and counted last, and the batch it committed. -/
structure Commit (ρ κ : Type) where
  found : List (ℕ × ThreadInfo κ)
  entries : ThreadMerge
  deleted : List ℕ
  moves : List (Move ρ κ)
  before : Store ρ κ

/-- Sets the thread of one message, in its data and in the index. -/
def Store.move (threadId : ℕ) (store : Store ρ κ) (m : Move ρ κ) : Store ρ κ where
  archive := update store.archive m.documentId
    (some { m.current with threadId := threadId })
  threading := store.threading.insert m.documentId { m.info with threadId := threadId }

def Commit.after (c : Commit ρ κ) : Store ρ κ :=
  c.moves.foldl (Store.move (ThreadMerge.mergeThreadId c.entries)) c.before

inductive Failure (ε : Type) where
  | store (err : ε)
  | assertionFailed

/-- How an attempt ends. -/
inductive Outcome (ρ κ ε : Type) where
  | retry (p : Progress κ)
  | panicked
  | failed (err : Failure ε)
  | done (c : Commit ρ κ)

variable (hash : MessageData ρ → UInt32)

/-- `assert_value(Field::ARCHIVE, &current)`, which compares the hashes of the archives. -/
def Store.asserts (store : Store ρ κ) (m : Move ρ κ) : Bool :=
  match store.archive m.documentId with
  | none => false
  | some data => decide (hash data = hash m.current)

/-- The body of `'retry: loop`. -/
def attempt (mergeIds : List ℕ) (p : Progress κ) (a : Attempt ρ κ ε) : Outcome ρ κ ε :=
  match a.listed with
  | .error err => .failed (.store err)
  | .ok store =>
    let found := store.listed mergeIds
    let p := found.foldl Progress.visit p
    let entries := a.order p.threadMerge
    if ThreadMerge.numThreadIds p.threadMerge < 2 then
      .done { found, entries, deleted := [], moves := [], before := store }
    else
      let threadId := ThreadMerge.mergeThreadId entries
      let deleted := (ThreadMerge.threadIds entries).filter fun id => decide (id ≠ threadId)
      match moveMessages a.reads 0 (others entries) p.threadIndex [] with
      | .failed err => .failed (.store err)
      | .panicked => .panicked
      | .mismatch threadIndex => .retry { p with threadIndex, tryCount := p.tryCount + 1 }
      | .batch moves threadIndex =>
        match a.commit with
        | .error err => .failed (.store err)
        | .ok before =>
          if moves.all (before.asserts hash) then .done { found, entries, deleted, moves, before }
          else if p.tryCount < MAX_RETRIES then
            .retry { p with threadIndex, tryCount := p.tryCount + 1 }
          else .failed .assertionFailed

/-- `merge_threads`, for at most so many attempts; `none` when it wants another one. -/
def mergeThreads (mergeIds : List ℕ) : ℕ → (ℕ → Attempt ρ κ ε) → Progress κ →
    Option (Outcome ρ κ ε)
  | 0, _, _ => none
  | attempts + 1, env, p =>
    match attempt hash mergeIds p (env 0) with
    | .retry p' => mergeThreads mergeIds attempts (fun i => env (i + 1)) p'
    | outcome => some outcome

/-! ## What a task may do -/

/-- What a task that returns `Ok` owes to the messages it found. -/
structure Commit.Sound (c : Commit ρ κ) : Prop where
  /-- The data and the index of a message found agree on its thread. -/
  agree : ∀ entry ∈ c.found, ∀ data info, c.after.archive entry.1 = some data →
    c.after.threading.find entry.1 = some info → data.threadId = info.threadId
  /-- A thread that lost all its messages is logged as deleted once. -/
  deleted_once : ∀ threadId,
    (∃ documentId data, c.before.archive documentId = some data ∧ data.threadId = threadId) →
    (∀ documentId data, c.after.archive documentId = some data → data.threadId ≠ threadId) →
    c.deleted.count threadId = 1
  /-- The thread that messages are moved to was counted from the entries that this attempt found,
  each of them as it still is. -/
  fresh : c.moves ≠ [] →
    (c.entries.flatMap fun group => group.2.map (Prod.mk group.1)).Perm (c.found.map threadOf) ∧
    ∀ entry ∈ c.found,
      (c.before.threading.find entry.1).map ThreadInfo.threadId = some entry.2.threadId

/-- `merge_threads` ends within its attempts, does not panic, and has done what it owes if it
returns `Ok`. -/
def Survives (mergeIds : List ℕ) (env : ℕ → Attempt ρ κ ε) : Prop :=
  ∃ outcome, mergeThreads hash mergeIds (MAX_RETRIES + 1) env {} = some outcome ∧
    outcome ≠ .panicked ∧ ∀ c, outcome = .done c → c.Sound

/-- The entries counted by the first attempt. -/
def counted (mergeIds : List ℕ) (store : Store ρ κ) : ThreadMerge :=
  InsertionMap.gather ((store.listed mergeIds).map threadOf)

/-- No other writer comes between what the attempt lists, what it reads and what it commits. -/
structure Attempt.Undisturbed (mergeIds : List ℕ) (a : Attempt ρ κ ε) (store : Store ρ κ) :
    Prop where
  /-- A message that is read is still in the thread that the index named. -/
  matched : ∀ (i : ℕ) (threadId documentId : ℕ),
    (others (a.order (counted mergeIds store)))[i]? = some (threadId, documentId) →
    (∀ j < i, ∃ read, a.reads j = .ok read) →
    ∀ read data, a.reads i = .ok read → read.archive documentId = some data →
      data.threadId = threadId
  /-- At the commit, the data of a message that was read has the same hash, and the entries found
  still name the same threads. -/
  unchanged : (∀ j < (others (a.order (counted mergeIds store))).length,
      ∃ read, a.reads j = .ok read) →
    ∀ before, a.commit = .ok before →
    ∀ (i : ℕ) (threadId documentId : ℕ) read data,
      (others (a.order (counted mergeIds store)))[i]? = some (threadId, documentId) →
      a.reads i = .ok read → read.archive documentId = some data →
      (∃ data', before.archive documentId = some data' ∧ hash data' = hash data) ∧
      ∀ entry ∈ store.listed mergeIds,
        (before.threading.find entry.1).map ThreadInfo.threadId = some entry.2.threadId

/-! ## The inner loops -/

variable {reads : ℕ → Except ε (Store ρ κ)}

/-- The values read from position `i` on are in the threads they are expected in. -/
def Matching (reads : ℕ → Except ε (Store ρ κ)) (i : ℕ) (messages : List (ℕ × ℕ)) : Prop :=
  ∀ (j : ℕ) (message : ℕ × ℕ), messages[j]? = some message →
    ∃ read, reads (i + j) = .ok read ∧
      ∀ data, read.archive message.2 = some data → data.threadId = message.1

theorem Matching.nil (i : ℕ) : Matching reads i [] := fun j message h => by
  cases h

theorem Matching.cons {i : ℕ} {rest} {read : Store ρ κ} (hread : reads i = .ok read)
    (hdata : ∀ data, read.archive message.2 = some data → data.threadId = message.1)
    (hrest : Matching reads (i + 1) rest) : Matching reads i (message :: rest) := by
  intro j other hj
  cases j with
  | zero =>
    cases hj
    exact ⟨read, hread, hdata⟩
  | succ j =>
    have := hrest j other hj
    rwa [Nat.add_right_comm, Nat.add_assoc] at this

/-- A batch holds the messages that were there to be read, as they were read. -/
structure Batched (reads : ℕ → Except ε (Store ρ κ)) (i : ℕ) (messages : List (ℕ × ℕ))
    (before moves : List (Move ρ κ)) : Prop where
  matching : Matching reads i messages
  kept : ∀ m ∈ before, m ∈ moves
  sound : ∀ m ∈ moves, m ∈ before ∨ ∃ (j : ℕ) (threadId : ℕ) (read : Store ρ κ),
    messages[j]? = some (threadId, m.documentId) ∧ reads (i + j) = .ok read ∧
      read.archive m.documentId = some m.current
  complete : ∀ (j : ℕ) (message : ℕ × ℕ) read data, messages[j]? = some message →
    reads (i + j) = .ok read → read.archive message.2 = some data →
    ∃ m ∈ moves, m.documentId = message.2 ∧ m.current = data

theorem Batched.cons {i : ℕ} {rest} {read : Store ρ κ}
    {before before' moves} (hread : reads i = .ok read)
    (hdata : ∀ data, read.archive message.2 = some data → data.threadId = message.1)
    (hbefore : ∀ m ∈ before', m ∈ before ∨
      (m.documentId = message.2 ∧ read.archive m.documentId = some m.current))
    (hkept : ∀ m ∈ before, m ∈ before') (hmoved : ∀ data, read.archive message.2 = some data →
      ∃ m ∈ before', m.documentId = message.2 ∧ m.current = data)
    (h : Batched reads (i + 1) rest before' moves) :
    Batched reads i (message :: rest) before moves where
  matching := h.matching.cons hread hdata
  kept m hm := h.kept m (hkept m hm)
  sound m hm := by
    rcases h.sound m hm with hm | ⟨j, threadId, read', hj, hread', harchive⟩
    · rcases hbefore m hm with hm | ⟨hdocument, harchive⟩
      · exact .inl hm
      · refine .inr ⟨0, message.1, read, ?_, hread, harchive⟩
        rw [getElem?_cons_zero, hdocument]
    · refine .inr ⟨j + 1, threadId, read', ?_, ?_, harchive⟩
      · exact hj
      · rwa [← Nat.add_assoc, Nat.add_right_comm]
  complete j other read' data hj hread' harchive := by
    cases j with
    | zero =>
      cases hj
      cases hread.symm.trans hread'
      obtain ⟨m, hm, hm'⟩ := hmoved data harchive
      exact ⟨m, h.kept m hm, hm'⟩
    | succ j =>
      rw [← Nat.add_assoc, Nat.add_right_comm] at hread'
      exact h.complete j other read' data hj hread' harchive

theorem batched_of_moveMessages {i : ℕ} {messages}
    {threadIndex threadIndex'} {before moves}
    (h : moveMessages reads i messages threadIndex before = .batch moves threadIndex') :
    Batched reads i messages before moves := by
  induction messages generalizing i threadIndex before with
  | nil =>
    cases h
    exact ⟨Matching.nil i, fun m hm => hm, fun m hm => .inl hm, fun j message _ _ hj => by
      cases hj⟩
  | cons message rest ih =>
    obtain ⟨groupThreadId, documentId⟩ := message
    unfold moveMessages at h
    split at h
    · cases h
    · rename_i read hread
      split at h
      · rename_i hnone
        refine (ih h).cons hread (fun data hdata => ?_) (fun m hm => .inl hm) (fun m hm => hm)
          fun data hdata => ?_
        · rw [hnone] at hdata
          cases hdata
        · rw [hnone] at hdata
          cases hdata
      · rename_i data hdata
        split at h
        · cases h
        · rename_i hthread
          split at h
          · cases h
          · refine (ih h).cons hread (fun data' hdata' => ?_) (fun m hm => ?_)
              (fun m hm => mem_append_left _ hm) fun data' hdata' => ?_
            · obtain rfl : data = data' := Option.some_inj.1 (hdata.symm.trans hdata')
              exact not_not.1 hthread
            · rcases mem_append.1 hm with hm | hm
              · exact .inl hm
              · obtain rfl := mem_singleton.1 hm
                exact .inr ⟨rfl, hdata⟩
            · obtain rfl : data = data' := Option.some_inj.1 (hdata.symm.trans hdata')
              exact ⟨_, mem_append_right _ (mem_singleton.2 rfl), rfl, rfl⟩

variable {threadIndex : ℕ → Option (ThreadInfo κ)}

section

variable {i : ℕ} {messages : List (ℕ × ℕ)} {before : List (Move ρ κ)}

/-- An error of the store ends the loops at the first value that cannot be read. -/
theorem read_error_of_moveMessages {err : ε}
    (h : moveMessages reads i messages threadIndex before = .failed err) :
    ∃ j < messages.length, reads (i + j) = .error err ∧ Matching reads i (messages.take j) := by
  induction messages generalizing i threadIndex before with
  | nil => cases h
  | cons message rest ih =>
    obtain ⟨groupThreadId, documentId⟩ := message
    -- the rest fails one position later, after a value that fits
    have hlater : ∀ {threadIndex : ℕ → Option (ThreadInfo κ)} {before : List (Move ρ κ)} {read},
        reads i = .ok read →
        (∀ data, read.archive documentId = some data → data.threadId = groupThreadId) →
        moveMessages reads (i + 1) rest threadIndex before = .failed err →
        ∃ j < ((groupThreadId, documentId) :: rest).length, reads (i + j) = .error err ∧
          Matching reads i (((groupThreadId, documentId) :: rest).take j) := by
      intro threadIndex before read hread hdata h
      obtain ⟨j, hj, herr, hmatching⟩ := ih h
      refine ⟨j + 1, Nat.succ_lt_succ hj, ?_, ?_⟩
      · rwa [← Nat.add_assoc, Nat.add_right_comm]
      · exact hmatching.cons hread hdata
    unfold moveMessages at h
    split at h
    · rename_i err' hread
      cases h
      refine ⟨0, Nat.zero_lt_succ _, hread, ?_⟩
      exact Matching.nil i
    · rename_i read hread
      split at h
      · rename_i hnone
        refine hlater hread (fun data hdata => ?_) h
        rw [hnone] at hdata
        cases hdata
      · rename_i data hdata
        split at h
        · cases h
        · rename_i hthread
          split at h
          · cases h
          · refine hlater hread (fun data' hdata' => ?_) h
            obtain rfl : data = data' := Option.some_inj.1 (hdata.symm.trans hdata')
            exact not_not.1 hthread

/-- The loops stop at the first message that is no longer in its thread. -/
theorem mismatch_of_moveMessages {threadIndex threadIndex'}
    (h : moveMessages reads i messages threadIndex before = .mismatch threadIndex') :
    ∃ j threadId documentId read data,
      messages[j]? = some (threadId, documentId) ∧
      (∀ l < j, ∃ read, reads (i + l) = .ok read) ∧ reads (i + j) = .ok read ∧
      read.archive documentId = some data ∧ data.threadId ≠ threadId := by
  induction messages generalizing i threadIndex before with
  | nil => cases h
  | cons message rest ih =>
    obtain ⟨groupThreadId, documentId⟩ := message
    have hlater : ∀ {threadIndex : ℕ → Option (ThreadInfo κ)} {before : List (Move ρ κ)} {read},
        reads i = .ok read →
        moveMessages reads (i + 1) rest threadIndex before = .mismatch threadIndex' →
        ∃ j threadId documentId' read data,
          ((groupThreadId, documentId) :: rest)[j]? = some (threadId, documentId') ∧
          (∀ l < j, ∃ read, reads (i + l) = .ok read) ∧ reads (i + j) = .ok read ∧
          read.archive documentId' = some data ∧ data.threadId ≠ threadId := by
      intro threadIndex before read hread h
      obtain ⟨j, threadId, documentId', read', data, hj, hreads, hread', hdata⟩ := ih h
      refine ⟨j + 1, threadId, documentId', read', data, hj, fun l hl => ?_, ?_, hdata⟩
      · cases l with
        | zero => exact ⟨read, hread⟩
        | succ l =>
          rw [← Nat.add_assoc, Nat.add_right_comm]
          exact hreads l (Nat.lt_of_succ_lt_succ hl)
      · rwa [← Nat.add_assoc, Nat.add_right_comm]
    unfold moveMessages at h
    split at h
    · cases h
    · rename_i read hread
      split at h
      · exact hlater hread h
      · rename_i data hdata
        split at h
        · rename_i hthread
          exact ⟨0, groupThreadId, documentId, read, data, rfl,
            fun l hl => absurd hl (Nat.not_lt_zero l), hread, hdata, hthread⟩
        · split at h
          · cases h
          · exact hlater hread h

theorem moveMessages_ne_panicked (hnodup : (messages.map Prod.snd).Nodup)
    (hindex : ∀ message ∈ messages, threadIndex message.2 ≠ none) :
    moveMessages reads i messages threadIndex before ≠ .panicked := by
  induction messages generalizing i threadIndex before with
  | nil => exact fun h => by cases h
  | cons message rest ih =>
    obtain ⟨groupThreadId, documentId⟩ := message
    obtain ⟨hnew, hrest⟩ := nodup_cons.1 hnodup
    have hindex' := fun other hother => hindex other (.tail _ hother)
    intro h
    unfold moveMessages at h
    split at h
    · cases h
    · split at h
      · exact ih hrest hindex' h
      · split at h
        · cases h
        · split at h
          · rename_i hnone
            exact hindex _ ((.head _) ..) hnone
          · refine ih hrest (fun other hother => ?_) h
            have hne : other.2 ≠ documentId := fun heq =>
              hnew (mem_map.2 ⟨other, hother, heq⟩)
            rw [update_of_ne hne]
            exact hindex' other hother

/-- **A document met twice** is no longer in the map the second time. -/
theorem moveMessages_panicked {documentId : ℕ} (hreads : Matching reads i messages)
    (hstays : ∀ j read, reads (i + j) = .ok read → read.archive documentId ≠ none)
    (htwice : 2 ≤ (messages.map Prod.snd).count documentId ∨
      documentId ∈ messages.map Prod.snd ∧ threadIndex documentId = none) :
    moveMessages reads i messages threadIndex before = .panicked := by
  induction messages generalizing i threadIndex before with
  | nil =>
    rcases htwice with hcount | ⟨hmem, -⟩
    · cases hcount
    · cases hmem
  | cons message rest ih =>
    obtain ⟨groupThreadId, other⟩ := message
    obtain ⟨read, hread, hdata⟩ := hreads 0 _ rfl
    rw [Nat.add_zero] at hread
    have hreads' : Matching reads (i + 1) rest := by
      intro j message hj
      rw [Nat.add_assoc, Nat.add_comm 1 j]
      exact hreads (j + 1) message hj
    have hstays' : ∀ j read, reads (i + 1 + j) = .ok read → read.archive documentId ≠ none := by
      intro j read' hread'
      rw [Nat.add_assoc] at hread'
      exact hstays (1 + j) read' hread'
    unfold moveMessages
    simp only [hread]
    split
    · rename_i hnone
      have hne : other ≠ documentId := fun heq => hstays 0 read hread (heq ▸ hnone)
      rw [map_cons, count_cons_of_ne hne, mem_cons, or_iff_right hne.symm] at htwice
      exact ih hreads' hstays' htwice
    · rename_i data hsome
      rw [if_neg (not_not.2 (hdata data hsome))]
      split
      · rfl
      · rename_i info hinfo
        refine ih hreads' hstays' ?_
        by_cases heq : other = documentId
        · -- the first time, the document leaves the map
          subst heq
          rcases htwice with hcount | ⟨-, hnone⟩
          · rw [map_cons, count_cons_self] at hcount
            exact .inr ⟨count_pos_iff.1 (by omega), update_self ..⟩
          · rw [hinfo] at hnone
            cases hnone
        · rw [map_cons, count_cons_of_ne heq, mem_cons, or_iff_right (Ne.symm heq)] at htwice
          rwa [update_of_ne (Ne.symm heq)]

end

/-! ## What the iteration gathers -/

theorem thread_merge_foldl_visit (found : List (ℕ × ThreadInfo κ)) {p : Progress κ}
    {earlier} (h : p.threadMerge = InsertionMap.gather earlier) :
    (found.foldl Progress.visit p).threadMerge =
      InsertionMap.gather (earlier ++ found.map threadOf) := by
  induction found generalizing p earlier with
  | nil => rw [map_nil, append_nil]; exact h
  | cons entry rest ih =>
    have hstep : (p.visit entry).threadMerge =
      InsertionMap.gather (earlier ++ [threadOf entry]) := by
      rw [InsertionMap.gather, foldl_append]
      exact congrArg (fun merge => ThreadMerge.add merge entry.2.threadId entry.1) h
    rw [foldl_cons, ih hstep, append_assoc]
    rfl

theorem thread_index_foldl_visit {found : List (ℕ × ThreadInfo κ)} {p : Progress κ}
    {documentId : ℕ}
    (h : documentId ∈ found.map Prod.fst ∨ p.threadIndex documentId ≠ none) :
    (found.foldl Progress.visit p).threadIndex documentId ≠ none := by
  induction found generalizing p with
  | nil => exact h.elim (fun hmem => by cases hmem) id
  | cons entry rest ih =>
    refine ih ?_
    by_cases heq : documentId = entry.1
    · refine .inr ?_
      change update p.threadIndex entry.1 (some entry.2) documentId ≠ none
      rw [heq, update_self]
      exact fun hnone => by cases hnone
    · rcases h with hmem | hindex
      · exact .inl ((mem_cons.1 hmem).resolve_left heq)
      · refine .inr ?_
        change update p.threadIndex entry.1 (some entry.2) documentId ≠ none
        rwa [update_of_ne heq]

theorem try_count_foldl_visit (found : List (ℕ × ThreadInfo κ)) (p : Progress κ) :
    (found.foldl Progress.visit p).tryCount = p.tryCount := by
  induction found generalizing p with
  | nil => rfl
  | cons entry rest ih => exact ih (p.visit entry)

/-! ## The messages outside the thread chosen -/

variable {entries : ThreadMerge}

/-- The threads and documents counted, group by group. -/
def pairs (entries : ThreadMerge) : List (ℕ × ℕ) :=
  entries.flatMap fun group => group.2.map (Prod.mk group.1)

theorem others_eq (entries : ThreadMerge) :
    others entries = (pairs entries).filter fun message =>
      decide (message.1 ≠ ThreadMerge.mergeThreadId entries) := by
  unfold others pairs
  generalize ThreadMerge.mergeThreadId entries = chosen
  induction entries with
  | nil => rfl
  | cons group rest ih =>
    rw [flatMap_cons, filter_append, ← ih, filter_cons]
    by_cases hne : group.1 = chosen
    · simp [hne]
    · have hall : ∀ message ∈ group.2.map (Prod.mk group.1), decide (message.1 ≠ chosen) := by
        intro message hmem
        obtain ⟨documentId, -, rfl⟩ := mem_map.1 hmem
        exact decide_eq_true hne
      rw [if_pos (decide_eq_true hne), flatMap_cons, filter_eq_self.2 hall]

theorem mem_others :
    message ∈ others entries ↔
      message ∈ pairs entries ∧ message.1 ≠ ThreadMerge.mergeThreadId entries := by
  rw [others_eq, mem_filter, decide_eq_true_iff]

section

variable {order : ThreadMerge → ThreadMerge} (horder : ∀ entries, (order entries).Perm entries)
include horder

theorem pairs_order_perm (found : List (ℕ × ℕ)) :
    (pairs (order (InsertionMap.gather found))).Perm found :=
  ((horder _).flatMap_right _).trans (InsertionMap.pairs_gather_perm found)

theorem nodup_others (hnodup : (found.map Prod.snd).Nodup) :
    ((others (order (InsertionMap.gather found))).map Prod.snd).Nodup := by
  rw [others_eq]
  exact (((pairs_order_perm horder found).map Prod.snd).nodup_iff.2 hnodup).sublist
    (filter_sublist.map Prod.snd)

theorem mem_others_gather :
    message ∈ others (order (InsertionMap.gather found)) ↔ message ∈ found ∧
      message.1 ≠ ThreadMerge.mergeThreadId (order (InsertionMap.gather found)) := by
  rw [mem_others, (pairs_order_perm horder found).mem_iff]

/-- **An entry found twice** leaves its document twice among the others. -/
theorem two_le_count_others (hfound : 2 ≤ found.count message)
    (hne : message.1 ≠ ThreadMerge.mergeThreadId (order (InsertionMap.gather found))) :
    2 ≤ ((others (order (InsertionMap.gather found))).map Prod.snd).count message.2 := by
  calc 2 ≤ found.count message := hfound
    _ = (pairs (order (InsertionMap.gather found))).count message :=
      ((pairs_order_perm horder found).count_eq message).symm
    _ = (others (order (InsertionMap.gather found))).count message := by
      rw [others_eq, count_filter (a := message) (decide_eq_true hne)]
    _ ≤ ((others (order (InsertionMap.gather found))).map Prod.snd).count message.2 :=
      count_le_count_map

end

/-! ## The store after the commit -/

section After

variable (threadId : ℕ) {documentId : ℕ} {moves : List (Move ρ κ)} (store : Store ρ κ)

theorem archive_foldl_move (h : ∃ m ∈ moves, m.documentId = documentId) :
    (∃ data, (moves.foldl (Store.move threadId) store).archive documentId = some data ∧
      data.threadId = threadId) ∧
    ∃ info, (moves.foldl (Store.move threadId) store).threading.find documentId = some info ∧
      info.threadId = threadId := by
  induction moves using reverseRecOn with
  | nil =>
    obtain ⟨m, hm, -⟩ := h
    cases hm
  | append_singleton moves last ih =>
    rw [foldl_append, foldl_cons, foldl_nil]
    unfold Store.move at ih ⊢
    simp only [InsertionMap.find_insert]
    by_cases heq : documentId = last.documentId
    · subst heq
      rw [update_self, if_pos rfl]
      exact ⟨⟨_, rfl, rfl⟩, ⟨_, rfl, rfl⟩⟩
    · rw [update_of_ne heq, if_neg heq]
      refine ih ?_
      obtain ⟨m, hm, hdocument⟩ := h
      rcases mem_append.1 hm with hm | hm
      · exact ⟨m, hm, hdocument⟩
      · rw [mem_singleton.1 hm] at hdocument
        cases heq hdocument.symm

theorem foldl_move_of_notMem (h : ∀ m ∈ moves, m.documentId ≠ documentId) :
    (moves.foldl (Store.move threadId) store).archive documentId = store.archive documentId ∧
    (moves.foldl (Store.move threadId) store).threading.find documentId =
      store.threading.find documentId := by
  induction moves using reverseRecOn with
  | nil => exact ⟨rfl, rfl⟩
  | append_singleton moves last ih =>
    have hlast : documentId ≠ last.documentId := fun heq =>
      h last (mem_append_right _ (mem_singleton.2 rfl)) heq.symm
    rw [foldl_append, foldl_cons, foldl_nil]
    unfold Store.move at ih ⊢
    simp only [InsertionMap.find_insert]
    rw [update_of_ne hlast, if_neg hlast]
    exact ih fun m hm => h m (mem_append_left _ hm)

end After

theorem Store.Consistent.agree_of_find {store : Store ρ κ} (h : store.Consistent) {documentId : ℕ}
    {data} {info} (hdata : store.archive documentId = some data)
    (hinfo : store.threading.find documentId = some info) : data.threadId = info.threadId :=
  h.agree _ ((InsertionMap.find_eq_some h.nodup).1 hinfo) data hdata

theorem Commit.agree_after {c : Commit ρ κ} (h : c.before.Consistent) {documentId : ℕ}
    {data} {info : ThreadInfo κ} (hdata : c.after.archive documentId = some data)
    (hinfo : c.after.threading.find documentId = some info) : data.threadId = info.threadId := by
  unfold Commit.after at hdata hinfo
  by_cases hmoved : ∃ m ∈ c.moves, m.documentId = documentId
  · obtain ⟨⟨data', hdata', hthread⟩, info', hinfo', hthread'⟩ :=
      archive_foldl_move (ThreadMerge.mergeThreadId c.entries) c.before hmoved
    obtain rfl : data = data' := Option.some_inj.1 (hdata.symm.trans hdata')
    obtain rfl : info = info' := Option.some_inj.1 (hinfo.symm.trans hinfo')
    exact hthread.trans hthread'.symm
  · push Not at hmoved
    obtain ⟨harchive, hindex⟩ :=
      foldl_move_of_notMem (ThreadMerge.mergeThreadId c.entries) c.before hmoved
    rw [harchive] at hdata
    rw [hindex] at hinfo
    exact h.agree_of_find hdata hinfo

/-! ## The first attempt -/

variable {hash} {mergeIds : List ℕ} {a : Attempt ρ κ ε} {store : Store ρ κ}

theorem thread_merge_first :
    ((store.listed mergeIds).foldl Progress.visit {}).threadMerge = counted mergeIds store :=
  @thread_merge_foldl_visit _ (store.listed mergeIds) {} [] rfl

theorem listed_nodup (h : store.Consistent) :
    (((store.listed mergeIds).map threadOf).map Prod.snd).Nodup := by
  rw [map_map]
  exact h.nodup.sublist (filter_sublist.map Prod.fst)

theorem first_ne_panicked (h : store.Consistent) :
    moveMessages a.reads 0 (others (a.order (counted mergeIds store)))
      ((store.listed mergeIds).foldl Progress.visit {}).threadIndex [] ≠ .panicked := by
  refine moveMessages_ne_panicked (nodup_others a.order_perm (listed_nodup h))
    fun message hmem => ?_
  refine thread_index_foldl_visit (.inl ?_)
  obtain ⟨entry, hentry, rfl⟩ := mem_map.1 ((mem_others_gather a.order_perm).1 hmem).1
  exact mem_map.2 ⟨entry, hentry, rfl⟩

theorem asserts_of_unchanged (h : a.Undisturbed hash mergeIds store) {moves : List (Move ρ κ)}
    (hbatch : Batched a.reads 0 (others (a.order (counted mergeIds store))) [] moves)
    {before : Store ρ κ} (hcommit : a.commit = .ok before) {m : Move ρ κ} (hm : m ∈ moves) :
    before.asserts hash m ∧ ∀ entry ∈ store.listed mergeIds,
      (before.threading.find entry.1).map ThreadInfo.threadId = some entry.2.threadId := by
  have hreads : ∀ j < (others (a.order (counted mergeIds store))).length,
      ∃ read, a.reads j = .ok read := by
    intro j hj
    obtain ⟨read, hread, -⟩ := hbatch.matching j _ (getElem?_eq_getElem hj)
    rw [Nat.zero_add] at hread
    exact ⟨read, hread⟩
  rcases hbatch.sound m hm with hm | ⟨j, threadId, read, hj, hread, harchive⟩
  · cases hm
  rw [Nat.zero_add] at hread
  obtain ⟨⟨data', hdata', hhash⟩, hentries⟩ :=
    h.unchanged hreads before hcommit j threadId m.documentId read m.current hj hread harchive
  refine ⟨?_, hentries⟩
  unfold Store.asserts
  rw [hdata']
  exact decide_eq_true hhash

/-- What an undisturbed attempt commits is in order. -/
theorem sound_of_undisturbed (ha : a.Consistent)
    (h : a.Undisturbed hash mergeIds store) {moves}
    (hbatch : Batched a.reads 0 (others (a.order (counted mergeIds store))) [] moves)
    {before : Store ρ κ} (hcommit : a.commit = .ok before) :
    Commit.Sound
      { found := store.listed mergeIds, entries := a.order (counted mergeIds store)
        deleted := (ThreadMerge.threadIds (a.order (counted mergeIds store))).filter fun id =>
          decide (id ≠ ThreadMerge.mergeThreadId (a.order (counted mergeIds store)))
        moves, before } where
  agree := fun entry _ data info hdata hinfo =>
    Commit.agree_after (ha _ (.commit hcommit)) hdata hinfo
  deleted_once := by
    rintro threadId ⟨documentId, data, hdata, rfl⟩ hlost
    -- a message that has left the thread was moved
    have hmoved : ∃ m ∈ moves, m.documentId = documentId := by
      by_contra hnone
      push Not at hnone
      have hkept := (foldl_move_of_notMem
        (ThreadMerge.mergeThreadId (a.order (counted mergeIds store))) before hnone).1
      exact hlost documentId data (hkept.trans hdata) rfl
    obtain ⟨m, hm, rfl⟩ := hmoved
    rcases hbatch.sound m hm with hm' | ⟨j, threadId, read, hj, -, -⟩
    · cases hm'
    -- its thread is the one it was found in
    obtain ⟨hfound, hne⟩ := (mem_others_gather a.order_perm).1 (mem_of_getElem? hj)
    obtain ⟨entry, hentry, heq⟩ := mem_map.1 hfound
    obtain ⟨rfl, hdocument⟩ := Prod.mk.inj heq
    have hthread := (asserts_of_unchanged h hbatch hcommit hm).2 entry hentry
    obtain ⟨info, hinfo, hinfo'⟩ := Option.map_eq_some_iff.1 hthread
    have hagree := (ha _ (.commit hcommit)).agree_of_find (hdocument ▸ hdata) hinfo
    rw [hagree, hinfo']
    refine count_eq_one_of_mem ?_ (mem_filter.2
      ⟨((a.order_perm _).map Prod.fst).mem_iff.2 (InsertionMap.mem_keys_gather.2 ⟨_, hfound⟩),
        decide_eq_true hne⟩)
    refine List.Nodup.filter _ ?_
    exact ((a.order_perm _).map Prod.fst).nodup_iff.2 (InsertionMap.nodup_keys_gather _)
  fresh := by
    intro hmoves
    obtain ⟨m, hm⟩ := exists_mem_of_ne_nil _ hmoves
    exact ⟨pairs_order_perm a.order_perm _, (asserts_of_unchanged h hbatch hcommit hm).2⟩

/-- **An undisturbed attempt** ends the task, and well. -/
theorem attempt_of_undisturbed (ha : a.Consistent)
    (h : ∀ store, a.listed = .ok store → 2 ≤ ThreadMerge.numThreadIds (counted mergeIds store) →
      a.Undisturbed hash mergeIds store) :
    (∃ err, attempt hash mergeIds {} a = .failed err) ∨
      ∃ c, attempt hash mergeIds {} a = .done c ∧ c.Sound := by
  unfold attempt
  split
  · exact .inl ⟨_, rfl⟩
  · rename_i store hlisted
    have hconsistent := ha store (.listed hlisted)
    simp only [thread_merge_first]
    split
    · refine .inr ⟨_, rfl, fun entry _ data info hdata hinfo => ?_, ?_, fun hmoves => ?_⟩
      · exact hconsistent.agree_of_find hdata hinfo
      · rintro threadId ⟨documentId, data, hdata, hthread⟩ hlost
        cases hlost documentId data hdata hthread
      · cases hmoves rfl
    · rename_i htwo
      have hquiet := h store hlisted (Nat.not_lt.1 htwo)
      split
      · exact .inl ⟨_, rfl⟩
      · rename_i hpanicked
        cases first_ne_panicked hconsistent hpanicked
      · rename_i threadIndex hmismatch
        obtain ⟨j, threadId, documentId, read, data, hj, hreads, hread, hdata, hne⟩ :=
          mismatch_of_moveMessages hmismatch
        simp only [Nat.zero_add] at hreads hread
        cases hne (hquiet.matched j threadId documentId hj hreads read data hread hdata)
      · rename_i moves threadIndex hmoves
        have hbatch := batched_of_moveMessages hmoves
        split
        · exact .inl ⟨_, rfl⟩
        · rename_i before hcommit
          have hall : moves.all (before.asserts hash) :=
            all_eq_true.2 fun m hm => (asserts_of_unchanged hquiet hbatch hcommit hm).1
          rw [if_pos hall]
          exact .inr ⟨_, rfl, sound_of_undisturbed ha hquiet hbatch hcommit⟩

/-- An attempt that ends the task, and well, was not disturbed. -/
theorem undisturbed_of_attempt (ha : a.Consistent) (hlisted : a.listed = .ok store)
    (htwo : 2 ≤ ThreadMerge.numThreadIds (counted mergeIds store))
    (hretry : ∀ p, attempt hash mergeIds {} a ≠ .retry p)
    (hsound : ∀ c, attempt hash mergeIds {} a = .done c → c.Sound) :
    a.Undisturbed hash mergeIds store := by
  have hconsistent := ha store (.listed hlisted)
  unfold attempt at hretry hsound
  simp only [hlisted, thread_merge_first, if_neg (Nat.not_lt.2 htwo)] at hretry hsound
  split at hretry
  · -- a value could not be read: nothing before it is out of place, and nothing is committed
    rename_i err hfailed
    obtain ⟨j, hj, herr, hmatching⟩ := read_error_of_moveMessages hfailed
    rw [Nat.zero_add] at herr
    constructor
    · intro i threadId documentId hi hreads read data hread hdata
      rcases Nat.lt_trichotomy i j with hlt | rfl | hlt
      · obtain ⟨read', hread', hthread⟩ := hmatching i (threadId, documentId)
          (by rw [getElem?_take_of_lt hlt]; exact hi)
        rw [Nat.zero_add] at hread'
        cases hread.symm.trans hread'
        exact hthread data hdata
      · rw [herr] at hread
        cases hread
      · obtain ⟨read', hread'⟩ := hreads j hlt
        rw [herr] at hread'
        cases hread'
    · intro hreads
      obtain ⟨read', hread'⟩ := hreads j hj
      rw [herr] at hread'
      cases hread'
  · rename_i hpanicked
    cases first_ne_panicked hconsistent hpanicked
  · cases hretry _ rfl
  · rename_i moves threadIndex hmoves
    have hbatch := batched_of_moveMessages hmoves
    simp only [hmoves] at hsound
    constructor
    · intro i threadId documentId hi _ read data hread hdata
      obtain ⟨read', hread', hthread⟩ := hbatch.matching i (threadId, documentId) hi
      rw [Nat.zero_add] at hread'
      cases hread.symm.trans hread'
      exact hthread data hdata
    · intro _ before hcommit i threadId documentId read data hi hread hdata
      simp only [hcommit, try_count_foldl_visit] at hretry hsound
      by_cases hall : moves.all (before.asserts hash)
      · simp only [if_pos hall] at hsound
        rw [← Nat.zero_add i] at hread
        obtain ⟨m, hm, hdocument, hcurrent⟩ := hbatch.complete i _ read data hi hread hdata
        refine ⟨?_, ((hsound _ rfl).fresh (ne_nil_of_mem hm)).2⟩
        have hassert := all_eq_true.1 hall m hm
        unfold Store.asserts at hassert
        rw [hdocument, hcurrent] at hassert
        split at hassert
        · cases hassert
        · rename_i data' hdata'
          exact ⟨data', hdata', of_decide_eq_true hassert⟩
      · simp only [if_neg hall] at hretry
        cases hretry _ rfl

/-! ## The next attempts -/

theorem retry_of_attempt {p p' : Progress κ} (h : attempt hash mergeIds p a = .retry p') :
    Nonempty ρ ∧ p'.tryCount = p.tryCount + 1 ∧ ∃ store, a.listed = .ok store ∧
      p'.threadMerge = ((store.listed mergeIds).foldl Progress.visit p).threadMerge ∧
      2 ≤ ThreadMerge.numThreadIds p'.threadMerge := by
  unfold attempt at h
  split at h
  · cases h
  · rename_i store hlisted
    dsimp only at h
    split at h
    · cases h
    · rename_i htwo
      split at h
      · cases h
      · cases h
      · rename_i hmismatch
        obtain ⟨-, -, -, -, data, -⟩ := mismatch_of_moveMessages hmismatch
        cases h
        exact ⟨⟨data.rest⟩, congrArg (· + 1) (try_count_foldl_visit _ _), store, hlisted, rfl,
          Nat.not_lt.1 htwo⟩
      · split at h
        · cases h
        · split at h
          · cases h
          · rename_i hasserts
            split at h
            · obtain ⟨m, -, -⟩ := not_forall₂.1 (mt all_eq_true.2 hasserts)
              cases h
              exact ⟨⟨m.current.rest⟩, congrArg (· + 1) (try_count_foldl_visit _ _), store, hlisted,
                rfl, Nat.not_lt.1 htwo⟩
            · cases h

/-- A store with these messages and no others, as threads and documents. -/
def onlyMessages (rest : ρ) (messages : List (ℕ × ℕ)) : Store ρ κ where
  archive documentId :=
    (messages.find? fun message => message.2 = documentId).map fun message => ⟨message.1, rest⟩
  threading := messages.map fun message => (message.2, ⟨message.1, []⟩)

section Only

variable {rest : ρ} {messages : List (ℕ × ℕ)}

theorem archive_onlyMessages {documentId : ℕ} {data}
    (h : (onlyMessages rest messages : Store ρ κ).archive documentId = some data) :
    (data.threadId, documentId) ∈ messages := by
  obtain ⟨message, hfind, rfl⟩ := Option.map_eq_some_iff.1 h
  obtain rfl : message.2 = documentId := by simpa using find?_some hfind
  exact mem_of_find?_eq_some hfind

theorem archive_onlyMessages_ne_none (h : message ∈ messages) :
    (onlyMessages rest messages : Store ρ κ).archive message.2 ≠ none := by
  intro hnone
  have hall := find?_eq_none.1 (Option.map_eq_none_iff.1 hnone) message h
  simp at hall

theorem keys_onlyMessages :
    (onlyMessages rest messages : Store ρ κ).threading.keys = messages.map Prod.snd := by
  unfold onlyMessages InsertionMap.keys
  rw [map_map]
  rfl

theorem listed_onlyMessages (h : ∀ message ∈ messages, message.1 ∈ mergeIds) :
    ((onlyMessages rest messages : Store ρ κ).listed mergeIds).map threadOf = messages := by
  unfold Store.listed onlyMessages
  rw [filter_eq_self.2 fun entry hentry => ?_, map_map]
  · exact map_id _
  · obtain ⟨message, hmessage, rfl⟩ := mem_map.1 hentry
    exact decide_eq_true (h message hmessage)

theorem consistent_onlyMessages (h : (messages.map Prod.snd).Nodup) :
    (onlyMessages rest messages : Store ρ κ).Consistent where
  nodup := keys_onlyMessages.symm ▸ h
  agree entry hentry data hdata := by
    obtain ⟨message, hmessage, rfl⟩ := mem_map.1 hentry
    have hmem := archive_onlyMessages hdata
    exact congrArg Prod.fst (inj_on_of_nodup_map h hmem hmessage rfl)

end Only

/-- An attempt during which no one else writes until the store is set to another one right before
the commit. -/
def interrupted (store before : Store ρ κ) : Attempt ρ κ ε where
  listed := .ok store
  reads _ := .ok store
  commit := .ok before
  order entries := entries
  order_perm _ := .refl _

/-- An attempt during which no one else writes. -/
def quiet (store : Store ρ κ) : Attempt ρ κ ε := interrupted store store

theorem meets_interrupted {store before other : Store ρ κ}
    (h : (interrupted store before : Attempt ρ κ ε).Meets other) :
    other = store ∨ other = before := by
  rcases h with ⟨⟨⟩⟩ | ⟨i, ⟨⟩⟩ | ⟨⟨⟩⟩
  · exact .inl rfl
  · exact .inl rfl
  · exact .inr rfl

theorem meets_quiet {store other : Store ρ κ} (h : (quiet store : Attempt ρ κ ε).Meets other) :
    other = store :=
  (meets_interrupted h).elim id id

theorem consistent_quiet (h : store.Consistent) : (quiet store : Attempt ρ κ ε).Consistent :=
  fun _ hmeets => meets_quiet hmeets ▸ h

theorem numThreadIds_append (found later : List (ℕ × ℕ)) :
    ThreadMerge.numThreadIds (InsertionMap.gather found) ≤
      ThreadMerge.numThreadIds (InsertionMap.gather (found ++ later)) := by
  have hsub : InsertionMap.keys (InsertionMap.gather found) ⊆
      InsertionMap.keys (InsertionMap.gather (found ++ later)) := by
    intro threadId hmem
    obtain ⟨documentId, hfound⟩ := InsertionMap.mem_keys_gather.1 hmem
    exact InsertionMap.mem_keys_gather.2 ⟨documentId, mem_append_left _ hfound⟩
  have hle := (List.Nodup.subperm (InsertionMap.nodup_keys_gather found) hsub).length_le
  unfold InsertionMap.keys at hle
  rwa [length_map, length_map] at hle

/-! ### Messages that come in after the first attempt -/

/-- Four messages that come in after the first attempt, two in each of two threads. -/
def arrivals (threadId other n : ℕ) : List (ℕ × ℕ) :=
  [(threadId, n), (threadId, n + 1), (other, n + 2), (other, n + 3)]

/-- The messages that are left after one of each thread is deleted. -/
def remaining (threadId other n : ℕ) : List (ℕ × ℕ) := [(threadId, n + 1), (other, n + 3)]

/-- The messages come in, the second attempt lists them, and two of them are deleted before it
commits. -/
def disturbing (rest : ρ) (a : Attempt ρ κ ε) (threadId other n : ℕ) : ℕ → Attempt ρ κ ε
  | 0 => a
  | 1 => interrupted (onlyMessages rest (arrivals threadId other n))
      (onlyMessages rest (remaining threadId other n))
  | _ => quiet (onlyMessages rest (remaining threadId other n))

section Disturbing

variable {rest : ρ} {threadId other n : ℕ}

theorem nodup_arrivals : ((arrivals threadId other n).map Prod.snd).Nodup := by
  simp [arrivals]

theorem consistent_arrivals :
    (onlyMessages rest (arrivals threadId other n) : Store ρ κ).Consistent :=
  consistent_onlyMessages nodup_arrivals

theorem consistent_remaining :
    (onlyMessages rest (remaining threadId other n) : Store ρ κ).Consistent :=
  consistent_onlyMessages (by simp [remaining])

theorem consistent_disturbing (ha : a.Consistent) :
    ∀ i, (disturbing rest a threadId other n i).Consistent
  | 0 => ha
  | 1 => fun _ hmeets => by
    rcases meets_interrupted hmeets with rfl | rfl
    · exact consistent_arrivals
    · exact consistent_remaining
  | _ + 2 => consistent_quiet consistent_remaining

theorem archive_of_old {messages : List (ℕ × ℕ)} (hnew : ∀ message ∈ messages, n ≤ message.2)
    {documentId : ℕ} (hold : documentId < n) :
    (onlyMessages rest messages : Store ρ κ).archive documentId = none := by
  refine Option.eq_none_iff_forall_ne_some.2 fun data hdata => ?_
  have hle := hnew _ (archive_onlyMessages hdata)
  omega

theorem le_of_arrivals : ∀ message ∈ arrivals threadId other n, n ≤ message.2 := by
  simp [arrivals]

theorem le_of_remaining : ∀ message ∈ remaining threadId other n, n ≤ message.2 := by
  simp [remaining]

theorem remaining_subset : remaining threadId other n ⊆ arrivals threadId other n := by
  simp [remaining, arrivals]

/-- What is gone from the arrivals stays gone. -/
theorem archive_remaining_of_arrivals {documentId : ℕ}
    (h : (onlyMessages rest (arrivals threadId other n) : Store ρ κ).archive documentId = none) :
    (onlyMessages rest (remaining threadId other n) : Store ρ κ).archive documentId = none := by
  refine Option.eq_none_iff_forall_ne_some.2 fun data hdata => ?_
  exact archive_onlyMessages_ne_none (remaining_subset (archive_onlyMessages hdata)) h

theorem meets_disturbing {i : ℕ} {met : Store ρ κ}
    (h : (disturbing rest a threadId other n (i + 1)).Meets met) :
    met = onlyMessages rest (remaining threadId other n) ∨
      i = 0 ∧ met = onlyMessages rest (arrivals threadId other n) := by
  cases i with
  | zero => exact (meets_interrupted h).elim (fun h => .inr ⟨rfl, h⟩) .inl
  | succ i => exact .inl (meets_quiet h)

theorem noReturn_disturbing (hlisted : a.listed = .ok store)
    (hnew : ∀ documentId ∈ store.threading.keys, documentId < n) :
    NoReturn (disturbing rest a threadId other n) := by
  intro i j hij listed hlisted' documentId hmem met hmet hnone later hlater
  obtain ⟨j, rfl⟩ := Nat.exists_eq_succ_of_ne_zero (Nat.ne_of_gt (Nat.zero_lt_of_lt hij))
  cases i with
  | zero =>
    -- the messages that come in are newer than those of the first attempt
    obtain rfl := Except.ok.inj (hlisted.symm.trans hlisted')
    rcases meets_disturbing hlater with rfl | ⟨-, rfl⟩
    · exact archive_of_old le_of_remaining (hnew _ hmem)
    · exact archive_of_old le_of_arrivals (hnew _ hmem)
  | succ i =>
    obtain rfl : later = onlyMessages rest (remaining threadId other n) :=
      (meets_disturbing hlater).resolve_right fun h => by omega
    rcases meets_disturbing hmet with rfl | ⟨-, rfl⟩
    · exact hnone
    · exact archive_remaining_of_arrivals hnone

variable {earlier : List (ℕ × ℕ)} {p : Progress κ}

/-- The messages that an attempt counts, those of earlier attempts among them. -/
theorem thread_merge_onlyMessages {messages : List (ℕ × ℕ)}
    (hlisted : ∀ message ∈ messages, message.1 ∈ mergeIds)
    (hp : p.threadMerge = InsertionMap.gather earlier) :
    (((onlyMessages rest messages : Store ρ κ).listed mergeIds).foldl
      Progress.visit p).threadMerge = InsertionMap.gather (earlier ++ messages) := by
  rw [thread_merge_foldl_visit _ hp, listed_onlyMessages hlisted]

/-- Of two threads, one is not the thread chosen. -/
theorem exists_outside {messages : List (ℕ × ℕ)} {first second : ℕ × ℕ} (hfirst : first ∈ messages)
    (hsecond : second ∈ messages) (hne : first.1 ≠ second.1) (chosen : ℕ) :
    ∃ message ∈ messages, message.1 ≠ chosen := by
  by_cases h : first.1 = chosen
  · exact ⟨second, hsecond, fun h' => hne (h.trans h'.symm)⟩
  · exact ⟨first, hfirst, h⟩

section Continued

variable (hlisted : threadId ∈ mergeIds ∧ other ∈ mergeIds) (hne : threadId ≠ other)
  (htwo : 2 ≤ ThreadMerge.numThreadIds (InsertionMap.gather earlier))
include hlisted hne htwo

/-- **The second attempt** lists the messages that came in and cannot commit: one of those it moves
is deleted. -/
theorem attempt_arrivals (hp : p.threadMerge = InsertionMap.gather earlier)
    (hcount : p.tryCount < MAX_RETRIES) {outcome : Outcome ρ κ ε}
    (houtcome : attempt hash mergeIds p (interrupted (onlyMessages rest (arrivals threadId other n))
      (onlyMessages rest (remaining threadId other n))) = outcome) :
    outcome = .panicked ∨ ∃ p', outcome = .retry p' ∧
      p'.threadMerge = InsertionMap.gather (earlier ++ arrivals threadId other n) := by
  have hmerge : (((onlyMessages rest (arrivals threadId other n) : Store ρ κ).listed
      mergeIds).foldl Progress.visit p).threadMerge =
        InsertionMap.gather (earlier ++ arrivals threadId other n) :=
    thread_merge_onlyMessages (by simp [arrivals, hlisted]) hp
  have hmany := Nat.not_lt.2
    (Nat.le_trans htwo (numThreadIds_append earlier (arrivals threadId other n)))
  -- one of the messages that are deleted is outside the thread chosen
  obtain ⟨message, harrived, hother, hgone⟩ : ∃ message ∈ arrivals threadId other n,
      message.1 ≠ ThreadMerge.mergeThreadId
        (InsertionMap.gather (earlier ++ arrivals threadId other n)) ∧
      (onlyMessages rest (remaining threadId other n) : Store ρ κ).archive message.2 = none := by
    obtain ⟨message, hmem, hother⟩ := @exists_outside [(threadId, n), (other, n + 2)] _ _
      (.head _) (.tail _ (.head _)) hne (ThreadMerge.mergeThreadId
        (InsertionMap.gather (earlier ++ arrivals threadId other n)))
    refine ⟨message, ?_, hother, Option.eq_none_iff_forall_ne_some.2 fun data hdata => ?_⟩
    · simp only [arrivals, mem_cons, not_mem_nil, or_false] at hmem ⊢
      exact hmem.imp id fun h => .inr (.inl h)
    · have hleft := archive_onlyMessages hdata
      simp only [remaining, mem_cons, not_mem_nil, or_false, Prod.mk.injEq] at hmem hleft
      rcases hmem with rfl | rfl <;> omega
  unfold attempt interrupted at houtcome
  dsimp only at houtcome
  rw [hmerge, if_neg hmany, try_count_foldl_visit] at houtcome
  split at houtcome
  · rename_i hfailed
    obtain ⟨j, -, herr, -⟩ := read_error_of_moveMessages hfailed
    cases herr
  · exact .inl houtcome.symm
  · exact .inr ⟨_, houtcome.symm, rfl⟩
  · rename_i moves threadIndex hmoves
    have hmem := (mem_others_gather fun _ => .refl _).2 ⟨mem_append_right earlier harrived, hother⟩
    obtain ⟨j, hj⟩ := getElem?_of_mem hmem
    obtain ⟨data, hdata⟩ := Option.ne_none_iff_exists'.1 (archive_onlyMessages_ne_none harrived)
    obtain ⟨m, hm, hdocument, -⟩ :=
      (batched_of_moveMessages hmoves).complete j message _ data hj rfl hdata
    have hasserts : ¬ moves.all
        ((onlyMessages rest (remaining threadId other n) : Store ρ κ).asserts hash) := by
      intro hall
      have hassert := all_eq_true.1 hall m hm
      unfold Store.asserts at hassert
      rw [hdocument, hgone] at hassert
      cases hassert
    rw [if_neg hasserts, if_pos hcount] at houtcome
    exact .inr ⟨_, houtcome.symm, rfl⟩

/-- **The third attempt panics**: the messages that the second one found are found again, and
counted a second time. -/
theorem attempt_remaining (hold : ∀ message ∈ earlier, message.2 < n)
    (hp : p.threadMerge = InsertionMap.gather (earlier ++ arrivals threadId other n)) :
    attempt hash mergeIds p (quiet (onlyMessages rest (remaining threadId other n)) :
      Attempt ρ κ ε) = .panicked := by
  have hmerge : (((onlyMessages rest (remaining threadId other n) : Store ρ κ).listed
      mergeIds).foldl Progress.visit p).threadMerge = InsertionMap.gather
        (earlier ++ arrivals threadId other n ++ remaining threadId other n) :=
    thread_merge_onlyMessages (by simp [remaining, hlisted]) hp
  have hmany := Nat.not_lt.2 (Nat.le_trans
    (Nat.le_trans htwo (numThreadIds_append earlier (arrivals threadId other n)))
    (numThreadIds_append _ (remaining threadId other n)))
  -- one of the messages found twice is outside the thread chosen
  obtain ⟨message, hremaining, hother⟩ : ∃ message ∈ remaining threadId other n,
      message.1 ≠ ThreadMerge.mergeThreadId (InsertionMap.gather
        (earlier ++ arrivals threadId other n ++ remaining threadId other n)) :=
    exists_outside (.head _) (.tail _ (.head _)) hne _
  have htwice : 2 ≤ ((earlier ++ arrivals threadId other n) ++
      remaining threadId other n).count message := by
    have harrived := count_pos_iff.2 (mem_append_right earlier (remaining_subset hremaining))
    have hagain := count_pos_iff.2 hremaining
    rw [count_append]
    omega
  have hreads : Matching
      (quiet (onlyMessages rest (remaining threadId other n)) : Attempt ρ κ ε).reads 0
      (others (InsertionMap.gather
        (earlier ++ arrivals threadId other n ++ remaining threadId other n))) := by
    intro j found hj
    refine ⟨_, rfl, fun data hdata => ?_⟩
    -- what there is to be read is one of the messages that came in
    have harrived := remaining_subset (archive_onlyMessages hdata)
    have hfound := ((mem_others_gather fun _ => .refl _).1 (mem_of_getElem? hj)).1
    have hmem : found ∈ arrivals threadId other n := by
      rcases mem_append.1 hfound with hfound | hfound
      · refine (mem_append.1 hfound).resolve_left fun hearlier => ?_
        have hle := le_of_arrivals _ harrived
        have hlt := hold found hearlier
        omega
      · exact remaining_subset hfound
    exact congrArg Prod.fst (inj_on_of_nodup_map nodup_arrivals harrived hmem rfl)
  have hstays : ∀ j read,
      (quiet (onlyMessages rest (remaining threadId other n)) : Attempt ρ κ ε).reads (0 + j) =
        .ok read → read.archive message.2 ≠ none := fun j read hread =>
    Except.ok.inj hread ▸ archive_onlyMessages_ne_none hremaining
  unfold quiet interrupted at hreads hstays ⊢
  unfold attempt
  dsimp only
  rw [hmerge, if_neg hmany, moveMessages_panicked hreads hstays
    (.inl (two_le_count_others (fun _ => .refl _) htwice hother))]

end Continued

end Disturbing

/-! ## The whole task -/

theorem exists_two_threads {store : Store ρ κ}
    (htwo : 2 ≤ ThreadMerge.numThreadIds (counted mergeIds store)) :
    ∃ threadId other, (threadId ∈ mergeIds ∧ other ∈ mergeIds) ∧ threadId ≠ other := by
  have hlisted : ∀ threadId ∈ InsertionMap.keys (counted mergeIds store),
      threadId ∈ mergeIds := by
    intro threadId hmem
    obtain ⟨documentId, hfound⟩ := InsertionMap.mem_keys_gather.1 hmem
    obtain ⟨entry, hentry, heq⟩ := mem_map.1 hfound
    obtain ⟨rfl, -⟩ := Prod.mk.inj heq
    exact of_decide_eq_true (mem_filter.1 hentry).2
  have hnodup : (InsertionMap.keys (counted mergeIds store)).Nodup :=
    InsertionMap.nodup_keys_gather _
  generalize counted mergeIds store = entries at htwo hlisted hnodup
  match entries, htwo with
  | first :: second :: others, _ =>
    refine ⟨first.1, second.1, ⟨hlisted _ (.head _), hlisted _ (.tail _ (.head _))⟩, fun heq => ?_⟩
    exact (nodup_cons.1 hnodup).1 (heq ▸ .head _)

/-- **A first attempt that wants another one** can be followed by two that end in a panic. -/
theorem exists_panic_of_retry (ha : a.Consistent) {p : Progress κ}
    (hretry : attempt hash mergeIds {} a = .retry p) :
    ∃ env : ℕ → Attempt ρ κ ε, (∀ i, (env i).Consistent) ∧ NoReturn env ∧ env 0 = a ∧
      ¬ Survives hash mergeIds env := by
  obtain ⟨⟨rest⟩, hcount, store, hlisted, hmerge, htwo⟩ := retry_of_attempt hretry
  rw [thread_merge_first] at hmerge
  rw [hmerge] at htwo
  -- two of the threads counted, and a document newer than all listed
  obtain ⟨threadId, other, hthreads, hne⟩ : ∃ threadId other,
      (threadId ∈ mergeIds ∧ other ∈ mergeIds) ∧ threadId ≠ other :=
    exists_two_threads htwo
  obtain ⟨n, hn⟩ : ∃ n, ∀ documentId ∈ store.threading.keys, documentId < n :=
    ⟨store.threading.keys.max?.getD 0 + 1, fun _ hmem =>
      Nat.lt_succ_of_le (le_max?_getD_of_mem hmem)⟩
  refine ⟨disturbing rest a threadId other n, consistent_disturbing ha,
    noReturn_disturbing hlisted hn, rfl, ?_⟩
  rintro ⟨outcome, hrun, hpanicked, -⟩
  change mergeThreads hash mergeIds (3 + 1 + 1 + 1) _ _ = _ at hrun
  have hold : ∀ message ∈ (store.listed mergeIds).map threadOf, message.2 < n := by
    intro message hmem
    obtain ⟨entry, hentry, rfl⟩ := mem_map.1 hmem
    exact hn _ (mem_map.2 ⟨entry, (mem_filter.1 hentry).1, rfl⟩)
  have hfirst : attempt hash mergeIds {} (disturbing rest a threadId other n 0) = .retry p :=
    hretry
  have hsecond : attempt hash mergeIds p (disturbing rest a threadId other n 1) = .panicked ∨
      ∃ p', attempt hash mergeIds p (disturbing rest a threadId other n 1) = .retry p' ∧
        p'.threadMerge = InsertionMap.gather
          ((store.listed mergeIds).map threadOf ++ arrivals threadId other n) := by
    refine attempt_arrivals hthreads hne htwo hmerge ?_ rfl
    rw [hcount]
    exact Nat.one_lt_succ_succ 3
  rw [mergeThreads, hfirst] at hrun
  dsimp only at hrun
  rw [mergeThreads] at hrun
  rcases hsecond with hsecond | ⟨p', hsecond, hmerge'⟩
  · rw [hsecond] at hrun
    exact hpanicked (Option.some_inj.1 hrun).symm
  · have hthird : attempt hash mergeIds p' (disturbing rest a threadId other n 2) = .panicked :=
      attempt_remaining hthreads hne htwo hold hmerge'
    rw [hsecond] at hrun
    dsimp only at hrun
    rw [mergeThreads, hthird] at hrun
    exact hpanicked (Option.some_inj.1 hrun).symm

/-- Everything is deleted after the first attempt. -/
def deserted (a : Attempt ρ κ ε) : ℕ → Attempt ρ κ ε
  | 0 => a
  | _ => quiet { archive := fun _ => none, threading := [] }

theorem consistent_deserted (ha : a.Consistent) : ∀ i, (deserted a i).Consistent
  | 0 => ha
  | _ + 1 => consistent_quiet ⟨nodup_nil, fun _ hentry => nomatch hentry⟩

theorem noReturn_deserted : NoReturn (deserted a) := by
  intro i j hij _ _ documentId _ _ _ _ later hlater
  obtain ⟨j, rfl⟩ := Nat.exists_eq_succ_of_ne_zero (Nat.ne_of_gt (Nat.zero_lt_of_lt hij))
  rw [meets_quiet hlater]

/-- **What survives concurrent changes.** A first attempt is followed by a task in order exactly if
it found too little to merge or was not disturbed. -/
theorem survives_iff (hash : MessageData ρ → UInt32) (mergeIds : List ℕ) (a : Attempt ρ κ ε)
    (ha : a.Consistent) :
    (∀ env : ℕ → Attempt ρ κ ε, (∀ i, (env i).Consistent) → NoReturn env → env 0 = a →
        Survives hash mergeIds env) ↔
      ∀ store, a.listed = .ok store → 2 ≤ ThreadMerge.numThreadIds (counted mergeIds store) →
        a.Undisturbed hash mergeIds store := by
  constructor
  · intro hall store hlisted htwo
    have hretry : ∀ p, attempt hash mergeIds {} a ≠ .retry p := by
      intro p hretry
      obtain ⟨env, hconsistent, hreturn, hfirst, hpanics⟩ := exists_panic_of_retry ha hretry
      exact hpanics (hall env hconsistent hreturn hfirst)
    obtain ⟨outcome, hrun, -, hsound⟩ := hall (deserted a) (consistent_deserted ha)
      noReturn_deserted rfl
    refine undisturbed_of_attempt ha hlisted htwo hretry fun c hdone => hsound c ?_
    have hfirst : attempt hash mergeIds {} (deserted a 0) = .done c := hdone
    rw [mergeThreads, hfirst] at hrun
    exact (Option.some_inj.1 hrun).symm
  · intro h env _ _ hfirst
    rcases attempt_of_undisturbed ha h with ⟨err, hattempt⟩ | ⟨c, hattempt, hsound⟩
    · refine ⟨.failed err, ?_, (fun heq => by cases heq), fun c heq => by cases heq⟩
      unfold mergeThreads
      rw [hfirst, hattempt]
    · refine ⟨.done c, ?_, (fun heq => by cases heq), fun c' heq => ?_⟩
      · unfold mergeThreads
        rw [hfirst, hattempt]
      · cases heq
        exact hsound

/-! ### Two runs -/

/-- A message of thread 1 and two of thread 2; the rest of the data is the flags. -/
def threeMessages (flags : ℕ) (threadId : ℕ) : Store ℕ ℕ where
  archive
    | 1 => some ⟨threadId, flags⟩
    | 2 => some ⟨2, 0⟩
    | 3 => some ⟨2, 0⟩
    | _ => none
  threading := [(1, ⟨threadId, [7]⟩), (2, ⟨2, [7]⟩), (3, ⟨2, [7]⟩)]

def flagsHash (data : MessageData ℕ) : UInt32 := UInt32.ofNat data.rest

theorem consistent_threeMessages (flags threadId : ℕ) :
    (threeMessages flags threadId).Consistent where
  nodup := by
    change [1, 2, 3].Nodup
    decide
  agree entry h data hdata := by
    change entry ∈ [(1, ⟨threadId, [7]⟩), (2, ⟨2, [7]⟩), (3, ⟨2, [7]⟩)] at h
    simp only [mem_cons, not_mem_nil, or_false] at h
    rcases h with rfl | rfl | rfl <;> cases hdata <;> rfl

/-- The message of thread 1 is flagged before the first attempt commits. -/
def flagged : ℕ → Attempt ℕ ℕ ℕ
  | 0 => interrupted (threeMessages 0 1) (threeMessages 1 1)
  | _ => quiet (threeMessages 1 1)

theorem meets_flagged {i : ℕ} {store : Store ℕ ℕ} (h : (flagged i).Meets store) :
    ∃ flags, store = threeMessages flags 1 := by
  cases i with
  | zero => exact (meets_interrupted h).elim (fun h => ⟨0, h⟩) fun h => ⟨1, h⟩
  | succ i => exact ⟨1, meets_quiet h⟩

/-- None of the three messages is deleted. -/
theorem noReturn_threeMessages {env : ℕ → Attempt ℕ ℕ ℕ}
    (h : ∀ i store, (env i).Meets store → ∃ flags, store = threeMessages flags 1) :
    NoReturn env := by
  intro i j _ listed hlisted documentId hmem store hstore hnone
  exfalso
  obtain ⟨_, rfl⟩ := h i listed (.listed hlisted)
  obtain ⟨_, rfl⟩ := h i store hstore
  change documentId ∈ [1, 2, 3] at hmem
  simp only [mem_cons, not_mem_nil, or_false] at hmem
  rcases hmem with rfl | rfl | rfl <;> cases hnone

/-- One flag set at the wrong moment makes the task panic. -/
theorem flagged_panics :
    (∀ i, (flagged i).Consistent) ∧ NoReturn flagged ∧
      mergeThreads flagsHash [1, 2] (MAX_RETRIES + 1) flagged {} = some .panicked ∧
      ¬Survives flagsHash [1, 2] flagged := by
  have hrun : mergeThreads flagsHash [1, 2] (MAX_RETRIES + 1) flagged {} = some .panicked := rfl
  refine ⟨fun i => ?_, noReturn_threeMessages fun _ _ => meets_flagged, hrun, ?_⟩
  · cases i with
    | zero =>
      intro store hmeets
      rcases meets_interrupted hmeets with rfl | rfl
      · exact consistent_threeMessages 0 1
      · exact consistent_threeMessages 1 1
    | succ i => exact consistent_quiet (consistent_threeMessages 1 1)
  · rintro ⟨outcome, houtcome, hpanicked, -⟩
    exact hpanicked (Option.some_inj.1 (houtcome.symm.trans hrun))

/-- If no one flags it, the task ends well. -/
theorem survives_iff_quiet :
    Survives flagsHash [1, 2] fun _ => (quiet (threeMessages 0 1) : Attempt ℕ ℕ ℕ) := by
  have hconsistent : (quiet (threeMessages 0 1) : Attempt ℕ ℕ ℕ).Consistent :=
    consistent_quiet (consistent_threeMessages 0 1)
  refine (survives_iff flagsHash [1, 2] _ hconsistent).2 ?_ _ (fun _ => hconsistent)
    (noReturn_threeMessages fun _ _ h => ⟨0, meets_quiet h⟩) rfl
  rintro store ⟨⟩ -
  -- the message of thread 1 is the only one to be moved
  have hothers : ∀ i threadId documentId : ℕ, (others (counted [1, 2] (threeMessages 0 1)))[i]? =
      some (threadId, documentId) → threadId = 1 ∧ documentId = 1 := by
    intro i threadId documentId hi
    have hmem : (threadId, documentId) ∈ [(1, 1)] := mem_of_getElem? hi
    simpa using hmem
  constructor
  · rintro i threadId documentId hi - read data ⟨⟩ hdata
    obtain ⟨rfl, rfl⟩ := hothers i threadId documentId hi
    cases hdata
    rfl
  · rintro - before ⟨⟩ i threadId documentId read data - ⟨⟩ hdata
    refine ⟨⟨data, hdata, rfl⟩, fun entry hentry => ?_⟩
    change entry ∈ [(1, ⟨1, [7]⟩), (2, ⟨2, [7]⟩), (3, ⟨2, [7]⟩)] at hentry
    simp only [mem_cons, not_mem_nil, or_false] at hentry
    rcases hentry with rfl | rfl | rfl <;> rfl

end MailServer.Threading
