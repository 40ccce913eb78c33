import MailServer.Spool.Manager

/-!
# Runs of the queue manager

Principal results: `exec_counted`, `manager_run`; `purged_lock_dispatches_twice` — a queue without
capacity loses its locks, and a pair is dispatched again.
-/

namespace MailServer.Spool

open List

variable {Name : Type} [DecidableEq Name]

/-! ## Counting workers -/

theorem inFlight_insert (stats : Stats Name) (name : Name) (st : QueueStats) (n : Name) :
    inFlight (stats.insert name st) n = if n = name then st.inFlight else inFlight stats n := by
  unfold inFlight
  by_cases h : n = name
  · subst h
    rw [AList.lookup_insert, if_pos rfl]
  · rw [AList.lookup_insert_ne h, if_neg h]

theorem statsOrDefault_inFlight (threads : Name → ℕ) (stats : Stats Name) (name : Name) :
    (statsOrDefault threads stats name).inFlight = inFlight stats name := by
  unfold statsOrDefault inFlight
  cases stats.lookup name with
  | none | some => rfl

/-- Reloading settings changes no `in_flight`. -/
theorem inFlight_reloadQueue (stats : Stats Name) (settings : Name × ℕ) (name : Name) :
    inFlight (reloadQueue stats settings) name = inFlight stats name := by
  unfold reloadQueue
  split
  · next st hst =>
    rw [inFlight_insert]
    split
    · next h =>
      subst h
      unfold inFlight
      rw [hst]
    · rfl
  · next hst =>
    rw [inFlight_insert]
    split
    · next h =>
      subst h
      unfold inFlight
      rw [hst]
      rfl
    · rfl

theorem inFlight_foldl_reloadQueue (virtualQueues : List (Name × ℕ)) (stats : Stats Name)
    (name : Name) :
    inFlight (virtualQueues.foldl reloadQueue stats) name = inFlight stats name := by
  induction virtualQueues generalizing stats with
  | nil => rfl
  | cons settings rest ih =>
    rw [foldl_cons, ih]
    exact inFlight_reloadQueue stats settings name

theorem unfinished_cons (w : Worker Name) (workers : List (Worker Name)) (name : Name) :
    unfinished (w :: workers) name =
      unfinished workers name + if name = w.key.2 then 1 else 0 := by
  unfold unfinished
  rw [countP_cons]
  simp only [decide_eq_true_eq, eq_comm (a := name)]

theorem unfinished_erase {w : Worker Name} {workers} (hw : w ∈ workers)
    (name : Name) :
    unfinished workers name =
      unfinished (workers.erase w) name + if name = w.key.2 then 1 else 0 := by
  rw [← unfinished_cons]
  exact (perm_cons_erase hw).countP_eq _

/-! ## The scan -/

/-- **Everything the callback can do with a due key**: leave it, lock it and add it, or refresh the
lock it has. -/
theorem lockEvent_cases (now : ℕ) (queue : Queue Name) (nextRefresh : ℕ) (m : QueuedMessage Name) :
    (capacityOrUnknown queue.stats m.queueName = false ∧
      lockEvent now queue nextRefresh m = (queue, false, nextRefresh)) ∨
    ((∀ l, queue.locked.lookup m.key = some l → l.expires ≤ now) ∧
      lockEvent now queue nextRefresh m =
        (queue.lock m.key (now + infiniteLock), true, nextRefresh)) ∨
    (∃ l, queue.locked.lookup m.key = some l ∧ now < l.expires ∧
      lockEvent now queue nextRefresh m =
        (queue.lock m.key l.expires, false, min l.expires nextRefresh)) := by
  unfold lockEvent
  cases hcap : capacityOrUnknown queue.stats m.queueName with
  | false => exact .inl ⟨rfl, rfl⟩
  | true =>
    refine .inr ?_
    cases hl : queue.locked.lookup m.key with
    | none => exact .inl ⟨(fun l h => by cases h), rfl⟩
    | some l =>
      by_cases he : l.expires ≤ now
      · refine .inl ⟨fun l' h => ?_, ?_⟩
        · cases h; exact he
        · simp [he]
      · refine .inr ⟨l, rfl, by omega, ?_⟩
        simp [he]

theorem scan_frame (now : ℕ) (stored : List (QueuedMessage Name)) (queue : Queue Name)
    (nextRefresh : ℕ) :
    (scan now queue nextRefresh stored).1.stats = queue.stats ∧
      (scan now queue nextRefresh stored).1.lockedRevision = queue.lockedRevision := by
  induction stored generalizing queue nextRefresh with
  | nil => exact ⟨rfl, rfl⟩
  | cons m rest ih =>
    unfold scan
    split
    · obtain ⟨-, heq⟩ | ⟨-, heq⟩ | ⟨l, -, -, heq⟩ := lockEvent_cases now queue nextRefresh m
      · rw [heq]; exact ih queue nextRefresh
      · rw [heq]; exact ih (queue.lock m.key (now + infiniteLock)) nextRefresh
      · rw [heq]; exact ih (queue.lock m.key l.expires) _
    · exact ⟨rfl, rfl⟩

/-- **An unexpired lock survives the scan**, keeps its expiry, and keeps its key from being added.
-/
theorem scan_unexpired {now : ℕ} {key} {l}
    (stored : List (QueuedMessage Name)) (queue : Queue Name) (nextRefresh : ℕ)
    (hl : queue.locked.lookup key = some l) (hexpires : now < l.expires) :
    (∃ revision, (scan now queue nextRefresh stored).1.locked.lookup key =
        some ⟨l.expires, revision⟩ ∧
      (l.revision = queue.lockedRevision → revision = queue.lockedRevision)) ∧
      ∀ m ∈ (scan now queue nextRefresh stored).2.messages, m.key ≠ key := by
  induction stored generalizing queue nextRefresh l with
  | nil => exact ⟨⟨l.revision, hl, id⟩, fun m hm => by cases hm⟩
  | cons m rest ih =>
    unfold scan
    split
    · obtain ⟨-, heq⟩ | ⟨hfree, heq⟩ | ⟨l', hl', -, heq⟩ :=
        lockEvent_cases now queue nextRefresh m
      · rw [heq]
        exact ih queue nextRefresh hl hexpires
      · have hne : key ≠ m.key := by
          rintro rfl
          have := hfree l hl
          omega
        rw [heq]
        obtain ⟨hkept, hnot⟩ := ih (queue.lock m.key (now + infiniteLock)) nextRefresh
          ((queue.lookup_lock_ne hne _).trans hl) hexpires
        refine ⟨hkept, fun m' hm' => ?_⟩
        rcases mem_cons.1 hm' with rfl | hm'
        · exact hne.symm
        · exact hnot m' hm'
      · rw [heq]
        by_cases hkey : key = m.key
        · subst hkey
          obtain rfl : l' = l := Option.some_inj.1 (hl'.symm.trans hl)
          obtain ⟨⟨revision, hkept, hrev⟩, hnot⟩ := ih (queue.lock m.key l'.expires)
            (min l'.expires nextRefresh) (queue.lookup_lock m.key l'.expires) hexpires
          exact ⟨⟨revision, hkept, fun _ => hrev rfl⟩, hnot⟩
        · exact ih (queue.lock m.key l'.expires) _ ((queue.lookup_lock_ne hkey _).trans hl)
            hexpires
    · exact ⟨⟨l.revision, hl, id⟩, fun m hm => by cases hm⟩

/-- **A lock whose key is due is refreshed**, if its queue has capacity. -/
theorem scan_refreshed {now : ℕ} {l} {m}
    (stored : List (QueuedMessage Name)) (queue : Queue Name) (nextRefresh : ℕ)
    (hsorted : stored.Pairwise (fun a b => a.due ≤ b.due)) (hm : m ∈ stored) (hdue : m.due ≤ now)
    (hcap : capacityOrUnknown queue.stats m.queueName)
    (hl : queue.locked.lookup m.key = some l) (hexpires : now < l.expires) :
    (scan now queue nextRefresh stored).1.locked.lookup m.key =
      some ⟨l.expires, queue.lockedRevision⟩ := by
  induction stored generalizing queue nextRefresh l with
  | nil => cases hm
  | cons m' rest ih =>
    obtain ⟨hle, hsorted⟩ := pairwise_cons.1 hsorted
    have hdue' : m'.due ≤ now := by
      rcases mem_cons.1 hm with rfl | hm
      · exact hdue
      · exact Nat.le_trans (hle m hm) hdue
    unfold scan
    rw [if_pos hdue']
    obtain ⟨hfull, heq⟩ | ⟨hfree, heq⟩ | ⟨l', hl', -, heq⟩ :=
      lockEvent_cases now queue nextRefresh m'
    · rw [heq]
      rcases mem_cons.1 hm with rfl | hm
      · rw [hcap] at hfull
        cases hfull
      · exact ih queue nextRefresh hsorted hm hcap hl hexpires
    · have hne : m.key ≠ m'.key := by
        intro h
        rw [← h] at hfree
        have := hfree l hl
        omega
      rw [heq]
      rcases mem_cons.1 hm with rfl | hm
      · cases hne rfl
      · exact ih (queue.lock m'.key (now + infiniteLock)) nextRefresh hsorted hm hcap
          ((queue.lookup_lock_ne hne _).trans hl) hexpires
    · rw [heq]
      by_cases hkey : m.key = m'.key
      · -- refreshed here, and kept by the rest of the scan
        rw [← hkey] at hl' ⊢
        obtain rfl : l' = l := Option.some_inj.1 (hl'.symm.trans hl)
        obtain ⟨⟨revision, hkept, hrev⟩, -⟩ := scan_unexpired rest (queue.lock m.key l'.expires)
          (min l'.expires nextRefresh) (queue.lookup_lock m.key l'.expires) hexpires
        rw [hrev rfl] at hkept
        exact hkept
      · rcases mem_cons.1 hm with rfl | hm
        · cases hkey rfl
        · exact ih (queue.lock m'.key l'.expires) _ hsorted hm hcap
            ((queue.lookup_lock_ne hkey _).trans hl) hexpires

/-- **An added message is locked for the worker it gets**, with the revision of the scan. -/
theorem scan_added (now : ℕ) (stored : List (QueuedMessage Name)) (queue : Queue Name)
    (nextRefresh : ℕ) :
    (∀ m ∈ (scan now queue nextRefresh stored).2.messages,
      (scan now queue nextRefresh stored).1.locked.lookup m.key =
        some ⟨now + infiniteLock, queue.lockedRevision⟩) ∧
      ((scan now queue nextRefresh stored).2.messages.map QueuedMessage.key).Nodup := by
  induction stored generalizing queue nextRefresh with
  | nil => exact ⟨(fun m hm => by cases hm), nodup_nil⟩
  | cons m rest ih =>
    unfold scan
    split
    · obtain ⟨-, heq⟩ | ⟨-, heq⟩ | ⟨l', -, -, heq⟩ := lockEvent_cases now queue nextRefresh m
      · rw [heq]
        exact ih queue nextRefresh
      · rw [heq]
        have hnow : now < now + infiniteLock := by
          unfold infiniteLock
          omega
        obtain ⟨hlocked, hnodup⟩ := ih (queue.lock m.key (now + infiniteLock)) nextRefresh
        obtain ⟨⟨revision, hkept, hrev⟩, hnot⟩ := scan_unexpired rest
          (queue.lock m.key (now + infiniteLock)) nextRefresh
          (queue.lookup_lock m.key (now + infiniteLock)) hnow
        rw [hrev rfl] at hkept
        refine ⟨fun m' hm' => ?_, nodup_cons.2 ⟨fun hmem => ?_, hnodup⟩⟩
        · rcases mem_cons.1 hm' with rfl | hm'
          · exact hkept
          · exact hlocked m' hm'
        · obtain ⟨m', hm', hkey⟩ := mem_map.1 hmem
          exact hnot m' hm' hkey
      · rw [heq]
        exact ih (queue.lock m.key l'.expires) (min l'.expires nextRefresh)
    · exact ⟨(fun m hm => by cases hm), nodup_nil⟩

/-! ## Dispatching -/

/-- **Everything one turn of the `for` loop can do**: start a worker within capacity, or give the
lock back. -/
theorem dispatchMessage_cases (now : ℕ) (threads : Name → ℕ) (sys : System Name)
    (m : QueuedMessage Name) :
    ∃ stats, stats.inFlight = inFlight sys.queue.stats m.queueName ∧
      ((stats.inFlight < stats.maxInFlight ∧ dispatchMessage now threads sys m =
        { sys with
          queue := { sys.queue with
            stats := sys.queue.stats.insert m.queueName ⟨stats.inFlight + 1, stats.maxInFlight⟩ }
          workers := ⟨m.key, now + infiniteLock⟩ :: sys.workers
          history := ⟨m.key, now, sys.workers, ⟨stats.inFlight + 1, stats.maxInFlight⟩⟩ ::
            sys.history }) ∨
      (dispatchMessage now threads sys m =
        { sys with
          queue := { sys.queue with
            stats := sys.queue.stats.insert m.queueName stats
            locked := sys.queue.locked.erase m.key } })) := by
  refine ⟨statsOrDefault threads sys.queue.stats m.queueName,
    statsOrDefault_inFlight threads sys.queue.stats m.queueName, ?_⟩
  cases hcap : (statsOrDefault threads sys.queue.stats m.queueName).hasCapacity with
  | true =>
    refine .inl ⟨of_decide_eq_true hcap, ?_⟩
    simp only [dispatchMessage, dispatch, hcap, if_true]
  | false =>
    refine .inr ?_
    simp only [dispatchMessage, dispatch, hcap, Bool.false_eq_true, if_false]

variable {sys : System Name}

theorem dispatchMessage_counted (h : Counted sys) (now : ℕ)
    (threads : Name → ℕ) (m : QueuedMessage Name) :
    Counted (dispatchMessage now threads sys m) := by
  intro name
  have hname := h name
  obtain ⟨stats, hstats, ⟨-, heq⟩ | heq⟩ := dispatchMessage_cases now threads sys m
  · rw [heq]
    change inFlight (sys.queue.stats.insert m.queueName _) name =
      unfinished (⟨m.key, now + infiniteLock⟩ :: sys.workers) name
    rw [inFlight_insert, unfinished_cons]
    change _ = _ + if name = m.queueName then 1 else 0
    split
    · next hn =>
      subst hn
      change stats.inFlight + 1 = _
      omega
    · omega
  · rw [heq]
    change inFlight (sys.queue.stats.insert m.queueName stats) name = unfinished sys.workers name
    rw [inFlight_insert]
    split
    · next hn => subst hn; omega
    · exact hname

theorem dispatchMessage_withinCapacity (h : WithinCapacity sys) (now : ℕ)
    (threads : Name → ℕ) (m : QueuedMessage Name) :
    WithinCapacity (dispatchMessage now threads sys m) := by
  obtain ⟨stats, -, ⟨hlt, heq⟩ | heq⟩ := dispatchMessage_cases now threads sys m
  · rw [heq]
    intro d hd
    rcases mem_cons.1 hd with rfl | hd
    · exact hlt
    · exact h d hd
  · rw [heq]
    exact h

/-- What the locks guarantee between the scan and the purge, with `rest` still to be dispatched. -/
structure HeldDuring (now revision : ℕ) (sys : System Name) (rest : List (QueuedMessage Name)) :
    Prop where
  revision_eq : sys.queue.lockedRevision = revision
  nodup : (rest.map QueuedMessage.key).Nodup
  added : ∀ m ∈ rest, sys.queue.locked.lookup m.key = some ⟨now + infiniteLock, revision⟩
  held : ∀ w ∈ sys.workers, now < w.expires →
    (∃ expires, sys.queue.locked.lookup w.key = some ⟨expires, revision⟩ ∧ w.expires ≤ expires) ∧
      ∀ m ∈ rest, m.key ≠ w.key
  exclusive : Exclusive sys

/-- **Step lemma**: one turn of the `for` loop keeps what the locks guarantee. -/
theorem HeldDuring.dispatchMessage {now revision : ℕ} {m}
    {rest} (h : HeldDuring now revision sys (m :: rest))
    (threads : Name → ℕ) : HeldDuring now revision (dispatchMessage now threads sys m) rest := by
  have hnodup : m.key ∉ rest.map QueuedMessage.key ∧ (rest.map QueuedMessage.key).Nodup :=
    nodup_cons.1 h.nodup
  have hne : ∀ m' ∈ rest, m'.key ≠ m.key := fun m' hm' hkey =>
    hnodup.1 (hkey ▸ mem_map_of_mem hm')
  obtain ⟨stats, -, ⟨-, heq⟩ | heq⟩ := dispatchMessage_cases now threads sys m
  · rw [heq]
    refine ⟨h.revision_eq, hnodup.2, fun m' hm' => h.added m' (.tail _ hm'),
      fun w hw hexpires => ?_, fun d hd w hw hkey => ?_⟩
    · rcases mem_cons.1 hw with rfl | hw
      · exact ⟨⟨now + infiniteLock, h.added m (.head _), Nat.le_refl _⟩, hne⟩
      · obtain ⟨hlock, hnot⟩ := h.held w hw hexpires
        exact ⟨hlock, fun m' hm' => hnot m' (.tail _ hm')⟩
    · rcases mem_cons.1 hd with rfl | hd
      · -- a running worker with an unexpired lock is not among the added messages
        by_contra hexpires
        exact (h.held w hw (Nat.not_le.1 hexpires)).2 m (.head _) hkey.symm
      · exact h.exclusive d hd w hw hkey
  · rw [heq]
    refine ⟨h.revision_eq, hnodup.2, fun m' hm' => ?_, fun w hw hexpires => ?_, h.exclusive⟩
    · change (sys.queue.locked.erase m.key).lookup m'.key = _
      rw [AList.lookup_erase_ne (hne m' hm')]
      exact h.added m' (.tail _ hm')
    · obtain ⟨⟨expires, hlock, hle⟩, hnot⟩ := h.held w hw hexpires
      refine ⟨⟨expires, ?_, hle⟩, fun m' hm' => hnot m' (.tail _ hm')⟩
      change (sys.queue.locked.erase m.key).lookup w.key = _
      rw [AList.lookup_erase_ne (hnot m (.head _)).symm]
      exact hlock

theorem HeldDuring.foldl {now revision : ℕ} (threads : Name → ℕ)
    {messages} (h : HeldDuring now revision sys messages) :
    HeldDuring now revision (messages.foldl (Spool.dispatchMessage now threads) sys) [] := by
  induction messages generalizing sys with
  | nil => exact h
  | cons m rest ih => exact ih (h.dispatchMessage threads)

theorem HeldDuring.perm {now revision : ℕ}
    {messages messages'} (h : HeldDuring now revision sys messages)
    (hperm : messages'.Perm messages) : HeldDuring now revision sys messages' where
  revision_eq := h.revision_eq
  nodup := (hperm.map QueuedMessage.key).nodup_iff.2 h.nodup
  added m hm := h.added m (hperm.mem_iff.1 hm)
  held w hw hexpires :=
    ⟨(h.held w hw hexpires).1, fun m hm => (h.held w hw hexpires).2 m (hperm.mem_iff.1 hm)⟩
  exclusive := h.exclusive

omit [DecidableEq Name] in
theorem order_perm {shuffle : List (QueuedMessage Name) → List (QueuedMessage Name)}
    (h : ∀ messages, (shuffle messages).Perm messages) (messages : List (QueuedMessage Name)) :
    (if 3 < messages.length then shuffle messages else messages).Perm messages := by
  split
  · exact h messages
  · exact List.Perm.refl messages

/-! ## The purge -/

theorem lookup_retain {p} {locked : Locks Name} {key}
    {l} (h : locked.lookup key = some l) (hp : p l) :
    (retain p locked).lookup key = some l := by
  rw [← Option.mem_def, AList.mem_lookup_iff] at h ⊢
  exact mem_filter.2 ⟨h, hp⟩

/-! ## The step lemmas -/

/-- Between two steps: a running worker whose lock has not expired has a lock that lasts at least as
long. -/
def Held (sys : System Name) : Prop :=
  ∀ w ∈ sys.workers, sys.clock < w.expires →
    ∃ l, sys.queue.locked.lookup w.key = some l ∧ w.expires ≤ l.expires

theorem nextEvent_stats (now : ℕ) (stored : List (QueuedMessage Name)) (queue : Queue Name) :
    (nextEvent now stored queue).1.stats = queue.stats :=
  (scan_frame _ _ _ _).1

/-- A scan starts with what the locks of running workers guarantee and ends with every added
message locked. -/
theorem nextEvent_heldDuring {now : ℕ} {stored}
    (hheld : Held sys) (hex : Exclusive sys) (hclock : sys.clock ≤ now)
    (hsorted : stored.Pairwise (fun a b => a.due ≤ b.due))
    (hkeep : ∀ w ∈ sys.workers, now < w.expires →
      (∃ m ∈ stored, m.key = w.key ∧ m.due ≤ now) ∧
        capacityOrUnknown sys.queue.stats w.key.2) :
    HeldDuring now (sys.queue.lockedRevision + 1)
      { sys with queue := (nextEvent now stored sys.queue).1 }
      (nextEvent now stored sys.queue).2.messages := by
  let queue : Queue Name := { sys.queue with lockedRevision := sys.queue.lockedRevision + 1 }
  let delivered := stored.filter fun m => m.due ≤ now + queueRefresh
  have hadded := scan_added now delivered queue (now + queueRefresh)
  refine ⟨(scan_frame now delivered queue _).2, hadded.2, hadded.1, fun w hw hexpires => ?_, hex⟩
  obtain ⟨l, hl, hle⟩ := hheld w hw (by omega)
  obtain ⟨⟨m, hm, hkey, hdue⟩, hcap⟩ := hkeep w hw hexpires
  have hm' : m ∈ delivered := by
    refine mem_filter.2 ⟨hm, decide_eq_true ?_⟩
    omega
  have hlt : now < l.expires := by omega
  have hrefreshed := scan_refreshed delivered queue (now + queueRefresh)
    (hsorted.sublist filter_sublist) hm' hdue
    (by rw [show m.queueName = w.key.2 from congrArg Prod.snd hkey]; exact hcap)
    (by rw [hkey]; exact hl) hlt
  rw [hkey] at hrefreshed
  exact ⟨⟨l.expires, hrefreshed, hle⟩, (scan_unexpired delivered queue _ hl hlt).2⟩

/-- The stats after a whole `for` loop. -/
theorem foldl_dispatchMessage_counted (now : ℕ) (threads : Name → ℕ)
    (messages : List (QueuedMessage Name)) (hc : Counted sys) (hw : WithinCapacity sys) :
    Counted (messages.foldl (dispatchMessage now threads) sys) ∧
      WithinCapacity (messages.foldl (dispatchMessage now threads) sys) := by
  induction messages generalizing sys with
  | nil => exact ⟨hc, hw⟩
  | cons m rest ih =>
    exact ih (dispatchMessage_counted hc now threads m)
      (dispatchMessage_withinCapacity hw now threads m)

theorem handleEvent_inFlight (now : ℕ) (queue : Queue Name) {e}
    (he : ∀ key status jitter, e ≠ .workerDone key status jitter) :
    ∃ res, handleEvent now queue e = some res ∧
      (∀ name, inFlight res.1.stats name = inFlight queue.stats name) ∧
      res.1.locked = queue.locked := by
  cases e with
  | workerDone key status jitter => cases he key status jitter rfl
  | refresh | paused | stop => exact ⟨_, rfl, fun name => rfl, rfl⟩
  | reloadSettings virtualQueues =>
    exact ⟨_, rfl, inFlight_foldl_reloadQueue virtualQueues queue.stats, rfl⟩

/-- **A finished worker**: with a worker in flight there is no panic, and `in_flight` loses one. -/
theorem workerDone_inFlight (now : ℕ) {queue : Queue Name} {key}
    (hin : 0 < inFlight queue.stats key.2) (status : QueueEventStatus) (jitter : ℕ) :
    ∃ res, workerDone now queue key status jitter = some res ∧
      (∀ name, inFlight queue.stats name =
        inFlight res.1.stats name + if name = key.2 then 1 else 0) := by
  obtain ⟨stats, hstats⟩ : ∃ stats, queue.stats.lookup key.2 = some stats := by
    unfold inFlight at hin
    cases hs : queue.stats.lookup key.2 with
    | none => rw [hs] at hin; cases hin
    | some stats => exact ⟨stats, rfl⟩
  have hcount : inFlight queue.stats key.2 = stats.inFlight := by
    unfold inFlight
    rw [hstats]
  have hpos : stats.inFlight ≠ 0 := by omega
  have hinsert (name : Name) : inFlight queue.stats name =
      inFlight (queue.stats.insert key.2 ⟨stats.inFlight - 1, stats.maxInFlight⟩) name +
        if name = key.2 then 1 else 0 := by
    rw [inFlight_insert]
    split
    · next hn =>
      rw [hn, hcount]
      change stats.inFlight = stats.inFlight - 1 + 1
      omega
    · rfl
  unfold workerDone
  simp only [hstats, hpos]
  cases status with
  | completed | deferred | locked => exact ⟨_, rfl, hinsert⟩

theorem workerDone_lookup_ne {now : ℕ} {queue : Queue Name} {key key'}
    {status} {jitter : ℕ} {res : Queue Name × Bool}
    (h : workerDone now queue key status jitter = some res) (hne : key' ≠ key) :
    res.1.locked.lookup key' = queue.locked.lookup key' := by
  unfold workerDone at h
  split at h
  · cases h
  · split at h
    · cases h
    · cases status with
      | completed | deferred => cases h; exact AList.lookup_erase_ne hne
      | locked => cases h; exact Queue.lookup_lock_ne hne _ _

theorem Counted.pos (h : Counted sys) {w : Worker Name}
    (hw : w ∈ sys.workers) : 0 < inFlight sys.queue.stats w.key.2 := by
  rw [h w.key.2]
  exact countP_pos_iff.2 ⟨w, hw, decide_eq_true rfl⟩

/-- **Step lemma**: every step the environment allows is taken without a panic and keeps the
counters. -/
theorem step_counted {label : Label Name}
    (h : Counted sys ∧ WithinCapacity sys) (hok : Allowed sys label) :
    ∃ sys', step sys label = some sys' ∧ Counted sys' ∧ WithinCapacity sys' := by
  cases label with
  | event now e =>
    obtain ⟨res, hres, hstats, -⟩ := handleEvent_inFlight now sys.queue hok.2
    simp only [step, hres]
    exact ⟨_, rfl, fun name => (hstats name).trans (h.1 name), h.2⟩
  | done now w status jitter =>
    obtain ⟨res, hres, hstats⟩ :=
      workerDone_inFlight now (h.1.pos hok.2) status jitter
    simp only [step, hres]
    refine ⟨_, rfl, fun name => ?_, h.2⟩
    have hbefore := h.1 name
    rw [hstats name, unfinished_erase hok.2 name] at hbefore
    exact Nat.add_right_cancel hbefore
  | timeout now => exact ⟨_, rfl, h.1, h.2⟩
  | turn now purgeNow stored shuffle threads =>
    have hturn : Counted (endTurn now purgeNow stored shuffle threads sys) ∧
        WithinCapacity (endTurn now purgeNow stored shuffle threads sys) := by
      unfold endTurn
      split
      · have hscan : Counted { sys with queue := (nextEvent now stored sys.queue).1 } := by
          intro name
          change inFlight (nextEvent now stored sys.queue).1.stats name = _
          rw [nextEvent_stats]
          exact h.1 name
        exact foldl_dispatchMessage_counted now threads _ hscan h.2
      · split
        · exact h
        · exact h
    exact ⟨_, rfl, hturn⟩

/-- **Step lemma**: a step that keeps the locks of running workers dispatches no pair twice. -/
theorem step_held {sys sys' : System Name} {label : Label Name} (h : Held sys ∧ Exclusive sys)
    (hok : Allowed sys label ∧ KeepsLocks sys label) (hstep : step sys label = some sys') :
    Held sys' ∧ Exclusive sys' := by
  obtain ⟨hheld, hex⟩ := h
  cases label with
  | event now e =>
    obtain ⟨⟨hclock, he⟩, -⟩ := hok
    obtain ⟨res, hres, -, hlocked⟩ := handleEvent_inFlight now sys.queue he
    simp only [step, hres] at hstep
    cases hstep
    refine ⟨fun w hw hexpires => ?_, hex⟩
    have hexpires : now < w.expires := hexpires
    change ∃ l, res.1.locked.lookup w.key = some l ∧ _
    rw [hlocked]
    exact hheld w hw (by omega)
  | done now w status jitter =>
    obtain ⟨⟨hclock, hw⟩, hlast⟩ := hok
    cases hres : workerDone now sys.queue w.key status jitter with
    | none => simp only [step, hres] at hstep; cases hstep
    | some res =>
      simp only [step, hres] at hstep
      cases hstep
      refine ⟨fun w' hw' hexpires => ?_, hex⟩
      have hexpires : now < w'.expires := hexpires
      -- the reporting worker was the last one whose lock may be touched
      have hne : w'.key ≠ w.key := fun hkey => by
        have := hlast w' hw' hkey
        omega
      obtain ⟨l, hl, hle⟩ := hheld w' (mem_of_mem_erase hw') (by omega)
      refine ⟨l, ?_, hle⟩
      change res.1.locked.lookup w'.key = some l
      rw [workerDone_lookup_ne hres hne]
      exact hl
  | timeout now =>
    cases hstep
    refine ⟨fun w hw hexpires => ?_, hex⟩
    have hclock : sys.clock ≤ now := hok.1.1
    have hexpires : now < w.expires := hexpires
    exact hheld w hw (by omega)
  | turn now purgeNow stored shuffle threads =>
    obtain ⟨⟨hclock, hpurge, hsorted, hperm⟩, hkeep⟩ := hok
    cases hstep
    cases hscans : scans now sys with
    | false =>
      have hsame : (endTurn now purgeNow stored shuffle threads sys).workers = sys.workers ∧
          (endTurn now purgeNow stored shuffle threads sys).history = sys.history ∧
          (endTurn now purgeNow stored shuffle threads sys).queue.locked = sys.queue.locked := by
        unfold endTurn
        rw [hscans]
        simp only [Bool.false_eq_true, if_false]
        split
        · exact ⟨rfl, rfl, rfl⟩
        · exact ⟨rfl, rfl, rfl⟩
      obtain ⟨hworkers, hhistory, hlocked⟩ := hsame
      refine ⟨fun w hw hexpires => ?_, fun d hd => ?_⟩
      · have hexpires : purgeNow < w.expires := hexpires
        change ∃ l, (endTurn now purgeNow stored shuffle threads sys).queue.locked.lookup w.key =
          some l ∧ _
        rw [hlocked]
        exact hheld w (hworkers ▸ hw) (by omega)
      · exact hex d (hhistory ▸ hd)
    | true =>
      have hscan := nextEvent_heldDuring hheld hex hclock hsorted (hkeep hscans)
      have hturn : endTurn now purgeNow stored shuffle threads sys =
          processQueue now purgeNow stored shuffle threads sys := by
        unfold endTurn
        rw [if_pos hscans]
      rw [hturn]
      have hdone := (hscan.perm (order_perm hperm _)).foldl threads
      refine ⟨fun w hw hexpires => ?_, hdone.exclusive⟩
      have hexpires : purgeNow < w.expires := hexpires
      obtain ⟨⟨expires, hlock, hle⟩, -⟩ := hdone.held w hw (by omega)
      refine ⟨_, lookup_retain hlock ?_, hle⟩
      rw [Bool.and_eq_true]
      refine ⟨decide_eq_true ?_, beq_iff_eq.2 hdone.revision_eq.symm⟩
      change purgeNow < expires
      omega

/-! ## Runs -/

theorem start_counted (now : ℕ) : Counted (start now : System Name) := by
  intro name
  rfl

/-- **The counters of every run**: the manager does not panic, and `in_flight` counts the unfinished
workers, at most `max_in_flight`. -/
theorem exec_counted (now : ℕ) (labels : List (Label Name))
    (hrun : Runs.Along step Allowed (start now) labels) :
    ∃ sys, Runs.exec step (start now) labels = some sys ∧ Counted sys ∧ WithinCapacity sys :=
  Runs.exec_invariant (I := fun sys => Counted sys ∧ WithinCapacity sys)
    (fun sys label h hok => step_counted h hok)
    ⟨start_counted now, (fun d hd => by cases hd)⟩ hrun

/-- **The queue manager over whole runs.** Every run is free of panics, keeps `in_flight` equal to
the unfinished workers of each queue, and dispatches within `max_in_flight`. If every scan finds the
keys of the running workers due and their queues with capacity, no pair is dispatched while its lock
has not expired. -/
theorem manager_run (now : ℕ) (labels : List (Label Name))
    (hrun : Runs.Along step Allowed (start now) labels) :
    ∃ sys, Runs.exec step (start now) labels = some sys ∧ Counted sys ∧ WithinCapacity sys ∧
      (Runs.Along step KeepsLocks (start now) labels → Exclusive sys) := by
  obtain ⟨sys, hexec, hcounted, hcapacity⟩ := exec_counted now labels hrun
  refine ⟨sys, hexec, hcounted, hcapacity, fun hkeep => ?_⟩
  have hinv := Runs.exec_invariant_of_some (I := fun sys => Held sys ∧ Exclusive sys)
    (fun sys label sys' h hok hstep => step_held h hok hstep)
    ⟨(fun w hw => by cases hw), (fun d hd => by cases hd)⟩ (hrun.and hkeep) hexec
  exact hinv.2

/-- One message for a queue with two threads: dispatched, seen again by the next scan, finished. -/
theorem manager_run_kept :
    let m : QueuedMessage String := ⟨5, 1, "remote"⟩
    let labels : List (Label String) :=
      [.timeout 10, .turn 10 10 [m] id (fun _ => 2), .event 11 .refresh,
        .turn 11 11 [m] id (fun _ => 2), .done 12 ⟨(1, "remote"), 10 + infiniteLock⟩ .completed 5]
    ∃ sys, Runs.exec step (start 0) labels = some sys ∧ Counted sys ∧ WithinCapacity sys ∧
      Exclusive sys := by
  intro m labels
  have hrun : Runs.Along step Allowed (start 0) labels := by
    refine .cons ⟨by decide, by decide⟩ rfl ?_
    refine .cons ⟨by decide, by decide, by decide, fun _ => .refl _⟩ rfl ?_
    refine .cons ⟨by decide, fun _ _ _ h => by cases h⟩ rfl ?_
    refine .cons ⟨by decide, by decide, by decide, fun _ => .refl _⟩ rfl ?_
    exact .cons ⟨by decide, by decide⟩ rfl trivial
  have hkeep : Runs.Along step KeepsLocks (start 0) labels := by
    refine .cons trivial rfl ?_
    refine .cons (fun _ w hw => by cases hw) rfl ?_
    refine .cons trivial rfl ?_
    refine .cons ?_ rfl (.cons (fun w hw => by cases hw) rfl trivial)
    intro _ w hw _
    obtain rfl := mem_singleton.1 hw
    exact ⟨⟨m, mem_singleton_self m, rfl, by decide⟩, by decide⟩
  obtain ⟨sys, hexec, hcounted, hcapacity, hex⟩ := manager_run 0 labels hrun
  exact ⟨sys, hexec, hcounted, hcapacity, hex hkeep⟩

/-- Two messages for a queue with two threads: a scan that finds the queue full lets their locks go,
and the next one dispatches the first message again. -/
def fullQueueLabels : List (Label String) :=
  let m1 : QueuedMessage String := ⟨5, 1, "remote"⟩
  let m2 : QueuedMessage String := ⟨5, 2, "remote"⟩
  [.timeout 10, .turn 10 10 [m1, m2] id (fun _ => 2),
    .event 11 .refresh, .turn 11 11 [m1, m2] id (fun _ => 2),
    .done 12 ⟨(2, "remote"), 10 + infiniteLock⟩ .completed 5,
    .event 12 .refresh, .turn 12 12 [m1] id (fun _ => 2)]

theorem purged_lock_dispatches_twice :
    ¬ ∀ (now : ℕ) (labels : List (Label String)),
      Runs.Along step Allowed (start now) labels →
      ∃ sys, Runs.exec step (start now) labels = some sys ∧ Counted sys ∧ WithinCapacity sys ∧
        Exclusive sys := by
  intro h
  have hrun : Runs.Along step Allowed (start 0) fullQueueLabels := by
    refine .cons ⟨by decide, by decide⟩ rfl ?_
    refine .cons ⟨by decide, by decide, by decide, fun _ => .refl _⟩ rfl ?_
    refine .cons ⟨by decide, fun _ _ _ h => by cases h⟩ rfl ?_
    refine .cons ⟨by decide, by decide, by decide, fun _ => .refl _⟩ rfl ?_
    refine .cons ⟨by decide, by decide⟩ rfl ?_
    refine .cons ⟨by decide, fun _ _ _ h => by cases h⟩ rfl ?_
    exact .cons ⟨by decide, by decide, by decide, fun _ => .refl _⟩ rfl trivial
  obtain ⟨sys, hexec, -, -, hex⟩ := h 0 fullQueueLabels hrun
  have hdispatch : ∃ d w, sys.history.head? = some d ∧ d.running.head? = some w ∧
      w.key = d.key ∧ d.time < w.expires := by
    cases hexec
    exact ⟨_, _, rfl, rfl, by decide, by decide⟩
  obtain ⟨d, w, hd, hw, hkey, hexpires⟩ := hdispatch
  have := hex d (mem_of_mem_head? hd) w (mem_of_mem_head? hw) hkey
  omega

end MailServer.Spool
