import MailServer.Delivery.Entry

/-!
# Delivery workers on one message

Every worker copies the message when it starts, changes the recipients of its own virtual queue
and writes the copy back.  A message with pending recipients in other queues is merged recipient
by recipient, any other message is replaced as a whole; in both cases the event keys are written
for all queues from the copy.

Principal results: `updates_kept_and_covered`, `moved_recipient_lost`.
-/

namespace MailServer.Delivery

open Option

variable {Name : Type} [DecidableEq Name]

/-! ## What is promised -/

/-- The recipient was in the queue of the task when the task read the message. -/
def Task.Owns (t : Task Name) (i : ℕ) : Prop :=
  ∃ rcpt, t.read.recipients[i]? = some rcpt ∧ rcpt.queue = t.wrapper.queueName

/-- The calls of the workers: one starts for an event key in the store when its queue has none, and
gives outcomes to recipients that were pending in its queue when it read the message. -/
def Allowed (e : Entry Name) : Label Name → Prop
  | .queue _ _ => e.message = none
  | .read task queueName prevEvent =>
    e.tasks task = none ∧ (∃ due, prevEvent = some due ∧ (due, queueName) ∈ e.events) ∧
      ∀ task' t', e.tasks task' = some t' → t'.wrapper.queueName ≠ queueName
  | .expire task _ => ∃ t, e.tasks task = some t
  | .setStatus task _ rcptIdx _ _ | .setRateLimit task rcptIdx _ =>
    ∃ t rcpt, e.tasks task = some t ∧ t.read.recipients[rcptIdx]? = some rcpt ∧
      rcpt.status.isPending ∧ rcpt.queue = t.wrapper.queueName
  | .save task => ∃ t, e.tasks task = some t
  | .remove _ => False

/-- A save stores the recipients of the worker as the worker left them and leaves the others as
they are. -/
def UpdatesKept (e : Entry Name) : Label Name → Prop
  | .save task => ∀ t, e.tasks task = some t →
    ∃ before after e', e.message = some before ∧ e.next (.save task) = some e' ∧
      e'.message = some after ∧
      (∀ i, t.Owns i → after.recipients[i]? = t.wrapper.message.recipients[i]?) ∧
      ∀ i, ¬ t.Owns i → after.recipients[i]? = before.recipients[i]?
  | _ => True

/-- No worker is running. -/
def Entry.Idle (e : Entry Name) : Prop := ∀ task, e.tasks task = none

/-- Every pending recipient has an event key for its queue that is due in time. -/
def Entry.Covered (e : Entry Name) : Prop :=
  ∀ m, e.message = some m → ∀ rcpt ∈ m.recipients, rcpt.status.isPending →
    ∃ due, (due, rcpt.queue) ∈ e.events ∧ due ≤ rcpt.earlierEvent m.created

/-- What a save must not do to a recipient: with several queues, move one of the worker to another
queue; with one queue, move one into a queue whose worker is running, as the first event is then the
one which that worker is about to clear. -/
def MovesSafely (e : Entry Name) : Label Name → Prop
  | .save task => ∀ t, e.tasks task = some t →
    if t.wrapper.isMultiQueue then
      ∀ (i : ℕ) (rcpt : Recipient Name), t.Owns i →
        t.wrapper.message.recipients[i]? = some rcpt → rcpt.queue = t.wrapper.queueName
    else
      ∀ task' t' due, task' ≠ task → e.tasks task' = some t' →
        t.wrapper.message.nextEvent (some t'.wrapper.queueName) = some due →
        t'.prevEvent = some due →
        ∃ due' < due, (due', t'.wrapper.queueName) ∈ e.events
  | _ => True

/-! ## Invariants -/

/-- How the copy of a worker differs from the message it read. -/
structure CopyOf (queueName : Name) (read copy : Message Name) : Prop where
  created : copy.created = read.created
  blobHash : copy.blobHash = read.blobHash
  length : copy.recipients.length = read.recipients.length
  copied : ∀ (i : ℕ) (rcpt : Recipient Name), read.recipients[i]? = some rcpt →
    ∃ rcpt' : Recipient Name, copy.recipients[i]? = some rcpt' ∧
      (rcpt.status.isPending = false → rcpt' = rcpt) ∧
      (rcpt.queue ≠ queueName → rcpt'.queue = rcpt.queue)

/-- How the message a worker has read differs from the stored one. -/
structure InStep (m : Message Name) (t : Task Name) : Prop where
  created : t.read.created = m.created
  blobHash : t.read.blobHash = m.blobHash
  length : t.read.recipients.length = m.recipients.length
  multi : t.wrapper.isMultiQueue = t.read.isMultiQueue t.wrapper.queueName
  own : ∀ i : ℕ, t.Owns i → m.recipients[i]? = t.read.recipients[i]?
  single : t.wrapper.isMultiQueue = false → m.recipients = t.read.recipients

/-- An event key in time for recipient `i` that no running worker without the recipient is about to
clear. -/
def Entry.Covers (e : Entry Name) (m : Message Name) (i : ℕ) (rcpt : Recipient Name) : Prop :=
  ∃ due, (due, rcpt.queue) ∈ e.events ∧ due ≤ rcpt.earlierEvent m.created ∧
    ∀ task t, e.tasks task = some t → t.wrapper.queueName = rcpt.queue →
      t.Owns i ∨ t.prevEvent ≠ some due

/-- What holds between any two calls. -/
structure Entry.Sound (e : Entry Name) : Prop where
  stored : ∀ task t, e.tasks task = some t → ∃ m, e.message = some m ∧ InStep m t
  copyOf : ∀ task t, e.tasks task = some t →
    CopyOf t.wrapper.queueName t.read t.wrapper.message
  distinct : ∀ task task' t t', e.tasks task = some t → e.tasks task' = some t' →
    t.wrapper.queueName = t'.wrapper.queueName → task = task'
  covers : ∀ (m : Message Name) (i : ℕ) (rcpt : Recipient Name), e.message = some m →
    m.recipients[i]? = some rcpt →
    rcpt.status.isPending → e.Covers m i rcpt

theorem sound_empty : (Entry.empty : Entry Name).Sound where
  stored := fun _ _ h => by cases h
  copyOf := fun _ _ h => by cases h
  distinct := fun _ _ _ _ h => by cases h
  covers := fun _ _ _ h => by cases h

theorem Entry.Sound.covered {e : Entry Name} (h : e.Sound) : e.Covered := by
  intro m hm rcpt hmem hpending
  obtain ⟨i, hi, hget⟩ := List.mem_iff_getElem.1 hmem
  have hget? : m.recipients[i]? = some rcpt := by
    rw [List.getElem?_eq_getElem hi, hget]
  obtain ⟨due, hdue, hle, -⟩ := h.covers m i rcpt hm hget? hpending
  exact ⟨due, hdue, hle⟩

/-! ## Copies -/

omit [DecidableEq Name] in
theorem CopyOf.refl (queueName : Name) (m : Message Name) : CopyOf queueName m m where
  created := rfl
  blobHash := rfl
  length := rfl
  copied := fun _ rcpt h => ⟨rcpt, h, fun _ => rfl, fun _ => rfl⟩

omit [DecidableEq Name] in
theorem CopyOf.get_of_not_pending {queueName : Name} {read copy : Message Name}
    (h : CopyOf queueName read copy) {i : ℕ} {rcpt}
    (hget : read.recipients[i]? = some rcpt) (hpending : rcpt.status.isPending = false) :
    copy.recipients[i]? = some rcpt := by
  obtain ⟨rcpt', hget', hkept, -⟩ := h.copied i rcpt hget
  rw [hget', hkept hpending]

omit [DecidableEq Name] in
theorem CopyOf.modifyRcpt {queueName : Name} {read copy copy' : Message Name}
    (h : CopyOf queueName read copy) {rcptIdx : ℕ} {rcpt}
    {f} (hget : read.recipients[rcptIdx]? = some rcpt)
    (hpending : rcpt.status.isPending) (hqueue : rcpt.queue = queueName)
    (hcopy : copy.modifyRcpt rcptIdx f = some copy') : CopyOf queueName read copy' := by
  unfold Message.modifyRcpt at hcopy
  split at hcopy
  · cases hcopy
    refine ⟨h.created, h.blobHash, ?_, ?_⟩
    · rw [List.length_modify]
      exact h.length
    · intro i rcpt₁ hget₁
      obtain ⟨rcpt', hget', hkept, hforeign⟩ := h.copied i rcpt₁ hget₁
      by_cases hi : rcptIdx = i
      · subst hi
        obtain rfl : rcpt = rcpt₁ := some_inj.1 (hget.symm.trans hget₁)
        refine ⟨f rcpt', by simp [hget'], ?_, ?_⟩
        · intro hdone
          rw [hpending] at hdone
          cases hdone
        · intro hne
          cases hne hqueue
      · exact ⟨rcpt', by simp [hi, hget'], hkept, hforeign⟩
  · cases hcopy

omit [DecidableEq Name] in
theorem CopyOf.expireRcpts {queueName : Name} {read copy : Message Name}
    (h : CopyOf queueName read copy) (now : ℕ) :
    CopyOf queueName read (copy.expireRcpts now) := by
  refine ⟨h.created, h.blobHash, ?_, ?_⟩
  · rw [← h.length]
    exact List.length_map _
  · intro i rcpt hget
    obtain ⟨rcpt', hget', hkept, hforeign⟩ := h.copied i rcpt hget
    refine ⟨rcpt'.expire copy.created now, by simp [Message.expireRcpts, hget'], ?_, ?_⟩
    · intro hdone
      obtain rfl := hkept hdone
      exact Recipient.expire_of_not_pending _ _ hdone
    · intro hne
      rw [Recipient.expire_queue]
      exact hforeign hne

theorem not_pending_of_single {m : Message Name} {queueName : Name}
    (h : m.isMultiQueue queueName = false) {i : ℕ} {rcpt}
    (hget : m.recipients[i]? = some rcpt) (hne : rcpt.queue ≠ queueName) :
    rcpt.status.isPending = false := by
  have hall := List.any_eq_false.1 h rcpt (List.mem_of_getElem? hget)
  simp only [ne_eq, hne, not_false_eq_true, decide_true, Bool.and_true, Bool.not_eq_true] at hall
  exact hall

/-! ## Writing a message back -/

theorem getElem?_mergeRecipients (queueName : Name) {cur new} {i : ℕ}
    {c n} (hc : cur[i]? = some c) (hn : new[i]? = some n) :
    (mergeRecipients queueName cur new)[i]? = some (if n.queue = queueName then n else c) := by
  simp [mergeRecipients, List.getElem?_zipWith, hc, hn]

/-- What the recipients of a message become when a worker writes its copy back. -/
structure WrittenBack (before after : Message Name) (t : Task Name) : Prop where
  created : after.created = before.created
  blobHash : after.blobHash = before.blobHash
  length : after.recipients.length = before.recipients.length
  own : ∀ i : ℕ, t.Owns i → after.recipients[i]? = t.wrapper.message.recipients[i]?
  others : ∀ i : ℕ, ¬ t.Owns i → after.recipients[i]? = before.recipients[i]?

section

variable {m : Message Name} {t : Task Name} (hstep : InStep m t)
  (hcopy : CopyOf t.wrapper.queueName t.read t.wrapper.message)
include hstep hcopy

theorem exists_copy {i : ℕ} {c} (hget : m.recipients[i]? = some c) :
    ∃ r n, t.read.recipients[i]? = some r ∧ t.wrapper.message.recipients[i]? = some n ∧
      (r.status.isPending = false → n = r) ∧
      (r.queue ≠ t.wrapper.queueName → n.queue = r.queue) := by
  have hlt : i < t.read.recipients.length := by
    rw [hstep.length]
    exact (List.getElem?_eq_some_iff.1 hget).1
  have hread : t.read.recipients[i]? = some t.read.recipients[i] := List.getElem?_eq_getElem hlt
  obtain ⟨n, hn, hkept, hforeign⟩ := hcopy.copied i _ hread
  exact ⟨_, n, hread, hn, hkept, hforeign⟩

/-- With several queues: merging stores what the worker left, if it has moved no recipient of its
own. -/
theorem writtenBack_merge
    (hstay : ∀ i rcpt, t.Owns i → t.wrapper.message.recipients[i]? = some rcpt →
      rcpt.queue = t.wrapper.queueName) :
    ∃ after, mergeFnc t.wrapper.queueName t.wrapper.message.releaseQuota.1 (some m) = some after ∧
      WrittenBack m after t := by
  have hhash : m.blobHash = t.wrapper.message.releaseQuota.1.blobHash :=
    hstep.blobHash.symm.trans hcopy.blobHash.symm
  have hlength : m.recipients.length = t.wrapper.message.recipients.length :=
    hstep.length.symm.trans hcopy.length.symm
  refine ⟨_, if_pos ⟨hhash, hlength⟩, rfl, rfl, ?_, ?_, ?_⟩
  · simp [mergeRecipients, hlength]
  all_goals intro i hi
  · -- A recipient of the worker: it still has the queue of the worker, so it is written.
    obtain ⟨r, hr, hqueue⟩ := hi
    have hget : m.recipients[i]? = some r := (hstep.own i ⟨r, hr, hqueue⟩).trans hr
    obtain ⟨-, n, -, hn, -⟩ := exists_copy hstep hcopy hget
    have hmerged := getElem?_mergeRecipients t.wrapper.queueName hget hn
    rw [if_pos (hstay i n ⟨r, hr, hqueue⟩ hn)] at hmerged
    exact hmerged.trans hn.symm
  · cases hget : m.recipients[i]? with
    | none =>
      rw [List.getElem?_eq_none_iff] at hget ⊢
      simp only [mergeRecipients, List.length_zipWith]
      omega
    | some c =>
      -- A recipient of another queue: the copy has it in that queue, so it is not written.
      obtain ⟨r, n, hr, hn, -, hforeign⟩ := exists_copy hstep hcopy hget
      have hne : r.queue ≠ t.wrapper.queueName := fun hq => hi ⟨r, hr, hq⟩
      have hmerged := getElem?_mergeRecipients t.wrapper.queueName hget hn
      rw [if_neg (by rw [hforeign hne]; exact hne)] at hmerged
      exact hmerged

/-- With one queue: the copy of the worker differs from the stored message in the recipients of
the worker only. -/
theorem writtenBack_replace (hsingle : t.wrapper.isMultiQueue = false) :
    WrittenBack m t.wrapper.message.releaseQuota.1 t := by
  refine ⟨hcopy.created.trans hstep.created, hcopy.blobHash.trans hstep.blobHash,
    hcopy.length.trans hstep.length, fun _ _ => rfl, ?_⟩
  intro i hi
  have hread : t.read.isMultiQueue t.wrapper.queueName = false := hstep.multi ▸ hsingle
  rw [hstep.single hsingle, Message.releaseQuota_recipients]
  cases hget : t.read.recipients[i]? with
  | none =>
    rw [List.getElem?_eq_none_iff] at hget ⊢
    rw [hcopy.length]
    exact hget
  | some r =>
    have hne : r.queue ≠ t.wrapper.queueName := fun hq => hi ⟨r, hget, hq⟩
    exact hcopy.get_of_not_pending hget (not_pending_of_single hread hget hne)

end

theorem not_owns_of_ne {m : Message Name} {t t' : Task Name} (hstep : InStep m t)
    (hstep' : InStep m t') (hne : t.wrapper.queueName ≠ t'.wrapper.queueName) {i : ℕ}
    (h : t'.Owns i) : ¬ t.Owns i := by
  rintro ⟨r, hr, hqueue⟩
  have hget := hstep.own i ⟨r, hr, hqueue⟩
  have hget' := hstep'.own i h
  obtain ⟨r', hr', hqueue'⟩ := h
  have heq : r = r' := some_inj.1 (by rw [← hr, ← hget, hget', hr'])
  exact hne (by rw [← hqueue, ← hqueue', heq])

theorem InStep.writtenBack {m after : Message Name} {t t' : Task Name} (hstep : InStep m t)
    (hstep' : InStep m t') (hcopy : CopyOf t.wrapper.queueName t.read t.wrapper.message)
    (hne : t.wrapper.queueName ≠ t'.wrapper.queueName) (hback : WrittenBack m after t) :
    InStep after t' := by
  refine ⟨hstep'.created.trans hback.created.symm, hstep'.blobHash.trans hback.blobHash.symm,
    hstep'.length.trans hback.length.symm, hstep'.multi, ?_, ?_⟩
  · intro i hi
    exact (hback.others i (not_owns_of_ne hstep hstep' hne hi)).trans (hstep'.own i hi)
  · intro hsingle
    -- Nothing was pending in the queue of the writer, so it has written what it has read.
    have hread' : t'.read.isMultiQueue t'.wrapper.queueName = false := hstep'.multi ▸ hsingle
    rw [← hstep'.single hsingle]
    apply List.ext_getElem?
    intro i
    by_cases hi : t.Owns i
    · obtain ⟨r, hr, hqueue⟩ := hi
      have hget : m.recipients[i]? = some r := (hstep.own i ⟨r, hr, hqueue⟩).trans hr
      have hget' : t'.read.recipients[i]? = some r := hstep'.single hsingle ▸ hget
      have hdone : r.status.isPending = false :=
        not_pending_of_single hread' hget' (by rw [hqueue]; exact hne)
      rw [hback.own i ⟨r, hr, hqueue⟩, hcopy.get_of_not_pending hr hdone, hget]
    · exact hback.others i hi

/-! ## Event keys -/

theorem mem_set {events : Events Name} {next} {due : ℕ} {q : Name} :
    (due, q) ∈ events.set next ↔ (due, q) ∈ events ∨ (q, due) ∈ next := by
  simp [Events.set]

theorem mem_clearPrev {events : Events Name} {queueName : Name} {prevEvent : Option ℕ} {due : ℕ}
    {q : Name} (h : (due, q) ∈ events) (hne : q ≠ queueName ∨ prevEvent ≠ some due) :
    (due, q) ∈ events.clearPrev queueName prevEvent := by
  cases prevEvent with
  | none => exact h
  | some due' =>
    refine Finset.mem_erase.2 ⟨?_, h⟩
    rintro ⟨⟩
    rcases hne with hne | hne
    · exact hne rfl
    · exact hne rfl

/-! ## Steps -/

omit [DecidableEq Name] in
theorem Entry.setTask_tasks_cases {e : Entry Name} {task task' : ℕ} {t}
    {t' : Task Name} (h : (e.setTask task t).tasks task' = some t') :
    (task' = task ∧ t = some t') ∨ (task' ≠ task ∧ e.tasks task' = some t') :=
  Runs.update_cases h

omit [DecidableEq Name] in
theorem running_of_ended {tasks} {task task' : ℕ} {t' : Task Name}
    (h : Function.update tasks task none task' = some t') : task' ≠ task ∧ tasks task' = some t' :=
  (Runs.update_cases h).resolve_left fun hended => nomatch hended.2

/-- An outcome only changes the copy of the worker. -/
theorem Entry.Sound.withMessage {e : Entry Name} (h : e.Sound) {task : ℕ} {t : Task Name}
    {copy : Message Name} (ht : e.tasks task = some t)
    (hcopy : CopyOf t.wrapper.queueName t.read copy) :
    (e.setTask task (some (t.withMessage copy))).Sound := by
  have hkeep : ∀ task' t', (e.setTask task (some (t.withMessage copy))).tasks task' = some t' →
      ∃ t₀, e.tasks task' = some t₀ ∧ t'.read = t₀.read ∧ t'.prevEvent = t₀.prevEvent ∧
        t'.wrapper.queueName = t₀.wrapper.queueName ∧
        t'.wrapper.isMultiQueue = t₀.wrapper.isMultiQueue ∧
        CopyOf t'.wrapper.queueName t'.read t'.wrapper.message := by
    intro task' t' ht'
    rcases Entry.setTask_tasks_cases ht' with ⟨rfl, hsome⟩ | ⟨-, ht₀⟩
    · cases hsome
      exact ⟨t, ht, rfl, rfl, rfl, rfl, hcopy⟩
    · exact ⟨t', ht₀, rfl, rfl, rfl, rfl, h.copyOf task' t' ht₀⟩
  refine ⟨?_, ?_, ?_, ?_⟩
  · intro task' t' ht'
    obtain ⟨t₀, ht₀, hread, -, hqueue, hmulti, -⟩ := hkeep task' t' ht'
    obtain ⟨m, hm, hstep⟩ := h.stored task' t₀ ht₀
    refine ⟨m, hm, ?_, ?_, ?_, ?_, ?_, ?_⟩
    · rw [hread]
      exact hstep.created
    · rw [hread]
      exact hstep.blobHash
    · rw [hread]
      exact hstep.length
    · rw [hmulti, hread, hqueue]
      exact hstep.multi
    · intro i hi
      unfold Task.Owns at hi
      rw [hread, hqueue] at hi
      rw [hread]
      exact hstep.own i hi
    · intro hsingle
      rw [hmulti] at hsingle
      rw [hread]
      exact hstep.single hsingle
  · intro task' t' ht'
    obtain ⟨-, -, -, -, -, -, hcopy'⟩ := hkeep task' t' ht'
    exact hcopy'
  · intro task₁ task₂ t₁ t₂ ht₁ ht₂ heq
    obtain ⟨t₁', ht₁', -, -, hqueue₁, -, -⟩ := hkeep task₁ t₁ ht₁
    obtain ⟨t₂', ht₂', -, -, hqueue₂, -, -⟩ := hkeep task₂ t₂ ht₂
    exact h.distinct task₁ task₂ t₁' t₂' ht₁' ht₂' (by rw [← hqueue₁, ← hqueue₂, heq])
  · intro m i rcpt hm hget hpending
    obtain ⟨due, hdue, hle, hother⟩ := h.covers m i rcpt hm hget hpending
    refine ⟨due, hdue, hle, ?_⟩
    intro task' t' ht' hqueue'
    obtain ⟨t₀, ht₀, hread, hprev, hqueue, -, -⟩ := hkeep task' t' ht'
    unfold Task.Owns
    rw [hread, hprev, hqueue]
    exact hother task' t₀ ht₀ (hqueue ▸ hqueue')

/-- A worker that starts owns what the message has in its queue. -/
theorem Entry.Sound.startTask {e : Entry Name} (h : e.Sound) {task : ℕ} {queueName : Name}
    {prevEvent : Option ℕ}
    (hnew : ∀ task' t', e.tasks task' = some t' → t'.wrapper.queueName ≠ queueName) :
    (e.startTask task queueName prevEvent).Sound := by
  unfold Entry.startTask readMessage
  cases hm : e.message with
  | none =>
    have hidle : ∀ task' t', e.tasks task' ≠ some t' := by
      intro task' t' ht'
      obtain ⟨m, hm', -⟩ := h.stored task' t' ht'
      rw [hm] at hm'
      cases hm'
    exact ⟨fun task' t' ht' => absurd ht' (hidle task' t'),
      fun task' t' ht' => absurd ht' (hidle task' t'),
      fun task₁ _ t₁ _ ht₁ => absurd ht₁ (hidle task₁ t₁),
      fun m i rcpt hm' => by cases hm'⟩
  | some m =>
    refine ⟨?_, ?_, ?_, ?_⟩
    · intro task' t' ht'
      rcases Entry.setTask_tasks_cases ht' with ⟨-, hsome⟩ | ⟨-, ht₀⟩
      · cases hsome
        exact ⟨m, hm, rfl, rfl, rfl, rfl, fun _ _ => rfl, fun _ => rfl⟩
      · exact h.stored task' t' ht₀
    · intro task' t' ht'
      rcases Entry.setTask_tasks_cases ht' with ⟨-, hsome⟩ | ⟨-, ht₀⟩
      · cases hsome
        exact CopyOf.refl queueName m
      · exact h.copyOf task' t' ht₀
    · intro task₁ task₂ t₁ t₂ ht₁ ht₂ heq
      rcases Entry.setTask_tasks_cases ht₁ with ⟨rfl, hsome₁⟩ | ⟨-, ht₁'⟩
      · cases hsome₁
        rcases Entry.setTask_tasks_cases ht₂ with ⟨rfl, -⟩ | ⟨-, ht₂'⟩
        · rfl
        · cases hnew task₂ t₂ ht₂' heq.symm
      · rcases Entry.setTask_tasks_cases ht₂ with ⟨rfl, hsome₂⟩ | ⟨-, ht₂'⟩
        · cases hsome₂
          cases hnew task₁ t₁ ht₁' heq
        · exact h.distinct task₁ task₂ t₁ t₂ ht₁' ht₂' heq
    · intro m' i rcpt hm' hget hpending
      obtain ⟨due, hdue, hle, hother⟩ := h.covers m' i rcpt hm' hget hpending
      refine ⟨due, hdue, hle, ?_⟩
      intro task' t' ht' hqueue'
      rcases Entry.setTask_tasks_cases ht' with ⟨-, hsome⟩ | ⟨-, ht₀⟩
      · cases hsome
        obtain rfl : m = m' := some_inj.1 (hm.symm.trans hm')
        exact .inl ⟨rcpt, hget, hqueue'.symm⟩
      · exact hother task' t' ht₀ hqueue'

section

variable {e : Entry Name} (h : e.Sound) {task : ℕ} {t : Task Name} (ht : e.tasks task = some t)
  (hsafe : MovesSafely e (.save task))
include h ht hsafe

theorem Entry.Sound.save : ∃ before after, e.message = some before ∧ WrittenBack before after t ∧
      (e.write task saveChanges).1 =
        { message := some after
          events := (e.events.clearPrev t.wrapper.queueName t.prevEvent).set
            t.wrapper.message.nextEvents
          tasks := Function.update e.tasks task none } := by
  obtain ⟨before, hbefore, hstep⟩ := h.stored task t ht
  have hcopy := h.copyOf task t ht
  have hsafe' := hsafe t ht
  unfold Entry.write saveChanges
  rw [ht]
  cases hmulti : t.wrapper.isMultiQueue with
  | true =>
    rw [if_pos hmulti] at hsafe'
    obtain ⟨after, hafter, hback⟩ := writtenBack_merge hstep hcopy hsafe'
    refine ⟨before, after, hbefore, hback, ?_⟩
    simp only [hmulti, hbefore, hafter]
    rfl
  | false =>
    refine ⟨before, _, hbefore, writtenBack_replace hstep hcopy hmulti, ?_⟩
    simp only [hmulti]
    rfl

/-- The event keys after a save: of a recipient of the worker as its copy asks for, of others as
before. -/
theorem covers_of_save {before after : Message Name} (hbefore : e.message = some before)
    (hback : WrittenBack before after t) {i : ℕ} {rcpt}
    (hget : after.recipients[i]? = some rcpt) (hpending : rcpt.status.isPending) :
    Entry.Covers
      { message := some after
        events := (e.events.clearPrev t.wrapper.queueName t.prevEvent).set
          t.wrapper.message.nextEvents
        tasks := Function.update e.tasks task none } after i rcpt := by
  obtain ⟨m, hm, hstep⟩ := h.stored task t ht
  obtain rfl : m = before := some_inj.1 (hm.symm.trans hbefore)
  have hcopy := h.copyOf task t ht
  have hcreated : t.wrapper.message.created = after.created := by
    rw [hcopy.created, hstep.created, hback.created]
  by_cases howns : t.Owns i
  · have hcopied : t.wrapper.message.recipients[i]? = some rcpt :=
      (hback.own i howns).symm.trans hget
    obtain ⟨due, hdue, hle⟩ :=
      nextEvents_covers t.wrapper.message rcpt (List.mem_of_getElem? hcopied) hpending
    rw [hcreated] at hle
    by_cases hbusy : ∃ task' t', task' ≠ task ∧ e.tasks task' = some t' ∧
        t'.wrapper.queueName = rcpt.queue
    · -- The recipient enters a queue whose worker is running: so it was moved there.
      obtain ⟨task', t', hne, ht', hqueue'⟩ := hbusy
      have hnotown : t'.wrapper.queueName ≠ t.wrapper.queueName := fun heq =>
        hne (h.distinct task' task t' t ht' ht heq)
      have honly : ∀ due', t'.prevEvent ≠ some due' → ∀ task₁ t₁,
          Function.update e.tasks task none task₁ = some t₁ →
          t₁.wrapper.queueName = rcpt.queue → t₁.Owns i ∨ t₁.prevEvent ≠ some due' := by
        intro due' hprev task₁ t₁ ht₁ hqueue₁
        obtain ⟨-, ht₁'⟩ := running_of_ended ht₁
        obtain rfl := h.distinct task₁ task' t₁ t' ht₁' ht' (hqueue₁.trans hqueue'.symm)
        obtain rfl : t₁ = t' := some_inj.1 (ht₁'.symm.trans ht')
        exact .inr hprev
      by_cases hprev : t'.prevEvent = some due
      · -- Its first event is the one that worker clears, so there is an earlier one.
        have hearlier : ∃ due' < due, (due', t'.wrapper.queueName) ∈ e.events := by
          have hsafe' := hsafe t ht
          cases hmulti : t.wrapper.isMultiQueue with
          | true =>
            rw [if_pos hmulti] at hsafe'
            cases hnotown (hqueue'.trans (hsafe' i rcpt howns hcopied))
          | false =>
            rw [hmulti] at hsafe'
            refine hsafe' task' t' due hne ht' ?_ hprev
            rw [hqueue']
            exact (mem_nextEvents _ _ _).1 hdue
        obtain ⟨due', hlt, hdue'⟩ := hearlier
        refine ⟨due', mem_set.2 (.inl ?_), by omega, honly due' ?_⟩
        · rw [← hqueue']
          exact mem_clearPrev hdue' (.inl hnotown)
        · intro heq
          rw [hprev] at heq
          cases heq
          cases lt_irrefl _ hlt
      · exact ⟨due, mem_set.2 (.inr hdue), hle, honly due hprev⟩
    · refine ⟨due, mem_set.2 (.inr hdue), hle, ?_⟩
      intro task' t' ht' hqueue'
      obtain ⟨hne, ht''⟩ := running_of_ended ht'
      cases hbusy ⟨task', t', hne, ht'', hqueue'⟩
  · have hkept : m.recipients[i]? = some rcpt := (hback.others i howns).symm.trans hget
    obtain ⟨due, hdue, hle, hother⟩ := h.covers m i rcpt hm hkept hpending
    rw [← show after.created = m.created from hback.created] at hle
    refine ⟨due, mem_set.2 (.inl (mem_clearPrev hdue ?_)), hle, ?_⟩
    · by_cases hqueue : rcpt.queue = t.wrapper.queueName
      · exact .inr ((hother task t ht hqueue.symm).resolve_left howns)
      · exact .inl hqueue
    · intro task' t' ht' hqueue'
      exact hother task' t' (running_of_ended ht').2 hqueue'

theorem Entry.Sound.write : (e.write task saveChanges).1.Sound := by
  obtain ⟨before, after, hbefore, hback, hwrite⟩ := h.save ht hsafe
  obtain ⟨m, hm, hstep⟩ := h.stored task t ht
  obtain rfl : m = before := some_inj.1 (hm.symm.trans hbefore)
  have hcopy := h.copyOf task t ht
  rw [hwrite]
  refine ⟨?_, ?_, ?_, ?_⟩
  · intro task' t' ht'
    obtain ⟨hne, ht₀⟩ := running_of_ended ht'
    obtain ⟨m', hm', hstep'⟩ := h.stored task' t' ht₀
    obtain rfl : m = m' := some_inj.1 (hm.symm.trans hm')
    have hqueue : t.wrapper.queueName ≠ t'.wrapper.queueName := fun heq =>
      hne (h.distinct task' task t' t ht₀ ht heq.symm)
    exact ⟨after, rfl, hstep.writtenBack hstep' hcopy hqueue hback⟩
  · intro task' t' ht'
    exact h.copyOf task' t' (running_of_ended ht').2
  · intro task₁ task₂ t₁ t₂ ht₁ ht₂ heq
    exact h.distinct task₁ task₂ t₁ t₂ (running_of_ended ht₁).2 (running_of_ended ht₂).2 heq
  · intro m' i rcpt hm' hget hpending
    cases hm'
    exact covers_of_save h ht hsafe hbefore hback hget hpending

end

theorem sound_queueMessage {e : Entry Name} (h : e.Sound) (hnone : e.message = none)
    (m : Message Name) (rawLen : ℕ) : (queueMessage m rawLen e).1.Sound := by
  have hidle : ∀ task t, e.tasks task ≠ some t := by
    intro task t ht
    obtain ⟨m', hm', -⟩ := h.stored task t ht
    rw [hnone] at hm'
    cases hm'
  refine ⟨fun task t ht => absurd ht (hidle task t), fun task t ht => absurd ht (hidle task t),
    fun task _ t _ ht => absurd ht (hidle task t), ?_⟩
  intro m' i rcpt hm' hget hpending
  cases hm'
  obtain ⟨due, hdue, hle⟩ := nextEvents_covers _ rcpt (List.mem_of_getElem? hget) hpending
  exact ⟨due, mem_set.2 (.inr hdue), hle, fun task t ht => absurd ht (hidle task t)⟩

omit [DecidableEq Name] in
theorem Entry.edit_eq {e : Entry Name} {task : ℕ} {t : Task Name} (ht : e.tasks task = some t)
    (f : Message Name → Option (Message Name)) :
    e.edit task f =
      (f t.wrapper.message).map (fun m => (e.setTask task (some (t.withMessage m)), [])) := by
  simp [Entry.edit, ht]

theorem sound_edit {e e' : Entry Name} (h : e.Sound) {task : ℕ} {t : Task Name}
    (ht : e.tasks task = some t) {f}
    (hf : ∀ copy, f t.wrapper.message = some copy → CopyOf t.wrapper.queueName t.read copy)
    (hnext : (e.edit task f).map Prod.fst = some e') : e'.Sound := by
  rw [Entry.edit_eq ht, map_map, map_eq_some_iff] at hnext
  obtain ⟨copy, hcopy, rfl⟩ := hnext
  exact h.withMessage ht (hf copy hcopy)

/-- **Step lemma**: the invariant survives every admitted call. -/
theorem sound_next (e : Entry Name) (a : Label Name) (e' : Entry Name) (h : e.Sound)
    (hok : Allowed e a ∧ MovesSafely e a) (hnext : e.next a = some e') : e'.Sound := by
  obtain ⟨hallowed, hsafe⟩ := hok
  cases a with
  | queue m rawLen =>
    cases hnext
    exact sound_queueMessage h hallowed m rawLen
  | read task queueName prevEvent =>
    cases hnext
    exact h.startTask hallowed.2.2
  | expire task now =>
    obtain ⟨t, ht⟩ := hallowed
    have hedit : (e.edit task fun m => some (m.expireRcpts now)).map Prod.fst = some e' := hnext
    refine sound_edit h ht ?_ hedit
    rintro copy ⟨⟩
    exact (h.copyOf task t ht).expireRcpts now
  | setStatus task status rcptIdx strategy now =>
    obtain ⟨t, rcpt, ht, hget, hpending, hqueue⟩ := hallowed
    have hedit : (e.edit task fun m => m.setRcptStatus status rcptIdx strategy now).map Prod.fst =
        some e' := hnext
    refine sound_edit h ht ?_ hedit
    intro copy hcopy
    exact (h.copyOf task t ht).modifyRcpt hget hpending hqueue hcopy
  | setRateLimit task rcptIdx retryAt =>
    obtain ⟨t, rcpt, ht, hget, hpending, hqueue⟩ := hallowed
    have hedit : (e.edit task fun m => m.setRcptRateLimit rcptIdx retryAt).map Prod.fst =
        some e' := hnext
    refine sound_edit h ht ?_ hedit
    intro copy hcopy
    exact (h.copyOf task t ht).modifyRcpt hget hpending hqueue hcopy
  | save task =>
    obtain ⟨t, ht⟩ := hallowed
    cases hnext
    exact h.write ht hsafe
  | remove task => cases not_false hallowed

theorem updatesKept_of_sound (e : Entry Name) (a : Label Name) (h : e.Sound)
    (hok : Allowed e a ∧ MovesSafely e a) : UpdatesKept e a := by
  cases a with
  | save task =>
    intro t ht
    obtain ⟨before, after, hbefore, hback, hwrite⟩ := h.save ht hok.2
    refine ⟨before, after, (e.write task saveChanges).1, hbefore, rfl, ?_, hback.own, hback.others⟩
    rw [hwrite]
  | _ => trivial

/-- **No update is lost, no pending recipient is forgotten**: in every run whose saves move
recipients safely, each save stores what its worker left, and without a running worker each pending
recipient has an event in time. -/
theorem updates_kept_and_covered (calls : List (Label Name))
    (hallowed : Runs.Along Entry.next Allowed (Entry.empty : Entry Name) calls)
    (hsafe : Runs.Along Entry.next MovesSafely (Entry.empty : Entry Name) calls) :
    Runs.Along Entry.next UpdatesKept (Entry.empty : Entry Name) calls ∧
      Runs.Throughout Entry.next (fun e => e.Idle → e.Covered) (Entry.empty : Entry Name)
        calls := by
  have hrun := hallowed.and hsafe
  constructor
  · exact Runs.along_of_invariant sound_next updatesKept_of_sound sound_empty hrun
  · have hsound := Runs.throughout_of_invariant sound_next sound_empty hrun
    exact hsound.mono fun e he _ => he.covered

/-! ## Sample runs -/

/-- A recipient that is due at 10. -/
def sampleRcpt (queue : ℕ) : Recipient ℕ :=
  ⟨['x'], ⟨10, 0⟩, ⟨100, 0⟩, .ttl 1000, queue, .scheduled⟩

/-- Two recipients in two queues. -/
def sampleMessage : Message ℕ := ⟨0, [], [sampleRcpt 1, sampleRcpt 2], 1, []⟩

def sampleStrategy (queue : ℕ) : QueueStrategy ℕ := ⟨[60], .ttl 1000, queue, sampleRetry_ne_nil⟩

def sampleFailure : Status := .temporaryFailure ⟨"mx", .connectionError "timeout"⟩

/-- Two workers at work on two queues at the same time; one tries again later, one delivers. -/
def interleavedRun : List (Label ℕ) :=
  [.queue sampleMessage 1, .read 0 1 (some 10), .read 1 2 (some 10),
    .setStatus 0 sampleFailure 0 (sampleStrategy 1) 20,
    .setStatus 1 (.completed ⟨"mx", 250, (2, 0, 0), "ok"⟩) 1 (sampleStrategy 2) 21,
    .save 0, .save 1]

theorem updates_kept_and_covered_interleaved :
    Runs.Along Entry.next UpdatesKept (Entry.empty : Entry ℕ) interleavedRun ∧
      Runs.Throughout Entry.next (fun e => e.Idle → e.Covered) (Entry.empty : Entry ℕ)
        interleavedRun := by
  apply updates_kept_and_covered
  · refine .cons rfl rfl (.cons ⟨rfl, ⟨10, rfl, by decide⟩, ?_⟩ rfl
      (.cons ⟨rfl, ⟨10, rfl, by decide⟩, ?_⟩ rfl
        (.cons ⟨_, sampleRcpt 1, rfl, rfl, rfl, rfl⟩ rfl
          (.cons ⟨_, sampleRcpt 2, rfl, rfl, rfl, rfl⟩ rfl
            (.cons ⟨_, rfl⟩ rfl (.cons ⟨_, rfl⟩ rfl trivial))))))
    · intro task' t' ht'
      cases ht'
    · intro task' t' ht'
      rcases Entry.setTask_tasks_cases ht' with ⟨-, hsome⟩ | ⟨-, hnone⟩
      · cases hsome
        decide
      · cases hnone
  · refine .cons trivial rfl (.cons trivial rfl (.cons trivial rfl (.cons trivial rfl
      (.cons trivial rfl (.cons ?_ rfl (.cons ?_ rfl trivial))))))
    · rintro t ⟨⟩
      refine (if_pos rfl).mpr ?_
      intro i rcpt howns hget
      match i with
      | 0 =>
        cases hget
        rfl
      | 1 =>
        obtain ⟨r, hr, hqueue⟩ := howns
        cases hr
        cases hqueue
      | n + 2 => cases hget
    · rintro t ⟨⟩
      refine (if_pos rfl).mpr ?_
      intro i rcpt howns hget
      match i with
      | 0 =>
        obtain ⟨r, hr, hqueue⟩ := howns
        cases hr
        cases hqueue
      | 1 =>
        cases hget
        rfl
      | n + 2 => cases hget

/-! ## A lost update -/

/-- The worker of queue 1 moves its recipient to queue 3. -/
def movingRun : List (Label ℕ) :=
  [.queue sampleMessage 1, .read 0 1 (some 10),
    .setStatus 0 sampleFailure 0 (sampleStrategy 3) 20, .save 0]

theorem movingRun_allowed : Runs.Along Entry.next Allowed Entry.empty movingRun := by
  refine .cons rfl rfl (.cons ⟨rfl, ⟨10, rfl, by decide⟩, ?_⟩ rfl
    (.cons ⟨_, sampleRcpt 1, rfl, rfl, rfl, rfl⟩ rfl (.cons ⟨_, rfl⟩ rfl trivial)))
  intro task' t' ht'
  cases ht'

/-- The update of a recipient that moves to another queue is lost, and it is left without an event
key. -/
theorem moved_recipient_lost :
    ¬ (∀ calls : List (Label ℕ), Runs.Along Entry.next Allowed Entry.empty calls →
        Runs.Along Entry.next UpdatesKept Entry.empty calls) ∧
    ¬ (∀ calls : List (Label ℕ), Runs.Along Entry.next Allowed Entry.empty calls →
        Runs.Throughout Entry.next (fun e => e.Idle → e.Covered) Entry.empty calls) := by
  constructor
  · intro h
    have hrun := h movingRun movingRun_allowed
    have hsave := (((hrun.2 _ rfl).2 _ rfl).2 _ rfl).1
    obtain ⟨before, after, e', -, hnext, hafter, hown, -⟩ := hsave _ rfl
    cases hnext
    cases hafter
    have hget := hown 0 ⟨sampleRcpt 1, rfl, rfl⟩
    cases hget
  · intro h
    have hrun := h movingRun movingRun_allowed
    have hlast := (((hrun.2 _ rfl).2 _ rfl).2 _ rfl).2 _ rfl
    have hidle := hlast (by
      intro task
      cases task with
      | zero => rfl
      | succ n => rfl)
    obtain ⟨due, hdue, -⟩ := hidle _ rfl (sampleRcpt 1) (by decide) rfl
    have hevents : ∀ event ∈ ({(80, 3), (10, 2)} : Events ℕ), event.2 ≠ 1 := by decide
    exact hevents (due, 1) hdue rfl

end MailServer.Delivery
