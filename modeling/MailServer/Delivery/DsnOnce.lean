import MailServer.Delivery.DsnInvariant

/-!
# Final outcomes are reported once

Principal results: `reported_once_of_own`; `expired_reported_twice` — a recipient of another queue
that has expired is reported by the worker that comes across it, and again by its own.
-/

namespace MailServer.Delivery

open Function

variable {Name : Type} [DecidableEq Name]

section Steps

variable {s : DsnState Name} {task : ℕ} {t : DsnTask Name}

/-! ## Starting and ending -/

omit [DecidableEq Name] in
theorem inv_empty [DecidableEq Name] : (DsnState.empty : DsnState Name).Inv where
  task _ _ h := by cases h
  distinct _ _ _ _ h := by cases h
  returnPath _ h := by cases h
  readFrom _ _ _ h := by cases h
  gone _ _ _ _ h := by cases h
  storedFinal _ _ _ h := by cases h
  storedPending _ _ _ h := by cases h
  settled _ _ _ _ h := by cases h
  removed _ h := by cases h
  unused _ _ := ⟨fun _ => rfl, rfl⟩

theorem DsnState.Inv.queue (h : s.Inv) {m}
    (hallowed : DsnAllowed s (.queue m)) : (s.next (.queue m)).Inv := by
  obtain ⟨hnone, hremoved, hpath, hfresh⟩ := hallowed
  obtain ⟨htasks, hreports⟩ := h.unused hnone hremoved
  have hno : ∀ task t, s.tasks task ≠ some t := by
    intro task t ht
    rw [htasks task] at ht
    cases ht
  refine ⟨fun task t ht => absurd ht (hno task t), fun task _ t _ ht => absurd ht (hno task t), ?_,
    fun _ task t _ ht => absurd ht (hno task t), fun _ task t _ ht => absurd ht (hno task t),
    ?_, ?_,
    fun task t _ _ ht => absurd ht (hno task t), ?_, ?_⟩
  · rintro _ ⟨⟩
    exact hpath
  · rintro _ i rcpt ⟨⟩ hget hfinal
    rw [(hfresh rcpt (List.mem_of_getElem? hget)).1] at hfinal
    cases hfinal
  · rintro _ i rcpt ⟨⟩ hget -
    refine ⟨(hfresh rcpt (List.mem_of_getElem? hget)).2, fun _ => ?_⟩
    change finals s.reports i = []
    rw [hreports]
    rfl
  · intro m' hm'
    rw [show s.removed = some m' from hm'] at hremoved
    cases hremoved
  · intro hm
    cases hm

/-- A worker reads the message. -/
theorem DsnState.Inv.read (h : s.Inv) {task : ℕ} {queueName : Name}
    (hallowed : DsnAllowed s (.read task queueName)) :
    (s.next (.read task queueName)).Inv := by
  obtain ⟨hfree, hlock⟩ := hallowed
  cases hm : s.message with
  | none =>
    have hsame : s.next (.read task queueName) = s := by
      unfold DsnState.next
      rw [hm]
    rw [hsame]
    exact h
  | some m =>
    have hnext : s.next (.read task queueName) =
        s.setTask task (some (m.newTask queueName)) := by
      unfold DsnState.next
      rw [hm]
    rw [hnext]
    refine ⟨?_, ?_, h.returnPath, ?_, ?_, h.storedFinal, ?_, ?_, h.removed, ?_⟩
    · intro task' u hu
      rcases Runs.update_some_cases hu with ⟨-, rfl⟩ | ⟨-, hu'⟩
      · refine ⟨h.returnPath m hm, rfl, rfl, rfl, fun rcpt hrcpt hfinal => ?_,
          fun i read copy hread hcopy => ?_, rfl⟩
        · obtain ⟨i, hget⟩ := List.mem_iff_getElem?.1 hrcpt
          exact (h.storedFinal m i rcpt hm hget hfinal).1
        · cases hread.symm.trans hcopy
          have hunsent : read.status.isPending → read.flags.dsnSent = false :=
            fun hpending => (h.storedPending m i read hm hread hpending).1
          refine ⟨fun _ => rfl, fun _ => ⟨rfl, rfl⟩, hunsent, fun hpending hsent => ?_⟩
          rw [hunsent hpending] at hsent
          cases hsent
      · exact h.task task' u hu'
    · intro task₁ task₂ u₁ u₂ hu₁ hu₂ heq
      rcases Runs.update_some_cases hu₁ with ⟨rfl, rfl⟩ | ⟨-, hu₁'⟩
      · rcases Runs.update_some_cases hu₂ with ⟨rfl, -⟩ | ⟨-, hu₂'⟩
        · rfl
        · cases hlock task₂ u₂ hu₂' heq.symm
      · rcases Runs.update_some_cases hu₂ with ⟨rfl, rfl⟩ | ⟨-, hu₂'⟩
        · cases hlock task₁ u₁ hu₁' heq
        · exact h.distinct task₁ task₂ u₁ u₂ hu₁' hu₂' heq
    · intro m' task' u hm' hu
      rcases Runs.update_some_cases hu with ⟨-, rfl⟩ | ⟨-, hu'⟩
      · cases hm.symm.trans hm'
        exact ⟨rfl, rfl, fun _ _ hget _ => hget, fun _ => rfl⟩
      · exact h.readFrom m' task' u hm' hu'
    · intro hnone
      rw [show s.message = none from hnone] at hm
      cases hm
    · intro m' i rcpt hm' hget hpending
      obtain ⟨hunsent, hopen⟩ := h.storedPending m' i rcpt hm' hget hpending
      refine ⟨hunsent, fun hall => hopen fun task' u copy hu hwaits hcopy => ?_⟩
      refine hall task' u copy ?_ hwaits hcopy
      have hne : task' ≠ task := by
        rintro rfl
        rw [hfree] at hu
        cases hu
      change update s.tasks task _ task' = some u
      rw [update_of_ne hne]
      exact hu
    · intro task' u i copy hu hcopy hfinal hskipped
      rcases Runs.update_some_cases hu with ⟨-, rfl⟩ | ⟨-, hu'⟩
      · exact (h.storedFinal m i copy hm hcopy hfinal).2
      · exact h.settled task' u i copy hu' hcopy hfinal hskipped
    · intro hnone
      rw [show s.message = none from hnone] at hm
      cases hm

omit [DecidableEq Name] in
theorem tasks_of_ended {u : DsnTask Name} {task task' : ℕ}
    (h : (s.setTask task none).tasks task' = some u) : task' ≠ task ∧ s.tasks task' = some u :=
  (Runs.update_cases h).resolve_left fun hself => nomatch hself.2

theorem DsnState.Inv.not_waits_of_single (h : s.Inv) {m} {task' : ℕ}
    {u : DsnTask Name} {i : ℕ} (hm : s.message = some m) (ht : s.tasks task = some t)
    (hu : s.tasks task' = some u) (hne : task' ≠ task) (hsingle : t.isMultiQueue = false) :
    ¬ u.Waits i := by
  rintro ⟨rcpt, hget, hqueue, hpending⟩
  have hkept := (h.readFrom m task' u hm hu).kept i rcpt hget (.inl hqueue)
  rw [(h.readFrom m task t hm ht).single hsingle] at hkept
  by_cases hsame : rcpt.queue = t.queueName
  · exact hne (h.distinct task' task u t hu ht (hqueue.symm.trans hsame))
  · rw [(h.task task t ht).single hsingle hkept hsame] at hpending
    cases hpending

/-- The message is removed. -/
theorem DsnState.Inv.remove (h : s.Inv) (ht : s.tasks task = some t)
    (hphase : t.phase = .writing true) :
    ({ s.setTask task none with
      message := none, removed := if s.message.isSome then some t.message else s.removed } :
        DsnState Name).Inv := by
  have hinv := h.task task t ht
  have hwriting := hinv.phase
  rw [hphase] at hwriting
  obtain ⟨hhandled, hsingle, hall⟩ := hwriting
  refine ⟨fun task' u hu => h.task task' u (tasks_of_ended hu).2, fun task₁ task₂ u₁ u₂ hu₁ hu₂ =>
    h.distinct task₁ task₂ u₁ u₂ (tasks_of_ended hu₁).2 (tasks_of_ended hu₂).2,
    fun _ hm => (nomatch hm), fun _ _ _ hm => (nomatch hm), ?_, fun _ _ _ hm => (nomatch hm),
    fun _ _ _ hm => (nomatch hm), fun task' u i copy hu => h.settled task' u i copy
      (tasks_of_ended hu).2, ?_, ?_⟩
  · intro _ task' u i hu
    obtain ⟨hne, hu'⟩ := tasks_of_ended hu
    cases hm : s.message with
    | none => exact h.gone hm task' u i hu'
    | some m => exact h.not_waits_of_single hm ht hu' hne hsingle
  · intro m hm
    refine ⟨rfl, ?_⟩
    cases hmessage : s.message with
    | none =>
      rw [hmessage] at hm
      exact (h.removed m hm).2
    | some stored =>
      rw [hmessage] at hm
      cases hm
      intro i rcpt hget
      have hmem := List.mem_of_getElem? hget
      have hfinal := hall rcpt hmem
      exact ⟨hfinal, h.settled task t i rcpt ht hget hfinal (hhandled rcpt hmem hfinal)⟩
  · intro _ hremoved
    cases hmessage : s.message with
    | none =>
      rw [hmessage] at hremoved
      have hnone := (h.unused hmessage hremoved).1 task
      rw [ht] at hnone
      cases hnone
    | some stored =>
      rw [hmessage] at hremoved
      cases hremoved

/-- **A worker writes its copy back**: each recipient is as it was stored, or as the worker has it.
-/
theorem DsnState.Inv.store (h : s.Inv) (ht : s.tasks task = some t)
    (hphase : t.phase = .writing false) {m m'} (hm : s.message = some m)
    (hpath : m'.returnPath ≠ []) (hblob : m'.blobHash = m.blobHash)
    (hlength : m'.recipients.length = m.recipients.length)
    (hget : ∀ i rcpt, m'.recipients[i]? = some rcpt →
      (m.recipients[i]? = some rcpt ∧ (t.Waits i → ∀ copy,
        t.message.recipients[i]? = some copy → copy.flags.dsnSent = false)) ∨
      (t.message.recipients[i]? = some rcpt ∧ ∀ read,
        t.read.recipients[i]? = some read →
          m.recipients[i]? = some read ∧
            (read.status.isPending → read.queue = t.queueName))) :
    ({ s.setTask task none with message := some m' } : DsnState Name).Inv := by
  have hinv := h.task task t ht
  have hwriting := hinv.phase
  rw [hphase] at hwriting
  obtain ⟨hhandled, -⟩ := hwriting
  -- A recipient that another worker relies on is as it was.
  have hkept : ∀ task' u (i : ℕ) (rcpt : FlaggedRecipient Name), task' ≠ task →
      s.tasks task' = some u → m.recipients[i]? = some rcpt →
      (rcpt.queue = u.queueName ∨ rcpt.status.isPending = false) →
      m'.recipients[i]? = some rcpt := by
    intro task' u i rcpt hne hu hrcpt hcase
    have hlt : i < m'.recipients.length := by
      rw [hlength]
      exact (List.getElem?_eq_some_iff.1 hrcpt).1
    have hget' := List.getElem?_eq_getElem hlt
    rcases hget i _ hget' with ⟨hstored, -⟩ | ⟨hcopy, hread⟩
    · rw [hget', ← hstored]
      exact hrcpt
    · obtain ⟨read, hreadget⟩ := hinv.get_read hcopy
      obtain ⟨hmread, hown⟩ := hread read hreadget
      cases hrcpt.symm.trans hmread
      have hfinal : rcpt.status.isPending = false := by
        rcases hcase with hqueue | hfinal
        · by_contra hpending
          have hqueue' := hown (Bool.eq_true_of_not_eq_false hpending)
          exact hne (h.distinct task' task u t hu ht (hqueue.symm.trans hqueue'))
        · exact hfinal
      rw [hget', (hinv.copied i rcpt _ hreadget hcopy).final hfinal]
  refine ⟨fun task' u hu => h.task task' u (tasks_of_ended hu).2, fun task₁ task₂ u₁ u₂ hu₁ hu₂ =>
    h.distinct task₁ task₂ u₁ u₂ (tasks_of_ended hu₁).2 (tasks_of_ended hu₂).2, ?_, ?_,
    fun hnone => (nomatch hnone), ?_, ?_,
    fun task' u i copy hu => h.settled task' u i copy (tasks_of_ended hu).2, ?_,
    fun hnone => (nomatch hnone)⟩
  · rintro _ ⟨⟩
    exact hpath
  · rintro _ task' u ⟨⟩ hu
    obtain ⟨hne, hu'⟩ := tasks_of_ended hu
    have hread := h.readFrom m task' u hm hu'
    refine ⟨hblob.trans hread.blobHash, hlength.trans hread.length, fun i rcpt hrcpt hcase => ?_,
      fun hsingle => ?_⟩
    · exact hkept task' u i rcpt hne hu' (hread.kept i rcpt hrcpt hcase) hcase
    · have hsame := hread.single hsingle
      rw [← hsame]
      refine List.ext_getElem? fun i => ?_
      cases hrcpt : m.recipients[i]? with
      | none =>
        rw [List.getElem?_eq_none_iff] at hrcpt ⊢
        rw [hlength]
        exact hrcpt
      | some rcpt =>
        refine hkept task' u i rcpt hne hu' hrcpt ?_
        by_cases hqueue : rcpt.queue = u.queueName
        · exact .inl hqueue
        · rw [hsame] at hrcpt
          exact .inr ((h.task task' u hu').single hsingle hrcpt hqueue)
  · rintro _ i rcpt ⟨⟩ hrcpt hfinal
    rcases hget i rcpt hrcpt with ⟨hstored, -⟩ | ⟨hcopy, -⟩
    · exact h.storedFinal m i rcpt hm hstored hfinal
    · have hskipped := hhandled rcpt (List.mem_of_getElem? hcopy) hfinal
      exact ⟨hskipped, h.settled task t i rcpt ht hcopy hfinal hskipped⟩
  · rintro _ i rcpt ⟨⟩ hrcpt hpending
    have hothers : (∀ task' u (copy : FlaggedRecipient Name),
        (s.setTask task none).tasks task' = some u → u.Waits i →
          u.message.recipients[i]? = some copy → copy.flags.dsnSent = false) →
        (t.Waits i → ∀ copy, t.message.recipients[i]? = some copy →
          copy.flags.dsnSent = false) →
        ∀ task' u (copy : FlaggedRecipient Name), s.tasks task' = some u → u.Waits i →
          u.message.recipients[i]? = some copy → copy.flags.dsnSent = false := by
      intro hall hself task' u copy hu hwaits hcopy
      by_cases heq : task' = task
      · subst heq
        cases ht.symm.trans hu
        exact hself hwaits copy hcopy
      · refine hall task' u copy ?_ hwaits hcopy
        change update s.tasks task none task' = some u
        rw [update_of_ne heq]
        exact hu
    rcases hget i rcpt hrcpt with ⟨hstored, hself⟩ | ⟨hcopy, hread⟩
    · obtain ⟨hunsent, hopen⟩ := h.storedPending m i rcpt hm hstored hpending
      exact ⟨hunsent, fun hall => hopen (hothers hall hself)⟩
    · obtain ⟨read, hreadget⟩ := hinv.get_read hcopy
      obtain ⟨hmread, -⟩ := hread read hreadget
      have hcopied := hinv.copied i read rcpt hreadget hcopy
      have hunsent := hcopied.unsent hpending
      have hreadpending : read.status.isPending := by
        by_contra hdone
        rw [hcopied.final (Bool.eq_false_of_not_eq_true hdone)] at hpending
        exact hdone hpending
      refine ⟨hunsent, fun hall => ?_⟩
      refine (h.storedPending m i read hm hmread hreadpending).2
        (hothers hall fun _ copy hcopy' => ?_)
      cases hcopy.symm.trans hcopy'
      exact hunsent
  · intro gone hgone
    rw [(h.removed gone hgone).1] at hm
    cases hm

theorem DsnState.Inv.end_gone (h : s.Inv) (hm : s.message = none) (ht : s.tasks task = some t) :
    ({ s.setTask task none with message := none } : DsnState Name).Inv := by
  refine ⟨fun task' u hu => h.task task' u (tasks_of_ended hu).2, fun task₁ task₂ u₁ u₂ hu₁ hu₂ =>
    h.distinct task₁ task₂ u₁ u₂ (tasks_of_ended hu₁).2 (tasks_of_ended hu₂).2,
    fun _ hnone => (nomatch hnone), fun _ _ _ hnone => (nomatch hnone),
    fun _ task' u i hu => h.gone hm task' u i (tasks_of_ended hu).2,
    fun _ _ _ hnone => (nomatch hnone), fun _ _ _ hnone => (nomatch hnone),
    fun task' u i copy hu => h.settled task' u i copy (tasks_of_ended hu).2,
    fun gone hgone => ⟨rfl, (h.removed gone hgone).2⟩, fun _ hremoved => ?_⟩
  have hnone := (h.unused hm hremoved).1 task
  rw [ht] at hnone
  cases hnone

omit [DecidableEq Name] in
/-- Only reading the message starts a worker. -/
theorem tasks_next [DecidableEq Name] {label} (h : s.tasks task = none)
    (hlabel : ∀ queueName, label ≠ .read task queueName) : (s.next label).tasks task = none := by
  have hedit : ∀ task' f, (s.edit task' f).tasks task = none := by
    intro task' f
    unfold DsnState.edit
    cases ht : s.tasks task' with
    | none => exact h
    | some t =>
      have hne : task ≠ task' := by
        rintro rfl
        rw [h] at ht
        cases ht
      exact (update_of_ne hne _ _).trans h
  cases label with
  | queue m => exact h
  | read task' queueName =>
    have hne : task ≠ task' := fun heq => hlabel queueName (by rw [heq])
    unfold DsnState.next
    cases s.message with
    | none => exact h
    | some m => exact (update_of_ne hne _ _).trans h
  | start | limit | route | setStatus | setRateLimit | finish => exact hedit _ _
  | write task' =>
    change (s.write task').tasks task = none
    have hended : update s.tasks task' none task = none := by
      by_cases heq : task = task'
      · rw [heq]
        exact update_self _ _ _
      · rw [update_of_ne heq]
        exact h
    unfold DsnState.write
    cases s.tasks task' with
    | none => exact h
    | some t =>
      dsimp only
      cases t.phase with
      | read | ready | delivering => exact h
      | writing remove =>
        cases remove with
        | true | false => exact hended

theorem tasks_exec (task : ℕ) {s'} {labels}
    (h : s.tasks task = none) (hlabels : ∀ queueName, .read task queueName ∉ labels)
    (hexec : Runs.exec DsnState.step s labels = some s') : s'.tasks task = none := by
  induction labels generalizing s with
  | nil =>
    cases hexec
    exact h
  | cons label labels ih =>
    have hnext : (s.next label).tasks task = none :=
      tasks_next h fun queueName heq => hlabels queueName (by rw [heq]; exact (.head _))
    exact ih hnext (fun queueName hmem => hlabels queueName (.tail _ hmem)) hexec

/-- `save_changes`. -/
theorem DsnState.Inv.save (h : s.Inv) (ht : s.tasks task = some t)
    (hphase : t.phase = .writing false) :
    ({ s.setTask task none with message := t.saved s.message } : DsnState Name).Inv := by
  have hinv := h.task task t ht
  have hwriting := hinv.phase
  rw [hphase] at hwriting
  obtain ⟨-, read, hread, hpending⟩ := hwriting
  cases hm : s.message with
  | none =>
    cases hmulti : t.isMultiQueue with
    | true =>
      have hsaved : t.saved none = none := if_pos hmulti
      rw [hsaved]
      exact h.end_gone hm ht
    | false =>
      -- The worker has something to deliver, so the message cannot be gone.
      obtain ⟨i, hget⟩ := List.mem_iff_getElem?.1 hread
      refine absurd ⟨read, hget, ?_, hpending⟩ (h.gone hm task t i ht)
      by_contra hqueue
      rw [hinv.single hmulti hget hqueue] at hpending
      cases hpending
  | some m =>
    have hreadFrom := h.readFrom m task t hm ht
    cases hmulti : t.isMultiQueue with
    | true =>
      have hfits : m.blobHash = t.message.blobHash ∧
          m.recipients.length = t.message.recipients.length :=
        ⟨hreadFrom.blobHash.trans hinv.blobHash.symm, hreadFrom.length.trans hinv.length.symm⟩
      have hsaved : t.saved (some m) = some { m with
          recipients := mergeFlagged t.queueName m.recipients t.message.recipients } := by
        unfold DsnTask.saved
        rw [if_pos hmulti, Option.map_some, if_pos hfits]
      rw [hsaved]
      refine h.store ht hphase hm (h.returnPath m hm) rfl ?_ fun i rcpt hrcpt => ?_
      · change (List.zipWith _ m.recipients t.message.recipients).length = _
        rw [List.length_zipWith, hfits.2, Nat.min_self]
      · change (List.zipWith _ m.recipients t.message.recipients)[i]? = some rcpt at hrcpt
        rw [List.getElem?_zipWith_eq_some] at hrcpt
        obtain ⟨stored, copy, hstored, hcopy, rfl⟩ := hrcpt
        by_cases hqueue : copy.queue = t.queueName
        · rw [if_pos hqueue]
          refine .inr ⟨hcopy, fun read hread => ?_⟩
          have hown : read.queue = t.queueName := by
            by_contra hne
            rw [((hinv.copied i read copy hread hcopy).foreign hne).1] at hqueue
            exact hne hqueue
          exact ⟨hreadFrom.kept i read hread (.inl hown), fun _ => hown⟩
        · rw [if_neg hqueue]
          refine .inl ⟨hstored, ?_⟩
          rintro ⟨read, hread, -, hpending⟩ copy' hcopy'
          cases hcopy.symm.trans hcopy'
          by_contra hsent
          exact hqueue ((hinv.copied i read copy hread hcopy).marked hpending
            (Bool.eq_true_of_not_eq_false hsent) hmulti)
    | false =>
      have hsaved : t.saved (some m) = some { t.message with
          quotaKeys := t.message.toMessage.releaseQuota.1.quotaKeys } := by
        unfold DsnTask.saved
        rw [hmulti]
        rfl
      have hsingle := hreadFrom.single hmulti
      rw [hsaved]
      refine h.store ht hphase hm hinv.returnPath ?_ ?_ fun i rcpt hrcpt => ?_
      · exact hinv.blobHash.trans hreadFrom.blobHash.symm
      · exact hinv.length.trans hreadFrom.length.symm
      · refine .inr ⟨hrcpt, fun read hread => ⟨?_, fun hpending => ?_⟩⟩
        · rw [hsingle]
          exact hread
        · by_contra hqueue
          rw [hinv.single hmulti hread hqueue] at hpending
          cases hpending

/-- **One step.** -/
theorem DsnState.Inv.next (h : s.Inv) {label} (hallowed : DsnAllowed s label)
    (hown : ReportsOwn s label) : (s.next label).Inv := by
  have hedit : ∀ (task : ℕ) (f : DsnTask Name → DsnTask Name × List (ℕ × DsnAction)),
      (∀ t, s.tasks task = some t →
        ({ s.setTask task (some (f t).1) with reports := s.reports ++ (f t).2 } :
          DsnState Name).Inv) → (s.edit task f).Inv := by
    intro task f hf
    unfold DsnState.edit
    cases ht : s.tasks task with
    | none => exact h
    | some t => exact hf t ht
  cases label with
  | queue m => exact h.queue hallowed
  | read task queueName => exact h.read hallowed
  | start task config now =>
    exact hedit task _ fun t ht => h.start ht config now (hown t ht)
  | limit task retryAt now => exact hedit task _ fun t ht => h.limit ht retryAt now
  | route task now => exact hedit task _ fun t ht => h.route ht now
  | setStatus task status rcptIdx strategy now =>
    exact hedit task _ fun t ht => h.outcome ht rcptIdx (·.setStatus status strategy now)
  | setRateLimit task rcptIdx retryAt =>
    exact hedit task _ fun t ht => h.outcome ht rcptIdx (·.setRateLimit retryAt)
  | finish task config now =>
    exact hedit task _ fun t ht => h.finish ht config now (hown t ht)
  | write task =>
    change (s.write task).Inv
    unfold DsnState.write
    cases ht : s.tasks task with
    | none => exact h
    | some t =>
      dsimp only
      cases hphase : t.phase with
      | read | ready | delivering => exact h
      | writing remove =>
        cases remove with
        | true => exact h.remove ht hphase
        | false => exact h.save ht hphase

theorem DsnState.Inv.reportedOnce (h : s.Inv) : ReportedOnce s := by
  refine ⟨fun m hm i rcpt hget => ?_, fun m hm => (h.removed m hm).2⟩
  have hsettled : ∀ rcpt : FlaggedRecipient Name, Settled s.reports i rcpt →
      (finals s.reports i).length ≤ 1 := by
    intro rcpt hsettled
    rw [hsettled]
    exact Option.length_toList_le
  cases hpending : rcpt.status.isPending with
  | false => exact hsettled rcpt (h.storedFinal m i rcpt hm hget hpending).2
  | true =>
    by_cases hopen : ∀ task t (copy : FlaggedRecipient Name), s.tasks task = some t → t.Waits i →
        t.message.recipients[i]? = some copy → copy.flags.dsnSent = false
    · rw [(h.storedPending m i rcpt hm hget hpending).2 hopen]
      exact Nat.zero_le 1
    · push Not at hopen
      obtain ⟨task, t, copy, ht, -, hcopy, hsent⟩ := hopen
      have hsent' : copy.flags.dsnSent := Bool.eq_true_of_not_eq_false hsent
      refine hsettled copy (h.settled task t i copy ht hcopy ?_ (skipped_of_sent hsent'))
      by_contra hcopypending
      obtain ⟨read, hread⟩ := (h.task task t ht).get_read hcopy
      have hunsent := ((h.task task t ht).copied i read copy hread hcopy).unsent
        (Bool.eq_true_of_not_eq_false hcopypending)
      rw [hunsent] at hsent'
      cases hsent'

end Steps

/-- **Final outcomes are reported once**, before the message is removed, in every run in which no
worker of several queues reports on recipients outside its queue. -/
theorem reported_once_of_own (labels : List (DsnLabel Name))
    (hallowed : Runs.Along DsnState.step DsnAllowed (DsnState.empty : DsnState Name) labels)
    (hown : Runs.Along DsnState.step ReportsOwn (DsnState.empty : DsnState Name) labels) :
    Runs.Throughout DsnState.step ReportedOnce (DsnState.empty : DsnState Name) labels := by
  have hrun : Runs.Throughout DsnState.step DsnState.Inv
    (DsnState.empty : DsnState Name) labels := by
    refine Runs.throughout_of_invariant (fun s label s' hinv hok hstep => ?_) inv_empty
      (hallowed.and hown)
    cases hstep
    exact hinv.next hok.1 hok.2
  exact hrun.mono fun s hinv => hinv.reportedOnce

/-! ## Two queues -/

def asksForAll : RcptFlags := ⟨false, true, true, false, false⟩

/-- A recipient of queue 1 with the given time of notification, and one of queue 2 that expires at
the given time. -/
def twoQueues (notify expires : ℕ) : FlaggedMessage ℕ :=
  ⟨['s', '@', 'y'], 0, [],
    [⟨⟨['a'], ⟨50, 1⟩, ⟨notify, 0⟩, .ttl 1000, 1, .scheduled⟩, asksForAll⟩,
      ⟨⟨['b'], ⟨50, 1⟩, ⟨500, 0⟩, .ttl expires, 2, .scheduled⟩, asksForAll⟩],
    100, []⟩

def noIntervals : FlaggedRecipient ℕ → List ℕ := fun _ => []

def anyStrategy : QueueStrategy ℕ := ⟨[60], .ttl 1000, 1, by decide⟩

/-- Both workers deliver at the same time, and a third one removes the message. -/
def bothDeliver : List (DsnLabel ℕ) :=
  [.queue (twoQueues 500 1000), .read 0 1, .start 0 noIntervals 60, .read 1 2,
    .start 1 noIntervals 60, .route 0 60, .route 1 60,
    .setStatus 0 (.completed ⟨"mx", 250, (2, 0, 0), "ok"⟩) 0 anyStrategy 60,
    .setStatus 1 (.permanentFailure ⟨"mx", .rateLimited⟩) 1 anyStrategy 60,
    .finish 0 noIntervals 61, .write 0, .finish 1 noIntervals 62, .write 1,
    .read 2 1, .start 2 noIntervals 70, .write 2]

theorem bothDeliver_allowed :
    Runs.Along DsnState.step DsnAllowed (DsnState.empty : DsnState ℕ) bothDeliver := by
  refine .cons ⟨rfl, rfl, by decide, by decide⟩ rfl (.cons ⟨rfl, fun _ _ h => nomatch h⟩ rfl
    (.cons trivial rfl (.cons ⟨rfl, ?_⟩ rfl (.cons trivial rfl (.cons trivial rfl (.cons trivial rfl
    (.cons trivial rfl (.cons trivial rfl (.cons trivial rfl (.cons trivial rfl (.cons trivial rfl
    (.cons trivial rfl (.cons ⟨rfl, ?_⟩ rfl (.cons trivial rfl
    (.cons trivial rfl trivial)))))))))))))))
  · intro task' t ht
    by_cases h0 : task' = 0
    · subst h0
      cases ht
      decide
    · have hexec : Runs.exec DsnState.step (DsnState.empty : DsnState ℕ)
          (bothDeliver.take 3) = some _ := rfl
      have hnone := tasks_exec task' rfl (fun _ h => by simp [bothDeliver, h0] at h) hexec
      cases hnone.symm.trans ht
  · intro task' t ht
    by_cases h0 : task' = 0
    · subst h0
      cases ht
    · by_cases h1 : task' = 1
      · subst h1
        cases ht
      · have hexec : Runs.exec DsnState.step (DsnState.empty : DsnState ℕ)
            (bothDeliver.take 13) = some _ := rfl
        have hnone := tasks_exec task' rfl (fun _ h => by simp [bothDeliver, h0, h1] at h) hexec
        cases hnone.symm.trans ht

theorem bothDeliver_own :
    Runs.Along DsnState.step ReportsOwn (DsnState.empty : DsnState ℕ) bothDeliver := by
  refine .cons trivial rfl (.cons trivial rfl (.cons ?_ rfl (.cons trivial rfl (.cons ?_ rfl
    (.cons trivial rfl (.cons trivial rfl (.cons trivial rfl (.cons trivial rfl (.cons ?_ rfl
    (.cons trivial rfl (.cons ?_ rfl (.cons trivial rfl (.cons trivial rfl (.cons ?_ rfl
    (.cons trivial rfl trivial)))))))))))))))
  · rintro t ⟨⟩ - -
    decide
  · rintro t ⟨⟩ - -
    decide
  · rintro t ⟨⟩ -
    decide
  · rintro t ⟨⟩ -
    decide
  · rintro t ⟨⟩ - hmulti
    cases hmulti

theorem reported_once_bothDeliver :
    Runs.Throughout DsnState.step ReportedOnce (DsnState.empty : DsnState ℕ) bothDeliver :=
  reported_once_of_own bothDeliver bothDeliver_allowed bothDeliver_own

/-- The worker of queue 1 comes across the expired recipient of queue 2, and saves its own only. -/
def foreignExpired : List (DsnLabel ℕ) :=
  [.queue (twoQueues 45 40), .read 0 1, .start 0 noIntervals 45, .write 0, .read 1 2,
    .start 1 noIntervals 60]

theorem expired_reported_twice :
    ¬ ∀ labels : List (DsnLabel ℕ),
      Runs.Along DsnState.step DsnAllowed (DsnState.empty : DsnState ℕ) labels →
        Runs.Throughout DsnState.step ReportedOnce (DsnState.empty : DsnState ℕ) labels := by
  intro h
  have hallowed :
      Runs.Along DsnState.step DsnAllowed (DsnState.empty : DsnState ℕ) foreignExpired := by
    refine .cons ⟨rfl, rfl, by decide, by decide⟩ rfl (.cons ⟨rfl, fun _ _ h => nomatch h⟩ rfl
      (.cons trivial rfl (.cons trivial rfl (.cons ⟨rfl, ?_⟩ rfl (.cons trivial rfl trivial)))))
    intro task' t ht
    by_cases h0 : task' = 0
    · subst h0
      cases ht
    · have hexec : Runs.exec DsnState.step (DsnState.empty : DsnState ℕ)
          (foreignExpired.take 4) = some _ := rfl
      have hnone := tasks_exec task' rfl (fun _ h => by simp [foreignExpired, h0] at h) hexec
      cases hnone.symm.trans ht
  have hlast := (h foreignExpired hallowed).last (t := _) rfl
  have htwice : (2 : ℕ) ≤ 1 := hlast.atMostOnce _ rfl 1 _ rfl
  exact absurd htwice (by decide)

end MailServer.Delivery
