import MailServer.Delivery.DsnRun

/-!
# Who reports a recipient

A pending recipient that a worker has read from its own queue is that worker's to report: nobody
else changes it before the worker writes its copy back.  The invariant says of every stored
recipient, and of every copy, how often its outcome was reported.

Principal results: `DsnState.Inv.edit`, `DsnState.Inv.start`, `DsnState.Inv.finish`.
-/

namespace MailServer.Delivery

open List Function

variable {Name : Type} [DecidableEq Name]

/-! ## The invariant -/

/-- A recipient that the worker has to deliver to. -/
def DsnTask.Waits (t : DsnTask Name) (i : ℕ) : Prop :=
  ∃ rcpt : FlaggedRecipient Name, t.read.recipients[i]? = some rcpt ∧ rcpt.queue = t.queueName ∧
    rcpt.status.isPending

/-- What a worker makes of a recipient. -/
structure Copied (queueName : Name) (isMultiQueue : Bool) (read copy : FlaggedRecipient Name) :
    Prop where
  final : read.status.isPending = false → copy = read
  foreign : read.queue ≠ queueName →
    copy.queue = read.queue ∧ copy.status.isPending = read.status.isPending
  unsent : copy.status.isPending → copy.flags.dsnSent = false
  marked : read.status.isPending → copy.flags.dsnSent → isMultiQueue →
    copy.queue = queueName

/-- The final outcomes in the copy are marked, or nobody asks for them. -/
def DsnTask.Handled (t : DsnTask Name) : Prop :=
  ∀ rcpt ∈ t.message.recipients, rcpt.status.isPending = false → rcpt.skipped

def DsnTask.HasWork (t : DsnTask Name) : Prop :=
  ∃ rcpt ∈ t.read.recipients, rcpt.status.isPending

def DsnTask.PhaseInv (t : DsnTask Name) : TaskPhase → Prop
  | .read => t.message = t.read
  | .ready => t.Handled ∧ t.HasWork
  | .delivering rcptIdxs => t.HasWork ∧ ∀ i ∈ rcptIdxs, t.Waits i ∧
      ∀ rcpt : FlaggedRecipient Name, t.message.recipients[i]? = some rcpt →
        rcpt.flags.dsnSent = false
  | .writing true => t.Handled ∧ t.isMultiQueue = false ∧
      ∀ rcpt ∈ t.message.recipients, rcpt.status.isPending = false
  | .writing false => t.Handled ∧ t.HasWork

structure DsnTask.Inv (t : DsnTask Name) : Prop where
  returnPath : t.message.returnPath ≠ []
  blobHash : t.message.blobHash = t.read.blobHash
  length : t.message.recipients.length = t.read.recipients.length
  multi : t.isMultiQueue = t.read.toMessage.isMultiQueue t.queueName
  handled : ∀ rcpt ∈ t.read.recipients, rcpt.status.isPending = false → rcpt.skipped
  copied : ∀ (i : ℕ) (read copy : FlaggedRecipient Name), t.read.recipients[i]? = some read →
    t.message.recipients[i]? = some copy → Copied t.queueName t.isMultiQueue read copy
  phase : t.PhaseInv t.phase

/-- How the stored message relates to what a worker has read. -/
structure ReadFrom (m : FlaggedMessage Name) (queueName : Name) (isMultiQueue : Bool)
    (read : FlaggedMessage Name) : Prop where
  blobHash : m.blobHash = read.blobHash
  length : m.recipients.length = read.recipients.length
  kept : ∀ (i : ℕ) (rcpt : FlaggedRecipient Name), read.recipients[i]? = some rcpt →
    rcpt.queue = queueName ∨ rcpt.status.isPending = false → m.recipients[i]? = some rcpt
  single : isMultiQueue = false → m.recipients = read.recipients

/-- A final outcome is reported as often as it is asked for. -/
def Settled (reports : List (ℕ × DsnAction)) (i : ℕ) (rcpt : FlaggedRecipient Name) : Prop :=
  finals reports i = rcpt.requested.toList

/-- What holds between any two steps. -/
structure DsnState.Inv (s : DsnState Name) : Prop where
  task : ∀ task t, s.tasks task = some t → t.Inv
  distinct : ∀ task task' t t', s.tasks task = some t → s.tasks task' = some t' →
    t.queueName = t'.queueName → task = task'
  returnPath : ∀ m, s.message = some m → m.returnPath ≠ []
  readFrom : ∀ m task t, s.message = some m → s.tasks task = some t →
    ReadFrom m t.queueName t.isMultiQueue t.read
  /-- When the message is gone, nobody has anything to deliver. -/
  gone : s.message = none → ∀ task t i, s.tasks task = some t → ¬ t.Waits i
  storedFinal : ∀ (m : FlaggedMessage Name) (i : ℕ) (rcpt : FlaggedRecipient Name),
    s.message = some m → m.recipients[i]? = some rcpt → rcpt.status.isPending = false →
      rcpt.skipped ∧ Settled s.reports i rcpt
  storedPending : ∀ (m : FlaggedMessage Name) (i : ℕ) (rcpt : FlaggedRecipient Name),
    s.message = some m → m.recipients[i]? = some rcpt → rcpt.status.isPending →
      rcpt.flags.dsnSent = false ∧
      ((∀ task t (copy : FlaggedRecipient Name), s.tasks task = some t → t.Waits i →
        t.message.recipients[i]? = some copy → copy.flags.dsnSent = false) →
        finals s.reports i = [])
  settled : ∀ task t (i : ℕ) (copy : FlaggedRecipient Name), s.tasks task = some t →
    t.message.recipients[i]? = some copy → copy.status.isPending = false → copy.skipped →
      Settled s.reports i copy
  removed : ∀ m : FlaggedMessage Name, s.removed = some m → s.message = none ∧
    ∀ (i : ℕ) (rcpt : FlaggedRecipient Name), m.recipients[i]? = some rcpt →
      rcpt.status.isPending = false ∧ Settled s.reports i rcpt
  unused : s.message = none → s.removed = none →
    (∀ task, s.tasks task = none) ∧ s.reports = []

variable {m : FlaggedMessage Name}

section Invariant

variable {s : DsnState Name} {task : ℕ} {t : DsnTask Name} {i : ℕ}

omit [DecidableEq Name] in
theorem DsnTask.Waits.congr {t' : DsnTask Name} (hread : t'.read = t.read)
    (hqueue : t'.queueName = t.queueName) : t'.Waits i ↔ t.Waits i := by
  unfold DsnTask.Waits
  rw [hread, hqueue]

theorem DsnTask.Inv.single (h : t.Inv) (hsingle : t.isMultiQueue = false) {i : ℕ}
    {rcpt} (hget : t.read.recipients[i]? = some rcpt)
    (hqueue : rcpt.queue ≠ t.queueName) : rcpt.status.isPending = false := by
  rw [h.multi] at hsingle
  unfold Message.isMultiQueue at hsingle
  rw [any_eq_false] at hsingle
  have hrcpt := hsingle rcpt.toRecipient (mem_map_of_mem (mem_of_getElem? hget))
  by_contra hpending
  exact hrcpt (by simp [hqueue, Bool.eq_true_of_not_eq_false hpending])

theorem DsnTask.Inv.exists_foreign (h : t.Inv) (hmulti : t.isMultiQueue) :
    ∃ rcpt ∈ t.read.recipients, rcpt.status.isPending ∧ rcpt.queue ≠ t.queueName := by
  rw [h.multi] at hmulti
  unfold Message.isMultiQueue at hmulti
  rw [any_eq_true] at hmulti
  obtain ⟨rcpt', hmem, hforeign⟩ := hmulti
  obtain ⟨rcpt, hrcpt, rfl⟩ := mem_map.1 hmem
  obtain ⟨hpending, hqueue⟩ := Bool.and_eq_true_iff.1 hforeign
  exact ⟨rcpt, hrcpt, hpending, of_decide_eq_true hqueue⟩

omit [DecidableEq Name] in
theorem DsnTask.Inv.get_read [DecidableEq Name] (h : t.Inv) {copy}
    (hget : t.message.recipients[i]? = some copy) :
    ∃ read, t.read.recipients[i]? = some read := by
  obtain ⟨hlt, -⟩ := List.getElem?_eq_some_iff.1 hget
  rw [h.length] at hlt
  exact ⟨_, getElem?_eq_getElem hlt⟩

theorem DsnTask.Inv.waits_of_final (h : t.Inv) {read copy}
    (hread : t.read.recipients[i]? = some read) (hcopy : t.message.recipients[i]? = some copy)
    (hpending : read.status.isPending) (hfinal : copy.status.isPending = false) :
    t.Waits i := by
  refine ⟨read, hread, ?_, hpending⟩
  by_contra hqueue
  have hsame := ((h.copied i read copy hread hcopy).foreign hqueue).2
  rw [hpending, hfinal] at hsame
  cases hsame

theorem DsnState.Inv.eq_of_waits (h : s.Inv) {task' : ℕ}
    {t' : DsnTask Name} (hm : s.message = some m) (ht : s.tasks task = some t)
    (ht' : s.tasks task' = some t') (hwaits : t.Waits i) (hwaits' : t'.Waits i) :
    task = task' := by
  obtain ⟨rcpt, hget, hqueue, -⟩ := hwaits
  obtain ⟨rcpt', hget', hqueue', -⟩ := hwaits'
  have hkept := (h.readFrom m task t hm ht).kept i rcpt hget (.inl hqueue)
  have hkept' := (h.readFrom m task' t' hm ht').kept i rcpt' hget' (.inl hqueue')
  cases hkept.symm.trans hkept'
  exact h.distinct task task' t t' ht ht' (hqueue.symm.trans hqueue')

theorem DsnState.Inv.finals_eq_nil (h : s.Inv) (ht : s.tasks task = some t) (hwaits : t.Waits i)
    {copy} (hcopy : t.message.recipients[i]? = some copy)
    (hunsent : copy.flags.dsnSent = false) : finals s.reports i = [] := by
  cases hm : s.message with
  | none => cases h.gone hm task t i ht hwaits
  | some m =>
    obtain ⟨rcpt, hget, hqueue, hpending⟩ := id hwaits
    have hkept := (h.readFrom m task t hm ht).kept i rcpt hget (.inl hqueue)
    refine (h.storedPending m i rcpt hm hkept hpending).2
      fun task' t' copy' ht' hwaits' hcopy' => ?_
    obtain rfl := h.eq_of_waits hm ht ht' hwaits hwaits'
    cases ht.symm.trans ht'
    cases hcopy.symm.trans hcopy'
    exact hunsent

/-- What a worker does to its copy of a recipient: nothing new, an outcome that nobody asks for, or
one that it marks. -/
inductive RcptStep (waits : Prop) (said : List DsnAction) (copy copy' : FlaggedRecipient Name) :
    Prop where
  | quiet (hsaid : said = []) (hsent : copy'.flags.dsnSent = copy.flags.dsnSent)
      (hclosed : copy'.status.isPending = false → copy'.skipped →
        (copy.status.isPending = false ∧ copy.skipped ∧
          copy'.requested = copy.requested) ∨
        (waits ∧ copy.flags.dsnSent = false ∧ copy'.requested = none))
  | said (hwaits : waits) (hunsent : copy.flags.dsnSent = false)
      (hsent : copy'.flags.dsnSent) (hsaid : said = copy'.requested.toList)

/-- **A worker goes on.** -/
theorem DsnState.Inv.edit (h : s.Inv) (ht : s.tasks task = some t) {t' : DsnTask Name}
    {entries} (hqueue : t'.queueName = t.queueName)
    (hmulti : t'.isMultiQueue = t.isMultiQueue) (hread : t'.read = t.read) (hinv : t'.Inv)
    (hentries : ∀ i, t.message.recipients[i]? = none → finals entries i = [])
    (hstep : ∀ i copy copy', t.message.recipients[i]? = some copy →
      t'.message.recipients[i]? = some copy' →
        RcptStep (t.Waits i) (finals entries i) copy copy') :
    ({ s.setTask task (some t') with reports := s.reports ++ entries } : DsnState Name).Inv := by
  -- The same worker, as far as what it has read goes.
  have hold : ∀ task' u, update s.tasks task (some t') task' = some u →
      ∃ v, s.tasks task' = some v ∧ v.queueName = u.queueName ∧
        v.isMultiQueue = u.isMultiQueue ∧ v.read = u.read := by
    intro task' u hu
    rcases Runs.update_some_cases hu with ⟨rfl, rfl⟩ | ⟨-, hu'⟩
    · exact ⟨t, ht, hqueue.symm, hmulti.symm, hread.symm⟩
    · exact ⟨u, hu', rfl, rfl, rfl⟩
  have hlength : t'.message.recipients.length = t.message.recipients.length := by
    rw [hinv.length, hread, (h.task task t ht).length]
  have hedited : ∀ {i : ℕ} {copy : FlaggedRecipient Name}, t.message.recipients[i]? = some copy →
      ∃ copy', t'.message.recipients[i]? = some copy' := by
    intro i copy hcopy
    have hlt := (List.getElem?_eq_some_iff.1 hcopy).1
    exact ⟨_, getElem?_eq_getElem (hlength ▸ hlt)⟩
  -- Reports are about the worker's own recipients.
  have hsame : ∀ i, ¬ t.Waits i → finals (s.reports ++ entries) i = finals s.reports i := by
    intro i hnot
    rw [finals_append]
    cases hcopy : t.message.recipients[i]? with
    | none => rw [hentries i hcopy, append_nil]
    | some copy =>
      obtain ⟨copy', hcopy'⟩ := hedited hcopy
      cases hstep i copy copy' hcopy hcopy' with
      | quiet hsaid hsent hclosed => rw [hsaid, append_nil]
      | said hwaits hunsent hsent hsaid => cases hnot hwaits
  refine ⟨?_, ?_, h.returnPath, ?_, ?_, ?_, ?_, ?_, ?_, ?_⟩
  · intro task' u hu
    rcases Runs.update_some_cases hu with ⟨-, rfl⟩ | ⟨-, hu'⟩
    · exact hinv
    · exact h.task task' u hu'
  · intro task₁ task₂ u₁ u₂ hu₁ hu₂ heq
    obtain ⟨v₁, hv₁, hq₁, -⟩ := hold task₁ u₁ hu₁
    obtain ⟨v₂, hv₂, hq₂, -⟩ := hold task₂ u₂ hu₂
    exact h.distinct task₁ task₂ v₁ v₂ hv₁ hv₂ (by rw [hq₁, hq₂, heq])
  · intro m task' u hm hu
    obtain ⟨v, hv, hq, hmu, hr⟩ := hold task' u hu
    rw [← hq, ← hmu, ← hr]
    exact h.readFrom m task' v hm hv
  · intro hm task' u i hu
    obtain ⟨v, hv, hq, -, hr⟩ := hold task' u hu
    rw [← DsnTask.Waits.congr hr hq]
    exact h.gone hm task' v i hv
  · intro m i rcpt hm hget hfinal
    obtain ⟨hskipped, hsettled⟩ := h.storedFinal m i rcpt hm hget hfinal
    refine ⟨hskipped, ?_⟩
    have hnot : ¬ t.Waits i := by
      rintro ⟨read, hget', hq, hpending⟩
      have hkept := (h.readFrom m task t hm ht).kept i read hget' (.inl hq)
      cases hget.symm.trans hkept
      rw [hpending] at hfinal
      cases hfinal
    unfold Settled
    rw [hsame i hnot]
    exact hsettled
  · intro m i rcpt hm hget hpending
    obtain ⟨hunsent, hopen⟩ := h.storedPending m i rcpt hm hget hpending
    refine ⟨hunsent, fun hall => ?_⟩
    have hquiet : finals entries i = [] := by
      cases hcopy : t.message.recipients[i]? with
      | none => exact hentries i hcopy
      | some copy =>
        obtain ⟨copy', hget'⟩ := hedited hcopy
        cases hstep i copy _ hcopy hget' with
        | quiet hsaid hsent hclosed => exact hsaid
        | said hwaits hunsent hsent hsaid =>
          have hnot := hall task t' _ (update_self _ _ _)
            ((DsnTask.Waits.congr hread hqueue).2 hwaits) hget'
          rw [hsent] at hnot
          cases hnot
    change finals (s.reports ++ entries) i = []
    rw [finals_append, hquiet, append_nil]
    refine hopen fun task' u copy hu hwaits hcopy => ?_
    by_cases heq : task' = task
    · subst heq
      cases ht.symm.trans hu
      obtain ⟨copy', hget'⟩ := hedited hcopy
      have hnot := hall task' t' _ (update_self _ _ _)
        ((DsnTask.Waits.congr hread hqueue).2 hwaits) hget'
      cases hstep i copy _ hcopy hget' with
      | quiet hsaid hsent hclosed => rw [← hsent, hnot]
      | said hwaits hunsent hsent hsaid => exact hunsent
    · exact hall task' u copy (by
        change update s.tasks task (some t') task' = some u
        rw [update_of_ne heq]
        exact hu) hwaits hcopy
  · intro task' u i copy' hu hcopy' hfinal hskipped
    rcases Runs.update_some_cases hu with ⟨-, rfl⟩ | ⟨hne, hu'⟩
    · have hlt : i < t.message.recipients.length := by
        rw [← hlength]
        exact (List.getElem?_eq_some_iff.1 hcopy').1
      have hget := getElem?_eq_getElem hlt
      change finals (s.reports ++ entries) i = _
      rw [finals_append]
      cases hstep i _ copy' hget hcopy' with
      | quiet hsaid hsent hclosed =>
        rw [hsaid, append_nil]
        rcases hclosed hfinal hskipped with ⟨hfinal', hskipped', hrequested⟩ |
          ⟨hwaits, hunsent, hnone⟩
        · rw [hrequested]
          exact h.settled task t i _ ht hget hfinal' hskipped'
        · rw [hnone, h.finals_eq_nil ht hwaits hget hunsent]
          rfl
      | said hwaits hunsent hsent hsaid =>
        rw [h.finals_eq_nil ht hwaits hget hunsent, hsaid, nil_append]
    · have hsettled := h.settled task' u i copy' hu' hcopy' hfinal hskipped
      unfold Settled
      rw [hsame i ?_]
      · exact hsettled
      intro hwaits
      cases hm : s.message with
      | none => exact h.gone hm task t i ht hwaits
      | some m =>
        obtain ⟨read, hget⟩ := (h.task task' u hu').get_read hcopy'
        cases hpending : read.status.isPending with
        | false =>
          obtain ⟨rcpt, hget', hq, hpending'⟩ := hwaits
          have hkept := (h.readFrom m task' u hm hu').kept i read hget (.inr hpending)
          have hkept' := (h.readFrom m task t hm ht).kept i rcpt hget' (.inl hq)
          cases hkept.symm.trans hkept'
          rw [hpending] at hpending'
          cases hpending'
        | true =>
          have hwaits' := (h.task task' u hu').waits_of_final hget hcopy' hpending hfinal
          exact hne (h.eq_of_waits hm hu' ht hwaits' hwaits)
  · intro m hm
    obtain ⟨hnone, hall⟩ := h.removed m hm
    refine ⟨hnone, fun i rcpt hget => ?_⟩
    obtain ⟨hfinal, hsettled⟩ := hall i rcpt hget
    refine ⟨hfinal, ?_⟩
    unfold Settled
    rw [hsame i (h.gone hnone task t i ht)]
    exact hsettled
  · intro hm hr
    have hnone := (h.unused hm hr).1 task
    rw [ht] at hnone
    cases hnone

end Invariant

/-! ## One step -/

section Steps

variable {s : DsnState Name} {task : ℕ} {t : DsnTask Name}

omit [DecidableEq Name] in
theorem rcptStep_markSent {waits : Prop} {rcpt : FlaggedRecipient Name}
    (hfinal : rcpt.status.isPending = false) (hunsent : rcpt.flags.dsnSent = false)
    (hwaits : waits) (copy : FlaggedRecipient Name) (hcopy : copy.flags.dsnSent = false) :
    RcptStep waits (if rcpt.skipped then none else rcpt.requested).toList copy
      rcpt.markSent := by
  by_cases hskipped : rcpt.skipped
  · rw [if_pos hskipped, markSent_of_skipped hskipped]
    refine .quiet rfl (hunsent.trans hcopy.symm) fun _ _ => .inr ⟨hwaits, hcopy, ?_⟩
    exact requested_of_unsent hskipped hunsent
  · rw [if_neg hskipped, markSent_of_final (Bool.eq_false_of_not_eq_true hskipped) hfinal]
    exact .said hwaits hcopy rfl rfl

/-- With several queues, what waits in another queue has not run out of time. -/
def DsnTask.ForeignInTime (t : DsnTask Name) (now : ℕ) : Prop :=
  t.isMultiQueue → ∀ rcpt ∈ t.message.recipients, rcpt.queue ≠ t.queueName →
    rcpt.status.isPending → rcpt.isExpired t.message.created now = false

/-- What the first part of `deliver_task` makes of a recipient. -/
theorem started_cases (h : t.Inv) (hphase : t.phase = .read)
    (config : FlaggedRecipient Name → List ℕ) (now : ℕ)
    (hown : t.ForeignInTime now) {i : ℕ}
    {rcpt : FlaggedRecipient Name} (hget : t.message.recipients[i]? = some rcpt) :
    (rcpt.status.isPending = false ∧ rcpt.skipped ∧
      t.message.started config now rcpt = rcpt) ∨
    (rcpt.waits t.message.created now ∧
      (t.message.started config now rcpt).status = rcpt.status ∧
      (t.message.started config now rcpt).flags = rcpt.flags ∧
      (t.message.started config now rcpt).queue = rcpt.queue) ∨
    (t.Waits i ∧ rcpt.flags.dsnSent = false ∧
      (rcpt.expire t.message.created now).status.isPending = false ∧
      t.message.started config now rcpt = (rcpt.expire t.message.created now).markSent) := by
  have hsame : t.message = t.read := by
    have hinv := h.phase
    rw [hphase] at hinv
    exact hinv
  have hread : t.read.recipients[i]? = some rcpt := by
    rw [← hsame]
    exact hget
  have hcopied := h.copied i rcpt rcpt hread hget
  cases hpending : rcpt.status.isPending with
  | false =>
    have hskipped := h.handled rcpt (mem_of_getElem? hread) hpending
    refine .inl ⟨rfl, hskipped, ?_⟩
    unfold FlaggedMessage.started
    rw [expire_of_final hpending, notified_of_final hpending, markSent_of_skipped hskipped]
  | true =>
    cases hwaits : rcpt.waits t.message.created now with
    | true =>
      refine .inr (.inl ⟨rfl, ?_⟩)
      unfold FlaggedMessage.started
      rw [expire_of_waits hwaits]
      exact notified_of_pending hpending
    | false =>
      have hfinal : (rcpt.expire t.message.created now).status.isPending = false := by
        rw [isPending_expire, hwaits]
      refine .inr (.inr ⟨⟨rcpt, hread, ?_, hpending⟩, hcopied.unsent hpending, hfinal, ?_⟩)
      · by_contra hqueue
        cases hmulti : t.isMultiQueue with
        | false =>
          rw [h.single hmulti hread hqueue] at hpending
          cases hpending
        | true =>
          have hnot := hown hmulti rcpt (mem_of_getElem? hget) hqueue hpending
          unfold FlaggedRecipient.waits at hwaits
          rw [hpending, hnot] at hwaits
          cases hwaits
      · exact notified_of_final hfinal

/-- The first part of `deliver_task`, whatever follows. -/
theorem started_inv (h : t.Inv) (hphase : t.phase = .read)
    (config : FlaggedRecipient Name → List ℕ) (now : ℕ)
    (hown : t.ForeignInTime now)
    (i : ℕ) (copy : FlaggedRecipient Name) (hget : t.message.recipients[i]? = some copy) :
    Copied t.queueName t.isMultiQueue copy (t.message.started config now copy) ∧
      RcptStep (t.Waits i) (finals ((t.message.expireRcpts now).dsnEntries now) i) copy
        (t.message.started config now copy) ∧
      ((t.message.started config now copy).status.isPending = false →
        (t.message.started config now copy).skipped) := by
  have hsaid : finals ((t.message.expireRcpts now).dsnEntries now) i =
      (if (copy.expire t.message.created now).skipped then none
        else (copy.expire t.message.created now).requested).toList := by
    rw [finals_dsnEntries]
    unfold FlaggedMessage.expireRcpts
    rw [getElem?_mapRcpts, hget]
    rfl
  rw [hsaid]
  rcases started_cases h hphase config now hown hget with ⟨hfinal, hskipped, hsame⟩ |
    ⟨hwaits, hstatus, hflags, hqueue⟩ | ⟨hwaits, hunsent, hfinal, hmarked⟩
  · rw [hsame, expire_of_final hfinal, if_pos hskipped]
    refine ⟨⟨fun _ => rfl, fun _ => ⟨rfl, rfl⟩, fun hpending => ?_, fun hpending => ?_⟩,
      .quiet rfl rfl fun _ _ => .inl ⟨hfinal, hskipped, rfl⟩, fun _ => hskipped⟩
    · rw [hfinal] at hpending
      cases hpending
    · rw [hfinal] at hpending
      cases hpending
  · have hpending := (Bool.and_eq_true_iff.1 hwaits).1
    have hunsent : copy.flags.dsnSent = false := by
      have hsame : t.message = t.read := by
        have hinv := h.phase
        rw [hphase] at hinv
        exact hinv
      exact (h.copied i copy copy (by rw [← hsame]; exact hget) hget).unsent hpending
    have hpending' : (t.message.started config now copy).status.isPending := by
      rw [hstatus]
      exact hpending
    have hnone : (if copy.skipped then none else copy.requested) = none := by
      rw [requested_of_pending hpending, ite_self]
    rw [expire_of_waits hwaits, hnone]
    refine ⟨⟨fun hfinal => ?_, fun _ => ⟨hqueue, by rw [hstatus]⟩, fun _ => by rw [hflags, hunsent],
      fun _ hsent => ?_⟩, .quiet rfl (by rw [hflags]) fun hfinal => ?_, fun hfinal => ?_⟩
    · rw [hpending] at hfinal
      cases hfinal
    · rw [hflags, hunsent] at hsent
      cases hsent
    · rw [hpending'] at hfinal
      cases hfinal
    · rw [hpending'] at hfinal
      cases hfinal
  · obtain ⟨rcpt, hget', hqueue', hpending⟩ := id hwaits
    have hsame : t.message = t.read := by
      have hinv := h.phase
      rw [hphase] at hinv
      exact hinv
    rw [← hsame, hget] at hget'
    cases hget'
    have hqueue : (copy.expire t.message.created now).markSent.queue = t.queueName := by
      rw [markSent_queue, expire_queue]
      exact hqueue'
    have hfinal' : (copy.expire t.message.created now).markSent.status.isPending = false := by
      rw [markSent_status]
      exact hfinal
    rw [hmarked]
    refine ⟨⟨fun hdone => ?_, fun hne => absurd hqueue' hne, fun hpending' => ?_,
      fun _ _ _ => hqueue⟩, ?_, fun _ => skipped_markSent hfinal⟩
    · rw [hpending] at hdone
      cases hdone
    · rw [hfinal'] at hpending'
      cases hpending'
    · exact rcptStep_markSent hfinal (by rw [expire_flags]; exact hunsent) hwaits copy hunsent

theorem DsnState.Inv.edit_map (h : s.Inv) (ht : s.tasks task = some t)
    (f : FlaggedRecipient Name → FlaggedRecipient Name) (phase : TaskPhase)
    (entries : List (ℕ × DsnAction))
    (hcopied : ∀ (i : ℕ) read copy, t.read.recipients[i]? = some read →
      t.message.recipients[i]? = some copy → Copied t.queueName t.isMultiQueue read (f copy))
    (hphase : ({ t with message := t.message.mapRcpts f, phase := phase } :
      DsnTask Name).PhaseInv phase)
    (hentries : ∀ i, t.message.recipients[i]? = none → finals entries i = [])
    (hstep : ∀ i (copy : FlaggedRecipient Name), t.message.recipients[i]? = some copy →
      RcptStep (t.Waits i) (finals entries i) copy (f copy)) :
    ({ s.setTask task (some { t with message := t.message.mapRcpts f, phase := phase }) with
      reports := s.reports ++ entries } : DsnState Name).Inv := by
  have hinv := h.task task t ht
  refine h.edit ht rfl rfl rfl ⟨hinv.returnPath, hinv.blobHash, ?_, hinv.multi, hinv.handled, ?_,
    hphase⟩ hentries ?_
  · exact (length_map _).trans hinv.length
  · intro i read copy' hread hcopy'
    change (t.message.mapRcpts f).recipients[i]? = some copy' at hcopy'
    rw [getElem?_mapRcpts] at hcopy'
    obtain ⟨copy, hcopy, rfl⟩ := Option.map_eq_some_iff.1 hcopy'
    exact hcopied i read copy hread hcopy
  · intro i copy copy' hcopy hcopy'
    change (t.message.mapRcpts f).recipients[i]? = some copy' at hcopy'
    rw [getElem?_mapRcpts, hcopy] at hcopy'
    cases hcopy'
    exact hstep i copy hcopy

omit [DecidableEq Name] in
theorem rcptStep_same {waits : Prop} {copy copy' : FlaggedRecipient Name}
    (hflags : copy'.flags = copy.flags)
    (hstatus : copy'.status.isPending = copy.status.isPending)
    (hfinal : copy.status.isPending = false → copy' = copy) : RcptStep waits [] copy copy' := by
  refine .quiet rfl (by rw [hflags]) fun hfinal' hskipped => ?_
  rw [hstatus] at hfinal'
  obtain rfl := hfinal hfinal'
  exact .inl ⟨hfinal', hskipped, rfl⟩

theorem DsnState.Inv.edit_self (h : s.Inv) (ht : s.tasks task = some t) :
    ({ s.setTask task (some t) with reports := s.reports ++ [] } : DsnState Name).Inv := by
  refine h.edit ht rfl rfl rfl (h.task task t ht) (fun _ _ => rfl)
    fun i copy copy' hcopy hcopy' => ?_
  cases hcopy.symm.trans hcopy'
  exact rcptStep_same rfl rfl fun _ => rfl

omit [DecidableEq Name] in
theorem Copied.keep {queueName : Name} {isMultiQueue : Bool}
    {read copy copy'} (h : Copied queueName isMultiQueue read copy)
    (hflags : copy'.flags = copy.flags) (hqueue : copy'.queue = copy.queue)
    (hstatus : copy'.status.isPending = copy.status.isPending)
    (hfinal : copy.status.isPending = false → copy' = copy) :
    Copied queueName isMultiQueue read copy' where
  final hread := by
    have hcopy := h.final hread
    rw [hfinal (by rw [hcopy]; exact hread)]
    exact hcopy
  foreign hne := by
    rw [hqueue, hstatus]
    exact h.foreign hne
  unsent hpending := by
    rw [hflags]
    exact h.unsent (by rw [← hstatus]; exact hpending)
  marked hpending hsent hmulti := by
    rw [hqueue]
    exact h.marked hpending (by rw [← hflags]; exact hsent) hmulti

theorem turn_eq_remove {queueName : Name} {now : ℕ}
    {pending : PendingDelivery} : m.turn queueName now pending = .remove ↔ pending = .no := by
  cases pending with
  | no => exact iff_of_true rfl rfl
  | yes matchesQueue =>
    refine iff_of_false ?_ (fun h => by cases h)
    cases matchesQueue with
    | false => exact fun h => by cases h
    | true =>
      unfold FlaggedMessage.turn
      split_ifs
      · exact fun h => by cases h
      · exact fun h => by cases h

theorem pendingDelivery_eq_no {queueName : Name} :
    m.pendingDelivery queueName = .no ↔
      ∀ rcpt ∈ m.recipients, rcpt.status.isPending = false := by
  unfold FlaggedMessage.pendingDelivery
  by_cases hany : m.recipients.any (·.status.isPending)
  · rw [if_pos hany]
    refine iff_of_false (fun h => by cases h) fun hall => ?_
    obtain ⟨rcpt, hmem, hpending⟩ := any_eq_true.1 hany
    rw [hall rcpt hmem] at hpending
    cases hpending
  · rw [if_neg hany]
    refine iff_of_true rfl fun rcpt hmem => ?_
    by_contra hpending
    exact hany (any_eq_true.2 ⟨rcpt, hmem, Bool.eq_true_of_not_eq_false hpending⟩)

theorem handled_started (h : t.Inv) (hphase : t.phase = .read)
    (config : FlaggedRecipient Name → List ℕ) (now : ℕ)
    (hown : t.ForeignInTime now) :
    ∀ rcpt ∈ (t.message.mapRcpts (t.message.started config now)).recipients,
      rcpt.status.isPending = false → rcpt.skipped := by
  intro rcpt' hmem hfinal
  obtain ⟨rcpt, hrcpt, rfl⟩ := mem_map.1 hmem
  obtain ⟨i, hget⟩ := mem_iff_getElem?.1 hrcpt
  exact (started_inv h hphase config now hown i rcpt hget).2.2 hfinal

/-- `deliver_task` up to the first decision. -/
theorem DsnState.Inv.start (h : s.Inv) (ht : s.tasks task = some t)
    (config : FlaggedRecipient Name → List ℕ) (now : ℕ)
    (hown : t.phase = .read → t.ForeignInTime now) :
    ({ s.setTask task (some (t.start config now).1) with
      reports := s.reports ++ (t.start config now).2 } : DsnState Name).Inv := by
  have hinv := h.task task t ht
  cases hphase : t.phase with
  | ready | delivering | writing =>
    have hsame : t.start config now = (t, []) := by
      unfold DsnTask.start
      rw [hphase]
    rw [hsame]
    exact h.edit_self ht
  | read =>
    have hown := hown hphase
    have hsame : t.message = t.read := by
      have hread := hinv.phase
      rw [hphase] at hread
      exact hread
    have hstep := started_inv hinv hphase config now hown
    have hhandled := handled_started hinv hphase config now hown
    have hwork : (t.message.mapRcpts (t.message.started config now)).turn t.queueName now
        ((t.message.expireRcpts now).pendingDelivery t.queueName) ≠ .remove → t.HasWork := by
      intro hturn
      rw [ne_eq, turn_eq_remove, pendingDelivery_eq_no] at hturn
      push Not at hturn
      obtain ⟨rcpt', hmem, hpending⟩ := hturn
      obtain ⟨rcpt, hrcpt, rfl⟩ := mem_map.1 hmem
      rw [isPending_expire, Bool.ne_false_iff] at hpending
      exact ⟨rcpt, by rw [← hsame]; exact hrcpt, (Bool.and_eq_true_iff.1 hpending).1⟩
    -- Whatever the decision is, it is about the same copy.
    have hedit : ∀ phase : TaskPhase, ({ t with
          message := t.message.mapRcpts (t.message.started config now), phase := phase } :
            DsnTask Name).PhaseInv phase →
        ({ s.setTask task (some { t with
            message := t.message.mapRcpts (t.message.started config now), phase := phase }) with
          reports := s.reports ++ (t.message.expireRcpts now).dsnEntries now } :
            DsnState Name).Inv := by
      intro phase hphase'
      refine h.edit_map ht _ phase _ (fun i read copy hread hcopy => ?_) hphase' (fun i hnone => ?_)
        fun i copy hcopy => (hstep i copy hcopy).2.1
      · rw [← hsame, hcopy] at hread
        obtain rfl : copy = read := Option.some.inj hread
        exact (hstep i copy hcopy).1
      · rw [finals_dsnEntries]
        unfold FlaggedMessage.expireRcpts
        rw [getElem?_mapRcpts, hnone]
        rfl
    unfold DsnTask.start
    rw [hphase]
    rw [startTask_eq hinv.returnPath]
    cases hturn : (t.message.mapRcpts (t.message.started config now)).turn t.queueName now
        ((t.message.expireRcpts now).pendingDelivery t.queueName) with
    | deliver => exact hedit .ready ⟨hhandled, hwork (by rw [hturn]; exact fun h => by cases h)⟩
    | save =>
      exact hedit (.writing false) ⟨hhandled, hwork (by rw [hturn]; exact fun h => by cases h)⟩
    | remove =>
      have hall := pendingDelivery_eq_no.1 (turn_eq_remove.1 hturn)
      refine hedit (.writing true) ⟨hhandled, ?_, fun rcpt' hmem => ?_⟩
      · by_contra hmulti
        have hmulti' : t.isMultiQueue := Bool.eq_true_of_not_eq_false hmulti
        obtain ⟨rcpt, hrcpt, hpending, hqueue⟩ := hinv.exists_foreign hmulti'
        rw [← hsame] at hrcpt
        have hnot := hown hmulti' rcpt hrcpt hqueue hpending
        have hfinal := hall _ (mem_map_of_mem hrcpt)
        rw [isPending_expire] at hfinal
        unfold FlaggedRecipient.waits at hfinal
        rw [hpending, hnot] at hfinal
        cases hfinal
      · obtain ⟨rcpt, hrcpt, rfl⟩ := mem_map.1 hmem
        rw [started_pending, ← isPending_expire]
        exact hall _ (mem_map_of_mem hrcpt)

theorem DsnState.Inv.limit (h : s.Inv) (ht : s.tasks task = some t) (retryAt now : ℕ) :
    ({ s.setTask task (some (t.limit retryAt now)) with reports := s.reports ++ [] } :
      DsnState Name).Inv := by
  have hinv := h.task task t ht
  cases hphase : t.phase with
  | read | delivering | writing =>
    have hsame : t.limit retryAt now = t := by
      unfold DsnTask.limit
      rw [hphase]
    rw [hsame]
    exact h.edit_self ht
  | ready =>
    have hready := hinv.phase
    rw [hphase] at hready
    have hkeep : ∀ copy : FlaggedRecipient Name,
        (if copy.isDue t.queueName now then
          { copy with toRecipient := copy.toRecipient.setRateLimit retryAt } else copy).flags =
            copy.flags ∧
        (if copy.isDue t.queueName now then
          { copy with toRecipient := copy.toRecipient.setRateLimit retryAt } else copy).queue =
            copy.queue ∧
        (if copy.isDue t.queueName now then
          { copy with toRecipient := copy.toRecipient.setRateLimit retryAt }
            else copy).status.isPending = copy.status.isPending ∧
        (copy.status.isPending = false → (if copy.isDue t.queueName now then
          { copy with toRecipient := copy.toRecipient.setRateLimit retryAt }
        else copy) = copy) := by
      intro copy
      by_cases hdue : copy.isDue t.queueName now
      · have hpending : copy.status.isPending := by
          unfold FlaggedRecipient.isDue at hdue
          rw [Bool.and_eq_true, Bool.and_eq_true] at hdue
          exact hdue.1.1
        rw [if_pos hdue]
        refine ⟨rfl, rfl, hpending.symm, fun hfinal => ?_⟩
        rw [hpending] at hfinal
        cases hfinal
      · rw [if_neg hdue]
        exact ⟨rfl, rfl, rfl, fun _ => rfl⟩
    unfold DsnTask.limit
    rw [hphase]
    refine h.edit_map ht _ (.writing false) [] (fun i read copy hread hcopy => ?_) ⟨?_, hready.2⟩
      (fun _ _ => rfl) fun i copy hcopy => ?_
    · obtain ⟨hflags, hqueue, hstatus, hfinal⟩ := hkeep copy
      exact (hinv.copied i read copy hread hcopy).keep hflags hqueue hstatus hfinal
    · intro rcpt' hmem hfinal
      obtain ⟨rcpt, hrcpt, rfl⟩ := mem_map.1 hmem
      obtain ⟨-, -, hstatus, hsame⟩ := hkeep rcpt
      rw [hstatus] at hfinal
      rw [hsame hfinal]
      exact hready.1 rcpt hrcpt hfinal
    · obtain ⟨hflags, -, hstatus, hfinal⟩ := hkeep copy
      exact rcptStep_same hflags hstatus hfinal

theorem DsnState.Inv.edit_phase (h : s.Inv) (ht : s.tasks task = some t) (phase : TaskPhase)
    (hphase : ({ t with phase := phase } : DsnTask Name).PhaseInv phase) :
    ({ s.setTask task (some { t with phase := phase }) with reports := s.reports ++ [] } :
      DsnState Name).Inv := by
  have hinv := h.task task t ht
  refine h.edit ht rfl rfl rfl ⟨hinv.returnPath, hinv.blobHash, hinv.length, hinv.multi,
    hinv.handled, hinv.copied, hphase⟩ (fun _ _ => rfl) fun i copy copy' hcopy hcopy' => ?_
  cases hcopy.symm.trans hcopy'
  exact rcptStep_same rfl rfl fun _ => rfl

theorem DsnTask.Inv.waits_of_due (h : t.Inv) {now i : ℕ} {copy : FlaggedRecipient Name}
    (hget : t.message.recipients[i]? = some copy) (hdue : copy.isDue t.queueName now) :
    t.Waits i ∧ copy.flags.dsnSent = false := by
  unfold FlaggedRecipient.isDue at hdue
  rw [Bool.and_eq_true, Bool.and_eq_true] at hdue
  obtain ⟨⟨hpending, -⟩, hqueue⟩ := hdue
  obtain ⟨read, hread⟩ := h.get_read hget
  have hcopied := h.copied i read copy hread hget
  refine ⟨⟨read, hread, ?_, ?_⟩, hcopied.unsent hpending⟩
  · by_contra hne
    have hforeign := (hcopied.foreign hne).1
    rw [of_decide_eq_true hqueue] at hforeign
    exact hne hforeign.symm
  · by_contra hfinal
    have hsame := hcopied.final (Bool.eq_false_of_not_eq_true hfinal)
    rw [hsame] at hpending
    exact hfinal hpending

theorem DsnState.Inv.route (h : s.Inv) (ht : s.tasks task = some t) (now : ℕ) :
    ({ s.setTask task (some (t.route now)) with reports := s.reports ++ [] } :
      DsnState Name).Inv := by
  have hinv := h.task task t ht
  cases hphase : t.phase with
  | read | delivering | writing =>
    have hsame : t.route now = t := by
      unfold DsnTask.route
      rw [hphase]
    rw [hsame]
    exact h.edit_self ht
  | ready =>
    have hready := hinv.phase
    rw [hphase] at hready
    unfold DsnTask.route
    rw [hphase]
    refine h.edit_phase ht _ ⟨hready.2, fun i hi => ?_⟩
    obtain ⟨⟨copy, j⟩, hmem, rfl⟩ := mem_map.1 hi
    obtain ⟨hzip, hdue⟩ := mem_filter.1 hmem
    have hget : t.message.recipients[j]? = some copy := mem_zipIdx_iff_getElem?.1 hzip
    obtain ⟨hwaits, hunsent⟩ := hinv.waits_of_due hget hdue
    refine ⟨hwaits, fun rcpt hrcpt => ?_⟩
    cases hget.symm.trans hrcpt
    exact hunsent

/-- A result for a recipient that the worker delivers to. -/
theorem DsnState.Inv.outcome (h : s.Inv) (ht : s.tasks task = some t) (rcptIdx : ℕ)
    (f : Recipient Name → Recipient Name) :
    ({ s.setTask task (some (t.outcome rcptIdx f)) with reports := s.reports ++ [] } :
      DsnState Name).Inv := by
  have hinv := h.task task t ht
  cases hphase : t.phase with
  | read | ready | writing =>
    have hsame : t.outcome rcptIdx f = t := by
      unfold DsnTask.outcome
      rw [hphase]
    rw [hsame]
    exact h.edit_self ht
  | delivering rcptIdxs =>
    by_cases hmem : rcptIdx ∈ rcptIdxs
    · have hdelivering := hinv.phase
      rw [hphase] at hdelivering
      obtain ⟨hwork, hidxs⟩ := hdelivering
      have hget : ∀ i (copy' : FlaggedRecipient Name),
          (t.message.recipients.modify rcptIdx fun rcpt =>
            { rcpt with toRecipient := f rcpt.toRecipient })[i]? = some copy' →
          (i = rcptIdx ∧ ∃ copy, t.message.recipients[i]? = some copy ∧
            copy' = { copy with toRecipient := f copy.toRecipient }) ∨
          (i ≠ rcptIdx ∧ t.message.recipients[i]? = some copy') := by
        intro i copy' hcopy'
        rw [getElem?_modify] at hcopy'
        by_cases hi : rcptIdx = i
        · obtain ⟨copy, hcopy, hmodified⟩ := Option.map_eq_some_iff.1 hcopy'
          refine .inl ⟨hi.symm, copy, hcopy, ?_⟩
          rw [if_pos hi] at hmodified
          exact hmodified.symm
        · obtain ⟨copy, hcopy, hmodified⟩ := Option.map_eq_some_iff.1 hcopy'
          rw [if_neg hi] at hmodified
          refine .inr ⟨Ne.symm hi, ?_⟩
          rw [hcopy]
          exact congrArg some hmodified
      have hsame : t.outcome rcptIdx f = { t with message := { t.message with
          recipients := t.message.recipients.modify rcptIdx fun rcpt =>
            { rcpt with toRecipient := f rcpt.toRecipient } } } := by
        unfold DsnTask.outcome
        rw [hphase]
        exact if_pos hmem
      rw [hsame]
      obtain ⟨hwaits, hunsent⟩ := hidxs rcptIdx hmem
      refine h.edit ht rfl rfl rfl ⟨hinv.returnPath, hinv.blobHash, ?_, hinv.multi, hinv.handled,
        ?_, ?_⟩ (fun _ _ => rfl) ?_
      · exact (length_modify ..).trans hinv.length
      · intro i read copy' hread hcopy'
        rcases hget i copy' hcopy' with ⟨rfl, copy, hcopy, rfl⟩ | ⟨-, hcopy⟩
        · obtain ⟨rcpt, hrcpt, hqueue, hpending⟩ := id hwaits
          cases hread.symm.trans hrcpt
          refine ⟨fun hfinal => ?_, fun hne => absurd hqueue hne, fun _ => hunsent copy hcopy,
            fun _ hsent => ?_⟩
          · rw [hpending] at hfinal
            cases hfinal
          · have hnot := hunsent copy hcopy
            rw [show copy.flags.dsnSent = true from hsent] at hnot
            cases hnot
        · exact hinv.copied i read copy' hread hcopy
      · change DsnTask.PhaseInv _ t.phase
        rw [hphase]
        refine ⟨hwork, fun i hi => ⟨(hidxs i hi).1, fun copy' hcopy' => ?_⟩⟩
        rcases hget i copy' hcopy' with ⟨rfl, copy, hcopy, rfl⟩ | ⟨-, hcopy⟩
        · exact hunsent copy hcopy
        · exact (hidxs i hi).2 copy' hcopy
      · intro i copy copy' hcopy hcopy'
        rcases hget i copy' hcopy' with ⟨rfl, copy₁, hcopy₁, rfl⟩ | ⟨-, hcopy₁⟩
        · cases hcopy.symm.trans hcopy₁
          refine .quiet rfl rfl fun _ hskipped => .inr ⟨hwaits, hunsent copy hcopy, ?_⟩
          exact requested_of_unsent hskipped (hunsent copy hcopy)
        · cases hcopy.symm.trans hcopy₁
          exact rcptStep_same rfl rfl fun _ => rfl
    · have hsame : t.outcome rcptIdx f = t := by
        unfold DsnTask.outcome
        rw [hphase]
        exact if_neg hmem
      rw [hsame]
      exact h.edit_self ht

/-- `next_event` finds an event exactly if a recipient is pending. -/
theorem nextEvent_isSome_iff (m : FlaggedMessage Name) :
    (m.toMessage.nextEvent none).isSome ↔
      ∃ rcpt ∈ m.recipients, rcpt.status.isPending := by
  constructor
  · intro hsome
    obtain ⟨due, hdue⟩ := Option.isSome_iff_exists.1 hsome
    obtain ⟨rcpt', hmem, hawaits⟩ := exists_awaits_of_nextEvent m.toMessage none due hdue
    obtain ⟨rcpt, hrcpt, rfl⟩ := mem_map.1 hmem
    exact ⟨rcpt, hrcpt, (Bool.and_eq_true_iff.1 hawaits).1⟩
  · rintro ⟨rcpt, hrcpt, hpending⟩
    have hawaits : rcpt.toRecipient.awaits none := by
      unfold Recipient.awaits
      rw [hpending]
      rfl
    obtain ⟨due, hdue, -⟩ := nextEvent_foldl_covers m.created none m.toMessage.recipients none
      rcpt.toRecipient (mem_map_of_mem hrcpt) hawaits
    exact Option.isSome_iff_exists.2 ⟨due, hdue⟩

/-- `deliver_task` after the delivery, up to the write. -/
theorem DsnState.Inv.finish (h : s.Inv) (ht : s.tasks task = some t)
    (config : FlaggedRecipient Name → List ℕ) (now : ℕ)
    (hown : t.isMultiQueue → ∀ rcpt ∈ t.message.recipients, rcpt.queue ≠ t.queueName →
      rcpt.status.isPending = false → rcpt.skipped) :
    ({ s.setTask task (some (t.finish config now).1) with
      reports := s.reports ++ (t.finish config now).2 } : DsnState Name).Inv := by
  have hinv := h.task task t ht
  cases hphase : t.phase with
  | read | ready | writing =>
    have hsame : t.finish config now = (t, []) := by
      unfold DsnTask.finish
      rw [hphase]
    rw [hsame]
    exact h.edit_self ht
  | delivering rcptIdxs =>
    have hdelivering := hinv.phase
    rw [hphase] at hdelivering
    have hhandled : ∀ rcpt ∈ (t.message.mapRcpts (t.message.notified config now)).recipients,
        rcpt.status.isPending = false → rcpt.skipped := by
      intro rcpt' hmem hfinal
      obtain ⟨rcpt, hrcpt, rfl⟩ := mem_map.1 hmem
      cases hpending : rcpt.status.isPending with
      | false =>
        rw [notified_of_final hpending]
        exact skipped_markSent hpending
      | true =>
        rw [(notified_of_pending hpending).1, hpending] at hfinal
        cases hfinal
    have hkept : ∀ copy, copy.status.isPending →
        (t.message.notified config now copy).status = copy.status ∧
          (t.message.notified config now copy).flags = copy.flags ∧
          (t.message.notified config now copy).queue = copy.queue :=
      fun copy hpending => notified_of_pending hpending
    -- An outcome that is not marked is one of the worker's own.
    have hwaits : ∀ i (copy : FlaggedRecipient Name),
        t.message.recipients[i]? = some copy → copy.status.isPending = false →
        copy.skipped = false → t.Waits i := by
      intro i copy hcopy hfinal hskipped
      obtain ⟨read, hread⟩ := hinv.get_read hcopy
      refine hinv.waits_of_final hread hcopy ?_ hfinal
      by_contra hdone
      have hdone' := Bool.eq_false_of_not_eq_true hdone
      have hsame := (hinv.copied i read copy hread hcopy).final hdone'
      have hread' := hinv.handled read (mem_of_getElem? hread) hdone'
      rw [← hsame, hskipped] at hread'
      cases hread'
    have hedit : ∀ phase : TaskPhase, ({ t with
          message := t.message.mapRcpts (t.message.notified config now), phase := phase } :
            DsnTask Name).PhaseInv phase →
        ({ s.setTask task (some { t with
            message := t.message.mapRcpts (t.message.notified config now), phase := phase }) with
          reports := s.reports ++ t.message.dsnEntries now } : DsnState Name).Inv := by
      intro phase hphase'
      refine h.edit_map ht _ phase _ (fun i read copy hread hcopy => ?_) hphase' (fun i hnone => ?_)
        fun i copy hcopy => ?_
      · have hcopied := hinv.copied i read copy hread hcopy
        cases hpending : copy.status.isPending with
        | true =>
          obtain ⟨hstatus, hflags, hqueue⟩ := hkept copy hpending
          refine hcopied.keep hflags hqueue (by rw [hstatus]) fun hfinal => ?_
          rw [hpending] at hfinal
          cases hfinal
        | false =>
          rw [notified_of_final hpending]
          cases hskipped : copy.skipped with
          | true =>
            rw [markSent_of_skipped hskipped]
            exact hcopied
          | false =>
            obtain ⟨rcpt, hrcpt, hqueue, hread'⟩ := hwaits i copy hcopy hpending hskipped
            cases hread.symm.trans hrcpt
            refine ⟨fun hfinal => ?_, fun hne => absurd hqueue hne, fun hpending' => ?_,
              fun _ _ hmulti => ?_⟩
            · rw [hread'] at hfinal
              cases hfinal
            · rw [markSent_status, hpending] at hpending'
              cases hpending'
            · rw [markSent_queue]
              by_contra hne
              rw [hown hmulti copy (mem_of_getElem? hcopy) hne hpending] at hskipped
              cases hskipped
      · rw [finals_dsnEntries, hnone]
        rfl
      · rw [finals_dsnEntries, hcopy, Option.bind_some]
        cases hpending : copy.status.isPending with
        | true =>
          obtain ⟨hstatus, hflags, -⟩ := hkept copy hpending
          rw [requested_of_pending hpending, ite_self]
          refine rcptStep_same hflags (by rw [hstatus]) fun hfinal => ?_
          rw [hpending] at hfinal
          cases hfinal
        | false =>
          rw [notified_of_final hpending]
          cases hskipped : copy.skipped with
          | true =>
            rw [markSent_of_skipped hskipped]
            exact rcptStep_same rfl rfl fun _ => rfl
          | false =>
            have hunsent : copy.flags.dsnSent = false := by
              by_contra hsent
              rw [skipped_of_sent (Bool.eq_true_of_not_eq_false hsent)] at hskipped
              cases hskipped
            have hmark := rcptStep_markSent hpending hunsent (hwaits i copy hcopy hpending hskipped)
              copy hunsent
            rw [hskipped] at hmark
            exact hmark
    unfold DsnTask.finish
    rw [hphase]
    rw [sendDsn_eq hinv.returnPath]
    dsimp only
    cases hnext : ((t.message.mapRcpts
        (t.message.notified config now)).toMessage.nextEvent none).isSome with
    | true => exact hedit (.writing false) ⟨hhandled, hdelivering.1⟩
    | false =>
      have hall : ∀ rcpt ∈ (t.message.mapRcpts (t.message.notified config now)).recipients,
          rcpt.status.isPending = false := by
        intro rcpt hrcpt
        by_contra hpending
        have hsome := (nextEvent_isSome_iff _).2
          ⟨rcpt, hrcpt, Bool.eq_true_of_not_eq_false hpending⟩
        rw [hnext] at hsome
        cases hsome
      refine hedit (.writing true) ⟨hhandled, ?_, hall⟩
      by_contra hmulti
      obtain ⟨read, hread, hpending, hqueue⟩ :=
        hinv.exists_foreign (Bool.eq_true_of_not_eq_false hmulti)
      obtain ⟨i, hget⟩ := mem_iff_getElem?.1 hread
      have hlt : i < t.message.recipients.length := by
        rw [hinv.length]
        exact (List.getElem?_eq_some_iff.1 hget).1
      have hcopy := getElem?_eq_getElem hlt
      have hforeign := ((hinv.copied i read _ hget hcopy).foreign hqueue).2
      rw [hpending] at hforeign
      have hfinal := hall _ (mem_map_of_mem (getElem_mem hlt))
      rw [(notified_of_pending hforeign).1, hforeign] at hfinal
      cases hfinal

end Steps

end MailServer.Delivery
