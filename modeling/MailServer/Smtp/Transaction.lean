import MailServer.Smtp.Session
import Mathlib.Data.List.Basic

/-!
# SMTP transactions

The sender and the recipients of an SMTP session belong together: a non-empty recipient list has a
sender, and every recipient was accepted under the MAIL command that set it.

Principal results: `step_envelope`, `session_envelope`, `ehlo_rejected_panics`.
-/

namespace MailServer.Smtp

open List

variable {p : SessionParameters}

/-! ## The invariant -/

/-- Every recipient was accepted in the current transaction. -/
def Current (d : SessionData) : Prop := ∀ r ∈ d.rcptTo, r.acceptedIn = d.transaction

/-- **The transaction invariant** of the envelope. -/
structure Envelope (d : SessionData) : Prop where
  sender : d.rcptTo ≠ [] → d.mailFrom.isSome
  current : Current d

/-- A call of `queue_message` that found a sender and queued for the current transaction only. -/
def QueueEntry.Proper (e : QueueEntry) : Prop :=
  e.sender.isSome ∧ ∀ r ∈ e.recipients, r.acceptedIn = e.transaction

/-- The invariant of the session: DATA is only entered with recipients. -/
structure Sound (s : Session) : Prop where
  envelope : Envelope s.data
  receiving : s.state = .data → s.data.rcptTo ≠ []
  entries : ∀ e ∈ s.entries, e.Proper

/-- The condition on a step: a greeting or a MAIL command that takes the sender back finds no
recipients. -/
def KeepsEnvelope {M : Type} (apply : SessionData → M → SessionData) (s : Session)
    (label : Label M) : Prop :=
  s.state = .request →
    match label with
    | .ehlo p a domain =>
      domain ≠ s.data.heloDomain → (p.ehloRejectNonFqdn && !a.validLabels) = false →
        ehloRejected p a → s.data.rcptTo = []
    | .mail p a sender =>
      mailRefused p a s.data = false → a.isAllowed → a.rejectedBy.isSome →
        (mailAccepted apply a sender s.data).rcptTo = []
    | _ => True

/-! ## Small steps on the envelope -/

section

variable {d : SessionData}

theorem Current.of_nil (h : d.rcptTo = []) : Current d := by
  intro r hr
  rw [h] at hr
  cases hr

theorem Envelope.of_nil (h : d.rcptTo = []) : Envelope d :=
  ⟨fun hne => absurd h hne, .of_nil h⟩

theorem Envelope.of_isSome (hs : d.mailFrom.isSome) (hc : Current d) : Envelope d :=
  ⟨fun _ => hs, hc⟩

theorem Envelope.rcptTo_eq_nil (h : Envelope d) (hs : d.mailFrom = none) : d.rcptTo = [] := by
  by_contra hne
  have := h.sender hne
  rw [hs] at this
  cases this

theorem Current.popRcpt (h : Current d) : Current d.popRcpt := fun r hr =>
  h r ((dropLast_sublist _).subset hr)

theorem Current.pushRcpt (h : Current d) (rcpt : SessionAddress) : Current (d.pushRcpt rcpt) := by
  intro r hr
  rcases mem_append.1 hr with hr | hr
  · exact h r hr
  · rw [mem_singleton.1 hr]
    rfl

theorem Current.pushMember (h : Current d) (listAddr member : SessionAddress) :
    Current (pushMember listAddr d member) := by
  unfold Smtp.pushMember
  split
  · exact h.pushRcpt _
  · exact h

theorem Current.foldl_pushMember (listAddr : SessionAddress) (members : List SessionAddress)
    (h : Current d) : Current (members.foldl (Smtp.pushMember listAddr) d) := by
  induction members generalizing d with
  | nil => exact h
  | cons member rest ih => exact ih (h.pushMember listAddr member)

end

theorem mailFrom_foldl_pushMember (listAddr : SessionAddress) (members : List SessionAddress)
    (d : SessionData) : (members.foldl (pushMember listAddr) d).mailFrom = d.mailFrom := by
  induction members generalizing d with
  | nil => rfl
  | cons member rest ih =>
    rw [foldl_cons, ih]
    unfold pushMember
    split
    · rfl
    · rfl

/-- What a run of modifications keeps. -/
structure Kept (d d' : SessionData) : Prop where
  transaction : d'.transaction = d.transaction
  mailFrom : d.mailFrom.isSome → d'.mailFrom.isSome
  current : Current d → Current d'

theorem Kept.refl (d : SessionData) : Kept d d := ⟨rfl, id, id⟩

theorem Kept.trans {d d' d'' : SessionData} (h : Kept d d') (h' : Kept d' d'') : Kept d d'' :=
  ⟨h'.transaction.trans h.transaction, h'.mailFrom ∘ h.mailFrom, h'.current ∘ h.current⟩

section Apply

variable {M : Type} {apply : SessionData → M → SessionData}

theorem EnvelopeLaws.kept (laws : EnvelopeLaws apply) (d : SessionData) (m : M) :
    Kept d (apply d m) where
  transaction := laws.transaction d m
  mailFrom := laws.mailFrom d m
  current h r hr := by
    rw [laws.transaction d m]
    rcases laws.acceptedIn d m r hr with hnow | ⟨r', hr', heq⟩
    · exact hnow
    · exact heq.trans (h r' hr')

theorem EnvelopeLaws.kept_foldl (laws : EnvelopeLaws apply) (modifications : List M)
    (d : SessionData) : Kept d (modifications.foldl apply d) := by
  induction modifications generalizing d with
  | nil => exact .refl d
  | cons m rest ih => exact (laws.kept d m).trans (ih (apply d m))

section

variable {d : SessionData}

theorem EnvelopeLaws.foldl_ne_nil (laws : EnvelopeLaws apply) (modifications : List M)
    (h : d.rcptTo ≠ []) : (modifications.foldl apply d).rcptTo ≠ [] := by
  induction modifications generalizing d with
  | nil => exact h
  | cons m rest ih => exact ih (laws.rcptTo d m h)

/-! ## EHLO -/

/-- **Step lemma of EHLO.** -/
theorem handleEhlo_envelope {a : EhloAnswers} {domain : String} (h : Envelope d)
    (hkeep : domain ≠ d.heloDomain → (p.ehloRejectNonFqdn && !a.validLabels) = false →
      ehloRejected p a → d.rcptTo = []) : Envelope (handleEhlo p a domain d) := by
  have hfinish {d : SessionData} (h : Envelope d) :
      Envelope (if d.mailFrom.isSome then d.reset else d) := by
    split
    · exact .of_nil rfl
    · exact h
  unfold handleEhlo
  by_cases hdomain : domain = d.heloDomain
  · simp only [hdomain, ne_eq, not_true_eq_false, if_false]
    exact hfinish h
  · simp only [ne_eq, hdomain, not_false_eq_true, if_true]
    split
    · exact h
    · next hlabels =>
      split
      · next hrejected =>
        exact .of_nil (hkeep hdomain (Bool.eq_false_iff.2 hlabels) hrejected)
      · exact hfinish (d := { d with heloDomain := domain }) ⟨h.sender, h.current⟩

/-! ## MAIL -/

theorem rewriteSender_spec (h : d.mailFrom.isSome) (new : Option SessionAddress) :
    ∃ d', rewriteSender d new = some d' ∧ d'.mailFrom.isSome ∧ d'.rcptTo = d.rcptTo ∧
      d'.transaction = d.transaction := by
  cases new with
  | none => exact ⟨d, rfl, h, rfl, rfl⟩
  | some new =>
    obtain ⟨sender, hsender⟩ := Option.isSome_iff_exists.1 h
    unfold rewriteSender
    simp only [hsender]
    exact ⟨_, rfl, rfl, rfl, rfl⟩

/-- **Step lemma of MAIL.** -/
theorem handleMailFrom_envelope (laws : EnvelopeLaws apply)
    {a} {sender} (h : Envelope d)
    (hkeep : mailRefused p a d = false → a.isAllowed → a.rejectedBy.isSome →
      (mailAccepted apply a sender d).rcptTo = []) :
    ∃ d', handleMailFrom apply p a sender d = some d' ∧ Envelope d' := by
  unfold handleMailFrom
  cases hrefused : mailRefused p a d with
  | true => exact ⟨d, rfl, h⟩
  | false =>
    have hnone : d.mailFrom = none := by
      unfold mailRefused at hrefused
      cases hm : d.mailFrom with
      | none => rfl
      | some sender => rw [hm] at hrefused; simp at hrefused
    have hempty : d.rcptTo = [] := h.rcptTo_eq_nil hnone
    have hset : Current (d.setSender sender) := .of_nil hempty
    cases hallowed : a.isAllowed with
    | false => exact ⟨_, rfl, .of_nil hempty⟩
    | true =>
      have hkept : Kept (d.setSender sender) (mailAccepted apply a sender d) :=
        laws.kept_foldl _ _
      have hsome := hkept.mailFrom rfl
      have hcurrent := hkept.current hset
      obtain ⟨d', hrewrite, hsome', hrcpt, htransaction⟩ := rewriteSender_spec hsome a.rewrite
      have hdrop (hrejected : a.rejectedBy.isSome) :
          (mailAccepted apply a sender d).rcptTo = [] := hkeep hrefused hallowed hrejected
      cases hscript : a.script with
      | reject => exact ⟨_, rfl, .of_nil hempty⟩
      | accept modifications | replace modifications | discard =>
        -- behind the script: a check takes the sender back, or the transaction stands
        simp only [Bool.not_true, Bool.false_eq_true, if_false, hrewrite]
        cases hrejected : a.rejectedBy with
        | none =>
          refine ⟨d', rfl, .of_isSome hsome' fun r hr => ?_⟩
          rw [htransaction]
          exact hcurrent r (hrcpt ▸ hr)
        | some check =>
          have hnil := hdrop (by rw [hrejected]; rfl)
          cases check with
          | milter | mtaHook => exact ⟨_, rfl, .of_nil hnil⟩
          | _ => exact ⟨_, rfl, .of_nil (hrcpt.trans hnil)⟩

/-! ## RCPT -/

theorem rewriteRcpt_spec (hne : d.rcptTo ≠ []) (new : Option SessionAddress) :
    ∃ d', rewriteRcpt d new = some d' ∧ d'.mailFrom = d.mailFrom ∧ d'.rcptTo ≠ [] ∧
      (Current d → Current d') := by
  cases new with
  | none => exact ⟨d, rfl, rfl, hne, id⟩
  | some new =>
    have hlast := List.getLast?_eq_some_getLast hne
    unfold rewriteRcpt
    simp only [hlast]
    refine ⟨_, rfl, rfl, append_ne_nil_of_right_ne_nil _ (cons_ne_nil _ _),
      fun hc r hr => ?_⟩
    rcases mem_append.1 hr with hr | hr
    · exact hc r ((dropLast_sublist _).subset hr)
    · rw [mem_singleton.1 hr]
      exact hc (d.rcptTo.getLast hne) (getLast_mem hne)

theorem rcptError_envelope (hs : d.mailFrom.isSome) (hc : Current d) :
    Envelope (rcptError p d).data :=
  .of_isSome hs hc

theorem verifyRcpt_envelope {a : RcptAnswers M} (hne : d.rcptTo ≠ [])
    (hs : d.mailFrom.isSome) (hc : Current d) :
    ∃ r, verifyRcpt p a d = some r ∧ Envelope r.data := by
  have hpop : Envelope d.popRcpt := .of_isSome hs hc.popRcpt
  unfold verifyRcpt
  simp only [List.getLast?_eq_some_getLast hne]
  cases a.directory with
  | invalid | relayNotAllowed => exact ⟨_, rfl, rcptError_envelope hs hc.popRcpt⟩
  | unavailable => exact ⟨_, rfl, hpop⟩
  | mailbox =>
    cases a.rateLimited || a.greylisted with
    | true => exact ⟨_, rfl, hpop⟩
    | false => exact ⟨_, rfl, .of_isSome hs hc⟩
  | list members =>
    cases a.rateLimited || a.greylisted with
    | true => exact ⟨_, rfl, hpop⟩
    | false =>
      refine ⟨_, rfl, .of_isSome ?_ (hc.popRcpt.foldl_pushMember (d.rcptTo.getLast hne) members)⟩
      exact (congrArg Option.isSome
        (mailFrom_foldl_pushMember (d.rcptTo.getLast hne) members d.popRcpt)).trans hs

theorem filterRcpt_envelope {a : RcptAnswers M} (hne : d.rcptTo ≠ [])
    (hs : d.mailFrom.isSome) (hc : Current d) :
    ∃ r, filterRcpt p a d = some r ∧ Envelope r.data := by
  unfold filterRcpt
  cases a.milterRejects || a.hookRejects with
  | true => exact ⟨_, rfl, .of_isSome hs hc.popRcpt⟩
  | false =>
    obtain ⟨d', hrewrite, hmail, hne', hc'⟩ := rewriteRcpt_spec hne a.rewrite
    have hs' : d'.mailFrom.isSome := by rw [hmail]; exact hs
    simp only [Bool.false_eq_true, if_false, hrewrite, List.getLast?_eq_some_getLast hne']
    split
    · exact ⟨_, rfl, .of_isSome hs' (hc' hc).popRcpt⟩
    · exact verifyRcpt_envelope hne' hs' (hc' hc)

/-- **Step lemma of RCPT.** -/
theorem handleRcptTo_envelope (laws : EnvelopeLaws apply)
    {a} {recipient : SessionAddress} {usesDsn : Bool} (h : Envelope d) :
    ∃ r, handleRcptTo apply p a recipient usesDsn d = some r ∧ Envelope r.data := by
  unfold handleRcptTo
  cases hs : d.mailFrom.isNone with
  | true => exact ⟨_, rfl, h⟩
  | false =>
    have hsome : d.mailFrom.isSome := by
      cases hm : d.mailFrom with
      | none => rw [hm] at hs; cases hs
      | some sender => rfl
    split
    · exact ⟨_, rfl, h⟩
    · split
      · exact ⟨_, rfl, h.sender, h.current⟩
      · have hpush := h.current.pushRcpt recipient
        have hne : (d.pushRcpt recipient).rcptTo ≠ [] :=
          append_ne_nil_of_right_ne_nil _ (cons_ne_nil _ _)
        have hscript := laws.kept_foldl a.script.modifications (d.pushRcpt recipient)
        have hfilter := filterRcpt_envelope (p := p) (a := a)
          (laws.foldl_ne_nil a.script.modifications hne) (hscript.mailFrom hsome)
          (hscript.current hpush)
        cases a.filtered with
        | false => exact verifyRcpt_envelope hne hsome hpush
        | true =>
          cases hr : a.script with
          | reject => exact ⟨_, rfl, .of_isSome hsome hpush.popRcpt⟩
          | accept modifications | replace modifications | discard =>
            rw [hr] at hfilter
            exact hfilter

end

/-! ## DATA -/

theorem foldl_applyMilterModification_kept (modifications : List Modification) (d : SessionData) :
    Kept d (modifications.foldl applyMilterModification d) := by
  induction modifications generalizing d with
  | nil => exact .refl d
  | cons m rest ih =>
    refine Kept.trans ?_ (ih (applyMilterModification d m))
    cases m with
    | changeFrom sender => exact ⟨rfl, fun _ => rfl, id⟩
    | addRcpt recipient =>
      change Kept d (if d.hasRcpt recipient then d else d.pushRcpt recipient)
      split
      · exact .refl d
      · exact ⟨rfl, id, fun hc => hc.pushRcpt recipient⟩
    | deleteRcpt recipient => exact ⟨rfl, id, fun hc r hr => hc r (mem_filter.1 hr).1⟩
    | other => exact .refl d

/-- **`queue_message` with a sender** queues for recipients of the current transaction only. -/
theorem queueMessage_spec (laws : EnvelopeLaws apply) (a : QueueAnswers M) {d : SessionData}
    (hs : d.mailFrom.isSome) (hc : Current d) :
    ∃ r, queueMessage apply a d = some r ∧ r.entry.Proper ∧ Envelope r.data := by
  have hnone : d.mailFrom.isNone = false := by
    cases hm : d.mailFrom with
    | none => rw [hm] at hs; cases hs
    | some sender => rfl
  have hentry : QueueEntry.Proper ⟨d.mailFrom, d.transaction, []⟩ :=
    ⟨hs, fun r hr => by cases hr⟩
  unfold queueMessage
  cases a.exit with
  | some exit =>
    have hdata : Envelope { d with message := 0 } := .of_isSome hs hc
    have hsent : Envelope { d with message := 0, messagesSent := d.messagesSent + 1 } :=
      .of_isSome hs hc
    cases hearly : exit.isEarly with
    | true =>
      simp only [hearly]
      refine ⟨_, rfl, ?_, ?_⟩
      · exact hentry
      · exact hdata
    | false =>
      simp only [hearly, hnone]
      refine ⟨_, rfl, ?_, ?_⟩
      · exact hentry
      · cases exit.counts with
        | true => exact hsent
        | false => exact hdata
  | none =>
    simp only [hnone, Bool.false_eq_true, if_false]
    have hmilter := foldl_applyMilterModification_kept a.modifications { d with message := 0 }
    cases a.script.dataModifications with
    | none => exact ⟨_, rfl, hentry, .of_isSome (hmilter.mailFrom hs) (hmilter.current hc)⟩
    | some modifications =>
      have hkept := hmilter.trans (laws.kept_foldl modifications _)
      obtain ⟨sender, hsender⟩ := Option.isSome_iff_exists.1 (hkept.mailFrom hs)
      simp only [hsender]
      split
      · exact ⟨_, rfl, ⟨rfl, hkept.current hc⟩, .of_nil rfl⟩
      · exact ⟨_, rfl, hentry, .of_nil rfl⟩

/-! ## The session -/

theorem finishMessage_sound (laws : EnvelopeLaws apply) (a : QueueAnswers M) {s : Session}
    (hs : s.data.mailFrom.isSome) (hc : Current s.data)
    (hentries : ∀ e ∈ s.entries, e.Proper) :
    ∃ s', finishMessage apply a s = some s' ∧ Sound s' := by
  obtain ⟨r, hr, hproper, henvelope⟩ := queueMessage_spec laws a hs hc
  have hall : ∀ e ∈ r.entry :: s.entries, e.Proper := by
    intro e he
    rcases mem_cons.1 he with rfl | he
    · exact hproper
    · exact hentries e he
  unfold finishMessage
  rw [hr]
  cases hanswers : r.answers with
  | true =>
    simp only [hanswers]
    exact ⟨_, rfl, .of_nil rfl, (fun h => by cases h), hall⟩
  | false =>
    simp only [hanswers, Bool.false_eq_true, if_false]
    exact ⟨_, rfl, henvelope, (fun h => by cases h), hall⟩

theorem rcptTo_of_canSendData {d : SessionData} (h : canSendData p d) : d.rcptTo ≠ [] := by
  intro hnil
  unfold canSendData at h
  rw [hnil] at h
  cases h

theorem stepRequest_sound (laws : EnvelopeLaws apply) {s : Session} {label : Label M}
    (h : Sound s) (hstate : s.state = .request) (hkeep : KeepsEnvelope apply s label) :
    ∃ s', stepRequest apply s label = some s' ∧ Sound s' := by
  have hdata : s.state ≠ .data := by
    rw [hstate]
    decide
  have hkeep := hkeep hstate
  cases label with
  | ehlo p a domain =>
    exact ⟨_, rfl, handleEhlo_envelope h.envelope hkeep, fun h => absurd h hdata, h.entries⟩
  | mail p a sender =>
    obtain ⟨d', hd', henvelope⟩ := handleMailFrom_envelope laws h.envelope hkeep
    simp only [stepRequest, hd']
    exact ⟨_, rfl, henvelope, fun h => absurd h hdata, h.entries⟩
  | rcpt p a recipient usesDsn =>
    have hrcpt : ∃ r, handleRcptTo apply p a recipient usesDsn s.data = some r ∧ Envelope r.data :=
      handleRcptTo_envelope laws h.envelope
    obtain ⟨r, hr, henvelope⟩ := hrcpt
    simp only [stepRequest, hr]
    refine ⟨_, rfl, henvelope, fun h => ?_, h.entries⟩
    split at h <;> cases h
  | rset => exact ⟨_, rfl, .of_nil rfl, fun h => absurd h hdata, h.entries⟩
  | dataCommand p =>
    cases hcan : canSendData p s.data with
    | true =>
      simp only [stepRequest, hcan]
      exact ⟨_, rfl, ⟨h.envelope.sender, h.envelope.current⟩, fun _ => rcptTo_of_canSendData hcan,
        h.entries⟩
    | false =>
      simp only [stepRequest, hcan]
      exact ⟨s, rfl, h⟩
  | bdatCommand p chunkSize isLast =>
    by_cases hsize : chunkSize + s.data.message < p.maxMessageSize
    · simp only [stepRequest, hsize]
      exact ⟨_, rfl, h.envelope, (fun h => by cases h), h.entries⟩
    · simp only [stepRequest, hsize]
      exact ⟨_, rfl, h.envelope, (fun h => by cases h), h.entries⟩
  | other line =>
    refine ⟨_, rfl, h.envelope, fun h => ?_, h.entries⟩
    cases line <;> cases h
  | bytes p a read count complete => exact ⟨s, rfl, h⟩
  | close => exact ⟨_, rfl, h.envelope, (fun h => by cases h), h.entries⟩

theorem stepBytes_sound (laws : EnvelopeLaws apply) {s : Session} (h : Sound s)
    (p : SessionParameters) (a : QueueAnswers M) (read count : ℕ) (complete : Bool) :
    ∃ s', stepBytes apply s p a read count complete = some s' ∧ Sound s' := by
  have hreceived (hne : s.state = .data → s.data.rcptTo ≠ []) :
      Sound { s with data := { s.data with message := s.data.message + count } } :=
    ⟨⟨h.envelope.sender, h.envelope.current⟩, hne, h.entries⟩
  have hfinish (hne : s.data.rcptTo ≠ []) : ∃ s',
      finishMessage apply a { s with data := { s.data with message := s.data.message + count } } =
        some s' ∧ Sound s' :=
    finishMessage_sound laws a (h.envelope.sender hne) h.envelope.current h.entries
  unfold stepBytes
  cases hstate : s.state with
  | request | closed => exact ⟨s, rfl, h⟩
  | data =>
    by_cases hsize : s.data.message + read < p.maxMessageSize
    · simp only [hsize]
      cases complete with
      | true => exact hstate ▸ hfinish (h.receiving hstate)
      | false => exact ⟨_, rfl, hstate ▸ hreceived h.receiving⟩
    · simp only [hsize, if_false]
      exact ⟨_, rfl, h.envelope, (fun h => by cases h), h.entries⟩
  | bdat isLast =>
    cases complete with
    | false => exact ⟨_, rfl, hstate ▸ hreceived h.receiving⟩
    | true =>
      cases hcan : canSendData p s.data with
      | false =>
        exact ⟨_, rfl, ⟨h.envelope.sender, h.envelope.current⟩, (fun h => by cases h), h.entries⟩
      | true =>
        cases isLast with
        | true =>
          simp only [if_true]
          exact hstate ▸ hfinish (rcptTo_of_canSendData hcan)
        | false =>
          exact ⟨_, rfl, ⟨h.envelope.sender, h.envelope.current⟩, (fun h => by cases h), h.entries⟩
  | dataTooLarge =>
    cases complete with
    | true =>
      exact ⟨_, rfl, ⟨h.envelope.sender, h.envelope.current⟩, (fun h => by cases h), h.entries⟩
    | false => exact ⟨s, rfl, h⟩
  | line =>
    cases complete with
    | true => exact ⟨_, rfl, h.envelope, (fun h => by cases h), h.entries⟩
    | false => exact ⟨s, rfl, h⟩

/-- **Step lemma of the session.** -/
theorem step_envelope (laws : EnvelopeLaws apply) (s : Session) (label : Label M) (h : Sound s)
    (hkeep : KeepsEnvelope apply s label) : ∃ s', step apply s label = some s' ∧ Sound s' := by
  unfold step
  cases hstate : s.state with
  | request => exact stepRequest_sound laws h hstate hkeep
  | closed => exact ⟨s, rfl, h⟩
  | data | bdat isLast | dataTooLarge | line =>
    cases label with
    | bytes p a read count complete => exact stepBytes_sound laws h p a read count complete
    | close => exact ⟨_, rfl, h.envelope, (fun h => by cases h), h.entries⟩
    | _ => exact ⟨s, rfl, h⟩

theorem start_sound : Sound start :=
  ⟨.of_nil rfl, (fun h => by cases h), (fun e he => by cases he)⟩

/-- **The transaction invariant over whole sessions.** In every run in which nothing takes the
sender back while recipients are present, no `unwrap` of the sender fails, and every call of
`queue_message` finds a sender and queues for recipients of the current transaction. -/
theorem session_envelope (laws : EnvelopeLaws apply) (labels : List (Label M))
    (hkeep : Runs.Along (step apply) (KeepsEnvelope apply) start labels) :
    ∃ s, Runs.exec (step apply) start labels = some s ∧ Envelope s.data ∧
      ∀ e ∈ s.entries, e.Proper := by
  obtain ⟨s, hexec, hsound⟩ := Runs.exec_invariant (I := Sound)
    (step_envelope laws) start_sound hkeep
  exact ⟨s, hexec, hsound.envelope, hsound.entries⟩

end Apply

/-! ## A session that keeps the condition, and one that does not -/

/-- A modification of the envelope by a script: `envelope "from"` is set. -/
def setEnvelopeFrom (d : SessionData) (sender : SessionAddress) : SessionData :=
  { d with mailFrom := some sender }

theorem setEnvelopeFrom_laws : EnvelopeLaws setEnvelopeFrom where
  transaction _ _ := rfl
  mailFrom _ _ _ := rfl
  rcptTo _ _ h := h
  acceptedIn _ _ r hr := .inr ⟨r, hr, rfl⟩

namespace Sample

open List

def address (name domain : String) : SessionAddress :=
  ⟨name ++ "@" ++ domain, name ++ "@" ++ domain, domain, 0, none, 0⟩

def parameters : SessionParameters :=
  ⟨false, true, true, false, false, 100, true, 3, 1000, 10⟩

/-- A greeting: `accepted` is its SPF result. -/
def ehlo (domain : String) (accepted : Bool) : Label SessionAddress :=
  .ehlo parameters ⟨true, accepted, false, false, false⟩ domain

/-- A MAIL command whose script modifies the sender. -/
def mail (name : String) : Label SessionAddress :=
  .mail parameters ⟨false, false, true, .accept [address name "script"], none, none⟩
    (address name "a")

def rcpt (name : String) : Label SessionAddress :=
  .rcpt parameters ⟨false, .accept [], false, false, none, .mailbox, false, false⟩
    (address name "local") false

/-- A complete message of ten bytes that is queued. -/
def message : Label SessionAddress :=
  .bytes parameters ⟨none, false, [], .accept [], true⟩ 10 10 true

/-- A transaction followed by a greeting that SPF rejects. -/
def rejectedGreeting : List (Label SessionAddress) :=
  [ehlo "a" true, mail "sender", rcpt "r", ehlo "b" false]

end Sample

open Sample in
/-- A session with two greetings, a script that modifies the sender and a message. -/
theorem session_envelope_twoGreetings :
    ∃ s, Runs.exec (step setEnvelopeFrom) start
        [ehlo "a" true, mail "sender", rcpt "r", .dataCommand parameters, message, ehlo "b" false] =
        some s ∧ Envelope s.data ∧ ∀ e ∈ s.entries, e.Proper := by
  refine session_envelope setEnvelopeFrom_laws _ ?_
  refine .cons (fun _ _ _ _ => rfl) rfl ?_
  refine .cons (fun _ _ _ h => by cases h) rfl ?_
  refine .cons (fun _ => trivial) rfl ?_
  refine .cons (fun _ => trivial) rfl ?_
  refine .cons (fun h => by cases h) rfl ?_
  refine .cons (fun _ _ _ _ => rfl) rfl ?_
  trivial

open Sample in
/-- **A rejected greeting takes the sender back and leaves the recipients**: DATA is accepted
without a sender, or the message of the next transaction is queued for the recipients of the earlier
one. -/
theorem ehlo_rejected_panics :
    EnvelopeLaws setEnvelopeFrom ∧
      (∃ s, Runs.exec (step setEnvelopeFrom) start rejectedGreeting = some s ∧
        s.data.mailFrom = none ∧ s.data.rcptTo ≠ []) ∧
      Runs.exec (step setEnvelopeFrom) start
        (rejectedGreeting ++ [.dataCommand parameters, message]) = none ∧
      ∃ s, Runs.exec (step setEnvelopeFrom) start
          (rejectedGreeting ++ [mail "other", .dataCommand parameters, message]) = some s ∧
        ∃ e ∈ s.entries, ∃ r ∈ e.recipients, r.acceptedIn ≠ e.transaction := by
  refine ⟨setEnvelopeFrom_laws, ⟨_, rfl, rfl, ?_⟩, rfl, _, rfl, _, .head _, _,
    (.head _), ?_⟩
  · exact cons_ne_nil _ _
  · decide

end MailServer.Smtp
