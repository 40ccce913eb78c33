import MailServer.Smtp.MailParameters

/-!
# Transactions and their parameters over whole sessions

A session together with the parameters of its transaction.  `reset` puts them back to their
defaults; a MAIL or a greeting that is rejected takes back the sender and nothing else.

Principal results: `stepParameters_session`, `stepParameters_clean`, `rejectedMail_keeps_iff`,
`rejectedMail_stores_deliverBy`.
-/

namespace MailServer.Smtp

/-! ## The session with its parameters -/

structure MailSession where
  session : Session
  parameters : TransactionParameters

def Label.isMail {M : Type} : Label M → Bool
  | .mail .. => true
  | _ => false

/-- What the session reads next: MAIL with its parameters, or something else. -/
inductive Input (M : Type) where
  | mail (p : SessionParameters) (e : MailEnvironment M) (cmd : MailFrom)
  | other (label : Label M) (h : label.isMail = false)

/-- A greeting that reaches `reset`. -/
def greetingResets (p : SessionParameters) (a : EhloAnswers) (domain : String) (d : SessionData) :
    Bool :=
  (decide (domain = d.heloDomain) ||
    (!(p.ehloRejectNonFqdn && !a.validLabels) && !ehloRejected p a)) && d.mailFrom.isSome

section Apply

variable {M : Type} (apply : SessionData → M → SessionData)
  (applyParameters : TransactionParameters → M → TransactionParameters)

/-- The modifications that `handle_rcpt_to` applies. -/
def rcptModifications (p : SessionParameters) (a : RcptAnswers M) (recipient : SessionAddress)
    (usesDsn : Bool) (d : SessionData) : List M :=
  if d.mailFrom.isNone || decide (p.rcptMax ≤ d.rcptTo.length) || (usesDsn && !p.rcptDsn) ||
      d.hasRcpt recipient || !a.filtered then []
  else a.script.modifications

/-- The modifications that `queue_message` applies. -/
def queueModifications (a : QueueAnswers M) : List M :=
  match a.exit with
  | some _ => []
  | none => a.script.dataModifications.getD []

/-- The bytes that are read complete a message, and `queue_message` is called. -/
def completesMessage (s : Session) (p : SessionParameters) (read : ℕ) (complete : Bool) : Bool :=
  match s.state with
  | .data => decide (s.data.message + read < p.maxMessageSize) && complete
  | .bdat isLast => complete && canSendData p s.data && isLast
  | _ => false

/-- The parameters after a step that is not MAIL and leads to `s'`. -/
def parametersAfter (s : MailSession) (s' : Session) : Label M → TransactionParameters
  | .ehlo p a domain =>
    if s.session.state = .request && greetingResets p a domain s.session.data then {}
    else s.parameters
  | .rset => if s.session.state = .request then {} else s.parameters
  | .rcpt p a recipient usesDsn =>
    if s.session.state = .request then
      (rcptModifications p a recipient usesDsn s.session.data).foldl applyParameters s.parameters
    else s.parameters
  | .bytes p a read _ complete =>
    if completesMessage s.session p read complete then
      -- without an answer the client is disconnected and nothing is reset
      if s'.state = .closed then (queueModifications a).foldl applyParameters s.parameters else {}
    else s.parameters
  | _ => s.parameters

/-- A step of the session with its parameters; `none` is a panic. -/
def stepParameters (s : MailSession) : Input M → Option MailSession
  | .mail p e cmd =>
    if s.session.state = .request then
      match handleMail apply applyParameters p e cmd s.session.data s.parameters with
      | none => none
      | some r => some ⟨{ s.session with data := r.data }, r.parameters⟩
    else some s
  | .other label _ =>
    match step apply s.session label with
    | none => none
    | some session => some ⟨session, parametersAfter applyParameters s session label⟩

/-- A new session. -/
def startParameters : MailSession := ⟨start, {}⟩

/-! ## The envelope -/

/-- The step of the session without parameters. -/
def inputLabel (s : MailSession) : Input M → Label M
  | .mail p e cmd =>
    .mail p (mailAnswers apply p e cmd s.session.data s.parameters) cmd.sender
  | .other label _ => label

/-- The steps without parameters of a run, up to a panic. -/
def inputLabels (s : MailSession) : List (Input M) → List (Label M)
  | [] => []
  | input :: rest =>
    inputLabel apply s input ::
      (stepParameters apply applyParameters s input).elim [] (inputLabels · rest)

variable {apply applyParameters}

/-- **Refinement**: the envelope fares as in the session without parameters. -/
theorem stepParameters_session (hkeeps : KeepsParameters applyParameters) (s : MailSession)
    (input : Input M) :
    (stepParameters apply applyParameters s input).map MailSession.session =
      step apply s.session (inputLabel apply s input) := by
  cases input with
  | other label h =>
    unfold stepParameters inputLabel
    simp only
    cases step apply s.session label with
    | none | some => rfl
  | mail p e cmd =>
    have hdata : (handleMail apply applyParameters p e cmd s.session.data s.parameters).map
        MailResult.data = handleMailFrom apply p
          (mailAnswers apply p e cmd s.session.data s.parameters) cmd.sender s.session.data :=
      handleMail_data hkeeps p e cmd s.session.data s.parameters
    unfold stepParameters inputLabel step
    cases hstate : s.session.state with
    | request =>
      simp only [stepRequest, ← hdata]
      cases handleMail apply applyParameters p e cmd s.session.data s.parameters with
      | none => rfl
      | some r => simp
    | _ => simp

theorem exec_session (hkeeps : KeepsParameters applyParameters) (s : MailSession)
    (inputs : List (Input M)) :
    (Runs.exec (stepParameters apply applyParameters) s inputs).map MailSession.session =
      Runs.exec (step apply) s.session (inputLabels apply applyParameters s inputs) := by
  induction inputs generalizing s with
  | nil => rfl
  | cons input rest ih =>
    rw [Runs.exec, inputLabels, Runs.exec, ← stepParameters_session hkeeps s input]
    cases stepParameters apply applyParameters s input with
    | none => rfl
    | some s' => exact ih s'

/-! ## What a step leaves outside a transaction -/

/-- **The invariant**: outside a transaction all parameters have their defaults. -/
def Clean (s : MailSession) : Prop := s.session.data.mailFrom = none → s.parameters = {}

/-- The condition on a step: a rejected MAIL stores nothing new, and a rejected greeting finds
nothing stored. -/
def KeepsClean (apply : SessionData → M → SessionData) (s : MailSession) (input : Input M) : Prop :=
  s.session.state = .request →
    match input with
    | .mail p e cmd =>
      passesParameters p e cmd = false →
        StoresNothing apply p e cmd s.session.data s.parameters
    | .other (.ehlo p a domain) _ =>
      domain ≠ s.session.data.heloDomain → (p.ehloRejectNonFqdn && !a.validLabels) = false →
        ehloRejected p a → s.parameters = {}
    | _ => True

section

variable {p : SessionParameters} {a : RcptAnswers M} {d : SessionData} {r : RcptResult}

theorem verifyRcpt_mailFrom (hr : verifyRcpt p a d = some r) : r.data.mailFrom = d.mailFrom := by
  unfold verifyRcpt at hr
  cases hlast : d.rcptTo.getLast? with
  | none => rw [hlast] at hr; cases hr
  | some rcpt =>
    simp only [hlast] at hr
    cases hdir : a.directory with
    | invalid | relayNotAllowed | unavailable =>
      simp only [hdir] at hr
      cases hr
      rfl
    | mailbox =>
      simp only [hdir] at hr
      split at hr <;> cases hr <;> rfl
    | list members =>
      simp only [hdir] at hr
      split at hr
      · cases hr
        rfl
      · cases hr
        exact mailFrom_foldl_pushMember rcpt members d.popRcpt

theorem filterRcpt_mailFrom (hr : filterRcpt p a d = some r) : r.data.mailFrom = d.mailFrom := by
  unfold filterRcpt at hr
  split at hr
  · cases hr
    rfl
  · cases hrewrite : rewriteRcpt d a.rewrite with
    | none => rw [hrewrite] at hr; cases hr
    | some d' =>
      have hmail : d'.mailFrom = d.mailFrom := by
        unfold rewriteRcpt at hrewrite
        split at hrewrite
        · cases hrewrite
          rfl
        · split at hrewrite
          · cases hrewrite
          · cases hrewrite
            rfl
      simp only [hrewrite] at hr
      split at hr
      · cases hr
      · split at hr
        · cases hr
          exact hmail
        · exact (verifyRcpt_mailFrom hr).trans hmail

theorem handleRcptTo_isSome (laws : EnvelopeLaws apply) {recipient}
    {usesDsn : Bool} (hr : handleRcptTo apply p a recipient usesDsn d = some r)
    (hs : d.mailFrom.isSome) : r.data.mailFrom.isSome := by
  unfold handleRcptTo at hr
  split at hr
  · cases hr
    exact hs
  · split at hr
    · cases hr
      exact hs
    · split at hr
      · split at hr
        · cases hr
          exact hs
        · rw [filterRcpt_mailFrom hr]
          exact (laws.kept_foldl _ _).mailFrom hs
      · rw [verifyRcpt_mailFrom hr]
        exact hs

end

theorem queueMessage_isSome {a} {d : SessionData}
    {r : QueueResult} (hr : queueMessage apply a d = some r) (hanswers : r.answers = false) :
    r.data.mailFrom.isSome := by
  unfold queueMessage at hr
  cases hexit : a.exit with
  | some exit =>
    simp only [hexit] at hr
    split at hr
    · cases hr
      cases hanswers
    · split at hr
      · cases hr
      · next hsender =>
        cases hr
        have hs : d.mailFrom.isSome := by simpa [Option.isSome_iff_ne_none] using hsender
        cases exit.counts <;> exact hs
  | none =>
    simp only [hexit] at hr
    split at hr
    · cases hr
    · next hsender =>
      have hs : d.mailFrom.isSome := by simpa [Option.isSome_iff_ne_none] using hsender
      have hmilter := (foldl_applyMilterModification_kept a.modifications
        { d with message := 0 }).mailFrom hs
      cases hscript : a.script.dataModifications with
      | none =>
        rw [hscript] at hr
        cases hr
        exact hmilter
      | some modifications =>
        simp only [hscript] at hr
        split at hr
        · cases hr
        · split at hr <;> cases hr <;> cases hanswers

theorem finishMessage_clean {a} {s s' : Session}
    (hs : finishMessage apply a s = some s') (hnone : s'.data.mailFrom = none) :
    s'.state ≠ .closed := by
  unfold finishMessage at hs
  cases hr : queueMessage apply a s.data with
  | none => rw [hr] at hs; cases hs
  | some r =>
    rw [hr] at hs
    cases hs
    cases hanswers : r.answers with
    | true => simp
    | false =>
      have hsome := queueMessage_isSome hr hanswers
      simp only [hanswers, Bool.false_eq_true, if_false] at hnone
      rw [hnone] at hsome
      cases hsome

/-- Bytes that complete no message leave the sender. -/
theorem stepBytes_cases {s s' : Session} {p} {a}
    {read count : ℕ} {complete : Bool} (hs : stepBytes apply s p a read count complete = some s') :
    (completesMessage s p read complete ∧
        finishMessage apply a
          { s with data := { s.data with message := s.data.message + count } } = some s') ∨
      (completesMessage s p read complete = false ∧ s'.data.mailFrom = s.data.mailFrom) := by
  unfold stepBytes at hs
  unfold completesMessage
  cases hstate : s.state with
  | request | closed =>
    rw [hstate] at hs
    cases hs
    exact .inr ⟨rfl, rfl⟩
  | line | dataTooLarge =>
    simp only [hstate] at hs
    split at hs <;> cases hs <;> exact .inr ⟨rfl, rfl⟩
  | data =>
    simp only [hstate] at hs
    by_cases hsize : s.data.message + read < p.maxMessageSize
    · rw [if_pos hsize] at hs
      cases complete with
      | true => exact .inl ⟨by simp [hsize], hs⟩
      | false =>
        cases hs
        exact .inr ⟨Bool.and_false _, rfl⟩
    · rw [if_neg hsize] at hs
      cases hs
      exact .inr ⟨by simp [hsize], rfl⟩
  | bdat isLast =>
    simp only [hstate] at hs
    cases complete with
    | false =>
      cases hs
      exact .inr ⟨rfl, rfl⟩
    | true =>
      cases hcan : canSendData p s.data with
      | false =>
        rw [hcan] at hs
        cases hs
        exact .inr ⟨rfl, rfl⟩
      | true =>
        rw [hcan] at hs
        cases isLast with
        | true => exact .inl ⟨rfl, hs⟩
        | false =>
          cases hs
          exact .inr ⟨rfl, rfl⟩

/-- EHLO: `reset` puts the parameters back, and a rejected greeting finds none. -/
theorem handleEhlo_clean {p} {a : EhloAnswers} {domain : String}
    {d : SessionData} {q : TransactionParameters} (h : d.mailFrom = none → q = {})
    (hok : domain ≠ d.heloDomain → (p.ehloRejectNonFqdn && !a.validLabels) = false →
      ehloRejected p a → q = {})
    (hnone : (handleEhlo p a domain d).mailFrom = none)
    (hreset : greetingResets p a domain d = false) : q = {} := by
  by_cases hsender : d.mailFrom = none
  · exact h hsender
  · have hsome : d.mailFrom.isSome := Option.isSome_iff_ne_none.2 hsender
    unfold greetingResets at hreset
    unfold handleEhlo at hnone
    by_cases hdomain : domain = d.heloDomain
    · simp [hdomain, hsome] at hreset
    · rw [if_pos hdomain] at hnone
      cases hlabels : p.ehloRejectNonFqdn && !a.validLabels with
      | true =>
        rw [hlabels] at hnone
        cases hsender hnone
      | false =>
        cases hrejected : ehloRejected p a with
        | true => exact hok hdomain hlabels hrejected
        | false => simp [hlabels, hrejected, hsome] at hreset

theorem handleMail_clean (laws : EnvelopeLaws apply) (hkeeps : KeepsParameters applyParameters)
    {p} {e} {cmd : MailFrom} {d : SessionData}
    {q} {r : MailResult} (h : d.mailFrom = none → q = {})
    (hok : passesParameters p e cmd = false → StoresNothing apply p e cmd d q)
    (hr : handleMail apply applyParameters p e cmd d q = some r) (hnone : r.data.mailFrom = none) :
    r.parameters = {} := by
  rcases handleMail_spec hkeeps hr with ⟨-, hq, hd | ⟨hd, -⟩⟩ | ⟨hreach, d', hd', hsettled⟩
  · rw [hq]
    exact h (hd ▸ hnone)
  · rw [hq]
    exact h hd
  · rcases hsettled with ⟨-, -, rfl, -⟩ | ⟨hp, -, hq⟩
    · have hsome := (laws.kept_foldl e.script.modifications (d.setSender cmd.sender)).mailFrom rfl
      obtain ⟨d'', hd'', hsome', -⟩ := rewriteSender_spec hsome e.rewrite
      obtain rfl := Option.some_inj.1 (hd''.symm.trans hd')
      rw [hnone] at hsome'
      cases hsome'
    · rw [hq, stored_eq_iff.2 (hok hp hreach)]
      refine h (mailFrom_of_mailRefusal (p := p) (e := e) ?_)
      unfold reachesParameters at hreach
      simp only [Bool.and_eq_true, Option.isNone_iff_eq_none] at hreach
      exact hreach.1.1.1

/-- DATA, BDAT and everything that leaves the envelope alone. -/
def Label.isNeutral : Label M → Prop
  | .dataCommand .. | .bdatCommand .. | .other .. | .close => True
  | _ => False

theorem mailFrom_step {s s' : Session} {label : Label M} (hlabel : label.isNeutral)
    (hs : step apply s label = some s') : s'.data.mailFrom = s.data.mailFrom := by
  unfold step at hs
  cases label with
  | mail | ehlo | rcpt | rset | bytes => cases hlabel
  | dataCommand | bdatCommand =>
    cases hst : s.state <;> simp only [hst, stepRequest] at hs
    case request => split at hs <;> cases hs <;> rfl
    all_goals cases hs; rfl
  | other line | close =>
    cases hst : s.state <;> simp only [hst] at hs <;> cases hs <;> rfl

/-- The commands and bytes other than MAIL. -/
theorem step_clean (laws : EnvelopeLaws apply) {s : MailSession} {s' : Session} {label : Label M}
    {hlabel : label.isMail = false} (h : Clean s) (hok : KeepsClean apply s (.other label hlabel))
    (hs : step apply s.session label = some s') :
    Clean ⟨s', parametersAfter applyParameters s s' label⟩ := by
  intro hnone
  have hunread (hstate : s.session.state ≠ .request) (hbytes : ∀ p a read count complete,
      label ≠ .bytes p a read count complete) : s'.data.mailFrom = s.session.data.mailFrom := by
    unfold step at hs
    cases hst : s.session.state with
    | request => cases hstate hst
    | closed =>
      rw [hst] at hs
      cases hs
      rfl
    | _ =>
      simp only [hst] at hs
      cases label with
      | bytes p a read count complete => cases hbytes p a read count complete rfl
      | _ => cases hs; rfl
  cases label with
  | mail p a sender => cases hlabel
  | ehlo p a domain =>
    by_cases hstate : s.session.state = .request
    · unfold step at hs
      rw [hstate] at hs
      cases hs
      cases hreset : greetingResets p a domain s.session.data with
      | true => simp [parametersAfter, hstate, hreset]
      | false =>
        simp only [parametersAfter, hreset, Bool.and_false]
        exact handleEhlo_clean h (hok hstate) hnone hreset
    · have hmail := hunread hstate (by rintro _ _ _ _ _ ⟨⟩)
      simp only [parametersAfter, hstate]
      exact h (hmail.symm.trans hnone)
  | rset =>
    by_cases hstate : s.session.state = .request
    · simp [parametersAfter, hstate]
    · have hmail := hunread hstate (by rintro _ _ _ _ _ ⟨⟩)
      simp only [parametersAfter, hstate]
      exact h (hmail.symm.trans hnone)
  | rcpt p a recipient usesDsn =>
    by_cases hstate : s.session.state = .request
    · unfold step at hs
      simp only [hstate, stepRequest] at hs
      cases hr : handleRcptTo apply p a recipient usesDsn s.session.data with
      | none => rw [hr] at hs; cases hs
      | some r =>
        rw [hr] at hs
        cases hs
        -- a recipient within a transaction does not end it
        have hmail : s.session.data.mailFrom = none := by
          by_contra hsender
          have hsome := handleRcptTo_isSome laws hr (Option.isSome_iff_ne_none.2 hsender)
          rw [show r.data.mailFrom = none from hnone] at hsome
          cases hsome
        simp [parametersAfter, rcptModifications, hmail, h hmail]
    · have hmail := hunread hstate (by rintro _ _ _ _ _ ⟨⟩)
      simp only [parametersAfter, hstate, if_false]
      exact h (hmail.symm.trans hnone)
  | bytes p a read count complete =>
    by_cases hread : s.session.state = .request ∨ s.session.state = .closed
    · have hsame : s' = s.session ∧ completesMessage s.session p read complete = false := by
        unfold step stepRequest at hs
        unfold completesMessage
        rcases hread with hst | hst <;> rw [hst] at hs ⊢ <;> cases hs <;> exact ⟨rfl, rfl⟩
      simp only [parametersAfter, hsame.2]
      exact h (hsame.1 ▸ hnone)
    · have hbytes : stepBytes apply s.session p a read count complete = some s' := by
        unfold step at hs
        cases hst : s.session.state <;> simp only [hst] at hs hread
        all_goals first | exact hs | simp at hread
      rcases stepBytes_cases hbytes with ⟨hcomplete, hfinish⟩ | ⟨hcomplete, hmail⟩
      · simp [parametersAfter, hcomplete, finishMessage_clean hfinish hnone]
      · simp only [parametersAfter, hcomplete]
        exact h (hmail.symm.trans hnone)
  | dataCommand | bdatCommand | other | close =>
    exact h ((mailFrom_step (by trivial) hs).symm.trans hnone)

/-- **Step lemma**: outside a transaction nothing is left behind. -/
theorem stepParameters_clean (laws : EnvelopeLaws apply)
    (hkeeps : KeepsParameters applyParameters) (s : MailSession) (input : Input M)
    (s' : MailSession) (h : Clean s) (hok : KeepsClean apply s input)
    (hs : stepParameters apply applyParameters s input = some s') : Clean s' := by
  cases input with
  | other label hlabel =>
    unfold stepParameters at hs
    simp only at hs
    cases hstep : step apply s.session label with
    | none => rw [hstep] at hs; cases hs
    | some session =>
      rw [hstep] at hs
      cases hs
      exact step_clean laws h hok hstep
  | mail p e cmd =>
    unfold stepParameters at hs
    simp only at hs
    by_cases hstate : s.session.state = .request
    · rw [if_pos hstate] at hs
      cases hr : handleMail apply applyParameters p e cmd s.session.data s.parameters with
      | none => rw [hr] at hs; cases hs
      | some r =>
        rw [hr] at hs
        cases hs
        exact handleMail_clean laws hkeeps h (hok hstate) hr
    · rw [if_neg hstate] at hs
      cases hs
      exact h

/-! ## Rejected commands -/

section

variable (hkeeps : KeepsParameters applyParameters) {p : SessionParameters} {e : MailEnvironment M}
  {cmd : MailFrom} {d : SessionData} {r : MailResult} (hnone : d.mailFrom = none)
include hkeeps hnone

theorem handleMail_rejected {q : TransactionParameters}
    (hr : handleMail apply applyParameters p e cmd d q = some r)
    (hrejected : r.reply.isRejection) :
    r.data.mailFrom = none ∧ (r.parameters = q ↔ StoresNothing apply p e cmd d q) := by
  rcases handleMail_spec hkeeps hr with ⟨hreach, hq, hd⟩ | ⟨hreach, d', -, hsettled⟩
  · refine ⟨?_, fun _ h => ?_, fun _ => hq⟩
    · rcases hd with hd | ⟨-, hd⟩
      · exact hd ▸ hnone
      · exact hd
    · rw [hreach] at h
      cases h
  · rcases hsettled with ⟨-, hreply, -, -⟩ | ⟨-, hd, hq⟩
    · rw [hreply] at hrejected
      cases hrejected
    · refine ⟨hd, ?_⟩
      rw [hq, stored_eq_iff]
      exact ⟨fun h _ => h, fun h => h hreach⟩

theorem handleMail_accepted (hr : handleMail apply applyParameters p e cmd d {} = some r)
    (haccepted : r.data.mailFrom.isSome) (hby : cmd.givesDeliverBy = false)
    (hpriority : cmd.givesPriority = false) (hhold : cmd.givesHold = false) :
    r.parameters = { spfMailFrom := if p.spfMailFromVerify then some e.spf else none } := by
  have hdropped (hd : r.data.mailFrom = none) : False := by
    rw [hd] at haccepted
    cases haccepted
  rcases handleMail_spec hkeeps hr with ⟨-, -, hd | ⟨-, hd⟩⟩ | ⟨-, d', -, hsettled⟩
  · exact (hdropped (hd ▸ hnone)).elim
  · exact (hdropped hd).elim
  · rcases hsettled with ⟨-, -, -, hq⟩ | ⟨-, hd, -⟩
    · rw [hq]
      simp [stored, storesDeliverBy, storesPriority, storesHold, hby, hpriority, hhold]
    · exact (hdropped hd).elim

end

/-- **Rejected MAIL commands.** Without an open transaction, a MAIL that is rejected leaves the
sender and the parameters as they were exactly if it is turned away before its parameters or stores
only what the session holds. In every run of such rejections, without a greeting rejected while
parameters are stored, an accepted MAIL starts with the defaults. -/
theorem rejectedMail_keeps_iff (laws : EnvelopeLaws apply)
    (hkeeps : KeepsParameters applyParameters) :
    (∀ (s : MailSession) p e cmd r, s.session.data.mailFrom = none →
      handleMail apply applyParameters p e cmd s.session.data s.parameters = some r →
      r.reply.isRejection →
      ((r.data.mailFrom = s.session.data.mailFrom ∧ r.parameters = s.parameters) ↔
        StoresNothing apply p e cmd s.session.data s.parameters)) ∧
    ∀ (inputs : List (Input M)) (s : MailSession),
      Runs.exec (stepParameters apply applyParameters) startParameters inputs = some s →
      Runs.Along (stepParameters apply applyParameters) (KeepsClean apply) startParameters inputs →
      s.session.data.mailFrom = none →
      s.parameters = {} ∧
        ∀ p e cmd r,
          handleMail apply applyParameters p e cmd s.session.data s.parameters = some r →
          r.data.mailFrom.isSome → cmd.givesDeliverBy = false →
          cmd.givesPriority = false → cmd.givesHold = false →
          r.parameters = { spfMailFrom := if p.spfMailFromVerify then some e.spf else none } := by
  constructor
  · intro s p e cmd r hnone hr hrejected
    obtain ⟨hd, hiff⟩ := handleMail_rejected hkeeps hnone hr hrejected
    rw [← hiff, hd, hnone]
    exact ⟨fun h => h.2, fun h => ⟨rfl, h⟩⟩
  · intro inputs s hexec halong hnone
    have hclean : Clean s := Runs.exec_invariant_of_some (I := Clean)
      (stepParameters_clean laws hkeeps) (fun _ => rfl) halong hexec
    refine ⟨hclean hnone, fun p e cmd r hr haccepted hby hpriority hhold => ?_⟩
    rw [hclean hnone] at hr
    exact handleMail_accepted hkeeps hnone hr haccepted hby hpriority hhold

end Apply

/-! ## A session that keeps the condition, and one that does not -/

namespace Sample

/-- Everything is allowed, with the default message size; `deliverBy` is the configured maximum. -/
def environment (deliverBy : Option ℕ) : MailEnvironment SessionAddress where
  authenticatedAs := none
  authenticatedEmails := []
  iprevStrict := false
  iprev := none
  isAllowed := none
  script := .accept []
  scriptMessage := ⟨550, "5.7.1 Rejected."⟩
  milter := none
  mtaHook := none
  rewrite := none
  mustMatchSender := none
  requireTls := none
  deliverBy := deliverBy
  mtPriority := false
  maxMessageSize := some 104857600
  futureRelease := none
  now := 0
  dsn := none
  withinRate := true
  spf := ⟨.none, "none", "a"⟩
  spfStrict := false

/-- A MAIL of two hundred million bytes that is to be delivered within the hour. -/
def bigMail : MailFrom :=
  ⟨address "sender" "a", 200000000, false, false, true, 3600, 0, 0, 0⟩

def plainMail : MailFrom := ⟨address "sender" "a", 0, false, false, false, 0, 0, 0, 0⟩

def greeting : Input SessionAddress := .other (ehlo "a" true) rfl

/-- The session after the greeting. -/
def greeted : MailSession := ⟨{ start with data := { start.data with heloDomain := "a" } }, {}⟩

def keepParameters (q : TransactionParameters) (_ : SessionAddress) : TransactionParameters := q

theorem keepParameters_keeps : KeepsParameters keepParameters := fun _ _ => rfl

end Sample

open Sample in
theorem exec_session_rejected :
    let inputs := [greeting, .mail parameters (environment none) bigMail]
    ∃ t, Runs.exec (stepParameters setEnvelopeFrom keepParameters) startParameters inputs =
        some t ∧
      Runs.exec (step setEnvelopeFrom) startParameters.session
        (inputLabels setEnvelopeFrom keepParameters startParameters inputs) = some t.session :=
  ⟨_, rfl, (exec_session keepParameters_keeps startParameters _).symm⟩

open Sample in
/-- The session has DELIVERBY disabled: the command is rejected at BY and stores nothing. -/
theorem rejectedMail_keeps_iff_disabled :
    ∃ r, handleMail setEnvelopeFrom keepParameters parameters (environment none) bigMail
        greeted.session.data greeted.parameters = some r ∧
      r.reply.isRejection ∧ r.data.mailFrom = greeted.session.data.mailFrom ∧
      r.parameters = greeted.parameters ∧
      ∃ s, Runs.exec (stepParameters setEnvelopeFrom keepParameters) startParameters
          [greeting, .mail parameters (environment none) bigMail] = some s ∧ s.parameters = {} := by
  obtain ⟨hiff, hruns⟩ := rejectedMail_keeps_iff setEnvelopeFrom_laws keepParameters_keeps
  have hstores (d : SessionData) (q : TransactionParameters) :
      StoresNothing setEnvelopeFrom parameters (environment none) bigMail d q := fun _ =>
    ⟨(fun h => by cases h), (fun h => by cases h), (fun h => by cases h)⟩
  obtain ⟨r, hr, hrejected⟩ : ∃ r, handleMail setEnvelopeFrom keepParameters parameters
      (environment none) bigMail greeted.session.data greeted.parameters = some r ∧
        r.reply.isRejection := ⟨_, rfl, rfl⟩
  obtain ⟨hsender, hq⟩ := (hiff greeted parameters _ bigMail r rfl hr hrejected).2 (hstores _ _)
  obtain ⟨s, hs, hnone⟩ : ∃ s, Runs.exec (stepParameters setEnvelopeFrom keepParameters)
      startParameters [greeting, .mail parameters (environment none) bigMail] = some s ∧
        s.session.data.mailFrom = none := ⟨_, rfl, rfl⟩
  refine ⟨r, hr, hrejected, hsender, hq, s, hs, (hruns _ s hs ?_ hnone).1⟩
  refine .cons (fun _ _ _ h => by cases h) rfl ?_
  refine .cons (fun _ _ => hstores _ _) rfl ?_
  trivial

open Sample in
/-- **A rejected MAIL whose BY reaches the next transaction**: the message of the next one is
returned after an hour. -/
theorem rejectedMail_stores_deliverBy :
    EnvelopeLaws setEnvelopeFrom ∧ KeepsParameters keepParameters ∧
    ∃ s r, Runs.exec (stepParameters setEnvelopeFrom keepParameters) startParameters
        [greeting] = some s ∧ s.session.data.mailFrom = none ∧
      handleMail setEnvelopeFrom keepParameters parameters (environment (some 86400)) bigMail
        s.session.data s.parameters = some r ∧
      r.reply = ⟨552, "5.3.4 Message too big for system."⟩ ∧ r.parameters ≠ s.parameters ∧
      ∃ r', handleMail setEnvelopeFrom keepParameters parameters (environment (some 86400))
          plainMail r.data r.parameters = some r' ∧
        r'.reply = ⟨250, "2.1.0 OK"⟩ ∧ r'.parameters.deliveryBy = 3600 := by
  refine ⟨setEnvelopeFrom_laws, keepParameters_keeps, _, _, rfl, rfl, rfl, rfl, ?_, _, rfl, rfl,
    rfl⟩
  decide

end MailServer.Smtp
