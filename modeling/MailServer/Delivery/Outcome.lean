import MailServer.Delivery.Deliver
import Mathlib.Data.List.Nodup
import Mathlib.Order.Fin.Basic

/-!
# The outcome of each recipient

Results are applied in the order in which they were pushed, so the last one that names a recipient
decides.  The results of `RCPT TO` come first; a failure of a later step is one result for all
recipients of the route.

Principal results: `own_outcome_iff`, `refusal_overwritten`.
-/

namespace MailServer.Delivery

open List

variable {Name : Type}

/-! ## What the replies say -/

section Replies

variable {n : ℕ}

/-- The transaction gets to the recipients. -/
def Script.Opened (script : Script n) : Prop :=
  script.helo = none ∧ script.auth = none ∧
    ∃ response, script.mail = .ok response ∧ response.code / 100 = 2

def Script.answers (script : Script n) (rcptIdx : Fin n) : Bool :=
  match script.rcpt rcptIdx with
  | .ok _ => true
  | .error _ => false

def Script.accepts (script : Script n) (rcptIdx : Fin n) : Bool :=
  match script.rcpt rcptIdx with
  | .ok response => response.code / 100 = 2
  | .error _ => false

/-- The recipients whose `RCPT TO` is sent and answered: all before the first that fails. -/
def Script.answered (script : Script n) (rcptIdxs : List (Fin n)) : List (Fin n) :=
  rcptIdxs.takeWhile script.answers

/-- The recipients accepted at `RCPT TO`, in order. -/
def Script.acceptedIdxs (script : Script n) (rcptIdxs : List (Fin n)) : List (Fin n) :=
  (script.answered rcptIdxs).filter script.accepts

/-- The reply a recipient gets to its `RCPT TO`. -/
def Script.RcptReply (script : Script n) (rcptIdxs : List (Fin n)) (rcptIdx : Fin n)
    (response : Response) : Prop :=
  script.Opened ∧ rcptIdx ∈ script.answered rcptIdxs ∧ script.rcpt rcptIdx = .ok response

/-- The data phase begins: all recipients have a reply and some are accepted. -/
def Script.DataStarted (script : Script n) (rcptIdxs : List (Fin n)) : Prop :=
  script.Opened ∧ (∀ rcptIdx ∈ rcptIdxs, script.answers rcptIdx) ∧
    script.acceptedIdxs rcptIdxs ≠ []

/-- The message is sent. -/
def Script.Sent (script : Script n) : Prop :=
  script.blob ∧ script.sendTimeout = false ∧ script.write = none ∧
    (script.chunking ∨
      (∃ response, script.data = .ok response ∧ response.code = 354) ∧
        script.writeMessage = none)

/-- The reply to the message for an accepted recipient: over LMTP the replies come in the order of
the accepted recipients. -/
def Script.FinalResponse (script : Script n) (isSmtp : Bool) (rcptIdxs : List (Fin n))
    (rcptIdx : Fin n) (response : Response) : Prop :=
  script.DataStarted rcptIdxs ∧ script.Sent ∧
    if isSmtp then
      rcptIdx ∈ script.acceptedIdxs rcptIdxs ∧ script.final 0 = .reply response
    else
      ∃ pos, (script.acceptedIdxs rcptIdxs)[pos]? = some rcptIdx ∧
        (∀ pos' < pos, ∃ response', script.final pos' = .reply response') ∧
        script.final pos = .reply response

/-- The data phase fails as a whole. -/
def Script.DataFails (script : Script n) (isSmtp : Bool) (rcptIdxs : List (Fin n)) : Prop :=
  ¬ script.Sent ∨
    if isSmtp then ¬ ∃ response, script.final 0 = .reply response ∧ response.code = 250
    else ∃ pos < (script.acceptedIdxs rcptIdxs).length,
      ∀ response, script.final pos ≠ .reply response

end Replies

section Promise

variable (severity : Response → Severity)

/-- Each recipient has the outcome of its own replies. -/
structure OwnOutcome {m : Message Name} (params : SessionParams m.recipients.length)
    (script : Script m.recipients.length) (rcptIdxs : List (Fin m.recipients.length))
    (status : Fin m.recipients.length → Status) : Prop where
  refusedForGood : ∀ rcptIdx response, script.RcptReply rcptIdxs rcptIdx response →
    response.code / 100 = 5 → ∃ err, status rcptIdx = .permanentFailure err
  refused : ∀ rcptIdx response, script.RcptReply rcptIdxs rcptIdx response →
    response.code / 100 = 4 → status rcptIdx =
      .temporaryFailure ⟨params.hostname,
        .unexpectedResponse (rcptCommand params rcptIdx) response⟩
  accepted : ∀ rcptIdx response, script.RcptReply rcptIdxs rcptIdx response →
    response.code / 100 = 2 →
    ((∃ host, status rcptIdx = .completed host) ↔
      ∃ final, script.FinalResponse params.isSmtp rcptIdxs rcptIdx final ∧ final.code / 100 = 2)
  data : script.DataStarted rcptIdxs →
    ∀ rcptIdx response, script.RcptReply rcptIdxs rcptIdx response → response.code / 100 ≠ 2 →
      status rcptIdx =
        rejection severity params.hostname (rcptCommand params rcptIdx) response

/-- No result for the whole route is pushed over what a recipient was told. -/
structure NotOverwritten {m : Message Name} (params : SessionParams m.recipients.length)
    (script : Script m.recipients.length) (rcptIdxs : List (Fin m.recipients.length)) :
    Prop where
  /-- A `RCPT TO` without a reply: nobody was refused before. -/
  aborted : script.Opened → (∃ rcptIdx ∈ rcptIdxs, script.answers rcptIdx = false) →
    ∀ rcptIdx response, script.RcptReply rcptIdxs rcptIdx response →
      response.code / 100 ≠ 4 ∧ response.code / 100 ≠ 5
  /-- A data phase that fails: everybody was accepted. -/
  failed : script.DataStarted rcptIdxs → script.DataFails params.isSmtp rcptIdxs →
    ∀ rcptIdx response, script.RcptReply rcptIdxs rcptIdx response → response.code / 100 = 2
  /-- A data phase that fails: nobody had a positive final reply, be it one other than 250 or one
  that came before a missing one. -/
  positive : script.DataStarted rcptIdxs → script.DataFails params.isSmtp rcptIdxs →
    ∀ rcptIdx response, script.FinalResponse params.isSmtp rcptIdxs rcptIdx response →
      response.code / 100 ≠ 2

end Promise

/-! ## The last result decides -/

def Message.statusAt (m : Message Name) (rcptIdx : ℕ) : Option Status :=
  m.recipients[rcptIdx]?.map Recipient.status

/-- The status a result gives to a recipient. -/
def DeliveryResult.statusFor (rcptIdx : ℕ) : DeliveryResult → Option Status
  | .domain status rcptIdxs => if rcptIdx ∈ rcptIdxs then some status else none
  | .account status rcptIdx' => if rcptIdx = rcptIdx' then some status else none
  | .rateLimited rcptIdxs _ =>
    if rcptIdx ∈ rcptIdxs then some (.temporaryFailure ⟨"localhost", .rateLimited⟩) else none

/-- The status the last result that names the recipient gives to it. -/
def lastStatus (rcptIdx : ℕ) : List DeliveryResult → Option Status
  | [] => none
  | result :: results => (lastStatus rcptIdx results).or (result.statusFor rcptIdx)

theorem lastStatus_append (rcptIdx : ℕ) (results results' : List DeliveryResult) :
    lastStatus rcptIdx (results ++ results') =
      (lastStatus rcptIdx results').or (lastStatus rcptIdx results) := by
  induction results with
  | nil => simp [lastStatus]
  | cons result results ih => rw [cons_append, lastStatus, lastStatus, ih, Option.or_assoc]

/-- The recipients a result names. -/
def DeliveryResult.rcptIdxs : DeliveryResult → List ℕ
  | .domain _ rcptIdxs | .rateLimited rcptIdxs _ => rcptIdxs
  | .account _ rcptIdx => [rcptIdx]

theorem statusAt_modifyRcpt {m : Message Name} {rcptIdx : ℕ} {status : Status}
    {f} (hf : ∀ rcpt, (f rcpt).status = status)
    (hlt : rcptIdx < m.recipients.length) :
    ∃ m', m.modifyRcpt rcptIdx f = some m' ∧ m'.recipients.length = m.recipients.length ∧
      ∀ j, m'.statusAt j = if j = rcptIdx then some status else m.statusAt j := by
  refine ⟨_, if_pos hlt, length_modify .., fun j => ?_⟩
  unfold Message.statusAt
  by_cases hj : j = rcptIdx
  · subst hj
    simp [hlt, hf]
  · simp [hj, Ne.symm hj]

theorem Recipient.setStatus_status (rcpt : Recipient Name) (status : Status)
    (queue : QueueStrategy Name) (now : ℕ) : (rcpt.setStatus status queue now).status = status := by
  unfold Recipient.setStatus
  split
  · rfl
  · rfl

theorem statusAt_foldlM {m : Message Name} {rcptIdxs : List ℕ} {status : Status}
    {f}
    (hf : ∀ m rcptIdx, rcptIdx < m.recipients.length →
      ∃ m', f m rcptIdx = some m' ∧ m'.recipients.length = m.recipients.length ∧
        ∀ j, m'.statusAt j = if j = rcptIdx then some status else m.statusAt j)
    (hlt : ∀ rcptIdx ∈ rcptIdxs, rcptIdx < m.recipients.length) :
    ∃ m', rcptIdxs.foldlM f m = some m' ∧ m'.recipients.length = m.recipients.length ∧
      ∀ j, m'.statusAt j = if j ∈ rcptIdxs then some status else m.statusAt j := by
  induction rcptIdxs generalizing m with
  | nil => exact ⟨m, rfl, rfl, fun j => by simp⟩
  | cons rcptIdx rest ih =>
    obtain ⟨m₁, hm₁, hlength₁, hstatus₁⟩ := hf m rcptIdx (hlt rcptIdx (.head _))
    obtain ⟨m₂, hm₂, hlength₂, hstatus₂⟩ := ih (m := m₁) (fun i hi => by
      rw [hlength₁]
      exact hlt i (.tail _ hi))
    refine ⟨m₂, ?_, hlength₂.trans hlength₁, fun j => ?_⟩
    · rw [foldlM_cons, hm₁]
      exact hm₂
    · rw [hstatus₂, hstatus₁]
      by_cases hrest : j ∈ rest
      · simp [hrest]
      · simp [hrest]

theorem ite_some_or {p : Prop} [Decidable p] (status : Status) (other : Option Status) :
    (if p then some status else none).or other = if p then some status else other := by
  split
  · rfl
  · rfl

theorem statusAt_applyResult (config : QueueConfig Name) (now : ℕ) {m : Message Name}
    {result} (hlt : ∀ rcptIdx ∈ result.rcptIdxs, rcptIdx < m.recipients.length) :
    ∃ m', applyResult config now m result = some m' ∧
      m'.recipients.length = m.recipients.length ∧
      ∀ j, m'.statusAt j = (result.statusFor j).or (m.statusAt j) := by
  have hset : ∀ status (m : Message Name) rcptIdx,
      rcptIdx < m.recipients.length →
      ∃ m', m.setRcptStatus status rcptIdx (config m status rcptIdx) now = some m' ∧
        m'.recipients.length = m.recipients.length ∧
        ∀ j, m'.statusAt j = if j = rcptIdx then some status else m.statusAt j :=
    fun status m rcptIdx h =>
      statusAt_modifyRcpt (fun rcpt => rcpt.setStatus_status status _ now) h
  cases result with
  | domain status rcptIdxs =>
    obtain ⟨m', hm', hlength, hstatus⟩ := statusAt_foldlM (hset status) hlt
    refine ⟨m', hm', hlength, fun j => ?_⟩
    rw [hstatus, DeliveryResult.statusFor, ite_some_or]
    rfl
  | account status rcptIdx =>
    obtain ⟨m', hm', hlength, hstatus⟩ :=
      hset status m rcptIdx (hlt rcptIdx (mem_singleton_self _))
    refine ⟨m', hm', hlength, fun j => ?_⟩
    rw [hstatus, DeliveryResult.statusFor, ite_some_or]
  | rateLimited rcptIdxs retryAt =>
    have hlimit : ∀ (m : Message Name) rcptIdx, rcptIdx < m.recipients.length →
        ∃ m', m.setRcptRateLimit rcptIdx retryAt = some m' ∧
          m'.recipients.length = m.recipients.length ∧
          ∀ j, m'.statusAt j =
            if j = rcptIdx then some (.temporaryFailure ⟨"localhost", .rateLimited⟩)
            else m.statusAt j :=
      fun m rcptIdx h => statusAt_modifyRcpt (fun _ => rfl) h
    obtain ⟨m', hm', hlength, hstatus⟩ := statusAt_foldlM hlimit hlt
    refine ⟨m', hm', hlength, fun j => ?_⟩
    rw [hstatus, DeliveryResult.statusFor, ite_some_or]
    rfl

/-- **The last result decides.** -/
theorem statusAt_applyResults (config : QueueConfig Name) (now : ℕ) {m : Message Name}
    {results}
    (hlt : ∀ result ∈ results, ∀ rcptIdx ∈ result.rcptIdxs, rcptIdx < m.recipients.length) :
    ∃ m', applyResults config now m results = some m' ∧
      m'.recipients.length = m.recipients.length ∧
      ∀ j, m'.statusAt j = (lastStatus j results).or (m.statusAt j) := by
  induction results generalizing m with
  | nil => exact ⟨m, rfl, rfl, fun j => rfl⟩
  | cons result results ih =>
    obtain ⟨m₁, hm₁, hlength₁, hstatus₁⟩ :=
      statusAt_applyResult config now (hlt result (.head _))
    obtain ⟨m₂, hm₂, hlength₂, hstatus₂⟩ := ih (m := m₁) (fun r hr i hi => by
      rw [hlength₁]
      exact hlt r (.tail _ hr) i hi)
    refine ⟨m₂, ?_, hlength₂.trans hlength₁, fun j => ?_⟩
    · rw [applyResults, foldlM_cons, hm₁]
      exact hm₂
    · rw [hstatus₂, hstatus₁, lastStatus, Option.or_assoc]

theorem lastStatus_domain {status : Status} {rcptIdxs : List ℕ} {j : ℕ} (h : j ∈ rcptIdxs)
    (results : List DeliveryResult) :
    lastStatus j (results ++ [.domain status rcptIdxs]) = some status := by
  rw [lastStatus_append]
  simp [lastStatus, DeliveryResult.statusFor, h]

theorem lastStatus_account_of_not_mem {α : Type} {status : α → Status} {rcptIdx : α → ℕ}
    {items : List α} {j : ℕ} (h : j ∉ items.map rcptIdx) :
    lastStatus j (items.map (fun item => .account (status item) (rcptIdx item))) = none := by
  induction items with
  | nil => rfl
  | cons item items ih =>
    rw [map_cons, mem_cons, not_or] at h
    rw [map_cons, lastStatus, ih h.2]
    simp [DeliveryResult.statusFor, h.1]

theorem lastStatus_account_of_mem {α : Type} {status : α → Status} {rcptIdx : α → ℕ}
    {items : List α} (hnodup : (items.map rcptIdx).Nodup) {item : α} (hmem : item ∈ items) :
    lastStatus (rcptIdx item) (items.map (fun item => .account (status item) (rcptIdx item))) =
      some (status item) := by
  induction items with
  | nil => cases hmem
  | cons head items ih =>
    obtain ⟨hnew, hrest⟩ := nodup_cons.1 hnodup
    rw [map_cons, lastStatus]
    rcases mem_cons.1 hmem with rfl | hitems
    · rw [lastStatus_account_of_not_mem hnew]
      simp [DeliveryResult.statusFor]
    · rw [ih hrest hitems]
      rfl

/-- The recipients for which `f` has a status, with it. -/
def outcomes {n : ℕ} (f : Fin n → Option Status) (rcptIdxs : List (Fin n)) :
    List (Fin n × Status) :=
  rcptIdxs.filterMap fun i => (f i).map (fun status => (i, status))

theorem mem_outcomes {n : ℕ} {f : Fin n → Option Status} {rcptIdxs : List (Fin n)} {i : Fin n}
    {status : Status} : (i, status) ∈ outcomes f rcptIdxs ↔ i ∈ rcptIdxs ∧ f i = some status := by
  unfold outcomes
  rw [mem_filterMap]
  constructor
  · rintro ⟨j, hj, hmap⟩
    obtain ⟨status', hstatus', heq⟩ := Option.map_eq_some_iff.1 hmap
    cases heq
    exact ⟨hj, hstatus'⟩
  · rintro ⟨hi, hstatus⟩
    exact ⟨i, hi, by rw [hstatus]; rfl⟩

theorem map_fst_outcomes {n : ℕ} (f : Fin n → Option Status) (rcptIdxs : List (Fin n)) :
    (outcomes f rcptIdxs).map Prod.fst = rcptIdxs.filter (fun i => (f i).isSome) := by
  induction rcptIdxs with
  | nil => rfl
  | cons i rest ih =>
    unfold outcomes at ih ⊢
    cases hstatus : f i with
    | none | some => simp [hstatus, ih]

theorem nodup_keys_outcomes {n : ℕ} (f : Fin n → Option Status) {rcptIdxs : List (Fin n)}
    (h : rcptIdxs.Nodup) : ((outcomes f rcptIdxs).map (fun rcpt => rcpt.1.val)).Nodup := by
  have hkeys : ((outcomes f rcptIdxs).map Prod.fst).Nodup := by
    rw [map_fst_outcomes]
    exact h.filter _
  have hvals := hkeys.map Fin.val_injective
  rw [map_map] at hvals
  exact hvals

theorem lastStatus_outcomes {n : ℕ} (f : Fin n → Option Status) {rcptIdxs : List (Fin n)}
    (hnodup : rcptIdxs.Nodup) (i : Fin n) :
    lastStatus i ((outcomes f rcptIdxs).map (fun rcpt => .account rcpt.2 rcpt.1)) =
      if i ∈ rcptIdxs then f i else none := by
  by_cases hmem : ∃ status, (i, status) ∈ outcomes f rcptIdxs
  · obtain ⟨status, hstatus⟩ := hmem
    obtain ⟨hi, hf⟩ := mem_outcomes.1 hstatus
    rw [if_pos hi, hf]
    exact lastStatus_account_of_mem (nodup_keys_outcomes f hnodup) hstatus
  · have hkeys : i.val ∉ (outcomes f rcptIdxs).map (fun rcpt => rcpt.1.val) := by
      intro hin
      obtain ⟨⟨j, status⟩, hj, heq⟩ := mem_map.1 hin
      obtain rfl : j = i := Fin.ext heq
      exact hmem ⟨status, hj⟩
    rw [lastStatus_account_of_not_mem hkeys]
    split
    · rename_i hi
      cases hf : f i with
      | none => rfl
      | some status => cases hmem ⟨status, mem_outcomes.2 ⟨hi, hf⟩⟩
    · rfl

/-! ## What is pushed -/

section Pushed

variable {severity : Response → Severity} {m : Message Name}
  {params : SessionParams m.recipients.length} {script : Script m.recipients.length}
  {rcptIdxs : List (Fin m.recipients.length)}

theorem opening_eq_none_iff (params : SessionParams m.recipients.length)
    (script : Script m.recipients.length) (hsev : SeverityByCode severity) :
    opening severity params script = none ↔ script.Opened := by
  unfold opening Script.Opened
  cases hhelo : script.helo with
  | some status => simp
  | none =>
    cases hauth : script.auth with
    | some err => simp
    | none =>
      cases hmail : script.mail with
      | error failure => simp
      | ok response =>
        by_cases hpositive : severity response = .positiveCompletion <;>
          simp [hpositive, ← hsev.positive response]

/-- The result of a refused recipient. -/
def refusal (severity : Response → Severity) (params : SessionParams m.recipients.length)
    (script : Script m.recipients.length) (rcptIdx : Fin m.recipients.length) : Option Status :=
  match script.rcpt rcptIdx with
  | .ok response =>
    if severity response = .positiveCompletion then none
    else some (rejection severity params.hostname (rcptCommand params rcptIdx) response)
  | .error _ => none

/-- The status that waits for the final reply of an accepted recipient. -/
def acceptance (severity : Response → Severity) (params : SessionParams m.recipients.length)
    (script : Script m.recipients.length) (rcptIdx : Fin m.recipients.length) : Option Status :=
  match script.rcpt rcptIdx with
  | .ok response =>
    if severity response = .positiveCompletion then
      some (.completed ⟨params.hostname, response⟩)
    else none
  | .error _ => none

attribute [local simp] refusal acceptance bdatCommand

/-- The loop over `RCPT TO`: the answered recipients are refused or accepted, in order. -/
theorem rcptPhase_eq (severity : Response → Severity)
    (params : SessionParams m.recipients.length) (script : Script m.recipients.length)
    (hpending : ∀ i ∈ rcptIdxs, (m.recipients.get i).status.isPending) :
    (rcptPhase severity params script rcptIdxs).statuses =
        (outcomes (refusal severity params script) (script.answered rcptIdxs)).map
          (fun rcpt => .account rcpt.2 rcpt.1) ∧
      (rcptPhase severity params script rcptIdxs).accepted =
        outcomes (acceptance severity params script) (script.answered rcptIdxs) ∧
      ((rcptPhase severity params script rcptIdxs).aborted = none ↔
        ∀ i ∈ rcptIdxs, script.answers i) := by
  induction rcptIdxs with
  | nil => exact ⟨rfl, rfl, by simp [rcptPhase]⟩
  | cons i rest ih =>
    obtain ⟨hstatuses, haccepted, haborted⟩ :=
      ih fun j hj => hpending j (.tail _ hj)
    unfold rcptPhase Script.answered outcomes
    rw [if_pos (hpending i (.head _))]
    cases hreply : script.rcpt i with
    | error failure =>
      have hanswers : script.answers i = false := by simp [Script.answers, hreply]
      simp [hanswers]
    | ok response =>
      have hanswers : script.answers i := by simp [Script.answers, hreply]
      rw [takeWhile_cons_of_pos hanswers]
      by_cases hpositive : severity response = .positiveCompletion
      · have hrefusal : refusal severity params script i = none := by
          simp [hreply, hpositive]
        have hacceptance : acceptance severity params script i =
            some (.completed ⟨params.hostname, response⟩) := by
          simp [hreply, hpositive]
        simp only [hpositive, filterMap_cons, hrefusal, hacceptance,
          forall_mem_cons, hanswers, true_and]
        exact ⟨hstatuses, congrArg _ haccepted, haborted⟩
      · have hrefusal : refusal severity params script i =
            some (rejection severity params.hostname (rcptCommand params i) response) := by
          simp [hreply, hpositive]
        have hacceptance : acceptance severity params script i = none := by
          simp [hreply, hpositive]
        simp only [hpositive, filterMap_cons, hrefusal, hacceptance,
          forall_mem_cons, hanswers, true_and]
        exact ⟨congrArg _ hstatuses, haccepted, haborted⟩

/-! ### Results for the whole route -/

/-- A status that no reply to a `RCPT TO` gives. -/
structure WholeRoute (severity : Response → Severity) (params : SessionParams m.recipients.length)
    (status : Status) : Prop where
  not_completed : ∀ host, status ≠ .completed host
  not_rejection : ∀ rcptIdx response,
    status ≠ rejection severity params.hostname (rcptCommand params rcptIdx) response

theorem rejection_eq_or (severity : Response → Severity) (hostname command : String)
    (response : Response) :
    rejection severity hostname command response =
        .permanentFailure ⟨hostname, .unexpectedResponse command response⟩ ∨
      rejection severity hostname command response =
        .temporaryFailure ⟨hostname, .unexpectedResponse command response⟩ := by
  unfold rejection
  split
  · exact .inl rfl
  · exact .inr rfl

theorem rcptCommand_head (rcptIdx : Fin m.recipients.length) :
    (rcptCommand params rcptIdx).toList.head? = some 'R' := by
  simp [rcptCommand]

theorem wholeRoute_temporary {err : ErrorDetails}
    (h : ∀ command response, err.details ≠ .unexpectedResponse command response) :
    WholeRoute severity params (.temporaryFailure err) := by
  refine ⟨(fun host heq => by cases heq), fun rcptIdx response heq => ?_⟩
  rcases rejection_eq_or severity params.hostname (rcptCommand params rcptIdx)
    response with hpermanent | htemporary
  · rw [hpermanent] at heq
    cases heq
  · rw [htemporary] at heq
    cases heq
    exact h _ _ rfl

theorem wholeRoute_rejection (command : String) (response : Response)
    (h : command.toList.head? ≠ some 'R') :
    WholeRoute severity params (rejection severity params.hostname command response) := by
  refine ⟨fun host heq => ?_, fun rcptIdx response' heq => ?_⟩
  · rcases rejection_eq_or severity params.hostname command response with
      hpermanent | htemporary
    · rw [hpermanent] at heq
      cases heq
    · rw [htemporary] at heq
      cases heq
  · have hcommand : command = rcptCommand params rcptIdx := by
      unfold rejection at heq
      split at heq
      · split at heq
        · cases heq
          rfl
        · cases heq
      · split at heq
        · cases heq
        · cases heq
          rfl
    rw [hcommand] at h
    exact h (rcptCommand_head rcptIdx)

theorem wholeRoute_failure (command : String) (failure : IoFailure) :
    WholeRoute severity params (fromSmtpError severity params.hostname command
      (.other failure.kind failure.text)) := by
  rw [fromSmtpError_failure]
  refine wholeRoute_temporary fun command' response heq => ?_
  cases heq

theorem wholeRoute_timeout (stage : String) :
    WholeRoute severity params (timeoutStatus params.hostname stage) :=
  wholeRoute_temporary fun command response heq => by cases heq

theorem dataCommand_head (chunking : Bool) :
    ((bdatCommand m chunking).getD "DATA").toList.head? ≠ some 'R' := by
  cases chunking with
  | true | false => simp

/-! ### The data phase -/

theorem sendMessage_cases (severity : Response → Severity)
    (params : SessionParams m.recipients.length) (script : Script m.recipients.length) :
    (sendMessage severity params script (bdatCommand m script.chunking) = .ok () ∧ script.Sent) ∨
      ∃ status, sendMessage severity params script (bdatCommand m script.chunking) =
        .error status ∧ WholeRoute severity params status ∧ ¬ script.Sent := by
  unfold sendMessage Script.Sent
  cases hblob : script.blob with
  | false => exact .inr ⟨_, rfl, wholeRoute_temporary (by simp), by simp⟩
  | true =>
    cases htimeout : script.sendTimeout with
    | true => exact .inr ⟨_, rfl, wholeRoute_timeout _, by simp⟩
    | false =>
      cases hwrite : script.write with
      | some failure => exact .inr ⟨_, rfl, wholeRoute_failure _ failure, by simp⟩
      | none =>
        cases hchunking : script.chunking with
        | true => exact .inl ⟨rfl, by simp⟩
        | false =>
          cases hdata : script.data with
          | error failure => exact .inr ⟨_, rfl, wholeRoute_failure _ failure, by simp⟩
          | ok response =>
            by_cases hcode : response.code = 354
            · cases hmessage : script.writeMessage with
              | some failure =>
                refine .inr ⟨_, ?_, wholeRoute_failure "DATA" failure, by simp⟩
                simp [hcode]
              | none =>
                refine .inl ⟨?_, by simp [hcode]⟩
                simp [hcode]
            · refine .inr ⟨_, ?_, wholeRoute_rejection "DATA" response (by decide),
                by simp [hcode]⟩
              simp [hcode, fromSmtpError]

theorem readLmtpDataResponse_cases (severity : Response → Severity)
    (params : SessionParams m.recipients.length) (script : Script m.recipients.length)
    (num pos : ℕ) :
    (∃ responses, readLmtpDataResponse severity params script num pos = .ok responses ∧
        responses.length = num ∧
        ∀ i response, responses[i]? = some response → script.final (pos + i) = .reply response) ∨
      ∃ status, readLmtpDataResponse severity params script num pos = .error status ∧
        WholeRoute severity params status ∧
        ∃ i < num, ∀ response, script.final (pos + i) ≠ .reply response := by
  induction num generalizing pos with
  | zero => exact .inl ⟨[], rfl, rfl, fun i response h => by cases h⟩
  | succ num ih =>
    unfold readLmtpDataResponse
    cases hfinal : script.final pos with
    | timedOut =>
      exact .inr ⟨_, rfl, wholeRoute_timeout _, 0, Nat.succ_pos num, by simp [hfinal]⟩
    | failed failure =>
      exact .inr ⟨_, rfl, wholeRoute_failure _ failure, 0, Nat.succ_pos num, by simp [hfinal]⟩
    | reply response =>
      rcases ih (pos + 1) with ⟨responses, hok, hlength, hall⟩ |
        ⟨status, herror, hwhole, i, hi, hno⟩
      · refine .inl ⟨response :: responses, by simp [hok, Except.map], by simp [hlength], ?_⟩
        intro i response' hget
        cases i with
        | zero =>
          cases hget
          exact hfinal
        | succ i =>
          have hnext := hall i response' (by simpa using hget)
          rwa [Nat.add_assoc, Nat.add_comm 1 i] at hnext
      · refine .inr ⟨status, by simp [herror, Except.map], hwhole, i + 1, by omega, ?_⟩
        intro response'
        have hnext := hno response'
        rwa [Nat.add_assoc, Nat.add_comm 1 i] at hnext

theorem map_fst_accepted (params : SessionParams m.recipients.length)
    (script : Script m.recipients.length) (rcptIdxs : List (Fin m.recipients.length))
    (hsev : SeverityByCode severity) :
    (outcomes (acceptance severity params script) (script.answered rcptIdxs)).map Prod.fst =
      script.acceptedIdxs rcptIdxs := by
  rw [map_fst_outcomes]
  refine filter_congr fun i _ => ?_
  unfold acceptance Script.accepts
  cases script.rcpt i with
  | error failure => rfl
  | ok response =>
    by_cases hpositive : severity response = .positiveCompletion <;>
      simp [hpositive, ← hsev.positive response]

variable {accepted : List (Fin m.recipients.length × Status)}

/-- The data phase fails as a whole, delivers to all accepted recipients (SMTP), or has a reply
for each of them (LMTP). -/
theorem dataPhase_cases (severity : Response → Severity)
    (params : SessionParams m.recipients.length)
    (haccepted : accepted.map Prod.fst = script.acceptedIdxs rcptIdxs) :
    (∃ status, dataPhase severity params script rcptIdxs accepted =
        [.domain status (rcptIdxs.map Fin.val)] ∧ WholeRoute severity params status ∧
        script.DataFails params.isSmtp rcptIdxs) ∨
      (¬ script.DataFails params.isSmtp rcptIdxs ∧ script.Sent ∧ params.isSmtp ∧
        dataPhase severity params script rcptIdxs accepted =
          accepted.map (fun rcpt => .account rcpt.2 rcpt.1)) ∨
      (¬ script.DataFails params.isSmtp rcptIdxs ∧ script.Sent ∧ params.isSmtp = false ∧
        ∃ responses, responses.length = accepted.length ∧
          (∀ i response, responses[i]? = some response → script.final i = .reply response) ∧
          dataPhase severity params script rcptIdxs accepted =
            (accepted.zip responses).map (fun rcpt =>
              .account
                (if severity rcpt.2 = .positiveCompletion then
                  .completed ⟨params.hostname, rcpt.2⟩
                else
                  rejection severity params.hostname
                    (((bdatCommand m script.chunking).map (· ++ "\r\n")).getD "DATA") rcpt.2)
                rcpt.1.1)) := by
  have hlength : accepted.length = (script.acceptedIdxs rcptIdxs).length := by
    rw [← haccepted, length_map]
  unfold dataPhase
  dsimp only
  rcases sendMessage_cases severity params script with
    ⟨hok, hsent⟩ | ⟨status, herror, hwhole, hunsent⟩
  · rw [hok]
    unfold Script.DataFails
    cases hsmtp : params.isSmtp with
    | true =>
      simp only [if_true]
      unfold readSmtpDataResponse
      cases hfinal : script.final 0 with
      | timedOut => exact .inl ⟨_, rfl, wholeRoute_timeout _, .inr (by simp)⟩
      | failed failure =>
        exact .inl ⟨_, rfl, wholeRoute_failure _ failure, .inr (by simp)⟩
      | reply response =>
        by_cases hcode : response.code = 250
        · refine .inr (.inl ⟨?_, hsent, trivial, by simp [hcode]⟩)
          rw [not_or, not_not, not_not]
          exact ⟨hsent, response, rfl, hcode⟩
        · exact .inl ⟨rejection severity params.hostname
            ((bdatCommand m script.chunking).getD "DATA") response, by simp [hcode, fromSmtpError],
            wholeRoute_rejection _ response (dataCommand_head script.chunking),
            .inr (by simp [hcode])⟩
    | false =>
      simp only [Bool.false_eq_true]
      rcases readLmtpDataResponse_cases severity params script accepted.length 0 with
        ⟨responses, hread, hnum, hall⟩ | ⟨status, hread, hwhole, i, hi, hno⟩
      · rw [hread]
        refine .inr (.inr ⟨?_, hsent, trivial, responses, hnum, ?_, rfl⟩)
        · rw [not_or, not_not]
          refine ⟨hsent, ?_⟩
          rintro ⟨i, hi, hno⟩
          have hget : responses[i]? = some responses[i] :=
            getElem?_eq_getElem (by omega)
          have hreply := hall i _ hget
          rw [Nat.zero_add] at hreply
          exact hno _ hreply
        · intro i response hget
          have hreply := hall i response hget
          rwa [Nat.zero_add] at hreply
      · rw [hread]
        refine .inl ⟨status, rfl, hwhole, .inr ⟨i, by omega, ?_⟩⟩
        intro response
        have hreply := hno response
        rwa [Nat.zero_add] at hreply
  · rw [herror]
    exact .inl ⟨status, rfl, hwhole, .inl hunsent⟩

/-! ## The outcome -/

/-- The status a recipient ends with. -/
def finalStatus (severity : Response → Severity) (params : SessionParams m.recipients.length)
    (script : Script m.recipients.length) (rcptIdxs : List (Fin m.recipients.length))
    (i : Fin m.recipients.length) : Status :=
  (lastStatus i (deliver severity params script rcptIdxs)).getD (m.recipients.get i).status

variable {i : Fin m.recipients.length}

theorem finalStatus_eq {status : Status} {results : List DeliveryResult}
    (hdeliver : deliver severity params script rcptIdxs = results)
    (hlast : lastStatus i results = some status) :
    finalStatus severity params script rcptIdxs i = status := by
  rw [finalStatus, hdeliver, hlast]
  rfl

theorem finalStatus_domain {status : Status} {results : List DeliveryResult}
    (h : deliver severity params script rcptIdxs =
      results ++ [.domain status (rcptIdxs.map Fin.val)]) (hi : i ∈ rcptIdxs) :
    finalStatus severity params script rcptIdxs i = status :=
  finalStatus_eq h (lastStatus_domain (mem_map_of_mem hi) results)

theorem Script.RcptReply.mem {response : Response}
    (h : script.RcptReply rcptIdxs i response) : i ∈ rcptIdxs :=
  (takeWhile_sublist _).subset h.2.1

theorem Script.RcptReply.mem_acceptedIdxs {response : Response}
    (h : script.RcptReply rcptIdxs i response) :
    i ∈ script.acceptedIdxs rcptIdxs ↔ response.code / 100 = 2 := by
  unfold Script.acceptedIdxs
  simp [Script.accepts, h.2.1, h.2.2]

theorem outcome_not_opened (h : ¬ script.Opened) (status : Fin m.recipients.length → Status) :
    OwnOutcome severity params script rcptIdxs status ↔
      NotOverwritten params script rcptIdxs := by
  refine iff_of_true ⟨?_, ?_, ?_, ?_⟩ ⟨?_, ?_, ?_⟩
  · exact fun _ _ hreply => absurd hreply.1 h
  · exact fun _ _ hreply => absurd hreply.1 h
  · exact fun _ _ hreply => absurd hreply.1 h
  · exact fun hdata => absurd hdata.1 h
  · exact fun hopened => absurd hopened h
  · exact fun hdata => absurd hdata.1 h
  · exact fun hdata => absurd hdata.1 h

variable {status : Fin m.recipients.length → Status}

/-- A `RCPT TO` without a reply. -/
theorem outcome_aborted (hopened : script.Opened)
    (haborted : ∃ i ∈ rcptIdxs, script.answers i = false) {failure : IoFailure}
    (hstatus : ∀ i ∈ rcptIdxs, status i = failure.status params.hostname) :
    OwnOutcome severity params script rcptIdxs status ↔
      NotOverwritten params script rcptIdxs := by
  have hnodata : ¬ script.DataStarted rcptIdxs := by
    rintro ⟨-, hall, -⟩
    obtain ⟨i, hi, hno⟩ := haborted
    rw [hall i hi] at hno
    cases hno
  constructor
  · intro h
    refine ⟨fun _ _ i response hreply => ⟨fun hcode => ?_, fun hcode => ?_⟩,
      fun hdata => absurd hdata hnodata, fun hdata => absurd hdata hnodata⟩
    · have hrefused := h.refused i response hreply hcode
      rw [hstatus i hreply.mem] at hrefused
      cases hrefused
    · obtain ⟨err, hrefused⟩ := h.refusedForGood i response hreply hcode
      rw [hstatus i hreply.mem] at hrefused
      cases hrefused
  · intro h
    have hnone := h.aborted hopened haborted
    refine ⟨fun i response hreply hcode => absurd hcode (hnone i response hreply).2,
      fun i response hreply hcode => absurd hcode (hnone i response hreply).1, ?_,
      fun hdata => absurd hdata hnodata⟩
    intro i response hreply _
    constructor
    · rintro ⟨host, hcompleted⟩
      rw [hstatus i hreply.mem] at hcompleted
      cases hcompleted
    · rintro ⟨final, hfinal, -⟩
      cases hnodata hfinal.1

theorem outcome_failed (hdata : script.DataStarted rcptIdxs)
    (hfails : script.DataFails params.isSmtp rcptIdxs) {whole : Status}
    (hwhole : WholeRoute severity params whole) (hstatus : ∀ i ∈ rcptIdxs, status i = whole) :
    OwnOutcome severity params script rcptIdxs status ↔
      NotOverwritten params script rcptIdxs := by
  constructor
  · intro h
    refine ⟨fun _ ⟨i, hi, hno⟩ => ?_, fun _ _ i response hreply => ?_,
      fun _ _ i response hfinal => ?_⟩
    · rw [hdata.2.1 i hi] at hno
      cases hno
    · by_contra hcode
      have howned := h.data hdata i response hreply hcode
      rw [hstatus i hreply.mem] at howned
      exact hwhole.not_rejection i response howned
    · -- The recipient was accepted, so a positive reply would have completed it.
      intro hcode
      have hmem : i ∈ script.acceptedIdxs rcptIdxs := by
        obtain ⟨-, -, hwhich⟩ := hfinal
        cases hsmtp : params.isSmtp with
        | true =>
          rw [hsmtp] at hwhich
          exact hwhich.1
        | false =>
          rw [hsmtp] at hwhich
          obtain ⟨pos, hpos, -⟩ := hwhich
          exact mem_of_getElem? hpos
      obtain ⟨hanswered, haccepts⟩ := mem_filter.1 hmem
      unfold Script.accepts at haccepts
      cases hrcpt : script.rcpt i with
      | error failure =>
        rw [hrcpt] at haccepts
        cases haccepts
      | ok response' =>
        rw [hrcpt] at haccepts
        have hreply : script.RcptReply rcptIdxs i response' := ⟨hdata.1, hanswered, hrcpt⟩
        obtain ⟨host, hcompleted⟩ := (h.accepted i response' hreply
          (of_decide_eq_true haccepts)).2 ⟨response, hfinal, hcode⟩
        rw [hstatus i hreply.mem] at hcompleted
        exact hwhole.not_completed host hcompleted
  · intro h
    have haccepted := h.failed hdata hfails
    refine ⟨fun i response hreply hcode => ?_, fun i response hreply hcode => ?_,
      fun i response hreply _ => ?_, fun _ i response hreply hcode => ?_⟩
    · have := haccepted i response hreply
      omega
    · have := haccepted i response hreply
      omega
    · constructor
      · rintro ⟨host, hcompleted⟩
        rw [hstatus i hreply.mem] at hcompleted
        cases hwhole.not_completed host hcompleted
      · rintro ⟨final, hfinal, hcode⟩
        cases h.positive hdata hfails i final hfinal hcode
    · cases hcode (haccepted i response hreply)

/-- A recipient that was refused keeps its refusal, and an accepted one has what `final` gives it.
-/
theorem outcome_own (hsev : SeverityByCode severity)
    (hall : ∀ i ∈ rcptIdxs, script.answers i)
    (hsucceeds : script.DataStarted rcptIdxs → ¬ script.DataFails params.isSmtp rcptIdxs)
    (hrefused : ∀ i response, script.RcptReply rcptIdxs i response → response.code / 100 ≠ 2 →
      status i = rejection severity params.hostname (rcptCommand params i) response)
    (haccepted : ∀ i response, script.RcptReply rcptIdxs i response → response.code / 100 = 2 →
      ((∃ host, status i = .completed host) ↔
        ∃ final, script.FinalResponse params.isSmtp rcptIdxs i final ∧ final.code / 100 = 2)) :
    OwnOutcome severity params script rcptIdxs status ↔
      NotOverwritten params script rcptIdxs := by
  refine iff_of_true ⟨fun i response hreply hcode => ?_, fun i response hreply hcode => ?_,
    haccepted, fun _ => hrefused⟩ ⟨fun _ ⟨i, hi, hno⟩ => ?_,
    fun hdata hfails => absurd hfails (hsucceeds hdata),
    fun hdata hfails => absurd hfails (hsucceeds hdata)⟩
  · rw [hrefused i response hreply (by omega)]
    exact ⟨_, if_pos ((hsev.permanent response).2 hcode)⟩
  · rw [hrefused i response hreply (by omega)]
    refine if_neg fun hpermanent => ?_
    have := (hsev.permanent response).1 hpermanent
    omega
  · rw [hall i hi] at hno
    cases hno

theorem finalStatus_refused (hsev : SeverityByCode severity) (hnodup : rcptIdxs.Nodup)
    {results} (hdeliver : deliver severity params script rcptIdxs =
      (outcomes (refusal severity params script) (script.answered rcptIdxs)).map
        (fun rcpt => .account rcpt.2 rcpt.1) ++ results) {response : Response}
    (hreply : script.RcptReply rcptIdxs i response) (hcode : response.code / 100 ≠ 2)
    (hothers : lastStatus i results = none) :
    finalStatus severity params script rcptIdxs i =
      rejection severity params.hostname (rcptCommand params i) response := by
  have hpositive : severity response ≠ .positiveCompletion := fun h =>
    hcode ((hsev.positive response).1 h)
  have hrefusal : refusal severity params script i =
      some (rejection severity params.hostname (rcptCommand params i) response) := by
    simp [hreply.2.2, hpositive]
  have hanswered : (script.answered rcptIdxs).Nodup :=
    hnodup.sublist (takeWhile_sublist _)
  refine finalStatus_eq hdeliver ?_
  rw [lastStatus_append, hothers, lastStatus_outcomes _ hanswered, if_pos hreply.2.1, hrefusal]
  rfl

theorem finalStatus_of_lastStatus {results results'}
    (hdeliver : deliver severity params script rcptIdxs = results' ++ results)
    {i : Fin m.recipients.length} {status : Status} (hlast : lastStatus i results = some status) :
    finalStatus severity params script rcptIdxs i = status := by
  refine finalStatus_eq hdeliver ?_
  rw [lastStatus_append, hlast]
  rfl

theorem map_rcptIdx_zip {responses : List Response} (hlength : responses.length = accepted.length) :
    (accepted.zip responses).map (fun rcpt => rcpt.1.1.val) =
      accepted.map (fun rcpt => rcpt.1.val) := by
  have hfst : (accepted.zip responses).map Prod.fst = accepted :=
    map_fst_zip (le_of_eq hlength.symm)
  rw [← hfst, map_map, hfst]
  rfl

/-- Over LMTP the last result of an accepted recipient is the one its own reply gives. -/
theorem lastStatus_lmtp (hfst : accepted.map Prod.fst = script.acceptedIdxs rcptIdxs)
    (hkeys : (accepted.map (fun rcpt => rcpt.1.val)).Nodup) {responses : List Response}
    (hlength : responses.length = accepted.length)
    (hresponses : ∀ i response, responses[i]? = some response →
      script.final i = .reply response) (status : Response → Status)
    {i : Fin m.recipients.length} (hin : i ∈ script.acceptedIdxs rcptIdxs) :
    ∃ final, lastStatus i ((accepted.zip responses).map
        (fun rcpt => .account (status rcpt.2) rcpt.1.1)) = some (status final) ∧
      ∀ final', (∃ pos, (script.acceptedIdxs rcptIdxs)[pos]? = some i ∧
        (∀ pos' < pos, ∃ response', script.final pos' = .reply response') ∧
        script.final pos = .reply final') ↔ final' = final := by
  have hnodup : (script.acceptedIdxs rcptIdxs).Nodup := by
    rw [← hfst]
    have hvals : ((accepted.map Prod.fst).map Fin.val).Nodup := by
      rw [map_map]
      exact hkeys
    exact hvals.of_map _
  obtain ⟨pos, hpos, hget⟩ := mem_iff_getElem.1 hin
  have hlt : pos < accepted.length := by
    rw [← length_map Prod.fst, hfst]
    exact hpos
  have hlt' : pos < responses.length := by omega
  have hidx : (accepted[pos]).1 = i := by
    rw [← hget]
    simp only [← hfst, getElem_map]
  refine ⟨responses[pos], ?_, fun final' => ⟨?_, ?_⟩⟩
  · have hmem : (accepted[pos], responses[pos]) ∈ accepted.zip responses := by
      rw [mem_iff_getElem]
      exact ⟨pos, by simp [hlt, hlt'], by simp⟩
    have hzip : ((accepted.zip responses).map (fun rcpt => rcpt.1.1.val)).Nodup := by
      rw [map_rcptIdx_zip hlength]
      exact hkeys
    have hlast : lastStatus (accepted[pos]).1.val ((accepted.zip responses).map
        (fun rcpt => .account (status rcpt.2) rcpt.1.1)) = some (status responses[pos]) :=
      lastStatus_account_of_mem hzip hmem
    rw [← hidx]
    exact hlast
  · rintro ⟨pos', hpos', -, hreply⟩
    have hsame : pos' = pos := by
      have hget' : (script.acceptedIdxs rcptIdxs)[pos]? = some i := by
        rw [getElem?_eq_getElem hpos, hget]
      exact ((getElem?_inj hpos hnodup).1 (hget'.trans hpos'.symm)).symm
    subst hsame
    have hown := hresponses pos' _ (getElem?_eq_getElem hlt')
    rw [hown] at hreply
    cases hreply
    rfl
  · rintro rfl
    refine ⟨pos, by rw [getElem?_eq_getElem hpos, hget], fun pos' hpos' => ?_, ?_⟩
    · exact ⟨_, hresponses pos' _ (getElem?_eq_getElem (by omega))⟩
    · exact hresponses pos _ (getElem?_eq_getElem hlt')

/-- The outcome of the whole transaction. -/
theorem finalStatus_outcome (hsev : SeverityByCode severity) (hnodup : rcptIdxs.Nodup)
    (hpending : ∀ i ∈ rcptIdxs, (m.recipients.get i).status.isPending) :
    OwnOutcome severity params script rcptIdxs (finalStatus severity params script rcptIdxs) ↔
      NotOverwritten params script rcptIdxs := by
  by_cases hopened : script.Opened
  · have hnone := (opening_eq_none_iff params script hsev).2 hopened
    obtain ⟨hstatuses, haccepted, haborted⟩ :=
      rcptPhase_eq severity params script hpending
    cases hphase : (rcptPhase severity params script rcptIdxs).aborted with
    | some failure =>
      have hdeliver : deliver severity params script rcptIdxs =
          (rcptPhase severity params script rcptIdxs).statuses ++
            [.domain (failure.status params.hostname) (rcptIdxs.map Fin.val)] := by
        simp only [deliver, hnone, hphase, fromSmtpError_failure]
      have hfailed : ∃ i ∈ rcptIdxs, script.answers i = false := by
        by_contra hall
        push Not at hall
        rw [haborted.2 (fun i hi => by simpa using hall i hi)] at hphase
        cases hphase
      exact outcome_aborted hopened hfailed fun i hi => finalStatus_domain hdeliver hi
    | none =>
      have hall := haborted.1 hphase
      have hfst := map_fst_accepted params script rcptIdxs hsev
      rw [← haccepted] at hfst
      have hanswered : (script.answered rcptIdxs).Nodup :=
        hnodup.sublist (takeWhile_sublist _)
      have hkeys : (((rcptPhase severity params script rcptIdxs).accepted).map
          (fun rcpt => rcpt.1.val)).Nodup := by
        rw [haccepted]
        exact nodup_keys_outcomes _ hanswered
      by_cases hempty : (rcptPhase severity params script rcptIdxs).accepted = []
      · -- Nobody is accepted: there is no data phase.
        have hidxs : script.acceptedIdxs rcptIdxs = [] := by
          rw [← hfst, hempty]
          rfl
        have hdeliver : deliver severity params script rcptIdxs =
            (outcomes (refusal severity params script) (script.answered rcptIdxs)).map
              (fun rcpt => .account rcpt.2 rcpt.1) ++ [] := by
          simp [deliver, hnone, hphase, hempty, hstatuses]
        refine outcome_own hsev hall (fun hdata => absurd hidxs hdata.2.2)
          (fun i response hreply hcode =>
            finalStatus_refused hsev hnodup hdeliver hreply hcode rfl)
          (fun i response hreply hcode => ?_)
        have hmem := hreply.mem_acceptedIdxs.2 hcode
        rw [hidxs] at hmem
        cases hmem
      · have hdata : script.DataStarted rcptIdxs := by
          refine ⟨hopened, hall, ?_⟩
          rw [← hfst]
          simpa using hempty
        have hdeliver : deliver severity params script rcptIdxs =
            (outcomes (refusal severity params script) (script.answered rcptIdxs)).map
              (fun rcpt => .account rcpt.2 rcpt.1) ++
              dataPhase severity params script rcptIdxs
                (rcptPhase severity params script rcptIdxs).accepted := by
          simp [deliver, hnone, hphase, hempty, hstatuses]
        have haccepts : ∀ {i : Fin m.recipients.length}, i.val ∈
            (rcptPhase severity params script rcptIdxs).accepted.map (fun rcpt => rcpt.1.val) →
              i ∈ script.acceptedIdxs rcptIdxs := by
          intro i hmem
          obtain ⟨rcpt, hrcpt, heq⟩ := mem_map.1 hmem
          rw [← hfst, ← Fin.ext heq]
          exact mem_map_of_mem hrcpt
        rcases dataPhase_cases severity params hfst with
          ⟨whole, hpush, hwhole, hfails⟩ | ⟨hsucceeds, hsent, hsmtp, hpush⟩ |
          ⟨hsucceeds, hsent, hlmtp, responses, hlength, hresponses, hpush⟩
        · rw [hpush] at hdeliver
          exact outcome_failed hdata hfails hwhole fun i hi => finalStatus_domain hdeliver hi
        · -- SMTP: every accepted recipient is delivered to.
          rw [hpush] at hdeliver
          refine outcome_own hsev hall (fun _ => hsucceeds)
            (fun i response hreply hcode =>
              finalStatus_refused hsev hnodup hdeliver hreply hcode ?_)
            (fun i response hreply hcode => ?_)
          · exact lastStatus_account_of_not_mem fun hmem =>
              hcode (hreply.mem_acceptedIdxs.1 (haccepts hmem))
          · have hin := hreply.mem_acceptedIdxs.2 hcode
            have hacceptance : acceptance severity params script i =
                some (.completed ⟨params.hostname, response⟩) := by
              simp [hreply.2.2, (hsev.positive response).2 hcode]
            have hlast : lastStatus i
                ((rcptPhase severity params script rcptIdxs).accepted.map
                  (fun rcpt => .account rcpt.2 rcpt.1)) =
                some (.completed ⟨params.hostname, response⟩) := by
              rw [haccepted, lastStatus_outcomes _ hanswered, if_pos hreply.2.1, hacceptance]
            rw [finalStatus_of_lastStatus hdeliver hlast]
            refine iff_of_true ⟨_, rfl⟩ ?_
            unfold Script.DataFails at hsucceeds
            rw [hsmtp, if_pos rfl, not_or, not_not, not_not] at hsucceeds
            obtain ⟨-, final, hfinal, h250⟩ := hsucceeds
            refine ⟨final, ⟨hdata, hsent, ?_⟩, by omega⟩
            rw [hsmtp]
            exact ⟨hin, hfinal⟩
        · -- LMTP: every accepted recipient has a reply of its own.
          rw [hpush] at hdeliver
          have hzip := map_rcptIdx_zip hlength
          refine outcome_own hsev hall (fun _ => hsucceeds)
            (fun i response hreply hcode =>
              finalStatus_refused hsev hnodup hdeliver hreply hcode ?_)
            (fun i response hreply hcode => ?_)
          · refine lastStatus_account_of_not_mem fun hmem => ?_
            rw [hzip] at hmem
            exact hcode (hreply.mem_acceptedIdxs.1 (haccepts hmem))
          · have hin := hreply.mem_acceptedIdxs.2 hcode
            obtain ⟨final, hlast, hfinal⟩ := lastStatus_lmtp hfst hkeys hlength hresponses
              (fun response => if severity response = .positiveCompletion then
                  .completed ⟨params.hostname, response⟩
                else
                  rejection severity params.hostname
                    (((bdatCommand m script.chunking).map (· ++ "\r\n")).getD "DATA") response) hin
            rw [finalStatus_of_lastStatus hdeliver hlast]
            constructor
            · rintro ⟨host, hcompleted⟩
              refine ⟨final, ⟨hdata, hsent, ?_⟩, ?_⟩
              · rw [hlmtp]
                exact (hfinal final).2 rfl
              · by_contra hno
                rw [if_neg (fun hpositive => hno ((hsev.positive final).1 hpositive))]
                  at hcompleted
                rcases rejection_eq_or severity params.hostname _ final with
                  hpermanent | htemporary
                · rw [hpermanent] at hcompleted
                  cases hcompleted
                · rw [htemporary] at hcompleted
                  cases hcompleted
            · rintro ⟨final', ⟨-, -, hwhich⟩, hpositive⟩
              rw [hlmtp] at hwhich
              obtain rfl := (hfinal final').1 hwhich
              exact ⟨_, if_pos ((hsev.positive final').2 hpositive)⟩
  · exact outcome_not_opened hopened _

/-! ### Applying the results -/

/-- Every result is about recipients of the message. -/
def InRange (m : Message Name) (results : List DeliveryResult) : Prop :=
  ∀ result ∈ results, ∀ i ∈ result.rcptIdxs, i < m.recipients.length

theorem inRange_append {results results' : List DeliveryResult} (h : InRange m results)
    (h' : InRange m results') : InRange m (results ++ results') := by
  intro result hresult
  rcases mem_append.1 hresult with hleft | hright
  · exact h result hleft
  · exact h' result hright

theorem inRange_domain (m : Message Name) (status : Status)
    (rcptIdxs : List (Fin m.recipients.length)) :
    InRange m [.domain status (rcptIdxs.map Fin.val)] := by
  intro result hresult i hi
  obtain rfl := mem_singleton.1 hresult
  obtain ⟨j, -, rfl⟩ := mem_map.1 hi
  exact j.isLt

theorem inRange_account {α : Type} (m : Message Name) (status : α → Status)
    (rcptIdx : α → Fin m.recipients.length) (items : List α) :
    InRange m (items.map (fun item => .account (status item) (rcptIdx item))) := by
  intro result hresult i hi
  obtain ⟨item, -, rfl⟩ := mem_map.1 hresult
  obtain rfl := mem_singleton.1 hi
  exact (rcptIdx item).isLt

theorem inRange_deliver (params : SessionParams m.recipients.length)
    (script : Script m.recipients.length) (hsev : SeverityByCode severity)
    (hpending : ∀ i ∈ rcptIdxs, (m.recipients.get i).status.isPending) :
    InRange m (deliver severity params script rcptIdxs) := by
  obtain ⟨hstatuses, haccepted, -⟩ := rcptPhase_eq severity params script hpending
  have hfst := map_fst_accepted params script rcptIdxs hsev
  rw [← haccepted] at hfst
  have hrefused : InRange m (rcptPhase severity params script rcptIdxs).statuses := by
    rw [hstatuses]
    exact inRange_account m _ _ _
  unfold deliver
  cases opening severity params script with
  | some status => exact inRange_domain m status rcptIdxs
  | none =>
    dsimp only
    cases (rcptPhase severity params script rcptIdxs).aborted with
    | some failure => exact inRange_append hrefused (inRange_domain m _ rcptIdxs)
    | none =>
      dsimp only
      split
      · exact hrefused
      · refine inRange_append hrefused ?_
        rcases dataPhase_cases severity params hfst with ⟨status, hpush, -⟩ |
          ⟨-, -, -, hpush⟩ | ⟨-, -, -, responses, -, -, hpush⟩
        · rw [hpush]
          exact inRange_domain m status rcptIdxs
        · rw [hpush]
          exact inRange_account m _ _ _
        · rw [hpush]
          exact inRange_account m _ _ _

end Pushed

/-- **Each recipient gets its own outcome** exactly if nothing is pushed over it.  The recipients
of a route are different and pending. -/
theorem own_outcome_iff {severity : Response → Severity} (hsev : SeverityByCode severity)
    (config : QueueConfig Name) (now : ℕ) {m : Message Name}
    (params : SessionParams m.recipients.length) (script : Script m.recipients.length)
    {rcptIdxs : List (Fin m.recipients.length)} (hnodup : rcptIdxs.Nodup)
    (hpending : ∀ i ∈ rcptIdxs, (m.recipients.get i).status.isPending) :
    ∃ m' status, applyResults config now m (deliver severity params script rcptIdxs) = some m' ∧
      (∀ i : Fin m.recipients.length, m'.statusAt i = some (status i)) ∧
      (OwnOutcome severity params script rcptIdxs status ↔
        NotOverwritten params script rcptIdxs) := by
  obtain ⟨m', hm', -, hstatus⟩ :=
    statusAt_applyResults config now (inRange_deliver params script hsev hpending)
  refine ⟨m', finalStatus severity params script rcptIdxs, hm', fun i => ?_,
    finalStatus_outcome hsev hnodup hpending⟩
  have hold : m.statusAt i = some (m.recipients.get i).status := by
    simp [Message.statusAt]
  rw [hstatus, hold, finalStatus]
  cases lastStatus i (deliver severity params script rcptIdxs) with
  | none | some => rfl

/-! ## Sample transactions -/

/-- The classification of replies by the first digit of their code. -/
def severityOfCode (response : Response) : Severity :=
  if response.code / 100 = 2 then .positiveCompletion
  else if response.code / 100 = 3 then .positiveIntermediate
  else if response.code / 100 = 4 then .transientNegativeCompletion
  else if response.code / 100 = 5 then .permanentNegativeCompletion
  else .invalid

theorem severityOfCode_byCode : SeverityByCode severityOfCode := by
  refine ⟨fun r => ?_, fun r => ?_, fun r => ?_⟩
  · unfold severityOfCode
    by_cases h : r.code / 100 = 2
    · simp [h]
    · simp only [h, if_false]
      split_ifs <;> simp
  · unfold severityOfCode
    by_cases h : r.code / 100 = 4
    · simp [h]
    · simp only [h, if_false, iff_false]
      split_ifs <;> simp
  · unfold severityOfCode
    by_cases h : r.code / 100 = 5
    · simp [h]
    · simp only [h, if_false, iff_false]
      split_ifs <;> simp

def reply (code : ℕ) : Response := ⟨code, (0, 0, 0), ""⟩

def pendingRcpt (address : Address) : Recipient ℕ :=
  ⟨address, ⟨0, 0⟩, ⟨100, 0⟩, .ttl 1000, 0, .scheduled⟩

/-- Two recipients of one route. -/
def routeMessage : Message ℕ := ⟨0, [], [pendingRcpt ['a'], pendingRcpt ['b']], 1, []⟩

def routeConfig : QueueConfig ℕ := fun _ _ _ => ⟨[60], .ttl 1000, 0, sampleRetry_ne_nil⟩

def routeParams : SessionParams routeMessage.recipients.length :=
  ⟨"mx", true, "MAIL FROM:<>", fun _ => ""⟩

def routeIdxs : List (Fin routeMessage.recipients.length) := finRange _

/-- The first recipient gets the given reply, the second is accepted, and so is `DATA`; the final
reply is given. -/
def routeScript (rcptCode finalCode : ℕ) : Script routeMessage.recipients.length where
  helo := none
  auth := none
  mail := .ok (reply 250)
  rcpt := fun i => if i.val = 0 then .ok (reply rcptCode) else .ok (reply 250)
  chunking := false
  blob := true
  sendTimeout := false
  write := none
  data := .ok (reply 354)
  writeMessage := none
  final := fun _ => .reply (reply finalCode)

theorem own_outcome_iff_delivered :
    ∃ m' status, applyResults routeConfig 0 routeMessage
        (deliver severityOfCode routeParams (routeScript 550 250) routeIdxs) = some m' ∧
      (∀ i : Fin routeMessage.recipients.length, m'.statusAt i = some (status i)) ∧
      (OwnOutcome severityOfCode routeParams (routeScript 550 250) routeIdxs status ↔
        NotOverwritten routeParams (routeScript 550 250) routeIdxs) :=
  own_outcome_iff severityOfCode_byCode routeConfig 0 routeParams (routeScript 550 250)
    (nodup_finRange _) (by decide)

/-- A recipient that was refused for good is tried again, because the message was then put off. -/
theorem refusal_overwritten :
    ¬ ∀ (severity : Response → Severity), SeverityByCode severity →
      ∀ (config : QueueConfig ℕ) (now : ℕ) (m : Message ℕ)
        (params : SessionParams m.recipients.length) (script : Script m.recipients.length)
        (rcptIdxs : List (Fin m.recipients.length)), rcptIdxs.Nodup →
      (∀ i ∈ rcptIdxs, (m.recipients.get i).status.isPending) →
      ∃ m' status, applyResults config now m (deliver severity params script rcptIdxs) = some m' ∧
        (∀ i : Fin m.recipients.length, m'.statusAt i = some (status i)) ∧
        OwnOutcome severity params script rcptIdxs status := by
  intro h
  obtain ⟨m', status, hm', hstatus, howned⟩ := h severityOfCode severityOfCode_byCode routeConfig 0
    routeMessage routeParams (routeScript 550 451) routeIdxs (nodup_finRange _) (by decide)
  obtain ⟨err, hpermanent⟩ := howned.refusedForGood ⟨0, by decide⟩ (reply 550)
    ⟨⟨rfl, rfl, reply 250, rfl, rfl⟩, by decide, rfl⟩ rfl
  cases hm'
  have hfirst := hstatus ⟨0, by decide⟩
  rw [hpermanent] at hfirst
  cases hfirst

end MailServer.Delivery
