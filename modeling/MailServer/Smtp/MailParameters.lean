import MailServer.Lib.Fallible
import MailServer.Smtp.Transaction
import Mathlib.Data.Int.Notation

/-!
# The parameters of a transaction

MAIL carries parameters that are kept in the session beside the sender: how long delivery may take
(BY), the priority (MT-PRIORITY), how long the message is held (HOLDFOR and HOLDUNTIL), and the SPF
result of the sender.  `handle_mail_from` checks them one after another and stores each one as soon
as its own check is passed; a check that fails takes back the sender only.

The envelope is that of the session; `applyParameters` is what `apply_envelope_modification`, whose
module is not part of the repository, does to the parameters.

Principal results: `settles_parameters`, `handleMail_spec`, `handleMail_data`.
-/

namespace MailServer.Smtp

/-! ## Replies and results -/

/-- A reply: its code and the rest of the line. -/
structure Reply where
  code : ℕ
  text : String

/-- A 4xx or 5xx reply. -/
def Reply.isRejection (r : Reply) : Bool := decide (400 ≤ r.code ∧ r.code < 600)

inductive SpfResult where
  | pass | fail | softFail | neutral | tempError | permError | none
  deriving DecidableEq

/-- `SpfOutput`; `status` is the text of the result. -/
structure SpfOutput where
  result : SpfResult
  status : String
  domain : String
  deriving DecidableEq

inductive IprevResult where
  | pass | fail | tempError | permError | none
  deriving DecidableEq

/-- The fields of `SessionData` that a transaction has beside its envelope. -/
@[ext]
structure TransactionParameters where
  deliveryBy : ℤ := 0
  priority : ℤ := 0
  futureRelease : ℕ := 0
  spfMailFrom : Option SpfOutput := none
  deriving DecidableEq

/-- What MAIL runs into: who is authenticated, the reverse DNS lookup, the filters, and the values
of expressions. -/
structure MailEnvironment (M : Type) where
  authenticatedAs : Option String
  authenticatedEmails : List String
  iprevStrict : Bool
  iprev : Option IprevResult
  isAllowed : Option Bool
  script : ScriptResult M
  scriptMessage : Reply
  milter : Option Reply
  mtaHook : Option Reply
  /-- the new address, when the rewriting expression yields one that is used -/
  rewrite : Option SessionAddress
  mustMatchSender : Option Bool
  requireTls : Option Bool
  deliverBy : Option ℕ
  mtPriority : Bool
  maxMessageSize : Option ℕ
  futureRelease : Option ℕ
  now : ℕ
  dsn : Option Bool
  withinRate : Bool
  spf : SpfOutput
  spfStrict : Bool

/-! ## The checks of the parameters -/

/-- A parameter that is refused: the check, the reply, and what has been stored by then. -/
structure Rejection where
  check : MailCheck
  reply : Reply
  parameters : TransactionParameters

/-- `checked_abs().unwrap_or(0)` of an `i64`. -/
def checkedAbs (n : ℤ) : ℕ := if n = -2 ^ 63 then 0 else n.natAbs

/-- How long the message is to be held. -/
def holdTime {M : Type} (e : MailEnvironment M) (cmd : MailFrom) : ℕ :=
  if cmd.holdFor ≠ 0 then cmd.holdFor else cmd.holdUntil - e.now

section Checks

variable {M : Type} (p : SessionParameters) (e : MailEnvironment M) (cmd : MailFrom)
  (q : TransactionParameters)

def checkRequireTls : Except Rejection TransactionParameters :=
  if cmd.requireTls && !e.requireTls.getD false then
    .error ⟨.requireTlsDisabled, ⟨501, "5.5.4 REQUIRETLS has been disabled."⟩, q⟩
  else .ok q

def checkDeliverBy : Except Rejection TransactionParameters :=
  if cmd.byNotify || cmd.byReturn then
    match e.deliverBy with
    | some duration =>
      if checkedAbs cmd.deliverBy ≤ duration ∧ (0 < cmd.deliverBy ∨ cmd.byNotify) then
        .ok { q with deliveryBy := cmd.deliverBy }
      else
        .error ⟨.deliverByInvalid,
          ⟨501, "5.5.4 BY parameter exceeds maximum of " ++ toString duration ++ " seconds."⟩, q⟩
    | none =>
      .error ⟨.deliverByDisabled, ⟨501, "5.5.4 DELIVERBY extension has been disabled."⟩, q⟩
  else .ok q

def checkMtPriority : Except Rejection TransactionParameters :=
  if cmd.mtPriority ≠ 0 then
    if e.mtPriority then
      if -6 ≤ cmd.mtPriority ∧ cmd.mtPriority < 6 then .ok { q with priority := cmd.mtPriority }
      else .error ⟨.mtPriorityInvalid, ⟨501, "5.5.4 Invalid priority value."⟩, q⟩
    else
      .error ⟨.mtPriorityDisabled, ⟨501, "5.5.4 MT-PRIORITY extension has been disabled."⟩, q⟩
  else .ok q

def checkSize : Except Rejection TransactionParameters :=
  if 0 < cmd.size ∧ e.maxMessageSize.getD (25 * 1024 * 1024) < cmd.size then
    .error ⟨.messageTooLarge, ⟨552, "5.3.4 Message too big for system."⟩, q⟩
  else .ok q

def checkFutureRelease : Except Rejection TransactionParameters :=
  if cmd.holdFor ≠ 0 ∨ cmd.holdUntil ≠ 0 then
    match e.futureRelease with
    | some maxHold =>
      if holdTime e cmd ≤ maxHold then .ok { q with futureRelease := holdTime e cmd }
      else
        .error ⟨.futureReleaseInvalid,
          ⟨501, "5.5.4 Requested hold time exceeds maximum of " ++ toString maxHold ++
            " seconds."⟩, q⟩
    | none =>
      .error ⟨.futureReleaseDisabled, ⟨501, "5.5.4 FUTURERELEASE extension has been disabled."⟩, q⟩
  else .ok q

def checkDsn : Except Rejection TransactionParameters :=
  if cmd.sender.dsnInfo.isSome && !e.dsn.getD false then
    .error ⟨.dsnDisabled, ⟨501, "5.5.4 DSN extension has been disabled."⟩, q⟩
  else .ok q

/-- `is_allowed`. -/
def checkRate : Except Rejection TransactionParameters :=
  if e.withinRate then .ok q
  else .error ⟨.rateLimit, ⟨452, "4.4.5 Rate limit exceeded, try again later."⟩, q⟩

/-- `handle_spf` for the sender. -/
def checkSpf : Except Rejection TransactionParameters :=
  if p.spfMailFromVerify then
    if e.spf.result = .pass ∨ e.spfStrict = false then .ok { q with spfMailFrom := some e.spf }
    else if e.spf.result = .tempError then
      .error ⟨.spf, ⟨451, "4.7.24 Temporary SPF validation error."⟩, q⟩
    else
      .error ⟨.spf, ⟨550, "5.7.23 SPF validation failed, status: " ++ e.spf.status ++ "."⟩, q⟩
  else .ok q

/-- `handle_mail_from` behind the filters. -/
def checkParameters : Except Rejection TransactionParameters := do
  let q ← checkRequireTls e cmd q
  let q ← checkDeliverBy e cmd q
  let q ← checkMtPriority e cmd q
  let q ← checkSize e cmd q
  let q ← checkFutureRelease e cmd q
  let q ← checkDsn e cmd q
  let q ← checkRate e q
  checkSpf p e q

end Checks

/-! ## What the checks store -/

section Stored

variable {M : Type} (p : SessionParameters) (e : MailEnvironment M) (cmd : MailFrom)
  (q : TransactionParameters)

def passesRequireTls : Bool := !cmd.requireTls || e.requireTls.getD false

/-- The command has BY. -/
def MailFrom.givesDeliverBy : Bool := cmd.byNotify || cmd.byReturn

def passesDeliverBy : Bool :=
  !cmd.givesDeliverBy || e.deliverBy.any fun duration =>
    decide (checkedAbs cmd.deliverBy ≤ duration ∧ (0 < cmd.deliverBy ∨ cmd.byNotify))

/-- The command has MT-PRIORITY. -/
def MailFrom.givesPriority : Bool := decide (cmd.mtPriority ≠ 0)

def passesMtPriority : Bool :=
  !cmd.givesPriority || (e.mtPriority && decide (-6 ≤ cmd.mtPriority ∧ cmd.mtPriority < 6))

def passesSize : Bool :=
  decide ¬(0 < cmd.size ∧ e.maxMessageSize.getD (25 * 1024 * 1024) < cmd.size)

/-- The command has HOLDFOR or HOLDUNTIL. -/
def MailFrom.givesHold : Bool := decide (cmd.holdFor ≠ 0 ∨ cmd.holdUntil ≠ 0)

def passesFutureRelease : Bool :=
  !cmd.givesHold || e.futureRelease.any fun maxHold => decide (holdTime e cmd ≤ maxHold)

/-- The last checks: DSN, the rate and SPF. -/
def passesSender : Bool :=
  (!cmd.sender.dsnInfo.isSome || e.dsn.getD false) && e.withinRate &&
    (!p.spfMailFromVerify || decide (e.spf.result = .pass ∨ e.spfStrict = false))

/-- BY passes its check, and so does what is checked before it. -/
def storesDeliverBy : Bool :=
  cmd.givesDeliverBy && passesRequireTls e cmd && passesDeliverBy e cmd

/-- MT-PRIORITY passes its check, and so does what is checked before it. -/
def storesPriority : Bool :=
  cmd.givesPriority && passesRequireTls e cmd && passesDeliverBy e cmd && passesMtPriority e cmd

/-- The hold time passes its check, and so does what is checked before it. -/
def storesHold : Bool :=
  cmd.givesHold && passesRequireTls e cmd && passesDeliverBy e cmd && passesMtPriority e cmd &&
    passesSize e cmd && passesFutureRelease e cmd

/-- The parameters with everything that the command stores. -/
def stored : TransactionParameters where
  deliveryBy := if storesDeliverBy e cmd then cmd.deliverBy else q.deliveryBy
  priority := if storesPriority e cmd then cmd.mtPriority else q.priority
  futureRelease := if storesHold e cmd then holdTime e cmd else q.futureRelease
  spfMailFrom := q.spfMailFrom

/-- What a series of checks does: it passes and stores something, or fails with what has been stored
by then. -/
def Settles (stage : TransactionParameters → Except Rejection TransactionParameters)
    (passes : Bool) (store failed : TransactionParameters → TransactionParameters) : Prop :=
  ∀ q, (passes ∧ stage q = .ok (store q)) ∨
    (passes = false ∧ ∃ check reply, stage q = .error ⟨check, reply, failed q⟩)

theorem Settles.andThen {stage stage' : TransactionParameters → Except Rejection
    TransactionParameters} {passes passes' : Bool}
    {store failed store' failed'}
    (h : Settles stage passes store failed) (h' : Settles stage' passes' store' failed') :
    Settles (fun q => stage q >>= stage') (passes && passes') (fun q => store' (store q))
      (fun q => if passes then failed' (store q) else failed q) := by
  intro q
  rcases h q with ⟨hp, hs⟩ | ⟨hp, check, reply, hs⟩
  · simp only [hp, hs]
    exact h' (store q)
  · refine .inr ⟨by rw [hp, Bool.false_and], check, reply, ?_⟩
    show stage q >>= stage' = _
    rw [hs, hp]
    rfl

theorem settles_requireTls : Settles (checkRequireTls e cmd) (passesRequireTls e cmd) id id := by
  intro q
  unfold checkRequireTls passesRequireTls
  cases cmd.requireTls <;> cases e.requireTls.getD false
  · exact .inl ⟨rfl, rfl⟩
  · exact .inl ⟨rfl, rfl⟩
  · exact .inr ⟨rfl, _, _, rfl⟩
  · exact .inl ⟨rfl, rfl⟩

theorem settles_deliverBy : Settles (checkDeliverBy e cmd) (passesDeliverBy e cmd)
    (fun q => if cmd.givesDeliverBy then { q with deliveryBy := cmd.deliverBy } else q) id := by
  intro q
  unfold checkDeliverBy passesDeliverBy MailFrom.givesDeliverBy
  cases hgives : cmd.byNotify || cmd.byReturn with
  | false => exact .inl ⟨rfl, rfl⟩
  | true =>
    cases e.deliverBy with
    | none => exact .inr ⟨rfl, _, _, rfl⟩
    | some duration =>
      by_cases h : checkedAbs cmd.deliverBy ≤ duration ∧ (0 < cmd.deliverBy ∨ cmd.byNotify)
      · exact .inl ⟨decide_eq_true h, if_pos h⟩
      · exact .inr ⟨decide_eq_false h, _, _, if_neg h⟩

theorem settles_mtPriority : Settles (checkMtPriority e cmd) (passesMtPriority e cmd)
    (fun q => if cmd.givesPriority then { q with priority := cmd.mtPriority } else q) id := by
  intro q
  unfold checkMtPriority passesMtPriority MailFrom.givesPriority
  by_cases hgives : cmd.mtPriority = 0
  · simp [hgives]
  · cases he : e.mtPriority with
    | false =>
      rw [if_pos hgives]
      exact .inr ⟨by simp [hgives], _, _, rfl⟩
    | true =>
      by_cases h : -6 ≤ cmd.mtPriority ∧ cmd.mtPriority < 6
      · exact .inl ⟨by simp [h], by simp [hgives, h]⟩
      · rw [if_pos hgives, if_neg h]
        exact .inr ⟨by rw [decide_eq_true hgives, decide_eq_false h]; rfl, _, _, rfl⟩

theorem settles_size : Settles (checkSize e cmd) (passesSize e cmd) id id := by
  intro q
  by_cases h : 0 < cmd.size ∧ e.maxMessageSize.getD (25 * 1024 * 1024) < cmd.size
  · exact .inr ⟨decide_eq_false (not_not_intro h), _, _, if_pos h⟩
  · exact .inl ⟨decide_eq_true h, if_neg h⟩

theorem settles_futureRelease : Settles (checkFutureRelease e cmd) (passesFutureRelease e cmd)
    (fun q => if cmd.givesHold then { q with futureRelease := holdTime e cmd } else q) id := by
  intro q
  unfold checkFutureRelease passesFutureRelease MailFrom.givesHold
  by_cases hgives : cmd.holdFor ≠ 0 ∨ cmd.holdUntil ≠ 0
  · rw [if_pos hgives, decide_eq_true hgives]
    cases e.futureRelease with
    | none => exact .inr ⟨rfl, _, _, rfl⟩
    | some maxHold =>
      by_cases h : holdTime e cmd ≤ maxHold
      · exact .inl ⟨decide_eq_true h, if_pos h⟩
      · exact .inr ⟨decide_eq_false h, _, _, if_neg h⟩
  · rw [if_neg hgives, decide_eq_false hgives]
    exact .inl ⟨rfl, rfl⟩

theorem settles_sender : Settles (fun q => checkDsn e cmd q >>= fun q => checkRate e q >>=
    checkSpf p e) (passesSender p e cmd)
    (fun q => if p.spfMailFromVerify then { q with spfMailFrom := some e.spf } else q) id := by
  intro q
  unfold checkDsn checkRate checkSpf passesSender
  cases cmd.sender.dsnInfo.isSome <;> cases e.dsn.getD false
  case true.false => exact .inr ⟨rfl, _, _, rfl⟩
  all_goals
    cases e.withinRate with
    | false => exact .inr ⟨rfl, _, _, rfl⟩
    | true =>
      cases p.spfMailFromVerify with
      | false => exact .inl ⟨rfl, rfl⟩
      | true =>
        by_cases hpass : e.spf.result = .pass ∨ e.spfStrict = false
        · exact .inl ⟨decide_eq_true hpass, if_pos hpass⟩
        · by_cases htemp : e.spf.result = .tempError
          · exact .inr ⟨decide_eq_false hpass, _, _, (if_neg hpass).trans (if_pos htemp)⟩
          · exact .inr ⟨decide_eq_false hpass, _, _, (if_neg hpass).trans (if_neg htemp)⟩

def passesParameters : Bool :=
  passesRequireTls e cmd && (passesDeliverBy e cmd && (passesMtPriority e cmd &&
    (passesSize e cmd && (passesFutureRelease e cmd && passesSender p e cmd))))

/-- **What a command has stored**: a rejected one what passed before the check that failed, an
accepted one everything and the SPF result. -/
theorem settles_parameters : Settles (checkParameters p e cmd) (passesParameters p e cmd)
    (fun q => { stored e cmd q with
      spfMailFrom := if p.spfMailFromVerify then some e.spf else q.spfMailFrom })
    (stored e cmd) := by
  have h := (settles_requireTls e cmd).andThen <| (settles_deliverBy e cmd).andThen <|
    (settles_mtPriority e cmd).andThen <| (settles_size e cmd).andThen <|
    (settles_futureRelease e cmd).andThen (settles_sender p e cmd)
  intro q
  rcases h q with ⟨hp, hok⟩ | ⟨hp, check, reply, herror⟩
  · refine .inl ⟨hp, hok.trans (congrArg Except.ok ?_)⟩
    simp only [Bool.and_eq_true] at hp
    obtain ⟨htls, hby, hmt, hsize, hhold, -⟩ := hp
    ext <;> simp only [stored, storesDeliverBy, storesPriority, storesHold, htls, hby, hmt, hsize,
        hhold, Bool.and_true] <;> repeat' split
    all_goals rfl
  · refine .inr ⟨hp, check, reply, 
      herror.trans (congrArg (fun t => Except.error (Rejection.mk check reply t)) ?_)⟩
    -- which fields are stored depends on the first check that fails
    cases htls : passesRequireTls e cmd <;> cases hby : passesDeliverBy e cmd <;>
      cases hmt : passesMtPriority e cmd <;> cases hsize : passesSize e cmd <;>
      cases hhold : passesFutureRelease e cmd <;>
      ext <;> simp only [stored, storesDeliverBy, storesPriority, storesHold, htls, hby, hmt, hsize,
        hhold, Bool.and_true, Bool.and_false, if_true, if_false, Bool.false_eq_true] <;>
      repeat' split
    all_goals rfl

end Stored

/-! ## MAIL -/

/-- The reverse DNS lookup rejects the client. -/
def iprevRejects {M : Type} (e : MailEnvironment M) : Bool :=
  e.iprevStrict && decide (e.iprev ≠ some .pass)

/-- The checks of MAIL that come before the sender is set. -/
def mailRefusal {M : Type} (p : SessionParameters) (e : MailEnvironment M) (d : SessionData) :
    Option Reply :=
  if d.heloDomain == "" && (p.ehloRequire || p.spfEhloVerify || p.spfMailFromVerify) then
    some ⟨503, "5.5.1 Polite people say EHLO first."⟩
  else if d.mailFrom.isSome then some ⟨503, "5.5.1 Multiple MAIL commands not allowed."⟩
  else if p.authRequire && !e.authenticatedAs.isSome then
    some ⟨503, "5.5.1 You must authenticate first."⟩
  else if iprevRejects e then
    if e.iprev = some .tempError then
      some ⟨451, "4.7.25 Temporary error validating reverse DNS."⟩
    else some ⟨550, "5.7.25 Reverse DNS validation failed."⟩
  else none

/-- The authenticated user may not send from the address of the envelope. -/
def senderUnauthorized {M : Type} (e : MailEnvironment M) (d : SessionData) : Bool :=
  match e.authenticatedAs, d.mailFrom with
  | some user, some sender =>
    e.mustMatchSender.getD true && user != sender.addressLcase &&
      !e.authenticatedEmails.any (fun email => email == sender.addressLcase ||
        (email.startsWith "@" && sender.addressLcase.endsWith email))
  | _, _ => false

/-- What MAIL leaves and what it answers. -/
structure MailResult where
  data : SessionData
  parameters : TransactionParameters
  reply : Reply

/-- A filter or a check rejects: the sender is taken back. -/
def rejectMail (d : SessionData) (q : TransactionParameters) (reply : Reply) :
    Option MailResult :=
  some ⟨d.dropSender, q, reply⟩

/-- A modification of the envelope leaves the parameters alone. -/
def KeepsParameters {M : Type} (applyParameters : TransactionParameters → M →
    TransactionParameters) : Prop :=
  ∀ q m, applyParameters q m = q

/-- `handle_mail_from` behind its script; `none` is a failed `unwrap`. -/
def settleMail {M : Type} (p : SessionParameters) (e : MailEnvironment M) (cmd : MailFrom)
    (d : SessionData) (q : TransactionParameters) : Option MailResult :=
  match e.milter, e.mtaHook with
  | some reply, _ => rejectMail d q reply
  | none, some reply => rejectMail d q reply
  | none, none =>
    match rewriteSender d e.rewrite with
    | none => none
    | some d =>
      if senderUnauthorized e d then
        rejectMail d q ⟨501, "5.5.4 You are not allowed to send from this address."⟩
      else
        match checkParameters p e cmd q with
        | .error r => rejectMail d r.parameters r.reply
        | .ok q => some ⟨d, q, ⟨250, "2.1.0 OK"⟩⟩

section Apply

variable {M : Type} (apply : SessionData → M → SessionData)
  (applyParameters : TransactionParameters → M → TransactionParameters)

/-- `handle_mail_from`. -/
def handleMail (p : SessionParameters) (e : MailEnvironment M) (cmd : MailFrom) (d : SessionData)
    (q : TransactionParameters) : Option MailResult :=
  match mailRefusal p e d with
  | some reply => some ⟨d, q, reply⟩
  | none =>
    if e.isAllowed.getD true then
      match e.script with
      | .reject => rejectMail (d.setSender cmd.sender) q e.scriptMessage
      | script =>
        settleMail p e cmd (script.modifications.foldl apply (d.setSender cmd.sender))
          (script.modifications.foldl applyParameters q)
    else
      rejectMail (d.setSender cmd.sender) q ⟨550, "5.7.1 Sender address not allowed."⟩

/-! ## What MAIL leaves -/

/-- The script of MAIL rejects the sender. -/
def ScriptResult.rejects : ScriptResult M → Bool
  | .reject => true
  | _ => false

/-- The envelope when the script of MAIL has modified it. -/
def filteredSender (e : MailEnvironment M) (cmd : MailFrom) (d : SessionData) : SessionData :=
  e.script.modifications.foldl apply (d.setSender cmd.sender)

/-- No milter and no hook rejects the sender, and the user may send from it. -/
def passesFilters (e : MailEnvironment M) (d : SessionData) : Bool :=
  e.milter.isNone && e.mtaHook.isNone &&
    (rewriteSender d e.rewrite).any fun d => !senderUnauthorized e d

/-- Nothing that comes before the checks of the parameters rejects the command. -/
def reachesParameters (p : SessionParameters) (e : MailEnvironment M) (cmd : MailFrom)
    (d : SessionData) : Bool :=
  (mailRefusal p e d).isNone && e.isAllowed.getD true && !e.script.rejects &&
    passesFilters e (filteredSender apply e cmd d)

/-- Whatever a command stores, the session holds already. -/
structure LeavesParameters (e : MailEnvironment M) (cmd : MailFrom) (q : TransactionParameters) :
    Prop where
  deliverBy : storesDeliverBy e cmd → cmd.deliverBy = q.deliveryBy
  priority : storesPriority e cmd → cmd.mtPriority = q.priority
  hold : storesHold e cmd → holdTime e cmd = q.futureRelease

/-- A command whose parameters are not reached, or that stores nothing new. -/
def StoresNothing (p : SessionParameters) (e : MailEnvironment M) (cmd : MailFrom)
    (d : SessionData) (q : TransactionParameters) : Prop :=
  reachesParameters apply p e cmd d → LeavesParameters e cmd q

variable {q : TransactionParameters}

theorem stored_eq_iff {e : MailEnvironment M} {cmd : MailFrom} :
    stored e cmd q = q ↔ LeavesParameters e cmd q := by
  constructor
  · intro h
    have hfields := TransactionParameters.ext_iff.1 h
    simp only [stored, ite_eq_right_iff] at hfields
    exact ⟨hfields.1, hfields.2.1, hfields.2.2.1⟩
  · rintro ⟨hby, hpriority, hhold⟩
    ext1
    · exact ite_eq_right_iff.2 hby
    · exact ite_eq_right_iff.2 hpriority
    · exact ite_eq_right_iff.2 hhold
    · rfl

variable {apply applyParameters}

theorem KeepsParameters.foldl (hkeeps : KeepsParameters applyParameters) (modifications : List M)
    (q : TransactionParameters) : modifications.foldl applyParameters q = q := by
  induction modifications with
  | nil => rfl
  | cons m rest ih => rw [List.foldl_cons, hkeeps, ih]

/-- A command that is turned away before its parameters. -/
def TurnedAway (d : SessionData) (q : TransactionParameters) (r : MailResult) : Prop :=
  r.parameters = q ∧ (r.data = d ∨ (d.mailFrom = none ∧ r.data.mailFrom = none))

theorem mailFrom_of_mailRefusal {p} {e : MailEnvironment M} {d : SessionData}
    (h : mailRefusal p e d = none) : d.mailFrom = none := by
  unfold mailRefusal at h
  split at h
  · cases h
  · split at h
    · cases h
    · next hsender => simpa using hsender

/-- A command whose parameters are settled. -/
def Settled (p : SessionParameters) (e : MailEnvironment M) (cmd : MailFrom)
    (q : TransactionParameters) (d : SessionData) (r : MailResult) : Prop :=
  (passesParameters p e cmd ∧ r.reply = ⟨250, "2.1.0 OK"⟩ ∧ r.data = d ∧
    r.parameters = { stored e cmd q with
      spfMailFrom := if p.spfMailFromVerify then some e.spf else q.spfMailFrom }) ∨
  (passesParameters p e cmd = false ∧ r.data.mailFrom = none ∧ r.parameters = stored e cmd q)

section

variable {p : SessionParameters} {e : MailEnvironment M} {cmd : MailFrom} {d : SessionData}

theorem settleMail_spec {r : MailResult} (hr : settleMail p e cmd d q = some r) :
    (passesFilters e d = false ∧ r.parameters = q ∧ r.data.mailFrom = none) ∨
      (passesFilters e d ∧ ∃ d', rewriteSender d e.rewrite = some d' ∧
        Settled p e cmd q d' r) := by
  unfold settleMail at hr
  unfold passesFilters
  cases hmilter : e.milter with
  | some reply =>
    rw [hmilter] at hr
    cases hr
    exact .inl ⟨rfl, rfl, rfl⟩
  | none =>
    cases hhook : e.mtaHook with
    | some reply =>
      rw [hmilter, hhook] at hr
      cases hr
      exact .inl ⟨rfl, rfl, rfl⟩
    | none =>
      simp only [hmilter, hhook] at hr
      cases hrewrite : rewriteSender d e.rewrite with
      | none =>
        rw [hrewrite] at hr
        cases hr
      | some d' =>
        simp only [hrewrite] at hr
        cases hsender : senderUnauthorized e d' with
        | true =>
          rw [hsender] at hr
          cases hr
          exact .inl ⟨by simp [hsender], rfl, rfl⟩
        | false =>
          refine .inr ⟨by simp [hsender], d', rfl, ?_⟩
          simp only [hsender] at hr
          rcases settles_parameters p e cmd q with ⟨hp, hok⟩ | ⟨hp, check, reply, herror⟩
          · rw [hok] at hr
            cases hr
            exact .inl ⟨hp, rfl, rfl, rfl⟩
          · rw [herror] at hr
            cases hr
            exact .inr ⟨hp, rfl, rfl⟩

theorem reachesParameters_eq (hrefusal : mailRefusal p e d = none)
    (hallowed : e.isAllowed.getD true) (hrejects : e.script.rejects = false) :
    reachesParameters apply p e cmd d = passesFilters e (filteredSender apply e cmd d) := by
  unfold reachesParameters
  rw [hrefusal, hallowed, hrejects]
  rfl

/-- **What MAIL leaves**: it is turned away before its parameters, or these are settled. -/
theorem handleMail_spec (hkeeps : KeepsParameters applyParameters)
    {r : MailResult} (hr : handleMail apply applyParameters p e cmd d q = some r) :
    (reachesParameters apply p e cmd d = false ∧ TurnedAway d q r) ∨
      (reachesParameters apply p e cmd d ∧ ∃ d',
        rewriteSender (filteredSender apply e cmd d) e.rewrite = some d' ∧
          Settled p e cmd q d' r) := by
  unfold handleMail at hr
  cases hrefusal : mailRefusal p e d with
  | some reply =>
    rw [hrefusal] at hr
    cases hr
    exact .inl ⟨by rw [reachesParameters, hrefusal]; rfl, rfl, .inl rfl⟩
  | none =>
    have hnone : d.mailFrom = none := mailFrom_of_mailRefusal hrefusal
    cases hallowed : e.isAllowed.getD true with
    | false =>
      rw [hrefusal, hallowed] at hr
      cases hr
      exact .inl ⟨by rw [reachesParameters, hrefusal, hallowed]; rfl, rfl, .inr ⟨hnone, rfl⟩⟩
    | true =>
      simp only [hrefusal, hallowed, hkeeps.foldl] at hr
      have hbehind (hrejects : e.script.rejects = false)
          (hsettle : settleMail p e cmd (filteredSender apply e cmd d) q = some r) :
          (reachesParameters apply p e cmd d = false ∧ TurnedAway d q r) ∨
            (reachesParameters apply p e cmd d ∧ ∃ d',
              rewriteSender (filteredSender apply e cmd d) e.rewrite = some d' ∧
                Settled p e cmd q d' r) := by
        rw [reachesParameters_eq hrefusal hallowed hrejects]
        rcases settleMail_spec hsettle with ⟨hp, hq, hd⟩ | ⟨hp, hsettled⟩
        · exact .inl ⟨hp, hq, .inr ⟨hnone, hd⟩⟩
        · exact .inr ⟨hp, hsettled⟩
      cases hscript : e.script with
      | reject =>
        rw [hscript] at hr
        cases hr
        refine .inl ⟨?_, rfl, .inr ⟨hnone, rfl⟩⟩
        rw [reachesParameters, hrefusal, hallowed, hscript]
        rfl
      | accept modifications | replace modifications | discard =>
        refine hbehind (by rw [hscript]; rfl) ?_
        rw [hscript] at hr
        rw [filteredSender, hscript]
        exact hr

end

/-! ## The envelope -/

/-- The environment of `handleMailFrom`: which check fails first. -/
def mailAnswers (apply : SessionData → M → SessionData) (p : SessionParameters)
    (e : MailEnvironment M) (cmd : MailFrom) (d : SessionData) (q : TransactionParameters) :
    MailAnswers M where
  authenticated := e.authenticatedAs.isSome
  iprevRejects := iprevRejects e
  isAllowed := e.isAllowed.getD true
  script := e.script
  rewrite := e.rewrite
  rejectedBy :=
    if e.milter.isSome then some .milter
    else if e.mtaHook.isSome then some .mtaHook
    else
      match rewriteSender (filteredSender apply e cmd d) e.rewrite with
      | none => none
      | some d =>
        if senderUnauthorized e d then some .senderUnauthorized
        else
          match checkParameters p e cmd q with
          | .error r => some r.check
          | .ok _ => none

theorem isSome_mailRefusal {p} {e : MailEnvironment M} {cmd : MailFrom}
    {d : SessionData} :
    (mailRefusal p e d).isSome = mailRefused p (mailAnswers apply p e cmd d q) d := by
  unfold mailRefusal mailRefused mailAnswers
  simp only
  split
  · next h => rw [h]; rfl
  · next h =>
    rw [Bool.eq_false_iff.2 h]
    split
    · next h => rw [h]; rfl
    · next h =>
      rw [Bool.eq_false_iff.2 h]
      split
      · next h => rw [h]; rfl
      · next h =>
        rw [Bool.eq_false_iff.2 h]
        split
        · next h =>
          rw [h]
          split <;> rfl
        · next h =>
          rw [Bool.eq_false_iff.2 h]
          rfl

theorem dropSender_rewriteSender {d d' : SessionData} {new}
    (h : rewriteSender d new = some d') : d'.dropSender = d.dropSender := by
  cases new with
  | none =>
    cases h
    rfl
  | some new =>
    unfold rewriteSender at h
    cases hsender : d.mailFrom with
    | none => rw [hsender] at h; cases h
    | some sender =>
      rw [hsender] at h
      cases h
      rfl

/-- **Refinement**: the sender and the recipients fare as in `handleMailFrom`. -/
theorem handleMail_data (hkeeps : KeepsParameters applyParameters) (p : SessionParameters)
    (e : MailEnvironment M) (cmd : MailFrom) (d : SessionData) (q : TransactionParameters) :
    (handleMail apply applyParameters p e cmd d q).map MailResult.data =
      handleMailFrom apply p (mailAnswers apply p e cmd d q) cmd.sender d := by
  have hrefused : (mailRefusal p e d).isSome =
      mailRefused p (mailAnswers apply p e cmd d q) d := isSome_mailRefusal
  unfold handleMail handleMailFrom
  rw [← hrefused]
  cases hrefusal : mailRefusal p e d with
  | some reply => rfl
  | none =>
    have hdropped {d' : SessionData} (h : rewriteSender (filteredSender apply e cmd d) e.rewrite =
        some d') : d'.dropSender = (filteredSender apply e cmd d).dropSender :=
      dropSender_rewriteSender h
    cases hallowed : e.isAllowed.getD true with
    | false => simp [mailAnswers, hallowed, rejectMail]
    | true =>
      cases hscript : e.script with
      | reject => simp [mailAnswers, hscript, rejectMail]
      | accept modifications | replace modifications | discard =>
        simp only [mailAnswers, hallowed, hkeeps.foldl, mailAccepted, settleMail]
        simp only [filteredSender, hscript] at hdropped ⊢
        cases hmilter : e.milter with
        | some reply => simp [rejectMail]
        | none =>
          cases hhook : e.mtaHook with
          | some reply => simp [rejectMail]
          | none =>
            cases hrewrite : rewriteSender (List.foldl apply (d.setSender cmd.sender) _)
                e.rewrite with
            | none => rfl
            | some d' =>
              have hdrop := hdropped hrewrite
              cases hsender : senderUnauthorized e d' with
              | true => simp [hsender, rejectMail]
              | false =>
                cases hq : checkParameters p e cmd q with
                | ok q' => simp [hsender]
                | error r =>
                  rcases r with ⟨check, reply, q'⟩
                  cases check <;> simp [hsender, rejectMail, hdrop]

end Apply

end MailServer.Smtp
