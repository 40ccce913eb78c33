import MailServer.Smtp.Ingest
import MailServer.Smtp.MailSession

/-!
# An SMTP connection

To the session of `Smtp/Ingest` come the other fields of `SessionData` and `SessionParameters` that
a command sets: the parameters of the transaction, the failed logins, what is known of the client,
and the limits that an accepted MAIL evaluates.  They all outlive the command, and some the
transaction.

The deadline of the connection and its transfer quota are left out, and so are `can_expn` and
`can_vrfy`, which nothing here reads.
-/

namespace MailServer.Smtp.Ingest

/-! ## The connection -/

/-- What `eval_session_params` sets. -/
structure Settings where
  ehloRejectNonFqdn : Bool
  ehloRequire : Bool
  spfEhloVerify : Bool
  spfMailFromVerify : Bool
  iprevVerify : Bool
  authRequire : Bool
  authErrorsMax : ℕ

/-- What `eval_rcpt_params` sets, and `SessionParameters::default` before. -/
structure RcptLimits where
  rcptErrorsMax : ℕ := 0
  rcptMax : ℕ := 0
  rcptDsn : Bool := false
  maxMessageSize : ℕ := 0

structure Connection (R : Receivers) where
  session : Session R
  transaction : TransactionParameters
  authErrors : ℕ
  iprev : Option IprevResult
  spfEhlo : Option SpfOutput
  limits : RcptLimits

def Connection.new (R : Receivers) : Connection R where
  session := start R
  transaction := {}
  authErrors := 0
  iprev := none
  spfEhlo := none
  limits := {}

/-- What `handle_sasl_response` comes to: it asks for a response, somebody is authenticated, or the
login fails; AUTH may be refused without an attempt, and a banned client is disconnected. -/
inductive AuthOutcome (R : Receivers) where
  | challenge (receiver : R.Line)
  | authenticated (account : String)
  | failed
  | refused
  | banned

/-- What a turn of the loop runs into; `mail.iprev` is what a reverse DNS lookup yields. -/
structure TurnAnswers (M : Type) (R : Receivers) where
  ehlo : EhloAnswers
  ehloSpf : SpfOutput
  mail : MailEnvironment M
  limits : RcptLimits
  rcpt : RcptAnswers M
  maxMessages : ℕ
  queue : QueueAnswers M
  auth : AuthOutcome R

inductive ConnectionLabel (M : Type) (R : Receivers) where
  | packet (bytes : List UInt8)
  | turn (a : TurnAnswers M R)
  | close

section

variable {R : Receivers} {M : Type} (inst : Instance) (settings : Settings)
  (apply : SessionData → M → SessionData)
  (applyParameters : TransactionParameters → M → TransactionParameters)

/-- What the request receiver yields next. -/
def Session.nextRequest (s : Session R) : Option (Except RequestError Request) :=
  match s.state, s.iter with
  | .request receiver, some iter => some (R.ingestRequest receiver iter).1
  | _, _ => none

namespace Connection

variable (s : Connection R) (a : TurnAnswers M R)

/-- `SessionParameters`; `max_messages` is evaluated when it is needed. -/
def parameters : SessionParameters where
  ehloRejectNonFqdn := settings.ehloRejectNonFqdn
  ehloRequire := settings.ehloRequire
  spfEhloVerify := settings.spfEhloVerify
  spfMailFromVerify := settings.spfMailFromVerify
  authRequire := settings.authRequire
  rcptMax := s.limits.rcptMax
  rcptDsn := s.limits.rcptDsn
  rcptErrorsMax := s.limits.rcptErrorsMax
  maxMessageSize := s.limits.maxMessageSize
  maxMessages := a.maxMessages

/-! ## AUTH -/

/-- Whether a turn attempts to log in, and what comes of it. -/
def auth (s : Connection R) (a : TurnAnswers M R) : AuthOutcome R :=
  match s.session.state, s.session.iter with
  | .request receiver, some iter =>
    match (R.ingestRequest receiver iter).1 with
    | .ok .auth => if s.session.authenticatedAs.isSome then .refused else a.auth
    | _ => .refused
  | .sasl receiver, some iter =>
    if (R.ingestLine receiver iter).complete then a.auth else .refused
  | _, _ => .refused

/-- `auth_errors` after the turn. -/
def authErrorsAfter : ℕ :=
  match s.auth a with
  | .failed => s.authErrors + 1
  | _ => s.authErrors

/-- The client is banned, or has failed to log in too often. -/
def disconnects : Bool :=
  match s.auth a with
  | .failed => decide (settings.authErrorsMax ≤ s.authErrors + 1)
  | .banned => true
  | _ => false

/-! ## MAIL -/

/-- `iprev` when `handle_mail_from` has looked the client up. -/
def verifyIprev : Option IprevResult :=
  let unchecked : MailEnvironment M := { a.mail with
    authenticatedAs := s.session.authenticatedAs
    iprevStrict := false }
  if (mailRefusal (s.parameters settings a) unchecked s.session.envelope).isNone &&
      s.iprev.isNone && settings.iprevVerify then a.mail.iprev
  else s.iprev

/-- What MAIL runs into, with what the session knows already. -/
def environment : MailEnvironment M :=
  { a.mail with
    authenticatedAs := s.session.authenticatedAs
    iprev := s.verifyIprev settings a }

def handleMail (s : Connection R) (a : TurnAnswers M R) (cmd : MailFrom) : Option MailResult :=
  Smtp.handleMail apply applyParameters (s.parameters settings a) (s.environment settings a) cmd
    s.session.envelope s.transaction

/-- The MAIL command that the turn reads. -/
def mailCommand : Option MailFrom :=
  match s.session.nextRequest with
  | some (.ok (.mail cmd)) => some cmd
  | _ => none

/-- `limits` after the turn: `eval_rcpt_params` follows a MAIL that is accepted. -/
def limitsAfter : RcptLimits :=
  match s.mailCommand.bind (s.handleMail settings apply applyParameters a) with
  | some r =>
    if s.session.data.mailFrom.isNone && r.data.mailFrom.isSome then a.limits else s.limits
  | none => s.limits

/-! ## EHLO, HELO and LHLO -/

/-- The domain with which `handle_ehlo` is called. -/
def greeting : Option String :=
  match s.session.nextRequest with
  | some (.ok (.ehlo host)) | some (.ok (.helo host)) => if inst.isSmtp then some host else none
  | some (.ok (.lhlo host)) => if inst.isSmtp then none else some host
  | some (.error (.syntaxError ofEhlo)) =>
    if !settings.ehloRejectNonFqdn && ofEhlo then some "null" else none
  | _ => none

/-- `spf_ehlo` after the turn. -/
def spfEhloAfter : Option SpfOutput :=
  match s.greeting inst settings with
  | none => s.spfEhlo
  | some domain =>
    if domain = s.session.data.heloDomain ∨
        (settings.ehloRejectNonFqdn && !a.ehlo.validLabels) = true then s.spfEhlo
    else if settings.spfEhloVerify && !a.ehlo.spfAccepted then s.spfEhlo
    else if ehloRejected (s.parameters settings a) a.ehlo then none
    else if settings.spfEhloVerify then some a.ehloSpf
    else s.spfEhlo

/-! ## The transaction -/

/-- The turn completes a message. -/
def completesMessage : Bool :=
  match s.session.state, s.session.iter with
  | .data receiver, some iter =>
    decide (s.session.message.length + s.session.packet < s.limits.maxMessageSize) &&
      (R.ingestData receiver iter).complete
  | .bdat receiver, some iter =>
    (R.ingestBdat receiver iter).complete &&
      canSendData (s.parameters settings a) s.session.envelope && R.isLast receiver
  | _, _ => false

/-- The parameters of the transaction after a turn that leads to `session`. -/
def transactionAfter (session : Session R) :
    TransactionParameters :=
  match s.session.nextRequest with
  | some (.ok (.mail cmd)) =>
    match s.handleMail settings apply applyParameters a cmd with
    | some r => r.parameters
    | none => s.transaction
  | some (.ok (.rcpt recipient usesDsn)) =>
    (rcptModifications (s.parameters settings a) a.rcpt recipient usesDsn
      s.session.envelope).foldl applyParameters s.transaction
  | some (.ok .rset) => {}
  | _ =>
    match s.greeting inst settings with
    | some domain =>
      if greetingResets (s.parameters settings a) a.ehlo domain s.session.envelope then {}
      else s.transaction
    | none =>
      if s.completesMessage settings a then
        -- without an answer the client is disconnected and nothing is reset
        match session.state with
        | .closed => (queueModifications a.queue).foldl applyParameters s.transaction
        | _ => {}
      else s.transaction

/-! ## Turns -/

/-- What the turn of the session runs into; only MAIL asks for `mail`. -/
def answers : Answers M R where
  params := s.parameters settings a
  ehlo := a.ehlo
  mail :=
    match s.mailCommand with
    | some cmd =>
      mailAnswers apply (s.parameters settings a) (s.environment settings a) cmd
        s.session.envelope s.transaction
    | none => ⟨false, false, true, .accept [], none, none⟩
  rcpt := a.rcpt
  queue := a.queue
  sasl :=
    match s.auth a with
    | .challenge receiver => some receiver
    | _ => none
  account :=
    match s.auth a with
    | .authenticated account => some account
    | _ => none

/-- A turn that leads the session to `session`. -/
def afterTurn (session : Session R) : Connection R where
  session := if s.disconnects settings a then { session with state := .closed } else session
  transaction := s.transactionAfter inst settings apply applyParameters a session
  authErrors := s.authErrorsAfter a
  iprev := if s.mailCommand.isSome then s.verifyIprev settings a else s.iprev
  spfEhlo := s.spfEhloAfter inst settings a
  limits := s.limitsAfter settings apply applyParameters a

/-- A step of the connection; `none` is a panic.  Without a packet in the loop a turn is nothing. -/
def step (s : Connection R) : ConnectionLabel M R → Option (Connection R)
  | .packet bytes =>
    (Ingest.step inst apply s.session (.packet bytes)).map fun session =>
      { s with session := session }
  | .turn a =>
    (Ingest.step inst apply s.session (.turn (s.answers settings apply a))).map
      (s.afterTurn inst settings apply applyParameters a)
  | .close =>
    (Ingest.step inst apply s.session .close).map fun session => { s with session := session }

end Connection

end

end MailServer.Smtp.Ingest
