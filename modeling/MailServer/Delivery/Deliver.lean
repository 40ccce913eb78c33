import MailServer.Delivery.Message

/-!
# One delivery attempt

`MessageWrapper::deliver` runs one transaction for the recipients of a route and pushes its
results; `QueuedMessage::deliver_task` then applies the results of all routes in the order in
which they were pushed.  A result is about one recipient, or about all recipients of the route.

The replies of the remote server, and what goes wrong on the connection, are a `Script`: what the
server would answer to each command, if the command is sent.  `severity` is the classification of
replies by the SMTP library.
-/

namespace MailServer.Delivery

variable {Name : Type}

/-! ## Replies and failures -/

inductive Severity where
  | positiveCompletion
  | positiveIntermediate
  | transientNegativeCompletion
  | permanentNegativeCompletion
  | invalid
  deriving DecidableEq

/-- The library classifies a reply by the first digit of its code. -/
structure SeverityByCode (severity : Response → Severity) : Prop where
  positive : ∀ r, severity r = .positiveCompletion ↔ r.code / 100 = 2
  transient : ∀ r, severity r = .transientNegativeCompletion ↔ r.code / 100 = 4
  permanent : ∀ r, severity r = .permanentNegativeCompletion ↔ r.code / 100 = 5

/-- `mail_send::Error`, except for an unexpected reply. -/
inductive SendErrorKind where
  | io
  | tls
  | base64
  | unparseableReply
  | authenticationFailed
  | missingCredentials
  | missingMailFrom
  | missingRcptTo
  | timeout
  | auth
  | unsupportedAuthMechanism
  | invalidTlsName
  | missingStartTls

/-- The errors `from_smtp_error` takes for temporary. -/
def SendErrorKind.isTemporary : SendErrorKind → Bool
  | .auth | .unsupportedAuthMechanism | .invalidTlsName | .missingStartTls => false
  | _ => true

/-- `mail_send::Error`; the text is the one it displays. -/
inductive SendError where
  | unexpectedReply (response : Response)
  | other (kind : SendErrorKind) (text : String)

/-- What sending a command or reading its reply fails with: an I/O error, a timeout or a reply that
cannot be parsed. -/
structure IoFailure where
  kind : SendErrorKind
  text : String
  temporary : kind.isTemporary

/-- A reply that is awaited as a whole: it comes, fails, or the time for it is over. -/
inductive FinalReply where
  | reply (response : Response)
  | failed (failure : IoFailure)
  | timedOut

section Statuses

variable (severity : Response → Severity)

/-- The status of a recipient whose command got the reply: the `severity` branch that `deliver`
and `from_smtp_error` share. -/
def rejection (hostname command : String) (response : Response) : Status :=
  if severity response = .permanentNegativeCompletion then
    .permanentFailure ⟨hostname, .unexpectedResponse command response⟩
  else .temporaryFailure ⟨hostname, .unexpectedResponse command response⟩

/-- `Status::from_smtp_error`; the command is given without its line end. -/
def fromSmtpError (hostname command : String) : SendError → Status
  | .unexpectedReply response => rejection severity hostname command response
  | .other kind text =>
    if kind.isTemporary then .temporaryFailure ⟨hostname, .connectionError text⟩
    else .permanentFailure ⟨hostname, .connectionError text⟩

end Statuses

/-- `Status::timeout`. -/
def timeoutStatus (hostname stage : String) : Status :=
  .temporaryFailure ⟨hostname, .connectionError ("Timeout while " ++ stage)⟩

def IoFailure.status (hostname : String) (failure : IoFailure) : Status :=
  .temporaryFailure ⟨hostname, .connectionError failure.text⟩

theorem fromSmtpError_failure (severity : Response → Severity) (hostname command : String)
    (failure : IoFailure) :
    fromSmtpError severity hostname command (.other failure.kind failure.text) =
      failure.status hostname := by
  simp [fromSmtpError, IoFailure.status, failure.temporary]

/-! ## Results -/

inductive DeliveryResult where
  | domain (status : Status) (rcptIdxs : List ℕ)
  | account (status : Status) (rcptIdx : ℕ)
  | rateLimited (rcptIdxs : List ℕ) (retryAt : ℕ)

/-- What the configuration answers for a recipient whose status was set. -/
abbrev QueueConfig (Name : Type) := Message Name → Status → ℕ → QueueStrategy Name

/-- The body of the loop of `deliver_task` that applies the results. -/
def applyResult (config : QueueConfig Name) (now : ℕ) (m : Message Name) :
    DeliveryResult → Option (Message Name)
  | .domain status rcptIdxs =>
    rcptIdxs.foldlM (fun m rcptIdx =>
      m.setRcptStatus status rcptIdx (config m status rcptIdx) now) m
  | .account status rcptIdx => m.setRcptStatus status rcptIdx (config m status rcptIdx) now
  | .rateLimited rcptIdxs retryAt =>
    rcptIdxs.foldlM (fun m rcptIdx => m.setRcptRateLimit rcptIdx retryAt) m

/-- Applies the results of all routes in order. -/
def applyResults (config : QueueConfig Name) (now : ℕ) (m : Message Name)
    (results : List DeliveryResult) : Option (Message Name) :=
  results.foldlM (applyResult config now) m

/-! ## The transaction -/

/-- What the remote server and the connection do. -/
structure Script (n : ℕ) where
  /-- The status `say_helo` fails with. -/
  helo : Option Status
  /-- The error `authenticate` fails with, if there are credentials. -/
  auth : Option SendError
  /-- The reply to `MAIL FROM`. -/
  mail : Except IoFailure Response
  /-- The reply to the `RCPT TO` of a recipient. -/
  rcpt : Fin n → Except IoFailure Response
  /-- The server has `CHUNKING`. -/
  chunking : Bool
  /-- The message is in the blob store. -/
  blob : Bool
  /-- `send_message` runs out of time. -/
  sendTimeout : Bool
  /-- Writing the first chunks of the data phase fails. -/
  write : Option IoFailure
  /-- The reply to `DATA`. -/
  data : Except IoFailure Response
  /-- Writing the message after `DATA` fails. -/
  writeMessage : Option IoFailure
  /-- The replies to the message: one over SMTP, one for each accepted recipient over LMTP. -/
  final : ℕ → FinalReply

/-- `SessionParams`, as far as results depend on them, and the commands that results quote. -/
structure SessionParams (n : ℕ) where
  hostname : String
  isSmtp : Bool
  /-- `build_mail_from`, without its line end. -/
  mailFrom : String
  /-- What `build_rcpt_to` appends to the address of a recipient. -/
  rcptParams : Fin n → String

variable {m : Message Name}

section Transaction

variable (severity : Response → Severity)

/-- What the commands before the recipients fail with. -/
def opening {n : ℕ} (params : SessionParams n) (script : Script n) : Option Status :=
  match script.helo with
  | some status => some status
  | none =>
    match script.auth with
    | some err => some (fromSmtpError severity params.hostname "AUTH ..." err)
    | none =>
      match script.mail with
      | .ok response =>
        if severity response = .positiveCompletion then none
        else some (fromSmtpError severity params.hostname params.mailFrom
          (.unexpectedReply response))
      | .error failure =>
        some (fromSmtpError severity params.hostname params.mailFrom
          (.other failure.kind failure.text))

variable (params : SessionParams m.recipients.length)

/-- `build_rcpt_to`, without its line end. -/
def rcptCommand (rcptIdx : Fin m.recipients.length) : String :=
  "RCPT TO:<" ++ String.ofList (m.recipients.get rcptIdx).address ++ ">" ++
    params.rcptParams rcptIdx

/-- `bdat_cmd`, without its line end. -/
def bdatCommand (m : Message Name) (chunking : Bool) : Option String :=
  if chunking then some ("BDAT " ++ toString m.size ++ " LAST") else none

/-- The loop over `RCPT TO`: the results pushed, the recipients accepted, and the failure it was
aborted with. -/
structure RcptPhase (n : ℕ) where
  statuses : List DeliveryResult
  accepted : List (Fin n × Status)
  aborted : Option IoFailure

/-- The loop over `RCPT TO`. -/
def rcptPhase (params : SessionParams m.recipients.length) (script : Script m.recipients.length) :
    List (Fin m.recipients.length) → RcptPhase m.recipients.length
  | [] => ⟨[], [], none⟩
  | rcptIdx :: rest =>
    if (m.recipients.get rcptIdx).status.isPending then
      match script.rcpt rcptIdx with
      | .error failure => ⟨[], [], some failure⟩
      | .ok response =>
        let phase := rcptPhase params script rest
        if severity response = .positiveCompletion then
          { phase with
            accepted := (rcptIdx, .completed ⟨params.hostname, response⟩) :: phase.accepted }
        else
          { phase with
            statuses := .account (rejection severity params.hostname
              (rcptCommand params rcptIdx) response) rcptIdx :: phase.statuses }
    else rcptPhase params script rest

def sendMessage {n : ℕ} (params : SessionParams n) (script : Script n)
    (bdat : Option String) : Except Status Unit :=
  if !script.blob then .error (.temporaryFailure ⟨"localhost", .io "Queue system error."⟩)
  else if script.sendTimeout then .error (timeoutStatus params.hostname "sending message")
  else
    match script.write with
    | some failure =>
      .error (fromSmtpError severity params.hostname (bdat.getD "DATA")
        (.other failure.kind failure.text))
    | none =>
      match bdat with
      | some _ => .ok ()
      | none =>
        match script.data with
        | .error failure =>
          .error (fromSmtpError severity params.hostname "DATA" (.other failure.kind failure.text))
        | .ok response =>
          if response.code = 354 then
            match script.writeMessage with
            | some failure =>
              .error (fromSmtpError severity params.hostname "DATA"
                (.other failure.kind failure.text))
            | none => .ok ()
          else .error (fromSmtpError severity params.hostname "DATA" (.unexpectedReply response))

def readSmtpDataResponse {n : ℕ} (params : SessionParams n) (script : Script n)
    (bdat : Option String) : Except Status Response :=
  match script.final 0 with
  | .reply response => .ok response
  | .timedOut => .error (timeoutStatus params.hostname "reading SMTP DATA response")
  | .failed failure =>
    .error (fromSmtpError severity params.hostname (bdat.getD "DATA")
      (.other failure.kind failure.text))

/-- `read_lmtp_data_response`: reads reply after reply from `pos` on, and gives none up before the
last. -/
def readLmtpDataResponse {n : ℕ} (params : SessionParams n) (script : Script n) :
    (numResponses pos : ℕ) → Except Status (List Response)
  | 0, _ => .ok []
  | num + 1, pos =>
    match script.final pos with
    | .reply response =>
      (readLmtpDataResponse params script num (pos + 1)).map (response :: ·)
    | .timedOut => .error (timeoutStatus params.hostname "reading LMTP DATA responses")
    | .failed failure =>
      .error (fromSmtpError severity params.hostname "" (.other failure.kind failure.text))

/-- What follows the recipients, when some were accepted. -/
def dataPhase (script : Script m.recipients.length) (rcptIdxs : List (Fin m.recipients.length))
    (accepted : List (Fin m.recipients.length × Status)) : List DeliveryResult :=
  let bdat := bdatCommand m script.chunking
  match sendMessage severity params script bdat with
  | .error status => [.domain status (rcptIdxs.map Fin.val)]
  | .ok () =>
    if params.isSmtp then
      match readSmtpDataResponse severity params script bdat with
      | .ok response =>
        if response.code = 250 then accepted.map fun rcpt => .account rcpt.2 rcpt.1
        else
          [.domain (fromSmtpError severity params.hostname (bdat.getD "DATA")
            (.unexpectedReply response)) (rcptIdxs.map Fin.val)]
      | .error status => [.domain status (rcptIdxs.map Fin.val)]
    else
      match readLmtpDataResponse severity params script accepted.length 0 with
      | .ok responses =>
        (accepted.zip responses).map (fun rcpt =>
          .account
            (if severity rcpt.2 = .positiveCompletion then
              .completed ⟨params.hostname, rcpt.2⟩
            else
              rejection severity params.hostname
                ((bdat.map (· ++ "\r\n")).getD "DATA") rcpt.2) rcpt.1.1)
      | .error status => [.domain status (rcptIdxs.map Fin.val)]

/-- `MessageWrapper::deliver`: the results it pushes. -/
def deliver (script : Script m.recipients.length) (rcptIdxs : List (Fin m.recipients.length)) :
    List DeliveryResult :=
  match opening severity params script with
  | some status => [.domain status (rcptIdxs.map Fin.val)]
  | none =>
    let phase := rcptPhase severity params script rcptIdxs
    match phase.aborted with
    | some failure =>
      phase.statuses ++ [.domain (fromSmtpError severity params.hostname ""
        (.other failure.kind failure.text)) (rcptIdxs.map Fin.val)]
    | none =>
      if phase.accepted.isEmpty then phase.statuses
      else phase.statuses ++ dataPhase severity params script rcptIdxs phase.accepted

end Transaction

end MailServer.Delivery
