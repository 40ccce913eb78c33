import MailServer.Lib.Run
import Mathlib.Algebra.Order.Ring.Int

/-!
# The inbound SMTP session

The envelope of an SMTP or LMTP session and everything that reads or writes it: EHLO, MAIL, RCPT,
RSET, DATA, BDAT and `queue_message`, with each of their exits.  Policy expressions, Sieve scripts,
milters, hooks and directories are answers of the environment, one record per command, in the order
in which the code asks.

`apply` stands for `SessionData::apply_envelope_modification`, whose module is not part of the
repository; what the code relies on is `EnvelopeLaws`.

Each recipient remembers the MAIL command under which it was accepted (`acceptedIn`), and the
session counts these commands (`transaction`); no code reads either.
-/

namespace MailServer.Smtp

/-! ## The envelope -/

/-- `SessionAddress`, with the transaction in which it entered the envelope. -/
structure SessionAddress where
  address : String
  addressLcase : String
  domain : String
  flags : ℕ
  dsnInfo : Option String
  acceptedIn : ℕ

/-- `PartialEq for SessionAddress`. -/
def SessionAddress.same (a b : SessionAddress) : Bool := a.addressLcase == b.addressLcase

/-- The fields of `SessionData` that decide the fate of the envelope; of the message only the
length is read. -/
structure SessionData where
  heloDomain : String
  mailFrom : Option SessionAddress
  rcptTo : List SessionAddress
  rcptErrors : ℕ
  rcptOks : ℕ
  messagesSent : ℕ
  message : ℕ
  transaction : ℕ

/-- The fields of `SessionParameters` and of the configuration that the handlers compare with. -/
structure SessionParameters where
  ehloRejectNonFqdn : Bool
  ehloRequire : Bool
  spfEhloVerify : Bool
  spfMailFromVerify : Bool
  authRequire : Bool
  rcptMax : ℕ
  rcptDsn : Bool
  rcptErrorsMax : ℕ
  maxMessageSize : ℕ
  maxMessages : ℕ

variable (d : SessionData)

def SessionData.reset : SessionData :=
  { d with
    mailFrom := none
    rcptTo := []
    message := 0
    rcptOks := 0 }

/-- `self.data.mail_from = None`. -/
def SessionData.dropSender : SessionData := { d with mailFrom := none }

def SessionData.popRcpt : SessionData := { d with rcptTo := d.rcptTo.dropLast }

def SessionData.pushRcpt (rcpt : SessionAddress) : SessionData :=
  { d with rcptTo := d.rcptTo ++ [{ rcpt with acceptedIn := d.transaction }] }

def SessionData.hasRcpt (rcpt : SessionAddress) : Bool :=
  d.rcptTo.any fun r => r.same rcpt

/-- `ScriptResult`; of the modifications only those of the envelope are kept, `M` is their
content. -/
inductive ScriptResult (M : Type) where
  | accept (modifications : List M)
  | replace (modifications : List M)
  | reject
  | discard

/-- What the handlers rely on: it rewrites the sender or a recipient of the transaction, and takes
nothing away. -/
structure EnvelopeLaws {M : Type} (apply : SessionData → M → SessionData) : Prop where
  transaction : ∀ d m, (apply d m).transaction = d.transaction
  mailFrom : ∀ d m, d.mailFrom.isSome → (apply d m).mailFrom.isSome
  rcptTo : ∀ d m, d.rcptTo ≠ [] → (apply d m).rcptTo ≠ []
  acceptedIn : ∀ d m, ∀ r ∈ (apply d m).rcptTo,
    r.acceptedIn = d.transaction ∨ ∃ r' ∈ d.rcptTo, r.acceptedIn = r'.acceptedIn

/-! ## EHLO, HELO and LHLO -/

/-- What a greeting with a new domain runs into: whether its labels are valid, its SPF result is
accepted, and who rejects it. -/
structure EhloAnswers where
  validLabels : Bool
  spfAccepted : Bool
  scriptRejects : Bool
  milterRejects : Bool
  hookRejects : Bool

/-- `SPF`, script, milter or hook reject the greeting. -/
def ehloRejected (p : SessionParameters) (a : EhloAnswers) : Bool :=
  (p.spfEhloVerify && !a.spfAccepted) || a.scriptRejects || a.milterRejects || a.hookRejects

def handleEhlo (p : SessionParameters) (a : EhloAnswers) (domain : String) (d : SessionData) :
    SessionData :=
  let finish (d : SessionData) := if d.mailFrom.isSome then d.reset else d
  if domain ≠ d.heloDomain then
    if p.ehloRejectNonFqdn && !a.validLabels then d
    else if ehloRejected p a then d.dropSender
    else finish { d with heloDomain := domain }
  else finish d

/-! ## MAIL -/

/-- `MailFrom`, with the flags that are read of it; `deliverBy` is its `by`. -/
structure MailFrom where
  sender : SessionAddress
  size : ℕ
  requireTls : Bool
  byNotify : Bool
  byReturn : Bool
  deliverBy : ℤ
  mtPriority : ℤ
  holdFor : ℕ
  holdUntil : ℕ

/-- The checks behind the script of MAIL, in the order of the code; each takes the sender back. -/
inductive MailCheck where
  | milter | mtaHook | senderUnauthorized | requireTlsDisabled | deliverByInvalid
  | deliverByDisabled | mtPriorityInvalid | mtPriorityDisabled | messageTooLarge
  | futureReleaseInvalid | futureReleaseDisabled | dsnDisabled | spf | rateLimit

structure MailAnswers (M : Type) where
  authenticated : Bool
  iprevRejects : Bool
  isAllowed : Bool
  script : ScriptResult M
  /-- the new address, when the rewriting expression yields one that is used -/
  rewrite : Option SessionAddress
  /-- the first check that fails -/
  rejectedBy : Option MailCheck

/-- The checks of MAIL that come before the sender is set. -/
def mailRefused {M : Type} (p : SessionParameters) (a : MailAnswers M) (d : SessionData) : Bool :=
  (d.heloDomain == "" && (p.ehloRequire || p.spfEhloVerify || p.spfMailFromVerify)) ||
    d.mailFrom.isSome || (p.authRequire && !a.authenticated) || a.iprevRejects

/-- The sender is set: a new transaction begins. -/
def SessionData.setSender (sender : SessionAddress) : SessionData :=
  { d with mailFrom := some sender, transaction := d.transaction + 1 }

/-- The modifications that MAIL and RCPT apply. -/
def ScriptResult.modifications {M : Type} : ScriptResult M → List M
  | .accept modifications => modifications
  | _ => []

/-- The modifications that DATA applies, unless the script ends it. -/
def ScriptResult.dataModifications {M : Type} : ScriptResult M → Option (List M)
  | .accept modifications | .replace modifications => some modifications
  | .reject | .discard => none

/-- `mail_from` after the rewriting of the address; `none` is a failed `unwrap`. -/
def rewriteSender : Option SessionAddress → Option SessionData
  | none => some d
  | some new =>
    match d.mailFrom with
    | none => none
    | some sender =>
      some { d with
        mailFrom := some { sender with
          address := new.address
          addressLcase := new.addressLcase
          domain := new.domain } }

section Apply

variable {M : Type} (apply : SessionData → M → SessionData)

/-- MAIL up to the modifications of its script. -/
def mailAccepted (a : MailAnswers M) (sender : SessionAddress) (d : SessionData) : SessionData :=
  a.script.modifications.foldl apply (d.setSender sender)

/-- `handle_mail_from`; `none` is a failed `unwrap`. -/
def handleMailFrom (p : SessionParameters) (a : MailAnswers M) (sender : SessionAddress)
    (d : SessionData) : Option SessionData :=
  if mailRefused p a d then some d
  else if !a.isAllowed then some (d.setSender sender).dropSender
  else
    match a.script with
    | .reject => some (d.setSender sender).dropSender
    | _ =>
      let d := mailAccepted apply a sender d
      match a.rejectedBy with
      | some .milter | some .mtaHook => some d.dropSender
      | rejectedBy =>
        match rewriteSender d a.rewrite with
        | none => none
        | some d => if rejectedBy.isSome then some d.dropSender else some d

/-! ## RCPT -/

/-- What is known of a recipient: `mailbox` is also one that may be relayed. -/
inductive RcptType where
  | mailbox
  | list (members : List SessionAddress)
  | invalid
  | relayNotAllowed
  | unavailable

structure RcptAnswers (M : Type) where
  /-- whether a script, a rewriting expression, a milter or a hook is configured for RCPT -/
  filtered : Bool
  script : ScriptResult M
  milterRejects : Bool
  hookRejects : Bool
  /-- the new address, when the rewriting expression yields one that is used -/
  rewrite : Option SessionAddress
  directory : RcptType
  rateLimited : Bool
  greylisted : Bool

/-- What RCPT leaves: the envelope and whether the session goes on. -/
structure RcptResult where
  data : SessionData
  goesOn : Bool

/-- `rcpt_error`, after the recipient has been popped. -/
def rcptError (p : SessionParameters) (d : SessionData) : RcptResult :=
  let d := { d with rcptErrors := d.rcptErrors + 1 }
  ⟨d, decide (d.rcptErrors < p.rcptErrorsMax)⟩

/-- `rcpt_to.last_mut().unwrap()` with a new address; `none` is a failed `unwrap`. -/
def rewriteRcpt : Option SessionAddress → Option SessionData
  | none => some d
  | some new =>
    match d.rcptTo.getLast? with
    | none => none
    | some rcpt =>
      some { d with
        rcptTo := d.rcptTo.dropLast ++ [{ rcpt with
          address := new.address
          addressLcase := new.addressLcase
          domain := new.domain }] }

/-- One turn of the loop that expands a list. -/
def pushMember (listAddr : SessionAddress) (d : SessionData) (member : SessionAddress) :
    SessionData :=
  if !d.hasRcpt member && member.addressLcase != listAddr.addressLcase then
    d.pushRcpt { member with
      dsnInfo := some ("rfc822;" ++ listAddr.addressLcase)
      flags := listAddr.flags }
  else d

/-- RCPT from the directory lookup on. -/
def verifyRcpt (p : SessionParameters) (a : RcptAnswers M) (d : SessionData) :
    Option RcptResult :=
  match d.rcptTo.getLast? with
  | none => none
  | some rcpt =>
    let accepted (d : SessionData) : RcptResult := ⟨{ d with rcptOks := d.rcptOks + 1 }, true⟩
    match a.directory with
    | .invalid | .relayNotAllowed => some (rcptError p d.popRcpt)
    | .unavailable => some ⟨d.popRcpt, true⟩
    | .mailbox =>
      if a.rateLimited || a.greylisted then some ⟨d.popRcpt, true⟩ else some (accepted d)
    | .list members =>
      if a.rateLimited || a.greylisted then some ⟨d.popRcpt, true⟩
      else some (accepted (members.foldl (pushMember rcpt) d.popRcpt))

/-- RCPT behind its script: milter, hook, rewriting and the second check for duplicates. -/
def filterRcpt (p : SessionParameters) (a : RcptAnswers M) (d : SessionData) :
    Option RcptResult :=
  if a.milterRejects || a.hookRejects then some ⟨d.popRcpt, true⟩
  else
    match rewriteRcpt d a.rewrite with
    | none => none
    | some d =>
      match d.rcptTo.getLast? with
      | none => none
      | some rcpt =>
        if 1 < d.rcptTo.countP (fun r => r.same rcpt) then
          some ⟨{ d.popRcpt with rcptOks := d.rcptOks + 1 }, true⟩
        else verifyRcpt p a d

/-- `handle_rcpt_to`; `usesDsn` says whether the command has DSN parameters. -/
def handleRcptTo (p : SessionParameters) (a : RcptAnswers M) (recipient : SessionAddress)
    (usesDsn : Bool) (d : SessionData) : Option RcptResult :=
  if d.mailFrom.isNone || decide (p.rcptMax ≤ d.rcptTo.length) || (usesDsn && !p.rcptDsn) then
    some ⟨d, true⟩
  else if d.hasRcpt recipient then some ⟨{ d with rcptOks := d.rcptOks + 1 }, true⟩
  else
    let d := d.pushRcpt recipient
    if a.filtered then
      match a.script with
      | .reject => some ⟨d.popRcpt, true⟩
      | script => filterRcpt p a (script.modifications.foldl apply d)
    else verifyRcpt p a d

/-! ## DATA and BDAT -/

def canSendData (p : SessionParameters) (d : SessionData) : Bool :=
  !d.rcptTo.isEmpty && decide (d.messagesSent < p.maxMessages)

/-- The modifications of a milter or hook that reach the envelope. -/
inductive Modification where
  | changeFrom (sender : SessionAddress)
  | addRcpt (recipient : SessionAddress)
  | deleteRcpt (recipient : String)
  | other

/-- `apply_milter_modifications`, for one modification. -/
def applyMilterModification : Modification → SessionData
  | .changeFrom sender => { d with mailFrom := some sender }
  | .addRcpt recipient => if d.hasRcpt recipient then d else d.pushRcpt recipient
  | .deleteRcpt recipient =>
    { d with rcptTo := d.rcptTo.filter (fun r => r.addressLcase != recipient) }
  | .other => d

/-- How `queue_message` ends before it reaches the filters, and whether that counts as a sent
message. -/
inductive QueueExit where
  | parse | loop | dkim | arc
  | dmarc | report | spamDiscard | spamReject | milter | mtaHook

/-- The exits before the sender is unwrapped for the first time. -/
def QueueExit.isEarly : QueueExit → Bool
  | .parse | .loop | .dkim | .arc => true
  | _ => false

/-- The exits that add to `messages_sent`. -/
def QueueExit.counts : QueueExit → Bool
  | .report | .spamDiscard | .spamReject => true
  | _ => false

structure QueueAnswers (M : Type) where
  /-- the exit taken before the modifications, if any -/
  exit : Option QueueExit
  /-- whether the response of a milter, hook or script is empty -/
  disconnects : Bool
  modifications : List Modification
  script : ScriptResult M
  /-- the queue has quota and the message is stored -/
  queued : Bool

/-- One call of `queue_message`: the sender it found, the transaction, and the recipients a message
was queued for. -/
structure QueueEntry where
  sender : Option SessionAddress
  transaction : ℕ
  recipients : List SessionAddress

/-- What `queue_message` leaves: the envelope, whether it answers anything, and its entry. -/
structure QueueResult where
  data : SessionData
  answers : Bool
  entry : QueueEntry

/-- `queue_message`; `none` is a failed `unwrap` of the sender. -/
def queueMessage (a : QueueAnswers M) (d : SessionData) : Option QueueResult :=
  let entry : QueueEntry := ⟨d.mailFrom, d.transaction, []⟩
  let d := { d with message := 0 }
  match a.exit with
  | some exit =>
    if exit.isEarly then some ⟨d, true, entry⟩
    else if d.mailFrom.isNone then none
    else
      let d := if exit.counts then { d with messagesSent := d.messagesSent + 1 } else d
      some ⟨d, !a.disconnects, entry⟩
  | none =>
    if d.mailFrom.isNone then none
    else
      let d := a.modifications.foldl applyMilterModification d
      match a.script.dataModifications with
      | none => some ⟨d, !a.disconnects, entry⟩
      | some modifications =>
        let d := modifications.foldl apply d
        match d.mailFrom with
        | none => none
        | some sender =>
          let recipients := d.rcptTo
          let d := { d with rcptTo := [] }
          if a.queued then
            some ⟨{ d with messagesSent := d.messagesSent + 1 }, true,
              ⟨some sender, d.transaction, recipients⟩⟩
          else some ⟨d, true, entry⟩

/-! ## The session -/

/-- `State`; the states that only collect a line are one. -/
inductive State where
  | request
  | data
  | bdat (isLast : Bool)
  | dataTooLarge
  | line
  | closed
  deriving DecidableEq

structure Session where
  state : State
  data : SessionData
  entries : List QueueEntry

/-- What the session reads next, with everything it runs into. -/
inductive Label (M : Type) where
  | ehlo (p : SessionParameters) (a : EhloAnswers) (domain : String)
  | mail (p : SessionParameters) (a : MailAnswers M) (sender : SessionAddress)
  | rcpt (p : SessionParameters) (a : RcptAnswers M) (recipient : SessionAddress) (usesDsn : Bool)
  | rset
  | dataCommand (p : SessionParameters)
  | bdatCommand (p : SessionParameters) (chunkSize : ℕ) (isLast : Bool)
  /-- AUTH, STARTTLS, NOOP, VRFY and everything else that leaves the envelope alone -/
  | other (line : Bool)
  /-- bytes of a message, a chunk or a line: how many were read and appended, and whether they
  complete it -/
  | bytes (p : SessionParameters) (a : QueueAnswers M) (read count : ℕ) (complete : Bool)
  /-- QUIT, a timeout, a ban or a failed write -/
  | close

/-- The end of a complete message: the response, then the reset. -/
def finishMessage (a : QueueAnswers M) (s : Session) : Option Session :=
  match queueMessage apply a s.data with
  | none => none
  | some r =>
    some
      { state := if r.answers then .request else .closed
        data := if r.answers then r.data.reset else r.data
        entries := r.entry :: s.entries }

/-- The commands of `Session::ingest`. -/
def stepRequest (s : Session) : Label M → Option Session
  | .ehlo p a domain => some { s with data := handleEhlo p a domain s.data }
  | .mail p a sender =>
    match handleMailFrom apply p a sender s.data with
    | none => none
    | some data => some { s with data := data }
  | .rcpt p a recipient usesDsn =>
    match handleRcptTo apply p a recipient usesDsn s.data with
    | none => none
    | some r => some { s with state := if r.goesOn then .request else .closed, data := r.data }
  | .rset => some { s with data := s.data.reset }
  | .dataCommand p =>
    if canSendData p s.data then
      some { s with state := .data, data := { s.data with message := 0 } }
    else some s
  | .bdatCommand p chunkSize isLast =>
    if chunkSize + s.data.message < p.maxMessageSize then some { s with state := .bdat isLast }
    else some { s with state := .dataTooLarge }
  | .other line => some { s with state := if line then .line else .request }
  | .bytes .. => some s
  | .close => some { s with state := .closed }

/-- The states of `Session::ingest` that read bytes. -/
def stepBytes (s : Session) (p : SessionParameters) (a : QueueAnswers M) (read count : ℕ)
    (complete : Bool) : Option Session :=
  let received := { s with data := { s.data with message := s.data.message + count } }
  match s.state with
  | .data =>
    if s.data.message + read < p.maxMessageSize then
      if complete then finishMessage apply a received else some received
    else some { s with state := .dataTooLarge }
  | .bdat isLast =>
    if complete then
      if canSendData p s.data then
        if isLast then finishMessage apply a received
        else some { received with state := .request }
      else some { s with state := .request, data := { s.data with message := 0 } }
    else some received
  | .dataTooLarge =>
    if complete then some { s with state := .request, data := { s.data with message := 0 } }
    else some s
  | .line => if complete then some { s with state := .request } else some s
  | .request | .closed => some s

/-- A step of the session; `none` is a panic. -/
def step (s : Session) (label : Label M) : Option Session :=
  match s.state with
  | .request => stepRequest apply s label
  | .closed => some s
  | _ =>
    match label with
    | .bytes p a read count complete => stepBytes apply s p a read count complete
    | .close => some { s with state := .closed }
    | _ => some s

end Apply

/-- A new session. -/
def start : Session where
  state := .request
  data := ⟨"", none, [], 0, 0, 0, 0, 0⟩
  entries := []

end MailServer.Smtp
