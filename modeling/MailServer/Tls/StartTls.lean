import MailServer.Imap.Connection
import MailServer.Smtp.Bdat
import MailServer.Smtp.Connection

/-!
# STARTTLS

What a client, or somebody in between, sends in clear before the handshake should have no influence
on the session behind it.  `into_tls` hands the whole session over, in IMAP with the receiver and
what is left of a command in it, in SMTP with the envelope, the parameters of MAIL, the failed
logins and what is known of the client; SMTP drops the rest of the packet and the receiver.

Principal results: `imap_startTls_iff`, `smtp_startTls_iff`, `startTls_inert_iff`,
`cleartext_executed`.
-/

namespace MailServer.StartTls

open Imap.SearchCommand (Bytes ascii)

/-! ## IMAP -/

section Imap

open Imap.Receive

/-- The session behind the handshake, when only STARTTLS was received in clear. -/
def imapReference (settings : Settings) : Connection := (Connection.new settings).intoTls

/-- The connection is still a new one: no part of a command in the receiver, and nobody has tried to
log in. -/
structure ImapUntouched (settings : Settings) (w : Connection) : Prop where
  receiver : w.receiver = .new commandParser settings.maxRequestSize
  state : w.session.state = .notAuthenticated 0
  features : w.features = .initial

/-- STARTTLS alone leads to the reference. -/
theorem imap_onlyStartTls {settings : Settings} (htls : settings.acceptorIsTls)
    {a} (hwritten : (a.handler 0).written) :
    ∃ w, step (.new settings) (ascii "a STARTTLS\r\n", a) = some w ∧ w.mode = .upgradeTls ∧
      w.intoTls = imapReference settings := by
  have hparse : receive commandParser (.new commandParser settings.maxRequestSize)
      (ascii "a STARTTLS\r\n") =
        (.new commandParser settings.maxRequestSize, [.request ⟨ascii "a", .startTls, []⟩]) := rfl
  obtain ⟨maxRequestSize, acceptorIsTls, allowPlainAuth, maxAuthFailures⟩ := settings
  cases htls
  have haccept : acceptRequests (Connection.new ⟨maxRequestSize, true, allowPlainAuth,
      maxAuthFailures⟩).session a 0 [⟨ascii "a", .startTls, []⟩] =
        some [⟨ascii "a", .startTls, []⟩] := rfl
  have hrun : ∀ w, runHandlers w none [(⟨ascii "a", .startTls, []⟩, a.handler 0)] =
      .ok (w, .upgradeTls) := by
    intro w
    have hhandle : handleRequest (a.handler 0) ⟨ascii "a", .startTls, []⟩ w = .ok (w, .ok ()) := by
      unfold handleRequest
      simp only [Imap.handle, Imap.writeBytes, hwritten, if_true, afterEnable]
      have hsame : afterAuthenticate (a.handler 0) ⟨ascii "a", .startTls, []⟩ w.receiver =
          w.receiver := by
        unfold afterAuthenticate
        split
        · next h => cases h
        · rfl
      rw [hsame]
    simp only [runHandlers, hhandle]
    rfl
  refine ⟨{ Connection.new ⟨maxRequestSize, true, allowPlainAuth, maxAuthFailures⟩ with
    mode := .upgradeTls }, ?_, rfl, rfl⟩
  unfold step
  have hingest : ingestBytes (.new ⟨maxRequestSize, true, allowPlainAuth, maxAuthFailures⟩)
      (ascii "a STARTTLS\r\n") a =
        .ok (.new ⟨maxRequestSize, true, allowPlainAuth, maxAuthFailures⟩, .upgradeTls) := by
    have hrequests : requestsOf [.request ⟨ascii "a", .startTls, []⟩] =
        [⟨ascii "a", .startTls, []⟩] := rfl
    have hreceive : receive commandParser (Connection.new ⟨maxRequestSize, true, allowPlainAuth,
        maxAuthFailures⟩).receiver (ascii "a STARTTLS\r\n") =
          (.new commandParser maxRequestSize, [.request ⟨ascii "a", .startTls, []⟩]) := hparse
    simp only [ingestBytes, hreceive, hrequests]
    rw [haccept]
    simp only [List.any_cons, isError, List.any_nil, Bool.or_self, Bool.false_and,
      List.mapIdx_cons, List.mapIdx_nil, hrun]
    rfl
  simp only [Connection.new] at hingest ⊢
  rw [hingest]

section

variable {settings : Settings} {run : List (Bytes × PacketAnswers)} {w : Connection}
  (hexec : Runs.exec step (.new settings) run = some w)
include hexec

theorem imap_configuration : Kept (.new settings) w := by
  have hadmitted : Runs.Along step (fun _ _ => True) (.new settings) run :=
    .of_forall (fun _ _ => trivial) _ _
  exact Runs.exec_invariant_of_some (fun v input v' hkept _ hstep => hkept.trans (step_kept hstep))
    (.refl _) hadmitted hexec

/-- **IMAP**: the session behind the handshake is the reference exactly when it was untouched
before. -/
theorem imap_startTls_iff :
    Runs.Indistinguishable step w.intoTls (imapReference settings) ↔ ImapUntouched settings w := by
  obtain ⟨state, hsession⟩ := imap_configuration hexec
  rw [Runs.indistinguishable_iff]
  constructor
  · intro h
    have hreceiver := congrArg Connection.receiver h
    have hstate := congrArg (fun v => v.session.state) h
    have hfeatures := congrArg Connection.features h
    exact ⟨hreceiver, hstate, hfeatures⟩
  · rintro ⟨hreceiver, hstate, hfeatures⟩
    unfold imapReference Connection.intoTls
    rw [hsession] at hstate ⊢
    cases hstate
    rw [hreceiver, hfeatures]
    rfl

end

end Imap

/-! ## SMTP -/

section Smtp

open Smtp Smtp.Ingest

variable {R : Receivers} {M : Type} {inst : Instance} {settings : Smtp.Ingest.Settings}
  {apply : Smtp.SessionData → M → Smtp.SessionData}
  {applyParameters : TransactionParameters → M → TransactionParameters}

variable (R) in
/-- The connection behind the handshake, when only STARTTLS was received in clear. -/
def smtpReference : Smtp.Ingest.Connection R :=
  let new := Smtp.Ingest.Connection.new R
  { new with session := { new.session with isTls := true } }

/-- The connection with the records of a session: what the model keeps beside the fields of the
code. -/
def withRecords (records : Smtp.Ingest.Session R) (s : Smtp.Ingest.Connection R) :
    Smtp.Ingest.Connection R :=
  { s with session := { s.session with
      data := { s.session.data with
        transaction := records.data.transaction
        message := records.data.message }
      packet := records.packet
      entries := records.entries
      log := records.log
      queued := records.queued } }

/-- The connection is still a new one: no greeting, envelope or message, nobody has tried to log in,
and no MAIL has left anything behind. -/
structure SmtpUntouched (s : Smtp.Ingest.Connection R) : Prop where
  heloDomain : s.session.data.heloDomain = ""
  mailFrom : s.session.data.mailFrom = none
  rcptTo : s.session.data.rcptTo = []
  rcptErrors : s.session.data.rcptErrors = 0
  rcptOks : s.session.data.rcptOks = 0
  messagesSent : s.session.data.messagesSent = 0
  message : s.session.message = []
  authenticatedAs : s.session.authenticatedAs = none
  authErrors : s.authErrors = 0
  transaction : s.transaction = {}
  iprev : s.iprev = none
  spfEhlo : s.spfEhlo = none
  limits : s.limits = {}

/-- The loop finds STARTTLS in clear, on a listener with TLS. -/
structure FindsStartTls (inst : Instance) (s : Smtp.Ingest.Connection R) : Prop where
  hasTls : inst.hasTls
  inClear : s.session.isTls = false
  found : ∃ receiver iter, s.session.state = .request receiver ∧ s.session.iter = some iter ∧
    (R.ingestRequest receiver iter).1 = .ok .startTls

theorem step_startTls {s : Smtp.Ingest.Connection R} (h : FindsStartTls inst s)
    (a : TurnAnswers M R) :
    Smtp.Ingest.Connection.step inst settings apply applyParameters s (.turn a) =
      some { s with session := { s.session with
        state := .default R
        iter := none
        isTls := true } } := by
  obtain ⟨receiver, iter, hstate, hiter, hrequest⟩ := h.found
  have hsession : Smtp.Ingest.step inst apply s.session (.turn (s.answers settings apply a)) =
      some { s.session with state := .default R, iter := none, isTls := true } := by
    simp only [Smtp.Ingest.step, hiter, turn, hstate, turnRequest, hrequest, handleRequest,
      h.inClear, h.hasTls, Bool.not_false, Bool.and_self, if_true]
  have hnext : s.session.nextRequest = some (.ok .startTls) := by
    simp only [Session.nextRequest, hstate, hiter, hrequest]
  have hauth : s.auth a = .refused := by
    simp only [Smtp.Ingest.Connection.auth, hstate, hiter, hrequest]
  have hmail : s.mailCommand = none := by
    simp only [Smtp.Ingest.Connection.mailCommand, hnext]
  have hgreeting : s.greeting inst settings = none := by
    simp only [Smtp.Ingest.Connection.greeting, hnext]
  have hcomplete : s.completesMessage settings a = false := by
    simp only [Smtp.Ingest.Connection.completesMessage, hstate]
  refine (congrArg (Option.map _) hsession).trans ?_
  simp [Smtp.Ingest.Connection.afterTurn, Smtp.Ingest.Connection.disconnects, hauth, hnext, hmail,
    hgreeting, hcomplete, Smtp.Ingest.Connection.transactionAfter,
    Smtp.Ingest.Connection.authErrorsAfter, Smtp.Ingest.Connection.spfEhloAfter,
    Smtp.Ingest.Connection.limitsAfter]

/-- STARTTLS alone leads to the reference. -/
theorem smtp_onlyStartTls {iter : List UInt8} (htls : inst.hasTls)
    (hrequest : (R.ingestRequest R.newRequest iter).1 = .ok .startTls) (a : TurnAnswers M R) :
    Runs.exec (Smtp.Ingest.Connection.step inst settings apply applyParameters) (.new R)
        [.packet iter, .turn a] =
      some (withRecords { start R with packet := iter.length } (smtpReference R)) := by
  have hpacket : Smtp.Ingest.Connection.step inst settings apply applyParameters (.new R)
      (.packet iter) = some { Smtp.Ingest.Connection.new R with
        session := { start R with iter := some iter, packet := iter.length } } := rfl
  rw [Runs.exec_cons_of_some hpacket, Runs.exec_cons_of_some (step_startTls
    ⟨htls, rfl, R.newRequest, iter, rfl, rfl, hrequest⟩ a)]
  rfl

/-- **SMTP**: the connection behind the handshake is the reference exactly when the one before it
was untouched; what is left in the packet and the receiver does not matter. -/
theorem smtp_startTls_iff {s : Smtp.Ingest.Connection R} (h : FindsStartTls inst s)
    (a : TurnAnswers M R) :
    ∃ s', Smtp.Ingest.Connection.step inst settings apply applyParameters s (.turn a) = some s' ∧
      (Runs.Indistinguishable (Smtp.Ingest.Connection.step inst settings apply applyParameters) s'
        (withRecords s'.session (smtpReference R)) ↔ SmtpUntouched s) := by
  refine ⟨_, step_startTls h a, ?_⟩
  rw [Runs.indistinguishable_iff]
  constructor
  · intro heq
    have hsession := congrArg Smtp.Ingest.Connection.session heq
    have hdata := congrArg Smtp.Ingest.Session.data hsession
    exact ⟨congrArg Smtp.SessionData.heloDomain hdata, congrArg Smtp.SessionData.mailFrom hdata,
      congrArg Smtp.SessionData.rcptTo hdata, congrArg Smtp.SessionData.rcptErrors hdata,
      congrArg Smtp.SessionData.rcptOks hdata, congrArg Smtp.SessionData.messagesSent hdata,
      congrArg Smtp.Ingest.Session.message hsession,
      congrArg Smtp.Ingest.Session.authenticatedAs hsession,
      congrArg Smtp.Ingest.Connection.authErrors heq,
      congrArg Smtp.Ingest.Connection.transaction heq, congrArg Smtp.Ingest.Connection.iprev heq,
      congrArg Smtp.Ingest.Connection.spfEhlo heq, congrArg Smtp.Ingest.Connection.limits heq⟩
  · rintro ⟨hhelo, hsender, hrcpt, herrors, hoks, hsent, hmessage, haccount, hauth, hq, hiprev,
      hspf, hlimits⟩
    obtain ⟨⟨state, data, message, authenticatedAs, isTls, iter, packet, entries, log, queued⟩,
      transaction, authErrors, iprev, spfEhlo, limits⟩ := s
    obtain ⟨heloDomain, mailFrom, rcptTo, rcptErrors, rcptOks, messagesSent, length, count⟩ := data
    cases hhelo
    cases hsender
    cases hrcpt
    cases herrors
    cases hoks
    cases hsent
    cases hmessage
    cases haccount
    cases hauth
    cases hq
    cases hiprev
    cases hspf
    cases hlimits
    rfl

end Smtp

/-! ## Both protocols -/

/-- What STARTTLS alone leads to: the references. -/
structure OnlyStartTls (settings : Imap.Receive.Settings) (R : Smtp.Ingest.Receivers) {M : Type}
    (inst : Smtp.Ingest.Instance)
    (step : Smtp.Ingest.Connection R → Smtp.Ingest.ConnectionLabel M R →
      Option (Smtp.Ingest.Connection R)) : Prop where
  imap : settings.acceptorIsTls → ∀ a : Imap.Receive.PacketAnswers, (a.handler 0).written →
    ∃ w, Imap.Receive.step (.new settings) (ascii "a STARTTLS\r\n", a) = some w ∧
      w.mode = .upgradeTls ∧ w.intoTls = imapReference settings
  smtp : inst.hasTls → ∀ iter, (R.ingestRequest R.newRequest iter).1 = .ok .startTls → ∀ a,
    Runs.exec step (.new R) [.packet iter, .turn a] =
      some (withRecords { Smtp.Ingest.start R with packet := iter.length } (smtpReference R))

/-- **STARTTLS.** Whatever was received in clear, the session behind the handshake is and stays the
one that received STARTTLS alone, exactly when the session that STARTTLS found was untouched. -/
theorem startTls_inert_iff (imapSettings : Imap.Receive.Settings) (R : Smtp.Ingest.Receivers)
    {M : Type} (inst : Smtp.Ingest.Instance) (settings : Smtp.Ingest.Settings)
    (apply : Smtp.SessionData → M → Smtp.SessionData)
    (applyParameters : Smtp.TransactionParameters → M → Smtp.TransactionParameters) :
    OnlyStartTls imapSettings R inst
        (Smtp.Ingest.Connection.step inst settings apply applyParameters) ∧
      (∀ run w, Runs.exec Imap.Receive.step (.new imapSettings) run = some w →
        w.mode = .upgradeTls →
        (Runs.Indistinguishable Imap.Receive.step w.intoTls (imapReference imapSettings) ↔
          ImapUntouched imapSettings w)) ∧
      ∀ (s : Smtp.Ingest.Connection R) (a : Smtp.Ingest.TurnAnswers M R), FindsStartTls inst s →
        ∃ s', Smtp.Ingest.Connection.step inst settings apply applyParameters s (.turn a) =
          some s' ∧
          (Runs.Indistinguishable
            (Smtp.Ingest.Connection.step inst settings apply applyParameters) s'
            (withRecords s'.session (smtpReference R)) ↔ SmtpUntouched s) :=
  ⟨⟨fun htls _ hwritten => imap_onlyStartTls htls hwritten,
      fun htls _ hrequest a => smtp_onlyStartTls htls hrequest a⟩,
    fun _ _ hexec _ => imap_startTls_iff hexec, fun _ a h => smtp_startTls_iff h a⟩

/-! ## Sessions with more than STARTTLS -/

namespace Cleartext

def settings : Imap.Receive.Settings := ⟨100, true, true, 3⟩

/-- An environment in which everything succeeds. -/
def imapAnswers : Imap.Receive.PacketAnswers where
  rate _ := .allowed
  rejectionWritten _ := true
  scanBanned := false
  errorWritten := true
  readyWritten := true
  handler _ := ⟨.ok (), .ok (), none, .ok (), .ok (), false, .ok (), .ok (), .ok (), true⟩

/-- A login is begun behind STARTTLS, in the same packet. -/
def beginsLogin : Bytes × Imap.Receive.PacketAnswers :=
  (ascii "a STARTTLS\r\nb LOGIN mallory ", imapAnswers)

def parse (line : List UInt8) : Except Smtp.Ingest.RequestError Smtp.Ingest.Request :=
  if line = Smtp.Ingest.Pipelined.bytesOf "STARTTLS\r\n" then .ok .startTls
  else if line = Smtp.Ingest.Pipelined.bytesOf "AUTH PLAIN AGEAYg==\r\n" then .ok .auth
  else Smtp.Ingest.Pipelined.parse line

def receivers : Smtp.Ingest.Receivers :=
  { Smtp.Ingest.Pipelined.receivers with
    ingestRequest := fun (line iter : List UInt8) =>
      match Smtp.Ingest.Pipelined.splitLine iter with
      | none => (.error .needsMoreData, line ++ iter, [])
      | some (last, rest) => (parse (line ++ last), [], rest) }

/-- No greeting is required, and the third failed login disconnects. -/
def smtpSettings : Smtp.Ingest.Settings := ⟨false, false, false, false, false, false, 3⟩

/-- Everything is accepted but logins. -/
def smtpAnswers : Smtp.Ingest.TurnAnswers Smtp.SessionAddress receivers where
  ehlo := Smtp.Ingest.Pipelined.answers.ehlo
  ehloSpf := ⟨.none, "none", ""⟩
  mail := Smtp.Sample.environment none
  limits := ⟨10, 100, true, 104857600⟩
  rcpt := Smtp.Ingest.Pipelined.answers.rcpt
  maxMessages := 10
  queue := Smtp.Ingest.Pipelined.answers.queue
  auth := .failed

def smtpStep : Smtp.Ingest.Connection receivers →
    Smtp.Ingest.ConnectionLabel Smtp.SessionAddress receivers →
      Option (Smtp.Ingest.Connection receivers) :=
  Smtp.Ingest.Connection.step ⟨true, true⟩ smtpSettings Smtp.setEnvelopeFrom
    Smtp.Sample.keepParameters

def feed (text : String) (turns : ℕ) :
    List (Smtp.Ingest.ConnectionLabel Smtp.SessionAddress receivers) :=
  .packet (Smtp.Ingest.Pipelined.bytesOf text) :: List.replicate turns (.turn smtpAnswers)

/-- A connection that has just received STARTTLS, and a command behind it. -/
def found : Smtp.Ingest.Connection receivers :=
  let packet := Smtp.Ingest.Pipelined.bytesOf "STARTTLS\r\nMAIL FROM:<s@a>\r\n"
  { Smtp.Ingest.Connection.new receivers with
    session := { Smtp.Ingest.start receivers with iter := some packet, packet := packet.length } }

end Cleartext

open Cleartext in
/-- Sessions that send STARTTLS, in SMTP with more in the same packet: they are untouched. -/
theorem startTls_inert_onlyStartTls :
    (∃ w, Runs.exec Imap.Receive.step (.new settings) [(ascii "a STARTTLS\r\n", imapAnswers)] =
        some w ∧ w.mode = .upgradeTls ∧
        Runs.Indistinguishable Imap.Receive.step w.intoTls (imapReference settings)) ∧
      Runs.exec smtpStep (.new receivers) (feed "STARTTLS\r\nMAIL FROM:<s@a>\r\n" 0) = some found ∧
      ∃ s', smtpStep found (.turn smtpAnswers) = some s' ∧
        Runs.Indistinguishable smtpStep s' (withRecords s'.session (smtpReference receivers)) := by
  obtain ⟨-, himap, hsmtp⟩ := startTls_inert_iff settings receivers ⟨true, true⟩ smtpSettings
    Smtp.setEnvelopeFrom Smtp.Sample.keepParameters
  refine ⟨⟨_, rfl, rfl, (himap [(ascii "a STARTTLS\r\n", imapAnswers)] _ rfl rfl).2
    ⟨rfl, rfl, rfl⟩⟩, rfl, ?_⟩
  obtain ⟨s', hstep, hiff⟩ := hsmtp found smtpAnswers ⟨rfl, rfl, _, _, rfl, rfl, rfl⟩
  exact ⟨s', hstep, hiff.2 ⟨rfl, rfl, rfl, rfl, rfl, rfl, rfl, rfl, rfl, rfl, rfl, rfl, rfl⟩⟩

open Cleartext in
/-- **What came in clear is executed behind the handshake**: a login begun in clear is completed by
encrypted bytes, and a message is queued for the sender named in clear. -/
theorem cleartext_executed :
    (∃ w, Runs.exec Imap.Receive.step (.new settings) [beginsLogin] = some w ∧
        w.mode = .upgradeTls ∧
        (Imap.Receive.receive Imap.Receive.commandParser w.intoTls.receiver
            (ascii "secret\r\n")).2 =
          [.request ⟨ascii "b", .login,
            [.argument (ascii "mallory"), .argument (ascii "secret")]⟩] ∧
        ¬ Runs.Indistinguishable Imap.Receive.step w.intoTls (imapReference settings)) ∧
      ∃ s s', Runs.exec smtpStep (.new receivers) (feed "MAIL FROM:<s@a>\r\nSTARTTLS\r\n" 1) =
          some s ∧
        FindsStartTls ⟨true, true⟩ s ∧ smtpStep s (.turn smtpAnswers) = some s' ∧
        (∃ t, Runs.exec smtpStep s' (feed "RCPT TO:<r@l>\r\nBDAT 2 LAST\r\nxy" 3) = some t ∧
          t.session.entries.map Smtp.QueueEntry.sender = [some (Smtp.Sample.address "s" "a")]) ∧
        ¬ Runs.Indistinguishable smtpStep s'
          (withRecords s'.session (smtpReference receivers)) := by
  refine ⟨⟨_, rfl, rfl, rfl, fun h => ?_⟩, _, _, rfl, ⟨rfl, rfl, _, _, rfl, rfl, rfl⟩, rfl,
    ⟨_, rfl, rfl⟩, fun h => ?_⟩
  · have hstate := congrArg (fun v => v.receiver.state) (Runs.indistinguishable_iff.1 h)
    cases hstate
  · have hsender := congrArg (fun t => t.session.data.mailFrom) (Runs.indistinguishable_iff.1 h)
    cases hsender

open Cleartext in
/-- **Failed logins in clear count behind the handshake**: after two of them one more disconnects.
-/
example : ∃ s t, Runs.exec smtpStep (.new receivers)
      (feed "AUTH PLAIN AGEAYg==\r\nAUTH PLAIN AGEAYg==\r\nSTARTTLS\r\n" 3) = some s ∧
    s.session.isTls = true ∧ s.authErrors = 2 ∧
    Runs.exec smtpStep s (feed "AUTH PLAIN AGEAYg==\r\n" 1) = some t ∧
    t.session.state = .closed :=
  ⟨_, _, rfl, rfl, rfl, rfl, rfl⟩

end MailServer.StartTls
