import MailServer.Imap.Receiver
import MailServer.Imap.Ingest
import MailServer.Lib.TwoRuns

/-!
# An IMAP connection

`Session::ingest` from the bytes of a packet on: the receiver, the check of the complete requests,
the handlers, and what is left for the next packet.  To the session of `Imap/Session` come the
receiver, which AUTHENTICATE also writes to, and what ENABLE sets; `intoTls` is what STARTTLS makes
of it all.

Principal result: `step_kept`.
-/

namespace MailServer.Imap.Receive

open SearchCommand (Bytes ascii eqIgnoreAsciiCase)

/-! ## The connection -/

/-- What ENABLE sets: `version`, `is_condstore`, `is_qresync` and `is_utf8`. -/
structure Features where
  isRev2 : Bool
  isCondstore : Bool
  isQresync : Bool
  isUtf8 : Bool

def Features.initial : Features := ⟨false, false, false, false⟩

/-- `Session`, with how its last `ingest` ended. -/
structure Connection where
  receiver : Receiver Command
  session : Session
  features : Features
  mode : SessionResult

/-- The configuration of the listener. -/
structure Settings where
  maxRequestSize : ℕ
  acceptorIsTls : Bool
  allowPlainAuth : Bool
  maxAuthFailures : ℕ

/-- `Session::new`, on a connection in clear. -/
def Connection.new (settings : Settings) : Connection where
  receiver := .new commandParser settings.maxRequestSize
  session := ⟨.notAuthenticated 0, false, settings.acceptorIsTls, settings.allowPlainAuth,
    settings.maxAuthFailures⟩
  features := .initial
  mode := .continue_

/-- `Session::into_tls`: everything but the stream is taken over. -/
def Connection.intoTls (w : Connection) : Connection :=
  { w with session := { w.session with isTls := true }, mode := .continue_ }

/-- What the environment answers to one packet: for each request the rate limiter, for an error the
ban, for rejections, errors and prompts whether they can be written, and what each handler runs
into. -/
structure PacketAnswers where
  rate : ℕ → RateAnswer
  rejectionWritten : ℕ → Bool
  scanBanned : Bool
  errorWritten : Bool
  readyWritten : Bool
  handler : ℕ → Answers

/-! ## The first loop -/

/-- The complete requests of a packet. -/
def requestsOf (outcomes : List (Outcome Command)) : List (Request Command) :=
  outcomes.filterMap fun
    | .request request => some request
    | _ => none

def isError : Outcome Command → Bool
  | .error _ _ => true
  | _ => false

def isLiteral : Outcome Command → Bool
  | .needsLiteral _ => true
  | _ => false

/-- The requests that `is_allowed` accepts, or `none` when the session is closed. -/
def acceptRequests (s : Session) (a : PacketAnswers) (i : ℕ) :
    List (Request Command) → Option (List (Request Command))
  | [] => some []
  | request :: requests =>
    match isAllowed s (a.rate i) request.command with
    | .ok () => (acceptRequests s a (i + 1) requests).map (request :: ·)
    | .error e =>
      if writeError (a.rejectionWritten i) e then acceptRequests s a (i + 1) requests else none

/-- Whether the session survives an error of the receiver: it is written, and nobody is banned. -/
def survivesError (s : Session) (a : PacketAnswers) : Bool :=
  !(!s.state.loggedIn && a.scanBanned) && a.errorWritten

/-! ## The second loop -/

def enableFeature (f : Features) (capability : Bytes) : Features :=
  if eqIgnoreAsciiCase capability (ascii "IMAP4rev2") then { f with isRev2 := true, isUtf8 := true }
  else if eqIgnoreAsciiCase capability (ascii "CONDSTORE") then { f with isCondstore := true }
  else if eqIgnoreAsciiCase capability (ascii "QRESYNC") then
    { f with isQresync := true, isCondstore := true }
  else if eqIgnoreAsciiCase capability (ascii "UTF8=ACCEPT") then { f with isUtf8 := true }
  else f

/-- What `handle_enable` sets. -/
def afterEnable (a : Answers) (request : Request Command) (f : Features) : Features :=
  match request.command, a.permission, a.arguments with
  | .enable, .ok (), .ok () => (request.tokens.map (·.bytes)).foldl enableFeature f
  | _, _, _ => f

/-- What `handle_authenticate` puts into the receiver when it asks for a response. -/
def afterAuthenticate (a : Answers) (request : Request Command) (r : Receiver Command) :
    Receiver Command :=
  match a.arguments, a.response, continueAuthenticate request with
  | .ok (), none, some request => { r with request := request, state := .argument 32 }
  | _, _, _ => r

/-- One request, with all that its handler changes. -/
def handleRequest (a : Answers) (request : Request Command) (w : Connection) :
    Except Accessor (Connection × Except Error Unit) :=
  match handle w.session.maxAuthFailures a request.command w.session.state with
  | .error accessor => .error accessor
  | .ok (state, result) =>
    .ok ({ w with
      receiver := afterAuthenticate a request w.receiver
      session := { w.session with state := state }
      features := afterEnable a request w.features }, result)

/-- The handlers of the accepted requests; `grouped` is the command whose group was just handled. -/
def runHandlers (w : Connection) (grouped : Option Command) :
    List (Request Command × Answers) → Except Accessor (Connection × SessionResult)
  | [] => .ok (w, .continue_)
  | (request, a) :: requests =>
    if grouped = some request.command then runHandlers w grouped requests
    else
      match handleRequest a request w with
      | .error accessor => .error accessor
      | .ok (w, result) =>
        match afterHandler request.command a result with
        | some result => .ok (w, result)
        | none =>
          runHandlers w (if request.command.isGrouped then some request.command else none) requests

/-- **`Session::ingest`**, from the bytes on. -/
def ingestBytes (w : Connection) (bytes : Bytes) (a : PacketAnswers) :
    Except Accessor (Connection × SessionResult) :=
  let q := receive commandParser w.receiver bytes
  let w := { w with receiver := q.1 }
  match acceptRequests w.session a 0 (requestsOf q.2) with
  | none => .ok (w, .close)
  | some requests =>
    if q.2.any isError && !survivesError w.session a then .ok (w, .close)
    else
      match runHandlers w none (requests.mapIdx (fun i request => (request, a.handler i))) with
      | .ok (w, .continue_) =>
        .ok (w, if q.2.any isLiteral && !a.readyWritten then .close else .continue_)
      | result => result

/-- A packet arrives; nothing is read after the session has closed, or before the handshake. -/
def step (w : Connection) (input : Bytes × PacketAnswers) : Option Connection :=
  match w.mode with
  | .continue_ =>
    match ingestBytes w input.1 input.2 with
    | .error _ => none
    | .ok (w, mode) => some { w with mode := mode }
  | _ => some w

/-! ## The session below -/

/-- What a connection keeps: its configuration, and whether it is encrypted. -/
def Kept (w w' : Connection) : Prop :=
  ∃ state, w'.session = { w.session with state := state }

theorem Kept.refl (w : Connection) : Kept w w := ⟨w.session.state, rfl⟩

theorem Kept.trans {w w' w'' : Connection} (h : Kept w w') (h' : Kept w' w'') : Kept w w'' := by
  obtain ⟨state, hsession⟩ := h
  obtain ⟨state', hsession'⟩ := h'
  exact ⟨state', by rw [hsession', hsession]⟩

theorem kept_runHandlers {w w' : Connection} {grouped}
    {requests} {result}
    (h : runHandlers w grouped requests = .ok (w', result)) : Kept w w' := by
  induction requests generalizing w grouped with
  | nil =>
    cases h
    exact .refl _
  | cons entry requests ih =>
    obtain ⟨request, a⟩ := entry
    unfold runHandlers at h
    split at h
    · exact ih h
    · cases hhandle : handle w.session.maxAuthFailures a request.command w.session.state with
      | error accessor =>
        simp only [handleRequest, hhandle, reduceCtorEq] at h
      | ok handled =>
        simp only [handleRequest, hhandle] at h
        split at h
        · cases h
          exact ⟨handled.1, rfl⟩
        · have hrest := ih h
          obtain ⟨state, hsession⟩ := hrest
          exact ⟨state, hsession⟩

theorem kept_ingestBytes {w w' : Connection} {bytes : Bytes} {a}
    {result} (h : ingestBytes w bytes a = .ok (w', result)) : Kept w w' := by
  simp only [ingestBytes] at h
  split at h
  · cases h
    exact ⟨w.session.state, rfl⟩
  · split at h
    · cases h
      exact ⟨w.session.state, rfl⟩
    · split at h
      · next hrun =>
        cases h
        obtain ⟨state, hsession⟩ := kept_runHandlers hrun
        exact ⟨state, hsession⟩
      · obtain ⟨state, hsession⟩ := kept_runHandlers h
        exact ⟨state, hsession⟩

/-- **The configuration and the state of the encryption never change** on a connection. -/
theorem step_kept {w w' : Connection} {input}
    (h : step w input = some w') : Kept w w' := by
  unfold step at h
  split at h
  · cases hingest : ingestBytes w input.1 input.2 with
    | error accessor =>
      rw [hingest] at h
      cases h
    | ok found =>
      rw [hingest] at h
      cases Option.some_inj.1 h
      have hkept := kept_ingestBytes hingest
      obtain ⟨state, hsession⟩ := hkept
      exact ⟨state, hsession⟩
  · cases Option.some_inj.1 h
    exact .refl w

end MailServer.Imap.Receive
