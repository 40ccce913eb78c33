import MailServer.Smtp.Session

/-!
# Packets of an SMTP session

`Session::ingest` turn by turn: the loop over the bytes of a packet, the receiver that each state
holds, and the content of the message.  The envelope is that of `Smtp/Session`.

The receivers come from the protocol library, which is not part of the repository: `Receivers` holds
what the loop calls, `Receivers.Laws` what it relies on.

Beside the session runs a record of what the client has sent since MAIL (`ContentLog`); no code
reads it.
-/

namespace MailServer.Smtp.Ingest

/-! ## What the protocol library provides -/

/-- `Request`, with the addresses as the handlers build them. -/
inductive Request where
  | rcpt (recipient : SessionAddress) (usesDsn : Bool)
  | mail (cmd : MailFrom)
  | ehlo (host : String)
  | helo (host : String)
  | lhlo (host : String)
  | data
  | bdat (chunkSize : ℕ) (isLast : Bool)
  | auth
  | startTls
  | rset
  | quit
  /-- NOOP, VRFY, EXPN, HELP, ETRN, ATRN and BURL -/
  | other

/-- `Error`; a syntax error tells EHLO from the rest. -/
inductive RequestError where
  | needsMoreData
  | responseTooLong
  | syntaxError (ofEhlo : Bool)
  | invalid

/-- What a receiver of content appends, what it leaves in the packet, and whether it has all it
waited for. -/
structure Received (ρ : Type) where
  receiver : ρ
  bytes : List UInt8
  rest : List UInt8
  complete : Bool

/-- What a receiver leaves that drops its bytes or keeps them to itself. -/
structure Skipped (ρ : Type) where
  receiver : ρ
  rest : List UInt8
  complete : Bool

/-- `RequestReceiver`, `DataReceiver`, `BdatReceiver`, `DummyDataReceiver`,
`LineReceiver<SaslToken>` and `DummyLineReceiver`. -/
structure Receivers where
  Request : Type
  Data : Type
  Bdat : Type
  DummyData : Type
  Line : Type
  DummyLine : Type
  newRequest : Request
  ingestRequest : Request → List UInt8 →
    Except RequestError Ingest.Request × Request × List UInt8
  newData : Data
  ingestData : Data → List UInt8 → Received Data
  newBdat : ℕ → Bool → Bdat
  isLast : Bdat → Bool
  /-- the bytes of the chunk that are still to come -/
  bytesLeft : Bdat → ℕ
  ingestBdat : Bdat → List UInt8 → Received Bdat
  dummyOfData : Data → DummyData
  dummyOfBdat : ℕ → DummyData
  /-- the bytes of the chunk that are still to come; of a DATA body nothing is known -/
  dummyLeft : DummyData → Option ℕ
  ingestDummyData : DummyData → List UInt8 → Skipped DummyData
  ingestLine : Line → List UInt8 → Skipped Line
  newDummyLine : DummyLine
  ingestDummyLine : DummyLine → List UInt8 → Skipped DummyLine

/-- What `ingest` relies on: a chunk is exactly as long as announced, and its bytes are appended as
they are. -/
structure Receivers.Laws (R : Receivers) : Prop where
  bytesLeft_new : ∀ n isLast, R.bytesLeft (R.newBdat n isLast) = n
  isLast_new : ∀ n isLast, R.isLast (R.newBdat n isLast) = isLast
  isLast_ingest : ∀ r iter, R.isLast (R.ingestBdat r iter).receiver = R.isLast r
  bytesLeft_ingest : ∀ r iter,
    R.bytesLeft (R.ingestBdat r iter).receiver = R.bytesLeft r - iter.length
  bytes_ingest : ∀ r iter, (R.ingestBdat r iter).bytes = iter.take (R.bytesLeft r)
  rest_ingest : ∀ r iter, (R.ingestBdat r iter).rest = iter.drop (R.bytesLeft r)
  complete_ingest : ∀ r iter,
    (R.ingestBdat r iter).complete = decide (R.bytesLeft r ≤ iter.length)
  dummyLeft_ofBdat : ∀ n, R.dummyLeft (R.dummyOfBdat n) = some n
  dummyLeft_ofData : ∀ r, R.dummyLeft (R.dummyOfData r) = none
  dummyLeft_ingest : ∀ r iter, R.dummyLeft (R.ingestDummyData r iter).receiver =
    (R.dummyLeft r).map fun left => left - iter.length
  dummyRest_ingest : ∀ r iter left, R.dummyLeft r = some left →
    (R.ingestDummyData r iter).rest = iter.drop left
  dummyComplete_ingest : ∀ r iter left, R.dummyLeft r = some left →
    (R.ingestDummyData r iter).complete = decide (left ≤ iter.length)

/-! ## What the client has sent -/

/-- A piece of content: a chunk with the size that BDAT announced, or the body of DATA. -/
structure Piece where
  announced : Option ℕ
  bytes : List UInt8

/-- What the client has sent since MAIL: the complete pieces, the piece that is coming in, whether a
chunk was refused, what the message held at MAIL, and what had been sent when DATA last emptied it.
-/
structure ContentLog where
  pieces : List Piece
  current : Piece
  refused : Bool
  leftover : List UInt8
  dropped : List UInt8

namespace ContentLog

variable (log : ContentLog)

/-- The content of the complete pieces, in order. -/
def content : List UInt8 := (log.pieces.map Piece.bytes).flatten

/-- MAIL is accepted. -/
def begin (message : List UInt8) : ContentLog where
  pieces := []
  current := ⟨none, []⟩
  refused := false
  leftover := message
  dropped := []

/-- DATA is accepted. -/
def startBody : ContentLog :=
  { log with
    current := ⟨none, []⟩
    leftover := []
    dropped := log.content }

/-- BDAT announces a chunk. -/
def startChunk (chunkSize : ℕ) : ContentLog :=
  { log with current := ⟨some chunkSize, []⟩ }

/-- Bytes of the current piece come in. -/
def receive (bytes : List UInt8) : ContentLog :=
  { log with current := { log.current with bytes := log.current.bytes ++ bytes } }

/-- The current piece is complete. -/
def finish : ContentLog :=
  { log with
    pieces := log.pieces ++ [log.current]
    current := ⟨none, []⟩ }

/-- A chunk is refused. -/
def refuse : ContentLog := { log with refused := true }

end ContentLog

/-- A queued message: its content, the pieces sent since MAIL, whether one was refused, and whether
BDAT LAST completed it. -/
structure Queued where
  content : List UInt8
  pieces : List Piece
  refused : Bool
  byBdat : Bool

/-! ## The session -/

/-- `State`, with the receiver it holds. -/
inductive State (R : Receivers) where
  | request (receiver : R.Request)
  | data (receiver : R.Data)
  | bdat (receiver : R.Bdat)
  | sasl (receiver : R.Line)
  | dataTooLarge (receiver : R.DummyData)
  | requestTooLarge (receiver : R.DummyLine)
  | closed

/-- `data` holds the envelope, `message` the content; `iter` is what is left of the packet while
`ingest` runs, and `packet` its length. -/
structure Session (R : Receivers) where
  state : State R
  data : SessionData
  message : List UInt8
  authenticatedAs : Option String
  isTls : Bool
  iter : Option (List UInt8)
  packet : ℕ
  entries : List QueueEntry
  log : ContentLog
  queued : List Queued

/-- The listener: its protocol and whether it offers TLS. -/
structure Instance where
  isSmtp : Bool
  hasTls : Bool

/-- What the environment answers in one turn; `sasl` is the receiver with which an exchange goes on,
`account` whom it has authenticated. -/
structure Answers (M : Type) (R : Receivers) where
  params : SessionParameters
  ehlo : EhloAnswers
  mail : MailAnswers M
  rcpt : RcptAnswers M
  queue : QueueAnswers M
  sasl : Option R.Line
  account : Option String

/-- The message is queued, if it has a sender. -/
def accepts {M : Type} (a : QueueAnswers M) : Bool :=
  a.exit.isNone && a.script.dataModifications.isSome && a.queued

section Turn

variable {R : Receivers} {M : Type}

/-- The envelope as the handlers see it. -/
def Session.envelope (s : Session R) : SessionData := { s.data with message := s.message.length }

/-- `handle_ehlo`; it clears the message when it resets the envelope. -/
def greet (a : Answers M R) (host : String) (s : Session R) : Session R :=
  let data := handleEhlo a.params a.ehlo host s.envelope
  { s with
    data := data
    message := if data.message = 0 then [] else s.message }

variable (R) in
def State.default : State R := .request R.newRequest

variable (apply : SessionData → M → SessionData)

/-- A complete message: `queue_message`, the response, the reset. -/
def finishMessage (a : Answers M R) (byBdat : Bool) (s : Session R) : Option (Session R) :=
  match queueMessage apply a.queue s.envelope with
  | none => none
  | some r =>
    some { s with
      state := if r.answers then .default R else .closed
      data := if r.answers then r.data.reset else r.data
      message := []
      entries := r.entry :: s.entries
      queued :=
        if accepts a.queue then ⟨s.message, s.log.pieces, s.log.refused, byBdat⟩ :: s.queued
        else s.queued }

/-- The commands of `ingest`.  A sum beyond `usize` wraps, and `reserve` panics on such a chunk. -/
def handleRequest (inst : Instance) (apply : SessionData → M → SessionData) (a : Answers M R)
    (s : Session R) : Request → Option (Session R)
  | .rcpt recipient usesDsn =>
    match handleRcptTo apply a.params a.rcpt recipient usesDsn s.envelope with
    | none => none
    | some r => some { s with state := if r.goesOn then s.state else .closed, data := r.data }
  | .mail cmd =>
    match handleMailFrom apply a.params a.mail cmd.sender s.envelope with
    | none => none
    | some data =>
      some { s with
        data := data
        log :=
          if s.data.mailFrom.isNone && data.mailFrom.isSome then .begin s.message else s.log }
  | .ehlo host => some (if inst.isSmtp then greet a host s else s)
  | .helo host => some (if inst.isSmtp then greet a host s else s)
  | .lhlo host => some (if inst.isSmtp then s else greet a host s)
  | .data =>
    if canSendData a.params s.envelope then
      some { s with state := .data R.newData, message := [], log := s.log.startBody }
    else some s
  | .bdat chunkSize isLast =>
    if (chunkSize + s.message.length) % 2 ^ 64 < a.params.maxMessageSize then
      if chunkSize + s.message.length < 2 ^ 64 then
        some { s with
          state := .bdat (R.newBdat chunkSize isLast)
          log := s.log.startChunk chunkSize }
      else none
    else
      some { s with
        state := .dataTooLarge (R.dummyOfBdat chunkSize)
        log := (s.log.startChunk chunkSize).refuse }
  | .auth =>
    match a.sasl with
    | some receiver => some { s with state := .sasl receiver }
    | none => some { s with authenticatedAs := a.account.or s.authenticatedAs }
  | .startTls =>
    if !s.isTls && inst.hasTls then
      -- `return Ok(false)`: what is left of the packet is dropped
      some { s with state := .default R, isTls := true, iter := none }
    else some s
  | .rset => some { s with data := s.data.reset, message := [] }
  | .quit => some { s with state := .closed }
  | .other => some s

/-- A turn of the loop in `State::Request`. -/
def turnRequest (inst : Instance) (apply : SessionData → M → SessionData) (a : Answers M R)
    (s : Session R) (receiver : R.Request) (iter : List UInt8) : Option (Session R) :=
  let r := R.ingestRequest receiver iter
  let s := { s with state := .request r.2.1, iter := some r.2.2 }
  match r.1 with
  | .ok request => handleRequest inst apply a s request
  | .error .needsMoreData => some { s with iter := none }
  | .error .responseTooLong => some { s with state := .requestTooLarge R.newDummyLine }
  | .error (.syntaxError ofEhlo) =>
    some (if !a.params.ehloRejectNonFqdn && ofEhlo then greet a "null" s else s)
  | .error .invalid => some s

/-- A turn of the loop in `State::Data`. -/
def turnData (a : Answers M R) (s : Session R) (receiver : R.Data)
    (iter : List UInt8) : Option (Session R) :=
  if s.message.length + s.packet < a.params.maxMessageSize then
    let r := R.ingestData receiver iter
    let s := { s with message := s.message ++ r.bytes, log := s.log.receive r.bytes }
    if r.complete then
      finishMessage apply a false { s with iter := some r.rest, log := s.log.finish }
    else some { s with state := .data r.receiver, iter := none }
  else some { s with state := .dataTooLarge (R.dummyOfData receiver) }

/-- A turn of the loop in `State::Bdat`. -/
def turnBdat (a : Answers M R) (s : Session R) (receiver : R.Bdat)
    (iter : List UInt8) : Option (Session R) :=
  let r := R.ingestBdat receiver iter
  let s := { s with message := s.message ++ r.bytes, log := s.log.receive r.bytes }
  if r.complete then
    let s := { s with iter := some r.rest, log := s.log.finish }
    if canSendData a.params s.envelope then
      if R.isLast r.receiver then finishMessage apply a true s
      else some { s with state := .default R }
    else some { s with state := .default R, message := [], log := s.log.refuse }
  else some { s with state := .bdat r.receiver, iter := none }

/-- A turn of the loop in `State::DataTooLarge`. -/
def turnDataTooLarge (s : Session R) (receiver : R.DummyData) (iter : List UInt8) :
    Option (Session R) :=
  let r := R.ingestDummyData receiver iter
  let isChunk := s.log.current.announced.isSome
  -- what the receiver has taken from the packet
  let skipped := iter.take (iter.length - r.rest.length)
  let log := if isChunk then s.log.receive skipped else s.log
  if r.complete then
    some { s with
      state := .default R
      message := []
      iter := some r.rest
      log := if isChunk then log.finish else log }
  else some { s with state := .dataTooLarge r.receiver, iter := none, log := log }

/-- A turn of the loop in `State::Sasl`; no receiver is answered when the line is too long. -/
def turnSasl (a : Answers M R) (s : Session R) (receiver : R.Line) (iter : List UInt8) :
    Option (Session R) :=
  let r := R.ingestLine receiver iter
  if r.complete then
    match a.sasl with
    | some receiver => some { s with state := .sasl receiver, iter := some r.rest }
    | none =>
      some { s with
        state := .default R
        iter := some r.rest
        authenticatedAs := a.account.or s.authenticatedAs }
  else some { s with state := .sasl r.receiver, iter := none }

/-- A turn of the loop in `State::RequestTooLarge`. -/
def turnRequestTooLarge (s : Session R) (receiver : R.DummyLine) (iter : List UInt8) :
    Option (Session R) :=
  let r := R.ingestDummyLine receiver iter
  if r.complete then some { s with state := .default R, iter := some r.rest }
  else some { s with state := .requestTooLarge r.receiver, iter := none }

/-- One turn of the loop of `ingest`. -/
def turn (inst : Instance) (apply : SessionData → M → SessionData) (a : Answers M R) (s : Session R)
    (iter : List UInt8) : Option (Session R) :=
  match s.state with
  | .request receiver => turnRequest inst apply a s receiver iter
  | .data receiver => turnData apply a s receiver iter
  | .bdat receiver => turnBdat apply a s receiver iter
  | .sasl receiver => turnSasl a s receiver iter
  | .dataTooLarge receiver => turnDataTooLarge s receiver iter
  | .requestTooLarge receiver => turnRequestTooLarge s receiver iter
  | .closed => some s

/-- What happens next: a packet arrives, the loop takes a turn, or the connection ends. -/
inductive Label (M : Type) (R : Receivers) where
  | packet (bytes : List UInt8)
  | turn (a : Answers M R)
  | close

/-- A step of the session; `none` is a panic. -/
def step (inst : Instance) (apply : SessionData → M → SessionData) (s : Session R) :
    Label M R → Option (Session R)
  | .packet bytes =>
    match s.iter with
    | none => some { s with iter := some bytes, packet := bytes.length }
    | some _ => some s
  | .turn a =>
    match s.iter with
    | none => some s
    | some iter => turn inst apply a s iter
  | .close => some { s with state := .closed, iter := none }

end Turn

/-- A new session. -/
def start (R : Receivers) : Session R where
  state := .default R
  data := Smtp.start.data
  message := []
  authenticatedAs := none
  isTls := false
  iter := none
  packet := 0
  entries := []
  log := .begin []
  queued := []

end MailServer.Smtp.Ingest
