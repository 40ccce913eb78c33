import MailServer.Imap.SearchParser
import MailServer.Imap.Session
import MailServer.Lib.Packets
import Mathlib.Algebra.Group.Nat.Defs

/-!
# The IMAP request receiver

`Receiver::parse`, byte after byte: tags, commands, arguments, quoted arguments and literals, with
the partial token and request that a packet leaves to the next one.  The receiver is generic in its
commands (`CommandParser`); `commandParser` is that of IMAP.

Principal result: `receive_eq_parse` — reading a packet to its end, or to the first error or
literal, is the first loop of `Session::ingest` over `Receiver::parse`.
-/

namespace MailServer.Imap.Receive

open SearchCommand (Token Bytes ascii asciiUpper eqIgnoreAsciiCase)

/-! ## Bytes -/

def isAsciiWhitespace (ch : UInt8) : Bool :=
  ch == 32 || ch == 9 || ch == 10 || ch == 12 || ch == 13

def isAsciiDigit (ch : UInt8) : Bool := decide (48 ≤ ch ∧ ch ≤ 57)

def isAsciiAlphanumeric (ch : UInt8) : Bool :=
  isAsciiDigit ch || decide (65 ≤ ch ∧ ch ≤ 90) || decide (97 ≤ ch ∧ ch ≤ 122)

/-- The ranges in which the bytes after the first byte of a character in UTF-8 must lie. -/
def continuations (first : UInt8) : Option (List (UInt8 × UInt8)) :=
  if first ≤ 0x7F then some []
  else if 0xC2 ≤ first ∧ first ≤ 0xDF then some [(0x80, 0xBF)]
  else if first = 0xE0 then some [(0xA0, 0xBF), (0x80, 0xBF)]
  else if first = 0xED then some [(0x80, 0x9F), (0x80, 0xBF)]
  else if 0xE1 ≤ first ∧ first ≤ 0xEF then some [(0x80, 0xBF), (0x80, 0xBF)]
  else if first = 0xF0 then some [(0x90, 0xBF), (0x80, 0xBF), (0x80, 0xBF)]
  else if 0xF1 ≤ first ∧ first ≤ 0xF3 then some [(0x80, 0xBF), (0x80, 0xBF), (0x80, 0xBF)]
  else if first = 0xF4 then some [(0x80, 0x8F), (0x80, 0xBF), (0x80, 0xBF)]
  else none

/-- One byte of a text, against what the character that is open still needs. -/
def utf8Step (open_ : Option (List (UInt8 × UInt8))) (ch : UInt8) :
    Option (List (UInt8 × UInt8)) :=
  match open_ with
  | none => none
  | some [] => continuations ch
  | some ((low, high) :: rest) => if low ≤ ch ∧ ch ≤ high then some rest else none

/-- `String::from_utf8` succeeds. -/
def isUtf8 (bytes : Bytes) : Bool := bytes.foldl utf8Step (some []) == some []

/-- The decimal number that the digits write. -/
def decimal (digits : Bytes) : ℕ := digits.foldl (fun n d => 10 * n + (d.toNat - 48)) 0

/-! ## Requests -/

/-- `trait CommandParser`. -/
structure CommandParser (T : Type) where
  parse : Bytes → Bool → Option T
  tokenizeBrackets : T → Bool
  default : T

structure Request (T : Type) where
  tag : Bytes
  command : T
  tokens : List Token

/-- The messages of `error_reset`. -/
inductive ParseError where
  | tagNotUtf8
  | missingCommand (tag : Bytes)
  | tagTooLong
  | commandTooLong
  | unrecognizedCommand (name : Bytes)
  | invalidCommandCharacter (ch : UInt8)
  | requestTooLarge (limit : ℕ)
  | argumentTooLong
  | quotedTooLong
  | unterminatedQuoted
  | literalSizeInvalid
  | literalTooLarge (limit : ℕ)
  | emptyLiteral
  | invalidNonSyncLiteral
  | literalSizeTooLong
  | invalidLiteral
  | invalidLiteralCharacter (ch : UInt8)
  | expectedCrlf

/-- What `Receiver::parse` returns; the tag of an error is that of the request it ends. -/
inductive Outcome (T : Type) where
  | request (request : Request T)
  | needsLiteral (size : ℕ)
  | error (tag : Bytes) (error : ParseError)

inductive State where
  | start
  | tag
  | command (isUid : Bool)
  | argument (lastCh : UInt8)
  | argumentQuoted (escaped : Bool)
  | literal (nonSync : Bool)
  | literalSeek (size : ℕ) (nonSync : Bool)
  | literalData (remaining : ℕ)

structure Receiver (T : Type) where
  buf : Bytes
  request : Request T
  state : State
  maxRequestSize : ℕ
  currentRequestSize : ℕ
  startState : State

def ARG_MAX_LEN : ℕ := 4096

section Parse

variable {T : Type} (P : CommandParser T)

/-- `Request::default`. -/
def CommandParser.newRequest : Request T := ⟨[], P.default, []⟩

/-- `Receiver::with_max_request_size`. -/
def Receiver.new (maxRequestSize : ℕ) : Receiver T where
  buf := []
  request := P.newRequest
  state := .start
  maxRequestSize := maxRequestSize
  currentRequestSize := 0
  startState := .start

/-- `error_reset`, as far as the receiver goes. -/
def Receiver.reset (r : Receiver T) : Receiver T :=
  { r with
    buf := []
    request := P.newRequest
    state := r.startState
    currentRequestSize := 0 }

/-- `self.request.tokens.push(token)`. -/
def Receiver.pushed (r : Receiver T) (token : Token) : Receiver T :=
  { r with request := { r.request with tokens := r.request.tokens ++ [token] } }

def Receiver.pushArgument (r : Receiver T) (inQuote : Bool) : Except ParseError (Receiver T) :=
  if r.buf ≠ [] then
    let size := r.currentRequestSize + r.buf.length
    if r.maxRequestSize < size then .error (.requestTooLarge r.maxRequestSize)
    else .ok { r.pushed (.argument r.buf) with buf := [], currentRequestSize := size }
  else if inQuote then .ok (r.pushed .null)
  else .ok r

def Receiver.pushToken (r : Receiver T) (token : Token) : Except ParseError (Receiver T) :=
  if r.maxRequestSize < r.currentRequestSize + 1 then .error (.requestTooLarge r.maxRequestSize)
  else .ok { r.pushed token with currentRequestSize := r.currentRequestSize + 1 }

/-- `self.buf.push_checked`, with the error of the caller. -/
def Receiver.pushChecked (r : Receiver T) (ch : UInt8) (limit : ℕ) (error : ParseError) :
    Except ParseError (Receiver T) :=
  if r.buf.length < limit then .ok { r with buf := r.buf ++ [ch] } else .error error

/-- What one byte leaves and what it completes. -/
abbrev Fed (T : Type) := Receiver T × Option (Outcome T)

/-- The byte is taken, and nothing is returned. -/
def taken (r : Receiver T) : Except ParseError (Fed T) := .ok (r, none)

/-- `std::mem::take(&mut self.request)` at the end of a command. -/
def finishRequest (r : Receiver T) : Except ParseError (Fed T) :=
  .ok ({ r with
    request := P.newRequest
    state := r.startState
    currentRequestSize := 0 }, some (.request r.request))

def feedTag (r : Receiver T) (ch : UInt8) : Except ParseError (Fed T) :=
  if ch = 32 then
    if r.buf ≠ [] then
      if isUtf8 r.buf then
        taken { r with
          request := { r.request with tag := r.buf }
          buf := []
          state := .command false }
      else .error .tagNotUtf8
    else taken r
  else if ch = 9 ∨ ch = 13 then taken r
  else if ch = 10 then .error (.missingCommand r.buf)
  else r.pushChecked ch 128 .tagTooLong >>= taken

def feedCommand (r : Receiver T) (isUid : Bool) (ch : UInt8) : Except ParseError (Fed T) :=
  if isAsciiAlphanumeric ch then r.pushChecked (asciiUpper ch) 15 .commandTooLong >>= taken
  else if isAsciiWhitespace ch then
    if r.buf = [] then taken r
    else if eqIgnoreAsciiCase r.buf (ascii "UID") then
      taken { r with buf := [], state := .command true }
    else
      match P.parse r.buf isUid with
      | none => .error (.unrecognizedCommand r.buf)
      | some command =>
        let r := { r with request := { r.request with command := command }, buf := [] }
        if ch = 10 then finishRequest P r else taken { r with state := .argument 32 }
  else .error (.invalidCommandCharacter ch)

/-- The token of a byte in an argument, if it is one. -/
def tokenOf (r : Receiver T) (ch : UInt8) : Option Token :=
  if ch = 40 then some .parenthesisOpen
  else if ch = 41 then some .parenthesisClose
  else if P.tokenizeBrackets r.request.command then
    if ch = 91 then some .bracketOpen
    else if ch = 93 then some .bracketClose
    else if ch = 60 then some .lt
    else if ch = 62 then some .gt
    else if ch = 46 then some .dot
    else none
  else none

def feedArgument (r : Receiver T) (lastCh ch : UInt8) : Except ParseError (Fed T) :=
  if ch = 34 ∧ isAsciiWhitespace lastCh then do
    let r ← r.pushArgument false
    taken { r with state := .argumentQuoted false }
  else if ch = 123 ∧ (isAsciiWhitespace lastCh ∨ (lastCh = 126 ∧ r.buf.length = 1)) then do
    let r ← (if lastCh ≠ 126 then r.pushArgument false else .ok { r with buf := [] })
    taken { r with state := .literal false }
  else
    match tokenOf P r ch with
    | some token => do
      let r ← r.pushArgument false
      let r ← r.pushToken token
      taken r
    | none =>
      if ch = 10 then do
        let r ← r.pushArgument false
        finishRequest P r
      else if isAsciiWhitespace ch then do
        let r ← r.pushArgument false
        taken { r with state := .argument ch }
      else do
        let r ← r.pushChecked ch ARG_MAX_LEN .argumentTooLong
        taken { r with state := .argument ch }

def feedQuoted (r : Receiver T) (escaped : Bool) (ch : UInt8) : Except ParseError (Fed T) :=
  if ch = 34 then
    if !escaped then do
      let r ← r.pushArgument true
      taken { r with state := .argument 32 }
    else do
      let r ← r.pushChecked ch ARG_MAX_LEN .quotedTooLong
      taken { r with state := .argumentQuoted false }
  else if ch = 92 then do
    let r ← (if escaped then r.pushChecked ch ARG_MAX_LEN .quotedTooLong else .ok r)
    taken { r with state := .argumentQuoted (!escaped) }
  else if ch = 10 then .error .unterminatedQuoted
  else do
    let r := if escaped then { r with buf := r.buf ++ [92] } else r
    let r ← r.pushChecked ch ARG_MAX_LEN .quotedTooLong
    taken { r with state := .argumentQuoted false }

def feedLiteral (r : Receiver T) (nonSync : Bool) (ch : UInt8) : Except ParseError (Fed T) :=
  if ch = 125 then
    if r.buf = [] then .error .emptyLiteral
    else
      let size := decimal r.buf
      if 2 ^ 32 ≤ size then .error .literalSizeInvalid
      else if r.maxRequestSize < r.currentRequestSize + size then
        .error (.literalTooLarge r.maxRequestSize)
      else taken { r with buf := [], state := .literalSeek size nonSync }
  else if ch = 43 then
    if r.buf = [] then .error .invalidNonSyncLiteral
    else taken { r with state := .literal true }
  else if isAsciiDigit ch then
    if nonSync then .error .invalidLiteral else r.pushChecked ch 15 .literalSizeTooLong >>= taken
  else .error (.invalidLiteralCharacter ch)

def feedLiteralSeek (r : Receiver T) (size : ℕ) (nonSync : Bool) (ch : UInt8) :
    Except ParseError (Fed T) :=
  if ch = 10 then do
    let r ←
      (if 0 < size then .ok { r with state := .literalData size }
      else Receiver.pushToken { r with state := .argument 32 } .null)
    .ok (r, if nonSync then none else some (.needsLiteral size))
  else if isAsciiWhitespace ch then taken r
  else .error .expectedCrlf

def feedLiteralData (r : Receiver T) (remaining : ℕ) (ch : UInt8) : Except ParseError (Fed T) :=
  let r := { r with buf := r.buf ++ [ch] }
  if 1 < remaining then taken { r with state := .literalData (remaining - 1) }
  else do
    let r ← r.pushArgument false
    taken { r with state := .argument 32 }

/-- The branches of `Receiver::parse`. -/
def feedState (r : Receiver T) (ch : UInt8) : Except ParseError (Fed T) :=
  match r.state with
  | .start =>
    taken (if isAsciiWhitespace ch then r else { r with buf := r.buf ++ [ch], state := .tag })
  | .tag => feedTag r ch
  | .command isUid => feedCommand P r isUid ch
  | .argument lastCh => feedArgument P r lastCh ch
  | .argumentQuoted escaped => feedQuoted r escaped ch
  | .literal nonSync => feedLiteral r nonSync ch
  | .literalSeek size nonSync => feedLiteralSeek r size nonSync ch
  | .literalData remaining => feedLiteralData r remaining ch

/-- One byte. -/
def feed (r : Receiver T) (ch : UInt8) : Fed T :=
  match feedState P r ch with
  | .ok fed => fed
  | .error e => (r.reset P, some (.error r.request.tag e))

/-- **`Receiver::parse`**: what it returns, the receiver and the bytes it leaves; `none` is
`NeedsMoreData`. -/
def parse (r : Receiver T) : Bytes → Option (Outcome T) × Receiver T × Bytes
  | [] => (none, r, [])
  | ch :: bytes =>
    match feed P r ch with
    | (r, none) => parse r bytes
    | (r, some outcome) => (some outcome, r, bytes)

/-- The first loop of `Session::ingest` ends with an error and with a literal. -/
def breaks : Outcome T → Bool
  | .request _ => false
  | .needsLiteral _ | .error _ _ => true

/-- The first loop of `Session::ingest` over one packet. -/
def receive (r : Receiver T) (bytes : Bytes) : Receiver T × List (Outcome T) :=
  Packets.scan (feed P) breaks r bytes

/-! ## Handlers and the stream -/

/-- What the handler of a request does with the stream: nothing, put a request back into the
receiver, read the stream itself, or end the session. -/
inductive Effect (T : Type) where
  | nothing
  | asks (request : Request T)
  | idles
  | ends

/-- Who reads the stream: the receiver; IDLE, with what it has of the next four bytes, and what was
handled before and is to be handled behind it; or nobody any more. -/
inductive Phase (T : Type) where
  | receiving
  | idling (chunk : Bytes) (before pending : List (Outcome T))
  | over

/-- The receiver, who reads the stream, and what it has yielded so far. -/
structure Reading (T : Type) where
  receiver : Receiver T
  phase : Phase T
  outcomes : List (Outcome T)

/-- The handlers of a packet; what one of them does may depend on all that came before. -/
def handleAll (effect : List (Outcome T) → Request T → Effect T) (before : List (Outcome T))
    (r : Receiver T) : List (Outcome T) → Receiver T × Phase T
  | [] => (r, .receiving)
  | .request request :: outcomes =>
    match effect before request with
    | .nothing => handleAll effect (before ++ [.request request]) r outcomes
    | .asks again =>
      handleAll effect (before ++ [.request request])
        { r with request := again, state := .argument 32 } outcomes
    | .idles => (r, .idling [] (before ++ [.request request]) outcomes)
    | .ends => (r, .over)
  | o :: outcomes => handleAll effect (before ++ [o]) r outcomes

/-- What IDLE waits for. -/
def done : Bytes := ascii "DONE"

/-- The bytes of a packet. IDLE reads four bytes at a time; what is left behind DONE is the next
packet. -/
def readPacket (effect : List (Outcome T) → Request T → Effect T) (w : Reading T) :
    Bytes → Reading T
  | [] => w
  | ch :: bytes =>
    match w.phase with
    | .receiving =>
      let q := receive P w.receiver (ch :: bytes)
      let next := handleAll effect w.outcomes q.1 q.2
      ⟨next.1, next.2, w.outcomes ++ q.2⟩
    | .idling chunk before pending =>
      if chunk.length < 3 then
        readPacket effect { w with phase := .idling (chunk ++ [ch]) before pending } bytes
      else if chunk ++ [ch] = done then
        let next := handleAll effect before w.receiver pending
        readPacket effect { w with receiver := next.1, phase := next.2 } bytes
      else readPacket effect { w with phase := .idling [] before pending } bytes
    | .over => w

/-- The session reads packet after packet. -/
def readAll (effect : List (Outcome T) → Request T → Effect T) (w : Reading T)
    (packets : List Bytes) : Reading T :=
  packets.foldl (readPacket P effect) w

/-- **The loop of `Session::ingest`** calls `Receiver::parse` until it runs out of bytes, or finds
an error or a literal. -/
theorem receive_eq_parse (r : Receiver T) (bytes : Bytes) :
    receive P r bytes =
      match parse P r bytes with
      | (none, r', _) => (r', [])
      | (some outcome, r', rest) =>
        if breaks outcome then (r', [outcome])
        else ((receive P r' rest).1, outcome :: (receive P r' rest).2) := by
  induction bytes generalizing r with
  | nil => rfl
  | cons ch bytes ih =>
    unfold parse
    rcases hfeed : feed P r ch with ⟨r', _ | outcome⟩
    · exact (Packets.scan_cons_none hfeed).trans (ih r')
    · cases hbreaks : breaks outcome with
      | true =>
        simp only [hbreaks]
        exact Packets.scan_cons_break hfeed hbreaks
      | false =>
        simp only [hbreaks]
        exact Packets.scan_cons_some hfeed hbreaks

/-! ## What no byte changes -/

/-- The limit and the start state of the receiver are those of `r`. -/
def Alike (r r' : Receiver T) : Prop :=
  r'.maxRequestSize = r.maxRequestSize ∧ r'.startState = r.startState

theorem Alike.refl (r : Receiver T) : Alike r r := ⟨rfl, rfl⟩

theorem Alike.trans {r r' r'' : Receiver T} (h : Alike r r') (h' : Alike r' r'') : Alike r r'' :=
  ⟨h'.1.trans h.1, h'.2.trans h.2⟩

variable {r r' : Receiver T}

theorem Alike.reset_eq (h : Alike r r') : r'.reset P = r.reset P := by
  unfold Receiver.reset
  rw [h.1, h.2]

theorem alike_pushArgument {inQuote : Bool} (h : r.pushArgument inQuote = .ok r') : Alike r r' := by
  unfold Receiver.pushArgument at h
  split at h
  · simp only at h
    split at h
    · cases h
    · cases h
      exact ⟨rfl, rfl⟩
  · split at h
    · cases h
      exact ⟨rfl, rfl⟩
    · cases h
      exact .refl r

theorem alike_pushToken {token : Token} (h : r.pushToken token = .ok r') :
    Alike r r' := by
  unfold Receiver.pushToken at h
  split at h
  · cases h
  · cases h
    exact ⟨rfl, rfl⟩

theorem alike_pushChecked {ch : UInt8} {limit : ℕ} {e : ParseError}
    (h : r.pushChecked ch limit e = .ok r') : Alike r r' := by
  unfold Receiver.pushChecked at h
  split at h
  · cases h
    exact ⟨rfl, rfl⟩
  · cases h

theorem bind_eq_ok {ε α β : Type} {x : Except ε α} {f} {b : β}
    (h : x >>= f = .ok b) : ∃ a, x = .ok a ∧ f a = .ok b := by
  cases x with
  | error e => cases h
  | ok a => exact ⟨a, rfl, h⟩

variable {P} {r : Receiver T} {ch : UInt8} {fed : Fed T}

/-- A byte that is not an error leaves the limits alone and returns no error. -/
structure Accepts (r : Receiver T) (fed : Fed T) : Prop where
  alike : Alike r fed.1
  noError : ∀ tag e, fed.2 ≠ some (.error tag e)

/-- A push, and the state that follows it. -/
theorem accepts_taken {x} {g : Receiver T → Receiver T}
    (h : (x >>= fun r' => taken (g r')) = .ok fed) (hx : ∀ {r'}, x = .ok r' → Alike r r')
    (hg : ∀ r', Alike r' (g r')) : Accepts r fed := by
  obtain ⟨r', hpush, hfed⟩ := bind_eq_ok h
  cases hfed
  exact ⟨(hx hpush).trans (hg r'), nofun⟩

theorem accepts_feedTag (h : feedTag r ch = .ok fed) : Accepts r fed := by
  unfold feedTag at h
  split at h
  · split at h
    · split at h
      · cases h
        exact ⟨⟨rfl, rfl⟩, nofun⟩
      · cases h
    · cases h
      exact ⟨Alike.refl r, nofun⟩
  · split at h
    · cases h
      exact ⟨Alike.refl r, nofun⟩
    · split at h
      · cases h
      · exact accepts_taken h alike_pushChecked fun _ => ⟨rfl, rfl⟩

theorem accepts_feedCommand {isUid : Bool} (h : feedCommand P r isUid ch = .ok fed) :
    Accepts r fed := by
  unfold feedCommand at h
  split at h
  · exact accepts_taken h alike_pushChecked fun _ => ⟨rfl, rfl⟩
  · split at h
    · split at h
      · cases h
        exact ⟨Alike.refl r, nofun⟩
      · split at h
        · cases h
          exact ⟨⟨rfl, rfl⟩, nofun⟩
        · split at h
          · cases h
          · split at h
            · cases h
              exact ⟨⟨rfl, rfl⟩, nofun⟩
            · cases h
              exact ⟨⟨rfl, rfl⟩, nofun⟩
    · cases h

theorem accepts_feedArgument {lastCh : UInt8} (h : feedArgument P r lastCh ch = .ok fed) :
    Accepts r fed := by
  unfold feedArgument at h
  split at h
  · exact accepts_taken h alike_pushArgument fun _ => ⟨rfl, rfl⟩
  · split at h
    · obtain ⟨r', hpush, hfed⟩ := bind_eq_ok h
      cases hfed
      split at hpush
      · exact ⟨(alike_pushArgument hpush).trans ⟨rfl, rfl⟩, nofun⟩
      · cases hpush
        exact ⟨⟨rfl, rfl⟩, nofun⟩
    · split at h
      · obtain ⟨r', hpush, h⟩ := bind_eq_ok h
        obtain ⟨r'', htoken, hfed⟩ := bind_eq_ok h
        cases hfed
        exact ⟨(alike_pushArgument hpush).trans (alike_pushToken htoken), nofun⟩
      · split at h
        · obtain ⟨r', hpush, hfed⟩ := bind_eq_ok h
          cases hfed
          exact ⟨(alike_pushArgument hpush).trans ⟨rfl, rfl⟩, nofun⟩
        · split at h
          · exact accepts_taken h alike_pushArgument fun _ => ⟨rfl, rfl⟩
          · exact accepts_taken h alike_pushChecked fun _ => ⟨rfl, rfl⟩

theorem accepts_feedQuoted {escaped : Bool} (h : feedQuoted r escaped ch = .ok fed) :
    Accepts r fed := by
  unfold feedQuoted at h
  split at h
  · split at h
    · exact accepts_taken h alike_pushArgument fun _ => ⟨rfl, rfl⟩
    · exact accepts_taken h alike_pushChecked fun _ => ⟨rfl, rfl⟩
  · split at h
    · obtain ⟨r', hpush, hfed⟩ := bind_eq_ok h
      cases hfed
      split at hpush
      · exact ⟨(alike_pushChecked hpush).trans ⟨rfl, rfl⟩, nofun⟩
      · cases hpush
        exact ⟨⟨rfl, rfl⟩, nofun⟩
    · split at h
      · cases h
      · obtain ⟨r', hpush, hfed⟩ := bind_eq_ok h
        cases hfed
        refine ⟨Alike.trans ?_ ((alike_pushChecked hpush).trans ⟨rfl, rfl⟩), nofun⟩
        split
        · exact ⟨rfl, rfl⟩
        · exact .refl r

theorem accepts_feedLiteral {nonSync : Bool} (h : feedLiteral r nonSync ch = .ok fed) :
    Accepts r fed := by
  unfold feedLiteral at h
  split at h
  · split at h
    · cases h
    · simp only at h
      split at h
      · cases h
      · split at h
        · cases h
        · cases h
          exact ⟨⟨rfl, rfl⟩, nofun⟩
  · split at h
    · split at h
      · cases h
      · cases h
        exact ⟨⟨rfl, rfl⟩, nofun⟩
    · split at h
      · split at h
        · cases h
        · exact accepts_taken h alike_pushChecked fun _ => ⟨rfl, rfl⟩
      · cases h

theorem accepts_feedLiteralSeek {size : ℕ} {nonSync : Bool}
    (h : feedLiteralSeek r size nonSync ch = .ok fed) : Accepts r fed := by
  unfold feedLiteralSeek at h
  split at h
  · obtain ⟨r', hpush, hfed⟩ := bind_eq_ok h
    cases hfed
    constructor
    · split at hpush
      · cases hpush
        exact ⟨rfl, rfl⟩
      · have htoken := alike_pushToken hpush
        exact ⟨htoken.1, htoken.2⟩
    · cases nonSync with
      | true => nofun
      | false => nofun
  · split at h
    · cases h
      exact ⟨.refl r, nofun⟩
    · cases h

theorem accepts_feedLiteralData {remaining : ℕ} (h : feedLiteralData r remaining ch = .ok fed) :
    Accepts r fed := by
  unfold feedLiteralData at h
  split at h
  · cases h
    exact ⟨⟨rfl, rfl⟩, nofun⟩
  · obtain ⟨r', hpush, hfed⟩ := bind_eq_ok h
    cases hfed
    have hargument := alike_pushArgument hpush
    exact ⟨⟨hargument.1, hargument.2⟩, nofun⟩

theorem accepts_feedState (h : feedState P r ch = .ok fed) : Accepts r fed := by
  unfold feedState at h
  split at h
  · cases h
    refine ⟨?_, nofun⟩
    split
    · exact .refl r
    · exact ⟨rfl, rfl⟩
  · exact accepts_feedTag h
  · exact accepts_feedCommand h
  · exact accepts_feedArgument h
  · exact accepts_feedQuoted h
  · exact accepts_feedLiteral h
  · exact accepts_feedLiteralSeek h
  · exact accepts_feedLiteralData h

variable (P) in
/-- **No byte changes the limit or the start state.** -/
theorem alike_feed (r : Receiver T) (ch : UInt8) : Alike r (feed P r ch).1 := by
  unfold feed
  cases h : feedState P r ch with
  | ok fed => exact (accepts_feedState h).alike
  | error e => exact ⟨rfl, rfl⟩

theorem feed_of_error {r' : Receiver T} {tag : Bytes} {e : ParseError}
    (h : feed P r ch = (r', some (.error tag e))) : r' = r.reset P := by
  unfold feed at h
  cases hstate : feedState P r ch with
  | ok fed =>
    rw [hstate] at h
    cases (accepts_feedState hstate).noError tag e (congrArg Prod.snd h)
  | error e' =>
    rw [hstate] at h
    exact (congrArg Prod.fst h).symm

end Parse

/-! ## The commands of IMAP -/

/-- The names that `Command::parse` knows; the flag says whether UID stood before the name. -/
def commandNames : List (String × (Bool → Command)) :=
  [("CAPABILITY", fun _ => .capability), ("NOOP", fun _ => .noop), ("LOGOUT", fun _ => .logout),
    ("STARTTLS", fun _ => .startTls), ("AUTHENTICATE", fun _ => .authenticate),
    ("LOGIN", fun _ => .login), ("ENABLE", fun _ => .enable), ("SELECT", fun _ => .select),
    ("EXAMINE", fun _ => .examine), ("CREATE", fun _ => .create), ("DELETE", fun _ => .delete),
    ("RENAME", fun _ => .rename), ("SUBSCRIBE", fun _ => .subscribe),
    ("UNSUBSCRIBE", fun _ => .unsubscribe), ("LIST", fun _ => .list),
    ("NAMESPACE", fun _ => .namespace_), ("STATUS", fun _ => .status),
    ("APPEND", fun _ => .append), ("IDLE", fun _ => .idle), ("CLOSE", fun _ => .close),
    ("UNSELECT", fun _ => .unselect), ("EXPUNGE", .expunge), ("SEARCH", .search),
    ("FETCH", .fetch), ("STORE", .store), ("COPY", .copy), ("MOVE", .move), ("SORT", .sort),
    ("THREAD", .thread), ("LSUB", fun _ => .lsub), ("CHECK", fun _ => .check),
    ("SETACL", fun _ => .setAcl), ("DELETEACL", fun _ => .deleteAcl),
    ("GETACL", fun _ => .getAcl), ("LISTRIGHTS", fun _ => .listRights),
    ("MYRIGHTS", fun _ => .myRights), ("UNAUTHENTICATE", fun _ => .unauthenticate),
    ("ID", fun _ => .id), ("GETQUOTA", fun _ => .getQuota),
    ("GETQUOTAROOT", fun _ => .getQuotaRoot)]

/-- `impl CommandParser for Command`; NOOP is the default. -/
def commandParser : CommandParser Command where
  parse name isUid := (commandNames.find? (fun e => ascii e.1 == name)).map (fun e => e.2 isUid)
  tokenizeBrackets
    | .fetch _ => true
    | _ => false
  default := .noop

/-- The mechanisms of AUTHENTICATE whose response is asked for. -/
def responseMechanisms : List String := ["PLAIN", "OAUTHBEARER", "XOAUTH2"]

/-- `handle_authenticate` without a response: the request that goes back into the receiver. -/
def continueAuthenticate (request : Request Command) : Option (Request Command) :=
  if request.command = .authenticate then
    match request.tokens with
    | [] => none
    | mechanism :: params =>
      if params.all (fun token => !isUtf8 token.bytes) then
        (responseMechanisms.find? (fun name => eqIgnoreAsciiCase mechanism.bytes (ascii name))).map
          (fun name => ⟨request.tag, .authenticate, [.argument (ascii name)]⟩)
      else none
  else none

/-- What the handlers of IMAP do with the stream; `handles` says whether a request is allowed and
its handler gets that far, with all that came before it. -/
def handlerEffect (handles : List (Outcome Command) → Request Command → Bool)
    (before : List (Outcome Command)) (request : Request Command) : Effect Command :=
  if handles before request then
    match request.command with
    | .authenticate =>
      match continueAuthenticate request with
      | some again => .asks again
      | none => .nothing
    | .idle => .idles
    | .logout | .startTls => .ends
    | _ => .nothing
  else .nothing

end MailServer.Imap.Receive
