import Mathlib.Data.Nat.Notation

/-!
# The IMAP session: states, gate and handlers

The part of an IMAP session that `Session::ingest` reads and writes when it runs commands:
the protocol state, the admission check `is_allowed`, the accessors of the state (each with
the `unreachable!()` branch it has) and one handler per command.

A handler depends on the store, the directory and the client only through its `Answers`:
whether the access token permits the command, whether the arguments parse, what the
authentication returns, and so on.  The answers are free, so a statement for all answers is a
statement about every environment.  The account behind an authenticated state, the tags and
the bytes of the responses are left out; nothing below reads them.

Principal results: `handle_cases`; `handle_isOk_of_stateAllowed` — a handler whose command
`is_allowed` accepts reaches no `unreachable!()` branch, whatever the answers are.
-/

namespace MailServer.Imap

/-! ## Commands and states -/

/-- `Command`; the flag is the `UID` form. -/
inductive Command where
  | capability | noop | logout
  | startTls | authenticate | login
  | enable | select | examine | create | delete | rename | subscribe | unsubscribe
  | list | namespace_ | status | append | idle
  | close | unselect | expunge (isUid : Bool) | search (isUid : Bool) | fetch (isUid : Bool)
  | store (isUid : Bool) | copy (isUid : Bool) | move (isUid : Bool)
  | lsub | check | sort (isUid : Bool) | thread (isUid : Bool)
  | setAcl | deleteAcl | getAcl | listRights | myRights
  | unauthenticate | id | getQuota | getQuotaRoot
  deriving DecidableEq

/-- `State`; of the selected mailbox only `is_select` is read. -/
inductive State where
  | notAuthenticated (authFailures : ℕ)
  | authenticated
  | selected (isSelect : Bool)
  deriving DecidableEq

/-- The fields of `Session` and of its configuration that decide what a command may do. -/
structure Session where
  state : State
  isTls : Bool
  acceptorIsTls : Bool
  allowPlainAuth : Bool
  maxAuthFailures : ℕ

/-- The events that `must_disconnect` and `should_write_err` distinguish; an `ImapEvent::Error` with
its details and whether it is answered with `BAD`. -/
inductive Error where
  | network | security | tooManyAttempts | concurrentRequest | tooManyRequests | authFailed
  | imap (details : String) (isBad : Bool)
  | other

variable {r : Except Error Unit}

def Error.mustDisconnect : Error → Bool
  | .network | .tooManyAttempts | .concurrentRequest | .tooManyRequests | .security => true
  | _ => false

def Error.shouldWriteErr : Error → Bool
  | .network | .security => false
  | _ => true

/-- `Session::write_error`: whether the session goes on after the error. -/
def writeError (written : Bool) (e : Error) : Bool :=
  e.shouldWriteErr && written && !e.mustDisconnect

/-! ## The gate -/

/-- What the rate limiter answers for a request of an authenticated session. -/
inductive RateAnswer where
  | allowed | exceeded | failed

/-- The rate limit at the head of `is_allowed`. -/
def rateAllowed (rate : RateAnswer) : State → Except Error Unit
  | .notAuthenticated _ => .ok ()
  | .authenticated | .selected _ =>
    match rate with
    | .allowed => .ok ()
    | .exceeded => .error .tooManyRequests
    | .failed => .error .other

/-- The `match` of `is_allowed`. -/
def stateAllowed (s : Session) : Command → Except Error Unit
  | .capability | .noop | .logout | .id => .ok ()
  | .startTls =>
    if !s.isTls then
      if s.acceptorIsTls then .ok () else .error (.imap "TLS is not available." false)
    else .error (.imap "Already in TLS mode." false)
  | .authenticate =>
    match s.state with
    | .notAuthenticated _ => .ok ()
    | _ => .error (.imap "Already authenticated." false)
  | .login =>
    match s.state with
    | .notAuthenticated _ =>
      if s.isTls || s.allowPlainAuth then .ok ()
      else .error (.imap "LOGIN is disabled on the clear-text port." false)
    | _ => .error (.imap "Already authenticated." false)
  | .enable | .select | .examine | .create | .delete | .rename | .subscribe | .unsubscribe
  | .list | .lsub | .namespace_ | .status | .append | .idle | .setAcl | .deleteAcl | .getAcl
  | .listRights | .myRights | .unauthenticate | .getQuota | .getQuotaRoot =>
    match s.state with
    | .authenticated | .selected _ => .ok ()
    | .notAuthenticated _ => .error (.imap "Not authenticated." false)
  | c@(.close) | c@(.unselect) | c@(.expunge _) | c@(.search _) | c@(.fetch _) | c@(.store _)
  | c@(.copy _) | c@(.move _) | c@(.check) | c@(.sort _) | c@(.thread _) =>
    match s.state with
    | .selected isSelect =>
      if isSelect || !(c matches .store _ | .expunge _ | .move _) then .ok ()
      else .error (.imap "Not permitted in EXAMINE state." false)
    | .authenticated => .error (.imap "No mailbox is selected." true)
    | .notAuthenticated _ => .error (.imap "Not authenticated." false)

def isAllowed (s : Session) (rate : RateAnswer) (c : Command) : Except Error Unit := do
  rateAllowed rate s.state
  stateAllowed s c

/-! ## Accessors of the state -/

/-- The places with an `unreachable!()` branch. -/
inductive Accessor where
  | authFailures | sessionData | mailboxState | sessionMailboxState | selectData | idle

def State.authFailures : State → Except Accessor ℕ
  | .notAuthenticated authFailures => .ok authFailures
  | _ => .error .authFailures

def State.sessionData : State → Except Accessor Unit
  | .authenticated | .selected _ => .ok ()
  | .notAuthenticated _ => .error .sessionData

/-- `State::mailbox_state`: the `is_select` of the selected mailbox. -/
def State.mailboxState : State → Except Accessor Bool
  | .selected isSelect => .ok isSelect
  | _ => .error .mailboxState

def State.sessionMailboxState : State → Except Accessor (Option Bool)
  | .authenticated => .ok none
  | .selected isSelect => .ok (some isSelect)
  | .notAuthenticated _ => .error .sessionMailboxState

def State.selectData : State → Except Accessor Bool
  | .selected isSelect => .ok isSelect
  | _ => .error .selectData

/-- The `match` on the state at the head of `handle_idle`. -/
def State.idleData : State → Except Accessor (Option Bool)
  | .authenticated => .ok none
  | .selected isSelect => .ok (some isSelect)
  | .notAuthenticated _ => .error .idle

/-! ## Handlers -/

/-- What the rest of the world answers while one request is handled. -/
structure Answers where
  /-- the permission check of the access token -/
  permission : Except Error Unit
  /-- parsing of the arguments -/
  arguments : Except Error Unit
  /-- the SASL response of AUTHENTICATE: absent, malformed or decoded -/
  response : Option (Except Error Unit)
  /-- `server.authenticate` -/
  credentials : Except Error Unit
  /-- permission, concurrency limit and `SessionData::new` of a new session -/
  newSession : Except Error Unit
  /-- whether LIST asks for the hierarchy separator only -/
  isSeparatorQuery : Bool
  /-- everything SELECT and EXAMINE do before they update the state -/
  mailbox : Except Error Unit
  /-- the expunge done by CLOSE -/
  expunge : Except Error Unit
  /-- the rest of the handler, up to its last write -/
  completion : Except Error Unit
  /-- whether writing a response line or an error line to the client succeeds -/
  written : Bool

variable {a : Answers}

/-- What a handler leaves and returns. -/
abbrev Handled := State × Except Error Unit

def assertHasPermission (a : Answers) : State → Except Error Unit
  | .authenticated | .selected _ => a.permission
  | .notAuthenticated _ => .ok ()

def writeBytes (a : Answers) : Except Error Unit :=
  if a.written then .ok () else .error .network

/-- The common shape of the handlers that keep the state: check the permission, parse the arguments,
read the state through `access`, go on. -/
def withAccess {β : Type} (access : State → Except Accessor β) (parseFirst : Bool)
    (a : Answers) (st : State) : Except Accessor Handled :=
  match assertHasPermission a st with
  | .error e => .ok (st, .error e)
  | .ok () =>
    match if parseFirst then a.arguments else .ok () with
    | .error e => .ok (st, .error e)
    | .ok () => do
      let _ ← access st
      return (st, a.completion)

/-- A handler that keeps the state and has no `unreachable!()` branch. -/
def withoutAccess (a : Answers) (st : State) : Except Accessor Handled :=
  match assertHasPermission a st with
  | .error e => .ok (st, .error e)
  | .ok () => .ok (st, a.completion)

def handleCreate := withAccess State.sessionData false
def handleDelete := withAccess State.sessionData false
def handleStatus := withAccess State.sessionData false
def handleGetQuota := withAccess State.sessionData false
def handleGetQuotaRoot := withAccess State.sessionData false
def handleNamespace := withAccess State.sessionData false
def handleRename := withAccess State.sessionData true
def handleSubscribe := withAccess State.sessionData true
def handleSetAcl := withAccess State.sessionData true
def handleGetAcl := withAccess State.sessionData true
def handleMyRights := withAccess State.sessionData true
def handleAppend := withAccess State.sessionMailboxState true
def handleIdle := withAccess State.idleData false
def handleExpunge := withAccess State.selectData false
def handleFetch := withAccess State.selectData false
def handleStore := withAccess State.selectData true
def handleCopyMove := withAccess State.mailboxState true
def handleSearch := withAccess State.mailboxState true
def handleThread := withAccess State.mailboxState true
def handleListRights := withoutAccess
def handleEnable := withoutAccess
def handleCapability := withoutAccess
def handleId := withoutAccess

/-- `handle_list`, for LIST and LSUB. -/
def handleList (a : Answers) (st : State) : Except Accessor Handled :=
  match assertHasPermission a st with
  | .error e => .ok (st, .error e)
  | .ok () =>
    match a.arguments with
    | .error e => .ok (st, .error e)
    | .ok () =>
      if !a.isSeparatorQuery then do
        st.sessionData
        return (st, a.completion)
      else .ok (st, writeBytes a)

/-- `handle_noop`, for NOOP and CHECK. -/
def handleNoop (a : Answers) (st : State) : Except Accessor Handled :=
  match st with
  | .selected _ => .ok (st, a.completion)
  | _ => .ok (st, writeBytes a)

def authenticate (maxAuthFailures : ℕ) (a : Answers) (st : State) : Except Accessor Handled :=
  match a.credentials with
  | .error .authFailed => do
    let authFailures ← st.authFailures
    if authFailures < maxAuthFailures then
      return (.notAuthenticated (authFailures + 1), .error .authFailed)
    else return (st, .error .tooManyAttempts)
  | .error e => .ok (st, .error e)
  | .ok () =>
    match a.newSession with
    | .error e => .ok (st, .error e)
    | .ok () => .ok (.authenticated, writeBytes a)

def handleLogin (maxAuthFailures : ℕ) (a : Answers) (st : State) : Except Accessor Handled :=
  match a.arguments with
  | .error e => .ok (st, .error e)
  | .ok () => authenticate maxAuthFailures a st

/-- `handle_authenticate`; without a SASL response only the receiver changes. -/
def handleAuthenticate (maxAuthFailures : ℕ) (a : Answers) (st : State) :
    Except Accessor Handled :=
  match a.arguments with
  | .error e => .ok (st, .error e)
  | .ok () =>
    match a.response with
    | none => .ok (st, writeBytes a)
    | some (.error e) => .ok (st, .error e)
    | some (.ok ()) => authenticate maxAuthFailures a st

def handleUnauthenticate (a : Answers) (_ : State) : Except Accessor Handled :=
  .ok (.notAuthenticated 0, writeBytes a)

/-- `handle_select`, for SELECT and EXAMINE. -/
def handleSelect (isSelect : Bool) (a : Answers) (st : State) : Except Accessor Handled :=
  match assertHasPermission a st with
  | .error e => .ok (st, .error e)
  | .ok () =>
    match a.arguments with
    | .error e => .ok (st, .error e)
    | .ok () => do
      st.sessionData
      match a.mailbox with
      | .error e => return (st, .error e)
      | .ok () => return (.selected isSelect, writeBytes a)

def handleClose (a : Answers) (st : State) : Except Accessor Handled := do
  let isSelect ← st.selectData
  match if isSelect then a.expunge else .ok () with
  | .error e => return (st, .error e)
  | .ok () => return (.authenticated, writeBytes a)

def handleUnselect (a : Answers) (st : State) : Except Accessor Handled := do
  st.sessionData
  return (.authenticated, writeBytes a)

/-- The `match` over the commands in `Session::ingest`. -/
def handle (maxAuthFailures : ℕ) (a : Answers) (c : Command) (st : State) :
    Except Accessor Handled :=
  match c with
  | .list | .lsub => handleList a st
  | .select => handleSelect true a st
  | .examine => handleSelect false a st
  | .create => handleCreate a st
  | .delete => handleDelete a st
  | .rename => handleRename a st
  | .status => handleStatus a st
  | .append => handleAppend a st
  | .close => handleClose a st
  | .unselect => handleUnselect a st
  | .expunge _ => handleExpunge a st
  | .search _ | .sort _ => handleSearch a st
  | .fetch _ => handleFetch a st
  | .store _ => handleStore a st
  | .copy _ | .move _ => handleCopyMove a st
  | .thread _ => handleThread a st
  | .idle => handleIdle a st
  | .subscribe | .unsubscribe => handleSubscribe a st
  | .namespace_ => handleNamespace a st
  | .authenticate => handleAuthenticate maxAuthFailures a st
  | .login => handleLogin maxAuthFailures a st
  | .capability => handleCapability a st
  | .enable => handleEnable a st
  | .startTls | .logout => .ok (st, writeBytes a)
  | .noop | .check => handleNoop a st
  | .setAcl | .deleteAcl => handleSetAcl a st
  | .getAcl => handleGetAcl a st
  | .listRights => handleListRights a st
  | .myRights => handleMyRights a st
  | .getQuota => handleGetQuota a st
  | .getQuotaRoot => handleGetQuotaRoot a st
  | .unauthenticate => handleUnauthenticate a st
  | .id => handleId a st

/-! ## What the gate asks for -/

/-- The four kinds of commands the gate tells apart, STARTTLS aside. -/
inductive Gate where
  | any | tls | login | authenticated | selected
  deriving DecidableEq

def Command.gate : Command → Gate
  | .capability | .noop | .logout | .id => .any
  | .startTls => .tls
  | .authenticate | .login => .login
  | .close | .unselect | .expunge _ | .search _ | .fetch _ | .store _ | .copy _ | .move _
  | .check | .sort _ | .thread _ => .selected
  | _ => .authenticated

/-- STORE, EXPUNGE and MOVE change the selected mailbox. -/
def Command.writesMailbox : Command → Bool
  | .store _ | .expunge _ | .move _ => true
  | _ => false

theorem Command.gate_of_writesMailbox {c : Command} (h : c.writesMailbox) :
    c.gate = .selected := by
  cases c <;> first | rfl | cases h

/-- Being logged in, with or without a selected mailbox. -/
def State.loggedIn : State → Bool
  | .notAuthenticated _ => false
  | _ => true

theorem stateAllowed_eq_ok_iff (s : Session) (c : Command) :
    stateAllowed s c = .ok () ↔
      match c.gate with
      | .any => True
      | .tls => s.isTls = false ∧ s.acceptorIsTls
      | .login => s.state.loggedIn = false ∧
          (c = .login → s.isTls ∨ s.allowPlainAuth)
      | .authenticated => s.state.loggedIn
      | .selected => ∃ isSelect, s.state = .selected isSelect ∧
          (c.writesMailbox → isSelect) := by
  obtain ⟨state, isTls, acceptorIsTls, allowPlainAuth, maxAuthFailures⟩ := s
  cases c <;> cases state <;>
    simp [stateAllowed, Command.gate, State.loggedIn, Command.writesMailbox] <;> grind

/-! ## What a handler does -/

theorem withAccess_state {β : Type} {access : State → Except Accessor β} {parseFirst : Bool}
    {a : Answers} {st st' : State}
    (h : withAccess access parseFirst a st = .ok (st', r)) : st' = st := by
  unfold withAccess at h
  split at h
  · cases h; rfl
  · split at h
    · cases h; rfl
    · cases hb : access st with
      | error e => rw [hb] at h; cases h
      | ok b => rw [hb] at h; cases h; rfl

theorem withAccess_isOk {β : Type} {access} {st : State} {b : β}
    (hb : access st = .ok b) (parseFirst : Bool) (a : Answers) :
    ∃ res, withAccess access parseFirst a st = .ok res := by
  unfold withAccess
  split
  · exact ⟨_, rfl⟩
  · split
    · exact ⟨_, rfl⟩
    · exact ⟨(st, a.completion), by rw [hb]; rfl⟩

theorem withoutAccess_eq (a : Answers) (st : State) :
    ∃ r, withoutAccess a st = .ok (st, r) := by
  unfold withoutAccess
  split
  · exact ⟨_, rfl⟩
  · exact ⟨_, rfl⟩

theorem handleNoop_eq (a : Answers) (st : State) : ∃ r, handleNoop a st = .ok (st, r) := by
  unfold handleNoop
  split
  · exact ⟨_, rfl⟩
  · exact ⟨_, rfl⟩

theorem handleList_state {st st' : State} (h : handleList a st = .ok (st', r)) : st' = st := by
  unfold handleList at h
  split at h
  · cases h; rfl
  · split at h
    · cases h; rfl
    · split at h
      · cases st with
        | notAuthenticated authFailures => cases h
        | authenticated | selected => cases h; rfl
      · cases h; rfl

theorem authenticate_state {maxAuthFailures : ℕ} {st st' : State}
    {r} (h : authenticate maxAuthFailures a st = .ok (st', r)) :
    st' = st ∨ (st.loggedIn = false ∧ st'.loggedIn = false) ∨ st' = .authenticated := by
  unfold authenticate at h
  split at h
  · cases st with
    | notAuthenticated authFailures =>
      change (if authFailures < maxAuthFailures then _ else _) = _ at h
      split at h
      · cases h; exact .inr (.inl ⟨rfl, rfl⟩)
      · cases h; exact .inl rfl
    | authenticated | selected => cases h
  · cases h; exact .inl rfl
  · split at h
    · cases h; exact .inl rfl
    · cases h; exact .inr (.inr rfl)

theorem authenticate_isOk {st : State} (hst : st.loggedIn = false) (maxAuthFailures : ℕ)
    (a : Answers) : ∃ res, authenticate maxAuthFailures a st = .ok res := by
  obtain ⟨authFailures, rfl⟩ : ∃ n, st = .notAuthenticated n := by
    cases st with
    | notAuthenticated n => exact ⟨n, rfl⟩
    | authenticated | selected => cases hst
  unfold authenticate
  split
  · change ∃ res, (if authFailures < maxAuthFailures then _ else _) = _
    split
    · exact ⟨_, rfl⟩
    · exact ⟨_, rfl⟩
  · exact ⟨_, rfl⟩
  · split
    · exact ⟨_, rfl⟩
    · exact ⟨_, rfl⟩

/-- The commands whose handler can change the state. -/
inductive Moves : Command → State → State → Prop
  | failure {c st st'} : c.gate = .login → st.loggedIn = false → st'.loggedIn = false →
      Moves c st st'
  | login {c st} : c.gate = .login → Moves c st .authenticated
  | unauthenticate {st} : Moves .unauthenticate st (.notAuthenticated 0)
  | select {st} : st.loggedIn → Moves .select st (.selected true)
  | examine {st} : st.loggedIn → Moves .examine st (.selected false)
  | close {isSelect} : Moves .close (.selected isSelect) .authenticated
  | unselect {st} : st.loggedIn → Moves .unselect st .authenticated

theorem handleSelect_state {isSelect : Bool} {st st' : State}
    {r} (h : handleSelect isSelect a st = .ok (st', r)) :
    st' = st ∨ (st.loggedIn ∧ st' = .selected isSelect) := by
  unfold handleSelect at h
  split at h
  · cases h; exact .inl rfl
  · split at h
    · cases h; exact .inl rfl
    · cases hst : st.sessionData with
      | error e => rw [hst] at h; cases h
      | ok u =>
        rw [hst] at h
        have hin : st.loggedIn := by cases st <;> first | rfl | cases hst
        change (match a.mailbox with | .error e => _ | .ok () => _) = _ at h
        split at h
        · cases h; exact .inl rfl
        · cases h; exact .inr ⟨hin, rfl⟩

theorem handleClose_state {st st' : State} (h : handleClose a st = .ok (st', r)) :
    st' = st ∨ Moves .close st st' := by
  cases st with
  | notAuthenticated | authenticated => cases h
  | selected isSelect =>
    change (match if isSelect then a.expunge else .ok () with | .error e => _ | .ok () => _) = _
      at h
    split at h
    · cases h; exact .inl rfl
    · cases h; exact .inr .close

theorem handleClose_isOk (isSelect : Bool) (a : Answers) :
    ∃ res, handleClose a (.selected isSelect) = .ok res := by
  cases he : if isSelect then a.expunge else .ok () with
  | error e =>
    refine ⟨(.selected isSelect, .error e), ?_⟩
    simp only [handleClose, State.selectData, bind, Except.bind, he]
    rfl
  | ok u =>
    refine ⟨(.authenticated, writeBytes a), ?_⟩
    simp only [handleClose, State.selectData, bind, Except.bind, he]
    rfl

/-- **Everything a handler can do to the state**: keep it, or make one of the moves of its
command. -/
theorem handle_cases {maxAuthFailures : ℕ} {c : Command} {st st' : State}
    {r : Except Error Unit} (h : handle maxAuthFailures a c st = .ok (st', r)) :
    st' = st ∨ Moves c st st' := by
  have hauth (hc : c.gate = .login) (h : authenticate maxAuthFailures a st = .ok (st', r)) :
      st' = st ∨ Moves c st st' := by
    obtain hkeep | ⟨hout, hout'⟩ | rfl := authenticate_state h
    · exact .inl hkeep
    · exact .inr (.failure hc hout hout')
    · exact .inr (.login hc)
  cases c with
  | login =>
    change handleLogin maxAuthFailures a st = _ at h
    unfold handleLogin at h
    split at h
    · cases h; exact .inl rfl
    · exact hauth rfl h
  | authenticate =>
    change handleAuthenticate maxAuthFailures a st = _ at h
    unfold handleAuthenticate at h
    split at h
    · cases h; exact .inl rfl
    · split at h
      · cases h; exact .inl rfl
      · cases h; exact .inl rfl
      · exact hauth rfl h
  | unauthenticate => cases h; exact .inr .unauthenticate
  | select =>
    obtain hkeep | ⟨hin, rfl⟩ := handleSelect_state h
    · exact .inl hkeep
    · exact .inr (.select hin)
  | examine =>
    obtain hkeep | ⟨hin, rfl⟩ := handleSelect_state h
    · exact .inl hkeep
    · exact .inr (.examine hin)
  | close => exact handleClose_state h
  | unselect =>
    cases st with
    | notAuthenticated authFailures => cases h
    | authenticated => cases h; exact .inl rfl
    | selected isSelect => cases h; exact .inr (.unselect rfl)
  | list | lsub => exact .inl (handleList_state h)
  | noop | check =>
    obtain ⟨r', hr⟩ := handleNoop_eq a st
    cases hr.symm.trans h; exact .inl rfl
  | startTls | logout => cases h; exact .inl rfl
  | listRights | enable | capability | id =>
    obtain ⟨r', hr⟩ := withoutAccess_eq a st
    cases hr.symm.trans h; exact .inl rfl
  | create | delete | status | namespace_ | getQuota | getQuotaRoot =>
    change withAccess State.sessionData false a st = _ at h
    exact .inl (withAccess_state h)
  | idle =>
    change withAccess State.idleData false a st = _ at h
    exact .inl (withAccess_state h)
  | expunge | fetch =>
    change withAccess State.selectData false a st = _ at h
    exact .inl (withAccess_state h)
  | _ => exact .inl (withAccess_state h)

/-- The accessors of a logged-in session have an answer. -/
theorem State.accessors_of_loggedIn {st : State} (h : st.loggedIn) :
    st.sessionData = .ok () ∧ (∃ m, st.sessionMailboxState = .ok m) ∧
      ∃ m, st.idleData = .ok m := by
  cases st with
  | notAuthenticated authFailures => cases h
  | authenticated | selected => exact ⟨rfl, ⟨_, rfl⟩, ⟨_, rfl⟩⟩

/-- **No `unreachable!()` behind the gate**: a command that `is_allowed` accepts in a state is
handled there without a panic. -/
theorem handle_isOk_of_stateAllowed {s : Session} {c : Command}
    (h : stateAllowed s c = .ok ()) (a : Answers) :
    ∃ res, handle s.maxAuthFailures a c s.state = .ok res := by
  rw [stateAllowed_eq_ok_iff] at h
  have hin (hc : s.state.loggedIn) := State.accessors_of_loggedIn hc
  have hselect (isSelect : Bool) (hst : s.state.sessionData = .ok ()) :
      ∃ res, handleSelect isSelect a s.state = .ok res := by
    unfold handleSelect
    split
    · exact ⟨_, rfl⟩
    · split
      · exact ⟨_, rfl⟩
      · rw [hst]
        cases hm : a.mailbox with
        | error | ok => exact ⟨_, rfl⟩
  cases c with
  | login =>
    change ∃ res, handleLogin s.maxAuthFailures a s.state = .ok res
    unfold handleLogin
    split
    · exact ⟨_, rfl⟩
    · exact authenticate_isOk h.1 _ a
  | authenticate =>
    change ∃ res, handleAuthenticate s.maxAuthFailures a s.state = .ok res
    unfold handleAuthenticate
    split
    · exact ⟨_, rfl⟩
    · split
      · exact ⟨_, rfl⟩
      · exact ⟨_, rfl⟩
      · exact authenticate_isOk h.1 _ a
  | unauthenticate => exact ⟨_, rfl⟩
  | select => exact hselect true (hin h).1
  | examine => exact hselect false (hin h).1
  | close =>
    obtain ⟨isSelect, hst, -⟩ := h
    change ∃ res, handleClose a s.state = .ok res
    rw [hst]
    exact handleClose_isOk isSelect a
  | unselect =>
    obtain ⟨isSelect, hst, -⟩ := h
    rw [hst]
    exact ⟨_, rfl⟩
  | list | lsub =>
    change ∃ res, handleList a s.state = .ok res
    unfold handleList
    split
    · exact ⟨_, rfl⟩
    · split
      · exact ⟨_, rfl⟩
      · split
        · rw [(hin h).1]; exact ⟨_, rfl⟩
        · exact ⟨_, rfl⟩
  | noop | check =>
    obtain ⟨r, hr⟩ := handleNoop_eq a s.state
    exact ⟨_, hr⟩
  | startTls | logout => exact ⟨_, rfl⟩
  | listRights | enable | capability | id =>
    obtain ⟨r, hr⟩ := withoutAccess_eq a s.state
    exact ⟨_, hr⟩
  | create | delete | status | namespace_ | getQuota | getQuotaRoot =>
    change ∃ res, withAccess State.sessionData false a s.state = .ok res
    exact withAccess_isOk (hin h).1 false a
  | append => exact withAccess_isOk (hin h).2.1.choose_spec true a
  | idle => exact withAccess_isOk (hin h).2.2.choose_spec false a
  | expunge | fetch =>
    obtain ⟨isSelect, hst, -⟩ := h
    change ∃ res, withAccess State.selectData false a s.state = .ok res
    exact withAccess_isOk (congrArg State.selectData hst) false a
  | store =>
    obtain ⟨isSelect, hst, -⟩ := h
    exact withAccess_isOk (congrArg State.selectData hst) true a
  | search | copy | move | sort | thread =>
    obtain ⟨isSelect, hst, -⟩ := h
    exact withAccess_isOk (congrArg State.mailboxState hst) true a
  | _ => exact withAccess_isOk (hin h).1 true a

end MailServer.Imap
