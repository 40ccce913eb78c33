import MailServer.Imap.Session
import Mathlib.Data.List.TakeWhile

/-!
# Pipelined IMAP commands

`Session::ingest` first checks every complete command of a packet against the state the
session has when the packet arrives, and only then runs the accepted commands one after
another, while LOGIN, SELECT, CLOSE and the like move the state on.  A command is *gated* when
`is_allowed` would accept it at the moment its handler runs.

Principal results: `ingest_gated_iff`, `sessionRun_gated_iff`, `sessionRun_not_gated`.
-/

namespace MailServer.Imap

open List

variable {c : Command} {s : Session} {rs : List (Command × Answers)} {st st' : State}
variable {r : Except Error Unit}

/-! ## The first loop: checking a packet -/

/-- A complete command of a packet, what the rate limiter answers for it, and whether a rejection
can be written. -/
structure Request where
  command : Command
  rate : RateAnswer
  errorWritten : Bool

/-- How the receiver leaves the first loop. -/
inductive Ending where
  | needsMoreData
  | needsLiteral (readyWritten : Bool)
  | error (isParseError scanBanned : Bool) (response : Error) (written : Bool)

/-- The bytes of one read, as the receiver cuts them. -/
structure Packet where
  requests : List Request
  ending : Ending

/-- The accepted commands, or `none` when the session is closed. The state is the one the packet
found. -/
def checkRequests (s : Session) : List Request → Option (List Command)
  | [] => some []
  | r :: rs =>
    match isAllowed s r.rate r.command with
    | .ok () => (checkRequests s rs).map (r.command :: ·)
    | .error e => if writeError r.errorWritten e then checkRequests s rs else none

/-- Whether the session survives the end of the first loop. -/
def survives (s : Session) : Ending → Bool
  | .needsMoreData | .needsLiteral _ => true
  | .error isParseError scanBanned response written =>
    !(!s.state.loggedIn && isParseError && scanBanned) && writeError written response

/-- The first loop of `Session::ingest`. -/
def checkPacket (s : Session) (p : Packet) : Option (List Command) := do
  let cs ← checkRequests s p.requests
  if survives s p.ending then some cs else none

/-! ## The second loop: running the accepted commands -/

inductive SessionResult where
  | continue_ | close | upgradeTls

/-- The commands that `group_requests` collects. -/
def Command.isGrouped : Command → Bool
  | .create | .delete | .status | .fetch _ => true
  | _ => false

/-- `group_requests`: the requests with the same command that follow directly, and the rest. -/
def groupRequests (c : Command) (requests : List (Command × Answers)) :
    List (Command × Answers) × List (Command × Answers) :=
  if c.isGrouped then
    (requests.takeWhile (fun r => r.1 == c), requests.dropWhile (fun r => r.1 == c))
  else ([], requests)

theorem length_groupRequests_snd (c : Command) (requests : List (Command × Answers)) :
    (groupRequests c requests).2.length ≤ requests.length := by
  unfold groupRequests
  split
  · exact length_dropWhile_le _ _
  · exact Nat.le_refl _

/-- What `ingest` does with the result of a handler; `none` goes on with the next command. -/
def afterHandler (c : Command) (a : Answers) : Except Error Unit → Option SessionResult
  | .ok () =>
    match c with
    | .startTls => some .upgradeTls
    | .logout => some .close
    | _ => none
  | .error e => if writeError a.written e then none else some .close

/-- A run of the second loop: every handled command with the session its handler found, and how the
loop ends. -/
structure Trace where
  handled : List (Session × Command)
  outcome : Except Accessor (Session × SessionResult)

/-- The second loop of `Session::ingest`. -/
def runRequests (s : Session) : List (Command × Answers) → Trace
  | [] => ⟨[], .ok (s, .continue_)⟩
  | (c, a) :: requests =>
    let group := groupRequests c requests
    let handled := (s, c) :: group.1.map fun r => (s, r.1)
    match handle s.maxAuthFailures a c s.state with
    | .error accessor => ⟨handled, .error accessor⟩
    | .ok (st, r) =>
      match afterHandler c a r with
      | some result => ⟨handled, .ok ({ s with state := st }, result)⟩
      | none =>
        let t := runRequests { s with state := st } group.2
        ⟨handled ++ t.handled, t.outcome⟩
  termination_by requests => requests.length
  decreasing_by
    have := length_groupRequests_snd c requests
    simp only [length_cons]
    omega

/-- The `+ Ready` line at the end of `ingest`. -/
def afterRequests (ending : Ending) : Session × SessionResult → Session × SessionResult
  | (s, .continue_) =>
    match ending with
    | .needsLiteral false => (s, .close)
    | _ => (s, .continue_)
  | (s, result) => (s, result)

/-- **`Session::ingest`**: `answers i` is what the handler of the `i`-th accepted command runs
into. -/
def ingest (answers : ℕ → Answers) (s : Session) (p : Packet) : Trace :=
  match checkPacket s p with
  | none => ⟨[], .ok (s, .close)⟩
  | some cs =>
    let t := runRequests s (cs.mapIdx (fun i c => (c, answers i)))
    ⟨t.handled, t.outcome.map (afterRequests p.ending)⟩

/-! ## Gating -/

/-- **State gating at execution time**: `is_allowed` accepts every command in the state its handler
runs in, no `unreachable!()` is reached, and no STORE, EXPUNGE or MOVE runs on a mailbox opened with
EXAMINE. -/
structure Gated (t : Trace) : Prop where
  allowed : ∀ e ∈ t.handled, isAllowed e.1 .allowed e.2 = .ok ()
  reachable : ∀ accessor, t.outcome ≠ .error accessor
  writable : ∀ e ∈ t.handled, e.2.writesMailbox → e.1.state ≠ .selected false

/-- The commands after which `ingest` returns. -/
def Command.stops : Command → Bool
  | .logout | .startTls => true
  | _ => false

/-- The accepted commands that can be handled: up to the first one that stops the loop. -/
def upToStop : List Command → List Command
  | [] => []
  | c :: cs => if c.stops then [c] else c :: upToStop cs

/-- Whether a successful `d` can take away what the gate of `c` asks for. -/
def disturbs (d c : Command) : Bool :=
  match d with
  | .login | .authenticate => c.gate == .login
  | .unauthenticate => c.gate == .authenticated || c.gate == .selected
  | .close | .unselect => c.gate == .selected
  | .examine => c.writesMailbox
  | _ => false

attribute [local simp] disturbs

/-- No accepted command disturbs a later one. -/
def Undisturbed (cs : List Command) : Prop :=
  (upToStop cs).Pairwise (fun d c => disturbs d c = false)

instance (cs : List Command) : Decidable (Undisturbed cs) :=
  inferInstanceAs (Decidable ((upToStop cs).Pairwise _))

/-! ## Undisturbed packets are gated -/

theorem isAllowed_eq (s : Session) (rate : RateAnswer) (c : Command) :
    isAllowed s rate c = (rateAllowed rate s.state).bind fun _ => stateAllowed s c := rfl

/-- `is_allowed` without a rate limit in the way is the table of the gate. -/
theorem isAllowed_allowed (s : Session) (c : Command) :
    isAllowed s .allowed c = stateAllowed s c := by
  rw [isAllowed_eq]
  cases hs : s.state <;> rfl

theorem stateAllowed_of_isAllowed {rate : RateAnswer}
    (h : isAllowed s rate c = .ok ()) : stateAllowed s c = .ok () := by
  rw [isAllowed_eq] at h
  cases hr : rateAllowed rate s.state with
  | error e => rw [hr] at h; cases h
  | ok u => rw [hr] at h; exact h

theorem checkRequests_allowed :
    ∀ {rs : List Request} {cs : List Command}, checkRequests s rs = some cs →
      ∀ c ∈ cs, stateAllowed s c = .ok ()
  | [], cs, h, c, hc => by
    cases h
    cases hc
  | r :: rs, cs, h, c, hc => by
    unfold checkRequests at h
    split at h
    · next u hr =>
      cases hcs : checkRequests s rs with
      | none => rw [hcs] at h; cases h
      | some cs' =>
        rw [hcs] at h
        cases h
        rcases mem_cons.1 hc with rfl | hc
        · exact stateAllowed_of_isAllowed hr
        · exact checkRequests_allowed hcs c hc
    · split at h
      · exact checkRequests_allowed h c hc
      · cases h

theorem checkPacket_allowed {p : Packet} {cs : List Command}
    (h : checkPacket s p = some cs) : ∀ c ∈ cs, stateAllowed s c = .ok () := by
  unfold checkPacket at h
  cases hcs : checkRequests s p.requests with
  | none => rw [hcs] at h; cases h
  | some cs' =>
    rw [hcs] at h
    change (if survives s p.ending then some cs' else none) = some cs at h
    split at h
    · cases h
      exact checkRequests_allowed hcs
    · cases h

theorem disturbs_login {d c : Command} (hd : d.gate = .login) (hc : c.gate = .login) :
    disturbs d c := by
  cases d with
  | login | authenticate => simp [hc]
  | _ => cases hd

theorem Moves.loggedOut {d c : Command} (hm : Moves d st st')
    (hc : c.gate = .login) (hd : disturbs d c = false) (hst : st.loggedIn = false) :
    st'.loggedIn = false := by
  cases hm with
  | failure hgate hout hout' => exact hout'
  | login hgate => rw [disturbs_login hgate hc] at hd; cases hd
  | unauthenticate => rfl
  | close => cases hst
  | select hin | examine hin | unselect hin => rw [hst] at hin; cases hin

theorem Moves.loggedIn {d c : Command} (hm : Moves d st st')
    (hc : c.gate = .authenticated) (hd : disturbs d c = false) (hst : st.loggedIn) :
    st'.loggedIn := by
  cases hm with
  | failure hgate hout hout' => rw [hst] at hout; cases hout
  | unauthenticate => simp [hc] at hd
  | login | select | examine | close | unselect => rfl

theorem Moves.selected {d c : Command} (hm : Moves d st st')
    (hc : c.gate = .selected) (hd : disturbs d c = false) (hlogin : d.gate ≠ .login)
    (hst : ∃ isSelect, st = .selected isSelect ∧ (c.writesMailbox → isSelect)) :
    ∃ isSelect, st' = .selected isSelect ∧ (c.writesMailbox → isSelect) := by
  cases hm with
  | failure hgate hout hout' => cases hlogin hgate
  | login hgate => cases hlogin hgate
  | unauthenticate | close | unselect => simp [hc] at hd
  | select hin => exact ⟨true, rfl, fun _ => rfl⟩
  | examine hin =>
    refine ⟨false, rfl, fun hw => ?_⟩
    rw [show disturbs .examine c = c.writesMailbox from rfl, hw] at hd
    cases hd

/-- **Step lemma**: a move of an accepted `d` keeps the gate of every command that `d` does not
disturb. -/
theorem Moves.stateAllowed {d c : Command} {st' : State}
    (hm : Moves d s.state st') (hd : stateAllowed s d = .ok ()) (hc : stateAllowed s c = .ok ())
    (hdc : disturbs d c = false) : stateAllowed { s with state := st' } c = .ok () := by
  rw [stateAllowed_eq_ok_iff] at hc hd ⊢
  cases hg : c.gate with
  | any => trivial
  | tls => rw [hg] at hc; exact hc
  | login => rw [hg] at hc; exact ⟨hm.loggedOut hg hdc hc.1, hc.2⟩
  | authenticated => rw [hg] at hc; exact hm.loggedIn hg hdc hc
  | selected =>
    rw [hg] at hc
    refine hm.selected hg hdc (fun hlogin => ?_) hc
    -- a login is accepted in a logged-out state only
    rw [hlogin] at hd
    obtain ⟨isSelect, hst, -⟩ := hc
    rw [hst] at hd
    cases hd.1

/-! ## The loop over the accepted commands -/

theorem groupRequests_fst_eq
    {r} (hr : r ∈ (groupRequests c rs).1) : r.1 = c := by
  unfold groupRequests at hr
  split at hr
  · have := mem_takeWhile_imp hr
    exact beq_iff_eq.1 this
  · cases hr

theorem groupRequests_snd_subset
    {r} (hr : r ∈ (groupRequests c rs).2) : r ∈ rs := by
  unfold groupRequests at hr
  split at hr
  · exact (dropWhile_sublist _).subset hr
  · exact hr

theorem stops_of_isGrouped (h : c.isGrouped) : c.stops = false := by
  cases c <;> first | rfl | cases h

theorem upToStop_groupRequests (c : Command) (rs : List (Command × Answers)) :
    (upToStop ((groupRequests c rs).2.map Prod.fst)).Sublist (upToStop (rs.map Prod.fst)) := by
  unfold groupRequests
  split
  · next hc =>
    induction rs with
    | nil => exact List.Sublist.refl _
    | cons r rs ih =>
      rw [dropWhile_cons]
      split
      · next hr =>
        have hr : r.1 = c := beq_iff_eq.1 hr
        have hstop : upToStop ((r :: rs).map Prod.fst) = r.1 :: upToStop (rs.map Prod.fst) := by
          simp [upToStop, hr, stops_of_isGrouped hc]
        rw [hstop]
        exact ih.cons _
      · exact List.Sublist.refl _
  · exact List.Sublist.refl _

theorem afterHandler_of_stops {m : ℕ} (hc : c.stops) {a : Answers}
    {st st' : State} (h : handle m a c st = .ok (st', r)) :
    ∃ result, afterHandler c a r = some result := by
  have hr : r = writeBytes a := by
    cases c with
    | logout | startTls => cases h; rfl
    | _ => cases hc
  rw [hr]
  unfold writeBytes
  split
  · cases c with
    | logout | startTls => exact ⟨_, rfl⟩
    | _ => cases hc
  · exact ⟨.close, rfl⟩

theorem ne_readOnly_of_allowed (h : stateAllowed s c = .ok ())
    (hw : c.writesMailbox) : s.state ≠ .selected false := by
  rw [stateAllowed_eq_ok_iff, Command.gate_of_writesMailbox hw] at h
  obtain ⟨isSelect, hst, hselect⟩ := h
  rw [hst, hselect hw]
  decide

theorem Gated.of_allowed {t : Trace} (hall : ∀ e ∈ t.handled, stateAllowed e.1 e.2 = .ok ())
    (hout : ∀ accessor, t.outcome ≠ .error accessor) : Gated t where
  allowed e he := (isAllowed_allowed e.1 e.2).trans (hall e he)
  reachable := hout
  writable e he hw := ne_readOnly_of_allowed (hall e he) hw

theorem Gated.right {handled} {t : Trace}
    (h : Gated ⟨handled ++ t.handled, t.outcome⟩) : Gated t where
  allowed e he := h.allowed e (mem_append_right _ he)
  reachable := h.reachable
  writable e he := h.writable e (mem_append_right _ he)

theorem mem_handled
    {e} (he : e ∈ (s, c) :: (groupRequests c rs).1.map (fun r => (s, r.1))) :
    e = (s, c) := by
  rcases mem_cons.1 he with rfl | he
  · rfl
  · obtain ⟨r, hr, rfl⟩ := mem_map.1 he
    rw [groupRequests_fst_eq hr]

/-- **Run lemma**: when the commands are all accepted now and none disturbs a later one, the loop is
gated. -/
theorem runRequests_gated (s : Session) (rs : List (Command × Answers))
    (hallowed : ∀ c ∈ upToStop (rs.map Prod.fst), stateAllowed s c = .ok ())
    (hpair : Undisturbed (rs.map Prod.fst)) : Gated (runRequests s rs) := by
  induction s, rs using runRequests.induct with
  | case1 s =>
    rw [runRequests]
    exact .of_allowed (fun e he => by cases he) (fun accessor h => by cases h)
  | case2 s c a rs accessor herr =>
    have hc : stateAllowed s c = .ok () := by
      refine hallowed c ?_
      rw [map_cons, upToStop]
      split <;> exact .head _
    obtain ⟨res, hres⟩ := handle_isOk_of_stateAllowed hc a
    rw [hres] at herr
    cases herr
  | case3 s c a rs st r hok result hafter =>
    have hc : stateAllowed s c = .ok () := by
      refine hallowed c ?_
      rw [map_cons, upToStop]
      split <;> exact .head _
    rw [runRequests, hok]
    simp only [hafter]
    refine .of_allowed (fun e he => ?_) (fun accessor h => by cases h)
    rw [mem_handled he]
    exact hc
  | case4 s c a rs group st r hok hafter ih =>
    have hc : stateAllowed s c = .ok () := by
      refine hallowed c ?_
      rw [map_cons, upToStop]
      split <;> exact .head _
    have hstops : c.stops = false := by
      by_contra hstops
      rw [Bool.not_eq_false] at hstops
      obtain ⟨result, hresult⟩ := afterHandler_of_stops hstops hok
      rw [hafter] at hresult
      cases hresult
    have hcons : upToStop (((c, a) :: rs).map Prod.fst) = c :: upToStop (rs.map Prod.fst) := by
      simp [upToStop, hstops]
    unfold Undisturbed at hpair ih
    rw [hcons] at hallowed hpair
    obtain ⟨hdc, hpair⟩ := pairwise_cons.1 hpair
    have hsub := upToStop_groupRequests c rs
    -- one step keeps the gate of everything that is still to be handled
    have hnext : ∀ c' ∈ upToStop ((groupRequests c rs).2.map Prod.fst),
        stateAllowed { s with state := st } c' = .ok () := by
      intro c' hc'
      have hmem := hsub.subset hc'
      have hallowed' := hallowed c' (.tail _ hmem)
      rcases handle_cases hok with hkeep | hmoves
      · rw [hkeep]; exact hallowed'
      · exact hmoves.stateAllowed hc hallowed' (hdc c' hmem)
    have ih := ih hnext (hpair.sublist hsub)
    rw [runRequests, hok]
    simp only [hafter]
    refine .of_allowed (fun e he => ?_) ih.reachable
    rcases mem_append.1 he with he | he
    · rw [mem_handled he]
      exact hc
    · exact (isAllowed_allowed e.1 e.2).symm.trans (ih.allowed e he)

/-! ## Disturbed packets are not gated

The environment of the converse: every request fails quietly, the error reaches the client and
the loop goes on, except for the one disturbing command, for which everything succeeds. -/

/-- Every check, parse and lookup fails with an error that can be reported. -/
def quiet : Answers where
  permission := .error .other
  arguments := .error .other
  response := none
  credentials := .error .other
  newSession := .error .other
  isSeparatorQuery := false
  mailbox := .error .other
  expunge := .error .other
  completion := .ok ()
  written := true

/-- Everything succeeds. -/
def lavish : Answers where
  permission := .ok ()
  arguments := .ok ()
  response := some (.ok ())
  credentials := .ok ()
  newSession := .ok ()
  isSeparatorQuery := false
  mailbox := .ok ()
  expunge := .ok ()
  completion := .ok ()
  written := true

/-- The states whose gate rejects `c`. -/
def Blocked (c : Command) (st : State) : Prop :=
  match c.gate with
  | .any | .tls => False
  | .login => st.loggedIn
  | .authenticated => st.loggedIn = false
  | .selected => ∀ isSelect, st = .selected isSelect → c.writesMailbox ∧ isSelect = false

theorem Blocked.not_allowed (h : Blocked c s.state) :
    stateAllowed s c ≠ .ok () := by
  intro hc
  rw [stateAllowed_eq_ok_iff] at hc
  unfold Blocked at h
  cases hg : c.gate with
  | any | tls => rw [hg] at h; exact h
  | login => rw [hg] at h hc; rw [h] at hc; cases hc.1
  | authenticated => rw [hg] at h hc; rw [h] at hc; cases hc
  | selected =>
    rw [hg] at h hc
    obtain ⟨isSelect, hst, hselect⟩ := hc
    obtain ⟨hw, hfalse⟩ := h isSelect hst
    rw [hselect hw] at hfalse
    cases hfalse

theorem handle_quiet {m : ℕ} (h : handle m quiet c st = .ok (st', r)) :
    st' = st ∨ (c.gate = .authenticated ∧ st'.loggedIn = false) ∨
      (c.gate = .selected ∧ st.loggedIn ∧ st' = .authenticated) := by
  rcases handle_cases h with hkeep | hmoves
  · exact .inl hkeep
  · cases hmoves with
    | failure hgate | login hgate =>
      cases c with
      | login | authenticate => cases h; exact .inl rfl
      | _ => cases hgate
    | unauthenticate => exact .inr (.inl ⟨rfl, rfl⟩)
    | select hin | examine hin =>
      -- the arguments do not parse
      cases st with
      | notAuthenticated n => cases hin
      | authenticated => cases h
      | selected isSelect => cases h; exact .inl rfl
    | close => exact .inr (.inr ⟨rfl, rfl, rfl⟩)
    | unselect hin => exact .inr (.inr ⟨rfl, hin, rfl⟩)

/-- A quiet command does not unblock `c`; for a login, if it is one that a logged-out session
accepts. -/
theorem Blocked.quiet {m : ℕ} {c e : Command}
    (hb : Blocked c st) (h : handle m quiet e st = .ok (st', r))
    (he : c.gate = .login → e.gate ≠ .authenticated ∧ e.gate ≠ .selected) : Blocked c st' := by
  rcases handle_quiet h with rfl | ⟨hg, hout⟩ | ⟨hg, hin, rfl⟩
  · exact hb
  · unfold Blocked at hb ⊢
    cases hc : c.gate with
    | any | tls => rw [hc] at hb; exact hb.elim
    | login => cases (he hc).1 hg
    | authenticated => exact hout
    | selected =>
      intro isSelect hst
      rw [hst] at hout
      cases hout
  · unfold Blocked at hb ⊢
    cases hc : c.gate with
    | any | tls => rw [hc] at hb; exact hb.elim
    | login => cases (he hc).2 hg
    | authenticated => rw [hc] at hb; rw [hin] at hb; cases hb
    | selected => intro isSelect hst; cases hst

/-- **A disturbing command that succeeds blocks the later one.** -/
theorem disturbs_blocks {d c : Command} (hd : stateAllowed s d = .ok ())
    (hdc : disturbs d c) :
    ∃ st', handle s.maxAuthFailures lavish d s.state = .ok (st', .ok ()) ∧ Blocked c st' := by
  rw [stateAllowed_eq_ok_iff] at hd
  unfold Blocked
  cases d with
  | login | authenticate =>
    have hc : c.gate = .login := beq_iff_eq.1 hdc
    exact ⟨.authenticated, rfl, by rw [hc]; rfl⟩
  | unauthenticate =>
    refine ⟨.notAuthenticated 0, rfl, ?_⟩
    rcases Bool.or_eq_true_iff.1 hdc with hc | hc
    · rw [beq_iff_eq.1 hc]; rfl
    · rw [beq_iff_eq.1 hc]; intro isSelect hst; cases hst
  | close | unselect =>
    obtain ⟨isSelect, hst, -⟩ := hd
    have hc : c.gate = .selected := beq_iff_eq.1 hdc
    rw [hst, hc]
    refine ⟨.authenticated, ?_, fun isSelect hst => by cases hst⟩
    cases isSelect <;> rfl
  | examine =>
    have hw : c.writesMailbox := hdc
    rw [Command.gate_of_writesMailbox hw]
    refine ⟨.selected false, ?_, fun isSelect hst => ?_⟩
    · have hin : s.state.loggedIn := hd
      cases hst : s.state with
      | notAuthenticated n => rw [hst] at hin; cases hin
      | authenticated | selected isSelect => rfl
    · cases hst; exact ⟨hw, rfl⟩
  | _ => cases hdc

theorem upToStop_cons_of_not_stops (h : c.stops = false) (cs : List Command) :
    upToStop (c :: cs) = c :: upToStop cs := by
  simp [upToStop, h]

theorem mem_upToStop_groupRequests {c e : Command} (hne : c ≠ e)
    {rs} (hc : c ∈ upToStop (rs.map Prod.fst)) :
    c ∈ upToStop ((groupRequests e rs).2.map Prod.fst) := by
  unfold groupRequests
  split
  · next he =>
    induction rs with
    | nil => exact hc
    | cons r rs ih =>
      rw [dropWhile_cons]
      split
      · next hr =>
        have hr : r.1 = e := beq_iff_eq.1 hr
        rw [map_cons, upToStop_cons_of_not_stops (hr ▸ stops_of_isGrouped he)] at hc
        rcases mem_cons.1 hc with hc | hc
        · cases hne (hc.trans hr)
        · exact ih hc
      · exact hc
  · exact hc

theorem afterHandler_quiet {m : ℕ} (h : handle m quiet c st = .ok (st', r)) (hc : c.stops = false) :
    afterHandler c quiet r = none := by
  have hr : r = .ok () ∨ r = .error .other := by
    cases st with
    | notAuthenticated n | authenticated =>
      cases c <;> cases h <;> first | exact .inl rfl | exact .inr rfl
    | selected isSelect =>
      cases isSelect <;> cases c <;> cases h <;> first | exact .inl rfl | exact .inr rfl
  rcases hr with rfl | rfl
  · cases c <;> first | rfl | cases hc
  · rfl

/-- **A blocked command behind quiet ones** is reached in a state that rejects it, unless a
handler panics before. -/
theorem not_gated_of_blocked (s : Session) (rs : List (Command × Answers))
    (hquiet : ∀ r ∈ rs, r.2 = quiet) (hc : c ∈ upToStop (rs.map Prod.fst)) (hb : Blocked c s.state)
    (hlogin : c.gate = .login → ∀ r ∈ rs, r.1.gate ≠ .authenticated ∧ r.1.gate ≠ .selected) :
    ¬ Gated (runRequests s rs) := by
  have hhead {s : Session} {t : Trace} (hb : Blocked c s.state) (hmem : (s, c) ∈ t.handled) :
      ¬ Gated t := fun hg =>
    hb.not_allowed ((isAllowed_allowed s c).symm.trans (hg.allowed _ hmem))
  induction s, rs using runRequests.induct with
  | case1 s => cases hc
  | case2 s e a rs accessor herr =>
    intro hg
    rw [runRequests, herr] at hg
    exact hg.reachable accessor rfl
  | case3 s e a rs st r hok result hafter =>
    obtain rfl : a = quiet := hquiet _ (.head _)
    have hstops : e.stops := by
      by_contra hstops
      rw [afterHandler_quiet hok (Bool.not_eq_true _ ▸ hstops)] at hafter
      cases hafter
    obtain rfl : c = e := by
      rw [map_cons, upToStop, if_pos hstops] at hc
      exact mem_singleton.1 hc
    refine hhead hb ?_
    rw [runRequests, hok]
    simp only [hafter]
    exact .head _
  | case4 s e a rs group st r hok hafter ih =>
    obtain rfl : a = quiet := hquiet _ (.head _)
    by_cases hce : c = e
    · subst hce
      refine hhead hb ?_
      rw [runRequests, hok]
      simp only [hafter]
      exact mem_append_left _ (.head _)
    · have hstops : e.stops = false := by
        by_contra hstops
        rw [map_cons, upToStop, if_pos (Bool.not_eq_false _ ▸ hstops)] at hc
        exact hce (mem_singleton.1 hc)
      rw [map_cons, upToStop_cons_of_not_stops hstops] at hc
      have hc := (mem_cons.1 hc).resolve_left hce
      have hsub : ∀ r ∈ (groupRequests e rs).2, r ∈ (e, quiet) :: rs := fun r hr =>
        .tail _ (groupRequests_snd_subset hr)
      have hb' : Blocked c st := hb.quiet hok fun hg => hlogin hg _ (.head _)
      have ih := ih (fun r hr => hquiet r (hsub r hr)) (mem_upToStop_groupRequests hce hc) hb'
        (fun hg r hr => hlogin hg r (hsub r hr))
      intro hg
      rw [runRequests, hok] at hg
      simp only [hafter] at hg
      exact ih (hg.right)

theorem disturbs_shape {d c : Command} (h : disturbs d c) :
    d.isGrouped = false ∧ d.stops = false := by
  cases d <;> first | exact ⟨rfl, rfl⟩ | cases h

theorem groupRequests_append_cons {e d : Command} (hd : d.isGrouped = false)
    (pre post : List (Command × Answers)) (a : Answers) :
    ∃ pre', (groupRequests e (pre ++ (d, a) :: post)).2 = pre' ++ (d, a) :: post ∧
      pre'.Sublist pre := by
  unfold groupRequests
  split
  · next he =>
    have hde : (d == e) = false := by
      rw [beq_eq_false_iff_ne]
      rintro rfl
      rw [he] at hd
      cases hd
    refine ⟨pre.dropWhile (fun r => r.1 == e), ?_, dropWhile_sublist _⟩
    rw [dropWhile_append]
    split
    · next hemp =>
      rw [isEmpty_iff.1 hemp]
      simp [hde]
    · rfl
  · exact ⟨pre, rfl, List.Sublist.refl _⟩

/-- **A disturbance that happens**: a command that succeeds and disturbs a later one makes the loop
ungated. -/
theorem not_gated_of_disturbs {d c : Command} (hdc : disturbs d c)
    {post} (hpost : ∀ r ∈ post, r.2 = quiet)
    (hc : c ∈ upToStop (post.map Prod.fst))
    (hlogin : c.gate = .login → ∀ r ∈ post, r.1.gate ≠ .authenticated ∧ r.1.gate ≠ .selected) :
    ∀ n (pre : List (Command × Answers)), pre.length ≤ n →
      (∀ r ∈ pre, r.2 = quiet ∧ r.1.stops = false) →
      ∀ s, ¬ Gated (runRequests s (pre ++ (d, lavish) :: post)) := by
  obtain ⟨hgrouped, hstops⟩ := disturbs_shape hdc
  have hgroup : groupRequests d post = ([], post) := by simp [groupRequests, hgrouped]
  intro n
  induction n with
  | zero =>
    intro pre hlen hpre s hg
    obtain rfl : pre = [] := eq_nil_of_length_eq_zero (Nat.le_zero.1 hlen)
    rw [nil_append, runRequests] at hg
    have hd : stateAllowed s d = .ok () := by
      refine (isAllowed_allowed s d).symm.trans (hg.allowed (s, d) ?_)
      split
      · exact .head _
      · split <;> exact .head _
    obtain ⟨st, hst, hb⟩ := disturbs_blocks hd hdc
    have hafter : afterHandler d lavish (.ok ()) = none := by
      cases d <;> first | rfl | cases hstops
    rw [hst, hgroup] at hg
    simp only [hafter] at hg
    exact not_gated_of_blocked _ post hpost hc hb hlogin hg.right
  | succ n ih =>
    intro pre hlen hpre s hg
    cases pre with
    | nil => exact ih [] (Nat.zero_le _) (fun r hr => by cases hr) s hg
    | cons r pre =>
      obtain ⟨e, a⟩ := r
      obtain ⟨rfl, he⟩ := hpre _ (.head _)
      obtain ⟨pre', hpre', hsub⟩ := groupRequests_append_cons (e := e) hgrouped pre post lavish
      rw [cons_append, runRequests] at hg
      cases hres : handle s.maxAuthFailures quiet e s.state with
      | error accessor => rw [hres] at hg; exact hg.reachable accessor rfl
      | ok res =>
        obtain ⟨st, r⟩ := res
        rw [hres, hpre'] at hg
        simp only [afterHandler_quiet hres he] at hg
        have hlen' : pre'.length ≤ n := by
          have := hsub.length_le
          simp only [length_cons] at hlen
          omega
        exact ih pre' hlen' (fun r hr => hpre r (.tail _ (hsub.subset hr))) _
          hg.right

/-! ## One packet -/

theorem exists_disturbs_of_not_undisturbed :
    ∀ {cs : List Command}, ¬ Undisturbed cs → ∃ pre d post c, cs = pre ++ d :: post ∧
      (∀ e ∈ pre, e.stops = false) ∧ c ∈ upToStop post ∧ disturbs d c
  | [], h => absurd List.Pairwise.nil h
  | e :: cs, h => by
    unfold Undisturbed upToStop at h
    split at h
    · cases h (pairwise_singleton _ _)
    · next he =>
      rw [pairwise_cons, not_and_or] at h
      rcases h with h | h
      · obtain ⟨c, hc⟩ := not_forall.1 h
        obtain ⟨hc, hdc⟩ := Classical.not_imp.1 hc
        exact ⟨[], e, cs, c, rfl, (fun e he => by cases he), hc, by simpa using hdc⟩
      · obtain ⟨pre, d, post, c, rfl, hpre, hc, hdc⟩ := exists_disturbs_of_not_undisturbed h
        refine ⟨e :: pre, d, post, c, rfl, fun e' he' => ?_, hc, hdc⟩
        rcases mem_cons.1 he' with rfl | he'
        · exact Bool.not_eq_true _ ▸ he
        · exact hpre e' he'

theorem upToStop_sublist : ∀ cs, (upToStop cs).Sublist cs
  | [] => List.Sublist.refl _
  | c :: cs => by
    unfold upToStop
    split
    · exact (nil_sublist cs).cons_cons c
    · exact (upToStop_sublist cs).cons_cons c

theorem gate_of_login_accepted {c e : Command} (hc : stateAllowed s c = .ok ())
    (hg : c.gate = .login) (he : stateAllowed s e = .ok ()) :
    e.gate ≠ .authenticated ∧ e.gate ≠ .selected := by
  rw [stateAllowed_eq_ok_iff, hg] at hc
  rw [stateAllowed_eq_ok_iff] at he
  constructor
  · intro hge
    rw [hge, hc.1] at he
    cases he
  · intro hge
    rw [hge] at he
    obtain ⟨isSelect, hst, -⟩ := he
    rw [hst] at hc
    cases hc.1

theorem gated_ingest_iff {answers} {p : Packet} {cs : List Command}
    (h : checkPacket s p = some cs) :
    Gated (ingest answers s p) ↔ Gated (runRequests s (cs.mapIdx (fun i c => (c, answers i)))) := by
  unfold ingest
  rw [h]
  constructor
  · intro hg
    refine ⟨hg.allowed, fun accessor hout => hg.reachable accessor ?_, hg.writable⟩
    simp only [hout]
    rfl
  · intro hg
    refine ⟨hg.allowed, fun accessor hout => ?_, hg.writable⟩
    cases hrun : (runRequests s (cs.mapIdx (fun i c => (c, answers i)))).outcome with
    | error accessor' => exact hg.reachable accessor' hrun
    | ok res => simp only [hrun] at hout; cases hout

theorem map_fst_mapIdx (answers : ℕ → Answers) (cs : List Command) :
    (cs.mapIdx (fun i c => (c, answers i))).map Prod.fst = cs := by
  refine ext_getElem (by simp) fun i hi hi' => ?_
  rw [getElem_map, getElem_mapIdx]

/-- **When the commands of a packet are gated**: in every state, whatever the handlers run into, if
and only if the packet closes the session or no accepted command disturbs a later one that can still
be handled. -/
theorem ingest_gated_iff (s : Session) (p : Packet) :
    (∀ answers, Gated (ingest answers s p)) ↔
      ∀ cs, checkPacket s p = some cs → Undisturbed cs := by
  constructor
  · intro hg cs hcs
    by_contra hdisturbed
    have hallowed := checkPacket_allowed hcs
    obtain ⟨pre, d, post, c, rfl, hpre, hc, hdc⟩ := exists_disturbs_of_not_undisturbed hdisturbed
    have hg := hg (fun i => if i = pre.length then lavish else quiet)
    rw [gated_ingest_iff hcs, mapIdx_append, mapIdx_cons] at hg
    simp only [Nat.zero_add] at hg
    have hpost : ∀ e ∈ post, stateAllowed s e = .ok () := fun e he =>
      hallowed e (mem_append_right _ (.tail _ he))
    refine not_gated_of_disturbs hdc (fun r hr => ?_) ?_ (fun hlogin r hr => ?_) pre.length _
      (by simp) (fun r hr => ?_) s hg
    · obtain ⟨i, hi, rfl⟩ := mem_mapIdx.1 hr
      rw [if_neg (by omega)]
    · rw [map_fst_mapIdx (fun i => if i + 1 + pre.length = pre.length then lavish else quiet)]
      exact hc
    · obtain ⟨i, hi, rfl⟩ := mem_mapIdx.1 hr
      exact gate_of_login_accepted (hpost c ((upToStop_sublist post).subset hc)) hlogin
        (hpost _ (getElem_mem hi))
    · obtain ⟨i, hi, rfl⟩ := mem_mapIdx.1 hr
      exact ⟨if_neg (by omega), hpre _ (getElem_mem hi)⟩
  · intro hcond answers
    cases hcs : checkPacket s p with
    | none =>
      unfold ingest
      rw [hcs]
      exact .of_allowed (fun e he => by cases he) (fun accessor h => by cases h)
    | some cs =>
      rw [gated_ingest_iff hcs]
      have hmap := map_fst_mapIdx answers cs
      refine runRequests_gated s _ (fun c hc => ?_) (by rw [hmap]; exact hcond cs hcs)
      rw [hmap] at hc
      exact checkPacket_allowed hcs c ((upToStop_sublist cs).subset hc)

/-! ## A whole session -/

/-- The session that reads the next packet, in the clear or after the TLS handshake. -/
def nextSession (t : Trace) : Option Session :=
  match t.outcome with
  | .ok (s, .continue_) => some s
  | .ok (s, .upgradeTls) => some { s with isTls := true }
  | _ => none

/-- The traces of a session that reads `ps`; `answers i` are the answers to the `i`-th packet. -/
def sessionRun (answers : ℕ → ℕ → Answers) (s : Session) : List Packet → List Trace
  | [] => []
  | p :: ps =>
    let t := ingest (answers 0) s p
    match nextSession t with
    | none => [t]
    | some s' => t :: sessionRun (fun i => answers (i + 1)) s' ps

/-- Every packet of the run is undisturbed in the state that reads it. -/
def UndisturbedRun (answers : ℕ → ℕ → Answers) (s : Session) : List Packet → Prop
  | [] => True
  | p :: ps => (∀ cs, checkPacket s p = some cs → Undisturbed cs) ∧
      ∀ s', nextSession (ingest (answers 0) s p) = some s' →
        UndisturbedRun (fun i => answers (i + 1)) s' ps

theorem mem_sessionRun_cons {answers} {p : Packet}
    {ps : List Packet} {t : Trace} :
    t ∈ sessionRun answers s (p :: ps) ↔ t = ingest (answers 0) s p ∨
      ∃ s', nextSession (ingest (answers 0) s p) = some s' ∧
        t ∈ sessionRun (fun i => answers (i + 1)) s' ps := by
  rw [sessionRun]
  cases hnext : nextSession (ingest (answers 0) s p) with
  | none => simp
  | some s' => simp

/-- **State gating at execution time**: whatever the handlers run into, every packet of a session is
gated, if and only if no packet that it can come to read disturbs one of its later commands. -/
theorem sessionRun_gated_iff (s : Session) (ps : List Packet) :
    (∀ answers, ∀ t ∈ sessionRun answers s ps, Gated t) ↔
      ∀ answers, UndisturbedRun answers s ps := by
  induction ps generalizing s with
  | nil => exact ⟨fun _ _ => trivial, fun _ answers t ht => by cases ht⟩
  | cons p ps ih =>
    constructor
    · intro hg answers
      refine ⟨(ingest_gated_iff s p).1 fun first => ?_, fun s' hnext => ?_⟩
      · exact hg (fun _ => first) _ (mem_sessionRun_cons.2 (.inl rfl))
      · refine (ih s').1 (fun later t ht => ?_) _
        -- the first packet keeps its answers, the later ones are free
        refine hg (fun i => match i with | 0 => answers 0 | i + 1 => later i) t ?_
        exact mem_sessionRun_cons.2 (.inr ⟨s', hnext, ht⟩)
    · intro hcond answers t ht
      rcases mem_sessionRun_cons.1 ht with rfl | ⟨s', hnext, ht⟩
      · exact (ingest_gated_iff s p).2 (hcond answers).1 _
      · refine (ih s').2 (fun later => ?_) _ t ht
        exact (hcond (fun i => match i with | 0 => answers 0 | i + 1 => later i)).2 s' hnext

/-- A new session on a TLS port. -/
def newSession : Session where
  state := .notAuthenticated 0
  isTls := true
  acceptorIsTls := true
  allowPlainAuth := false
  maxAuthFailures := 3

/-- One command after another, nothing rejected by the rate limiter. -/
def packetOf (cs : List Command) : Packet :=
  ⟨cs.map (fun c => ⟨c, .allowed, true⟩), .needsMoreData⟩

theorem runRequests_cons_ok {a : Answers} (st : State)
    {rs} (hgrouped : c.isGrouped = false) (hstops : c.stops = false)
    (h : handle s.maxAuthFailures a c s.state = .ok (st, .ok ())) :
    runRequests s ((c, a) :: rs) =
      ⟨(s, c) :: (runRequests { s with state := st } rs).handled,
        (runRequests { s with state := st } rs).outcome⟩ := by
  have hafter : afterHandler c a (.ok ()) = none := by
    cases c <;> first | rfl | cases hstops
  have hgroup : groupRequests c rs = ([], rs) := by simp [groupRequests, hgrouped]
  rw [runRequests, h, hgroup]
  simp only [hafter]
  rfl

/-- EXAMINE and STORE in one packet: STORE runs on the mailbox EXAMINE has opened. -/
theorem sessionRun_not_gated :
    ¬ ∀ t ∈ sessionRun (fun _ _ => lavish) newSession
        [packetOf [.login], packetOf [.select], packetOf [.examine, .store false]], Gated t := by
  intro h
  let inState (st : State) : Session := { newSession with state := st }
  have hrun (s : Session) (c : Command) (st : State)
      (hgrouped : c.isGrouped = false) (hstops : c.stops = false)
      (hc : checkPacket s (packetOf [c]) = some [c])
      (hst : handle s.maxAuthFailures lavish c s.state = .ok (st, .ok ())) :
      nextSession (ingest (fun _ => lavish) s (packetOf [c])) = some { s with state := st } := by
    unfold ingest
    rw [hc]
    change nextSession ⟨_, (runRequests s [(c, lavish)]).outcome.map _⟩ = _
    rw [runRequests_cons_ok st hgrouped hstops hst, runRequests]
    rfl
  have hlogin := hrun newSession .login .authenticated rfl rfl rfl rfl
  have hselect := hrun (inState .authenticated) .select (.selected true) rfl rfl rfl rfl
  have hlast := h (ingest (fun _ => lavish) (inState (.selected true))
    (packetOf [.examine, .store false]))
    (mem_sessionRun_cons.2 (.inr ⟨_, hlogin, mem_sessionRun_cons.2 (.inr ⟨_, hselect,
      mem_sessionRun_cons.2 (.inl rfl)⟩)⟩))
  have hpacket : checkPacket (inState (.selected true)) (packetOf [.examine, .store false]) =
      some [.examine, .store false] := rfl
  rw [gated_ingest_iff hpacket] at hlast
  change Gated (runRequests _ [(.examine, lavish), (.store false, lavish)]) at hlast
  rw [runRequests_cons_ok (.selected false) rfl rfl rfl,
    runRequests_cons_ok (.selected false) rfl rfl rfl] at hlast
  exact hlast.writable (inState (.selected false), .store false)
    (.tail _ (.head _)) rfl rfl

end MailServer.Imap
