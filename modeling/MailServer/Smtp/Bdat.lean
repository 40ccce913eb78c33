import MailServer.Smtp.Ingest
import MailServer.Smtp.Transaction

/-!
# Content over BDAT

A queued message should hold all that the client has sent since MAIL, and none should be queued once
a chunk was refused.  The session keeps the transaction when it refuses a chunk, DATA empties the
message without a look at it, and MAIL takes over what an earlier transaction left in it.

Principal results: `intact_step`, `queued_intact_iff`, `refused_chunk_queued`; `accounted_step` —
how message and record differ, kept by every turn of the loop.
-/

namespace MailServer.Smtp.Ingest

open List Option

variable {byBdat : Bool}

/-! ## Intact messages -/

/-- The piece is as long as it was announced. -/
def Piece.Whole (p : Piece) : Prop := ∀ n, p.announced = some n → p.bytes.length = n

/-- **An intact message**: the pieces that were sent since MAIL; none was refused if BDAT LAST
completed it. -/
structure Queued.Intact (q : Queued) : Prop where
  content : q.content = (q.pieces.map Piece.bytes).flatten
  whole : ∀ p ∈ q.pieces, p.Whole
  unrefused : q.byBdat → q.refused = false

/-- Every message queued so far is intact. -/
def AllIntact {R : Receivers} (s : Session R) : Prop := ∀ q ∈ s.queued, q.Intact

section Turn

variable {R : Receivers} {M : Type}

/-- Whether a chunk is coming in. -/
def State.isBdat : State R → Bool
  | .bdat _ => true
  | _ => false

/-- The turn completes a message that `queue_message` accepts. -/
def delivers (a : Answers M R) (s : Session R) (iter : List UInt8) : Bool :=
  match s.state with
  | .data receiver =>
    decide (s.message.length + s.packet < a.params.maxMessageSize) &&
      (R.ingestData receiver iter).complete && accepts a.queue
  | .bdat receiver =>
    (R.ingestBdat receiver iter).complete && canSendData a.params s.envelope &&
      R.isLast (R.ingestBdat receiver iter).receiver && accepts a.queue
  | _ => false

/-- The message was empty at MAIL, DATA has emptied no content, and no chunk was refused before a
last one. -/
def Undisturbed (s : Session R) : Prop :=
  s.log.leftover = [] ∧ s.log.dropped = [] ∧ (s.state.isBdat → s.log.refused = false)

/-- The condition on a step: a message is handed over only in an undisturbed transaction. -/
def DeliversUndisturbed (s : Session R) : Label M R → Prop
  | .turn a => ∀ iter, s.iter = some iter → delivers a s iter →
      s.data.mailFrom.isSome → Undisturbed s
  | _ => True

/-! ## The record -/

namespace ContentLog

variable (log : ContentLog) (bytes : List UInt8)

@[simp] theorem content_receive : (log.receive bytes).content = log.content := rfl

@[simp] theorem content_finish : log.finish.content = log.content ++ log.current.bytes := by
  unfold finish content
  simp

/-- What is in the message: the record without what DATA dropped, after what MAIL found. -/
structure Balanced (message incoming : List UInt8) : Prop where
  balance : log.refused = false → log.dropped ++ message = log.leftover ++ (log.content ++ incoming)
  either : log.leftover = [] ∨ log.dropped = []

variable {log} {message incoming : List UInt8}

theorem Balanced.startChunk (h : log.Balanced message []) (n : ℕ) :
    (log.startChunk n).Balanced message [] :=
  ⟨h.balance, h.either⟩

theorem Balanced.receive (h : log.Balanced message incoming) :
    (log.receive bytes).Balanced (message ++ bytes) (incoming ++ bytes) where
  balance hrefused := by
    change log.dropped ++ (message ++ bytes) = log.leftover ++ (log.content ++ (incoming ++ bytes))
    rw [← append_assoc, h.balance hrefused]
    simp only [append_assoc]
  either := h.either

theorem Balanced.finish (h : log.Balanced message log.current.bytes) :
    log.finish.Balanced message [] where
  balance hrefused := by
    rw [content_finish, append_nil]
    exact h.balance hrefused
  either := h.either

theorem balanced_refuse (h : log.leftover = [] ∨ log.dropped = []) :
    log.refuse.Balanced message incoming :=
  ⟨(fun hrefused => by cases hrefused), h⟩

theorem balanced_begin (message : List UInt8) : (ContentLog.begin message).Balanced message [] where
  balance _ := (append_nil message).symm
  either := .inr rfl

theorem Balanced.eq_iff (h : log.Balanced message incoming) (hrefused : log.refused = false) :
    message = log.content ++ incoming ↔ log.leftover = [] ∧ log.dropped = [] := by
  have hbalance := h.balance hrefused
  constructor
  · intro heq
    rw [← heq] at hbalance
    have hsame : log.dropped = log.leftover := append_cancel_right hbalance
    rcases h.either with hnil | hnil
    · exact ⟨hnil, hsame.trans hnil⟩
    · exact ⟨hsame.symm.trans hnil, hnil⟩
  · rintro ⟨hleftover, hdropped⟩
    rw [hleftover, hdropped] at hbalance
    exact hbalance

end ContentLog

/-! ## The invariant -/

/-- How message and record stand to each other in each state. -/
def Settled (s : Session R) : Prop :=
  match s.state with
  | .closed => True
  | .data _ =>
    s.message = s.log.current.bytes ∧ s.log.dropped = s.log.content ∧ s.log.leftover = []
  | .bdat _ => s.log.Balanced s.message s.log.current.bytes
  | .dataTooLarge _ =>
    (s.log.refused = false → s.log.current.announced = none) ∧ s.log.Balanced [] []
  | .request _ | .sasl _ | .requestTooLarge _ => s.log.Balanced s.message []

/-- How far the current piece has come in. -/
def Incoming (s : Session R) : Prop :=
  match s.state with
  | .data _ => s.log.current.announced = none
  | .bdat receiver =>
    s.log.current.announced = some (s.log.current.bytes.length + R.bytesLeft receiver)
  | .dataTooLarge receiver =>
    s.log.current.announced =
      (R.dummyLeft receiver).map fun left => s.log.current.bytes.length + left
  | _ => True

/-- **The invariant**: message and record are settled, the pieces are whole, and the current one
lacks what the receiver waits for. -/
structure Accounted (s : Session R) : Prop where
  settled : s.data.mailFrom.isSome → Settled s
  whole : ∀ p ∈ s.log.pieces, p.Whole
  incoming : Incoming s

theorem Piece.whole_of_none {p : Piece} (h : p.announced = none) : p.Whole := by
  intro n hn
  rw [h] at hn
  cases hn

theorem whole_finish {log : ContentLog} (h : ∀ p ∈ log.pieces, p.Whole)
    (hcurrent : log.current.Whole) : ∀ p ∈ log.finish.pieces, p.Whole := by
  intro p hp
  rcases mem_append.1 hp with hp | hp
  · exact h p hp
  · rw [mem_singleton.1 hp]
    exact hcurrent

/-! ## One turn -/

variable {inst : Instance} {apply : SessionData → M → SessionData} {a : Answers M R}
  {s s' : Session R} {iter : List UInt8}

theorem accounted_idle
    (hstate : (∃ r, s.state = .request r) ∨ (∃ r, s.state = .sasl r) ∨
      ∃ r, s.state = .requestTooLarge r)
    (h : s.data.mailFrom.isSome → s.log.Balanced s.message [])
    (hwhole : ∀ p ∈ s.log.pieces, p.Whole) : Accounted s := by
  rcases hstate with ⟨r, hstate⟩ | ⟨r, hstate⟩ | ⟨r, hstate⟩ <;>
    exact ⟨fun hsender => by simpa [Settled, hstate] using h hsender, hwhole,
      by simp [Incoming, hstate]⟩

theorem accounted_closed (hstate : s.state = .closed) (hwhole : ∀ p ∈ s.log.pieces, p.Whole) :
    Accounted s where
  settled _ := by
    unfold Settled
    rw [hstate]
    trivial
  whole := hwhole
  incoming := by
    unfold Incoming
    rw [hstate]
    trivial

theorem greet_message {host : String} (h : (greet a host s).data.mailFrom.isSome) :
    (greet a host s).message = s.message ∧ s.data.mailFrom.isSome := by
  have hkept : (if s.message.length = 0 then [] else s.message) = s.message := by
    split
    · next hzero => exact (eq_nil_of_length_eq_zero hzero).symm
    · rfl
  unfold greet handleEhlo at h ⊢
  simp only at h ⊢
  split at h
  · split at h
    · next hnew hlabels =>
      rw [if_pos hnew, if_pos hlabels]
      exact ⟨hkept, h⟩
    · split at h
      · cases h
      · next hnew hlabels hrejected =>
        split at h
        · cases h
        · next hnone => exact absurd h hnone
  · split at h
    · cases h
    · next hnone => exact absurd h hnone

/-- What `finishMessage` leaves. -/
theorem finishMessage_spec (h : finishMessage apply a byBdat s = some s') :
    (s'.state = .closed ∨ s'.state = .default R ∧ s'.data.mailFrom = none) ∧ s'.log = s.log ∧
      s'.queued =
        if accepts a.queue then ⟨s.message, s.log.pieces, s.log.refused, byBdat⟩ :: s.queued
        else s.queued := by
  unfold finishMessage at h
  cases hqueue : queueMessage apply a.queue s.envelope with
  | none =>
    rw [hqueue] at h
    cases h
  | some r =>
    rw [hqueue] at h
    cases some_inj.1 h
    refine ⟨?_, rfl, rfl⟩
    cases hanswers : r.answers with
    | true => exact .inr ⟨rfl, rfl⟩
    | false => exact .inl rfl

theorem accounted_finishMessage (hwhole : ∀ p ∈ s.log.pieces, p.Whole)
    (h : finishMessage apply a byBdat s = some s') : Accounted s' := by
  obtain ⟨hstate, hlog, -⟩ := finishMessage_spec h
  rw [← hlog] at hwhole
  rcases hstate with hclosed | ⟨hdefault, hnone⟩
  · exact accounted_closed hclosed hwhole
  · refine accounted_idle (.inl ⟨_, hdefault⟩) (fun hsender => ?_) hwhole
    rw [hnone] at hsender
    cases hsender

variable {receiver : R.Request}

theorem accounted_request (hstate : s.state = .request receiver)
    (h : s.data.mailFrom.isSome → s.log.Balanced s.message [])
    (hwhole : ∀ p ∈ s.log.pieces, p.Whole) : Accounted s :=
  accounted_idle (.inl ⟨receiver, hstate⟩) h hwhole

theorem accounted_greet {host : String} (hstate : s.state = .request receiver)
    (h : s.data.mailFrom.isSome → s.log.Balanced s.message [])
    (hwhole : ∀ p ∈ s.log.pieces, p.Whole) : Accounted (greet a host s) := by
  refine accounted_request hstate (fun hsender => ?_) hwhole
  obtain ⟨hmessage, hsome⟩ := greet_message hsender
  rw [hmessage]
  exact h hsome

theorem handleRcptTo_mailFrom {p} {answers}
    {recipient} {usesDsn : Bool} {d : SessionData} {r : RcptResult}
    (h : handleRcptTo apply p answers recipient usesDsn d = some r)
    (hsender : r.data.mailFrom.isSome) : d.mailFrom.isSome := by
  cases hmail : d.mailFrom with
  | some sender => rfl
  | none =>
    unfold handleRcptTo at h
    simp only [hmail, isNone_none, Bool.true_or, if_true, Option.some.injEq] at h
    rw [← h] at hsender
    simp only [hmail, isSome_none, Bool.false_eq_true] at hsender

theorem accounted_handleRequest (laws : R.Laws) {request : Request}
    (hrequest : ∃ receiver, s.state = .request receiver)
    (hbalance : s.data.mailFrom.isSome → s.log.Balanced s.message [])
    (hwhole : ∀ p ∈ s.log.pieces, p.Whole)
    (h : handleRequest inst apply a s request = some s') : Accounted s' := by
  obtain ⟨receiver, hstate⟩ := hrequest
  have hsame : Accounted s := accounted_request hstate hbalance hwhole
  cases request with
  | rcpt recipient usesDsn =>
    simp only [handleRequest] at h
    cases hrcpt : handleRcptTo apply a.params a.rcpt recipient usesDsn s.envelope with
    | none =>
      rw [hrcpt] at h
      cases h
    | some r =>
      rw [hrcpt] at h
      cases some_inj.1 h
      cases hgoes : r.goesOn with
      | true =>
        refine accounted_request hstate (fun hsender => ?_) hwhole
        have hsome : s.envelope.mailFrom.isSome := handleRcptTo_mailFrom hrcpt hsender
        exact hbalance hsome
      | false => exact accounted_closed rfl hwhole
  | mail cmd =>
    simp only [handleRequest] at h
    cases hmail : handleMailFrom apply a.params a.mail cmd.sender s.envelope with
    | none =>
      rw [hmail] at h
      cases h
    | some data =>
      rw [hmail] at h
      cases some_inj.1 h
      cases hold : s.data.mailFrom with
      | some old =>
        exact accounted_request hstate
          (fun _ => hbalance (by rw [hold]; rfl)) hwhole
      | none =>
        cases hnew : data.mailFrom with
        | none =>
          refine accounted_request hstate (fun hsender => ?_) hwhole
          rw [hnew] at hsender
          cases hsender
        | some new =>
          exact accounted_request hstate
            (fun _ => ContentLog.balanced_begin s.message) fun p hp => by cases hp
  | ehlo host | helo host =>
    cases some_inj.1 h
    cases inst.isSmtp with
    | true => exact accounted_greet hstate hbalance hwhole
    | false => exact hsame
  | lhlo host =>
    cases some_inj.1 h
    cases inst.isSmtp with
    | true => exact hsame
    | false => exact accounted_greet hstate hbalance hwhole
  | data =>
    simp only [handleRequest] at h
    split at h
    · cases some_inj.1 h
      exact ⟨fun _ => ⟨rfl, rfl, rfl⟩, hwhole, rfl⟩
    · cases some_inj.1 h
      exact hsame
  | bdat chunkSize isLast =>
    simp only [handleRequest] at h
    split at h
    · split at h
      · cases some_inj.1 h
        refine ⟨fun hsender => (hbalance hsender).startChunk chunkSize, hwhole, ?_⟩
        change some chunkSize = some (0 + R.bytesLeft (R.newBdat chunkSize isLast))
        rw [laws.bytesLeft_new, Nat.zero_add]
      · cases h
    · cases some_inj.1 h
      refine ⟨fun hsender => ⟨(fun hrefused => by cases hrefused), ?_⟩, hwhole, ?_⟩
      · exact ContentLog.balanced_refuse (hbalance hsender).either
      · change some chunkSize = (R.dummyLeft (R.dummyOfBdat chunkSize)).map fun left => 0 + left
        rw [laws.dummyLeft_ofBdat, map_some, Nat.zero_add]
  | auth =>
    simp only [handleRequest] at h
    cases hsasl : a.sasl with
    | some line =>
      rw [hsasl] at h
      cases some_inj.1 h
      exact accounted_idle (.inr (.inl ⟨line, rfl⟩)) hbalance hwhole
    | none =>
      rw [hsasl] at h
      cases some_inj.1 h
      exact accounted_request hstate hbalance hwhole
  | startTls =>
    simp only [handleRequest] at h
    split at h
    · cases some_inj.1 h
      exact accounted_idle (.inl ⟨_, rfl⟩) hbalance hwhole
    · cases some_inj.1 h
      exact hsame
  | rset =>
    cases some_inj.1 h
    exact accounted_request hstate (fun hsender => by cases hsender) hwhole
  | quit =>
    cases some_inj.1 h
    exact accounted_closed rfl hwhole
  | other =>
    cases some_inj.1 h
    exact hsame

/-- No command queues a message. -/
theorem queued_handleRequest {request : Request}
    (h : handleRequest inst apply a s request = some s') : s'.queued = s.queued := by
  cases request with
  | rcpt | mail =>
    simp only [handleRequest] at h
    split at h
    · cases h
    · cases some_inj.1 h
      rfl
  | ehlo host | helo host | lhlo host =>
    cases some_inj.1 h
    cases inst.isSmtp with
    | true | false => rfl
  | data | startTls =>
    simp only [handleRequest] at h
    split at h
    · cases some_inj.1 h
      rfl
    · cases some_inj.1 h
      rfl
  | bdat chunkSize isLast =>
    simp only [handleRequest] at h
    split at h
    · split at h
      · cases some_inj.1 h
        rfl
      · cases h
    · cases some_inj.1 h
      rfl
  | auth =>
    simp only [handleRequest] at h
    split at h
    · cases some_inj.1 h
      rfl
    · cases some_inj.1 h
      rfl
  | rset | quit | other =>
    cases some_inj.1 h
    rfl

theorem accounted_turnRequest (laws : R.Laws)
    (hbalance : s.data.mailFrom.isSome → s.log.Balanced s.message [])
    (hwhole : ∀ p ∈ s.log.pieces, p.Whole)
    (h : turnRequest inst apply a s receiver iter = some s') :
    Accounted s' ∧ s'.queued = s.queued := by
  unfold turnRequest at h
  simp only at h
  split at h
  · have hqueued := queued_handleRequest h
    refine ⟨accounted_handleRequest laws ?_ ?_ ?_ h, hqueued⟩
    · exact ⟨_, rfl⟩
    · exact hbalance
    · exact hwhole
  · cases some_inj.1 h
    exact ⟨accounted_request rfl hbalance hwhole, rfl⟩
  · cases some_inj.1 h
    exact ⟨accounted_idle (.inr (.inr ⟨_, rfl⟩)) hbalance hwhole, rfl⟩
  · cases some_inj.1 h
    split
    · exact ⟨accounted_greet rfl hbalance hwhole, rfl⟩
    · exact ⟨accounted_request rfl hbalance hwhole, rfl⟩
  · cases some_inj.1 h
    exact ⟨accounted_request rfl hbalance hwhole, rfl⟩

theorem accounted_turnSasl {receiver : R.Line}
    (hbalance : s.data.mailFrom.isSome → s.log.Balanced s.message [])
    (hwhole : ∀ p ∈ s.log.pieces, p.Whole) (h : turnSasl a s receiver iter = some s') :
    Accounted s' ∧ s'.queued = s.queued := by
  unfold turnSasl at h
  simp only at h
  split at h
  · split at h
    · cases some_inj.1 h
      exact ⟨accounted_idle (.inr (.inl ⟨_, rfl⟩)) hbalance hwhole, rfl⟩
    · cases some_inj.1 h
      exact ⟨accounted_idle (.inl ⟨_, rfl⟩) hbalance hwhole, rfl⟩
  · cases some_inj.1 h
    exact ⟨accounted_idle (.inr (.inl ⟨_, rfl⟩)) hbalance hwhole, rfl⟩

theorem accounted_turnRequestTooLarge {receiver : R.DummyLine}
    (hbalance : s.data.mailFrom.isSome → s.log.Balanced s.message [])
    (hwhole : ∀ p ∈ s.log.pieces, p.Whole)
    (h : turnRequestTooLarge s receiver iter = some s') :
    Accounted s' ∧ s'.queued = s.queued := by
  unfold turnRequestTooLarge at h
  simp only at h
  split at h
  · cases some_inj.1 h
    exact ⟨accounted_idle (.inl ⟨_, rfl⟩) hbalance hwhole, rfl⟩
  · cases some_inj.1 h
    exact ⟨accounted_idle (.inr (.inr ⟨_, rfl⟩)) hbalance hwhole, rfl⟩

/-! ## The turns that receive content -/

theorem queueMessage_isSome (laws : EnvelopeLaws apply) {answers} {d : SessionData}
    (hsender : d.mailFrom.isSome) (haccepts : accepts answers) :
    (queueMessage apply answers d).isSome := by
  unfold accepts at haccepts
  simp only [Bool.and_eq_true, isNone_iff_eq_none] at haccepts
  obtain ⟨⟨hexit, hscript⟩, hqueued⟩ := haccepts
  obtain ⟨modifications, hmodifications⟩ := isSome_iff_exists.1 hscript
  have hnone : d.mailFrom.isNone = false := by
    cases hd : d.mailFrom with
    | none => rw [hd] at hsender; cases hsender
    | some sender => rfl
  have hkept :=
    (foldl_applyMilterModification_kept answers.modifications { d with message := 0 }).trans
    (laws.kept_foldl modifications _)
  obtain ⟨sender, hsome⟩ := isSome_iff_exists.1 (hkept.mailFrom hsender)
  unfold queueMessage
  simp only [hexit, hnone, hmodifications, hsome, hqueued, Bool.false_eq_true, if_false, if_true,
    isSome_some]

theorem queueMessage_eq_none {answers} {d : SessionData}
    (hsender : d.mailFrom.isSome = false) (haccepts : accepts answers) :
    queueMessage apply answers d = none := by
  unfold accepts at haccepts
  simp only [Bool.and_eq_true, isNone_iff_eq_none] at haccepts
  have hnone : d.mailFrom.isNone := by
    rw [isNone_iff_eq_none]
    exact isSome_eq_false_iff.1 hsender |> isNone_iff_eq_none.1
  unfold queueMessage
  simp only [haccepts.1.1, hnone, if_true]

theorem length_take_sub (bytes : List UInt8) (left : ℕ) :
    (bytes.take left).length + (left - bytes.length) = left := by
  rw [length_take]
  omega

theorem accounted_turnDataTooLarge (laws : R.Laws) {receiver : R.DummyData} (h : Accounted s)
    (hstate : s.state = .dataTooLarge receiver)
    (hturn : turnDataTooLarge s receiver iter = some s') :
    Accounted s' ∧ s'.queued = s.queued := by
  have hsettled := h.settled
  have hincoming := h.incoming
  unfold Settled at hsettled
  unfold Incoming at hincoming
  rw [hstate] at hsettled hincoming
  simp only at hsettled hincoming
  simp only [turnDataTooLarge] at hturn
  cases hleft : R.dummyLeft receiver with
  | none =>
    -- the body of DATA is dropped: the record does not change
    rw [hleft, map_none] at hincoming
    simp only [hincoming] at hturn
    split at hturn
    · cases some_inj.1 hturn
      exact ⟨accounted_idle (.inl ⟨_, rfl⟩) (fun hsender => (hsettled hsender).2) h.whole, rfl⟩
    · cases some_inj.1 hturn
      refine ⟨⟨fun hsender => hsettled hsender, h.whole, ?_⟩, rfl⟩
      change s.log.current.announced = _
      rw [hincoming, laws.dummyLeft_ingest, hleft]
      rfl
  | some left =>
    -- a refused chunk
    rw [hleft, map_some] at hincoming
    have hrefused : s.data.mailFrom.isSome → s.log.refused := by
      intro hsender
      cases hr : s.log.refused with
      | true => rfl
      | false =>
        have hnone := (hsettled hsender).1 hr
        rw [hincoming] at hnone
        cases hnone
    have hskipped : iter.take (iter.length - (R.ingestDummyData receiver iter).rest.length) =
        iter.take left := by
      rw [laws.dummyRest_ingest receiver iter left hleft, length_drop]
      rcases Nat.le_total left iter.length with hle | hle
      · congr 1
        omega
      · rw [Nat.sub_eq_zero_of_le hle, Nat.sub_zero, take_length, take_of_length_le hle]
    have hsome : s.log.current.announced.isSome := by
      rw [hincoming]
      rfl
    simp only [hsome, if_true, hskipped] at hturn
    have hbytes : (s.log.receive (iter.take left)).current.bytes.length =
        s.log.current.bytes.length + (iter.take left).length := length_append
    split at hturn
    · next hcomplete =>
      rw [laws.dummyComplete_ingest receiver iter left hleft, decide_eq_true_eq] at hcomplete
      cases some_inj.1 hturn
      refine ⟨accounted_idle (.inl ⟨_, rfl⟩) (fun hsender => ?_) ?_, rfl⟩
      · refine ⟨fun hr => ?_, (hsettled hsender).2.either⟩
        have htrue := hrefused hsender
        change s.log.refused = false at hr
        rw [htrue] at hr
        cases hr
      · refine whole_finish h.whole fun n hn => ?_
        change s.log.current.announced = some n at hn
        rw [hincoming] at hn
        rw [hbytes, length_take, Nat.min_eq_left hcomplete]
        exact some_inj.1 hn
    · cases some_inj.1 hturn
      refine ⟨⟨fun hsender => ⟨fun hr => ?_, ?_⟩, h.whole, ?_⟩, rfl⟩
      · have htrue := hrefused hsender
        change s.log.refused = false at hr
        rw [htrue] at hr
        cases hr
      · exact ⟨(hsettled hsender).2.balance, (hsettled hsender).2.either⟩
      · change s.log.current.announced = (R.dummyLeft _).map _
        rw [hincoming, laws.dummyLeft_ingest, hleft, map_some, map_some, hbytes,
          Nat.add_assoc, length_take_sub]

theorem accounted_turnData (laws : R.Laws) {receiver : R.Data} (h : Accounted s)
    (hstate : s.state = .data receiver) (hturn : turnData apply a s receiver iter = some s') :
    Accounted s' := by
  have hsettled := h.settled
  have hincoming := h.incoming
  unfold Settled at hsettled
  unfold Incoming at hincoming
  rw [hstate] at hsettled hincoming
  simp only [turnData] at hturn
  split at hturn
  · split at hturn
    · refine accounted_finishMessage ?_ hturn
      exact whole_finish h.whole (Piece.whole_of_none hincoming)
    · cases some_inj.1 hturn
      refine ⟨fun hsender => ?_, h.whole, hincoming⟩
      obtain ⟨hmessage, hdropped, hleftover⟩ := hsettled hsender
      refine ⟨?_, hdropped, hleftover⟩
      change s.message ++ _ = s.log.current.bytes ++ _
      rw [hmessage]
  · cases some_inj.1 hturn
    refine ⟨fun hsender => ⟨fun _ => hincoming, ?_⟩, h.whole, ?_⟩
    · obtain ⟨-, hdropped, hleftover⟩ := hsettled hsender
      refine ⟨fun _ => ?_, .inl hleftover⟩
      rw [hdropped, hleftover]
      rfl
    · change s.log.current.announced = (R.dummyLeft _).map _
      rw [hincoming, laws.dummyLeft_ofData]
      rfl

theorem current_whole (laws : R.Laws) {receiver : R.Bdat}
    (hincoming : s.log.current.announced =
      some (s.log.current.bytes.length + R.bytesLeft receiver))
    (hcomplete : (R.ingestBdat receiver iter).complete) :
    (s.log.receive (R.ingestBdat receiver iter).bytes).current.Whole := by
  intro n hn
  change s.log.current.announced = some n at hn
  change (s.log.current.bytes ++ (R.ingestBdat receiver iter).bytes).length = n
  rw [laws.complete_ingest, decide_eq_true_eq] at hcomplete
  rw [hincoming] at hn
  rw [length_append, laws.bytes_ingest, length_take, Nat.min_eq_left hcomplete]
  exact some_inj.1 hn

theorem accounted_turnBdat (laws : R.Laws) {receiver : R.Bdat} (h : Accounted s)
    (hstate : s.state = .bdat receiver) (hturn : turnBdat apply a s receiver iter = some s') :
    Accounted s' := by
  have hsettled := h.settled
  have hincoming := h.incoming
  unfold Settled at hsettled
  unfold Incoming at hincoming
  rw [hstate] at hsettled hincoming
  simp only [turnBdat] at hturn
  split at hturn
  · next hcomplete =>
    have hwhole : ∀ p ∈ (s.log.receive (R.ingestBdat receiver iter).bytes).finish.pieces, p.Whole :=
      whole_finish h.whole (current_whole laws hincoming hcomplete)
    split at hturn
    · split at hturn
      · exact accounted_finishMessage hwhole hturn
      · cases some_inj.1 hturn
        exact accounted_idle
          (.inl ⟨_, rfl⟩) (fun hsender => ((hsettled hsender).receive _).finish) hwhole
    · cases some_inj.1 hturn
      refine accounted_idle (.inl ⟨_, rfl⟩) (fun hsender => ?_) hwhole
      exact ContentLog.balanced_refuse (hsettled hsender).either
  · cases some_inj.1 hturn
    refine ⟨fun hsender => (hsettled hsender).receive _, h.whole, ?_⟩
    change s.log.current.announced = some ((s.log.current.bytes ++ _).length + _)
    rw [hincoming, laws.bytesLeft_ingest, laws.bytes_ingest, length_append, Nat.add_assoc,
      length_take_sub]

/-! ## What is handed over -/

theorem AllIntact.of_queued (h : AllIntact s) (hqueued : s'.queued = s.queued) : AllIntact s' := by
  intro q hq
  rw [hqueued] at hq
  exact h q hq

theorem intact_finishMessage (h : finishMessage apply a byBdat s = some s')
    (hintact : AllIntact s) :
    AllIntact s' ↔ (accepts a.queue →
      Queued.Intact ⟨s.message, s.log.pieces, s.log.refused, byBdat⟩) := by
  obtain ⟨-, -, hqueued⟩ := finishMessage_spec h
  cases haccepts : accepts a.queue with
  | false =>
    rw [haccepts] at hqueued
    exact ⟨(fun _ hfalse => by cases hfalse), fun _ => hintact.of_queued hqueued⟩
  | true =>
    rw [haccepts, if_pos rfl] at hqueued
    constructor
    · intro hall _
      refine hall _ ?_
      rw [hqueued]
      exact .head _
    · intro hnew q hq
      rw [hqueued] at hq
      rcases mem_cons.1 hq with rfl | hq
      · exact hnew rfl
      · exact hintact q hq

theorem sender_of_accepts (h : finishMessage apply a byBdat s = some s')
    (haccepts : accepts a.queue) : s.data.mailFrom.isSome := by
  cases hsender : s.data.mailFrom.isSome with
  | true => rfl
  | false =>
    have hnone : queueMessage apply a.queue s.envelope = none :=
      queueMessage_eq_none hsender haccepts
    simp only [finishMessage, hnone, reduceCtorEq] at h

theorem intact_turnData {receiver : R.Data} (hacc : Accounted s) (hintact : AllIntact s)
    (hstate : s.state = .data receiver) (hturn : turnData apply a s receiver iter = some s') :
    AllIntact s' ↔
      (delivers a s iter → s.data.mailFrom.isSome → Undisturbed s) := by
  have hsettled := hacc.settled
  have hincoming := hacc.incoming
  unfold Settled at hsettled
  unfold Incoming at hincoming
  rw [hstate] at hsettled hincoming
  have hdelivers : delivers a s iter =
      (decide (s.message.length + s.packet < a.params.maxMessageSize) &&
        (R.ingestData receiver iter).complete && accepts a.queue) := by
    simp only [delivers, hstate]
  rw [hdelivers]
  simp only [turnData] at hturn
  split at hturn
  · next hfits =>
    split at hturn
    · next hcomplete =>
      simp only [hfits, hcomplete]
      rw [intact_finishMessage hturn hintact]
      constructor
      · intro hnew haccepts hsender
        obtain ⟨hmessage, hdropped, hleftover⟩ := hsettled hsender
        refine ⟨hleftover, ?_, fun hbdat => ?_⟩
        · -- the body alone is in the message: whatever was sent before it is lost
          have hcontent : s.message ++ (R.ingestData receiver iter).bytes =
              (s.log.receive (R.ingestData receiver iter).bytes).finish.content :=
            (hnew haccepts).content
          rw [ContentLog.content_finish, hmessage] at hcontent
          rw [hdropped]
          exact self_eq_append_left.1 hcontent
        · rw [hstate] at hbdat
          cases hbdat
      · intro hundisturbed haccepts
        have hfound := sender_of_accepts hturn haccepts
        have hsender : s.data.mailFrom.isSome := hfound
        obtain ⟨hmessage, hdropped, -⟩ := hsettled hsender
        have hnil := (hundisturbed haccepts hsender).2.1
        refine ⟨?_, whole_finish hacc.whole (Piece.whole_of_none hincoming),
          (fun hbdat => by cases hbdat)⟩
        change s.message ++ _ = (s.log.receive _).finish.content
        rw [ContentLog.content_finish, ContentLog.content_receive, hmessage, ← hdropped, hnil]
        rfl
    · next hcomplete =>
      cases some_inj.1 hturn
      simp only [hcomplete, Bool.and_false, Bool.false_and, Bool.false_eq_true, false_implies,
        iff_true]
      exact hintact
  · next hfits =>
    cases some_inj.1 hturn
    simp only [hfits, decide_false, Bool.false_and, Bool.false_eq_true, false_implies, iff_true]
    exact hintact

theorem intact_turnBdat (laws : R.Laws) {receiver : R.Bdat} (hacc : Accounted s)
    (hintact : AllIntact s) (hstate : s.state = .bdat receiver)
    (hturn : turnBdat apply a s receiver iter = some s') :
    AllIntact s' ↔
      (delivers a s iter → s.data.mailFrom.isSome → Undisturbed s) := by
  have hsettled := hacc.settled
  have hincoming := hacc.incoming
  unfold Settled at hsettled
  unfold Incoming at hincoming
  rw [hstate] at hsettled hincoming
  have hdelivers : delivers a s iter =
      ((R.ingestBdat receiver iter).complete && canSendData a.params s.envelope &&
        R.isLast (R.ingestBdat receiver iter).receiver && accepts a.queue) := by
    simp only [delivers, hstate]
  rw [hdelivers]
  simp only [turnBdat] at hturn
  split at hturn
  · next hcomplete =>
    split at hturn
    · next hcan =>
      replace hcan : canSendData a.params s.envelope := hcan
      split at hturn
      · next hlast =>
        simp only [hcomplete, hcan, hlast]
        rw [intact_finishMessage hturn hintact]
        constructor
        · intro hnew haccepts hsender
          obtain ⟨hcontent, -, hunrefused⟩ := hnew haccepts
          have hrefused : s.log.refused = false := hunrefused rfl
          have hbalance := ((hsettled hsender).receive (R.ingestBdat receiver iter).bytes).finish
          rw [← append_nil (flatten _)] at hcontent
          obtain ⟨hleftover, hdropped⟩ := (hbalance.eq_iff hrefused).1 hcontent
          exact ⟨hleftover, hdropped, fun _ => hrefused⟩
        · intro hundisturbed haccepts
          have hfound := sender_of_accepts hturn haccepts
          have hsender : s.data.mailFrom.isSome := hfound
          obtain ⟨hleftover, hdropped, hunrefused⟩ := hundisturbed haccepts hsender
          have hrefused : s.log.refused = false := hunrefused (by rw [hstate]; rfl)
          have hbalance := ((hsettled hsender).receive (R.ingestBdat receiver iter).bytes).finish
          have hcontent := (hbalance.eq_iff hrefused).2 ⟨hleftover, hdropped⟩
          rw [append_nil] at hcontent
          exact ⟨hcontent, whole_finish hacc.whole (current_whole laws hincoming hcomplete),
            fun _ => hrefused⟩
      · next hlast =>
        cases some_inj.1 hturn
        simp only [hlast, Bool.and_false, Bool.false_and, Bool.false_eq_true, false_implies,
          iff_true]
        exact hintact
    · next hcan =>
      replace hcan : ¬ canSendData a.params s.envelope := hcan
      cases some_inj.1 hturn
      simp only [hcan, Bool.and_false, Bool.false_and, Bool.false_eq_true, false_implies, iff_true]
      exact hintact
  · next hcomplete =>
    cases some_inj.1 hturn
    simp only [hcomplete, Bool.false_and, Bool.false_eq_true, false_implies, iff_true]
    exact hintact

/-! ## Steps and runs -/

/-- Whether content is appended to the message. -/
def State.collects : State R → Bool
  | .data _ | .bdat _ => true
  | _ => false

theorem delivers_eq_false (hcollects : s.state.collects = false) : delivers a s iter = false := by
  unfold delivers
  split
  · next receiver hstate =>
    rw [hstate] at hcollects
    cases hcollects
  · next receiver hstate =>
    rw [hstate] at hcollects
    cases hcollects
  · rfl

/-- **One turn keeps the invariant**, and only the turns that receive content can queue. -/
theorem accounted_turn (laws : R.Laws) (hacc : Accounted s)
    (hturn : turn inst apply a s iter = some s') :
    Accounted s' ∧ (s.state.collects = false → s'.queued = s.queued) := by
  have hsettled := hacc.settled
  unfold Settled at hsettled
  unfold turn at hturn
  cases hstate : s.state with
  | request receiver =>
    simp only [hstate] at hturn hsettled
    obtain ⟨hacc', hqueued⟩ := accounted_turnRequest laws hsettled hacc.whole hturn
    exact ⟨hacc', fun _ => hqueued⟩
  | data receiver =>
    simp only [hstate] at hturn
    exact ⟨accounted_turnData laws hacc hstate hturn, (fun h => by cases h)⟩
  | bdat receiver =>
    simp only [hstate] at hturn
    exact ⟨accounted_turnBdat laws hacc hstate hturn, (fun h => by cases h)⟩
  | sasl receiver =>
    simp only [hstate] at hturn hsettled
    obtain ⟨hacc', hqueued⟩ := accounted_turnSasl hsettled hacc.whole hturn
    exact ⟨hacc', fun _ => hqueued⟩
  | dataTooLarge receiver =>
    simp only [hstate] at hturn
    obtain ⟨hacc', hqueued⟩ := accounted_turnDataTooLarge laws hacc hstate hturn
    exact ⟨hacc', fun _ => hqueued⟩
  | requestTooLarge receiver =>
    simp only [hstate] at hturn hsettled
    obtain ⟨hacc', hqueued⟩ := accounted_turnRequestTooLarge hsettled hacc.whole hturn
    exact ⟨hacc', fun _ => hqueued⟩
  | closed =>
    simp only [hstate] at hturn
    cases some_inj.1 hturn
    exact ⟨hacc, fun _ => rfl⟩

/-- **One turn**: the message handed over is intact exactly when the transaction is undisturbed. -/
theorem intact_turn (laws : R.Laws) (hacc : Accounted s) (hintact : AllIntact s)
    (hturn : turn inst apply a s iter = some s') :
    AllIntact s' ↔
      (delivers a s iter → s.data.mailFrom.isSome → Undisturbed s) := by
  cases hcollects : s.state.collects with
  | false =>
    rw [delivers_eq_false hcollects]
    exact ⟨(fun _ hfalse => by cases hfalse),
      fun _ => hintact.of_queued ((accounted_turn laws hacc hturn).2 hcollects)⟩
  | true =>
    unfold State.collects at hcollects
    unfold turn at hturn
    split at hcollects
    · next receiver hstate =>
      simp only [hstate] at hturn
      exact intact_turnData hacc hintact hstate hturn
    · next receiver hstate =>
      simp only [hstate] at hturn
      exact intact_turnBdat laws hacc hintact hstate hturn
    · cases hcollects

theorem finishMessage_isSome (envelopeLaws : EnvelopeLaws apply)
    (hsender : s.data.mailFrom.isSome) (haccepts : accepts a.queue) :
    (finishMessage apply a byBdat s).isSome := by
  have hqueue : (queueMessage apply a.queue s.envelope).isSome :=
    queueMessage_isSome envelopeLaws hsender haccepts
  obtain ⟨r, hr⟩ := isSome_iff_exists.1 hqueue
  simp only [finishMessage, hr, isSome_some]

theorem turn_isSome_of_delivers (envelopeLaws : EnvelopeLaws apply)
    (hdelivers : delivers a s iter) (hsender : s.data.mailFrom.isSome) :
    (turn inst apply a s iter).isSome := by
  unfold delivers at hdelivers
  split at hdelivers
  · next receiver hstate =>
    simp only [Bool.and_eq_true, decide_eq_true_eq] at hdelivers
    obtain ⟨⟨hfits, hcomplete⟩, haccepts⟩ := hdelivers
    simp only [turn, hstate, turnData, hfits, hcomplete]
    exact finishMessage_isSome envelopeLaws hsender haccepts
  · next receiver hstate =>
    simp only [Bool.and_eq_true] at hdelivers
    obtain ⟨⟨⟨hcomplete, hcan⟩, hlast⟩, haccepts⟩ := hdelivers
    simp only [turn, hstate, turnBdat, hcomplete, if_true]
    split
    · exact finishMessage_isSome envelopeLaws hsender haccepts
    · next hcannot => exact absurd hcan hcannot
  · cases hdelivers

theorem accounted_step (laws : R.Laws) {label : Label M R} (hacc : Accounted s)
    (hstep : step inst apply s label = some s') : Accounted s' := by
  cases label with
  | packet bytes =>
    simp only [step] at hstep
    split at hstep
    · cases some_inj.1 hstep
      exact ⟨hacc.settled, hacc.whole, hacc.incoming⟩
    · cases some_inj.1 hstep
      exact hacc
  | close =>
    cases some_inj.1 hstep
    exact accounted_closed rfl hacc.whole
  | turn a =>
    simp only [step] at hstep
    split at hstep
    · cases some_inj.1 hstep
      exact hacc
    · exact (accounted_turn laws hacc hstep).1

/-- **One step**: all messages stay intact exactly when none is handed over in a disturbed
transaction. -/
theorem intact_step (laws : R.Laws) {label : Label M R} (hacc : Accounted s)
    (hintact : AllIntact s) (hstep : step inst apply s label = some s') :
    AllIntact s' ↔ DeliversUndisturbed s label := by
  cases label with
  | packet bytes =>
    refine ⟨fun _ => trivial, fun _ => hintact.of_queued ?_⟩
    simp only [step] at hstep
    split at hstep
    · cases some_inj.1 hstep
      rfl
    · cases some_inj.1 hstep
      rfl
  | close =>
    cases some_inj.1 hstep
    exact ⟨fun _ => trivial, fun _ => hintact⟩
  | turn a =>
    simp only [step] at hstep
    split at hstep
    · next hiter =>
      cases some_inj.1 hstep
      refine ⟨fun _ iter h => ?_, fun _ => hintact⟩
      rw [hiter] at h
      cases h
    · next iter hiter =>
      rw [intact_turn laws hacc hintact hstep]
      refine ⟨fun h iter' hiter' => ?_, fun h => h iter hiter⟩
      rw [hiter] at hiter'
      cases some_inj.1 hiter'
      exact h

theorem delivers_of_panic (envelopeLaws : EnvelopeLaws apply) {label : Label M R}
    (hstep : step inst apply s label = none) : DeliversUndisturbed s label := by
  cases label with
  | packet | close => trivial
  | turn a =>
    intro iter hiter hdelivers hsender
    simp only [step, hiter] at hstep
    have hsome : (turn inst apply a s iter).isSome :=
      turn_isSome_of_delivers envelopeLaws hdelivers hsender
    rw [hstep] at hsome
    cases hsome

theorem accounted_start (R : Receivers) : Accounted (start R) :=
  accounted_idle (.inl ⟨_, rfl⟩) (fun h => by cases h) (fun p hp => by cases hp)

/-- **Content over BDAT.** In every run, cut into packets in whatever way, every queued message is
the concatenation of the pieces sent since MAIL, and none is queued by BDAT LAST after a refused
chunk, exactly when every message is handed over in an undisturbed transaction. -/
theorem queued_intact_iff (laws : R.Laws) (envelopeLaws : EnvelopeLaws apply) (inst : Instance)
    (run : List (Label M R)) :
    Runs.Throughout (step inst apply) AllIntact (start R) run ↔
      Runs.Along (step inst apply) DeliversUndisturbed (start R) run := by
  have hadmitted : Runs.Along (step inst apply) (fun _ _ => True) (start R) run :=
    .of_forall (fun _ _ => trivial) _ _
  refine Runs.throughout_iff_along (J := Accounted) ?_ ?_ ?_ ?_ (accounted_start R) hadmitted
  · intro s label s' hacc _ hstep
    exact accounted_step laws hacc hstep
  · intro s label s' hintact hacc _ hstep
    exact intact_step laws hacc hintact hstep
  · intro s label _ _ _ hstep
    exact delivers_of_panic envelopeLaws hstep
  · intro q hq
    cases hq

end Turn

/-! ## Two pipelined transactions -/

namespace Pipelined

open List Option

def bytesOf (text : String) : List UInt8 := text.toList.map fun c => UInt8.ofNat c.toNat

/-- The line that ends at the first line feed. -/
def splitLine : List UInt8 → Option (List UInt8 × List UInt8)
  | [] => none
  | b :: bs => if b = 10 then some ([b], bs) else (splitLine bs).map fun r => (b :: r.1, r.2)

/-- MAIL without parameters. -/
def mailFrom : MailFrom := ⟨Smtp.Sample.address "s" "a", 0, false, false, false, 0, 0, 0, 0⟩

/-- The commands that the two transactions use. -/
def parse (line : List UInt8) : Except RequestError Request :=
  if line = bytesOf "MAIL FROM:<s@a>\r\n" then .ok (.mail mailFrom)
  else if line = bytesOf "RCPT TO:<r@l>\r\n" then .ok (.rcpt (Smtp.Sample.address "r" "l") false)
  else if line = bytesOf "BDAT 4\r\n" then .ok (.bdat 4 false)
  else if line = bytesOf "BDAT 9\r\n" then .ok (.bdat 9 false)
  else if line = bytesOf "BDAT 2 LAST\r\n" then .ok (.bdat 2 true)
  else .error .invalid

/-- Receivers that collect a line, and chunks of the announced size. -/
def receivers : Receivers where
  Request := List UInt8
  Data := Unit
  Bdat := ℕ × Bool
  DummyData := Option ℕ
  Line := Unit
  DummyLine := Unit
  newRequest := []
  ingestRequest line iter :=
    match splitLine iter with
    | none => (.error .needsMoreData, line ++ iter, [])
    | some (last, rest) => (parse (line ++ last), [], rest)
  newData := ()
  ingestData _ iter := ⟨(), iter, [], false⟩
  newBdat := Prod.mk
  isLast := Prod.snd
  bytesLeft := Prod.fst
  ingestBdat r iter :=
    ⟨(r.1 - iter.length, r.2), iter.take r.1, iter.drop r.1, decide (r.1 ≤ iter.length)⟩
  dummyOfData _ := none
  dummyOfBdat := some
  dummyLeft r := r
  ingestDummyData r iter :=
    match r with
    | none => ⟨none, [], false⟩
    | some left => ⟨some (left - iter.length), iter.drop left, decide (left ≤ iter.length)⟩
  ingestLine _ iter := ⟨(), iter, true⟩
  newDummyLine := ()
  ingestDummyLine _ iter := ⟨(), iter, true⟩

theorem receivers_laws : receivers.Laws where
  bytesLeft_new _ _ := rfl
  isLast_new _ _ := rfl
  isLast_ingest _ _ := rfl
  bytesLeft_ingest _ _ := rfl
  bytes_ingest _ _ := rfl
  rest_ingest _ _ := rfl
  complete_ingest _ _ := rfl
  dummyLeft_ofBdat _ := rfl
  dummyLeft_ofData _ := rfl
  dummyLeft_ingest r iter := by
    cases r with
    | none | some => rfl
  dummyRest_ingest r iter left h := by
    cases h
    rfl
  dummyComplete_ingest r iter left h := by
    cases h
    rfl

/-- An environment that accepts everything; messages have less than ten bytes. -/
def answers : Answers SessionAddress receivers where
  params :=
    { Smtp.Sample.parameters with
      ehloRequire := false
      spfEhloVerify := false
      maxMessageSize := 10 }
  ehlo := ⟨true, true, false, false, false⟩
  mail := ⟨false, false, true, .accept [], none, none⟩
  rcpt := ⟨false, .accept [], false, false, none, .mailbox, false, false⟩
  queue := ⟨none, false, [], .accept [], true⟩
  sasl := none
  account := none

/-- A packet and the turns of the loop over it. -/
def feed (text : String) (turns : ℕ) : List (Label SessionAddress receivers) :=
  .packet (bytesOf text) :: replicate turns (.turn answers)

def envelope : String := "MAIL FROM:<s@a>\r\nRCPT TO:<r@l>\r\n"

/-- Two chunks, the first one cut. -/
def twoChunks : List (Label SessionAddress receivers) :=
  feed (envelope ++ "BDAT 4\r\nab") 4 ++ feed "cdBDAT 2 LAST\r\nxy" 3

/-- The second of three chunks is too large. -/
def refusedChunk : List (Label SessionAddress receivers) :=
  feed (envelope ++ "BDAT 4\r\nabcdBDAT 9\r\n012345678BDAT 2 LAST\r\nxy") 8

def listener : Instance := ⟨true, false⟩

end Pipelined

open Pipelined in
theorem queued_intact_twoChunks :
    ∃ s, Runs.exec (step listener setEnvelopeFrom) (start receivers) twoChunks = some s ∧
      s.queued = [⟨bytesOf "abcdxy", [⟨some 4, bytesOf "abcd"⟩, ⟨some 2, bytesOf "xy"⟩], false,
        true⟩] ∧
      Runs.Throughout (step listener setEnvelopeFrom) AllIntact (start receivers) twoChunks := by
  refine ⟨_, rfl, rfl, (queued_intact_iff receivers_laws setEnvelopeFrom_laws listener _).2 ?_⟩
  refine .cons trivial rfl ?_
  refine .cons (fun _ _ _ _ => ⟨rfl, rfl, fun _ => rfl⟩) rfl ?_
  refine .cons (fun _ _ _ _ => ⟨rfl, rfl, fun _ => rfl⟩) rfl ?_
  refine .cons (fun _ _ _ _ => ⟨rfl, rfl, fun _ => rfl⟩) rfl ?_
  refine .cons (fun _ _ _ _ => ⟨rfl, rfl, fun _ => rfl⟩) rfl ?_
  refine .cons trivial rfl ?_
  refine .cons (fun _ _ _ _ => ⟨rfl, rfl, fun _ => rfl⟩) rfl ?_
  refine .cons (fun _ _ _ _ => ⟨rfl, rfl, fun _ => rfl⟩) rfl ?_
  refine .cons (fun _ _ _ _ => ⟨rfl, rfl, fun _ => rfl⟩) rfl ?_
  trivial

open Pipelined in
/-- **A chunk is refused, and the message is queued without it**: the second chunk is answered 552,
and the last one is queued alone. -/
theorem refused_chunk_queued :
    receivers.Laws ∧ EnvelopeLaws setEnvelopeFrom ∧
      ∃ s, Runs.exec (step listener setEnvelopeFrom) (start receivers) refusedChunk = some s ∧
        s.queued = [⟨bytesOf "xy", [⟨some 4, bytesOf "abcd"⟩, ⟨some 9, bytesOf "012345678"⟩,
          ⟨some 2, bytesOf "xy"⟩], true, true⟩] ∧ ¬ AllIntact s := by
  refine ⟨receivers_laws, setEnvelopeFrom_laws, _, rfl, rfl, fun h => ?_⟩
  have hrefused := (h _ (.head _)).unrefused rfl
  cases hrefused

end MailServer.Smtp.Ingest
