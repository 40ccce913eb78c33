import MailServer.Imap.Receiver
import Mathlib.Data.List.Infix

/-!
# Requests of a byte stream

The requests and errors that a session finds in a byte stream should not depend on the packets in
which the stream arrives, and a malformed command should leave the commands behind it alone.
Without an error both hold, as long as the session lasts.  After an error `ingest` drops the rest of
the packet, and the next packet is read as if a command began there; a packet is parsed to its end
although LOGOUT or STARTTLS is in it.

Where the session asks the client to go on, for a synchronising literal, for the response of
AUTHENTICATE or for the end of IDLE, the client has to wait, and the stream is not its own to cut.

Principal results: `requests_independent_iff`, `pipelined_command_lost`; `readAll_outcomes` — in
particular every stream without an error.
-/

namespace MailServer.Imap.Receive

open List
open SearchCommand (Bytes ascii)

variable {T : Type} (P : CommandParser T) (effect : List (Outcome T) → Request T → Effect T)

/-- One line, with its line feed. -/
def IsLine (line : Bytes) : Prop := ∃ body, line = body ++ [10] ∧ (10 : UInt8) ∉ body

/-- The session asks the client to go on: for a literal, for the response of AUTHENTICATE, or with
IDLE. -/
def asksToGoOn (before : List (Outcome T)) : Outcome T → Bool
  | .request request =>
    match effect before request with
    | .asks _ | .idles => true
    | .nothing | .ends => false
  | .needsLiteral _ => true
  | .error _ _ => false

/-- The session ends with the outcome. -/
def endsSession (before : List (Outcome T)) : Outcome T → Bool
  | .request request =>
    match effect before request with
    | .ends => true
    | _ => false
  | _ => false

/-- None of the outcomes asks the client to go on. -/
def NoneAsks (before : List (Outcome T)) : List (Outcome T) → Prop
  | [] => True
  | o :: outcomes => asksToGoOn effect before o = false ∧ NoneAsks (before ++ [o]) outcomes

/-- What follows the first outcome that ends the session. -/
def behindEnd (before : List (Outcome T)) : List (Outcome T) → Option (List (Outcome T))
  | [] => none
  | o :: outcomes =>
    if endsSession effect before o then some outcomes else behindEnd (before ++ [o]) outcomes

/-- A session that begins with this receiver. -/
def Reading.start (r : Receiver T) : Reading T := ⟨r, .receiving, []⟩

/-- The session never asks the client to go on, however the stream is cut: the stream holds no
synchronising literal, no AUTHENTICATE without its response and no IDLE. -/
def NoContinuation (r : Receiver T) (stream : Bytes) : Prop :=
  ∀ packets : List Bytes, packets.flatten = stream →
    NoneAsks effect [] (readAll P effect (.start r) packets).outcomes

/-- **Packet boundaries do not matter**: the stream has the same requests and errors in whatever
packets it arrives. -/
def PacketIndependent (r : Receiver T) (stream : Bytes) : Prop :=
  ∀ packets : List Bytes, packets.flatten = stream →
    (readAll P effect (.start r) packets).outcomes = (receive P r stream).2

/-- **A malformed command affects only itself**: before and behind it there are the requests and
errors without it. -/
def MalformedLocal (r : Receiver T) (stream : Bytes) : Prop :=
  ∀ before line behind, stream = before ++ (line ++ behind) → IsLine line →
    (receive P r before).1 = r.reset P →
    (∃ tag e, Outcome.error tag e ∈ (receive P (r.reset P) line).2) →
    (receive P r stream).2 =
      (receive P r before).2 ++ ((receive P (r.reset P) line).2 ++
        (receive P (r.reset P) behind).2)

/-- What follows the first error of the stream. -/
def behindError (r : Receiver T) (stream : Bytes) : Option (Receiver T × Bytes) :=
  Packets.afterBreak (feed P) breaks r stream

/-- Nothing behind the first error is a request or an error, from wherever it is read. -/
def NothingBehindError (r : Receiver T) (stream : Bytes) : Prop :=
  ∀ rest, (∃ r', behindError P r stream = some (r', rest)) →
    ∀ bytes, bytes <:+ rest → (receive P (r.reset P) bytes).2 = []

/-- Nothing behind the first request that ends the session is a request or an error. -/
def NothingBehindEnd (r : Receiver T) (stream : Bytes) : Prop :=
  ∀ outcomes, behindEnd effect [] (receive P r stream).2 = some outcomes → outcomes = []

variable {P effect} {r : Receiver T} {stream : Bytes} {before outcomes later : List (Outcome T)}

/-! ## The outcomes of a packet -/

theorem noneAsks_append :
    NoneAsks effect before (outcomes ++ later) ↔
      NoneAsks effect before outcomes ∧ NoneAsks effect (before ++ outcomes) later := by
  induction outcomes generalizing before with
  | nil =>
    rw [append_nil]
    exact ⟨fun h => ⟨trivial, h⟩, And.right⟩
  | cons o outcomes ih =>
    rw [cons_append, append_cons]
    exact (and_congr_right fun _ => ih).trans and_assoc.symm

theorem behindEnd_append :
    behindEnd effect before (outcomes ++ later) =
      match behindEnd effect before outcomes with
      | some rest => some (rest ++ later)
      | none => behindEnd effect (before ++ outcomes) later := by
  induction outcomes generalizing before with
  | nil =>
    rw [append_nil]
    rfl
  | cons o outcomes ih =>
    rw [cons_append, append_cons]
    cases hends : endsSession effect before o with
    | true => simp only [behindEnd, hends, if_true]
    | false =>
      simp only [behindEnd, hends, Bool.false_eq_true, if_false]
      exact ih

theorem NoneAsks.of_forall (h : ∀ before, ∀ o ∈ outcomes, asksToGoOn effect before o = false) :
    NoneAsks effect before outcomes := by
  induction outcomes generalizing before with
  | nil => trivial
  | cons o outcomes ih =>
    exact ⟨h before o mem_cons_self, ih fun before o' ho' => h before o' (mem_cons_of_mem o ho')⟩

theorem NoneAsks.noLiteral (h : NoneAsks effect before outcomes) (size : ℕ) :
    .needsLiteral size ∉ outcomes := by
  induction outcomes generalizing before with
  | nil => exact not_mem_nil
  | cons o outcomes ih =>
    rintro (_ | ⟨_, hmem⟩)
    · cases h.1
    · exact ih h.2 hmem

/-- The outcome that ends the session. -/
theorem exists_of_behindEnd (h : behindEnd effect before outcomes = some later) :
    ∃ earlier request, outcomes = earlier ++ .request request :: later ∧
      behindEnd effect before (earlier ++ [.request request]) = some [] := by
  induction outcomes generalizing before with
  | nil => cases h
  | cons o outcomes ih =>
    unfold behindEnd at h
    split at h
    · next hends =>
      cases h
      cases o with
      | request request => exact ⟨[], request, rfl, if_pos hends⟩
      | needsLiteral | error => cases hends
    · next hgoes =>
      obtain ⟨earlier, request, rfl, hend⟩ := ih h
      exact ⟨o :: earlier, request, rfl, (if_neg hgoes).trans hend⟩

/-- Where none asks to go on, the handlers leave the receiver alone. -/
theorem handleAll_eq (h : NoneAsks effect before outcomes) :
    handleAll effect before r outcomes =
      (r, if (behindEnd effect before outcomes).isSome then .over else .receiving) := by
  induction outcomes generalizing before with
  | nil => rfl
  | cons o outcomes ih =>
    obtain ⟨hasks, hrest⟩ := h
    cases o with
    | request request =>
      unfold asksToGoOn at hasks
      cases heffect : effect before request with
      | nothing =>
        simp only [handleAll, behindEnd, endsSession, heffect, Bool.false_eq_true, if_false,
          ih hrest]
      | asks | idles =>
        simp only [heffect] at hasks
        cases hasks
      | ends =>
        simp only [handleAll, behindEnd, endsSession, heffect, if_true, Option.isSome_some]
    | needsLiteral | error =>
      simp only [handleAll, behindEnd, endsSession, Bool.false_eq_true, if_false, ih hrest]

theorem readPacket_receiving (bytes : Bytes) :
    readPacket P effect ⟨r, .receiving, before⟩ bytes =
      ⟨(handleAll effect before (receive P r bytes).1 (receive P r bytes).2).1,
        (handleAll effect before (receive P r bytes).1 (receive P r bytes).2).2,
        before ++ (receive P r bytes).2⟩ := by
  cases bytes with
  | nil => simp [readPacket, receive, Packets.scan, handleAll]
  | cons ch bytes => rfl

theorem readPacket_over (bytes : Bytes) :
    readPacket P effect ⟨r, .over, before⟩ bytes = ⟨r, .over, before⟩ := by
  cases bytes with
  | nil | cons => rfl

theorem readAll_over (packets : List Bytes) :
    readAll P effect ⟨r, .over, before⟩ packets = ⟨r, .over, before⟩ := by
  induction packets with
  | nil => rfl
  | cons p ps ih =>
    unfold readAll at ih ⊢
    rw [foldl_cons, readPacket_over, ih]

variable (P effect) in
theorem exists_outcomes_readPacket (w : Reading T) (bytes : Bytes) :
    ∃ later, (readPacket P effect w bytes).outcomes = w.outcomes ++ later := by
  induction bytes generalizing w with
  | nil => exact ⟨[], (append_nil _).symm⟩
  | cons ch bytes ih =>
    unfold readPacket
    split
    · exact ⟨_, rfl⟩
    · split
      · exact ih _
      · split
        · exact ih _
        · exact ih _
    · exact ⟨[], (append_nil _).symm⟩

variable (P effect) in
theorem exists_outcomes_readAll (w : Reading T) (packets : List Bytes) :
    ∃ later, (readAll P effect w packets).outcomes = w.outcomes ++ later := by
  induction packets generalizing w with
  | nil => exact ⟨[], (append_nil _).symm⟩
  | cons p ps ih =>
    obtain ⟨first, hfirst⟩ := exists_outcomes_readPacket P effect w p
    obtain ⟨later, hlater⟩ := ih (readPacket P effect w p)
    refine ⟨first ++ later, hlater.trans ?_⟩
    rw [hfirst, append_assoc]

/-- A packet none of whose outcomes asks to go on, and the packets behind it. -/
theorem readAll_cons {packet : Bytes} {packets : List Bytes}
    (hgo : NoneAsks effect before (receive P r packet).2) :
    readAll P effect ⟨r, .receiving, before⟩ (packet :: packets) =
      readAll P effect ⟨(receive P r packet).1,
        if (behindEnd effect before (receive P r packet).2).isSome then .over else .receiving,
        before ++ (receive P r packet).2⟩ packets := by
  unfold readAll
  rw [foldl_cons, readPacket_receiving, handleAll_eq hgo]

theorem noneAsks_packet {packet : Bytes} {packets : List Bytes}
    (hgo : NoneAsks effect [] (readAll P effect ⟨r, .receiving, before⟩
      (packet :: packets)).outcomes) : NoneAsks effect before (receive P r packet).2 := by
  obtain ⟨later, hlater⟩ := exists_outcomes_readAll P effect
    (readPacket P effect ⟨r, .receiving, before⟩ packet) packets
  have hall : (readAll P effect ⟨r, .receiving, before⟩ (packet :: packets)).outcomes =
      before ++ ((receive P r packet).2 ++ later) := by
    refine hlater.trans ?_
    rw [readPacket_receiving, append_assoc]
  rw [hall, noneAsks_append, noneAsks_append] at hgo
  exact hgo.2.1

/-! ## Packets -/

theorem alike_receive (r : Receiver T) (bytes : Bytes) : Alike r (receive P r bytes).1 := by
  unfold receive
  induction bytes generalizing r with
  | nil => exact .refl r
  | cons ch bytes ih =>
    have hfeed := alike_feed P r ch
    rcases Packets.feed_cases (feed P) breaks r ch with ⟨t, ht⟩ | ⟨t, o, ht, ho⟩ | ⟨t, o, ht, ho⟩
    · rw [ht] at hfeed
      rw [Packets.scan_cons_none ht]
      exact hfeed.trans (ih t)
    · rw [ht] at hfeed
      rw [Packets.scan_cons_break ht ho]
      exact hfeed
    · rw [ht] at hfeed
      rw [Packets.scan_cons_some ht ho]
      exact hfeed.trans (ih t)

theorem NoContinuation.whole (h : NoContinuation P effect r stream) :
    NoneAsks effect [] (receive P r stream).2 := noneAsks_packet (h [stream] (by simp))

theorem behindError_reset (hstream : NoneAsks effect before (receive P r stream).2)
    {r' : Receiver T} {rest : Bytes} (h : behindError P r stream = some (r', rest)) :
    r' = r.reset P := by
  have hkept : ∀ s b, Alike r s → Alike r (feed P s b).1 :=
    fun s b hs => hs.trans (alike_feed P s b)
  obtain ⟨t, ch, outcome, halike, hfeed, hbreaks, hmem⟩ :=
    Packets.exists_feed_of_afterBreak hkept (.refl r) h
  cases outcome with
  | request request => cases hbreaks
  | needsLiteral size => cases hstream.noLiteral size hmem
  | error tag e => exact (feed_of_error hfeed).trans (halike.reset_eq P)

/-- Bytes behind others that hold no error go on from where these end. -/
theorem receive_append {first : Bytes} (h : behindError P r first = none) (rest : Bytes) :
    (receive P r (first ++ rest)).2 =
      (receive P r first).2 ++ (receive P (receive P r first).1 rest).2 :=
  congrArg Prod.snd (Packets.scan_append h rest)

/-- **The packets do not matter** where nothing follows the first error and the end of the session.
-/
theorem readAll_outcomes {packets : List Bytes}
    (hgo : NoneAsks effect [] (readAll P effect ⟨r, .receiving, before⟩ packets).outcomes)
    (herror : ∀ r' rest, behindError P r packets.flatten = some (r', rest) →
      ∀ bytes, bytes <:+ rest → (receive P r' bytes).2 = [])
    (hend : ∀ later, behindEnd effect before (receive P r packets.flatten).2 = some later →
      later = []) :
    (readAll P effect ⟨r, .receiving, before⟩ packets).outcomes =
      before ++ (receive P r packets.flatten).2 := by
  induction packets generalizing r before with
  | nil => exact (append_nil before).symm
  | cons p ps ih =>
    have hfirst := noneAsks_packet hgo
    rw [readAll_cons hfirst] at hgo ⊢
    rw [flatten_cons] at herror hend ⊢
    cases hbreak : behindError P r p with
    | none =>
      rw [receive_append hbreak, behindEnd_append] at hend
      rw [receive_append hbreak, ← append_assoc]
      cases hends : behindEnd effect before (receive P r p).2 with
      | some rest =>
        rw [hends] at hend
        rw [Option.isSome_some, if_pos rfl, readAll_over, (append_eq_nil_iff.1 (hend _ rfl)).2,
          append_nil]
      | none =>
        rw [hends] at hend hgo
        refine ih hgo (fun r' rest hrest => herror r' rest ?_) hend
        exact (Packets.afterBreak_append hbreak ps.flatten).trans hrest
    | some found =>
      obtain ⟨hscan, hstate, hafter⟩ := Packets.scan_append_of_break hbreak ps.flatten
      have hwhole : receive P r (p ++ ps.flatten) = receive P r p := hscan
      have hquiet : (receive P (receive P r p).1 ps.flatten).2 = [] := by
        have hrest := herror found.1 _ hafter ps.flatten (suffix_append _ _)
        rwa [← hstate] at hrest
      rw [hwhole]
      split
      · rw [readAll_over]
      · next hgoes =>
        rw [if_neg hgoes] at hgo
        have hrest := ih hgo (fun r' rest hbehind => ?_) (fun later hlater => ?_)
        · rw [hrest, hquiet, append_nil]
        · rw [behindError, Packets.afterBreak_of_quiet hquiet] at hbehind
          cases hbehind
        · rw [hquiet] at hlater
          cases hlater

/-- The bytes up to an outcome that is a request. -/
theorem exists_cut {request : Request T}
    (h : (receive P r stream).2 = outcomes ++ .request request :: later) :
    ∃ pre post, stream = pre ++ post ∧
      (receive P r pre).2 = outcomes ++ [.request request] := by
  unfold receive at h ⊢
  induction stream generalizing r outcomes with
  | nil => cases outcomes <;> cases h
  | cons ch bytes ih =>
    rcases Packets.feed_cases (feed P) breaks r ch with ⟨t, ht⟩ | ⟨t, o, ht, ho⟩ | ⟨t, o, ht, ho⟩
    · rw [Packets.scan_cons_none ht] at h
      obtain ⟨pre, post, rfl, hpre⟩ := ih h
      exact ⟨ch :: pre, post, rfl, by rw [Packets.scan_cons_none ht, hpre]⟩
    · rw [Packets.scan_cons_break ht ho] at h
      cases outcomes with
      | nil =>
        cases h
        cases ho
      | cons o' outcomes => cases outcomes <;> cases h
    · rw [Packets.scan_cons_some ht ho] at h
      cases outcomes with
      | nil =>
        cases (cons.inj h).1
        exact ⟨[ch], bytes, rfl, by rw [Packets.scan_cons_some ht ho]; rfl⟩
      | cons o' outcomes =>
        cases (cons.inj h).1
        obtain ⟨pre, post, rfl, hpre⟩ := ih (cons.inj h).2
        exact ⟨ch :: pre, post, rfl, by rw [Packets.scan_cons_some ht ho, hpre]; rfl⟩

theorem nothingBehindEnd_of_packetIndependent (hgo : NoContinuation P effect r stream)
    (h : PacketIndependent P effect r stream) : NothingBehindEnd P effect r stream := by
  intro later hlater
  obtain ⟨earlier, request, hwhole, hend⟩ := exists_of_behindEnd hlater
  obtain ⟨pre, post, rfl, hpre⟩ := exists_cut hwhole
  -- one packet up to the request, and one with the rest
  have hflatten : [pre, post].flatten = pre ++ post := by simp
  have hcut := h [pre, post] hflatten
  have hfirst := noneAsks_packet (hgo [pre, post] hflatten)
  rw [Reading.start, readAll_cons hfirst, hpre, hend, Option.isSome_some, if_pos rfl, readAll_over,
    hwhole, nil_append] at hcut
  have hnil := append_cancel_left hcut
  exact ((cons.inj hnil).2).symm

theorem nothingBehindError_of_packetIndependent (hgo : NoContinuation P effect r stream)
    (h : PacketIndependent P effect r stream) : NothingBehindError P r stream := by
  have hend := nothingBehindEnd_of_packetIndependent hgo h
  rintro rest ⟨r', hbreak⟩ bytes ⟨mid, rfl⟩
  rw [← behindError_reset hgo.whole hbreak]
  obtain ⟨pre, rfl, hpre⟩ := Packets.exists_of_afterBreak hbreak
  -- one packet up to some place behind the error, and one with the rest
  obtain ⟨hall, -, -⟩ := Packets.scan_append_of_break hpre (mid ++ bytes)
  obtain ⟨hmid, hstate, -⟩ := Packets.scan_append_of_break hpre mid
  have hflatten : [pre ++ mid, bytes].flatten = pre ++ (mid ++ bytes) := by simp
  have hcut := h [pre ++ mid, bytes] hflatten
  have hfirst := noneAsks_packet (hgo [pre ++ mid, bytes] hflatten)
  have hsame : receive P r (pre ++ (mid ++ bytes)) = receive P r (pre ++ mid) :=
    hall.trans hmid.symm
  have hgoes : behindEnd effect [] (receive P r (pre ++ mid)).2 = none := by
    by_contra hne
    obtain ⟨later, hlater⟩ := Option.ne_none_iff_exists'.1 hne
    obtain rfl := hend later (by rw [hsame]; exact hlater)
    obtain ⟨earlier, request, hwhole, -⟩ := exists_of_behindEnd hlater
    obtain ⟨xs, o, hlast, hbreaks⟩ := Packets.exists_last_of_afterBreak hpre
    have hsingle : earlier ++ [.request request] = xs ++ [o] := by
      rw [← hwhole, ← hlast]
      exact congrArg Prod.snd hmid
    cases (append_inj' hsingle rfl).2
    cases hbreaks
  have hreceiver : (receive P r (pre ++ mid)).1 = r' := (congrArg Prod.fst hmid).trans hstate
  have hrest : (readAll P effect ⟨r', .receiving, (receive P r (pre ++ mid)).2⟩ [bytes]).outcomes =
      (receive P r (pre ++ mid)).2 ++ (receive P r' bytes).2 :=
    congrArg Reading.outcomes (readPacket_receiving bytes)
  rw [Reading.start, readAll_cons hfirst, hgoes, Option.isSome_none, if_neg (by decide), hreceiver,
    nil_append, hrest, hsame] at hcut
  exact append_right_eq_self.1 hcut

theorem packetIndependent_iff (hgo : NoContinuation P effect r stream) :
    PacketIndependent P effect r stream ↔
      NothingBehindError P r stream ∧ NothingBehindEnd P effect r stream := by
  refine ⟨fun h => ⟨nothingBehindError_of_packetIndependent hgo h,
    nothingBehindEnd_of_packetIndependent hgo h⟩, ?_⟩
  rintro ⟨herror, hend⟩ packets rfl
  refine (readAll_outcomes (hgo packets rfl) (fun r' rest hbreak bytes hbytes => ?_) hend).trans
    (nil_append _)
  rw [behindError_reset hgo.whole hbreak]
  exact herror rest ⟨r', hbreak⟩ bytes hbytes

theorem malformedLocal_of_nothingBehindError (h : NothingBehindError P r stream) :
    MalformedLocal P r stream := by
  rintro before line behind rfl - hboundary ⟨tag, e, hmem⟩
  obtain ⟨r₂, rest₂, hline⟩ := Packets.exists_afterBreak_of_mem hmem rfl
  cases hbefore : behindError P r before with
  | some found =>
    -- the error of `line` would follow an error
    obtain ⟨r₁, rest₁⟩ := found
    obtain ⟨-, -, hbreak⟩ := Packets.scan_append_of_break hbefore (line ++ behind)
    have hquiet := h _ ⟨r₁, hbreak⟩ (line ++ behind) (suffix_append _ _)
    obtain ⟨hscan, -, -⟩ := Packets.scan_append_of_break hline behind
    unfold receive at hquiet hmem
    rw [hscan] at hquiet
    rw [hquiet] at hmem
    cases hmem
  | none =>
    have hwhole := Packets.scan_append hbefore (line ++ behind)
    have hrest := Packets.afterBreak_append hbefore (line ++ behind)
    unfold receive at hboundary
    rw [hboundary] at hwhole hrest
    obtain ⟨hscan, -, hbreak⟩ := Packets.scan_append_of_break hline behind
    have hquiet : (receive P (r.reset P) behind).2 = [] :=
      h _ ⟨r₂, hrest.trans hbreak⟩ behind (suffix_append _ _)
    unfold receive at hquiet ⊢
    rw [hwhole, hscan, hquiet, append_nil]

/-- **Requests of a byte stream.** Without a request to go on, the requests and errors do not depend
on the packets and a malformed command affects only itself, exactly when nothing behind the first
error, or behind a request that ends the session, is a request or an error. -/
theorem requests_independent_iff (P : CommandParser T)
    (effect : List (Outcome T) → Request T → Effect T) (r : Receiver T) (stream : Bytes)
    (hgo : NoContinuation P effect r stream) :
    PacketIndependent P effect r stream ∧ MalformedLocal P r stream ↔
      NothingBehindError P r stream ∧ NothingBehindEnd P effect r stream :=
  ⟨fun h => (packetIndependent_iff hgo).1 h.1, fun h =>
    ⟨(packetIndependent_iff hgo).2 h, malformedLocal_of_nothingBehindError h.1⟩⟩

/-! ## Two streams -/

/-- It is enough to read the stream, and each of its ends as if a command began there. -/
theorem noContinuation_of_suffixes
    (hstream : ∀ before, ∀ o ∈ (receive P r stream).2, asksToGoOn effect before o = false)
    (hends : ∀ bytes, bytes <:+ stream →
      ∀ before, ∀ o ∈ (receive P (r.reset P) bytes).2, asksToGoOn effect before o = false) :
    NoContinuation P effect r stream := by
  have hreads : ∀ (packets : List Bytes) (r : Receiver T) (earlier : List (Outcome T)),
      (∀ before, ∀ o ∈ (receive P r packets.flatten).2, asksToGoOn effect before o = false) →
      (∀ bytes, bytes <:+ packets.flatten →
        ∀ before, ∀ o ∈ (receive P (r.reset P) bytes).2, asksToGoOn effect before o = false) →
      (∀ before, ∀ o ∈ earlier, asksToGoOn effect before o = false) →
      ∀ before, ∀ o ∈ (readAll P effect ⟨r, .receiving, earlier⟩ packets).outcomes,
        asksToGoOn effect before o = false := by
    intro packets
    induction packets with
    | nil => exact fun _ _ _ _ hearlier => hearlier
    | cons p ps ih =>
      intro r earlier hstream hends hearlier
      rw [flatten_cons] at hstream hends
      have hfirst : ∀ before, ∀ o ∈ (receive P r p).2, asksToGoOn effect before o = false := by
        cases hbreak : behindError P r p with
        | none =>
          rw [receive_append hbreak] at hstream
          exact fun before o ho => hstream before o (mem_append_left _ ho)
        | some found =>
          have hwhole : receive P r (p ++ ps.flatten) = receive P r p :=
            (Packets.scan_append_of_break hbreak ps.flatten).1
          rwa [hwhole] at hstream
      have hboth : ∀ before, ∀ o ∈ earlier ++ (receive P r p).2,
          asksToGoOn effect before o = false := fun before o ho =>
        (mem_append.1 ho).elim (hearlier before o) (hfirst before o)
      have hnone : NoneAsks effect earlier (receive P r p).2 := .of_forall hfirst
      rw [readAll_cons hnone]
      split
      · rw [readAll_over]
        exact hboth
      · have hreset : (receive P r p).1.reset P = r.reset P := (alike_receive r p).reset_eq P
        refine ih _ _ ?_ (fun bytes hbytes => ?_) hboth
        · cases hbreak : behindError P r p with
          | none =>
            rw [receive_append hbreak] at hstream
            exact fun before o ho => hstream before o (mem_append_right _ ho)
          | some found =>
            have hstate : (receive P r p).1 = found.1 :=
              (Packets.scan_append_of_break hbreak []).2.1
            rw [hstate, behindError_reset hnone hbreak]
            exact hends _ (suffix_append _ _)
        · rw [hreset]
          exact hends bytes (hbytes.trans (suffix_append _ _))
  rintro packets rfl
  exact .of_forall (hreads packets r [] hstream hends fun _ o ho => by cases ho)

namespace Streams

/-- A session that begins, with a limit of 100 bytes for a request. -/
def receiver : Receiver Command := .new commandParser 100

/-- Every request is handled. -/
def effects : List (Outcome Command) → Request Command → Effect Command :=
  handlerEffect fun _ _ => true

/-- A literal that is not synchronising, and a malformed command at the end. -/
def malformedLast : Bytes := ascii "a1 login x {2+}\r\nyz\r\na2 foo\r\n"

/-- A malformed command, and one that is not. -/
def malformedFirst : Bytes := ascii "a1 foo\r\na2 noop\r\n"

/-- The check of `noContinuation_of_suffixes` for a session that begins. -/
theorem noContinuation_of_tails {stream : Bytes}
    (h : stream.tails.all (fun bytes => (receive commandParser receiver bytes).2.all
      (fun o => !asksToGoOn effects [] o))) :
    NoContinuation commandParser effects receiver stream := by
  have hends : ∀ bytes, bytes <:+ stream → ∀ before,
      ∀ o ∈ (receive commandParser receiver bytes).2, asksToGoOn effects before o = false := by
    intro bytes hbytes before o ho
    have htail := all_eq_true.1 h bytes ((mem_tails _ _).2 hbytes)
    have hnone : asksToGoOn effects [] o = false :=
      Bool.not_eq_true' _ |>.mp (all_eq_true.mp htail o ho)
    cases o with
    | request | needsLiteral | error => exact hnone
  exact noContinuation_of_suffixes (hends stream (suffix_refl _)) hends

end Streams

open Streams in
theorem requests_independent_malformedLast :
    PacketIndependent commandParser effects receiver malformedLast ∧
      MalformedLocal commandParser receiver malformedLast := by
  refine (requests_independent_iff commandParser effects receiver malformedLast
    (noContinuation_of_tails (by decide +kernel))).2 ⟨?_, fun later hlater => ?_⟩
  · rintro rest ⟨r', hrest⟩ bytes hbytes
    obtain ⟨-, rfl⟩ := hrest
    rcases mem_cons.1 ((mem_tails _ _).2 hbytes) with rfl | hnil
    · rfl
    · rw [mem_singleton.1 hnil]
      rfl
  · cases hlater

open Streams in
/-- **A command behind a malformed one is lost with its packet**, and executed when it arrives in a
packet of its own. -/
theorem pipelined_command_lost :
    NoContinuation commandParser effects receiver malformedFirst ∧
      (receive commandParser receiver malformedFirst).2 =
        [.error (ascii "a1") (.unrecognizedCommand (ascii "FOO"))] ∧
      (readAll commandParser effects (.start receiver)
          [ascii "a1 foo\r\n", ascii "a2 noop\r\n"]).outcomes =
        [.error (ascii "a1") (.unrecognizedCommand (ascii "FOO")),
          .request ⟨ascii "a2", .noop, []⟩] ∧
      ¬ PacketIndependent commandParser effects receiver malformedFirst := by
  refine ⟨noContinuation_of_tails (by decide +kernel), rfl, rfl, fun h => ?_⟩
  have hsame := h [ascii "a1 foo\r\n", ascii "a2 noop\r\n"] rfl
  cases hsame

open Streams in
/-- The handler of IDLE reads what comes behind it, up to DONE. -/
example :
    (readAll commandParser effects (.start receiver)
        [ascii "a1 idle\r\n", ascii "a2 noop\r\nxyzDONE\r\na3 noop\r\n"]).outcomes =
      [.request ⟨ascii "a1", .idle, []⟩, .request ⟨ascii "a3", .noop, []⟩] := rfl

end MailServer.Imap.Receive
