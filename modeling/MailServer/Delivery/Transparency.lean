import MailServer.Store.ValueClass

/-!
# Transparency

`SmtpClient::write_message` (`smtp/src/outbound/client.rs`) sends a message behind DATA: it puts a
dot in front of each dot that follows a CR or an LF, and the end of the data behind the message.
The receiver follows RFC 5321 and looks at lines, which end with CRLF.

Principal result: `transparency`.
-/

namespace MailServer.Delivery.Transparency

open List MailServer.Store

structure Writer where
  written : Bytes
  lastPos : ℕ
  isCrOrLf : Bool

variable (message : Bytes)

/-- The bytes `46`, `10` and `13` are a dot, LF and CR. -/
def turn (w : Writer) (entry : UInt8 × ℕ) : Writer :=
  if entry.1 = 46 ∧ w.isCrOrLf then
    ⟨w.written ++ (message.drop w.lastPos).take (entry.2 - w.lastPos) ++ [46], entry.2, false⟩
  else { w with isCrOrLf := entry.1 = 10 ∨ entry.1 = 13 }

/-- CRLF, a dot and CRLF. -/
def endOfData : Bytes := [13, 10, 46, 13, 10]

def writeMessage : Bytes :=
  let w := message.zipIdx.foldl (turn message) ⟨[], 0, false⟩
  w.written ++ message.drop w.lastPos ++ endOfData

/-- The receiver, at the start of a line or within it: one leading dot is removed.  The message, and
what comes after the end of the data. -/
def receive : Bool → Bytes → Option (Bytes × Bytes)
  | true, 46 :: 13 :: 10 :: rest => some ([], rest)
  | true, 46 :: rest => receive false rest
  | _, 13 :: 10 :: rest => (receive true rest).map fun r => (13 :: 10 :: r.1, r.2)
  | _, byte :: rest => (receive false rest).map fun r => (byte :: r.1, r.2)
  | _, [] => none

/-! ## What is written -/

/-- What the last byte of a message was: the end of CRLF, a CR, a bare LF, or another byte. -/
inductive Last where
  | crlf | cr | lf | text
deriving DecidableEq

def Last.next (last : Last) (byte : UInt8) : Last :=
  if byte = 13 then .cr
  else if byte = 10 then if last = .cr then .crlf else .lf
  else .text

/-- Another dot in front of each dot that follows one of `breaks`. -/
def doubled (breaks : List Last) : Last → Bytes → Bytes
  | _, [] => []
  | last, byte :: rest =>
    if byte = 46 ∧ last ∈ breaks then 46 :: 46 :: doubled breaks .text rest
    else byte :: doubled breaks (last.next byte) rest

theorem foldl_turn (rest : Bytes) (n : ℕ) (w : Writer) (last : Last) (hrest : message.drop n = rest)
    (hpos : w.lastPos ≤ n) (hlast : w.isCrOrLf ↔ last ∈ [Last.crlf, .cr, .lf]) :
    ((rest.zipIdx n).foldl (turn message) w).written ++
        message.drop ((rest.zipIdx n).foldl (turn message) w).lastPos =
      w.written ++ (message.drop w.lastPos).take (n - w.lastPos) ++
        doubled [.crlf, .cr, .lf] last rest := by
  induction rest generalizing n w last with
  | nil =>
    have hlen := drop_eq_nil_iff.1 hrest
    rw [take_of_length_le (by rw [length_drop]; omega)]
    simp [doubled]
  | cons byte rest ih =>
    have hnext : message.drop (n + 1) = rest := by
      rw [← drop_drop, hrest]
      rfl
    rw [zipIdx_cons, foldl_cons]
    by_cases hdot : byte = 46 ∧ w.isCrOrLf
    · have hturn : turn message w (byte, n) =
          ⟨w.written ++ (message.drop w.lastPos).take (n - w.lastPos) ++ [46], n, false⟩ :=
        if_pos hdot
      rw [hturn, ih (n + 1) _ .text hnext (Nat.le_succ n) (by simp), doubled,
        if_pos ⟨hdot.1, hlast.1 hdot.2⟩]
      simp [hrest, hdot.1]
    · have hturn : turn message w (byte, n) = { w with isCrOrLf := byte = 10 ∨ byte = 13 } :=
        if_neg hdot
      have hbyte : (message.drop w.lastPos)[n - w.lastPos]? = some byte := by
        rw [getElem?_drop, Nat.add_sub_cancel' hpos, ← Nat.add_zero n, ← getElem?_drop, hrest]
        rfl
      have hnextLast : decide (byte = 10 ∨ byte = 13) ↔
          last.next byte ∈ [Last.crlf, .cr, .lf] := by
        unfold Last.next
        split_ifs <;> simp_all
      rw [hturn, ih (n + 1) { w with isCrOrLf := byte = 10 ∨ byte = 13 } _ hnext
        (Nat.le_succ_of_le hpos) hnextLast, doubled,
        if_neg (not_and.2 fun hbyte hmem => hdot ⟨hbyte, hlast.2 hmem⟩)]
      rw [Nat.succ_sub hpos, take_add_one, hbyte]
      simp

theorem writeMessage_eq :
    writeMessage message = doubled [.crlf, .cr, .lf] .text message ++ endOfData := by
  have h := foldl_turn message message 0 ⟨[], 0, false⟩ .text rfl (Nat.le_refl 0) (by decide)
  unfold writeMessage
  dsimp only
  rw [h]
  rfl

/-! ## What is received -/

theorem receive_cons {start : Bool} {byte : UInt8} {rest : Bytes}
    (hdot : start → byte ≠ 46) (hcr : byte = 13 → rest.head? ≠ some 10) :
    receive start (byte :: rest) = (receive false rest).map fun r => (byte :: r.1, r.2) := by
  rw [receive.eq_def]
  split
  · simp_all
  · simp_all
  · simp_all
  · simp_all
  · simp_all

theorem receive_crlf (start : Bool) (rest : Bytes) :
    receive start (13 :: 10 :: rest) =
      (receive true rest).map fun r => (13 :: 10 :: r.1, r.2) := by
  cases start <;> rfl

theorem receive_cr {byte : UInt8} {rest : Bytes} (h : byte ≠ 10) :
    receive false (13 :: byte :: rest) =
      (receive false (byte :: rest)).map fun r => (13 :: r.1, r.2) :=
  receive_cons nofun fun _ => by simpa

theorem receive_start {byte : UInt8} {rest : Bytes} (h : byte ≠ 46) :
    receive true (byte :: rest) = receive false (byte :: rest) := by
  by_cases hcrlf : byte = 13 → rest.head? ≠ some 10
  · rw [receive_cons (fun _ => h) hcrlf, receive_cons (fun h => by cases h) hcrlf]
  · obtain ⟨rfl, hlf⟩ := Classical.not_imp.1 hcrlf
    obtain ⟨rest, rfl⟩ := head?_eq_some_iff.1 (not_not.1 hlf)
    rw [receive_crlf, receive_crlf]

/-- The CR that may be the first half of CRLF. -/
def held (last : Last) : Bytes := if last = .cr then [13] else []

theorem receive_doubled (last : Last) :
    receive (last = .crlf) (held last ++ doubled [.crlf, .cr, .lf] last message ++ endOfData) =
      some (held last ++ doubled [.cr, .lf] last message ++ [13, 10], []) := by
  induction message generalizing last with
  | nil => cases last <;> rfl
  | cons byte rest ih =>
    have h := ih (last.next byte)
    unfold Last.next at h
    unfold doubled Last.next
    by_cases hdot : byte = 46
    · subst hdot
      simp [held] at h
      cases last <;> simp [held, receive, h]
    · by_cases hcr : byte = 13
      · subst hcr
        simp [held] at h
        cases last <;> simp [held, receive_start, receive_cr, h]
      · by_cases hlf : byte = 10
        · subst hlf
          cases last <;> simp [held] at h <;> simp [held, receive_crlf, receive_cons, h]
        · simp [held, hcr, hlf] at h
          cases last <;> simp [held, hdot, hcr, hlf, receive_cr, receive_cons, h]

/-- **The end of the data** stands at the end of what is written only. -/
theorem doubled_endOfData {message pre post : Bytes} {last : Last}
    (h : doubled [.crlf, .cr, .lf] last message ++ endOfData = pre ++ endOfData ++ post) :
    post = [] := by
  induction message generalizing last pre with
  | nil =>
    have hlen := congrArg length h
    simp [doubled] at hlen
    exact length_eq_zero_iff.1 (by omega)
  | cons byte rest ih =>
    unfold doubled at h
    split_ifs at h with hdot
    · cases pre with
      | nil => simp [endOfData] at h
      | cons _ pre =>
        cases pre with
        | nil => simp [endOfData] at h
        | cons _ pre => exact ih (cons_eq_cons.1 (cons_eq_cons.1 h).2).2
    · cases pre with
      | cons _ pre => exact ih (cons_eq_cons.1 h).2
      | nil =>
        simp only [endOfData, nil_append, cons_append, cons.injEq] at h
        obtain ⟨rfl, h⟩ := h
        cases rest with
        | nil => simp [doubled] at h
        | cons lf rest =>
          unfold doubled at h
          split_ifs at h
          · simp at h
          · obtain ⟨rfl, h⟩ := cons_eq_cons.1 h
            cases rest with
            | nil => simp [doubled] at h
            | cons dot rest =>
              -- a dot behind CRLF is followed by another one
              unfold doubled at h
              split_ifs at h with hdot
              · simp at h
              · cases hdot ⟨(cons_eq_cons.1 h).1, by simp [Last.next]⟩

/-- **Transparency.** A message that does not begin with a dot is received with another dot in front
of each dot behind a bare CR or LF, and with a CRLF at its end; and the end of the data is written
at the end only. -/
theorem transparency (message : Bytes) :
    (message.head? ≠ some 46 → receive true (writeMessage message) =
      some (doubled [.cr, .lf] .text message ++ [13, 10], [])) ∧
    ∀ pre post, writeMessage message = pre ++ endOfData ++ post → post = [] := by
  rw [writeMessage_eq]
  refine ⟨fun hdot => ?_, fun pre post => doubled_endOfData⟩
  refine Eq.trans ?_ (receive_doubled message .text)
  cases message with
  | nil => rfl
  | cons byte rest =>
    have hbyte : byte ≠ 46 := fun h => hdot (congrArg some h)
    simp only [doubled, hbyte]
    exact receive_start hbyte

/-- A dot behind a bare LF comes back as two, also where the message ends in a CRLF. -/
theorem bareLf_doubles_dot :
    (¬ ∀ message : Bytes, receive true (writeMessage message) =
      some (if [13, 10] <:+ message then message else message ++ [13, 10], [])) ∧
    ¬ ∀ message : Bytes, [13, 10] <:+ message →
      receive true (writeMessage message) = some (message, []) := by
  refine ⟨fun h => ?_, fun h => ?_⟩
  · exact absurd (h [97, 10, 46, 98]) (by decide)
  · exact absurd (h [97, 10, 46, 98, 13, 10] (by decide)) (by decide)

end MailServer.Delivery.Transparency
