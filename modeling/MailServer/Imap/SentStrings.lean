import MailServer.Imap.Receiver

/-!
# Strings of the server, read back

`quoted_string` and `literal_string`, against `Receiver::parse`: what the server writes is fed to
the receiver as an argument of a command.

Principal result: `sent_readsAs` — a string that fits in the limits of the receiver comes back as
one token with its bytes; one in quotes must have no line feed.
-/

namespace MailServer.Imap.Receive

open SearchCommand (Token Bytes ascii)
open List

/-! ## Writing -/

/-- A byte between quotes. -/
def escape (c : UInt8) : Bytes := if c = 92 ∨ c = 34 then [92, c] else [c]

def quotedString (text : Bytes) : Bytes := 34 :: (text.flatMap escape ++ [34])

def literalString (text : Bytes) : Bytes :=
  123 :: (ascii (toString text.length) ++ (125 :: 13 :: 10 :: text))

/-! ## Reading -/

variable {T : Type} (P : CommandParser T)

def failed : Outcome T → Bool
  | .error _ _ => true
  | _ => false

/-- `Receiver::parse`, called again until the bytes end or one of them is an error. -/
def parseAll (r : Receiver T) (bytes : Bytes) : Receiver T × List (Outcome T) :=
  Packets.scan (feed P) failed r bytes

/-- The bytes are read to their end as one more token, which holds the text; a literal may be asked
for on the way. -/
def ReadsAs (r : Receiver T) (bytes text : Bytes) : Prop :=
  ∃ (token : Token) (size : ℕ) (asked : List (Outcome T)), token.bytes = text ∧
    (∀ o ∈ asked, ∃ n, o = .needsLiteral n) ∧
    parseAll P r bytes =
      ({ r.pushed token with state := .argument 32, currentRequestSize := size }, asked)

variable {P} {r r' : Receiver T} {ch : UInt8} {buf text rest : Bytes} {n : ℕ}

theorem parseAll_taken (h : feedState P r ch = taken r') :
    parseAll P r (ch :: rest) = parseAll P r' rest :=
  Packets.scan_cons_none (by unfold feed; rw [h]; rfl)

theorem parseAll_asked (h : feedState P r ch = .ok (r', some (.needsLiteral n))) :
    parseAll P r (ch :: rest) =
      ((parseAll P r' rest).1, .needsLiteral n :: (parseAll P r' rest).2) :=
  Packets.scan_cons_some (by unfold feed; rw [h]) rfl

/-- **A run of bytes is pushed** one after another, up to the limit of its state. -/
theorem parseAll_pushed {state : State} {limit : ℕ} {piece} (rest : Bytes)
    (hpiece : ∀ c ∈ text, ∀ buf rest, buf.length < limit →
      parseAll P { r with state, buf } (piece c ++ rest) =
        parseAll P { r with state, buf := buf ++ [c] } rest)
    (hfits : (buf ++ text).length ≤ limit) :
    parseAll P { r with state, buf } (text.flatMap piece ++ rest) =
      parseAll P { r with state, buf := buf ++ text } rest := by
  induction text generalizing buf with
  | nil =>
    rw [append_nil]
    rfl
  | cons c text ih =>
    rw [append_cons] at hfits ⊢
    rw [flatMap_cons, append_assoc, hpiece c (.head _),
      ih (fun c' hc' => hpiece c' (.tail _ hc')) hfits]
    rw [length_append, length_append, length_singleton] at hfits
    omega

/-- **One byte between quotes.** -/
theorem parseAll_escape (hline : ch ≠ 10) (hroom : buf.length < ARG_MAX_LEN) :
    parseAll P { r with state := .argumentQuoted false, buf } (escape ch ++ rest) =
      parseAll P { r with state := .argumentQuoted false, buf := buf ++ [ch] } rest := by
  unfold escape
  split_ifs with hescape
  · have hslash : feedState P { r with state := .argumentQuoted false, buf } 92 =
        taken { r with state := .argumentQuoted true, buf } := rfl
    refine (parseAll_taken hslash).trans (parseAll_taken ?_)
    rcases hescape with rfl | rfl <;>
      simp [feedState, feedQuoted, Receiver.pushChecked, hroom, bind, Except.bind]
  · obtain ⟨hslash, hquote⟩ := not_or.1 hescape
    refine parseAll_taken ?_
    simp [feedState, feedQuoted, Receiver.pushChecked, hroom, hslash, hquote, hline, taken, bind,
      Except.bind]

/-- The receiver stands at the beginning of an argument. -/
structure AtArgument (r : Receiver T) : Prop where
  state : ∃ lastCh, r.state = .argument lastCh ∧ isAsciiWhitespace lastCh
  buf : r.buf = []

theorem AtArgument.feedState_eq (h : AtArgument r) :
    feedState P r 34 = taken { r with state := .argumentQuoted false, buf := [] } ∧
      feedState P r 123 = taken { r with state := .literal false, buf := [] } := by
  obtain ⟨⟨lastCh, hstate, hspace⟩, hbuf⟩ := h
  have htilde : lastCh ≠ 126 := by
    rintro rfl
    cases hspace
  constructor <;>
    simp [feedState, feedArgument, Receiver.pushArgument, hstate, hspace, hbuf, htilde, bind,
      Except.bind]

/-- **What `quoted_string` writes**, fed to the receiver. -/
theorem readsAs_quotedString (h : AtArgument r) (hline : 10 ∉ text)
    (hlong : text.length ≤ ARG_MAX_LEN)
    (hfits : text ≠ [] → r.currentRequestSize + text.length ≤ r.maxRequestSize) :
    ReadsAs P r (quotedString text) text := by
  have hread : parseAll P r (quotedString text) =
      parseAll P { r with state := .argumentQuoted false, buf := text } [34] :=
    (parseAll_taken h.feedState_eq.1).trans
      (parseAll_pushed _ (fun c hc _ _ => parseAll_escape fun heq => hline (heq ▸ hc)) hlong)
  obtain ⟨buf, request, state, maxRequestSize, size, startState⟩ := r
  obtain rfl : buf = [] := h.buf
  by_cases hnil : text = []
  · subst hnil
    exact ⟨.null, _, [], rfl, nofun, hread⟩
  · refine ⟨.argument text, size + text.length, [], rfl, nofun,
      hread.trans (parseAll_taken ?_)⟩
    simp [feedState, feedQuoted, Receiver.pushArgument, hnil, (hfits hnil).not_gt, bind,
      Except.bind, Receiver.pushed]

/-! ## Literals -/

theorem toString_digits (n : ℕ) : (toString n).toList = Nat.toDigits 10 n := by
  rw [Nat.toString_eq_ofList_toDigits, String.toList_ofList]

theorem digit_of_mem {c : Char} (h : c ∈ (toString n).toList) :
    48 ≤ c.toNat ∧ c.toNat.toUInt8.toNat = c.toNat ∧ c.toNat ≤ 57 := by
  rw [toString_digits] at h
  have hdigit := Nat.isDigit_of_mem_toDigits (by decide) (by decide) h
  rw [Char.isDigit, Bool.and_eq_true, decide_eq_true_iff, decide_eq_true_iff] at hdigit
  have hhigh : c.toNat ≤ 57 := hdigit.2
  exact ⟨hdigit.1, Nat.mod_eq_of_lt (by omega), hhigh⟩

theorem decimal_ascii (n : ℕ) : decimal (ascii (toString n)) = n := by
  have hdigits := Nat.ofDigitChars_ten_toDigits (n := n)
  rw [← toString_digits] at hdigits
  unfold decimal ascii
  rw [foldl_map]
  refine (foldl_ext _ _ _ fun sofar c hc => ?_).trans hdigits
  rw [(digit_of_mem hc).2.1]
  rfl

theorem parseAll_digit (h : ch ∈ ascii (toString n)) (hroom : buf.length < 15) :
    parseAll P { r with state := .literal false, buf } ([ch] ++ rest) =
      parseAll P { r with state := .literal false, buf := buf ++ [ch] } rest := by
  obtain ⟨c, hc, rfl⟩ := mem_map.1 h
  obtain ⟨hlow, heq, hhigh⟩ := digit_of_mem hc
  have hdigit : isAsciiDigit c.toNat.toUInt8 :=
    decide_eq_true ⟨UInt8.le_iff_toNat_le.2 (hlow.trans heq.ge),
      UInt8.le_iff_toNat_le.2 (heq.le.trans hhigh)⟩
  generalize c.toNat.toUInt8 = ch at hdigit
  have hclose : ch ≠ 125 := by
    rintro rfl
    cases hdigit
  have hplus : ch ≠ 43 := by
    rintro rfl
    cases hdigit
  exact parseAll_taken (by simp [feedState, feedLiteral, Receiver.pushChecked, hdigit, hclose,
    hplus, hroom, bind, Except.bind])

/-- **The bytes of a literal** make one argument. -/
theorem parseAll_literalData (buf : Bytes) (hnil : text ≠ [])
    (hfits : r.currentRequestSize + (buf ++ text).length ≤ r.maxRequestSize) :
    parseAll P { r with state := .literalData text.length, buf } text =
      ({ r.pushed (.argument (buf ++ text)) with
        state := .argument 32, buf := [],
        currentRequestSize := r.currentRequestSize + (buf ++ text).length }, []) := by
  induction text generalizing buf with
  | nil => cases hnil rfl
  | cons c text ih =>
    cases text with
    | nil =>
      rw [length_append, length_singleton] at hfits ⊢
      exact parseAll_taken (by simp [feedState, feedLiteralData, Receiver.pushArgument,
        hfits.not_gt, bind, Except.bind, Receiver.pushed])
    | cons c' text =>
      rw [append_cons] at hfits ⊢
      refine (parseAll_taken ?_).trans (ih _ (cons_ne_nil _ _) hfits)
      simp [feedState, feedLiteralData]

/-- **What `literal_string` writes**, fed to the receiver. -/
theorem readsAs_literalString (h : AtArgument r) (hwide : text.length < 2 ^ 32)
    (hfits : r.currentRequestSize + max 1 text.length ≤ r.maxRequestSize) :
    ReadsAs P r (literalString text) text := by
  have hwritten : ascii (toString text.length) ≠ [] := by
    rw [ascii, Ne, map_eq_nil_iff, toString_digits]
    exact Nat.toDigits_ne_nil
  have hlength : ([] ++ ascii (toString text.length)).length ≤ 15 := by
    rw [nil_append, ascii, length_map, toString_digits]
    exact (Nat.length_toDigits_le_iff (by decide) (by decide)).2 (by omega)
  have hdigits := parseAll_pushed (P := P) (r := r) (125 :: 13 :: 10 :: text)
    (fun _ hc _ _ => parseAll_digit hc) hlength
  rw [flatMap_singleton'] at hdigits
  obtain ⟨buf, request, state, maxRequestSize, size, startState⟩ := r
  obtain rfl : buf = [] := h.buf
  dsimp only at hfits
  have hread : parseAll P ⟨[], request, state, maxRequestSize, size, startState⟩
      (literalString text) = parseAll P
        ⟨[], request, .literalSeek text.length false, maxRequestSize, size, startState⟩
        (10 :: text) := by
    have hroom : ¬maxRequestSize < size + text.length := by omega
    have hclosed : feedState P ⟨ascii (toString text.length), request, .literal false,
        maxRequestSize, size, startState⟩ 125 =
        taken ⟨[], request, .literalSeek text.length false, maxRequestSize, size, startState⟩ := by
      simp only [feedState, feedLiteral, decimal_ascii, if_neg hwritten, if_neg hwide.not_ge,
        if_neg hroom, if_true]
    exact (parseAll_taken h.feedState_eq.2).trans
      (hdigits.trans ((parseAll_taken hclosed).trans (parseAll_taken rfl)))
  by_cases hnil : text = []
  · subst hnil
    refine ⟨.null, size + 1, [.needsLiteral 0], rfl, fun o ho => ⟨0, mem_singleton.1 ho⟩,
      hread.trans (parseAll_asked ?_)⟩
    have hroom : ¬maxRequestSize < size + 1 := hfits.not_gt
    simp [feedState, feedLiteralSeek, Receiver.pushToken, hroom, bind, Except.bind,
      Receiver.pushed]
  · have hasked : feedState P ⟨[], request, .literalSeek text.length false, maxRequestSize, size,
        startState⟩ 10 = .ok (⟨[], request, .literalData text.length, maxRequestSize, size,
        startState⟩, some (.needsLiteral text.length)) := by
      simp [feedState, feedLiteralSeek, length_pos_iff.2 hnil, bind, Except.bind]
    have hdata := parseAll_literalData (P := P)
      (r := ⟨[], request, state, maxRequestSize, size, startState⟩) [] hnil
      (show size + text.length ≤ maxRequestSize by omega)
    refine ⟨.argument text, size + text.length, [.needsLiteral text.length], rfl,
      fun o ho => ⟨_, mem_singleton.1 ho⟩, hread.trans ((parseAll_asked hasked).trans ?_)⟩
    rw [hdata]
    rfl

/-- **Strings of the server come back.**  What `quoted_string` writes, of a string without line
feeds, and what `literal_string` writes are read as one token with the bytes of the string where
they fit in the limits of the receiver. -/
theorem sent_readsAs (h : AtArgument r) (text : Bytes) :
    (10 ∉ text → text.length ≤ ARG_MAX_LEN →
      (text ≠ [] → r.currentRequestSize + text.length ≤ r.maxRequestSize) →
      ReadsAs P r (quotedString text) text) ∧
    (text.length < 2 ^ 32 → r.currentRequestSize + max 1 text.length ≤ r.maxRequestSize →
      ReadsAs P r (literalString text) text) :=
  ⟨readsAs_quotedString h, readsAs_literalString h⟩

theorem sent_readsAs_lineBreak :
    ReadsAs commandParser { Receiver.new commandParser 100 with state := .argument 32 }
        (quotedString [97, 34, 13, 92]) [97, 34, 13, 92] ∧
      ReadsAs commandParser { Receiver.new commandParser 100 with state := .argument 32 }
        (literalString [97, 34, 13, 10]) [97, 34, 13, 10] := by
  refine ⟨(sent_readsAs ⟨⟨32, rfl, rfl⟩, rfl⟩ _).1 ?_ ?_ fun _ => ?_,
    (sent_readsAs ⟨⟨32, rfl, rfl⟩, rfl⟩ _).2 ?_ ?_⟩ <;> decide

theorem not_readsAs_of_error {bytes : Bytes} (h : (parseAll P r bytes).2.any failed) :
    ¬ReadsAs P r bytes text := by
  rintro ⟨token, size, asked, -, hasked, hread⟩
  rw [hread] at h
  obtain ⟨o, ho, herror⟩ := any_eq_true.1 h
  obtain ⟨n, rfl⟩ := hasked o ho
  cases herror

theorem not_readsAs_long (h : AtArgument r) :
    ¬ReadsAs P r (quotedString (replicate (ARG_MAX_LEN + 1) 97))
      (replicate (ARG_MAX_LEN + 1) 97) := by
  apply not_readsAs_of_error
  have hwritten : quotedString (replicate (ARG_MAX_LEN + 1) 97) =
      34 :: ((replicate ARG_MAX_LEN 97).flatMap escape ++ [97, 34]) := by
    rw [quotedString, replicate_succ', flatMap_append, append_assoc]
    rfl
  have hread : parseAll P r (quotedString (replicate (ARG_MAX_LEN + 1) 97)) =
      parseAll P { r with state := .argumentQuoted false, buf := replicate ARG_MAX_LEN 97 }
        [97, 34] := by
    rw [hwritten]
    have hplain : ∀ c ∈ replicate ARG_MAX_LEN (97 : UInt8), c ≠ 10 := fun c hc => by
      rw [eq_of_mem_replicate hc]
      decide
    exact (parseAll_taken h.feedState_eq.1).trans
      (parseAll_pushed _ (fun c hc _ _ => parseAll_escape (hplain c hc)) (by simp))
  rw [hread, parseAll, Packets.scan]
  simp [feed, feedState, feedQuoted, Receiver.pushChecked, bind, Except.bind, failed]

/-- A line feed ends the argument in quotes, and a string may be longer than an argument. -/
theorem lineFeed_and_large_not_readsAs :
    ¬ReadsAs commandParser { Receiver.new commandParser 10000 with state := .argument 32 }
        (quotedString [97, 10]) [97, 10] ∧
      ¬ReadsAs commandParser { Receiver.new commandParser 10000 with state := .argument 32 }
        (quotedString (replicate (ARG_MAX_LEN + 1) 97)) (replicate (ARG_MAX_LEN + 1) 97) :=
  ⟨not_readsAs_of_error rfl, not_readsAs_long ⟨⟨32, rfl, rfl⟩, rfl⟩⟩

end MailServer.Imap.Receive
