import MailServer.Imap.SearchMeaning
import MailServer.Lib.Fallible

/-!
# Which searches are understood

Which token lists the parser accepts, which of them are search programs, and what the programs mean.

Principal results: `search_meaning_iff`; `parseCriteria_iff` — what is accepted;
`derivable_iff_wellNested` — what is a program.
-/

namespace MailServer.Imap.SearchCommand

open Bracketed List

variable {α β : Type} {Flag : Type}

/-! ## The grammar of leaf keys -/

def Token.isParenthesis : Token → Bool
  | .parenthesisOpen | .parenthesisClose => true
  | _ => false

/-- The keys that stand alone. -/
def Keyword.alone : Keyword → Option (Criterion Flag)
  | .all => some .all
  | .answered => some .answered
  | .deleted => some .deleted
  | .draft => some .draft
  | .flagged => some .flagged
  | .seen => some .seen
  | .unanswered => some .unanswered
  | .undeleted => some .undeleted
  | .undraft => some .undraft
  | .unflagged => some .unflagged
  | .unseen => some .unseen
  | .old => some .old
  | .new => some .new
  | .recent => some .recent
  | _ => none

/-- The keys with one argument, and what it makes of them. -/
def Keyword.withOne (d : Readers Flag) : Keyword → Option (Bytes → Except String (Criterion Flag))
  | .bcc => some fun value => (d.decodeArgument value).map .bcc
  | .before => some fun value => (d.parseDate value).map .before
  | .body => some fun value => (d.decodeArgument value).map .body
  | .cc => some fun value => (d.decodeArgument value).map .cc
  | .sender => some fun value => (d.decodeArgument value).map .sender
  | .keyword => some fun value => (d.parseFlag value).map .keyword
  | .larger => some fun value => (d.parseNumber32 value).map .larger
  | .on => some fun value => (d.parseDate value).map .on
  | .sentBefore => some fun value => (d.parseDate value).map .sentBefore
  | .sentOn => some fun value => (d.parseDate value).map .sentOn
  | .sentSince => some fun value => (d.parseDate value).map .sentSince
  | .since => some fun value => (d.parseDate value).map .since
  | .smaller => some fun value => (d.parseNumber32 value).map .smaller
  | .subject => some fun value => (d.decodeArgument value).map .subject
  | .text => some fun value => (d.decodeArgument value).map .text
  | .to => some fun value => (d.decodeArgument value).map .to
  | .uid => some fun value => (d.parseSequenceSet value).map (.sequence · true)
  | .unkeyword => some fun value => (d.parseFlag value).map .unkeyword
  | .older => some fun value => (d.parseNumber32 value).map .older
  | .younger => some fun value => (d.parseNumber32 value).map .younger
  | .emailId => some fun value => (d.unwrapString value).map .emailId
  | .threadId => some fun value => (d.unwrapString value).map .threadId
  | _ => none

def isDigits (value : Bytes) : Bool := !value.isEmpty && value.all fun ch => 48 ≤ ch && ch ≤ 57

/-- `all`, `shared` or `priv`, the `entry-type-req` of `MODSEQ`. -/
def entryType (value : Bytes) : Option (Flag → ModSeqEntry Flag) :=
  if eqIgnoreAsciiCase value (ascii "all") then some .all
  else if eqIgnoreAsciiCase value (ascii "shared") then some .shared
  else if eqIgnoreAsciiCase value (ascii "priv") then some .priv
  else none

/-- **The leaf keys**: a word, its arguments and the criterion. -/
inductive Leaf (d : Readers Flag) : Bytes → List Token → Criterion Flag → Prop where
  | alone {word k c} (hword : keyword word = some k) (hc : k.alone = some c) : Leaf d word [] c
  | withOne {word k t read c} (hword : keyword word = some k) (hk : k.withOne d = some read)
    (hc : read t.bytes = .ok c) : Leaf d word [t] c
  | header {word t t' name value} (hword : keyword word = some .header)
    (hname : d.decodeArgument t.bytes = .ok name)
    (hvalue : d.decodeArgument t'.bytes = .ok value) : Leaf d word [t, t'] (.header name value)
  | modSeq {word t n} (hword : keyword word = some .modSeq) (hdigits : isDigits t.bytes)
    (hn : d.parseNumber64 t.bytes = .ok n) : Leaf d word [t] (.modSeq n .none)
  | modSeqEntry {word t t' name flag kind entry n} (hword : keyword word = some .modSeq)
    (hentry : t.bytes = ascii "/flags/" ++ name) (hname : name ≠ [])
    (hflag : d.parseFlag name = .ok flag) (hkind : entryType kind = some entry)
    (hn : d.parseNumber64 t'.bytes = .ok n) :
    Leaf d word [t, .argument kind, t'] (.modSeq n (entry flag))
  | sequence {word sequence} (hword : keyword word = none)
    (hsequence : d.parseSequenceSet word = .ok sequence) : Leaf d word [] (.sequence sequence false)

/-- How many arguments a word takes; with `MODSEQ` the first one decides. -/
def argumentCount (d : Readers Flag) (word : Bytes) (rest : List Token) : ℕ :=
  match keyword word with
  | some .header => 2
  | some .modSeq =>
    match rest with
    | t :: _ => if isDigits t.bytes then 1 else 3
    | [] => 1
  | some k => if (k.withOne d).isSome then 1 else 0
  | none => 0

variable {d : Readers Flag} {word : Bytes} {ts rest rest' : List Token} {c : Criterion Flag}

theorem withArgument_eq_ok {γ δ : Type} {missing : String} {read : Bytes → Except String γ}
    {make : γ → δ} {made : δ} :
    withArgument missing read make rest = .ok (made, rest') ↔
      ∃ t, rest = t :: rest' ∧ (read t.bytes).map make = .ok made := by
  unfold withArgument
  rw [Lib.bind_eq_ok_iff]
  cases rest with
  | nil => exact ⟨(fun ⟨_, h, _⟩ => nomatch h), (fun ⟨_, h, _⟩ => nomatch h)⟩
  | cons t ts =>
    simp only [nextArgument, Except.ok.injEq, exists_eq_left', Lib.bind_pure_eq_ok_iff,
      Lib.map_eq_ok_iff, Prod.mk.injEq, cons.injEq]
    aesop

/-- A key with one argument is parsed as the table has it. -/
theorem parseCriterion_withOne {k : Keyword} {read} (hword : keyword word = some k)
    (hk : k.withOne d = some read) :
    parseCriterion d word rest = .ok (c, rest') ↔
      ∃ t, rest = t :: rest' ∧ read t.bytes = .ok c := by
  unfold parseCriterion
  rw [hword]
  cases k <;> cases hk <;> exact withArgument_eq_ok

theorem parseCriterion_alone {k : Keyword} (hword : keyword word = some k) (hc : k.alone = some c) :
    parseCriterion d word rest = .ok (c, rest) := by
  unfold parseCriterion
  rw [hword]
  cases k <;> cases hc <;> rfl

/-- `HEADER` has two arguments. -/
theorem parseCriterion_header (hword : keyword word = some .header) :
    parseCriterion d word rest = .ok (c, rest') ↔
      ∃ t t' name value, rest = t :: t' :: rest' ∧ d.decodeArgument t.bytes = .ok name ∧
        d.decodeArgument t'.bytes = .ok value ∧ c = .header name value := by
  have hparse : parseCriterion d word rest =
      withArgument "Expected string." d.decodeArgument id rest >>= fun named =>
        withArgument "Expected string." d.decodeArgument (Criterion.header named.1) named.2 := by
    unfold parseCriterion
    rw [hword]
  rw [hparse, Lib.bind_eq_ok_iff]
  constructor
  · rintro ⟨⟨name, ts⟩, hname, hvalue⟩
    obtain ⟨t, rfl, hname⟩ := withArgument_eq_ok.1 hname
    obtain ⟨t', rfl, hvalue⟩ := withArgument_eq_ok.1 hvalue
    obtain ⟨_, hdecode, hid⟩ := Lib.map_eq_ok_iff.1 hname
    obtain ⟨value, hdecode', rfl⟩ := Lib.map_eq_ok_iff.1 hvalue
    cases hid
    exact ⟨t, t', _, value, rfl, hdecode, hdecode', rfl⟩
  · rintro ⟨t, t', name, value, rfl, hname, hvalue, rfl⟩
    refine ⟨(name, t' :: rest'), withArgument_eq_ok.2 ⟨t, rfl, ?_⟩,
      withArgument_eq_ok.2 ⟨t', rfl, ?_⟩⟩
    · rw [hname]
      rfl
    · rw [hvalue]
      rfl

/-! `MODSEQ` has one argument, the number, or an entry name, a type and the number. -/

theorem isDigits_eq (value : Bytes) :
    (value.isEmpty || value.any fun ch => !(48 ≤ ch && ch ≤ 57)) = !isDigits value := by
  unfold isDigits
  rw [Bool.not_and, Bool.not_not, not_all_eq_any_not]

theorem entry_refused_iff (param : Bytes) :
    (param.length ≤ 7 || !(ascii "/flags/").isPrefixOf param) = false ↔
      param = ascii "/flags/" ++ param.drop 7 ∧ param.drop 7 ≠ [] := by
  have hlen : (ascii "/flags/").length = 7 := by decide
  rw [Bool.or_eq_false_iff, Bool.not_eq_false', isPrefixOf_iff_prefix, prefix_iff_eq_append, hlen,
    decide_eq_false_iff_not, ne_eq, drop_eq_nil_iff, and_comm, eq_comm]

theorem parseModSeq_digits {t : Token} (ht : isDigits t.bytes) :
    parseModSeq d (t :: ts) = .ok (c, rest) ↔
      ts = rest ∧ ∃ n, d.parseNumber64 t.bytes = .ok n ∧ c = .modSeq n .none := by
  unfold parseModSeq nextArgument
  dsimp only [bind, Except.bind]
  rw [isDigits_eq, ht, Bool.not_true, if_neg (by decide)]
  cases d.parseNumber64 t.bytes with
  | error e => exact ⟨nofun, fun ⟨_, _, h, _⟩ => nomatch h⟩
  | ok n =>
    constructor
    · intro h
      cases h
      exact ⟨rfl, n, rfl, rfl⟩
    · rintro ⟨rfl, _, hn, rfl⟩
      cases hn
      rfl

theorem parseModSeq_entry {t : Token} (ht : ¬ isDigits t.bytes) :
    parseModSeq d (t :: ts) = .ok (c, rest) ↔
      (t.bytes = ascii "/flags/" ++ t.bytes.drop 7 ∧ t.bytes.drop 7 ≠ []) ∧
        ∃ flag, d.parseFlag (t.bytes.drop 7) = .ok flag ∧
          ∃ kind t' entry n, ts = .argument kind :: t' :: rest ∧ entryType kind = some entry ∧
            d.parseNumber64 t'.bytes = .ok n ∧ c = .modSeq n (entry flag) := by
  unfold parseModSeq nextArgument
  dsimp only [bind, Except.bind]
  rw [isDigits_eq, Bool.eq_false_iff.2 ht, Bool.not_false, if_pos rfl, ← entry_refused_iff]
  cases t.bytes.length ≤ 7 || !(ascii "/flags/").isPrefixOf t.bytes with
  | true => exact ⟨nofun, fun ⟨h, _⟩ => nomatch h⟩
  | false =>
    rw [if_neg (by decide), and_iff_right rfl]
    cases d.parseFlag (t.bytes.drop 7) with
    | error e => exact ⟨nofun, fun ⟨_, h, _⟩ => nomatch h⟩
    | ok flag =>
      simp only [Except.ok.injEq, exists_eq_left']
      cases ts with
      | nil => exact ⟨nofun, fun ⟨_, _, _, _, h, _⟩ => nomatch h⟩
      | cons token ts =>
        cases token with
        | argument kind =>
          have hvalue : ∀ entry : Flag → ModSeqEntry Flag,
              withArgument "Missing MODSEQ mod-sequence-valzer parameter." d.parseNumber64
                  (fun value => Criterion.modSeq value (entry flag)) ts = .ok (c, rest) ↔
                ∃ t' n, ts = t' :: rest ∧ d.parseNumber64 t'.bytes = .ok n ∧
                  c = .modSeq n (entry flag) := by
            intro entry
            rw [withArgument_eq_ok]
            simp only [Lib.map_eq_ok_iff, exists_and_left]
          dsimp only [pure, Except.pure]
          unfold entryType
          split_ifs <;> simp [*]
        | _ => exact ⟨nofun, fun ⟨_, _, _, _, h, _⟩ => nomatch h⟩

theorem nextItem_key :
    nextItem d (.argument word) ts = .ok (.key c, rest) ↔
      keyword word ≠ some .or ∧ keyword word ≠ some .not ∧
        parseCriterion d word ts = .ok (c, rest) := by
  unfold nextItem
  dsimp only
  split
  · rename_i hor
    exact ⟨nofun, fun h => absurd hor h.1⟩
  · rename_i hnot
    exact ⟨nofun, fun h => absurd hnot h.2.1⟩
  · rename_i hor hnot
    rw [Lib.map_eq_ok_iff]
    constructor
    · rintro ⟨⟨c, rest⟩, hparse, h⟩
      cases h
      exact ⟨hor, hnot, hparse⟩
    · rintro ⟨-, -, hparse⟩
      exact ⟨_, hparse, rfl⟩

theorem parseCriterion_modSeq (hword : keyword word = some .modSeq) :
    parseCriterion d word ts = parseModSeq d ts := by
  unfold parseCriterion
  rw [hword]

theorem parseCriterion_sequence (hword : keyword word = none) :
    parseCriterion d word ts =
      (d.parseSequenceSet word).map fun sequence => (.sequence sequence false, ts) := by
  unfold parseCriterion
  rw [hword]

/-- Every word of the parser is in one of the tables, or is `HEADER`, `MODSEQ`, `OR` or `NOT`. -/
theorem keyword_cases (d : Readers Flag) (k : Keyword) :
    (∃ c : Criterion Flag, k.alone = some c) ∨ (∃ read, k.withOne d = some read) ∨ k = .header ∨
      k = .modSeq ∨ k = .or ∨ k = .not := by
  cases k <;> simp [Keyword.alone, Keyword.withOne]

theorem not_isDigits_entry {value name : Bytes} (h : value = ascii "/flags/" ++ name) :
    ¬ isDigits value := by
  rw [h]
  exact Bool.false_ne_true

/-- **A leaf key is parsed** into its criterion, and nothing else is. -/
theorem nextItem_key_iff :
    nextItem d (.argument word) ts = .ok (.key c, rest) ↔
      ∃ args, ts = args ++ rest ∧ Leaf d word args c := by
  rw [nextItem_key]
  constructor
  · rintro ⟨hor, hnot, hparse⟩
    cases hword : keyword word with
    | none =>
      rw [parseCriterion_sequence hword] at hparse
      obtain ⟨sequence, hsequence, hc⟩ := Lib.map_eq_ok_iff.1 hparse
      cases hc
      exact ⟨[], rfl, .sequence hword hsequence⟩
    | some k =>
      obtain ⟨c', hc⟩ | ⟨read, hk⟩ | rfl | rfl | rfl | rfl := keyword_cases d k
      · rw [parseCriterion_alone hword hc] at hparse
        cases hparse
        exact ⟨[], rfl, .alone hword hc⟩
      · obtain ⟨t, rfl, hc⟩ := (parseCriterion_withOne hword hk).1 hparse
        exact ⟨[t], rfl, .withOne hword hk hc⟩
      · obtain ⟨t, t', name, value, rfl, hname, hvalue, rfl⟩ :=
          (parseCriterion_header hword).1 hparse
        exact ⟨[t, t'], rfl, .header hword hname hvalue⟩
      · rw [parseCriterion_modSeq hword] at hparse
        cases ts with
        | nil => cases hparse
        | cons t ts =>
          by_cases hdigits : isDigits t.bytes
          · obtain ⟨rfl, n, hn, rfl⟩ := (parseModSeq_digits hdigits).1 hparse
            exact ⟨[t], rfl, .modSeq hword hdigits hn⟩
          · obtain ⟨⟨hentry, hname⟩, flag, hflag, kind, t', entry, n, rfl, hkind, hn, rfl⟩ :=
              (parseModSeq_entry hdigits).1 hparse
            exact ⟨[t, .argument kind, t'], rfl,
              .modSeqEntry hword hentry hname hflag hkind hn⟩
      · exact absurd hword hor
      · exact absurd hword hnot
  · rintro ⟨args, rfl, h⟩
    cases h with
    | alone hword hc =>
      refine ⟨?_, ?_, parseCriterion_alone hword hc⟩ <;>
      · rw [hword]
        rintro ⟨⟩
        cases hc
    | withOne hword hk hc =>
      refine ⟨?_, ?_, (parseCriterion_withOne hword hk).2 ⟨_, rfl, hc⟩⟩ <;>
      · rw [hword]
        rintro ⟨⟩
        cases hk
    | header hword hname hvalue =>
      exact ⟨by rw [hword]; decide, by rw [hword]; decide,
        (parseCriterion_header hword).2 ⟨_, _, _, _, rfl, hname, hvalue, rfl⟩⟩
    | modSeq hword hdigits hn =>
      refine ⟨by rw [hword]; decide, by rw [hword]; decide, ?_⟩
      rw [parseCriterion_modSeq hword]
      exact (parseModSeq_digits hdigits).2 ⟨rfl, _, hn, rfl⟩
    | @modSeqEntry t t' name flag kind entry n hword hentry hname hflag hkind hn =>
      have hdrop : t.bytes.drop 7 = name := by
        rw [hentry]
        rfl
      refine ⟨by rw [hword]; decide, by rw [hword]; decide, ?_⟩
      rw [parseCriterion_modSeq hword]
      refine (parseModSeq_entry (not_isDigits_entry hentry)).2 ?_
      rw [hdrop]
      exact ⟨⟨hentry, hname⟩, flag, hflag, kind, t', entry, n, rfl, hkind, hn, rfl⟩
    | sequence hword hsequence =>
      refine ⟨by rw [hword]; decide, by rw [hword]; decide, ?_⟩
      rw [parseCriterion_sequence hword, hsequence]
      rfl

theorem Leaf.length_eq {args : List Token} (h : Leaf d word args c) (rest : List Token) :
    args.length = argumentCount d word (args ++ rest) := by
  unfold argumentCount
  cases h with
  | @alone k c hword hc =>
    rw [hword]
    cases k <;> cases hc <;> rfl
  | @withOne k t read c hword hk hc =>
    rw [hword]
    cases k <;> cases hk <;> rfl
  | header hword | sequence hword =>
    rw [hword]
    rfl
  | modSeq hword hdigits hn =>
    rw [hword]
    exact (if_pos hdigits).symm
  | modSeqEntry hword hentry =>
    rw [hword]
    exact (if_neg (not_isDigits_entry hentry)).symm

variable {tokens : List Token}

/-! ## What is open -/

/-- What is open at some token: a list in parentheses or the whole command, with filters or none
yet; an `OR` with the operands it has; a `NOT`. -/
inductive Open where
  | group (full : Bool)
  | or (operands : ℕ)
  | not

variable {r : Open × List Open}

/-- Whether it has any filters. -/
def Open.full : Open → Bool
  | .group full => full
  | .or operands => operands ≠ 0
  | .not => false

/-- An operand ends: it ends a `NOT` too, and as the second one an `OR`. -/
def endOperand : Open → List Open → Open × List Open
  | .group _, outer => (.group true, outer)
  | .or n, outer =>
    if n + 1 < 2 then (.or (n + 1), outer)
    else match outer with
      | [] => (.or (n + 1), [])
      | o :: outer => endOperand o outer
  | .not, [] => (.not, [])
  | .not, o :: outer => endOperand o outer

/-- `)` ends the innermost thing that is open, whatever it is. -/
def endInnermost : Open → List Open → Option (Open × List Open)
  | _, [] => none
  | .group full, .group full' :: outer => some (.group (full' || full), outer)
  | _, o :: outer => some (endOperand o outer)

def readItem (r : Open × List Open) : Item α → Option (Open × List Open)
  | .key _ => some (endOperand r.1 r.2)
  | .or => if r.2.length > 10 then none else some (.or 0, r.1 :: r.2)
  | .not => if r.2.length > 10 then none else some (.not, r.1 :: r.2)
  | .parenthesisOpen => if r.2.length > 10 then none else some (.group false, r.1 :: r.2)
  | .parenthesisClose => endInnermost r.1 r.2

def readItems (items : List (Item α)) (r : Open × List Open) : Option (Open × List Open) :=
  items.foldlM readItem r

def lexItems (d : Readers Flag) : ℕ → List Token → Except String (List (Item (Criterion Flag)))
  | _, [] => .ok []
  | 0, _ :: _ => .error "Out of fuel"
  | fuel + 1, token :: rest => do
    let (item, rest) ← nextItem d token rest
    let items ← lexItems d fuel rest
    return item :: items

/-- **Every token is understood**, the nesting stays within the limit, and every list that is closed
or left open has filters. -/
def Readable (d : Readers Flag) (tokens : List Token) : Prop :=
  ∃ items r, lexItems d tokens.length tokens = .ok items ∧
    readItems items (.group false, []) = some r ∧ r.1.full

/-! ## The parser's levels -/

/-- What a level of the parser is, as far as it decides what is accepted. -/
def Shows (level : Level α) : Open → Prop
  | .group full => level.operator = .and ∧ (full ↔ level.filters ≠ []) ∧
      (level.filters = [] → level.filtersLen = 0)
  | .or n => level.operator = .or ∧ level.filtersLen = n ∧ n < 2 ∧ (level.filters ≠ [] ↔ n ≠ 0)
  | .not => level.operator = .not ∧ level.filtersLen = 0 ∧ level.filters = []

/-- At the bottom is the command. -/
def Grounded : Open → List Open → Prop
  | .group _, [] => True
  | .or _, [] => False
  | .not, [] => False
  | _, o :: outer => Grounded o outer

structure ShowsAll (s : State α) (r : Open × List Open) : Prop where
  level : Shows s.level r.1
  stack : List.Forall₂ Shows s.stack r.2
  grounded : Grounded r.1 r.2

/-- The level is what was open, with one operand more. -/
def Took (level : Level α) : Open → Prop
  | .group _ => level.operator = .and ∧ level.filters ≠ []
  | .or n => level.operator = .or ∧ level.filtersLen = n + 1 ∧ n < 2 ∧ level.filters ≠ []
  | .not => level.operator = .not

theorem took_closeInto {level prev : Level α} {o : Open}
    (hlevel : level.operator ≠ .and) (hprev : Shows prev o) :
    Took (closeInto level prev) o := by
  have hgroup := closeInto_group level.filters level.operator level.filtersLen prev
    (fun h => hlevel h.1)
  rw [hgroup]
  cases o with
  | group full => exact ⟨hprev.1, by simp⟩
  | or n => exact ⟨hprev.1, congrArg (· + 1) hprev.2.1, hprev.2.2.1, by simp⟩
  | not => exact hprev.1

/-- **An operand ends** in the parser as it does in what is open. -/
theorem settle_took {level : Level α} {o : Open} {stack} {outer : List Open}
    (htook : Took level o) (hstack : List.Forall₂ Shows stack outer) (hground : Grounded o outer) :
    ShowsAll (settle level stack) (endOperand o outer) := by
  induction hstack generalizing level o with
  | nil =>
    cases o with
    | group full =>
      unfold settle
      rw [if_pos (.inl htook.1)]
      exact ⟨⟨htook.1, ⟨fun _ => htook.2, fun _ => rfl⟩, fun h => absurd h htook.2⟩, .nil, trivial⟩
    | or | not => cases id hground
  | @cons prev o' stack outer hprev hstack ih =>
    cases o with
    | group full =>
      unfold settle
      rw [if_pos (.inl htook.1)]
      exact ⟨⟨htook.1, ⟨fun _ => htook.2, fun _ => rfl⟩, fun h => absurd h htook.2⟩,
        .cons hprev hstack, hground⟩
    | or n =>
      obtain ⟨hop, hlen, -, hfull⟩ := htook
      unfold endOperand
      by_cases hone : n + 1 < 2
      · unfold settle
        rw [if_pos (.inr ⟨hop, by omega⟩), if_pos hone]
        exact ⟨⟨hop, hlen, hone, ⟨fun _ => by omega, fun _ => hfull⟩⟩, .cons hprev hstack, hground⟩
      · rw [settle_closes (.inr ⟨hop, by omega⟩), if_neg hone]
        exact ih (took_closeInto (by rw [hop]; decide) hprev) hground
    | not =>
      have hop : level.operator = .not := htook
      rw [settle_closes (.inl hop)]
      exact ih (took_closeInto (by rw [hop]; decide) hprev) hground

/-- **A `)`** does in the parser what it does in what is open. -/
theorem closeLevels_shows {level prev : Level α} {o o' : Open} {stack}
    {outer : List Open} (hlevel : Shows level o) (hprev : Shows prev o')
    (hstack : List.Forall₂ Shows stack outer) (hground : Grounded o' outer) :
    ∃ r, endInnermost o (o' :: outer) = some r ∧
      ShowsAll (closeLevels level (prev :: stack)) r := by
  rw [closeLevels_cons]
  cases o with
  | or | not =>
    exact ⟨endOperand o' outer, by cases o' <;> rfl,
      settle_took (took_closeInto (by rw [hlevel.1]; decide) hprev) hstack hground⟩
  | group full =>
    obtain ⟨filters, op, n⟩ := level
    obtain ⟨hop, hfull, hempty⟩ := hlevel
    dsimp only at hop hfull hempty
    subst hop
    cases o' with
    | group full' =>
      obtain ⟨hop', hfull', hempty'⟩ := hprev
      refine ⟨_, rfl, ?_⟩
      rw [closeInto_splice filters n prev (.inl (by rw [hop']; decide))]
      unfold settle
      rw [if_pos (.inl hop')]
      refine ⟨⟨hop', ?_, fun hnil => ?_⟩, hstack, by cases outer <;> exact hground⟩
      · rw [Bool.or_eq_true, hfull, hfull', ne_eq, ne_eq, ne_eq, append_eq_nil_iff]
        exact Decidable.not_and_iff_not_or_not.symm
      · obtain ⟨hnil', hnil⟩ := append_eq_nil_iff.1 hnil
        rw [hempty' hnil', hempty hnil]
    | or m =>
      refine ⟨_, rfl, settle_took ?_ hstack hground⟩
      by_cases hone : n = 1
      · subst hone
        have hsome : filters ≠ [] := fun hnil => absurd (hempty hnil) (by decide)
        rw [closeInto_splice filters 1 prev (.inr rfl)]
        exact ⟨hprev.1, congrArg (· + 1) hprev.2.1, hprev.2.2.1, by simp [hsome]⟩
      · rw [closeInto_group filters .and n prev
          (fun h => h.2.elim (fun hne => hne hprev.1) (fun heq => hone heq))]
        exact ⟨hprev.1, congrArg (· + 1) hprev.2.1, hprev.2.2.1, by simp⟩
    | not =>
      refine ⟨_, rfl, settle_took ?_ hstack hground⟩
      rw [closeInto_splice filters n prev (.inl (by rw [hprev.1]; decide))]
      exact hprev.1

/-- Either both refuse the item, or both take it and agree. -/
def Agree (parsed : Except String (State α)) (read : Option (Open × List Open)) : Prop :=
  match parsed, read with
  | .ok s, some r => ShowsAll s r
  | .error _, none => True
  | _, _ => False

theorem openLevel_agree {operator : BoolOp} {o : Open} {s : State α}
    (h : ShowsAll s r) (ho : Shows (α := α) ⟨[], operator, 0⟩ o)
    (hground : ∀ o' outer, Grounded o' outer → Grounded o (o' :: outer)) :
    Agree (openLevel operator s) (if r.2.length > 10 then none else some (o, r.1 :: r.2)) := by
  have hlen : s.stack.length = r.2.length := h.stack.length_eq
  unfold openLevel
  rw [hlen]
  split
  · trivial
  · exact ⟨ho, .cons h.level h.stack, hground _ _ h.grounded⟩

/-- **One item**: the parser accepts it exactly when it can be read. -/
theorem parseItem_agree {s : State α} (h : ShowsAll s r) (item : Item α) :
    Agree (parseItem s item) (readItem r item) := by
  obtain ⟨level, stack⟩ := s
  obtain ⟨o, outer⟩ := r
  cases item with
  | or =>
    exact openLevel_agree h ⟨rfl, rfl, Nat.zero_lt_two, by simp⟩ fun _ _ h => h
  | not => exact openLevel_agree h ⟨rfl, rfl, rfl⟩ fun _ _ h => h
  | parenthesisOpen => exact openLevel_agree h ⟨rfl, by simp, fun _ => rfl⟩ fun _ _ h => h
  | parenthesisClose =>
    obtain ⟨hlevel, hstack, hground⟩ := h
    unfold parseItem readItem
    cases hstack with
    | nil =>
      trivial
    | @cons prev o' stack outer hprev hstack =>
      have hground' : Grounded o' outer := by
        cases o <;> exact hground
      obtain ⟨r, hr, hshows⟩ := closeLevels_shows hlevel hprev hstack hground'
      rw [hr]
      exact hshows
  | key a =>
    obtain ⟨hlevel, hstack, hground⟩ := h
    have htakes : TakesOperand level stack := by
      cases o with
      | group full => exact .inl hlevel.1
      | or n =>
        refine .inr (.inl ⟨hlevel.1, by rw [hlevel.2.1]; exact hlevel.2.2.1, fun hnil => ?_⟩)
        rw [hnil] at hstack
        cases hstack
        exact hground
      | not =>
        refine .inr (.inr ⟨hlevel.1, hlevel.2.1, fun hnil => ?_⟩)
        rw [hnil] at hstack
        cases hstack
        exact hground
    rw [parseItem_key level stack a htakes]
    refine settle_took ?_ hstack hground
    cases o with
    | group full => exact ⟨hlevel.1, by simp⟩
    | or n => exact ⟨hlevel.1, congrArg (· + 1) hlevel.2.1, hlevel.2.2.1, by simp⟩
    | not => exact hlevel.1

/-- **A run of items** is accepted exactly when it can be read. -/
theorem parseItems_agree (items : List (Item α)) {s : State α}
    (h : ShowsAll s r) : Agree (parseItems items s) (readItems items r) := by
  induction items generalizing s r with
  | nil => exact h
  | cons item rest ih =>
    have hitem := parseItem_agree h item
    rw [parseItems_cons]
    change Agree _ ((readItem r item).bind (readItems rest))
    unfold Agree at hitem
    split at hitem
    · rename_i s' r' hs hr
      rw [hs, hr]
      exact ih hitem
    · rename_i e hs hr
      rw [hs, hr]
      trivial
    · cases id hitem

/-! ## Tokens and items -/

theorem parseLoop_eq_ok (d : Readers Flag) (fuel : ℕ) (tokens : List Token)
    (s s' : State (Criterion Flag)) :
    parseLoop d fuel tokens s = .ok s' ↔
      ∃ items, lexItems d fuel tokens = .ok items ∧ parseItems items s = .ok s' := by
  induction fuel generalizing tokens s with
  | zero =>
    cases tokens with
    | nil => exact ⟨fun h => ⟨[], rfl, h⟩, (fun ⟨_, h, h'⟩ => by cases h; exact h')⟩
    | cons token rest => exact ⟨nofun, fun ⟨_, h, _⟩ => nomatch h⟩
  | succ fuel ih =>
    cases tokens with
    | nil => exact ⟨fun h => ⟨[], rfl, h⟩, (fun ⟨_, h, h'⟩ => by cases h; exact h')⟩
    | cons token rest =>
      unfold parseLoop lexItems
      simp only [Lib.bind_eq_ok_iff, ih]
      constructor
      · rintro ⟨⟨item, rest'⟩, hnext, s₁, hitem, items, hlex, hparse⟩
        exact ⟨_, ⟨_, hnext, items, hlex, rfl⟩, Lib.bind_eq_ok_iff.2 ⟨s₁, hitem, hparse⟩⟩
      · rintro ⟨_, ⟨⟨item, rest'⟩, hnext, items, hlex, hitems⟩, hparse⟩
        cases hitems
        obtain ⟨s₁, hitem, hparse⟩ := Lib.bind_eq_ok_iff.1 hparse
        exact ⟨_, hnext, s₁, hitem, items, hlex, hparse⟩

theorem parseCriteria_eq_ok (d : Readers Flag) (tokens : List Token)
    (fs : Filters (Criterion Flag)) :
    parseCriteria d tokens = .ok fs ↔
      fs ≠ [] ∧ ∃ items s, lexItems d tokens.length tokens = .ok items ∧
        parseItems items ⟨⟨[], .and, 0⟩, []⟩ = .ok s ∧ s.level.filters = fs := by
  have hguard : ∀ filter : Filters (Criterion Flag),
      (do
        if filter.isEmpty then throw "No filters found in command."
        return filter : Except String _) = .ok fs ↔ fs ≠ [] ∧ filter = fs := by
    intro filter
    cases filter with
    | nil => exact ⟨nofun, fun h => absurd h.2.symm h.1⟩
    | cons f filter =>
      refine ⟨fun h => ?_, fun h => congrArg Except.ok h.2⟩
      cases h
      exact ⟨cons_ne_nil _ _, rfl⟩
  unfold parseCriteria parseFilters
  rw [Lib.bind_eq_ok_iff]
  simp only [hguard, Lib.map_eq_ok_iff, parseLoop_eq_ok]
  constructor
  · rintro ⟨_, ⟨s, ⟨items, hlex, hparse⟩, rfl⟩, hne, rfl⟩
    exact ⟨hne, items, s, hlex, hparse, rfl⟩
  · rintro ⟨hne, items, s, hlex, hparse, rfl⟩
    exact ⟨_, ⟨s, ⟨items, hlex, hparse⟩, rfl⟩, hne, rfl⟩

/-- **What is accepted**: the token lists that can be read. -/
theorem parseCriteria_iff (d : Readers Flag) (tokens : List Token) :
    (∃ fs, parseCriteria d tokens = .ok fs) ↔ Readable d tokens := by
  have hstart : ShowsAll (α := Criterion Flag) ⟨⟨[], .and, 0⟩, []⟩ (.group false, []) :=
    ⟨⟨rfl, by simp, fun _ => rfl⟩, .nil, trivial⟩
  have hfull : ∀ {s : State (Criterion Flag)} {r : Open × List Open}, ShowsAll s r →
      (r.1.full ↔ s.level.filters ≠ []) := by
    rintro s ⟨o, outer⟩ ⟨hlevel, -, -⟩
    cases o with
    | group full => exact hlevel.2.1
    | or n =>
      rw [hlevel.2.2.2]
      exact decide_eq_true_iff
    | not => exact ⟨nofun, fun h => absurd hlevel.2.2 h⟩
  constructor
  · rintro ⟨fs, h⟩
    obtain ⟨hne, items, s, hlex, hitems, hfs⟩ := (parseCriteria_eq_ok d tokens fs).1 h
    have hagree := parseItems_agree items hstart
    rw [hitems] at hagree
    cases hread : readItems items (.group false, []) with
    | none =>
      rw [hread] at hagree
      cases id hagree
    | some r =>
      rw [hread] at hagree
      exact ⟨items, r, hlex, hread, (hfull hagree).2 (hfs ▸ hne)⟩
  · rintro ⟨items, r, hlex, hread, hr⟩
    have hagree := parseItems_agree items hstart
    rw [hread] at hagree
    cases hitems : parseItems items ⟨⟨[], .and, 0⟩, []⟩ with
    | error e =>
      rw [hitems] at hagree
      cases id hagree
    | ok s =>
      rw [hitems] at hagree
      exact ⟨_, (parseCriteria_eq_ok d tokens _).2
        ⟨(hfull hagree).1 hr, items, s, hlex, hitems, rfl⟩⟩

/-! ## Writing keys down -/

/-- A leaf key: a word with its arguments, which are no parentheses, and the criterion. -/
structure LeafKey (d : Readers Flag) where
  word : Bytes
  arguments : List Token
  criterion : Criterion Flag
  leaf : Leaf d word arguments criterion
  plain : ∀ t ∈ arguments, t.isParenthesis = false

theorem LeafKey.reads (k : LeafKey d) (rest : List Token) :
    nextItem d (.argument k.word) (k.arguments ++ rest) = .ok (.key k.criterion, rest) :=
  nextItem_key_iff.2 ⟨_, rfl, k.leaf⟩

/-- The tokens write the items down. -/
inductive Written (d : Readers Flag) : List (Item (LeafKey d)) → List Token → Prop where
  | nil : Written d [] []
  | key {items tokens} (k : LeafKey d) (h : Written d items tokens) :
    Written d (.key k :: items) (.argument k.word :: (k.arguments ++ tokens))
  | or {items tokens} {word : Bytes} (hword : keyword word = some .or)
    (h : Written d items tokens) : Written d (.or :: items) (.argument word :: tokens)
  | not {items tokens} {word : Bytes} (hword : keyword word = some .not)
    (h : Written d items tokens) : Written d (.not :: items) (.argument word :: tokens)
  | parenthesisOpen {items tokens} (h : Written d items tokens) :
    Written d (.parenthesisOpen :: items) (.parenthesisOpen :: tokens)
  | parenthesisClose {items tokens} (h : Written d items tokens) :
    Written d (.parenthesisClose :: items) (.parenthesisClose :: tokens)

theorem lexItems_of_next {fuel : ℕ} {token : Token} {rest rest' : List Token}
    {item} {items}
    (hnext : nextItem d token rest = .ok (item, rest'))
    (hrest : lexItems d fuel rest' = .ok items) :
    lexItems d (fuel + 1) (token :: rest) = .ok (item :: items) := by
  unfold lexItems
  rw [hnext]
  change (lexItems d fuel rest').bind _ = _
  rw [hrest]
  rfl

variable {items : List (Item (LeafKey d))}

theorem exists_fuel {t : Token} {ts : List Token} {fuel : ℕ} (h : (t :: ts).length ≤ fuel) :
    ∃ n, fuel = n + 1 ∧ ts.length ≤ n := by
  rw [length_cons] at h
  exact ⟨fuel - 1, by omega, by omega⟩

/-- What is written down is read back. -/
theorem lexItems_of_written (h : Written d items tokens) {fuel : ℕ} (hfuel : tokens.length ≤ fuel) :
    lexItems d fuel tokens = .ok (items.map (Item.map LeafKey.criterion)) := by
  induction h generalizing fuel with
  | nil =>
    unfold lexItems
    rfl
  | key k h ih =>
    obtain ⟨fuel, rfl, hlen⟩ := exists_fuel hfuel
    rw [length_append] at hlen
    exact lexItems_of_next (k.reads _) (ih (by omega))
  | or hword h ih | not hword h ih =>
    obtain ⟨fuel, rfl, hlen⟩ := exists_fuel hfuel
    refine lexItems_of_next ?_ (ih hlen)
    unfold nextItem
    dsimp only
    rw [hword]
    rfl
  | parenthesisOpen h ih | parenthesisClose h ih =>
    obtain ⟨fuel, rfl, hlen⟩ := exists_fuel hfuel
    exact lexItems_of_next rfl (ih hlen)

theorem exists_written (items : List (Item (LeafKey d))) : ∃ tokens, Written d items tokens := by
  induction items with
  | nil => exact ⟨[], .nil⟩
  | cons item rest ih =>
    obtain ⟨tokens, h⟩ := ih
    cases item with
    | key k => exact ⟨_, .key k h⟩
    | or =>
      have hword : keyword (ascii "OR") = some .or := by decide
      exact ⟨_, .or hword h⟩
    | not =>
      have hword : keyword (ascii "NOT") = some .not := by decide
      exact ⟨_, .not hword h⟩
    | parenthesisOpen => exact ⟨_, .parenthesisOpen h⟩
    | parenthesisClose => exact ⟨_, .parenthesisClose h⟩

/-! ## Programs and other token lists -/

/-- What the tokens are, when the next `pending` of them are arguments: `none` where an argument is
a parenthesis. -/
def outline (d : Readers Flag) : ℕ → List Token → Option (List (Item Unit))
  | _, [] => some []
  | pending + 1, t :: ts => if t.isParenthesis then none else outline d pending ts
  | 0, .argument word :: ts =>
    match keyword word with
    | some .or => (outline d 0 ts).map (.or :: ·)
    | some .not => (outline d 0 ts).map (.not :: ·)
    | _ => (outline d (argumentCount d word ts) ts).map (.key () :: ·)
  | 0, .parenthesisOpen :: ts => (outline d 0 ts).map (.parenthesisOpen :: ·)
  | 0, .parenthesisClose :: ts => (outline d 0 ts).map (.parenthesisClose :: ·)
  | 0, _ :: _ => none

/-- One item of a program: a `)` ends a list, and one that has filters. -/
def nestItem (r : Open × List Open) : Item α → Option (Open × List Open)
  | .key _ => some (endOperand r.1 r.2)
  | .or => some (.or 0, r.1 :: r.2)
  | .not => some (.not, r.1 :: r.2)
  | .parenthesisOpen => some (.group false, r.1 :: r.2)
  | .parenthesisClose =>
    match r with
    | (.group true, o :: outer) => some (endOperand o outer)
    | _ => none

def nestItems (items : List (Item α)) (r : Open × List Open) : Option (Open × List Open) :=
  items.foldlM nestItem r

/-- **No argument is a parenthesis, every `)` ends a list that has filters, and nothing is open at
the end.** -/
def WellNested (d : Readers Flag) (tokens : List Token) : Prop :=
  ∃ items, outline d 0 tokens = some items ∧
    nestItems items (.group false, []) = some (.group true, [])

theorem nestItems_append (first second : List (Item α)) :
    nestItems (first ++ second) r = (nestItems first r).bind (nestItems second) :=
  foldlM_append ..

theorem nestItems_map (f : α → β) (items : List (Item α)) :
    nestItems (items.map (Item.map f)) r = nestItems items r := by
  unfold nestItems
  rw [foldlM_map]
  congr 1
  funext r item
  cases item <;> rfl

theorem endOperand_group (full : Bool) (outer : List Open) :
    endOperand (.group full) outer = (.group true, outer) := by
  unfold endOperand
  rfl

mutual

/-- The items of a key are one operand of what is open. -/
theorem SearchKey.nestItems_items : ∀ (key : SearchKey α) (r : Open × List Open),
    nestItems key.items r = some (endOperand r.1 r.2)
  | .leaf a, r => rfl
  | .not key, r => by
    change nestItems key.items (.not, r.1 :: r.2) = _
    rw [key.nestItems_items]
    rfl
  | .or first second, r => by
    change nestItems (first.items ++ second.items) (.or 0, r.1 :: r.2) = _
    rw [nestItems_append, first.nestItems_items]
    change nestItems second.items (.or 1, r.1 :: r.2) = _
    rw [second.nestItems_items]
    rfl
  | .list keys, r => by
    change nestItems (keys.items ++ [.parenthesisClose]) (.group false, r.1 :: r.2) = _
    rw [nestItems_append, keys.nestItems_items]
    rfl

theorem SearchKeys.nestItems_items : ∀ (keys : SearchKeys α) (full : Bool) (outer : List Open),
    nestItems keys.items (.group full, outer) = some (.group true, outer)
  | .single key, full, outer => by
    rw [SearchKeys.items, key.nestItems_items, endOperand_group]
  | .cons key rest, full, outer => by
    rw [SearchKeys.items, nestItems_append, key.nestItems_items, endOperand_group]
    exact rest.nestItems_items true outer

end

/-- The items go on from what is open with whole keys, and end every list. -/
inductive Completes : Open × List Open → List (Item α) → Prop where
  | done : Completes (.group true, []) []
  | key {o outer items} (key : SearchKey α) (h : Completes (endOperand o outer) items) :
    Completes (o, outer) (key.items ++ items)
  | close {o outer items} (h : Completes (endOperand o outer) items) :
    Completes (.group true, o :: outer) (.parenthesisClose :: items)

theorem Completes.exists_key {o : Open} {outer : List Open} {items : List (Item α)}
    (h : Completes (o, outer) items) (ho : o ≠ .group true) :
    ∃ (key : SearchKey α) (rest : List (Item α)), items = key.items ++ rest ∧
      Completes (endOperand o outer) rest := by
  cases h with
  | done | close => exact absurd rfl ho
  | key key h => exact ⟨key, _, rfl, h⟩

/-- The items that follow the keys of a list or of the command. -/
def Follows : List Open → List (Item α) → Prop
  | [], rest => rest = []
  | o :: outer, rest => ∃ items, rest = .parenthesisClose :: items ∧
      Completes (endOperand o outer) items

/-- In a list that has a key, more keys follow, up to its end. -/
theorem Completes.exists_keys {outer : List Open} {items : List (Item α)}
    (h : Completes (.group true, outer) items) (first : SearchKey α) :
    ∃ (keys : SearchKeys α) (rest : List (Item α)), first.items ++ items = keys.items ++ rest ∧
      Follows outer rest := by
  generalize hr : (Open.group true, outer) = r at h
  induction h generalizing first with
  | done =>
    cases hr
    exact ⟨.single first, [], rfl, rfl⟩
  | key key h ih =>
    cases hr
    obtain ⟨keys, rest, hitems, hrest⟩ := ih key (endOperand_group true outer).symm
    exact ⟨.cons first keys, rest, by rw [hitems, SearchKeys.items, append_assoc], hrest⟩
  | @close o outer items h =>
    cases hr
    exact ⟨.single first, _, rfl, items, rfl, h⟩

theorem completes_of_nestItems (items : List (Item α))
    (h : nestItems items r = some (.group true, [])) : Completes r items := by
  induction items generalizing r with
  | nil =>
    cases h
    exact .done
  | cons item items ih =>
    cases item with
    | key a => exact .key (.leaf a) (ih h)
    | not =>
      obtain ⟨key, rest, rfl, hrest⟩ := (ih h).exists_key (by rintro ⟨⟩)
      exact .key (.not key) hrest
    | or =>
      obtain ⟨first, rest, rfl, hrest⟩ := (ih h).exists_key (by rintro ⟨⟩)
      obtain ⟨second, rest, rfl, hboth⟩ :=
        Completes.exists_key (o := .or 1) hrest (by rintro ⟨⟩)
      rw [← append_assoc]
      exact .key (.or first second) hboth
    | parenthesisOpen =>
      obtain ⟨first, after, hafter, hrest⟩ := (ih h).exists_key (by rintro ⟨⟩)
      rw [endOperand_group] at hrest
      obtain ⟨keys, _, hitems, rest, rfl, hrest⟩ := hrest.exists_keys first
      have hlist : .parenthesisOpen :: items = (SearchKey.list keys).items ++ rest := by
        rw [hafter, hitems, SearchKey.items]
        simp
      rw [hlist]
      exact .key (.list keys) hrest
    | parenthesisClose =>
      unfold nestItems at h
      rw [foldlM_cons] at h
      unfold nestItem at h
      dsimp only at h
      split at h
      · exact .close (ih h)
      · cases h

/-- **The items of search programs** are those that are nested as they should be. -/
theorem exists_items_iff (items : List (Item α)) :
    (∃ keys : SearchKeys α, keys.items = items) ↔
      nestItems items (.group false, []) = some (.group true, []) := by
  constructor
  · rintro ⟨keys, rfl⟩
    exact keys.nestItems_items false []
  · intro h
    obtain ⟨first, rest, rfl, hrest⟩ := (completes_of_nestItems items h).exists_key (by rintro ⟨⟩)
    rw [endOperand_group] at hrest
    obtain ⟨keys, _, hitems, rfl⟩ := hrest.exists_keys first
    exact ⟨keys, by rw [hitems, append_nil]⟩

/-- The tokens are a search program of the grammar. -/
def Derivable (d : Readers Flag) (tokens : List Token) : Prop :=
  ∃ keys : SearchKeys (LeafKey d), Written d keys.items tokens

theorem outline_arguments {args : List Token} (h : ∀ t ∈ args, t.isParenthesis = false)
    (ts : List Token) : outline d args.length (args ++ ts) = outline d 0 ts := by
  induction args with
  | nil => rfl
  | cons t args ih =>
    rw [← ih fun t' ht' => h t' (mem_cons_of_mem t ht'), length_cons, cons_append]
    exact if_neg (Bool.eq_false_iff.1 (h t mem_cons_self))

theorem plain_of_outline {args : List Token} {shape : List (Item Unit)}
    (h : outline d args.length (args ++ ts) = some shape) :
    (∀ t ∈ args, t.isParenthesis = false) ∧ outline d 0 ts = some shape := by
  induction args with
  | nil => exact ⟨fun t ht => absurd ht not_mem_nil, h⟩
  | cons t args ih =>
    rw [length_cons, cons_append] at h
    unfold outline at h
    split at h
    · cases h
    · rename_i ht
      obtain ⟨hplain, hrest⟩ := ih h
      exact ⟨forall_mem_cons.2 ⟨Bool.eq_false_iff.2 ht, hplain⟩, hrest⟩

theorem outline_key (hor : keyword word ≠ some .or) (hnot : keyword word ≠ some .not)
    (ts : List Token) :
    outline d 0 (.argument word :: ts) =
      (outline d (argumentCount d word ts) ts).map (.key () :: ·) := by
  conv => lhs; unfold outline
  split
  · rename_i h
    exact absurd h hor
  · rename_i h
    exact absurd h hnot
  · rfl

theorem outline_of_written (h : Written d items tokens) :
    outline d 0 tokens = some (items.map (Item.map fun _ => ())) := by
  induction h with
  | nil => rfl
  | @key items tokens k h ih =>
    obtain ⟨hor, hnot, -⟩ := nextItem_key.1 (k.reads tokens)
    rw [outline_key hor hnot, ← k.leaf.length_eq tokens, outline_arguments k.plain, ih]
    rfl
  | or hword h ih | not hword h ih =>
    unfold outline
    rw [hword, ih]
    rfl
  | parenthesisOpen h ih | parenthesisClose h ih =>
    unfold outline
    rw [ih]
    rfl

theorem exists_key_of_nextItem {item : Item (Criterion Flag)} (hor : keyword word ≠ some .or)
    (hnot : keyword word ≠ some .not) (h : nextItem d (.argument word) ts = .ok (item, rest)) :
    ∃ c, item = .key c := by
  unfold nextItem at h
  dsimp only at h
  split at h
  · rename_i hword
    exact absurd hword hor
  · rename_i hword
    exact absurd hword hnot
  · obtain ⟨parsed, -, hitem⟩ := Lib.map_eq_ok_iff.1 h
    cases hitem
    exact ⟨_, rfl⟩

/-- **Tokens that are understood** write items down, if no argument is a parenthesis. -/
theorem exists_written_of_outline {fuel : ℕ} {parsed : List (Item (Criterion Flag))}
    {shape : List (Item Unit)} (hlex : lexItems d fuel tokens = .ok parsed)
    (houtline : outline d 0 tokens = some shape) :
    ∃ items : List (Item (LeafKey d)), Written d items tokens := by
  induction fuel generalizing tokens parsed shape with
  | zero =>
    cases tokens with
    | nil => exact ⟨[], .nil⟩
    | cons token ts => cases hlex
  | succ fuel ih =>
    cases tokens with
    | nil => exact ⟨[], .nil⟩
    | cons token ts =>
      unfold lexItems at hlex
      obtain ⟨⟨item, rest⟩, hnext, hrest⟩ := Lib.bind_eq_ok_iff.1 hlex
      obtain ⟨parsed, hparsed, -⟩ := Lib.bind_eq_ok_iff.1 hrest
      cases token with
      | argument word =>
        by_cases hor : keyword word = some .or
        · unfold nextItem at hnext
          unfold outline at houtline
          dsimp only at hnext
          rw [hor] at hnext houtline
          cases hnext
          obtain ⟨shape, houtline, -⟩ := Option.map_eq_some_iff.1 houtline
          obtain ⟨items, h⟩ := ih hparsed houtline
          exact ⟨_, .or hor h⟩
        by_cases hnot : keyword word = some .not
        · unfold nextItem at hnext
          unfold outline at houtline
          dsimp only at hnext
          rw [hnot] at hnext houtline
          cases hnext
          obtain ⟨shape, houtline, -⟩ := Option.map_eq_some_iff.1 houtline
          obtain ⟨items, h⟩ := ih hparsed houtline
          exact ⟨_, .not hnot h⟩
        obtain ⟨c, rfl⟩ := exists_key_of_nextItem hor hnot hnext
        obtain ⟨args, rfl, hleaf⟩ := nextItem_key_iff.1 hnext
        rw [outline_key hor hnot, ← hleaf.length_eq rest] at houtline
        obtain ⟨shape, houtline, -⟩ := Option.map_eq_some_iff.1 houtline
        obtain ⟨hplain, houtline⟩ := plain_of_outline houtline
        obtain ⟨items, h⟩ := ih hparsed houtline
        exact ⟨_, .key ⟨word, args, c, hleaf, hplain⟩ h⟩
      | parenthesisOpen =>
        cases hnext
        obtain ⟨shape, houtline, -⟩ := Option.map_eq_some_iff.1 houtline
        obtain ⟨items, h⟩ := ih hparsed houtline
        exact ⟨_, .parenthesisOpen h⟩
      | parenthesisClose =>
        cases hnext
        obtain ⟨shape, houtline, -⟩ := Option.map_eq_some_iff.1 houtline
        obtain ⟨items, h⟩ := ih hparsed houtline
        exact ⟨_, .parenthesisClose h⟩
      | _ => cases hnext

/-- **What is a search program**: tokens that are understood and well nested. -/
theorem derivable_iff_wellNested (d : Readers Flag) (tokens : List Token) :
    Derivable d tokens ↔
      (∃ parsed, lexItems d tokens.length tokens = .ok parsed) ∧ WellNested d tokens := by
  constructor
  · rintro ⟨keys, h⟩
    refine ⟨⟨_, lexItems_of_written h (Nat.le_refl _)⟩, _, outline_of_written h, ?_⟩
    rw [nestItems_map]
    exact (exists_items_iff _).1 ⟨keys, rfl⟩
  · rintro ⟨⟨parsed, hlex⟩, shape, houtline, hnest⟩
    obtain ⟨items, h⟩ := exists_written_of_outline hlex houtline
    rw [outline_of_written h] at houtline
    cases houtline
    rw [nestItems_map] at hnest
    obtain ⟨keys, rfl⟩ := (exists_items_iff items).2 hnest
    exact ⟨keys, h⟩

/-! ## What the filters mean -/

/-- The filters of the programs of the shape have the values of the programs, whatever the leaf keys
are. -/
def MeaningKept (d : Readers Flag) (shape : SearchKeys Unit) : Prop :=
  ∀ keys : SearchKeys (LeafKey d), keys.map (fun _ => ()) = shape →
    ∀ tokens, Written d keys.items tokens →
      ∃ fs forest, parseCriteria d tokens = .ok fs ∧ Forest.parse fs = some forest ∧
        ∀ (ι : Type) (total : Set ι) (leafValue : Criterion Flag → Set ι),
          forest.value total leafValue .and = keys.value total fun k => leafValue k.criterion

def Refused (d : Readers Flag) (tokens : List Token) : Prop :=
  ∀ fs, parseCriteria d tokens ≠ .ok fs

/-- **What a program is parsed into.** -/
theorem parseCriteria_of_written (keys : SearchKeys (LeafKey d)) (hdepth : keys.depth ≤ 11)
    {tokens : List Token} (h : Written d keys.items tokens) :
    parseCriteria d tokens = .ok (keys.map LeafKey.criterion).forest.tokens := by
  have hlex := lexItems_of_written h (Nat.le_refl tokens.length)
  rw [← keys.items_map] at hlex
  have hitems := (keys.map LeafKey.criterion).parseItems_items [] 0 []
    (by rw [(keys.shape_map _).1, length_nil, Nat.zero_add]; exact hdepth)
  refine (parseCriteria_eq_ok d tokens _).2 ⟨?_, _, _, hlex, hitems, nil_append _⟩
  intro hnil
  have hlen := (keys.map LeafKey.criterion).length_forest
  cases hforest : (keys.map LeafKey.criterion).forest with
  | nil =>
    have hpos := (keys.map LeafKey.criterion).operands_pos
    rw [hforest] at hlen
    rw [← hlen] at hpos
    cases Nat.lt_irrefl 0 hpos
  | leaf | group =>
    rw [hforest] at hnil
    cases hnil

def LeafKey.ofWord (d : Readers Flag) (word : Bytes) {k : Keyword} (hword : keyword word = some k)
    {criterion : Criterion Flag} (hc : k.alone = some criterion) : LeafKey d where
  word := word
  arguments := []
  criterion := criterion
  leaf := .alone hword hc
  plain _ h := absurd h not_mem_nil

def seenKey (d : Readers Flag) : LeafKey d :=
  .ofWord d (ascii "SEEN") (k := .seen) (by decide) rfl

def flaggedKey (d : Readers Flag) : LeafKey d :=
  .ofWord d (ascii "FLAGGED") (k := .flagged) (by decide) rfl

/-- `SEEN` where the label is true, `FLAGGED` where it is false. -/
def labelKey (d : Readers Flag) (b : Bool) : LeafKey d := if b then seenKey d else flaggedKey d

/-- Every message is seen and none is flagged. -/
def seenOnly : Criterion Flag → Set Unit
  | .seen => Set.univ
  | _ => ∅

theorem seenOnly_labelKey (b : Bool) : seenOnly (labelKey d b).criterion = truth b := by
  cases b with
  | false => exact (Set.eq_empty_of_forall_notMem fun _ h => by cases h).symm
  | true => exact (Set.eq_univ_of_forall fun _ => rfl).symm

/-- **The shapes whose meaning is kept.** -/
theorem meaningKept_iff (d : Readers Flag) (shape : SearchKeys Unit) (hdepth : shape.depth ≤ 11) :
    MeaningKept d shape ↔ shape.negatesOne := by
  constructor
  · intro h
    by_contra hnot
    obtain ⟨c, labels, hshape, hvalue, hforest⟩ := exists_differsKeys shape hnot
    have hkeys : (labels.map (labelKey d)).map (fun _ => ()) = shape := by
      rw [SearchKeys.map_map]
      exact hshape
    have hroom : (labels.map (labelKey d)).depth ≤ 11 := by
      rw [(labels.shape_map _).1, ← (labels.shape_map fun _ => ()).1, hshape]
      exact hdepth
    obtain ⟨tokens, hwritten⟩ := exists_written (labels.map (labelKey d)).items
    obtain ⟨fs, forest, hparse, hbalanced, hkept⟩ := h _ hkeys tokens hwritten
    rw [parseCriteria_of_written _ hroom hwritten] at hparse
    cases hparse
    rw [Forest.parse_tokens] at hbalanced
    cases hbalanced
    have heq := hkept Unit Set.univ seenOnly
    rw [SearchKeys.value_forest_map, SearchKeys.value_forest_map, SearchKeys.value_map] at heq
    simp only [seenOnly_labelKey] at heq
    have hsame : truth (!c) = truth c := hforest.symm.trans (heq.trans hvalue)
    have hbool := truth_injective hsame
    cases c <;> cases hbool
  · rintro hone keys rfl tokens hwritten
    rw [(keys.shape_map _).1] at hdepth
    have hkeys : (keys.map LeafKey.criterion).negatesOne :=
      (keys.shape_map _).2.2.2 ((keys.shape_map _).2.2.1 hone)
    refine ⟨_, _, parseCriteria_of_written keys hdepth hwritten, Forest.parse_tokens _, ?_⟩
    intro ι total leafValue
    rw [SearchKeys.value_forest _ _ _ hkeys, SearchKeys.value_map]

/-- The list is accepted, and is not nested as a program is. -/
def Slips (d : Readers Flag) (tokens : List Token) : Prop :=
  Readable d tokens ∧ ¬ WellNested d tokens

/-- **SEARCH means what it says** exactly where every `NOT` applies to one operand; and what is not
a program is refused unless the parser slips over it. -/
theorem search_meaning_iff (d : Readers Flag) (shape : SearchKeys Unit) (hdepth : shape.depth ≤ 11)
    (tokens : List Token) :
    (MeaningKept d shape ↔ shape.negatesOne) ∧
      ((¬ Derivable d tokens → Refused d tokens) ↔ ¬ Slips d tokens) := by
  refine ⟨meaningKept_iff d shape hdepth, ?_⟩
  have hrefused : Refused d tokens ↔ ¬ Readable d tokens := by
    rw [← parseCriteria_iff]
    exact ⟨fun h ⟨fs, hfs⟩ => h fs hfs, fun h fs hfs => h ⟨fs, hfs⟩⟩
  have hlexes : Readable d tokens → ∃ parsed, lexItems d tokens.length tokens = .ok parsed :=
    fun ⟨items, _, hlex, _⟩ => ⟨items, hlex⟩
  rw [hrefused, derivable_iff_wellNested]
  constructor
  · rintro h ⟨hread, hnested⟩
    exact h (fun hand => hnested hand.2) hread
  · intro hslips hnot hread
    exact hslips ⟨hread, fun hnested => hnot ⟨hlexes hread, hnested⟩⟩

/-- Readers that refuse everything, for keys without arguments. -/
def noReaders : Readers Unit where
  decodeArgument _ := .error "Expected string."
  parseDate _ := .error "Expected date."
  parseNumber32 _ := .error "Expected integer."
  parseNumber64 _ := .error "Expected integer."
  parseFlag _ := .error "Expected flag."
  parseSequenceSet _ := .error "Expected sequence set."
  unwrapString _ := .error "Expected string."
  lossy _ := ""

/-- `NOT key` -/
def negatedLeaf : SearchKeys Unit := .single (.not (.leaf ()))

/-- `SEEN )` -/
def stray : List Token := [.argument (ascii "SEEN"), .parenthesisClose]

theorem not_readable_stray : ¬ Readable noReaders stray := by
  rintro ⟨items, r, hlex, hread, -⟩
  cases hlex
  cases hread

theorem not_wellNested_stray : ¬ WellNested noReaders stray := by
  rintro ⟨items, houtline, hnest⟩
  cases houtline
  cases hnest

/-- `NOT key` is understood as it is meant, and `SEEN )` is refused. -/
theorem search_meaning_iff_negatedLeaf :
    negatedLeaf.depth ≤ 11 ∧ MeaningKept noReaders negatedLeaf ∧ Refused noReaders stray := by
  have h := search_meaning_iff noReaders negatedLeaf (by decide) stray
  refine ⟨by decide, h.1.2 ⟨rfl, trivial⟩, h.2.2 (fun hslips => not_readable_stray hslips.1) ?_⟩
  rw [derivable_iff_wellNested]
  exact fun hand => not_wellNested_stray hand.2

/-- `NOT (key key)` -/
def notList : SearchKeys Unit := .single (.not (.list (.cons (.leaf ()) (.single (.leaf ())))))

/-- `SEEN ( FLAGGED` -/
def unclosed : List Token :=
  [.argument (ascii "SEEN"), .parenthesisOpen, .argument (ascii "FLAGGED")]

theorem not_derivable_unclosed (d : Readers Flag) : ¬ Derivable d unclosed := by
  rw [derivable_iff_wellNested]
  rintro ⟨-, items, houtline, hnest⟩
  cases houtline
  cases hnest

/-- `NOT (SEEN FLAGGED)` finds what is neither seen nor flagged, and `SEEN ( FLAGGED` is taken for
`FLAGGED`. -/
theorem not_search_meaning :
    parseCriteria noReaders [.argument (ascii "NOT"), .parenthesisOpen, .argument (ascii "SEEN"),
        .argument (ascii "FLAGGED"), .parenthesisClose] =
      .ok [.opening .not, .leaf .seen, .leaf .flagged, .closing] ∧
    ¬ MeaningKept noReaders notList ∧
    parseCriteria noReaders unclosed = .ok [.leaf .flagged] ∧
    ¬ (¬ Derivable noReaders unclosed → Refused noReaders unclosed) := by
  refine ⟨rfl, ?_, rfl, ?_⟩
  · rw [meaningKept_iff noReaders notList (by decide)]
    exact fun h => nomatch h.1
  · exact fun h => h (not_derivable_unclosed noReaders) _ rfl

end MailServer.Imap.SearchCommand
