import MailServer.Imap.Mailbox
import MailServer.Lib.Bracketed
import Mathlib.Data.List.Basic

/-!
# The parser of SEARCH

`imap-proto/src/parser/search.rs`: `parse_filters` reads the tokens of a search program from left
to right into a flat list of filters, in which `And`, `Or` and `Not` open a group and `End` closes
it.  What is open at a token, a list in parentheses, an `OR` or a `NOT`, is on a stack.

A filter list is a list of bracketed tokens: the criteria are the leaves, `And`, `Or` and `Not` the
openings and `End` the closing.
-/

namespace MailServer.Imap.SearchCommand

open Bracketed

/-! ## Tokens -/

abbrev Bytes := List UInt8

/-- The bytes of a text in ASCII. -/
def ascii (s : String) : Bytes := s.toList.map fun c => c.toNat.toUInt8

inductive Token where
  | argument (value : Bytes)
  | parenthesisOpen
  | parenthesisClose
  | bracketOpen
  | bracketClose
  | lt
  | gt
  | dot
  | null

/-- `Token::as_bytes`, which is also what `unwrap_bytes` gives. -/
def Token.bytes : Token → Bytes
  | .argument value => value
  | .parenthesisOpen => ascii "("
  | .parenthesisClose => ascii ")"
  | .bracketOpen => ascii "["
  | .bracketClose => ascii "]"
  | .lt => ascii "<"
  | .gt => ascii ">"
  | .dot => ascii "."
  | .null => []

def asciiUpper (b : UInt8) : UInt8 := if 97 ≤ b ∧ b ≤ 122 then b - 32 else b

def eqIgnoreAsciiCase (a b : Bytes) : Bool := a.map asciiUpper == b.map asciiUpper

/-! ## Filters -/

/-- The words that the parser knows; any other argument is a sequence set. -/
inductive Keyword where
  | all | answered | bcc | before | body | cc | deleted | draft | flagged | sender | header
  | keyword | larger | on | seen | sentBefore | sentOn | sentSince | since | smaller | subject
  | text | to | uid | unanswered | undeleted | undraft | unflagged | unkeyword | unseen | older
  | younger | old | new | recent | modSeq | emailId | threadId | or | not
deriving DecidableEq

def Keyword.name : Keyword → String
  | .all => "ALL"
  | .answered => "ANSWERED"
  | .bcc => "BCC"
  | .before => "BEFORE"
  | .body => "BODY"
  | .cc => "CC"
  | .deleted => "DELETED"
  | .draft => "DRAFT"
  | .flagged => "FLAGGED"
  | .sender => "FROM"
  | .header => "HEADER"
  | .keyword => "KEYWORD"
  | .larger => "LARGER"
  | .on => "ON"
  | .seen => "SEEN"
  | .sentBefore => "SENTBEFORE"
  | .sentOn => "SENTON"
  | .sentSince => "SENTSINCE"
  | .since => "SINCE"
  | .smaller => "SMALLER"
  | .subject => "SUBJECT"
  | .text => "TEXT"
  | .to => "TO"
  | .uid => "UID"
  | .unanswered => "UNANSWERED"
  | .undeleted => "UNDELETED"
  | .undraft => "UNDRAFT"
  | .unflagged => "UNFLAGGED"
  | .unkeyword => "UNKEYWORD"
  | .unseen => "UNSEEN"
  | .older => "OLDER"
  | .younger => "YOUNGER"
  | .old => "OLD"
  | .new => "NEW"
  | .recent => "RECENT"
  | .modSeq => "MODSEQ"
  | .emailId => "EMAILID"
  | .threadId => "THREADID"
  | .or => "OR"
  | .not => "NOT"

def keywords : List Keyword :=
  [.all, .answered, .bcc, .before, .body, .cc, .deleted, .draft, .flagged, .sender, .header,
    .keyword, .larger, .on, .seen, .sentBefore, .sentOn, .sentSince, .since, .smaller, .subject,
    .text, .to, .uid, .unanswered, .undeleted, .undraft, .unflagged, .unkeyword, .unseen, .older,
    .younger, .old, .new, .recent, .modSeq, .emailId, .threadId, .or, .not]

def keyword (value : Bytes) : Option Keyword :=
  keywords.find? fun k => eqIgnoreAsciiCase value (ascii k.name)

variable {Flag : Type}

inductive ModSeqEntry (Flag : Type) where
  | shared (flag : Flag)
  | priv (flag : Flag)
  | all (flag : Flag)
  | none

/-- The filters that are not `And`, `Or`, `Not` or `End`. -/
inductive Criterion (Flag : Type) where
  | sequence (sequence : View.Sequence) (isUid : Bool)
  | all
  | answered
  | bcc (value : String)
  | before (date : ℤ)
  | body (value : String)
  | cc (value : String)
  | deleted
  | draft
  | flagged
  | sender (value : String)
  | header (name value : String)
  | keyword (flag : Flag)
  | larger (size : ℕ)
  | on (date : ℤ)
  | seen
  | sentBefore (date : ℤ)
  | sentOn (date : ℤ)
  | sentSince (date : ℤ)
  | since (date : ℤ)
  | smaller (size : ℕ)
  | subject (value : String)
  | text (value : String)
  | to (value : String)
  | unanswered
  | undeleted
  | undraft
  | unflagged
  | unkeyword (flag : Flag)
  | unseen
  | recent
  | new
  | old
  | older (seconds : ℕ)
  | younger (seconds : ℕ)
  | modSeq (value : ℕ) (entry : ModSeqEntry Flag)
  | emailId (value : String)
  | threadId (value : String)

/-- A filter list over criteria. -/
abbrev Filters (α : Type) := List (Bracketed.Token BoolOp α)

/-- How the arguments of criteria are read: `decode_argument` with the charset in force, dates,
numbers, flags, sequence sets, and the conversions of bytes to text. -/
structure Readers (Flag : Type) where
  decodeArgument : Bytes → Except String String
  parseDate : Bytes → Except String ℤ
  parseNumber32 : Bytes → Except String ℕ
  parseNumber64 : Bytes → Except String ℕ
  parseFlag : Bytes → Except String Flag
  parseSequenceSet : Bytes → Except String View.Sequence
  unwrapString : Bytes → Except String String
  lossy : Bytes → String

/-! ## One criterion -/

def nextArgument (missing : String) : List Token → Except String (Bytes × List Token)
  | [] => .error missing
  | token :: rest => .ok (token.bytes, rest)

/-- A criterion with one argument. -/
def withArgument {β γ : Type} (missing : String) (read : Bytes → Except String β) (make : β → γ)
    (rest : List Token) : Except String (γ × List Token) := do
  let (value, rest) ← nextArgument missing rest
  let value ← read value
  return (make value, rest)

variable (d : Readers Flag)

/-- The parameters of `MODSEQ`. -/
def parseModSeq (rest : List Token) :
    Except String (Criterion Flag × List Token) := do
  let (param, rest) ← nextArgument "Missing MODSEQ parameters." rest
  if param.isEmpty || param.any fun ch => !(48 ≤ ch && ch ≤ 57) then
    if param.length ≤ 7 || !(ascii "/flags/").isPrefixOf param then
      throw ("Unsupported MODSEQ parameter '" ++ d.lossy param ++ "'.")
    let flag ← d.parseFlag (param.drop 7)
    let (entry, rest) ← match rest with
      | [] => throw "Missing MODSEQ entry-type-req parameter."
      | token :: rest => match token with
        | .argument value =>
          if eqIgnoreAsciiCase value (ascii "all") then pure (ModSeqEntry.all flag, rest)
          else if eqIgnoreAsciiCase value (ascii "shared") then pure (.shared flag, rest)
          else if eqIgnoreAsciiCase value (ascii "priv") then pure (.priv flag, rest)
          else throw ("Unsupported MODSEQ parameter '" ++ d.lossy value ++ "'.")
        | token => throw ("Unsupported MODSEQ parameter '" ++ d.lossy token.bytes ++ "'.")
    withArgument "Missing MODSEQ mod-sequence-valzer parameter." d.parseNumber64
      (fun value => .modSeq value entry) rest
  else
    let value ← d.parseNumber64 param
    return (.modSeq value .none, rest)

/-- The criterion that starts with `value`; `OR` and `NOT` are not among them. -/
def parseCriterion (value : Bytes) (rest : List Token) :
    Except String (Criterion Flag × List Token) :=
  let text := withArgument (γ := Criterion Flag) "Expected string." d.decodeArgument
  let date := withArgument (γ := Criterion Flag) "Expected date" d.parseDate
  let flag := withArgument (γ := Criterion Flag) "Expected keyword" d.parseFlag
  let number := withArgument (γ := Criterion Flag) "Expected integer" d.parseNumber32
  match keyword value with
  | some .all => .ok (.all, rest)
  | some .answered => .ok (.answered, rest)
  | some .bcc => text .bcc rest
  | some .before => date .before rest
  | some .body => text .body rest
  | some .cc => text .cc rest
  | some .deleted => .ok (.deleted, rest)
  | some .draft => .ok (.draft, rest)
  | some .flagged => .ok (.flagged, rest)
  | some .sender => text .sender rest
  | some .header => do
    let (name, rest) ← withArgument "Expected string." d.decodeArgument id rest
    text (.header name) rest
  | some .keyword => flag .keyword rest
  | some .larger => number .larger rest
  | some .on => date .on rest
  | some .seen => .ok (.seen, rest)
  | some .sentBefore => date .sentBefore rest
  | some .sentOn => date .sentOn rest
  | some .sentSince => date .sentSince rest
  | some .since => date .since rest
  | some .smaller => number .smaller rest
  | some .subject => text .subject rest
  | some .text => text .text rest
  | some .to => text .to rest
  | some .uid => withArgument "Missing sequence set." d.parseSequenceSet (.sequence · true) rest
  | some .unanswered => .ok (.unanswered, rest)
  | some .undeleted => .ok (.undeleted, rest)
  | some .undraft => .ok (.undraft, rest)
  | some .unflagged => .ok (.unflagged, rest)
  | some .unkeyword => flag .unkeyword rest
  | some .unseen => .ok (.unseen, rest)
  | some .older => number .older rest
  | some .younger => number .younger rest
  | some .old => .ok (.old, rest)
  | some .new => .ok (.new, rest)
  | some .recent => .ok (.recent, rest)
  | some .modSeq => parseModSeq d rest
  | some .emailId => withArgument "Expected an EMAILID value." d.unwrapString .emailId rest
  | some .threadId => withArgument "Expected an THREADID value." d.unwrapString .threadId rest
  | some .or | some .not | none =>
    (d.parseSequenceSet value).map fun sequence => (.sequence sequence false, rest)

/-! ## The loop -/

/-- What the loop meets: a criterion with its arguments, an operator or a parenthesis. -/
inductive Item (α : Type) where
  | key (criterion : α)
  | or
  | not
  | parenthesisOpen
  | parenthesisClose

def nextItem :
    Token → List Token → Except String (Item (Criterion Flag) × List Token)
  | .argument value, rest =>
    match keyword value with
    | some .or => .ok (.or, rest)
    | some .not => .ok (.not, rest)
    | _ => (parseCriterion d value rest).map fun parsed => (.key parsed.1, parsed.2)
  | .parenthesisOpen, rest => .ok (.parenthesisOpen, rest)
  | .parenthesisClose, rest => .ok (.parenthesisClose, rest)
  | token, _ => .error ("Unexpected token \"" ++ d.lossy token.bytes ++ "\".")

/-- `filters`, `operator` and `filters_len`. -/
structure Level (α : Type) where
  filters : Filters α
  operator : BoolOp
  filtersLen : ℕ

/-- The level being filled, and `filters_stack`. -/
structure State (α : Type) where
  level : Level α
  stack : List (Level α)

section

variable {α : Type}

/-- One turn of the loop that closes levels: `And` groups are spliced into the level below, unless
that is an `Or` and they have not exactly one operand. -/
def closeInto (level prev : Level α) : Level α :=
  if level.operator = .and ∧ (prev.operator ≠ .or ∨ level.filtersLen = 1) then
    { filters := prev.filters ++ level.filters
      operator := prev.operator
      filtersLen := level.filtersLen + prev.filtersLen }
  else
    { filters := prev.filters ++ .opening level.operator :: (level.filters ++ [.closing])
      operator := prev.operator
      filtersLen := prev.filtersLen + 1 }

def closeLevels (level : Level α) : List (Level α) → State α
  | [] => ⟨level, []⟩
  | prev :: stack =>
    let level := closeInto level prev
    if level.operator = .and ∨ (level.operator = .or ∧ level.filtersLen < 2) then ⟨level, stack⟩
    else closeLevels level stack

def openLevel (operator : BoolOp) (s : State α) : Except String (State α) :=
  if s.stack.length > 10 then .error "Too many nested filters"
  else .ok ⟨⟨[], operator, 0⟩, s.level :: s.stack⟩

/-- The body of the loop. -/
def parseItem (s : State α) : Item α → Except String (State α)
  | .key criterion =>
    let level :=
      { s.level with
        filters := s.level.filters ++ [.leaf criterion], filtersLen := s.level.filtersLen + 1 }
    if s.stack ≠ [] ∧ ((level.operator = .or ∧ level.filtersLen = 2) ∨
        (level.operator = .not ∧ level.filtersLen = 1)) then
      .ok (closeLevels level s.stack)
    else .ok ⟨level, s.stack⟩
  | .or => openLevel .or s
  | .not => openLevel .not s
  | .parenthesisOpen => openLevel .and s
  | .parenthesisClose =>
    if s.stack = [] then .error "Unexpected parenthesis."
    else .ok (closeLevels s.level s.stack)

end

/-- The loop over the tokens; every turn takes one at least, so their number suffices as fuel. -/
def parseLoop (d : Readers Flag) :
    ℕ → List Token → State (Criterion Flag) → Except String (State (Criterion Flag))
  | _, [], s => .ok s
  | 0, _ :: _, _ => .error "Out of fuel"
  | fuel + 1, token :: rest, s => do
    let (item, rest) ← nextItem d token rest
    let s ← parseItem s item
    parseLoop d fuel rest s

def parseFilters (tokens : List Token) :
    Except String (Filters (Criterion Flag)) :=
  (parseLoop d tokens.length tokens ⟨⟨[], .and, 0⟩, []⟩).map fun s => s.level.filters

/-! ## The command -/

inductive ResultOption where
  | min | max | all | count | save | context
deriving DecidableEq

def ResultOption.parse (lossy : Bytes → String) (value : Bytes) : Except String ResultOption :=
  if eqIgnoreAsciiCase value (ascii "min") then .ok .min
  else if eqIgnoreAsciiCase value (ascii "max") then .ok .max
  else if eqIgnoreAsciiCase value (ascii "all") then .ok .all
  else if eqIgnoreAsciiCase value (ascii "count") then .ok .count
  else if eqIgnoreAsciiCase value (ascii "save") then .ok .save
  else if eqIgnoreAsciiCase value (ascii "context") then .ok .context
  else .error ("Invalid result option '" ++ lossy value ++ "'.")

/-- The options up to the closing parenthesis, or to the end. -/
def resultOptionsLoop (lossy : Bytes → String) :
    List Token → Except String (List ResultOption × List Token)
  | [] => .ok ([], [])
  | .parenthesisClose :: rest => .ok ([], rest)
  | .argument value :: rest => do
    let option ← ResultOption.parse lossy value
    let (options, rest) ← resultOptionsLoop lossy rest
    return (option :: options, rest)
  | _ :: _ => .error "Invalid result option argument."

def parseResultOptions (lossy : Bytes → String) :
    List Token → Except String (List ResultOption × List Token)
  | .parenthesisOpen :: rest => resultOptionsLoop lossy rest
  | _ => .error "Invalid result option, expected parenthesis."

structure Arguments (Flag : Type) where
  isEsearch : Bool
  resultOptions : List ResultOption
  filter : Filters (Criterion Flag)

/-- What stands before the criteria: result options and the charset, in any order. -/
def parsePrelude (lossy : Bytes → String) :
    ℕ → Bool × List ResultOption × Option Bytes → List Token →
      Except String ((Bool × List ResultOption × Option Bytes) × List Token)
  | fuel + 1, (isEsearch, resultOptions, charset), .argument value :: rest =>
    if eqIgnoreAsciiCase value (ascii "return") then do
      let (options, rest) ← parseResultOptions lossy rest
      parsePrelude lossy fuel (true, options, charset) rest
    else if eqIgnoreAsciiCase value (ascii "charset") then do
      let (name, rest) ← nextArgument "Missing charset." rest
      parsePrelude lossy fuel (isEsearch, resultOptions, some name) rest
    else .ok ((isEsearch, resultOptions, charset), .argument value :: rest)
  | _, options, tokens => .ok (options, tokens)

/-- `parse_filters` as its callers use it: a list without filters is refused. -/
def parseCriteria (tokens : List Token) :
    Except String (Filters (Criterion Flag)) := do
  let filter ← parseFilters d tokens
  if filter.isEmpty then throw "No filters found in command."
  return filter

/-- `parse_search`; `readers` are those for the last charset that was given. -/
def parseSearch (isRev2 : Bool) (readers : Option Bytes → Readers Flag) (tokens : List Token) :
    Except String (Arguments Flag) := do
  if tokens.isEmpty then throw "Missing search criteria."
  let ((isEsearch, resultOptions, charset), tokens) ←
    parsePrelude (readers none).lossy tokens.length (isRev2, [], none) tokens
  let filter ← parseCriteria (readers charset) tokens
  return { isEsearch := isEsearch, resultOptions := resultOptions, filter := filter }

end MailServer.Imap.SearchCommand
