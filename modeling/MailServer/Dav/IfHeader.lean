import MailServer.Dav.Headers
import MailServer.Scheduling.Calendar

/-!
# Conditional requests

`RequestHeaders::parse` (`dav-proto/src/parser/header.rs`) reads the `If`, `If-Match` and
`If-None-Match` headers into one list of alternatives, which `validate_headers` goes through.

Principal results: `parseIf_written`, `validateHeaders_precondition_iff`, `followsGrammar_iff`.
-/

namespace MailServer.Dav

open List
open MailServer.Scheduling (trim)

/-! ## The parser -/

def isAsciiWhitespace (ch : Char) : Bool :=
  ch == ' ' || ch == '\t' || ch == '\n' || ch == '\x0c' || ch == '\r'

mutual

/-- `RequestHeaders::parse_if`, outside of any list. The loops of the source share one iterator. -/
def parseIf (if_ : List If) (resource : Option Str) : Str → List If
  | [] => if_
  | ch :: rest =>
    if ch = '<' ∧ resource = none then parseTag if_ [] rest
    else if ch = '(' then parseList if_ resource [] false rest
    else if isAsciiWhitespace ch then parseIf if_ resource rest
    else if_

/-- The tag, up to its closing bracket. -/
def parseTag (if_ : List If) (read : Str) : Str → List If
  | [] => if_
  | ch :: rest =>
    if ch = '>' then parseIf if_ (some read) rest else parseTag if_ (read ++ [ch]) rest

def parseList (if_ : List If) (resource : Option Str) (conditions : List Condition)
    (isNot : Bool) : Str → List If
  | [] => if_
  | ch :: rest =>
    if ch = 'N' then
      match rest with
      | 'o' :: 't' :: rest => parseList if_ resource conditions true rest
      | _ => if_
    else if ch = '<' then parseCondition if_ resource conditions isNot false [] rest
    else if ch = '[' then parseCondition if_ resource conditions isNot true [] rest
    -- `resource.take()`: the lists that follow have no resource.
    else if ch = ')' then parseIf (if_ ++ [⟨resource, conditions⟩]) none rest
    else if isAsciiWhitespace ch then parseList if_ resource conditions isNot rest
    else if_

/-- The text of a condition, up to the bracket that closes it. -/
def parseCondition (if_ : List If) (resource : Option Str) (conditions : List Condition)
    (isNot isEtag : Bool) (read : Str) : Str → List If
  | [] => if_
  | ch :: rest =>
    if ch = (if isEtag then ']' else '>') then
      let condition : Condition :=
        if isEtag then .eTag isNot (String.ofList read) else .stateToken isNot read
      parseList if_ resource (conditions ++ [condition]) false rest
    else parseCondition if_ resource conditions isNot isEtag (read ++ [ch]) rest

end

def parseIfMatch (if_ : List If) (value : Str) (isNot : Bool) : List If :=
  if value = ['*'] then if_ ++ [⟨none, [.exists_ isNot]⟩]
  else
    let etags := (value.splitOn ',').map fun etag =>
      Condition.eTag isNot (String.ofList (trim etag))
    if isNot then if_ ++ [⟨none, etags⟩] else if_ ++ etags.map fun etag => ⟨none, [etag]⟩

/-- `RequestHeaders::parse`, of the headers that the checks read. -/
def RequestHeaders.parse (headers : RequestHeaders) (field : Str × Str) : RequestHeaders :=
  let key := field.1.map Char.toLower
  if key = "if".toList then { headers with if_ := parseIf headers.if_ none field.2 }
  else if key = "if-match".toList then
    { headers with if_ := parseIfMatch headers.if_ field.2 false }
  else if key = "if-none-match".toList then
    { headers with if_ := parseIfMatch headers.if_ field.2 true }
  else if key = "overwrite".toList then { headers with overwriteFail := field.2 == ['F'] }
  else headers

/-! ## The grammar -/

/-- The condition can stand in a list: the bracket that closes it is not in its text. -/
def Condition.Readable : Condition → Prop
  | .stateToken _ token => '>' ∉ token
  | .eTag _ tag => ']' ∉ tag.toList
  | .exists_ _ => False

def Condition.words : Condition → List Str
  | .stateToken isNot token =>
    (if isNot then ["Not".toList] else []) ++ ['<' :: token ++ ['>']]
  | .eTag isNot tag => (if isNot then ["Not".toList] else []) ++ ['[' :: tag.toList ++ [']']]
  | .exists_ _ => []

structure IfList where
  conditions : List Condition
  readable : ∀ cond ∈ conditions, cond.Readable

def IfList.words (list : IfList) : List Str :=
  ['('] :: list.conditions.flatMap Condition.words ++ [[')']]

/-- A tag with the lists up to the next one. -/
structure TaggedLists where
  resource : Str
  list : IfList
  lists : List IfList
  readable : '>' ∉ resource

def TaggedLists.words (tagged : TaggedLists) : List Str :=
  ('<' :: tagged.resource ++ ['>']) :: (tagged.list :: tagged.lists).flatMap IfList.words

/-- The text of an `If` header, read by its grammar. -/
structure IfHeader where
  untagged : List IfList
  tagged : List TaggedLists
  nonempty : untagged ≠ [] ∨ tagged ≠ []

def IfHeader.words (header : IfHeader) : List Str :=
  header.untagged.flatMap IfList.words ++ header.tagged.flatMap TaggedLists.words

/-- The text is made of the words, with any whitespace around them. -/
inductive Spaced : Str → List Str → Prop
  | nil {space : Str} (hspace : ∀ ch ∈ space, isAsciiWhitespace ch) : Spaced space []
  | cons {space word text : Str} {words : List Str} (hspace : ∀ ch ∈ space, isAsciiWhitespace ch)
    (hrest : Spaced text words) : Spaced (space ++ (word ++ text)) (word :: words)

/-- The lists of a header, each with the resource that it is about. -/
def IfHeader.lists (header : IfHeader) : List If :=
  header.untagged.map (fun list => ⟨none, list.conditions⟩) ++
    header.tagged.flatMap fun tagged =>
      (tagged.list :: tagged.lists).map fun list => ⟨some tagged.resource, list.conditions⟩

/-- The lists with the tag on the first one after it only. -/
def IfHeader.taggedOnce (header : IfHeader) : List If :=
  header.untagged.map (fun list => ⟨none, list.conditions⟩) ++
    header.tagged.flatMap fun tagged =>
      ⟨some tagged.resource, tagged.list.conditions⟩ ::
        tagged.lists.map fun list => ⟨none, list.conditions⟩

/-- What `If-Match` and `If-None-Match` name. -/
inductive EtagMatch where
  | any
  | tags (tags : List String)

def EtagMatch.Written (value : Str) : EtagMatch → Prop
  | .any => value = ['*']
  | .tags named => value ≠ ['*'] ∧ ∃ pieces : List Str, pieces ≠ [] ∧
      value = [','].intercalate pieces ∧ (∀ piece ∈ pieces, ',' ∉ piece) ∧
      named = pieces.map fun piece => String.ofList (trim piece)

/-- One of the three headers. -/
inductive Precondition where
  | if_ (header : IfHeader)
  | ifMatch (etags : EtagMatch)
  | ifNoneMatch (etags : EtagMatch)

def Precondition.key : Precondition → Str
  | .if_ _ => "if".toList
  | .ifMatch _ => "if-match".toList
  | .ifNoneMatch _ => "if-none-match".toList

def Precondition.Written (value : Str) : Precondition → Prop
  | .if_ header => Spaced value header.words
  | .ifMatch etags | .ifNoneMatch etags => etags.Written value

/-- The fields of a request, among which the preconditions stand in turn. -/
inductive Fields : List (Str × Str) → List Precondition → Prop
  | nil : Fields [] []
  | precondition {field : Str × Str} {fields : List (Str × Str)} {line : Precondition}
    {lines : List Precondition} (hkey : field.1.map Char.toLower = line.key)
    (hvalue : line.Written field.2) (hrest : Fields fields lines) :
    Fields (field :: fields) (line :: lines)
  | other {field : Str × Str} {fields : List (Str × Str)} {lines : List Precondition}
    (hkey : ∀ line : Precondition, field.1.map Char.toLower ≠ line.key)
    (hrest : Fields fields lines) : Fields (field :: fields) lines

/-! ## What the headers say -/

section Meaning

variable (server : DavServer) (resources : List ResourceState) (locks : LockCaches)

def requestState : ResourceState :=
  asStored server locks (resources.head?.getD resourceNotFound)

def EtagMatch.Names (s : ResourceState) : EtagMatch → Prop
  | .any => s.etag.isSome
  | .tags named => ∃ tag ∈ named, s.etag = some tag

/-- All conditions of the list hold of the resource it is about. -/
def If.Holds (if_ : If) : Prop :=
  ∀ cond ∈ if_.list, cond.holds (asStored server locks (target server resources if_))

def Precondition.Satisfied : Precondition → Prop
  | .if_ header => ∃ if_ ∈ header.lists, if_.Holds server resources locks
  | .ifMatch etags => etags.Names (requestState server resources locks)
  | .ifNoneMatch etags => ¬ etags.Names (requestState server resources locks)

/-- The precondition with the lists after the first one of a tag about the resource of the request,
and without the lists that have no condition. -/
def Precondition.SatisfiedOnce : Precondition → Prop
  | .if_ header => ∃ if_ ∈ header.taggedOnce, if_.list ≠ [] ∧ if_.Holds server resources locks
  | line => line.Satisfied server resources locks

end Meaning

/-! ## Reading a header -/

variable {if_ : List If} {resource : Option Str} {conditions : List Condition}
  {isNot isEtag : Bool} {space text : Str} {words : List Str}

theorem parseIf_space (hspace : ∀ ch ∈ space, isAsciiWhitespace ch) :
    parseIf if_ resource (space ++ text) = parseIf if_ resource text := by
  induction space with
  | nil => rfl
  | cons ch space ih =>
    have hch := hspace ch (.head _)
    have htag : ch ≠ '<' := by rintro rfl; cases hch
    have hopen : ch ≠ '(' := by rintro rfl; cases hch
    rw [cons_append, parseIf, if_neg (fun h => htag h.1), if_neg hopen, if_pos hch]
    exact ih fun ch h => hspace ch (.tail _ h)

/-- What the loop over a list does where no negation begins. -/
theorem parseList_cons {ch : Char} (hch : ch ≠ 'N') :
    parseList if_ resource conditions isNot (ch :: text) =
      if ch = '<' then parseCondition if_ resource conditions isNot false [] text
      else if ch = '[' then parseCondition if_ resource conditions isNot true [] text
      else if ch = ')' then parseIf (if_ ++ [⟨resource, conditions⟩]) none text
      else if isAsciiWhitespace ch then parseList if_ resource conditions isNot text
      else if_ := by
  rw [parseList.eq_def]
  exact if_neg hch

theorem parseList_space (hspace : ∀ ch ∈ space, isAsciiWhitespace ch) :
    parseList if_ resource conditions isNot (space ++ text) =
      parseList if_ resource conditions isNot text := by
  induction space with
  | nil => rfl
  | cons ch space ih =>
    have hch := hspace ch (.head _)
    have hne (c : Char) (hc : isAsciiWhitespace c = false) : ch ≠ c := by
      rintro rfl
      exact Bool.false_ne_true (hc.symm.trans hch)
    rw [cons_append, parseList_cons (hne 'N' (by decide)), if_neg (hne '<' (by decide)),
      if_neg (hne '[' (by decide)), if_neg (hne ')' (by decide)), if_pos hch]
    exact ih fun ch h => hspace ch (.tail _ h)

theorem parseTag_append {uri read : Str} (huri : '>' ∉ uri) :
    parseTag if_ read (uri ++ '>' :: text) = parseIf if_ (some (read ++ uri)) text := by
  induction uri generalizing read with
  | nil => rw [nil_append, parseTag, if_pos rfl, append_nil]
  | cons ch uri ih =>
    rw [mem_cons, not_or] at huri
    rw [cons_append, parseTag, if_neg (Ne.symm huri.1), ih huri.2, append_assoc,
      singleton_append]

theorem parseCondition_append {value read : Str}
    (hvalue : (if isEtag then ']' else '>') ∉ value) :
    parseCondition if_ resource conditions isNot isEtag read
        (value ++ (if isEtag then ']' else '>') :: text) =
      parseList if_ resource (conditions ++ [if isEtag then
        .eTag isNot (String.ofList (read ++ value)) else .stateToken isNot (read ++ value)])
        false text := by
  induction value generalizing read with
  | nil => rw [nil_append, parseCondition, if_pos rfl, append_nil]
  | cons ch value ih =>
    rw [mem_cons, not_or] at hvalue
    rw [cons_append, parseCondition, if_neg (Ne.symm hvalue.1), ih hvalue.2,
      append_assoc, singleton_append]

theorem parseList_not (htext : Spaced text ("Not".toList :: words)) :
    ∃ rest, Spaced rest words ∧
      parseList if_ resource conditions false text =
        parseList if_ resource conditions true rest := by
  cases htext with
  | cons hspace hrest =>
    refine ⟨_, hrest, ?_⟩
    rw [parseList_space hspace]
    exact parseList.eq_2 ..

theorem parseList_bracket (isEtag : Bool) {value : Str}
    (hvalue : (if isEtag then ']' else '>') ∉ value)
    (htext : Spaced text
      (((if isEtag then '[' else '<') :: value ++ [if isEtag then ']' else '>']) :: words)) :
    ∃ rest, Spaced rest words ∧
      parseList if_ resource conditions isNot text =
        parseList if_ resource (conditions ++ [if isEtag then
          .eTag isNot (String.ofList value) else .stateToken isNot value]) false rest := by
  cases htext with
  | @cons _ _ rest _ hspace hrest =>
    refine ⟨rest, hrest, ?_⟩
    have hstart : parseList if_ resource conditions isNot
        ((if isEtag then '[' else '<') :: value ++ [if isEtag then ']' else '>'] ++ rest) =
          parseCondition if_ resource conditions isNot isEtag []
            (value ++ (if isEtag then ']' else '>') :: rest) := by
      rw [cons_append, cons_append, append_assoc, singleton_append,
        parseList_cons (by cases isEtag <;> decide)]
      cases isEtag <;> simp
    rw [parseList_space hspace, hstart, parseCondition_append hvalue, nil_append]

theorem parseList_condition {cond : Condition} (hreadable : cond.Readable)
    (htext : Spaced text (cond.words ++ words)) :
    ∃ rest, Spaced rest words ∧
      parseList if_ resource conditions false text =
        parseList if_ resource (conditions ++ [cond]) false rest := by
  cases cond with
  | stateToken isNot token =>
    cases isNot with
    | false => exact parseList_bracket false hreadable htext
    | true =>
      obtain ⟨middle, hmiddle, hnot⟩ := parseList_not htext
      rw [hnot]
      exact parseList_bracket false hreadable hmiddle
  | eTag isNot tag =>
    rw [← String.ofList_toList (s := tag)]
    cases isNot with
    | false => exact parseList_bracket true hreadable htext
    | true =>
      obtain ⟨middle, hmiddle, hnot⟩ := parseList_not htext
      rw [hnot]
      exact parseList_bracket true hreadable hmiddle
  | exists_ isNot => exact hreadable.elim

theorem parseList_conditions (if_ : List If) (resource : Option Str)
    (conditions : List Condition) {conds}
    (hreadable : ∀ cond ∈ conds, cond.Readable)
    (htext : Spaced text (conds.flatMap Condition.words ++ words)) :
    ∃ rest, Spaced rest words ∧
      parseList if_ resource conditions false text =
        parseList if_ resource (conditions ++ conds) false rest := by
  induction conds generalizing conditions text with
  | nil => exact ⟨text, htext, by rw [append_nil]⟩
  | cons cond conds ih =>
    rw [flatMap_cons, append_assoc] at htext
    obtain ⟨middle, hmiddle, hfirst⟩ := parseList_condition (hreadable cond (.head _)) htext
    obtain ⟨rest, hrest, heq⟩ := ih (conditions ++ [cond])
      (fun c hc => hreadable c (.tail _ hc)) hmiddle
    refine ⟨rest, hrest, ?_⟩
    rw [hfirst, heq, append_assoc, singleton_append]

/-- **A list is read with the tag before it, and leaves none for the next one.** -/
theorem parseIf_list (if_ : List If) (resource : Option Str) (list : IfList)
    (htext : Spaced text (list.words ++ words)) :
    ∃ rest, Spaced rest words ∧
      parseIf if_ resource text = parseIf (if_ ++ [⟨resource, list.conditions⟩]) none rest := by
  rw [IfList.words, append_assoc, cons_append] at htext
  cases htext with
  | @cons _ _ middle _ hspace hmiddle =>
    obtain ⟨closing, hclosing, hconds⟩ :=
      parseList_conditions if_ resource [] list.readable hmiddle
    cases hclosing with
    | @cons _ _ rest _ hspace' hrest =>
      refine ⟨rest, hrest, ?_⟩
      rw [parseIf_space hspace, singleton_append, parseIf, if_neg (by simp), if_pos rfl, hconds,
        parseList_space hspace', singleton_append, parseList_cons (by decide), nil_append]
      simp

theorem parseIf_lists (if_ : List If) (lists : List IfList)
    (htext : Spaced text (lists.flatMap IfList.words ++ words)) :
    ∃ rest, Spaced rest words ∧ parseIf if_ none text =
      parseIf (if_ ++ lists.map fun list => ⟨none, list.conditions⟩) none rest := by
  induction lists generalizing if_ text with
  | nil => exact ⟨text, htext, by rw [map_nil, append_nil]⟩
  | cons list lists ih =>
    rw [flatMap_cons, append_assoc] at htext
    obtain ⟨middle, hmiddle, hfirst⟩ := parseIf_list if_ none list htext
    obtain ⟨rest, hrest, heq⟩ := ih _ hmiddle
    refine ⟨rest, hrest, ?_⟩
    rw [hfirst, heq, map_cons, append_assoc, singleton_append]

theorem parseIf_tagged (if_ : List If) (tagged : List TaggedLists)
    (htext : Spaced text (tagged.flatMap TaggedLists.words ++ words)) :
    ∃ rest, Spaced rest words ∧ parseIf if_ none text =
      parseIf (if_ ++ tagged.flatMap fun tagged =>
        ⟨some tagged.resource, tagged.list.conditions⟩ ::
          tagged.lists.map fun list => ⟨none, list.conditions⟩) none rest := by
  induction tagged generalizing if_ text with
  | nil => exact ⟨text, htext, by rw [flatMap_nil, append_nil]⟩
  | cons first tagged ih =>
    rw [flatMap_cons, append_assoc, TaggedLists.words, cons_append] at htext
    cases htext with
    | @cons _ _ lists _ hspace hlists =>
      rw [flatMap_cons, append_assoc] at hlists
      obtain ⟨others, hothers, hlist⟩ := parseIf_list if_
        (some first.resource) first.list hlists
      obtain ⟨following, hfollowing, hmore⟩ := parseIf_lists _ first.lists hothers
      obtain ⟨rest, hrest, heq⟩ := ih _ hfollowing
      refine ⟨rest, hrest, ?_⟩
      rw [parseIf_space hspace, cons_append, cons_append, parseIf, if_pos ⟨rfl, rfl⟩,
        append_assoc, singleton_append, parseTag_append first.readable, nil_append,
        hlist, hmore, heq]
      simp only [flatMap_cons, append_assoc, nil_append, cons_append]

/-- **What the parser makes of an `If` header.** -/
theorem parseIf_written {header : IfHeader} (htext : Spaced text header.words) :
    parseIf if_ none text = if_ ++ header.taggedOnce := by
  have hwords : header.words = header.untagged.flatMap IfList.words ++
      (header.tagged.flatMap TaggedLists.words ++ []) := by rw [append_nil]; rfl
  rw [hwords] at htext
  obtain ⟨middle, hmiddle, huntagged⟩ := parseIf_lists if_ header.untagged htext
  obtain ⟨rest, hrest, htagged⟩ := parseIf_tagged _ header.tagged hmiddle
  cases hrest with
  | nil hspace =>
    rw [huntagged, htagged, ← append_nil rest, parseIf_space hspace, parseIf,
      IfHeader.taggedOnce, append_assoc]

/-! ## The alternatives of a request -/

variable {server : DavServer} {resources : List ResourceState} {locks : LockCaches}
  {headers : RequestHeaders} {method : DavMethod}

theorem ifHolds_append {ifs ifs' : List If} : IfHolds server resources locks (ifs ++ ifs') ↔
    IfHolds server resources locks ifs ∨ IfHolds server resources locks ifs' := by
  unfold IfHolds
  simp only [mem_append, or_and_right, exists_or]

theorem ifHolds_untagged {list} :
    IfHolds server resources locks [⟨none, list⟩] ↔
      list ≠ [] ∧ ∀ cond ∈ list, cond.holds (requestState server resources locks) := by
  unfold IfHolds
  simp only [mem_singleton, exists_eq_left]
  rfl

/-- The alternatives of `If-Match` and `If-None-Match` hold as the headers say. -/
theorem parseIfMatch_written {etags : EtagMatch} (hvalue : etags.Written text) (isNot : Bool) :
    ∃ ifs ≠ [], parseIfMatch if_ text isNot = if_ ++ ifs ∧
      (IfHolds server resources locks ifs ↔
        if isNot then ¬ etags.Names (requestState server resources locks)
        else etags.Names (requestState server resources locks)) := by
  unfold parseIfMatch
  cases etags with
  | any =>
    refine ⟨_, cons_ne_nil _ _, if_pos hvalue, ?_⟩
    rw [ifHolds_untagged]
    cases isNot <;> simp [Condition.holds, EtagMatch.Names]
  | tags named =>
    obtain ⟨hstar, pieces, hne, hpieces, hcomma, rfl⟩ := hvalue
    have hsplit : text.splitOn ',' = pieces := by
      rw [hpieces]
      exact splitOn_intercalate ',' hcomma hne
    rw [if_neg hstar, hsplit]
    cases isNot with
    | true =>
      refine ⟨_, cons_ne_nil _ _, rfl, ?_⟩
      rw [ifHolds_untagged, and_iff_right (by simpa using hne)]
      simp [Condition.holds, EtagMatch.Names]
    | false =>
      refine ⟨_, by simpa using hne, rfl, ?_⟩
      have heach : IfHolds server resources locks ((pieces.map fun etag =>
          Condition.eTag false (String.ofList (trim etag))).map fun etag => ⟨none, [etag]⟩) ↔
          ∃ piece ∈ pieces, IfHolds server resources locks
            [⟨none, [.eTag false (String.ofList (trim piece))]⟩] := by
        simp [IfHolds]
      rw [heach]
      simp only [ifHolds_untagged]
      simp [Condition.holds, EtagMatch.Names]

/-- **A precondition adds alternatives, one of which holds iff it is satisfied once its tags are
lost.** -/
theorem parse_precondition (headers : RequestHeaders) {field : Str × Str} {line : Precondition}
    (hkey : field.1.map Char.toLower = line.key) (hvalue : line.Written field.2) :
    ∃ ifs ≠ [], (headers.parse field).if_ = headers.if_ ++ ifs ∧
      (IfHolds server resources locks ifs ↔ line.SatisfiedOnce server resources locks) := by
  unfold RequestHeaders.parse
  rw [hkey]
  cases line with
  | if_ header =>
    refine ⟨header.taggedOnce, ?_, parseIf_written hvalue, Iff.rfl⟩
    rcases header.nonempty with hne | hne
    · simp [IfHeader.taggedOnce, hne]
    · obtain ⟨first, rest, htagged⟩ := exists_cons_of_ne_nil hne
      simp [IfHeader.taggedOnce, htagged]
  | ifMatch etags => exact parseIfMatch_written hvalue false
  | ifNoneMatch etags => exact parseIfMatch_written hvalue true

theorem parse_other {field : Str × Str}
    (hkey : ∀ line : Precondition, field.1.map Char.toLower ≠ line.key) :
    (headers.parse field).if_ = headers.if_ := by
  have hheader : field.1.map Char.toLower ≠ "if".toList :=
    hkey (.if_ ⟨[⟨[], nofun⟩], [], .inl (cons_ne_nil _ _)⟩)
  have hmatch : field.1.map Char.toLower ≠ "if-match".toList := hkey (.ifMatch .any)
  have hnone : field.1.map Char.toLower ≠ "if-none-match".toList := hkey (.ifNoneMatch .any)
  unfold RequestHeaders.parse
  generalize field.1.map Char.toLower = key at hheader hmatch hnone
  rw [if_neg hheader, if_neg hmatch, if_neg hnone]
  split
  · rfl
  · rfl

/-- **What is made of all fields of a request.** -/
theorem parse_fields (server : DavServer) (resources : List ResourceState) (locks : LockCaches)
    (headers : RequestHeaders) {fields} {lines}
    (hfields : Fields fields lines) :
    ∃ ifs, (fields.foldl RequestHeaders.parse headers).if_ = headers.if_ ++ ifs ∧
      (ifs = [] ↔ lines = []) ∧
      (IfHolds server resources locks ifs ↔
        ∃ line ∈ lines, line.SatisfiedOnce server resources locks) := by
  induction hfields generalizing headers with
  | nil => exact ⟨[], (append_nil _).symm, by simp, by simp [IfHolds]⟩
  | precondition hkey hvalue _ ih =>
    obtain ⟨first, hne, hfirst, hholds⟩ := parse_precondition headers hkey hvalue
    obtain ⟨ifs, hifs, -, hrest⟩ := ih (headers.parse _)
    refine ⟨first ++ ifs, ?_, by simp [hne], ?_⟩
    · rw [foldl_cons, hifs, hfirst, append_assoc]
    · rw [ifHolds_append, hholds, hrest, exists_mem_cons_iff]
  | other hkey _ ih =>
    obtain ⟨ifs, hifs, hsame⟩ := ih (headers.parse _)
    refine ⟨ifs, ?_, hsame⟩
    rw [foldl_cons, hifs, parse_other hkey]

/-! ## The answer of the check -/

/-- What the locks refuse has a condition. -/
theorem validateLocks_ne_code {pos : ℕ} {code : StatusCode} :
    (validateLocks server headers method pos locks resources).1 ≠ .error (.code code) := by
  induction resources generalizing pos locks with
  | nil =>
    intro h
    cases h
  | cons resource rest ih =>
    unfold validateLocks
    split
    · exact ih
    · split
      · exact ih
      · split
        · intro h
          cases h
        · exact ih
        · intro h
          cases h

/-- **A request is refused by its preconditions iff it must not overwrite what is there, or no
alternative of its headers holds.** -/
theorem validateHeaders_precondition_iff (hne : resources ≠ []) :
    validateHeaders server headers resources locks method =
        .error (preconditionError headers method) ↔
      (method.overwrites ∧ refusesOverwrite headers resources) ∨
        (headers.if_ ≠ [] ∧ ¬ IfHolds server resources locks headers.if_) := by
  have hreads : method.reads → method.overwrites = false := by
    cases method <;> decide
  have hcode : ∃ code, preconditionError headers method = .code code := ⟨_, rfl⟩
  obtain ⟨code, hcode⟩ := hcode
  obtain ⟨hloadedExt, hloaded⟩ := foldl_addLockData server resources locks
  unfold validateHeaders
  by_cases hread : method.reads ∧ headers.if_ = []
  · simp [hread, hreads hread.1]
  · rw [if_neg hread]
    by_cases hoverwrite : method.overwrites ∧ refusesOverwrite headers resources
    · have hwrites : method.reads = false := by
        rw [← Bool.not_eq_true]
        exact fun h => Bool.false_ne_true ((hreads h).symm.trans hoverwrite.1)
      simp [hoverwrite, preconditionError, hwrites]
    · rw [if_neg hoverwrite, or_iff_right hoverwrite]
      have hlocks : ∃ response loaded, Extends server locks loaded ∧
          response ≠ .error (.code code) ∧
          (if method.skipsLocks then (.ok (), resources.foldl (addLockData server) locks)
            else validateLocks server headers method 0
              (resources.foldl (addLockData server) locks) resources) = (response, loaded) := by
        cases hmethod : method.skipsLocks with
        | true => exact ⟨.ok (), _, hloadedExt, (fun h => nomatch h), rfl⟩
        | false =>
          exact ⟨_, _, (validateLocks_ok_iff headers hmethod hloadedExt hloaded).1,
            validateLocks_ne_code, rfl⟩
      obtain ⟨response, loaded, hext, hresponse, heq⟩ := hlocks
      simp only [heq, hcode]
      by_cases hif : headers.if_ = []
      · simp [hif, hresponse]
      · rw [if_neg hif, and_iff_right hif, ← evaluateIf_iff hne known_refl hext]
        split
        · rename_i hholds
          simp [hholds, hresponse]
        · rename_i hfails
          simp [hfails]

/-! ## Requests that are answered as their headers say -/

section Answers

variable (server : DavServer) (resources : List ResourceState) (locks : LockCaches)
  (headers : RequestHeaders) (method : DavMethod) (lines : List Precondition)

/-- **The request is refused by its preconditions iff it must not overwrite what is there, or one of
the three headers is not satisfied.** -/
def FollowsGrammar : Prop :=
  validateHeaders server headers resources locks method =
      .error (preconditionError headers method) ↔
    (method.overwrites ∧ refusesOverwrite headers resources) ∨
      ∃ line ∈ lines, ¬ line.Satisfied server resources locks

/-- The headers agree: all are satisfied, one of them also without the tags, or none is satisfied
without them. -/
def HeadersAgree : Prop :=
  ((∀ line ∈ lines, line.Satisfied server resources locks) ∧
      (lines = [] ∨ ∃ line ∈ lines, line.SatisfiedOnce server resources locks)) ∨
    ((∃ line ∈ lines, ¬ line.Satisfied server resources locks) ∧
      ∀ line ∈ lines, ¬ line.SatisfiedOnce server resources locks)

end Answers

/-- **The requests that are answered as their headers say.** -/
theorem followsGrammar_iff (server : DavServer) (uri : Str) (fields : List (Str × Str))
    (lines : List Precondition) (resources : List ResourceState) (locks : LockCaches)
    (method : DavMethod) (hfields : Fields fields lines) (hne : resources ≠ []) :
    let headers := fields.foldl RequestHeaders.parse ⟨uri, false, []⟩
    FollowsGrammar server resources locks headers method lines ↔
      (method.overwrites ∧ refusesOverwrite headers resources) ∨
        HeadersAgree server resources locks lines := by
  intro headers
  obtain ⟨ifs, hifs, hnil, hholds⟩ :=
    parse_fields server resources locks ⟨uri, false, []⟩ hfields
  have hheaders : headers.if_ = ifs := hifs
  unfold FollowsGrammar HeadersAgree
  rw [validateHeaders_precondition_iff hne, hheaders, hholds, ne_eq, hnil]
  by_cases hoverwrite : method.overwrites ∧ refusesOverwrite headers resources
  · simp only [hoverwrite, and_self, true_or]
  · have hempty : lines = [] → ∀ line ∈ lines, line.Satisfied server resources locks := by
      rintro rfl line hline
      cases hline
    have hall : (∃ line ∈ lines, ¬ line.Satisfied server resources locks) ↔
        ¬ ∀ line ∈ lines, line.Satisfied server resources locks := by
      simp only [not_forall, exists_prop]
    have hnone : (∀ line ∈ lines, ¬ line.SatisfiedOnce server resources locks) ↔
        ¬ ∃ line ∈ lines, line.SatisfiedOnce server resources locks := by
      simp only [not_exists, not_and]
    rw [or_iff_right hoverwrite, or_iff_right hoverwrite, or_iff_right hoverwrite, hall, hnone]
    by_cases hsat : ∀ line ∈ lines, line.Satisfied server resources locks
    · rw [iff_false_right (not_not_intro hsat), and_iff_right hsat,
        or_iff_left fun h => h.1 hsat, not_and_or, not_not, not_not]
    · have hlines : lines ≠ [] := fun h => hsat (hempty h)
      rw [iff_true_right hsat, and_iff_right hlines, and_iff_right hsat,
        or_iff_right fun h => hsat h.1]

/-! ## A request that passes although one of its headers is not satisfied -/

/-- A server without documents and without locks. -/
def emptyServer : DavServer where
  now := 50
  keyGet := fun _ _ => none
  validateUri := fun _ => none
  hasAccess := fun _ _ => true
  mapUriResource := fun _ _ _ => none
  archiveEtag := fun _ _ _ => none
  highestChangeId := fun _ _ => 0

/-- The document must have an entity tag and must not exist. -/
def matchFields : List (Str × Str) :=
  [("If-Match".toList, "\"a\"".toList), ("If-None-Match".toList, ['*'])]

def matchLines : List Precondition := [.ifMatch (.tags ["\"a\""]), .ifNoneMatch .any]

theorem matchFields_lines : Fields matchFields matchLines :=
  .precondition (by decide) ⟨by decide, ["\"a\"".toList], by decide, rfl, by decide, by decide⟩
    (.precondition (by decide) rfl .nil)

/-- The resource that a PUT creates, as `handle_file_update_request` describes it. -/
def newFile : ResourceState := { fileAt ['a'] with documentId := some 0xffffffff }

/-- The request that creates a file. -/
def putHeaders : RequestHeaders := matchFields.foldl RequestHeaders.parse ⟨[], false, []⟩

theorem not_satisfied_match :
    ¬ (Precondition.ifMatch (.tags ["\"a\""])).Satisfied emptyServer [newFile] [] := by
  rintro ⟨tag, -, htag⟩
  exact Option.some_ne_none tag (htag.symm.trans (by decide))

/-- The request is let through, although no document has the entity tag. -/
theorem failed_match_passes :
    Fields matchFields matchLines ∧
      ¬ FollowsGrammar emptyServer [newFile] [] putHeaders .PUT matchLines := by
  refine ⟨matchFields_lines, fun hfollows => ?_⟩
  have hrefused := hfollows.2 (.inr ⟨_, .head _, not_satisfied_match⟩)
  rw [validateHeaders_precondition_iff (cons_ne_nil _ _)] at hrefused
  rcases hrefused with ⟨-, hrefuses⟩ | ⟨-, hfails⟩
  · exact absurd hrefuses (by decide)
  · refine hfails ⟨⟨none, [.exists_ true]⟩, ?_, cons_ne_nil _ _, by decide⟩
    exact .tail _ (.head _)

/-- Without `If-None-Match: *` the request is refused, as it should be. -/
theorem followsGrammar_match :
    FollowsGrammar emptyServer [newFile] []
      ((matchFields.take 1).foldl RequestHeaders.parse ⟨[], false, []⟩)
        .PUT (matchLines.take 1) := by
  refine (followsGrammar_iff emptyServer [] (matchFields.take 1) (matchLines.take 1) [newFile] []
    .PUT ?_ (cons_ne_nil _ _)).2 (.inr ?_)
  · exact .precondition (by decide)
      ⟨by decide, ["\"a\"".toList], by decide, rfl, by decide, by decide⟩ .nil
  · refine .inr ⟨⟨_, .head _, not_satisfied_match⟩, fun line hline => ?_⟩
    obtain rfl := mem_singleton.1 hline
    exact not_satisfied_match

end MailServer.Dav
