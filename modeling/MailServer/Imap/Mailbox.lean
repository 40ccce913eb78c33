import MailServer.Lib.InsertionMap
import MailServer.Lib.Positions
import MailServer.Lib.Run
import Mathlib.Data.List.Sort

/-!
# The selected mailbox and its client

`imap/src/core/message.rs`: a session keeps a view of the selected mailbox, a map from documents to
UIDs and sequence numbers.  `synchronize_messages` reads the mailbox again into a pending next view
and collects what has gone; `write_mailbox_changes` reports the difference and moves to the next
view; `append_messages` adds what the session itself has delivered; `sequence_to_ids` resolves the
numbers of a command.  The client is the other side of the connection: the list of UIDs it has been
told of, by position.

A hash map is a list of its entries.  Its order of iteration decides the order in which deletions
are collected and nothing else, and they are sorted before they are sent.
-/

namespace MailServer.Imap.View

/-! ## The mailbox -/

/-- What `fetch_messages` reads of a cached item: its UID in this mailbox and its document. -/
structure Message where
  uid : ℕ
  documentId : ℕ

/-- The mailbox as the message cache has it, and the change id of the account's emails. -/
structure Mailbox where
  messages : List Message
  changeId : ℕ

/-! ## The selected state -/

structure ImapId where
  uid : ℕ
  seqnum : ℕ

structure ImapUidToId where
  uid : ℕ
  id : ℕ
deriving DecidableEq

/-- `MailboxState` without its `next_state`, which only the view in use ever has. -/
structure MailboxState where
  uidToId : InsertionMap ℕ ℕ
  idToImap : InsertionMap ℕ ImapId
  uidMax : ℕ
  totalMessages : ℕ
  modseq : ℕ

structure NextMailboxState where
  nextState : MailboxState
  deletions : List ImapId

structure SelectedMailbox where
  state : MailboxState
  nextState : Option NextMailboxState
  savedSearch : Option (List ImapId)

/-- `fetch_messages`: nothing if the change id is the one already seen. -/
def fetchMessages (mailbox : Mailbox) (currentState : Option ℕ) : Option MailboxState :=
  if currentState = some mailbox.changeId then none
  else
    -- collected into a map ordered by UID
    let uidMap := mailbox.messages.insertionSort fun a b => a.uid ≤ b.uid
    let idToImap := (uidMap.zipIdx.map fun m => (m.1.documentId, ImapId.mk m.1.uid (m.2 + 1))).foldl
      (fun map entry => InsertionMap.insert entry.1 entry.2 map) []
    some
      { totalMessages := idToImap.length
        idToImap := idToImap
        uidToId := (uidMap.map fun m => (m.uid, m.documentId)).foldl
          (fun map entry => InsertionMap.insert entry.1 entry.2 map) []
        uidMax := uidMap.foldl (fun uidMax m => if m.uid > uidMax then m.uid else uidMax) 0
        modseq := mailbox.changeId }

/-- The entries of the view whose UID is still there, or not. -/
def surviving (state newState : MailboxState) (present : Bool) : InsertionMap ℕ ImapId :=
  state.idToImap.filter fun entry =>
    decide (entry.2.uid ∈ InsertionMap.keys newState.uidToId) == present

def synchronizeMessages (mailbox : Mailbox) (selected : SelectedMailbox) : SelectedMailbox :=
  match fetchMessages mailbox (some selected.state.modseq) with
  | none => selected
  | some newState =>
    -- the deletions of a next view that was never written are kept
    let deletions := (selected.nextState.map NextMailboxState.deletions).getD []
    let gone := (surviving selected.state newState false).map Prod.snd
    { selected with
      state :=
        { selected.state with
          idToImap := surviving selected.state newState true
          uidToId := (gone.map ImapId.uid).foldl
            (fun map uid => InsertionMap.remove uid map) selected.state.uidToId
          modseq := newState.modseq }
      nextState := some ⟨newState, deletions ++ gone⟩ }

/-! ## What the client is told -/

inductive Untagged where
  /-- `* n EXPUNGE` -/
  | expunge (n : ℕ)
  /-- `* VANISHED uids` -/
  | vanished (uids : List ℕ)
  /-- `* n EXISTS` -/
  | present (n : ℕ)

/-- `expunge::Response::serialize_to`: without QRESYNC each number is reduced by the expunges sent
before it. -/
def expungeResponse (isQresync : Bool) (ids : List ℕ) : List Untagged :=
  if isQresync then [.vanished ids] else (Positions.renumber 0 ids).map .expunge

/-- What `write_mailbox_changes` sends when a next view is pending; `uidMax` is that of the view in
use. -/
def pendingResponses (isQresync : Bool) (uidMax : ℕ) (next : NextMailboxState) : List Untagged :=
  let buf :=
    if next.deletions.isEmpty then []
    else
      expungeResponse isQresync
        ((next.deletions.map fun id => if isQresync then id.uid else id.seqnum).insertionSort
          (· ≤ ·))
  if !buf.isEmpty || decide (next.nextState.uidMax - uidMax > 0) then
    buf ++ [.present next.nextState.totalMessages]
  else buf

def writeMailboxChanges (mailbox : Mailbox) (isQresync : Bool) (selected : SelectedMailbox) :
    SelectedMailbox × List Untagged :=
  let selected := synchronizeMessages mailbox selected
  match selected.nextState with
  | none => (selected, [])
  | some next =>
    ({ selected with state := next.nextState, nextState := none },
      pendingResponses isQresync selected.state.uidMax next)

/-! ## Sequences -/

inductive Sequence where
  | number (value : ℕ)
  | range (start finish : Option ℕ)
  | items (sequences : List Sequence)
  | savedSearch

mutual

def Sequence.contains (value maxValue : ℕ) : Sequence → Bool
  | .number n => n == value
  | .range (some start) (some finish) =>
    decide (start ≤ value) && decide (value ≤ finish) ||
      decide (finish ≤ value) && decide (value ≤ start)
  | .range (some bound) none | .range none (some bound) =>
    decide (bound ≤ value) && decide (value ≤ maxValue) ||
      decide (maxValue ≤ value) && decide (value ≤ bound)
  | .range none none => value == maxValue
  | .items sequences => anyContains value maxValue sequences
  | .savedSearch => false

def anyContains (value maxValue : ℕ) : List Sequence → Bool
  | [] => false
  | s :: rest => s.contains value maxValue || anyContains value maxValue rest

end

mutual

def Sequence.isSavedSearch : Sequence → Bool
  | .savedSearch => true
  | .items sequences => anySavedSearch sequences
  | _ => false

def anySavedSearch : List Sequence → Bool
  | [] => false
  | s :: rest => s.isSavedSearch || anySavedSearch rest

end

/-- The view that UIDs are resolved in: the next one, once there is one. -/
def uidView (selected : SelectedMailbox) : InsertionMap ℕ ImapId :=
  match selected.nextState with
  | some next => next.nextState.idToImap
  | none => selected.state.idToImap

/-- `sequence_to_ids`; `none` is its only error, that there is no saved search. -/
def sequenceToIds (selected : SelectedMailbox) (sequence : Sequence) (isUid : Bool) :
    Option (InsertionMap ℕ ImapId) :=
  let state := selected.state
  if !sequence.isSavedSearch then
    if state.idToImap.isEmpty then some []
    else if isUid then
      some ((uidView selected).filter fun entry => sequence.contains entry.2.uid state.uidMax)
    else
      some (state.idToImap.filter fun entry =>
        sequence.contains entry.2.seqnum state.totalMessages)
  else
    selected.savedSearch.map fun savedIds =>
      savedIds.foldl
        (fun ids imapId =>
          match InsertionMap.find imapId.uid state.uidToId with
          | some id => InsertionMap.insert id imapId ids
          | none => ids)
        []

/-! ## `append_messages` -/

def appendMessage (state : MailboxState) (id : ImapUidToId) : MailboxState :=
  let total := state.totalMessages + 1
  { state with
    totalMessages := total
    -- the UID is stored where the document id belongs
    uidToId := InsertionMap.insert id.uid id.uid state.uidToId
    idToImap := InsertionMap.insert id.id ⟨id.uid, total⟩ state.idToImap }

def appendMessages (ids : List ImapUidToId) (modseq : Option ℕ) (selected : SelectedMailbox) :
    SelectedMailbox :=
  if modseq.getD 0 > selected.state.modseq then
    { selected with
      state :=
        { ids.foldl appendMessage selected.state with
          uidMax := ids.foldl (fun _ id => id.uid) 0 } }
  else selected

/-! ## The client -/

/-- The UIDs of a view by sequence numbers: what a client reads for the positions it does not know.
-/
def uidsByPosition (state : MailboxState) : List ℕ :=
  ((state.idToImap.map Prod.snd).insertionSort fun a b => a.seqnum ≤ b.seqnum).map ImapId.uid

/-- How a client applies one response to its list of UIDs. -/
def receive (state : MailboxState) (known : List ℕ) : Untagged → List ℕ
  | .expunge n => Positions.eraseNumber known n
  | .vanished uids => known.filter fun uid => decide (uid ∉ uids)
  | .present n => known.take n ++ ((uidsByPosition state).drop known.length).take (n - known.length)

/-! ## Runs -/

/-- The mailbox, the session that selected it and its client. `uidNext` is above every UID given
out; `arrivals` holds the messages that arrived since. -/
structure Connection where
  mailbox : Mailbox
  uidNext : ℕ
  arrivals : List (ImapUidToId × ℕ)
  selected : SelectedMailbox
  known : List ℕ

inductive Label where
  /-- A message is added to the mailbox. -/
  | arrive (id : ImapUidToId) (changeId : ℕ)
  /-- A message is removed from the mailbox. -/
  | depart (uid changeId : ℕ)
  /-- A change of the account's emails that leaves the mailbox as it is. -/
  | elsewhere (changeId : ℕ)
  | synchronize
  /-- The session tells its view what it has delivered. -/
  | append (ids : List ImapUidToId) (modseq : Option ℕ)
  | write (isQresync : Bool)
  | lookup (sequence : Sequence) (isUid : Bool)

/-- The change id of the last of the delivered messages. -/
def lastChangeId (arrivals : List (ImapUidToId × ℕ)) : List ImapUidToId → Option ℕ → Prop
  | [], modseq => modseq = none
  | id :: rest, modseq =>
    ∃ changeId, ((id :: rest).getLast (List.cons_ne_nil _ _), changeId) ∈ arrivals ∧
      modseq = some changeId

instance (arrivals : List (ImapUidToId × ℕ)) (ids : List ImapUidToId) (modseq : Option ℕ) :
    Decidable (lastChangeId arrivals ids modseq) :=
  match ids, modseq with
  | [], modseq => inferInstanceAs (Decidable (modseq = none))
  | id :: rest, none => isFalse fun h => by obtain ⟨_, -, h⟩ := h; cases h
  | id :: rest, some changeId =>
    decidable_of_iff (((id :: rest).getLast (List.cons_ne_nil _ _), changeId) ∈ arrivals)
      ⟨fun h => ⟨changeId, h, rfl⟩, fun h => by obtain ⟨_, h, heq⟩ := h; cases heq; exact h⟩

/-- One step; `none` is a label that is not possible. A session appends to its view only messages
that have arrived. -/
def step (c : Connection) : Label → Option Connection
  | .arrive id changeId =>
    if c.uidNext ≤ id.uid ∧ c.mailbox.changeId < changeId ∧
        id.id ∉ c.mailbox.messages.map Message.documentId then
      some
        { c with
          mailbox := ⟨c.mailbox.messages ++ [⟨id.uid, id.id⟩], changeId⟩
          uidNext := id.uid + 1
          arrivals := (id, changeId) :: c.arrivals }
    else none
  | .depart uid changeId =>
    if c.mailbox.changeId < changeId then
      some
        { c with
          mailbox := ⟨c.mailbox.messages.filter fun m => decide (m.uid ≠ uid), changeId⟩ }
    else none
  | .elsewhere changeId =>
    if c.mailbox.changeId < changeId then
      some { c with mailbox := { c.mailbox with changeId := changeId } }
    else none
  | .synchronize => some { c with selected := synchronizeMessages c.mailbox c.selected }
  | .append ids modseq =>
    if (∀ id ∈ ids, id ∈ c.arrivals.map Prod.fst) ∧ lastChangeId c.arrivals ids modseq then
      some { c with selected := appendMessages ids modseq c.selected }
    else none
  | .write isQresync =>
    let written := writeMailboxChanges c.mailbox isQresync c.selected
    some { c with
      selected := written.1
      known := written.2.foldl (receive written.1.state) c.known }
  | .lookup _ _ => some c

/-- A mailbox just selected: the view is read afresh, and the client has been told all of it. -/
def select (mailbox : Mailbox) (uidNext : ℕ) : Connection :=
  let state := (fetchMessages mailbox none).getD ⟨[], [], 0, 0, 0⟩
  { mailbox := mailbox
    uidNext := uidNext
    arrivals := []
    selected := ⟨state, none, none⟩
    known := uidsByPosition state }

end MailServer.Imap.View
