import MailServer.Imap.Mailbox

/-!
# The client's view of the selected mailbox

Principal results: `client_in_step`, `uid_lookup_denotes_iff`.
-/

namespace MailServer.Imap.View

open List

variable {messages : List Message} {deletions : List ImapId} {uidNext : ℕ}

/-! ## What is promised -/

/-- The client's count and its UIDs by position are those of the view. -/
structure InStep (known : List ℕ) (state : MailboxState) : Prop where
  count : known.length = state.totalMessages
  positions : ∀ n uid, known[n]? = some uid ↔
    ∃ id, InsertionMap.find id state.idToImap = some ⟨uid, n + 1⟩

/-- The sequence number stands for the message in the client's view. -/
def Denotes (known : List ℕ) (imapId : ImapId) : Prop :=
  0 < imapId.seqnum ∧ known[imapId.seqnum - 1]? = some imapId.uid

/-- `uid_to_id` leads from the UIDs of the view to their documents. -/
def UidsMatch (state : MailboxState) : Prop :=
  ∀ uid id, InsertionMap.find uid state.uidToId = some id ↔
    ∃ seqnum, InsertionMap.find id state.idToImap = some ⟨uid, seqnum⟩

/-- What one step owes the client. -/
def StepPromise (c : Connection) : Label → Prop
  | .write isQresync => ∀ c', step c (.write isQresync) = some c' →
    InStep c'.known c'.selected.state
  | .lookup sequence isUid => ∀ ids, sequenceToIds c.selected sequence isUid = some ids →
      ∀ entry ∈ ids, Denotes c.known entry.2
  | _ => True

/-- The run keeps the client in step, and the view consistent in every state. -/
def RunPromise (c : Connection) (labels : List Label) : Prop :=
  Runs.Along step StepPromise c labels ∧
    Runs.Throughout step (fun c => UidsMatch c.selected.state) c labels

/-- What the UIDs of the sequence select in a pending view has the same sequence number there as in
the view in use. -/
def SeqnumsKept (selected : SelectedMailbox) (sequence : Sequence) : Prop :=
  sequence.isSavedSearch = false → selected.state.idToImap ≠ [] →
    ∀ next, selected.nextState = some next →
      ∀ entry ∈ next.nextState.idToImap,
        sequence.contains entry.2.uid selected.state.uidMax →
        entry.2 ∈ selected.state.idToImap.map Prod.snd

def StepCondition (c : Connection) : Label → Prop
  | .append _ modseq => modseq.getD 0 ≤ c.selected.state.modseq
  | .lookup sequence true => SeqnumsKept c.selected sequence
  | _ => True

/-! ## Views of a list of messages -/

/-- UIDs ascend and are below `uidNext`, and no document occurs twice. -/
structure WellFormed (uidNext : ℕ) (messages : List Message) : Prop where
  positive : 0 < uidNext
  ascending : messages.Pairwise fun a b => a.uid < b.uid
  documents : (messages.map Message.documentId).Nodup
  bounds : ∀ m ∈ messages, 0 < m.uid ∧ m.uid < uidNext

def entry (numbered : Message × ℕ) : ℕ × ImapId :=
  (numbered.1.documentId, ⟨numbered.1.uid, numbered.2 + 1⟩)

def entries (messages : List Message) : InsertionMap ℕ ImapId := messages.zipIdx.map entry

def documentsByUid (messages : List Message) : InsertionMap ℕ ℕ :=
  messages.map fun m => (m.uid, m.documentId)

def largestUid (messages : List Message) : ℕ :=
  messages.foldl (fun uidMax m => if m.uid > uidMax then m.uid else uidMax) 0

def viewOf (messages : List Message) (modseq : ℕ) : MailboxState :=
  { uidToId := documentsByUid messages
    idToImap := entries messages
    uidMax := largestUid messages
    totalMessages := messages.length
    modseq := modseq }

/-- The uid occurs among the messages. -/
def hasUid (messages : List Message) (uid : ℕ) : Bool := decide (uid ∈ messages.map Message.uid)

theorem hasUid_iff {uid : ℕ} :
    hasUid messages uid ↔ ∃ m ∈ messages, m.uid = uid := by
  unfold hasUid
  rw [decide_eq_true_iff, mem_map]

theorem WellFormed.filter (h : WellFormed uidNext messages) (p : Message → Bool) :
    WellFormed uidNext (messages.filter p) where
  positive := h.positive
  ascending := h.ascending.filter p
  documents := h.documents.sublist (filter_sublist.map _)
  bounds m hm := h.bounds m (mem_of_mem_filter hm)

theorem keys_entries (messages : List Message) :
    InsertionMap.keys (entries messages) = messages.map Message.documentId := by
  unfold InsertionMap.keys entries
  rw [map_map]
  calc messages.zipIdx.map (Prod.fst ∘ entry)
      = (messages.zipIdx.map Prod.fst).map Message.documentId := by
        rw [map_map]
        rfl
    _ = messages.map Message.documentId := by rw [zipIdx_map_fst]

theorem keys_documentsByUid (messages : List Message) :
    InsertionMap.keys (documentsByUid messages) = messages.map Message.uid := by
  unfold InsertionMap.keys documentsByUid
  rw [map_map]
  rfl

theorem mem_entries {id uid seqnum : ℕ} :
    (id, ImapId.mk uid seqnum) ∈ entries messages ↔
      ∃ n, seqnum = n + 1 ∧ messages[n]? = some ⟨uid, id⟩ := by
  unfold entries
  rw [mem_map]
  constructor
  · rintro ⟨⟨m, n⟩, hm, heq⟩
    cases heq
    exact ⟨n, rfl, mk_mem_zipIdx_iff_getElem?.1 hm⟩
  · rintro ⟨n, rfl, hm⟩
    exact ⟨(⟨uid, id⟩, n), mk_mem_zipIdx_iff_getElem?.2 hm, rfl⟩

/-- `fetch_messages` reads the view of the mailbox. -/
theorem fetchMessages_eq {mailbox : Mailbox}
    (h : WellFormed uidNext mailbox.messages) {current : Option ℕ}
    (hcurrent : current ≠ some mailbox.changeId) :
    fetchMessages mailbox current = some (viewOf mailbox.messages mailbox.changeId) := by
  have hsorted : mailbox.messages.insertionSort (fun a b => a.uid ≤ b.uid) = mailbox.messages :=
    (h.ascending.imp Nat.le_of_lt).insertionSort_eq
  have hentries : (entries mailbox.messages).foldl
      (fun map entry => InsertionMap.insert entry.1 entry.2 map) [] = entries mailbox.messages :=
    InsertionMap.foldl_insert (by rw [nil_append, keys_entries]; exact h.documents)
  have huids : (documentsByUid mailbox.messages).foldl
      (fun map entry => InsertionMap.insert entry.1 entry.2 map) [] =
        documentsByUid mailbox.messages := by
    refine InsertionMap.foldl_insert ?_
    rw [nil_append, keys_documentsByUid]
    exact (pairwise_map.2 h.ascending).imp Nat.ne_of_lt
  have hlen : (entries mailbox.messages).length = mailbox.messages.length := by
    unfold entries
    rw [length_map, length_zipIdx]
  unfold fetchMessages
  rw [if_neg hcurrent, hsorted]
  change some (MailboxState.mk _ _ _ _ _) = _
  unfold viewOf
  rw [← hlen]
  refine congrArg some ?_
  congr 1
  exact congrArg length hentries

theorem uidsByPosition_viewOf (messages : List Message) (modseq : ℕ) :
    uidsByPosition (viewOf messages modseq) = messages.map Message.uid := by
  have hsnd : (entries messages).map Prod.snd =
      messages.zipIdx.map fun numbered => ⟨numbered.1.uid, numbered.2 + 1⟩ := by
    unfold entries
    rw [map_map]
    rfl
  have hsorted : (messages.zipIdx.map fun numbered =>
      ImapId.mk numbered.1.uid (numbered.2 + 1)).Pairwise fun a b => a.seqnum ≤ b.seqnum := by
    rw [pairwise_map]
    have hidx : (messages.zipIdx.map Prod.snd).Pairwise (· ≤ ·) := by
      rw [zipIdx_map_snd]
      exact (pairwise_lt_range' ..).imp Nat.le_of_lt
    exact (pairwise_map.1 hidx).imp Nat.succ_le_succ
  change (((entries messages).map Prod.snd).insertionSort _).map _ = _
  rw [hsnd, hsorted.insertionSort_eq, map_map]
  calc messages.zipIdx.map (ImapId.uid ∘ fun numbered => ⟨numbered.1.uid, numbered.2 + 1⟩)
      = (messages.zipIdx.map Prod.fst).map Message.uid := by
        rw [map_map]
        rfl
    _ = messages.map Message.uid := by rw [zipIdx_map_fst]

theorem inStep_viewOf (h : WellFormed uidNext messages)
    (modseq : ℕ) : InStep (messages.map Message.uid) (viewOf messages modseq) where
  count := length_map _
  positions n uid := by
    have hnodup : (InsertionMap.keys (entries messages)).Nodup := by
      rw [keys_entries]
      exact h.documents
    change _ ↔ ∃ id, InsertionMap.find id (entries messages) = _
    simp only [InsertionMap.find_eq_some hnodup, mem_entries, getElem?_map,
      Option.map_eq_some_iff]
    constructor
    · rintro ⟨m, hm, rfl⟩
      exact ⟨m.documentId, n, rfl, hm⟩
    · rintro ⟨id, n', hn, hm⟩
      obtain rfl : n = n' := Nat.succ_injective hn
      exact ⟨_, hm, rfl⟩

/-! ## Older and newer views -/

/-- The view of `base` without what `snap` no longer has. -/
def trimmed (base snap : List Message) (modseq : ℕ) : MailboxState :=
  { viewOf base modseq with
    idToImap := (entries base).filter fun entry => hasUid snap entry.2.uid
    uidToId := (documentsByUid base).filter fun entry => hasUid snap entry.1 }

/-- The entries of `base` that `snap` no longer has. -/
def gone (base snap : List Message) : List ImapId :=
  ((entries base).filter fun entry => !hasUid snap entry.2.uid).map Prod.snd

/-- What is new in `new` has a UID that `old` could not have. -/
structure Later (old : List Message) (oldNext : ℕ) (new : List Message) (newNext : ℕ) : Prop where
  next_le : oldNext ≤ newNext
  arrived : ∀ m ∈ new, m ∈ old ∨ oldNext ≤ m.uid

/-- The selected state shows `base`, of which the mailbox had `snap` left when it was last read. -/
structure Tracks (c : Connection) (base snap : List Message) (baseNext snapNext : ℕ) : Prop where
  known : c.known = base.map Message.uid
  base_wf : WellFormed baseNext base
  snap_wf : WellFormed snapNext snap
  mailbox_wf : WellFormed c.uidNext c.mailbox.messages
  base_snap : Later base baseNext snap snapNext
  snap_mailbox : Later snap snapNext c.mailbox.messages c.uidNext
  state : c.selected.state = trimmed base snap c.selected.state.modseq
  next : (c.selected.nextState = none ∧ snap = base) ∨
    ∃ deletions, c.selected.nextState = some ⟨viewOf snap c.selected.state.modseq, deletions⟩ ∧
      deletions.Perm (gone base snap)
  seen_le : c.selected.state.modseq ≤ c.mailbox.changeId
  seen : c.selected.state.modseq = c.mailbox.changeId → c.mailbox.messages = snap
  unsaved : c.selected.savedSearch = none

section

variable {base snap new : List Message} {baseNext snapNext newNext : ℕ}

theorem mem_entries_uid {e} (h : e ∈ entries base) : ∃ m ∈ base, m.uid = e.2.uid := by
  obtain ⟨id, uid, seqnum⟩ := e
  obtain ⟨n, -, hn⟩ := mem_entries.1 h
  exact ⟨_, mem_of_getElem? hn, rfl⟩

theorem hasUid_of_later (hbase : WellFormed baseNext base) (hbs : Later base baseNext snap snapNext)
    (hsn : Later snap snapNext new newNext) {m : Message} (hm : m ∈ base)
    (h : hasUid new m.uid) : hasUid snap m.uid := by
  obtain ⟨m', hm', heq⟩ := hasUid_iff.1 h
  rcases hsn.arrived m' hm' with hsnap | hle
  · exact hasUid_iff.2 ⟨m', hsnap, heq⟩
  · have hlt := (hbase.bounds m hm).2
    have hnext := hbs.next_le
    omega

theorem Later.trans (hbs : Later base baseNext snap snapNext)
    (hsn : Later snap snapNext new newNext) : Later base baseNext new newNext where
  next_le := hbs.next_le.trans hsn.next_le
  arrived m hm := by
    rcases hsn.arrived m hm with hsnap | hle
    · exact hbs.arrived m hsnap
    · exact .inr (hbs.next_le.trans hle)

theorem Later.refl (base : List Message) (baseNext : ℕ) : Later base baseNext base baseNext :=
  ⟨Nat.le_refl _, fun _ h => .inl h⟩

theorem trimmed_self (base : List Message) (modseq : ℕ) :
    trimmed base base modseq = viewOf base modseq := by
  have hentries : (entries base).filter (fun entry => hasUid base entry.2.uid) = entries base :=
    filter_eq_self.2 fun e he => hasUid_iff.2 (mem_entries_uid he)
  have huids : (documentsByUid base).filter (fun entry => hasUid base entry.1) =
      documentsByUid base := by
    refine filter_eq_self.2 fun e he => hasUid_iff.2 ?_
    obtain ⟨m, hm, rfl⟩ := mem_map.1 he
    exact ⟨m, hm, rfl⟩
  unfold trimmed
  rw [hentries, huids]
  rfl

section

variable (hbase : WellFormed baseNext base) (hbs : Later base baseNext snap snapNext)
  (hsn : Later snap snapNext new newNext)
include hbase hbs hsn

theorem surviving_trimmed (modseq modseq' : ℕ) :
    surviving (trimmed base snap modseq) (viewOf new modseq') true =
      (entries base).filter fun entry => hasUid new entry.2.uid := by
  unfold surviving trimmed viewOf
  rw [keys_documentsByUid]
  rw [filter_filter]
  refine filter_congr fun e he => ?_
  obtain ⟨m, hm, huid⟩ := mem_entries_uid he
  change (hasUid new e.2.uid == true && hasUid snap e.2.uid) = hasUid new e.2.uid
  rw [← huid]
  cases h : hasUid new m.uid with
  | false => rfl
  | true => rw [hasUid_of_later hbase hbs hsn hm h]; rfl

theorem gone_perm {modseq modseq' : ℕ} (hdel : deletions.Perm (gone base snap)) :
    (deletions ++ (surviving (trimmed base snap modseq) (viewOf new modseq') false).map
      Prod.snd).Perm (gone base new) := by
  have hold : (entries base).filter (fun entry => !hasUid snap entry.2.uid) =
      ((entries base).filter fun entry => !hasUid new entry.2.uid).filter
        fun entry => !hasUid snap entry.2.uid := by
    rw [filter_filter]
    refine filter_congr fun e he => ?_
    obtain ⟨m, hm, huid⟩ := mem_entries_uid he
    rw [← huid]
    cases h : hasUid new m.uid with
    | false => simp
    | true => simp [hasUid_of_later hbase hbs hsn hm h]
  have hnow : surviving (trimmed base snap modseq) (viewOf new modseq') false =
      ((entries base).filter fun entry => !hasUid new entry.2.uid).filter
        fun entry => !!hasUid snap entry.2.uid := by
    unfold surviving trimmed viewOf
    rw [keys_documentsByUid]
    rw [filter_filter, filter_filter]
    refine filter_congr fun e _ => ?_
    change (hasUid new e.2.uid == false && hasUid snap e.2.uid) = _
    cases hasUid new e.2.uid <;> cases hasUid snap e.2.uid <;> rfl
  rw [hnow]
  unfold gone at hdel ⊢
  rw [hold] at hdel
  refine (hdel.append_right _).trans ?_
  rw [← map_append]
  exact (filter_append_perm _ _).map _

/-- The invalidated UIDs are those that a newer reading misses. -/
theorem uidToId_trimmed (modseq modseq' : ℕ) :
    (((surviving (trimmed base snap modseq) (viewOf new modseq') false).map Prod.snd).map
      ImapId.uid).foldl (fun map uid => InsertionMap.remove uid map)
        (trimmed base snap modseq).uidToId =
      (documentsByUid base).filter fun entry => hasUid new entry.1 := by
  have hmem : ∀ uid, (uid ∈ ((surviving (trimmed base snap modseq) (viewOf new modseq') false).map
      Prod.snd).map ImapId.uid) ↔
        hasUid base uid ∧ hasUid snap uid ∧ hasUid new uid = false := by
    intro uid
    unfold surviving trimmed viewOf
    rw [keys_documentsByUid]
    rw [filter_filter, map_map, mem_map]
    constructor
    · rintro ⟨e, he, rfl⟩
      obtain ⟨he, hp⟩ := mem_filter.1 he
      obtain ⟨hnew, hsnap⟩ := Bool.and_eq_true_iff.1 hp
      exact ⟨hasUid_iff.2 (mem_entries_uid he), hsnap, by simpa [hasUid] using hnew⟩
    · rintro ⟨hb, hsnap, hnew⟩
      obtain ⟨m, hm, rfl⟩ := hasUid_iff.1 hb
      obtain ⟨n, hn⟩ := mem_iff_getElem?.1 hm
      refine ⟨(m.documentId, ⟨m.uid, n + 1⟩), mem_filter.2
        ⟨mem_entries.2 ⟨n, rfl, hn⟩, ?_⟩, rfl⟩
      change (hasUid new m.uid == false && hasUid snap m.uid)
      rw [hsnap, hnew]
      rfl
  generalize ((surviving (trimmed base snap modseq) (viewOf new modseq') false).map Prod.snd).map
    ImapId.uid = missing at hmem ⊢
  have htrimmed : (trimmed base snap modseq).uidToId =
      (documentsByUid base).filter fun entry => hasUid snap entry.1 := rfl
  rw [InsertionMap.foldl_remove, htrimmed, filter_filter]
  refine filter_congr fun e he => ?_
  obtain ⟨m, hm, rfl⟩ := mem_map.1 he
  have hb : hasUid base m.uid := hasUid_iff.2 ⟨m, hm, rfl⟩
  change (decide (m.uid ∉ missing) && hasUid snap m.uid) = hasUid new m.uid
  cases hnew : hasUid new m.uid with
  | true =>
    have hsnap := hasUid_of_later hbase hbs hsn hm hnew
    have hno : m.uid ∉ missing := by
      intro hin
      have hfalse := ((hmem m.uid).1 hin).2.2
      rw [hnew] at hfalse
      cases hfalse
    rw [hsnap, decide_eq_true hno]
    rfl
  | false =>
    cases hsnap : hasUid snap m.uid with
    | false => rw [Bool.and_false]
    | true =>
      have hin := (hmem m.uid).2 ⟨hb, hsnap, hnew⟩
      simp only [hin, not_true_eq_false, decide_false, Bool.and_true]

end

end

variable {c c' : Connection} {base snap : List Message} {baseNext snapNext : ℕ}

/-- **A synchronisation** leaves the view in use, but for what has gone. -/
theorem Tracks.synchronize (h : Tracks c base snap baseNext snapNext) :
    ∃ snapNext', Tracks { c with selected := synchronizeMessages c.mailbox c.selected } base
      c.mailbox.messages baseNext snapNext' := by
  unfold synchronizeMessages
  by_cases hseen : some c.selected.state.modseq = some c.mailbox.changeId
  · have hnone : fetchMessages c.mailbox (some c.selected.state.modseq) = none := by
      unfold fetchMessages
      rw [if_pos hseen]
    rw [hnone, h.seen (Option.some_inj.1 hseen)]
    exact ⟨snapNext, h⟩
  · rw [fetchMessages_eq h.mailbox_wf hseen]
    have hdel : ((c.selected.nextState.map NextMailboxState.deletions).getD []).Perm
        (gone base snap) := by
      rcases h.next with ⟨hnone, hsnap⟩ | ⟨deletions, hsome, hperm⟩
      · have hempty : gone base snap = [] := by
          unfold gone
          rw [hsnap, map_eq_nil_iff, filter_eq_nil_iff]
          intro e he
          rw [hasUid_iff.2 (mem_entries_uid he)]
          exact Bool.false_ne_true
        rw [hnone, hempty]
        exact List.Perm.refl _
      · rw [hsome]
        exact hperm
    refine ⟨c.uidNext,
      { known := h.known
        base_wf := h.base_wf
        snap_wf := h.mailbox_wf
        mailbox_wf := h.mailbox_wf
        base_snap := h.base_snap.trans h.snap_mailbox
        snap_mailbox := Later.refl _ _
        state := ?_
        next := .inr ⟨_, rfl, ?_⟩
        seen_le := Nat.le_refl _
        seen := fun _ => rfl
        unsaved := h.unsaved }⟩
    · dsimp only
      rw [h.state, surviving_trimmed h.base_wf h.base_snap h.snap_mailbox,
        uidToId_trimmed h.base_wf h.base_snap h.snap_mailbox]
      rfl
    · rw [h.state]
      exact gone_perm h.base_wf h.base_snap h.snap_mailbox hdel

/-! ## Writing the changes -/

section

variable {base snap : List Message} {baseNext snapNext : ℕ}

theorem uids_split (hbase : WellFormed baseNext base) (hsnap : WellFormed snapNext snap)
    (h : Later base baseNext snap snapNext) :
    snap.map Message.uid = (base.map Message.uid).filter (hasUid snap) ++
      (snap.map Message.uid).filter fun uid => decide (baseNext ≤ uid) := by
  have hb : (base.map Message.uid).Pairwise (· < ·) := pairwise_map.2 hbase.ascending
  have hs : (snap.map Message.uid).Pairwise (· < ·) := pairwise_map.2 hsnap.ascending
  refine hs.eq_of_mem_iff ?_ fun uid => ?_
  · refine pairwise_append.2 ⟨hb.filter _, hs.filter _, fun u hu w hw => ?_⟩
    obtain ⟨m, hm, rfl⟩ := mem_map.1 (mem_of_mem_filter hu)
    have hle := of_decide_eq_true (mem_filter.1 hw).2
    exact Nat.lt_of_lt_of_le (hbase.bounds m hm).2 hle
  · rw [mem_append, mem_filter, mem_filter]
    constructor
    · intro hin
      obtain ⟨m, hm, rfl⟩ := mem_map.1 hin
      rcases h.arrived m hm with hmb | hle
      · exact .inl ⟨mem_map.2 ⟨m, hmb, rfl⟩, hasUid_iff.2 ⟨m, hm, rfl⟩⟩
      · exact .inr ⟨hin, decide_eq_true hle⟩
    · rintro (⟨-, hp⟩ | ⟨hin, -⟩)
      · exact of_decide_eq_true hp
      · exact hin

theorem gone_seqnums (base snap : List Message) :
    (gone base snap).map ImapId.seqnum =
      Positions.failing (hasUid snap) 0 (base.map Message.uid) := by
  have hfrom : ∀ k, ((((base.zipIdx k).map entry).filter fun entry =>
      !hasUid snap entry.2.uid).map Prod.snd).map ImapId.seqnum =
        Positions.failing (hasUid snap) k (base.map Message.uid) := by
    induction base with
    | nil => intro k; rfl
    | cons m rest ih =>
      intro k
      rw [zipIdx_cons, map_cons, map_cons]
      unfold Positions.failing
      cases hp : hasUid snap m.uid with
      | true =>
        rw [filter_cons_of_neg (by simp [entry, hp]), if_pos rfl]
        exact ih (k + 1)
      | false =>
        rw [filter_cons_of_pos (by simp [entry, hp]), if_neg Bool.false_ne_true]
        exact congrArg ((k + 1) :: ·) (ih (k + 1))
  exact hfrom 0

theorem gone_uids (base snap : List Message) :
    (gone base snap).map ImapId.uid =
      (base.map Message.uid).filter fun uid => !hasUid snap uid := by
  have hbase : base.map Message.uid = (base.zipIdx.map Prod.fst).map Message.uid := by
    rw [zipIdx_map_fst]
  rw [hbase, gone, entries]
  simp only [filter_map, map_map]
  rfl

theorem sorted_numbers (hperm : deletions.Perm (gone base snap)) :
    (deletions.map ImapId.seqnum).insertionSort (· ≤ ·) =
      Positions.failing (hasUid snap) 0 (base.map Message.uid) := by
  refine List.Perm.eq_of_pairwise' (r := (· ≤ ·)) (pairwise_insertionSort _ _)
    ((Positions.pairwise_failing _ _ _).imp Nat.le_of_lt) ?_
  exact (perm_insertionSort _ _).trans ((hperm.map _).trans (by rw [gone_seqnums]))

/-- **Expunged**: the client is left with what the newer view still has. -/
theorem receive_expunged (state : MailboxState) (isQresync : Bool)
    (hperm : deletions.Perm (gone base snap)) :
    (expungeResponse isQresync ((deletions.map fun id =>
        if isQresync then id.uid else id.seqnum).insertionSort (· ≤ ·))).foldl (receive state)
      (base.map Message.uid) = (base.map Message.uid).filter (hasUid snap) := by
  cases isQresync with
  | false =>
    have hnumbers := sorted_numbers hperm
    change ((Positions.renumber 0 ((deletions.map ImapId.seqnum).insertionSort (· ≤ ·))).map
      Untagged.expunge).foldl (receive state) _ = _
    rw [hnumbers, foldl_map]
    exact Positions.foldl_eraseNumber_failing (hasUid snap) (base.map Message.uid) [] 0
  | true =>
    change (base.map Message.uid).filter _ = _
    refine filter_congr fun uid huid => ?_
    have hiff : uid ∈ (deletions.map ImapId.uid).insertionSort (· ≤ ·) ↔
        hasUid snap uid = false := by
      rw [mem_insertionSort, (hperm.map ImapId.uid).mem_iff, gone_uids, mem_filter]
      simp [huid]
    change decide (uid ∉ (deletions.map ImapId.uid).insertionSort (· ≤ ·)) = hasUid snap uid
    cases hp : hasUid snap uid with
    | true =>
      refine decide_eq_true fun hin => ?_
      have hfalse := hiff.1 hin
      rw [hp] at hfalse
      cases hfalse
    | false => exact decide_eq_false (not_not_intro (hiff.2 hp))

theorem expungeResponse_ne_nil (isQresync : Bool) {ids : List ℕ} (h : ids ≠ []) :
    (expungeResponse isQresync ids).isEmpty = false := by
  cases isQresync with
  | true => rfl
  | false =>
    cases ids with
    | nil => cases h rfl
    | cons id rest => rfl

theorem receive_present (hbase : WellFormed baseNext base) (hsnap : WellFormed snapNext snap)
    (h : Later base baseNext snap snapNext) (modseq : ℕ) :
    receive (viewOf snap modseq) ((base.map Message.uid).filter (hasUid snap))
      (.present snap.length) = snap.map Message.uid := by
  have hsplit := uids_split hbase hsnap h
  have hlen : snap.length = (snap.map Message.uid).length := (length_map _).symm
  unfold receive
  dsimp only
  rw [uidsByPosition_viewOf, hlen]
  generalize snap.map Message.uid = uids at hsplit ⊢
  generalize (base.map Message.uid).filter (hasUid snap) = left at hsplit ⊢
  rw [hsplit, drop_left, length_append, Nat.add_sub_cancel_left, take_length,
    take_of_length_le (Nat.le_add_right _ _)]

theorem largestUid_bounds (messages : List Message) :
    (∀ m ∈ messages, m.uid ≤ largestUid messages) ∧
      ∀ bound, 0 < bound → (∀ m ∈ messages, m.uid < bound) → largestUid messages < bound := by
  have hfrom : ∀ start, start ≤ messages.foldl
      (fun uidMax m => if m.uid > uidMax then m.uid else uidMax) start ∧
      (∀ m ∈ messages, m.uid ≤ messages.foldl
        (fun uidMax m => if m.uid > uidMax then m.uid else uidMax) start) ∧
      ∀ bound, start < bound → (∀ m ∈ messages, m.uid < bound) → messages.foldl
        (fun uidMax m => if m.uid > uidMax then m.uid else uidMax) start < bound := by
    induction messages with
    | nil => exact fun start => ⟨Nat.le_refl _, (fun m hm => by cases hm), fun _ h _ => h⟩
    | cons m rest ih =>
      intro start
      obtain ⟨hstart, hle, hlt⟩ := ih (if m.uid > start then m.uid else start)
      have hm : m.uid ≤ (if m.uid > start then m.uid else start) := by split <;> omega
      have hs : start ≤ (if m.uid > start then m.uid else start) := by split <;> omega
      refine ⟨hs.trans hstart, fun m' hm' => ?_, fun bound hb hall => hlt bound ?_ ?_⟩
      · rcases mem_cons.1 hm' with rfl | hm'
        · exact hm.trans hstart
        · exact hle m' hm'
      · have hmb := hall m ((.head _) ..)
        split <;> omega
      · exact fun m' hm' => hall m' (.tail _ hm')
  exact ⟨(hfrom 0).2.1, (hfrom 0).2.2⟩

theorem unchanged_of_silent (hbase : WellFormed baseNext base) (hsnap : WellFormed snapNext snap)
    (h : Later base baseNext snap snapNext) (hgone : gone base snap = [])
    (hmax : largestUid snap - largestUid base = 0) :
    base.map Message.uid = snap.map Message.uid := by
  have hkept : (base.map Message.uid).filter (hasUid snap) = base.map Message.uid := by
    have hnone := gone_uids base snap
    rw [hgone] at hnone
    refine filter_eq_self.2 fun uid huid => ?_
    have := filter_eq_nil_iff.1 hnone.symm uid huid
    simpa using this
  have hnew : (snap.map Message.uid).filter (fun uid => decide (baseNext ≤ uid)) = [] := by
    refine filter_eq_nil_iff.2 fun uid huid hle => ?_
    obtain ⟨m, hm, rfl⟩ := mem_map.1 huid
    have hbound : largestUid base < m.uid :=
      (largestUid_bounds base).2 m.uid (hsnap.bounds m hm).1 fun m' hm' =>
        Nat.lt_of_lt_of_le (hbase.bounds m' hm').2 (of_decide_eq_true hle)
    have hle' := (largestUid_bounds snap).1 m hm
    omega
  rw [uids_split hbase hsnap h, hkept, hnew, append_nil]

/-- **All that is sent**: the client arrives at the newer view. -/
theorem receive_pending (hbase : WellFormed baseNext base) (hsnap : WellFormed snapNext snap)
    (h : Later base baseNext snap snapNext) (isQresync : Bool) (modseq : ℕ)
    {deletions : List ImapId} (hperm : deletions.Perm (gone base snap)) :
    (pendingResponses isQresync (largestUid base) ⟨viewOf snap modseq, deletions⟩).foldl
      (receive (viewOf snap modseq)) (base.map Message.uid) = snap.map Message.uid := by
  have hpresent := receive_present hbase hsnap h modseq
  unfold pendingResponses
  dsimp only
  by_cases hnone : deletions = []
  · subst hnone
    have hgone : gone base snap = [] := hperm.symm.eq_nil
    have hkept : (base.map Message.uid).filter (hasUid snap) = base.map Message.uid := by
      refine filter_eq_self.2 fun uid huid => ?_
      have hmissing := gone_uids base snap
      rw [hgone] at hmissing
      simpa using filter_eq_nil_iff.1 hmissing.symm uid huid
    rw [hkept] at hpresent
    by_cases hmax : largestUid snap - largestUid base > 0
    · simp only [viewOf, hmax]
      exact hpresent
    · simp only [isEmpty_nil, if_true, viewOf, hmax]
      exact unchanged_of_silent hbase hsnap h hgone (by omega)
  · have hexpunged := receive_expunged (viewOf snap modseq) isQresync hperm
    have hsome : deletions.isEmpty = false := by
      cases deletions with
      | nil => cases hnone rfl
      | cons d rest => rfl
    rw [hsome, if_neg Bool.false_ne_true]
    generalize hbuf : expungeResponse isQresync ((deletions.map fun id =>
      if isQresync then id.uid else id.seqnum).insertionSort (· ≤ ·)) = buf at hexpunged ⊢
    have hfull : buf.isEmpty = false := by
      rw [← hbuf]
      refine expungeResponse_ne_nil isQresync fun hnil => hnone ?_
      have hlen := congrArg length hnil
      rw [length_insertionSort, length_map] at hlen
      exact length_eq_zero_iff.1 hlen
    rw [hfull, Bool.not_false, Bool.true_or, if_pos rfl, foldl_append, hexpunged]
    exact hpresent

end

variable {c c' : Connection} {base snap : List Message} {baseNext snapNext : ℕ}

section

variable (h : Tracks c base snap baseNext snapNext)
include h

/-- **A write** brings the client to the view that the mailbox has now. -/
theorem Tracks.write {isQresync : Bool} (hstep : step c (.write isQresync) = some c') :
    ∃ uidNext, Tracks c' c.mailbox.messages c.mailbox.messages uidNext uidNext ∧
      InStep c'.known c'.selected.state := by
  obtain ⟨snapNext', hsync⟩ := h.synchronize
  cases hstep
  unfold writeMailboxChanges
  generalize synchronizeMessages c.mailbox c.selected = selected at hsync ⊢
  obtain ⟨hknown, hbase, hsnap, hmailbox, hbs, hsm, hstate, hnext, hle, hseen, hunsaved⟩ := hsync
  dsimp only at hknown hmailbox hsm hstate hnext hle hseen hunsaved ⊢
  rcases hnext with ⟨hnone, heq⟩ | ⟨deletions, hsome, hperm⟩
  · rw [hnone]
    rw [← heq] at hknown hbase hbs hstate
    refine ⟨snapNext', ⟨hknown, hsnap, hsnap, hmailbox, Later.refl _ _, hsm, hstate,
      .inl ⟨hnone, rfl⟩, hle, hseen, hunsaved⟩, ?_⟩
    rw [hknown, hstate, trimmed_self]
    exact inStep_viewOf hsnap _
  · rw [hsome]
    have hmax : selected.state.uidMax = largestUid base := by
      rw [hstate]
      rfl
    have hreceived := receive_pending hbase hsnap hbs isQresync selected.state.modseq hperm
    rw [hmax, hknown, hreceived]
    exact ⟨snapNext', ⟨rfl, hsnap, hsnap, hmailbox, Later.refl _ _, hsm, (trimmed_self _ _).symm,
      .inl ⟨rfl, rfl⟩, hle, fun _ => rfl, hunsaved⟩, inStep_viewOf hsnap _⟩

/-! ## The other steps -/

theorem Tracks.changed {mailbox : Mailbox} {arrivals}
    (hwf : WellFormed uidNext mailbox.messages)
    (hlater : Later snap snapNext mailbox.messages uidNext)
    (hid : c.mailbox.changeId < mailbox.changeId) :
    Tracks { c with mailbox := mailbox, uidNext := uidNext, arrivals := arrivals } base snap
      baseNext snapNext :=
  { known := h.known
    base_wf := h.base_wf
    snap_wf := h.snap_wf
    mailbox_wf := hwf
    base_snap := h.base_snap
    snap_mailbox := hlater
    state := h.state
    next := h.next
    seen_le := h.seen_le.trans (Nat.le_of_lt hid)
    seen := fun heq => absurd heq (Nat.ne_of_lt (Nat.lt_of_le_of_lt h.seen_le hid))
    unsaved := h.unsaved }

theorem Tracks.arrive {id : ImapUidToId} {changeId : ℕ}
    (hstep : step c (.arrive id changeId) = some c') : Tracks c' base snap baseNext snapNext := by
  unfold step at hstep
  dsimp only at hstep
  split at hstep
  · rename_i hguard
    obtain ⟨huid, hid, hdoc⟩ := hguard
    cases hstep
    have hle := h.snap_mailbox.next_le
    refine h.changed ⟨Nat.succ_pos _, ?_, ?_, ?_⟩ ⟨by omega, ?_⟩ hid
    · refine pairwise_append.2
        ⟨h.mailbox_wf.ascending, pairwise_singleton _ _, fun m hm m' hm' => ?_⟩
      obtain rfl := mem_singleton.1 hm'
      exact Nat.lt_of_lt_of_le (h.mailbox_wf.bounds m hm).2 huid
    · rw [map_append]
      refine nodup_append.2
        ⟨h.mailbox_wf.documents, pairwise_singleton _ _, fun d hd d' hd' heq => hdoc ?_⟩
      obtain rfl : d' = id.id := mem_singleton.1 hd'
      exact heq ▸ hd
    · intro m hm
      rcases mem_append.1 hm with hm | hm
      · obtain ⟨hpos, hlt⟩ := h.mailbox_wf.bounds m hm
        exact ⟨hpos, by omega⟩
      · obtain rfl := mem_singleton.1 hm
        exact ⟨Nat.lt_of_lt_of_le h.mailbox_wf.positive huid, Nat.lt_succ_self _⟩
    · intro m hm
      rcases mem_append.1 hm with hm | hm
      · exact h.snap_mailbox.arrived m hm
      · obtain rfl := mem_singleton.1 hm
        exact .inr (hle.trans huid)
  · cases hstep

theorem Tracks.depart {uid changeId : ℕ} (hstep : step c (.depart uid changeId) = some c') :
    Tracks c' base snap baseNext snapNext := by
  unfold step at hstep
  dsimp only at hstep
  split at hstep
  · rename_i hid
    cases hstep
    exact h.changed (h.mailbox_wf.filter _)
      ⟨h.snap_mailbox.next_le, fun m hm => h.snap_mailbox.arrived m (mem_of_mem_filter hm)⟩ hid
  · cases hstep

theorem Tracks.elsewhere {changeId : ℕ} (hstep : step c (.elsewhere changeId) = some c') :
    Tracks c' base snap baseNext snapNext := by
  unfold step at hstep
  dsimp only at hstep
  split at hstep
  · rename_i hid
    cases hstep
    exact h.changed h.mailbox_wf h.snap_mailbox hid
  · cases hstep

end

theorem appendMessages_of_seen {ids} {modseq : Option ℕ}
    {selected} (h : modseq.getD 0 ≤ selected.state.modseq) :
    appendMessages ids modseq selected = selected := by
  unfold appendMessages
  rw [if_neg (Nat.not_lt_of_le h)]

/-- The invariant of a run. -/
def InView (c : Connection) : Prop :=
  ∃ base snap baseNext snapNext, Tracks c base snap baseNext snapNext

/-- **What every admitted step keeps.** -/
theorem InView.step {label : Label} (h : InView c) (hcond : StepCondition c label)
    (hstep : step c label = some c') : InView c' := by
  obtain ⟨base, snap, baseNext, snapNext, h⟩ := h
  cases label with
  | arrive id changeId => exact ⟨base, snap, baseNext, snapNext, h.arrive hstep⟩
  | depart uid changeId => exact ⟨base, snap, baseNext, snapNext, h.depart hstep⟩
  | elsewhere changeId => exact ⟨base, snap, baseNext, snapNext, h.elsewhere hstep⟩
  | synchronize =>
    obtain ⟨snapNext', hsync⟩ := h.synchronize
    cases hstep
    exact ⟨base, _, baseNext, snapNext', hsync⟩
  | append ids modseq =>
    unfold View.step at hstep
    dsimp only at hstep
    rw [appendMessages_of_seen hcond] at hstep
    split at hstep
    · cases hstep
      exact ⟨base, snap, baseNext, snapNext, h⟩
    · cases hstep
  | write isQresync =>
    obtain ⟨uidNext, hwrite, -⟩ := h.write hstep
    exact ⟨_, _, uidNext, uidNext, hwrite⟩
  | lookup sequence isUid =>
    cases hstep
    exact ⟨base, snap, baseNext, snapNext, h⟩

/-! ## What the invariant gives -/

theorem Tracks.denotes (h : Tracks c base snap baseNext snapNext) {e}
    (he : e ∈ c.selected.state.idToImap) : Denotes c.known e.2 := by
  rw [h.state] at he
  obtain ⟨id, uid, seqnum⟩ := e
  obtain ⟨n, rfl, hn⟩ := mem_entries.1 (mem_of_mem_filter he)
  refine ⟨Nat.succ_pos n, ?_⟩
  rw [h.known, getElem?_map, Nat.add_sub_cancel, hn]
  rfl

theorem Tracks.mem_of_denotes (h : Tracks c base snap baseNext snapNext) {imapId : ImapId}
    (hsnap : hasUid snap imapId.uid) (hden : Denotes c.known imapId) :
    imapId ∈ c.selected.state.idToImap.map Prod.snd := by
  obtain ⟨uid, seqnum⟩ := imapId
  obtain ⟨hpos, hn⟩ := hden
  obtain ⟨n, rfl⟩ : ∃ n, seqnum = n + 1 := ⟨seqnum - 1, by dsimp only at hpos; omega⟩
  rw [h.known, getElem?_map, Nat.add_sub_cancel] at hn
  obtain ⟨m, hm, rfl⟩ := Option.map_eq_some_iff.1 hn
  rw [h.state]
  exact mem_map.2 ⟨(m.documentId, ⟨m.uid, n + 1⟩), mem_filter.2
    ⟨mem_entries.2 ⟨n, rfl, hm⟩, hsnap⟩, rfl⟩

theorem Tracks.uidsMatch (h : Tracks c base snap baseNext snapNext) :
    UidsMatch c.selected.state := by
  have huids : (InsertionMap.keys ((documentsByUid base).filter fun entry =>
      hasUid snap entry.1)).Nodup := by
    have hkeys : (InsertionMap.keys (documentsByUid base)).Nodup := by
      rw [keys_documentsByUid]
      exact (pairwise_map.2 h.base_wf.ascending).imp Nat.ne_of_lt
    exact hkeys.sublist (filter_sublist.map _)
  have hids : (InsertionMap.keys ((entries base).filter fun entry =>
      hasUid snap entry.2.uid)).Nodup := by
    have hkeys : (InsertionMap.keys (entries base)).Nodup := by
      rw [keys_entries]
      exact h.base_wf.documents
    exact hkeys.sublist (filter_sublist.map _)
  intro uid id
  rw [h.state]
  change InsertionMap.find uid ((documentsByUid base).filter _) = _ ↔
    ∃ seqnum, InsertionMap.find id ((entries base).filter _) = _
  simp only [InsertionMap.find_eq_some huids, InsertionMap.find_eq_some hids, mem_filter,
    mem_entries]
  constructor
  · rintro ⟨hmem, hp⟩
    obtain ⟨m, hm, heq⟩ := mem_map.1 hmem
    cases heq
    obtain ⟨n, hn⟩ := mem_iff_getElem?.1 hm
    exact ⟨n + 1, ⟨n, rfl, hn⟩, hp⟩
  · rintro ⟨seqnum, ⟨n, rfl, hn⟩, hp⟩
    exact ⟨mem_map.2 ⟨_, mem_of_getElem? hn, rfl⟩, hp⟩

/-- **A UID lookup** gives the client's numbers exactly when what it selects keeps its sequence
number. -/
theorem uid_lookup_denotes_iff (h : InView c) (sequence : Sequence) :
    StepPromise c (.lookup sequence true) ↔ SeqnumsKept c.selected sequence := by
  obtain ⟨base, snap, baseNext, snapNext, h⟩ := h
  unfold StepPromise SeqnumsKept sequenceToIds
  dsimp only
  cases hsaved : sequence.isSavedSearch with
  | true => simp [h.unsaved]
  | false =>
    by_cases hempty : c.selected.state.idToImap = []
    · simp [hempty]
    · have hfull : c.selected.state.idToImap.isEmpty = false := by simpa using hempty
      simp only [hfull, Bool.not_false, if_true, Bool.false_eq_true, if_false, Option.some_inj,
        forall_eq', mem_filter, forall_const, and_imp, ne_eq, hempty, not_false_eq_true]
      constructor
      · intro hall next hnext e he hsel
        have hden : Denotes c.known e.2 := by
          refine hall e ?_ hsel
          unfold uidView
          rw [hnext]
          exact he
        rcases h.next with ⟨hnone, -⟩ | ⟨deletions, hsome, -⟩
        · rw [hnone] at hnext
          cases hnext
        · rw [hsome] at hnext
          cases hnext
          exact h.mem_of_denotes (hasUid_iff.2 (mem_entries_uid he)) hden
      · intro hkept e he hsel
        unfold uidView at he
        cases hnext : c.selected.nextState with
        | none =>
          rw [hnext] at he
          exact h.denotes he
        | some next =>
          rw [hnext] at he
          obtain ⟨e', he', heq⟩ := mem_map.1 (hkept next hnext e he hsel)
          rw [← heq]
          exact h.denotes he'

theorem InView.promise {label : Label} (h : InView c) (hcond : StepCondition c label) :
    StepPromise c label := by
  cases label with
  | write isQresync =>
    intro c' hstep
    obtain ⟨base, snap, baseNext, snapNext, h⟩ := h
    exact (h.write hstep).choose_spec.2
  | lookup sequence isUid =>
    cases isUid with
    | true => exact (uid_lookup_denotes_iff h sequence).2 hcond
    | false =>
      obtain ⟨base, snap, baseNext, snapNext, h⟩ := h
      intro ids hids e he
      unfold sequenceToIds at hids
      cases hsaved : sequence.isSavedSearch with
      | true =>
        rw [hsaved, h.unsaved] at hids
        cases hids
      | false =>
        rw [hsaved] at hids
        simp only [Bool.not_false, if_true, Bool.false_eq_true, if_false] at hids
        split at hids
        · cases hids
          cases he
        · cases hids
          exact h.denotes (mem_of_mem_filter he)
  | arrive | depart | elsewhere | synchronize | append => trivial

theorem inView_select {mailbox : Mailbox} (h : WellFormed uidNext mailbox.messages) :
    InView (select mailbox uidNext) := by
  have hfetch : fetchMessages mailbox none = some (viewOf mailbox.messages mailbox.changeId) :=
    fetchMessages_eq h (by simp)
  refine ⟨mailbox.messages, mailbox.messages, uidNext, uidNext, ?_⟩
  unfold select
  rw [hfetch]
  exact
    { known := uidsByPosition_viewOf _ _
      base_wf := h
      snap_wf := h
      mailbox_wf := h
      base_snap := Later.refl _ _
      snap_mailbox := Later.refl _ _
      state := (trimmed_self _ _).symm
      next := .inl ⟨rfl, rfl⟩
      seen_le := Nat.le_refl _
      seen := fun _ => rfl
      unsaved := rfl }

/-- **The client stays in step** in every run whose appends have nothing to add and whose UID
lookups select only messages that keep their sequence number. -/
theorem client_in_step (mailbox : Mailbox) (uidNext : ℕ) (labels : List Label)
    (hwf : WellFormed uidNext mailbox.messages)
    (hrun : Runs.Along step StepCondition (select mailbox uidNext) labels) :
    RunPromise (select mailbox uidNext) labels := by
  have hinv := inView_select hwf
  have hkeep : ∀ c label c', InView c → StepCondition c label → step c label = some c' →
      InView c' := fun _ _ _ h hcond hstep => h.step hcond hstep
  refine ⟨Runs.along_of_invariant hkeep (fun _ _ h hcond => h.promise hcond) hinv hrun, ?_⟩
  refine (Runs.throughout_of_invariant hkeep hinv hrun).mono fun c h => ?_
  obtain ⟨base, snap, baseNext, snapNext, h⟩ := h
  exact h.uidsMatch

/-- Such a run: an append, an expunge by someone else, and a lookup before it is reported. -/
theorem client_in_step_shared :
    RunPromise (select ⟨[⟨1, 7⟩, ⟨2, 8⟩], 5⟩ 3)
      [.arrive ⟨3, 9⟩ 6, .synchronize, .append [⟨3, 9⟩] (some 6), .depart 1 7, .synchronize,
        .lookup (.range (some 1) none) false, .write false] := by
  have hwf : WellFormed 3 [⟨1, 7⟩, ⟨2, 8⟩] := by
    refine ⟨by decide, by simp, by simp, fun m hm => ?_⟩
    simp only [mem_cons, not_mem_nil, or_false] at hm
    rcases hm with rfl | rfl <;> exact ⟨by decide, by decide⟩
  refine client_in_step ⟨[⟨1, 7⟩, ⟨2, 8⟩], 5⟩ 3 _ hwf ?_
  refine .cons trivial rfl (.cons trivial rfl (.cons ?_ rfl ?_))
  · exact Nat.le_refl 6
  · exact .cons trivial rfl (.cons trivial rfl (.cons trivial rfl (.cons trivial rfl trivial)))

/-- **The client falls out of step**: it is never told of a message it appended, also where the two
numbers are equal; and after an expunge by someone else a UID lookup sends a number that the client
has for another message. -/
theorem client_misled :
    ¬ RunPromise (select ⟨[⟨1, 7⟩], 5⟩ 2) [.arrive ⟨2, 8⟩ 6, .append [⟨2, 8⟩] (some 6)] ∧
    ¬ RunPromise (select ⟨[⟨1, 1⟩], 5⟩ 2)
      [.arrive ⟨2, 2⟩ 6, .append [⟨2, 2⟩] (some 6), .write false] ∧
    ¬ RunPromise (select ⟨[⟨1, 7⟩, ⟨2, 8⟩], 5⟩ 3)
      [.depart 1 6, .synchronize, .lookup (.number 2) true] := by
  refine ⟨fun h => ?_, fun h => ?_, fun h => ?_⟩
  · have hmatch := ((h.2.2 _ rfl).2 _ rfl 2 8).2 ⟨2, rfl⟩
    cases hmatch
  · have hstep := ((h.1.2 _ rfl).2 _ rfl).1 _ rfl
    have hcount := hstep.count
    cases hcount
  · have hden := (((h.1.2 _ rfl).2 _ rfl).1) _ rfl (8, ⟨2, 1⟩) ((.head _) ..)
    have huid := hden.2
    cases huid

end MailServer.Imap.View
