import MailServer.Imap.Mailbox
import MailServer.Lib.SortedPairs

/-!
# COPY and MOVE

`imap/src/op/copy_move.rs`: the messages of a sequence are visited in the order of a hash map, each
gets its UID in the destination mailbox, and the response code COPYUID lists the source UIDs and
the destination UIDs.  Within one account a document is given another mailbox; into another account
it is copied, `email/src/message/copy.rs`.

Principal result: `copyUid_pairs_iff`.
-/

namespace MailServer.Imap.CopyMove

open List
open View (ImapId)

/-! ## Message data -/

structure UidMailbox where
  mailboxId : ℕ
  uid : ℕ
deriving DecidableEq

/-- `MessageData.mailboxes`; two entries are equal when their mailboxes are. -/
abbrev Mailboxes := List UidMailbox

def addMailbox (mailboxes : Mailboxes) (mailbox : UidMailbox) : Mailboxes :=
  if mailboxes.any fun m => m.mailboxId == mailbox.mailboxId then mailboxes
  else mailboxes ++ [mailbox]

def removeMailbox (mailboxes : Mailboxes) (mailboxId : ℕ) : Mailboxes :=
  mailboxes.filter fun m => m.mailboxId != mailboxId

/-- Gives the UIDs to the mailboxes that have none yet. -/
def setUnassigned : Mailboxes → List ℕ → Mailboxes
  | [], _ => []
  | m :: rest, [] => m :: rest
  | m :: rest, uid :: uids =>
    if m.uid == 0 then { m with uid := uid } :: setUnassigned rest uids
    else m :: setUnassigned rest (uid :: uids)

structure Account where
  /-- The data of each email. -/
  documents : InsertionMap ℕ Mailboxes
  /-- `MailboxField::UidCounter` of each mailbox. -/
  uidCounters : ℕ → ℕ
  /-- The counter that gives out document ids. -/
  documentIds : ℕ

/-- `assign_email_ids`: the counter of each mailbox is raised by one and read. -/
def assignEmailIds (uidCounters : ℕ → ℕ) : List ℕ → List ℕ × (ℕ → ℕ)
  | [] => ([], uidCounters)
  | mailboxId :: rest =>
    let uid := uidCounters mailboxId + 1
    let assigned := assignEmailIds (Function.update uidCounters mailboxId uid) rest
    (uid :: assigned.1, assigned.2)

/-! ## Responses -/

inductive ResponseType where
  | ok
  | no
deriving DecidableEq

inductive ResponseCode where
  | overQuota
  | copyUid (uidValidity : ℕ) (srcUids destUids : List ℕ)

structure StatusResponse where
  tag : Option String
  code : Option ResponseCode
  message : String
  rtype : ResponseType

def StatusResponse.ok (message : String) : StatusResponse := ⟨none, none, message, .ok⟩

/-! ## The visits -/

/-- What `copy_message` answers. -/
inductive CopyResult where
  | copied
  | overQuota
  | notFound

/-- One message of the sequence, and what the environment does at it. -/
structure Visit where
  id : ℕ
  imapId : ImapId
  /-- UIDs of the destination that go to other sessions before this message is reached. -/
  othersTook : ℕ
  /-- Whether the message can be copied into another account. -/
  copyResult : CopyResult

variable {visits : List Visit} {v : Visit}

structure Request where
  tag : String
  isMove : Bool
  isUid : Bool
  src : ℕ
  dest : ℕ
  uidValidity : ℕ
  /-- The account of the source mailbox. -/
  account : Account
  /-- The account of the destination mailbox, if it is another one. -/
  destAccount : Option Account
  /-- The messages of the sequence in the order of the hash map. -/
  visits : List Visit

structure Within where
  uidCounters : ℕ → ℕ
  batch : List (ℕ × Mailboxes)
  copiedIds : List (ℕ × ℕ)
  didMove : Bool

/-- One message, when both mailboxes are in the same account. -/
def copyWithin (r : Request) (p : Within) (v : Visit) : Within :=
  match InsertionMap.find v.id r.account.documents with
  | none => p
  | some data =>
    -- the message has to belong to the source mailbox still
    if !data.any fun m => m.mailboxId == r.src then p
    else
      match data.find? fun m => m.mailboxId == r.dest with
      | some mailbox =>
        let copiedIds := p.copiedIds ++ [(v.imapId.uid, mailbox.uid)]
        if r.isMove then
          { p with
            copiedIds := copiedIds
            batch := p.batch ++ [(v.id, removeMailbox data r.src)]
            didMove := true }
        else { p with copiedIds := copiedIds }
      | none =>
        let newData := addMailbox data ⟨r.dest, 0⟩
        let newData := if r.isMove then removeMailbox newData r.src else newData
        let counters :=
          Function.update p.uidCounters r.dest (p.uidCounters r.dest + v.othersTook)
        let unassigned := newData.filter fun m => m.uid == 0
        let ids := assignEmailIds counters (unassigned.map UidMailbox.mailboxId)
        { uidCounters := ids.2
          batch := p.batch ++ [(v.id, setUnassigned newData ids.1)]
          copiedIds := p.copiedIds ++ (unassigned.zip ids.1).map fun e => (v.imapId.uid, e.2)
          didMove := p.didMove || r.isMove }

structure Across where
  account : Account
  /-- The document that each copied message became. -/
  copies : List (ℕ × ℕ)
  copiedIds : List (ℕ × ℕ)
  destroyIds : List ℕ
  response : StatusResponse

/-- One message, into another account. -/
def copyAcross (r : Request) (p : Across) (v : Visit) : Across :=
  match v.copyResult with
  | .copied =>
    let counters := Function.update p.account.uidCounters r.dest
      (p.account.uidCounters r.dest + v.othersTook)
    let ids := assignEmailIds counters [r.dest]
    let documentId := p.account.documentIds + 1
    { p with
      account :=
        { documents := InsertionMap.insert documentId
            (([r.dest].zip ids.1).map fun e => ⟨e.1, e.2⟩) p.account.documents
          uidCounters := ids.2
          documentIds := documentId }
      copies := p.copies ++ [(v.id, documentId)]
      copiedIds := p.copiedIds ++ (ids.1.head?.map fun uid => (v.imapId.uid, uid)).toList
      destroyIds := if r.isMove then p.destroyIds ++ [v.id] else p.destroyIds }
  | .overQuota =>
    { p with
      response :=
        { p.response with
          rtype := .no, code := some .overQuota, message := "Mailbox quota exceeded" } }
  | .notFound => p

/-! ## `copy_move` -/

def completed (r : Request) : StatusResponse :=
  .ok ((if r.isUid then "UID " else "") ++ (if r.isMove then "MOVE" else "COPY") ++ " completed")

/-- What copying leaves: the emails of the destination, the document that stands for each message
there, the pairs of UIDs, whether anything moved, and the response. -/
structure Copied where
  documents : InsertionMap ℕ Mailboxes
  copies : List (ℕ × ℕ)
  copiedIds : List (ℕ × ℕ)
  didMove : Bool
  response : StatusResponse

def copyMessages (r : Request) : Copied :=
  match r.destAccount with
  | none =>
    let p := r.visits.foldl (copyWithin r) ⟨r.account.uidCounters, [], [], false⟩
    { documents := p.batch.foldl (fun map entry => InsertionMap.insert entry.1 entry.2 map)
        r.account.documents
      copies := r.visits.map fun v => (v.id, v.id)
      copiedIds := p.copiedIds
      didMove := p.didMove
      response := completed r }
  | some account =>
    let p := r.visits.foldl (copyAcross r) ⟨account, [], [], [], completed r⟩
    { documents := p.account.documents
      copies := p.copies
      copiedIds := p.copiedIds
      didMove := !p.destroyIds.isEmpty
      response := p.response }

/-- The response code: the two components of the pairs, sorted apart. -/
def copyUidCode (r : Request) (copiedIds : List (ℕ × ℕ)) : ResponseCode :=
  .copyUid r.uidValidity ((copiedIds.map Prod.fst).insertionSort (· ≤ ·))
    ((copiedIds.map Prod.snd).insertionSort (· ≤ ·))

/-- `copy_move`: the error, or the responses written. -/
def copyMove (r : Request) : Except StatusResponse (List StatusResponse) :=
  let copied := copyMessages r
  if copied.copiedIds.isEmpty then
    if copied.response.rtype ≠ .ok then
      .error { copied.response with tag := some r.tag }
    else
      .ok [{ StatusResponse.ok (if r.isMove then "No messages were moved."
              else "No messages were copied.") with tag := some r.tag }]
  else if r.isMove then
    .ok [{ StatusResponse.ok "Copied UIDs" with code := some (copyUidCode r copied.copiedIds) },
      { copied.response with tag := some r.tag }]
  else
    .ok [{ copied.response with
      tag := some r.tag, code := some (copyUidCode r copied.copiedIds) }]

/-! ## What the response owes -/

/-- The document that stands for the message has the UID in the destination mailbox. -/
def HasDestUid (r : Request) (id uid : ℕ) : Prop :=
  ∃ documentId, (id, documentId) ∈ (copyMessages r).copies ∧
    ∃ data, InsertionMap.find documentId (copyMessages r).documents = some data ∧
      ⟨r.dest, uid⟩ ∈ data

/-- Equal positions of the lists of every COPYUID that is sent stand for one message. -/
def PairsRight (r : Request) : Prop :=
  ∀ responses, copyMove r = .ok responses → ∀ response ∈ responses,
    ∀ uidValidity srcUids destUids,
      response.code = some (.copyUid uidValidity srcUids destUids) →
      srcUids.length = destUids.length ∧
      ∀ (i s t : ℕ), srcUids[i]? = some s → destUids[i]? = some t →
        ∃ v ∈ r.visits, v.imapId.uid = s ∧ HasDestUid r v.id t

/-! ## What becomes of a message -/

inductive Fate where
  | skipped
  /-- It is in the destination mailbox already. -/
  | present (uid : ℕ)
  | fresh
deriving DecidableEq

def fate (r : Request) (v : Visit) : Fate :=
  match r.destAccount with
  | none =>
    match InsertionMap.find v.id r.account.documents with
    | none => .skipped
    | some data =>
      if !data.any fun m => m.mailboxId == r.src then .skipped
      else
        match data.find? fun m => m.mailboxId == r.dest with
        | some mailbox => .present mailbox.uid
        | none => .fresh
  | some _ => match v.copyResult with
    | .copied => .fresh
    | .overQuota => .skipped
    | .notFound => .skipped

/-- Of two messages, the one with the smaller source UID has the smaller UID in the destination; one
that is new there is above all others. -/
def KeepsOrder (r : Request) (v w : Visit) : Prop :=
  match fate r v, fate r w with
  | .present s, .present t =>
    (v.imapId.uid < w.imapId.uid → s ≤ t) ∧ (w.imapId.uid < v.imapId.uid → t ≤ s)
  | .present _, .fresh => v.imapId.uid < w.imapId.uid
  | .fresh, .present _ => w.imapId.uid < v.imapId.uid
  | .fresh, .fresh => v.imapId.uid < w.imapId.uid
  | _, _ => True

/-- The condition on a request: it holds of the messages in the order of the visits. -/
def OrderKept (r : Request) : Prop := r.visits.Pairwise (KeepsOrder r)

/-- What the callers and the store see to: the sequence resolves to distinct messages and UIDs, the
mailboxes are different, no document is twice in one, and the UIDs in use were given out by the
counters. -/
structure WellFormed (r : Request) : Prop where
  ids : (r.visits.map Visit.id).Nodup
  uids : (r.visits.map fun v => v.imapId.uid).Nodup
  mailboxes : r.destAccount = none → r.src ≠ r.dest
  once : ∀ id data, InsertionMap.find id r.account.documents = some data →
    (data.map UidMailbox.mailboxId).Nodup
  given : ∀ id data, InsertionMap.find id r.account.documents = some data →
    ∀ m ∈ data, 0 < m.uid ∧ m.uid ≤ r.account.uidCounters m.mailboxId

/-- The pairs that are collected, when the counter of the destination stands at `c`. -/
def assigned (r : Request) : ℕ → List Visit → List (ℕ × ℕ)
  | _, [] => []
  | c, v :: rest =>
    match fate r v with
    | .skipped => assigned r c rest
    | .present uid => (v.imapId.uid, uid) :: assigned r c rest
    | .fresh =>
      (v.imapId.uid, c + v.othersTook + 1) :: assigned r (c + v.othersTook + 1) rest

/-! ## The order of the pairs -/

section

variable {r : Request} {c : ℕ}

theorem exists_visit {q : ℕ × ℕ} (hq : q ∈ assigned r c visits) :
    ∃ w ∈ visits, w.imapId.uid = q.1 ∧ (fate r w = .present q.2 ∨ fate r w = .fresh ∧ c < q.2) := by
  induction visits generalizing c with
  | nil => cases hq
  | cons v rest ih =>
    unfold assigned at hq
    have hlater : ∀ c', c ≤ c' → q ∈ assigned r c' rest → ∃ w ∈ v :: rest, w.imapId.uid = q.1 ∧
        (fate r w = .present q.2 ∨ fate r w = .fresh ∧ c < q.2) := by
      intro c' hle hq
      obtain ⟨w, hw, huid, h⟩ := ih hq
      exact ⟨w, .tail _ hw, huid, h.imp_right fun h => ⟨h.1, by omega⟩⟩
    split at hq
    · exact hlater c (Nat.le_refl c) hq
    · rename_i uid hfate
      rcases mem_cons.1 hq with rfl | hq
      · exact ⟨v, (.head _) .., rfl, .inl hfate⟩
      · exact hlater c (Nat.le_refl c) hq
    · rename_i hfate
      rcases mem_cons.1 hq with rfl | hq
      · exact ⟨v, (.head _) .., rfl, .inr ⟨hfate, by dsimp only; omega⟩⟩
      · exact hlater _ (by omega) hq

theorem exists_pair {w : Visit} (hw : w ∈ visits) :
    (∀ t, fate r w = .present t → (w.imapId.uid, t) ∈ assigned r c visits) ∧
      (fate r w = .fresh → ∃ t, c < t ∧ (w.imapId.uid, t) ∈ assigned r c visits) := by
  induction visits generalizing c with
  | nil => cases hw
  | cons v rest ih =>
    unfold assigned
    rcases mem_cons.1 hw with rfl | hw
    · constructor
      · intro t hfate
        rw [hfate]
        exact (.head _) ..
      · intro hfate
        rw [hfate]
        exact ⟨_, by omega, (.head _) ..⟩
    · split
      · exact ih hw
      · refine ⟨fun t h => .tail _ ((ih hw).1 t h), fun h => ?_⟩
        obtain ⟨t, hlt, ht⟩ := (ih (c := c) hw).2 h
        exact ⟨t, hlt, .tail _ ht⟩
      · refine ⟨fun t h => .tail _ ((ih hw).1 t h), fun h => ?_⟩
        obtain ⟨t, hlt, ht⟩ := (ih (c := c + v.othersTook + 1) hw).2 h
        exact ⟨t, by omega, .tail _ ht⟩

/-- **The pairs ascend** exactly when every two messages keep their order: a new one gets a UID
above `c`. -/
theorem ascending_assigned_iff (huids : (visits.map fun v => v.imapId.uid).Nodup)
    (hgiven : ∀ v ∈ visits, ∀ t, fate r v = .present t → t ≤ c) :
    SortedPairs.Ascending (assigned r c visits) ↔ visits.Pairwise (KeepsOrder r) := by
  induction visits generalizing c with
  | nil => exact ⟨fun _ => List.Pairwise.nil, fun _ p hp => by cases hp⟩
  | cons v rest ih =>
    obtain ⟨hnew, hrest⟩ := nodup_cons.1 huids
    have hne : ∀ w ∈ rest, w.imapId.uid ≠ v.imapId.uid := fun w hw heq =>
      hnew (mem_map.2 ⟨w, hw, heq⟩)
    have hgiven' : ∀ w ∈ rest, ∀ t, fate r w = .present t → t ≤ c := fun w hw =>
      hgiven w (.tail _ hw)
    rw [pairwise_cons]
    unfold assigned
    cases hv : fate r v with
    | skipped =>
      rw [ih hrest hgiven']
      refine ⟨fun h => ⟨fun w _ => ?_, h⟩, fun h => h.2⟩
      unfold KeepsOrder
      rw [hv]
      trivial
    | present s =>
      have hs := hgiven v ((.head _) ..) s hv
      rw [SortedPairs.ascending_cons, ih hrest hgiven']
      refine and_congr_left fun _ => ⟨fun h w hw => ?_, fun h q hq => ?_⟩
      · unfold KeepsOrder
        rw [hv]
        cases hwf : fate r w with
        | skipped => trivial
        | present t => exact h _ ((exists_pair hw).1 t hwf)
        | fresh =>
          obtain ⟨t, hlt, ht⟩ := (exists_pair (c := c) hw).2 hwf
          have hle := (h _ ht).2
          have hwv := hne w hw
          omega
      · obtain ⟨w, hw, huid, hwf⟩ := exists_visit hq
        have horder := h w hw
        unfold KeepsOrder at horder
        rw [hv] at horder
        rw [← huid]
        rcases hwf with hwf | ⟨hwf, hlt⟩
        · rw [hwf] at horder
          exact horder
        · rw [hwf] at horder
          exact ⟨fun _ => by dsimp only; omega, fun hlt => absurd hlt (by dsimp only; omega)⟩
    | fresh =>
      have hgiven'' : ∀ w ∈ rest, ∀ t, fate r w = .present t → t ≤ c + v.othersTook + 1 :=
        fun w hw t ht => (hgiven' w hw t ht).trans (by omega)
      rw [SortedPairs.ascending_cons, ih hrest hgiven'']
      refine and_congr_left fun _ => ⟨fun h w hw => ?_, fun h q hq => ?_⟩
      · unfold KeepsOrder
        rw [hv]
        have hwv := hne w hw
        cases hwf : fate r w with
        | skipped => trivial
        | present t =>
          have hle := (h _ ((exists_pair hw).1 t hwf)).1
          have ht := hgiven' w hw t hwf
          omega
        | fresh =>
          obtain ⟨t, hlt, ht⟩ := (exists_pair (c := c + v.othersTook + 1) hw).2 hwf
          have hle := (h _ ht).2
          omega
      · obtain ⟨w, hw, huid, hwf⟩ := exists_visit hq
        have horder := h w hw
        unfold KeepsOrder at horder
        rw [hv] at horder
        rcases hwf with hwf | ⟨hwf, hlt⟩
        · have ht := hgiven' w hw _ hwf
          rw [hwf] at horder
          exact ⟨fun hlt => absurd hlt (by dsimp only; omega), fun _ => by dsimp only; omega⟩
        · rw [hwf] at horder
          exact ⟨fun _ => by dsimp only; omega, fun hlt => absurd hlt (by dsimp only; omega)⟩

end

/-! ## Within one account -/

/-- The data, if any, has the UID in the mailbox. -/
def HoldsUid (mailboxId : ℕ) (data : Option Mailboxes) (uid : ℕ) : Prop :=
  ∃ mailboxes, data = some mailboxes ∧ ⟨mailboxId, uid⟩ ∈ mailboxes

theorem setUnassigned_last (mailboxes : Mailboxes) (mailboxId uid : ℕ)
    (h : ∀ m ∈ mailboxes, 0 < m.uid) :
    setUnassigned (mailboxes ++ [⟨mailboxId, 0⟩]) [uid] = mailboxes ++ [⟨mailboxId, uid⟩] := by
  induction mailboxes with
  | nil => rfl
  | cons m rest ih =>
    have hm : ¬ (m.uid == 0) := by
      have hpos := h m ((.head _) ..)
      simp only [beq_iff_eq]
      omega
    rw [cons_append]
    unfold setUnassigned
    rw [if_neg hm, ih fun m' hm' => h m' (.tail _ hm'), cons_append]

theorem mem_iff_of_last {mailboxes : Mailboxes} {mailboxId uid : ℕ}
    (h : ∀ m ∈ mailboxes, m.mailboxId ≠ mailboxId) (u : ℕ) :
    ⟨mailboxId, u⟩ ∈ mailboxes ++ [⟨mailboxId, uid⟩] ↔ u = uid := by
  rw [mem_append, mem_singleton]
  constructor
  · rintro (hmem | heq)
    · cases h _ hmem rfl
    · cases heq
      rfl
  · rintro rfl
    exact .inr rfl

/-- What one visit within an account adds for a message whose UID in the destination is `t`. -/
structure Wrote (r : Request) (p p' : Within) (v : Visit) (t : ℕ) : Prop where
  copiedIds : p'.copiedIds = p.copiedIds ++ [(v.imapId.uid, t)]
  written : ∃ data : Option Mailboxes, p'.batch = p.batch ++ (data.map fun d => (v.id, d)).toList ∧
    ∀ u, HoldsUid r.dest (data.or (InsertionMap.find v.id r.account.documents)) u ↔ u = t

section

variable {r : Request}

theorem copyWithin_skipped (hdest : r.destAccount = none) (p : Within)
    (hv : fate r v = .skipped) : copyWithin r p v = p := by
  unfold fate at hv
  rw [hdest] at hv
  dsimp only at hv
  split at hv
  · rename_i hfind
    unfold copyWithin
    rw [hfind]
  · rename_i data hfind
    split at hv
    · rename_i hsrc
      unfold copyWithin
      rw [hfind]
      dsimp only
      rw [if_pos hsrc]
    · split at hv
      · cases hv
      · cases hv

theorem copyWithin_present (hwf : WellFormed r) (hdest : r.destAccount = none) (p : Within)
    {v : Visit} {t : ℕ} (hv : fate r v = .present t) :
    (copyWithin r p v).uidCounters = p.uidCounters ∧ Wrote r p (copyWithin r p v) v t := by
  unfold fate at hv
  rw [hdest] at hv
  dsimp only at hv
  split at hv
  · cases hv
  · rename_i data hfind
    split at hv
    · cases hv
    · rename_i hsrc
      split at hv
      · rename_i mailbox hmailbox
        cases hv
        have hmem : mailbox ∈ data := List.mem_of_find?_eq_some hmailbox
        have hid : mailbox.mailboxId = r.dest := by simpa using List.find?_some hmailbox
        have honly : ∀ u, ⟨r.dest, u⟩ ∈ data ↔ u = mailbox.uid := by
          refine fun u => ⟨fun hu => ?_, fun hu => ?_⟩
          · have heq := inj_on_of_nodup_map (hwf.once _ _ hfind) hu hmem hid.symm
            exact congrArg UidMailbox.uid heq
          · rw [hu, ← hid]
            exact hmem
        unfold copyWithin
        rw [hfind]
        dsimp only
        rw [if_neg hsrc, hmailbox]
        cases hmove : r.isMove with
        | false =>
          refine ⟨rfl, rfl, none, (append_nil _).symm, fun u => ?_⟩
          rw [hfind, ← honly u]
          exact ⟨fun ⟨d, hd, hu⟩ => by cases hd; exact hu, fun hu => ⟨data, rfl, hu⟩⟩
        | true =>
          refine ⟨rfl, rfl, some (removeMailbox data r.src), rfl, fun u => ?_⟩
          rw [← honly u]
          constructor
          · rintro ⟨d, hd, hu⟩
            cases hd
            exact mem_of_mem_filter hu
          · intro hu
            refine ⟨_, rfl, mem_filter.2 ⟨hu, ?_⟩⟩
            exact bne_iff_ne.2 (hwf.mailboxes hdest).symm
      · cases hv

theorem copyWithin_fresh (hwf : WellFormed r) (hdest : r.destAccount = none) (p : Within)
    {v : Visit} (hv : fate r v = .fresh) :
    (copyWithin r p v).uidCounters r.dest = p.uidCounters r.dest + v.othersTook + 1 ∧
      Wrote r p (copyWithin r p v) v (p.uidCounters r.dest + v.othersTook + 1) := by
  unfold fate at hv
  rw [hdest] at hv
  dsimp only at hv
  split at hv
  · cases hv
  · rename_i data hfind
    split at hv
    · cases hv
    · rename_i hsrc
      split at hv
      · cases hv
      · rename_i hnone
        have hother : ∀ m ∈ data, m.mailboxId ≠ r.dest := by
          simpa using List.find?_eq_none.1 hnone
        -- the mailboxes of before that are kept, all of them with a UID
        obtain ⟨old, hold, holdmem⟩ : ∃ old : Mailboxes,
            (if r.isMove then removeMailbox (addMailbox data ⟨r.dest, 0⟩) r.src
              else addMailbox data ⟨r.dest, 0⟩) = old ++ [⟨r.dest, 0⟩] ∧ ∀ m ∈ old, m ∈ data := by
          have hadd : addMailbox data ⟨r.dest, 0⟩ = data ++ [⟨r.dest, 0⟩] := by
            unfold addMailbox
            simpa using hother
          rw [hadd]
          cases r.isMove with
          | false => exact ⟨data, rfl, fun m hm => hm⟩
          | true =>
            refine ⟨removeMailbox data r.src, ?_, fun m hm => mem_of_mem_filter hm⟩
            have hkept : [UidMailbox.mk r.dest 0].filter (fun m => m.mailboxId != r.src) =
                [⟨r.dest, 0⟩] :=
              filter_cons_of_pos (bne_iff_ne.2 (hwf.mailboxes hdest).symm)
            rw [if_pos rfl]
            unfold removeMailbox
            rw [filter_append, hkept]
        have hpos : ∀ m ∈ old, 0 < m.uid := fun m hm =>
          (hwf.given _ _ hfind m (holdmem m hm)).1
        have hunassigned : (old ++ [UidMailbox.mk r.dest 0]).filter (fun m => m.uid == 0) =
            [⟨r.dest, 0⟩] := by
          have hnil : old.filter (fun m => m.uid == 0) = [] := by
            refine filter_eq_nil_iff.2 fun m hm => ?_
            have hm' := hpos m hm
            simp only [beq_iff_eq]
            omega
          rw [filter_append, hnil]
          rfl
        unfold copyWithin
        rw [hfind]
        dsimp only
        rw [if_neg hsrc, hnone]
        rw [hold, hunassigned]
        have hcounter : Function.update p.uidCounters r.dest
            (p.uidCounters r.dest + v.othersTook) r.dest = p.uidCounters r.dest + v.othersTook :=
          Function.update_self ..
        generalize Function.update p.uidCounters r.dest (p.uidCounters r.dest + v.othersTook) =
          counters at hcounter ⊢
        have hassigned : assignEmailIds counters ([UidMailbox.mk r.dest 0].map
            UidMailbox.mailboxId) = ([counters r.dest + 1],
              Function.update counters r.dest (counters r.dest + 1)) := rfl
        rw [hassigned, hcounter]
        refine ⟨Function.update_self .., rfl,
          some (old ++ [⟨r.dest, p.uidCounters r.dest + v.othersTook + 1⟩]), ?_, fun u => ?_⟩
        · rw [setUnassigned_last old r.dest _ hpos]
          rfl
        · refine Iff.trans ?_ (mem_iff_of_last (fun m hm => hother m (holdmem m hm)) u)
          exact ⟨fun ⟨d, hd, hu⟩ => by cases hd; exact hu, fun hu => ⟨_, rfl, hu⟩⟩

/-- The pairs of the messages after `v` are not about `v`. -/
theorem notMem_assigned {c : ℕ} {rest : List Visit}
    (h : v.imapId.uid ∉ rest.map fun v => v.imapId.uid) (t : ℕ) :
    (v.imapId.uid, t) ∉ assigned r c rest := by
  intro hmem
  obtain ⟨w, hw, huid, -⟩ := exists_visit hmem
  exact h (mem_map.2 ⟨w, hw, huid⟩)

theorem nodup_assigned (huids : (visits.map fun v => v.imapId.uid).Nodup) (c : ℕ) :
    ((assigned r c visits).map Prod.fst).Nodup := by
  induction visits generalizing c with
  | nil => exact nodup_nil
  | cons v rest ih =>
    obtain ⟨hnew, hrest⟩ := nodup_cons.1 huids
    have hnotin : ∀ c', v.imapId.uid ∉ (assigned r c' rest).map Prod.fst := by
      intro c' hin
      obtain ⟨⟨uid, t⟩, hq, rfl⟩ := mem_map.1 hin
      exact notMem_assigned hnew t hq
    unfold assigned
    split
    · exact ih hrest c
    · exact nodup_cons.2 ⟨hnotin _, ih hrest _⟩
    · exact nodup_cons.2 ⟨hnotin _, ih hrest _⟩

/-- **The visits within one account**, by the run over them. -/
theorem foldl_copyWithin (hwf : WellFormed r) (hdest : r.destAccount = none) (visits : List Visit)
    (hids : (visits.map Visit.id).Nodup) (huids : (visits.map fun v => v.imapId.uid).Nodup)
    (p : Within) :
    (visits.foldl (copyWithin r) p).copiedIds =
        p.copiedIds ++ assigned r (p.uidCounters r.dest) visits ∧
      ∃ batch : List (ℕ × Mailboxes), (visits.foldl (copyWithin r) p).batch = p.batch ++ batch ∧
        (InsertionMap.keys batch).Sublist (visits.map Visit.id) ∧
        ∀ v ∈ visits, fate r v ≠ .skipped → ∀ t,
          HoldsUid r.dest ((InsertionMap.find v.id batch).or
            (InsertionMap.find v.id r.account.documents)) t ↔
          (v.imapId.uid, t) ∈ assigned r (p.uidCounters r.dest) visits := by
  induction visits generalizing p with
  | nil =>
    exact ⟨(append_nil _).symm, [], (append_nil _).symm, List.Sublist.refl _,
      fun v hv => by cases hv⟩
  | cons v rest ih =>
    obtain ⟨hidNew, hidRest⟩ := nodup_cons.1 hids
    obtain ⟨huidNew, huidRest⟩ := nodup_cons.1 huids
    obtain ⟨hcopied, batch, hbatch, hkeys, hright⟩ := ih hidRest huidRest (copyWithin r p v)
    -- a message that gets a pair
    have hwrote : fate r v ≠ .skipped → ∃ t, Wrote r p (copyWithin r p v) v t ∧
        assigned r (p.uidCounters r.dest) (v :: rest) =
          (v.imapId.uid, t) :: assigned r ((copyWithin r p v).uidCounters r.dest) rest := by
      intro hfate
      cases hv : fate r v with
      | skipped => cases hfate hv
      | present t =>
        obtain ⟨hcounters, hw⟩ := copyWithin_present hwf hdest p hv
        exact ⟨t, hw, by rw [assigned, hv, hcounters]⟩
      | fresh =>
        obtain ⟨hcounters, hw⟩ := copyWithin_fresh hwf hdest p hv
        exact ⟨_, hw, by rw [assigned, hv, hcounters]⟩
    by_cases hv : fate r v = .skipped
    · have hsame := copyWithin_skipped hdest p hv
      rw [hsame] at hcopied hbatch hright
      have hassigned : assigned r (p.uidCounters r.dest) (v :: rest) =
          assigned r (p.uidCounters r.dest) rest := by
        rw [assigned, hv]
      rw [hassigned, foldl_cons, hsame]
      refine ⟨hcopied, batch, hbatch, hkeys.cons _, fun w hw hfate => ?_⟩
      rcases mem_cons.1 hw with rfl | hw
      · cases hfate hv
      · exact hright w hw hfate
    · obtain ⟨t, ⟨hcopied', data, hdata, hholds⟩, hassigned⟩ := hwrote hv
      rw [hassigned, foldl_cons, hcopied, hcopied', append_assoc]
      refine ⟨rfl, (data.map fun d => (v.id, d)).toList ++ batch, ?_, ?_, ?_⟩
      · rw [hbatch, hdata, append_assoc]
      · cases data with
        | none => exact hkeys.cons _
        | some d => exact hkeys.cons_cons _
      · intro w hw hfate u
        rw [InsertionMap.find_append]
        rcases mem_cons.1 hw with rfl | hw
        · have hnone : InsertionMap.find w.id batch = none :=
            InsertionMap.find_eq_none fun hin => hidNew (hkeys.subset hin)
          have hself : InsertionMap.find w.id (data.map fun d => (w.id, d)).toList = data := by
            cases data with
            | none => rfl
            | some d => simp [InsertionMap.find]
          rw [hself, hnone, Option.or_none, hholds u, mem_cons]
          constructor
          · rintro rfl
            exact .inl rfl
          · rintro (heq | hmem)
            · cases heq
              rfl
            · cases notMem_assigned huidNew u hmem
        · have hne : v.id ≠ w.id := fun heq => hidNew (heq ▸ mem_map.2 ⟨w, hw, rfl⟩)
          have hne' : w.imapId.uid ≠ v.imapId.uid := fun heq =>
            huidNew (mem_map.2 ⟨w, hw, heq⟩)
          have hother : InsertionMap.find w.id (data.map fun d => (v.id, d)).toList = none := by
            cases data with
            | none => rfl
            | some d => simp [InsertionMap.find, hne]
          rw [hother, Option.none_or, hright w hw hfate u, mem_cons]
          refine ⟨.inr, ?_⟩
          rintro (heq | hmem)
          · cases hne' (congrArg Prod.fst heq)
          · exact hmem

/-! ## Into another account -/

section

variable {account : Account} (hdest : r.destAccount = some account)
include hdest

theorem copyAcross_skipped (p : Across) (hv : fate r v = .skipped) :
    (copyAcross r p v).account = p.account ∧ (copyAcross r p v).copies = p.copies ∧
      (copyAcross r p v).copiedIds = p.copiedIds := by
  unfold fate at hv
  rw [hdest] at hv
  unfold copyAcross
  cases hresult : v.copyResult with
  | copied =>
    rw [hresult] at hv
    cases hv
  | overQuota | notFound => exact ⟨rfl, rfl, rfl⟩

theorem fate_ne_present {t : ℕ} : fate r v ≠ .present t := by
  unfold fate
  rw [hdest]
  dsimp only
  split <;> exact Fate.noConfusion

theorem copyAcross_fresh (p : Across) (hv : fate r v = .fresh) :
    (copyAcross r p v).account.uidCounters r.dest =
        p.account.uidCounters r.dest + v.othersTook + 1 ∧
      (copyAcross r p v).account.documentIds = p.account.documentIds + 1 ∧
      (copyAcross r p v).account.documents = InsertionMap.insert (p.account.documentIds + 1)
        [⟨r.dest, p.account.uidCounters r.dest + v.othersTook + 1⟩] p.account.documents ∧
      (copyAcross r p v).copies = p.copies ++ [(v.id, p.account.documentIds + 1)] ∧
      (copyAcross r p v).copiedIds =
        p.copiedIds ++ [(v.imapId.uid, p.account.uidCounters r.dest + v.othersTook + 1)] := by
  unfold fate at hv
  rw [hdest] at hv
  dsimp only at hv
  have hresult : v.copyResult = .copied := by
    split at hv
    · assumption
    · cases hv
    · cases hv
  have hcounter : Function.update p.account.uidCounters r.dest
      (p.account.uidCounters r.dest + v.othersTook) r.dest =
        p.account.uidCounters r.dest + v.othersTook := Function.update_self ..
  unfold copyAcross
  rw [hresult]
  dsimp only
  generalize Function.update p.account.uidCounters r.dest
    (p.account.uidCounters r.dest + v.othersTook) = counters at hcounter ⊢
  have hassigned : assignEmailIds counters [r.dest] = ([counters r.dest + 1],
      Function.update counters r.dest (counters r.dest + 1)) := rfl
  rw [hassigned, hcounter]
  exact ⟨Function.update_self .., rfl, rfl, rfl, rfl⟩

/-- **The visits into another account**: the new documents are above all those of before, and the
pairs are theirs. -/
theorem foldl_copyAcross (visits : List Visit) (hids : (visits.map Visit.id).Nodup)
    (huids : (visits.map fun v => v.imapId.uid).Nodup) (p : Across) :
    (visits.foldl (copyAcross r) p).copiedIds =
        p.copiedIds ++ assigned r (p.account.uidCounters r.dest) visits ∧
      (∀ documentId ≤ p.account.documentIds,
        InsertionMap.find documentId (visits.foldl (copyAcross r) p).account.documents =
          InsertionMap.find documentId p.account.documents) ∧
      ∃ copies : List (ℕ × ℕ), (visits.foldl (copyAcross r) p).copies = p.copies ++ copies ∧
        (∀ e ∈ copies, e.1 ∈ visits.map Visit.id) ∧
        ∀ v ∈ visits, fate r v ≠ .skipped → ∀ t,
          (∃ documentId, (v.id, documentId) ∈ copies ∧ HoldsUid r.dest (InsertionMap.find documentId
            (visits.foldl (copyAcross r) p).account.documents) t) ↔
          (v.imapId.uid, t) ∈ assigned r (p.account.uidCounters r.dest) visits := by
  induction visits generalizing p with
  | nil =>
    exact ⟨(append_nil _).symm, fun _ _ => rfl, [], (append_nil _).symm,
      (fun e he => by cases he), fun v hv => by cases hv⟩
  | cons v rest ih =>
    obtain ⟨hidNew, hidRest⟩ := nodup_cons.1 hids
    obtain ⟨huidNew, huidRest⟩ := nodup_cons.1 huids
    obtain ⟨hcopied, hframe, copies, hcopies, hkeys, hright⟩ :=
      ih hidRest huidRest (copyAcross r p v)
    rw [foldl_cons]
    cases hv : fate r v with
    | skipped =>
      obtain ⟨haccount, hcopies', hcopied'⟩ := copyAcross_skipped hdest p hv
      rw [haccount] at hcopied hframe hright
      rw [hcopies'] at hcopies
      rw [hcopied'] at hcopied
      have hassigned : assigned r (p.account.uidCounters r.dest) (v :: rest) =
          assigned r (p.account.uidCounters r.dest) rest := by
        rw [assigned, hv]
      rw [hassigned]
      refine ⟨hcopied, hframe, copies, hcopies, fun e he => .tail _ (hkeys e he),
        fun w hw hfate => ?_⟩
      rcases mem_cons.1 hw with rfl | hw
      · cases hfate hv
      · exact hright w hw hfate
    | present t => cases fate_ne_present hdest hv
    | fresh =>
      obtain ⟨hcounter, hdocs, hinsert, hcopies', hcopied'⟩ := copyAcross_fresh hdest p hv
      rw [hcounter] at hcopied hright
      rw [hdocs, hinsert] at hframe
      rw [hcopies'] at hcopies
      rw [hcopied'] at hcopied
      generalize ht : p.account.uidCounters r.dest + v.othersTook + 1 = t at *
      have hassigned : assigned r (p.account.uidCounters r.dest) (v :: rest) =
          (v.imapId.uid, t) :: assigned r t rest := by
        rw [assigned, hv, ← ht]
      rw [hassigned]
      refine ⟨by rw [hcopied, append_assoc, singleton_append], fun documentId hle => ?_,
        (v.id, p.account.documentIds + 1) :: copies,
        by rw [hcopies, append_assoc, singleton_append], fun e he => ?_,
        fun w hw hfate u => ?_⟩
      · rw [hframe documentId (by omega), InsertionMap.find_insert, if_neg (by omega)]
      · rcases mem_cons.1 he with rfl | he
        · exact (.head _) ..
        · exact .tail _ (hkeys e he)
      · rcases mem_cons.1 hw with rfl | hw
        · have hnone : ∀ documentId, (w.id, documentId) ∉ copies := fun _ hin =>
            hidNew (hkeys _ hin)
          have hnew : InsertionMap.find (p.account.documentIds + 1)
              (rest.foldl (copyAcross r) (copyAcross r p w)).account.documents =
                some [⟨r.dest, t⟩] := by
            rw [hframe _ (Nat.le_refl _), InsertionMap.find_insert, if_pos rfl]
          constructor
          · rintro ⟨documentId, hin, data, hdata, hu⟩
            rcases mem_cons.1 hin with heq | hin
            · cases heq
              rw [hnew] at hdata
              cases hdata
              cases mem_singleton.1 hu
              exact (.head _) ..
            · cases hnone documentId hin
          · intro hin
            rcases mem_cons.1 hin with heq | hin
            · cases heq
              exact ⟨_, (.head _) .., _, hnew, mem_singleton.2 rfl⟩
            · cases notMem_assigned huidNew u hin
        · have hne : w.id ≠ v.id := fun heq => hidNew (mem_map.2 ⟨w, hw, heq⟩)
          have hne' : w.imapId.uid ≠ v.imapId.uid := fun heq =>
            huidNew (mem_map.2 ⟨w, hw, heq⟩)
          rw [mem_cons, or_iff_right (fun heq => hne' (congrArg Prod.fst heq)),
            ← hright w hw hfate u]
          refine exists_congr fun documentId => and_congr_left fun _ => ?_
          rw [mem_cons, or_iff_right (fun heq => hne (congrArg Prod.fst heq))]

end

/-! ## The lists of COPYUID -/

/-- The counter of the destination mailbox before the first message. -/
def firstCounter (r : Request) : ℕ :=
  match r.destAccount with
  | none => r.account.uidCounters r.dest
  | some account => account.uidCounters r.dest

theorem copiedIds_eq (hwf : WellFormed r) :
    (copyMessages r).copiedIds = assigned r (firstCounter r) r.visits := by
  unfold copyMessages firstCounter
  cases hdest : r.destAccount with
  | none =>
    have hrun := (foldl_copyWithin hwf hdest r.visits hwf.ids hwf.uids
      ⟨r.account.uidCounters, [], [], false⟩).1
    rwa [nil_append] at hrun
  | some account =>
    have hrun := (foldl_copyAcross hdest r.visits hwf.ids hwf.uids
      ⟨account, [], [], [], completed r⟩).1
    rwa [nil_append] at hrun

theorem hasDestUid_iff (hwf : WellFormed r) (hv : v ∈ r.visits)
    (hfate : fate r v ≠ .skipped) (t : ℕ) :
    HasDestUid r v.id t ↔ (v.imapId.uid, t) ∈ (copyMessages r).copiedIds := by
  rw [copiedIds_eq hwf]
  unfold HasDestUid copyMessages firstCounter
  cases hdest : r.destAccount with
  | none =>
    obtain ⟨-, batch, hbatch, hkeys, hright⟩ := foldl_copyWithin hwf hdest r.visits hwf.ids hwf.uids
      ⟨r.account.uidCounters, [], [], false⟩
    dsimp only at hbatch hright ⊢
    rw [hbatch, ← hright v hv hfate t]
    have hnodup : (InsertionMap.keys batch).Nodup := hwf.ids.sublist hkeys
    rw [← InsertionMap.find_foldl_insert hnodup]
    constructor
    · rintro ⟨documentId, hin, h⟩
      obtain ⟨w, -, heq⟩ := mem_map.1 hin
      obtain ⟨hid, hdoc⟩ := Prod.mk.inj heq
      obtain rfl : documentId = v.id := hdoc.symm.trans hid
      exact h
    · intro h
      exact ⟨v.id, mem_map.2 ⟨v, hv, rfl⟩, h⟩
  | some account =>
    obtain ⟨-, -, copies, hcopies, -, hright⟩ := foldl_copyAcross hdest r.visits hwf.ids hwf.uids
      ⟨account, [], [], [], completed r⟩
    dsimp only at hcopies hright ⊢
    rw [hcopies]
    exact hright v hv hfate t

theorem response_code (r : Request) (uidValidity : ℕ) (srcUids destUids : List ℕ) :
    (copyMessages r).response.code ≠ some (.copyUid uidValidity srcUids destUids) := by
  have hrun : ∀ (visits : List Visit) p,
      (p.response.code = none ∨ p.response.code = some .overQuota) →
      ((visits.foldl (copyAcross r) p).response.code = none ∨
        (visits.foldl (copyAcross r) p).response.code = some .overQuota) := by
    intro visits
    induction visits with
    | nil => exact fun p h => h
    | cons v rest ih =>
      intro p h
      refine ih (copyAcross r p v) ?_
      unfold copyAcross
      split
      · exact h
      · exact .inr rfl
      · exact h
  unfold copyMessages
  split
  · intro heq
    cases heq
  · rename_i account _
    intro heq
    rcases hrun r.visits ⟨account, [], [], [], completed r⟩ (.inl rfl) with hnone | hquota
    · rw [hnone] at heq
      cases heq
    · rw [hquota] at heq
      cases heq

/-- What the responses owe, said of the pairs. -/
theorem pairsRight_iff (r : Request) :
    PairsRight r ↔ ∀ (i s t : ℕ),
      (((copyMessages r).copiedIds.map Prod.fst).insertionSort (· ≤ ·))[i]? = some s →
      (((copyMessages r).copiedIds.map Prod.snd).insertionSort (· ≤ ·))[i]? = some t →
      ∃ v ∈ r.visits, v.imapId.uid = s ∧ HasDestUid r v.id t := by
  have hlength : ∀ pairs : List (ℕ × ℕ), ((pairs.map Prod.fst).insertionSort (· ≤ ·)).length =
      ((pairs.map Prod.snd).insertionSort (· ≤ ·)).length := fun pairs => by
    rw [length_insertionSort, length_insertionSort, length_map, length_map]
  unfold PairsRight copyMove
  dsimp only
  cases hpairs : (copyMessages r).copiedIds with
  | nil =>
    refine ⟨(fun _ i s t hs => by cases hs), fun _ responses hr => ?_⟩
    rw [isEmpty_nil, if_pos rfl] at hr
    split at hr
    · cases hr
    · cases hr
      intro response hin uidValidity srcUids destUids hcopy
      obtain rfl := mem_singleton.1 hin
      cases hcopy
  | cons pair rest =>
    rw [← hpairs, if_neg (by rw [hpairs]; exact Bool.false_ne_true)]
    constructor
    · intro h
      cases hmove : r.isMove with
      | true | false =>
        rw [hmove] at h
        exact (h _ rfl _ ((.head _) ..) _ _ _ rfl).2
    · intro h
      have hsent : ∀ {uidValidity srcUids destUids},
          some (copyUidCode r (copyMessages r).copiedIds) =
            some (ResponseCode.copyUid uidValidity srcUids destUids) →
          srcUids.length = destUids.length ∧
          ∀ (i s t : ℕ), srcUids[i]? = some s → destUids[i]? = some t →
            ∃ v ∈ r.visits, v.imapId.uid = s ∧ HasDestUid r v.id t := by
        intro uidValidity srcUids destUids heq
        cases heq
        exact ⟨hlength _, h⟩
      intro responses hr response hin uidValidity srcUids destUids hcopy
      cases hmove : r.isMove with
      | true =>
        rw [hmove] at hr
        cases hr
        rcases mem_cons.1 hin with rfl | hin
        · exact hsent hcopy
        · obtain rfl := mem_singleton.1 hin
          cases response_code r uidValidity srcUids destUids hcopy
      | false =>
        rw [hmove] at hr
        cases hr
        obtain rfl := mem_singleton.1 hin
        exact hsent hcopy

/-- **COPYUID pairs the messages** exactly when their order is kept. -/
theorem copyUid_pairs_iff (r : Request) (hwf : WellFormed r) : PairsRight r ↔ OrderKept r := by
  have hgiven : ∀ v ∈ r.visits, ∀ t, fate r v = .present t → t ≤ firstCounter r := by
    intro v _ t hv
    cases hdest : r.destAccount with
    | some account => cases fate_ne_present hdest hv
    | none =>
      unfold fate at hv
      rw [hdest] at hv
      dsimp only at hv
      unfold firstCounter
      rw [hdest]
      split at hv
      · cases hv
      · rename_i data hfind
        split at hv
        · cases hv
        · split at hv
          · rename_i mailbox hmailbox
            cases hv
            have hid : mailbox.mailboxId = r.dest := by simpa using List.find?_some hmailbox
            rw [← hid]
            exact (hwf.given _ _ hfind mailbox (List.mem_of_find?_eq_some hmailbox)).2
          · cases hv
  have hdistinct : ((copyMessages r).copiedIds.map Prod.fst).Nodup := by
    rw [copiedIds_eq hwf]
    exact nodup_assigned hwf.uids _
  have hmeaning : PairsRight r ↔ SortedPairs.KeepsPairs (copyMessages r).copiedIds := by
    rw [pairsRight_iff]
    refine forall_congr' fun i => forall_congr' fun s => forall_congr' fun t =>
      imp_congr_right fun hs => imp_congr_right fun _ => ?_
    have hmem : s ∈ (copyMessages r).copiedIds.map Prod.fst :=
      (mem_insertionSort _).1 (List.mem_of_getElem? hs)
    obtain ⟨q, hq, rfl⟩ := mem_map.1 hmem
    have hq' := hq
    rw [copiedIds_eq hwf] at hq'
    obtain ⟨w, hw, huid, hfate⟩ := exists_visit hq'
    have hcopied : fate r w ≠ .skipped := by
      rcases hfate with hfate | ⟨hfate, -⟩
      · rw [hfate]; exact Fate.noConfusion
      · rw [hfate]; exact Fate.noConfusion
    constructor
    · rintro ⟨v, hv, hvuid, hdest⟩
      obtain rfl : v = w :=
        inj_on_of_nodup_map hwf.uids hv hw (hvuid.trans huid.symm)
      rw [← huid]
      exact (hasDestUid_iff hwf hw hcopied t).1 hdest
    · intro hpair
      rw [← huid] at hpair
      exact ⟨w, hw, huid, (hasDestUid_iff hwf hw hcopied t).2 hpair⟩
  rw [hmeaning, SortedPairs.sortedApart_iff hdistinct, copiedIds_eq hwf]
  exact ascending_assigned_iff hwf.uids hgiven

end

/-! ## Two messages -/

/-- Documents with UIDs 1 and 2 are copied to mailbox 2, whose last UID is 5, in the given order of
visits. -/
def copyOfTwo (visits : List Visit) : Request :=
  { tag := "a"
    isMove := false
    isUid := false
    src := 1
    dest := 2
    uidValidity := 0
    account := ⟨[(10, [⟨1, 1⟩]), (20, [⟨1, 2⟩])], fun _ => 5, 20⟩
    destAccount := none
    visits := visits }

def firstOfTwo : Visit := ⟨10, ⟨1, 1⟩, 0, .copied⟩
def secondOfTwo : Visit := ⟨20, ⟨2, 2⟩, 0, .copied⟩

theorem wellFormed_copyOfTwo (hids : (visits.map Visit.id).Nodup)
    (huids : (visits.map fun v => v.imapId.uid).Nodup) : WellFormed (copyOfTwo visits) where
  ids := hids
  uids := huids
  mailboxes _ := (Nat.lt_succ_self 1).ne
  once id data h := by
    obtain ⟨e, he, rfl⟩ := InsertionMap.mem_of_find h
    simp only [copyOfTwo, mem_cons, not_mem_nil, or_false] at he
    rcases he with rfl | rfl
    · exact nodup_singleton _
    · exact nodup_singleton _
  given id data h m hm := by
    obtain ⟨e, he, rfl⟩ := InsertionMap.mem_of_find h
    simp only [copyOfTwo, mem_cons, not_mem_nil, or_false] at he
    have hcounter : (copyOfTwo visits).account.uidCounters m.mailboxId = 5 := rfl
    rw [hcounter]
    rcases he with rfl | rfl
    · obtain rfl := mem_singleton.1 hm
      exact ⟨by decide, by decide⟩
    · obtain rfl := mem_singleton.1 hm
      exact ⟨by decide, by decide⟩

theorem copyUid_pairs_in_order : PairsRight (copyOfTwo [firstOfTwo, secondOfTwo]) := by
  refine (copyUid_pairs_iff (copyOfTwo [firstOfTwo, secondOfTwo])
    (wellFormed_copyOfTwo (by decide) (by decide))).2 ?_
  refine List.Pairwise.cons (fun w hw => ?_) (pairwise_singleton _ _)
  obtain rfl := mem_singleton.1 hw
  exact Nat.lt_succ_self 1

/-- **Visited the other way round** they are not: COPYUID lists `1,2` and `6,7`, and the message
with UID 1 has UID 7. -/
theorem copyUid_pairs_swapped :
    WellFormed (copyOfTwo [secondOfTwo, firstOfTwo]) ∧
      ¬ PairsRight (copyOfTwo [secondOfTwo, firstOfTwo]) := by
  refine ⟨wellFormed_copyOfTwo (by decide) (by decide), fun h => ?_⟩
  obtain ⟨v, hv, huid, documentId, hcopy, data, hdata, hin⟩ :=
    (h _ rfl _ ((.head _) ..) _ _ _ rfl).2 0 1 6 rfl rfl
  rcases mem_cons.1 hv with rfl | hv
  · cases huid
  · obtain rfl := mem_singleton.1 hv
    obtain rfl : documentId = 10 := by
      have hcopies : (firstOfTwo.id, documentId) ∈ [(20, 20), (10, 10)] := hcopy
      simpa [firstOfTwo] using hcopies
    cases hdata
    revert hin
    decide

end MailServer.Imap.CopyMove
