import MailServer.Delivery.Entry
import Mathlib.Algebra.BigOperators.Group.Finset.Basic
import Mathlib.Algebra.Order.BigOperators.Group.Finset
import Mathlib.Tactic.Linarith

/-!
# Queue quotas

`has_quota` picks the quota keys a message holds, `queue` reserves them, `save_changes` releases
those of finished recipients and `remove` releases what is left.  All entries share the counters.

Principal results: `quota_conserved_iff`, `released_twice`.
-/

namespace MailServer.Delivery

open List Function

variable {Name : Type} [DecidableEq Name]

/-! ## Checking the quotas -/

/-- The expression and the key it hashes are functions of the envelope: the message with one of its
recipients, or without for a sender quota. -/
structure QueueQuota (Name : Type) where
  expr : Message Name → Option (Recipient Name) → Bool
  newKey : Message Name → Option (Recipient Name) → List UInt8
  size : Option ℕ
  messages : Option ℕ

structure QueueQuotas (Name : Type) where
  sender : List (QueueQuota Name)
  rcpt : List (QueueQuota Name)
  rcptDomain : List (QueueQuota Name)

/-- A counter value, cast from `i64` to `u64`. -/
def asU64 (value : ℤ) : ℕ := (value % 2 ^ 64).toNat

/-- One of the two checks of `check_quota`: a maximum, what the counter holds and what the message
adds; sums wrap around. -/
def checkLimit (max : Option ℕ) (used : ℤ) (added : ℕ) (key : QuotaKey) (refs : List QuotaKey) :
    Option (List QuotaKey) :=
  match max with
  | some max => if (asU64 used + added) % 2 ^ 64 > max then none else some (refs ++ [key])
  | none => some refs

/-- `check_quota`; `used` are the counters as the store answers them. -/
def checkQuota (used : QuotaCounter → ℤ) (m : Message Name) (quota : QueueQuota Name)
    (rcpt : Option (Recipient Name)) (id : ℕ) (refs : List QuotaKey) : Option (List QuotaKey) :=
  if quota.expr m rcpt then
    let key := quota.newKey m rcpt
    (checkLimit quota.size (used (.quotaSize key)) m.size (.size key id) refs).bind
      (checkLimit quota.messages (used (.quotaCount key)) 1 (.count key id))
  else some refs

/-- The loop over the recipients for one domain quota; a domain is checked once, for its first
recipient. -/
def checkDomains (used : QuotaCounter → ℤ) (m : Message Name) (quota : QueueQuota Name) :
    List (Recipient Name) → ℕ → List (List Char) → List QuotaKey →
    Option (List (List Char) × List QuotaKey)
  | [], _, seenDomains, refs => some (seenDomains, refs)
  | rcpt :: rest, rcptIdx, seenDomains, refs =>
    if domainPart rcpt.address ∈ seenDomains then
      checkDomains used m quota rest (rcptIdx + 1) seenDomains refs
    else
      (checkQuota used m quota (some rcpt) ((rcptIdx + 1) <<< 32) refs).bind
        (checkDomains used m quota rest (rcptIdx + 1) (domainPart rcpt.address :: seenDomains))

/-- The loop over the recipients for one recipient quota. -/
def checkRcpts (used : QuotaCounter → ℤ) (m : Message Name) (quota : QueueQuota Name) :
    List (Recipient Name) → ℕ → List QuotaKey → Option (List QuotaKey)
  | [], _, refs => some refs
  | rcpt :: rest, rcptIdx, refs =>
    (checkQuota used m quota (some rcpt) (rcptIdx + 1) refs).bind
      (checkRcpts used m quota rest (rcptIdx + 1))

/-- `has_quota`: the message with its quota keys, `none` when a quota is exceeded. -/
def hasQuota (quotas : QueueQuotas Name) (used : QuotaCounter → ℤ) (m : Message Name) :
    Option (Message Name) := do
  let refs ← quotas.sender.foldlM (fun refs quota => checkQuota used m quota none 0 refs) []
  let (_, refs) ← quotas.rcptDomain.foldlM
    (fun st quota => checkDomains used m quota m.recipients 0 st.1 st.2) ([], refs)
  let refs ← quotas.rcpt.foldlM (fun refs quota => checkRcpts used m quota m.recipients 0 refs) refs
  some { m with quotaKeys := refs }

/-! ## The queue -/

/-- The outbound queue: its entries, by queue id, and the quota counters. -/
structure QueueStore (Name : Type) where
  queueIds : Finset ℕ
  entry : ℕ → Entry Name
  counter : QuotaCounter → ℤ

def QueueStore.empty : QueueStore Name := ⟨∅, fun _ => Entry.empty, fun _ => 0⟩

/-- The `add` operations of a batch. -/
def addAll (counter : QuotaCounter → ℤ) (ops : List CounterOp) : QuotaCounter → ℤ :=
  ops.foldl (fun counter op => update counter op.1 (counter op.1 + op.2)) counter

/-- One call on one entry. -/
def QueueStore.apply (s : QueueStore Name) (id : ℕ) (a : Label Name) : Option (QueueStore Name) :=
  ((s.entry id).step a).map (fun result =>
    { queueIds := insert id s.queueIds
      entry := update s.entry id result.1
      counter := addAll s.counter result.2 })

/-- One call. `receive` is `has_quota`, with the counters that it reads, followed by `queue`. -/
inductive QueueLabel (Name : Type) where
  | receive (id : ℕ) (message : Message Name) (rawLen : ℕ) (quotas : QueueQuotas Name)
      (used : QuotaCounter → ℤ)
  | call (id : ℕ) (label : Label Name)

def QueueStore.receive (s : QueueStore Name) (id : ℕ) (message : Message Name) (rawLen : ℕ)
    (quotas : QueueQuotas Name) (used : QuotaCounter → ℤ) : Option (QueueStore Name) :=
  match hasQuota quotas used message with
  | some message => s.apply id (.queue message rawLen)
  | none => some s

def QueueStore.step (s : QueueStore Name) : QueueLabel Name → Option (QueueStore Name)
  | .receive id message rawLen quotas used => s.receive id message rawLen quotas used
  | .call id label => s.apply id label

/-! ## What is promised -/

def QuotaKey.isCount (key : List UInt8) : QuotaKey → Bool
  | .count key' _ => key' = key
  | .size _ _ => false

def QuotaKey.isSize (key : List UInt8) : QuotaKey → Bool
  | .size key' _ => key' = key
  | .count _ _ => false

/-- What quota keys hold of a counter, for a message of the given size. -/
def heldKeys (size : ℕ) (keys : List QuotaKey) : QuotaCounter → ℤ
  | .quotaCount key => keys.countP (QuotaKey.isCount key)
  | .quotaSize key => keys.countP (QuotaKey.isSize key) * size

def Message.held (m : Message Name) (counter : QuotaCounter) : ℤ :=
  heldKeys m.size m.quotaKeys counter

/-- What the message stored under a queue id holds. -/
def Entry.held (e : Entry Name) (counter : QuotaCounter) : ℤ :=
  match e.message with
  | some m => m.held counter
  | none => 0

/-- The counters are what the stored messages hold, so that none is negative. -/
structure QuotaConserved (s : QueueStore Name) : Prop where
  counter_eq : ∀ counter, s.counter counter = ∑ id ∈ s.queueIds, (s.entry id).held counter
  nonneg : ∀ counter, 0 ≤ s.counter counter
  zero : (∀ id ∈ s.queueIds, (s.entry id).message = none) → ∀ counter, s.counter counter = 0

/-- A queue id is generated for one message only. -/
def FreshId (s : QueueStore Name) : QueueLabel Name → Prop
  | .receive id _ _ _ _ => (s.entry id).message = none
  | .call id (.queue _ _) => (s.entry id).message = none
  | .call _ _ => True

/-- What a write must not do: a merge must not release anything that counts, as the message keeps
its quota keys; a message that is replaced or removed must hold what the copy holds. -/
def Entry.ReleasesOnce (e : Entry Name) : Label Name → Prop
  | .save task => ∀ t, e.tasks task = some t →
    if t.wrapper.isMultiQueue then
      ∀ cur, e.message = some cur → cur.blobHash = t.wrapper.message.blobHash →
        cur.recipients.length = t.wrapper.message.recipients.length →
        ∀ key ∈ t.wrapper.message.quotaKeys, key.id ∈ t.wrapper.message.finishedIds →
          (key.share t.wrapper.message.size).2 = 0
    else ∀ counter, e.held counter = t.wrapper.message.held counter
  | .remove task => ∀ t, e.tasks task = some t →
    ∀ counter, e.held counter = t.wrapper.message.held counter
  | _ => True

def ReleasesOnce (s : QueueStore Name) : QueueLabel Name → Prop
  | .receive _ _ _ _ _ => True
  | .call id label => (s.entry id).ReleasesOnce label

/-! ## Operations on counters -/

section Counters

omit [DecidableEq Name]

/-- What a batch adds to a counter. -/
def opsTotal (ops : List CounterOp) (counter : QuotaCounter) : ℤ :=
  (ops.map (fun op => if op.1 = counter then op.2 else 0)).sum

@[simp] theorem opsTotal_nil (counter : QuotaCounter) : opsTotal [] counter = 0 := rfl

@[simp] theorem opsTotal_cons (op : CounterOp) (ops : List CounterOp) (counter : QuotaCounter) :
    opsTotal (op :: ops) counter = (if op.1 = counter then op.2 else 0) + opsTotal ops counter := by
  simp [opsTotal]

theorem addAll_apply (counters : QuotaCounter → ℤ) (ops : List CounterOp)
    (counter : QuotaCounter) :
    addAll counters ops counter = counters counter + opsTotal ops counter := by
  induction ops generalizing counters with
  | nil => simp [addAll]
  | cons op ops ih =>
    have hfold : addAll counters (op :: ops) =
        addAll (update counters op.1 (counters op.1 + op.2)) ops := rfl
    rw [hfold, ih, opsTotal_cons]
    by_cases h : op.1 = counter
    · subst h
      rw [update_self, if_pos rfl]
      omega
    · rw [update_of_ne (Ne.symm h), if_neg h]
      omega

theorem heldKeys_cons (size : ℕ) (key : QuotaKey) (keys : List QuotaKey)
    (counter : QuotaCounter) :
    heldKeys size (key :: keys) counter =
      (if (key.share size).1 = counter then (key.share size).2 else 0) +
        heldKeys size keys counter := by
  cases counter with
  | quotaCount k =>
    cases key with
    | count key id =>
      by_cases h : key = k
      · simp [heldKeys, QuotaKey.isCount, QuotaKey.share, h]
        omega
      · simp [heldKeys, QuotaKey.isCount, QuotaKey.share, h]
    | size key id => simp [heldKeys, QuotaKey.isCount, QuotaKey.share]
  | quotaSize k =>
    cases key with
    | count key id => simp [heldKeys, QuotaKey.isSize, QuotaKey.share]
    | size key id =>
      by_cases h : key = k
      · subst h
        simp only [heldKeys, QuotaKey.isSize, QuotaKey.share, countP_cons, decide_true,
          if_true, Nat.cast_add, add_mul]
        omega
      · simp [heldKeys, QuotaKey.isSize, QuotaKey.share, h]

section

variable (size : ℕ) (keys : List QuotaKey)
include size keys

theorem heldKeys_nonneg (counter : QuotaCounter) : 0 ≤ heldKeys size keys counter := by
  cases counter with
  | quotaCount key => exact Int.natCast_nonneg _
  | quotaSize key => exact mul_nonneg (Int.natCast_nonneg _) (Int.natCast_nonneg _)

theorem opsTotal_reserve (counter : QuotaCounter) :
    opsTotal (keys.map (QuotaKey.reserve size)) counter = heldKeys size keys counter := by
  induction keys with
  | nil => cases counter <;> simp [heldKeys]
  | cons key keys ih =>
    rw [map_cons, opsTotal_cons, ih, heldKeys_cons]
    rfl

theorem opsTotal_release (counter : QuotaCounter) :
    opsTotal (keys.map (QuotaKey.release size)) counter = -heldKeys size keys counter := by
  induction keys with
  | nil => cases counter <;> simp [heldKeys]
  | cons key keys ih =>
    rw [map_cons, opsTotal_cons, heldKeys_cons]
    by_cases h : (key.share size).1 = counter
    · rw [if_pos h, if_pos (show (key.release size).1 = counter from h)]
      simp only [QuotaKey.release]
      omega
    · rw [if_neg h, if_neg (show ¬ (key.release size).1 = counter from h)]
      omega

theorem heldKeys_filter (p : QuotaKey → Bool) (counter : QuotaCounter) :
    heldKeys size (keys.filter p) counter + heldKeys size (keys.filter (fun key => !p key)) counter
      = heldKeys size keys counter := by
  induction keys with
  | nil => cases counter <;> simp [heldKeys]
  | cons key keys ih =>
    rw [heldKeys_cons]
    by_cases h : p key
    · rw [filter_cons_of_pos h, filter_cons_of_neg (by simp [h]), heldKeys_cons]
      omega
    · rw [filter_cons_of_neg h, filter_cons_of_pos (by simp [h]), heldKeys_cons]
      omega

theorem heldKeys_eq_zero_iff :
    (∀ counter, heldKeys size keys counter = 0) ↔ ∀ key ∈ keys, (key.share size).2 = 0 := by
  constructor
  · intro h key hmem
    induction keys with
    | nil => cases hmem
    | cons head keys ih =>
      have hparts : ∀ counter, (if (head.share size).1 = counter then (head.share size).2 else 0)
          + heldKeys size keys counter = 0 := fun counter => by rw [← heldKeys_cons, h counter]
      have hshare : 0 ≤ (head.share size).2 := by
        cases head with
        | count key id => exact zero_le_one
        | size key id => exact Int.natCast_nonneg _
      have hhead : (head.share size).2 = 0 := by
        have hsum := hparts (head.share size).1
        have hrest := heldKeys_nonneg size keys (head.share size).1
        rw [if_pos rfl] at hsum
        omega
      rcases mem_cons.1 hmem with rfl | hrest
      · exact hhead
      · refine ih (fun counter => ?_) hrest
        have hsum := hparts counter
        omega
  · intro h counter
    induction keys with
    | nil => cases counter <;> simp [heldKeys]
    | cons head keys ih =>
      rw [heldKeys_cons, h head (.head _), ite_self,
        ih (fun key hmem => h key (.tail _ hmem))]
      rfl

end

theorem Entry.held_nonneg (e : Entry Name) (counter : QuotaCounter) : 0 ≤ e.held counter := by
  unfold Entry.held
  cases e.message with
  | none => exact le_rfl
  | some m => exact heldKeys_nonneg _ _ _

theorem Entry.held_of_none {e : Entry Name} (h : e.message = none) (counter : QuotaCounter) :
    e.held counter = 0 := by
  simp [Entry.held, h]

/-- What `release_quota` takes off the counters is what the message no longer holds. -/
theorem held_releaseQuota (m : Message Name) (counter : QuotaCounter) :
    opsTotal m.releaseQuota.2 counter = m.releaseQuota.1.held counter - m.held counter := by
  have hsplit := heldKeys_filter m.size m.quotaKeys (fun key => key.id ∈ m.finishedIds) counter
  have hkept : m.releaseQuota.1.held counter =
      heldKeys m.size (m.quotaKeys.filter (fun key => !decide (key.id ∈ m.finishedIds)))
        counter := by
    simp [Message.releaseQuota, Message.held]
  unfold Message.held at hkept ⊢
  rw [hkept]
  unfold Message.releaseQuota
  rw [opsTotal_release]
  omega

end Counters

/-! ## One call -/

/-- A call keeps the balance of its entry: what it adds to the counters is what the stored message
gains. -/
def Balanced (e e' : Entry Name) (ops : List CounterOp) : Prop :=
  ∀ counter, opsTotal ops counter = e'.held counter - e.held counter

omit [DecidableEq Name] in
theorem balanced_of_message_eq {e e' : Entry Name} (h : e'.message = e.message) :
    Balanced e e' [] := by
  intro counter
  simp [Entry.held, h]

theorem balanced_queueMessage {e : Entry Name} (h : e.message = none) (m : Message Name)
    (rawLen : ℕ) : Balanced e (queueMessage m rawLen e).1 (queueMessage m rawLen e).2 := by
  intro counter
  rw [Entry.held_of_none h]
  unfold queueMessage
  rw [opsTotal_reserve]
  simp [Entry.held, Message.held]

theorem balanced_removeMessage_iff (w : MessageWrapper Name) (prevEvent : Option ℕ)
    (e : Entry Name) :
    Balanced e (removeMessage w prevEvent e).1 (removeMessage w prevEvent e).2 ↔
      ∀ counter, e.held counter = w.message.held counter := by
  have hnone : ∀ counter, (removeMessage w prevEvent e).1.held counter = 0 := fun _ => rfl
  have hops : ∀ counter, opsTotal (removeMessage w prevEvent e).2 counter =
      -w.message.held counter := fun counter => opsTotal_release _ _ _
  constructor
  · intro h counter
    have hcounter := h counter
    rw [hnone, hops] at hcounter
    omega
  · intro h counter
    rw [hnone, hops, h counter]
    omega

theorem balanced_replace_iff {w} (prevEvent : Option ℕ) (e : Entry Name)
    (hsingle : w.isMultiQueue = false) :
    Balanced e (saveChanges w prevEvent e).1 (saveChanges w prevEvent e).2 ↔
      ∀ counter, e.held counter = w.message.held counter := by
  have hheld : ∀ counter, (saveChanges w prevEvent e).1.held counter =
      w.message.releaseQuota.1.held counter := by
    intro counter
    simp [saveChanges, hsingle, Entry.held]
  have hops : ∀ counter, opsTotal (saveChanges w prevEvent e).2 counter =
      w.message.releaseQuota.1.held counter - w.message.held counter := by
    intro counter
    rw [← held_releaseQuota]
    simp [saveChanges, hsingle]
  constructor
  · intro h counter
    have hcounter := h counter
    rw [hheld, hops] at hcounter
    omega
  · intro h counter
    rw [hheld, hops, h counter]

/-- Merging: the stored message keeps its quota keys, so nothing must be released. -/
theorem balanced_merge_iff {w} (prevEvent : Option ℕ) (e : Entry Name)
    (hmulti : w.isMultiQueue) :
    Balanced e (saveChanges w prevEvent e).1 (saveChanges w prevEvent e).2 ↔
      ∀ cur, e.message = some cur → cur.blobHash = w.message.blobHash →
        cur.recipients.length = w.message.recipients.length →
        ∀ key ∈ w.message.quotaKeys, key.id ∈ w.message.finishedIds →
          (key.share w.message.size).2 = 0 := by
  cases hmessage : e.message with
  | none =>
    have hsame : saveChanges w prevEvent e = (e, []) := by
      simp [saveChanges, hmulti, hmessage, mergeFnc]
    rw [hsame]
    refine ⟨fun _ cur hcur => ?_, fun _ => balanced_of_message_eq rfl⟩
    cases hcur
  | some cur =>
    by_cases hfits : cur.blobHash = w.message.blobHash ∧
        cur.recipients.length = w.message.recipients.length
    · have hheld : ∀ counter, (saveChanges w prevEvent e).1.held counter = e.held counter := by
        intro counter
        simp [saveChanges, hmulti, hmessage, mergeFnc, Message.releaseQuota, hfits, Entry.held,
          Message.held]
      have hops : ∀ counter, opsTotal (saveChanges w prevEvent e).2 counter =
          -heldKeys w.message.size
            (w.message.quotaKeys.filter (fun key => key.id ∈ w.message.finishedIds)) counter := by
        intro counter
        rw [← opsTotal_release]
        simp [saveChanges, hmulti, hmessage, mergeFnc, Message.releaseQuota, hfits]
      have hzero := heldKeys_eq_zero_iff w.message.size
        (w.message.quotaKeys.filter (fun key => key.id ∈ w.message.finishedIds))
      constructor
      · intro h cur' _ _ _ key hkey hid
        refine hzero.1 (fun counter => ?_) key (by simp [hkey, hid])
        have hcounter := h counter
        rw [hheld, hops] at hcounter
        omega
      · intro h counter
        have hnothing := hzero.2 (fun key hkey => by
          obtain ⟨hmem, hid⟩ := mem_filter.1 hkey
          exact h cur rfl hfits.1 hfits.2 key hmem (of_decide_eq_true hid)) counter
        rw [hheld, hops]
        omega
    · have hsame : saveChanges w prevEvent e = (e, []) := by
        simp [saveChanges, hmulti, hmessage, mergeFnc, Message.releaseQuota, hfits]
      rw [hsame]
      refine ⟨fun _ cur' hcur' hhash hlength => ?_, fun _ => balanced_of_message_eq rfl⟩
      cases hcur'
      cases hfits ⟨hhash, hlength⟩

omit [DecidableEq Name] in
theorem balanced_write_iff (e : Entry Name) (task : ℕ)
    (f : MessageWrapper Name → Option ℕ → Entry Name → Entry Name × List CounterOp) :
    Balanced e (e.write task f).1 (e.write task f).2 ↔
      ∀ t, e.tasks task = some t →
        Balanced e (f t.wrapper t.prevEvent e).1 (f t.wrapper t.prevEvent e).2 := by
  unfold Entry.write
  cases ht : e.tasks task with
  | none =>
    refine ⟨fun _ t h => ?_, fun _ => balanced_of_message_eq rfl⟩
    cases h
  | some t =>
    constructor
    · rintro h t' ⟨⟩
      exact h
    · intro h
      exact h t rfl

omit [DecidableEq Name] in
theorem balanced_edit {e e' : Entry Name} {task : ℕ} {ops}
    {f} (h : e.edit task f = some (e', ops)) :
    Balanced e e' ops := by
  unfold Entry.edit at h
  cases ht : e.tasks task with
  | none =>
    rw [ht] at h
    cases h
    exact balanced_of_message_eq rfl
  | some t =>
    rw [ht] at h
    obtain ⟨m, -, hm⟩ := Option.map_eq_some_iff.1 h
    cases hm
    exact balanced_of_message_eq rfl

/-- **One call**: it is balanced exactly if it releases once what it releases. -/
theorem balanced_step_iff {e e' : Entry Name} {a : Label Name} {ops}
    (hfresh : ∀ m rawLen, a = .queue m rawLen → e.message = none)
    (hstep : e.step a = some (e', ops)) : Balanced e e' ops ↔ e.ReleasesOnce a := by
  cases a with
  | queue m rawLen =>
    cases hstep
    exact iff_of_true (balanced_queueMessage (hfresh m rawLen rfl) m rawLen) trivial
  | read task queueName prevEvent =>
    cases hstep
    refine iff_of_true (balanced_of_message_eq ?_) trivial
    unfold Entry.startTask
    cases readMessage e.message queueName with
    | none | some => rfl
  | expire task now =>
    have hedit : e.edit task (fun m => some (m.expireRcpts now)) = some (e', ops) := hstep
    exact iff_of_true (balanced_edit hedit) trivial
  | setStatus task status rcptIdx strategy now =>
    have hedit : e.edit task (fun m => m.setRcptStatus status rcptIdx strategy now) =
        some (e', ops) := hstep
    exact iff_of_true (balanced_edit hedit) trivial
  | setRateLimit task rcptIdx retryAt =>
    have hedit : e.edit task (fun m => m.setRcptRateLimit rcptIdx retryAt) = some (e', ops) :=
      hstep
    exact iff_of_true (balanced_edit hedit) trivial
  | save task =>
    have hwrite : e.write task saveChanges = (e', ops) := Option.some_inj.1 hstep
    have hiff := balanced_write_iff e task saveChanges
    rw [hwrite] at hiff
    rw [hiff]
    refine forall_congr' fun t => imp_congr_right (fun _ => ?_)
    cases hmulti : t.wrapper.isMultiQueue with
    | true =>
      exact balanced_merge_iff t.prevEvent e hmulti
    | false =>
      exact balanced_replace_iff t.prevEvent e hmulti
  | remove task =>
    have hwrite : e.write task removeMessage = (e', ops) := Option.some_inj.1 hstep
    have hiff := balanced_write_iff e task removeMessage
    rw [hwrite] at hiff
    rw [hiff]
    exact forall_congr' fun t => imp_congr_right (fun _ => balanced_removeMessage_iff _ _ _)

/-! ## Runs -/

section Sums

omit [DecidableEq Name]

/-- A queue id that was not used holds nothing. -/
def UnusedIds (s : QueueStore Name) : Prop :=
  ∀ id, id ∉ s.queueIds → (s.entry id).message = none

theorem quotaConserved_iff (s : QueueStore Name) :
    QuotaConserved s ↔
      ∀ counter, s.counter counter = ∑ id ∈ s.queueIds, (s.entry id).held counter := by
  refine ⟨fun h => h.counter_eq, fun h => ⟨h, ?_, ?_⟩⟩
  · intro counter
    rw [h counter]
    exact Finset.sum_nonneg fun id _ => (s.entry id).held_nonneg counter
  · intro hempty counter
    rw [h counter]
    exact Finset.sum_eq_zero (fun id hid => Entry.held_of_none (hempty id hid) counter)

theorem quotaConserved_empty : QuotaConserved (QueueStore.empty : QueueStore Name) := by
  rw [quotaConserved_iff]
  intro counter
  rfl

theorem unusedIds_empty : UnusedIds (QueueStore.empty : QueueStore Name) := fun _ _ => rfl

theorem sum_held_update {s} (hunused : UnusedIds s) (id : ℕ) (e : Entry Name)
    (counter : QuotaCounter) :
    ∑ id' ∈ insert id s.queueIds, (update s.entry id e id').held counter =
      ∑ id' ∈ s.queueIds, (s.entry id').held counter + (e.held counter -
        (s.entry id).held counter) := by
  have hold : ∑ id' ∈ insert id s.queueIds, (s.entry id').held counter =
      ∑ id' ∈ s.queueIds, (s.entry id').held counter := by
    by_cases hmem : id ∈ s.queueIds
    · rw [Finset.insert_eq_of_mem hmem]
    · rw [Finset.sum_insert hmem, Entry.held_of_none (hunused id hmem)]
      omega
  rw [← hold, ← Finset.add_sum_erase _ _ (Finset.mem_insert_self id s.queueIds),
    ← Finset.add_sum_erase (insert id s.queueIds) (fun id' => (s.entry id').held counter)
      (Finset.mem_insert_self id s.queueIds)]
  have hrest : ∑ id' ∈ (insert id s.queueIds).erase id,
      (update s.entry id e id').held counter =
      ∑ id' ∈ (insert id s.queueIds).erase id, (s.entry id').held counter := by
    refine Finset.sum_congr rfl (fun id' hid' => ?_)
    rw [update_of_ne (Finset.ne_of_mem_erase hid')]
  simp only [update_self]
  omega

end Sums

variable {s s' : QueueStore Name}

theorem QueueStore.receive_cases {id : ℕ} {m : Message Name}
    {rawLen : ℕ} {quotas} {used}
    (h : s.receive id m rawLen quotas used = some s') :
    s' = s ∨ ∃ m', s.apply id (.queue m' rawLen) = some s' := by
  unfold QueueStore.receive at h
  cases hquota : hasQuota quotas used m with
  | none =>
    rw [hquota] at h
    exact .inl (Option.some_inj.1 h).symm
  | some m' =>
    rw [hquota] at h
    exact .inr ⟨m', h⟩

theorem unusedIds_apply {id : ℕ} {a : Label Name} (h : UnusedIds s)
    (hstep : s.apply id a = some s') : UnusedIds s' := by
  obtain ⟨result, -, rfl⟩ := Option.map_eq_some_iff.1 hstep
  intro id' hid'
  rw [Finset.mem_insert, not_or] at hid'
  simp only [update_of_ne hid'.1]
  exact h id' hid'.2

theorem unusedIds_step (s : QueueStore Name) (a : QueueLabel Name) (s' : QueueStore Name)
    (h : UnusedIds s) (_ : FreshId s a) (hstep : s.step a = some s') : UnusedIds s' := by
  cases a with
  | receive id m rawLen quotas used =>
    rcases QueueStore.receive_cases hstep with rfl | ⟨m', happly⟩
    · exact h
    · exact unusedIds_apply h happly
  | call id label => exact unusedIds_apply h hstep

theorem quotaConserved_apply_iff {id : ℕ} {a : Label Name}
    (hconserved : QuotaConserved s) (hunused : UnusedIds s)
    (hfresh : ∀ m rawLen, a = .queue m rawLen → (s.entry id).message = none)
    (hstep : s.apply id a = some s') : QuotaConserved s' ↔ (s.entry id).ReleasesOnce a := by
  obtain ⟨⟨e', ops⟩, hentry, rfl⟩ := Option.map_eq_some_iff.1 hstep
  rw [← balanced_step_iff hfresh hentry, quotaConserved_iff]
  refine forall_congr' fun counter => ?_
  rw [sum_held_update hunused]
  change addAll s.counter ops counter = _ ↔ _
  rw [addAll_apply, hconserved.counter_eq counter]
  exact add_right_inj _

/-- **One step keeps the counters exact if and only if it releases once.** -/
theorem quotaConserved_step_iff (s : QueueStore Name) (a : QueueLabel Name)
    (s' : QueueStore Name) (hconserved : QuotaConserved s) (hunused : UnusedIds s)
    (hfresh : FreshId s a) (hstep : s.step a = some s') :
    QuotaConserved s' ↔ ReleasesOnce s a := by
  cases a with
  | receive id m rawLen quotas used =>
    rcases QueueStore.receive_cases hstep with rfl | ⟨m', happly⟩
    · exact iff_of_true hconserved trivial
    · exact quotaConserved_apply_iff hconserved hunused (fun _ _ _ => hfresh) happly
  | call id label =>
    refine quotaConserved_apply_iff hconserved hunused ?_ hstep
    rintro m rawLen rfl
    exact hfresh

theorem releasesOnce_of_panic (s : QueueStore Name) (a : QueueLabel Name)
    (_ : QuotaConserved s) (_ : UnusedIds s) (_ : FreshId s a) (hstep : s.step a = none) :
    ReleasesOnce s a := by
  cases a with
  | receive id m rawLen quotas used => trivial
  | call id label =>
    cases label with
    | save | remove => cases hstep
    | _ => trivial

/-- **Queue quotas are conserved** in every state of a run exactly if every write of the run
releases once. -/
theorem quota_conserved_iff (calls : List (QueueLabel Name))
    (hfresh : Runs.Along QueueStore.step FreshId (QueueStore.empty : QueueStore Name) calls) :
    Runs.Throughout QueueStore.step QuotaConserved (QueueStore.empty : QueueStore Name) calls ↔
      Runs.Along QueueStore.step ReleasesOnce (QueueStore.empty : QueueStore Name) calls :=
  Runs.throughout_iff_along unusedIds_step quotaConserved_step_iff releasesOnce_of_panic
    quotaConserved_empty unusedIds_empty hfresh

/-! ## Sample runs -/

/-- At most ten messages, counted once for each recipient. -/
def perRcptQuota : QueueQuotas ℕ := ⟨[], [⟨fun _ _ => true, fun _ _ => [1], none, some 10⟩], []⟩

def quotaRcpt (queue : ℕ) : Recipient ℕ :=
  ⟨['x'], ⟨10, 0⟩, ⟨100, 0⟩, .ttl 1000, queue, .scheduled⟩

def delivered : Status := .completed ⟨"mx", 250, (2, 0, 0), "ok"⟩

def sampleQueue (queue : ℕ) : QueueStrategy ℕ := ⟨[60], .ttl 1000, queue, sampleRetry_ne_nil⟩

/-- A message for two recipients in two queues: the first worker saves, the second removes the
message. -/
def twoRounds (queue queue' : ℕ) : List (QueueLabel ℕ) :=
  [.receive 7 ⟨0, [], [quotaRcpt queue, quotaRcpt queue'], 1, []⟩ 1 perRcptQuota (fun _ => 0),
    .call 7 (.read 0 queue (some 10)), .call 7 (.setStatus 0 delivered 0 (sampleQueue queue) 20),
    .call 7 (.save 0),
    .call 7 (.read 1 queue' (some 10)), .call 7 (.setStatus 1 delivered 1 (sampleQueue queue') 30),
    .call 7 (.remove 1)]

theorem twoRounds_one_fresh :
    Runs.Along QueueStore.step FreshId QueueStore.empty (twoRounds 1 1) :=
  .cons rfl rfl (.cons trivial rfl (.cons trivial rfl (.cons trivial rfl (.cons trivial rfl
    (.cons trivial rfl (.cons trivial rfl trivial))))))

theorem twoRounds_two_fresh :
    Runs.Along QueueStore.step FreshId QueueStore.empty (twoRounds 1 2) :=
  .cons rfl rfl (.cons trivial rfl (.cons trivial rfl (.cons trivial rfl (.cons trivial rfl
    (.cons trivial rfl (.cons trivial rfl trivial))))))

theorem quota_conserved_one_queue :
    Runs.Throughout QueueStore.step QuotaConserved QueueStore.empty (twoRounds 1 1) := by
  refine (quota_conserved_iff (twoRounds 1 1) twoRounds_one_fresh).2 ?_
  refine .cons trivial rfl (.cons trivial rfl (.cons trivial rfl (.cons ?_ rfl
    (.cons trivial rfl (.cons trivial rfl (.cons ?_ rfl trivial))))))
  · rintro t ⟨⟩
    exact fun counter => rfl
  · rintro t ⟨⟩
    exact fun counter => rfl

/-- With two queues the first key is released by both workers: the counter ends below zero. -/
theorem released_twice :
    ¬ ∀ calls : List (QueueLabel ℕ),
      Runs.Along QueueStore.step FreshId QueueStore.empty calls →
      Runs.Throughout QueueStore.step QuotaConserved QueueStore.empty calls := by
  intro h
  have hrun := h (twoRounds 1 2) twoRounds_two_fresh
  have hlast := ((((((hrun.2 _ rfl).2 _ rfl).2 _ rfl).2 _ rfl).2 _ rfl).2 _ rfl).2 _ rfl
  exact absurd (hlast.nonneg (.quotaCount [1])) (by decide +kernel)

end MailServer.Delivery
