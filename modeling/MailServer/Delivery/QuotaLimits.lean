import MailServer.Delivery.Quota
import MailServer.Store.Counters

/-!
# Limits of queue quotas

What `has_quota` lets through is queued at once, and the quota keys it picked are reserved.  The
message is checked against the stored counters, once for each key, and not against what it reserves
itself under the same key.

The expression of a quota is any function of the envelope; `hash` is the hash function of the keys.

Principal results: `checked_hasQuota`, `quota_limits_iff`.
-/

namespace MailServer.Delivery

open List
open Store.Counters (leBytes)

variable {seenDomains : List (List Char)}

/-! ## Configuration -/

/-- A message that is received, with its return path and with what else the variables of expressions
look at. -/
structure Received (Env Name : Type) where
  id : ℕ
  returnPath : Address
  env : Env
  message : Message Name

def THROTTLE_RCPT : UInt16 := (1 : UInt16) <<< 0
def THROTTLE_RCPT_DOMAIN : UInt16 := (1 : UInt16) <<< 1
def THROTTLE_SENDER : UInt16 := (1 : UInt16) <<< 2
def THROTTLE_SENDER_DOMAIN : UInt16 := (1 : UInt16) <<< 3

/-- A quota as it is configured. -/
structure QueueQuotaItem (Env Name : Type) where
  expr : Received Env Name → Option (Recipient Name) → Bool
  keys : UInt16
  size : Option ℕ
  messages : Option ℕ

structure QueueQuotaItems (Env Name : Type) where
  sender : List (QueueQuotaItem Env Name)
  rcpt : List (QueueQuotaItem Env Name)
  rcptDomain : List (QueueQuotaItem Env Name)

section Config

variable {Env Name : Type}

def utf8 (text : List Char) : List UInt8 := text.flatMap String.utf8EncodeChar

/-- The empty return path is written `<>`. -/
def orNull (text : List Char) : List Char := if text = [] then ['<', '>'] else text

/-- What `new_key` gives to the hash function. -/
def QueueQuotaItem.hashInput (quota : QueueQuotaItem Env Name) (received : Received Env Name)
    (rcpt : Option (Recipient Name)) : List UInt8 :=
  (if quota.keys &&& THROTTLE_RCPT ≠ 0 then utf8 (rcpt.elim [] (·.address)) else []) ++
  (if quota.keys &&& THROTTLE_RCPT_DOMAIN ≠ 0 then
    utf8 (rcpt.elim [] (domainPart ·.address)) else []) ++
  (if quota.keys &&& THROTTLE_SENDER ≠ 0 then utf8 (orNull received.returnPath) else []) ++
  (if quota.keys &&& THROTTLE_SENDER_DOMAIN ≠ 0 then
    utf8 (orNull (domainPart received.returnPath)) else []) ++
  quota.messages.elim [] (leBytes 8) ++
  quota.size.elim [] (leBytes 8)

/-- The quota, as it looks to one message. -/
def QueueQuotaItem.resolve (hash : List UInt8 → List UInt8) (received : Received Env Name)
    (quota : QueueQuotaItem Env Name) : QueueQuota Name where
  expr _ rcpt := quota.expr received rcpt
  newKey _ rcpt := hash (quota.hashInput received rcpt)
  size := quota.size
  messages := quota.messages

def QueueQuotaItems.resolve (hash : List UInt8 → List UInt8) (received : Received Env Name)
    (quotas : QueueQuotaItems Env Name) : QueueQuotas Name where
  sender := quotas.sender.map (·.resolve hash received)
  rcpt := quotas.rcpt.map (·.resolve hash received)
  rcptDomain := quotas.rcptDomain.map (·.resolve hash received)

end Config

/-! ## What a message reserves -/

section Reservations

variable {Name : Type}

/-- What the message adds to a counter, each time. -/
def Message.amount (m : Message Name) : QuotaCounter → ℕ
  | .quotaCount _ => 1
  | .quotaSize _ => m.size

variable (quota : QueueQuota Name)

/-- The counters a quota checks, and their maxima. -/
def QueueQuota.reservations (m : Message Name)
    (rcpt : Option (Recipient Name)) : List (QuotaCounter × ℕ) :=
  if quota.expr m rcpt then
    (quota.size.map fun max => (.quotaSize (quota.newKey m rcpt), max)).toList ++
      (quota.messages.map fun max => (.quotaCount (quota.newKey m rcpt), max)).toList
  else []

def firstOfDomains (seenDomains : List (List Char)) :
    List (Recipient Name) → List (Recipient Name)
  | [] => []
  | rcpt :: rest =>
    if domainPart rcpt.address ∈ seenDomains then firstOfDomains seenDomains rest
    else rcpt :: firstOfDomains (domainPart rcpt.address :: seenDomains) rest

/-- All counters that are checked for a message; of the domain quotas only the first is. -/
def QueueQuotas.reservations (quotas : QueueQuotas Name) (m : Message Name) :
    List (QuotaCounter × ℕ) :=
  (quotas.sender.flatMap fun quota => quota.reservations m none) ++
  (quotas.rcptDomain.head?.toList.flatMap fun quota =>
    (firstOfDomains [] m.recipients).flatMap fun rcpt => quota.reservations m (some rcpt)) ++
  quotas.rcpt.flatMap fun quota => m.recipients.flatMap fun rcpt => quota.reservations m (some rcpt)

def HasRoom (used : QuotaCounter → ℤ) (m : Message Name) (reservation : QuotaCounter × ℕ) : Prop :=
  asU64 (used reservation.1 + m.amount reservation.1) ≤ reservation.2

instance (used : QuotaCounter → ℤ) (m : Message Name) : DecidablePred (HasRoom used m) :=
  fun _ => inferInstanceAs (Decidable (_ ≤ _))

theorem asU64_add (value : ℤ) (n : ℕ) : asU64 (value + n) = (asU64 value + n) % 2 ^ 64 := by
  unfold asU64
  omega

/-- Some checks, one after the other: if there is room for each, a key for each is taken down. -/
def Checked (used : QuotaCounter → ℤ) (m : Message Name) (reservations : List (QuotaCounter × ℕ))
    (refs : List QuotaKey) (result : Option (List QuotaKey)) : Prop :=
  (result = none ∧ ∃ r ∈ reservations, ¬ HasRoom used m r) ∨
  (∃ keys, result = some (refs ++ keys) ∧ (∀ r ∈ reservations, HasRoom used m r) ∧
    keys.map (QuotaKey.reserve m.size) = reservations.map fun r => (r.1, (m.amount r.1 : ℤ)))

variable {used : QuotaCounter → ℤ} {m : Message Name}

theorem checked_nil (refs : List QuotaKey) : Checked used m [] refs (some refs) := by
  refine .inr ⟨[], ?_, fun r hr => ?_, rfl⟩
  · rw [append_nil]
  · cases hr

theorem Checked.append {first second} {refs}
    {result} {next}
    (hfirst : Checked used m first refs result)
    (hsecond : ∀ refs, Checked used m second refs (next refs)) :
    Checked used m (first ++ second) refs (result.bind next) := by
  rcases hfirst with ⟨rfl, r, hr, hroom⟩ | ⟨keys, rfl, hroom, hkeys⟩
  · exact .inl ⟨rfl, r, mem_append_left _ hr, hroom⟩
  · rcases hsecond (refs ++ keys) with ⟨hnone, r, hr, hroom'⟩ | ⟨keys', hsome, hroom', hkeys'⟩
    · exact .inl ⟨hnone, r, mem_append_right _ hr, hroom'⟩
    · refine .inr ⟨keys ++ keys', ?_, fun r hr => ?_, ?_⟩
      · rw [← append_assoc]
        exact hsome
      · rcases mem_append.1 hr with hr | hr
        · exact hroom r hr
        · exact hroom' r hr
      · rw [map_append, map_append, hkeys, hkeys']

theorem checked_foldlM {α : Type} {items : List α} {reservations}
    {next}
    (hnext : ∀ item ∈ items, ∀ refs, Checked used m (reservations item) refs (next refs item))
    (refs : List QuotaKey) :
    Checked used m (items.flatMap reservations) refs (items.foldlM next refs) := by
  induction items generalizing refs with
  | nil => exact checked_nil refs
  | cons item items ih =>
    exact (hnext item (.head _) refs).append
      (ih fun other hother => hnext other (.tail _ hother))

theorem checked_checkLimit (max : Option ℕ) (counter : QuotaCounter) (key : QuotaKey)
    (hkey : key.reserve m.size = (counter, (m.amount counter : ℤ))) (refs : List QuotaKey) :
    Checked used m (max.map fun max => (counter, max)).toList refs
      (checkLimit max (used counter) (m.amount counter) key refs) := by
  cases max with
  | none => exact checked_nil refs
  | some max =>
    unfold checkLimit
    dsimp only
    rw [← asU64_add]
    by_cases hroom : asU64 (used counter + m.amount counter) > max
    · rw [if_pos hroom]
      exact .inl ⟨rfl, (counter, max), mem_singleton_self _, Nat.not_le.2 hroom⟩
    · rw [if_neg hroom]
      refine .inr ⟨[key], rfl, fun r hr => ?_, ?_⟩
      · rw [mem_singleton.1 hr]
        exact Nat.not_lt.1 hroom
      · exact congrArg (fun op => [op]) hkey

theorem checked_checkQuota (rcpt : Option (Recipient Name)) (id : ℕ) (refs : List QuotaKey) :
    Checked used m (quota.reservations m rcpt) refs (checkQuota used m quota rcpt id refs) := by
  unfold QueueQuota.reservations checkQuota
  by_cases hexpr : quota.expr m rcpt
  · rw [if_pos hexpr, if_pos hexpr]
    refine Checked.append ?_ fun refs => ?_
    · exact checked_checkLimit quota.size (.quotaSize (quota.newKey m rcpt))
        (.size (quota.newKey m rcpt) id) rfl refs
    · exact checked_checkLimit quota.messages (.quotaCount (quota.newKey m rcpt))
        (.count (quota.newKey m rcpt) id) rfl refs
  · rw [if_neg hexpr, if_neg hexpr]
    exact checked_nil refs

theorem checked_checkRcpts (rcpts : List (Recipient Name)) (rcptIdx : ℕ) (refs : List QuotaKey) :
    Checked used m (rcpts.flatMap fun rcpt => quota.reservations m (some rcpt)) refs
      (checkRcpts used m quota rcpts rcptIdx refs) := by
  induction rcpts generalizing rcptIdx refs with
  | nil => exact checked_nil refs
  | cons rcpt rest ih =>
    exact (checked_checkQuota quota (some rcpt) (rcptIdx + 1) refs).append (ih (rcptIdx + 1))

def seeDomain (seenDomains : List (List Char)) (rcpt : Recipient Name) : List (List Char) :=
  if domainPart rcpt.address ∈ seenDomains then seenDomains
  else domainPart rcpt.address :: seenDomains

theorem mem_seeDomain_of_mem {domain : List Char}
    (h : domain ∈ seenDomains) (rcpt : Recipient Name) : domain ∈ seeDomain seenDomains rcpt := by
  unfold seeDomain
  by_cases hseen : domainPart rcpt.address ∈ seenDomains
  · rw [if_pos hseen]
    exact h
  · rw [if_neg hseen]
    exact .tail _ h

theorem domainPart_mem_seeDomain (seenDomains : List (List Char)) (rcpt : Recipient Name) :
    domainPart rcpt.address ∈ seeDomain seenDomains rcpt := by
  unfold seeDomain
  by_cases hseen : domainPart rcpt.address ∈ seenDomains
  · rw [if_pos hseen]
    exact hseen
  · rw [if_neg hseen]
    exact .head _

/-- The domains a loop over recipients leaves behind. -/
def seenAfter (seenDomains : List (List Char)) (rcpts : List (Recipient Name)) :
    List (List Char) :=
  rcpts.foldl seeDomain seenDomains

theorem mem_seenAfter_of_mem {domain : List Char}
    (h : domain ∈ seenDomains) (rcpts : List (Recipient Name)) :
    domain ∈ seenAfter seenDomains rcpts := by
  induction rcpts generalizing seenDomains with
  | nil => exact h
  | cons rcpt rest ih => exact ih (mem_seeDomain_of_mem h rcpt)

theorem domainPart_mem_seenAfter (seenDomains : List (List Char)) {rcpts : List (Recipient Name)}
    {rcpt : Recipient Name} (h : rcpt ∈ rcpts) :
    domainPart rcpt.address ∈ seenAfter seenDomains rcpts := by
  induction rcpts generalizing seenDomains with
  | nil => cases h
  | cons head rest ih =>
    rcases mem_cons.1 h with rfl | hrest
    · exact mem_seenAfter_of_mem (domainPart_mem_seeDomain seenDomains rcpt) rest
    · exact ih _ hrest

theorem checked_checkDomains (rcpts : List (Recipient Name)) (rcptIdx : ℕ)
    (seenDomains : List (List Char)) (refs : List QuotaKey) :
    ∃ result, checkDomains used m quota rcpts rcptIdx seenDomains refs =
        result.map (seenAfter seenDomains rcpts, ·) ∧
      Checked used m ((firstOfDomains seenDomains rcpts).flatMap fun rcpt =>
        quota.reservations m (some rcpt)) refs result := by
  induction rcpts generalizing rcptIdx seenDomains refs with
  | nil => exact ⟨some refs, rfl, checked_nil refs⟩
  | cons rcpt rest ih =>
    have hafter : seenAfter seenDomains (rcpt :: rest) =
        seenAfter (seeDomain seenDomains rcpt) rest := rfl
    rw [hafter]
    unfold checkDomains firstOfDomains seeDomain
    by_cases hseen : domainPart rcpt.address ∈ seenDomains
    · rw [if_pos hseen, if_pos hseen, if_pos hseen]
      exact ih (rcptIdx + 1) seenDomains refs
    · rw [if_neg hseen, if_neg hseen, if_neg hseen]
      choose next hnext hchecked using
        ih (rcptIdx + 1) (domainPart rcpt.address :: seenDomains)
      refine ⟨(checkQuota used m quota (some rcpt) ((rcptIdx + 1) <<< 32) refs).bind next, ?_, ?_⟩
      · rw [Option.map_bind]
        exact congrArg _ (funext hnext)
      · exact (checked_checkQuota quota (some rcpt) _ refs).append hchecked

theorem checkDomains_of_seen {rcpts} {seenDomains : List (List Char)}
    (h : ∀ rcpt ∈ rcpts, domainPart rcpt.address ∈ seenDomains) (rcptIdx : ℕ)
    (refs : List QuotaKey) :
    checkDomains used m quota rcpts rcptIdx seenDomains refs = some (seenDomains, refs) := by
  induction rcpts generalizing rcptIdx with
  | nil => rfl
  | cons rcpt rest ih =>
    unfold checkDomains
    rw [if_pos (h rcpt (.head _))]
    exact ih (fun other hother => h other (.tail _ hother)) (rcptIdx + 1)

theorem foldlM_checkDomains_of_seen (quotas : List (QueueQuota Name))
    (h : ∀ rcpt ∈ m.recipients, domainPart rcpt.address ∈ seenDomains) (refs : List QuotaKey) :
    quotas.foldlM (fun st quota => checkDomains used m quota m.recipients 0 st.1 st.2)
      (seenDomains, refs) = some (seenDomains, refs) := by
  induction quotas with
  | nil => rfl
  | cons quota quotas ih =>
    rw [foldlM_cons, checkDomains_of_seen quota h]
    exact ih

theorem checked_domains (quotas : List (QueueQuota Name)) (refs : List QuotaKey) :
    Checked used m (quotas.head?.toList.flatMap fun quota =>
      (firstOfDomains [] m.recipients).flatMap fun rcpt => quota.reservations m (some rcpt)) refs
      ((quotas.foldlM (fun st quota => checkDomains used m quota m.recipients 0 st.1 st.2)
        (([] : List (List Char)), refs)).map Prod.snd) := by
  cases quotas with
  | nil => exact checked_nil refs
  | cons quota quotas =>
    obtain ⟨result, hresult, hchecked⟩ : ∃ result,
        checkDomains used m quota m.recipients 0 [] refs =
          result.map (seenAfter [] m.recipients, ·) ∧
        Checked used m ((firstOfDomains [] m.recipients).flatMap fun rcpt =>
          quota.reservations m (some rcpt)) refs result :=
      checked_checkDomains quota m.recipients 0 [] refs
    rw [foldlM_cons, hresult, List.head?_cons, Option.toList_some, flatMap_singleton]
    cases result with
    | none => exact hchecked
    | some refs' =>
      have hrest : quotas.foldlM (fun st quota =>
        checkDomains used m quota m.recipients 0 st.1 st.2)
          (seenAfter [] m.recipients, refs') = some (seenAfter [] m.recipients, refs') :=
        foldlM_checkDomains_of_seen quotas
          (fun rcpt hrcpt => domainPart_mem_seenAfter [] hrcpt) refs'
      change Checked used m _ refs (Option.map Prod.snd (List.foldlM _ (_, refs') quotas))
      rw [hrest]
      exact hchecked

/-- **What `has_quota` does**: it checks every reservation by itself, and takes all of them down. -/
theorem checked_hasQuota (quotas : QueueQuotas Name) :
    Checked used m (quotas.reservations m) []
      ((hasQuota quotas used m).map (·.quotaKeys)) := by
  have hsender : Checked used m (quotas.sender.flatMap fun quota => quota.reservations m none) []
      (quotas.sender.foldlM (fun refs quota => checkQuota used m quota none 0 refs) []) :=
    checked_foldlM (fun quota _ refs => checked_checkQuota quota none 0 refs) []
  have hdomains : ∀ refs, Checked used m (quotas.rcptDomain.head?.toList.flatMap fun quota =>
      (firstOfDomains [] m.recipients).flatMap fun rcpt => quota.reservations m (some rcpt)) refs
      _ := checked_domains quotas.rcptDomain
  have hrcpts : ∀ refs, Checked used m (quotas.rcpt.flatMap fun quota =>
      m.recipients.flatMap fun rcpt => quota.reservations m (some rcpt)) refs
      (quotas.rcpt.foldlM (fun refs quota => checkRcpts used m quota m.recipients 0 refs) refs) :=
    checked_foldlM fun quota _ refs => checked_checkRcpts quota m.recipients 0 refs
  have hall := (hsender.append hdomains).append hrcpts
  unfold QueueQuotas.reservations
  convert hall using 1
  unfold hasQuota
  cases quotas.sender.foldlM (fun refs quota => checkQuota used m quota none 0 refs) [] with
  | none => rfl
  | some refs =>
    rw [Option.bind_some]
    change Option.map _ (Option.bind (List.foldlM _ ([], refs) quotas.rcptDomain) _) = _
    cases quotas.rcptDomain.foldlM (fun st quota => checkDomains used m quota m.recipients 0 st.1
      st.2) (([] : List (List Char)), refs) with
    | none => rfl
    | some st =>
      obtain ⟨seenDomains, refs⟩ := st
      change Option.map _ (Option.bind (List.foldlM _ refs quotas.rcpt) _) =
        List.foldlM _ refs quotas.rcpt
      cases quotas.rcpt.foldlM (fun refs quota => checkRcpts used m quota m.recipients 0 refs)
        refs with
      | none | some => rfl

theorem hasQuota_eq_some {quotas : QueueQuotas Name} {m' : Message Name}
    (h : hasQuota quotas used m = some m') : m' = { m with quotaKeys := m'.quotaKeys } := by
  obtain ⟨refs, -, h⟩ := Option.bind_eq_some_iff.1 h
  obtain ⟨st, -, h⟩ := Option.bind_eq_some_iff.1 h
  obtain ⟨refs', -, h⟩ := Option.bind_eq_some_iff.1 h
  cases h
  rfl

def Message.added (m : Message Name) (reservations : List (QuotaCounter × ℕ))
    (counter : QuotaCounter) : ℕ :=
  reservations.countP (·.1 = counter) * m.amount counter

theorem opsTotal_reservations (reservations : List (QuotaCounter × ℕ)) (counter : QuotaCounter) :
    opsTotal (reservations.map fun r => (r.1, (m.amount r.1 : ℤ))) counter =
      m.added reservations counter := by
  unfold Message.added
  induction reservations with
  | nil => simp
  | cons r reservations ih =>
    rw [map_cons, opsTotal_cons, ih]
    by_cases h : r.1 = counter
    · rw [if_pos h, countP_cons_of_pos (by simpa using h), h]
      push_cast
      ring
    · rw [if_neg h, countP_cons_of_neg (by simpa using h)]
      omega

theorem added_of_filter_singleton {m : Message Name} {reservations}
    {counter : QuotaCounter} {r}
    (h : reservations.filter (·.1 = counter) = [r]) :
    m.added reservations counter = m.amount counter := by
  unfold Message.added
  rw [countP_eq_length_filter, h, length_singleton, Nat.one_mul]

theorem added_of_not_mem {m : Message Name} {reservations}
    {counter : QuotaCounter} (h : ¬ ∃ r ∈ reservations, r.1 = counter) :
    m.added reservations counter = 0 := by
  have hzero : reservations.countP (·.1 = counter) = 0 := by
    rw [countP_eq_zero]
    intro r hr hcounter
    exact h ⟨r, hr, by simpa using hcounter⟩
  unfold Message.added
  rw [hzero, Nat.zero_mul]

end Reservations

/-! ## Runs -/

section Runs

variable {Env Name : Type} (hash : List UInt8 → List UInt8) (quotas : QueueQuotaItems Env Name)

/-- Everything the message reserves, with the maxima. -/
def QueueQuotaItems.reservations (received : Received Env Name) : List (QuotaCounter × ℕ) :=
  (quotas.resolve hash received).reservations received.message

/-- A quota limits the counter to `max`. -/
def IsLimit (counter : QuotaCounter) (max : ℕ) : Prop :=
  ∃ received : Received Env Name,
    (∃ quota ∈ quotas.sender,
      (counter, max) ∈ (quota.resolve hash received).reservations received.message none) ∨
    (∃ quota ∈ quotas.rcpt ++ quotas.rcptDomain, ∃ rcpt ∈ received.message.recipients,
      (counter, max) ∈ (quota.resolve hash received).reservations received.message (some rcpt))

/-- No counter is above a limit of it. -/
def InLimits (s : QueueStore Name) : Prop :=
  ∀ counter max, IsLimit hash quotas counter max → asU64 (s.counter counter) ≤ max

/-- The message is refused only for want of room. -/
def RefusedForRoom (s : QueueStore Name) (received : Received Env Name) : Prop :=
  hasQuota (quotas.resolve hash received) s.counter received.message = none →
    ∃ r ∈ quotas.reservations hash received, ¬ HasRoom s.counter received.message r

/-- If there is room for every reservation by itself, there is room for all of one counter together,
unless there is just one, which is under the limit in question. -/
def RoomForAll (s : QueueStore Name) (received : Received Env Name) : Prop :=
  (∀ r ∈ quotas.reservations hash received, HasRoom s.counter received.message r) →
    ∀ counter max, IsLimit hash quotas counter max →
      (∃ r ∈ quotas.reservations hash received, r.1 = counter) →
      (quotas.reservations hash received).filter (·.1 = counter) ≠ [(counter, max)] →
      asU64 (s.counter counter +
        received.message.added (quotas.reservations hash received) counter) ≤ max

variable {hash quotas}

theorem refusedForRoom (s : QueueStore Name) (received : Received Env Name) :
    RefusedForRoom hash quotas s received := by
  intro hnone
  have hchecked : Checked s.counter received.message (quotas.reservations hash received) [] _ :=
    checked_hasQuota (quotas.resolve hash received)
  rw [hnone] at hchecked
  rcases hchecked with ⟨-, hroom⟩ | ⟨keys, hsome, -⟩
  · exact hroom
  · cases hsome

theorem inLimits_empty : InLimits hash quotas (QueueStore.empty : QueueStore Name) :=
  fun _ max _ => Nat.zero_le max

variable [DecidableEq Name]

variable (hash quotas) in
/-- `has_quota`, and `queue` if it lets the message through; the size of a message is that of the
raw message. -/
def receiveStep (s : QueueStore Name) (received : Received Env Name) :
    Option (QueueStore Name) :=
  s.receive received.id received.message received.message.size (quotas.resolve hash received)
    s.counter

variable (hash quotas) in
theorem receiveStep_spec (s : QueueStore Name) (received : Received Env Name) :
    (receiveStep hash quotas s received = some s ∧
      ∃ r ∈ quotas.reservations hash received, ¬ HasRoom s.counter received.message r) ∨
    (∃ s', receiveStep hash quotas s received = some s' ∧
      (∀ r ∈ quotas.reservations hash received, HasRoom s.counter received.message r) ∧
      ∀ counter, s'.counter counter = s.counter counter +
        received.message.added (quotas.reservations hash received) counter) := by
  have hchecked : Checked s.counter received.message (quotas.reservations hash received) [] _ :=
    checked_hasQuota (quotas.resolve hash received)
  unfold receiveStep QueueStore.receive
  cases hquota : hasQuota (quotas.resolve hash received) s.counter received.message with
  | none =>
    rw [hquota] at hchecked
    rcases hchecked with ⟨-, hroom⟩ | ⟨keys, hsome, -⟩
    · exact .inl ⟨rfl, hroom⟩
    · cases hsome
  | some m' =>
    rw [hquota] at hchecked
    rcases hchecked with ⟨hnone, -⟩ | ⟨keys, hsome, hroom, hkeys⟩
    · cases hnone
    · refine .inr ⟨_, rfl, hroom, fun counter => ?_⟩
      have hm' := hasQuota_eq_some hquota
      have hsize : (if m'.size = 0 then received.message.size else m'.size) =
          received.message.size := by
        rw [hm']
        by_cases hzero : received.message.size = 0
        · exact if_pos hzero
        · exact if_neg hzero
      have hkeys' : m'.quotaKeys = keys := Option.some.inj hsome
      change addAll s.counter (m'.quotaKeys.map (QuotaKey.reserve
        (if m'.size = 0 then received.message.size else m'.size))) counter = _
      rw [hsize, hkeys', hkeys, addAll_apply, opsTotal_reservations]

/-- **One message**: the counters stay within their limits exactly if there is room for all. -/
theorem inLimits_step_iff (s : QueueStore Name) (received : Received Env Name)
    (s' : QueueStore Name) (hlimits : InLimits hash quotas s)
    (hstep : receiveStep hash quotas s received = some s') :
    InLimits hash quotas s' ↔ RoomForAll hash quotas s received := by
  have hspec := receiveStep_spec hash quotas s received
  rcases hspec with ⟨hsame, r, hr, hroom⟩ | ⟨t, ht, hroom, hadded⟩
  · cases hsame.symm.trans hstep
    exact iff_of_true hlimits fun hall => absurd (hall r hr) hroom
  · cases ht.symm.trans hstep
    constructor
    · intro hlimits' _ counter max hlimit _ _
      rw [← hadded counter]
      exact hlimits' counter max hlimit
    · intro hall counter max hlimit
      rw [hadded counter]
      by_cases hreserved : ∃ r ∈ quotas.reservations hash received, r.1 = counter
      · by_cases honce : (quotas.reservations hash received).filter (·.1 = counter) =
            [(counter, max)]
        · have hmem : (counter, max) ∈ quotas.reservations hash received := by
            have hfilter : (counter, max) ∈
                (quotas.reservations hash received).filter (·.1 = counter) := by
              rw [honce]
              exact mem_singleton_self _
            exact (mem_filter.1 hfilter).1
          rw [added_of_filter_singleton honce]
          exact hroom _ hmem
        · exact hall hroom counter max hlimit hreserved honce
      · rw [added_of_not_mem hreserved, Nat.cast_zero, add_zero]
        exact hlimits counter max hlimit

/-- **Messages are refused only for want of room, and counters stay within their limits**, exactly
if there is room for all that each message reserves. -/
theorem quota_limits_iff (messages : List (Received Env Name)) :
    (∀ (s : QueueStore Name) received, RefusedForRoom hash quotas s received) ∧
    (Runs.Throughout (receiveStep hash quotas) (InLimits hash quotas)
        (QueueStore.empty : QueueStore Name) messages ↔
      Runs.Along (receiveStep hash quotas) (RoomForAll hash quotas)
        (QueueStore.empty : QueueStore Name) messages) := by
  refine ⟨refusedForRoom, ?_⟩
  refine Runs.throughout_iff_along (J := fun _ => True) (fun _ _ _ _ _ _ => trivial) ?_ ?_
    inLimits_empty trivial (Runs.Along.of_forall (fun _ _ => trivial) _ _)
  · exact fun s received s' hlimits _ _ hstep => inLimits_step_iff s received s' hlimits hstep
  · intro s received _ _ _ hnone
    rcases receiveStep_spec hash quotas s received with
      ⟨hsame, -⟩ | ⟨t, ht, -⟩
    · cases hnone.symm.trans hsame
    · cases hnone.symm.trans ht

end Runs

/-! ## A message that exceeds a quota by itself -/

/-- One message for all recipients together. -/
def sharedQuota : QueueQuotaItems Unit ℕ := ⟨[], [⟨fun _ rcpt => rcpt.isSome, 0, none, some 1⟩], []⟩

/-- A message to two recipients. -/
def toTwo : Received Unit ℕ :=
  ⟨7, ['s'], (), ⟨0, [], [quotaRcpt 1, { quotaRcpt 1 with address := ['y'] }], 100, []⟩⟩

theorem exceeded_by_one_message :
    ¬ Runs.Throughout (receiveStep id sharedQuota) (InLimits id sharedQuota)
      (QueueStore.empty : QueueStore ℕ) [toTwo] := by
  rintro ⟨-, hnext⟩
  have hlimits := hnext _ rfl
  have hlimit : IsLimit id sharedQuota (.quotaCount (leBytes 8 1)) 1 :=
    ⟨toTwo, .inr ⟨_, mem_singleton_self _, quotaRcpt 1, .head _,
      mem_singleton_self _⟩⟩
  have htwo : (2 : ℕ) ≤ 1 := hlimits _ _ hlimit
  exact absurd htwo (by decide)

end MailServer.Delivery
