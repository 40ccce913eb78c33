import MailServer.Store.Assert
import MailServer.Lib.Run

/-!
# Locks

Nodes lock keys by writing the time at which the lock expires into a shared store
(`store/src/dispatch/lookup.rs`).  `try_lock` reads the entry, asks for the time, and writes under
the assertion that the entry is still what it was; an entry that cannot be decoded is cleared first.
`remove_lock` deletes the entry, whosever it is.  Every access to the store and to the clock is a
step of its own, and the steps of the nodes interleave in any way.

Principal results: `step_inv`, `exclusive_of_clean`, `not_exclusive_after_delete`.
-/

namespace MailServer.Store.Lock

open Function

def buildKey (kind : UInt8) (key : Bytes) : Bytes := kind :: key

/-- Where a node stands in a call. -/
inductive Call where
  | idle
  /-- `try_lock` has read an entry that cannot be decoded. -/
  | clearing (key : Bytes) (duration : UInt64)
  /-- `try_lock` has read the entry. -/
  | read (key : Bytes) (duration : UInt64) (lockExpiry : Option UInt64)
  /-- `try_lock` is about to write. -/
  | writing (key : Bytes) (duration : UInt64) (assertValue : AssertValue) (now : UInt64)
  | removing (key : Bytes)

variable {Node : Type}

/-- The store, the clock and the nodes. A node holds a key from a `try_lock` that has returned true
until it calls `remove_lock`, with the time of expiry it asked for. -/
structure State (Node : Type) where
  store : Bytes → Option Bytes
  clock : UInt64
  call : Node → Call
  held : Node → Bytes → Option ℕ

/-- A store with some entries, and nodes that have not done anything. -/
def start (store : Bytes → Option Bytes) (clock : UInt64) : State Node :=
  ⟨store, clock, fun _ => .idle, fun _ _ => none⟩

def State.setStore (s : State Node) (key : Bytes) (value : Option Bytes) : State Node :=
  { s with store := update s.store key value }

variable {s : State Node} {n m : Node} {key key' : Bytes}

@[simp] theorem store_setStore (value : Option Bytes) :
    (s.setStore key value).store key = value := by
  change update s.store key value key = value
  rw [update_self]

theorem store_setStore_of_ne (h : key' ≠ key) (value : Option Bytes) :
    (s.setStore key value).store key' = s.store key' := by
  change update s.store key value key' = s.store key'
  rw [update_of_ne h]

section Updates

variable [DecidableEq Node]

def State.setCall (s : State Node) (n : Node) (call : Call) : State Node :=
  { s with call := update s.call n call }

def State.setHeld (s : State Node) (n : Node) (key : Bytes) (expiry : Option ℕ) : State Node :=
  { s with held := update s.held n (update (s.held n) key expiry) }

theorem call_of_setCall {call call' : Call} (h : (s.setCall n call).call m = call') :
    (m = n ∧ call = call') ∨ (m ≠ n ∧ s.call m = call') :=
  Runs.update_cases h

theorem held_of_setHeld {expiry : Option ℕ} {expiry' : ℕ}
    (h : (s.setHeld n key expiry).held m key' = some expiry') :
    (m = n ∧ key' = key ∧ expiry = some expiry') ∨
      (¬ (m = n ∧ key' = key) ∧ s.held m key' = some expiry') := by
  change update s.held n (update (s.held n) key expiry) m key' = some expiry' at h
  by_cases hm : m = n
  · subst hm
    rw [update_self] at h
    by_cases hkey : key' = key
    · subst hkey
      rw [update_self] at h
      exact .inl ⟨rfl, rfl, h⟩
    · rw [update_of_ne hkey] at h
      exact .inr ⟨fun hh => hkey hh.2, h⟩
  · rw [update_of_ne hm] at h
    exact .inr ⟨fun hh => hm hh.1, h⟩

end Updates

/-! ## The steps of a call -/

inductive Event (Node : Type) where
  | tick (now : UInt64)
  | tryLock (n : Node) (kind : UInt8) (key : Bytes) (duration : UInt64)
  | clear (n : Node)
  | checkExpiry (n : Node)
  | write (n : Node)
  | removeLock (n : Node) (kind : UInt8) (key : Bytes)
  | delete (n : Node)
  /-- The store reports an error, and the call ends. -/
  | fail (n : Node)

/-- What `try_lock` does with what it reads. -/
def readLock (key : Bytes) (duration : UInt64) : Option Bytes → Call
  | none => .read key duration none
  | some bytes =>
    match deserializeU64 bytes with
    | some lockExpiry => .read key duration (some lockExpiry)
    | none => .clearing key duration

/-- What is asserted when the entry is written. -/
def expected : Option UInt64 → AssertValue
  | some value => .u64 value
  | none => .none

def step [DecidableEq Node] (s : State Node) : Event Node → Option (State Node)
  | .tick now => if s.clock ≤ now then some { s with clock := now } else none
  | .tryLock n kind key duration =>
    match s.call n with
    | .idle =>
      some (s.setCall n (readLock (buildKey kind key) duration (s.store (buildKey kind key))))
    | _ => none
  | .clear n =>
    match s.call n with
    | .clearing key duration => some ((s.setStore key none).setCall n (.read key duration none))
    | _ => none
  | .checkExpiry n =>
    match s.call n with
    | .read key duration lockExpiry =>
      if lockExpiry.any fun expiry => decide (expiry > s.clock) then some (s.setCall n .idle)
      else some (s.setCall n (.writing key duration (expected lockExpiry) s.clock))
    | _ => none
  | .write n =>
    match s.call n with
    | .writing key duration assertValue now =>
      if assertValue.holds (s.store key) then
        some (((s.setStore key (some (beU64 (now + duration)))).setHeld n key
          (some (now.toNat + duration.toNat))).setCall n .idle)
      else some (s.setCall n .idle)
    | _ => none
  | .removeLock n kind key =>
    match s.call n, s.held n (buildKey kind key) with
    | .idle, some _ =>
      some ((s.setHeld n (buildKey kind key) none).setCall n (.removing (buildKey kind key)))
    | _, _ => none
  | .delete n =>
    match s.call n with
    | .removing key => some ((s.setStore key none).setCall n .idle)
    | _ => none
  | .fail n => some (s.setCall n .idle)

/-! ## What is to hold -/

/-- The node has the key, and its lock has not expired. -/
def Holds (s : State Node) (n : Node) (key : Bytes) : Prop :=
  ∃ expiry, s.held n key = some expiry ∧ s.clock.toNat < expiry

/-- The step lets `try_lock` of the node return true. -/
def Acquires (s : State Node) (event : Event Node) (n : Node) (key : Bytes) : Prop :=
  event = .write n ∧ ∃ duration assertValue now,
    s.call n = .writing key duration assertValue now ∧ assertValue.holds (s.store key)

/-- No node takes a key that another one holds. -/
def Exclusive (s : State Node) (event : Event Node) : Prop :=
  ∀ n key, Acquires s event n key → ∀ m, m ≠ n → ¬ Holds s m key

/-- An entry is deleted only while no other node holds the key, and the clock can show when a lock
expires. -/
def Clean (s : State Node) : Event Node → Prop
  | .clear n => ∀ key duration, s.call n = .clearing key duration → ∀ m, m ≠ n → ¬ Holds s m key
  | .delete n => ∀ key, s.call n = .removing key → ∀ m, m ≠ n → ¬ Holds s m key
  | .write n => ∀ key duration assertValue now, s.call n = .writing key duration assertValue now →
      now.toNat + duration.toNat < 2 ^ 64
  | _ => True

/-! ## The invariant -/

structure Inv (s : State Node) : Prop where
  /-- A lock that has not expired is in the store. -/
  stored : ∀ n key expiry, s.held n key = some expiry → s.clock.toNat < expiry →
    expiry < 2 ^ 64 ∧ s.store key = some (beU64 (UInt64.ofNat expiry))
  /-- What is about to be written replaces nothing, or a lock that has expired. -/
  writing : ∀ n key duration assertValue now,
    s.call n = .writing key duration assertValue now → now ≤ s.clock ∧
      (assertValue = .none ∨ ∃ value, assertValue = .u64 value ∧ value ≤ s.clock)
  /-- A node that is about to delete an entry does not hold the key. -/
  clearing : ∀ n key duration, s.call n = .clearing key duration → ¬ Holds s n key
  removing : ∀ n key, s.call n = .removing key → ¬ Holds s n key

theorem start_inv (store : Bytes → Option Bytes) (clock : UInt64) :
    Inv (start store clock : State Node) where
  stored _ _ _ h := by cases h
  writing _ _ _ _ _ h := by cases h
  clearing _ _ _ h := by cases h
  removing _ _ h := by cases h

/-- **An expired lock is not asserted**: what is written does not replace a lock that has not
expired. -/
theorem not_holds_of_asserted {s : State Node} (hinv : Inv s) {n : Node} {key : Bytes}
    {duration now : UInt64} {assertValue : AssertValue}
    (hcall : s.call n = .writing key duration assertValue now)
    (hasserted : assertValue.holds (s.store key)) (m : Node) : ¬ Holds s m key := by
  rintro ⟨expiry, hheld, hlt⟩
  obtain ⟨hbound, hstored⟩ := hinv.stored m key expiry hheld hlt
  rw [hstored] at hasserted
  obtain ⟨-, rfl | ⟨value, rfl, hle⟩⟩ := hinv.writing n key duration assertValue now hcall
  · cases hasserted
  · have hvalue := (matches_u64_beU64 value (UInt64.ofNat expiry)).1 hasserted
    have hexpired := UInt64.le_iff_toNat_le.1 hle
    rw [hvalue, UInt64.toNat_ofNat_of_lt' hbound] at hexpired
    omega

theorem inv_tick {s : State Node} (hinv : Inv s) {now : UInt64} (hle : s.clock ≤ now) :
    Inv { s with clock := now } := by
  have hclock := UInt64.le_iff_toNat_le.1 hle
  have hholds : ∀ m key, Holds { s with clock := now } m key → Holds s m key := by
    rintro m key ⟨expiry, hheld, hlt⟩
    exact ⟨expiry, hheld, Nat.lt_of_le_of_lt hclock hlt⟩
  refine ⟨fun m key expiry hheld hlt => hinv.stored m key expiry hheld
      (Nat.lt_of_le_of_lt hclock hlt), fun m key duration assertValue asked h => ?_,
    fun m key duration h hh => hinv.clearing m key duration h (hholds m key hh),
    fun m key h hh => hinv.removing m key h (hholds m key hh)⟩
  obtain ⟨hasked, hassert⟩ := hinv.writing m key duration assertValue asked h
  refine ⟨UInt64.le_trans hasked hle, hassert.imp_right ?_⟩
  rintro ⟨value, hvalue, hexpired⟩
  exact ⟨value, hvalue, UInt64.le_trans hexpired hle⟩

theorem inv_setStore {s : State Node} {key : Bytes} (hinv : Inv s) (hfree : ∀ m, ¬ Holds s m key)
    (value : Option Bytes) :
    Inv (s.setStore key value) where
  stored m key' expiry hheld hlt := by
    have hne : key' ≠ key := by
      rintro rfl
      exact hfree m ⟨expiry, hheld, hlt⟩
    rw [store_setStore_of_ne hne]
    exact hinv.stored m key' expiry hheld hlt
  writing := hinv.writing
  clearing := hinv.clearing
  removing := hinv.removing

section Steps

variable [DecidableEq Node] {s : State Node} {n : Node} {key : Bytes}

theorem inv_setCall (hinv : Inv s) {call : Call}
    (hwriting : ∀ key duration assertValue now, call = .writing key duration assertValue now →
      now ≤ s.clock ∧ (assertValue = .none ∨ ∃ value, assertValue = .u64 value ∧ value ≤ s.clock))
    (hclearing : ∀ key duration, call = .clearing key duration → ¬ Holds s n key)
    (hremoving : ∀ key, call = .removing key → ¬ Holds s n key) : Inv (s.setCall n call) where
  stored := hinv.stored
  writing m key duration assertValue now h := by
    rcases call_of_setCall h with ⟨rfl, hcall⟩ | ⟨-, hcall⟩
    · exact hwriting key duration assertValue now hcall
    · exact hinv.writing m key duration assertValue now hcall
  clearing m key duration h := by
    rcases call_of_setCall h with ⟨rfl, hcall⟩ | ⟨-, hcall⟩
    · exact hclearing key duration hcall
    · exact hinv.clearing m key duration hcall
  removing m key h := by
    rcases call_of_setCall h with ⟨rfl, hcall⟩ | ⟨-, hcall⟩
    · exact hremoving key hcall
    · exact hinv.removing m key hcall

theorem inv_idle (hinv : Inv s) : Inv (s.setCall n .idle) :=
  inv_setCall hinv (fun _ _ _ _ h => by cases h) (fun _ _ h => by cases h) fun _ h => by cases h

theorem inv_removeLock (hinv : Inv s) : Inv (s.setHeld n key none) := by
  have hheld : ∀ {m key' expiry}, (s.setHeld n key none).held m key' = some expiry →
      s.held m key' = some expiry := by
    intro m key' expiry h
    rcases held_of_setHeld h with ⟨-, -, hnone⟩ | ⟨-, hold⟩
    · cases hnone
    · exact hold
  have hholds : ∀ {m key'}, Holds (s.setHeld n key none) m key' → Holds s m key' := by
    rintro m key' ⟨expiry, h, hlt⟩
    exact ⟨expiry, hheld h, hlt⟩
  exact ⟨fun m key' expiry h => hinv.stored m key' expiry (hheld h), hinv.writing,
    fun m key' duration h hh => hinv.clearing m key' duration h (hholds hh),
    fun m key' h hh => hinv.removing m key' h (hholds hh)⟩

theorem not_holds_setHeld : ¬ Holds (s.setHeld n key none) n key := by
  rintro ⟨expiry, h, -⟩
  rcases held_of_setHeld h with ⟨-, -, hnone⟩ | ⟨hne, -⟩
  · cases hnone
  · exact hne ⟨rfl, rfl⟩

theorem inv_setHeld (hinv : Inv s) (hidle : s.call n = .idle) {expiry : ℕ}
    (hbound : expiry < 2 ^ 64)
    (hstored : s.store key = some (beU64 (UInt64.ofNat expiry))) :
    Inv (s.setHeld n key (some expiry)) where
  stored m key' expiry' h hlt := by
    rcases held_of_setHeld h with ⟨-, rfl, heq⟩ | ⟨-, hold⟩
    · cases heq
      exact ⟨hbound, hstored⟩
    · exact hinv.stored m key' expiry' hold hlt
  writing := hinv.writing
  clearing m key' duration h hholds := by
    obtain ⟨expiry', hh, hlt⟩ := hholds
    rcases held_of_setHeld hh with ⟨rfl, -, -⟩ | ⟨-, hold⟩
    · rw [show (s.setHeld m key (some expiry)).call m = s.call m from rfl, hidle] at h
      cases h
    · exact hinv.clearing m key' duration h ⟨expiry', hold, hlt⟩
  removing m key' h hholds := by
    obtain ⟨expiry', hh, hlt⟩ := hholds
    rcases held_of_setHeld hh with ⟨rfl, -, -⟩ | ⟨-, hold⟩
    · rw [show (s.setHeld m key (some expiry)).call m = s.call m from rfl, hidle] at h
      cases h
    · exact hinv.removing m key' h ⟨expiry', hold, hlt⟩

theorem inv_readLock (hinv : Inv s) (duration : UInt64) :
    Inv (s.setCall n (readLock key duration (s.store key))) := by
  refine inv_setCall hinv (fun key' duration' assertValue now h => ?_)
    (fun key' duration' h => ?_) fun key' h => ?_
  · unfold readLock at h
    split at h
    · cases h
    · split at h <;> cases h
  · rintro ⟨expiry, hheld, hlt⟩
    unfold readLock at h
    split at h
    · cases h
    · rename_i bytes hbytes
      split at h
      · cases h
      · rename_i hdecode
        cases h
        rw [(hinv.stored n key expiry hheld hlt).2] at hbytes
        cases hbytes
        cases hdecode
  · unfold readLock at h
    split at h
    · cases h
    · split at h <;> cases h

/-- **The step lemma.** -/
theorem step_inv {event : Event Node} {s' : State Node} (hinv : Inv s) (hclean : Clean s event)
    (hstep : step s event = some s') : Inv s' := by
  cases event with
  | tick now =>
    simp only [step] at hstep
    split at hstep
    · rename_i hle
      cases hstep
      exact inv_tick hinv hle
    · cases hstep
  | tryLock n kind key duration =>
    simp only [step] at hstep
    split at hstep
    · cases hstep
      exact inv_readLock hinv duration
    · cases hstep
  | clear n =>
    simp only [step] at hstep
    split at hstep
    · rename_i key duration hcall
      cases hstep
      have hfree : ∀ m, ¬ Holds s m key := by
        intro m
        by_cases hm : m = n
        · rw [hm]
          exact hinv.clearing n key duration hcall
        · exact hclean key duration hcall m hm
      exact inv_setCall (inv_setStore hinv hfree none) fun _ _ _ _ h => by cases h
        (fun _ _ h => by cases h) fun _ h => by cases h
    · cases hstep
  | checkExpiry n =>
    simp only [step] at hstep
    split at hstep
    · rename_i key duration lockExpiry hcall
      split at hstep
      · cases hstep
        exact inv_idle hinv
      · rename_i hexpired
        cases hstep
        refine inv_setCall hinv (fun key' duration' assertValue now h => ?_)
          (fun _ _ h => by cases h) fun _ h => by cases h
        cases h
        refine ⟨UInt64.le_refl _, ?_⟩
        cases lockExpiry with
        | none => exact .inl rfl
        | some value =>
          refine .inr ⟨value, rfl, ?_⟩
          simpa using hexpired
    · cases hstep
  | write n =>
    simp only [step] at hstep
    split at hstep
    · rename_i key duration assertValue now hcall
      have hbound := hclean key duration assertValue now hcall
      split at hstep
      · rename_i hasserted
        cases hstep
        have hfree := not_holds_of_asserted hinv hcall hasserted
        have hwritten := inv_idle (n := n)
          (inv_setStore hinv hfree (some (beU64 (now + duration))))
        refine inv_setHeld hwritten (update_self _ _ _) hbound ?_
        exact store_setStore _
      · cases hstep
        exact inv_idle hinv
    · cases hstep
  | removeLock n kind key =>
    simp only [step] at hstep
    split at hstep
    · cases hstep
      refine inv_setCall (inv_removeLock hinv) fun _ _ _ _ h => by cases h
        (fun _ _ h => by cases h) fun key' h => ?_
      cases h
      exact not_holds_setHeld
    · cases hstep
  | delete n =>
    simp only [step] at hstep
    split at hstep
    · rename_i key hcall
      cases hstep
      have hfree : ∀ m, ¬ Holds s m key := by
        intro m
        by_cases hm : m = n
        · rw [hm]
          exact hinv.removing n key hcall
        · exact hclean key hcall m hm
      exact inv_idle (inv_setStore hinv hfree none)
    · cases hstep
  | fail n =>
    cases hstep
    exact inv_idle hinv

/-- **Locks are exclusive** in every run in which no entry is deleted under a lock. -/
theorem exclusive_of_clean (store : Bytes → Option Bytes) (clock : UInt64)
    {events : List (Event Node)} (hclean : Runs.Along step Clean (start store clock) events) :
    Runs.Along step Exclusive (start store clock) events := by
  refine Runs.along_of_invariant (I := Inv) (fun s event s' hinv hok hstep =>
    step_inv hinv hok hstep) (fun s event hinv _ n key hacquires m _ => ?_)
    (start_inv store clock) hclean
  obtain ⟨-, duration, assertValue, now, hcall, hasserted⟩ := hacquires
  exact not_holds_of_asserted hinv hcall hasserted m

/-- **A deletion under a lock breaks it**: the node that deletes can take the key at once. -/
theorem not_exclusive_after_delete {kind : UInt8}
    (hcall : s.call n = .removing (buildKey kind key)) {m : Node} (hm : m ≠ n)
    (hholds : Holds s m (buildKey kind key)) (duration : UInt64) :
    ¬ Runs.Along step Exclusive s [.delete n, .tryLock n kind key duration, .checkExpiry n,
      .write n] := by
  intro hrun
  obtain ⟨-, hrun⟩ := hrun
  have hdelete : step s (.delete n) =
      some ((s.setStore (buildKey kind key) none).setCall n .idle) := by
    simp only [step, hcall]
  have hrun := (hrun _ hdelete).2
  generalize hs₁ : (s.setStore (buildKey kind key) none).setCall n .idle = s₁ at hrun
  have hstore₁ : s₁.store (buildKey kind key) = none := by
    rw [← hs₁]
    exact store_setStore none
  have hread : step s₁ (.tryLock n kind key duration) =
      some (s₁.setCall n (.read (buildKey kind key) duration none)) := by
    have hidle : s₁.call n = .idle := by
      rw [← hs₁]
      exact update_self _ _ _
    simp only [step, hidle, hstore₁, readLock]
  have hrun := (hrun _ hread).2
  generalize hs₂ : s₁.setCall n (.read (buildKey kind key) duration none) = s₂ at hrun
  have hcheck : step s₂ (.checkExpiry n) =
      some (s₂.setCall n (.writing (buildKey kind key) duration .none s₂.clock)) := by
    have hcall₂ : s₂.call n = .read (buildKey kind key) duration none := by
      rw [← hs₂]
      exact update_self _ _ _
    simp only [step, hcall₂, Option.any_none, Bool.false_eq_true, if_false, expected]
  have hlast := (hrun _ hcheck).1
  refine hlast n (buildKey kind key) ⟨rfl, duration, .none, s₂.clock, update_self _ _ _, ?_⟩ m hm ?_
  · have hstore : (s₂.setCall n (.writing (buildKey kind key) duration .none s₂.clock)).store
        (buildKey kind key) = none := by
      rw [← hs₂]
      exact hstore₁
    rw [hstore]
    rfl
  · rw [← hs₂, ← hs₁]
    exact hholds

end Steps

/-! ## A late removal -/

/-- Node 0 overruns its lock, node 1 takes the key, and node 0 is about to delete the entry. -/
def lateRemoval : List (Event ℕ) :=
  [.tryLock 0 1 [7] 10, .checkExpiry 0, .write 0, .tick 120, .tryLock 1 1 [7] 100, .checkExpiry 1,
    .write 1, .removeLock 0 1 [7]]

/-- Two nodes, one after the other. -/
def inTurn : List (Event ℕ) :=
  [.tryLock 0 1 [7] 10, .checkExpiry 0, .write 0, .removeLock 0 1 [7], .delete 0,
    .tryLock 1 1 [7] 100, .checkExpiry 1, .write 1]

theorem exclusive_of_clean_inTurn :
    Runs.Along step Exclusive (start (fun _ => none) 100 : State ℕ) inTurn := by
  refine exclusive_of_clean (fun _ => none) 100 ?_
  refine .cons trivial rfl (.cons trivial rfl (.cons ?_ rfl (.cons trivial rfl (.cons ?_ rfl
    (.cons trivial rfl (.cons trivial rfl (.cons ?_ rfl trivial)))))))
  · intro key duration assertValue now h
    cases h
    decide
  · rintro key h m hm ⟨expiry, hheld, -⟩
    rcases held_of_setHeld hheld with ⟨hm', -⟩ | ⟨-, hold⟩
    · exact hm hm'
    · rcases held_of_setHeld hold with ⟨hm', -⟩ | ⟨-, hnone⟩
      · exact hm hm'
      · cases hnone
  · intro key duration assertValue now h
    cases h
    decide

theorem not_exclusive :
    ¬ Runs.Along step Exclusive (start (fun _ => none) 100 : State ℕ)
      (lateRemoval ++ [.delete 0, .tryLock 0 1 [7] 100, .checkExpiry 0, .write 0]) := by
  intro hrun
  obtain ⟨s, hexec, hcall, hheld, hclock⟩ : ∃ s,
      Runs.exec step (start (fun _ => none) 100 : State ℕ) lateRemoval = some s ∧
        s.call 0 = .removing (buildKey 1 [7]) ∧ s.held 1 (buildKey 1 [7]) = some 220 ∧
        s.clock = 120 := ⟨_, rfl, rfl, rfl, rfl⟩
  have hholds : Holds s 1 (buildKey 1 [7]) := ⟨220, hheld, by rw [hclock]; decide⟩
  exact not_exclusive_after_delete hcall (by decide) hholds 100
    (Runs.Along.of_append hrun hexec)

end MailServer.Store.Lock
