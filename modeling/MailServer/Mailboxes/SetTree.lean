import MailServer.Lib.Fallible
import MailServer.Lib.Run
import MailServer.Mailboxes.Set

/-!
# The tree of mailboxes under `Mailbox/set`

The mailboxes of an account form a forest of bounded depth in which roles are unique and so are the
names of siblings.  The creates of a request are written together, and so are the updates, while
`mailbox_set_item` looks at each object alone, as the mailboxes were before; what it leaves open is
`Unclashing`.

Principal results: `Written.wellFormed_iff`, `commits_wellFormed_iff`, `states_wellFormed_iff`,
`updates_form_cycle`.
-/

namespace MailServer.MailboxSet

open InsertionMap List Function
open Option (some_inj)
open Relation (TransGen ReflTransGen)

/-! ## Well-formed mailboxes -/

/-- Following the parents ends at the root within a number of steps. -/
def reachesRoot (node : ℕ → Option Mailbox) : ℕ → ℕ → Bool
  | 0, _ => false
  | fuel + 1, parent =>
    decide (parent = 0) || (node (parent - 1)).any fun m => reachesRoot node fuel m.parentId

/-- **The tree is well formed.** -/
structure WellFormed (srv : Server) (node : ℕ → Option Mailbox) : Prop where
  parents : ∀ id m, node id = some m → m.parentId ≠ 0 → (node (m.parentId - 1)).isSome
  rooted : ∀ id m, node id = some m → reachesRoot node srv.mailboxMaxDepth m.parentId
  roles : ∀ id id' m m', node id = some m → node id' = some m' → m.role ≠ .none →
    m.role = m'.role → id = id'
  names : ∀ id id' m m', node id = some m → node id' = some m' → m.parentId = m'.parentId →
    srv.toLowercase m.name = srv.toLowercase m'.name → id = id'

/-! ## What the checks leave open -/

section Changes

variable (node node' : ℕ → Option Mailbox)

/-- The mailbox is new, or has changed from `node` to `node'`. -/
def Changed (id : ℕ) (m : Mailbox) : Prop := node' id = some m ∧ node id ≠ some m

/-- The mailbox has a parent that it did not have, or is new. -/
def Moved (id : ℕ) : Prop :=
  ∃ m, node' id = some m ∧ ∀ m₀, node id = some m₀ → m₀.parentId ≠ m.parentId

/-- The mailbox had the name before. -/
def KeepsName (id : ℕ) (m : Mailbox) : Prop := ∃ m₀, node id = some m₀ ∧ m₀.name = m.name

/-- One mailbox is right below the other. -/
def Below (id parent : ℕ) : Prop := ∃ m, node id = some m ∧ m.parentId = parent + 1

end Changes

/-- **What the checks leave open**: that two of the mailboxes that are written have one role or one
name, that a mailbox is moved under its own name to where another has it, and how deep a mailbox is
that has a moved or a new one above it. -/
structure Unclashing (srv : Server) (node node' : ℕ → Option Mailbox) : Prop where
  roles : ∀ id id' m m', Changed node node' id m → Changed node node' id' m' → m.role ≠ .none →
    m.role = m'.role → id = id'
  names : ∀ id id' m m', Changed node node' id m → node' id' = some m' →
    (Changed node node' id' m' ∨ KeepsName node id m) → m.parentId = m'.parentId →
    srv.toLowercase m.name = srv.toLowercase m'.name → id = id'
  places : ∀ id m, node' id = some m → (∃ j, TransGen (Below node') id j ∧ Moved node node' j) →
    reachesRoot node' srv.mailboxMaxDepth m.parentId

variable {srv : Server} {node node' : ℕ → Option Mailbox} {id : ℕ} {m : Mailbox} {s a : Account}
  {i : Item} {items : List Item} {batch : List (List Item)}

/-! ## What the checks have settled -/

/-- Following the parents ends, at the root or where a mailbox is missing, within a number of
steps. -/
def leadsOut (node : ℕ → Option Mailbox) : ℕ → ℕ → Bool
  | 0, _ => false
  | fuel + 1, parent =>
    decide (parent = 0) || (node (parent - 1)).all fun m => leadsOut node fuel m.parentId

theorem leadsOut_of_reachesRoot {fuel parent : ℕ} (h : reachesRoot node fuel parent) :
    leadsOut node fuel parent := by
  induction fuel generalizing parent with
  | zero => cases h
  | succ fuel ih =>
    unfold reachesRoot at h
    unfold leadsOut
    rw [Bool.or_eq_true] at h ⊢
    refine h.imp_right fun h => ?_
    obtain ⟨m, hm, hreach⟩ := Option.any_eq_true _ _ |>.1 h
    rw [hm]
    exact ih hreach

/-- The walk ends at the root, or below a mailbox that the request creates. -/
theorem leadsOut_of_walkParents {ctx : SetContext} {current fuel parent : ℕ} {first : Bool}
    (h : walkParents srv ctx a current fuel first parent = .ok ()) :
    leadsOut a.mailbox fuel parent := by
  induction fuel generalizing parent first with
  | zero => cases h
  | succ fuel ih =>
    unfold walkParents at h
    unfold leadsOut
    rw [Bool.or_eq_true, decide_eq_true_eq]
    split at h
    · cases h
    · split at h
      · next hroot => exact .inl hroot
      · right
        split at h
        · next m hm =>
          rw [hm]
          split at h
          · cases h
          · exact ih h
        · next hm =>
          rw [hm]
          rfl

/-- Where nothing has been moved the parents lead where they led before. -/
theorem reachesRoot_of_leadsOut {fuel parent : ℕ}
    (hparents : ∀ id m, node' id = some m → m.parentId ≠ 0 → (node' (m.parentId - 1)).isSome)
    (hstored : parent ≠ 0 → (node' (parent - 1)).isSome)
    (hstays : parent ≠ 0 → ∀ j, ReflTransGen (Below node') (parent - 1) j → ¬Moved node node' j)
    (h : leadsOut node fuel parent) : reachesRoot node' fuel parent := by
  induction fuel generalizing parent with
  | zero => cases h
  | succ fuel ih =>
    unfold leadsOut at h
    unfold reachesRoot
    rw [Bool.or_eq_true, decide_eq_true_eq] at h ⊢
    refine or_iff_not_imp_left.2 fun hroot => ?_
    obtain ⟨m, hm⟩ := Option.isSome_iff_exists.1 (hstored hroot)
    obtain ⟨m₀, hm₀, hparent⟩ :
        ∃ m₀, node (parent - 1) = some m₀ ∧ m₀.parentId = m.parentId := by
      by_contra hmoved
      refine hstays hroot _ .refl ⟨m, hm, fun m₀ hm₀ hparent => hmoved ⟨m₀, hm₀, hparent⟩⟩
    have hleads := h.resolve_left hroot
    rw [hm₀] at hleads
    rw [hm]
    refine ih (hparents _ m hm) (fun hne j hj => ?_) (hparent ▸ hleads)
    exact hstays hroot j (.head ⟨m, hm, by omega⟩ hj)

/-- **What a validated object has passed.** -/
theorem mailboxSetItem_ok {ctx : SetContext} {changes : List Change}
    {update} (h : mailboxSetItem srv ctx a changes update = .ok m) :
    checkParent srv ctx a update m = .ok () ∧ checkRole a update m = .ok () ∧
      checkName srv a update m = .ok () := by
  obtain ⟨⟨m', acl⟩, -, h⟩ := Lib.bind_eq_ok_iff.1 h
  obtain ⟨⟨⟩, hparent, h⟩ := Lib.bind_eq_ok_iff.1 h
  obtain ⟨⟨⟩, hrole, h⟩ := Lib.bind_eq_ok_iff.1 h
  obtain ⟨⟨⟩, hname, h⟩ := Lib.bind_eq_ok_iff.1 h
  obtain ⟨⟨⟩, -, h⟩ := Lib.bind_eq_ok_iff.1 h
  cases h
  exact ⟨hparent, hrole, hname⟩

/-- The object has been validated against the mailboxes `s`. -/
structure Validated (srv : Server) (s : Account) (i : Item) : Prop where
  accepted : ∃ ctx changes,
    mailboxSetItem srv ctx s changes (i.current.map fun m => (i.documentId, m)) = .ok i.changes
  current : s.mailbox i.documentId = i.current

theorem all_map_pair (p : Mailbox → Bool) :
    ((i.current.map fun m => (i.documentId, m)).all fun u => p u.2) = i.current.all p := by
  cases i.current <;> rfl

/-- A role that the object had before is its own, and another is nobody's. -/
theorem Validated.role (h : Validated srv s i) (hs : WellFormed srv s.mailbox)
    (hne : i.changes.role ≠ .none) (hm : s.mailbox id = some m)
    (hrole : m.role = i.changes.role) : id = i.documentId := by
  obtain ⟨ctx, changes, hitem⟩ := h.accepted
  have hcheck := (mailboxSetItem_ok hitem).2.1
  unfold checkRole at hcheck
  rw [all_map_pair fun m => decide (m.role ≠ i.changes.role)] at hcheck
  split at hcheck
  · split at hcheck
    · cases hcheck
    · next hfree =>
      obtain ⟨entry, hmem, rfl⟩ := mem_of_find hm
      exact absurd ⟨hne, any_eq_true.2 ⟨entry, hmem, decide_eq_true hrole⟩⟩ hfree
  · next hkeeps =>
    obtain ⟨current, hcurrent, hsame⟩ : ∃ m₀, i.current = some m₀ ∧ m₀.role = i.changes.role := by
      cases hc : i.current with
      | none => simp [hc] at hkeeps
      | some m₀ => exact ⟨m₀, rfl, by simpa [hc] using hkeeps⟩
    exact hs.roles id i.documentId m current hm (h.current.trans hcurrent) (hrole ▸ hne)
      (hrole.trans hsame.symm)

/-- No mailbox has the new name of an object below its parent. -/
theorem Validated.name (h : Validated srv s i)
    (hrenamed : ¬KeepsName s.mailbox i.documentId i.changes) (hm : s.mailbox id = some m)
    (hparent : m.parentId = i.changes.parentId) :
    srv.toLowercase m.name ≠ srv.toLowercase i.changes.name := by
  obtain ⟨ctx, changes, hitem⟩ := h.accepted
  have hcheck := (mailboxSetItem_ok hitem).2.2
  have hall : (i.current.all fun m => decide (m.name ≠ i.changes.name)) := by
    cases hcurrent : i.current with
    | none => rfl
    | some current =>
      exact decide_eq_true fun hname => hrenamed ⟨current, h.current.trans hcurrent, hname⟩
  unfold checkName at hcheck
  rw [all_map_pair fun m => decide (m.name ≠ i.changes.name), hall, Bool.true_and] at hcheck
  intro hname
  obtain ⟨entry, hmem, rfl⟩ := mem_of_find hm
  have hclash : (s.mailboxes.any fun item =>
      srv.toLowercase item.2.name == srv.toLowercase i.changes.name &&
        item.2.parentId == i.changes.parentId) :=
    any_eq_true.2 ⟨entry, hmem, by simp [hname, hparent]⟩
  split at hcheck
  · cases hcheck
  · cases hcheck

/-- The parent of an object leads out of the mailboxes that were stored. -/
theorem Validated.leadsOut (h : Validated srv s i) (hs : WellFormed srv s.mailbox) :
    leadsOut s.mailbox srv.mailboxMaxDepth i.changes.parentId := by
  obtain ⟨ctx, changes, hitem⟩ := h.accepted
  have hcheck := (mailboxSetItem_ok hitem).1
  unfold checkParent at hcheck
  rw [all_map_pair fun m => decide (m.parentId ≠ i.changes.parentId)] at hcheck
  split at hcheck
  · exact leadsOut_of_walkParents hcheck
  · next hstays =>
    obtain ⟨current, hcurrent, hsame⟩ :
        ∃ m₀, i.current = some m₀ ∧ m₀.parentId = i.changes.parentId := by
      cases hc : i.current with
      | none => simp [hc] at hstays
      | some m₀ => exact ⟨m₀, rfl, by simpa [hc] using hstays⟩
    rw [← hsame]
    exact leadsOut_of_reachesRoot (hs.rooted _ _ (h.current.trans hcurrent))

/-- Every mailbox is as it was in `s`, or a validated object; all have their parents. -/
structure Written (srv : Server) (s : Account) (node' : ℕ → Option Mailbox) : Prop where
  origin : ∀ id m, node' id = some m → s.mailbox id = some m ∨
    ∃ i, Validated srv s i ∧ i.documentId = id ∧ i.changes = m
  parents : ∀ id m, node' id = some m → m.parentId ≠ 0 → (node' (m.parentId - 1)).isSome

theorem Written.changed (h : Written srv s node') (hm : Changed s.mailbox node' id m) :
    ∃ i, Validated srv s i ∧ i.documentId = id ∧ i.changes = m :=
  (h.origin id m hm.1).resolve_left hm.2

theorem Written.leadsOut (h : Written srv s node') (hs : WellFormed srv s.mailbox)
    (hm : node' id = some m) : leadsOut s.mailbox srv.mailboxMaxDepth m.parentId := by
  rcases h.origin id m hm with hkept | ⟨i, hi, -, rfl⟩
  · exact leadsOut_of_reachesRoot (hs.rooted id m hkept)
  · exact hi.leadsOut hs

/-- **Validated objects keep the tree well formed exactly if what the checks leave open does not
occur.** -/
theorem Written.wellFormed_iff (h : Written srv s node') (hs : WellFormed srv s.mailbox) :
    WellFormed srv node' ↔ Unclashing srv s.mailbox node' := by
  constructor
  · intro hwf
    exact ⟨fun id id' m m' hm hm' => hwf.roles id id' m m' hm.1 hm'.1,
      fun id id' m m' hm hm' _ => hwf.names id id' m m' hm.1 hm',
      fun id m hm _ => hwf.rooted id m hm⟩
  intro hclear
  -- one of two mailboxes is written, the other is as before
  have hrole {id id' m m'} (hm : Changed s.mailbox node' id m) (hm' : s.mailbox id' = some m')
      (hne : m.role ≠ .none) (heq : m.role = m'.role) : id' = id := by
    obtain ⟨i, hi, rfl, rfl⟩ := h.changed hm
    exact hi.role hs hne hm' heq.symm
  have hname {id id' m m'} (hm : Changed s.mailbox node' id m) (hm' : node' id' = some m')
      (hkept : s.mailbox id' = some m') (hparent : m.parentId = m'.parentId)
      (heq : srv.toLowercase m.name = srv.toLowercase m'.name) : id = id' := by
    by_cases hkeeps : KeepsName s.mailbox id m
    · exact hclear.names id id' m m' hm hm' (.inr hkeeps) hparent heq
    · obtain ⟨i, hi, rfl, rfl⟩ := h.changed hm
      exact absurd heq.symm (hi.name hkeeps hkept hparent.symm)
  refine ⟨h.parents, fun id m hm => ?_, fun id id' m m' hm hm' hne heq => ?_,
    fun id id' m m' hm hm' hparent heq => ?_⟩
  · by_cases habove : ∃ j, TransGen (Below node') id j ∧ Moved s.mailbox node' j
    · exact hclear.places id m hm habove
    · refine reachesRoot_of_leadsOut h.parents (h.parents id m hm) (fun hroot j hj hmoved => ?_)
        (h.leadsOut hs hm)
      exact habove ⟨j, .head' ⟨m, hm, by omega⟩ hj, hmoved⟩
  · by_cases hkept : s.mailbox id = some m <;> by_cases hkept' : s.mailbox id' = some m'
    · exact hs.roles id id' m m' hkept hkept' hne heq
    · exact hrole ⟨hm', hkept'⟩ hkept (heq ▸ hne) heq.symm
    · exact (hrole ⟨hm, hkept⟩ hkept' hne heq).symm
    · exact hclear.roles id id' m m' ⟨hm, hkept⟩ ⟨hm', hkept'⟩ hne heq
  · by_cases hkept : s.mailbox id = some m <;> by_cases hkept' : s.mailbox id' = some m'
    · exact hs.names id id' m m' hkept hkept' hparent heq
    · exact (hname ⟨hm', hkept'⟩ hm hkept hparent.symm heq.symm).symm
    · exact hname ⟨hm, hkept⟩ hm' hkept' hparent heq
    · exact hclear.names id id' m m' ⟨hm, hkept⟩ hm' (.inl ⟨hm', hkept'⟩) hparent heq

/-! ## The transactions of a batch -/

/-- The mailboxes after the objects. -/
def overlay (node : ℕ → Option Mailbox) (items : List Item) : ℕ → Option Mailbox :=
  items.foldl (fun node i => Function.update node i.documentId (some i.changes)) node

theorem Item.write_eq_some {a' : Account} (h : i.write srv a = some a') :
    a'.mailbox = Function.update a.mailbox i.documentId (some i.changes) ∧
      (i.changes.parentId ≠ 0 → (a.mailbox (i.changes.parentId - 1)).isSome) := by
  unfold Item.write at h
  split at h
  · cases h
  · next hparent =>
    split at h
    · cases h
    · cases h
      refine ⟨funext fun id => ?_, fun hne => ?_⟩
      · have hfind : find id (insert i.documentId i.changes a.mailboxes) =
            if id = i.documentId then some i.changes else find id a.mailboxes := find_insert
        refine Eq.trans hfind ?_
        rw [Function.update_apply]
        rfl
      · rw [← Option.ne_none_iff_isSome]
        exact fun hnone => hparent ⟨hne, hnone⟩

theorem Written.write {a' : Account} (h : Written srv s a.mailbox) (hi : Validated srv s i)
    (hwrite : i.write srv a = some a') : Written srv s a'.mailbox := by
  obtain ⟨hmailbox, hparent⟩ := Item.write_eq_some hwrite
  have hkept {k : ℕ} (hk : (a.mailbox k).isSome) : (a'.mailbox k).isSome := by
    rw [hmailbox]
    by_cases hkid : k = i.documentId
    · rw [hkid, update_self]
      rfl
    · rw [update_of_ne hkid]
      exact hk
  refine ⟨fun id m hm => ?_, fun id m hm hne => hkept ?_⟩ <;> rw [hmailbox] at hm
  · rcases Runs.update_some_cases hm with ⟨rfl, rfl⟩ | ⟨-, hm⟩
    · exact .inr ⟨i, hi, rfl, rfl⟩
    · exact h.origin id m hm
  · rcases Runs.update_some_cases hm with ⟨rfl, rfl⟩ | ⟨-, hm⟩
    · exact hparent hne
    · exact h.parents id m hm hne

/-- **A transaction** writes all its objects. -/
theorem commit_eq_some {a' : Account} (h : commit srv a items = some a') :
    a'.mailbox = overlay a.mailbox items ∧
      (Written srv s a.mailbox → (∀ i ∈ items, Validated srv s i) → Written srv s a'.mailbox) := by
  induction items generalizing a with
  | nil =>
    cases h
    exact ⟨rfl, fun hwritten _ => hwritten⟩
  | cons i rest ih =>
    obtain ⟨t, hwrite, hrest⟩ := Option.bind_eq_some_iff.1 h
    obtain ⟨hmailbox, hkeeps⟩ := ih hrest
    refine ⟨?_, fun hwritten hvalid => ?_⟩
    · rw [hmailbox, (Item.write_eq_some hwrite).1]
      rfl
    · exact hkeeps (hwritten.write (hvalid i mem_cons_self) hwrite)
        fun j hj => hvalid j (mem_cons_of_mem i hj)

/-- After every transaction that goes through, what the checks against `s` leave open does not
occur. -/
def AllUnclashing (srv : Server) (s a : Account) : List (List Item) → Prop
  | [] => True
  | items :: rest =>
    ∀ a', commit srv a items = some a' →
      Unclashing srv s.mailbox (overlay a.mailbox items) ∧ AllUnclashing srv s a' rest

/-- **Run lemma of a batch.** -/
theorem commits_wellFormed_iff (hs : WellFormed srv s.mailbox) (ha : Written srv s a.mailbox)
    (hvalid : ∀ items ∈ batch, ∀ i ∈ items, Validated srv s i) :
    (∀ t ∈ commits srv a batch, WellFormed srv t.mailbox) ↔ AllUnclashing srv s a batch := by
  induction batch generalizing a with
  | nil => exact ⟨fun _ => trivial, fun _ t ht => by cases ht⟩
  | cons items rest ih =>
    unfold commits AllUnclashing
    cases hcommit : commit srv a items with
    | none => exact ⟨fun _ a' h => (by cases h), fun _ t ht => (by cases ht)⟩
    | some a' =>
      obtain ⟨hmailbox, hkeeps⟩ := commit_eq_some (s := s) hcommit
      have ha' : Written srv s a'.mailbox := hkeeps ha (hvalid items mem_cons_self)
      have hrest := ih ha' fun items hitems => hvalid items (mem_cons_of_mem _ hitems)
      have hput := ha'.wellFormed_iff hs
      rw [hmailbox] at hput
      constructor
      · intro h a'' ha''
        obtain rfl := some_inj.1 ha''
        refine ⟨hput.1 ?_, hrest.1 fun t ht => h t (mem_cons_of_mem a' ht)⟩
        rw [← hmailbox]
        exact h a' mem_cons_self
      · intro h t ht
        obtain ⟨hclear, hclears⟩ := h a' rfl
        rcases mem_cons.1 ht with rfl | ht
        · rw [hmailbox]
          exact hput.2 hclear
        · exact hrest.2 hclears t ht

/-- A transaction holds objects of its batch only. -/
theorem mem_of_mem_transactions {pending xs : List Item}
    (h : items ∈ transactions srv pending xs) (hi : i ∈ items) : i ∈ pending ++ xs := by
  induction xs generalizing pending with
  | nil =>
    unfold transactions at h
    split at h
    · cases h
    · rw [mem_singleton.1 h] at hi
      exact mem_append_left [] hi
  | cons x rest ih =>
    rw [append_cons]
    unfold transactions at h
    split at h
    · rcases mem_cons.1 h with rfl | h
      · exact mem_append_left rest hi
      · exact mem_append_right _ (ih h)
    · exact ih h

theorem commitBatch_wellFormed (hwf : WellFormed srv a.mailbox)
    (h : ∀ t ∈ commits srv a batch, WellFormed srv t.mailbox) :
    WellFormed srv (commitBatch srv a batch).mailbox := by
  unfold commitBatch
  cases hcommits : commits srv a batch with
  | nil => exact hwf
  | cons t rest =>
    rw [hcommits] at h
    rw [getLastD_cons]
    exact h _ getLastD_mem_cons

/-! ## The objects of a request -/

/-- The creates so far: they are validated, and numbered behind the stored mailboxes. -/
structure Creating (srv : Server) (a : Account) (s : Progress) : Prop where
  validated : ∀ i ∈ s.items, Validated srv a i
  numbered : a.nextId ≤ s.nextId

theorem mailbox_eq_none (hnumbered : a.Numbered) (hid : a.nextId ≤ id) : a.mailbox id = none :=
  find_eq_none fun hmem => absurd hid (Nat.not_le_of_lt (hnumbered id hmem))

theorem Creating.createOne {willDestroy : List ℕ} {s : Progress} (hnumbered : a.Numbered)
    (h : Creating srv a s) (object : String × Option (List Change)) :
    Creating srv a (MailboxSet.createOne srv a willDestroy s object) := by
  unfold MailboxSet.createOne
  split
  · exact h
  · next changes _ =>
    split
    · exact ⟨h.validated, h.numbered⟩
    · split
      · next m hitem =>
        refine ⟨fun i hi => ?_, Nat.le_succ_of_le h.numbered⟩
        rcases mem_append.1 hi with hi | hi
        · exact h.validated i hi
        · rw [mem_singleton.1 hi]
          exact ⟨⟨s.context willDestroy, changes, hitem⟩, mailbox_eq_none hnumbered h.numbered⟩
      · exact ⟨h.validated, h.numbered⟩

theorem creating_createItems (hnumbered : a.Numbered) (request : Request) :
    Creating srv a (createItems srv a request) := by
  unfold createItems
  have hstart : Creating srv a ⟨keys a.mailboxes, a.nextId, [], {}⟩ :=
    ⟨fun i hi => (by cases hi), le_refl a.nextId⟩
  generalize (⟨keys a.mailboxes, a.nextId, [], {}⟩ : Progress) = s at hstart ⊢
  induction request.create generalizing s with
  | nil => exact hstart
  | cons object rest ih => exact ih _ (hstart.createOne hnumbered object)

theorem validated_updateOne {willDestroy : List ℕ} {s : Progress}
    (h : ∀ i ∈ s.items, Validated srv a i) (object : ℕ × Option (List Change)) :
    ∀ i ∈ (updateOne srv a willDestroy s object).items, Validated srv a i := by
  unfold updateOne
  split
  · exact h
  · split
    · exact h
    · next changes _ =>
      split
      · exact h
      · next m hm =>
        split
        · exact h
        · split
          · next m' hitem =>
            intro i hi
            rcases mem_append.1 hi with hi | hi
            · exact h i hi
            · rw [mem_singleton.1 hi]
              exact ⟨⟨s.context willDestroy, changes, hitem⟩, hm⟩
          · exact h

theorem validated_updateItems (request : Request) :
    ∀ i ∈ (updateItems srv a request).items, Validated srv (afterCreates srv a request) i := by
  unfold updateItems
  have hstart : ∀ i ∈ ({ createItems srv a request with items := [] } : Progress).items,
      Validated srv (afterCreates srv a request) i := fun i hi => by cases hi
  generalize ({ createItems srv a request with items := [] } : Progress) = s at hstart ⊢
  induction request.update generalizing s with
  | nil => exact hstart
  | cons object rest ih => exact ih _ (validated_updateOne hstart object)

/-! ## Destroys -/

theorem reachesRoot_remove {fuel parent : ℕ}
    (hchildless : ∀ k m, node k = some m → m.parentId ≠ id + 1) (hparent : parent ≠ id + 1)
    (h : reachesRoot node fuel parent) :
    reachesRoot (Function.update node id none) fuel parent := by
  induction fuel generalizing parent with
  | zero => cases h
  | succ fuel ih =>
    unfold reachesRoot at h ⊢
    rw [Bool.or_eq_true, decide_eq_true_eq] at h ⊢
    by_cases hroot : parent = 0
    · exact .inl hroot
    · obtain ⟨m, hm, hreach⟩ := Option.any_eq_true _ _ |>.1 (h.resolve_left hroot)
      refine .inr (Option.any_eq_true _ _ |>.2 ⟨m, ?_, ih (hchildless _ m hm) hreach⟩)
      rw [update_of_ne (by omega)]
      exact hm

/-- **A mailbox without mailboxes below it can be destroyed.** -/
theorem WellFormed.remove (hwf : WellFormed srv node)
    (hchildless : ∀ k m, node k = some m → m.parentId ≠ id + 1) :
    WellFormed srv (Function.update node id none) := by
  have hkept : ∀ {k m}, Function.update node id none k = some m → k ≠ id ∧ node k = some m := by
    intro k m hm
    exact (Runs.update_cases hm).resolve_left fun h => nomatch h.2
  refine ⟨fun k m hm hne => ?_, fun k m hm => ?_, fun k k' m m' hm hm' => ?_,
    fun k k' m m' hm hm' => ?_⟩
  · have hparent := hwf.parents k m (hkept hm).2 hne
    have hnot := hchildless k m (hkept hm).2
    rw [update_of_ne (by omega)]
    exact hparent
  · exact reachesRoot_remove hchildless (hchildless k m (hkept hm).2)
      (hwf.rooted k m (hkept hm).2)
  · exact hwf.roles k k' m m' (hkept hm).2 (hkept hm').2
  · exact hwf.names k k' m m' (hkept hm).2 (hkept hm').2

theorem destroyMailbox_wellFormed {a a' : Account} {documentId : ℕ}
    (hwf : WellFormed srv a.mailbox) (h : destroyMailbox srv a documentId = .ok a') :
    WellFormed srv a'.mailbox := by
  unfold destroyMailbox at h
  split at h
  · cases h
  · split at h
    · cases h
    · next hchildless =>
      split at h
      · cases h
      · split at h
        · cases h
        · split at h
          · cases h
          · cases h
            have hmailbox : ({ a with mailboxes := remove documentId a.mailboxes } :
                Account).mailbox = Function.update a.mailbox documentId none := by
              funext id
              have hfind : find id (remove documentId a.mailboxes) =
                  if id = documentId then none else find id a.mailboxes := find_remove
              refine Eq.trans hfind ?_
              rw [Function.update_apply]
              rfl
            rw [hmailbox]
            refine hwf.remove fun k m hm hparent => hchildless ?_
            obtain ⟨entry, hmem, rfl⟩ := mem_of_find hm
            exact any_eq_true.2 ⟨entry, hmem, beq_iff_eq.2 hparent⟩

theorem destroys_wellFormed {response : SetResponse} {ids : List ℕ}
    (hwf : WellFormed srv a.mailbox) :
    ∀ t ∈ (destroys srv a response ids).1, WellFormed srv t.mailbox := by
  induction ids generalizing a response with
  | nil =>
    intro t ht
    cases ht
  | cons id rest ih =>
    unfold destroys
    cases hdestroy : destroyMailbox srv a (documentId id) with
    | error error => exact ih hwf
    | ok a' =>
      have ha' := destroyMailbox_wellFormed hwf hdestroy
      intro t ht
      rcases mem_cons.1 ht with rfl | ht
      · exact ha'
      · exact ih ha' t ht

/-! ## Requests -/

/-- **The condition on a request**: what the checks leave open occurs neither among its creates nor
among its updates. -/
def Compatible (srv : Server) (a : Account) (request : Request) : Prop :=
  AllUnclashing srv a (assigned srv a request) (createBatch srv a request) ∧
    (committed srv (assigned srv a request) (createBatch srv a request) →
      AllUnclashing srv (afterCreates srv a request) (afterCreates srv a request)
        (updateBatch srv a request))

theorem WellFormed.written (hs : WellFormed srv s.mailbox) : Written srv s s.mailbox :=
  ⟨fun _ _ hm => .inl hm, hs.parents⟩

theorem creates_wellFormed_iff (hwf : WellFormed srv a.mailbox) (hnumbered : a.Numbered)
    (request : Request) :
    (∀ t ∈ commits srv (assigned srv a request) (createBatch srv a request),
      WellFormed srv t.mailbox) ↔
      AllUnclashing srv a (assigned srv a request) (createBatch srv a request) :=
  commits_wellFormed_iff hwf hwf.written fun _ hitems _ hi =>
    (creating_createItems hnumbered request).validated _ (mem_of_mem_transactions hitems hi)

theorem updates_wellFormed_iff (request : Request)
    (hwf : WellFormed srv (afterCreates srv a request).mailbox) :
    (∀ t ∈ commits srv (afterCreates srv a request) (updateBatch srv a request),
      WellFormed srv t.mailbox) ↔
      AllUnclashing srv (afterCreates srv a request) (afterCreates srv a request)
        (updateBatch srv a request) :=
  commits_wellFormed_iff hwf hwf.written fun _ hitems _ hi =>
    validated_updateItems request _ (mem_of_mem_transactions hitems hi)

/-- **`Mailbox/set` and the tree.** From a well-formed account, the tree is well formed after every
transaction of a request exactly if what the checks leave open does not occur. -/
theorem states_wellFormed_iff {a : Account} (hwf : WellFormed srv a.mailbox)
    (hnumbered : a.Numbered) (request : Request) :
    ((∀ t ∈ states srv a request, WellFormed srv t.mailbox) ↔ Compatible srv a request) ∧
      (Compatible srv a request → WellFormed srv (mailboxSet srv a request).1.mailbox) := by
  have hcreates := creates_wellFormed_iff hwf hnumbered request
  have hstates : (∀ t ∈ states srv a request, WellFormed srv t.mailbox) ↔
      Compatible srv a request := by
    unfold states Compatible
    rw [← hcreates]
    by_cases hcommitted : committed srv (assigned srv a request) (createBatch srv a request)
    · have hcreated (h : ∀ t ∈ commits srv (assigned srv a request) (createBatch srv a request),
          WellFormed srv t.mailbox) : WellFormed srv (afterCreates srv a request).mailbox :=
        commitBatch_wellFormed (a := assigned srv a request) hwf h
      simp only [if_pos hcommitted, mem_append, or_imp, forall_and]
      constructor
      · rintro ⟨hcommits, hupdated, -⟩
        exact ⟨hcommits, fun _ => (updates_wellFormed_iff request (hcreated hcommits)).1 hupdated⟩
      · rintro ⟨hcommits, hclear⟩
        have hupdated :=
          (updates_wellFormed_iff request (hcreated hcommits)).2 (hclear hcommitted)
        exact ⟨hcommits, hupdated,
          destroys_wellFormed (commitBatch_wellFormed (hcreated hcommits) hupdated)⟩
    · simp only [if_neg hcommitted, append_nil]
      exact ⟨fun h => ⟨h, fun h' => absurd h' hcommitted⟩, fun h => h.1⟩
  refine ⟨hstates, fun hcompatible => ?_⟩
  have hall := hstates.2 hcompatible
  unfold mailboxSet
  cases h : states srv a request with
  | nil => exact hwf
  | cons t rest =>
    rw [h] at hall
    simp only [getLastD_cons]
    exact hall _ getLastD_mem_cons

/-! ## A request that keeps the tree, and one that does not -/

namespace Sample

def server : Server where
  mailboxNameMaxLen := 255
  mailboxMaxDepth := 10
  objectQuota := 250
  primaryId := 1
  isShared := false
  effectiveAcl _ _ := true
  aclValidate _ := none
  hasEmails _ := false
  removeEmails := false
  hash m := UInt32.ofNat (m.name.toList.foldl (fun n c => 31 * n + c.toNat) m.parentId)
  isLargeBatch items := decide (1000 ≤ items.length)
  trim name := name
  toLowercase name := name

/-- Two mailboxes at the root. -/
def account : Account := ⟨[(10, { name := "A" }), (11, { name := "B" })], 12⟩

/-- A mailbox is created below the first, and the second is destroyed. -/
def nested : Request where
  create := [("c", some [.name "C", .parentId (some (.id 10))])]
  update := []
  destroy := [11]

/-- Each of the two mailboxes is moved below the other. -/
def swapped : Request where
  create := []
  update := [(10, some [.parentId (some (.id 11))]), (11, some [.parentId (some (.id 10))])]
  destroy := []

theorem mailbox_account {id : ℕ} {m : Mailbox} (h : account.mailbox id = some m) :
    (id = 10 ∧ m = { name := "A" }) ∨ (id = 11 ∧ m = { name := "B" }) := by
  unfold Account.mailbox account at h
  by_cases h10 : 10 = id
  · subst h10
    cases h
    exact .inl ⟨rfl, rfl⟩
  · by_cases h11 : 11 = id
    · subst h11
      cases h
      exact .inr ⟨rfl, rfl⟩
    · simp [find, h10, h11] at h

theorem account_wellFormed : WellFormed server account.mailbox := by
  refine ⟨fun id m hm hne => ?_, fun id m hm => ?_, fun id id' m m' hm hm' hne hrole => ?_,
    fun id id' m m' hm hm' hparent hname => ?_⟩
  · rcases mailbox_account hm with ⟨-, rfl⟩ | ⟨-, rfl⟩ <;> exact absurd rfl hne
  · rcases mailbox_account hm with ⟨-, rfl⟩ | ⟨-, rfl⟩ <;> rfl
  · rcases mailbox_account hm with ⟨-, rfl⟩ | ⟨-, rfl⟩ <;> exact absurd rfl hne
  · rcases mailbox_account hm with ⟨rfl, rfl⟩ | ⟨rfl, rfl⟩ <;>
      rcases mailbox_account hm' with ⟨rfl, rfl⟩ | ⟨rfl, rfl⟩
    · rfl
    · exact absurd hname (by decide)
    · exact absurd hname (by decide)
    · rfl

theorem account_numbered : account.Numbered := by
  unfold Account.Numbered
  decide

/-- The mailbox that `nested` creates. -/
def created : Item := ⟨12, none, { name := "C", parentId := 11 }⟩

theorem overlay_created {id : ℕ} {m : Mailbox} (h : overlay account.mailbox [created] id = some m) :
    (id = 12 ∧ m = created.changes) ∨ (id = 10 ∧ m = { name := "A" }) ∨
      (id = 11 ∧ m = { name := "B" }) := by
  rcases Runs.update_some_cases h with ⟨rfl, rfl⟩ | ⟨-, hm⟩
  · exact .inl ⟨rfl, rfl⟩
  · exact .inr (mailbox_account hm)

theorem nested_compatible : Compatible server account nested := by
  refine ⟨fun a' _ => ⟨⟨fun id _ m _ hm _ hne => ?_, fun id id' m m' hm hm' _ hparent hname => ?_,
    fun id m hm _ => ?_⟩, trivial⟩, fun _ => trivial⟩
  · rcases overlay_created hm.1 with ⟨-, rfl⟩ | ⟨-, rfl⟩ | ⟨-, rfl⟩ <;> exact absurd rfl hne
  · rcases overlay_created hm.1 with ⟨rfl, rfl⟩ | ⟨rfl, rfl⟩ | ⟨rfl, rfl⟩ <;>
      rcases overlay_created hm' with ⟨rfl, rfl⟩ | ⟨rfl, rfl⟩ | ⟨rfl, rfl⟩ <;>
        first | rfl | exact absurd hname (by decide)
  · rcases overlay_created hm with ⟨-, rfl⟩ | ⟨-, rfl⟩ | ⟨-, rfl⟩ <;> rfl

end Sample

open Sample in
/-- `states_wellFormed_iff` on a request with a create and a destroy. -/
theorem states_wellFormed_iff_nested :
    (∀ t ∈ states server account nested, WellFormed server t.mailbox) ∧
      WellFormed server (mailboxSet server account nested).1.mailbox ∧
      (mailboxSet server account nested).1.mailboxes =
        [(10, { name := "A" }), (12, { name := "C", parentId := 11 })] := by
  have h := states_wellFormed_iff account_wellFormed account_numbered nested
  exact ⟨h.1.2 nested_compatible, h.2 nested_compatible, by decide⟩

open Sample in
/-- **Two updates that are valid, each without the other**, make a cycle. -/
theorem updates_form_cycle :
    WellFormed server account.mailbox ∧ account.Numbered ∧
      (mailboxSet server account swapped).2.map SetResponse.updated = some [10, 11] ∧
      ¬WellFormed server (mailboxSet server account swapped).1.mailbox := by
  refine ⟨account_wellFormed, account_numbered, by decide, fun h => ?_⟩
  have hcycle := h.rooted 10 { name := "A", parentId := 12 } (by decide)
  revert hcycle
  decide

end MailServer.MailboxSet
