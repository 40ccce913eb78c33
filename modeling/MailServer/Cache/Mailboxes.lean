import MailServer.Lib.TopologicalSort

/-!
# Mailbox paths in the message cache

The mailboxes of the message cache and the paths that `build_tree` gives them
(`email/src/cache/mailbox.rs`).  A mailbox starts with its own name, or with one of the two names
that are made up for an inbox, and takes the path of its parent in front of it once the parent has
its own.

Principal results: `placing_buildTree`, `reads_buildTree`, `path_congr`.
-/

namespace MailServer.Cache

open InsertionMap TopologicalSort List

/-! ## Mailboxes -/

inductive SpecialUse where
  | inbox
  | trash
  | junk
  | drafts
  | archive
  | sent
  | shared
  | important
  | none
  | memos
  | scheduled
  | snoozed
deriving DecidableEq

structure AclGrant where
  accountId : UInt32
  grants : UInt64
deriving DecidableEq

/-- A stored mailbox; `parentId` is one more than the id of the parent, and 0 at the root. -/
structure Mailbox where
  name : String
  role : SpecialUse
  parentId : UInt32
  sortOrder : Option UInt32
  uidValidity : UInt32
  subscribers : List UInt32
  acls : List AclGrant
deriving DecidableEq

/-- `u32::MAX`. -/
def maxId : UInt32 := 4294967295

/-- A mailbox of the cache, which is kept under its document id. -/
structure MailboxCache where
  name : String
  path : String
  role : SpecialUse
  parentId : UInt32
  sortOrder : UInt32
  subscribers : List UInt32
  uidValidity : UInt32
  acls : List AclGrant

/-- The items of the cache with the index of their document ids. -/
abbrev MailboxItems := InsertionMap UInt32 MailboxCache

def MailboxCache.parent (mailbox : MailboxCache) : Option UInt32 :=
  if mailbox.parentId ≠ maxId then some mailbox.parentId else none

def MailboxCache.isRoot (mailbox : MailboxCache) : Bool := mailbox.parentId == maxId

/-- The item that `insert_item` makes of a stored mailbox. -/
def MailboxCache.ofMailbox (mailbox : Mailbox) : MailboxCache where
  name := mailbox.name
  path := ""
  role := mailbox.role
  parentId := if mailbox.parentId > 0 then mailbox.parentId - 1 else maxId
  sortOrder := mailbox.sortOrder.getD maxId
  subscribers := mailbox.subscribers
  uidValidity := mailbox.uidValidity
  acls := mailbox.acls

/-- `insert_item`. -/
def insertMailbox (items : MailboxItems) (documentId : UInt32) (mailbox : Mailbox) :
    MailboxItems :=
  insert documentId (.ofMailbox mailbox) items

/-! ## The tree -/

/-- The node of a mailbox in the topological sort. -/
def node (documentId : UInt32) : ℕ := documentId.toNat + 1

/-- The edges that `build_tree` inserts. -/
def edges (items : MailboxItems) : List (ℕ × ℕ) :=
  items.map fun entry => (entry.2.parent.elim 0 node, node entry.1)

/-- The path that a mailbox starts with; `idx` is its place among the items. -/
def basePath (idx : ℕ) (mailbox : MailboxCache) : String :=
  if mailbox.role = .inbox then "INBOX"
  else if mailbox.isRoot ∧ mailbox.name.toLower = "inbox" then "INBOX " ++ toString (idx + 1)
  else mailbox.name

/-- The items with the paths they start with. -/
def baseItems (items : MailboxItems) : MailboxItems :=
  items.zipIdx.map fun entry =>
    (entry.1.1, { entry.1.2 with path := basePath entry.2 entry.1.2 })

/-- The path of a folder below its parent, when both are there. -/
def joinedPath (items : MailboxItems) (folder : MailboxCache) : Option String :=
  (folder.parent.bind fun parentId => find parentId items).map fun parent =>
    parent.path ++ "/" ++ folder.path

/-- The loop body of `build_tree`. -/
def placeFolder (items : MailboxItems) (folderId : ℕ) : MailboxItems :=
  if folderId ≠ 0 then
    match find (UInt32.ofNat (folderId - 1)) items with
    | some folder =>
      match joinedPath items folder with
      | some path => insert (UInt32.ofNat (folderId - 1)) { folder with path := path } items
      | none => items
    | none => items
  else items

def buildTree (items : MailboxItems) : MailboxItems :=
  (order (ofEdges (edges items))).foldl placeFolder (baseItems items)

/-! ## What stays -/

def MailboxCache.withoutPath (mailbox : MailboxCache) : MailboxCache := { mailbox with path := "" }

/-- The items are the stored mailboxes, in any order and with any paths. -/
structure Reads (items : MailboxItems) (mailboxes : InsertionMap UInt32 Mailbox) : Prop where
  nodup : (keys items).Nodup
  same : ∀ id, (find id items).map MailboxCache.withoutPath =
    (find id mailboxes).map MailboxCache.ofMailbox

/-- Two lists of items that differ in their order and their paths only. -/
def Similar (items items' : MailboxItems) : Prop :=
  ∀ id, (find id items).map MailboxCache.withoutPath =
    (find id items').map MailboxCache.withoutPath

section Tree

variable {items items' : MailboxItems} {id : UInt32} {mailbox mailbox' : MailboxCache}

theorem Similar.exists_find (h : Similar items items') (hfind : find id items = some mailbox) :
    ∃ mailbox', find id items' = some mailbox' ∧ mailbox'.withoutPath = mailbox.withoutPath := by
  have hid := h id
  rw [hfind] at hid
  exact Option.map_eq_some_iff.1 hid.symm

theorem Similar.symm (h : Similar items items') : Similar items' items := fun id => (h id).symm

theorem parent_withoutPath (mailbox : MailboxCache) :
    mailbox.withoutPath.parent = mailbox.parent := rfl

theorem isRoot_withoutPath (mailbox : MailboxCache) :
    mailbox.withoutPath.isRoot = mailbox.isRoot := rfl

theorem parent_congr (h : mailbox.withoutPath = mailbox'.withoutPath) :
    mailbox.parent = mailbox'.parent := by
  rw [← parent_withoutPath mailbox, h, parent_withoutPath]

theorem node_inj {id' : UInt32} : node id = node id' ↔ id = id' := by
  unfold node
  rw [Nat.add_right_cancel_iff, UInt32.toNat_inj]

theorem ofNat_node (id : UInt32) : UInt32.ofNat (node id - 1) = id := by
  unfold node
  rw [Nat.add_sub_cancel, UInt32.ofNat_toNat]

theorem nodup_edges (hnodup : (keys items).Nodup) : ((edges items).map Prod.snd).Nodup := by
  unfold edges
  rw [map_map]
  have hnodes : ((keys items).map node).Nodup := hnodup.map fun _ _ h => node_inj.1 h
  rw [InsertionMap.keys, map_map] at hnodes
  exact hnodes

theorem mem_edges (hnodup : (keys items).Nodup) {x y : ℕ} :
    (x, y) ∈ edges items ↔ ∃ id mailbox, find id items = some mailbox ∧
      x = mailbox.parent.elim 0 node ∧ y = node id := by
  unfold edges
  rw [mem_map]
  constructor
  · rintro ⟨⟨id, mailbox⟩, hmem, heq⟩
    rw [Prod.mk.injEq] at heq
    exact ⟨id, mailbox, (find_eq_some hnodup).2 hmem, heq.1.symm, heq.2.symm⟩
  · rintro ⟨id, mailbox, hfind, rfl, rfl⟩
    exact ⟨(id, mailbox), (find_eq_some hnodup).1 hfind, rfl⟩

theorem Similar.mem_edges_of_mem (h : Similar items items') (hnodup : (keys items).Nodup)
    (hnodup' : (keys items').Nodup) {e : ℕ × ℕ} (he : e ∈ edges items) : e ∈ edges items' := by
  obtain ⟨id, mailbox, hfind, hx, hy⟩ := (mem_edges hnodup (x := e.1) (y := e.2)).1 he
  obtain ⟨mailbox', hfind', hsame⟩ := h.exists_find hfind
  exact (mem_edges hnodup').2 ⟨id, mailbox', hfind', by rw [parent_congr hsame]; exact hx, hy⟩

theorem Similar.mem_order (h : Similar items items') (hnodup : (keys items).Nodup)
    (hnodup' : (keys items').Nodup) {y : ℕ} :
    y ∈ order (ofEdges (edges items)) ↔ y ∈ order (ofEdges (edges items')) := by
  have hmem : ∀ e, e ∈ edges items ↔ e ∈ edges items' := fun e =>
    ⟨h.mem_edges_of_mem hnodup hnodup', h.symm.mem_edges_of_mem hnodup' hnodup⟩
  exact ⟨mem_order_of_mem (nodup_edges hnodup) (nodup_edges hnodup') hmem,
    mem_order_of_mem (nodup_edges hnodup') (nodup_edges hnodup) fun e => (hmem e).symm⟩

theorem keys_baseItems (items : MailboxItems) : keys (baseItems items) = keys items := by
  unfold InsertionMap.keys baseItems
  rw [map_map]
  change items.zipIdx.map (Prod.fst ∘ Prod.fst) = items.map Prod.fst
  rw [← map_map, zipIdx_map_fst]

theorem find_baseItems (hnodup : (keys items).Nodup) (hfind : find id items = some mailbox) :
    ∃ idx, find id (baseItems items) = some { mailbox with path := basePath idx mailbox } := by
  have hmem := (find_eq_some hnodup).1 hfind
  obtain ⟨idx, hlt, hidx⟩ := getElem_of_mem hmem
  refine ⟨idx, (find_eq_some ((keys_baseItems items).symm ▸ hnodup)).2 ?_⟩
  refine mem_map.2 ⟨((id, mailbox), idx), ?_, rfl⟩
  rw [mem_zipIdx_iff_getElem?, getElem?_eq_getElem hlt, hidx]

theorem similar_baseItems (hnodup : (keys items).Nodup) : Similar (baseItems items) items := by
  intro id
  cases hfind : find id items with
  | some mailbox =>
    obtain ⟨idx, hbase⟩ := find_baseItems hnodup hfind
    rw [hbase]
    rfl
  | none =>
    have hnew : id ∉ keys (baseItems items) := by
      rw [keys_baseItems]
      intro hmem
      obtain ⟨⟨id', mailbox⟩, hentry, rfl⟩ := mem_map.1 hmem
      rw [(find_eq_some hnodup).2 hentry] at hfind
      cases hfind
    exact congrArg (Option.map MailboxCache.withoutPath) (find_eq_none hnew)

/-- The items while the folders are placed one after the other. -/
structure Placing (base : MailboxItems) (pre : List ℕ) (items : MailboxItems) : Prop where
  nodup : (keys items).Nodup
  same : Similar items base
  later : ∀ id mailbox b, find id items = some mailbox → find id base = some b →
    node id ∉ pre → mailbox.path = b.path
  done : ∀ id mailbox b, find id items = some mailbox → find id base = some b →
    node id ∈ pre → mailbox.path = (joinedPath items b).getD b.path

theorem Similar.setPath {folder : MailboxCache} (h : Similar items items')
    (hfind : find id items = some folder) (path : String) :
    Similar (insert id { folder with path := path } items) items' := by
  intro id'
  rw [find_insert]
  split_ifs with hid
  · subst hid
    rw [← h id', hfind]
    rfl
  · exact h id'

/-- Placing the next folder when its parent is placed already. -/
theorem Placing.place {base : MailboxItems} {pre : List ℕ} {y : ℕ} (h : Placing base pre items)
    (hfresh : y ∉ pre) (hnode : y ≠ 0 → ∃ id, y = node id)
    (hparents : ∀ id b p, find id base = some b → node id ∈ pre ++ [y] → b.parent = some p →
      node p ∈ pre) :
    Placing base (pre ++ [y]) (placeFolder items y) := by
  -- a node that is not that of a mailbox of the cache changes nothing
  have hkeep : (∀ id b, find id base = some b → node id ≠ y) → placeFolder items y = items →
      Placing base (pre ++ [y]) (placeFolder items y) := by
    intro hnone hplace
    rw [hplace]
    have hmem : ∀ id b, find id base = some b → (node id ∈ pre ++ [y] ↔ node id ∈ pre) := by
      intro id b hb
      rw [mem_append, mem_singleton]
      exact or_iff_left (hnone id b hb)
    exact ⟨h.nodup, h.same,
      fun id mailbox b hfind hb hnot => h.later id mailbox b hfind hb
        (mt (hmem id b hb).2 hnot),
      fun id mailbox b hfind hb hin => h.done id mailbox b hfind hb ((hmem id b hb).1 hin)⟩
  by_cases hzero : y = 0
  · refine hkeep (fun id b _ => ?_) ?_
    · rw [hzero]
      exact Nat.succ_ne_zero _
    · unfold placeFolder
      rw [if_neg (not_not.2 hzero)]
  · obtain ⟨folderId, rfl⟩ := hnode hzero
    unfold placeFolder at hkeep ⊢
    rw [if_pos hzero, ofNat_node] at hkeep ⊢
    cases hfolder : find folderId items with
    | none =>
      rw [hfolder] at hkeep
      refine hkeep (fun id b hb heq => ?_) rfl
      rw [node_inj] at heq
      subst heq
      have hid := h.same id
      rw [hfolder, hb] at hid
      cases hid
    | some folder =>
      obtain ⟨b, hb, hsame⟩ := h.same.exists_find hfolder
      have hpath := h.later folderId folder b hfolder hb hfresh
      have hparent : b.parent = folder.parent := parent_congr hsame
      -- the folder is not its own parent
      have hother : ∀ id mailbox p, find id base = some mailbox → node id ∈ pre ++ [node folderId] →
          mailbox.parent = some p → p ≠ folderId := by
        intro id mailbox p hid hin hp heq
        subst heq
        exact hfresh (hparents id mailbox p hid hin hp)
      have hjoined : joinedPath items b = joinedPath items folder := by
        unfold joinedPath
        rw [hparent, hpath]
      -- placing a folder leaves what is joined for those that are placed
      have hstable : ∀ path id mailbox,
          find id base = some mailbox → node id ∈ pre ++ [node folderId] →
          joinedPath (insert folderId { folder with path := path } items) mailbox =
            joinedPath items mailbox := by
        intro path id mailbox hid hin
        unfold joinedPath
        cases hp : mailbox.parent with
        | none => rfl
        | some p =>
          rw [Option.bind_some, Option.bind_some, find_insert,
            if_neg (hother id mailbox p hid hin hp)]
      have hmem : ∀ id, id ≠ folderId → (node id ∈ pre ++ [node folderId] ↔ node id ∈ pre) := by
        intro id hne
        rw [mem_append, mem_singleton, node_inj]
        exact or_iff_left hne
      dsimp only
      cases hpart : joinedPath items folder with
      | none =>
        refine ⟨h.nodup, h.same, fun id mailbox b' hfind hb' hnot => ?_,
          fun id mailbox b' hfind hb' hin => ?_⟩
        · exact h.later id mailbox b' hfind hb' fun hin => hnot (mem_append_left _ hin)
        · by_cases hid : id = folderId
          · subst hid
            cases hb.symm.trans hb'
            rw [hjoined, hpart]
            exact h.later id mailbox b hfind hb hfresh
          · exact h.done id mailbox b' hfind hb' ((hmem id hid).1 hin)
      | some path =>
        refine ⟨nodup_keys_alter h.nodup, h.same.setPath hfolder path,
          fun id mailbox b' hfind hb' hnot => ?_, fun id mailbox b' hfind hb' hin => ?_⟩
        · have hne : id ≠ folderId := by
            rintro rfl
            exact hnot (by simp)
          rw [find_insert, if_neg hne] at hfind
          exact h.later id mailbox b' hfind hb' fun hin => hnot (mem_append_left _ hin)
        · rw [hstable path id b' hb' hin]
          rw [find_insert] at hfind
          by_cases hid : id = folderId
          · subst hid
            rw [if_pos rfl] at hfind
            cases hfind
            cases hb.symm.trans hb'
            rw [hjoined, hpart]
            rfl
          · rw [if_neg hid] at hfind
            exact h.done id mailbox b' hfind hb' ((hmem id hid).1 hin)

/-- **What `build_tree` leaves**: the folders that the topological sort takes are below their
parents, all others as they were. -/
theorem placing_buildTree (hnodup : (keys items).Nodup) :
    Placing (baseItems items) (order (ofEdges (edges items))) (buildTree items) := by
  obtain ⟨hdistinct, htaken, hbefore⟩ := order_spec (nodup_edges hnodup)
  have hbaseKeys : (keys (baseItems items)).Nodup := (keys_baseItems items).symm ▸ hnodup
  -- the edges in terms of the items that the loop starts with
  have hedge : ∀ id b, find id (baseItems items) = some b →
      (b.parent.elim 0 node, node id) ∈ edges items := by
    intro id b hb
    obtain ⟨mailbox, hfind, hsame⟩ := (similar_baseItems hnodup).exists_find hb
    exact (mem_edges hnodup).2 ⟨id, mailbox, hfind, by rw [parent_congr hsame], rfl⟩
  have hrun : ∀ pre post, order (ofEdges (edges items)) = pre ++ post →
      Placing (baseItems items) pre (pre.foldl placeFolder (baseItems items)) := by
    intro pre
    induction pre using reverseRecOn with
    | nil =>
      intro _ _
      refine ⟨hbaseKeys, fun _ => rfl, fun id mailbox b hfind hb _ => ?_,
        nofun⟩
      rw [Option.some.inj (hfind.symm.trans hb)]
    | append_singleton pre y ih =>
      intro post hsplit
      rw [append_assoc, singleton_append] at hsplit
      rw [foldl_append]
      have hfresh : y ∉ pre := by
        rw [hsplit] at hdistinct
        intro hin
        exact (nodup_append.1 hdistinct).2.2 y hin y (.head _) rfl
      -- the node before any of the nodes taken so far
      have hearlier : ∀ first z rest, pre ++ [y] = first ++ z :: rest → ∀ x,
          (x, z) ∈ edges items → x ∈ first := by
        intro first z rest hpre x hx
        refine hbefore first z (rest ++ post) ?_ x hx
        rw [hsplit, append_cons, hpre, append_assoc, cons_append]
      refine (ih (y :: post) hsplit).place hfresh (fun hzero => ?_) fun id b p hb hin hp => ?_
      · have hin : y ∈ order (ofEdges (edges items)) := by
          rw [hsplit]
          exact mem_append_right _ (.head _)
        rcases (htaken y).1 hin with ⟨⟨z, hz⟩, -⟩ | ⟨x, -, hx⟩
        · obtain ⟨id, mailbox, -, hy, -⟩ := (mem_edges hnodup).1 hz
          cases hp : mailbox.parent with
          | none =>
            rw [hp] at hy
            cases hzero hy
          | some p =>
            rw [hp] at hy
            exact ⟨p, hy⟩
        · obtain ⟨id, -, -, -, hy⟩ := (mem_edges hnodup).1 hx
          exact ⟨id, hy⟩
      · have hx : (node p, node id) ∈ edges items := by
          have hedge' := hedge id b hb
          rw [hp] at hedge'
          exact hedge'
        obtain ⟨first, rest, hfirst⟩ := append_of_mem hin
        have hparent := hearlier first (node id) rest hfirst (node p) hx
        rcases eq_nil_or_concat rest with rfl | ⟨rest, last, rfl⟩
        · rw [(append_inj' hfirst rfl).1]
          exact hparent
        · rw [concat_eq_append, ← cons_append, ← append_assoc] at hfirst
          rw [(append_inj' hfirst rfl).1]
          exact mem_append_left _ hparent
  have hall := hrun _ [] (append_nil _).symm
  exact hall

end Tree

/-! ## Paths -/

section Paths

variable {items items' : MailboxItems} {mailboxes : InsertionMap UInt32 Mailbox} {id : UInt32}

/-- The mailbox is a root mailbox whose name is that of the inbox without its role, or is below
one. -/
inductive UnderNumbered (mailboxes : InsertionMap UInt32 Mailbox) : UInt32 → Prop
  | root {id : UInt32} {mailbox : Mailbox} (hfind : find id mailboxes = some mailbox)
      (hroot : mailbox.parentId = 0) (hrole : mailbox.role ≠ .inbox)
      (hname : mailbox.name.toLower = "inbox") : UnderNumbered mailboxes id
  | child {id : UInt32} {mailbox : Mailbox} (hfind : find id mailboxes = some mailbox)
      (hchild : mailbox.parentId ≠ 0)
      (hparent : UnderNumbered mailboxes (mailbox.parentId - 1)) : UnderNumbered mailboxes id

variable {mailbox : Mailbox}

theorem parentId_ne_max (h : mailbox.parentId ≠ 0) :
    mailbox.parentId - 1 ≠ maxId := by
  intro heq
  have hzero : mailbox.parentId = maxId + 1 := by rw [← heq, UInt32.sub_add_cancel]
  exact h hzero

theorem parent_ofMailbox (mailbox : Mailbox) :
    (MailboxCache.ofMailbox mailbox).parent =
      if mailbox.parentId = 0 then none else some (mailbox.parentId - 1) := by
  unfold MailboxCache.parent MailboxCache.ofMailbox
  by_cases h : mailbox.parentId = 0
  · rw [h]
    rfl
  · have hpos : mailbox.parentId > 0 := UInt32.pos_iff_ne_zero.2 h
    rw [if_pos hpos, if_pos (parentId_ne_max h), if_neg h]

theorem isRoot_ofMailbox (mailbox : Mailbox) :
    (MailboxCache.ofMailbox mailbox).isRoot ↔ mailbox.parentId = 0 := by
  unfold MailboxCache.isRoot MailboxCache.ofMailbox
  dsimp only
  rw [beq_iff_eq]
  by_cases h : mailbox.parentId = 0
  · rw [h]
    decide
  · have hpos : mailbox.parentId > 0 := UInt32.pos_iff_ne_zero.2 h
    rw [if_pos hpos]
    exact iff_of_false (parentId_ne_max h) h

theorem Reads.similar (h : Reads items mailboxes) (h' : Reads items' mailboxes) :
    Similar items items' := fun id => (h.same id).trans (h'.same id).symm

/-- **`build_tree` changes nothing but the paths.** -/
theorem reads_buildTree (h : Reads items mailboxes) : Reads (buildTree items) mailboxes := by
  have hplacing := placing_buildTree h.nodup
  exact ⟨hplacing.nodup, fun id =>
    (hplacing.same id).trans ((similar_baseItems h.nodup id).trans (h.same id))⟩

theorem Reads.exists_find (h : Reads items mailboxes) (hfind : find id mailboxes = some mailbox) :
    ∃ item, find id items = some item ∧ item.withoutPath = .ofMailbox mailbox := by
  have hid := h.same id
  rw [hfind] at hid
  exact Option.map_eq_some_iff.1 hid

theorem basePath_congr {item item' : MailboxCache} (hitem : item.withoutPath = .ofMailbox mailbox)
    (hitem' : item'.withoutPath = .ofMailbox mailbox)
    (hnot : ¬(mailbox.parentId = 0 ∧ mailbox.role ≠ .inbox ∧ mailbox.name.toLower = "inbox"))
    (idx idx' : ℕ) : basePath idx item = basePath idx' item' := by
  have hbase : ∀ {item : MailboxCache} (idx : ℕ), item.withoutPath = .ofMailbox mailbox →
      basePath idx item = if mailbox.role = .inbox then "INBOX" else mailbox.name := by
    intro item idx h
    have hrole : item.role = mailbox.role := congrArg MailboxCache.role h
    have hname : item.name = mailbox.name := congrArg MailboxCache.name h
    have hroot : item.isRoot = (MailboxCache.ofMailbox mailbox).isRoot := by
      rw [← isRoot_withoutPath item, h]
    unfold basePath
    rw [hrole, hname]
    by_cases hinbox : mailbox.role = .inbox
    · rw [if_pos hinbox, if_pos hinbox]
    · rw [if_neg hinbox, if_neg hinbox, if_neg]
      rw [hroot, isRoot_ofMailbox]
      exact fun hboth => hnot ⟨hboth.1, hinbox, hboth.2⟩
  rw [hbase idx hitem, hbase idx' hitem']

theorem exists_base (h : Reads items mailboxes) (hfind : find id mailboxes = some mailbox) :
    ∃ b item idx, find id (baseItems items) = some b ∧ find id (buildTree items) = some item ∧
      b.withoutPath = .ofMailbox mailbox ∧ b.path = basePath idx b := by
  obtain ⟨raw, hraw, hsame⟩ := h.exists_find hfind
  obtain ⟨idx, hbase⟩ := find_baseItems h.nodup hraw
  obtain ⟨item, hitem, -⟩ := (reads_buildTree h).exists_find hfind
  exact ⟨_, item, idx, hbase, hitem, hsame, rfl⟩

/-- **The paths do not depend on the order of the mailboxes**, except at and below a mailbox that is
numbered. -/
theorem path_congr (h : Reads items mailboxes) (h' : Reads items' mailboxes)
    (hnot : ¬UnderNumbered mailboxes id) :
    (find id (buildTree items)).map MailboxCache.path =
      (find id (buildTree items')).map MailboxCache.path := by
  have hplacing := placing_buildTree h.nodup
  have hplacing' := placing_buildTree h'.nodup
  have hsame := h.similar h'
  obtain ⟨-, -, hbefore⟩ := order_spec (nodup_edges h.nodup)
  -- a stored mailbox starts alike in both caches
  have hbases : ∀ {id : UInt32} {mailbox : Mailbox}, find id mailboxes = some mailbox →
      ¬UnderNumbered mailboxes id → ∀ {b b' : MailboxCache} {idx idx' : ℕ},
        b.withoutPath = .ofMailbox mailbox → b'.withoutPath = .ofMailbox mailbox →
        b.path = basePath idx b → b'.path = basePath idx' b' → b.path = b'.path := by
    intro id mailbox hfind hunder b b' idx idx' hb hb' hpath hpath'
    rw [hpath, hpath']
    exact basePath_congr hb hb' (fun hnumbered =>
      hunder (.root hfind hnumbered.1 hnumbered.2.1 hnumbered.2.2)) idx idx'
  have hnone : ∀ {id : UInt32}, find id mailboxes = none →
      (find id (buildTree items)).map MailboxCache.path =
        (find id (buildTree items')).map MailboxCache.path := by
    intro id hfind
    have hid := (reads_buildTree h).same id
    have hid' := (reads_buildTree h').same id
    rw [hfind] at hid hid'
    rw [Option.map_eq_none_iff.1 hid, Option.map_eq_none_iff.1 hid']
  -- the mailboxes that are taken, from the first on
  have htaken : ∀ pre post, order (ofEdges (edges items)) = pre ++ post → ∀ id, node id ∈ pre →
      ¬UnderNumbered mailboxes id → (find id (buildTree items)).map MailboxCache.path =
        (find id (buildTree items')).map MailboxCache.path := by
    intro pre
    induction pre using reverseRecOn with
    | nil => exact nofun
    | append_singleton pre y ih =>
      intro post hsplit id hin hunder
      rw [append_assoc] at hsplit
      rcases mem_append.1 hin with hin | hin
      · exact ih (y :: post) hsplit id hin hunder
      obtain rfl := mem_singleton.1 hin
      have horder : node id ∈ order (ofEdges (edges items)) := by
        rw [hsplit]
        exact mem_append_right _ (.head _)
      cases hfind : find id mailboxes with
      | none => exact hnone hfind
      | some mailbox =>
        obtain ⟨b, item, idx, hb, hitem, hmailbox, hpath⟩ := exists_base h hfind
        obtain ⟨b', item', idx', hb', hitem', hmailbox', hpath'⟩ := exists_base h' hfind
        have hbase := hbases hfind hunder hmailbox hmailbox' hpath hpath'
        have hparent : b.parent = b'.parent := parent_congr (hmailbox.trans hmailbox'.symm)
        have hjoined : joinedPath (buildTree items) b = joinedPath (buildTree items') b' := by
          unfold joinedPath
          rw [← hparent, ← hbase]
          cases hp : b.parent with
          | none => rfl
          | some p =>
            rw [Option.bind_some, Option.bind_some]
            have hstored : mailbox.parentId ≠ 0 ∧ p = mailbox.parentId - 1 := by
              have hof : (MailboxCache.ofMailbox mailbox).parent = some p := by
                rw [← hp, ← hmailbox, parent_withoutPath]
              rw [parent_ofMailbox] at hof
              split_ifs at hof with hzero
              exact ⟨hzero, (Option.some.inj hof).symm⟩
            have hedge : (node p, node id) ∈ edges items := by
              obtain ⟨raw, hraw, hsame⟩ := (similar_baseItems h.nodup).exists_find hb
              refine (mem_edges h.nodup).2 ⟨id, raw, hraw, ?_, rfl⟩
              rw [parent_congr hsame, hp]
              rfl
            have hpaths := ih (node id :: post) hsplit p (hbefore pre (node id) post hsplit _ hedge)
              fun hup => hunder (.child hfind hstored.1 (hstored.2 ▸ hup))
            have hcompose : ∀ found : Option MailboxCache,
                found.map (fun parent => parent.path ++ "/" ++ b.path) =
                  (found.map MailboxCache.path).map fun path => path ++ "/" ++ b.path := by
              intro found
              cases found <;> rfl
            rw [hcompose, hcompose, hpaths]
        rw [hitem, hitem', Option.map_some, Option.map_some,
          hplacing.done id item b hitem hb horder,
          hplacing'.done id item' b' hitem' hb'
            ((hsame.mem_order h.nodup h'.nodup).1 horder), hjoined, hbase]
  by_cases horder : node id ∈ order (ofEdges (edges items))
  · exact htaken _ [] (append_nil _).symm id horder hnot
  · -- mailboxes on a cycle of parents, and below one, are never taken
    cases hfind : find id mailboxes with
    | none => exact hnone hfind
    | some mailbox =>
      obtain ⟨b, item, idx, hb, hitem, hmailbox, hpath⟩ := exists_base h hfind
      obtain ⟨b', item', idx', hb', hitem', hmailbox', hpath'⟩ := exists_base h' hfind
      rw [hitem, hitem', Option.map_some, Option.map_some,
        hplacing.later id item b hitem hb horder,
        hplacing'.later id item' b' hitem' hb'
          (mt (hsame.mem_order h.nodup h'.nodup).2 horder),
        hbases hfind hnot hmailbox hmailbox' hpath hpath']

end Paths

end MailServer.Cache
