import MailServer.Dav.FileForest

/-!
# Synchronising the paths of files

What a client that held all paths of an account makes of the change log of a request that moves,
renames, overwrites or deletes files.

Principal results: `Effect.synchronised_iff`, `delete_synchronised`, `client_complete_iff`.
-/

namespace MailServer.Dav

open InsertionMap ParentForest List

/-! ## The client -/

/-- The account has something at the path. -/
def Has (account : FileAccount) (path : FilePath) : Prop := ∃ k, PathOf account k path

/-- **The paths that a client holds once it has removed what vanished, with all below it, and added
what is reported.** -/
def ClientHolds (before after : FileAccount) (reported : ℕ → Prop) (vanished : FilePath → Prop)
    (path : FilePath) : Prop :=
  (Has before path ∧ ∀ gone, vanished gone → ¬ gone <+: path) ∨
    ∃ k, reported k ∧ PathOf after k path

/-- The document is logged as inserted or updated. -/
def Reported (batches : List FileBatch) (accountId documentId : ℕ) : Prop :=
  ∃ batch ∈ batches, ∃ change, change ≠ ItemChange.delete ∧
    (accountId, change, documentId) ∈ batch.changes

/-- The path is logged as gone. -/
def Vanished (batches : List FileBatch) (accountId : ℕ) (path : FilePath) : Prop :=
  ∃ batch ∈ batches, (accountId, path) ∈ batch.vanished.map fun v => (v.1, v.2.path)

/-- **The client holds the paths that there are.** -/
def Synchronised (before : FileStore) (outcome : Outcome) : Prop :=
  ∀ a path, ClientHolds (before a) (outcome.store a) (Reported outcome.batches a)
    (Vanished outcome.batches a) path ↔ Has (outcome.store a) path

inductive FileRequest where
  | copyMove (request : CopyMoveRequest) (isMove : Bool)
  | delete (uri : Option OwnedUri)

def handleFileRequest (server : FileServer) (store : FileStore) : FileRequest → Outcome
  | .copyMove request isMove => handleFileCopyMoveRequest server store request isMove
  | .delete uri => handleFileDeleteRequest server store uri

/-! ## Operations -/

/-- What is logged of a copy or move makes up for what it does: what is moved or copied had the same
paths below it as what it overwrites, and a file was not moved to another folder of its account,
unless another file was there. -/
def LogsAll (trees : ℕ → FileTree) (m : CopyMove) (depth : Depth) (isMove : Bool) : Prop :=
  if isMove ∧ m.fromAccountId = m.toAccountId then
    (m.deleteDestination ≠ none ∧ m.isOverwrite = false) ∨
    (m.logsPath isMove ∧ (m.fromResourceName <+: m.destinationResourceName ∨
      ∀ rest, rest ≠ [] →
        (Has (trees m.toAccountId).toFileAccount (m.destinationResourceName ++ rest) ↔
          Has (trees m.fromAccountId).toFileAccount (m.fromResourceName ++ rest))))
  else
    m.ClearsSource (m.Reach depth) ∨ ∀ rest,
      Has (trees m.toAccountId).toFileAccount (m.destinationResourceName ++ rest) →
        m.Reach depth rest ∧
          Has (trees m.fromAccountId).toFileAccount (m.fromResourceName ++ rest)

section Operations

variable {trees : ℕ → FileTree} {server : FileServer} {isMove : Bool} {m : CopyMove}
  {depth : Depth} {after : FileStore} {batch : FileBatch}

section

variable (hvalid : Validated server (fun a => (trees a).toFileAccount) isMove m)
  (hclear : m.isOverwrite ∨ m.deleteDestination = none)
include hvalid hclear

theorem not_has_below (rest : FilePath) :
    ¬ Has (cleared trees m m.toAccountId) (m.destinationResourceName ++ rest) := by
  rintro ⟨k, hk⟩
  obtain ⟨base, name, -, hdest, -⟩ := hvalid.place
  have hne : m.destinationResourceName ≠ [] := by
    rw [hdest]
    exact append_ne_nil_of_right_ne_nil base (cons_ne_nil _ _)
  obtain ⟨j, hj⟩ := hk.above (prefix_append _ rest) hne
  exact free_cleared hvalid hclear j hj

theorem has_cleared_iff (q : FilePath) : Has (cleared trees m m.toAccountId) q ↔
      Has (trees m.toAccountId).toFileAccount q ∧ ¬ m.destinationResourceName <+: q := by
  constructor
  · rintro ⟨k, hk⟩
    refine ⟨⟨k, (((cleared_spec hvalid _).2.1 _ _).1 hk).1⟩, ?_⟩
    rintro ⟨rest, rfl⟩
    exact not_has_below hvalid hclear rest ⟨k, hk⟩
  · rintro ⟨⟨k, hk⟩, hnot⟩
    exact ⟨k, ((cleared_spec hvalid _).2.1 _ _).2 ⟨hk, fun h => hnot h.2.2⟩⟩

end

theorem has_cleared_other (hvalid : Validated server (fun a => (trees a).toFileAccount) isMove m)
    {a : ℕ} (ha : a ≠ m.toAccountId) (q : FilePath) :
    Has (cleared trees m a) q ↔ Has (trees a).toFileAccount q := by
  refine exists_congr fun k => ?_
  rw [(cleared_spec hvalid a).2.1]
  exact and_iff_left fun h => ha h.2.1.symm

/-- What one batch logs. -/
abbrev ReportedBy (batch : FileBatch) (a k : ℕ) : Prop := Reported [batch] a k

abbrev VanishedBy (batch : FileBatch) (a : ℕ) (path : FilePath) : Prop := Vanished [batch] a path

theorem reportedBy_iff {a k : ℕ} : ReportedBy batch a k ↔
    ∃ change, change ≠ ItemChange.delete ∧ (a, change, k) ∈ batch.changes := by
  unfold ReportedBy Reported
  simp only [mem_singleton, exists_eq_left]

theorem vanishedBy_iff {a : ℕ} {path : FilePath} : VanishedBy batch a path ↔
    (a, path) ∈ batch.vanished.map fun v => (v.1, v.2.path) := by
  unfold VanishedBy Vanished
  simp only [mem_singleton, exists_eq_left]

/-! ## Moves within an account -/

section Relocate

variable (hvalid : Validated server (fun a => (trees a).toFileAccount) isMove m)
  (hclear : m.isOverwrite ∨ m.deleteDestination = none) {logged : Bool}
  (h : Relocated m logged (cleared trees m) after batch)

include h in
theorem Relocated.reported_iff (a k : ℕ) : ReportedBy batch a k ↔
    a = m.toAccountId ∧ k = m.fromResource.documentId := by
  rw [reportedBy_iff, h.changes, ← h.same]
  simp

include h in
theorem Relocated.vanished_iff (a : ℕ) (path : FilePath) : VanishedBy batch a path ↔
    logged ∧ a = m.toAccountId ∧ path = m.fromResourceName := by
  rw [vanishedBy_iff, h.vanished, ← h.same]
  cases logged with
  | true | false => simp

include hvalid h in
theorem Relocated.other {a : ℕ} (ha : a ≠ m.toAccountId) (q : FilePath) :
    ClientHolds (trees a).toFileAccount (after a) (ReportedBy batch a) (VanishedBy batch a) q ↔
      Has (after a) q := by
  obtain ⟨base, name, node, placed, -, -, hwrites⟩ := h.writes
  have hafter : Has (after a) q ↔ Has (trees a).toFileAccount q := by
    rw [← has_cleared_other hvalid ha]
    have hnode := (hwrites a).1
    rw [h.same, if_neg (Ne.symm ha)] at hnode
    refine exists_congr fun k => ?_
    unfold PathOf
    rw [hnode]
  rw [hafter]
  constructor
  · rintro (⟨hhas, -⟩ | ⟨k, hk, -⟩)
    · exact hhas
    · cases ha ((h.reported_iff a k).1 hk).1
  · intro hhas
    exact .inl ⟨hhas, fun gone hgone => absurd ((h.vanished_iff a gone).1 hgone).2.1 ha⟩

include h in
theorem Relocated.client_iff (q : FilePath) :
    ClientHolds (trees m.toAccountId).toFileAccount (after m.toAccountId)
        (ReportedBy batch m.toAccountId) (VanishedBy batch m.toAccountId) q ↔
      (Has (trees m.toAccountId).toFileAccount q ∧
        (logged → ¬ m.fromResourceName <+: q)) ∨
      PathOf (after m.toAccountId) m.fromResource.documentId q := by
  refine or_congr (and_congr_right fun _ => ⟨fun hall hlogged => ?_,
    fun hlogged gone hgone => ?_⟩) ?_
  · exact hall _ ((h.vanished_iff _ _).2 ⟨hlogged, rfl, rfl⟩)
  · obtain ⟨hlogged', -, rfl⟩ := (h.vanished_iff _ _).1 hgone
    exact hlogged hlogged'
  · simp only [h.reported_iff, true_and, exists_eq_left]

include hvalid hclear h in
theorem Relocated.after_below (hbelow : m.fromResourceName <+: m.destinationResourceName) :
    (∀ q, ¬ PathOf (after m.toAccountId) m.fromResource.documentId q) ∧
    ∀ q, Has (after m.toAccountId) q ↔
      Has (trees m.toAccountId).toFileAccount q ∧ ¬ m.fromResourceName <+: q := by
  obtain ⟨base, name, node, placed, hready, hplaced, hwrites⟩ := h.writes
  have hpaths := relocated_below_paths hready h.same hplaced hwrites hbelow
  have hsource := hready.source
  rw [h.same] at hsource
  refine ⟨fun q hq => ?_, fun q => ?_⟩
  · obtain ⟨hq, hnot⟩ := (hpaths _ _).1 hq
    exact hnot (hsource.unique hq ▸ prefix_rfl)
  · unfold Has
    simp only [hpaths, exists_and_right]
    refine and_congr_left fun hnot => ?_
    exact (has_cleared_iff hvalid hclear q).trans
      (and_iff_left fun hpre => hnot (hbelow.trans hpre))

include hvalid h in
theorem Relocated.disjoint (hnot : ¬ m.fromResourceName <+: m.destinationResourceName)
    {q : FilePath} (hdest : m.destinationResourceName <+: q) : ¬ m.fromResourceName <+: q :=
  fun hfrom => Or.elim ( prefix_or_prefix_of_prefix hdest hfrom) (hvalid.apart h.same) hnot

include hvalid hclear h in
/-- A source that is not moved below itself takes along what is below it. -/
theorem Relocated.after_beside (hnot : ¬ m.fromResourceName <+: m.destinationResourceName) :
    (∀ q, PathOf (after m.toAccountId) m.fromResource.documentId q ↔
      q = m.destinationResourceName) ∧
    ∀ q, Has (after m.toAccountId) q ↔
      (∃ rest, q = m.destinationResourceName ++ rest ∧
        Has (trees m.fromAccountId).toFileAccount (m.fromResourceName ++ rest)) ∨
      (Has (trees m.toAccountId).toFileAccount q ∧ ¬ m.destinationResourceName <+: q ∧
        ¬ m.fromResourceName <+: q) := by
  obtain ⟨base, name, node, placed, hready, hplaced, hwrites⟩ := h.writes
  have hpaths := relocated_paths hready h.same hplaced hwrites hnot
  have hsource := hready.source
  rw [h.same] at hsource
  refine ⟨fun q => ?_, fun q => ?_⟩
  · rw [hpaths]
    constructor
    · rintro (⟨rest, hrest, rfl⟩ | ⟨hq, hpre⟩)
      · rw [self_eq_append_right.1 (hsource.unique hrest), append_nil]
      · cases hpre (hsource.unique hq ▸ prefix_rfl)
    · rintro rfl
      refine .inl ⟨[], ?_, (append_nil _).symm⟩
      rw [append_nil]
      exact hsource
  · have hmoved : ∀ rest, Has (cleared trees m m.toAccountId) (m.fromResourceName ++ rest) ↔
        Has (trees m.fromAccountId).toFileAccount (m.fromResourceName ++ rest) := by
      intro rest
      rw [has_cleared_iff hvalid hclear, h.same]
      exact and_iff_left fun hpre => h.disjoint hvalid hnot hpre (prefix_append _ rest)
    have hsplit : Has (after m.toAccountId) q ↔
        (∃ rest, Has (cleared trees m m.toAccountId) (m.fromResourceName ++ rest) ∧
          q = m.destinationResourceName ++ rest) ∨
        (Has (cleared trees m m.toAccountId) q ∧ ¬ m.fromResourceName <+: q) := by
      unfold Has
      simp only [hpaths, exists_or, exists_and_right]
      refine or_congr ?_ Iff.rfl
      rw [exists_comm]
      exact exists_congr fun rest => exists_and_right
    rw [hsplit, has_cleared_iff hvalid hclear, and_assoc]
    refine or_congr (exists_congr fun rest => ?_) Iff.rfl
    rw [hmoved, and_comm]

include hvalid hclear h in
theorem Relocated.logged_of_synchronised (hall : ∀ q, ClientHolds
      (trees m.toAccountId).toFileAccount (after m.toAccountId)
      (ReportedBy batch m.toAccountId) (VanishedBy batch m.toAccountId) q ↔
        Has (after m.toAccountId) q) : logged := by
  by_contra hlogged
  have hsource := hvalid.source
  rw [h.same] at hsource
  have hold := (hall m.fromResourceName).1 ((h.client_iff _).2
    (.inl ⟨⟨_, hsource⟩, fun hl => absurd hl hlogged⟩))
  by_cases hbelow : m.fromResourceName <+: m.destinationResourceName
  · exact (((h.after_below hvalid hclear hbelow).2 _).1 hold).2 prefix_rfl
  · rcases ((h.after_beside hvalid hclear hbelow).2 _).1 hold with ⟨rest, heq, -⟩ | ⟨-, -, hnot⟩
    · exact hvalid.apart h.same ⟨rest, heq.symm⟩
    · exact hnot prefix_rfl

include hvalid hclear h in
/-- **A move within an account is logged completely exactly when its old path is, and it goes to
below itself or has the paths of what it overwrites.** -/
theorem Relocated.synchronised_iff :
    (∀ a q, ClientHolds (trees a).toFileAccount (after a) (ReportedBy batch a) (VanishedBy batch a)
        q ↔ Has (after a) q) ↔
      logged ∧ (m.fromResourceName <+: m.destinationResourceName ∨
        ∀ rest, rest ≠ [] →
          (Has (trees m.toAccountId).toFileAccount (m.destinationResourceName ++ rest) ↔
            Has (trees m.fromAccountId).toFileAccount (m.fromResourceName ++ rest))) := by
  constructor
  · intro hall
    refine ⟨h.logged_of_synchronised hvalid hclear (hall m.toAccountId), ?_⟩
    by_cases hbelow : m.fromResourceName <+: m.destinationResourceName
    · exact .inl hbelow
    obtain ⟨hself, hafter⟩ := h.after_beside hvalid hclear hbelow
    refine .inr fun rest hrest => ?_
    have hpre := prefix_append m.destinationResourceName rest
    have hne : m.destinationResourceName ++ rest ≠ m.destinationResourceName := fun heq =>
      hrest (self_eq_append_right.1 heq.symm)
    have hiff := (h.client_iff (m.destinationResourceName ++ rest)).symm.trans
      ((hall m.toAccountId _).trans (hafter _))
    constructor
    · intro hhas
      have hclient := hiff.1 (.inl ⟨hhas, fun _ => h.disjoint hvalid hbelow hpre⟩)
      rcases hclient with ⟨rest', heq, hmoved⟩ | ⟨-, hnot, -⟩
      · rw [append_cancel_left heq]
        exact hmoved
      · cases hnot hpre
    · intro hhas
      rcases hiff.2 (.inl ⟨rest, rfl, hhas⟩) with ⟨hold, -⟩ | hpath
      · exact hold
      · cases hne ((hself _).1 hpath)
  · rintro ⟨hlogged, hrest⟩ a q
    by_cases ha : a ≠ m.toAccountId
    · exact h.other hvalid ha q
    obtain rfl := not_ne_iff.1 ha
    rw [h.client_iff]
    by_cases hbelow : m.fromResourceName <+: m.destinationResourceName
    · obtain ⟨hgone, hafter⟩ := h.after_below hvalid hclear hbelow
      rw [hafter, or_iff_left (hgone q)]
      exact and_congr_right fun _ => ⟨fun hnot => hnot hlogged, fun hnot _ => hnot⟩
    · obtain ⟨hself, hafter⟩ := h.after_beside hvalid hclear hbelow
      have hrest := hrest.resolve_left hbelow
      rw [hself, hafter]
      constructor
      · rintro (⟨hhas, hnot⟩ | rfl)
        · by_cases hpre : m.destinationResourceName <+: q
          · obtain ⟨rest, rfl⟩ := hpre
            refine .inl ⟨rest, rfl, ?_⟩
            by_cases hnil : rest = []
            · rw [hnil, append_nil]
              exact ⟨_, hvalid.source⟩
            · exact (hrest rest hnil).1 hhas
          · exact .inr ⟨hhas, hpre, hnot hlogged⟩
        · refine .inl ⟨[], (append_nil _).symm, ?_⟩
          rw [append_nil]
          exact ⟨_, hvalid.source⟩
      · rintro (⟨rest, rfl, hhas⟩ | ⟨hhas, -, hnot⟩)
        · by_cases hnil : rest = []
          · exact .inr (by rw [hnil, append_nil])
          · exact .inl ⟨(hrest rest hnil).2 hhas,
              fun _ => h.disjoint hvalid hbelow (prefix_append _ rest)⟩
        · exact .inl ⟨hhas, fun _ => hnot⟩

end Relocate

/-! ## Copies -/

theorem reach_of_append {rest more : FilePath} (h : m.Reach depth (rest ++ more)) :
    m.Reach depth rest := by
  unfold CopyMove.Reach at h ⊢
  split
  · rename_i hdeep
    rw [if_pos hdeep] at h
    refine h.imp_right fun hlength => ?_
    rw [length_append] at hlength
    omega
  · rename_i hdeep
    rw [if_neg hdeep] at h
    exact (append_eq_nil_iff.1 h).1

theorem has_source_iff (hvalid : Validated server (fun a => (trees a).toFileAccount) isMove m)
    (hnot : ¬ m.ClearsSource (m.Reach depth)) {rest : FilePath} (hreach : m.Reach depth rest) :
    Has (cleared trees m m.fromAccountId) (m.fromResourceName ++ rest) ↔
      Has (trees m.fromAccountId).toFileAccount (m.fromResourceName ++ rest) := by
  refine exists_congr fun k => ?_
  rw [(cleared_spec hvalid _).2.1]
  refine and_iff_left ?_
  rintro ⟨hover, hsame, hpre⟩
  have hor := prefix_or_prefix_of_prefix hpre ( prefix_append m.fromResourceName rest)
  obtain ⟨r, hr⟩ := hor.resolve_left (hvalid.apart hsame.symm)
  rw [← hr] at hpre
  obtain ⟨more, hmore⟩ := hpre
  rw [append_assoc] at hmore
  rw [← append_cancel_left hmore] at hreach
  exact hnot ⟨hsame.symm, hover, r, hr.symm, reach_of_append hreach⟩

section Copy

variable {copyOf : ℕ → ℕ → Prop}
  (hvalid : Validated server (fun a => (trees a).toFileAccount) isMove m)
  (hacross : isMove → m.fromAccountId ≠ m.toAccountId)
  (h : Copied m (m.Reach depth) (m.deletesSource depth isMove) (cleared trees m) after batch copyOf)

include h in
theorem Copied.reported_iff (a k : ℕ) : ReportedBy batch a k ↔
    a = m.toAccountId ∧ ∃ d, copyOf d k := by
  rw [reportedBy_iff]
  constructor
  · rintro ⟨change, hchange, hmem⟩
    rcases (h.changes a change k).1 hmem with ⟨ha, -, hd⟩ | ⟨-, -, hdelete, -⟩
    · exact ⟨ha, hd⟩
    · cases hchange hdelete
  · rintro ⟨ha, hd⟩
    exact ⟨.insert, by decide, (h.changes a .insert k).2 (.inl ⟨ha, rfl, hd⟩)⟩

include h in
theorem Copied.vanished_iff (a : ℕ) (path : FilePath) : VanishedBy batch a path ↔
    m.deletesSource depth isMove ∧ a = m.fromAccountId ∧ path = m.fromResourceName := by
  rw [vanishedBy_iff, h.vanished]
  cases m.deletesSource depth isMove with
  | true | false => simp

def CopiedTo (trees : ℕ → FileTree) (m : CopyMove) (depth : Depth) (q : FilePath) : Prop :=
  ∃ rest, q = m.destinationResourceName ++ rest ∧ m.Reach depth rest ∧
    Has (cleared trees m m.fromAccountId) (m.fromResourceName ++ rest)

include h in
theorem Copied.copied_iff (q : FilePath) :
    (∃ k, (∃ d, copyOf d k) ∧ PathOf (after m.toAccountId) k q) ↔ CopiedTo trees m depth q := by
  constructor
  · rintro ⟨k, ⟨d, hd⟩, hpath⟩
    rcases (h.to_paths k q).1 hpath with hold | ⟨d', rest, hd', hsource, rfl⟩
    · obtain ⟨n, hn⟩ := hold.stored
      cases hn.symm.trans (h.fresh d k hd)
    · obtain ⟨rest', hsource', hreach⟩ := h.sound d' k hd'
      rw [← append_cancel_left (hsource.unique hsource')] at hreach
      exact ⟨rest, rfl, hreach, d', hsource⟩
  · rintro ⟨rest, rfl, hreach, d, hsource⟩
    obtain ⟨k, hk⟩ := h.complete d rest hsource hreach
    exact ⟨k, ⟨d, hk⟩, (h.to_paths k _).2 (.inr ⟨d, rest, hk, hsource, rfl⟩)⟩

include h in
theorem Copied.after_iff (q : FilePath) :
    Has (after m.toAccountId) q ↔
      Has (cleared trees m m.toAccountId) q ∨ CopiedTo trees m depth q := by
  rw [← h.copied_iff]
  constructor
  · rintro ⟨k, hk⟩
    rcases (h.to_paths k q).1 hk with hold | ⟨d, rest, hd, -⟩
    · exact .inl ⟨k, hold⟩
    · exact .inr ⟨k, ⟨d, hd⟩, hk⟩
  · rintro (⟨k, hk⟩ | ⟨k, -, hk⟩)
    · exact ⟨k, (h.to_paths k q).2 (.inl hk)⟩
    · exact ⟨k, hk⟩

include hacross h in
theorem Copied.client_iff (q : FilePath) :
    ClientHolds (trees m.toAccountId).toFileAccount (after m.toAccountId)
        (ReportedBy batch m.toAccountId) (VanishedBy batch m.toAccountId) q ↔
      Has (trees m.toAccountId).toFileAccount q ∨ CopiedTo trees m depth q := by
  rw [← h.copied_iff]
  refine or_congr (and_iff_left fun gone hgone => ?_) ?_
  · obtain ⟨hdelete, ha, -⟩ := (h.vanished_iff _ _).1 hgone
    cases hacross (Bool.and_eq_true_iff.1 hdelete).1 ha.symm
  · simp only [h.reported_iff, true_and]

include hvalid h in
theorem Copied.elsewhere {a : ℕ} (ha : a ≠ m.toAccountId) (q : FilePath) :
    ClientHolds (trees a).toFileAccount (after a) (ReportedBy batch a) (VanishedBy batch a) q ↔
      Has (after a) q := by
  have hclient : ClientHolds (trees a).toFileAccount (after a) (ReportedBy batch a)
      (VanishedBy batch a) q ↔ Has (trees a).toFileAccount q ∧
        ∀ gone, VanishedBy batch a gone → ¬ gone <+: q := by
    refine or_iff_left ?_
    rintro ⟨k, hk, -⟩
    exact ha ((h.reported_iff a k).1 hk).1
  rw [hclient]
  by_cases hdelete : m.deletesSource depth isMove ∧ a = m.fromAccountId
  · obtain ⟨hdelete, rfl⟩ := hdelete
    have hafter : Has (after m.fromAccountId) q ↔
        Has (cleared trees m m.fromAccountId) q ∧ ¬ m.fromResourceName <+: q := by
      unfold Has
      simp only [h.from_paths hdelete, exists_and_right]
    rw [hafter, has_cleared_other hvalid ha]
    refine and_congr_right fun _ => ⟨fun hall => ?_, fun hnot gone hgone => ?_⟩
    · exact hall _ ((h.vanished_iff _ _).2 ⟨hdelete, rfl, rfl⟩)
    · obtain ⟨-, -, rfl⟩ := (h.vanished_iff _ _).1 hgone
      exact hnot
  · have hnode := (h.other a ha fun hd heq => hdelete ⟨hd, heq⟩).1
    have hafter : Has (after a) q ↔ Has (trees a).toFileAccount q := by
      rw [← has_cleared_other hvalid ha]
      refine exists_congr fun k => ?_
      unfold PathOf
      rw [hnode]
    rw [hafter]
    refine and_iff_left fun gone hgone => ?_
    obtain ⟨hd, heq, -⟩ := (h.vanished_iff _ _).1 hgone
    cases hdelete ⟨hd, heq⟩

include hvalid hacross h in
/-- **A copy, or a move to another account, is logged completely exactly when it copies all the
paths that were below what it overwrites.** -/
theorem Copied.synchronised_iff (hclear : m.isOverwrite ∨ m.deleteDestination = none)
    (hnot : ¬ m.ClearsSource (m.Reach depth)) :
    (∀ a q, ClientHolds (trees a).toFileAccount (after a) (ReportedBy batch a) (VanishedBy batch a)
        q ↔ Has (after a) q) ↔
      ∀ rest, Has (trees m.toAccountId).toFileAccount (m.destinationResourceName ++ rest) →
        m.Reach depth rest ∧
          Has (trees m.fromAccountId).toFileAccount (m.fromResourceName ++ rest) := by
  have hcopied : ∀ rest, CopiedTo trees m depth (m.destinationResourceName ++ rest) ↔
      m.Reach depth rest ∧
        Has (trees m.fromAccountId).toFileAccount (m.fromResourceName ++ rest) := by
    intro rest
    constructor
    · rintro ⟨rest', heq, hreach, hhas⟩
      rw [← append_cancel_left heq] at hreach hhas
      exact ⟨hreach, (has_source_iff hvalid hnot hreach).1 hhas⟩
    · rintro ⟨hreach, hhas⟩
      exact ⟨rest, rfl, hreach, (has_source_iff hvalid hnot hreach).2 hhas⟩
  constructor
  · intro hall rest hhas
    have hafter := (hall m.toAccountId _).1 ((h.client_iff hacross _).2 (.inl hhas))
    rcases (h.after_iff _).1 hafter with hold | hcopy
    · cases not_has_below hvalid hclear rest hold
    · exact (hcopied rest).1 hcopy
  · intro hall a q
    by_cases ha : a ≠ m.toAccountId
    · exact h.elsewhere hvalid ha q
    obtain rfl := not_ne_iff.1 ha
    rw [h.client_iff hacross, h.after_iff, has_cleared_iff hvalid hclear]
    constructor
    · rintro (hhas | hcopy)
      · by_cases hpre : m.destinationResourceName <+: q
        · obtain ⟨rest, rfl⟩ := hpre
          exact .inr ((hcopied rest).2 (hall rest hhas))
        · exact .inl ⟨hhas, hpre⟩
      · exact .inr hcopy
    · exact Or.imp_left And.left

end Copy

/-! ## Overwriting and deleting -/

/-- **A file that is written over another is logged completely.** -/
theorem Overwritten.synchronised {overwritten : ℕ}
    (hover : m.isOverwrite = false)
    (h : Overwritten m isMove overwritten (cleared trees m) after batch) (a : ℕ) (q : FilePath) :
    ClientHolds (trees a).toFileAccount (after a) (ReportedBy batch a) (VanishedBy batch a) q ↔
      Has (after a) q := by
  have hafter : Has (after a) q ↔ Has (trees a).toFileAccount q ∧
      ¬(isMove ∧ a = m.fromAccountId ∧ m.fromResourceName <+: q) := by
    unfold Has
    simp only [h.paths, exists_and_right, cleared_of_not trees hover]
  have hvanished : (∀ gone, VanishedBy batch a gone → ¬ gone <+: q) ↔
      ¬(isMove ∧ a = m.fromAccountId ∧ m.fromResourceName <+: q) := by
    simp only [vanishedBy_iff, h.vanished]
    cases isMove with
    | true | false => simp
  unfold ClientHolds
  rw [hvanished, hafter]
  refine or_iff_left_of_imp ?_
  rintro ⟨k, -, hk⟩
  exact hafter.1 ⟨k, hk⟩

end Operations

theorem last_le_of_pairwise {resources : List DavPath} {last d : DavPath}
    (hpairwise : resources.Pairwise fun a b => b.hierarchySeq ≤ a.hierarchySeq)
    (hlast : resources.getLast? = some last) (hd : d ∈ resources) :
    last.hierarchySeq ≤ d.hierarchySeq := by
  obtain ⟨init, rfl⟩ := getLast?_eq_some_iff.1 hlast
  rcases mem_append.1 hd with h | h
  · exact (pairwise_append.1 hpairwise).2.2 d h last (.head _)
  · exact le_of_eq (congrArg _ (mem_singleton.1 h).symm)

theorem delete_success {server : FileServer} {store : FileStore} {uri}
    (h : (handleFileDeleteRequest server store uri).response.isSuccess) :
    ∃ accountId path resources last, path ≠ [] ∧
      fetchDavResources (store accountId) = some resources ∧
      ((resources.subtree path).insertionSort fun a b =>
        b.hierarchySeq ≤ a.hierarchySeq).getLast? = some last ∧
      handleFileDeleteRequest server store uri = .committed .NO_CONTENT store
        (destroyFiles store accountId (filesToDelete resources path)
          (some (resources.formatResource last))) := by
  unfold handleFileDeleteRequest at h ⊢
  repeat' split at h
  all_goals first | exact absurd h Bool.false_ne_true | skip
  rename_i uri _ path hpath hnil _ resources hfetch
  dsimp only at h
  repeat' split at h
  all_goals first | exact absurd h Bool.false_ne_true | skip
  rename_i _ last hlast hallowed hheaders
  simp only [if_neg hnil]
  refine ⟨uri.accountId, path, resources, last, hnil, hfetch, hlast, ?_⟩
  simp only [hlast]
  rw [if_neg hallowed, if_neg hheaders]
  rfl

theorem path_of_last {account : FileAccount} {resources : DavResources} {path : FilePath}
    {last : DavPath} (htree : IsTree account) (hof : resources.Of account) (hnil : path ≠ [])
    (hlast : ((resources.subtree path).insertionSort fun a b =>
      b.hierarchySeq ≤ a.hierarchySeq).getLast? = some last) :
    last.path = path ∧ PathOf account last.documentId path := by
  obtain ⟨sorted, hsorted⟩ : ∃ sorted, sorted = (resources.subtree path).insertionSort
      fun a b => b.hierarchySeq ≤ a.hierarchySeq := ⟨_, rfl⟩
  rw [← hsorted] at hlast
  have hmem : ∀ {d}, d ∈ sorted ↔ d ∈ resources.paths ∧ path <+: d.path := by
    intro d
    rw [hsorted, mem_insertionSort, DavResources.subtree, mem_filter,
      isPrefixOf_iff_prefix]
  obtain ⟨hlastMem, hlastPre⟩ := hmem.1 (mem_of_getLast? hlast)
  obtain ⟨-, -, -, hlastPath⟩ := hof.cache.sound last hlastMem
  obtain ⟨id, hid⟩ := hlastPath.above hlastPre hnil
  obtain ⟨node, hnode⟩ := hid.stored
  obtain ⟨top, htop, rfl⟩ := hof.cache.complete id node hnode
  obtain ⟨-, -, -, htopPath⟩ := hof.cache.sound top htop
  have htopEq : top.path = path := htopPath.unique hid
  have hlastEq : last.path = path := by
    by_contra hne
    have hpre : top.path <+: last.path := htopEq ▸ hlastPre
    have hlt := hof.cache.seq_lt htree htop hlastMem hpre fun heq => hne (heq.symm.trans htopEq)
    have hpairwise : sorted.Pairwise fun a b => b.hierarchySeq ≤ a.hierarchySeq := by
      rw [hsorted]
      exact pairwise_insertionSort _ _
    have hle := last_le_of_pairwise hpairwise hlast (hmem.2 ⟨htop, htopEq ▸ prefix_rfl⟩)
    omega
  exact ⟨hlastEq, hlastEq ▸ hlastPath⟩

/-- **The log of a deletion is complete.** -/
theorem delete_synchronised (server : FileServer) (trees : ℕ → FileTree) (uri : Option OwnedUri)
    (hsuccess : (handleFileDeleteRequest server (fun a => (trees a).toFileAccount)
      uri).response.isSuccess) :
    Synchronised (fun a => (trees a).toFileAccount)
      (handleFileDeleteRequest server (fun a => (trees a).toFileAccount) uri) := by
  obtain ⟨accountId, path, resources, last, hnil, hfetch, hlast, hdelete⟩ :=
    delete_success hsuccess
  rw [hdelete]
  have htree := (trees accountId).tree
  have hof := fetchDavResources_of htree hfetch
  obtain ⟨hlastEq, hid⟩ := path_of_last htree hof hnil hlast
  obtain ⟨node, hnode⟩ := hid.stored
  obtain ⟨batch, hbatch⟩ : ∃ batch, batch = destroyFiles (fun a => (trees a).toFileAccount)
      accountId (filesToDelete resources path) (some (resources.formatResource last)) :=
    ⟨_, rfl⟩
  rw [← hbatch]
  obtain ⟨hchanges, -, hvanished⟩ := destroyFiles_log (fun a => (trees a).toFileAccount)
    accountId (filesToDelete resources path) (some (resources.formatResource last))
  rw [← hbatch] at hchanges hvanished
  have hgone : ∀ a gone, VanishedBy batch a gone ↔ a = accountId ∧ gone = path := by
    intro a gone
    rw [vanishedBy_iff, hvanished _ rfl ⟨last.documentId, (mem_filesToDelete hof).2
      ⟨path, hid, prefix_rfl⟩, Option.ne_none_iff_exists'.2 ⟨node, hnode⟩⟩]
    simp only [map_cons, map_nil, mem_singleton, Prod.mk.injEq,
      DavResources.formatResource, hlastEq]
  have hreported : ∀ a k, ¬ ReportedBy batch a k := by
    intro a k hk
    obtain ⟨change, hchange, hmem⟩ := reportedBy_iff.1 hk
    exact hchange ((hchanges a change k).1 hmem).2.1
  intro a q
  change ClientHolds _ (commitBatch (fun a => (trees a).toFileAccount) batch a)
    (ReportedBy batch a) (VanishedBy batch a) q ↔
    Has (commitBatch (fun a => (trees a).toFileAccount) batch a) q
  have hclient : ∀ after, ClientHolds (trees a).toFileAccount after (ReportedBy batch a)
      (VanishedBy batch a) q ↔ Has (trees a).toFileAccount q ∧
        (a = accountId → ¬ path <+: q) := by
    intro after
    refine (or_iff_left fun ⟨k, hk, _⟩ => hreported a k hk).trans (and_congr_right fun _ => ?_)
    simp only [hgone]
    exact ⟨fun h ha => h path ⟨ha, rfl⟩, fun h gone hg => hg.2 ▸ h hg.1⟩
  rw [hclient]
  by_cases ha : a = accountId
  · subst a
    have hcleared : ∀ k, (commitBatch (fun a => (trees a).toFileAccount) batch accountId).node k =
        if k ∈ filesToDelete resources path then none else (trees accountId).node k := by
      intro k
      rw [hbatch, node_destroyFiles]
      by_cases hk : k ∈ filesToDelete resources path
      · rw [if_pos ⟨rfl, hk⟩, if_pos hk]
      · rw [if_neg fun h => hk h.2, if_neg hk]
    have hlastId := (node_commit (fun a => (trees a).toFileAccount) batch accountId).2.ge
    obtain ⟨-, hpaths, -⟩ := removed_subtree htree hof hid hcleared hlastId
    unfold Has
    simp only [hpaths, exists_and_right]
    exact and_congr_right fun _ => ⟨fun h => h trivial, fun h _ => h⟩
  · have hsame : (commitBatch (fun a => (trees a).toFileAccount) batch a).node =
        (trees a).node := by
      funext k
      rw [hbatch, node_destroyFiles, if_neg fun h => ha h.1.symm]
    refine (and_iff_left fun h => absurd h ha).trans (exists_congr fun k => ?_)
    unfold PathOf
    rw [hsame]

/-! ## Requests -/

/-- The condition for the log of a request to be complete: it is refused, is a deletion, or logs all
of what it does. -/
def LogComplete (server : FileServer) (trees : ℕ → FileTree) : FileRequest → Prop
  | .copyMove request isMove => ∀ m,
      validateCopyMove server (fun a => (trees a).toFileAccount) request isMove = .ok m →
        m.hasQuota server isMove → LogsAll trees m request.depth isMove
  | .delete _ => True

section Requests

variable {server : FileServer} {trees : ℕ → FileTree} {isMove : Bool} {m : CopyMove}
  {depth : Depth} {after : FileStore} {batch : FileBatch}

/-- **When the log of an operation is complete.** -/
theorem Effect.synchronised_iff
    (hvalid : Validated server (fun a => (trees a).toFileAccount) isMove m)
    (h : Effect m depth isMove (cleared trees m) after batch) :
    (∀ a q, ClientHolds (trees a).toFileAccount (after a) (ReportedBy batch a) (VanishedBy batch a)
        q ↔ Has (after a) q) ↔ LogsAll trees m depth isMove := by
  unfold LogsAll
  cases h with
  | relocated hmove hclear hrelocated =>
    rw [if_pos ⟨hmove, hrelocated.same⟩, hrelocated.synchronised_iff hvalid hclear]
    refine (or_iff_right ?_).symm
    rintro ⟨hexisting, hover⟩
    rcases hclear with h | h
    · exact Bool.false_ne_true (hover.symm.trans h)
    · exact hexisting h
  | copied hacross hclear hnot hcopied =>
    rw [if_neg fun h => hacross h.1 h.2, hcopied.synchronised_iff hvalid hacross hclear hnot]
    exact (or_iff_right hnot).symm
  | overwritten hd hid hover hfile hoverwritten =>
    refine iff_of_true (hoverwritten.synchronised hover) ?_
    split
    · exact .inl ⟨fun hnone => absurd (hnone.symm.trans hd).symm (Option.some_ne_none _), hover⟩
    · -- Nothing is below a file.
      refine .inr fun rest ⟨k, hk⟩ => ?_
      obtain ⟨-, -, id', n, -, hpath, hn, hkind⟩ := hvalid.existing _ hd
      have hdestFile : n.isContainer = false := by
        unfold CopyMove.isOverwrite at hover
        rw [hd] at hover
        exact hkind.symm.trans (Bool.or_eq_false_iff.1 hover).1
      have halone := alone_of_file (trees m.toAccountId).tree hn hdestFile hpath k _ hk
        (prefix_append _ rest)
      rw [halone] at hk
      have hrest : rest = [] := self_eq_append_right.1 (hpath.unique hk)
      rw [hrest, append_nil]
      refine ⟨?_, _, hvalid.source⟩
      rw [reach_alone m depth fun h => Bool.false_ne_true (hfile.symm.trans h.1)]

/-- **A client that applies the change log holds exactly the paths there are, exactly when the
request is a deletion or logs all of what it does.** -/
theorem client_complete_iff (server : FileServer) (trees : ℕ → FileTree) (request : FileRequest) :
    ((handleFileRequest server (fun a => (trees a).toFileAccount) request).response.isSuccess =
        true →
      Synchronised (fun a => (trees a).toFileAccount)
        (handleFileRequest server (fun a => (trees a).toFileAccount) request)) ↔
    LogComplete server trees request := by
  cases request with
  | delete uri => exact iff_of_true (delete_synchronised server trees uri) trivial
  | copyMove request isMove =>
    unfold handleFileRequest LogComplete
    -- Clearing the destination logs nothing that a client is told.
    have hlog : ∀ {m batches batch}, Validated server (fun a => (trees a).toFileAccount) isMove m →
        batch ∈ batches →
        (∀ b ∈ batches, b = batch ∨ b = m.overwriteBatch fun a => (trees a).toFileAccount) →
        (∀ a, Reported batches a = ReportedBy batch a) ∧
          ∀ a, Vanished batches a = VanishedBy batch a := by
      intro m batches batch hvalid hmem hbatches
      obtain ⟨hvanished, hchanges⟩ := overwriteBatch_log hvalid
      refine ⟨fun a => funext fun k => propext ⟨?_, ?_⟩, fun a => funext fun path =>
        propext ⟨?_, ?_⟩⟩
      · rintro ⟨b, hb, change, hchange, hk⟩
        rcases hbatches b hb with rfl | rfl
        · exact ⟨b, mem_singleton_self b, change, hchange, hk⟩
        · cases hchange ((hchanges a change k).1 hk).2.2.1
      · rintro ⟨b, hb, hk⟩
        obtain rfl := mem_singleton.1 hb
        exact ⟨b, hmem, hk⟩
      · rintro ⟨b, hb, hpath⟩
        rcases hbatches b hb with rfl | rfl
        · exact ⟨b, mem_singleton_self b, hpath⟩
        · rw [hvanished] at hpath
          cases hpath
      · rintro ⟨b, hb, hpath⟩
        obtain rfl := mem_singleton.1 hb
        exact ⟨b, hmem, hpath⟩
    have hunique : ∀ {m m'}, validateCopyMove server (fun a => (trees a).toFileAccount) request
        isMove = .ok m → validateCopyMove server (fun a => (trees a).toFileAccount) request
          isMove = .ok m' → m' = m := fun hm hm' => Except.ok.inj (hm'.symm.trans hm)
    cases handle_cases server trees request isMove with
    | refused hfailed _ hnone =>
      refine iff_of_true (fun h => absurd (hfailed.symm.trans h) Bool.false_ne_true) ?_
      exact fun m hm hquota => absurd ((hnone m hm).symm.trans hquota) Bool.false_ne_true
    | stopped hm _ hmove hclears hfailed _ =>
      refine iff_of_true (fun h => absurd (hfailed.symm.trans h) Bool.false_ne_true) ?_
      intro m' hm' _
      obtain rfl := hunique hm hm'
      unfold LogsAll
      rw [if_neg fun h => Bool.false_ne_true (hmove.symm.trans h.1)]
      exact .inl hclears
    | done hm hquota hsuccess hmem _ hbatches heffect =>
      have hvalid := validateCopyMove_spec hm
      obtain ⟨hreported, hvanished⟩ := hlog hvalid hmem hbatches
      unfold Synchronised
      simp only [hreported, hvanished]
      rw [heffect.synchronised_iff hvalid]
      constructor
      · intro h m' hm' _
        obtain rfl := hunique hm hm'
        exact h hsuccess
      · intro h _
        exact h _ hm hquota

end Requests

/-! ## A file moved to another folder -/

/-- A folder and a file, at the root. -/
def folderAndFile : FileTree where
  files := [(1, ⟨0, "d", none, []⟩), (2, ⟨0, "f", some 5, []⟩)]
  lastId := 2
  nodup := by decide
  tree := isTree_of_ascending (by decide)

/-- Moves the file into the folder. -/
def moveIntoFolder : CopyMoveRequest where
  uri := some ⟨0, some ["f"]⟩
  destination := some ⟨.fileNode, some 0, some ["d", "f"]⟩
  overwriteFail := false
  depth := .Infinity

/-- **A file that is moved to another folder stays with the client at its old path.** -/
theorem moved_file_stays :
    ¬ ∀ (server : FileServer) (trees : ℕ → FileTree) (request : FileRequest),
      (handleFileRequest server (fun a => (trees a).toFileAccount) request).response.isSuccess =
          true →
        Synchronised (fun a => (trees a).toFileAccount)
          (handleFileRequest server (fun a => (trees a).toFileAccount) request) := by
  intro hall
  have hsynchronised := hall ownAccount (fun _ => folderAndFile) (.copyMove moveIntoFolder true)
    (by decide) 0 ["f"]
  have hvanished : ∀ batch ∈ (handleFileRequest ownAccount (fun _ => folderAndFile.toFileAccount)
      (.copyMove moveIntoFolder true)).batches, batch.vanished = [] := by decide
  have hbefore : Has folderAndFile.toFileAccount ["f"] :=
    ⟨2, .top (show folderAndFile.node 2 = some ⟨0, "f", some 5, []⟩ by decide) rfl⟩
  obtain ⟨k, hk⟩ := hsynchronised.1 (.inl ⟨hbefore, by
    rintro gone ⟨batch, hbatch, hgone⟩
    rw [hvanished batch hbatch] at hgone
    exact nomatch hgone⟩)
  -- The file is found in the folder now, and nothing else has its name.
  obtain ⟨n, base, hn, hbase, hconcat⟩ := hk.hangs
  have hmem := mem_files.2 hn
  obtain ⟨hnil, hname⟩ := append_inj' (show [] ++ ["f"] = base ++ [links.label n] from
    hconcat) rfl
  rcases mem_cons.1 hmem with heq | hmem
  · rw [(Prod.mk.inj heq).2] at hname
    exact absurd hname (by decide)
  · rw [(Prod.mk.inj (mem_singleton.1 hmem)).2] at hbase
    cases HasPath.ne_nil hbase hnil.symm

end MailServer.Dav
