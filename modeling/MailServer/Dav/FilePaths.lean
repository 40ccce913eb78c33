import MailServer.Dav.FileCache

/-!
# The paths of any file nodes

`build_nested_hierarchy` (`groupware/src/cache/file.rs`) for nodes that need not form a tree: a
parent may be absent or lead round a cycle, and names may be alike.

Principal result: `pathsBuilt_iff` — every node below the root is found under its path exactly when
no parent is absent and no other node gets its path.
-/

namespace MailServer.Dav

open InsertionMap ParentForest List

def DavPath.text (d : DavPath) : String := "/".intercalate d.path

/-- `collect` into a set of paths, which are told apart by their text: one that is there stays. -/
def collectPaths (values : List DavPath) : List DavPath :=
  values.foldl (fun paths d => if paths.any (·.text == d.text) then paths else paths ++ [d]) []

variable {account : FileAccount} {id : ℕ} {path : FilePath}

/-- In any order of the hash map, every node that leads to the root is found under its path, after
its parent. -/
def PathsBuilt (account : FileAccount) : Prop :=
  ∃ paths, buildNestedHierarchy account.files = some paths ∧ ∀ values, values.Perm paths →
    ∀ id path, PathOf account id path → ∃ d ∈ collectPaths values, d.documentId = id ∧
      d.path = path ∧ ∀ d' ∈ collectPaths values, d.parentId = some d'.documentId →
        d'.hierarchySeq < d.hierarchySeq

/-- A node that does not lead to the root keeps its name. -/
def FinalPath (account : FileAccount) (id : ℕ) (path : FilePath) : Prop :=
  PathOf account id path ∨ (∀ path', ¬ PathOf account id path') ∧
    ∃ node, account.node id = some node ∧ path = [node.name]

/-- No other node gets the path of a node whose parents lead to the root. -/
def PathsDistinct (account : FileAccount) : Prop :=
  ∀ id path id' path', PathOf account id path → FinalPath account id' path' →
    "/".intercalate path = "/".intercalate path' → id = id'

/-! ## The set -/

theorem collectPaths_spec (values : List DavPath) :
    (∀ d ∈ collectPaths values, d ∈ values) ∧
    (∀ d ∈ values, ∃ d' ∈ collectPaths values, d'.text = d.text) ∧
    ∀ d ∈ collectPaths values, ∀ d' ∈ collectPaths values, d.text = d'.text → d = d' := by
  induction values using reverseRecOn with
  | nil => simp [collectPaths]
  | append_singleton values d ih =>
    have hstep : collectPaths (values ++ [d]) =
        if (collectPaths values).any (·.text == d.text) then collectPaths values
        else collectPaths values ++ [d] := by
      rw [collectPaths, foldl_append]
      rfl
    obtain ⟨hsub, hcover, hinj⟩ := ih
    rw [hstep]
    split_ifs with hany
    · grind
    · grind

theorem mem_collectPaths_cons (d : DavPath) (values : List DavPath) :
    d ∈ collectPaths (d :: values) := by
  induction values using reverseRecOn with
  | nil => simp [collectPaths]
  | append_singleton values d' ih =>
    rw [← cons_append, collectPaths, foldl_append]
    change d ∈ if (collectPaths (d :: values)).any _ then collectPaths (d :: values)
      else collectPaths (d :: values) ++ [d']
    split_ifs <;> simp [ih]

/-! ## The hierarchy -/

theorem pathOf_of_mem_placed {paths : List DavPath} (h : PlacedPaths account paths) {d : DavPath}
    (hd : d ∈ paths) : FinalPath account d.documentId d.path := by
  obtain ⟨node, hnode, -, hin, hout⟩ := h.entry d hd
  by_cases hplaced : d.documentId + 1 ∈ placed account
  · exact .inl (hin hplaced).1
  · exact .inr ⟨fun path hpath => hplaced (mem_placed_of_pathOf hpath), node, hnode, hout hplaced⟩

theorem keys_placeFolder {names names'} {folder : ℕ × ℕ}
    (h : placeFolder names folder = some names') :
    keys names' = keys names ∧ (folder.1 ≠ 0 → folder.1 - 1 ∈ keys names) := by
  unfold placeFolder at h
  split_ifs at h with hzero
  · cases h
    exact ⟨rfl, fun hne => absurd hzero hne⟩
  · cases hname : find (folder.1 - 1) names with
    | none => simp [hname] at h
    | some name =>
      have hmem : folder.1 - 1 ∈ keys names := by
        by_contra hno
        rw [find_eq_none hno] at hname
        cases hname
      simp only [hname] at h
      split at h <;> cases h <;>
        exact ⟨by rw [InsertionMap.insert, keys_alter, if_pos hmem], fun _ => hmem⟩

theorem mem_keys_of_placed {folders : List (ℕ × ℕ)} {names names'}
    (h : folders.foldlM placeFolder names = some names') {folder : ℕ × ℕ}
    (hfolder : folder ∈ folders)
    (hne : folder.1 ≠ 0) : folder.1 - 1 ∈ keys names := by
  induction folders generalizing names with
  | nil => cases hfolder
  | cons first folders ih =>
    rw [foldlM_cons] at h
    cases hstep : placeFolder names first with
    | none => simp [hstep] at h
    | some names₁ =>
      obtain ⟨hkeys, hmem⟩ := keys_placeFolder hstep
      rcases mem_cons.1 hfolder with rfl | hrest
      · exact hmem hne
      · rw [hstep] at h
        exact hkeys ▸ ih h hrest

/-- **A parent that is absent** makes the loop panic. -/
theorem parentsStored_of_built {paths : List DavPath}
    (h : buildNestedHierarchy account.files = some paths) : ParentsStored account := by
  intro id node p hnode hup
  by_contra hnone
  have hedge : (p + 1, id + 1) ∈ hierarchyEdges account.files :=
    mem_hierarchyEdges.2 ⟨id, node, hnode, by rw [hup]; rfl, rfl⟩
  obtain ⟨-, hmem, -⟩ := TopologicalSort.order_spec (nodup_hierarchyEdges account)
  have hplaced : p + 1 ∈ placed account := by
    refine (hmem _).2 (.inl ⟨⟨_, hedge⟩, fun x hx => ?_⟩)
    obtain ⟨id', node', hnode', -, heq⟩ := mem_hierarchyEdges.1 hx
    obtain rfl : p = id' := Nat.succ.inj heq
    exact hnone ⟨node', hnode'⟩
  obtain ⟨names, hnames, -⟩ := Option.map_eq_some_iff.1 h
  obtain ⟨s, hs⟩ := mem_iff_getElem?.1 hplaced
  have hkey := mem_keys_of_placed hnames (mk_mem_zipIdx_iff_getElem?.2 hs) (Nat.succ_ne_zero p)
  have hkeys : keys (hierarchyNames account.files) = keys account.files :=
    placedNames_nil.same_keys
  rw [hkeys] at hkey
  obtain ⟨⟨id', node'⟩, hfile, heq⟩ := mem_map.1 hkey
  obtain rfl : id' = p := heq
  exact hnone ⟨node', mem_files.1 hfile⟩

/-- **Building the paths** gives every node below the root its path exactly when every parent is
there and no other node gets that path. -/
theorem pathsBuilt_iff (account : FileAccount) :
    PathsBuilt account ↔ ParentsStored account ∧ PathsDistinct account := by
  constructor
  · rintro ⟨paths, hbuild, hall⟩
    have hparents := parentsStored_of_built hbuild
    refine ⟨hparents, fun id path id' path' hpath hfinal heq => ?_⟩
    obtain ⟨paths', hbuild', hplaced⟩ := exists_placedPaths hparents
    cases hbuild.symm.trans hbuild'
    have hnode' : ∃ node, account.node id' = some node := by
      rcases hfinal with h | ⟨-, node, hnode, -⟩
      · exact h.stored
      · exact ⟨node, hnode⟩
    obtain ⟨node', hnode'⟩ := hnode'
    obtain ⟨d', hd', rfl⟩ := hplaced.complete id' node' hnode'
    have hd'path : d'.path = path' := by
      rcases pathOf_of_mem_placed hplaced hd', hfinal with
        ⟨h | ⟨hno, n, hn, h⟩, h' | ⟨hno', n', hn', h'⟩⟩
      · exact h.unique h'
      · cases hno' _ h
      · cases hno _ h'
      · rw [h, h', Option.some.inj (hn.symm.trans hn')]
    -- the other node comes first
    obtain ⟨d, hd, rfl, hdpath, -⟩ := hall (d' :: paths.erase d') (perm_cons_erase hd').symm id path
      hpath
    have hsame := (collectPaths_spec _).2.2 d hd d' (mem_collectPaths_cons d' _)
      (by rw [DavPath.text, DavPath.text, hdpath, hd'path, heq])
    rw [hsame]
  · rintro ⟨hparents, hdistinct⟩
    obtain ⟨paths, hbuild, hplaced⟩ := exists_placedPaths hparents
    refine ⟨paths, hbuild, fun values hperm id path hpath => ?_⟩
    obtain ⟨hsub, hcover, -⟩ := collectPaths_spec values
    obtain ⟨node, hnode⟩ := hpath.stored
    obtain ⟨d, hd, rfl⟩ := hplaced.complete id node hnode
    obtain ⟨node', hnode', hup, hin, -⟩ := hplaced.entry d hd
    obtain ⟨hpathOf, hseq⟩ := hin (mem_placed_of_pathOf hpath)
    obtain ⟨d₁, hd₁, htext⟩ := hcover d (hperm.mem_iff.2 hd)
    have hmem₁ := hperm.mem_iff.1 (hsub d₁ hd₁)
    have hsame : d = d₁ := hplaced.inj d hd d₁ hmem₁
      (hdistinct _ _ _ _ hpathOf (pathOf_of_mem_placed hplaced hmem₁) htext.symm)
    subst hsame
    refine ⟨d, hd₁, rfl, hpathOf.unique hpath, fun d' hd' hparent => ?_⟩
    obtain ⟨parent, hparentNode⟩ := hparents _ node' _ hnode' (hup.symm.trans hparent)
    obtain ⟨-, -, -, hin', -⟩ := hplaced.entry d' (hperm.mem_iff.1 (hsub d' hd'))
    have habove : d'.documentId + 1 ∈ placed account := by
      generalize d.path = path' at hpathOf
      cases hpathOf with
      | top hn hnone =>
        rw [hnode'] at hn
        cases hn
        rw [hup, show node'.parent = none from hnone] at hparent
        cases hparent
      | child hn hsome hq =>
        rw [hnode'] at hn
        cases hn
        rw [hup, show node'.parent = some _ from hsome] at hparent
        cases hparent
        exact mem_placed_of_pathOf hq
    exact seq_lt (mem_hierarchyEdges.2 ⟨_, node', hnode', by rw [← hup, hparent]; rfl, rfl⟩)
      (hin' habove).2 hseq

/-- One file at the root, and one left in a folder that was deleted. -/
theorem dangling_parent_panics :
    ¬ PathsBuilt
      ⟨[(0, ⟨0, "notes", some 3, []⟩), (1, ⟨6, "draft", some 4, []⟩)], 1, by decide⟩ := by
  rintro ⟨paths, hbuild, -⟩
  obtain ⟨folder, hfolder⟩ := parentsStored_of_built hbuild 1 _ 5 rfl rfl
  cases hfolder

end MailServer.Dav
