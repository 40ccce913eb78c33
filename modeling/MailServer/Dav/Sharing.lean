import MailServer.Dav.FileCache
import MailServer.Directory.AccessToken

/-!
# Checks of shared rights

The checks that walk the grants of a container: `DavResources` (`common/src/sharing/resources.rs`)
and `effective_acl` (`common/src/sharing/mod.rs`). A bitmap of rights is the set of them.

Principal results: `mem_containerAcl` and its siblings, `checks_agree_iff`.
-/

namespace MailServer.Sharing

open List
open MailServer.Dav (Acl)
open MailServer.Directory (AccessToken)

structure AclGrant where
  accountId : UInt32
  grants : Finset Acl

/-- `access_token.is_member(acl.account_id)`. -/
def AclGrant.isFor (token : AccessToken) (acl : AclGrant) : Bool := token.isMember acl.accountId

/-- A cached resource; only containers have grants. -/
structure DavResource where
  documentId : UInt32
  acls : Option (List AclGrant)

/-- No two containers have the same id; an item may have that of a container. -/
structure DavResources where
  resources : List DavResource
  unique : ∀ r ∈ resources, ∀ r' ∈ resources, r.acls.isSome → r'.acls.isSome →
    r.documentId = r'.documentId → r = r'

/-- The union of the grants to the user. -/
def effectiveAcl (token : AccessToken) (acls : List AclGrant) : Finset Acl :=
  acls.foldl (fun acl item => if item.isFor token then acl ∪ item.grants else acl) ∅

namespace DavResources

variable (self : DavResources) (token : AccessToken)

/-- The grants of the first resource with the id that has any. -/
def aclsOf (documentId : UInt32) : Option (List AclGrant) :=
  self.resources.findSome? fun r => if r.documentId = documentId then r.acls else none

def sharedContainers (checkAcls : List Acl) (matchAny : Bool) : List UInt32 :=
  (self.resources.filter fun r => (r.acls.getD []).any fun acl =>
    acl.isFor token &&
      (let grants := acl.grants ∩ checkAcls.toFinset
       decide (grants = checkAcls.toFinset) || (matchAny && decide (grants ≠ ∅)))).map
    DavResource.documentId

/-- The first grant to the user decides. -/
def hasAccessToContainer (documentId : UInt32) (checkAcls : Finset Acl) : Bool :=
  match ((self.aclsOf documentId).getD []).find? (AclGrant.isFor token) with
  | some acl => decide (acl.grants ∩ checkAcls ≠ ∅)
  | none => false

def containerAcl (documentId : UInt32) : Finset Acl :=
  ((self.aclsOf documentId).getD []).foldl
    (fun acl item => if item.isFor token then acl ∪ item.grants else acl) ∅

end DavResources

/-! ## What the checks ask for -/

/-- Some grant to the user contains the right. -/
def Granted (token : AccessToken) (acls : List AclGrant) (right : Acl) : Prop :=
  ∃ grant ∈ acls, grant.isFor token ∧ right ∈ grant.grants

theorem mem_effectiveAcl (token : AccessToken) (acls : List AclGrant) (right : Acl) :
    right ∈ effectiveAcl token acls ↔ Granted token acls right := by
  have hfold (acc : Finset Acl) : right ∈ acls.foldl (fun acl item =>
      if item.isFor token then acl ∪ item.grants else acl) acc ↔
        right ∈ acc ∨ Granted token acls right := by
    induction acls generalizing acc with
    | nil => simp [Granted]
    | cons grant rest ih =>
      rw [foldl_cons, ih]
      unfold Granted
      split <;> simp [*, or_assoc]
  rw [effectiveAcl, hfold]
  simp

variable {self : DavResources} {token : AccessToken} {container : DavResource}
  {acls : List AclGrant}

section

variable (h : container ∈ self.resources) (hacls : container.acls = some acls)
include h hacls

theorem acls_of_mem {r : DavResource} (hr : r ∈ self.resources)
    (hid : r.documentId = container.documentId) : r.acls = none ∨ r.acls = some acls := by
  cases hsome : r.acls with
  | none => exact .inl rfl
  | some found =>
    rw [self.unique r hr container h (by simp [hsome]) (by simp [hacls]) hid, hacls] at hsome
    exact .inr hsome.symm

theorem aclsOf_eq : self.aclsOf container.documentId = some acls := by
  unfold DavResources.aclsOf
  cases hfind : self.resources.findSome? fun r =>
      if r.documentId = container.documentId then r.acls else none with
  | none =>
    have hnone := List.findSome?_eq_none_iff.1 hfind container h
    simp [hacls] at hnone
  | some found =>
    obtain ⟨r, hr, hfound⟩ := List.exists_of_findSome?_eq_some hfind
    split at hfound
    · rename_i hid
      rcases acls_of_mem h hacls hr hid with hnone | hsome
      · rw [hnone] at hfound
        cases hfound
      · exact hfound.symm.trans hsome
    · cases hfound

theorem mem_containerAcl (right : Acl) :
    right ∈ self.containerAcl token container.documentId ↔ Granted token acls right := by
  unfold DavResources.containerAcl
  rw [aclsOf_eq h hacls]
  exact mem_effectiveAcl token acls right

/-- **One grant to the user has to contain all the rights** that are asked for. -/
theorem mem_sharedContainers (rights : List Acl) :
    container.documentId ∈ self.sharedContainers token rights false ↔
      ∃ grant ∈ acls, grant.isFor token ∧
        ∀ right ∈ rights, right ∈ grant.grants := by
  have hsubset (grants : Finset Acl) :
      grants ∩ rights.toFinset = rights.toFinset ↔ ∀ right ∈ rights, right ∈ grants := by
    simp [Finset.subset_iff]
  simp only [DavResources.sharedContainers, mem_map, mem_filter, any_eq_true,
    Bool.and_eq_true, Bool.false_and, Bool.or_false, decide_eq_true_eq, hsubset]
  constructor
  · rintro ⟨r, ⟨hr, grant, hgrant, hmember⟩, hid⟩
    rcases acls_of_mem h hacls hr hid with hnone | hsome
    · simp [hnone] at hgrant
    · exact ⟨grant, by simpa [hsome] using hgrant, hmember⟩
  · rintro ⟨grant, hgrant, hmember⟩
    exact ⟨container, ⟨h, grant, by simpa [hacls] using hgrant, hmember⟩, rfl⟩

/-- **The first grant to the user decides.** -/
theorem hasAccessToContainer_iff (right : Acl) :
    self.hasAccessToContainer token container.documentId {right} ↔
      ∃ first, acls.find? (AclGrant.isFor token) = some first ∧
        right ∈ first.grants := by
  unfold DavResources.hasAccessToContainer
  rw [aclsOf_eq h hacls, Option.getD_some]
  cases acls.find? (AclGrant.isFor token) with
  | none => simp
  | some first =>
    simp only [decide_eq_true_eq, Option.some.injEq, exists_eq_left']
    rw [← Finset.nonempty_iff_ne_empty]
    constructor
    · rintro ⟨r, hr⟩
      obtain ⟨hgrant, hright⟩ := Finset.mem_inter.1 hr
      exact Finset.mem_singleton.1 hright ▸ hgrant
    · intro hgrant
      exact ⟨right, Finset.mem_inter.2 ⟨hgrant, Finset.mem_singleton_self right⟩⟩

end

/-! ## Agreement -/

/-- The checks for one right mean that some grant to the user contains it, and the check for
several rights means that each of them is effective. -/
structure ChecksAgree (resources : DavResources) (token : AccessToken) (documentId : UInt32)
    (acls : List AclGrant) : Prop where
  hasAccess : ∀ right,
    resources.hasAccessToContainer token documentId {right} ↔ Granted token acls right
  shared : ∀ right,
    documentId ∈ resources.sharedContainers token [right] false ↔ Granted token acls right
  container : ∀ right, right ∈ resources.containerAcl token documentId ↔ Granted token acls right
  effective : ∀ right, right ∈ effectiveAcl token acls ↔ Granted token acls right
  several : ∀ rights ≠ [], documentId ∈ resources.sharedContainers token rights false ↔
    ∀ right ∈ rights, right ∈ resources.containerAcl token documentId

/-- **The checks agree** exactly if the first grant to the user contains every other one. -/
theorem checks_agree_iff (h : container ∈ self.resources) (hacls : container.acls = some acls) :
    ChecksAgree self token container.documentId acls ↔
      ∀ first, acls.find? (AclGrant.isFor token) = some first →
        ∀ grant ∈ acls, grant.isFor token → grant.grants ⊆ first.grants := by
  constructor
  · intro hagree first hfirst grant hgrant hmember right hright
    have haccess := (hagree.hasAccess right).2 ⟨grant, hgrant, hmember, hright⟩
    obtain ⟨first', hfirst', hmem⟩ := (hasAccessToContainer_iff h hacls right).1 haccess
    rw [hfirst, Option.some_inj] at hfirst'
    exact hfirst' ▸ hmem
  · intro hfirst
    have hgranted (right : Acl) (hright : Granted token acls right) :
        ∃ first, acls.find? (AclGrant.isFor token) = some first ∧
          right ∈ first.grants := by
      obtain ⟨grant, hgrant, hmember, hright⟩ := hright
      obtain ⟨first, hfind⟩ := Option.isSome_iff_exists.1
        (List.find?_isSome.2 ⟨grant, hgrant, hmember⟩)
      exact ⟨first, hfind, hfirst first hfind grant hgrant hmember hright⟩
    have hof {first : AclGrant}
        (hfind : acls.find? (AclGrant.isFor token) = some first) :
        first ∈ acls ∧ first.isFor token :=
      ⟨List.mem_of_find?_eq_some hfind, List.find?_some hfind⟩
    refine ⟨fun right => ?_, fun right => ?_, mem_containerAcl h hacls, mem_effectiveAcl token acls,
      fun rights hne => ?_⟩
    · rw [hasAccessToContainer_iff h hacls]
      refine ⟨fun ⟨first, hfind, hright⟩ => ?_, hgranted right⟩
      exact ⟨first, (hof hfind).1, (hof hfind).2, hright⟩
    · rw [mem_sharedContainers h hacls]
      simp [Granted]
    · simp only [mem_sharedContainers h hacls, mem_containerAcl h hacls]
      constructor
      · rintro ⟨grant, hgrant, hmember, hall⟩ right hright
        exact ⟨grant, hgrant, hmember, hall right hright⟩
      · intro hall
        obtain ⟨right, hright⟩ := exists_mem_of_ne_nil rights hne
        obtain ⟨first, hfind, -⟩ := hgranted right (hall right hright)
        refine ⟨first, (hof hfind).1, (hof hfind).2, fun right hright => ?_⟩
        obtain ⟨first', hfind', hmem⟩ := hgranted right (hall right hright)
        rw [hfind, Option.some_inj] at hfind'
        exact hfind' ▸ hmem

/-- A member of two groups, without a permission. -/
def twoGroups : AccessToken where
  primaryId := 1
  memberOf := [2, 3]
  accessTo := []
  tenant := none
  name := "user"
  description := none
  locale := none
  emails := []
  quota := 0
  objectQuota := fun _ => 0
  permissions := .new

/-- A container with one grant to each of the groups. -/
def shared (first second : Acl) : DavResources where
  resources := [⟨7, some [⟨2, {first}⟩, ⟨3, {second}⟩]⟩]
  unique r hr r' hr' _ _ _ := by rw [mem_singleton.1 hr, mem_singleton.1 hr']

theorem checks_agree_shared :
    ChecksAgree (shared .Read .Read) twoGroups 7 [⟨2, {.Read}⟩, ⟨3, {.Read}⟩] :=
  have h : (⟨7, some _⟩ : DavResource) ∈ (shared .Read .Read).resources := mem_singleton.2 rfl
  (checks_agree_iff h rfl).2
    fun first hfirst grant hgrant hmember => by
      cases hfirst
      rcases mem_cons.1 hgrant with rfl | hgrant
      · exact Finset.Subset.refl _
      · rw [mem_singleton.1 hgrant]

/-- The right of the second group is not found, and neither are those of both. -/
theorem checks_disagree :
    (shared .Read .Modify).hasAccessToContainer twoGroups 7 {.Modify} = false ∧
      Acl.Modify ∈ (shared .Read .Modify).containerAcl twoGroups 7 ∧
      7 ∉ (shared .Read .Modify).sharedContainers twoGroups [.Read, .Modify] false ∧
      Acl.Read ∈ (shared .Read .Modify).containerAcl twoGroups 7 := by
  decide +kernel

end MailServer.Sharing
