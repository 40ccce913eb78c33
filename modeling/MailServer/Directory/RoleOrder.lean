import MailServer.Directory.RoleWalk
import Mathlib.Order.Lattice.Nat

/-!
# The order of roles

The roles of a role come in some order, and what the walk of `build_role_permissions` gathers
depends on it.  Two directories that differ in this order only give the same sets of roles; and
when the administrator role can be reached through roles that do not disable a permission, there
is an order in which the walk goes that way and stops.

Principal results: `getRolePermissions_hops`; `reaches_congr`, `enables_congr`, `disables_congr` —
what can be reached and what a role gives do not depend on the order.
-/

namespace MailServer.Directory

open MailServer.Store InsertionMap StackWalk List

/-! ## Directories that differ in order only -/

/-- The data other than roles, in order. -/
def Principal.otherData (principal : Principal) : List PrincipalData :=
  principal.data.filter fun item => item.roleId.isNone

/-- The same principal, with its roles in another order. -/
structure Principal.SameButOrder (principal principal' : Principal) : Prop where
  id : principal'.id = principal.id
  typ : principal'.typ = principal.typ
  name : principal'.name = principal.name
  otherData : principal'.otherData = principal.otherData
  roles : principal'.roles.Perm principal.roles

/-- The same principals, with their roles in another order. -/
structure DirectoryStore.SameButOrder (d d' : DirectoryStore) : Prop where
  aclItems : d'.aclItems = d.aclItems
  query : ∀ id, Option.Rel Principal.SameButOrder (d.query id) (d'.query id)

theorem mem_otherData (principal : Principal) {item} (h : item.roleId = none) :
    item ∈ principal.otherData ↔ item ∈ principal.data := by
  unfold Principal.otherData
  rw [mem_filter, h]
  exact and_iff_left rfl

section

variable {principal principal' : Principal} {d d' : DirectoryStore} {table : PermissionTable}

theorem Principal.SameButOrder.assigns (h : principal.SameButOrder principal') {p : Permission}
    {grant : Bool} : principal'.Assigns p grant ↔ principal.Assigns p grant := by
  refine exists_congr fun id => and_congr_right fun _ => ?_
  rw [← mem_otherData principal' rfl, ← mem_otherData principal rfl,
    h.otherData]

section

variable (h : d.SameButOrder d')
include h

theorem DirectoryStore.SameButOrder.exists_query (id : UInt32) {P Q : Principal → Prop}
    (hsame : ∀ principal principal', principal.SameButOrder principal' →
      (Q principal' ↔ P principal)) : (∃ principal, d'.query id = some principal ∧ Q principal) ↔
      ∃ principal, d.query id = some principal ∧ P principal := by
  have hrel := h.query id
  generalize hbefore : d.query id = before at hrel ⊢
  generalize hafter : d'.query id = after at hrel ⊢
  cases hrel with
  | none => simp
  | @some principal principal' hrel => simp [hsame principal principal' hrel]

theorem hasRole_congr : HasRole d' = HasRole d := by
  funext roleId other
  unfold HasRole
  rw [h.exists_query roleId fun principal principal' hsame => hsame.roles.mem_iff]

theorem enables_congr : Enables table d' = Enables table d := by
  funext roleId p
  unfold Enables
  rw [h.exists_query roleId fun principal principal' hsame => hsame.assigns]

theorem disables_congr : Disables d' = Disables d := by
  funext roleId p
  unfold Disables
  rw [h.exists_query roleId fun principal principal' hsame => hsame.assigns]

theorem reaches_congr : Reaches d' = Reaches d := by
  unfold Reaches
  rw [hasRole_congr h]

theorem enabled_congr : Enabled table d' = Enabled table d := by
  funext roleId p
  unfold Enabled
  rw [reaches_congr h, enables_congr h]

theorem disabled_congr : Disabled d' = Disabled d := by
  funext roleId p
  unfold Disabled
  rw [reaches_congr h, disables_congr h]

theorem surelyDisabled_congr : SurelyDisabled d' = SurelyDisabled d := by
  funext roleId p
  unfold SurelyDisabled Avoids
  rw [disabled_congr h, hasRole_congr h, disables_congr h]

theorem allStored_congr : AllStored d' = AllStored d := by
  funext root
  unfold AllStored
  rw [reaches_congr h]
  refine propext (forall_congr' fun roleId => imp_congr_right fun _ => or_congr_right ?_)
  have hquery := h.exists_query roleId (P := fun _ => True) (Q := fun _ => True)
    fun _ _ _ => Iff.rfl
  simpa using hquery

end

end

/-! ## Ways to the administrator role -/

section

variable (d : DirectoryStore) (p : Permission)

/-- The administrator role is so many roles away, through roles that do not disable `p`. -/
def LeadsIn : ℕ → UInt32 → Prop
  | 0, roleId => roleId = ROLE_ADMIN
  | n + 1, roleId => ∃ other, HasRole d roleId other ∧ ¬Disables d roleId p ∧ LeadsIn n other

/-- The length of a shortest way. -/
noncomputable def distance (roleId : UInt32) : ℕ := sInf {n | LeadsIn d p n roleId}

variable {d p} {roleId : UInt32}

theorem exists_leadsIn (h : Avoids d p roleId ROLE_ADMIN) : ∃ n, LeadsIn d p n roleId := by
  induction h using Relation.ReflTransGen.head_induction_on with
  | refl => exact ⟨0, rfl⟩
  | head hstep _ ih =>
    obtain ⟨n, hn⟩ := ih
    exact ⟨n + 1, _, hstep.1, hstep.2, hn⟩

theorem avoids_of_leadsIn {n : ℕ} (h : LeadsIn d p n roleId) : Avoids d p roleId ROLE_ADMIN := by
  induction n generalizing roleId with
  | zero => exact h ▸ .refl
  | succ n ih =>
    obtain ⟨other, hrole, hfree, hother⟩ := h
    exact .head ⟨hrole, hfree⟩ (ih hother)

theorem exists_hop (h : Avoids d p roleId ROLE_ADMIN) (hne : roleId ≠ ROLE_ADMIN) :
    ∃ other, HasRole d roleId other ∧ Avoids d p other ROLE_ADMIN ∧
      distance d p other < distance d p roleId ∧ ¬Disables d roleId p := by
  have hmem : LeadsIn d p (distance d p roleId) roleId := Nat.sInf_mem (exists_leadsIn h)
  cases hn : distance d p roleId with
  | zero =>
    rw [hn] at hmem
    cases hne hmem
  | succ n =>
    rw [hn] at hmem
    obtain ⟨other, hrole, hfree, hother⟩ := hmem
    have hle : distance d p other ≤ n := Nat.sInf_le hother
    exact ⟨other, hrole, avoids_of_leadsIn hother, by omega, hfree⟩

/-- A role that is on a shortest way from `roleId`. -/
def IsHop (d : DirectoryStore) (p : Permission) (roleId other : UInt32) : Prop :=
  Avoids d p other ROLE_ADMIN ∧ distance d p other < distance d p roleId

open Classical in
/-- The roles with one on a shortest way put first. -/
noncomputable def hopFirst (d : DirectoryStore) (p : Permission) (roleId : UInt32)
    (roles : List UInt32) : List UInt32 :=
  if h : ∃ other ∈ roles, IsHop d p roleId other then h.choose :: roles.erase h.choose else roles

theorem hopFirst_perm (d : DirectoryStore) (p : Permission) (roleId : UInt32)
    (roles : List UInt32) : (hopFirst d p roleId roles).Perm roles := by
  unfold hopFirst
  split_ifs with h
  · exact (perm_cons_erase h.choose_spec.1).symm
  · exact .refl _

theorem hopFirst_eq_cons {roles : List UInt32} (h : ∃ other ∈ roles, IsHop d p roleId other) :
    ∃ other rest, hopFirst d p roleId roles = other :: rest ∧ IsHop d p roleId other := by
  unfold hopFirst
  rw [dif_pos h]
  exact ⟨_, _, rfl, h.choose_spec.2⟩

/-! ## The directory in that order -/

/-- The principal with its roles in a given order, in front of its other data. -/
def Principal.withRoles (principal : Principal) (roles : List UInt32) : Principal :=
  { principal with data := roles.map PrincipalData.role ++ principal.otherData }

theorem roles_withRoles (principal : Principal) (roles : List UInt32) :
    (principal.withRoles roles).roles = roles := by
  unfold Principal.roles Principal.withRoles Principal.otherData
  have hroles : (roles.map PrincipalData.role).filterMap PrincipalData.roleId = roles := by
    rw [filterMap_map]
    exact filterMap_some
  have hother : (principal.data.filter fun item => item.roleId.isNone).filterMap
      PrincipalData.roleId = [] := by
    rw [filterMap_eq_nil_iff]
    intro item hitem
    simpa using (mem_filter.1 hitem).2
  rw [filterMap_append, hroles, hother, append_nil]

theorem otherData_withRoles (principal : Principal) (roles : List UInt32) :
    (principal.withRoles roles).otherData = principal.otherData := by
  change (roles.map PrincipalData.role ++ principal.otherData).filter _ = _
  have hroles : (roles.map PrincipalData.role).filter (fun item => item.roleId.isNone) = [] := by
    rw [filter_eq_nil_iff]
    intro item hitem
    obtain ⟨roleId, -, rfl⟩ := mem_map.1 hitem
    exact Bool.false_ne_true
  rw [filter_append, hroles]
  unfold Principal.otherData
  simp

theorem Principal.sameButOrder_withRoles {principal : Principal} {roles : List UInt32}
    (h : roles.Perm principal.roles) : principal.SameButOrder (principal.withRoles roles) :=
  ⟨rfl, rfl, rfl, otherData_withRoles principal roles, by rw [roles_withRoles]; exact h⟩

/-- The directory in which every role has a role on a shortest way first. -/
noncomputable def DirectoryStore.hopsFirst (d : DirectoryStore) (p : Permission) :
    DirectoryStore :=
  { d with principals := d.principals.map fun entry =>
      (entry.1, entry.2.withRoles (hopFirst d p entry.1 entry.2.roles)) }

theorem find_map_values {ν μ : Type} (f : UInt32 → ν → μ) (m : InsertionMap UInt32 ν)
    (key : UInt32) :
    find key (m.map fun entry => (entry.1, f entry.1 entry.2)) = (find key m).map (f key) := by
  induction m with
  | nil => rfl
  | cons entry m ih =>
    rw [map_cons, find, find]
    by_cases hkey : entry.1 = key
    · rw [if_pos hkey, if_pos hkey, ← hkey]
      rfl
    · rw [if_neg hkey, if_neg hkey]
      exact ih

theorem query_hopsFirst (d : DirectoryStore) (p : Permission) (roleId : UInt32) :
    (d.hopsFirst p).query roleId =
      (d.query roleId).map fun principal =>
        principal.withRoles (hopFirst d p roleId principal.roles) :=
  find_map_values
    (fun id (principal : Principal) => principal.withRoles (hopFirst d p id principal.roles))
    d.principals roleId

theorem sameButOrder_hopsFirst (d : DirectoryStore) (p : Permission) :
    d.SameButOrder (d.hopsFirst p) := by
  refine ⟨rfl, fun roleId => ?_⟩
  rw [query_hopsFirst]
  cases d.query roleId with
  | none => exact .none
  | some principal =>
    exact .some (principal.sameButOrder_withRoles (hopFirst_perm d p roleId principal.roles))

/-! ## The walk in that order -/

variable {table : PermissionTable} {acc : Gathered} {cache : RoleCache}

theorem visitRole_hop (table : PermissionTable) (havoids : Avoids d p roleId ROLE_ADMIN)
    (hne : roleId ≠ ROLE_ADMIN)
    (hnew : find roleId acc.cache = none) :
    ∃ acc' other rest,
      visitRole table (d.hopsFirst p) roleId acc = .ok (.enter acc' (other :: rest)) ∧
      IsHop d p roleId other ∧ acc'.cache = acc.cache ∧
      (acc'.permissions.disabled.has p → acc.permissions.disabled.has p) := by
  obtain ⟨other, ⟨hbuiltin, principal, hquery, hmem⟩, hother, hlt, hfree⟩ := exists_hop havoids hne
  obtain ⟨first, rest, hroles, hhop⟩ := hopFirst_eq_cons ⟨other, hmem, hother, hlt⟩
  have hquery' : (d.hopsFirst p).query roleId = some (principal.withRoles (first :: rest)) := by
    rw [query_hopsFirst, hquery, ← hroles]
    rfl
  refine ⟨⟨acc.permissions.union (principal.withRoles (first :: rest)).grantedPermissions,
    acc.cache⟩, first, rest, ?_, hhop, rfl, fun hp => ?_⟩
  · unfold visitRole
    rw [if_neg fun h => hbuiltin (.inl h), if_neg fun h => hbuiltin (.inr (.inl h)),
      if_neg fun h => hbuiltin (.inr (.inr h)), hnew]
    rw [hquery']
    dsimp only
    rw [roles_withRoles, if_neg (cons_ne_nil _ _)]
  · rcases RolePermissions.disabled_union.1 hp with hp | hp
    · exact hp
    · rw [← disables_stored hbuiltin hquery', disables_congr (sameButOrder_hopsFirst d p)] at hp
      cases hfree hp

/-- **The way to the administrator role**: the walk goes down a shortest way and stops there; the
roles that it passes do not disable the permission. -/
theorem run_hops (table : PermissionTable) (acc : Gathered)
    (havoids : Avoids d p roleId ROLE_ADMIN) (rest : List UInt32)
    (stack : List (List UInt32)) (seen : List UInt32)
    (hseen : ∀ a ∈ seen, distance d p roleId < distance d p a)
    (hnew : find roleId acc.cache = none)
    (hnearer : ∀ a, Avoids d p a ROLE_ADMIN → distance d p a < distance d p roleId →
      find a acc.cache = none)
    (hacc : ¬acc.permissions.disabled.has p) :
    ∃ fuel w, run (visitRole table (d.hopsFirst p)) fuel ⟨roleId :: rest, stack, seen, acc⟩ =
        some (.ok w) ∧
      ¬w.acc.permissions.disabled.has p ∧ w.acc.cache = acc.cache := by
  induction hn : distance d p roleId using Nat.strong_induction_on generalizing roleId rest stack
    seen acc with
  | _ n ih =>
    subst hn
    have hmet : roleId ∉ seen := fun hmem => Nat.lt_irrefl _ (hseen roleId hmem)
    by_cases hadmin : roleId = ROLE_ADMIN
    · subst hadmin
      refine ⟨1, ⟨rest, stack, ROLE_ADMIN :: seen, { acc with
        permissions := acc.permissions.union PermissionTable.adminPermissions }⟩, ?_, ?_, rfl⟩
      · unfold run step visitRole
        dsimp only
        rw [if_neg hmet, if_neg (by decide), if_pos rfl]
      · rw [RolePermissions.disabled_union]
        rintro (hp | hp)
        · exact hacc hp
        · exact Permissions.has_new hp
    · obtain ⟨acc', other, children, hvisit, ⟨hother, hlt⟩, hcache, hdisabled⟩ :=
        visitRole_hop table havoids hadmin hnew
      have hclear : ∀ a, Avoids d p a ROLE_ADMIN → distance d p a < distance d p roleId →
          find a acc'.cache = none := by
        rw [hcache]
        exact hnearer
      obtain ⟨fuel, w, hrun, hw, hwcache⟩ := ih (distance d p other) hlt acc' hother children
        (rest :: stack) (roleId :: seen)
        (fun a ha => (mem_cons.1 ha).elim (fun h => h ▸ hlt) fun h => hlt.trans (hseen a h))
        (hclear other hother hlt) (fun a ha hless => hclear a ha (hless.trans hlt))
        (fun hp => hacc (hdisabled hp)) rfl
      refine ⟨fuel + 1, w, ?_, hw, hwcache.trans hcache⟩
      unfold run step
      dsimp only
      rw [if_neg hmet, hvisit]
      exact hrun

/-- Cached roles on the way to the administrator role are far enough away, and do not disable the
permission. -/
def Harmless (d : DirectoryStore) (p : Permission) (bound : ℕ) (cache : RoleCache) : Prop :=
  ∀ roleId s, find roleId cache = some s → Avoids d p roleId ROLE_ADMIN →
    bound ≤ distance d p roleId ∧ ¬s.disabled.has p

/-- **A permission that can be avoided** is not disabled in this order, nor by what is cached then.
-/
theorem getRolePermissions_hops (table : PermissionTable) (havoids : Avoids d p roleId ROLE_ADMIN)
    (hcache : Harmless d p (distance d p roleId) cache) :
    ∃ built, getRolePermissions table (d.hopsFirst p) cache roleId = .ok built ∧
      ¬built.permissions.disabled.has p ∧ Harmless d p (distance d p roleId) built.cache := by
  unfold getRolePermissions
  by_cases huser : roleId = ROLE_USER
  · rw [if_pos huser]
    exact ⟨_, rfl, Permissions.has_new, hcache⟩
  · by_cases hadmin : roleId = ROLE_ADMIN
    · rw [if_neg huser, if_pos hadmin]
      exact ⟨_, rfl, Permissions.has_new, hcache⟩
    · by_cases htenant : roleId = ROLE_TENANT_ADMIN
      · rw [if_neg huser, if_neg hadmin, if_pos htenant]
        exact ⟨_, rfl, Permissions.has_new, hcache⟩
      · rw [if_neg huser, if_neg hadmin, if_neg htenant]
        cases hfind : find roleId cache with
        | some s => exact ⟨⟨s, cache⟩, rfl, (hcache roleId s hfind havoids).2, hcache⟩
        | none =>
          have hnearer : ∀ a, Avoids d p a ROLE_ADMIN → distance d p a < distance d p roleId →
              find a cache = none := by
            intro a ha hlt
            cases hentry : find a cache with
            | none => rfl
            | some s => cases Nat.not_lt.2 (hcache a s hentry ha).1 hlt
          obtain ⟨fuel, w, hrun, hw, hwcache⟩ := run_hops table
            ⟨.empty, cache⟩ havoids [] [] [] (nofun)
            hfind hnearer Permissions.has_new
          have hbuild : buildRolePermissions table (d.hopsFirst p) cache roleId = .ok w.acc := by
            unfold buildRolePermissions
            rw [walk_eq_of_run _ _ hrun]
            rfl
          rw [hbuild]
          refine ⟨_, rfl, hw, fun other s hentry hother => ?_⟩
          rw [hwcache, find_insert] at hentry
          split_ifs at hentry with heq
          · cases hentry
            subst heq
            exact ⟨Nat.le_refl _, hw⟩
          · exact hcache other s hentry hother

end

end MailServer.Directory
