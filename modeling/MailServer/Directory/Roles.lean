import MailServer.Lib.StackWalk
import MailServer.Directory.Principal

/-!
# Permissions of a role

The permissions that a role gives (`common/src/auth/roles.rs`): `build_role_permissions` walks the
roles of the role with an explicit stack, takes what is cached as it is and stops at the built-in
administrator role.  The directory is given as `query` returns its principals, with the roles they
are members of among their data.

Principal results: `enters_stored` — the walk enters stored roles only, so that it ends; `own_user`,
`own_admin`, `own_tenantAdmin`, `own_stored` — what each kind of role gives by itself; `Own.between`
— a role without roles of its own gives just that.
-/

namespace MailServer.Directory

open MailServer.Store InsertionMap StackWalk

/-! ## The walk -/

def ROLE_ADMIN : UInt32 := 4294967295
def ROLE_TENANT_ADMIN : UInt32 := 4294967294
def ROLE_USER : UInt32 := 4294967293

/-- An entry of the ACL keys, as `acl_query` returns it. -/
structure AclItem where
  toAccountId : UInt32
  toCollection : Collection
  toDocumentId : UInt32
  permissions : UInt64

/-- The principals with their memberships, and the rights that each account was given. -/
structure DirectoryStore where
  principals : InsertionMap UInt32 Principal
  aclItems : UInt32 → List AclItem

/-- `query(QueryParams::id(id))`. -/
def DirectoryStore.query (d : DirectoryStore) (id : UInt32) : Option Principal :=
  find id d.principals

/-- `Permission::is_user_permission` and `Permission::is_tenant_admin_permission`. -/
structure PermissionTable where
  isUserPermission : Permission → Bool
  isTenantAdminPermission : Permission → Bool

/-- The set of the permissions that a table marks. -/
def markedPermissions (mark : Permission → Bool) : Permissions :=
  (List.finRange PERMISSION_COUNT).foldl
    (fun s permission => if mark permission then s.set permission.val else s) .new

namespace PermissionTable

variable (table : PermissionTable)

def userPermissions : RolePermissions := ⟨markedPermissions table.isUserPermission, .new⟩

def tenantAdminPermissions : RolePermissions :=
  ⟨markedPermissions table.isTenantAdminPermission, .new⟩

def adminPermissions : RolePermissions := ⟨.all, .new⟩

end PermissionTable

/-- Errors while rights are gathered. -/
inductive BuildError where
  | rolePrincipalNotFound (id : UInt32)
  | tenantNotFound (id : UInt32)
  | corruptedCollection (item : AclItem)

abbrev RoleCache := InsertionMap UInt32 RolePermissions

/-- What the walk has gathered, and the cache of role permissions. -/
structure Gathered where
  permissions : RolePermissions
  cache : RoleCache

variable (table : PermissionTable) (d : DirectoryStore)

/-- What `build_role_permissions` does with a role that it has not fetched. -/
def visitRole (roleId : UInt32) (acc : Gathered) :
    Except (BuildError × RoleCache) (Visit UInt32 Gathered) :=
  if roleId = ROLE_USER then
    .ok (.leave { acc with permissions := acc.permissions.union table.userPermissions })
  else if roleId = ROLE_ADMIN then
    .ok (.stop { acc with permissions := acc.permissions.union PermissionTable.adminPermissions })
  else if roleId = ROLE_TENANT_ADMIN then
    .ok (.leave { acc with permissions := acc.permissions.union table.tenantAdminPermissions })
  else
    match find roleId acc.cache with
    | some rolePermissions =>
      .ok (.leave { acc with permissions := acc.permissions.union rolePermissions })
    | none =>
      match d.query roleId with
      | none => .error (.rolePrincipalNotFound roleId, acc.cache)
      | some principal =>
        let permissions := acc.permissions.union principal.grantedPermissions
        if principal.roles = [] then
          .ok (.leave ⟨permissions,
            InsertionMap.insert roleId principal.grantedPermissions acc.cache⟩)
        else .ok (.enter ⟨permissions, acc.cache⟩ principal.roles)

/-- The roles that can be entered, with the number of their roles. -/
def DirectoryStore.roleCounts : List (UInt32 × ℕ) :=
  d.principals.map fun entry => (entry.1, entry.2.roles.length)

theorem mem_of_find {key : UInt32} {ν : Type} {m} {v : ν}
    (h : find key m = some v) : (key, v) ∈ m := by
  induction m with
  | nil => cases h
  | cons entry rest ih =>
    unfold find at h
    by_cases hkey : entry.1 = key
    · rw [if_pos hkey, Option.some.injEq] at h
      exact List.mem_cons.2 (.inl (Prod.ext hkey.symm h.symm))
    · rw [if_neg hkey] at h
      exact .tail _ (ih h)

theorem enters_stored {roleId : UInt32} {acc acc' : Gathered} {children : List UInt32}
    (h : visitRole table d roleId acc = .ok (.enter acc' children)) :
    ∃ n, (roleId, n) ∈ d.roleCounts ∧ children.length ≤ n := by
  unfold visitRole at h
  split_ifs at h
  · cases h
  · cases h
  · cases h
  split at h
  · cases h
  · split at h
    · cases h
    · rename_i principal hquery
      split_ifs at h
      · cases h
      · cases h
        exact ⟨_, List.mem_map.2 ⟨_, mem_of_find hquery, rfl⟩, Nat.le_refl _⟩

def buildRolePermissions (cache : RoleCache) (roleId : UInt32) :
    Except (BuildError × RoleCache) Gathered :=
  (walk (visitRole table d) d.roleCounts (fun _ _ _ _ => enters_stored table d)
    ⟨[roleId], [], [], ⟨.empty, cache⟩⟩).map Walk.acc

def getRolePermissions (cache : RoleCache) (roleId : UInt32) :
    Except (BuildError × RoleCache) Gathered :=
  if roleId = ROLE_USER then .ok ⟨table.userPermissions, cache⟩
  else if roleId = ROLE_ADMIN then .ok ⟨PermissionTable.adminPermissions, cache⟩
  else if roleId = ROLE_TENANT_ADMIN then .ok ⟨table.tenantAdminPermissions, cache⟩
  else
    match find roleId cache with
    | some permissions => .ok ⟨permissions, cache⟩
    | none => do
      let built ← buildRolePermissions table d cache roleId
      .ok ⟨built.permissions, InsertionMap.insert roleId built.permissions built.cache⟩

/-! ## What roles give -/

/-- A role that is built in. -/
def IsBuiltin (roleId : UInt32) : Prop :=
  roleId = ROLE_USER ∨ roleId = ROLE_ADMIN ∨ roleId = ROLE_TENANT_ADMIN

instance (roleId : UInt32) : Decidable (IsBuiltin roleId) :=
  inferInstanceAs (Decidable (_ ∨ _))

/-- A role is a member of another one. -/
def HasRole (roleId other : UInt32) : Prop :=
  ¬IsBuiltin roleId ∧ ∃ principal, d.query roleId = some principal ∧ other ∈ principal.roles

def Enables (roleId : UInt32) (p : Permission) : Prop :=
  if roleId = ROLE_USER then table.isUserPermission p = true
  else if roleId = ROLE_ADMIN then True
  else if roleId = ROLE_TENANT_ADMIN then table.isTenantAdminPermission p = true
  else ∃ principal, d.query roleId = some principal ∧ principal.Assigns p true

def Disables (roleId : UInt32) (p : Permission) : Prop :=
  ¬IsBuiltin roleId ∧ ∃ principal, d.query roleId = some principal ∧ principal.Assigns p false

/-- A role is reached from another one through roles of roles. -/
def Reaches : UInt32 → UInt32 → Prop := Relation.ReflTransGen (HasRole d)

/-- A role or one of its roles enables a permission. -/
def Enabled (roleId : UInt32) (p : Permission) : Prop :=
  ∃ other, Reaches d roleId other ∧ Enables table d other p

/-- A role or one of its roles disables a permission. -/
def Disabled (roleId : UInt32) (p : Permission) : Prop :=
  ∃ other, Reaches d roleId other ∧ Disables d other p

/-- A role is reached through roles that do not disable a permission. -/
def Avoids (p : Permission) : UInt32 → UInt32 → Prop :=
  Relation.ReflTransGen fun roleId other => HasRole d roleId other ∧ ¬Disables d roleId p

/-- A permission that a role disables in every order: a role that can be reached disables it, and
one on every way to the administrator role. -/
def SurelyDisabled (roleId : UInt32) (p : Permission) : Prop :=
  Disabled d roleId p ∧ ¬Avoids d p roleId ROLE_ADMIN

/-- All of a role's enabled permissions, and at least the surely disabled ones. -/
structure Between (roleId : UInt32) (s : RolePermissions) : Prop where
  enabled : ∀ p, s.enabled.has p ↔ Enabled table d roleId p
  surely : ∀ p, SurelyDisabled d roleId p → s.disabled.has p
  disabled : ∀ p, s.disabled.has p → Disabled d roleId p

/-- Every entry of the cache is between what the role surely disables and what it can. -/
def SoundCache (cache : RoleCache) : Prop :=
  ∀ roleId s, find roleId cache = some s → ¬IsBuiltin roleId ∧ Between table d roleId s

/-! ## What one role gives by itself -/

theorem has_foldl_mark (mark : Permission → Bool) (ids : List Permission) (s : Permissions)
    (p : Permission) :
    (ids.foldl (fun s permission => if mark permission then s.set permission.val else s) s).has p ↔
      s.has p ∨ p ∈ ids ∧ mark p = true := by
  induction ids generalizing s with
  | nil => simp
  | cons id ids ih =>
    rw [List.foldl_cons, ih, List.mem_cons]
    by_cases hmark : mark id = true
    · rw [if_pos hmark, Permissions.has_set]
      constructor
      · rintro ((h | h) | ⟨hmem, h⟩)
        · exact .inl h
        · obtain rfl : id = p := Fin.ext h
          exact .inr ⟨.inl rfl, hmark⟩
        · exact .inr ⟨.inr hmem, h⟩
      · rintro (h | ⟨rfl | hmem, h⟩)
        · exact .inl (.inl h)
        · exact .inl (.inr rfl)
        · exact .inr ⟨hmem, h⟩
    · rw [if_neg hmark]
      refine or_congr_right (and_congr_left fun h => ?_)
      refine ⟨.inr, fun hmem => hmem.resolve_left ?_⟩
      rintro rfl
      exact hmark h

theorem has_markedPermissions {mark} {p : Permission} :
    (markedPermissions mark).has p ↔ mark p = true := by
  unfold markedPermissions
  rw [has_foldl_mark]
  simp

attribute [irreducible] markedPermissions

variable {table d}

theorem not_hasRole_of_builtin {roleId other : UInt32} (h : IsBuiltin roleId) :
    ¬HasRole d roleId other := fun hrole => hrole.1 h

theorem not_disables_of_builtin {roleId : UInt32} {p : Permission} (h : IsBuiltin roleId) :
    ¬Disables d roleId p := fun hdisables => hdisables.1 h

theorem enables_user {p : Permission} :
    Enables table d ROLE_USER p ↔ table.userPermissions.enabled.has p :=
  has_markedPermissions.symm

theorem enables_admin {p : Permission} : Enables table d ROLE_ADMIN p := by
  trivial

theorem enables_tenantAdmin {p : Permission} :
    Enables table d ROLE_TENANT_ADMIN p ↔ table.tenantAdminPermissions.enabled.has p :=
  has_markedPermissions.symm

section

variable {roleId : UInt32} {principal : Principal} {p : Permission} (hbuiltin : ¬IsBuiltin roleId)
  (hquery : d.query roleId = some principal)
include hbuiltin hquery

theorem enables_stored : Enables table d roleId p ↔ principal.grantedPermissions.enabled.has p := by
  unfold Enables
  rw [if_neg fun h => hbuiltin (.inl h), if_neg fun h => hbuiltin (.inr (.inl h)),
    if_neg fun h => hbuiltin (.inr (.inr h)), grantedPermissions_enabled, hquery]
  simp

theorem disables_stored : Disables d roleId p ↔ principal.grantedPermissions.disabled.has p := by
  unfold Disables
  rw [grantedPermissions_disabled, hquery]
  simp [hbuiltin]

end

theorem hasRole_stored {roleId other : UInt32} {principal : Principal}
    (hbuiltin : ¬IsBuiltin roleId) (hquery : d.query roleId = some principal) :
    HasRole d roleId other ↔ other ∈ principal.roles := by
  unfold HasRole
  rw [hquery]
  simp [hbuiltin]

/-- What a role gives by itself, as a pair of sets. -/
structure Own (table : PermissionTable) (d : DirectoryStore) (roleId : UInt32)
    (s : RolePermissions) : Prop where
  enabled : ∀ p, s.enabled.has p ↔ Enables table d roleId p
  disabled : ∀ p, s.disabled.has p ↔ Disables d roleId p

theorem Own.between {roleId : UInt32} {s} (h : Own table d roleId s)
    (hleaf : ∀ other, ¬HasRole d roleId other) : Between table d roleId s := by
  have honly : ∀ other, Reaches d roleId other → other = roleId := by
    intro other hreach
    rcases hreach.cases_head with rfl | ⟨next, hnext, -⟩
    · rfl
    · cases hleaf next hnext
  refine ⟨fun p => ?_, fun p hsure => ?_, fun p hmem => ?_⟩
  · rw [h.enabled]
    refine ⟨fun henables => ⟨roleId, .refl, henables⟩, ?_⟩
    rintro ⟨other, hreach, henables⟩
    rwa [honly other hreach] at henables
  · obtain ⟨⟨other, hreach, hdisables⟩, -⟩ := hsure
    rw [honly other hreach] at hdisables
    exact (h.disabled p).2 hdisables
  · exact ⟨roleId, .refl, (h.disabled p).1 hmem⟩

theorem own_builtin {roleId : UInt32} {s : Permissions} (hbuiltin : IsBuiltin roleId)
    (henabled : ∀ p, s.has p ↔ Enables table d roleId p) : Own table d roleId ⟨s, .new⟩ :=
  ⟨henabled, fun _ => ⟨fun h => absurd h Permissions.has_new,
    fun h => absurd h (not_disables_of_builtin hbuiltin)⟩⟩

theorem own_stored (table : PermissionTable) {roleId : UInt32} {principal : Principal}
    (hbuiltin : ¬IsBuiltin roleId)
    (hquery : d.query roleId = some principal) :
    Own table d roleId principal.grantedPermissions :=
  ⟨fun _ => (enables_stored hbuiltin hquery).symm, fun _ => (disables_stored hbuiltin hquery).symm⟩

theorem own_user : Own table d ROLE_USER table.userPermissions :=
  own_builtin (.inl rfl) fun _ => enables_user.symm

theorem own_admin : Own table d ROLE_ADMIN PermissionTable.adminPermissions :=
  own_builtin (.inr (.inl rfl)) fun _ => iff_of_true Permissions.has_all enables_admin

theorem own_tenantAdmin : Own table d ROLE_TENANT_ADMIN table.tenantAdminPermissions :=
  own_builtin (.inr (.inr rfl)) fun _ => enables_tenantAdmin.symm

end MailServer.Directory
